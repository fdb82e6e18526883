import NgxEpoll.Rbtree.Runs
import NgxEpoll.Foundation.Deadlines

/-!
# Event timers

`dfs_event_timer.cpp`.  An event is named by the address of its field `timer`,
from which the source gets to the event by an offset.  Times are integers; the
source has them as `int64_t`, whose overflow is undefined.  The functions take
the fuel of the loops, and where they read the clock, what it says.
-/

namespace NgxEpoll
namespace Timer

open Foundation
open Rbtree

structure EventTimer where
  timerRbtree : RbtreeT
  timerSet : Nat -> Bool
  timedout : Nat -> Bool

def eventTimerInfinite : Int := -1

def eventTimerLazyDelay : Nat := 300

def eventTimerInit (mem : Nat -> RbNode) (sentinel : Nat) : EventTimer where
  timerRbtree := rbtreeInit mem sentinel
  timerSet := fun _ => false
  timedout := fun _ => false

def eventTimerDel (fuel : Nat) (t : EventTimer) (ev : Nat) : Option EventTimer :=
  if t.timerSet ev = false then some t
  else
    (rbtreeDelete fuel t.timerRbtree ev).map fun s =>
      { t with timerRbtree := s, timerSet := Function.update t.timerSet ev false }

def insertTimer (fuel : Nat) (t : EventTimer) (ev : Nat) (key : Int) :
    Option EventTimer :=
  let s := t.timerRbtree.put ev { t.timerRbtree.mem ev with key := key }
  (rbtreeInsert fuel s ev).map fun s =>
    { t with timerRbtree := s, timerSet := Function.update t.timerSet ev true }

def IsNear (key key' : Int) : Prop :=
  (key - key').natAbs < eventTimerLazyDelay

instance (key key' : Int) : Decidable (IsNear key key') :=
  inferInstanceAs (Decidable (_ < _))

def eventTimerAdd (fuel : Nat) (now : Int) (t : EventTimer) (ev : Nat)
    (timer : Int) : Option EventTimer :=
  let key := now + timer
  if t.timerSet ev = true then
    if IsNear key (t.timerRbtree.mem ev).key then some t
    else (eventTimerDel fuel t ev).bind fun t => insertTimer fuel t ev key
  else insertTimer fuel t ev key

def eventFindTimer (fuel : Nat) (now : Int) (t : EventTimer) : Option Int :=
  if t.timerRbtree.root = t.timerRbtree.sentinel then some eventTimerInfinite
  else
    (rbtreeMin fuel t.timerRbtree t.timerRbtree.root).map fun node =>
      let timer := (t.timerRbtree.mem node).key - now
      if timer > 0 then timer else 0

/-!
## Expiry
-/

inductive Call where
  | add (now : Int) (ev : Nat) (timer : Int)
  | del (ev : Nat)

def call (fuel : Nat) (t : EventTimer) : Call -> Option EventTimer
  | Call.add now ev timer => eventTimerAdd fuel now t ev timer
  | Call.del ev => eventTimerDel fuel t ev

def callLog (t : EventTimer) : Call -> List (Act Nat Int)
  | Call.add now ev timer =>
      if t.timerSet ev = true then
        if IsNear (now + timer) (t.timerRbtree.mem ev).key then []
        else [Act.delete ev, Act.add ev (now + timer)]
      else [Act.add ev (now + timer)]
  | Call.del ev => if t.timerSet ev = false then [] else [Act.delete ev]

structure Logged where
  timers : EventTimer
  log : List (Act Nat Int)

def calls (fuel : Nat) (p : Logged) : List Call -> Option Logged
  | [] => some p
  | c :: cs =>
      (call fuel p.timers c).bind fun t =>
        calls fuel ⟨t, p.log ++ callLog p.timers c⟩ cs

/-- The calls of the handlers: they may depend on the events that have been
fired, the last of which is the one that is handled, and on the timers. -/
abbrev Handlers : Type :=
  List Nat -> EventTimer -> List Call

def takeTimer (fuel : Nat) (t : EventTimer) (node : Nat) : Option EventTimer :=
  (rbtreeDelete fuel t.timerRbtree node).map fun s =>
    { timerRbtree := s
      timerSet := Function.update t.timerSet node false
      timedout := Function.update t.timedout node true }

inductive Finding where
  | idle
  | due (node : Nat) (key : Int) (t : EventTimer)

def checkTimers (fuel : Nat) (now : Int) (t : EventTimer) : Option Finding :=
  if t.timerRbtree.root = t.timerRbtree.sentinel then some Finding.idle
  else
    (rbtreeMin fuel t.timerRbtree t.timerRbtree.root).bind fun node =>
      let key := (t.timerRbtree.mem node).key
      if key ≤ now then (takeTimer fuel t node).map (Finding.due node key)
      else some Finding.idle

def firedEvents (log : List (Act Nat Int)) : List Nat :=
  (fires log).map Prod.fst

def handle (fuel : Nat) (handlers : Handlers) (p : Logged) : Option Logged :=
  calls fuel p (handlers (firedEvents p.log) p.timers)

def expireTurn (fuel : Nat) (clock : List Nat -> Int) (handlers : Handlers)
    (p : Logged) : Turn Logged (Option Logged) :=
  match checkTimers fuel (clock (firedEvents p.log)) p.timers with
  | none => Turn.done none
  | some Finding.idle => Turn.done (some p)
  | some (Finding.due node key t) =>
      match handle fuel handlers ⟨t, p.log ++ [Act.fire node key]⟩ with
      | none => Turn.done none
      | some p' => Turn.next p'

/-- `event_timers_expire`, with the log of its calls.  The clock is read in each
turn. -/
def eventTimersExpire (fuel : Nat) (clock : List Nat -> Int) (handlers : Handlers)
    (t : EventTimer) : Option Logged :=
  iterate (expireTurn fuel clock handlers) (fun _ => none) fuel ⟨t, []⟩

/-!
## More fuel
-/

section Fuel

variable (t : EventTimer) (ev : Nat) (now : Int)

theorem steady_rbtreeDelete (s : RbtreeT) :
    Steady fun fuel => rbtreeDelete fuel s ev :=
  fun _ _ _ h hle => rbtreeDelete_mono h hle

theorem steady_rbtreeInsert (s : RbtreeT) :
    Steady fun fuel => rbtreeInsert fuel s ev :=
  fun _ _ _ h hle => rbtreeInsert_mono h hle

theorem steady_rbtreeMin (s : RbtreeT) : Steady fun fuel => rbtreeMin fuel s ev :=
  fun _ _ _ h hle => rbtreeMin_mono h hle

theorem steady_eventTimerDel : Steady fun fuel => eventTimerDel fuel t ev := by
  by_cases hset : t.timerSet ev = false
  · simp only [eventTimerDel, if_pos hset]
    exact steady_const _
  · simp only [eventTimerDel, if_neg hset]
    exact (steady_rbtreeDelete ev _).map _

theorem steady_insertTimer (key : Int) :
    Steady fun fuel => insertTimer fuel t ev key :=
  (steady_rbtreeInsert ev _).map _

theorem steady_call (c : Call) : Steady fun fuel => call fuel t c := by
  cases c with
  | add now ev timer =>
      simp only [call, eventTimerAdd]
      split
      · split
        · exact steady_const _
        · exact (steady_eventTimerDel t ev).bind fun t => steady_insertTimer t ev _
      · exact steady_insertTimer t ev _
  | del ev => exact steady_eventTimerDel t ev

theorem steady_checkTimers : Steady fun fuel => checkTimers fuel now t := by
  simp only [checkTimers]
  split
  · exact steady_const _
  · refine (steady_rbtreeMin _ _).bind fun node => ?_
    split
    · exact ((steady_rbtreeDelete node _).map _).map _
    · exact steady_const _

end Fuel

end Timer
end NgxEpoll
