import NgxEpoll.Request.Conn
import NgxEpoll.Timer.Armed

/-!
# Flags and nodes

In every run of the functions of `dfs_event_timer.cpp`, from events whose timers
are not set, the flag `timer_set` says whether the node is in the tree.  The
states of a run are also those inside of `event_timers_expire`: after each turn
of its loop and each call of a handler.
-/

namespace NgxEpoll
namespace Timer

open Foundation
open Rbtree

inductive Label where
  | call (fuel : Nat) (c : Call)
  | turn (fuel : Nat) (now : Int)
  | expire (fuel : Nat) (clock : List Nat -> Int) (handlers : Handlers)

def Finding.timers (t : EventTimer) : Finding -> EventTimer
  | Finding.idle => t
  | Finding.due _ _ t' => t'

def step (t : EventTimer) : Label -> Option EventTimer
  | Label.call fuel c => call fuel t c
  | Label.turn fuel now => (checkTimers fuel now t).map (Finding.timers t)
  | Label.expire fuel clock handlers =>
      (eventTimersExpire fuel clock handlers t).map Logged.timers

def Handlers.Valid (sentinel : Nat) (handlers : Handlers) : Prop :=
  forall fired t c, c ∈ handlers fired t -> c.Valid sentinel

def Admits (t : EventTimer) : Label -> Prop
  | Label.call _ c => c.Valid t.timerRbtree.sentinel
  | Label.turn _ _ => True
  | Label.expire _ _ handlers => handlers.Valid t.timerRbtree.sentinel

def Kept (sentinel : Nat) (t : EventTimer) : Prop :=
  exists m, Holds sentinel t m

variable {sentinel : Nat} {t t' : EventTimer}

/-!
## One step
-/

theorem Kept.call {fuel : Nat} {c : Call} (h : Kept sentinel t)
    (hc : c.Valid sentinel) (hrun : call fuel t c = some t') :
    Kept sentinel t' := by
  obtain ⟨m, hm⟩ := h
  obtain ⟨t1, hreturns, hholds⟩ := hm.call hc
  rw [hreturns.unique (steady_call t c) hrun]
  exact ⟨_, hholds⟩

theorem Kept.calls {fuel : Nat} {cs : List Call} {p p' : Logged}
    (h : Kept sentinel p.timers) (hcs : forall c, c ∈ cs -> c.Valid sentinel)
    (hrun : calls fuel p cs = some p') : Kept sentinel p'.timers := by
  induction cs generalizing p with
  | nil =>
      cases hrun
      exact h
  | cons c cs ih =>
      obtain ⟨t, hcall, hrest⟩ := Option.bind_eq_some_iff.mp hrun
      have ht := h.call (hcs c List.mem_cons_self) hcall
      exact ih ht (fun c' hc' => hcs c' (List.mem_cons_of_mem c hc')) hrest

theorem Kept.check {fuel : Nat} {now : Int} {f : Finding} (h : Kept sentinel t)
    (hrun : checkTimers fuel now t = some f) : Kept sentinel (f.timers t) := by
  obtain ⟨m, hm⟩ := h
  rcases hm.check now with
    ⟨hreturns, -⟩ | ⟨node, key, t', hreturns, -, -, -, hholds⟩
  · rw [hreturns.unique (steady_checkTimers t now) hrun]
    exact ⟨m, hm⟩
  · rw [hreturns.unique (steady_checkTimers t now) hrun]
    exact ⟨_, hholds⟩

theorem expireTurn_next {fuel : Nat} {clock : List Nat -> Int}
    {handlers : Handlers} {p p' : Logged}
    (hrun : expireTurn fuel clock handlers p = Turn.next p') :
    exists node key t,
      checkTimers fuel (clock (firedEvents p.log)) p.timers =
        some (Finding.due node key t) ∧
      handle fuel handlers ⟨t, p.log ++ [Act.fire node key]⟩ = some p' := by
  unfold expireTurn at hrun
  cases hcheck : checkTimers fuel (clock (firedEvents p.log)) p.timers with
  | none =>
      rw [hcheck] at hrun
      cases hrun
  | some f =>
      rw [hcheck] at hrun
      cases f with
      | idle => cases hrun
      | due node key t =>
          cases hhandle : handle fuel handlers ⟨t, p.log ++ [Act.fire node key]⟩ with
          | none =>
              simp only [hhandle] at hrun
              cases hrun
          | some p1 =>
              simp only [hhandle] at hrun
              cases hrun
              exact ⟨node, key, t, rfl, hhandle⟩

theorem Kept.turn {fuel : Nat} {clock : List Nat -> Int} {handlers : Handlers}
    {p p' : Logged} (h : Kept sentinel p.timers) (hh : handlers.Valid sentinel)
    (hrun : expireTurn fuel clock handlers p = Turn.next p') :
    Kept sentinel p'.timers := by
  obtain ⟨node, key, t, hcheck, hhandle⟩ := expireTurn_next hrun
  exact Kept.calls (p := ⟨t, _⟩) (h.check hcheck) (hh _ _) hhandle

theorem expireTurn_done {fuel : Nat} {clock : List Nat -> Int}
    {handlers : Handlers} {p p' : Logged}
    (hrun : expireTurn fuel clock handlers p = Turn.done (some p')) : p' = p := by
  unfold expireTurn at hrun
  split at hrun
  · cases hrun
  · cases hrun
    rfl
  · split at hrun
    · cases hrun
    · cases hrun

theorem Kept.expire {fuel : Nat} {clock : List Nat -> Int} {handlers : Handlers}
    {p : Logged} (h : Kept sentinel t) (hh : handlers.Valid sentinel)
    (hrun : eventTimersExpire fuel clock handlers t = some p) :
    Kept sentinel p.timers := by
  refine iterate_keeps (fun p => Kept sentinel p.timers)
    (fun p => Kept sentinel p.timers) ?_ ?_ h hrun
  · exact fun p p' hp hturn => hp.turn hh hturn
  · intro p p' hp hturn
    rw [expireTurn_done hturn]
    exact hp

theorem Kept.sentinel_eq (h : Kept sentinel t) :
    t.timerRbtree.sentinel = sentinel := by
  obtain ⟨m, hm⟩ := h
  exact hm.sentinel

theorem Kept.step {l : Label} (h : Kept sentinel t) (hok : Admits t l)
    (hstep : step t l = some t') : Kept sentinel t' := by
  have hsen := h.sentinel_eq
  cases l with
  | call fuel c =>
      rw [Admits, hsen] at hok
      exact h.call hok hstep
  | turn fuel now =>
      obtain ⟨f, hcheck, rfl⟩ := Option.map_eq_some_iff.mp hstep
      exact h.check hcheck
  | expire fuel clock handlers =>
      rw [Admits, hsen] at hok
      obtain ⟨p, hexpire, rfl⟩ := Option.map_eq_some_iff.mp hstep
      exact h.expire hok hexpire

/-!
## The flags of the connections
-/

section Flags

variable {fuel ev : Nat} {now timer : Int}

theorem timerSet_insertTimer {key : Int}
    (hrun : insertTimer fuel t ev key = some t') :
    t'.timerSet = Function.update t.timerSet ev true := by
  obtain ⟨s, -, rfl⟩ := Option.map_eq_some_iff.mp hrun
  rfl

theorem timerSet_eventTimerDel (hrun : eventTimerDel fuel t ev = some t') :
    t'.timerSet = Function.update t.timerSet ev false := by
  by_cases hset : t.timerSet ev = false
  · rw [eventTimerDel, if_pos hset] at hrun
    cases hrun
    rw [← hset, Function.update_eq_self]
  · rw [eventTimerDel, if_neg hset] at hrun
    obtain ⟨s, -, rfl⟩ := Option.map_eq_some_iff.mp hrun
    rfl

theorem timerSet_eventTimerAdd
    (hrun : eventTimerAdd fuel now t ev timer = some t') :
    t'.timerSet = Function.update t.timerSet ev true := by
  by_cases hset : t.timerSet ev = true
  · by_cases hnear : IsNear (now + timer) (t.timerRbtree.mem ev).key
    · simp only [eventTimerAdd, if_pos hset, if_pos hnear] at hrun
      cases hrun
      rw [← hset, Function.update_eq_self]
    · simp only [eventTimerAdd, if_pos hset, if_neg hnear] at hrun
      obtain ⟨t1, hdel, hinsert⟩ := Option.bind_eq_some_iff.mp hrun
      rw [timerSet_insertTimer hinsert, timerSet_eventTimerDel hdel,
        Function.update_idem]
  · simp only [eventTimerAdd, if_neg hset] at hrun
    exact timerSet_insertTimer hrun

/-- The model of the connections has only the flag of a timer, which goes the
same way. -/
theorem timerSet_agrees (e : Request.Event) :
    (eventTimerAdd fuel now t ev timer = some t' ->
        (Request.eventTimerAdd e).timerSet = t'.timerSet ev) ∧
      (eventTimerDel fuel t ev = some t' ->
        (Request.eventTimerDel e).timerSet = t'.timerSet ev) := by
  constructor
  · intro hrun
    rw [timerSet_eventTimerAdd hrun, Function.update_self]
    rfl
  · intro hrun
    rw [timerSet_eventTimerDel hrun, Function.update_self]
    rfl

end Flags

/-!
## Runs
-/

theorem kept_of_run {mem : Nat -> RbNode} (hsentinel : sentinel ≠ nullptr)
    (hrun : Reaches step Admits (eventTimerInit mem sentinel) t) :
    Kept sentinel t :=
  hrun.invariant (Kept sentinel) (fun _ _ _ h hok hstep => h.step hok hstep)
    ⟨_, holds_init mem hsentinel⟩

/-- The single steps: the head of a turn, and calls. -/
def Single (t : EventTimer) : Label -> Prop
  | Label.expire _ _ _ => False
  | l => Admits t l

theorem calls_reaches {fuel : Nat} {cs : List Call} {p p' : Logged}
    (h : Kept sentinel p.timers) (hcs : forall c, c ∈ cs -> c.Valid sentinel)
    (hrun : calls fuel p cs = some p') : Reaches step Single p.timers p'.timers := by
  induction cs generalizing p with
  | nil =>
      cases hrun
      exact Reaches.refl _
  | cons c cs ih =>
      obtain ⟨t, hcall, hrest⟩ := Option.bind_eq_some_iff.mp hrun
      have hc := hcs c List.mem_cons_self
      have hok : Single p.timers (Label.call fuel c) := by
        change c.Valid p.timers.timerRbtree.sentinel
        rw [h.sentinel_eq]
        exact hc
      have hfirst : Reaches step Single p.timers t := Reaches.single hok hcall
      exact hfirst.trans (ih (h.call hc hcall)
        (fun c' hc' => hcs c' (List.mem_cons_of_mem c hc')) hrest)

theorem expireTurn_reaches {fuel : Nat} {clock : List Nat -> Int}
    {handlers : Handlers} {p p' : Logged} (h : Kept sentinel p.timers)
    (hh : handlers.Valid sentinel)
    (hrun : expireTurn fuel clock handlers p = Turn.next p') :
    Reaches step Single p.timers p'.timers := by
  obtain ⟨node, key, t, hcheck, hhandle⟩ := expireTurn_next hrun
  have hhead : step p.timers (Label.turn fuel (clock (firedEvents p.log))) =
      some t := by
    simp only [step, hcheck, Option.map_some, Finding.timers]
  exact (Reaches.single (show Single _ (Label.turn fuel _) from trivial) hhead).trans
    (calls_reaches (h.check hcheck) (hh _ _) hhandle)

/-- `event_timers_expire` goes through single steps, which are in the runs
too. -/
theorem expire_reaches {fuel : Nat} {clock : List Nat -> Int} {handlers : Handlers}
    {p : Logged} (h : Kept sentinel t) (hh : handlers.Valid sentinel)
    (hrun : eventTimersExpire fuel clock handlers t = some p) :
    Reaches step Single t p.timers := by
  refine iterate_keeps
    (fun p => Kept sentinel p.timers ∧ Reaches step Single t p.timers)
    (fun p => Reaches step Single t p.timers) ?_ ?_ ⟨h, Reaches.refl t⟩ hrun
  · rintro p p' ⟨hp, hreach⟩ hturn
    exact ⟨hp.turn hh hturn, hreach.trans (expireTurn_reaches hp hh hturn)⟩
  · rintro p p' ⟨-, hreach⟩ hturn
    rw [expireTurn_done hturn]
    exact hreach

/-- What `event_timer_add` has done when it has returned `t'`. -/
structure Added (now : Int) (t : EventTimer) (ev : Nat) (timer : Int)
    (t' : EventTimer) : Prop where
  unset : t.timerSet ev = false -> Armed t' ev (now + timer)
  set : t.timerSet ev = true ->
    exists key, Armed t' ev key ∧ IsNear (now + timer) key
  lazy : t.timerSet ev = true ->
    IsNear (now + timer) (t.timerRbtree.mem ev).key -> t' = t

theorem isNear_self (key : Int) : IsNear key key := by
  simp [IsNear, eventTimerLazyDelay]

theorem Holds.added {m : Nat -> Option Int} {ev : Nat} (h : Holds sentinel t m)
    (hvalid : IsEvent sentinel ev) (now timer : Int) :
    exists t', Returns (fun fuel => eventTimerAdd fuel now t ev timer) t' ∧
      Added now t ev timer t' := by
  obtain ⟨t', hreturns, hholds⟩ := h.add hvalid now timer
  refine ⟨t', hreturns, ?_, ?_, ?_⟩
  · intro hset
    rw [h.flag, Option.isSome_eq_false_iff, Option.isNone_iff_eq_none] at hset
    rw [hholds.armed_iff]
    simp only [addTo, hset, Function.update_self]
  · intro hset
    rw [h.flag, Option.isSome_iff_exists] at hset
    obtain ⟨key, hkey⟩ := hset
    simp only [hholds.armed_iff, addTo, hkey]
    by_cases hnear : IsNear (now + timer) key
    · simp only [if_pos hnear]
      exact ⟨key, hkey, hnear⟩
    · simp only [if_neg hnear, Function.update_self]
      exact ⟨now + timer, rfl, isNear_self _⟩
  · intro hset hnear
    obtain ⟨N, hN⟩ := hreturns
    have hrun := hN N (Nat.le_refl N)
    simp only [eventTimerAdd, if_pos hset, if_pos hnear] at hrun
    exact (Option.some.inj hrun).symm

end Timer
end NgxEpoll
