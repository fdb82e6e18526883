import NgxEpoll.Request.OutStream

/-!
# The life of a connection

`mc` lies in the pool that `nn_conn_finalize` destroys.  A connection is open,
with its pool, until it is finalized; from then on it is gone, with or without
its pool.  Every handler takes an open connection to an open or a gone one.
-/

namespace NgxEpoll
namespace Request

open Foundation
open NgxEpoll.Core
open Common
open Relation

/-- The part of a world that decides which handlers run, and what became of
the pool. -/
structure Control where
  c : ConnT
  connection : Bool
  writeEventHandler : Bool
  evTimer : Event
  state : ConnState
  destroyed : List (ConnState × Int)
  usedAfterDestroy : Bool

def World.control (w : World) : Control where
  c := w.c
  connection := w.mc.connection
  writeEventHandler := w.mc.writeEventHandler
  evTimer := w.mc.evTimer
  state := w.mc.state
  destroyed := w.trace.destroyed
  usedAfterDestroy := w.trace.usedAfterDestroy

/-- The connection has its pool and has not been finalized. -/
structure Live (w : World) : Prop where
  destroyed : w.trace.destroyed = []
  unused : w.trace.usedAfterDestroy = false
  state : w.mc.state = ConnState.connected

/-- A live connection whose events are in order.  `posted` tells whether its
write event waits in the queue of posted events. -/
structure Open (posted : Bool) (w : World) : Prop extends Live w where
  fd : w.c.fd ≠ ngxInvalidFile
  connection : w.mc.connection = true
  timedout : w.c.write.timedout = false
  handler : posted = true ∨ w.c.write.active = true ∨
    w.c.write.timerSet = true -> w.mc.writeEventHandler = true

/-- The connection has been finalized.  Nothing refers to `mc` any more but the
nodes that `count` counts. -/
structure Gone (w : World) : Prop where
  unused : w.trace.usedAfterDestroy = false
  state : w.mc.state = ConnState.disconnected
  connection : w.mc.connection = false
  timer : w.mc.evTimer.timerSet = false
  destroyed : 0 < w.mc.count ∧ w.trace.destroyed = [] ∨
    w.mc.count ≤ 0 ∧
      w.trace.destroyed = [(ConnState.disconnected, w.mc.count)]

theorem useMc_of_pool {w : World} (h : w.trace.destroyed = []) : w.useMc = w := by
  rw [World.useMc, if_pos h]

theorem Live.useMc_eq {w : World} (h : Live w) : w.useMc = w :=
  useMc_of_pool h.destroyed

theorem Gone.pool {w : World} (h : Gone w) (hcount : 0 < w.mc.count) :
    w.trace.destroyed = [] := by
  refine (h.destroyed.resolve_right (fun hlast => ?_)).2
  have := hlast.1
  omega

theorem Gone.no_pool {w : World} (h : Gone w) (hcount : ¬ 0 < w.mc.count) :
    w.trace.destroyed ≠ [] := by
  have hlast := h.destroyed.resolve_left (fun hpool => hcount hpool.1)
  rw [hlast.2]
  simp

theorem live_of_control {w v : World} (h : Live w)
    (heq : v.control = w.control) : Live v where
  destroyed := (congrArg Control.destroyed heq).trans h.destroyed
  unused := (congrArg Control.usedAfterDestroy heq).trans h.unused
  state := (congrArg Control.state heq).trans h.state

theorem open_of_control {posted : Bool} {w v : World} (h : Open posted w)
    (heq : v.control = w.control) : Open posted v := by
  have hc : v.c = w.c := congrArg Control.c heq
  have hhandler : v.mc.writeEventHandler = w.mc.writeEventHandler :=
    congrArg Control.writeEventHandler heq
  refine ⟨live_of_control h.toLive heq, ?_, ?_, ?_, ?_⟩
  · rw [hc]
    exact h.fd
  · exact (congrArg Control.connection heq).trans h.connection
  · rw [hc]
    exact h.timedout
  · rw [hc, hhandler]
    exact h.handler

theorem gone_of_control {w v : World} (h : Gone w)
    (heq : v.control = w.control) (hcount : v.mc.count = w.mc.count) :
    Gone v where
  unused := (congrArg Control.usedAfterDestroy heq).trans h.unused
  state := (congrArg Control.state heq).trans h.state
  connection := (congrArg Control.connection heq).trans h.connection
  timer := (congrArg (fun k => k.evTimer.timerSet) heq).trans h.timer
  destroyed := by
    rw [hcount, show v.trace.destroyed = w.trace.destroyed from
      congrArg Control.destroyed heq]
    exact h.destroyed

theorem Open.unposted {posted : Bool} {w : World} (h : Open posted w) :
    Open false w :=
  { h with handler := fun hor => h.handler (Or.inr (hor.resolve_left (by simp))) }

/-!
## Freeing nodes
-/

theorem control_releaseData (w : World) (q : Nat) :
    (releaseData w q).control = w.control := by
  unfold releaseData
  simp only
  split <;> rfl

theorem count_releaseData (w : World) (q : Nat) :
    (releaseData w q).mc.count = w.mc.count := by
  unfold releaseData
  simp only
  split <;> rfl

theorem control_nnConnFreeTask {w : World} (h : Live w) (q : Nat) :
    (nnConnFreeTask w q).control = w.control := by
  have hrelease := control_releaseData
    { w with mc := { w.mc with count := w.mc.count - 1 } } q
  have hstate : (releaseData
      { w with mc := { w.mc with count := w.mc.count - 1 } } q).mc.state =
        ConnState.connected :=
    (congrArg Control.state hrelease).trans h.state
  simp only [nnConnFreeTask, h.useMc_eq]
  rw [if_neg]
  · exact hrelease
  · rw [hstate]
    rintro ⟨hdisc, _⟩
    cases hdisc

theorem control_nnConnFreeQueue {w : World} (h : Live w) :
    (nnConnFreeQueue w).control = w.control := by
  refine loop_keeps _ (fun v : World => v.control = w.control)
    (fun v : World => v.control = w.control) ?_ ?_ (fun _ hv => hv) rfl
  · intro v v' hv hturn
    have hlive := live_of_control h hv
    simp only [nnConnFreeQueueTurn, hlive.useMc_eq] at hturn
    split at hturn
    · cases hturn
    · next qn rest _ =>
      cases hturn
      have hpop : Live (popOut v rest) := live_of_control hlive rfl
      exact (control_nnConnFreeTask hpop qn).trans hv
  · intro v r hv hturn
    have hlive := live_of_control h hv
    simp only [nnConnFreeQueueTurn, hlive.useMc_eq] at hturn
    split at hturn
    · cases hturn
      exact hv
    · cases hturn

theorem gone_nnConnFinalizeTail {w : World}
    (hunused : w.trace.usedAfterDestroy = false)
    (hstate : w.mc.state = ConnState.disconnected)
    (hconnection : w.mc.connection = false)
    (htimer : w.mc.evTimer.timerSet = false)
    (hpool : w.trace.destroyed = []) : Gone (nnConnFinalizeTail w) := by
  simp only [nnConnFinalizeTail, useMc_of_pool hpool]
  split
  · next hcount =>
    exact ⟨hunused, hstate, hconnection, htimer, Or.inl ⟨hcount, hpool⟩⟩
  · next hcount =>
    refine ⟨hunused, hstate, hconnection, htimer, Or.inr ⟨?_, ?_⟩⟩
    · exact Int.not_lt.mp hcount
    · simp only [poolDestroy, hpool, hstate, List.nil_append]

theorem gone_nnConnFinalize {w : World} (h : Live w) :
    Gone (nnConnFinalize w) := by
  simp only [nnConnFinalize, h.useMc_eq]
  rw [if_pos h.state]
  let u : World :=
    if w.mc.evTimer.timerSet then
      { w with mc := { w.mc with evTimer := eventTimerDel w.mc.evTimer } }
    else w
  have hu : Live u ∧ u.mc.evTimer.timerSet = false := by
    unfold u
    split
    · exact ⟨⟨h.destroyed, h.unused, h.state⟩, rfl⟩
    · next hset => exact ⟨h, by simpa using hset⟩
  have hclose : Live (nnConnClose u) ∧
      (nnConnClose u).mc.connection = false ∧
      (nnConnClose u).mc.evTimer.timerSet = false := by
    unfold nnConnClose
    split
    · exact ⟨⟨hu.1.destroyed, hu.1.unused, hu.1.state⟩, rfl, hu.2⟩
    · next hconn => exact ⟨hu.1, by simpa using hconn, hu.2⟩
  have hqueue := control_nnConnFreeQueue hclose.1
  have hlive := live_of_control hclose.1 hqueue
  refine gone_nnConnFinalizeTail hlive.unused rfl ?_ ?_ hlive.destroyed
  · exact (congrArg Control.connection hqueue).trans hclose.2.1
  · exact (congrArg (fun k => k.evTimer.timerSet) hqueue).trans hclose.2.2

theorem gone_nnConnFreeTask {w : World} (h : Gone w)
    (hpool : w.trace.destroyed = []) (q : Nat) : Gone (nnConnFreeTask w q) := by
  have hrelease := control_releaseData
    { w with mc := { w.mc with count := w.mc.count - 1 } } q
  let u : World := releaseData
    { w with mc := { w.mc with count := w.mc.count - 1 } } q
  have hunused : u.trace.usedAfterDestroy = false :=
    (congrArg Control.usedAfterDestroy hrelease).trans h.unused
  have hstate : u.mc.state = ConnState.disconnected :=
    (congrArg Control.state hrelease).trans h.state
  have hconnection : u.mc.connection = false :=
    (congrArg Control.connection hrelease).trans h.connection
  have htimer : u.mc.evTimer.timerSet = false :=
    (congrArg (fun k => k.evTimer.timerSet) hrelease).trans h.timer
  have hpool' : u.trace.destroyed = [] :=
    (congrArg Control.destroyed hrelease).trans hpool
  have hcount : u.mc.count = w.mc.count - 1 := count_releaseData _ q
  have hbefore : 0 < w.mc.count :=
    Classical.not_not.mp (fun hnone => h.no_pool hnone hpool)
  simp only [nnConnFreeTask, useMc_of_pool hpool]
  split
  · exact gone_nnConnFinalizeTail hunused hstate hconnection htimer hpool'
  · next hlast =>
    -- The node given back was not the last one.
    refine ⟨hunused, hstate, hconnection, htimer, Or.inl ⟨?_, hpool'⟩⟩
    have hne : u.mc.count ≠ 0 := fun hzero => hlast ⟨hstate, hzero⟩
    change 0 < u.mc.count
    omega

end Request
end NgxEpoll
