import NgxEpoll.Request.Draining

/-!
# Handlers of an open connection

The write handler, the timer handler and the iterations of the read handler,
called on an open connection.
-/

namespace NgxEpoll
namespace Request

open Foundation
open NgxEpoll.Core
open Common
open Relation

/-!
## The handlers
-/

theorem workable_event {w : World} (h : Workable w) (c : ConnT) (env : Env)
    (timer : Event) :
    Workable { w with
      c := c
      env := env
      mc := { w.mc with evTimer := timer } } :=
  ⟨⟨h.ready.wf, h.ready.small, h.ready.sendable, h.ready.apart, h.ready.nodup⟩,
    h.light, h.hung⟩

theorem nnConnWriteHandler_spec {posted : Bool} {w : World}
    (hopen : Open posted w) (h : Workable w) :
    let v := nnConnWriteHandler w
    Open posted v ∧ Settled v ∨ Gone v ∧ ¬ Settled w := by
  simp only [nnConnWriteHandler, hopen.toLive.useMc_eq]
  rw [if_neg (by rw [hopen.state]; simp), if_neg (by simp [hopen.timedout])]
  split
  · let u : World := { w with c := { w.c with write := eventTimerDel w.c.write } }
    have hu : Open posted u :=
      { hopen with
        handler := fun hor => hopen.handler
          (hor.imp_right (fun hon => Or.inl (hon.resolve_right (by simp [u,
            eventTimerDel])))) }
    refine (nnConnOutput_spec hu (workable_event h _ _ _)).imp_right ?_
    rintro ⟨hgone, hnot⟩
    exact ⟨hgone, fun hsettled => hnot (hsettled.of_same rfl rfl rfl)⟩
  · exact nnConnOutput_spec hopen h

/-- `nn_conn_timer_handler` reaches its read handler with an open connection,
because its write handler finds nothing to send that could fail. -/
theorem nnConnTimerHandlerFront_spec {w : World} (hopen : Open false w)
    (h : Workable w) (hsettled : Settled w) :
    let r := nnConnTimerHandlerFront w
    (r.1 = true ∧ Open false r.2 ∧ Settled r.2) ∨ (r.1 = false ∧ Gone r.2) := by
  simp only [nnConnTimerHandlerFront, hopen.toLive.useMc_eq]
  let u : World := (eventHandleRead
    { w with mc := { w.mc with evTimer := eventTimerDel w.mc.evTimer } }).2
  have hu : Open false u :=
    ⟨⟨hopen.destroyed, hopen.unused, hopen.state⟩, hopen.fd, hopen.connection,
      hopen.timedout, hopen.handler⟩
  have hwork : Workable u := workable_event h _ _ _
  have hsame : Settled u := hsettled.of_same rfl rfl rfl
  split
  · exact Or.inr ⟨rfl, gone_nnConnFinalize hu.toLive⟩
  · left
    have hkept := outKept_of_moves hwork.ready (nnConnWriteHandler_moves u)
    obtain ⟨hopen', hsettled'⟩ := (nnConnWriteHandler_spec hu hwork).resolve_right
      (fun hgone => hgone.2 hsame)
    refine ⟨?_, hopen', hsettled'⟩
    change (!(nnConnWriteHandler u).hung) = true
    rw [hkept.hung, hwork.hung]
    rfl

/-!
## Receiving
-/

/-- What the input side keeps of a live connection. -/
structure ReadKept (w v : World) : Prop where
  fd : v.c.fd = w.c.fd
  write : v.c.write = w.c.write
  connection : v.mc.connection = w.mc.connection
  handler : v.mc.writeEventHandler = w.mc.writeEventHandler
  state : v.mc.state = w.mc.state
  destroyed : v.trace.destroyed = w.trace.destroyed
  unused : v.trace.usedAfterDestroy = w.trace.usedAfterDestroy
  out : v.mc.out = w.mc.out
  outTask : v.mc.outTask = w.mc.outTask

theorem readKept_of_control {w v : World} (h : v.control = w.control)
    (hout : v.mc.out = w.mc.out) (htask : v.mc.outTask = w.mc.outTask) :
    ReadKept w v where
  fd := congrArg (fun k => k.c.fd) h
  write := congrArg (fun k => k.c.write) h
  connection := congrArg Control.connection h
  handler := congrArg Control.writeEventHandler h
  state := congrArg Control.state h
  destroyed := congrArg Control.destroyed h
  unused := congrArg Control.usedAfterDestroy h
  out := hout
  outTask := htask

theorem ReadKept.trans {w v u : World} (h : ReadKept w v)
    (h' : ReadKept v u) : ReadKept w u where
  fd := h'.fd.trans h.fd
  write := h'.write.trans h.write
  connection := h'.connection.trans h.connection
  handler := h'.handler.trans h.handler
  state := h'.state.trans h.state
  destroyed := h'.destroyed.trans h.destroyed
  unused := h'.unused.trans h.unused
  out := h'.out.trans h.out
  outTask := h'.outTask.trans h.outTask

theorem readKept_shrinkIn (w : World) : ReadKept w (shrinkIn w) :=
  readKept_of_control rfl rfl rfl

theorem readKept_resetIn (w : World) : ReadKept w (resetIn w) :=
  readKept_of_control rfl rfl rfl

theorem ReadKept.open {posted : Bool} {w v : World} (h : ReadKept w v)
    (hopen : Open posted w) : Open posted v where
  destroyed := h.destroyed.trans hopen.destroyed
  unused := h.unused.trans hopen.unused
  state := h.state.trans hopen.state
  fd := by rw [h.fd]; exact hopen.fd
  connection := h.connection.trans hopen.connection
  timedout := by rw [h.write]; exact hopen.timedout
  handler := by rw [h.write, h.handler]; exact hopen.handler

theorem ReadKept.settled {w v : World} (h : ReadKept w v)
    (hsettled : Settled w) : Settled v :=
  hsettled.of_same (by rw [h.write]) h.out h.outTask

theorem readKept_recvTurn {w : World} (h : Live w) :
    ReadKept w (afterTurn (nnConnRecvTurn w)) := by
  have hcases := nnConnRecvTurn_cases w
  rw [h.useMc_eq] at hcases
  rcases hcases with heq | ⟨_, heq⟩ | ⟨_, heq⟩
  · rw [heq]
    exact readKept_of_control rfl rfl rfl
  · rw [heq]
    exact readKept_of_control rfl rfl rfl
  · rw [heq]
    exact readKept_of_control rfl rfl rfl

theorem readKept_unread {w : World} (h : Live w) (n : Nat) (rest : List Nat) :
    ReadKept w (nnConnFreeTask (attempt w n rest) n).useMc := by
  have hlive : Live (attempt w n rest) := live_of_control h rfl
  have hcontrol := control_nnConnFreeTask hlive n
  rw [(live_of_control hlive hcontrol).useMc_eq]
  exact readKept_of_control hcontrol
    (congrArg Bytes.out (bytes_nnConnFreeTask _ n)) (mc_nnConnFreeTask _ n).1

theorem readKept_decodeTurn {w : World} (h : Live w) :
    ReadKept w (afterTurn (nnConnDecodeTurn w)) := by
  have hstep := nnConnDecodeTurn_step w
  rw [h.useMc_eq] at hstep
  generalize nnConnDecodeTurn w = turn at hstep
  cases hstep with
  | busy _ => exact ⟨rfl, rfl, rfl, rfl, rfl, rfl, rfl, rfl, rfl⟩
  | underflow _ _ => exact ⟨rfl, rfl, rfl, rfl, rfl, rfl, rfl, rfl, rfl⟩
  | ok n rest _ _ _ => exact readKept_of_control rfl rfl rfl
  | error n rest _ _ _ =>
      exact (readKept_unread h n rest).trans (readKept_resetIn _)
  | again n rest _ _ _ =>
      exact (readKept_unread h n rest).trans (readKept_shrinkIn _)
  | lost n rest _ _ _ _ _ => exact readKept_of_control rfl rfl rfl

end Request
end NgxEpoll
