import NgxEpoll.Events.Sound

/-!
# What a call of a handler does to one slot

Either the slot stays as it was set up and is at most closed, or the call set it
up anew.

## Untouched fields
-/

namespace NgxEpoll
namespace Events

open Foundation
open NgxEpoll.Core
open ConnPool
open Epoll (Kind CtlOp epollin epollout)

def turn (w : World) :
    List EpollEvent × Option Conn × List Invocation × List Posted × List Posted :=
  (w.pending, w.half, w.log, w.postedAccept, w.posted)

theorem turn_epollCtl (w : World) (op : CtlOp) (fd : Int) (data : Entry)
    (ok : Bool) : turn (epollCtl w op fd data ok).2 = turn w := by
  unfold epollCtl
  split <;> rfl

theorem turn_epollAddEvent (w : World) (k : Kind) (c : Conn) (ok : Bool) :
    turn (epollAddEvent w k c ok) = turn w := by
  obtain ⟨op, heq⟩ := epollAddEvent_eq w k c ok
  rw [heq]
  exact turn_epollCtl w op _ _ ok

theorem turn_epollDelEvent (w : World) (k : Kind) (c : Conn) (ok : Bool) :
    turn (epollDelEvent w k c ok) = turn w := by
  dsimp only [epollDelEvent]
  generalize (if (eventOf (w.mem c) k.other).active = true then CtlOp.mod
    else CtlOp.del) = op
  split
  · exact turn_epollCtl w op _ _ ok
  · exact turn_epollCtl w op _ _ ok

theorem turn_close (w : World) (c : Conn) : turn (close w c) = turn w := by
  unfold close
  split <;> rfl

theorem turn_accept (w : World) (s : Int) : turn (accept w s) = turn w := by
  dsimp only [accept]
  split <;> rfl

theorem turn_act (w : World) (a : Action) : turn (act w a) = turn w := by
  unfold act
  split
  · cases a with
    | accept s => exact turn_accept w s
    | fromMem c s accepted => rfl
    | initConn c => rfl
    | handleEvent k c ok =>
        dsimp only [perform]
        split
        · exact turn_epollAddEvent w k c ok
        · rfl
    | addRead c ok => exact turn_epollAddEvent w _ c ok
    | delEvent k c ok => exact turn_epollDelEvent (setReady w k c false) k c ok
    | ready k c b => rfl
    | close c => exact turn_close w c
    | release c => exact turn_close w c
  · rfl

theorem turn_acts (w : World) (as : List Action) : turn (acts w as) = turn w := by
  induction as generalizing w with
  | nil => rfl
  | cons a as ih => exact (ih (act w a)).trans (turn_act w a)

/-!
## One slot
-/

/-- The slot has not been set up in between.  The descriptor may be gone, which
`closing` says. -/
structure Kept (w w' : World) (d : Conn) (closing : Prop) : Prop where
  gen : w'.gen d = w.gen d
  reinits : w'.reinits d = w.reinits d
  inst : (w'.mem d).read.inst = (w.mem d).read.inst
  accepted : (w'.mem d).read.accepted = (w.mem d).read.accepted
  fd : (w'.mem d).fd = (w.mem d).fd ∨
    closing ∧ (w'.mem d).fd = ngxInvalidFile

theorem Kept.refl (w : World) (d : Conn) (closing : Prop) : Kept w w d closing :=
  ⟨rfl, rfl, rfl, rfl, Or.inl rfl⟩

structure Retaken (w : World) (a : Action) (d : Conn) : Prop where
  taken : exists s, a = Action.accept s ∧ possible w a = true ∧
    (connPoolGetConnection w.mem w.pool w.comm).1 = some d
  gen : (act w a).gen d = w.gen d + 1
  reinits : (act w a).reinits d = w.reinits d + 1
  inst : ((act w a).mem d).read.inst = !(w.mem d).read.inst

def Closes (a : Action) (d : Conn) : Prop :=
  a = Action.close d ∨ a = Action.release d

section Slot

variable {w : World}

theorem kept_setEvent (w : World) (k : Kind) (c d : Conn) (ev : Event)
    (closing : Prop) (h : ev.inst = (eventOf (w.mem c) k).inst)
    (h' : ev.accepted = (eventOf (w.mem c) k).accepted) :
    Kept w { w with mem := Function.update w.mem c (setEvent (w.mem c) k ev) } d
      closing := by
  by_cases hd : d = c
  · subst hd
    refine ⟨rfl, rfl, ?_, ?_, Or.inl ?_⟩
    · dsimp only
      rw [Function.update_self, setEvent_inst _ _ _ h]
    · dsimp only
      rw [Function.update_self, setEvent_accepted _ _ _ h']
    · dsimp only
      rw [Function.update_self, setEvent_fd]
  · refine ⟨rfl, rfl, ?_, ?_, Or.inl ?_⟩
    all_goals
      dsimp only
      rw [Function.update_of_ne hd]

theorem kept_epollCtl {w w' : World} {d : Conn} {closing : Prop}
    (h : Kept w w' d closing) (op : CtlOp) (fd : Int) (data : Entry) (ok : Bool) :
    Kept w (epollCtl w' op fd data ok).2 d closing := by
  unfold epollCtl
  split
  · exact ⟨h.gen, h.reinits, h.inst, h.accepted, h.fd⟩
  · exact h

theorem Kept.trans {w w' w'' : World} {d : Conn} {closing : Prop}
    (h : Kept w w' d closing) (h' : Kept w' w'' d closing) :
    Kept w w'' d closing := by
  refine ⟨h'.gen.trans h.gen, h'.reinits.trans h.reinits,
    h'.inst.trans h.inst, h'.accepted.trans h.accepted, ?_⟩
  rcases h'.fd with hfd | hfd
  · rw [hfd]
    exact h.fd
  · exact Or.inr hfd

theorem kept_epollAddEvent (w : World) (k : Kind) (c d : Conn) (ok : Bool)
    (closing : Prop) : Kept w (epollAddEvent w k c ok) d closing := by
  obtain ⟨op, heq⟩ := epollAddEvent_eq w k c ok
  rw [heq]
  exact (kept_epollCtl (Kept.refl w d closing) op _ _ ok).trans
    (kept_setEvent _ k c d _ closing rfl rfl)

theorem kept_epollDelEvent (w : World) (k : Kind) (c d : Conn) (ok : Bool)
    (closing : Prop) : Kept w (epollDelEvent w k c ok) d closing := by
  dsimp only [epollDelEvent]
  generalize (if (eventOf (w.mem c) k.other).active = true then CtlOp.mod
    else CtlOp.del) = op
  split
  · exact (kept_epollCtl (Kept.refl w d closing) op _ _ ok).trans
      (kept_setEvent _ k c d _ closing rfl rfl)
  · exact kept_epollCtl (Kept.refl w d closing) op _ _ ok

theorem kept_initConn (w : World) (c d : Conn) (closing : Prop) :
    Kept w (initConn w c) d closing := by
  by_cases hd : d = c
  · subst hd
    refine ⟨rfl, rfl, ?_, ?_, Or.inl ?_⟩
    all_goals simp [initConn]
  · refine ⟨rfl, rfl, ?_, ?_, Or.inl ?_⟩
    all_goals simp [initConn, hd]

theorem kept_close (w : World) (c d : Conn) :
    Kept w (close w c) d (c = d) := by
  unfold close
  split
  · rename_i hpos
    by_cases hd : d = c
    · subst hd
      refine ⟨rfl, rfl, ?_, ?_, Or.inr ⟨rfl, ?_⟩⟩
      · simp [connClose, hpos, closeEvent]
      · simp [connClose, hpos, closeEvent]
      · simp [connClose, hpos]
    · refine ⟨rfl, rfl, ?_, ?_, Or.inl ?_⟩
      all_goals
        dsimp only
        rw [connClose_of_ne _ hd]
  · exact Kept.refl w d _

theorem kept_release (w : World) (c d : Conn) :
    Kept w (release w c) d (c = d) := by
  have hclose := kept_close w c d
  obtain ⟨v, hv⟩ := connPoolFreeConnection_apply (close w c).mem (close w c).pool
    (close w c).comm c d
  refine hclose.trans ⟨rfl, rfl, ?_, ?_, Or.inl ?_⟩
  all_goals
    dsimp only [release]
    rw [hv]

theorem act_slot (w : World) (a : Action) (d : Conn) :
    Kept w (act w a) d (Closes a d) ∨ w.gen d = 0 ∨ Retaken w a d := by
  by_cases hpossible : possible w a = true
  · have hact : act w a = perform w a := if_pos hpossible
    cases a with
    | accept s =>
        have hopt := connPoolGetConnection_apply w.mem w.pool w.comm
        cases hget : (connPoolGetConnection w.mem w.pool w.comm).1 with
        | none =>
            refine Or.inl ?_
            obtain ⟨v, hv⟩ := hopt d
            rw [hact]
            dsimp only [perform, accept]
            rw [hget]
            refine ⟨rfl, rfl, ?_, ?_, Or.inl ?_⟩
            all_goals
              dsimp only
              rw [hv]
        | some c =>
            obtain ⟨v, hv⟩ := hopt d
            by_cases hd : d = c
            · subst hd
              refine Or.inr (Or.inr ⟨⟨s, rfl, hpossible, hget⟩, ?_, ?_, ?_⟩)
              · rw [hact]
                dsimp only [perform, accept]
                rw [hget]
                simp [setDefault]
              · rw [hact]
                dsimp only [perform, accept]
                rw [hget]
                simp [setDefault]
              · rw [hact]
                dsimp only [perform, accept]
                rw [hget]
                simp [setDefault, connSetDefault, hv]
            · refine Or.inl ?_
              rw [hact]
              dsimp only [perform, accept]
              rw [hget]
              refine ⟨?_, ?_, ?_, ?_, Or.inl ?_⟩
              all_goals simp [setDefault, connSetDefault, hd, hv]
    | fromMem c s accepted =>
        simp only [possible, Bool.and_eq_true, decide_eq_true_eq] at hpossible
        by_cases hd : d = c
        · subst hd
          exact Or.inr (Or.inl hpossible.2)
        · refine Or.inl ?_
          rw [hact]
          refine ⟨?_, ?_, ?_, ?_, Or.inl ?_⟩
          all_goals simp [perform, fromMem, setDefault, connSetDefault, hd]
    | initConn c =>
        rw [hact]
        exact Or.inl (kept_initConn w c d _)
    | handleEvent k c ok =>
        rw [hact]
        refine Or.inl ?_
        dsimp only [perform]
        split
        · exact kept_epollAddEvent w k c d ok _
        · exact Kept.refl w d _
    | addRead c ok =>
        rw [hact]
        exact Or.inl (kept_epollAddEvent w _ c d ok _)
    | delEvent k c ok =>
        rw [hact]
        refine Or.inl ?_
        have hready : Kept w (setReady w k c false) d
            (Closes (Action.delEvent k c ok) d) :=
          kept_setEvent w k c d _ _ rfl rfl
        exact hready.trans (kept_epollDelEvent (setReady w k c false) k c d ok _)
    | ready k c b =>
        rw [hact]
        exact Or.inl (kept_setEvent w k c d _ _ rfl rfl)
    | close c =>
        rw [hact]
        have hkept := kept_close w c d
        refine Or.inl ⟨hkept.gen, hkept.reinits, hkept.inst, hkept.accepted,
          hkept.fd.imp id ?_⟩
        exact fun hfd => ⟨Or.inl (by rw [hfd.1]), hfd.2⟩
    | release c =>
        rw [hact]
        have hkept := kept_release w c d
        refine Or.inl ⟨hkept.gen, hkept.reinits, hkept.inst, hkept.accepted,
          hkept.fd.imp id ?_⟩
        exact fun hfd => ⟨Or.inr (by rw [hfd.1]), hfd.2⟩
  · rw [act, if_neg hpossible]
    exact Or.inl (Kept.refl w d _)

end Slot

end Events
end NgxEpoll
