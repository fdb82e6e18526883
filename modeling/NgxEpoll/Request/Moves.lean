import NgxEpoll.Request.Output
import Mathlib.Logic.Relation

/-!
# What the output side can do

Everything `nn_conn_output` and its callers do to a connection is a sequence of
the moves below.  An invariant of the output side is proved move by move; the
loops of the source are gone through once, here.
-/

namespace NgxEpoll
namespace Request

open Foundation
open NgxEpoll.Core
open Common
open Relation

def advanceOut (w : World) (k : Nat) : World :=
  { w with
    mc := { w.mc with out := { w.mc.out with pos := w.mc.out.pos + k } }
    trace := { w.trace with sent := w.trace.sent ++ load w.mem w.mc.out.pos k } }

def resetOut (w : World) : World :=
  { w with mc := { w.mc with out := bufferReset w.mc.out } }

inductive Move : World -> World -> Prop where
  | use (w : World) : Move w w.useMc
  | event (w : World) (c : ConnT) (env : Env) (timer : Event)
      (handler : Bool) :
      Move w { w with
        c := c
        env := env
        mc := { w.mc with evTimer := timer, writeEventHandler := handler } }
  | shrink (w : World) : Move w (shrinkOut w)
  | encode (w : World) (n : Nat) (rest : List Nat) :
      w.mc.outTask = n :: rest ->
      encodeCode w n = ngxOk ∨ encodeCode w n = ngxError ->
      Move w (nnConnFreeTask (popOut (encodeNode w n) rest) n)
  | full (w : World) (n : Nat) (rest : List Nat) :
      w.mc.outTask = n :: rest -> encodeCode w n = ngxAgain ->
      Move w (encodeNode w n)
  | hang (w : World) (n : Nat) (rest : List Nat) :
      w.mc.outTask = n :: rest -> encodeCode w n ≠ ngxOk ->
      encodeCode w n ≠ ngxError -> encodeCode w n ≠ ngxAgain ->
      Move w { encodeNode w n with hung := true }
  | send (w : World) (k : Nat) :
      (w.mc.out.memory = true -> k ≤ cSize (bufferSize w.mc.out)) ->
      Move w (advanceOut w k)
  | reset (w : World) :
      (w.mc.out.memory = true -> cSize (bufferSize w.mc.out) = 0) ->
      Move w (resetOut w)
  | finalize (w : World) : Move w (nnConnFinalize w)

abbrev Moves : World -> World -> Prop :=
  ReflTransGen Move

theorem Moves.invariant (Inv : World -> Prop)
    (hmove : forall w w', Inv w -> Move w w' -> Inv w') {w w' : World}
    (h : Moves w w') (hinit : Inv w) : Inv w' := by
  induction h with
  | refl => exact hinit
  | tail _ hlast ih => exact hmove _ _ ih hlast

/-!
## The functions as moves
-/

theorem Moves.single {w w' : World} (h : Move w w') : Moves w w' :=
  ReflTransGen.single h

theorem sendAnswer_cases (size : Nat) (sends : List SendResult) :
    (exists k : Nat, k ≤ size ∧ (sendAnswer size sends).1 = k) ∨
      (sendAnswer size sends).1 = ngxAgain ∨
      (sendAnswer size sends).1 = ngxError := by
  induction sends with
  | nil => exact Or.inr (Or.inl rfl)
  | cons r rest ih =>
      cases r with
      | sent n => exact Or.inl ⟨_, by omega, rfl⟩
      | again => exact Or.inr (Or.inl rfl)
      | error => exact Or.inr (Or.inr rfl)
      | intr => exact ih

theorem sysioUnixSend_code (w : World) (buf size : Nat) :
    (sysioUnixSend w buf size).1 = (sendAnswer size w.env.sends).1 := rfl

theorem sysioUnixSend_failed (w : World) (buf size : Nat)
    (h : (sysioUnixSend w buf size).1 < 0) :
    Moves w (sysioUnixSend w buf size).2 := by
  rw [sysioUnixSend_code] at h
  have hnone : (sendAnswer size w.env.sends).1.toNat = 0 := by omega
  simp only [sysioUnixSend, hnone, load_zero, List.append_nil]
  exact Moves.single (Move.event w _ _ _ _)

/-- A successful `send` out of the output buffer, with the step of `pos` that
follows it. -/
theorem sysioUnixSend_moves (w : World) (size : Nat)
    (h : ¬ (sysioUnixSend w w.mc.out.pos size).1 < 0)
    (hsize : w.mc.out.memory = true -> cSize (bufferSize w.mc.out) = size) :
    let r := sysioUnixSend w w.mc.out.pos size
    r.1.toNat ≤ size ∧
      Moves w { r.2 with mc := { r.2.mc with
        out := { r.2.mc.out with pos := r.2.mc.out.pos + r.1.toNat } } } := by
  rw [sysioUnixSend_code] at h
  rcases sendAnswer_cases size w.env.sends with ⟨k, hk, hcode⟩ | hcode | hcode
  · simp only [sysioUnixSend, hcode, Int.toNat_natCast]
    let u : World :=
      { w with
        c := { w.c with write := { w.c.write with
          ready := w.c.write.ready && (sendAnswer size w.env.sends).2.1 } }
        env := { w.env with sends := (sendAnswer size w.env.sends).2.2 } }
    have hevent : Move w u :=
      Move.event w u.c u.env w.mc.evTimer w.mc.writeEventHandler
    have hsend : Move u (advanceOut u k) := by
      apply Move.send
      intro hmemory
      rw [hsize hmemory]
      exact hk
    exact ⟨hk, ReflTransGen.tail (Moves.single hevent) hsend⟩
  · rw [hcode] at h
    exact absurd (by decide) h
  · rw [hcode] at h
    exact absurd (by decide) h

/-- What the loop of `nn_conn_out_buffer` keeps: `size` counts the bytes that
are still in the buffer. -/
def OutBufferInv (w : World) (s : World × Nat) : Prop :=
  Moves w s.1 ∧
    (s.1.mc.out.memory = true -> cSize (bufferSize s.1.mc.out) = s.2)

theorem cSize_advance {b : Buffer} {k : Nat} (hmemory : b.memory = true)
    (hk : k ≤ cSize (bufferSize b)) :
    cSize (bufferSize { b with pos := b.pos + k }) =
      cSize (bufferSize b) - k := by
  simp only [cSize, bufferSize, bufferInMemory, hmemory, if_pos] at hk ⊢
  omega

theorem OutBufferInv.turn {w : World} {s : World × Nat} (hs : OutBufferInv w s) :
    (nnConnOutBufferTurn s).Meets (OutBufferInv w) (fun r => Moves w r.2) := by
  obtain ⟨hmoves, hsize⟩ := hs
  simp only [nnConnOutBufferTurn]
  split
  · next hzero =>
    refine ReflTransGen.tail hmoves (Move.reset s.1 ?_)
    intro hmemory
    rw [hsize hmemory, hzero]
  · split
    · next hfailed => exact ReflTransGen.trans hmoves (sysioUnixSend_failed _ _ _ hfailed)
    · next hsent =>
      obtain ⟨hle, hsend⟩ := sysioUnixSend_moves s.1 s.2 hsent hsize
      refine ⟨ReflTransGen.trans hmoves hsend, ?_⟩
      intro hmemory
      have hmem : s.1.mc.out.memory = true := hmemory
      rw [← hsize hmem] at hle ⊢
      exact cSize_advance hmem hle

theorem nnConnOutBuffer_moves (w : World) : Moves w (nnConnOutBuffer w).2 := by
  unfold nnConnOutBuffer
  split
  · exact ReflTransGen.refl
  · exact loop_keeps_meets _ (OutBufferInv w) (fun r : Int × World => Moves w r.2)
      (fun _ hs => hs.turn) (fun _ hs => hs.1) ⟨ReflTransGen.refl, fun _ => rfl⟩

theorem nnConnPackTurn_moves (w : World) :
    (nnConnPackTurn w).Meets (Moves w) (Moves w) := by
  have huse : Moves w w.useMc := Moves.single (Move.use w)
  simp only [nnConnPackTurn]
  generalize w.useMc = u at huse
  cases hout : u.mc.outTask with
  | nil => exact huse
  | cons n rest =>
      simp only
      by_cases hok : encodeCode u n = ngxOk
      · rw [if_pos hok]
        exact ReflTransGen.tail huse (Move.encode u n rest hout (Or.inl hok))
      · by_cases hagain : encodeCode u n = ngxAgain
        · rw [if_neg hok, if_pos hagain]
          exact ReflTransGen.tail huse (Move.full u n rest hout hagain)
        · by_cases herr : encodeCode u n = ngxError
          · rw [if_neg hok, if_neg hagain, if_pos herr]
            exact ReflTransGen.tail huse (Move.encode u n rest hout (Or.inr herr))
          · rw [if_neg hok, if_neg hagain, if_neg herr]
            exact ReflTransGen.tail huse (Move.hang u n rest hout hok herr hagain)

theorem Moves.meets {w v : World} {result : Type} {f : result -> World}
    {t : Turn World result} (hv : Moves w v)
    (h : t.Meets (Moves v) (fun r => Moves v (f r))) :
    t.Meets (Moves w) (fun r => Moves w (f r)) :=
  h.mono (fun _ hs => ReflTransGen.trans hv hs) (fun _ hr => ReflTransGen.trans hv hr)

theorem nnConnPack_moves (w : World) : Moves w (nnConnPack w) :=
  loop_keeps_meets _ (Moves w) (Moves w)
    (fun v hv => hv.meets (f := id) (nnConnPackTurn_moves v)) (fun _ hv => hv)
    ReflTransGen.refl

theorem eventHandleWrite_moves (w : World) : Moves w (eventHandleWrite w).2 :=
  Moves.single (Move.event w _ _ _ _)

theorem nnConnOutputTurn_moves (w : World) :
    (nnConnOutputTurn w).Meets (Moves w) (fun r => Moves w r.2) := by
  have hpack : Moves w (nnConnPack (shrinkOut w.useMc)) :=
    ReflTransGen.trans
      (ReflTransGen.tail (Moves.single (Move.use w)) (Move.shrink w.useMc))
      (nnConnPack_moves _)
  simp only [nnConnOutputTurn]
  generalize nnConnPack (shrinkOut w.useMc) = p at hpack ⊢
  have huse : Moves w p.useMc := ReflTransGen.tail hpack (Move.use p)
  have hsend : Moves w (nnConnOutBuffer p.useMc).2 :=
    ReflTransGen.trans huse (nnConnOutBuffer_moves _)
  generalize nnConnOutBuffer p.useMc = r at hsend ⊢
  have hevent : Moves w (eventHandleWrite r.2).2 :=
    ReflTransGen.trans hsend (eventHandleWrite_moves _)
  split
  · exact hpack
  split
  · exact huse
  split
  · exact ReflTransGen.tail hsend (Move.finalize r.2)
  split
  · split
    · exact hevent
    · exact ReflTransGen.tail hevent (Move.event _ _ _ _ _)
  · exact hsend

theorem nnConnOutput_moves (w : World) : Moves w (nnConnOutput w).2 := by
  have huse : Moves w w.useMc := Moves.single (Move.use w)
  simp only [nnConnOutput]
  generalize w.useMc = u at huse ⊢
  split
  · exact huse
  · exact loop_keeps_meets _ (Moves w) (fun r : Int × World => Moves w r.2)
      (fun v hv => hv.meets (nnConnOutputTurn_moves v)) (fun _ hv => hv)
      (ReflTransGen.tail huse (Move.event u _ _ _ _))

theorem nnConnWriteHandler_moves (w : World) :
    Moves w (nnConnWriteHandler w) := by
  have huse : Moves w w.useMc := Moves.single (Move.use w)
  simp only [nnConnWriteHandler]
  generalize w.useMc = u at huse ⊢
  split
  · exact huse
  · split
    · exact ReflTransGen.tail huse (Move.finalize u)
    · apply ReflTransGen.trans _ (nnConnOutput_moves _)
      split
      · exact ReflTransGen.tail huse (Move.event u _ _ _ _)
      · exact huse

theorem nnConnTimerHandlerFront_moves (w : World) :
    Moves w (nnConnTimerHandlerFront w).2 := by
  have huse : Moves w w.useMc := Moves.single (Move.use w)
  simp only [nnConnTimerHandlerFront]
  generalize w.useMc = u at huse ⊢
  have hread : Moves w (eventHandleRead { u with
      mc := { u.mc with evTimer := eventTimerDel u.mc.evTimer } }).2 :=
    ReflTransGen.tail huse (Move.event u _ _ _ _)
  generalize eventHandleRead _ = r at hread ⊢
  split
  · exact ReflTransGen.tail hread (Move.finalize r.2)
  · exact ReflTransGen.trans hread (nnConnWriteHandler_moves r.2)

theorem nnConnOuttask_moves {w : World} (n : Nat)
    (hconn : w.mc.state = ConnState.connected) :
    Moves (pushOut w n) (nnConnOuttask w n).2 := by
  have huse : (pushOut w n).useMc = pushOut w.useMc n := by
    unfold World.useMc pushOut
    split <;> rfl
  simp only [nnConnOuttask, useMc_mc, hconn, ne_eq, not_true_eq_false, if_false]
  rw [← huse]
  exact ReflTransGen.trans (Moves.single (Move.use _)) (nnConnOutput_moves _)

end Request
end NgxEpoll
