import NgxEpoll.Server.Step
import NgxEpoll.Request.Intake

/-!
# The steps of the read handler

The server takes the iterations of `nn_conn_recv` and `nn_conn_decode` one by
one.  Taken without a step of another thread in between, they make up
`nn_conn_read_handler` and `nn_conn_timer_handler`.
-/

namespace NgxEpoll
namespace Server

open Foundation
open NgxEpoll.Core
open Common
open Request

/-- The steps of the read handler, once it has been entered. -/
def Reads (_ : State) : Label -> Prop
  | Label.recvIter => True
  | Label.decodeIter => True
  | _ => False

def afterRecv (s : State) (r : Int × World) : State :=
  let w := r.2.useMc
  if readGoesOn r.1 then { s with w := w, pc := Pc.decoding }
  else { s with w := nnConnFinalize w, pc := Pc.idle }

def afterDecode (s : State) (r : Int × World) : State :=
  if r.1 = ngxError then { s with w := nnConnFinalize r.2, pc := Pc.idle }
  else { s with w := r.2, pc := Pc.idle }

theorem nnConnRecvTurn_lowers :
    Lowers (fun _ => True) (fun w : World => w.env.recvs.length)
      nnConnRecvTurn :=
  fun _ _ _ hbody => ⟨trivial, nnConnRecvTurn_recvs hbody⟩

theorem nnConnDecodeTurn_lowers :
    Lowers (fun _ => True) (fun w : World => w.mc.freeTask.length)
      nnConnDecodeTurn := by
  intro w w' _ hbody
  refine ⟨trivial, ?_⟩
  have hstep := nnConnDecodeTurn_step w
  rw [hbody] at hstep
  change w'.mc.freeTask.length < w.mc.freeTask.length
  rw [← useMc_mc w]
  cases hstep with
  | ok n rest _ hfree _ =>
      rw [hfree]
      exact Nat.lt_succ_self rest.length
  | lost n rest _ hfree _ _ _ =>
      rw [hfree]
      exact Nat.lt_succ_self rest.length

theorem reaches_afterRecv (s : State) (hpc : s.pc = Pc.recving) :
    Reaches step Reads s (afterRecv s (nnConnRecv s.w)) := by
  refine loop_induction nnConnRecvTurn_lowers (fun w => (ngxOk, w))
    (fun w r => forall s : State, s.w = w -> s.pc = Pc.recving ->
      Reaches step Reads s (afterRecv s r)) ?_ ?_ trivial s rfl hpc
  · rintro _ r _ hbody s rfl hpc
    apply Reaches.single (a := Label.recvIter) trivial
    simp only [step, hpc, recvIter, hbody, afterRecv]
  · rintro _ w' r _ hbody ih s rfl hpc
    have hstep : step s Label.recvIter = some { s with w := w' } := by
      simp only [step, hpc, recvIter, hbody]
    exact (Reaches.single trivial hstep).trans (ih { s with w := w' } rfl hpc)

theorem reaches_afterDecode (s : State) (hpc : s.pc = Pc.decoding) :
    Reaches step Reads s (afterDecode s (nnConnDecode s.w)) := by
  refine loop_induction nnConnDecodeTurn_lowers (fun w => (ngxOk, w))
    (fun w r => forall s : State, s.w = w -> s.pc = Pc.decoding ->
      Reaches step Reads s (afterDecode s r)) ?_ ?_ trivial s rfl hpc
  · rintro _ r _ hbody s rfl hpc
    apply Reaches.single (a := Label.decodeIter) trivial
    simp only [step, hpc, decodeIter, hbody, afterDecode]
  · rintro _ w' r _ hbody ih s rfl hpc
    have hstep : step s Label.decodeIter = some { s with w := w' } := by
      simp only [step, hpc, decodeIter, hbody]
    exact (Reaches.single trivial hstep).trans (ih { s with w := w' } rfl hpc)

theorem reaches_readHandler (s : State) :
    Reaches step Reads (startRead s)
      { s with w := nnConnReadHandler s.w, pc := Pc.idle } := by
  simp only [startRead, nnConnReadHandler]
  split
  · exact Reaches.refl _
  · let r := nnConnRecv s.w.useMc
    have hrecv : Reaches step Reads { s with w := s.w.useMc, pc := Pc.recving }
        (afterRecv { s with w := s.w.useMc, pc := Pc.recving } r) :=
      reaches_afterRecv _ rfl
    change Reaches step Reads _ { s with
      w := if readGoesOn r.1 = true then _ else nnConnFinalize r.2.useMc
      pc := Pc.idle }
    refine hrecv.trans ?_
    simp only [afterRecv]
    split
    · have hdecode := reaches_afterDecode
        { s with w := r.2.useMc, pc := Pc.decoding } rfl
      convert hdecode using 1
      simp only [afterDecode]
      split <;> rfl
    · exact Reaches.refl _

/-- A read event whose handler is not interrupted is one call of
`nn_conn_read_handler`. -/
theorem reaches_readEvent (s : State) (hfree : s.Free)
    (hfd : s.w.c.fd ≠ ngxInvalidFile) :
    exists t, step s Label.readEvent = some t ∧
      Reaches step Reads t
        { s with w := nnConnReadHandler s.w, pc := Pc.idle } :=
  ⟨startRead s, by simp only [step, hfree, hfd, ne_eq, not_false_eq_true,
    and_self, if_true], reaches_readHandler s⟩

theorem reaches_slowTimer (s : State) (hfree : s.Free)
    (hset : s.w.mc.evTimer.timerSet = true) :
    exists t, step s Label.slowTimer = some t ∧
      Reaches step Reads t
        { s with w := nnConnTimerHandler (expireSlow s.w), pc := Pc.idle } := by
  refine ⟨slowTimer s, by simp only [step, hfree, hset, and_self, if_true], ?_⟩
  simp only [slowTimer, nnConnTimerHandler]
  split
  · exact reaches_readHandler _
  · rw [hfree.2]
    exact Reaches.refl _

end Server
end NgxEpoll
