import NgxEpoll.Request.Waiting
import NgxEpoll.Common.EncodeBounds

/-!
# The rounds of `nn_conn_output`

Three loops are nested in `nn_conn_output`: the jump back to `repack`, the loop
that encodes queued tasks, and the loop of `nn_conn_out_buffer`.  This module
looks at each of their rounds, for tasks of any `data_len`.
-/

namespace NgxEpoll
namespace Request

open Foundation
open NgxEpoll.Core
open Common

/-- `mc->out`: a well-formed buffer.  One of `2 ^ 31` bytes or more stays empty,
because its free space is a negative `int`. -/
def OutSized (b : Buffer) : Prop :=
  b.Wf ∧ (b.endPtr - b.start < 2 ^ 31 ∨
    b.pos = b.start ∧ b.last = b.start ∧ b.endPtr - b.start < 2 ^ 32)

def unsent (w : World) : Nat :=
  (bufferSize w.mc.out).toNat +
    (w.mc.outTask.map fun n => (w.mc.nodes n).needSize.toNat).sum

/-- A round of the encode loop removes the head of `out_task`, or it leaves the
loop. -/
def PackRound (w : World) : Prop :=
  match nnConnPackTurn w with
  | Turn.next w' => exists n, w.mc.outTask = n :: w'.mc.outTask
  | Turn.done w' => w'.hung = w.hung

/-- A round of `nn_conn_out_buffer` sends at least one byte, or it returns. -/
def SendRound (s : World × Nat) : Prop :=
  forall s', nnConnOutBufferTurn s = Turn.next s' ->
    s'.2 < s.2 ∧ s.1.trace.sent.length < s'.1.trace.sent.length

def outputStart (w : World) : World :=
  setHandler w.useMc

/-- `nn_conn_output` gets to the label `repack` in the world `v`. -/
def AtRepack (w v : World) : Prop :=
  (!w.c.write.ready && decide (0 < bufferSize w.mc.out)) = false ∧
    Turns nnConnOutputTurn (outputStart w) v

/-- From `repack` the encode loop gets to the world `u`. -/
def AtPack (v u : World) : Prop :=
  Turns nnConnPackTurn (shrinkOut v.useMc) u

/-- From `repack` the loop of `nn_conn_out_buffer` gets to the state `s`. -/
def AtSend (v : World) (s : World × Nat) : Prop :=
  let p := nnConnPack (shrinkOut v.useMc)
  p.hung = false ∧ bufferSize p.mc.out ≠ 0 ∧ p.c.write.ready = true ∧
    Turns nnConnOutBufferTurn (p.useMc, cSize (bufferSize p.mc.out)) s

/-- Every round gets on, and no loop runs for ever. -/
structure Progresses (w : World) : Prop where
  packs : forall v u, AtRepack w v -> AtPack v u -> PackRound u
  sends : forall v s, AtRepack w v -> AtSend v s -> SendRound s
  repacks : forall v v', AtRepack w v -> nnConnOutputTurn v = Turn.next v' ->
    v.trace.sent.length < v'.trace.sent.length ∧ unsent v' < unsent v
  leaves : Leaves nnConnOutputTurn (outputStart w)
  returns : (nnConnOutput w).2.hung = false

/-- The head of `out_task` fits and its size is not below -2. -/
def HeadEncodes (u : World) : Prop :=
  forall n rest, u.mc.outTask = n :: rest -> 0 < bufferFreeSize u.mc.out ->
    (u.mc.nodes n).needSize ≤ cInt (bufferFreeSize u.mc.out) ->
      -2 ≤ (u.mc.nodes n).needSize

/-- The first answer of `send` that is not `EINTR`. -/
def nextAnswer : List SendResult -> SendResult
  | [] => SendResult.again
  | SendResult.intr :: rest => nextAnswer rest
  | r :: _ => r

def SendTakes (s : World × Nat) : Prop :=
  s.2 ≠ 0 -> nextAnswer s.1.env.sends ≠ SendResult.sent 0

/-!
## Rounds of the encode loop
-/

/-- What the rounds see of a world besides the buffer: the queue, the sizes of
the tasks, the bytes sent. -/
structure Kept (w v : World) : Prop where
  sizes : forall n, (v.mc.nodes n).needSize = (w.mc.nodes n).needSize
  sent : v.trace.sent = w.trace.sent

theorem sizes_releaseData (w : World) (q n : Nat) :
    ((releaseData w q).mc.nodes n).needSize = (w.mc.nodes n).needSize := by
  unfold releaseData
  simp only
  split
  · simp only [Function.update_apply]
    split
    · next heq =>
      rw [heq]
      rfl
    · rfl
  · rfl

theorem kept_nnConnFreeTask (w : World) (q : Nat) : Kept w (nnConnFreeTask w q) := by
  have hbytes := bytes_nnConnFreeTask w q
  refine ⟨fun n => ?_, congrArg Bytes.sent hbytes⟩
  rw [← useMc_mc w]
  unfold nnConnFreeTask
  simp only
  generalize w.useMc = u
  have hrelease := sizes_releaseData
    { u with mc := { u.mc with count := u.mc.count - 1 } } q n
  split
  · rw [mc_nnConnFinalizeTail]
    exact hrelease
  · exact hrelease

theorem OutSized.size_nonneg {b : Buffer} (h : OutSized b) : 0 ≤ bufferSize b := by
  have := h.1.pos_le_last
  rw [h.1.size_eq]
  omega

theorem OutSized.append {b : Buffer} (h : OutSized b) {need : Int} (hpos : 0 < need)
    (hfit : need ≤ cInt (bufferFreeSize b)) :
    OutSized { b with last := b.last + need.toNat } ∧
      bufferSize { b with last := b.last + need.toNat } = bufferSize b + need := by
  obtain ⟨hwf, hsized⟩ := h
  have hle := hwf.last_le_end
  have hfree : bufferFreeSize b = ((b.endPtr - b.last : Nat) : Int) := by
    unfold bufferFreeSize
    omega
  have hcint := cInt_le_self (n := bufferFreeSize b) (by omega)
  have hsmall : b.endPtr - b.start < 2 ^ 31 := by
    rcases hsized with hsmall | ⟨-, hlast, hlt⟩
    · exact hsmall
    · by_contra hbig
      rw [cInt_eq] at hfit
      split at hfit
      · omega
      · omega
  constructor
  · refine ⟨⟨hwf.memory, hwf.start_le_pos, ?_, ?_, hwf.end_lt⟩, Or.inl hsmall⟩
    · have := hwf.pos_le_last
      simp only
      omega
    · simp only
      omega
  · simp only [bufferSize, bufferInMemory, hwf.memory, if_true]
    omega

/-- `task_encode` on the output buffer: whatever the code, the buffer stays in
order, and a task that is not refused takes its size. -/
theorem encodeNode_sized {u : World} (hsized : OutSized u.mc.out) (n : Nat) :
    OutSized (encodeNode u n).mc.out ∧
      (encodeCode u n ≠ ngxAgain -> bufferSize (encodeNode u n).mc.out =
        bufferSize u.mc.out + (u.mc.nodes n).needSize.toNat) ∧
      (encodeCode u n ≠ ngxOk -> (encodeNode u n).mc.out = u.mc.out) := by
  unfold encodeCode encodeNode
  simp only
  rcases taskEncode_cases u.mem (u.mc.nodes n) u.mc.out with
    ⟨-, heq⟩ | ⟨-, hfit, ⟨hneg, -, hbuf⟩ | ⟨hpos, hcode, hbuf⟩⟩
  · rw [heq]
    exact ⟨hsized, fun h => absurd rfl h, fun _ => rfl⟩
  · rw [hbuf]
    exact ⟨hsized, fun _ => by omega, fun _ => rfl⟩
  · obtain ⟨hout, hsize⟩ := hsized.append hpos hfit
    rw [hbuf, hcode]
    refine ⟨hout, fun _ => ?_, fun h => absurd rfl h⟩
    rw [hsize]
    omega

/-- What the encode loop keeps from one world to a later one. -/
structure Packing (w v : World) : Prop where
  sized : OutSized v.mc.out
  unsent : Request.unsent v = Request.unsent w
  sent : v.trace.sent = w.trace.sent
  sizes : forall n, (v.mc.nodes n).needSize = (w.mc.nodes n).needSize

theorem Packing.trans {w v u : World} (h : Packing w v) (h' : Packing v u) :
    Packing w u where
  sized := h'.sized
  unsent := h'.unsent.trans h.unsent
  sent := h'.sent.trans h.sent
  sizes := fun n => (h'.sizes n).trans (h.sizes n)

theorem packing_useMc {w : World} (h : OutSized w.mc.out) : Packing w w.useMc := by
  constructor
  · rwa [useMc_mc]
  · unfold Request.unsent
    rw [useMc_mc]
  · unfold World.useMc
    split <;> rfl
  · intro n
    rw [useMc_mc]

theorem packing_removed {u : World} {qe : Nat} {rest : List Nat}
    (hsized : OutSized u.mc.out) (hqueue : u.mc.outTask = qe :: rest)
    (hcode : encodeCode u qe ≠ ngxAgain) :
    Packing u (nnConnFreeTask (popOut (encodeNode u qe) rest) qe) ∧
      (nnConnFreeTask (popOut (encodeNode u qe) rest) qe).mc.outTask = rest ∧
      (nnConnFreeTask (popOut (encodeNode u qe) rest) qe).hung = u.hung := by
  obtain ⟨hout, hsize, -⟩ := encodeNode_sized hsized qe
  have hsize := hsize hcode
  have hnonneg := hsized.size_nonneg
  have hbytes := bytes_nnConnFreeTask (popOut (encodeNode u qe) rest) qe
  have hrest := (mc_nnConnFreeTask (popOut (encodeNode u qe) rest) qe).1
  have hkept := kept_nnConnFreeTask (popOut (encodeNode u qe) rest) qe
  have hbuf : (nnConnFreeTask (popOut (encodeNode u qe) rest) qe).mc.out =
      (encodeNode u qe).mc.out := congrArg Bytes.out hbytes
  have hsizes : forall n,
      ((nnConnFreeTask (popOut (encodeNode u qe) rest) qe).mc.nodes n).needSize =
        (u.mc.nodes n).needSize := hkept.sizes
  have hrest : (nnConnFreeTask (popOut (encodeNode u qe) rest) qe).mc.outTask = rest :=
    hrest
  refine ⟨⟨?_, ?_, hkept.sent, hsizes⟩, hrest, congrArg Bytes.hung hbytes⟩
  · rw [hbuf]
    exact hout
  · generalize nnConnFreeTask (popOut (encodeNode u qe) rest) qe = v at hbuf hsizes hrest
    unfold unsent
    rw [hbuf, hrest, hqueue, hsize]
    simp only [hsizes, List.map_cons, List.sum_cons]
    omega

/-- A round of the encode loop: the queue is empty, or its head is removed, or
it is refused, or it has a code that the loop does not know. -/
inductive PackStep (u : World) : Turn World World -> Prop where
  | empty : u.mc.outTask = [] -> PackStep u (Turn.done u)
  | removed (qe : Nat) (rest : List Nat) :
      u.mc.outTask = qe :: rest -> encodeCode u qe = ngxOk ∨ encodeCode u qe = ngxError ->
      PackStep u (Turn.next (nnConnFreeTask (popOut (encodeNode u qe) rest) qe))
  | refused (qe : Nat) (rest : List Nat) :
      u.mc.outTask = qe :: rest -> encodeCode u qe = ngxAgain ->
      PackStep u (Turn.done (encodeNode u qe))
  | unknown (qe : Nat) (rest : List Nat) :
      u.mc.outTask = qe :: rest -> encodeCode u qe ≠ ngxOk ->
      encodeCode u qe ≠ ngxAgain -> encodeCode u qe ≠ ngxError ->
      PackStep u (Turn.done { encodeNode u qe with hung := true })

theorem nnConnPackTurn_step (w : World) : PackStep w.useMc (nnConnPackTurn w) := by
  simp only [nnConnPackTurn]
  generalize w.useMc = u
  split
  · next hqueue => exact PackStep.empty hqueue
  · next qe rest hqueue =>
    split
    · next hok => exact PackStep.removed qe rest hqueue (Or.inl hok)
    · next hok =>
      split
      · next hagain => exact PackStep.refused qe rest hqueue hagain
      · next hagain =>
        split
        · next herr => exact PackStep.removed qe rest hqueue (Or.inr herr)
        · next herr => exact PackStep.unknown qe rest hqueue hok hagain herr

theorem packTurn_next {w w' : World} (hsized : OutSized w.mc.out)
    (hturn : nnConnPackTurn w = Turn.next w') :
    (exists n, w.mc.outTask = n :: w'.mc.outTask) ∧ Packing w w' ∧
      w'.hung = w.hung := by
  have hstep := nnConnPackTurn_step w
  have hused := packing_useMc hsized
  rw [hturn] at hstep
  rw [← useMc_mc w, ← useMc_hung w]
  cases hstep with
  | removed qe rest hqueue hcode =>
      have hnot : encodeCode w.useMc qe ≠ ngxAgain := by
        rcases hcode with hcode | hcode
        · rw [hcode]
          decide
        · rw [hcode]
          decide
      obtain ⟨hpacking, hrest, hhung⟩ := packing_removed hused.sized hqueue hnot
      refine ⟨⟨qe, ?_⟩, hused.trans hpacking, hhung⟩
      rw [hrest]
      exact hqueue

theorem packTurn_done {w w' : World} (hsized : OutSized w.mc.out)
    (hturn : nnConnPackTurn w = Turn.done w') : Packing w w' := by
  have hstep := nnConnPackTurn_step w
  have hused := packing_useMc hsized
  rw [hturn] at hstep
  have hrefused : forall qe, encodeCode w.useMc qe ≠ ngxOk -> forall hung,
      Packing w.useMc { encodeNode w.useMc qe with hung := hung } := by
    intro qe hcode hung
    have hbuf := (encodeNode_sized hused.sized qe).2.2 hcode
    constructor
    · change OutSized (encodeNode w.useMc qe).mc.out
      rw [hbuf]
      exact hused.sized
    · change (bufferSize (encodeNode w.useMc qe).mc.out).toNat + _ = _
      rw [hbuf]
      rfl
    · rfl
    · exact fun _ => rfl
  cases hstep with
  | empty _ => exact hused
  | refused qe rest hqueue hcode =>
      refine hused.trans (hrefused qe ?_ w.useMc.hung)
      rw [hcode]
      decide
  | unknown qe rest hqueue hok _ _ => exact hused.trans (hrefused qe hok true)

theorem packTurn_lowers :
    Lowers (fun w : World => OutSized w.mc.out) (fun w => w.mc.outTask.length)
      nnConnPackTurn := by
  intro w w' hsized hturn
  obtain ⟨⟨n, hqueue⟩, hpacking, -⟩ := packTurn_next hsized hturn
  refine ⟨hpacking.sized, ?_⟩
  simp only [hqueue, List.length_cons]
  exact Nat.lt_succ_self _

theorem nnConnPack_packing {w : World} (hsized : OutSized w.mc.out) :
    Packing w (nnConnPack w) := by
  refine loop_induction packTurn_lowers id (fun s r => Packing s r) ?_ ?_ hsized
  · intro s r hs hturn
    exact packTurn_done hs hturn
  · intro s s' r hs hturn hrest
    exact (packTurn_next hs hturn).2.1.trans hrest

theorem nnConnPack_hung {w : World} (hsized : OutSized w.mc.out)
    (hrounds : forall u, Turns nnConnPackTurn w u -> PackRound u) :
    (nnConnPack w).hung = w.hung := by
  have hlow : Lowers (fun u => OutSized u.mc.out ∧ u.hung = w.hung ∧
      Turns nnConnPackTurn w u) (fun u => u.mc.outTask.length) nnConnPackTurn := by
    rintro u u' ⟨hu, hhung, hturns⟩ hturn
    obtain ⟨hsized', hlt⟩ := packTurn_lowers u u' hu hturn
    exact ⟨⟨hsized', (packTurn_next hu hturn).2.2.trans hhung,
      Turns.tail hturns hturn⟩, hlt⟩
  refine loop_rule hlow id (fun r => r.hung = w.hung) ?_ ⟨hsized, rfl, Turns.refl w⟩
  rintro u r ⟨-, hhung, hturns⟩ hturn
  have hround := hrounds u hturns
  unfold PackRound at hround
  rw [hturn] at hround
  exact hround.trans hhung

theorem packRound_iff {u : World} (hsized : OutSized u.mc.out) (hhung : u.hung = false) :
    PackRound u ↔ HeadEncodes u := by
  have hstep := nnConnPackTurn_step u
  have hcases := fun qe => taskEncode_cases u.useMc.mem (u.mc.nodes qe) u.mc.out
  unfold PackRound
  cases hturn : nnConnPackTurn u with
  | next u' =>
      obtain ⟨hqueue, -⟩ := packTurn_next hsized hturn
      rw [hturn] at hstep
      refine ⟨fun _ => ?_, fun _ => hqueue⟩
      intro n rest hhead hfree hfit
      cases hstep with
      | removed qe rest' hqueue' hcode =>
          rw [useMc_mc, hhead, List.cons.injEq] at hqueue'
          obtain ⟨rfl, rfl⟩ := hqueue'
          unfold encodeCode at hcode
          rw [useMc_mc] at hcode
          rcases hcases n with ⟨hno, -⟩ | ⟨-, -, ⟨-, heq, -⟩ | ⟨hpos, -, -⟩⟩
          · omega
          · rw [heq] at hcode
            simp only [ngxOk, ngxError] at hcode
            omega
          · omega
  | done u' =>
      rw [hturn] at hstep
      cases hstep with
      | empty hqueue =>
          rw [useMc_mc] at hqueue
          refine ⟨fun _ n rest hhead => ?_, fun _ => useMc_hung u⟩
          rw [hqueue] at hhead
          cases hhead
      | refused qe rest hqueue hcode =>
          rw [useMc_mc] at hqueue
          refine ⟨fun _ n rest' hhead hfree hfit => ?_, fun _ => useMc_hung u⟩
          rw [hqueue, List.cons.injEq] at hhead
          obtain ⟨rfl, rfl⟩ := hhead
          unfold encodeCode at hcode
          rw [useMc_mc] at hcode
          rcases hcases qe with ⟨hno, -⟩ | ⟨-, -, ⟨-, heq, -⟩ | ⟨hpos, -, -⟩⟩
          · omega
          · rw [heq, ngxAgain] at hcode
            omega
          · omega
      | unknown qe rest hqueue hok hagain herr =>
          rw [useMc_mc] at hqueue
          constructor
          · intro h
            rw [hhung] at h
            cases h
          · intro h
            unfold encodeCode at hok hagain herr
            rw [useMc_mc] at hok hagain herr
            rcases hcases qe with ⟨-, heq⟩ | ⟨hfree, hfit, ⟨hneg, heq, -⟩ | ⟨-, heq, -⟩⟩
            · rw [heq] at hagain
              exact absurd rfl hagain
            · have hlow := h qe rest hqueue hfree hfit
              rw [heq] at hok hagain herr
              simp only [ngxOk, ngxAgain, ngxError] at hok hagain herr
              omega
            · exact absurd heq hok

/-!
## Rounds of `nn_conn_out_buffer`
-/

theorem sendAnswer_zero_iff {size : Nat} (hsize : size ≠ 0) (sends : List SendResult) :
    (sendAnswer size sends).1 = 0 ↔ nextAnswer sends = SendResult.sent 0 := by
  induction sends with
  | nil => simp [sendAnswer, nextAnswer, ngxAgain]
  | cons r rest ih =>
      cases r with
      | intr => exact ih
      | again => simp [sendAnswer, nextAnswer, ngxAgain]
      | error => simp [sendAnswer, nextAnswer, ngxError]
      | sent n =>
          have hmax : 0 < maxRwCount := by decide
          simp only [sendAnswer, nextAnswer, SendResult.sent.injEq]
          omega

theorem sendAnswer_le (size : Nat) (sends : List SendResult) :
    (sendAnswer size sends).1 ≤ size := by
  induction sends with
  | nil =>
      simp only [sendAnswer, ngxAgain]
      omega
  | cons r rest ih =>
      cases r with
      | intr => exact ih
      | again =>
          simp only [sendAnswer, ngxAgain]
          omega
      | error =>
          simp only [sendAnswer, ngxError]
          omega
      | sent n =>
          simp only [sendAnswer]
          omega

theorem sendTurn_next {s s' : World × Nat}
    (hturn : nnConnOutBufferTurn s = Turn.next s') :
    s.2 ≠ 0 ∧ 0 ≤ (sendAnswer s.2 s.1.env.sends).1 ∧
      s'.2 = s.2 - (sendAnswer s.2 s.1.env.sends).1.toNat ∧
      s'.1.trace.sent.length =
        s.1.trace.sent.length + (sendAnswer s.2 s.1.env.sends).1.toNat ∧
      s'.1.mc.outTask = s.1.mc.outTask ∧ s'.1.mc.nodes = s.1.mc.nodes := by
  simp only [nnConnOutBufferTurn] at hturn
  split at hturn
  · cases hturn
  · next hsize =>
    split at hturn
    · cases hturn
    · next hsent =>
      rw [sysioUnixSend_code] at hsent
      cases hturn
      refine ⟨hsize, Int.not_lt.mp hsent, rfl, ?_, rfl, rfl⟩
      simp [sysioUnixSend]

theorem sendRound_iff (s : World × Nat) : SendRound s ↔ SendTakes s := by
  unfold SendRound SendTakes
  constructor
  · intro h hsize hzero
    have hcode := (sendAnswer_zero_iff hsize s.1.env.sends).mpr hzero
    have hturn : exists s', nnConnOutBufferTurn s = Turn.next s' := by
      simp only [nnConnOutBufferTurn]
      rw [if_neg hsize, sysioUnixSend_code, hcode, if_neg (by omega)]
      exact ⟨_, rfl⟩
    obtain ⟨s', hturn⟩ := hturn
    have hlt := (h s' hturn).1
    have hnext := (sendTurn_next hturn).2.2.1
    rw [hcode] at hnext
    simp only [Int.toNat_zero] at hnext
    omega
  · intro h s' hturn
    obtain ⟨hsize, hnonneg, hleft, hsent, -⟩ := sendTurn_next hturn
    have hzero := h hsize
    rw [Ne, ← sendAnswer_zero_iff hsize] at hzero
    omega

theorem nnConnOutBuffer_ok {p : World}
    (hok : (nnConnOutBuffer p).1 = ngxOk) :
    (nnConnOutBuffer p).2.trace.sent.length =
        p.trace.sent.length + cSize (bufferSize p.mc.out) ∧
      (nnConnOutBuffer p).2.mc.outTask = p.mc.outTask ∧
      (nnConnOutBuffer p).2.mc.nodes = p.mc.nodes ∧
      exists b : Buffer, b.block = p.mc.out.block ∧
        (nnConnOutBuffer p).2.mc.out = bufferReset b := by
  have hpacks : Packs p (nnConnOutBuffer p).2 := (nnConnOutBuffer_sends p).1
  unfold nnConnOutBuffer at hok ⊢
  split at hok
  · exact absurd hok ngxAgain_ne_ngxOk
  · next hready =>
    rw [if_neg hready]
    let Inv : World × Nat -> Prop := fun s =>
      s.1.trace.sent.length + s.2 =
          p.trace.sent.length + cSize (bufferSize p.mc.out) ∧
        s.1.mc.outTask = p.mc.outTask ∧ s.1.mc.nodes = p.mc.nodes ∧ Packs p s.1
    have hlow : Lowers Inv (fun s => s.1.env.sends.length) nnConnOutBufferTurn := by
      rintro s s' ⟨hsent, hqueue, hnodes, hkept⟩ hturn
      obtain ⟨hkept', hlt⟩ := packs_outBufferTurn p s s' hkept hturn
      obtain ⟨-, hnonneg, hleft, hsent', hqueue', hnodes'⟩ := sendTurn_next hturn
      have hle := sendAnswer_le s.2 s.1.env.sends
      exact ⟨⟨by omega, hqueue'.trans hqueue, hnodes'.trans hnodes, hkept'⟩, hlt⟩
    have hinit : Inv (p, cSize (bufferSize p.mc.out)) := ⟨rfl, rfl, rfl, Packs.refl p⟩
    revert hok
    refine loop_rule hlow (fun s => (ngxOk, s.1))
      (fun r => r.1 = ngxOk -> r.2.trace.sent.length =
          p.trace.sent.length + cSize (bufferSize p.mc.out) ∧
        r.2.mc.outTask = p.mc.outTask ∧ r.2.mc.nodes = p.mc.nodes ∧
        exists b : Buffer, b.block = p.mc.out.block ∧ r.2.mc.out = bufferReset b)
      ?_ hinit
    rintro s r ⟨hsent, hqueue, hnodes, hkept⟩ hturn hok
    simp only [nnConnOutBufferTurn] at hturn
    split at hturn
    · next hzero =>
      cases hturn
      rw [hzero] at hsent
      exact ⟨hsent, hqueue, hnodes, s.1.mc.out, hkept.block, rfl⟩
    · split at hturn
      · next hfailed =>
        cases hturn
        rw [hok] at hfailed
        exact absurd hfailed (by decide)
      · cases hturn

/-!
## The jump back to `repack`
-/

theorem outSized_reset {b b' : Buffer} (h : OutSized b) (hblock : b'.block = b.block) :
    OutSized (bufferReset b') ∧ bufferSize (bufferReset b') = 0 := by
  obtain ⟨⟨hmemory, hlo, hmid, hhi, hend⟩, hsized⟩ := h
  have hstart : b'.start = b.start := congrArg (fun x => x.1) hblock
  have hendPtr : b'.endPtr = b.endPtr := congrArg (fun x => x.2.1) hblock
  have hmem : b'.memory = b.memory := congrArg (fun x => x.2.2) hblock
  refine ⟨⟨⟨hmem.trans hmemory, Nat.le_refl _, Nat.le_refl _, ?_, ?_⟩, ?_⟩,
    bufferSize_bufferReset (hmem.trans hmemory)⟩
  · simp only [bufferReset, hstart, hendPtr]
    omega
  · simp only [bufferReset, hendPtr]
    exact hend
  · rcases hsized with hsmall | ⟨-, -, hlt⟩
    · refine Or.inl ?_
      simp only [bufferReset, hstart, hendPtr]
      exact hsmall
    · refine Or.inr ⟨rfl, rfl, ?_⟩
      simp only [bufferReset, hstart, hendPtr]
      exact hlt

theorem outSized_shrink {m : Mem} {b : Buffer} (h : OutSized b) :
    OutSized (bufferShrink m b).2 ∧ bufferSize (bufferShrink m b).2 = bufferSize b := by
  obtain ⟨hwf, hsized⟩ := h
  have hlo := hwf.start_le_pos
  have hhi := hwf.last_le_end
  have hmid := hwf.pos_le_last
  have hsize : bufferSize b < 2 ^ 31 := by
    rw [hwf.size_eq]
    omega
  have hwf' := bufferShrink_wf (m := m) hwf hsize
  rw [hwf'.size_eq, hwf.size_eq]
  rw [bufferShrink_eq hwf hsize] at hwf' ⊢
  refine ⟨⟨hwf', ?_⟩, ?_⟩
  · rcases hsized with hsmall | ⟨hpos, hlast, hlt⟩
    · exact Or.inl hsmall
    · refine Or.inr ⟨rfl, ?_, hlt⟩
      simp only
      omega
  · simp only
    omega

theorem packing_shrink {w : World} (hsized : OutSized w.mc.out) :
    Packing w (shrinkOut w.useMc) := by
  have hused := packing_useMc hsized
  refine hused.trans ?_
  obtain ⟨hout, hsize⟩ := outSized_shrink (m := w.useMc.mem) hused.sized
  constructor
  · exact hout
  · change (bufferSize (bufferShrink w.useMc.mem w.useMc.mc.out).2).toNat + _ = _
    rw [hsize]
    rfl
  · rfl
  · exact fun _ => rfl

theorem nnConnOutBuffer_hung (p : World) : (nnConnOutBuffer p).2.hung = p.hung := by
  unfold nnConnOutBuffer
  split
  · rfl
  · refine loop_keeps _ (fun s : World × Nat => s.1.hung = p.hung)
      (fun r : Int × World => r.2.hung = p.hung) ?_ ?_ (fun _ hs => hs) rfl
    · intro s s' hs hturn
      simp only [nnConnOutBufferTurn] at hturn
      split at hturn
      · cases hturn
      · split at hturn
        · cases hturn
        · cases hturn
          exact hs
    · intro s r hs hturn
      simp only [nnConnOutBufferTurn] at hturn
      split at hturn
      · cases hturn
        exact hs
      · split at hturn
        · cases hturn
          exact hs
        · cases hturn

theorem outputTurn_next {v v' : World} (hsized : OutSized v.mc.out)
    (hturn : nnConnOutputTurn v = Turn.next v') :
    OutSized v'.mc.out ∧ v.trace.sent.length < v'.trace.sent.length ∧
      unsent v' < unsent v ∧ v'.hung = false := by
  have hshrunk := packing_shrink hsized
  have hpacked := hshrunk.trans (nnConnPack_packing hshrunk.sized)
  simp only [nnConnOutputTurn] at hturn
  generalize nnConnPack (shrinkOut v.useMc) = p at hturn hpacked ⊢
  have hused := hpacked.trans (packing_useMc hpacked.sized)
  split at hturn
  · cases hturn
  · next hhung =>
    split at hturn
    · cases hturn
    · next hsize =>
      have hcode := (nnConnOutBuffer_sends p.useMc).2
      have hok := nnConnOutBuffer_ok (p := p.useMc)
      have hkept := nnConnOutBuffer_hung p.useMc
      generalize nnConnOutBuffer p.useMc = r at hturn hcode hok hkept
      split at hturn
      · cases hturn
      · next herr =>
        split at hturn
        · split at hturn <;> cases hturn
        · next hagain =>
          cases hturn
          have hfine : r.1 = ngxOk := by
            rcases hcode with ⟨hok', -⟩ | herr' | ⟨hagain', -⟩
            · exact hok'
            · exact absurd herr' herr
            · exact absurd hagain' hagain
          obtain ⟨hsent, hqueue, hnodes, b, hblock, hbuf⟩ := hok hfine
          obtain ⟨hout, hempty⟩ := outSized_reset hused.sized hblock
          have hbytes : cSize (bufferSize p.useMc.mc.out) =
              (bufferSize p.useMc.mc.out).toNat := by
            have hle := hused.sized.size_nonneg
            have hend := hused.sized.1.end_lt
            have hmid := hused.sized.1.last_le_end
            have heq := hused.sized.1.size_eq
            unfold cSize
            omega
          have hpos : 0 < (bufferSize p.useMc.mc.out).toNat := by
            have hle := hused.sized.size_nonneg
            omega
          have hleft : unsent r.2 + (bufferSize p.useMc.mc.out).toNat =
              unsent p.useMc := by
            unfold unsent
            rw [hbuf, hempty, hqueue, hnodes]
            omega
          rw [hbytes, hused.sent] at hsent
          have hbefore := hused.unsent
          refine ⟨by rw [hbuf]; exact hout, by omega, by omega, ?_⟩
          rw [hkept, useMc_hung]
          exact Bool.eq_false_iff.mpr hhung

theorem outputTurn_lowers :
    Lowers (fun v : World => OutSized v.mc.out) unsent nnConnOutputTurn := by
  intro v v' hsized hturn
  obtain ⟨hsized', -, hlt, -⟩ := outputTurn_next hsized hturn
  exact ⟨hsized', hlt⟩

/-- `nn_conn_output` returns where the encode loop has ended with a known
code. -/
theorem outputTurn_done {v : World} {r : Int × World}
    (hpacked : (nnConnPack (shrinkOut v.useMc)).hung = false)
    (hturn : nnConnOutputTurn v = Turn.done r) : r.2.hung = false := by
  simp only [nnConnOutputTurn] at hturn
  generalize nnConnPack (shrinkOut v.useMc) = p at hturn hpacked
  have hused : p.useMc.hung = false := (useMc_hung p).trans hpacked
  rw [if_neg (by rw [hpacked]; decide)] at hturn
  split at hturn
  · cases hturn
    exact hused
  · have hkept := (nnConnOutBuffer_hung p.useMc).trans hused
    generalize nnConnOutBuffer p.useMc = q at hturn hkept
    split at hturn
    · cases hturn
      exact (congrArg Bytes.hung (bytes_nnConnFinalize q.2)).trans hkept
    · split at hturn
      · split at hturn
        · cases hturn
          exact hkept
        · cases hturn
          exact hkept
      · cases hturn

def Sound (w : World) : Prop :=
  OutSized w.mc.out ∧ w.hung = false

theorem sound_start {w : World} (hsized : OutSized w.mc.out) (hhung : w.hung = false) :
    Sound (outputStart w) := by
  constructor
  · change OutSized w.useMc.mc.out
    rwa [useMc_mc]
  · exact (useMc_hung w).trans hhung

theorem AtRepack.sound {w v : World} (h : AtRepack w v) (hw : Sound (outputStart w)) :
    Sound v := by
  refine h.2.keeps Sound ?_ hw
  rintro s s' ⟨hsized, -⟩ hturn
  obtain ⟨hsized', -, -, hhung'⟩ := outputTurn_next hsized hturn
  exact ⟨hsized', hhung'⟩

theorem AtPack.sound {v u : World} (h : AtPack v u) (hv : Sound v) : Sound u := by
  refine h.keeps Sound ?_ ⟨(packing_shrink hv.1).sized, (useMc_hung v).trans hv.2⟩
  rintro s s' ⟨hsized, hhung⟩ hturn
  obtain ⟨-, hpacking, hsame⟩ := packTurn_next hsized hturn
  exact ⟨hpacking.sized, hsame.trans hhung⟩

theorem nnConnOutput_returns {w : World} (hw : Sound (outputStart w))
    (hpacks : forall v u, AtRepack w v -> AtPack v u -> PackRound u) :
    (nnConnOutput w).2.hung = false := by
  simp only [nnConnOutput]
  split
  · exact hw.2
  · next hguard =>
    have hopen : (!w.c.write.ready && decide (0 < bufferSize w.mc.out)) = false := by
      rw [← useMc_c w, ← useMc_mc w]
      exact Bool.eq_false_iff.mpr hguard
    let Inv : World -> Prop := fun v => AtRepack w v ∧ Sound v
    refine loop_keeps _ Inv (fun r : Int × World => r.2.hung = false) ?_ ?_
      (fun v hv => hv.2.2) ⟨⟨hopen, Turns.refl _⟩, hw⟩
    · rintro v v' ⟨hat, -⟩ hturn
      have hat' : AtRepack w v' := ⟨hat.1, Turns.tail hat.2 hturn⟩
      exact ⟨hat', hat'.sound hw⟩
    · rintro v r ⟨hat, hv⟩ hturn
      refine outputTurn_done ?_ hturn
      rw [nnConnPack_hung (packing_shrink hv.1).sized (fun u hu => hpacks v u hat hu)]
      exact (useMc_hung v).trans hv.2

/-- Every round gets on exactly when each head that is looked at encodes and no
`send` answers 0. -/
theorem nnConnOutput_progresses_iff (w : World) (hsized : OutSized w.mc.out)
    (hhung : w.hung = false) :
    Progresses w ↔
      (forall v u, AtRepack w v -> AtPack v u -> HeadEncodes u) ∧
        forall v s, AtRepack w v -> AtSend v s -> SendTakes s := by
  have hw := sound_start hsized hhung
  constructor
  · intro h
    constructor
    · intro v u hv hu
      obtain ⟨hu1, hu2⟩ := hu.sound (hv.sound hw)
      exact (packRound_iff hu1 hu2).mp (h.packs v u hv hu)
    · intro v s hv hs
      exact (sendRound_iff s).mp (h.sends v s hv hs)
  · rintro ⟨hencodes, htakes⟩
    have hpacks : forall v u, AtRepack w v -> AtPack v u -> PackRound u := by
      intro v u hv hu
      obtain ⟨hu1, hu2⟩ := hu.sound (hv.sound hw)
      exact (packRound_iff hu1 hu2).mpr (hencodes v u hv hu)
    constructor
    · exact hpacks
    · intro v s hv hs
      exact (sendRound_iff s).mpr (htakes v s hv hs)
    · intro v v' hv hturn
      obtain ⟨-, hsent, hlt, -⟩ := outputTurn_next (hv.sound hw).1 hturn
      exact ⟨hsent, hlt⟩
    · exact outputTurn_lowers.leaves hw.1
    · exact nnConnOutput_returns hw hpacks

def queuedWorld (task : TaskT) : World :=
  let w := (nnConnInit smallConf smallAllocs
    (worldNew (fun _ => 7) 5 [[]] silentEnv)).2
  { w with
    c := { w.c with write := { w.c.write with ready := true } }
    mc := { w.mc with outTask := [0], nodes := fun _ => task } }

theorem outSized_queued (task : TaskT) : OutSized (queuedWorld task).mc.out := by
  have hout : (queuedWorld task).mc.out = bufferCreate 131072 1024 := rfl
  rw [hout]
  exact ⟨bufferCreate_wf (by decide), Or.inl (by decide)⟩

theorem nnConnOutput_progresses_queued :
    Progresses (queuedWorld taskNew) ↔
      (forall v u, AtRepack (queuedWorld taskNew) v -> AtPack v u -> HeadEncodes u) ∧
        forall v s, AtRepack (queuedWorld taskNew) v -> AtSend v s -> SendTakes s :=
  nnConnOutput_progresses_iff _ (outSized_queued taskNew) rfl

/-- With `data_len` -400 the size is -56, a code that the encode loop does not
know. -/
theorem nnConnOutput_negative_fails :
    OutSized (queuedWorld { taskNew with dataLen := -400 }).mc.out ∧
      (queuedWorld { taskNew with dataLen := -400 }).hung = false ∧
      ¬ Progresses (queuedWorld { taskNew with dataLen := -400 }) :=
  ⟨outSized_queued _, rfl, fun h => absurd h.returns (by decide +kernel)⟩

end Request
end NgxEpoll
