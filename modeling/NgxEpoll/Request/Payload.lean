import NgxEpoll.Request.OutStream
import NgxEpoll.Request.Intake

/-!
# Payloads in the receive buffer

`task_decodefstr` lets `data` point into the receive buffer.  What the
functions of `nn_request.cpp` do to the payloads of tasks that were dispatched
and are not handled yet.
-/

namespace NgxEpoll
namespace Request

open Foundation
open NgxEpoll.Core
open Common

/-!
## One task
-/

/-- The payload of a node is intact and lies in the receive buffer. -/
def Good (w : World) (n : Nat) : Prop :=
  (w.mc.nodes n).payload w.mem = w.trace.carried n ∧
    ((w.mc.nodes n).dataLen.toInt.toNat = 0 ∨
      w.mc.inBuf.start ≤ (w.mc.nodes n).data.toNat ∧
        (w.mc.nodes n).data.toNat + (w.mc.nodes n).dataLen.toInt.toNat ≤
          w.mc.inBuf.endPtr)

def BuffersApart (w : World) : Prop :=
  Apart w.mc.inBuf.start (w.mc.inBuf.endPtr - w.mc.inBuf.start) w.mc.out.start
    (w.mc.out.endPtr - w.mc.out.start)

theorem Good.apart_out {w : World} {n : Nat} (h : Good w n)
    (hapart : BuffersApart w) :
    Apart (w.mc.nodes n).data.toNat (w.mc.nodes n).dataLen.toInt.toNat
      w.mc.out.start (w.mc.out.endPtr - w.mc.out.start) := by
  unfold BuffersApart Apart at *
  rcases h.2 with hzero | ⟨hlo, hhi⟩
  · exact Or.inl hzero
  · omega

theorem good_of_agree {w w' : World} {n : Nat} (h : Good w n)
    (hnode : w'.mc.nodes n = w.mc.nodes n)
    (hcarried : w'.trace.carried n = w.trace.carried n)
    (hstart : w'.mc.inBuf.start = w.mc.inBuf.start)
    (hend : w'.mc.inBuf.endPtr = w.mc.inBuf.endPtr)
    (hmem : AgreeOn w'.mem w.mem (w.mc.nodes n).data.toNat
      (w.mc.nodes n).dataLen.toInt.toNat) : Good w' n := by
  obtain ⟨hpayload, hinside⟩ := h
  constructor
  · rw [hnode, hcarried, ← hpayload]
    exact (load_eq_iff_agreeOn _ _ _ _).mpr hmem
  · rw [hnode, hstart, hend]
    exact hinside

theorem good_of_outKept {w w' : World} {n : Nat} (h : Good w n)
    (hapart : BuffersApart w) (hkept : OutKept w w')
    (hn : n ∉ w.mc.outTask) : Good w' n :=
  good_of_agree h (hkept.nodes n hn) (congrFun hkept.carried n)
    (by rw [hkept.inBuf]) (by rw [hkept.inBuf])
    (hkept.mem _ _ (h.apart_out hapart))

/-!
## A set of tasks
-/

/-- The buffers are in order and the payloads of the nodes in `P` are intact. -/
structure Held (P : Nat -> Prop) (w : World) : Prop where
  inWf : w.mc.inBuf.Wf
  outWf : w.mc.out.Wf
  small : w.mc.out.endPtr - w.mc.out.start < 2 ^ 31 ∨
    w.mc.out.pos = w.mc.out.start ∧ w.mc.out.last = w.mc.out.start ∧
      w.mc.out.endPtr - w.mc.out.start < 2 ^ 32
  apart : BuffersApart w
  good : forall n, P n -> Good w n

abbrev Ordered (w : World) : Prop :=
  Held (fun _ => False) w

section Held

variable {P : Nat -> Prop} {w w' : World}

theorem held_of_outKept (h : Held P w) (hkept : OutKept w w')
    (hP : forall n, P n -> n ∉ w.mc.outTask) : Held P w' where
  inWf := by
    rw [hkept.inBuf]
    exact h.inWf
  outWf := hkept.ready.wf
  small := hkept.ready.small
  apart := by
    unfold BuffersApart
    rw [hkept.inBuf, hkept.start, hkept.endPtr]
    exact h.apart
  good := fun n hn =>
    good_of_outKept (h.good n hn) h.apart hkept (hP n hn)

theorem held_of_same (h : Held P w) (hmem : w'.mem = w.mem)
    (hin : w'.mc.inBuf = w.mc.inBuf) (hout : w'.mc.out = w.mc.out)
    (hcarried : forall n, P n -> w'.trace.carried n = w.trace.carried n)
    (hnodes : forall n, P n -> w'.mc.nodes n = w.mc.nodes n) : Held P w' := by
  constructor
  · rw [hin]
    exact h.inWf
  · rw [hout]
    exact h.outWf
  · rw [hout]
    exact h.small
  · unfold BuffersApart
    rw [hin, hout]
    exact h.apart
  · intro n hn
    refine good_of_agree (h.good n hn) (hnodes n hn) (hcarried n hn)
      (by rw [hin]) (by rw [hin]) ?_
    rw [hmem]
    exact fun _ _ _ => rfl

theorem held_freeTask (h : Held P w) {q : Nat} (hP : ¬ P q) :
    Held P (nnConnFreeTask w q) := by
  have hbytes := bytes_nnConnFreeTask w q
  refine held_of_same h (congrArg Bytes.mem hbytes)
    (congrArg Bytes.inBuf hbytes) (congrArg Bytes.out hbytes)
    (fun n _ => congrFun (congrArg Bytes.carried hbytes) n) (fun n hn => ?_)
  refine (mc_nnConnFreeTask w q).2.2 n ?_
  rintro rfl
  exact hP hn

theorem held_useMc (h : Held P w) : Held P w.useMc := by
  have hbytes := bytes_useMc w
  refine held_of_same h (useMc_mem w) (by rw [useMc_mc]) (by rw [useMc_mc])
    (fun n _ => congrFun (congrArg Bytes.carried hbytes) n) (fun n _ => ?_)
  rw [useMc_mc]

theorem held_env (h : Held P w) (env : Env) : Held P { w with env := env } :=
  held_of_same h rfl rfl rfl (fun _ _ => rfl) (fun _ _ => rfl)

theorem Held.mono {Q : Nat -> Prop} (h : Held P w)
    (hQ : forall n, Q n -> P n) : Held Q w :=
  ⟨h.inWf, h.outWf, h.small, h.apart, fun n hn => h.good n (hQ n hn)⟩

theorem held_shrinkIn (h : Held P w)
    (hspares : w.mc.inBuf.start = w.mc.inBuf.pos ∨
      bufferSize w.mc.inBuf < 2 ^ 31 ∧ forall n, P n ->
        Apart (w.mc.nodes n).data.toNat (w.mc.nodes n).dataLen.toInt.toNat
          w.mc.inBuf.start (w.mc.inBuf.last - w.mc.inBuf.pos)) :
    Held P (shrinkIn w) ∧ (shrinkIn w).mc.inBuf.last =
      w.mc.inBuf.start + (w.mc.inBuf.last - w.mc.inBuf.pos) := by
  rcases hspares with hstart | ⟨hsize, hspares⟩
  · have hpl := h.inWf.pos_le_last
    have hsame : shrinkIn w = w := by
      unfold shrinkIn
      rw [bufferShrink_of_start hstart]
    rw [hsame]
    exact ⟨h, by omega⟩
  · have heq := bufferShrink_eq (m := w.mem) h.inWf hsize
    have hstart : (shrinkIn w).mc.inBuf.start = w.mc.inBuf.start := by
      simp only [shrinkIn, heq]
    have hend : (shrinkIn w).mc.inBuf.endPtr = w.mc.inBuf.endPtr := by
      simp only [shrinkIn, heq]
    refine ⟨⟨bufferShrink_wf h.inWf hsize, h.outWf, h.small, ?_,
      fun n hn => ?_⟩, by simp only [shrinkIn, heq]⟩
    · unfold BuffersApart
      rw [hstart, hend]
      exact h.apart
    · exact good_of_agree (h.good n hn) rfl rfl hstart hend
        (agreeOn_bufferShrink h.inWf hsize (Or.inr (hspares n hn)))

theorem held_appendIn (h : Held P w) {bs : List Byte}
    (hfit : (bs.length : Int) ≤ bufferFreeSize w.mc.inBuf)
    (hspares : forall n, P n ->
      Apart (w.mc.nodes n).data.toNat (w.mc.nodes n).dataLen.toInt.toNat
        w.mc.inBuf.last bs.length) :
    Held P (appendIn w bs) := by
  refine ⟨wf_append h.inWf hfit, h.outWf, h.small, h.apart, fun n hn => ?_⟩
  exact good_of_agree (h.good n hn) rfl rfl rfl rfl
    (agreeOn_store_of_apart _ _ _ _ _ (hspares n hn))

theorem held_recvTurn (h : Held P w)
    (hshrink : w.mc.inBuf.start = w.mc.inBuf.pos ∨
      bufferSize w.mc.inBuf < 2 ^ 31 ∧ forall n, P n ->
        Apart (w.mc.nodes n).data.toNat (w.mc.nodes n).dataLen.toInt.toNat
          w.mc.inBuf.start (w.mc.inBuf.last - w.mc.inBuf.pos))
    (hrecv : forall n, P n ->
      Apart (w.mc.nodes n).data.toNat (w.mc.nodes n).dataLen.toInt.toNat
        (w.mc.inBuf.start + (w.mc.inBuf.last - w.mc.inBuf.pos))
        (sysioUnixRecv w.env
          (cSize (bufferFreeSize (shrinkIn w).mc.inBuf))).2.1.length) :
    Held P (afterTurn (nnConnRecvTurn w)) := by
  have hcases := nnConnRecvTurn_cases w
  have hin : (shrinkIn w.useMc).mc.inBuf = (shrinkIn w).mc.inBuf := by
    simp only [shrinkIn, useMc_mem, useMc_mc]
  replace h := held_useMc h
  rw [← hin] at hrecv
  rw [← useMc_mc w] at hshrink hrecv
  rw [← useMc_env w] at hrecv
  generalize w.useMc = u at h hshrink hrecv hcases
  obtain ⟨hheld, hlast⟩ := held_shrinkIn h hshrink
  have hanswer := sysioUnixRecv_cases (shrinkIn u).env
    (cSize (bufferFreeSize (shrinkIn u).mc.inBuf))
  rw [← hlast] at hrecv
  change forall n, P n -> Apart ((shrinkIn u).mc.nodes n).data.toNat
    ((shrinkIn u).mc.nodes n).dataLen.toInt.toNat (shrinkIn u).mc.inBuf.last
    (sysioUnixRecv (shrinkIn u).env _).2.1.length at hrecv
  generalize shrinkIn u = v at hheld hanswer hrecv hcases
  simp only at hcases hanswer
  generalize sysioUnixRecv v.env (cSize (bufferFreeSize v.mc.inBuf)) = r
    at hcases hanswer hrecv
  rcases hcases with heq | ⟨_, heq⟩ | ⟨hpos, heq⟩
  · rw [heq]
    exact hheld
  · rw [heq]
    exact held_env hheld _
  · rw [heq]
    rcases hanswer with ⟨_, _, hle, _⟩ | ⟨_, _, hcode⟩
    · have hfree : 0 ≤ bufferFreeSize v.mc.inBuf := by
        rw [hheld.inWf.freeSize_eq]
        omega
      have hsize := cSize_le hfree
      exact held_appendIn (held_env hheld _)
        (show _ ≤ bufferFreeSize v.mc.inBuf by omega) hrecv
    · rcases hcode with hcode | hcode | hcode <;> rw [hcode] at hpos <;>
        exact absurd hpos (by decide)

/-!
## Decoding
-/

theorem held_resetIn (h : Held P w) : Held P (resetIn w) :=
  ⟨bufferReset_wf h.inWf, h.outWf, h.small, h.apart, fun n hn =>
    good_of_agree (h.good n hn) rfl rfl rfl rfl (fun _ _ _ => rfl)⟩

theorem attempt_inBuf {n : Nat} (rest : List Nat)
    (hcode : attemptCode w n ≠ ngxOk) :
    (attempt w n rest).mc.inBuf = w.mc.inBuf := by
  change (taskDecode w.mem w.mc.inBuf (w.mc.nodes n)).2.1 = w.mc.inBuf
  rcases taskDecode_cases w.mem w.mc.inBuf (w.mc.nodes n) with
    hunread | ⟨_, _, _, hok | ⟨_, _, hsame⟩⟩
  · rw [hunread]
  · exact absurd hok hcode
  · exact hsame

theorem held_attempt (h : Held P w) {n : Nat} (hn : ¬ P n) (rest : List Nat)
    (hcode : attemptCode w n ≠ ngxOk) : Held P (attempt w n rest) := by
  have hne : forall m, P m -> m ≠ n := by
    rintro m hm rfl
    exact hn hm
  refine held_of_same h rfl (attempt_inBuf rest hcode) rfl
    (fun m hm => ?_) (fun m hm => ?_)
  · exact Function.update_of_ne (hne m hm) _ _
  · exact Function.update_of_ne (hne m hm) _ _

theorem good_attempt (hwf : w.mc.inBuf.Wf) {n : Nat} (rest : List Nat)
    (hcode : attemptCode w n = ngxOk) (hframe : BeginsWithFrame w.unread) :
    exists k, k ≤ w.mc.inBuf.last - w.mc.inBuf.pos ∧
      (attempt w n rest).mc.inBuf =
        { w.mc.inBuf with pos := w.mc.inBuf.pos + k } ∧
      Good (attempt w n rest) n := by
  have hint := lengthWord_le_of_ok hcode hframe
  obtain ⟨_, hin, hnode, hcarried⟩ := attempt_frame hwf n rest hframe hint
  obtain ⟨hword, hnonneg, hfit, _⟩ := id hframe
  have hlen : w.unread.length = w.mc.inBuf.last - w.mc.inBuf.pos :=
    Buffer.content_length _ _
  refine ⟨(lengthWord w.unread).toNat, by omega, hin, ?_⟩
  unfold Good
  rw [hnode, hin, hcarried]
  simp only [TaskT.payload]
  by_cases hdata : 0 < (structOf w.unread).dataLen.toInt
  · have hsp := hwf.start_le_pos
    have hpl := hwf.pos_le_last
    have hle := hwf.last_le_end
    have hend := hwf.end_lt
    have haddr : (BitVec.ofNat 64 (w.mc.inBuf.pos + headerSize)).toNat =
        w.mc.inBuf.pos + headerSize := by
      rw [BitVec.toNat_ofNat]
      apply Nat.mod_eq_of_lt
      omega
    rw [if_pos hdata, haddr]
    exact ⟨rfl, Or.inr ⟨by omega, by omega⟩⟩
  · have hzero : (structOf w.unread).dataLen.toInt.toNat = 0 := by omega
    rw [hzero]
    exact ⟨load_zero _ _, Or.inl rfl⟩

theorem held_dispatch (h : Held P w) {n : Nat} (rest : List Nat)
    (hcode : attemptCode w n = ngxOk)
    (hframe : BeginsWithFrame w.unread) :
    Held (fun m => m = n ∨ P m) (dispatchTask (attempt w n rest) n) := by
  obtain ⟨k, hk, hin, hgood⟩ := good_attempt h.inWf rest hcode hframe
  have hstart : (attempt w n rest).mc.inBuf.start = w.mc.inBuf.start := by
    rw [hin]
  have hend : (attempt w n rest).mc.inBuf.endPtr = w.mc.inBuf.endPtr := by
    rw [hin]
  have hattempt : Held (fun m => m = n ∨ P m) (attempt w n rest) := by
    refine ⟨?_, h.outWf, h.small, ?_, ?_⟩
    · rw [hin]
      exact wf_advance h.inWf hk
    · unfold BuffersApart
      rw [hstart, hend]
      exact h.apart
    · intro m hm
      by_cases heq : m = n
      · rw [heq]
        exact hgood
      · exact good_of_agree (h.good m (hm.resolve_left heq))
          (Function.update_of_ne heq _ _) (Function.update_of_ne heq _ _)
          hstart hend (fun _ _ _ => rfl)
  exact held_of_same hattempt rfl rfl rfl (fun _ _ => rfl) (fun _ _ => rfl)

end Held

theorem nnConnInit_ordered {conf : ConfServer} {allocs : Allocs} {v : World}
    {mem : Mem} {fd : Int} {tq : List (List Nat)} {env : Env}
    (hvalid : allocs.Valid conf)
    (h : nnConnInit conf allocs (worldNew mem fd tq env) = (true, v)) :
    Ordered v ∧ v.unread = [] := by
  have hout := (nnConnInit_outReady hvalid h).1
  obtain ⟨inBuf, out, buff, ev, env', hin, hbuf, _, rfl⟩ := nnConnInit_up h
  obtain ⟨a, hstart, rfl⟩ := bufferAt_eq_some hin
  obtain ⟨b, hstart', rfl⟩ := bufferAt_eq_some hbuf
  refine ⟨⟨bufferCreate_wf (hvalid.inEnd a hstart), hout.wf, hout.small, ?_,
    fun _ hn => hn.elim⟩, ?_⟩
  · have hapart := hvalid.apart a b hstart hstart'
    change Apart a (a + inSize conf - a) b (b + outSize conf - b)
    rwa [Nat.add_sub_cancel_left, Nat.add_sub_cancel_left]
  · change (bufferCreate a (inSize conf)).content mem = []
    simp [Buffer.content, bufferCreate]

end Request
end NgxEpoll
