import NgxEpoll.Request.Life
import NgxEpoll.Common.RoundTrip
import NgxEpoll.Common.Stream

/-!
# Taking frames from the receive buffer

What one decode attempt makes of the bytes in the receive buffer, and what
`nn_conn_recv` adds to them.
-/

namespace NgxEpoll
namespace Request

open Foundation
open NgxEpoll.Core
open Common

def World.unread (w : World) : List Byte :=
  w.mc.inBuf.content w.mem

/-- Of one to three unread bytes and what lies behind them, a length word is
read that asks for more than is there. -/
def WordKnown (w : World) : Prop :=
  w.unread.length < 4 -> 0 < w.unread.length ->
    (w.unread.length : Int) < loadInt w.mem w.mc.inBuf.pos

/-- The dispatched task is the one of a frame, up to the receiver's own `opq`
and the address of the payload. -/
def Carries (d : Dispatch) (f : List Byte) : Prop :=
  { d.task with opq := (structOf f).opq, data := (structOf f).data } =
      structOf f ∧
    d.payload = f.drop headerSize

theorem unread_useMc (w : World) : w.useMc.unread = w.unread := by
  unfold World.unread
  rw [useMc_mc, useMc_mem]

/-!
## Attempts
-/

section Attempt

variable {w : World}

theorem load_unread (w : World) :
    load w.mem w.mc.inBuf.pos w.unread.length = w.unread := by
  unfold World.unread
  rw [Buffer.content_length]
  rfl

/-- The outcomes of a decode attempt: a well-formed frame is taken, or the
stream is spoilt, or the attempt leaves everything as it is. -/
theorem attempt_outcome (hwf : w.mc.inBuf.Wf)
    (hsize : bufferSize w.mc.inBuf < 2 ^ 31) (hknown : WordKnown w) (n : Nat) :
    (BeginsWithFrame w.unread ∧
        lengthWord w.unread ≤ cInt (bufferSize w.mc.inBuf)) ∨
      (4 ≤ w.unread.length ∧ Dead w.unread) ∨
      (¬ BeginsWithFrame w.unread ∧
        taskDecode w.mem w.mc.inBuf (w.mc.nodes n) =
          (ngxAgain, w.mc.inBuf, w.mc.nodes n)) := by
  have hlen : (w.unread.length : Int) = bufferSize w.mc.inBuf :=
    hwf.content_length_int w.mem
  have hint : cInt (bufferSize w.mc.inBuf) = w.unread.length := by
    rw [cInt_eq_self (by omega) hsize, hlen]
  by_cases hbegins : BeginsWithFrame w.unread
  · exact Or.inl ⟨hbegins, by rw [hint]; exact hbegins.2.2.1⟩
  · right
    rcases taskDecode_cases w.mem w.mc.inBuf (w.mc.nodes n) with
      hunread | ⟨hpos, hle, _, _⟩
    · exact Or.inr ⟨hbegins, hunread⟩
    · -- the length word was accepted, so all of it has been received
      have hfour : 4 ≤ w.unread.length := by
        by_contra hlt
        have := hknown (by omega) (by omega)
        omega
      rw [lengthWord_of_bytes (load_unread w) hfour, hint] at hle
      exact Or.inl ⟨hfour, dead_of_accepted hfour hle hbegins⟩

theorem lengthWord_le_of_ok {n : Nat} (hcode : attemptCode w n = ngxOk)
    (hframe : BeginsWithFrame w.unread) :
    lengthWord w.unread ≤ cInt (bufferSize w.mc.inBuf) := by
  have hfour : 4 ≤ w.unread.length := by
    have hheader := hframe.headerSize_le
    simp only [headerSize, intSize, taskSize] at hheader
    omega
  rcases taskDecode_cases w.mem w.mc.inBuf (w.mc.nodes n) with
    hunread | ⟨_, hle, _, _⟩
  · rw [attemptCode, hunread] at hcode
    exact absurd hcode ngxAgain_ne_ngxOk
  · rw [← lengthWord_of_bytes (load_unread w) hfour]
    exact hle

theorem attempt_frame (hwf : w.mc.inBuf.Wf) (n : Nat) (rest : List Nat)
    (hframe : BeginsWithFrame w.unread)
    (hint : lengthWord w.unread ≤ cInt (bufferSize w.mc.inBuf)) :
    attemptCode w n = ngxOk ∧
      (attempt w n rest).mc.inBuf = { w.mc.inBuf with
        pos := w.mc.inBuf.pos + (lengthWord w.unread).toNat } ∧
      (attempt w n rest).mc.nodes n =
        { structOf w.unread with
          opq := (w.mc.nodes n).opq
          data := if 0 < (structOf w.unread).dataLen.toInt then
            BitVec.ofNat 64 (w.mc.inBuf.pos + headerSize)
            else (structOf w.unread).data } ∧
      (attempt w n rest).trace.carried n =
        load w.mem (w.mc.inBuf.pos + headerSize)
          (structOf w.unread).dataLen.toInt.toNat := by
  have hdec : taskDecode w.mem w.mc.inBuf (w.mc.nodes n) = _ :=
    taskDecode_frame hwf hframe hint
  have hlast := trailingWord_of_bytes (load_unread w) hframe.headerSize_le
  refine ⟨congrArg Prod.fst hdec, congrArg (fun r => r.2.1) hdec, ?_, ?_⟩
  · exact (Function.update_self n _ _).trans (congrArg (fun r => r.2.2) hdec)
  · rw [← hframe.2.2.2, ← hlast]
    exact Function.update_self n _ _

theorem unread_attempt (hwf : w.mc.inBuf.Wf) (n : Nat) (rest : List Nat)
    (hframe : BeginsWithFrame w.unread)
    (hint : lengthWord w.unread ≤ cInt (bufferSize w.mc.inBuf)) :
    (attempt w n rest).unread =
      w.unread.drop (lengthWord w.unread).toNat := by
  obtain ⟨_, hin, _, _⟩ := attempt_frame hwf n rest hframe hint
  have hfit := hframe.2.2.1
  have hlen : w.unread.length = w.mc.inBuf.last - w.mc.inBuf.pos :=
    Buffer.content_length _ _
  have hadvance := content_advance w.mem w.mc.inBuf
    (lengthWord w.unread).toNat (by omega)
  rw [World.unread, hin]
  exact hadvance

theorem carries_attempt (hwf : w.mc.inBuf.Wf) (n : Nat) (rest : List Nat)
    (hframe : BeginsWithFrame w.unread)
    (hint : lengthWord w.unread ≤ cInt (bufferSize w.mc.inBuf)) :
    Carries
      { node := n
        task := (attempt w n rest).mc.nodes n
        payload := ((attempt w n rest).mc.nodes n).payload
          (attempt w n rest).mem }
      (w.unread.take (lengthWord w.unread).toNat) := by
  obtain ⟨_, _, hnode, _⟩ := attempt_frame hwf n rest hframe hint
  obtain ⟨hisFrame, hlength⟩ := hframe.isFrame_take
  obtain ⟨hword, hnonneg, hfit, _⟩ := id hframe
  have hlen : w.unread.length = w.mc.inBuf.last - w.mc.inBuf.pos :=
    Buffer.content_length _ _
  have hstruct : structOf (w.unread.take (lengthWord w.unread).toNat) =
      structOf w.unread := by
    have hload := load_asMem_append
      (w.unread.take (lengthWord w.unread).toNat)
      (w.unread.drop (lengthWord w.unread).toNat)
    rw [List.take_append_drop] at hload
    have := structOf_of_bytes hload hisFrame.1.headerSize_le
    rw [Nat.zero_add] at this
    exact this.symm
  have hpayload :
      (w.unread.take (lengthWord w.unread).toNat).drop headerSize =
        load w.mem (w.mc.inBuf.pos + headerSize)
          (structOf w.unread).dataLen.toInt.toNat := by
    have htake : w.unread.take (lengthWord w.unread).toNat =
        load w.mem w.mc.inBuf.pos (lengthWord w.unread).toNat :=
      load_take _ _ _ _ (by omega)
    have hrest : (lengthWord w.unread).toNat - headerSize =
        (structOf w.unread).dataLen.toInt.toNat := by omega
    rw [htake, load_drop _ _ _ _ (by omega), hrest]
  have hend : w.mc.inBuf.pos + headerSize < 2 ^ 64 := by
    have := hwf.pos_le_last
    have := hwf.last_le_end
    have := hwf.end_lt
    omega
  refine ⟨?_, ?_⟩
  · simp only [hnode, hstruct]
  · rw [hpayload]
    simp only [hnode, TaskT.payload]
    by_cases hdata : 0 < (structOf w.unread).dataLen.toInt
    · rw [if_pos hdata, BitVec.toNat_ofNat, Nat.mod_eq_of_lt hend]
      rfl
    · rw [show (structOf w.unread).dataLen.toInt.toNat = 0 by omega]
      rfl

end Attempt

/-!
## Receiving
-/

def Shrinks (w : World) : Prop :=
  w.mc.inBuf.start = w.mc.inBuf.pos ∨ bufferSize w.mc.inBuf < 2 ^ 31

/-- The receive buffer has been shrunk, and bytes from the wire appended. -/
structure Fetched (w w' : World) (bs : List Byte) : Prop where
  wf : w'.mc.inBuf.Wf
  start : w'.mc.inBuf.start = w.mc.inBuf.start
  endPtr : w'.mc.inBuf.endPtr = w.mc.inBuf.endPtr
  shrunk : w'.mc.inBuf.start = w'.mc.inBuf.pos
  unread : w'.unread = w.unread ++ bs
  received : w'.trace.received = w.trace.received ++ bs
  wire : w.env.wire = bs ++ w'.env.wire
  dispatched : w'.trace.dispatched = w.trace.dispatched
  freeTask : w'.mc.freeTask = w.mc.freeTask
  count : w'.mc.count = w.mc.count
  maxTask : w'.mc.maxTask = w.mc.maxTask

section Receiving

variable {w w' w'' : World} {bs bs' : List Byte}

theorem Fetched.trans (h : Fetched w w' bs) (h' : Fetched w' w'' bs') :
    Fetched w w'' (bs ++ bs') where
  wf := h'.wf
  start := h'.start.trans h.start
  endPtr := h'.endPtr.trans h.endPtr
  shrunk := h'.shrunk
  unread := by rw [h'.unread, h.unread, List.append_assoc]
  received := by rw [h'.received, h.received, List.append_assoc]
  wire := by rw [h.wire, h'.wire, List.append_assoc]
  dispatched := h'.dispatched.trans h.dispatched
  freeTask := h'.freeTask.trans h.freeTask
  count := h'.count.trans h.count
  maxTask := h'.maxTask.trans h.maxTask

theorem fetched_shrinkIn (hwf : w.mc.inBuf.Wf) (hshrinks : Shrinks w) :
    Fetched w (shrinkIn w) [] := by
  have hparts : (shrinkIn w).mc.inBuf.Wf ∧
      (shrinkIn w).unread = w.unread ∧
      (shrinkIn w).mc.inBuf.start = w.mc.inBuf.start ∧
      (shrinkIn w).mc.inBuf.endPtr = w.mc.inBuf.endPtr ∧
      (shrinkIn w).mc.inBuf.start = (shrinkIn w).mc.inBuf.pos := by
    unfold World.unread shrinkIn
    simp only
    rcases hshrinks with hstart | hsize
    · rw [bufferShrink_of_start hstart]
      exact ⟨hwf, rfl, rfl, rfl, hstart⟩
    · refine ⟨bufferShrink_wf hwf hsize, content_bufferShrink hwf hsize, ?_⟩
      rw [bufferShrink_eq hwf hsize]
      exact ⟨rfl, rfl, rfl⟩
  obtain ⟨hwf', hunread, hstart, hend, hshrunk⟩ := hparts
  exact ⟨hwf', hstart, hend, hshrunk, by rw [hunread, List.append_nil],
    by rw [List.append_nil]; rfl, rfl, rfl, rfl, rfl, rfl⟩

theorem fetched_useMc (h : Fetched w.useMc w' bs) : Fetched w w' bs := by
  have hbytes := bytes_useMc w
  obtain ⟨hwf, hstart, hend, hshrunk, hunread, hreceived, hwire, hdispatched,
    hfree, hcount, hmax⟩ := h
  unfold World.unread at hunread
  rw [useMc_mc] at *
  rw [useMc_mem] at hunread
  rw [useMc_env] at hwire
  exact ⟨hwf, hstart, hend, hshrunk, hunread,
    hreceived.trans (congrArg (· ++ bs) (congrArg Bytes.received hbytes)),
    hwire, hdispatched.trans (congrArg Bytes.dispatched hbytes), hfree, hcount,
    hmax⟩

theorem fetched_appendIn (hwf : w.mc.inBuf.Wf)
    (hstart : w.mc.inBuf.start = w.mc.inBuf.pos)
    (hfit : (bs.length : Int) ≤ bufferFreeSize w.mc.inBuf) {env : Env}
    (hwire : w.env.wire = bs ++ env.wire) :
    Fetched w (appendIn { w with env := env } bs) bs where
  wf := wf_append hwf hfit
  start := rfl
  endPtr := rfl
  shrunk := hstart
  unread := content_append w.mem hwf.pos_le_last bs
  received := rfl
  wire := hwire
  dispatched := rfl
  freeTask := rfl
  count := rfl
  maxTask := rfl

theorem fetched_recvTurn (hwf : w.mc.inBuf.Wf) (hshrinks : Shrinks w) :
    exists bs, Fetched w (afterTurn (nnConnRecvTurn w)) bs := by
  have hcases := nnConnRecvTurn_cases w
  have hshrink : Fetched w.useMc (shrinkIn w.useMc) [] := by
    refine fetched_shrinkIn (by rwa [useMc_mc]) ?_
    unfold Shrinks
    rwa [useMc_mc]
  have huse := fetched_useMc hshrink
  generalize shrinkIn w.useMc = v at hcases huse
  have hanswer := sysioUnixRecv_cases v.env
    (cSize (bufferFreeSize v.mc.inBuf))
  simp only at hcases hanswer
  generalize sysioUnixRecv v.env (cSize (bufferFreeSize v.mc.inBuf)) = r
    at hcases hanswer
  rcases hcases with heq | ⟨hnone, heq⟩ | ⟨hpos, heq⟩
  · exact ⟨[], by rwa [heq]⟩
  · rw [heq]
    rcases hanswer with ⟨hpos, _⟩ | ⟨_, hwire, _⟩
    · omega
    · exact ⟨[], huse.wf, huse.start, huse.endPtr, huse.shrunk, huse.unread,
        huse.received, huse.wire.trans (congrArg ([] ++ ·) hwire.symm),
        huse.dispatched, huse.freeTask, huse.count, huse.maxTask⟩
  · rw [heq]
    rcases hanswer with ⟨_, _, hle, hwire⟩ | ⟨_, _, hcode⟩
    · have hfree : 0 ≤ bufferFreeSize v.mc.inBuf := by
        rw [huse.wf.freeSize_eq]
        omega
      have hsize := cSize_le hfree
      exact ⟨_, huse.trans
        (fetched_appendIn huse.wf huse.shrunk (by omega) hwire)⟩
    · rcases hcode with hcode | hcode | hcode <;> rw [hcode] at hpos <;>
        exact absurd hpos (by decide)

theorem recvAnswer_recvs (env : Env) (size : Nat) (rs : List RecvResult)
    (h : 0 < (recvAnswer env size rs).1) :
    (recvAnswer env size rs).2.2.recvs.length < rs.length := by
  induction rs with
  | nil => exact absurd h (show ¬ 0 < ngxAgain by decide)
  | cons a rest ih =>
      cases a with
      | intr => exact Nat.lt_succ_of_lt (ih h)
      | again => exact Nat.lt_succ_self _
      | closed => exact Nat.lt_succ_self _
      | error => exact Nat.lt_succ_self _
      | data n =>
          simp only [recvAnswer] at h ⊢
          split
          · exact Nat.lt_succ_self _
          · exact Nat.lt_succ_self _

theorem nnConnRecvTurn_recvs {v : World} (h : nnConnRecvTurn w = Turn.next v) :
    v.env.recvs.length < w.env.recvs.length := by
  have henv : (shrinkIn w.useMc).env = w.env := useMc_env w
  unfold nnConnRecvTurn at h
  simp only at h
  rw [henv] at h
  have hanswer := sysioUnixRecv_cases w.env
    (cSize (bufferFreeSize (shrinkIn w.useMc).mc.inBuf))
  simp only at hanswer
  split at h
  · cases h
  · split at h
    · next hpos =>
      cases h
      exact recvAnswer_recvs w.env _ w.env.recvs hpos
    · next hpos =>
      rcases hanswer with ⟨hgot, _⟩ | ⟨_, _, hcode | hcode | hcode⟩
      · exact absurd hgot hpos
      all_goals simp [hcode, ngxAgain, ngxError] at h

theorem fetched_nnConnRecv (hwf : w.mc.inBuf.Wf) (hshrinks : Shrinks w) :
    exists bs, Fetched w (nnConnRecv w).2 bs := by
  -- before the first iteration nothing has been shrunk yet
  let Inv : World -> Prop := fun v => v = w ∨ exists bs, Fetched w v bs
  have hturn : forall v, Inv v ->
      exists bs, Fetched w (afterTurn (nnConnRecvTurn v)) bs := by
    rintro v (rfl | ⟨bs, hv⟩)
    · exact fetched_recvTurn hwf hshrinks
    · obtain ⟨bs', hv'⟩ := fetched_recvTurn hv.wf (Or.inl hv.shrunk)
      exact ⟨bs ++ bs', hv.trans hv'⟩
  have hlow : Lowers Inv (fun v => v.env.recvs.length) nnConnRecvTurn := by
    intro v v' hv hbody
    have hnext := hturn v hv
    rw [hbody] at hnext
    exact ⟨Or.inr hnext, nnConnRecvTurn_recvs hbody⟩
  refine loop_rule hlow _ (fun r : Int × World => exists bs, Fetched w r.2 bs)
    ?_ (Or.inl rfl)
  intro v r hv hbody
  have hdone := hturn v hv
  rw [hbody] at hdone
  exact hdone

end Receiving

end Request
end NgxEpoll
