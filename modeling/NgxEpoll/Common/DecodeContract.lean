import NgxEpoll.Common.Frame

/-!
# The contract of the decoder

The outcome of `task_decode` should depend on the received bytes only,
`NGX_OK` should mean that a well-formed frame was consumed, and in every other
case nothing should have happened.  The code compares the length word with the
number of received bytes and checks nothing else; this module says exactly
which received bytes that is enough for.
-/

namespace NgxEpoll
namespace Common

open Foundation
open NgxEpoll.Core

structure DecodeContract (m : Mem) (b : Buffer) (task : TaskT) : Prop where
  bytesOnly : forall m', b.content m' = b.content m ->
    taskDecode m' b task = taskDecode m b task
  ok_wellFormed : (taskDecode m b task).1 = ngxOk ->
    BeginsWithFrame (b.content m)
  wellFormed_ok : BeginsWithFrame (b.content m) ->
    (taskDecode m b task).1 = ngxOk ∧
      (taskDecode m b task).2.1 =
        { b with pos := b.pos + (lengthWord (b.content m)).toNat } ∧
      0 < lengthWord (b.content m)
  otherwise : ¬ BeginsWithFrame (b.content m) ->
    (taskDecode m b task).1 ≠ ngxOk ∧ (taskDecode m b task).2.1 = b ∧
      (taskDecode m b task).2.2 = task

/-- The bytes on which `task_decode` keeps its contract: the length word is
there, and it passes the comparison with `(int) len` on well-formed frames
only. -/
def DecodesSafely (bs : List Byte) : Prop :=
  4 ≤ bs.length ∧ (lengthWord bs ≤ cInt bs.length ↔ BeginsWithFrame bs)

def otherTask (t : TaskT) : TaskT :=
  { t with cmd := t.cmd + 1 }

theorem decodedTask_cmd (m : Mem) (buff : Nat) (task : TaskT) :
    (decodedTask m buff task).cmd = (taskAt m (buff + intSize)).cmd := by
  simp only [decodedTask]
  split <;> rfl

theorem exists_decodedTask_ne (m : Mem) (buff : Nat) :
    exists task : TaskT, decodedTask m buff task ≠ task := by
  refine ⟨otherTask (taskAt m (buff + intSize)), ?_⟩
  intro h
  have hcmd := congrArg TaskT.cmd h
  rw [decodedTask_cmd] at hcmd
  simp [otherTask] at hcmd

theorem beginsWithFrame_of_contract {m : Mem} {b : Buffer}
    (hsize : 0 < bufferSize b)
    (hpass : loadInt m b.pos ≤ cInt (bufferSize b))
    (hcontract : forall task, DecodeContract m b task) :
    BeginsWithFrame (b.content m) := by
  by_contra hbad
  obtain ⟨task, hne⟩ := exists_decodedTask_ne m b.pos
  have htask := ((hcontract task).otherwise hbad).2.2
  rw [taskDecode_eq hsize, if_neg (by omega)] at htask
  split at htask <;> exact hne htask

theorem exists_mem_negative (b : Buffer) (bs : List Byte)
    (hshort : bs.length < 4) (hlen : bs.length = b.last - b.pos) :
    exists m : Mem, b.content m = bs ∧ loadInt m b.pos < 0 := by
  let m : Mem := store (fun _ => 255) b.pos bs
  refine ⟨m, ?_, ?_⟩
  · rw [Buffer.content, ← hlen]
    exact load_store_self _ _ _
  · have htop : m (b.pos + 3) = 255 :=
      store_apply_outside _ _ _ _ (Or.inr (by omega))
    have hword : 2147483648 ≤ (loadWord m b.pos 4).toNat := by
      simp only [loadWord, load_succ, load_zero, leNat, BitVec.toNat_ofNat]
      rw [show b.pos + 1 + 1 + 1 = b.pos + 3 by omega, htop]
      have h0 := (m b.pos).isLt
      have h1 := (m (b.pos + 1)).isLt
      have h2 := (m (b.pos + 1 + 1)).isLt
      have h255 : BitVec.toNat (255 : Byte) = 255 := rfl
      omega
    have hlt := (show BitVec 32 from loadWord m b.pos 4).isLt
    unfold loadInt
    rw [BitVec.toInt_eq_toNat_bmod]
    have : cInt ((loadWord m b.pos 4).toNat : Int) < 0 := by
      rw [cInt_eq]
      have hlt' : (loadWord m b.pos 4).toNat < 4294967296 := hlt
      split <;> omega
    exact this

section Bytes

variable {b : Buffer} {bs : List Byte}

/-- With fewer than four bytes the top of the length word is stale memory, and
some memory makes it negative. -/
theorem four_le_of_contract (hsize : bufferSize b = bs.length)
    (hlen : bs.length = b.last - b.pos) (hsome : 1 ≤ bs.length)
    (hall : forall m task, b.content m = bs -> DecodeContract m b task) :
    4 ≤ bs.length := by
  by_contra hshort
  obtain ⟨m, hcontent, hneg⟩ := exists_mem_negative b bs (by omega) hlen
  have hint : cInt (bufferSize b) = bs.length := by
    rw [hsize]
    exact cInt_eq_self (by omega) (by omega)
  have hframe := beginsWithFrame_of_contract (by omega) (by omega)
    (fun task => hall m task hcontent)
  rw [hcontent] at hframe
  have := hframe.headerSize_le
  simp only [headerSize, intSize, taskSize] at this
  omega

theorem decodesSafely_of_contract (hsize : bufferSize b = bs.length)
    (hlen : bs.length = b.last - b.pos) (hsome : 1 ≤ bs.length)
    (hall : forall m task, b.content m = bs -> DecodeContract m b task) :
    DecodesSafely bs := by
  have hfour := four_le_of_contract hsize hlen hsome hall
  let m : Mem := store (fun _ => 0) b.pos bs
  have hload : load m b.pos bs.length = bs := load_store_self _ _ _
  have hcontent : b.content m = bs := by
    rw [Buffer.content, ← hlen, hload]
  have hword : loadInt m b.pos = lengthWord bs :=
    lengthWord_of_bytes hload hfour
  refine ⟨hfour, ?_, ?_⟩
  · intro hpass
    have hframe := beginsWithFrame_of_contract (m := m) (b := b) (by omega)
      (by rw [hword, hsize]; exact hpass)
      (fun task => hall m task hcontent)
    rwa [hcontent] at hframe
  · intro hframe
    by_contra hlt
    have hok := ((hall m (taskAt m 0) hcontent).wellFormed_ok
      (by rwa [hcontent])).1
    rw [taskDecode_eq (by omega), hword, hsize, if_pos (by omega)] at hok
    exact absurd hok ngxAgain_ne_ngxOk

/-- On such bytes the one test of the code tells well-formed frames from the
rest. -/
theorem taskDecode_of_decodesSafely (hsafe : DecodesSafely bs)
    (hsize : bufferSize b = bs.length) {m : Mem}
    (hload : load m b.pos bs.length = bs) (task : TaskT) :
    taskDecode m b task =
      if BeginsWithFrame bs then
        (ngxOk, { b with pos := b.pos + (lengthWord bs).toNat },
          decodedTask m b.pos task)
      else (ngxAgain, b, task) := by
  obtain ⟨hfour, hiff⟩ := hsafe
  rw [taskDecode_eq (by omega), lengthWord_of_bytes hload hfour, hsize]
  by_cases hframe : BeginsWithFrame bs
  · have hle := hiff.mpr hframe
    have hpos := hframe.lengthWord_pos
    rw [if_neg (by omega), if_neg (by omega), if_pos hframe]
  · have hgt : ¬ lengthWord bs ≤ cInt bs.length :=
      fun hle => hframe (hiff.mp hle)
    rw [if_pos (by omega), if_neg hframe]

theorem decodedTask_of_bytes (hframe : BeginsWithFrame bs) {m m' : Mem} {a : Nat}
    (hload : load m a bs.length = bs) (hload' : load m' a bs.length = bs)
    (task : TaskT) : decodedTask m' a task = decodedTask m a task := by
  have hheader := hframe.headerSize_le
  simp only [decodedTask]
  rw [structOf_of_bytes hload hheader, structOf_of_bytes hload' hheader,
    trailingWord_of_bytes hload hheader, trailingWord_of_bytes hload' hheader]

theorem decodeContract_of_decodesSafely (hsafe : DecodesSafely bs)
    (hsize : bufferSize b = bs.length) (hlen : bs.length = b.last - b.pos)
    {m : Mem} (hcontent : b.content m = bs) (task : TaskT) :
    DecodeContract m b task := by
  have hload : load m b.pos bs.length = bs := by
    rw [hlen]
    exact hcontent
  have hdecode := taskDecode_of_decodesSafely hsafe hsize hload task
  constructor
  · intro m' hcontent'
    rw [hcontent] at hcontent'
    have hload' : load m' b.pos bs.length = bs := by
      rw [hlen]
      exact hcontent'
    rw [hdecode, taskDecode_of_decodesSafely hsafe hsize hload' task]
    by_cases hframe : BeginsWithFrame bs
    · rw [if_pos hframe, if_pos hframe,
        decodedTask_of_bytes hframe hload hload' task]
    · rw [if_neg hframe, if_neg hframe]
  · intro hok
    rw [hdecode] at hok
    rw [hcontent]
    by_contra hframe
    rw [if_neg hframe] at hok
    exact absurd hok ngxAgain_ne_ngxOk
  · intro hframe
    rw [hcontent] at hframe ⊢
    rw [hdecode, if_pos hframe]
    exact ⟨rfl, rfl, hframe.lengthWord_pos⟩
  · intro hframe
    rw [hcontent] at hframe
    rw [hdecode, if_neg hframe]
    exact ⟨ngxAgain_ne_ngxOk, rfl, rfl⟩

end Bytes

/-- `task_decode` keeps its contract on exactly the bytes that decode safely. -/
theorem decodeContract_iff_decodesSafely (b : Buffer) (bs : List Byte)
    (hb : b.Wf) (hlen : bs.length = b.last - b.pos) (hsome : 1 ≤ bs.length) :
    (forall m task, b.content m = bs -> DecodeContract m b task) ↔
      DecodesSafely bs := by
  have hsize : bufferSize b = bs.length := by
    rw [hb.size_eq, hlen]
  constructor
  · exact decodesSafely_of_contract hsize hlen hsome
  · intro hsafe m task hcontent
    exact decodeContract_of_decodesSafely hsafe hsize hlen hcontent task

def fourByteBuffer : Buffer :=
  { bufferCreate 0 1024 with last := 4 }

theorem fourByteBuffer_wf : fourByteBuffer.Wf := by
  constructor <;> decide

theorem decodeContract_iff_zero_word :
    fourByteBuffer.Wf ∧
      ((forall m task, fourByteBuffer.content m = [0, 0, 0, 0] ->
          DecodeContract m fourByteBuffer task) ↔
        DecodesSafely [0, 0, 0, 0]) :=
  ⟨fourByteBuffer_wf,
    decodeContract_iff_decodesSafely fourByteBuffer [0, 0, 0, 0]
      fourByteBuffer_wf rfl (by decide)⟩

/-- A length word of zero is reported as `NGX_OK`, although nothing is consumed
and there is no frame. -/
theorem decodeContract_zero_word_fails :
    fourByteBuffer.Wf ∧ 1 ≤ bufferSize fourByteBuffer ∧
      ¬ DecodeContract (fun _ => 0) fourByteBuffer taskNew := by
  refine ⟨fourByteBuffer_wf, by decide, ?_⟩
  intro h
  have hok : (taskDecode (fun _ => 0) fourByteBuffer taskNew).1 = ngxOk := by
    decide
  exact absurd (h.ok_wellFormed hok) (by decide)

end Common
end NgxEpoll
