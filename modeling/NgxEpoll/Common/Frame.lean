import NgxEpoll.Common.TaskCodec

/-!
# Frames as byte strings

What it means for received bytes to begin with a well-formed frame, and what
`task_decode` computes from the bytes in memory.
-/

namespace NgxEpoll
namespace Common

open Foundation
open NgxEpoll.Core

def lengthWord (bs : List Byte) : Int :=
  loadInt (asMem bs) 0

def structOf (bs : List Byte) : TaskT :=
  taskAt (asMem bs) intSize

def trailingWord (bs : List Byte) : Int :=
  loadInt (asMem bs) (intSize + taskSize)

/-- The bytes begin with a well-formed frame: the length word is the size of
the header plus `data_len`, the frame is complete, and the two `data_len`
words agree. -/
def BeginsWithFrame (bs : List Byte) : Prop :=
  lengthWord bs = headerSize + (structOf bs).dataLen.toInt ∧
    0 ≤ (structOf bs).dataLen.toInt ∧
    lengthWord bs ≤ bs.length ∧
    trailingWord bs = (structOf bs).dataLen.toInt

instance (bs : List Byte) : Decidable (BeginsWithFrame bs) :=
  inferInstanceAs (Decidable (_ ∧ _ ∧ _ ∧ _))

/-- What `task_decodefstr` makes of the receiving task once the length word has
passed its only test. -/
def decodedTask (m : Mem) (buff : Nat) (task : TaskT) : TaskT :=
  let t := taskAt m (buff + intSize)
  let t :=
    if 0 < loadInt m (buff + intSize + taskSize) then
      { t with data := BitVec.ofNat 64 (buff + intSize + taskSize + intSize) }
    else t
  { t with opq := task.opq }

theorem taskDecodefstr_eq (m : Mem) (buff : Nat) (len : Int) (task : TaskT) :
    taskDecodefstr m buff len task =
      if len < loadInt m buff then (taskEagin, task)
      else (loadInt m buff, decodedTask m buff task) := rfl

theorem taskDecode_eq {m : Mem} {b : Buffer} {task : TaskT}
    (hsize : 0 < bufferSize b) :
    taskDecode m b task =
      if cInt (bufferSize b) < loadInt m b.pos then (ngxAgain, b, task)
      else if loadInt m b.pos ≤ 0 then
        (loadInt m b.pos, b, decodedTask m b.pos task)
      else
        (ngxOk, { b with pos := b.pos + (loadInt m b.pos).toNat },
          decodedTask m b.pos task) := by
  rw [taskDecode, if_neg (by omega), taskDecodefstr_eq]
  by_cases hlt : cInt (bufferSize b) < loadInt m b.pos
  · rw [if_pos hlt, if_pos hlt]
    rfl
  · rw [if_neg hlt, if_neg hlt]

theorem taskDecode_empty {m : Mem} {b : Buffer} {task : TaskT}
    (hsize : bufferSize b ≤ 0) : taskDecode m b task = (ngxAgain, b, task) := by
  rw [taskDecode, if_pos hsize]

/-!
## Reading a frame from memory
-/

section Reading

variable {m : Mem} {a : Nat} {bs : List Byte}

theorem load_eq_load_asMem (h : load m a bs.length = bs) :
    load m a bs.length = load (asMem bs) 0 bs.length := by
  rw [h, load_asMem]

theorem loadInt_of_bytes (h : load m a bs.length = bs) {k : Nat}
    (hk : k + 4 ≤ bs.length) : loadInt m (a + k) = loadInt (asMem bs) k := by
  have := load_part (load_eq_load_asMem h) hk
  rw [Nat.zero_add] at this
  exact loadInt_congr this

theorem lengthWord_of_bytes (h : load m a bs.length = bs)
    (hlen : 4 ≤ bs.length) : loadInt m a = lengthWord bs :=
  loadInt_of_bytes (k := 0) h (by omega)

theorem structOf_of_bytes (h : load m a bs.length = bs)
    (hlen : headerSize ≤ bs.length) : taskAt m (a + intSize) = structOf bs := by
  have := load_part (k := intSize) (w := taskSize) (load_eq_load_asMem h)
    (by simp only [headerSize] at hlen; omega)
  rw [Nat.zero_add] at this
  exact taskAt_congr this

theorem trailingWord_of_bytes (h : load m a bs.length = bs)
    (hlen : headerSize ≤ bs.length) :
    loadInt m (a + intSize + taskSize) = trailingWord bs := by
  rw [Nat.add_assoc]
  exact loadInt_of_bytes h (by simp only [headerSize, intSize] at *; omega)

theorem BeginsWithFrame.headerSize_le (h : BeginsWithFrame bs) :
    headerSize ≤ bs.length := by
  obtain ⟨hword, hnonneg, hfit, _⟩ := h
  omega

theorem BeginsWithFrame.lengthWord_pos (h : BeginsWithFrame bs) :
    0 < lengthWord bs := by
  obtain ⟨hword, hnonneg, _, _⟩ := h
  simp only [headerSize, intSize, taskSize] at hword
  omega

end Reading

/-!
## The frame of a task
-/

section TaskFrames

variable {t : TaskT} {payload rest : List Byte}

theorem taskFrame_parts (t : TaskT) (payload rest : List Byte) :
    load (asMem (taskFrame t payload ++ rest)) 0 4 =
        leBytes 4 (BitVec.ofInt 32 t.frameSize).toNat ∧
      load (asMem (taskFrame t payload ++ rest)) intSize taskSize = t.image ∧
      load (asMem (taskFrame t payload ++ rest)) (intSize + taskSize) 4 =
        leBytes 4 t.dataLen.toNat := by
  have h := load_asMem (taskFrame t payload ++ rest)
  generalize hm : asMem (taskFrame t payload ++ rest) = m at h ⊢
  clear hm
  simp only [taskFrame, List.append_assoc] at h
  rw [load_words_iff (by simp)] at h
  obtain ⟨hword, h⟩ := h
  rw [load_eq_append_iff (by simp)] at h
  obtain ⟨himage, h⟩ := h
  rw [load_words_iff (by simp)] at h
  refine ⟨hword, ?_, ?_⟩
  · rw [TaskT.image_length, Nat.zero_add] at himage
    exact himage
  · rw [TaskT.image_length, Nat.zero_add] at h
    exact h.left

theorem structOf_taskFrame : structOf (taskFrame t payload ++ rest) = t :=
  taskAt_of_load (taskFrame_parts t payload rest).2.1

theorem trailingWord_taskFrame :
    trailingWord (taskFrame t payload ++ rest) = t.dataLen.toInt :=
  loadInt_of_load (taskFrame_parts t payload rest).2.2

theorem lengthWord_taskFrame (ht : t.Sendable) :
    lengthWord (taskFrame t payload ++ rest) = t.frameSize := by
  have hlo := ht.headerSize_le
  rw [lengthWord, loadInt_of_load (taskFrame_parts t payload rest).1,
    toInt_ofInt_eq_cInt]
  exact cInt_eq_self (by omega) ht.frameSize_lt

theorem beginsWithFrame_taskFrame (ht : t.Sendable)
    (hpayload : (payload.length : Int) = t.dataLen.toInt) :
    BeginsWithFrame (taskFrame t payload ++ rest) := by
  refine ⟨?_, ?_, ?_, ?_⟩
  · rw [lengthWord_taskFrame ht, structOf_taskFrame]
    rfl
  · rw [structOf_taskFrame]
    exact ht.dataLen_nonneg
  · rw [lengthWord_taskFrame ht, List.length_append, taskFrame_length,
      TaskT.frameSize]
    omega
  · rw [trailingWord_taskFrame, structOf_taskFrame]

end TaskFrames

/-!
## Decoding a well-formed frame
-/

/-- A well-formed frame at the front of a buffer is consumed, and the receiving
task becomes the struct of the frame with its own `opq` and with `data` at the
payload. -/
theorem taskDecode_frame {m : Mem} {b : Buffer} {task : TaskT}
    (hb : b.Wf) (hframe : BeginsWithFrame (b.content m))
    (hint : lengthWord (b.content m) ≤ cInt (bufferSize b)) :
    taskDecode m b task =
      (ngxOk, { b with pos := b.pos + (lengthWord (b.content m)).toNat },
        { structOf (b.content m) with
          opq := task.opq
          data :=
            if 0 < (structOf (b.content m)).dataLen.toInt then
              BitVec.ofNat 64 (b.pos + headerSize)
            else (structOf (b.content m)).data }) := by
  have hheader := hframe.headerSize_le
  have hpos := hframe.lengthWord_pos
  have hload : load m b.pos (b.content m).length = b.content m := by
    rw [Buffer.content_length]
    rfl
  have hfour : 4 ≤ (b.content m).length := by
    simp only [headerSize, intSize, taskSize] at hheader
    omega
  have hword := lengthWord_of_bytes hload hfour
  have hsize : 0 < bufferSize b := by
    rw [← hb.content_length_int m]
    omega
  rw [taskDecode_eq hsize, hword, if_neg (by omega), if_neg (by omega)]
  simp only [decodedTask]
  rw [structOf_of_bytes hload hheader, trailingWord_of_bytes hload hheader,
    hframe.2.2.2,
    show b.pos + intSize + taskSize + intSize = b.pos + headerSize by
      simp only [headerSize]; omega]
  by_cases hdata : 0 < (structOf (b.content m)).dataLen.toInt
  · rw [if_pos hdata, if_pos hdata]
  · rw [if_neg hdata, if_neg hdata]

end Common
end NgxEpoll
