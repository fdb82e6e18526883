import NgxEpoll.Common.Task

/-!
# Encoding and decoding through buffers

`task_decode` and `task_encode` of `dfs_task_codec.cpp`, and what they do on
tasks whose encoded size is a positive `int`.
-/

namespace NgxEpoll
namespace Common

open Foundation
open NgxEpoll.Core

def taskDecode (m : Mem) (buff : Buffer) (task : TaskT) :
    Int × Buffer × TaskT :=
  if bufferSize buff ≤ 0 then (ngxAgain, buff, task)
  else
    let r := taskDecodefstr m buff.pos (cInt (bufferSize buff)) task
    if r.1 ≤ 0 then (r.1, buff, r.2)
    else (ngxOk, { buff with pos := buff.pos + r.1.toNat }, r.2)

def taskEncode (m : Mem) (task : TaskT) (buff : Buffer) : Int × Mem × Buffer :=
  if bufferFreeSize buff ≤ 0 then (ngxAgain, m, buff)
  else
    let r := taskEncode2str m task buff.last (cInt (bufferFreeSize buff))
    if r.1 ≤ 0 then (r.1, r.2, buff)
    else (ngxOk, r.2, { buff with last := buff.last + r.1.toNat })

/-!
## Frames

A frame is the length word, the struct image, the trailing `data_len` word and
the payload.
-/

def TaskT.payload (m : Mem) (t : TaskT) : List Byte :=
  load m t.data.toNat t.dataLen.toInt.toNat

def TaskT.frameSize (t : TaskT) : Int :=
  headerSize + t.dataLen.toInt

def taskFrame (t : TaskT) (payload : List Byte) : List Byte :=
  leBytes 4 (BitVec.ofInt 32 t.frameSize).toNat ++
    (t.image ++ (leBytes 4 t.dataLen.toNat ++ payload))

/-- The frame size of the task is a positive `int`: `data_len` is not negative
and the sum of the sizes does not overflow. -/
structure TaskT.Sendable (t : TaskT) : Prop where
  dataLen_nonneg : 0 ≤ t.dataLen.toInt
  frameSize_lt : t.frameSize < 2 ^ 31

/-- The bytes `task_encode2str` leaves in a buffer that does not overlap the
payload. -/
def taskEncoding (m : Mem) (t : TaskT) : List Byte :=
  let buff := t.data.toNat + t.dataLen.toInt.toNat
  let r := taskEncode2str m t buff (2 ^ 31 - 1)
  load r.2 buff r.1.toNat

@[simp] theorem TaskT.payload_length (m : Mem) (t : TaskT) :
    (t.payload m).length = t.dataLen.toInt.toNat := by
  simp [TaskT.payload]

theorem taskFrame_length (t : TaskT) (payload : List Byte) :
    (taskFrame t payload).length = headerSize + payload.length := by
  simp only [taskFrame, List.length_append, leBytes_length, TaskT.image_length,
    headerSize, intSize]
  omega

theorem TaskT.Sendable.headerSize_le {t : TaskT} (h : t.Sendable) :
    (headerSize : Int) ≤ t.frameSize := by
  have := h.dataLen_nonneg
  unfold TaskT.frameSize
  omega

theorem TaskT.Sendable.frame_length {t : TaskT} (h : t.Sendable) (m : Mem) :
    ((taskFrame t (t.payload m)).length : Int) = t.frameSize := by
  have := h.dataLen_nonneg
  rw [taskFrame_length, TaskT.payload_length, TaskT.frameSize]
  omega

theorem TaskT.Sendable.needSize_eq {t : TaskT} (h : t.Sendable) :
    cInt (intSize + taskSize + intSize + t.dataLen.toInt) = t.frameSize := by
  have hlo := h.headerSize_le
  have hhi := h.frameSize_lt
  have hsum : ((intSize + taskSize + intSize : Nat) : Int) + t.dataLen.toInt =
      t.frameSize := rfl
  push_cast at hsum
  rw [hsum]
  exact cInt_eq_self (by omega) hhi

/-!
## What `task_encode2str` writes
-/

theorem taskEncode2str_of_lt {m : Mem} {t : TaskT} {buff : Nat} {len : Int}
    (h : len < cInt (intSize + taskSize + intSize + t.dataLen.toInt)) :
    taskEncode2str m t buff len = (taskEagin, m) := by
  simp only [taskEncode2str]
  rw [if_pos h]

theorem taskEncode2str_eq {m : Mem} {t : TaskT} {buff : Nat} {len : Int}
    (ht : t.Sendable) (hlen : t.frameSize ≤ len)
    (hapart : Apart t.data.toNat t.dataLen.toInt.toNat buff headerSize) :
    taskEncode2str m t buff len =
      (t.frameSize, store m buff (taskFrame t (t.payload m))) := by
  have hneed := ht.needSize_eq
  have hnonneg := ht.dataLen_nonneg
  let word := leBytes 4 (BitVec.ofInt 32 t.frameSize).toNat
  let header := word ++ (t.image ++ leBytes 4 t.dataLen.toNat)
  have hheader : header.length = headerSize := by
    simp [header, word, headerSize, intSize, taskSize]
  have hwrite :
      store (store (store m buff word) (buff + intSize) t.image)
          (buff + intSize + taskSize) (leBytes 4 t.dataLen.toNat) =
        store m buff header := by
    have himage := store_append (store m buff word) (buff + intSize) t.image
      (leBytes 4 t.dataLen.toNat)
    have hword := store_append m buff word
      (t.image ++ leBytes 4 t.dataLen.toNat)
    rw [TaskT.image_length] at himage
    rw [show word.length = intSize by simp [word, intSize]] at hword
    rw [himage, hword]
  have hpayload :
      load (store m buff header) t.data.toNat t.dataLen.toInt.toNat =
        t.payload m := by
    apply load_store_of_apart
    rw [hheader]
    exact hapart
  simp only [taskEncode2str]
  rw [hneed, if_neg (by omega), hwrite]
  by_cases hpos : 0 < t.dataLen.toInt
  · have hbody := store_append m buff header (t.payload m)
    rw [hheader] at hbody
    rw [if_pos hpos, hpayload, taskFrame,
      show buff + intSize + taskSize + intSize = buff + headerSize by
        simp only [headerSize]; omega, hbody]
    simp [header, word]
  · have hzero : t.dataLen.toInt = 0 := by omega
    rw [if_neg hpos, taskFrame, TaskT.payload, hzero]
    simp [header, word]

theorem taskEncoding_eq {m : Mem} {t : TaskT} (ht : t.Sendable) :
    taskEncoding m t = taskFrame t (t.payload m) := by
  have hlt := ht.frameSize_lt
  have hapart : Apart t.data.toNat t.dataLen.toInt.toNat
      (t.data.toNat + t.dataLen.toInt.toNat) headerSize :=
    Or.inr (Or.inr (Or.inl (Nat.le_refl _)))
  have hlen : t.frameSize.toNat = (taskFrame t (t.payload m)).length := by
    have := ht.frame_length m
    omega
  simp only [taskEncoding]
  rw [taskEncode2str_eq ht (by omega) hapart, hlen]
  exact load_store_self _ _ _

/-!
## `task_encode` as an append
-/

theorem taskEncode_ok {m : Mem} {t : TaskT} {b : Buffer} (hb : b.Wf)
    (ht : t.Sendable)
    (hfit : t.frameSize ≤ cInt (bufferFreeSize b))
    (hapart : Apart t.data.toNat t.dataLen.toInt.toNat b.last headerSize) :
    taskEncode m t b =
      (ngxOk, store m b.last (taskFrame t (t.payload m)),
        { b with last := b.last + (taskFrame t (t.payload m)).length }) := by
  have hlo := ht.headerSize_le
  have hframe := ht.frame_length m
  have hpos : 0 < t.frameSize := by
    simp only [headerSize, intSize, taskSize] at hlo
    omega
  have hfree : 0 < bufferFreeSize b := by
    have hnonneg : 0 ≤ bufferFreeSize b := by
      rw [hb.freeSize_eq]
      omega
    have := cInt_le_self hnonneg
    omega
  rw [taskEncode, if_neg (by omega)]
  simp only
  rw [taskEncode2str_eq ht hfit hapart]
  simp only
  rw [if_neg (by omega),
    show t.frameSize.toNat = (taskFrame t (t.payload m)).length by omega]

theorem taskEncode_again {m : Mem} {t : TaskT} {b : Buffer} (ht : t.Sendable)
    (hfit : cInt (bufferFreeSize b) < t.frameSize) :
    taskEncode m t b = (ngxAgain, m, b) := by
  rw [taskEncode]
  split
  · rfl
  · simp only
    rw [taskEncode2str_of_lt (by rw [ht.needSize_eq]; exact hfit)]
    rfl

end Common
end NgxEpoll
