import NgxEpoll.Common.TaskCodec
import Mathlib.Algebra.GroupWithZero.Nat

/-!
# What `task_encode2str` writes for any length

`data_len` may be any 32-bit `int`, so the size that `task_encode2str` computes
may be negative, smaller than the header or wrapped.  The copies are listed one
by one, so that a byte written twice or with its old value still counts.
-/

namespace NgxEpoll
namespace Common

open Foundation
open NgxEpoll.Core

def storeAll (m : Mem) (writes : List (Nat × List Byte)) : Mem :=
  writes.foldl (fun m w => store m w.1 w.2) m

def writtenSize (writes : List (Nat × List Byte)) : Nat :=
  (writes.map fun w => w.2.length).sum

def headerWrites (task : TaskT) (buff : Nat) : List (Nat × List Byte) :=
  let needSize := cInt (intSize + taskSize + intSize + task.dataLen.toInt)
  [(buff, leBytes 4 (BitVec.ofInt 32 needSize).toNat),
    (buff + intSize, task.image),
    (buff + intSize + taskSize, leBytes 4 task.dataLen.toNat)]

def encodeWrites (m : Mem) (task : TaskT) (buff : Nat) (len : Int) :
    List (Nat × List Byte) :=
  let needSize := cInt (intSize + taskSize + intSize + task.dataLen.toInt)
  if len < needSize then []
  else if 0 < task.dataLen.toInt then
    headerWrites task buff ++
      [(buff + intSize + taskSize + intSize,
        load (storeAll m (headerWrites task buff)) task.data.toNat
          task.dataLen.toInt.toNat)]
  else headerWrites task buff

theorem taskEncode2str_writes (m : Mem) (task : TaskT) (buff : Nat) (len : Int) :
    (taskEncode2str m task buff len).2 =
      storeAll m (encodeWrites m task buff len) := by
  unfold taskEncode2str encodeWrites
  simp only
  split
  · rfl
  · split
    · rfl
    · rfl

/-- The size is computed without overflow, every copy stays in
`buff[0, len)`, and the code tells how much was written. -/
structure EncodesWithin (m : Mem) (task : TaskT) (buff : Nat) (len : Int) :
    Prop where
  size_fits : -2 ^ 31 ≤ (intSize + taskSize + intSize : Nat) + task.dataLen.toInt ∧
    (intSize + taskSize + intSize : Nat) + task.dataLen.toInt < 2 ^ 31
  inside : forall w, w ∈ encodeWrites m task buff len ->
    buff ≤ w.1 ∧ ((w.1 + w.2.length : Nat) : Int) ≤ buff + len
  code : (taskEncode2str m task buff len).1 = taskEagin ∧
      encodeWrites m task buff len = [] ∨
    1 ≤ (taskEncode2str m task buff len).1 ∧
      (taskEncode2str m task buff len).1 ≤ len ∧
      (taskEncode2str m task buff len).1 =
        writtenSize (encodeWrites m task buff len)

section Sizes

variable {m : Mem} {task : TaskT} {buff : Nat} {len : Int}

theorem headerWrites_size (task : TaskT) (buff : Nat) :
    writtenSize (headerWrites task buff) = headerSize := by
  simp [writtenSize, headerWrites, headerSize, intSize, taskSize]

theorem headerWrites_inside {w : Nat × List Byte}
    (hw : w ∈ headerWrites task buff) :
    buff ≤ w.1 ∧ w.1 + w.2.length ≤ buff + headerSize := by
  simp only [headerWrites, List.mem_cons, List.not_mem_nil, or_false] at hw
  rcases hw with rfl | rfl | rfl
  · simp [headerSize, intSize, taskSize]
  · simp only [TaskT.image_length, headerSize, intSize, taskSize]
    omega
  · simp only [leBytes_length, headerSize, intSize, taskSize]
    omega

theorem needSize_eq_frameSize (hlt : task.frameSize < 2 ^ 31) :
    cInt (intSize + taskSize + intSize + task.dataLen.toInt) = task.frameSize := by
  have hlo := task.dataLen.le_toInt
  have hsum : ((intSize : Int) + taskSize + intSize + task.dataLen.toInt) =
      task.frameSize := by
    simp [TaskT.frameSize, headerSize]
  rw [hsum]
  apply cInt_eq_self
  · simp only [TaskT.frameSize, headerSize, intSize, taskSize]
    omega
  · exact hlt

theorem frameSize_eq (task : TaskT) :
    ((intSize + taskSize + intSize : Nat) : Int) + task.dataLen.toInt =
      task.frameSize := rfl

theorem encodeWrites_of_fit (hfit : ¬ len <
      cInt (intSize + taskSize + intSize + task.dataLen.toInt))
    (hlen : 0 ≤ task.dataLen.toInt) :
    (forall w, w ∈ encodeWrites m task buff len ->
      buff ≤ w.1 ∧ ((w.1 + w.2.length : Nat) : Int) ≤ buff + task.frameSize) ∧
      (writtenSize (encodeWrites m task buff len) : Int) = task.frameSize := by
  have hheader := headerWrites_size task buff
  unfold encodeWrites
  simp only
  rw [if_neg hfit]
  split
  · constructor
    · intro w hw
      rcases List.mem_append.mp hw with hw | hw
      · have hin := headerWrites_inside hw
        simp only [TaskT.frameSize]
        omega
      · rw [List.mem_singleton.mp hw]
        simp only [load_length, TaskT.frameSize, headerSize]
        omega
    · unfold writtenSize at hheader ⊢
      simp only [List.map_append, List.sum_append, hheader, List.map_cons,
        List.map_nil, List.sum_cons, List.sum_nil, load_length, TaskT.frameSize]
      omega
  · constructor
    · intro w hw
      have hin := headerWrites_inside hw
      simp only [TaskT.frameSize]
      omega
    · rw [hheader, TaskT.frameSize]
      omega

theorem encodeWrites_of_negative (hfit : ¬ len <
      cInt (intSize + taskSize + intSize + task.dataLen.toInt))
    (hlen : task.dataLen.toInt < 0) :
    encodeWrites m task buff len = headerWrites task buff := by
  unfold encodeWrites
  simp only
  rw [if_neg hfit, if_neg (by omega)]

theorem taskEncode2str_code (hfit : ¬ len <
      cInt (intSize + taskSize + intSize + task.dataLen.toInt)) :
    (taskEncode2str m task buff len).1 =
      cInt (intSize + taskSize + intSize + task.dataLen.toInt) := by
  unfold taskEncode2str
  simp only
  rw [if_neg hfit]

theorem encodesWithin_of_frame (hlt : task.frameSize < 2 ^ 31)
    (h : 0 ≤ task.dataLen.toInt ∨ len < task.frameSize) :
    EncodesWithin m task buff len := by
  have hlo := task.dataLen.le_toInt
  have hneed := needSize_eq_frameSize hlt
  have hsize : -2 ^ 31 ≤ task.frameSize := by
    simp only [TaskT.frameSize, headerSize, intSize, taskSize]
    omega
  by_cases hfit : len < cInt (intSize + taskSize + intSize + task.dataLen.toInt)
  · have hnone : encodeWrites m task buff len = [] := by
      unfold encodeWrites
      simp only
      rw [if_pos hfit]
    constructor
    · rw [frameSize_eq]
      exact ⟨hsize, hlt⟩
    · intro w hw
      rw [hnone] at hw
      cases hw
    · rw [taskEncode2str_of_lt hfit]
      exact Or.inl ⟨rfl, hnone⟩
  · have hnonneg : 0 ≤ task.dataLen.toInt := by
      rcases h with h | h
      · exact h
      · rw [hneed] at hfit
        exact absurd h hfit
    obtain ⟨hinside, hwritten⟩ :=
      @encodeWrites_of_fit m task buff len hfit hnonneg
    have hcode := @taskEncode2str_code m task buff len hfit
    rw [hneed] at hfit hcode
    constructor
    · rw [frameSize_eq]
      exact ⟨hsize, hlt⟩
    · intro w hw
      have hin := hinside w hw
      omega
    · rw [hcode, hwritten]
      refine Or.inr ⟨?_, by omega, rfl⟩
      simp only [TaskT.frameSize, headerSize, intSize, taskSize]
      omega

theorem frame_of_encodesWithin (h : EncodesWithin m task buff len) :
    task.frameSize < 2 ^ 31 ∧ (0 ≤ task.dataLen.toInt ∨ len < task.frameSize) := by
  have hlt : task.frameSize < 2 ^ 31 := h.size_fits.2
  have hneed := needSize_eq_frameSize hlt
  refine ⟨hlt, ?_⟩
  by_contra hno
  rw [not_or] at hno
  obtain ⟨hneg, hfit⟩ := hno
  rw [← hneed] at hfit
  have hwrites := @encodeWrites_of_negative m task buff len hfit
    (by omega : task.dataLen.toInt < 0)
  have hcode := @taskEncode2str_code m task buff len hfit
  rcases h.code with ⟨-, hnone⟩ | ⟨-, -, hsame⟩
  · rw [hwrites] at hnone
    cases hnone
  · rw [hcode, hneed, hwrites, headerWrites_size, TaskT.frameSize] at hsame
    omega

end Sizes

/-!
## `task_encode` on any buffer
-/

def TaskT.needSize (t : TaskT) : Int :=
  cInt (intSize + taskSize + intSize + t.dataLen.toInt)

/-- The task is refused, or the header is written and the size comes back as a
code, or the task is appended. -/
theorem taskEncode_cases (m : Mem) (t : TaskT) (b : Buffer) :
    ((bufferFreeSize b ≤ 0 ∨ cInt (bufferFreeSize b) < t.needSize) ∧
        taskEncode m t b = (ngxAgain, m, b)) ∨
      (0 < bufferFreeSize b ∧ t.needSize ≤ cInt (bufferFreeSize b) ∧
        ((t.needSize ≤ 0 ∧ (taskEncode m t b).1 = t.needSize ∧
            (taskEncode m t b).2.2 = b) ∨
          (0 < t.needSize ∧ (taskEncode m t b).1 = ngxOk ∧
            (taskEncode m t b).2.2 =
              { b with last := b.last + t.needSize.toNat }))) := by
  unfold taskEncode
  by_cases hfree : bufferFreeSize b ≤ 0
  · rw [if_pos hfree]
    exact Or.inl ⟨Or.inl hfree, rfl⟩
  · rw [if_neg hfree]
    simp only
    by_cases hfit : cInt (bufferFreeSize b) < t.needSize
    · rw [taskEncode2str_of_lt hfit]
      exact Or.inl ⟨Or.inr hfit, rfl⟩
    · have hcode : forall buff, (taskEncode2str m t buff
          (cInt (bufferFreeSize b))).1 = t.needSize :=
        fun _ => taskEncode2str_code hfit
      refine Or.inr ⟨by omega, by omega, ?_⟩
      rw [hcode]
      by_cases hpos : t.needSize ≤ 0
      · rw [if_pos hpos]
        exact Or.inl ⟨hpos, rfl, rfl⟩
      · rw [if_neg hpos]
        exact Or.inr ⟨by omega, rfl, rfl⟩

theorem taskEncode_last (m : Mem) (task : TaskT) {b : Buffer}
    (hb : b.last ≤ b.endPtr) :
    b.last ≤ (taskEncode m task b).2.2.last ∧
      (taskEncode m task b).2.2.last ≤ b.endPtr := by
  unfold taskEncode
  simp only
  split
  · exact ⟨Nat.le_refl _, hb⟩
  · split
    · exact ⟨Nat.le_refl _, hb⟩
    · rename_i hcode
      have hfree : 0 ≤ bufferFreeSize b := by
        unfold bufferFreeSize
        omega
      have hle := cInt_le_self hfree
      have hneed : (taskEncode2str m task b.last (cInt (bufferFreeSize b))).1 ≤
          cInt (bufferFreeSize b) := by
        by_cases hfit : cInt (bufferFreeSize b) <
            cInt (intSize + taskSize + intSize + task.dataLen.toInt)
        · rw [taskEncode2str_of_lt hfit] at hcode
          exact absurd (show taskEagin ≤ 0 by decide) hcode
        · rw [taskEncode2str_code hfit]
          omega
      have hmoved : ((taskEncode2str m task b.last
          (cInt (bufferFreeSize b))).1.toNat : Int) ≤ b.endPtr - b.last := by
        unfold bufferFreeSize at hle hneed hcode ⊢
        omega
      constructor
      · exact Nat.le_add_right ..
      · simp only
        omega

/-- The sum of the sizes must be an `int`, and where the task fits, `data_len`
must not be negative; the end of the buffer is respected in any case. -/
theorem taskEncode2str_within_iff (m : Mem) (task : TaskT) (buff : Nat) (len : Int) :
    (EncodesWithin m task buff len ↔
      task.frameSize < 2 ^ 31 ∧ (0 ≤ task.dataLen.toInt ∨ len < task.frameSize)) ∧
    forall b : Buffer, b.last ≤ b.endPtr ->
      b.last ≤ (taskEncode m task b).2.2.last ∧
        (taskEncode m task b).2.2.last ≤ b.endPtr :=
  ⟨⟨frame_of_encodesWithin, fun h => encodesWithin_of_frame h.1 h.2⟩,
    fun _ hb => taskEncode_last m task hb⟩

def shortTask : TaskT :=
  { taskNew with dataLen := -1 }

theorem taskEncode2str_shortTask :
    ¬ EncodesWithin (fun _ => 0) shortTask 0 343 := by
  intro h
  rcases h.code with ⟨-, hnone⟩ | ⟨-, -, hsame⟩
  · exact absurd hnone (by decide +kernel)
  · exact absurd hsame (by decide +kernel)

end Common
end NgxEpoll
