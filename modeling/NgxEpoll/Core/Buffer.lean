import NgxEpoll.Core.Types

/-!
# Buffers

`buffer_t` of `dfs_buffer.h`: four pointers into one block of memory, with the
unread bytes between `pos` and `last` and the free space between `last` and
`end`.
-/

namespace NgxEpoll
namespace Core

open Foundation

/-- `buffer_t`.  The pointers are addresses; `memory` tells a memory buffer
from a file buffer. -/
structure Buffer where
  pos : Nat
  last : Nat
  filePos : Int
  fileLast : Int
  start : Nat
  endPtr : Nat
  memory : Bool

def bufferInMemory (b : Buffer) : Bool :=
  b.memory

def bufferSize (b : Buffer) : Int :=
  if bufferInMemory b then (b.last : Int) - b.pos else b.fileLast - b.filePos

def bufferFreeSize (b : Buffer) : Int :=
  (b.endPtr : Int) - b.last

def bufferReset (b : Buffer) : Buffer :=
  { b with last := b.start, pos := b.start }

def bufferCreate (start size : Nat) : Buffer where
  pos := start
  last := start
  filePos := 0
  fileLast := 0
  start := start
  endPtr := start + size
  memory := true

/-- `buffer_shrink`: the unread bytes move to the front.  Their number goes
through an `int`. -/
def bufferShrink (m : Mem) (buf : Buffer) : Mem × Buffer :=
  if buf.start = buf.pos then (m, buf)
  else
    let blen := cInt (bufferSize buf)
    if blen = 0 then (m, bufferReset buf)
    else
      (memmove m buf.start buf.pos (cSize blen),
        { buf with
          pos := buf.start
          last := ((buf.start : Int) + blen).toNat })

/-- The pointers of a memory buffer are in order and are 64-bit addresses. -/
structure Buffer.Wf (b : Buffer) : Prop where
  memory : b.memory = true
  start_le_pos : b.start ≤ b.pos
  pos_le_last : b.pos ≤ b.last
  last_le_end : b.last ≤ b.endPtr
  end_lt : b.endPtr < 2 ^ 64

def Buffer.content (m : Mem) (b : Buffer) : List Byte :=
  load m b.pos (b.last - b.pos)

def Buffer.block (b : Buffer) : Nat × Nat × Bool :=
  (b.start, b.endPtr, b.memory)

theorem bufferCreate_wf {start size : Nat} (h : start + size < 2 ^ 64) :
    (bufferCreate start size).Wf where
  memory := rfl
  start_le_pos := Nat.le_refl _
  pos_le_last := Nat.le_refl _
  last_le_end := Nat.le_add_right _ _
  end_lt := h

@[simp] theorem bufferReset_wf {b : Buffer} (h : b.Wf) : (bufferReset b).Wf where
  memory := h.memory
  start_le_pos := Nat.le_refl _
  pos_le_last := Nat.le_refl _
  last_le_end := by
    have := h.start_le_pos
    have := h.pos_le_last
    have := h.last_le_end
    simp only [bufferReset]
    omega
  end_lt := h.end_lt

@[simp] theorem content_bufferReset (m : Mem) (b : Buffer) :
    (bufferReset b).content m = [] := by
  simp [Buffer.content, bufferReset]

theorem Buffer.Wf.size_eq {b : Buffer} (h : b.Wf) :
    bufferSize b = ((b.last - b.pos : Nat) : Int) := by
  have hle := h.pos_le_last
  rw [bufferSize, bufferInMemory, h.memory, if_pos rfl]
  omega

theorem Buffer.Wf.freeSize_eq {b : Buffer} (h : b.Wf) :
    bufferFreeSize b = ((b.endPtr - b.last : Nat) : Int) := by
  have hle := h.last_le_end
  rw [bufferFreeSize]
  omega

theorem Buffer.content_length (m : Mem) (b : Buffer) :
    (b.content m).length = b.last - b.pos := by
  simp [Buffer.content]

theorem Buffer.Wf.content_length_int {b : Buffer} (h : b.Wf) (m : Mem) :
    ((b.content m).length : Int) = bufferSize b := by
  rw [h.size_eq, Buffer.content_length]

theorem content_append (m : Mem) {b : Buffer} (h : b.pos ≤ b.last)
    (bs : List Byte) :
    ({ b with last := b.last + bs.length } : Buffer).content
      (store m b.last bs) = b.content m ++ bs := by
  have hold : load (store m b.last bs) b.pos (b.last - b.pos) =
      load m b.pos (b.last - b.pos) :=
    load_store_of_apart _ _ _ _ _ (Or.inr (Or.inr (Or.inl (by omega))))
  have hnew := load_store_self m b.last bs
  simp only [Buffer.content]
  rw [show b.last + bs.length - b.pos = (b.last - b.pos) + bs.length by omega,
    load_add, hold, show b.pos + (b.last - b.pos) = b.last by omega, hnew]

/-!
## Shrinking

As long as the unread bytes number fewer than `2 ^ 31` the conversion to `int`
is exact and `buffer_shrink` keeps them.
-/

theorem bufferShrink_of_start {m : Mem} {b : Buffer} (h : b.start = b.pos) :
    bufferShrink m b = (m, b) := by
  rw [bufferShrink, if_pos h]

theorem bufferShrink_eq {m : Mem} {b : Buffer} (h : b.Wf)
    (hsize : bufferSize b < 2 ^ 31) :
    bufferShrink m b =
      (store m b.start
          (if b.start = b.pos then [] else b.content m),
        { b with pos := b.start, last := b.start + (b.last - b.pos) }) := by
  have hpos := h.pos_le_last
  have hint : cInt (bufferSize b) = ((b.last - b.pos : Nat) : Int) := by
    rw [cInt_eq_self (by rw [h.size_eq]; omega) hsize, h.size_eq]
  by_cases hstart : b.start = b.pos
  · rw [bufferShrink_of_start hstart, if_pos hstart, store_nil]
    have hlast : b.start + (b.last - b.pos) = b.last := by omega
    cases b with
    | mk pos last filePos fileLast start endPtr memory =>
        simp only at hstart hlast ⊢
        rw [hlast, hstart]
  · rw [bufferShrink, if_neg hstart, if_neg hstart]
    simp only [hint]
    by_cases hzero : ((b.last - b.pos : Nat) : Int) = 0
    · have hnat : b.last - b.pos = 0 := by omega
      rw [if_pos hzero]
      simp [bufferReset, Buffer.content, hnat]
    · rw [h.size_eq] at hsize
      rw [if_neg hzero]
      have hsz : cSize ((b.last - b.pos : Nat) : Int) = b.last - b.pos := by
        unfold cSize
        omega
      have hlast :
          ((b.start : Int) + ((b.last - b.pos : Nat) : Int)).toNat =
            b.start + (b.last - b.pos) := by omega
      rw [hsz, hlast]
      rfl

theorem bufferShrink_wf {m : Mem} {b : Buffer} (h : b.Wf)
    (hsize : bufferSize b < 2 ^ 31) : (bufferShrink m b).2.Wf := by
  have hsp := h.start_le_pos
  have hpl := h.pos_le_last
  have hle := h.last_le_end
  rw [bufferShrink_eq h hsize]
  constructor
  · exact h.memory
  · exact Nat.le_refl _
  · exact Nat.le_add_right _ _
  · simp only
    omega
  · exact h.end_lt

theorem content_bufferShrink {m : Mem} {b : Buffer} (h : b.Wf)
    (hsize : bufferSize b < 2 ^ 31) :
    (bufferShrink m b).2.content (bufferShrink m b).1 = b.content m := by
  rw [bufferShrink_eq h hsize]
  simp only [Buffer.content, Nat.add_sub_cancel_left]
  by_cases hstart : b.start = b.pos
  · rw [if_pos hstart, store_nil, hstart]
  · rw [if_neg hstart]
    have hself := load_store_self m b.start (load m b.pos (b.last - b.pos))
    rwa [load_length] at hself

theorem agreeOn_bufferShrink {m : Mem} {b : Buffer} (h : b.Wf)
    (hsize : bufferSize b < 2 ^ 31) {a n : Nat}
    (hapart : b.start = b.pos ∨ Apart a n b.start (b.last - b.pos)) :
    AgreeOn (bufferShrink m b).1 m a n := by
  rw [bufferShrink_eq h hsize]
  by_cases hstart : b.start = b.pos
  · rw [if_pos hstart, store_nil]
    intro i _ _
    rfl
  · rw [if_neg hstart]
    apply agreeOn_store_of_apart
    rw [Buffer.content_length]
    exact hapart.resolve_left hstart

end Core
end NgxEpoll
