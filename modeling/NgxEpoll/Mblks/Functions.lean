import NgxEpoll.Core.Math
import NgxEpoll.Foundation.LittleEndian
import Mathlib.Algebra.Ring.Int.Defs

/-!
# Sets of memory blocks

`dfs_mblks.cpp`.  The headers of the blocks are bytes of the memory: the link to the
next free block, or the way back to the set while the block is held.  The fields of
`struct mem_mblks` are a record.  A call of `mem_get` or `mem_put` that reads a header
outside of the allocation has no result.

## Data
-/

namespace NgxEpoll
namespace Mblks

open Foundation NgxEpoll.Core

structure MemMblks where
  addr : Nat
  size : Nat
  hotCount : Int
  coldCount : Int
  paddedSizeofType : Nat
  realSizeofType : Nat
  freeBlks : Nat

structure World where
  mblks : MemMblks
  mem : Mem

def memMblksSize : Nat := 88

def memBlockHead : Nat := 8

def sizeofPerMemBlock (x : Nat) : Nat :=
  (x + memBlockHead) % 2 ^ 64

def next (m : Mem) (pdata : Nat) : Nat :=
  loadNat m pdata memBlockHead

def setNext (m : Mem) (pdata v : Nat) : Mem :=
  storeNat m pdata memBlockHead v

def MemMblks.Inside (b : MemMblks) (pdata : Nat) : Prop :=
  b.addr ≤ pdata ∧ pdata + memBlockHead ≤ b.addr + b.size

instance (b : MemMblks) (pdata : Nat) : Decidable (b.Inside pdata) :=
  inferInstanceAs (Decidable (_ ∧ _))

/-!
## Creation
-/

def linkBlocks (padded : Nat) : Nat -> Mem -> Nat -> Mem
  | 0, m, _ => m
  | n + 1, m, ptr =>
      let m := setNext m ptr (ptr + padded)
      linkBlocks padded n m (next m ptr)

def memMblksNew (memAlloc : Option (Nat -> Option Nat)) (m : Mem) (sizeofType : Nat)
    (count : Int) : Option World :=
  match memAlloc with
  | none => none
  | some memAlloc =>
      let padded := sizeofPerMemBlock sizeofType
      let size := ((padded * count + memMblksSize) % 2 ^ 64).toNat
      match memAlloc size with
      | none => none
      | some addr =>
          let m := store m addr (List.replicate size 0)
          let freeBlks := (addr + memMblksSize) % 2 ^ 64
          some
            { mblks :=
                { addr := addr
                  size := size
                  hotCount := 0
                  -- an `int64_t` in an `int`
                  coldCount := (count + 2 ^ 31) % 2 ^ 32 - 2 ^ 31
                  paddedSizeofType := padded
                  realSizeofType := sizeofType
                  freeBlks := freeBlks }
              mem := linkBlocks padded count.toNat m freeBlks }

/-!
## Blocks
-/

def memGet (w : World) : Option (Option Nat × World) :=
  if w.mblks.coldCount ≠ 0 then
    let pdata := w.mblks.freeBlks
    if w.mblks.Inside pdata then
      some (some (pdata + memBlockHead),
        { mblks := { w.mblks with
            freeBlks := next w.mem pdata
            hotCount := w.mblks.hotCount + 1
            coldCount := w.mblks.coldCount - 1 }
          mem := setNext w.mem pdata w.mblks.addr })
    else none
  else some (none, w)

def memGet0 (w : World) : Option (Option Nat × World) :=
  match memGet w with
  | none => none
  | some (none, w) => some (none, w)
  | some (some ptr, w) =>
      some (some ptr,
        { w with mem := store w.mem ptr (List.replicate w.mblks.realSizeofType 0) })

def memPut (w : World) (ptr : Nat) : Option World :=
  if ptr = 0 then some w
  else
    let pdata := sizeSub ptr memBlockHead
    if pdata = 0 then some w
    else if ¬ w.mblks.Inside pdata then none
    else if next w.mem pdata = 0 then some w
    else if next w.mem pdata ≠ w.mblks.addr then none
    else
      some
        { mblks := { w.mblks with
            hotCount := w.mblks.hotCount - 1
            coldCount := w.mblks.coldCount + 1
            freeBlks := pdata }
          mem := setNext w.mem pdata w.mblks.freeBlks }

end Mblks
end NgxEpoll
