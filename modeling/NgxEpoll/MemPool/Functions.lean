import NgxEpoll.Core.Math
import NgxEpoll.Foundation.LittleEndian
import Mathlib.Logic.Function.Basic

/-!
# The memory pool and its arrays

`dfs_memory_pool.cpp` and `dfs_array.cpp` over `malloc` and `free`, which are given
by their functions.  The descriptors of large blocks and the headers of arrays are
bytes of the memory, the headers of the blocks are a record.  A step that does not
leave a loop or a recursion, or that follows a pointer to a place that is not of
the pool, has no result.

## Data
-/

namespace NgxEpoll
namespace MemPool

open Foundation NgxEpoll.Core

structure Malloc where
  State : Type
  malloc : State -> Nat -> Option Nat × State
  free : State -> Nat -> State

structure Block where
  addr : Nat
  last : Nat
  stop : Nat

/-- `pool_t`.  The blocks are numbered along `data.next`, and `current` is the
number of one; `large` is a pointer. -/
structure PoolT where
  block : Nat -> Block
  count : Nat
  max : Nat
  current : Nat
  large : Nat

def poolSize : Nat := 56

def poolDataSize : Nat := 24

def poolLargeSize : Nat := 24

def arraySize : Nat := 40

structure World (M : Malloc) where
  pool : PoolT
  mem : Mem
  heap : M.State

variable {M : Malloc}

def PoolT.setLast (p : PoolT) (i last : Nat) : PoolT :=
  { p with block := Function.update p.block i { p.block i with last := last } }

def World.setLast (w : World M) (i last : Nat) : World M :=
  { w with pool := w.pool.setLast i last }

def PoolT.psize (p : PoolT) : Nat :=
  (p.block 0).stop - (p.block 0).addr

/-!
## Memory from the system
-/

def memoryAlloc (heap : M.State) (size : Nat) : Option Nat × M.State :=
  if size = 0 then (none, heap) else M.malloc heap size

def memoryFree (heap : M.State) (p : Nat) : M.State :=
  if p = 0 then heap else M.free heap p

def create (heap : M.State) (size maxSize : Nat) : Option PoolT × M.State :=
  if size = 0 then (none, heap)
  else
    let size := if size < poolSize then size + poolSize else size
    match memoryAlloc heap size with
    | (none, heap) => (none, heap)
    | (some p, heap) =>
        (some
          { block := fun _ => ⟨p, p + poolSize, p + size⟩
            count := 1
            max := if size - poolSize < maxSize then size - poolSize else maxSize
            current := 0
            large := 0 },
          heap)

/-!
## Small regions
-/

def alignPtr (p : Nat) : Nat :=
  (p + 7) % 2 ^ 64 / 8 * 8

def Block.Fits (b : Block) (size : Nat) : Prop :=
  alignPtr b.last < b.stop ∧ size ≤ b.stop - alignPtr b.last

instance (b : Block) (size : Nat) : Decidable (b.Fits size) :=
  inferInstanceAs (Decidable (_ ∧ _))

/-- The block `current` becomes when another one is linked: the successor of the last
block that is full, or the new one. -/
def nextCurrent (p : PoolT) : Nat :=
  ((List.range' p.current (p.count - 1 - p.current)).foldl
    (fun c i => if (p.block i).stop - (p.block i).last < 8 then some (i + 1) else c)
    none).getD p.count

def allocBlock (w : World M) (size : Nat) : Option Nat × World M :=
  if size = 0 then (none, w)
  else
    match memoryAlloc w.heap w.pool.psize with
    | (none, heap) => (none, { w with heap := heap })
    | (some np, heap) =>
        let m := alignPtr (np + poolDataSize)
        (some m,
          { w with
            heap := heap
            pool := { w.pool with
              block := Function.update w.pool.block w.pool.count
                ⟨np, m + size, np + w.pool.psize⟩
              count := w.pool.count + 1
              current := nextCurrent w.pool } })

def PoolT.fromCurrent (p : PoolT) : List Nat :=
  List.range' p.current (p.count - p.current)

def allocSmall (w : World M) (size : Nat) : Option Nat × World M :=
  match w.pool.fromCurrent.find? fun i => (w.pool.block i).Fits size with
  | some i =>
      let m := alignPtr (w.pool.block i).last
      (some m, w.setLast i (m + size))
  | none => allocBlock w size

/-!
## Large regions
-/

def linkLarge (w : World M) (l p size : Nat) : World M :=
  { w with
    mem := storeNat (storeNat (storeNat w.mem l 8 p) (l + 8) 8 size) (l + 16) 8
      w.pool.large
    pool := { w.pool with large := l } }

/-- `pool_alloc_large`.  Where a descriptor is itself large, the calls do not end. -/
def allocLarge (w : World M) (size : Nat) : Option (Option Nat × World M) :=
  match memoryAlloc w.heap size with
  | (none, heap) => some (none, { w with heap := heap })
  | (some p, heap) =>
      if w.pool.max < poolLargeSize then none
      else
        match allocSmall { w with heap := heap } poolLargeSize with
        | (none, w) => some (none, { w with heap := memoryFree w.heap p })
        | (some l, w) => some (some p, linkLarge w l p size)

def alloc (w : World M) (size : Nat) : Option (Option Nat × World M) :=
  if size = 0 then some (none, w)
  else if size ≤ w.pool.max then some (allocSmall w size)
  else allocLarge w size

def calloc (w : World M) (size : Nat) : Option (Option Nat × World M) :=
  match alloc w size with
  | none => none
  | some (none, w) => some (none, w)
  | some (some p, w) =>
      some (some p, { w with mem := store w.mem p (List.replicate size 0) })

/-!
## The end of regions
-/

def PoolT.Contains (p : PoolT) (l : Nat) : Prop :=
  exists i, i < p.count ∧ (p.block i).addr + poolDataSize ≤ l ∧
    l + poolLargeSize ≤ (p.block i).stop

instance (p : PoolT) (l : Nat) : Decidable (p.Contains l) :=
  inferInstanceAs (Decidable (exists i, i < p.count ∧ _))

/-- The loops over `pool->large`, with the pointers that are released; `clear` tells
whether they are set to null. -/
def freeLarge (clear : Bool) : Nat -> World M -> Nat -> Option (List Nat × World M)
  | turns, w, l =>
      if l = 0 then some ([], w)
      else
        match turns with
        | 0 => none
        | turns + 1 =>
            if w.pool.Contains l then
              let p := loadNat w.mem l 8
              if p = 0 then freeLarge clear turns w (loadNat w.mem (l + 16) 8)
              else
                let w := { w with
                  heap := M.free w.heap p
                  mem := if clear then storeNat w.mem l 8 0 else w.mem }
                (freeLarge clear turns w (loadNat w.mem (l + 16) 8)).map fun r =>
                  (p :: r.1, r.2)
            else none

def PoolT.rewound (p : PoolT) : PoolT :=
  { p with
    block := fun i => { p.block i with last := (p.block i).addr + poolSize }
    current := 0 }

/-- `pool_reset`, with the pointers it releases and the turns its loop may take. -/
def reset (turns : Nat) (w : World M) : Option (List Nat × World M) :=
  (freeLarge true turns w w.pool.large).map fun r =>
    (r.1, { r.2 with pool := r.2.pool.rewound })

def PoolT.addrs (p : PoolT) : List Nat :=
  (List.range p.count).map fun i => (p.block i).addr

def destroy (turns : Nat) (w : World M) : Option (List Nat × M.State) :=
  (freeLarge false turns w w.pool.large).map fun r =>
    (r.1 ++ r.2.pool.addrs, r.2.pool.addrs.foldl M.free r.2.heap)

/-!
## Arrays
-/

structure ArrayT where
  elts : Nat
  nelts : Nat
  size : Nat
  nalloc : Nat
  pool : Nat

def readArray (m : Mem) (a : Nat) : ArrayT where
  elts := loadNat m a 8
  nelts := loadNat m (a + 8) 4
  size := loadNat m (a + 16) 8
  nalloc := loadNat m (a + 24) 4
  pool := loadNat m (a + 32) 8

def setElts (m : Mem) (a v : Nat) : Mem := storeNat m a 8 v

def setNelts (m : Mem) (a v : Nat) : Mem := storeNat m (a + 8) 4 v

def setSize (m : Mem) (a v : Nat) : Mem := storeNat m (a + 16) 8 v

def setNalloc (m : Mem) (a v : Nat) : Mem := storeNat m (a + 24) 4 v

def setPool (m : Mem) (a v : Nat) : Mem := storeNat m (a + 32) 8 v

/-- `array_create` in a pool; a header that is not there is written through. -/
def arrayCreate (w : World M) (n size : Nat) : Option (Option Nat × World M) :=
  if size = 0 ∨ n = 0 then some (none, w)
  else
    match alloc w arraySize with
    | none => none
    | some (none, _) => none
    | some (some a, w) =>
        match alloc w (n * size % 2 ^ 64) with
        | none => none
        | some (none, w) => some (none, { w with mem := setElts w.mem a 0 })
        | some (some e, w) =>
            some (some a, { w with
              mem := setPool (setNalloc (setSize (setNelts (setElts w.mem a e) a 0) a
                size) a n) a (w.pool.block 0).addr })

def nextElt (w : World M) (a : Nat) : Option Nat × World M :=
  let arr := readArray w.mem a
  (some ((arr.elts + arr.size * arr.nelts) % 2 ^ 64),
    { w with mem := setNelts w.mem a (arr.nelts + 1) })

/-- The test of `array_push` for an array at the end of the first block that has
room for one more element. -/
def InPlace (p : PoolT) (arr : ArrayT) : Prop :=
  sizeAdd arr.elts (arr.size * arr.nalloc % 2 ^ 64) = (p.block 0).last ∧
    sizeAdd (p.block 0).last arr.size ≤ (p.block 0).stop

instance (p : PoolT) (arr : ArrayT) : Decidable (InPlace p arr) :=
  inferInstanceAs (Decidable (_ ∧ _))

def arrayPush (w : World M) (a : Nat) : Option (Option Nat × World M) :=
  let arr := readArray w.mem a
  if arr.nelts = arr.nalloc then
    let size := arr.size * arr.nalloc % 2 ^ 64
    if arr.pool = 0 then some (none, w)
    else if arr.pool ≠ (w.pool.block 0).addr then none
    else if InPlace w.pool arr then
      some (nextElt { w.setLast 0 (sizeAdd (w.pool.block 0).last arr.size) with
        mem := setNalloc w.mem a (arr.nalloc + 1) } a)
    else
      match alloc w (2 * size % 2 ^ 64) with
      | none => none
      | some (none, w) => some (none, w)
      | some (some na, w) =>
          some (nextElt { w with
            mem := setNalloc (setElts (memmove w.mem na arr.elts size) a na) a
              (arr.nalloc * 2) } a)
  else some (nextElt w a)

def giveBack (w : World M) (r : Nat × Nat) : World M :=
  if sizeAdd r.1 r.2 = (w.pool.block 0).last then w.setLast 0 r.1 else w

def arrayDestroy (w : World M) (a : Nat) : Option (World M) :=
  let arr := readArray w.mem a
  if arr.pool = 0 then some { w with heap := memoryFree w.heap arr.elts }
  else if arr.pool ≠ (w.pool.block 0).addr then none
  else
    some (giveBack (giveBack w (arr.elts, arr.size * arr.nalloc % 2 ^ 64))
      (a, arraySize))

end MemPool
end NgxEpoll
