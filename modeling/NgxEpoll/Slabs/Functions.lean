import NgxEpoll.Core.Math
import Mathlib.Logic.Function.Basic

/-!
# The slab manager

`dfs_slabs.cpp` over a memory allocator that is given by its functions.  A chunk is
named by the address of its header.  A step that follows a pointer that is not
there, counts past the range of an `int` or does not leave a loop has no result.

## Data
-/

namespace NgxEpoll
namespace Slabs

open NgxEpoll.Core

/-- `dfs_mem_allocator_t`: the functions the slab manager calls.  `splitAlloc` gives
the address and `*act_size`; `free` tells whether it succeeds. -/
structure MemAllocator where
  State : Type
  alloc : State -> Nat -> Option Nat × State
  calloc : State -> Nat -> Option Nat × State
  splitAlloc : Option (State -> Nat -> Option (Nat × Nat) × State)
  free : Option (State -> Nat -> Bool × State)

structure ChunkLink where
  size : Nat
  reqSize : Nat
  id : Int
  next : Option Nat

inductive Uptype where
  | power
  | linear
deriving DecidableEq

structure SlabStat where
  usedSize : Nat
  reqsSize : Nat
  freeSize : Nat
  chunkCount : Nat
  systemSize : Nat
  failed : Nat
  recover : Nat
  recoverFailed : Nat
  splitFailed : Nat

structure SlabManager where
  uptype : Uptype
  freeLen : Nat
  factor : Nat
  minSize : Nat
  stat : SlabStat
  classSize : Nat -> Nat
  freeList : Nat -> Option Nat

inductive Errno where
  | none
  | createParam
  | createPowerFactor
  | createLinerFactor
  | createUptype
  | allocParam
  | allocInvalidId
  | allocFailed
  | splitAllocParam
  | splitAllocNotSupported
  | splitAllocChunkSizeTooLarge
  | freeParam
  | freeNotSupported
  | freeChunkId
  | allocatorError
deriving DecidableEq

def slabOk : Int := 0

def slabError : Int := -1

def splitId : Int := -5

def chunkLinkSize : Nat := 32

def slabManagerSize : Nat := 128

def slabClassSize : Nat := 16

structure World (A : MemAllocator) where
  mgr : SlabManager
  mem : Nat -> ChunkLink
  heap : A.State

variable {A : MemAllocator}

/-!
## The class of a request
-/

def chunkSizeOf (size : Nat) : Nat :=
  alignment (sizeAdd size chunkLinkSize)

def search (classSize : Nat -> Nat) (allSize : Nat) : Nat -> Nat -> Nat -> Option Nat
  | 0, _, _ => none
  | fuel + 1, low, high =>
      if high < low then none
      else
        let mid := (low + high) / 2
        if allSize ≤ classSize mid then
          if classSize (mid - 1) < allSize then some mid
          else if allSize = classSize (mid - 1) then some (mid - 1)
          else search classSize allSize fuel low (mid - 1)
        else if allSize ≤ classSize (mid + 1) then some (mid + 1)
        else search classSize allSize fuel (mid + 1) high

def clsid (mgr : SlabManager) (size : Nat) (up : Bool) : Option Nat :=
  if size = 0 then none
  else
    let maxId := mgr.freeLen - 1
    let allSize := chunkSizeOf size
    if mgr.classSize maxId < allSize then none
    else if allSize ≤ mgr.classSize 0 then some 0
    else if allSize = mgr.classSize maxId then some maxId
    else
      match mgr.uptype with
      | Uptype.linear =>
          some (sizeSub size mgr.minSize / mgr.factor +
            if up = true ∧ sizeSub size mgr.minSize % mgr.factor ≠ 0 then 1 else 0)
      | Uptype.power =>
          search mgr.classSize allSize mgr.freeLen 1 (maxId - 1)

/-!
## Creation
-/

/-- The item sizes of the classes, as the loop of `dfs_slabs_create` computes
them. -/
def itemSize (uptype : Uptype) (factor itemSizeMin : Nat) : Nat -> Nat
  | 0 => itemSizeMin
  | i + 1 =>
      match uptype with
      | Uptype.power => itemSize uptype factor itemSizeMin i * factor % 2 ^ 64
      | Uptype.linear => sizeAdd (itemSize uptype factor itemSizeMin i) factor

def createClasses (heap : A.State) (uptype : Uptype) (factor itemSizeMin freeLen : Nat) :
    Errno × Option SlabManager × A.State :=
  match A.calloc heap slabManagerSize with
  | (none, heap) => (Errno.allocatorError, none, heap)
  | (some _, heap) =>
      match A.calloc heap (slabClassSize * freeLen % 2 ^ 64) with
      | (none, heap) => (Errno.allocatorError, none, heap)
      | (some _, heap) =>
          (Errno.none,
            some
              { uptype := uptype
                freeLen := freeLen
                factor := factor
                minSize := itemSizeMin
                stat :=
                  ⟨0, 0, 0, 0,
                    sizeAdd slabManagerSize (slabClassSize * freeLen % 2 ^ 64),
                    0, 0, 0, 0⟩
                classSize := fun i =>
                  chunkSizeOf (itemSize uptype factor itemSizeMin i)
                freeList := fun _ => none },
            heap)

def create (heap : A.State) (uptype : Int) (factor itemSizeMin itemSizeMax : Nat) :
    Errno × Option SlabManager × A.State :=
  if itemSizeMin = 0 ∨ itemSizeMax = 0 ∨ itemSizeMax / itemSizeMin < 2 then
    (Errno.createParam, none, heap)
  else if uptype = 1 then
    if factor ≠ 2 then (Errno.createPowerFactor, none, heap)
    else
      createClasses heap Uptype.power factor itemSizeMin
        (dfsMathDfslog2 (itemSizeMax / itemSizeMin +
          if itemSizeMax % itemSizeMin = 0 then 0 else 1) true + 1)
  else if uptype = 2 then
    if factor ≠ 1024 then (Errno.createLinerFactor, none, heap)
    else
      createClasses heap Uptype.linear factor itemSizeMin
        ((itemSizeMax - itemSizeMin) / factor +
          (if (itemSizeMax - itemSizeMin) % factor = 0 then 0 else 1) + 1)
  else (Errno.createUptype, none, heap)

/-!
## Giving chunks back to the allocator
-/

def dropped (free : A.State -> Nat -> Bool × A.State) (w : World A) (i c : Nat) :
    World A :=
  { w with
    heap := (free w.heap c).2
    mgr := { w.mgr with
      freeList := Function.update w.mgr.freeList i (w.mem c).next
      stat := { w.mgr.stat with
        freeSize := sizeSub w.mgr.stat.freeSize
          (sizeSub (w.mgr.classSize i) chunkLinkSize)
        chunkCount := sizeSub w.mgr.stat.chunkCount 1 } } }

def dropChunk (w : World A) (i c : Nat) : Option (World A) :=
  A.free.map fun free => dropped free w i c

/-- The first loop: a chunk of a larger class, with `n` classes left from `i` on. -/
def recoverUp (w : World A) : Nat -> Nat -> Option (Option (World A))
  | 0, i => if 2 ^ 31 ≤ i then none else some none
  | n + 1, i =>
      if 2 ^ 31 ≤ i then none
      else
        match w.mgr.freeList i with
        | some c => (dropChunk w i c).map some
        | none => recoverUp w n (i + 1)

/-- The inner loop of the second one: chunks of class `i`, until `limit` bytes are
back.  The first component tells whether they are. -/
def recoverClass (limit i : Nat) : Nat -> World A -> Nat -> Option (Bool × Nat × World A)
  | fuel, w, size =>
      match w.mgr.freeList i, fuel with
      | none, _ => some (false, size, w)
      | some _, 0 => none
      | some c, fuel + 1 =>
          match dropChunk w i c with
          | none => none
          | some w =>
              let size := sizeAdd size (w.mgr.classSize i)
              if limit ≤ size then some (true, size, w)
              else recoverClass limit i fuel w size

/-- The second loop: chunks of the `i` smaller classes.  The flags tell whether
enough came back and whether there were any. -/
def recoverDown (limit : Nat) :
    Nat -> World A -> Nat -> Bool -> Option (Bool × Bool × World A)
  | 0, w, _, spaceFlag => some (false, spaceFlag, w)
  | i + 1, w, size, spaceFlag =>
      let spaceFlag := spaceFlag || (w.mgr.freeList i).isSome
      match recoverClass limit i w.mgr.stat.chunkCount w size with
      | none => none
      | some (true, _, w) => some (true, spaceFlag, w)
      | some (false, size, w) => recoverDown limit i w size spaceFlag

inductive Recovered where
  | yes
  | no
  | noSpace
deriving DecidableEq

def recover (w : World A) (chunkSize id : Nat) : Option (Recovered × World A) :=
  let w := { w with mgr := { w.mgr with
    stat := { w.mgr.stat with recover := w.mgr.stat.recover + 1 } } }
  match recoverUp w (w.mgr.freeLen - (id + 1)) (id + 1) with
  | none => none
  | some (some w) => some (Recovered.yes, w)
  | some none =>
      match recoverDown (chunkSize * 2 % 2 ^ 64) id w 0 false with
      | none => none
      | some (true, _, w) => some (Recovered.yes, w)
      | some (false, spaceFlag, w) =>
          let w := { w with mgr := { w.mgr with
            stat := { w.mgr.stat with
              recoverFailed := w.mgr.stat.recoverFailed + 1 } } }
          some (if spaceFlag then Recovered.no else Recovered.noSpace, w)

/-!
## Allocation
-/

/-- The loop of `dfs_slabs_alloc` after a failed call of the allocator: the chunk, or
that there is no space. -/
def allocLoop (chunkSize id : Nat) : Nat -> World A -> Option (Option Nat × World A)
  | 0, _ => none
  | fuel + 1, w =>
      match recover w chunkSize id with
      | none => none
      | some (r, w) =>
          if r = Recovered.noSpace then some (none, w)
          else
            match A.alloc w.heap chunkSize with
            | (some c, heap) => some (some c, { w with heap := heap })
            | (none, heap) => allocLoop chunkSize id fuel { w with heap := heap }

def freshChunk (w : World A) (id : Nat) : Option (Option Nat × Errno × World A) :=
  let chunkSize := w.mgr.classSize id
  match A.alloc w.heap chunkSize with
  | (some c, heap) => some (some c, Errno.none, { w with heap := heap })
  | (none, heap) =>
      (allocLoop chunkSize id (w.mgr.stat.chunkCount + 1) { w with heap := heap }).map
        fun r => (r.1, Errno.allocatorError, r.2)

def takeFree (w : World A) (id c : Nat) : World A :=
  { w with mgr := { w.mgr with
    freeList := Function.update w.mgr.freeList id (w.mem c).next
    stat := { w.mgr.stat with
      freeSize := sizeSub w.mgr.stat.freeSize (w.mem c).size } } }

def takeFresh (w : World A) (id c : Nat) : World A :=
  { w with
    mem := Function.update w.mem c
      { w.mem c with size := sizeSub (w.mgr.classSize id) chunkLinkSize }
    mgr := { w.mgr with stat := { w.mgr.stat with
      chunkCount := sizeAdd w.mgr.stat.chunkCount 1 } } }

/-- The end of `dfs_slabs_alloc`: the chunk is filled in, counted and handed out,
with the value of `*slab_size`. -/
def handOut (w : World A) (c id : Nat) (act : Bool) (reqSize : Nat) :
    Nat × Nat × World A :=
  let slabSize := if act then (w.mem c).size else reqSize
  (c + chunkLinkSize, slabSize,
    { w with
      mem := Function.update w.mem c { w.mem c with id := id, reqSize := slabSize }
      mgr := { w.mgr with stat := { w.mgr.stat with
        reqsSize := sizeAdd w.mgr.stat.reqsSize slabSize
        usedSize := sizeAdd w.mgr.stat.usedSize (w.mem c).size } } })

/-- `dfs_slabs_alloc`: the address, `*slab_size` and the code.  `slabSize` tells
whether that pointer is given; `allocType` is 1 for `DFS_SLAB_ALLOC_TYPE_ACT`. -/
def alloc (w : World A) (allocType : Int) (reqSize : Nat) (slabSize : Bool) :
    Option (Option Nat × Option Nat × Errno × World A) :=
  if reqSize = 0 ∨ slabSize = false then
    some (none, none, Errno.allocParam, w)
  else
    match clsid w.mgr reqSize true with
    | none => some (none, none, Errno.allocInvalidId, w)
    | some id =>
        match w.mgr.freeList id with
        | some c =>
            let r := handOut (takeFree w id c) c id (allocType == 1) reqSize
            some (some r.1, some r.2.1, Errno.none, r.2.2)
        | none =>
            match freshChunk w id with
            | none => none
            | some (some c, e, w) =>
                let r := handOut (takeFresh w id c) c id (allocType == 1) reqSize
                some (some r.1, some r.2.1, e, r.2.2)
            | some (none, _, w) =>
                some (none, some 0, Errno.allocFailed,
                  { w with mgr := { w.mgr with
                    stat := { w.mgr.stat with failed := w.mgr.stat.failed + 1 } } })

def takeSplit (w : World A) (c size req : Nat) : World A :=
  { w with
    mem := Function.update w.mem c
      { w.mem c with id := splitId, size := size, reqSize := req }
    mgr := { w.mgr with stat := { w.mgr.stat with
      chunkCount := sizeAdd w.mgr.stat.chunkCount 1
      reqsSize := sizeAdd w.mgr.stat.reqsSize req
      usedSize := sizeAdd w.mgr.stat.usedSize size } } }

def splitAlloc (w : World A) (reqSize : Nat) (slabSize : Bool) (reqMinsize : Nat) :
    Option Nat × Option Nat × Errno × World A :=
  if reqSize = 0 ∨ slabSize = false then (none, none, Errno.splitAllocParam, w)
  else
    match A.splitAlloc with
    | none => (none, none, Errno.splitAllocNotSupported, w)
    | some split =>
        if w.mgr.classSize (w.mgr.freeLen - 1) < chunkSizeOf reqSize then
          (none, none, Errno.splitAllocChunkSizeTooLarge, w)
        else
          match split w.heap (chunkSizeOf reqMinsize) with
          | (none, heap) =>
              (none, some 0, Errno.allocatorError,
                { w with
                  heap := heap
                  mgr := { w.mgr with stat := { w.mgr.stat with
                    splitFailed := w.mgr.stat.splitFailed + 1 } } })
          | (some (c, act), heap) =>
              let size := sizeSub act chunkLinkSize
              let req := if size ≤ reqSize then size else reqSize
              (some (c + chunkLinkSize), some size, Errno.none,
                takeSplit { w with heap := heap } c size req)

/-!
## Release
-/

def freeSplit (free : A.State -> Nat -> Bool × A.State) (w : World A) (c : Nat) :
    Int × Errno × World A :=
  let r := free w.heap c
  (slabOk, if r.1 then Errno.none else Errno.allocatorError,
    { w with
      heap := r.2
      mgr := { w.mgr with stat := { w.mgr.stat with
        chunkCount := sizeSub w.mgr.stat.chunkCount 1
        usedSize := sizeSub w.mgr.stat.usedSize (w.mem c).size
        reqsSize := sizeSub w.mgr.stat.reqsSize (w.mem c).reqSize } } })

def linkFree (w : World A) (i c : Nat) : World A :=
  { w with
    mem := Function.update w.mem c { w.mem c with next := w.mgr.freeList i }
    mgr := { w.mgr with freeList := Function.update w.mgr.freeList i (some c) } }

def countFree (w : World A) (c : Nat) : World A :=
  { w with
    mgr := { w.mgr with stat := { w.mgr.stat with
      freeSize := sizeAdd w.mgr.stat.freeSize (w.mem c).size
      usedSize := sizeSub w.mgr.stat.usedSize (w.mem c).size
      reqsSize := sizeSub w.mgr.stat.reqsSize (w.mem c).reqSize } } }

def freeClass (w : World A) (i c : Nat) : Int × Errno × World A :=
  let w := linkFree w i c
  if w.mgr.stat.usedSize < w.mgr.classSize i then (slabError, Errno.freeChunkId, w)
  else (slabOk, Errno.none, countFree w c)

/-- `dfs_slabs_free`; a null pointer is 0. -/
def free (w : World A) (ptr : Nat) : Int × Errno × World A :=
  if ptr = 0 then (slabError, Errno.freeParam, w)
  else
    match A.free with
    | none => (slabOk, Errno.freeNotSupported, w)
    | some free =>
        let c := ptr - chunkLinkSize
        if (w.mem c).id = splitId then freeSplit free w c
        else freeClass w (w.mem c).id.toNat c

end Slabs
end NgxEpoll
