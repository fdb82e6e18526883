import NgxEpoll.Core.Math
import NgxEpoll.Foundation.Rings

/-!
# The shared memory allocator

`dfs_shmem.cpp`.  Addresses are offsets from the start of the mapping.  A
storage is named by the address of its header, and the three queues by their
links: all storages in order, the free storages of each class, and the classes
that have any.

A function that would follow a null pointer or not leave a loop returns `none`.

## Data
-/

namespace NgxEpoll
namespace Shmem

open Foundation NgxEpoll.Core

inductive QNode where
  | head (i : Nat)
  | entry (a : Nat)
deriving DecidableEq

/-- `struct storage` without its two queue entries; `free_list_head` is the class
whose list it points to. -/
structure Storage where
  alloc : Bool
  size : Nat
  actSize : Nat
  freeListHead : Option Nat
deriving DecidableEq

inductive LevelType where
  | linear
  | exp
deriving DecidableEq

structure ShmemStat where
  usedSize : Nat
  reqsSize : Nat
  stCount : Nat
  totalSize : Nat
  systemSize : Nat
  failed : Nat
  splitFailed : Nat
  split : Nat

/-- `dfs_shmem_t` with the memory it manages.  `order` and `available` have the
head `QNode.head 0`; an entry of `available` is a class, an entry of `free` a
storage. -/
structure ShmemT where
  st : Nat -> Storage
  order : Links QNode
  free : Links QNode
  available : Links QNode
  freeLen : Nat
  maxAvailableIndex : Nat
  minSize : Nat
  maxSize : Nat
  factor : Nat
  splitThreshold : Nat
  levelType : LevelType
  stat : ShmemStat

inductive Errno where
  | none
  | createSize
  | createMinsize
  | createLeveltype
  | createFreelen
  | createTotalsize
  | createTotalsizeNotEnough
  | createMmap
  | createStoragesize
  | allocParam
  | allocExhausted
  | allocMaxAvailableEmpty
  | allocNoAvailableFreeList
  | allocNoFixedFreeSpace
  | allocFoundNoFixed
  | allocRemoveFree
  | getMaxExhausted
  | getMaxCritical
  | splitAllocParam
  | splitAllocNoFixedReqMinsize
  | splitAllocRemoveFree
  | freeParam
  | freeNonalloced
  | freeRemoveNext
  | freeRemovePrev
deriving DecidableEq

def storageSize : Nat := 64

def freeNodeSize : Nat := 40

def shmemSize : Nat := 168

def freeIndex (i : Nat) : Nat :=
  i % 2 ^ 32

/-!
## Size classes
-/

def getAllocIndex (shm : ShmemT) (size : Nat) : Nat :=
  if size ≤ shm.minSize then 0
  else
    match shm.levelType with
    | LevelType.linear =>
        (size - shm.minSize) / shm.factor +
          if (size - shm.minSize) % shm.factor = 0 then 0 else 1
    | LevelType.exp =>
        dfsMathDfslog2
          (size / shm.minSize + if size % shm.minSize = 0 then 0 else 1) true

def getInsertIndex (shm : ShmemT) (size : Nat) : Nat :=
  if size ≤ shm.minSize then 0
  else
    match shm.levelType with
    | LevelType.linear => (size - shm.minSize) / shm.factor
    | LevelType.exp => dfsMathDfslog2 (size / shm.minSize) false

/-!
## The free lists
-/

def removeFree (shm : ShmemT) (a : Nat) : Bool × ShmemT :=
  let index :=
    if shm.maxAvailableIndex < getInsertIndex shm (shm.st a).size then
      shm.maxAvailableIndex
    else getInsertIndex shm (shm.st a).size
  if (shm.st a).freeListHead ≠ some index then (false, shm)
  else
    let free := shm.free.queueRemove (QNode.entry a)
    let st := Function.update shm.st a { shm.st a with freeListHead := none }
    if free.queueEmpty (QNode.head index) then
      let max :=
        if index = shm.maxAvailableIndex then
          match shm.available.prev (QNode.entry index) with
          | some (QNode.entry j) => freeIndex j
          | _ => shm.freeLen
        else shm.maxAvailableIndex
      (true, { shm with
        free := free
        st := st
        maxAvailableIndex := max
        available := shm.available.queueRemove (QNode.entry index) })
    else (true, { shm with free := free, st := st })

/-- The loop of `dfs_shmem_insert_free`: the class to insert before, if there is
one, looking from `q` on. -/
def insertPlace (available : Links QNode) (index : Nat) :
    Nat -> Option QNode -> Option (Option Nat)
  | _, some (QNode.head _) => some none
  | fuel + 1, some (QNode.entry i) =>
      if index < freeIndex i then some (some i)
      else insertPlace available index fuel (available.next (QNode.entry i))
  | _, _ => none

def insertFree (shm : ShmemT) (a : Nat) : Option ShmemT :=
  if (shm.st a).alloc then some shm
  else
    let index :=
      if shm.freeLen - 1 < getInsertIndex shm (shm.st a).size then shm.freeLen - 1
      else getInsertIndex shm (shm.st a).size
    let st := Function.update shm.st a { shm.st a with freeListHead := some index }
    let free := shm.free.queueInsertHead (QNode.head index) (QNode.entry a)
    if shm.free.queueEmpty (QNode.head index) then
      match insertPlace shm.available index (shm.freeLen + 1)
          (shm.available.next (QNode.head 0)) with
      | none => none
      | some (some i) =>
          some { shm with
            st := st
            available :=
              shm.available.queueInsertBefore (QNode.entry i) (QNode.entry index)
            free := free }
      | some none =>
          some { shm with
            st := st
            available :=
              shm.available.queueInsertTail (QNode.head 0) (QNode.entry index)
            maxAvailableIndex := freeIndex index
            free := free }
    else some { shm with st := st, free := free }

/-!
## Allocation
-/

/-- The loop of `dfs_shmem_alloc` over the available classes: the first one with
free storages and an index above `index`. -/
def findClass (shm : ShmemT) (index : Nat) : Nat -> Option QNode -> Option (Option Nat)
  | _, some (QNode.head _) => some none
  | fuel + 1, some (QNode.entry i) =>
      if !shm.free.queueEmpty (QNode.head i) ∧ index < freeIndex i then some (some i)
      else findClass shm index fuel (shm.available.next (QNode.entry i))
  | _, _ => none

/-- The loop at `DO_COMPARE`: the first storage of class `i` that is large
enough. -/
def findFit (shm : ShmemT) (i size : Nat) : Nat -> Option QNode -> Option (Option Nat)
  | fuel + 1, some (QNode.entry a) =>
      if size ≤ (shm.st a).size then some (some a)
      else if shm.free.next (QNode.entry a) = some (QNode.head i) then some none
      else findFit shm i size fuel (shm.free.next (QNode.entry a))
  | _, _ => none

def allocFailed (shm : ShmemT) (e : Errno) : Option Nat × Errno × ShmemT :=
  (none, e, { shm with stat := { shm.stat with failed := shm.stat.failed + 1 } })

/-- What `dfs_shmem_alloc` does with a storage it has taken out: use it whole, or
split it. -/
def allocStorage (shm : ShmemT) (a size : Nat) :
    Option (Option Nat × Errno × ShmemT) :=
  let s := shm.st a
  if s.size - size < (storageSize + shm.splitThreshold) % 2 ^ 64 then
    some (some (a + storageSize), Errno.none,
      { shm with
        st := Function.update shm.st a { s with alloc := true, actSize := size }
        stat := { shm.stat with
          usedSize := shm.stat.usedSize + s.size
          reqsSize := shm.stat.reqsSize + size } })
  else
    let b := a + storageSize + size
    -- *st_new = *st, with the entries of both queues
    let order : Links QNode :=
      { next := Function.update shm.order.next (QNode.entry b)
          (shm.order.next (QNode.entry a))
        prev := Function.update shm.order.prev (QNode.entry b)
          (shm.order.prev (QNode.entry a)) }
    let free : Links QNode :=
      { next := Function.update shm.free.next (QNode.entry b)
          (shm.free.next (QNode.entry a))
        prev := Function.update shm.free.prev (QNode.entry b)
          (shm.free.prev (QNode.entry a)) }
    let st := Function.update
      (Function.update shm.st b { s with size := s.size - (size + storageSize) })
      a { s with alloc := true, size := size }
    let order :=
      ((order.queueInsertBefore (QNode.entry b) (QNode.entry a)).queueRemove
        (QNode.entry b)).queueInsertAfter (QNode.entry a) (QNode.entry b)
    match insertFree { shm with st := st, order := order, free := free } b with
    | none => none
    | some shm =>
        some (some (a + storageSize), Errno.none,
          { shm with
            st := Function.update shm.st a { shm.st a with actSize := size }
            stat := { shm.stat with
              usedSize := shm.stat.usedSize + (shm.st a).size
              reqsSize := shm.stat.reqsSize + size
              stCount := shm.stat.stCount + 1 } })

def allocFrom (shm : ShmemT) (i size : Nat) :
    Option (Option Nat × Errno × ShmemT) :=
  match findFit shm i size shm.stat.stCount (shm.free.next (QNode.head i)) with
  | none => none
  | some none => some (allocFailed shm Errno.allocFoundNoFixed)
  | some (some a) =>
      let r := removeFree shm a
      if r.1 then allocStorage r.2 a size
      else some (allocFailed shm Errno.allocRemoveFree)

def alloc (shm : ShmemT) (size : Nat) : Option (Option Nat × Errno × ShmemT) :=
  if size = 0 then some (none, Errno.allocParam, shm)
  else if shm.maxAvailableIndex = shm.freeLen then
    some (allocFailed shm Errno.allocExhausted)
  else
    let index := getAllocIndex shm size
    if index < shm.maxAvailableIndex then
      if !shm.free.queueEmpty (QNode.head index) then allocFrom shm index size
      else
        match findClass shm index (shm.freeLen + 1)
            (shm.available.next (QNode.head 0)) with
        | none => none
        | some (some i) => allocFrom shm i size
        | some none =>
            some (allocFailed shm
              (if shm.available.queueEmpty (QNode.head 0) then
                Errno.allocNoAvailableFreeList
              else Errno.allocNoFixedFreeSpace))
    else if shm.free.queueEmpty (QNode.head shm.maxAvailableIndex) then
      some (allocFailed shm Errno.allocMaxAvailableEmpty)
    else allocFrom shm shm.maxAvailableIndex size

def findMax (shm : ShmemT) (i : Nat) : Nat -> Nat -> Option QNode -> Option Nat
  | _, max, some (QNode.head _) => some max
  | fuel + 1, max, some (QNode.entry a) =>
      findMax shm i fuel
        (if (shm.st max).size < (shm.st a).size then a else max)
        (shm.free.next (QNode.entry a))
  | _, _, _ => none

def getMaxSt (shm : ShmemT) : Option (Except Errno Nat) :=
  if shm.maxAvailableIndex = shm.freeLen ∨
      shm.available.queueEmpty (QNode.head 0) = true then
    some (Except.error Errno.getMaxExhausted)
  else
    match shm.available.prev (QNode.head 0) with
    | some (QNode.entry i) =>
        if shm.free.queueEmpty (QNode.head i) then
          some (Except.error Errno.getMaxCritical)
        else
          match shm.free.next (QNode.head i) with
          | some (QNode.entry a) =>
              (findMax shm i shm.stat.stCount a
                (shm.free.next (QNode.entry a))).map Except.ok
          | _ => none
    | _ => none

def splitFailed (shm : ShmemT) (e : Errno) : Option (Nat × Nat) × Errno × ShmemT :=
  (none, e,
    { shm with stat := { shm.stat with splitFailed := shm.stat.splitFailed + 1 } })

/-- `dfs_shmem_split_alloc` from the search for the largest storage on: the address
with `*act_size`. -/
def splitMax (shm : ShmemT) (reqMinsize : Nat) :
    Option (Option (Nat × Nat) × Errno × ShmemT) :=
  match getMaxSt shm with
  | none => none
  | some (Except.error e) => some (splitFailed shm e)
  | some (Except.ok a) =>
      if (shm.st a).size < reqMinsize then
        some (splitFailed shm Errno.splitAllocNoFixedReqMinsize)
      else
        let r := removeFree shm a
        if r.1 then
          let shm := r.2
          let s := shm.st a
          some (some (a + storageSize, s.size), Errno.none,
            { shm with
              st := Function.update shm.st a { s with alloc := true, actSize := s.size }
              stat := { shm.stat with
                usedSize := shm.stat.usedSize + s.size
                reqsSize := shm.stat.reqsSize + s.size } })
        else some (splitFailed shm Errno.splitAllocRemoveFree)

def splitAlloc (shm : ShmemT) (actSize : Bool) (reqMinsize : Nat) :
    Option (Option (Nat × Nat) × Errno × ShmemT) :=
  if !actSize then some (none, Errno.splitAllocParam, shm)
  else
    splitMax { shm with stat := { shm.stat with split := shm.stat.split + 1 } }
      reqMinsize

/-!
## Release
-/

def freePrev (shm : ShmemT) (a : Nat) : Option (Errno × ShmemT) :=
  let finish := fun (shm : ShmemT) (a : Nat) =>
    (insertFree shm a).map fun shm => (Errno.none, shm)
  match shm.order.prev (QNode.entry a) with
  | some (QNode.head _) => finish shm a
  | some (QNode.entry p) =>
      if (shm.st p).alloc = false ∧ a = p + (shm.st p).size + storageSize then
        let r := removeFree shm p
        if r.1 then
          let shm := r.2
          finish
            { shm with
              st := Function.update shm.st p
                { shm.st p with
                  size := (shm.st p).size + ((shm.st a).size + storageSize) }
              order := shm.order.queueRemove (QNode.entry a)
              stat := { shm.stat with stCount := shm.stat.stCount - 1 } }
            p
        else some (Errno.freeRemovePrev, shm)
      else finish shm a
  | none => none

def freeNext (shm : ShmemT) (a : Nat) : Option (Errno × ShmemT) :=
  match shm.order.next (QNode.entry a) with
  | some (QNode.head _) => freePrev shm a
  | some (QNode.entry n) =>
      if (shm.st n).alloc = false ∧ n = a + storageSize + (shm.st a).size then
        let r := removeFree shm n
        if r.1 then
          let shm := r.2
          freePrev
            { shm with
              st := Function.update shm.st a
                { shm.st a with
                  size := (shm.st a).size + ((shm.st n).size + storageSize) }
              order := shm.order.queueRemove (QNode.entry n)
              stat := { shm.stat with stCount := shm.stat.stCount - 1 } }
            a
        else some (Errno.freeRemoveNext, shm)
      else freePrev shm a
  | none => none

def free (shm : ShmemT) (addr : Nat) : Option (Errno × ShmemT) :=
  if addr = 0 then some (Errno.freeParam, shm)
  else
    let a := addr - storageSize
    let s := shm.st a
    if s.alloc = false then some (Errno.freeNonalloced, shm)
    else
      freeNext
        { shm with
          st := Function.update shm.st a { s with alloc := false }
          stat := { shm.stat with
            usedSize := shm.stat.usedSize - s.size
            reqsSize := shm.stat.reqsSize - s.actSize } }
        a

def setSplitThreshold (shm : ShmemT) (size : Nat) : ShmemT :=
  { shm with splitThreshold := size }

/-!
## Creation
-/

def classes (levelType : LevelType) (minSize maxSize factor : Nat) : Option Nat :=
  match levelType with
  | LevelType.linear =>
      if factor = 0 then none
      else some ((maxSize - minSize) / factor +
        if (maxSize - minSize) % factor = 0 then 0 else 1)
  | LevelType.exp =>
      some (dfsMathDfslog2
        (maxSize / minSize + if maxSize % minSize = 0 then 0 else 1) true)

def expFactor : Nat := 2

def blank (levelType : LevelType) (minSize maxSize factor freeLen totalSize
    systemSize : Nat) : ShmemT :=
  let empty : Links QNode := ⟨fun _ => none, fun _ => none⟩
  let heads : QNode -> Option QNode := fun q =>
    match q with
    | QNode.head i => some (QNode.head i)
    | QNode.entry _ => none
  { st := fun _ => ⟨false, 0, 0, none⟩
    order := empty.queueInit (QNode.head 0)
    free := ⟨heads, heads⟩
    available := empty.queueInit (QNode.head 0)
    freeLen := freeLen
    maxAvailableIndex := 0
    minSize := minSize
    maxSize := maxSize
    factor := factor
    splitThreshold := minSize
    levelType := levelType
    stat := ⟨0, 0, 1, totalSize, systemSize, 0, 0, 0⟩ }

def insertFirst (shm : ShmemT) (a size : Nat) : ShmemT :=
  let i := getInsertIndex shm size
  let i := if shm.freeLen ≤ i then shm.freeLen - 1 else i
  { shm with
    st := Function.update shm.st a ⟨false, size, 0, some i⟩
    order := shm.order.queueInsertHead (QNode.head 0) (QNode.entry a)
    free := shm.free.queueInsertHead (QNode.head i) (QNode.entry a)
    available := shm.available.queueInsertHead (QNode.head 0) (QNode.entry i)
    maxAvailableIndex := i }

/-- What `dfs_shmem_create` comes to; `crashed` is the division by zero, or a class
written outside of the mapping. -/
inductive CreateResult where
  | failed (e : Errno)
  | crashed
  | created (shm : ShmemT)

/-- `dfs_shmem_create` from a known `level_type` on; `mmap` tells whether that
call succeeds. -/
def createLevels (size minSize maxSize factor : Nat) (levelType : LevelType)
    (mmap : Bool) : CreateResult :=
  match classes levelType minSize maxSize factor with
  | none => CreateResult.crashed
  | some n =>
      if n = 0 then CreateResult.failed Errno.createFreelen
      else
        let freeLen := n + 1
        let totalSize := roundUp size
        if totalSize = 0 then CreateResult.failed Errno.createTotalsize
        else if !mmap then CreateResult.failed Errno.createMmap
        else if totalSize ≤
            (freeNodeSize * freeLen + shmemSize + storageSize) % 2 ^ 64 then
          CreateResult.failed Errno.createTotalsizeNotEnough
        else if totalSize < shmemSize + freeNodeSize * freeLen then
          CreateResult.crashed
        else
          let systemSize := alignment (shmemSize + freeNodeSize * freeLen)
          if totalSize - systemSize - storageSize < maxSize then
            CreateResult.failed Errno.createStoragesize
          else
            CreateResult.created (insertFirst
              (blank levelType minSize maxSize factor freeLen totalSize systemSize)
              systemSize (totalSize - systemSize - storageSize))

def create (size minSize maxSize : Nat) (levelType : Int) (factor : Nat)
    (mmap : Bool) : CreateResult :=
  if size = 0 then CreateResult.failed Errno.createSize
  else
    let minSize := alignment minSize
    let maxSize := alignment maxSize
    if minSize = 0 ∨ maxSize ≤ minSize then CreateResult.failed Errno.createMinsize
    else if levelType = 0 then
      createLevels size minSize maxSize (alignment factor) LevelType.linear mmap
    else if levelType = 1 then
      createLevels size minSize maxSize expFactor LevelType.exp mmap
    else CreateResult.failed Errno.createLeveltype

end Shmem
end NgxEpoll
