import NgxEpoll.Foundation.Rings
import NgxEpoll.MemPool.Sound

/-!
# The half-life memory pool

`dfs_half_life_mempool.cpp` over `malloc` and `free`.  The free elements are a
`queue_t` ring; an element is named by the address of its `hl_mem_node_t`, and the
head of the ring lies in the pool itself.  A step that follows a null pointer, that
counts past the range of an `int` or that releases the head has no result.

## Data
-/

namespace NgxEpoll
namespace HlPool

open Foundation
open MemPool (Malloc Contract)

inductive Node where
  | head
  | elem (a : Nat)
deriving DecidableEq

structure HlMempool where
  maxSize : Int
  minSize : Int
  elementSize : Int
  freeSize : Int
  freeQ : Links Node

structure World (M : Malloc) where
  pool : HlMempool
  heap : M.State

variable {M : Malloc}

def hlMempoolSize : Nat := 32

def queueSize : Int := 16

def allocSize (elementSize : Int) : Nat :=
  let n := elementSize + queueSize
  ((if n < 2 ^ 31 then n else n - 2 ^ 32) % 2 ^ 64).toNat

/-!
## Single nodes
-/

def insert (w : World M) (first : Bool) (x : Node) : Option (World M) :=
  let q := w.pool.freeQ
  -- the neighbour that is written through
  match if first then q.next Node.head else q.prev Node.head with
  | none => none
  | some _ =>
      if w.pool.freeSize < 2 ^ 31 - 1 then
        some { w with pool := { w.pool with
          freeQ := if first then q.queueInsertHead Node.head x
            else q.queueInsertTail Node.head x
          freeSize := w.pool.freeSize + 1 } }
      else none

def remove (w : World M) (x : Node) : Option (World M) :=
  match w.pool.freeQ.next x, w.pool.freeQ.prev x with
  | some _, some _ =>
      if -2 ^ 31 < w.pool.freeSize then
        some { w with pool := { w.pool with
          freeQ := w.pool.freeQ.queueRemove x
          freeSize := w.pool.freeSize - 1 } }
      else none
  | _, _ => none

def freeNode (w : World M) : Node -> Option (World M)
  | Node.head => none
  | Node.elem a => some { w with heap := M.free w.heap a }

def dropFirst (w : World M) : Option (World M) :=
  match w.pool.freeQ.next Node.head with
  | none => none
  | some x =>
      match remove w x with
      | none => none
      | some w => freeNode w x

/-!
## Loops
-/

/-- The loop that fills the queue up to `max_size`, and whether `malloc` gave all the
nodes. -/
def fill (first : Bool) : Nat -> World M -> Option (Bool × World M)
  | turns, w =>
      if w.pool.freeSize < w.pool.maxSize then
        match turns with
        | 0 => none
        | turns + 1 =>
            match M.malloc w.heap (allocSize w.pool.elementSize) with
            | (none, heap) => some (false, { w with heap := heap })
            | (some a, heap) =>
                match insert { w with heap := heap } first (Node.elem a) with
                | none => none
                | some w => fill first turns w
      else some (true, w)

def missing (p : HlMempool) : Nat :=
  (p.maxSize - p.freeSize).toNat

def doExpand (w : World M) : Option (Bool × World M) :=
  if w.pool.minSize < w.pool.freeSize then some (true, w)
  else fill false (missing w.pool) w

def shrink : Nat -> World M -> Option (World M)
  | turns, w =>
      if w.pool.maxSize < w.pool.freeSize then
        match turns with
        | 0 => none
        | turns + 1 =>
            match dropFirst w with
            | none => none
            | some w => shrink turns w
      else some w

def doShrink (w : World M) : Option (World M) :=
  shrink (w.pool.freeSize - w.pool.maxSize).toNat w

def clean : Nat -> World M -> Option (World M)
  | turns, w =>
      if w.pool.freeQ.queueEmpty Node.head then some w
      else
        match turns with
        | 0 => none
        | turns + 1 =>
            match dropFirst w with
            | none => none
            | some w => clean turns w

def doClean (w : World M) : Option (World M) :=
  clean w.pool.freeSize.toNat w

/-!
## Calls
-/

def empty (maxReservSize minReservSize elementSize : Int) : HlMempool :=
  { maxSize := maxReservSize
    minSize := minReservSize
    elementSize := elementSize
    freeSize := 0
    freeQ := Links.queueInit ⟨fun _ => none, fun _ => none⟩ Node.head }

def create (heap : M.State) (maxReservSize minReservSize elementSize : Int) :
    Option (Option HlMempool × M.State) :=
  if maxReservSize ≤ 0 ∨ maxReservSize < minReservSize ∨ elementSize < 0 then
    some (none, heap)
  else
    match M.malloc heap hlMempoolSize with
    | (none, heap) => some (none, heap)
    | (some t, heap) =>
        let pool := empty maxReservSize minReservSize elementSize
        match fill true (missing pool) ⟨pool, heap⟩ with
        | none => none
        | some (true, w) => some (some w.pool, w.heap)
        | some (false, w) => (doClean w).map fun w => (none, M.free w.heap t)

def get (w : World M) : Option (Option Node × World M) :=
  match doExpand w with
  | none => none
  | some (expanded, w) =>
      if expanded = false ∧ w.pool.freeSize ≤ 0 then some (none, w)
      else
        match w.pool.freeQ.next Node.head with
        | none => some (none, w)
        | some x => (remove w x).map fun w => (some x, w)

def free (w : World M) (x : Node) : Option (World M) :=
  match insert w false x with
  | none => none
  | some w => doShrink w

end HlPool
end NgxEpoll
