import NgxEpoll.Core.Math
import NgxEpoll.Hashtable.Hashes
import Mathlib.Logic.Function.Basic

/-!
# The hash table

`dfs_hashtable.cpp` with `memcmp` as the comparison.  A link is named by its address,
and 0 is the null pointer; keys are addresses in a flat memory.  A step that reads or
writes past the buckets, that counts past the range of an `int`, that fails an
assertion or that does not leave a loop has no result.

## Data
-/

namespace NgxEpoll
namespace Hashtable

open Foundation NgxEpoll.Core

structure Link where
  key : Nat
  len : Nat
  next : Option Nat

/-- `dfs_hashtable_t`; `slots` is how many pointers the allocation behind `buckets` has
room for. -/
structure HashtableT where
  buckets : Nat -> Option Nat
  slots : Nat
  hash : HashFn
  size : Nat
  count : Int

structure World where
  table : HashtableT
  link : Nat -> Link
  mem : Mem

def World.hash (w : World) (key len : Nat) : Nat :=
  w.table.hash.hash w.mem key len w.table.size

/-!
## Creation
-/

def defaultSize : Nat := 7951

/-- `dfs_hashtable_init`; `calloc` tells whether there is memory for the buckets. -/
def init (hashSz : Nat) (hash : HashFn) (calloc : Bool) : Option HashtableT :=
  match if hashSz = 0 then some defaultSize else dfsMathFindPrime (2 ^ 64) hashSz with
  | none => none
  | some size =>
      if calloc then
        some
          { buckets := fun _ => none
            slots := size * 8 % 2 ^ 64 / 8
            hash := hash
            size := size
            count := 0 }
      else none

/-!
## Links
-/

def World.setNext (w : World) (hl : Nat) (next : Option Nat) : World :=
  { w with link := Function.update w.link hl { w.link hl with next := next } }

def World.setBucket (w : World) (i : Nat) (hl : Option Nat) : World :=
  { w with table := { w.table with buckets := Function.update w.table.buckets i hl } }

def join (w : World) (hl : Nat) : Option (Bool × World) :=
  if hl = 0 then some (false, w)
  else
    let i := w.hash (w.link hl).key (w.link hl).len
    if w.table.slots ≤ i then none
    else
      let w := w.setNext hl (w.table.buckets i)
      let w := w.setBucket i (some hl)
      if w.table.count < 2 ^ 31 - 1 then
        some (true, { w with table := { w.table with count := w.table.count + 1 } })
      else none

def lookupFrom (w : World) (key len : Nat) : Nat -> Option Nat -> Option (Option Nat)
  | _, none => some none
  | 0, some _ => none
  | turns + 1, some walker =>
      let l := w.link walker
      if l.key = 0 then some none
      else if load w.mem key len = load w.mem l.key len then some (some walker)
      else if l.next = some walker then none
      else lookupFrom w key len turns l.next

def lookup (w : World) (key len : Nat) : Option (Option Nat) :=
  if key = 0 then some none
  else
    let i := w.hash key len
    if w.table.slots ≤ i then none
    else lookupFrom w key len w.table.count.toNat (w.table.buckets i)

/-- The loop of `dfs_hashtable_remove_link`; `link` is the link whose `next` is looked
at, or none for the bucket. -/
def removeFrom (w : World) (hl i : Nat) :
    Nat -> Option Nat -> Option Nat -> Option (Bool × World)
  | _, _, none => some (false, w)
  | 0, _, some _ => none
  | turns + 1, link, some c =>
      if c = hl then
        let w' :=
          match link with
          | none => w.setBucket i (w.link hl).next
          | some p => w.setNext p (w.link hl).next
        some (true, { w' with table := { w'.table with count := w'.table.count - 1 } })
      else removeFrom w hl i turns (some c) (w.link c).next

def removeLink (w : World) (hl : Nat) : Option (Bool × World) :=
  if hl = 0 then some (false, w)
  else
    -- an `int` takes the index
    let i : Int := ((w.hash (w.link hl).key (w.link hl).len : Int) + 2 ^ 31) % 2 ^ 32 - 2 ^ 31
    if i < 0 ∨ w.table.slots ≤ i then none
    else removeFrom w hl i.toNat w.table.count.toNat none (w.table.buckets i.toNat)

end Hashtable
end NgxEpoll
