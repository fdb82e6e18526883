import NgxEpoll.Foundation.Chains
import NgxEpoll.Foundation.Regions
import NgxEpoll.Slabs.Functions

/-!
# The accounts of the slab manager

What is asked of the allocator, and the invariant of the manager: the chunks it has
are handed out or on the list of their class, and the statistics count them.

## The allocator
-/

namespace NgxEpoll
namespace Slabs

open Foundation NgxEpoll.Core

/-- The blocks of an allocator that are allocated, and what its functions do to
them. -/
structure Contract (A : MemAllocator) where
  valid : A.State -> Prop
  blocks : A.State -> List (Nat × Nat)
  apart : forall s, valid s -> (blocks s).Pairwise RegionsApart
  inside : forall s, valid s -> forall b, b ∈ blocks s -> 1 ≤ b.1 ∧ b.1 + b.2 ≤ 2 ^ 64
  alloc_none : forall s n s', valid s -> A.alloc s n = (none, s') ->
    valid s' ∧ (blocks s').Perm (blocks s)
  alloc_some : forall s n p s', valid s -> A.alloc s n = (some p, s') ->
    valid s' ∧ (blocks s').Perm ((p, n) :: blocks s)
  calloc : forall s n p s', valid s -> A.calloc s n = (some p, s') ->
    valid s' ∧ (blocks s').Perm ((p, n) :: blocks s)
  split_none : forall f, A.splitAlloc = some f -> forall s n s', valid s ->
    f s n = (none, s') -> valid s' ∧ (blocks s').Perm (blocks s)
  split_some : forall f, A.splitAlloc = some f -> forall s n p act s', valid s ->
    f s n = (some (p, act), s') ->
    n ≤ act ∧ valid s' ∧ (blocks s').Perm ((p, act) :: blocks s)
  free : exists f, A.free = some f ∧ forall s p n, valid s -> (p, n) ∈ blocks s ->
    (f s p).1 = true ∧ valid (f s p).2 ∧
      (blocks (f s p).2).Perm ((blocks s).erase (p, n))

/-!
## All free lists
-/

def listed (n : Nat) (frees : Nat -> List Nat) : List Nat :=
  (List.range n).flatMap frees

theorem mem_listed {n c : Nat} {frees : Nat -> List Nat} :
    c ∈ listed n frees ↔ exists i, i < n ∧ c ∈ frees i := by
  simp [listed]

theorem listed_pop {n i c : Nat} {frees : Nat -> List Nat} {rest : List Nat}
    (hi : i < n) (h : frees i = c :: rest) :
    (listed n frees).Perm (c :: listed n (Function.update frees i rest)) := by
  obtain ⟨pre, post, hrange⟩ := List.append_of_mem (List.mem_range.mpr hi)
  have hnodup := List.nodup_range (n := n)
  rw [hrange] at hnodup
  have hpre : i ∉ pre := fun hmem => (List.nodup_append.mp hnodup).2.2 i hmem i (by simp) rfl
  have hpost : i ∉ post := (List.nodup_cons.mp (List.nodup_append.mp hnodup).2.1).1
  have hkeep : forall l : List Nat, i ∉ l ->
      l.flatMap (Function.update frees i rest) = l.flatMap frees := by
    intro l hl
    refine List.flatMap_congr fun j hj => Function.update_of_ne ?_ _ _
    rintro rfl
    exact hl hj
  unfold listed
  rw [hrange, List.flatMap_append, List.flatMap_cons, List.flatMap_append,
    List.flatMap_cons, hkeep pre hpre, hkeep post hpost, h, Function.update_self,
    List.cons_append]
  exact List.perm_middle

theorem listed_push {n i c : Nat} {frees : Nat -> List Nat} (hi : i < n) :
    (listed n (Function.update frees i (c :: frees i))).Perm (c :: listed n frees) := by
  have hself : Function.update frees i (c :: frees i) i = c :: frees i :=
    Function.update_self _ _ _
  have hpop := listed_pop hi hself
  rwa [Function.update_idem, Function.update_eq_self] at hpop

theorem length_le_listed {n i : Nat} {frees : Nat -> List Nat} (hi : i < n) :
    (frees i).length ≤ (listed n frees).length := by
  have hsub : (frees i).Sublist (listed n frees) := by
    obtain ⟨pre, post, hrange⟩ := List.append_of_mem (List.mem_range.mpr hi)
    unfold listed
    rw [hrange, List.flatMap_append, List.flatMap_cons]
    exact (List.sublist_append_left _ _).trans (List.sublist_append_right _ _)
  exact hsub.length_le

/-!
## The invariant
-/

variable {A : MemAllocator}

def blockOf (w : World A) (c : Nat) : Nat × Nat :=
  (c, (w.mem c).size + chunkLinkSize)

def sumOf (w : World A) (field : ChunkLink -> Nat) (cs : List Nat) : Nat :=
  (cs.map fun c => field (w.mem c)).sum

structure Accounts (C : Contract A) (w : World A) (frees : Nat -> List Nat)
    (out : List Nat) : Prop where
  valid : C.valid w.heap
  chains : forall i, i < w.mgr.freeLen ->
    Chain (fun c => (w.mem c).next) (w.mgr.freeList i) (frees i)
  nodup : (out ++ listed w.mgr.freeLen frees).Nodup
  blocks : forall c, c ∈ out ++ listed w.mgr.freeLen frees ->
    blockOf w c ∈ C.blocks w.heap
  sizes : forall i, i < w.mgr.freeLen -> forall c, c ∈ frees i ->
    (w.mem c).size + chunkLinkSize = w.mgr.classSize i
  held : forall c, c ∈ out -> (w.mem c).reqSize ≤ (w.mem c).size ∧
    ((w.mem c).id = splitId ∨ exists i : Nat, i < w.mgr.freeLen ∧ (w.mem c).id = i ∧
      (w.mem c).size + chunkLinkSize = w.mgr.classSize i)
  usedSize : w.mgr.stat.usedSize = sumOf w ChunkLink.size out
  reqsSize : w.mgr.stat.reqsSize = sumOf w ChunkLink.reqSize out
  freeSize : w.mgr.stat.freeSize =
    sumOf w ChunkLink.size (listed w.mgr.freeLen frees)
  chunkCount : w.mgr.stat.chunkCount =
    out.length + (listed w.mgr.freeLen frees).length

variable {C : Contract A} {w : World A} {frees : Nat -> List Nat} {out : List Nat}

theorem sumOf_append (l r : List Nat) (field : ChunkLink -> Nat) :
    sumOf w field (l ++ r) = sumOf w field l + sumOf w field r := by
  simp [sumOf]

theorem sumOf_cons (c : Nat) (l : List Nat) (field : ChunkLink -> Nat) :
    sumOf w field (c :: l) = field (w.mem c) + sumOf w field l := by
  simp [sumOf]

theorem sumOf_perm {l r : List Nat} (h : l.Perm r) (field : ChunkLink -> Nat) :
    sumOf w field l = sumOf w field r :=
  (h.map _).sum_eq

theorem sumOf_congr {w' : World A} {l : List Nat} {field : ChunkLink -> Nat}
    (h : forall c, c ∈ l -> field (w'.mem c) = field (w.mem c)) :
    sumOf w' field l = sumOf w field l := by
  unfold sumOf
  rw [List.map_congr_left h]

theorem sumOf_le {l : List Nat} {f g : ChunkLink -> Nat}
    (h : forall c, c ∈ l -> f (w.mem c) ≤ g (w.mem c)) :
    sumOf w f l ≤ sumOf w g l := by
  induction l with
  | nil => exact Nat.le_refl 0
  | cons c l ih =>
      have hc := h c (by simp)
      have hl := ih fun d hd => h d (by simp [hd])
      rw [sumOf_cons, sumOf_cons]
      omega

theorem sum_blockOf (l : List Nat) :
    ((l.map (blockOf w)).map Prod.snd).sum =
      sumOf w ChunkLink.size l + l.length * chunkLinkSize := by
  induction l with
  | nil => simp [sumOf]
  | cons c l ih =>
      rw [List.map_cons, List.map_cons, List.sum_cons, ih, sumOf_cons, List.length_cons]
      simp only [blockOf]
      rw [Nat.succ_mul]
      omega

theorem Contract.sum_lt (C : Contract A) {s : A.State} (hs : C.valid s)
    {l : List (Nat × Nat)} (hnodup : l.Nodup) (hsub : l ⊆ C.blocks s) :
    (l.map Prod.snd).sum < 2 ^ 64 := by
  have hle := sum_length_le_of_subset hnodup hsub
  have hall := sum_length_le (C.apart s hs) (C.inside s hs)
  omega

/-- All chunks with their headers, and one more block, fit into the address space. -/
theorem Accounts.sum_lt (h : Accounts C w frees out) {b : Nat × Nat}
    (hb : b ∈ C.blocks w.heap)
    (hnot : b.1 ∉ out ++ listed w.mgr.freeLen frees) :
    sumOf w ChunkLink.size out + sumOf w ChunkLink.size (listed w.mgr.freeLen frees) +
      (out.length + (listed w.mgr.freeLen frees).length) * chunkLinkSize + b.2 <
        2 ^ 64 := by
  have hnodup : (b :: (out ++ listed w.mgr.freeLen frees).map (blockOf w)).Nodup := by
    refine List.nodup_cons.mpr ⟨?_, h.nodup.map fun c d heq => congrArg Prod.fst heq⟩
    intro hmem
    obtain ⟨c, hc, rfl⟩ := List.mem_map.mp hmem
    exact hnot hc
  have hlt := C.sum_lt h.valid hnodup (by
    intro x hx
    rcases List.mem_cons.mp hx with rfl | hx
    · exact hb
    · obtain ⟨c, hc, rfl⟩ := List.mem_map.mp hx
      exact h.blocks c hc)
  rw [List.map_cons, List.sum_cons, sum_blockOf, sumOf_append, List.length_append] at hlt
  omega

theorem Accounts.sum_lt_all (h : Accounts C w frees out) :
    sumOf w ChunkLink.size out + sumOf w ChunkLink.size (listed w.mgr.freeLen frees) +
      (out.length + (listed w.mgr.freeLen frees).length) * chunkLinkSize < 2 ^ 64 := by
  have hnodup : ((out ++ listed w.mgr.freeLen frees).map (blockOf w)).Nodup :=
    h.nodup.map fun c d heq => congrArg Prod.fst heq
  have hlt := C.sum_lt h.valid hnodup (by
    intro x hx
    obtain ⟨c, hc, rfl⟩ := List.mem_map.mp hx
    exact h.blocks c hc)
  rwa [sum_blockOf, sumOf_append, List.length_append] at hlt

theorem Accounts.reqs_le (h : Accounts C w frees out) :
    sumOf w ChunkLink.reqSize out ≤ sumOf w ChunkLink.size out :=
  sumOf_le fun c hc => (h.held c hc).1

end Slabs
end NgxEpoll
