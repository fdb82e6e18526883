import NgxEpoll.Slabs.Runs

/-!
# The chunks a manager owns

Whatever the statistics of sizes say and whatever the allocator refuses, a manager has
the chunks it handed out and those on the lists of the classes, each of the size its
header says.

## The allocator
-/

namespace NgxEpoll
namespace Slabs

open Foundation NgxEpoll.Core

/-- An allocator that hands out new blocks and takes none back by itself.  Every call may
fail, and there may be no `free`. -/
structure Honest (A : MemAllocator) where
  valid : A.State -> Prop
  blocks : A.State -> List (Nat × Nat)
  apart : forall s, valid s -> (blocks s).Pairwise RegionsApart
  inside : forall s, valid s -> forall b, b ∈ blocks s -> 1 ≤ b.1 ∧ b.1 + b.2 ≤ 2 ^ 64
  alloc_none : forall s n s', valid s -> A.alloc s n = (none, s') ->
    valid s' ∧ forall b, b ∈ blocks s -> b ∈ blocks s'
  alloc_some : forall s n p s', valid s -> A.alloc s n = (some p, s') ->
    valid s' ∧ (p, n) ∈ blocks s' ∧
      forall b, b ∈ blocks s -> b ∈ blocks s' ∧ RegionsApart (p, n) b
  calloc_some : forall s n p s', valid s -> A.calloc s n = (some p, s') -> valid s'
  split_none : forall f, A.splitAlloc = some f -> forall s n s', valid s ->
    f s n = (none, s') -> valid s' ∧ forall b, b ∈ blocks s -> b ∈ blocks s'
  split_some : forall f, A.splitAlloc = some f -> forall s n p act s', valid s ->
    f s n = (some (p, act), s') -> n ≤ act ∧ valid s' ∧ (p, act) ∈ blocks s' ∧
      forall b, b ∈ blocks s -> b ∈ blocks s' ∧ RegionsApart (p, act) b
  free : forall f, A.free = some f -> forall s p n, valid s -> (p, n) ∈ blocks s ->
    valid (f s p).2 ∧ forall b, b ∈ blocks s -> b.1 ≠ p -> b ∈ blocks (f s p).2

/-!
## The invariant
-/

variable {A : MemAllocator}

structure Owned (H : Honest A) (w : World A) (frees : Nat -> List Nat)
    (out : List Nat) : Prop where
  valid : H.valid w.heap
  chains : FreeLists w frees
  nodup : (out ++ listed w.mgr.freeLen frees).Nodup
  blocks : forall c, c ∈ out ++ listed w.mgr.freeLen frees ->
    blockOf w c ∈ H.blocks w.heap
  sizes : forall i, i < w.mgr.freeLen -> forall c, c ∈ frees i ->
    (w.mem c).size + chunkLinkSize = w.mgr.classSize i
  held : forall c, c ∈ out -> (w.mem c).id = splitId ∨
    exists i : Nat, i < w.mgr.freeLen ∧ (w.mem c).id = i ∧
      (w.mem c).size + chunkLinkSize = w.mgr.classSize i
  chunkCount : w.mgr.stat.chunkCount = out.length + (listed w.mgr.freeLen frees).length
  noFree : A.free = none -> listed w.mgr.freeLen frees = []

variable {H : Honest A} {w w' : World A} {frees : Nat -> List Nat} {out : List Nat}

theorem Owned.count_lt (h : Owned H w frees out) : w.mgr.stat.chunkCount + 1 < 2 ^ 64 := by
  have hnodup : ((out ++ listed w.mgr.freeLen frees).map (blockOf w)).Nodup :=
    h.nodup.map fun c d heq => congrArg Prod.fst heq
  have hsub : (out ++ listed w.mgr.freeLen frees).map (blockOf w) ⊆ H.blocks w.heap := by
    intro b hb
    obtain ⟨c, hc, rfl⟩ := List.mem_map.mp hb
    exact h.blocks c hc
  have hle := sum_length_le_of_subset hnodup hsub
  have hall := sum_length_le (H.apart _ h.valid) (H.inside _ h.valid)
  rw [sum_blockOf, List.length_append, ← h.chunkCount] at hle
  unfold chunkLinkSize at hle
  omega

theorem Owned.congr (h : Owned H w frees out) (hmem : w'.mem = w.mem)
    (hshape : shape w'.mgr = shape w.mgr) (hlists : w'.mgr.freeList = w.mgr.freeList)
    (hvalid : H.valid w'.heap)
    (hblocks : forall b, b ∈ H.blocks w.heap -> b ∈ H.blocks w'.heap)
    (hcount : w'.mgr.stat.chunkCount = w.mgr.stat.chunkCount) :
    Owned H w' frees out := by
  obtain ⟨hlen, hclass⟩ := shape_eq hshape
  constructor
  · exact hvalid
  · intro i hi
    rw [hlen] at hi
    rw [hmem, hlists]
    exact h.chains i hi
  · rw [hlen]
    exact h.nodup
  · intro c hc
    rw [hlen] at hc
    have hb := hblocks _ (h.blocks c hc)
    unfold blockOf at hb ⊢
    rw [hmem]
    exact hb
  · rw [hlen, hmem, hclass]
    exact h.sizes
  · rw [hlen, hmem, hclass]
    exact h.held
  · rw [hcount, hlen]
    exact h.chunkCount
  · rw [hlen]
    exact h.noFree

theorem Owned.pop (h : Owned H w frees out) {u : World A} {i c : Nat}
    {rest : List Nat}
    (hi : i < w.mgr.freeLen) (hf : frees i = c :: rest) (hmem : u.mem = w.mem)
    (hshape : shape u.mgr = shape w.mgr)
    (hlists : u.mgr.freeList = Function.update w.mgr.freeList i (w.mem c).next)
    (hvalid : H.valid u.heap)
    (hblocks : forall b, b ∈ H.blocks w.heap -> b.1 ≠ c -> b ∈ H.blocks u.heap)
    (hcount : u.mgr.stat.chunkCount + 1 = w.mgr.stat.chunkCount) :
    Owned H u (Function.update frees i rest) out ∧
      c ∉ out ++ listed w.mgr.freeLen (Function.update frees i rest) ∧
      (listed w.mgr.freeLen frees).length =
        (listed w.mgr.freeLen (Function.update frees i rest)).length + 1 := by
  obtain ⟨hlen, hclass⟩ := shape_eq hshape
  have hpop := listed_pop hi hf
  have hlength := hpop.length_eq
  rw [List.length_cons] at hlength
  have hperm : (out ++ listed w.mgr.freeLen frees).Perm
      (c :: (out ++ listed w.mgr.freeLen (Function.update frees i rest))) :=
    ((List.perm_append_left_iff out).mpr hpop).trans List.perm_middle
  obtain ⟨hcnot, hnodup⟩ := List.nodup_cons.mp (hperm.nodup_iff.mp h.nodup)
  refine ⟨?_, hcnot, hlength⟩
  constructor
  · exact hvalid
  · intro j hj
    rw [hlen] at hj
    rw [hmem, hlists]
    exact chains_pop h.chains hi hf j hj
  · rw [hlen]
    exact hnodup
  · intro d hd
    rw [hlen] at hd
    have hb := hblocks _ (h.blocks d (hperm.mem_iff.mpr (List.mem_cons_of_mem c hd)))
      (ne_of_mem_of_not_mem hd hcnot)
    unfold blockOf at hb ⊢
    rw [hmem]
    exact hb
  · rw [hlen, hmem, hclass]
    exact fun j hj d hd => h.sizes j hj d (mem_pop hf hd)
  · rw [hlen, hmem, hclass]
    exact h.held
  · have hold := h.chunkCount
    rw [hlen]
    omega
  · intro hnone
    have hnil := h.noFree hnone
    rw [hnil] at hlength
    cases hlength

theorem Owned.add (h : Owned H w frees out) {c : Nat}
    (hc : c ∉ out ++ listed w.mgr.freeLen frees) (hmem : forall d, d ≠ c -> w'.mem d = w.mem d)
    (hheap : w'.heap = w.heap) (hshape : shape w'.mgr = shape w.mgr)
    (hlists : w'.mgr.freeList = w.mgr.freeList) (hblock : blockOf w' c ∈ H.blocks w.heap)
    (hheld : (w'.mem c).id = splitId ∨ exists i : Nat, i < w.mgr.freeLen ∧
      (w'.mem c).id = i ∧ (w'.mem c).size + chunkLinkSize = w.mgr.classSize i)
    (hcount : w'.mgr.stat.chunkCount = w.mgr.stat.chunkCount + 1) :
    Owned H w' frees (c :: out) := by
  obtain ⟨hlen, hclass⟩ := shape_eq hshape
  have hne : forall d, d ∈ out ++ listed w.mgr.freeLen frees -> d ≠ c :=
    fun d hd => ne_of_mem_of_not_mem hd hc
  have hlisted : forall i, i < w.mgr.freeLen -> forall d, d ∈ frees i -> d ≠ c :=
    fun i hi d hd => hne d (List.mem_append_right _ (mem_listed.mpr ⟨i, hi, hd⟩))
  constructor
  · rw [hheap]
    exact h.valid
  · intro i hi
    rw [hlen] at hi
    rw [hlists]
    exact (h.chains i hi).congr fun d hd => by rw [hmem d (hlisted i hi d hd)]
  · rw [hlen]
    exact List.nodup_cons.mpr ⟨hc, h.nodup⟩
  · intro d hd
    rw [hlen, List.cons_append] at hd
    rw [hheap]
    cases List.mem_cons.mp hd with
    | inl heq =>
        rw [heq]
        exact hblock
    | inr hd =>
        have hb := h.blocks d hd
        unfold blockOf at hb ⊢
        rw [hmem d (hne d hd)]
        exact hb
  · intro i hi d hd
    rw [hlen] at hi
    rw [hmem d (hlisted i hi d hd), hclass]
    exact h.sizes i hi d hd
  · intro d hd
    rw [hlen, hclass]
    cases List.mem_cons.mp hd with
    | inl heq =>
        rw [heq]
        exact hheld
    | inr hd =>
        rw [hmem d (hne d (List.mem_append_left _ hd))]
        exact h.held d hd
  · have hold := h.chunkCount
    rw [hcount, hlen, List.length_cons]
    omega
  · rw [hlen]
    exact h.noFree

theorem Owned.freeList_none (h : Owned H w frees out) {i : Nat} (hi : i < w.mgr.freeLen)
    (hf : frees i = []) : w.mgr.freeList i = none := by
  have hchain := h.chains i hi
  rw [hf] at hchain
  exact hchain

theorem Owned.freeList_some (h : Owned H w frees out) {i c : Nat} {rest : List Nat}
    (hi : i < w.mgr.freeLen) (hf : frees i = c :: rest) : w.mgr.freeList i = some c := by
  have hchain := h.chains i hi
  rw [hf] at hchain
  exact hchain.1

theorem Owned.freeList_isSome (h : Owned H w frees out) {i : Nat} (hi : i < w.mgr.freeLen) :
    (w.mgr.freeList i).isSome = false ↔ frees i = [] := by
  cases hf : frees i with
  | nil =>
      rw [h.freeList_none hi hf]
      exact iff_of_true rfl rfl
  | cons c rest =>
      rw [h.freeList_some hi hf]
      exact iff_of_false nofun nofun

end Slabs
end NgxEpoll
