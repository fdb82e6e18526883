import Mathlib.Data.List.Chain
import NgxEpoll.Shmem.Blocks

/-!
# What allocation and release keep

The storages and the lists together.  In the middle of a call some free storages
are on no list: these are `loose`.

## The invariant
-/

namespace NgxEpoll
namespace Shmem

open Foundation NgxEpoll.Core

structure Layout (lo hi : Nat) (shm : ShmemT) (frees : Nat -> List Nat) (av : List Nat)
    (blocks loose : List Nat) : Prop where
  storages : Blocks lo hi shm blocks
  lists : Lists shm frees av
  listed : forall a, (exists i, a ∈ frees i) ↔
    a ∈ blocks ∧ (shm.st a).alloc = false ∧ a ∉ loose
  freeLen : 0 < shm.freeLen ∧ shm.freeLen ≤ 2 ^ 32
  threshold : storageSize + shm.splitThreshold < 2 ^ 64

def Apart (st : Nat -> Storage) (blocks : List Nat) : Prop :=
  blocks.IsChain fun a b => (st a).alloc = true ∨ (st b).alloc = true

instance (st : Nat -> Storage) (blocks : List Nat) : Decidable (Apart st blocks) :=
  inferInstanceAs (Decidable (List.IsChain _ _))

variable {lo hi : Nat} {shm : ShmemT} {frees : Nat -> List Nat} {av : List Nat}
  {blocks loose pre post : List Nat} {a b : Nat}

theorem Lists.congr {shm' : ShmemT} (h : Lists shm frees av)
    (hfree : forall i, Ring shm'.free (QNode.head i) ((frees i).map QNode.entry))
    (havailable : shm'.available = shm.available) (hlen : shm'.freeLen = shm.freeLen)
    (hmax : shm'.maxAvailableIndex = shm.maxAvailableIndex)
    (hclass : forall n, insertClass shm' n = insertClass shm n)
    (hst : forall i x, x ∈ frees i -> (shm'.st x).size = (shm.st x).size ∧
      (shm'.st x).freeListHead = (shm.st x).freeListHead) : Lists shm' frees av := by
  refine
    { free := hfree
      available := by rw [havailable]; exact h.available
      sorted := h.sorted
      mem_iff := h.mem_iff
      lt_freeLen := by rw [hlen]; exact h.lt_freeLen
      last := by rw [hmax, hlen]; exact h.last
      placed := ?_ }
  intro i x hx
  rw [hclass, (hst i x hx).1, (hst i x hx).2]
  exact h.placed i x hx

theorem Layout.not_listed (h : Layout lo hi shm frees av blocks loose)
    (ha : (shm.st a).alloc = true ∨ a ∈ loose) (i : Nat) : a ∉ frees i := by
  intro hmem
  obtain ⟨-, hfree, hloose⟩ := (h.listed a).mp ⟨i, hmem⟩
  rcases ha with halloc | hin
  · rw [halloc] at hfree
    cases hfree
  · exact hloose hin

/-!
## Lists
-/

theorem listed_cons (frees : Nat -> List Nat) (i a x : Nat) :
    (exists j, x ∈ Function.update frees i (a :: frees i) j) ↔
      x = a ∨ exists j, x ∈ frees j := by
  constructor
  · rintro ⟨j, hj⟩
    by_cases hji : j = i
    · subst hji
      rw [Function.update_self, List.mem_cons] at hj
      exact hj.imp_right fun hj => ⟨j, hj⟩
    · rw [Function.update_of_ne hji] at hj
      exact Or.inr ⟨j, hj⟩
  · rintro (rfl | ⟨j, hj⟩)
    · exact ⟨i, by simp⟩
    · refine ⟨j, ?_⟩
      by_cases hji : j = i
      · subst hji
        simp [hj]
      · rwa [Function.update_of_ne hji]

theorem Layout.remove (h : Layout lo hi shm frees av blocks loose) (ha : a ∈ blocks)
    (hfree : (shm.st a).alloc = false) (hloose : a ∉ loose) :
    exists free available max frees' av',
      removeFree shm a = (true, relisted shm a none free available max) ∧
      Layout lo hi (relisted shm a none free available max) frees' av' blocks
        (a :: loose) := by
  obtain ⟨i, hi⟩ := (h.listed a).mpr ⟨ha, hfree, hloose⟩
  obtain ⟨free, available, max, av', heq, hlists⟩ :=
    removeFree_spec h.lists h.freeLen.2 hi
  refine ⟨free, available, max, Function.update frees i ((frees i).erase a), av', heq,
    ?_⟩
  refine
    { storages := h.storages.relisted a none free available max
      lists := hlists
      listed := ?_
      freeLen := h.freeLen
      threshold := h.threshold }
  intro x
  rw [(relisted_st shm a none free available max x).1, List.mem_cons, not_or]
  by_cases hx : x = a
  · subst hx
    refine iff_of_false ?_ (fun hand => hand.2.2.1 rfl)
    rintro ⟨j, hj⟩
    by_cases hji : j = i
    · subst hji
      rw [Function.update_self] at hj
      exact (h.lists.nodup j).not_mem_erase hj
    · rw [Function.update_of_ne hji] at hj
      exact hji (h.lists.unique hj hi)
  · have hsame : (exists j, x ∈ Function.update frees i ((frees i).erase a) j) ↔
        exists j, x ∈ frees j := by
      refine exists_congr fun j => ?_
      by_cases hji : j = i
      · subst hji
        rw [Function.update_self]
        exact List.mem_erase_of_ne hx
      · rw [Function.update_of_ne hji]
    rw [hsame, h.listed x]
    simp [hx]

theorem Layout.insert (h : Layout lo hi shm frees av blocks (a :: loose))
    (ha : a ∈ blocks) (hfree : (shm.st a).alloc = false) (hloose : a ∉ loose) :
    exists head free available max frees' av',
      insertFree shm a = some (relisted shm a head free available max) ∧
      Layout lo hi (relisted shm a head free available max) frees' av' blocks
        loose := by
  obtain ⟨free, available, max, av', heq, hlists⟩ :=
    insertFree_spec h.lists h.freeLen.2 h.freeLen.1 hfree rfl
      (h.not_listed (Or.inr (List.mem_cons_self ..)))
  generalize insertClass shm (shm.st a).size = i at heq hlists
  refine ⟨some i, free, available, max, Function.update frees i (a :: frees i), av',
    heq, ?_⟩
  refine
    { storages := h.storages.relisted a (some i) free available max
      lists := hlists
      listed := ?_
      freeLen := h.freeLen
      threshold := h.threshold }
  intro x
  rw [(relisted_st shm a (some i) free available max x).1, listed_cons, h.listed x,
    List.mem_cons, not_or]
  by_cases hx : x = a
  · subst hx
    simp [ha, hfree, hloose]
  · simp [hx]

/-!
## Marks
-/

theorem Layout.take (h : Layout lo hi shm frees av (pre ++ a :: post) [a])
    (hfree : (shm.st a).alloc = false) (n : Nat) :
    Layout lo hi
      { shm with
        st := Function.update shm.st a { shm.st a with alloc := true, actSize := n }
        stat := { shm.stat with
          usedSize := shm.stat.usedSize + (shm.st a).size
          reqsSize := shm.stat.reqsSize + n } }
      frees av (pre ++ a :: post) [] := by
  have hnot := h.not_listed (Or.inr (List.mem_cons_self ..))
  refine
    { storages := h.storages.take hfree n
      lists := h.lists.congr h.lists.free rfl rfl rfl (fun _ => rfl) ?_
      listed := ?_
      freeLen := h.freeLen
      threshold := h.threshold }
  · intro i x hx
    have hne : x ≠ a := fun heq => hnot i (heq ▸ hx)
    simp [hne]
  · intro x
    rw [h.listed x]
    by_cases hx : x = a
    · simp [hx]
    · simp [hx]

theorem Layout.release (h : Layout lo hi shm frees av (pre ++ a :: post) [])
    (halloc : (shm.st a).alloc = true) :
    Layout lo hi
      { shm with
        st := Function.update shm.st a { shm.st a with alloc := false }
        stat := { shm.stat with
          usedSize := shm.stat.usedSize - (shm.st a).size
          reqsSize := shm.stat.reqsSize - (shm.st a).actSize } }
      frees av (pre ++ a :: post) [a] := by
  have hnot := h.not_listed (Or.inl halloc)
  refine
    { storages := h.storages.release halloc
      lists := h.lists.congr h.lists.free rfl rfl rfl (fun _ => rfl) ?_
      listed := ?_
      freeLen := h.freeLen
      threshold := h.threshold }
  · intro i x hx
    have hne : x ≠ a := fun heq => hnot i (heq ▸ hx)
    simp [hne]
  · intro x
    rw [h.listed x]
    by_cases hx : x = a
    · simp [hx, halloc]
    · simp [hx]

theorem Layout.merge (h : Layout lo hi shm frees av (pre ++ a :: b :: post) loose)
    (ha : (shm.st a).alloc = false) (hb : (shm.st b).alloc = false)
    (hloose : forall x, x ∈ loose ↔ x = a ∨ x = b) :
    Layout lo hi (joined shm a b) frees av (pre ++ a :: post) [a] := by
  have hnot := h.not_listed (Or.inr ((hloose a).mpr (Or.inl rfl)))
  have hbnot : b ∉ pre ++ a :: post := by
    have hperm : (pre ++ a :: b :: post).Perm (b :: (pre ++ a :: post)) := by
      refine (List.perm_append_left_iff pre).mpr (List.Perm.swap b a post) |>.trans ?_
      exact List.perm_middle
    exact (List.nodup_cons.mp (hperm.nodup_iff.mp h.storages.nodup)).1
  refine
    { storages := h.storages.merge ha hb
      lists := h.lists.congr h.lists.free rfl rfl rfl (fun _ => rfl) ?_
      listed := ?_
      freeLen := h.freeLen
      threshold := h.threshold }
  · intro i x hx
    have hne : x ≠ a := fun heq => hnot i (heq ▸ hx)
    simp [joined, hne]
  · intro x
    rw [h.listed x, hloose x, joined_alloc]
    by_cases hxa : x = a
    · simp [hxa]
    · by_cases hxb : x = b
      · subst hxb
        simp [hbnot]
      · simp [hxa, hxb]

end Shmem
end NgxEpoll
