import Mathlib.Data.List.Perm.Subperm
import NgxEpoll.Shmem.Functions

/-!
# The free lists of the shared memory allocator

`frees i` are the storages in the list of class `i`, and `av` the classes on the
list of available ones.

## The invariant of the lists
-/

namespace NgxEpoll
namespace Shmem

open Foundation NgxEpoll.Core

def insertClass (shm : ShmemT) (size : Nat) : Nat :=
  min (getInsertIndex shm size) (shm.freeLen - 1)

structure Lists (shm : ShmemT) (frees : Nat -> List Nat) (av : List Nat) : Prop where
  free : forall i, Ring shm.free (QNode.head i) ((frees i).map QNode.entry)
  available : Ring shm.available (QNode.head 0) (av.map QNode.entry)
  sorted : av.Pairwise (· < ·)
  mem_iff : forall i, i ∈ av ↔ frees i ≠ []
  lt_freeLen : forall i, i ∈ av -> i < shm.freeLen
  last : shm.maxAvailableIndex = av.getLastD shm.freeLen
  placed : forall i a, a ∈ frees i ->
    (shm.st a).freeListHead = some i ∧ i = insertClass shm (shm.st a).size

variable {shm : ShmemT} {frees : Nat -> List Nat} {av : List Nat}

theorem Lists.nodup (h : Lists shm frees av) (i : Nat) : (frees i).Nodup :=
  List.Nodup.of_map _ (List.nodup_cons.mp (h.free i).nodup).2

theorem Lists.unique (h : Lists shm frees av) {i j a : Nat} (hi : a ∈ frees i)
    (hj : a ∈ frees j) : i = j := by
  have heq := (h.placed i a hi).1.symm.trans (h.placed j a hj).1
  exact Option.some.inj heq

theorem Lists.mem_available (h : Lists shm frees av) {i a : Nat} (ha : a ∈ frees i) :
    i ∈ av :=
  (h.mem_iff i).mpr (List.ne_nil_of_mem ha)

theorem freeIndex_of_lt {n i : Nat} (hn : n ≤ 2 ^ 32) (h : i < n) : freeIndex i = i :=
  Nat.mod_eq_of_lt (Nat.lt_of_lt_of_le h hn)

theorem le_getLastD_of_sorted {l : List Nat} (h : l.Pairwise (· < ·)) {i d : Nat}
    (hi : i ∈ l) : i ≤ l.getLastD d := by
  cases l using List.reverseRecOn with
  | nil => cases hi
  | append_singleton l x =>
      rw [List.getLastD_concat]
      rcases List.mem_append.mp hi with hi | hi
      · exact Nat.le_of_lt ((List.pairwise_append.mp h).2.2 i hi x (by simp))
      · exact Nat.le_of_eq (List.mem_singleton.mp hi)

theorem Lists.le_max (h : Lists shm frees av) {i : Nat} (hi : i ∈ av) :
    i ≤ shm.maxAvailableIndex := by
  rw [h.last]
  exact le_getLastD_of_sorted h.sorted hi

theorem Lists.max_mem (h : Lists shm frees av)
    (hmax : shm.maxAvailableIndex ≠ shm.freeLen) : shm.maxAvailableIndex ∈ av := by
  have hlast := h.last
  cases av using List.reverseRecOn with
  | nil => exact absurd hlast hmax
  | append_singleton l x =>
      rw [List.getLastD_concat] at hlast
      simp [hlast]

theorem Lists.free_frame (h : Lists shm frees av) {i j : Nat} (hne : j ≠ i)
    {free' : Links QNode} {nodes : List QNode}
    (hsame : shm.free.SameOutside free' nodes)
    (hnodes : forall q, q ∈ nodes ->
      q = QNode.head i ∨ exists a, q = QNode.entry a ∧ a ∉ frees j) :
    Ring free' (QNode.head j) ((frees j).map QNode.entry) := by
  refine (h.free j).frame hsame ?_
  intro q hq hmem
  rcases hnodes q hmem with rfl | ⟨a, rfl, ha⟩
  · rcases List.mem_cons.mp hq with heq | hq
    · exact hne (QNode.head.inj heq).symm
    · obtain ⟨b, -, hb⟩ := List.mem_map.mp hq
      cases hb
  · rcases List.mem_cons.mp hq with heq | hq
    · cases heq
    · obtain ⟨b, hbmem, hb⟩ := List.mem_map.mp hq
      exact ha (QNode.entry.inj hb ▸ hbmem)

/-!
## Removal
-/

def relisted (shm : ShmemT) (a : Nat) (head : Option Nat) (free available : Links QNode)
    (max : Nat) : ShmemT :=
  { shm with
    st := Function.update shm.st a { shm.st a with freeListHead := head }
    free := free
    available := available
    maxAvailableIndex := max }

theorem Lists.removeIndex (h : Lists shm frees av) {i a : Nat} (ha : a ∈ frees i) :
    (if shm.maxAvailableIndex < getInsertIndex shm (shm.st a).size then
      shm.maxAvailableIndex
    else getInsertIndex shm (shm.st a).size) = i := by
  have hmem := h.mem_available ha
  have hle := h.le_max hmem
  have hlt := h.lt_freeLen i hmem
  have hplaced := (h.placed i a ha).2
  unfold insertClass at hplaced
  have hmaxlt : shm.maxAvailableIndex < shm.freeLen := by
    have hlast := h.last
    cases av using List.reverseRecOn with
    | nil => cases hmem
    | append_singleton l x =>
        rw [List.getLastD_concat] at hlast
        rw [hlast]
        exact h.lt_freeLen x (by simp)
  split
  · omega
  · omega

theorem Lists.free_remove (h : Lists shm frees av) {i a : Nat} (ha : a ∈ frees i)
    (j : Nat) :
    Ring (shm.free.queueRemove (QNode.entry a)) (QNode.head j)
      ((Function.update frees i ((frees i).erase a) j).map QNode.entry) := by
  obtain ⟨pre, post, hsplit⟩ := List.append_of_mem ha
  have hnodup := h.nodup i
  rw [hsplit] at hnodup
  have hnot : a ∉ pre := fun hmem =>
    (List.nodup_append.mp hnodup).2.2 a hmem a (by simp) rfl
  have hring := h.free i
  rw [hsplit, List.map_append, List.map_cons] at hring
  obtain ⟨hremoved, hsame⟩ := hring.remove
  by_cases hj : j = i
  · subst hj
    rw [Function.update_self, hsplit, List.erase_append_right _ hnot,
      List.erase_cons_head, List.map_append]
    exact hremoved
  · rw [Function.update_of_ne hj]
    refine h.free_frame hj hsame ?_
    intro q hq
    rcases List.mem_cons.mp hq with hq | hq
    · exact Or.inl hq
    · rw [← List.map_cons, ← List.map_append, ← hsplit] at hq
      obtain ⟨b, hb, rfl⟩ := List.mem_map.mp hq
      exact Or.inr ⟨b, rfl, fun hbj => hj (h.unique hbj hb)⟩

theorem Lists.placed_remove (h : Lists shm frees av) {i a : Nat} {free available max}
    (ha : a ∈ frees i) (j b : Nat)
    (hb : b ∈ Function.update frees i ((frees i).erase a) j) :
    ((relisted shm a none free available max).st b).freeListHead = some j ∧
      j = insertClass (relisted shm a none free available max)
        ((relisted shm a none free available max).st b).size := by
  have hbj : b ∈ frees j ∧ b ≠ a := by
    by_cases hj : j = i
    · subst hj
      rw [Function.update_self, (h.nodup j).mem_erase_iff] at hb
      exact ⟨hb.2, hb.1⟩
    · rw [Function.update_of_ne hj] at hb
      refine ⟨hb, ?_⟩
      rintro rfl
      exact hj (h.unique hb ha)
  have hst : (relisted shm a none free available max).st b = shm.st b :=
    Function.update_of_ne hbj.2 _ _
  rw [hst]
  exact h.placed j b hbj.1

theorem Lists.mem_remove (h : Lists shm frees av) {i a : Nat}
    {apre apost : List Nat} (hav : av = apre ++ i :: apost)
    (hempty : (frees i).erase a = []) (j : Nat) :
    j ∈ apre ++ apost ↔ Function.update frees i ((frees i).erase a) j ≠ [] := by
  have hsorted := h.sorted
  rw [hav] at hsorted
  have hnodup : (apre ++ i :: apost).Nodup := hsorted.imp fun hlt => Nat.ne_of_lt hlt
  have hi : i ∉ apre ++ apost := by
    have hperm : (apre ++ i :: apost).Perm (i :: (apre ++ apost)) := List.perm_middle
    exact (List.nodup_cons.mp (hperm.nodup_iff.mp hnodup)).1
  by_cases hj : j = i
  · subst hj
    simp only [Function.update_self, hempty, ne_eq, not_true_eq_false, iff_false]
    exact hi
  · rw [Function.update_of_ne hj, ← h.mem_iff j, hav]
    simp [hj]

theorem Lists.last_remove (h : Lists shm frees av) (hlen : shm.freeLen ≤ 2 ^ 32)
    {i : Nat} {apre apost : List Nat} (hav : av = apre ++ i :: apost) :
    (if i = shm.maxAvailableIndex then
      match shm.available.prev (QNode.entry i) with
      | some (QNode.entry j) => freeIndex j
      | _ => shm.freeLen
    else shm.maxAvailableIndex) = (apre ++ apost).getLastD shm.freeLen := by
  have havail := h.available
  have hsorted := h.sorted
  have hlast := h.last
  rw [hav] at havail hsorted hlast
  rw [List.map_append, List.map_cons] at havail
  cases apost using List.reverseRecOn with
  | nil =>
      rw [List.getLastD_concat] at hlast
      rw [if_pos hlast.symm, havail.pointers.2, List.append_nil]
      cases apre using List.reverseRecOn with
      | nil => rfl
      | append_singleton l x =>
          rw [List.map_append, List.map_singleton, List.getLastD_concat,
            List.getLastD_concat]
          exact freeIndex_of_lt hlen (h.lt_freeLen x (by simp [hav]))
  | append_singleton l x =>
      rw [← List.cons_append, ← List.append_assoc, List.getLastD_concat] at hlast
      have hlt : i < x :=
        (List.pairwise_cons.mp (List.pairwise_append.mp hsorted).2.1).1 x (by simp)
      rw [if_neg (by omega), ← List.append_assoc, List.getLastD_concat, hlast]

theorem removeFree_spec (h : Lists shm frees av) (hlen : shm.freeLen ≤ 2 ^ 32)
    {i a : Nat} (ha : a ∈ frees i) :
    exists free available max av',
      removeFree shm a = (true, relisted shm a none free available max) ∧
      Lists (relisted shm a none free available max)
        (Function.update frees i ((frees i).erase a)) av' := by
  have hindex := h.removeIndex ha
  have hhead := (h.placed i a ha).1
  have hring := h.free_remove ha
  have hringi := hring i
  rw [Function.update_self] at hringi
  by_cases hempty : (frees i).erase a = []
  · -- the class goes off the list of available ones
    obtain ⟨apre, apost, hav⟩ := List.append_of_mem (h.mem_available ha)
    have havail := h.available
    have hsorted := h.sorted
    rw [hav] at havail hsorted
    rw [List.map_append, List.map_cons] at havail
    refine ⟨shm.free.queueRemove (QNode.entry a),
      shm.available.queueRemove (QNode.entry i),
      (apre ++ apost).getLastD shm.freeLen, apre ++ apost, ?_, ?_⟩
    · dsimp only [removeFree]
      rw [hindex, if_neg (by rw [hhead]; simp),
        if_pos (hringi.queueEmpty_iff.mpr (by rw [hempty]; rfl)),
        ← h.last_remove hlen hav]
      rfl
    · refine
        { free := hring
          available := ?_
          sorted := ?_
          mem_iff := h.mem_remove hav hempty
          lt_freeLen := ?_
          last := rfl
          placed := h.placed_remove ha }
      · rw [List.map_append]
        exact havail.remove.1
      · exact hsorted.sublist ((List.sublist_cons_self i apost).append_left apre)
      · intro j hj
        refine h.lt_freeLen j ?_
        rw [hav]
        simp only [List.mem_append, List.mem_cons] at hj ⊢
        tauto
  · refine ⟨shm.free.queueRemove (QNode.entry a), shm.available,
      shm.maxAvailableIndex, av, ?_, ?_⟩
    · have hfull : ¬ (shm.free.queueRemove (QNode.entry a)).queueEmpty
          (QNode.head i) = true := by
        rw [hringi.queueEmpty_iff, List.map_eq_nil_iff]
        exact hempty
      dsimp only [removeFree]
      rw [hindex, if_neg (by rw [hhead]; simp), if_neg hfull]
      rfl
    · refine
        { free := hring
          available := h.available
          sorted := h.sorted
          mem_iff := ?_
          lt_freeLen := h.lt_freeLen
          last := h.last
          placed := h.placed_remove ha }
      intro j
      by_cases hj : j = i
      · subst hj
        rw [Function.update_self]
        exact iff_of_true (h.mem_available ha) hempty
      · rw [Function.update_of_ne hj]
        exact h.mem_iff j

/-!
## Insertion
-/

theorem Lists.length_available (h : Lists shm frees av) : av.length ≤ shm.freeLen := by
  have hnodup : av.Nodup := h.sorted.imp fun hlt => Nat.ne_of_lt hlt
  have hsub : av ⊆ List.range shm.freeLen :=
    fun i hi => List.mem_range.mpr (h.lt_freeLen i hi)
  have hle := (hnodup.subperm hsub).length_le
  rwa [List.length_range] at hle

theorem insertPlace_spec (h : Lists shm frees av) (hlen : shm.freeLen ≤ 2 ^ 32)
    {index : Nat} (hnot : index ∉ av) {pre post : List Nat} (hav : av = pre ++ post)
    (hpre : forall j, j ∈ pre -> j < index) {fuel : Nat} (hfuel : post.length < fuel) :
    (insertPlace shm.available index fuel
        (some ((post.map QNode.entry).headD (QNode.head 0))) = some none ∧
      forall j, j ∈ av -> j < index) ∨
    exists pre' j post', av = pre' ++ j :: post' ∧ (forall x, x ∈ pre' -> x < index) ∧
      index < j ∧
      insertPlace shm.available index fuel
        (some ((post.map QNode.entry).headD (QNode.head 0))) = some (some j) := by
  induction post generalizing pre fuel with
  | nil =>
      rw [List.append_nil] at hav
      subst hav
      exact Or.inl ⟨by cases fuel <;> rfl, hpre⟩
  | cons j post ih =>
      obtain ⟨fuel, rfl⟩ : exists f, fuel = f + 1 := ⟨fuel - 1, by
        rw [List.length_cons] at hfuel
        omega⟩
      have hj : freeIndex j = j :=
        freeIndex_of_lt hlen (h.lt_freeLen j (by simp [hav]))
      by_cases hlt : index < j
      · refine Or.inr ⟨pre, j, post, hav, hpre, hlt, ?_⟩
        simp only [List.map_cons, List.headD_cons, insertPlace, hj, if_pos hlt]
      · have hne : index ≠ j := by
          rintro rfl
          exact hnot (by simp [hav])
        have hring := h.available
        rw [hav, List.map_append, List.map_cons] at hring
        simp only [List.map_cons, List.headD_cons, insertPlace, hj, if_neg hlt,
          hring.pointers.1]
        refine ih (show av = (pre ++ [j]) ++ post by simp [hav]) ?_ ?_
        · intro x hx
          rcases List.mem_append.mp hx with hx | hx
          · exact hpre x hx
          · rw [List.mem_singleton.mp hx]
            omega
        · rw [List.length_cons] at hfuel
          omega

theorem Lists.free_insert (h : Lists shm frees av) {a : Nat}
    (hnot : forall i, a ∉ frees i) (i j : Nat) :
    Ring (shm.free.queueInsertHead (QNode.head i) (QNode.entry a)) (QNode.head j)
      ((Function.update frees i (a :: frees i) j).map QNode.entry) := by
  have hfresh : QNode.entry a ∉ QNode.head i :: (frees i).map QNode.entry := by
    intro hmem
    rcases List.mem_cons.mp hmem with heq | hmem
    · cases heq
    · obtain ⟨b, hb, heq⟩ := List.mem_map.mp hmem
      exact hnot i (QNode.entry.inj heq ▸ hb)
  obtain ⟨hring, hsame⟩ := (h.free i).insertHead hfresh
  by_cases hj : j = i
  · subst hj
    rw [Function.update_self, List.map_cons]
    exact hring
  · rw [Function.update_of_ne hj]
    refine h.free_frame hj hsame ?_
    intro q hq
    rcases List.mem_cons.mp hq with rfl | hq
    · exact Or.inr ⟨a, rfl, hnot j⟩
    rcases List.mem_cons.mp hq with rfl | hq
    · exact Or.inl rfl
    · obtain ⟨b, hb, rfl⟩ := List.mem_map.mp hq
      exact Or.inr ⟨b, rfl, fun hbj => hj (h.unique hbj hb)⟩

theorem Lists.placed_insert (h : Lists shm frees av) {a : Nat} {free available max}
    (hnot : forall i, a ∉ frees i) (j b : Nat)
    (hb : b ∈ Function.update frees (insertClass shm (shm.st a).size)
      (a :: frees (insertClass shm (shm.st a).size)) j) :
    let shm' := relisted shm a (some (insertClass shm (shm.st a).size)) free available
      max
    (shm'.st b).freeListHead = some j ∧ j = insertClass shm' (shm'.st b).size := by
  dsimp only
  by_cases hba : b = a
  · subst hba
    have hj : j = insertClass shm (shm.st b).size := by
      by_contra hne
      rw [Function.update_of_ne hne] at hb
      exact hnot j hb
    simp only [relisted, Function.update_self]
    exact ⟨congrArg some hj.symm, hj⟩
  · have hst : (relisted shm a (some (insertClass shm (shm.st a).size)) free available
        max).st b = shm.st b := Function.update_of_ne hba _ _
    rw [hst]
    refine h.placed j b ?_
    by_cases hj : j = insertClass shm (shm.st a).size
    · rw [hj, Function.update_self] at hb
      rw [hj]
      exact (List.mem_cons.mp hb).resolve_left hba
    · rwa [Function.update_of_ne hj] at hb

theorem insertClass_eq (shm : ShmemT) (size : Nat) :
    (if shm.freeLen - 1 < getInsertIndex shm size then shm.freeLen - 1
    else getInsertIndex shm size) = insertClass shm size := by
  unfold insertClass
  split
  · omega
  · omega

theorem Lists.mem_insert (h : Lists shm frees av) (i a : Nat) {av' : List Nat}
    (hav' : forall j, j ∈ av' ↔ j = i ∨ j ∈ av) (j : Nat) :
    j ∈ av' ↔ Function.update frees i (a :: frees i) j ≠ [] := by
  rw [hav']
  by_cases hj : j = i
  · subst hj
    simp
  · rw [Function.update_of_ne hj, ← h.mem_iff j]
    simp [hj]

theorem sorted_insert {pre post : List Nat} {i : Nat}
    (h : (pre ++ post).Pairwise (· < ·)) (hpre : forall j, j ∈ pre -> j < i)
    (hpost : forall j, j ∈ post -> i < j) : (pre ++ i :: post).Pairwise (· < ·) := by
  obtain ⟨h1, h2, h3⟩ := List.pairwise_append.mp h
  refine List.pairwise_append.mpr ⟨h1, List.pairwise_cons.mpr ⟨hpost, h2⟩, ?_⟩
  intro x hx y hy
  rcases List.mem_cons.mp hy with rfl | hy
  · exact hpre x hx
  · exact h3 x hx y hy

/-- The lists with one more storage, for any list of available classes that has
its class. -/
theorem Lists.insert (h : Lists shm frees av) (hpos : 0 < shm.freeLen) {a i : Nat}
    (hi : insertClass shm (shm.st a).size = i) (hnot : forall i, a ∉ frees i)
    {available' : Links QNode} {av' : List Nat} {max : Nat}
    (havail : Ring available' (QNode.head 0) (av'.map QNode.entry))
    (hsorted : av'.Pairwise (· < ·)) (hmem : forall j, j ∈ av' ↔ j = i ∨ j ∈ av)
    (hlast : max = av'.getLastD shm.freeLen) :
    Lists (relisted shm a (some i)
      (shm.free.queueInsertHead (QNode.head i) (QNode.entry a)) available' max)
      (Function.update frees i (a :: frees i)) av' := by
  refine
    { free := h.free_insert hnot i
      available := havail
      sorted := hsorted
      mem_iff := h.mem_insert i a hmem
      lt_freeLen := ?_
      last := hlast
      placed := ?_ }
  · intro j hj
    rcases (hmem j).mp hj with rfl | hj
    · change j < shm.freeLen
      unfold insertClass at hi
      omega
    · exact h.lt_freeLen j hj
  · subst hi
    exact h.placed_insert hnot

theorem insertFree_eq {a i : Nat} (hfree : (shm.st a).alloc = false)
    (hi : insertClass shm (shm.st a).size = i) :
    insertFree shm a =
      if shm.free.queueEmpty (QNode.head i) then
        match insertPlace shm.available i (shm.freeLen + 1)
            (shm.available.next (QNode.head 0)) with
        | none => none
        | some (some j) => some (relisted shm a (some i)
            (shm.free.queueInsertHead (QNode.head i) (QNode.entry a))
            (shm.available.queueInsertBefore (QNode.entry j) (QNode.entry i))
            shm.maxAvailableIndex)
        | some none => some (relisted shm a (some i)
            (shm.free.queueInsertHead (QNode.head i) (QNode.entry a))
            (shm.available.queueInsertTail (QNode.head 0) (QNode.entry i))
            (freeIndex i))
      else some (relisted shm a (some i)
        (shm.free.queueInsertHead (QNode.head i) (QNode.entry a)) shm.available
        shm.maxAvailableIndex) := by
  dsimp only [insertFree]
  rw [insertClass_eq, hi, if_neg (by simp [hfree])]
  rfl

theorem insertFree_spec (h : Lists shm frees av) (hlen : shm.freeLen ≤ 2 ^ 32)
    (hpos : 0 < shm.freeLen) {a i : Nat} (hfree : (shm.st a).alloc = false)
    (hi : insertClass shm (shm.st a).size = i) (hnot : forall i, a ∉ frees i) :
    exists free available max av',
      insertFree shm a = some (relisted shm a (some i) free available max) ∧
      Lists (relisted shm a (some i) free available max)
        (Function.update frees i (a :: frees i)) av' := by
  rw [insertFree_eq hfree hi]
  by_cases hempty : frees i = []
  · have hnotav : i ∉ av := fun hmem => (h.mem_iff i).mp hmem hempty
    have hfresh : QNode.entry i ∉ QNode.head 0 :: av.map QNode.entry := by
      intro hmem
      rcases List.mem_cons.mp hmem with heq | hmem
      · cases heq
      · obtain ⟨b, hb, heq⟩ := List.mem_map.mp hmem
        exact hnotav (QNode.entry.inj heq ▸ hb)
    rw [if_pos ((h.free i).queueEmpty_iff.mpr (by rw [hempty]; rfl)),
      h.available.pointers_head.1]
    have hfuel : av.length < shm.freeLen + 1 := Nat.lt_succ_of_le h.length_available
    rcases insertPlace_spec h hlen hnotav (List.nil_append av).symm (by simp) hfuel with
      ⟨hplace, hall⟩ | ⟨pre, j, post, hav, hpre, hlt, hplace⟩
    · rw [hplace]
      refine ⟨_, _, _, av ++ [i], rfl, h.insert hpos hi hnot ?_ ?_ ?_ ?_⟩
      · rw [List.map_append]
        exact (h.available.insertTail hfresh).1
      · exact sorted_insert (by simpa using h.sorted) hall (by simp)
      · simp [or_comm]
      · rw [List.getLastD_concat]
        refine freeIndex_of_lt hlen ?_
        unfold insertClass at hi
        omega
    · rw [hplace]
      have hsorted := h.sorted
      have hring := h.available
      have hlast := h.last
      rw [hav] at hsorted hring hfresh hlast
      rw [List.map_append, List.map_cons] at hring hfresh
      refine ⟨_, _, _, pre ++ i :: j :: post, rfl, h.insert hpos hi hnot ?_ ?_ ?_ ?_⟩
      · rw [List.map_append, List.map_cons, List.map_cons]
        exact (hring.insertBefore hfresh).1
      · refine sorted_insert hsorted hpre ?_
        intro x hx
        rcases List.mem_cons.mp hx with rfl | hx
        · exact hlt
        · have hjx : j < x :=
            (List.pairwise_cons.mp (List.pairwise_append.mp hsorted).2.1).1 x hx
          omega
      · intro x
        simp only [hav, List.mem_append, List.mem_cons]
        tauto
      · rw [hlast]
        simp [List.getLastD_eq_getLast?]
  · have hfull : ¬ shm.free.queueEmpty (QNode.head i) = true := by
      rw [(h.free i).queueEmpty_iff, List.map_eq_nil_iff]
      exact hempty
    rw [if_neg hfull]
    refine ⟨_, _, _, av, rfl,
      h.insert hpos hi hnot h.available h.sorted (fun j => ?_) h.last⟩
    have hmem := (h.mem_iff i).mpr hempty
    constructor
    · exact Or.inr
    · rintro (rfl | hj)
      · exact hmem
      · exact hj

end Shmem
end NgxEpoll
