import NgxEpoll.Shmem.SizeClasses

/-!
# Which storage `dfs_shmem_alloc` chooses

The call scans one free list only.  It fails although a storage fits when that
list is the one of the first class, whose sizes have no lower bound.

## Searches

The results of the searches in terms of the lists.
-/

namespace NgxEpoll
namespace Shmem

open Foundation NgxEpoll.Core

variable {shm : ShmemT} {n m lo hi a : Nat} {frees : Nat -> List Nat}
  {av blocks pre post : List Nat}

theorem findFit_none (h : Lists shm frees av) {i fuel : Nat}
    (hfrees : frees i = pre ++ a :: post)
    (hnone : findFit shm i n fuel (some (QNode.entry a)) = some none) :
    forall x, x ∈ a :: post -> (shm.st x).size < n := by
  induction post generalizing pre a fuel with
  | nil =>
      cases fuel with
      | zero => cases hnone
      | succ fuel =>
          simp only [findFit] at hnone
          split at hnone
          · cases hnone
          · intro x hx
            rw [List.mem_singleton.mp hx]
            omega
  | cons b post ih =>
      have hring := h.free i
      rw [hfrees, List.map_append, List.map_cons] at hring
      cases fuel with
      | zero => cases hnone
      | succ fuel =>
          simp only [findFit] at hnone
          split at hnone
          · cases hnone
          · next hsmall =>
            rw [hring.pointers.1, if_neg (by simp)] at hnone
            have hrest := ih (show frees i = (pre ++ [a]) ++ b :: post by simp [hfrees])
              hnone
            intro x hx
            rcases List.mem_cons.mp hx with rfl | hx
            · omega
            · exact hrest x hx

theorem findClass_above (h : Lists shm frees av) (hlen : shm.freeLen ≤ 2 ^ 32)
    {index fuel : Nat} {r : Option Nat} (hav : av = pre ++ post)
    (hfound : findClass shm index fuel
      (some ((post.map QNode.entry).headD (QNode.head 0))) = some r) :
    (forall i, r = some i -> i ∈ av ∧ index < i) ∧
      (r = none -> forall i, i ∈ post -> i ≤ index) := by
  induction post generalizing pre fuel with
  | nil =>
      have heq : r = none := by
        cases fuel with
        | zero => exact (Option.some.inj hfound).symm
        | succ fuel => exact (Option.some.inj hfound).symm
      subst heq
      exact ⟨by simp, by simp⟩
  | cons j post ih =>
      have hring := h.available
      have hj : j ∈ av := by simp [hav]
      rw [hav, List.map_append, List.map_cons] at hring
      have hindex : freeIndex j = j := freeIndex_of_lt hlen (h.lt_freeLen j hj)
      have hfull : shm.free.queueEmpty (QNode.head j) = false := by
        rw [Bool.eq_false_iff, Ne, (h.free j).queueEmpty_iff, List.map_eq_nil_iff]
        exact (h.mem_iff j).mp hj
      cases fuel with
      | zero => cases hfound
      | succ fuel =>
          simp only [List.map_cons, List.headD_cons, findClass, hfull, hindex] at hfound
          split at hfound
          · next hhit =>
            cases hfound
            refine ⟨?_, by simp⟩
            rintro i ⟨⟩
            exact ⟨hj, hhit.2⟩
          · next hmiss =>
            rw [hring.pointers.1] at hfound
            obtain ⟨hsome, hnone⟩ := ih
              (show av = (pre ++ [j]) ++ post by simp [hav]) hfound
            refine ⟨hsome, fun hr i hi => ?_⟩
            rcases List.mem_cons.mp hi with rfl | hi
            · simp only [Bool.not_false, true_and] at hmiss
              omega
            · exact hnone hr i hi

/-!
## Allocation
-/

theorem insertFree_st {shm' : ShmemT} {b x : Nat} (h : insertFree shm b = some shm')
    (hx : x ≠ b) : shm'.st x = shm.st x := by
  obtain ⟨head, free, available, max, rfl⟩ := insertFree_relisted h
  exact Function.update_of_ne hx _ _

theorem allocStorage_size {shm' : ShmemT} {addr : Option Nat} {e : Errno}
    (hn : n ≤ (shm.st a).size)
    (h : allocStorage shm a n = some (addr, e, shm')) :
    (shm'.st a).alloc = true ∧ n ≤ (shm'.st a).size ∧
      (shm'.st a).size ≤ (shm.st a).size := by
  by_cases hsplit : (shm.st a).size - n < (storageSize + shm.splitThreshold) % 2 ^ 64
  · dsimp only [allocStorage] at h
    rw [if_pos hsplit] at h
    cases h
    simp [hn]
  · rw [allocStorage_eq_split hsplit] at h
    obtain ⟨shm2, hinsert, heq⟩ := Option.map_eq_some_iff.mp h
    cases heq
    have hba : a ≠ a + storageSize + n := by
      unfold storageSize
      omega
    have hst := insertFree_st hinsert hba
    simp [splitDone, hst, splitState, hn]

/-- `DO_COMPARE` for an available class: a storage of the class that fits, or
nothing if none does. -/
theorem allocFrom_result (h : Layout lo hi shm frees av blocks [])
    (hapart : Apart shm.st blocks) {i : Nat} (hav : i ∈ av) (n : Nat) :
    (exists a shm', a ∈ frees i ∧ n ≤ (shm.st a).size ∧
        allocFrom shm i n = some (some (a + storageSize), Errno.none, shm') ∧
        (shm'.st a).alloc = true ∧ n ≤ (shm'.st a).size ∧
        (shm'.st a).size ≤ (shm.st a).size) ∨
      ((forall a, a ∈ frees i -> (shm.st a).size < n) ∧
        allocFrom shm i n = some (allocFailed shm Errno.allocFoundNoFixed)) := by
  obtain ⟨b, post, hfrees⟩ := List.exists_cons_of_ne_nil ((h.lists.mem_iff i).mp hav)
  have hring := h.lists.free i
  rw [hfrees, List.map_cons] at hring
  have hfuel : post.length < shm.stat.stCount := by
    have hle := h.length_free i
    rw [hfrees, List.length_cons] at hle
    omega
  have hlist : frees i = [] ++ b :: post := hfrees
  obtain ⟨r, hr, hfound⟩ := findFit_spec h.lists (n := n) hlist hfuel
  unfold allocFrom
  rw [hring.next_head, hr]
  cases r with
  | none =>
      right
      refine ⟨fun x hx => findFit_none h.lists hlist hr x ?_, rfl⟩
      rw [← hfrees]
      exact hx
  | some c =>
      left
      obtain ⟨hc, hsize⟩ := hfound c rfl
      obtain ⟨shm', frees', av', pre, post', heq, hblocks, hsize', hfree', -, hlayout,
        hapart', -⟩ := h.take_out hapart hc
      rw [← hsize'] at hsize
      obtain ⟨shm'', hstorage, -⟩ := allocStorage_spec hlayout hfree' hapart' hsize
      obtain ⟨halloc, hlo, hhi⟩ := allocStorage_size hsize hstorage
      refine ⟨c, shm'', hc, by rw [← hsize']; exact hsize, ?_, halloc, hlo, ?_⟩
      · simp only [heq, if_true, hstorage]
      · rw [← hsize']
        exact hhi

def IsFree (shm : ShmemT) (blocks : List Nat) (a : Nat) : Prop :=
  a ∈ blocks ∧ (shm.st a).alloc = false

/-- `dfs_shmem_alloc` ends; it fails only when no free storage has `n` bytes, and
changes nothing then but the number of failures; otherwise what it returns lies in
a storage that was free, and has `n` bytes. -/
structure AllocServes (shm : ShmemT) (blocks : List Nat) (n : Nat) : Prop where
  returns : exists r, alloc shm n = some r
  complete : forall e shm', alloc shm n = some (none, e, shm') ->
    forall a, IsFree shm blocks a -> (shm.st a).size < n
  inside : forall addr e shm', alloc shm n = some (some addr, e, shm') ->
    exists a, IsFree shm blocks a ∧ addr = a + storageSize ∧
      (shm'.st a).alloc = true ∧ n ≤ (shm'.st a).size ∧
      (shm'.st a).size ≤ (shm.st a).size
  unchanged : forall e shm', alloc shm n = some (none, e, shm') ->
    shm' = { shm with stat := { shm.stat with failed := shm.stat.failed + 1 } }

/-- The size belongs to a higher class, or the first class has no free storage, or
one that fits, or it has all of them. -/
def FirstClassServes (shm : ShmemT) (blocks : List Nat) (n : Nat) : Prop :=
  shm.minSize < n ∨
    (forall a, IsFree shm blocks a -> insertClass shm (shm.st a).size ≠ 0) ∨
    (exists a, IsFree shm blocks a ∧ insertClass shm (shm.st a).size = 0 ∧
      n ≤ (shm.st a).size) ∨
    forall a, IsFree shm blocks a -> insertClass shm (shm.st a).size = 0

theorem Layout.isFree_iff (h : Layout lo hi shm frees av blocks []) (a : Nat) :
    IsFree shm blocks a ↔ a ∈ frees (insertClass shm (shm.st a).size) := by
  constructor
  · rintro ⟨hmem, hfree⟩
    obtain ⟨j, hj⟩ := (h.listed a).mpr ⟨hmem, hfree, by simp⟩
    rw [← (h.lists.placed j a hj).2]
    exact hj
  · intro ha
    obtain ⟨hmem, hfree, -⟩ := (h.listed a).mp ⟨_, ha⟩
    exact ⟨hmem, hfree⟩

theorem Layout.isFree_of_mem (h : Layout lo hi shm frees av blocks []) {i : Nat}
    (ha : a ∈ frees i) : IsFree shm blocks a ∧ insertClass shm (shm.st a).size = i := by
  obtain ⟨hmem, hfree, -⟩ := (h.listed a).mp ⟨i, ha⟩
  exact ⟨⟨hmem, hfree⟩, (h.lists.placed i a ha).2.symm⟩

/-- The class that `dfs_shmem_alloc` scans; none when nothing is free. -/
inductive Scanned (shm : ShmemT) (frees : Nat -> List Nat) (av : List Nat) (n : Nat) :
    Option Nat -> Prop where
  | exhausted : av = [] -> Scanned shm frees av n none
  | same : getAllocIndex shm n ∈ av -> shm.maxAvailableIndex ∈ av ->
      getAllocIndex shm n < shm.maxAvailableIndex ->
      Scanned shm frees av n (some (getAllocIndex shm n))
  | above (i : Nat) : getAllocIndex shm n ∉ av -> getAllocIndex shm n < i ->
      Scanned shm frees av n (some i)
  | last : shm.maxAvailableIndex ∈ av ->
      shm.maxAvailableIndex ≤ getAllocIndex shm n ->
      Scanned shm frees av n (some shm.maxAvailableIndex)

theorem alloc_scanned (h : Layout lo hi shm frees av blocks []) (hn : 0 < n) :
    exists r, Scanned shm frees av n r ∧
      (r = none -> alloc shm n = some (allocFailed shm Errno.allocExhausted)) ∧
      forall i, r = some i -> i ∈ av ∧ alloc shm n = allocFrom shm i n := by
  unfold alloc
  rw [if_neg (by omega)]
  by_cases hmax : shm.maxAvailableIndex = shm.freeLen
  · have hav : av = [] := by
      cases hcases : av with
      | nil => rfl
      | cons i rest =>
          have hlast := h.lists.last
          have hlt : av.getLastD shm.freeLen < shm.freeLen := by
            refine h.lists.lt_freeLen _ ?_
            rw [hcases, List.getLastD_cons, ← List.getLast_eq_getLastD]
            exact List.getLast_mem (List.cons_ne_nil _ _)
          omega
    exact ⟨none, Scanned.exhausted hav, fun _ => by rw [if_pos hmax], by simp⟩
  rw [if_neg hmax]
  dsimp only
  have hlastmem := h.lists.max_mem hmax
  by_cases hlt : getAllocIndex shm n < shm.maxAvailableIndex
  · rw [if_pos hlt]
    by_cases hempty : shm.free.queueEmpty (QNode.head (getAllocIndex shm n)) = true
    · rw [if_neg (by simp [hempty]), h.lists.available.pointers_head.1]
      have hav : av = [] ++ av := (List.nil_append av).symm
      obtain ⟨r, hr, -⟩ := findClass_spec h.lists (getAllocIndex shm n)
        hav (Nat.lt_succ_of_le h.lists.length_available)
      obtain ⟨hsome, hnone⟩ := findClass_above h.lists h.freeLen.2 hav hr
      cases r with
      | none =>
          have hle := hnone rfl _ hlastmem
          omega
      | some i =>
          obtain ⟨hi, habove⟩ := hsome i rfl
          have hnot : getAllocIndex shm n ∉ av := by
            rw [h.lists.mem_iff, not_not, ← List.map_eq_nil_iff (f := QNode.entry)]
            exact (h.lists.free _).queueEmpty_iff.mp hempty
          refine ⟨some i, Scanned.above i hnot habove, by simp, ?_⟩
          rintro j ⟨⟩
          rw [hr]
          exact ⟨hi, rfl⟩
    · have hmem : getAllocIndex shm n ∈ av := by
        rw [h.lists.mem_iff]
        intro hnil
        exact hempty ((h.lists.free _).queueEmpty_iff.mpr (by rw [hnil]; rfl))
      rw [if_pos (by simp [hempty])]
      refine ⟨some _, Scanned.same hmem hlastmem hlt, by simp, ?_⟩
      rintro j ⟨⟩
      exact ⟨hmem, rfl⟩
  · have hfull : ¬ shm.free.queueEmpty (QNode.head shm.maxAvailableIndex) = true := by
      rw [(h.lists.free _).queueEmpty_iff, List.map_eq_nil_iff]
      exact (h.lists.mem_iff _).mp hlastmem
    rw [if_neg hlt, if_neg hfull]
    refine ⟨some _, Scanned.last hlastmem (Nat.le_of_not_lt hlt), by simp, ?_⟩
    rintro j ⟨⟩
    exact ⟨hlastmem, rfl⟩

theorem scanned_small (h : Layout lo hi shm frees av blocks []) (hgraded : Graded shm)
    {i : Nat} (hscanned : Scanned shm frees av n (some i)) (hi : i ∈ av)
    (hsmall : forall a, a ∈ frees i -> (shm.st a).size < n) :
    (forall a, IsFree shm blocks a -> (shm.st a).size < n) ∨
      (i = 0 ∧ n ≤ shm.minSize ∧ 0 < shm.maxAvailableIndex ∧
        shm.maxAvailableIndex ∈ av) := by
  obtain ⟨c, rest, hfrees⟩ := List.exists_cons_of_ne_nil ((h.lists.mem_iff i).mp hi)
  have hc : c ∈ frees i := by simp [hfrees]
  have hclass := (h.lists.placed i c hc).2
  have hcsmall := hsmall c hc
  have hindex : i ≤ getInsertIndex shm (shm.st c).size := by
    rw [hclass]
    exact Nat.min_le_left _ _
  -- a class from the alloc index on, and not the first one, has only sizes that fit
  have hfits : getAllocIndex shm n ≤ i -> 0 < i -> False := by
    intro hle hpos
    have hfit := hgraded.le_of_allocIndex_le (n := n) (m := (shm.st c).size)
      (by omega) (by omega)
    omega
  cases hscanned with
  | same hmem hlast hlt =>
      by_cases hzero : getAllocIndex shm n = 0
      · exact Or.inr ⟨hzero, hgraded.allocIndex_eq_zero.mp hzero, by omega, hlast⟩
      · exact absurd (hfits (Nat.le_refl _) (Nat.pos_of_ne_zero hzero)) id
  | above i _ hlt => exact absurd (hfits (Nat.le_of_lt hlt) (by omega)) id
  | last hmem hle =>
      left
      intro b hb
      by_contra hlarge
      have hbclass := (h.isFree_iff b).mp hb
      have hbav := h.lists.mem_available hbclass
      have hbmax := h.lists.le_max hbav
      have hmaxlt := h.lists.lt_freeLen _ hmem
      have hsucc := hgraded.allocIndex_le_succ (n := n) (m := (shm.st b).size)
        (Nat.le_of_not_lt hlarge)
      by_cases hsame : insertClass shm (shm.st b).size = shm.maxAvailableIndex
      · rw [hsame] at hbclass
        exact hlarge (hsmall b hbclass)
      · have hbindex : getInsertIndex shm (shm.st b).size =
            insertClass shm (shm.st b).size := by
          unfold insertClass at hsame hbmax ⊢
          omega
        exact hfits (by omega) (by omega)

theorem allocServes_iff_of_failed {e : Errno}
    (hres : alloc shm n = some (allocFailed shm e)) :
    AllocServes shm blocks n ↔ forall a, IsFree shm blocks a -> (shm.st a).size < n := by
  constructor
  · exact fun hserves => hserves.complete _ _ hres
  · intro hall
    constructor
    · exact ⟨_, hres⟩
    · exact fun _ _ _ => hall
    · intro addr e' shm' hok
      rw [hres] at hok
      cases hok
    · intro e' shm' hnull
      rw [hres] at hnull
      cases hnull
      rfl

theorem allocServes_of_found {e : Errno} {shm' : ShmemT} (hfree : IsFree shm blocks a)
    (hres : alloc shm n = some (some (a + storageSize), e, shm'))
    (halloc : (shm'.st a).alloc = true) (hlo : n ≤ (shm'.st a).size)
    (hhi : (shm'.st a).size ≤ (shm.st a).size) : AllocServes shm blocks n := by
  constructor
  · exact ⟨_, hres⟩
  · intro e' shm2 hnull
    rw [hres] at hnull
    cases hnull
  · intro addr e' shm2 hok
    rw [hres] at hok
    cases hok
    exact ⟨a, hfree, rfl, halloc, hlo, hhi⟩
  · intro e' shm2 hnull
    rw [hres] at hnull
    cases hnull

/-- Where the scanned class has a storage that fits, the first class is no obstacle. -/
theorem firstClassServes_of_fits (h : Layout lo hi shm frees av blocks [])
    (hgraded : Graded shm) {i : Nat} (hscanned : Scanned shm frees av n (some i))
    (ha : a ∈ frees i) (hsize : n ≤ (shm.st a).size) : FirstClassServes shm blocks n := by
  obtain ⟨hfree, hclass⟩ := h.isFree_of_mem ha
  by_cases hmin : shm.minSize < n
  · exact Or.inl hmin
  by_cases hzero : i = 0
  · exact Or.inr (Or.inr (Or.inl ⟨a, hfree, by rw [hclass, hzero], hsize⟩))
  -- the scanned class is the first one unless that is empty
  have hindex := hgraded.allocIndex_eq_zero.mpr (Nat.le_of_not_lt hmin)
  cases hscanned with
  | same _ _ _ => exact absurd hindex hzero
  | above i hnot hlt =>
      refine Or.inr (Or.inl fun b hb hbclass => hnot ?_)
      have hbmem := (h.isFree_iff b).mp hb
      rw [hindex, ← hbclass]
      exact h.lists.mem_available hbmem
  | last hmem hle => omega

/-- Where all free storages are smaller than `n`, the first class is no obstacle. -/
theorem firstClassServes_of_small
    (hall : forall a, IsFree shm blocks a -> (shm.st a).size < n) :
    FirstClassServes shm blocks n := by
  by_cases hmin : shm.minSize < n
  · exact Or.inl hmin
  · refine Or.inr (Or.inr (Or.inr fun a ha => ?_))
    have hsize := hall a ha
    unfold insertClass getInsertIndex
    rw [if_pos (by omega)]
    exact Nat.zero_min _

/-- Where the scanned class has nothing that fits, no class has, if the first one is no
obstacle. -/
theorem FirstClassServes.all_small (hfirst : FirstClassServes shm blocks n)
    (h : Layout lo hi shm frees av blocks []) (hgraded : Graded shm) {i : Nat}
    (hscanned : Scanned shm frees av n (some i)) (hi : i ∈ av)
    (hsmall : forall a, a ∈ frees i -> (shm.st a).size < n) :
    forall a, IsFree shm blocks a -> (shm.st a).size < n := by
  rcases scanned_small h hgraded hscanned hi hsmall with hall | ⟨hzero, hmin, hpos, hmax⟩
  · exact hall
  · subst hzero
    obtain ⟨c, rest, hfrees⟩ := List.exists_cons_of_ne_nil ((h.lists.mem_iff 0).mp hi)
    obtain ⟨d, rest', hfrees'⟩ :=
      List.exists_cons_of_ne_nil ((h.lists.mem_iff _).mp hmax)
    obtain ⟨hcfree, hcclass⟩ := h.isFree_of_mem (show c ∈ frees 0 by simp [hfrees])
    obtain ⟨hdfree, hdclass⟩ := h.isFree_of_mem
      (show d ∈ frees shm.maxAvailableIndex by simp [hfrees'])
    rcases hfirst with hlt | hempty | ⟨a, ha, haclass, hsize⟩ | honly
    · omega
    · exact absurd hcclass (hempty c hcfree)
    · have hamem := (h.isFree_iff a).mp ha
      rw [haclass] at hamem
      have := hsmall a hamem
      omega
    · have := honly d hdfree
      omega

/-- `dfs_shmem_alloc` serves a size exactly when the first class does not stand in
its way. -/
theorem allocServes_iff (h : Layout lo hi shm frees av blocks [])
    (hapart : Apart shm.st blocks) (hgraded : Graded shm) (hn : 0 < n) :
    AllocServes shm blocks n ↔ FirstClassServes shm blocks n := by
  obtain ⟨r, hscanned, hnone, hsome⟩ := alloc_scanned h hn
  cases r with
  | none =>
      have hav : av = [] := by
        cases hscanned with
        | exhausted hav => exact hav
      have hall : forall a, IsFree shm blocks a -> (shm.st a).size < n := by
        intro a ha
        have hmem := h.lists.mem_available ((h.isFree_iff a).mp ha)
        rw [hav] at hmem
        cases hmem
      rw [allocServes_iff_of_failed (hnone rfl)]
      exact ⟨firstClassServes_of_small, fun _ => hall⟩
  | some i =>
      obtain ⟨hi, heq⟩ := hsome i rfl
      rcases allocFrom_result h hapart hi n with
        ⟨a, shm', ha, hsize, hres, halloc, hlo, hhi⟩ | ⟨hsmall, hres⟩
      · rw [← heq] at hres
        constructor
        · exact fun _ => firstClassServes_of_fits h hgraded hscanned ha hsize
        · exact fun _ => allocServes_of_found (h.isFree_of_mem ha).1 hres halloc hlo hhi
      · rw [← heq] at hres
        rw [allocServes_iff_of_failed hres]
        constructor
        · exact firstClassServes_of_small
        · exact fun hfirst => hfirst.all_small h hgraded hscanned hi hsmall

section Created

variable {size minSize maxSize factor : Nat} {levelType : Int} {mmap : Bool}
  {s : System}

/-- In every state of a run a size is served exactly when the first class does not
stand in its way. -/
theorem alloc_serves_iff
    (hcreate : create size minSize maxSize levelType factor mmap =
      CreateResult.created shm) (hlen : shm.freeLen ≤ 2 ^ 32)
    (hrun : Reaches step Permitted ⟨shm, []⟩ s) :
    exists blocks, Ring s.shm.order (QNode.head 0) (blocks.map QNode.entry) ∧
      forall n, 0 < n ->
        (AllocServes s.shm blocks n ↔ FirstClassServes s.shm blocks n) := by
  obtain ⟨⟨frees, av, blocks, hlayout, hapart, -⟩, -⟩ :=
    reaches_consistent hcreate hlen hrun
  exact ⟨blocks, hlayout.storages.order, fun n hn =>
    allocServes_iff hlayout hapart (reaches_graded hcreate hrun) hn⟩

end Created

theorem alloc_serves_allocated :
    create 8192 8 64 0 8 true = CreateResult.created twoPages ∧
      exists s : System, Reaches step Permitted ⟨twoPages, []⟩ s ∧
        exists blocks, Ring s.shm.order (QNode.head 0) (blocks.map QNode.entry) ∧
          forall n, 0 < n ->
            (AllocServes s.shm blocks n ↔ FirstClassServes s.shm blocks n) := by
  have hrun : Reaches step Permitted ⟨twoPages, []⟩ _ :=
    ((Reaches.refl _).oneLabel (a := Call.alloc 100) trivial
      (by decide +kernel)).oneLabel (a := Call.splitAlloc true 50) trivial
      (by decide +kernel)
  have hcreate : create 8192 8 64 0 8 true = CreateResult.created twoPages := rfl
  exact ⟨hcreate, _, hrun, alloc_serves_iff hcreate (by decide +kernel) hrun⟩

theorem mem_blocks_of_prev {order : Links QNode}
    (hring : Ring order (QNode.head 0) (blocks.map QNode.entry))
    (ha : order.prev (QNode.head 0) = some (QNode.entry a)) : a ∈ blocks := by
  have hlast := hring.pointers_head.2
  rw [ha] at hlast
  cases blocks using List.reverseRecOn with
  | nil => cases hlast
  | append_singleton l b =>
      rw [List.map_append, List.map_singleton, List.getLastD_concat] at hlast
      cases hlast
      simp

/-- A free storage of one byte, between others in use, stands in the way of two
bytes although thousands are free. -/
theorem alloc_serves_one_byte :
    create 8192 8 64 0 8 true = CreateResult.created twoPages ∧
      exists s : System, Reaches step Permitted ⟨twoPages, []⟩ s ∧
        forall blocks, Ring s.shm.order (QNode.head 0) (blocks.map QNode.entry) ->
          ¬ AllocServes s.shm blocks 2 := by
  have hrun : Reaches step Permitted ⟨twoPages, []⟩ _ :=
    (((Reaches.refl _).oneLabel (a := Call.alloc 1) trivial
      (by decide +kernel)).oneLabel (a := Call.alloc 100) trivial
      (by decide +kernel)).oneLabel (a := Call.free 552) (by decide +kernel)
      (by decide +kernel)
  refine ⟨rfl, _, hrun, ?_⟩
  generalize hs : after step (after step (after step ⟨twoPages, []⟩
    [Call.alloc 1]) [Call.alloc 100]) [Call.free 552] = s
  have heval : s.shm.order.prev (QNode.head 0) = some (QNode.entry 717) ∧
      (s.shm.st 717).alloc = false ∧ (s.shm.st 717).size = 7411 ∧
      (alloc s.shm 2).map Prod.fst = some none := by
    rw [← hs]
    decide +kernel
  obtain ⟨hprev, hfree, hsize, hnull⟩ := heval
  intro blocks hring hserves
  obtain ⟨⟨addr, e, shm'⟩, hres, rfl⟩ := Option.map_eq_some_iff.mp hnull
  have hsmall := hserves.complete e shm' hres 717 ⟨mem_blocks_of_prev hring hprev, hfree⟩
  omega

end Shmem
end NgxEpoll
