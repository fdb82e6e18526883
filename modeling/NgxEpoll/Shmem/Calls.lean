import NgxEpoll.Shmem.Layout

/-!
# The calls of the shared memory allocator

What `dfs_shmem_alloc`, `dfs_shmem_split_alloc` and `dfs_shmem_free` keep, and that
they come to an end.

## A storage used whole or split
-/

namespace NgxEpoll
namespace Shmem

open Foundation NgxEpoll.Core

variable {lo hi : Nat} {shm : ShmemT} {frees : Nat -> List Nat} {av : List Nat}
  {blocks pre post : List Nat} {a b : Nat}

theorem Blocks.inner_not_mem (h : Blocks lo hi shm (pre ++ a :: post)) {n : Nat}
    (hroom : n + storageSize ≤ (shm.st a).size) :
    a + storageSize + n ∉ pre ++ a :: post := by
  obtain ⟨hbefore, hafter⟩ := h.tiles.apart
  unfold width storageSize at *
  intro hmem
  rcases List.mem_append.mp hmem with hmem | hmem
  · have := hbefore _ hmem
    omega
  · rcases List.mem_cons.mp hmem with heq | hmem
    · omega
    · have := hafter _ hmem
      omega

theorem entry_not_mem_ring {l : List Nat} {i : Nat} (h : b ∉ l) :
    QNode.entry b ∉ QNode.head i :: l.map QNode.entry := by
  intro hmem
  rcases List.mem_cons.mp hmem with heq | hmem
  · cases heq
  · obtain ⟨x, hx, heq⟩ := List.mem_map.mp hmem
    exact h (QNode.entry.inj heq ▸ hx)

def splitState (shm : ShmemT) (a n : Nat) : ShmemT :=
  let b := QNode.entry (a + storageSize + n)
  { shm with
    st := Function.update
      (Function.update shm.st (a + storageSize + n)
        { shm.st a with size := (shm.st a).size - (n + storageSize) })
      a { shm.st a with alloc := true, size := n }
    order :=
      ((Links.queueInsertBefore
        ⟨Function.update shm.order.next b (shm.order.next (QNode.entry a)),
          Function.update shm.order.prev b (shm.order.prev (QNode.entry a))⟩
        b (QNode.entry a)).queueRemove b).queueInsertAfter (QNode.entry a) b
    free :=
      ⟨Function.update shm.free.next b (shm.free.next (QNode.entry a)),
        Function.update shm.free.prev b (shm.free.prev (QNode.entry a))⟩ }

def splitDone (shm : ShmemT) (a n : Nat) : ShmemT :=
  { shm with
    st := Function.update shm.st a { shm.st a with actSize := n }
    stat := { shm.stat with
      usedSize := shm.stat.usedSize + (shm.st a).size
      reqsSize := shm.stat.reqsSize + n
      stCount := shm.stat.stCount + 1 } }

theorem allocStorage_eq_split {n : Nat}
    (hsplit : ¬ (shm.st a).size - n < (storageSize + shm.splitThreshold) % 2 ^ 64) :
    allocStorage shm a n =
      (insertFree (splitState shm a n) (a + storageSize + n)).map fun shm' =>
        (some (a + storageSize), Errno.none, splitDone shm' a n) := by
  dsimp only [allocStorage, splitState]
  rw [if_neg hsplit]
  cases insertFree _ _ with
  | none => rfl
  | some shm' => rfl

theorem splitState_lists (h : Layout lo hi shm frees av (pre ++ a :: post) [a]) {n : Nat}
    (hroom : n + storageSize ≤ (shm.st a).size) :
    Lists (splitState shm a n) frees av ∧ forall i, a + storageSize + n ∉ frees i := by
  have hbnot := h.storages.inner_not_mem hroom
  have hafrees := h.not_listed (Or.inr (List.mem_cons_self ..))
  have hbfrees : forall i, a + storageSize + n ∉ frees i :=
    fun i hmem => hbnot ((h.listed _).mp ⟨i, hmem⟩).1
  refine ⟨h.lists.congr ?_ rfl rfl rfl (fun _ => rfl) ?_, hbfrees⟩
  · intro i
    refine (h.lists.free i).congr ?_ ?_
    · intro q hq
      refine Function.update_of_ne ?_ _ _
      rintro rfl
      exact entry_not_mem_ring (hbfrees i) hq
    · intro q hq
      refine Function.update_of_ne ?_ _ _
      rintro rfl
      exact entry_not_mem_ring (hbfrees i) hq
  · intro i x hx
    have hxa : x ≠ a := fun heq => hafrees i (heq ▸ hx)
    have hxb : x ≠ a + storageSize + n := fun heq => hbfrees i (heq ▸ hx)
    simp [splitState, hxa, hxb]

theorem splitDone_st (shm : ShmemT) (a n : Nat) (head : Option Nat)
    (free available : Links QNode) (max : Nat) :
    let shm' := splitDone
      (relisted (splitState shm a n) (a + storageSize + n) head free available max) a n
    ((shm'.st a).alloc = true ∧ (shm'.st a).size = n ∧ (shm'.st a).actSize = n) ∧
      ((shm'.st (a + storageSize + n)).alloc = (shm.st a).alloc ∧
        (shm'.st (a + storageSize + n)).size =
          (shm.st a).size - (n + storageSize)) ∧
      forall x, x ≠ a -> x ≠ a + storageSize + n -> shm'.st x = shm.st x := by
  have hba : a + storageSize + n ≠ a := by
    unfold storageSize
    omega
  refine ⟨?_, ?_, ?_⟩
  · simp [splitDone, relisted, splitState, Ne.symm hba]
  · simp [splitDone, relisted, splitState, hba]
  · intro x hxa hxb
    simp [splitDone, relisted, splitState, hxa, hxb]

theorem allocStorage_split (h : Layout lo hi shm frees av (pre ++ a :: post) [a])
    (hfree : (shm.st a).alloc = false) {n : Nat}
    (hroom : n + storageSize ≤ (shm.st a).size)
    (hsplit : ¬ (shm.st a).size - n < (storageSize + shm.splitThreshold) % 2 ^ 64) :
    exists shm' frees' av',
      allocStorage shm a n = some (some (a + storageSize), Errno.none, shm') ∧
      Layout lo hi shm' frees' av' (pre ++ a :: (a + storageSize + n) :: post) [] ∧
      (shm'.st a).alloc = true ∧ (shm'.st (a + storageSize + n)).alloc = false ∧
      forall x, x ≠ a -> x ≠ a + storageSize + n ->
        (shm'.st x).alloc = (shm.st x).alloc := by
  have hbnot := h.storages.inner_not_mem hroom
  obtain ⟨hlists, hbfrees⟩ := splitState_lists h hroom
  have hafrees := h.not_listed (Or.inr (List.mem_cons_self ..))
  have hba : a + storageSize + n ≠ a := by
    unfold storageSize
    omega
  have hbfree : ((splitState shm a n).st (a + storageSize + n)).alloc = false := by
    simp [splitState, hba, hfree]
  obtain ⟨free, available, max, av', heq, hlists'⟩ :=
    insertFree_spec hlists h.freeLen.2 h.freeLen.1 hbfree rfl hbfrees
  generalize insertClass (splitState shm a n)
    ((splitState shm a n).st (a + storageSize + n)).size = i at heq hlists'
  have hst := splitDone_st shm a n (some i) free available max
  rw [allocStorage_eq_split hsplit, heq]
  generalize hshm' : splitDone (relisted (splitState shm a n) (a + storageSize + n)
    (some i) free available max) a n = shm' at hst
  obtain ⟨hsta, hstb, hstx⟩ := hst
  refine ⟨shm', Function.update frees i ((a + storageSize + n) :: frees i), av', ?_,
    ?_, hsta.1, hstb.1.trans hfree, fun x hxa hxb => by rw [hstx x hxa hxb]⟩
  · rw [Option.map_some, hshm']
  refine
    { storages := ?_
      lists := ?_
      listed := ?_
      freeLen := hshm' ▸ h.freeLen
      threshold := hshm' ▸ h.threshold }
  · refine h.storages.split hfree hroom rfl ?_ hstx hsta ⟨hstb.1.trans hfree, hstb.2⟩ ?_
    · have hring := h.storages.order
      have hfresh := entry_not_mem_ring (i := 0) hbnot
      rw [List.map_append, List.map_cons] at hring hfresh
      rw [← hshm', List.map_append, List.map_cons, List.map_cons]
      exact hring.relink hfresh
    · rw [← hshm']
      simp [splitDone, relisted, splitState, Ne.symm hba]
  · subst hshm'
    refine hlists'.congr hlists'.free rfl rfl rfl (fun _ => rfl) ?_
    intro j x hx
    have hxa : x ≠ a := by
      rintro rfl
      by_cases hji : j = i
      · subst hji
        rw [Function.update_self, List.mem_cons] at hx
        exact hx.elim (fun heq => hba heq.symm) (hafrees j)
      · rw [Function.update_of_ne hji] at hx
        exact hafrees j hx
    simp [splitDone, hxa]
  · intro x
    rw [listed_cons, h.listed x]
    by_cases hxa : x = a
    · subst hxa
      simp [hsta.1, Ne.symm hba]
    · by_cases hxb : x = a + storageSize + n
      · subst hxb
        simp [hstb.1, hfree]
      · simp [hstx x hxa hxb, hxa, hxb]

/-!
## The invariant between calls
-/

def InUse (shm : ShmemT) (blocks : List Nat) (a : Nat) : Prop :=
  a ∈ blocks ∧ (shm.st a).alloc = true

/-- Between calls no free storage is loose, no two neighbours are free, and the
allocated storages are those in `used`. -/
def Sound (lo hi : Nat) (shm : ShmemT) (used : Nat -> Prop) : Prop :=
  exists frees av blocks, Layout lo hi shm frees av blocks [] ∧ Apart shm.st blocks ∧
    forall a, InUse shm blocks a ↔ used a

theorem Apart.mono {st st' : Nat -> Storage}
    (hst : forall x, x ∈ blocks -> (st x).alloc = true -> (st' x).alloc = true)
    (h : Apart st blocks) : Apart st' blocks := by
  refine List.IsChain.imp_of_mem_imp ?_ h
  intro x y hx hy hor
  exact hor.imp (hst x hx) (hst y hy)

theorem Apart.around {st : Nat -> Storage} (h : Apart st (pre ++ a :: post))
    (hfree : (st a).alloc = false) :
    Apart st pre ∧ Apart st post ∧
      (forall x, x ∈ pre.getLast? -> (st x).alloc = true) ∧
      forall y, y ∈ post.head? -> (st y).alloc = true := by
  obtain ⟨hpre, hrest, hjoin⟩ := List.isChain_append.mp h
  obtain ⟨hhead, hpost⟩ := List.isChain_cons.mp hrest
  refine ⟨hpre, hpost, ?_, ?_⟩
  · intro x hx
    have hor := hjoin x hx a (by simp)
    rw [hfree] at hor
    simpa using hor
  · intro y hy
    have hor := hhead y hy
    rw [hfree] at hor
    simpa using hor

theorem Apart.join {st : Nat -> Storage} (hpre : Apart st pre) (hpost : Apart st post)
    (hlast : forall x, x ∈ pre.getLast? -> (st x).alloc = true)
    (hfirst : forall y, y ∈ post.head? -> (st y).alloc = true) :
    Apart st (pre ++ a :: post) := by
  refine List.isChain_append.mpr ⟨hpre, List.isChain_cons.mpr ⟨?_, hpost⟩, ?_⟩
  · exact fun y hy => Or.inr (hfirst y hy)
  · exact fun x hx y _ => Or.inl (hlast x hx)

theorem allocStorage_spec (h : Layout lo hi shm frees av (pre ++ a :: post) [a])
    (hfree : (shm.st a).alloc = false) (hapart : Apart shm.st (pre ++ a :: post))
    {n : Nat} (hn : n ≤ (shm.st a).size) :
    exists shm', allocStorage shm a n = some (some (a + storageSize), Errno.none, shm') ∧
      Sound lo hi shm' fun x => x = a ∨ InUse shm (pre ++ a :: post) x := by
  by_cases hsplit : (shm.st a).size - n < (storageSize + shm.splitThreshold) % 2 ^ 64
  · dsimp only [allocStorage]
    rw [if_pos hsplit]
    refine ⟨_, rfl, frees, av, pre ++ a :: post, h.take hfree n, ?_, ?_⟩
    · refine hapart.mono fun x _ hx => ?_
      by_cases hxa : x = a
      · simp [hxa]
      · simpa [hxa] using hx
    · intro x
      unfold InUse
      by_cases hxa : x = a
      · simp [hxa]
      · simp [hxa]
  · have hroom : n + storageSize ≤ (shm.st a).size := by
      rw [Nat.mod_eq_of_lt h.threshold] at hsplit
      omega
    have hbnot := h.storages.inner_not_mem hroom
    obtain ⟨shm', frees', av', heq, hlayout, hsta, hstb, hstx⟩ :=
      allocStorage_split h hfree hroom hsplit
    refine ⟨shm', heq, frees', av', _, hlayout, ?_, ?_⟩
    · obtain ⟨hpre, hpost, hlast, hfirst⟩ := hapart.around hfree
      have hkeep : forall x, (shm.st x).alloc = true -> x ∈ pre ++ a :: post ->
          (shm'.st x).alloc = true := by
        intro x hx hmem
        by_cases hxa : x = a
        · rw [hxa]
          exact hsta
        · rw [hstx x hxa (fun heq => hbnot (heq ▸ hmem))]
          exact hx
      have hpre' : Apart shm'.st (pre ++ [a]) := by
        refine Apart.join ?_ List.IsChain.nil ?_ (by simp)
        · exact hpre.mono fun x hx halloc => hkeep x halloc (by simp [hx])
        · intro x hx
          exact hkeep x (hlast x hx) (by simp [List.mem_of_getLast? hx])
      have hjoined : Apart shm'.st ((pre ++ [a]) ++ (a + storageSize + n) :: post) := by
        refine hpre'.join ?_ ?_ ?_
        · exact hpost.mono fun x hx halloc => hkeep x halloc (by simp [hx])
        · simp [hsta]
        · intro y hy
          exact hkeep y (hfirst y hy) (by simp [List.mem_of_head? hy])
      rwa [List.append_assoc] at hjoined
    · intro x
      unfold InUse
      by_cases hxa : x = a
      · simp [hxa, hsta]
      · by_cases hxb : x = a + storageSize + n
        · subst hxb
          simp only [hstb, List.mem_append, List.mem_cons] at hbnot ⊢
          tauto
        · simp [hxa, hxb, hstx x hxa hxb]

/-!
## Searches
-/

theorem findFit_fits {i n fuel : Nat} (ha : a ∈ frees i) (hle : n ≤ (shm.st a).size) :
    exists r, findFit shm i n (fuel + 1) (some (QNode.entry a)) = some r ∧
      forall x, r = some x -> x ∈ frees i ∧ n ≤ (shm.st x).size := by
  refine ⟨some a, ?_, ?_⟩
  · unfold findFit
    rw [if_pos hle]
  · intro x hx
    cases hx
    exact ⟨ha, hle⟩

theorem findFit_spec (h : Lists shm frees av) {i n fuel : Nat}
    (hfrees : frees i = pre ++ a :: post) (hfuel : post.length < fuel) :
    exists r, findFit shm i n fuel (some (QNode.entry a)) = some r ∧
      forall x, r = some x -> x ∈ frees i ∧ n ≤ (shm.st x).size := by
  induction post generalizing pre a fuel with
  | nil =>
      obtain ⟨fuel, rfl⟩ : exists f, fuel = f + 1 := ⟨fuel - 1, by omega⟩
      have hring := h.free i
      rw [hfrees, List.map_append, List.map_cons] at hring
      by_cases hle : n ≤ (shm.st a).size
      · exact findFit_fits (by simp [hfrees]) hle
      · exact ⟨none, by simp [findFit, hle, hring.pointers.1], by simp⟩
  | cons b post ih =>
      obtain ⟨fuel, rfl⟩ : exists f, fuel = f + 1 := ⟨fuel - 1, by omega⟩
      have hring := h.free i
      rw [hfrees, List.map_append, List.map_cons] at hring
      by_cases hle : n ≤ (shm.st a).size
      · exact findFit_fits (by simp [hfrees]) hle
      · rw [List.length_cons] at hfuel
        have hrest := ih (show frees i = (pre ++ [a]) ++ b :: post by simp [hfrees])
          (show post.length < fuel by omega)
        simpa [findFit, hle, hring.pointers.1] using hrest

theorem findMax_spec (h : Lists shm frees av) {i fuel m : Nat}
    (hfrees : frees i = pre ++ post) (hm : m ∈ frees i) (hfuel : post.length < fuel) :
    exists x, findMax shm i fuel m
        (some ((post.map QNode.entry).headD (QNode.head i))) = some x ∧ x ∈ frees i := by
  induction post generalizing pre m fuel with
  | nil =>
      refine ⟨m, ?_, hm⟩
      cases fuel <;> rfl
  | cons a post ih =>
      obtain ⟨fuel, rfl⟩ : exists f, fuel = f + 1 := ⟨fuel - 1, by omega⟩
      have hring := h.free i
      rw [hfrees, List.map_append, List.map_cons] at hring
      rw [List.length_cons] at hfuel
      have hmem : (if (shm.st m).size < (shm.st a).size then a else m) ∈ frees i := by
        split
        · simp [hfrees]
        · exact hm
      have hrest := ih (show frees i = (pre ++ [a]) ++ post by simp [hfrees]) hmem
        (show post.length < fuel by omega)
      simpa [findMax, hring.pointers.1] using hrest

theorem findClass_spec (h : Lists shm frees av) (index : Nat) {fuel : Nat}
    (hav : av = pre ++ post) (hfuel : post.length < fuel) :
    exists r, findClass shm index fuel
        (some ((post.map QNode.entry).headD (QNode.head 0))) = some r ∧
      forall i, r = some i -> i ∈ av := by
  induction post generalizing pre fuel with
  | nil =>
      refine ⟨none, ?_, by simp⟩
      cases fuel <;> rfl
  | cons j post ih =>
      obtain ⟨fuel, rfl⟩ : exists f, fuel = f + 1 := ⟨fuel - 1, by omega⟩
      have hring := h.available
      rw [hav, List.map_append, List.map_cons] at hring
      rw [List.length_cons] at hfuel
      by_cases hhit : !shm.free.queueEmpty (QNode.head j) ∧ index < freeIndex j
      · refine ⟨some j, ?_, ?_⟩
        · rw [List.map_cons, List.headD_cons]
          simp only [findClass]
          rw [if_pos hhit]
        · rintro x ⟨⟩
          simp [hav]
      · have hrest := ih (show av = (pre ++ [j]) ++ post by simp [hav])
          (show post.length < fuel by omega)
        rw [List.map_cons, List.headD_cons]
        simp only [findClass]
        rw [if_neg hhit, hring.pointers.1]
        exact hrest

theorem Layout.length_free (h : Layout lo hi shm frees av blocks []) (i : Nat) :
    (frees i).length ≤ shm.stat.stCount := by
  rw [h.storages.stCount]
  refine ((h.lists.nodup i).subperm ?_).length_le
  exact fun x hx => ((h.listed x).mp ⟨i, hx⟩).1

/-!
## Allocation
-/

def Errno.damaged : Errno -> Bool
  | Errno.allocMaxAvailableEmpty
  | Errno.allocRemoveFree
  | Errno.getMaxCritical
  | Errno.splitAllocRemoveFree
  | Errno.freeRemoveNext
  | Errno.freeRemovePrev => true
  | _ => false

/-- Other counters than those of the storages do not matter, nor does the
threshold. -/
theorem Layout.tune {loose : List Nat} (h : Layout lo hi shm frees av blocks loose)
    (failed splitFailed split : Nat) {threshold : Nat}
    (hthreshold : storageSize + threshold < 2 ^ 64) :
    Layout lo hi
      { shm with
        splitThreshold := threshold
        stat := { shm.stat with
          failed := failed, splitFailed := splitFailed, split := split } }
      frees av blocks loose :=
  { storages :=
      { order := h.storages.order
        tiles := h.storages.tiles
        systemSize := h.storages.systemSize
        totalSize := h.storages.totalSize
        stCount := h.storages.stCount
        usedSize := h.storages.usedSize
        reqsSize := h.storages.reqsSize }
    lists := h.lists.congr h.lists.free rfl rfl rfl (fun _ => rfl)
      fun _ _ _ => ⟨rfl, rfl⟩
    listed := h.listed
    freeLen := h.freeLen
    threshold := hthreshold }

/-- A call that hands out `addr`, or nothing. -/
def Handed (lo hi : Nat) (shm' : ShmemT) (used : Nat -> Prop) (addr : Option Nat) :
    Prop :=
  (forall x, addr = some x -> exists a, x = a + storageSize ∧ ¬ used a) ∧
    Sound lo hi shm' fun x => used x ∨ addr = some (x + storageSize)

theorem allocFailed_handed (h : Layout lo hi shm frees av blocks [])
    (hapart : Apart shm.st blocks) (e : Errno) :
    Handed lo hi (allocFailed shm e).2.2 (InUse shm blocks) none := by
  refine ⟨by simp, frees, av, blocks, h.tune _ _ _ h.threshold, hapart, ?_⟩
  intro x
  simp [InUse, allocFailed]

theorem Layout.take_out (h : Layout lo hi shm frees av blocks [])
    (hapart : Apart shm.st blocks) {i : Nat} (ha : a ∈ frees i) :
    exists shm' frees' av' pre post, removeFree shm a = (true, shm') ∧
      blocks = pre ++ a :: post ∧ (shm'.st a).size = (shm.st a).size ∧
      (shm'.st a).alloc = false ∧ ¬ InUse shm blocks a ∧
      Layout lo hi shm' frees' av' (pre ++ a :: post) [a] ∧
      Apart shm'.st (pre ++ a :: post) ∧
      forall x, InUse shm' (pre ++ a :: post) x ↔ InUse shm blocks x := by
  obtain ⟨hmem, hfree, hloose⟩ := (h.listed a).mp ⟨i, ha⟩
  obtain ⟨free, available, max, frees', av', heq, hlayout⟩ :=
    h.remove hmem hfree hloose
  obtain ⟨pre, post, rfl⟩ := List.append_of_mem hmem
  have hst := relisted_st shm a none free available max
  refine ⟨_, frees', av', pre, post, heq, rfl, (hst a).2.1, (hst a).1.trans hfree, ?_,
    hlayout, ?_, ?_⟩
  · rintro ⟨-, halloc⟩
    rw [hfree] at halloc
    cases halloc
  · exact hapart.mono fun x _ hx => (hst x).1.trans hx
  · intro x
    unfold InUse
    rw [(hst x).1]

theorem allocFrom_spec (h : Layout lo hi shm frees av blocks [])
    (hapart : Apart shm.st blocks) {i : Nat} (hav : i ∈ av) (n : Nat) :
    exists addr e shm', allocFrom shm i n = some (addr, e, shm') ∧
      e.damaged = false ∧ Handed lo hi shm' (InUse shm blocks) addr := by
  obtain ⟨a, post, hfrees⟩ := List.exists_cons_of_ne_nil ((h.lists.mem_iff i).mp hav)
  have hring := h.lists.free i
  rw [hfrees, List.map_cons] at hring
  have hfuel : post.length < shm.stat.stCount := by
    have hle := h.length_free i
    rw [hfrees, List.length_cons] at hle
    omega
  obtain ⟨r, hr, hfound⟩ := findFit_spec h.lists (n := n)
    (show frees i = [] ++ a :: post from hfrees) hfuel
  unfold allocFrom
  rw [hring.next_head, hr]
  cases r with
  | none =>
      exact ⟨none, _, _, rfl, rfl,
        allocFailed_handed h hapart Errno.allocFoundNoFixed⟩
  | some b =>
      obtain ⟨hb, hsize⟩ := hfound b rfl
      obtain ⟨shm', frees', av', pre, post, heq, rfl, hsize', hfree', hunused, hlayout,
        hapart', huse⟩ := h.take_out hapart hb
      rw [← hsize'] at hsize
      obtain ⟨shm'', hstorage, hsound⟩ := allocStorage_spec hlayout hfree' hapart' hsize
      dsimp only
      rw [heq, if_pos rfl, hstorage]
      refine ⟨_, _, _, rfl, rfl, ?_, ?_⟩
      · rintro x ⟨⟩
        exact ⟨b, rfl, hunused⟩
      · obtain ⟨frees2, av2, blocks2, hlayout2, hapart2, huse2⟩ := hsound
        refine ⟨frees2, av2, blocks2, hlayout2, hapart2, ?_⟩
        intro x
        rw [huse2 x]
        dsimp only
        rw [huse x]
        simp [eq_comm, or_comm]

theorem alloc_spec {used : Nat -> Prop} (h : Sound lo hi shm used) (n : Nat) :
    exists addr e shm', alloc shm n = some (addr, e, shm') ∧ e.damaged = false ∧
      Handed lo hi shm' used addr := by
  obtain ⟨frees, av, blocks, hlayout, hapart, huse⟩ := h
  obtain rfl : InUse shm blocks = used := funext fun x => propext (huse x)
  unfold alloc
  by_cases hn : n = 0
  · rw [if_pos hn]
    refine ⟨none, _, shm, rfl, rfl, by simp, frees, av, blocks, hlayout, hapart, ?_⟩
    simp
  rw [if_neg hn]
  by_cases hmax : shm.maxAvailableIndex = shm.freeLen
  · rw [if_pos hmax]
    exact ⟨none, _, _, rfl, rfl,
      allocFailed_handed hlayout hapart Errno.allocExhausted⟩
  rw [if_neg hmax]
  dsimp only
  by_cases hlt : getAllocIndex shm n < shm.maxAvailableIndex
  · rw [if_pos hlt]
    by_cases hempty : shm.free.queueEmpty (QNode.head (getAllocIndex shm n)) = true
    · rw [if_neg (by simp [hempty]), hlayout.lists.available.pointers_head.1]
      obtain ⟨r, hr, hfound⟩ := findClass_spec hlayout.lists (getAllocIndex shm n)
        (List.nil_append av).symm (Nat.lt_succ_of_le hlayout.lists.length_available)
      rw [hr]
      cases r with
      | some i => exact allocFrom_spec hlayout hapart (hfound i rfl) n
      | none =>
          refine ⟨none, _, _, rfl, ?_, allocFailed_handed hlayout hapart
            (if shm.available.queueEmpty (QNode.head 0) then
              Errno.allocNoAvailableFreeList
            else Errno.allocNoFixedFreeSpace)⟩
          split
          · rfl
          · rfl
    · rw [if_pos (by simp [hempty])]
      refine allocFrom_spec hlayout hapart ((hlayout.lists.mem_iff _).mpr ?_) n
      intro hnil
      exact hempty ((hlayout.lists.free _).queueEmpty_iff.mpr (by rw [hnil]; rfl))
  · rw [if_neg hlt]
    have hmem := hlayout.lists.max_mem hmax
    have hfull : ¬ shm.free.queueEmpty (QNode.head shm.maxAvailableIndex) = true := by
      rw [(hlayout.lists.free _).queueEmpty_iff, List.map_eq_nil_iff]
      exact (hlayout.lists.mem_iff _).mp hmem
    rw [if_neg hfull]
    exact allocFrom_spec hlayout hapart hmem n

theorem getMaxSt_spec (h : Layout lo hi shm frees av blocks []) :
    getMaxSt shm = some (Except.error Errno.getMaxExhausted) ∨
      exists a i, getMaxSt shm = some (Except.ok a) ∧ a ∈ frees i := by
  unfold getMaxSt
  split
  · exact Or.inl rfl
  · rename_i hne
    rw [h.lists.available.queueEmpty_iff, List.map_eq_nil_iff] at hne
    have hav : av ≠ [] := fun heq => hne (Or.inr heq)
    obtain ⟨l, i, rfl⟩ : exists l i, av = l ++ [i] :=
      ⟨_, _, (List.dropLast_append_getLast hav).symm⟩
    have hmem := (h.lists.mem_iff i).mp (by simp)
    have hfull : ¬ shm.free.queueEmpty (QNode.head i) = true := by
      rw [(h.lists.free i).queueEmpty_iff, List.map_eq_nil_iff]
      exact hmem
    obtain ⟨a, post, hfrees⟩ := List.exists_cons_of_ne_nil hmem
    have hring := h.lists.free i
    have hring' : Ring shm.free (QNode.head i)
        ([] ++ QNode.entry a :: post.map QNode.entry) := by
      rw [hfrees] at hring
      exact hring
    have hfuel : post.length < shm.stat.stCount := by
      have hle := h.length_free i
      rw [hfrees, List.length_cons] at hle
      omega
    obtain ⟨x, hx, hxmem⟩ := findMax_spec h.lists
      (show frees i = [a] ++ post from hfrees) (show a ∈ frees i by simp [hfrees]) hfuel
    refine Or.inr ⟨x, i, ?_, hxmem⟩
    rw [h.lists.available.pointers_head.2, List.map_append, List.map_singleton,
      List.getLastD_concat]
    dsimp only
    rw [if_neg hfull, hring'.next_head]
    dsimp only
    rw [hring'.pointers.1, hx]
    rfl

theorem splitFailed_handed (h : Layout lo hi shm frees av blocks [])
    (hapart : Apart shm.st blocks) (e : Errno) :
    Handed lo hi (splitFailed shm e).2.2 (InUse shm blocks) none := by
  refine ⟨by simp, frees, av, blocks, h.tune _ _ _ h.threshold, hapart, ?_⟩
  intro x
  simp [InUse, splitFailed]

theorem splitMax_spec (h : Layout lo hi shm frees av blocks [])
    (hapart : Apart shm.st blocks) (n : Nat) :
    exists r e shm', splitMax shm n = some (r, e, shm') ∧ e.damaged = false ∧
      Handed lo hi shm' (InUse shm blocks) (r.map Prod.fst) := by
  unfold splitMax
  rcases getMaxSt_spec h with hnone | ⟨a, i, hmax, ha⟩
  · rw [hnone]
    exact ⟨none, _, _, rfl, rfl,
      splitFailed_handed h hapart Errno.getMaxExhausted⟩
  · rw [hmax]
    dsimp only
    by_cases hsmall : (shm.st a).size < n
    · rw [if_pos hsmall]
      exact ⟨none, _, _, rfl, rfl,
        splitFailed_handed h hapart Errno.splitAllocNoFixedReqMinsize⟩
    · rw [if_neg hsmall]
      obtain ⟨shm', frees', av', pre, post, heq, rfl, -, hfree', hunused, hlayout',
        hapart', huse'⟩ := h.take_out hapart ha
      rw [heq, if_pos rfl]
      dsimp only
      refine ⟨_, _, _, rfl, rfl, ?_, frees', av', pre ++ a :: post,
        hlayout'.take hfree' _, ?_, ?_⟩
      · rintro x ⟨⟩
        exact ⟨a, rfl, hunused⟩
      · refine hapart'.mono fun x _ hx => ?_
        by_cases hxa : x = a
        · simp [hxa]
        · simpa [hxa] using hx
      · intro x
        dsimp only
        rw [← huse' x]
        unfold InUse
        by_cases hxa : x = a
        · simp [hxa]
        · simp [hxa, Ne.symm hxa]

theorem splitAlloc_spec {used : Nat -> Prop} (h : Sound lo hi shm used) (actSize : Bool)
    (n : Nat) :
    exists r e shm', splitAlloc shm actSize n = some (r, e, shm') ∧ e.damaged = false ∧
      Handed lo hi shm' used (r.map Prod.fst) := by
  obtain ⟨frees, av, blocks, hlayout, hapart, huse⟩ := h
  obtain rfl : InUse shm blocks = used := funext fun x => propext (huse x)
  unfold splitAlloc
  cases actSize with
  | true =>
      exact splitMax_spec (hlayout.tune shm.stat.failed shm.stat.splitFailed
        (shm.stat.split + 1) hlayout.threshold) hapart n
  | false =>
      refine ⟨none, _, shm, rfl, rfl, by simp, frees, av, blocks, hlayout, hapart, ?_⟩
      simp

end Shmem
end NgxEpoll
