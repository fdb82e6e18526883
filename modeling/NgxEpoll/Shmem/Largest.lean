import NgxEpoll.Shmem.Choice

/-!
# Which storage `dfs_shmem_split_alloc` chooses

The call scans the list of the last available class, and no free storage of
another class is larger than the ones there.
-/

namespace NgxEpoll
namespace Shmem

open Foundation NgxEpoll.Core

variable {shm : ShmemT} {n m lo hi a : Nat} {frees : Nat -> List Nat}
  {av blocks pre post : List Nat}

theorem findMax_ge (h : Lists shm frees av) {i fuel x : Nat}
    (hfrees : frees i = pre ++ post)
    (hfound : findMax shm i fuel m
      (some ((post.map QNode.entry).headD (QNode.head i))) = some x) :
    (shm.st m).size ≤ (shm.st x).size ∧
      forall y, y ∈ post -> (shm.st y).size ≤ (shm.st x).size := by
  induction post generalizing pre m fuel with
  | nil =>
      have heq : m = x := by
        cases fuel with
        | zero => exact Option.some.inj hfound
        | succ fuel => exact Option.some.inj hfound
      rw [heq]
      exact ⟨Nat.le_refl _, by simp⟩
  | cons a post ih =>
      have hring := h.free i
      rw [hfrees, List.map_append, List.map_cons] at hring
      cases fuel with
      | zero => cases hfound
      | succ fuel =>
          simp only [List.map_cons, List.headD_cons, findMax] at hfound
          rw [hring.pointers.1] at hfound
          obtain ⟨hmax, hrest⟩ := ih
            (show frees i = (pre ++ [a]) ++ post by simp [hfrees]) hfound
          have hboth : (shm.st m).size ≤ (shm.st x).size ∧
              (shm.st a).size ≤ (shm.st x).size := by
            split at hmax
            · omega
            · omega
          refine ⟨hboth.1, fun y hy => ?_⟩
          rcases List.mem_cons.mp hy with rfl | hy
          · exact hboth.2
          · exact hrest y hy

/-- `dfs_shmem_split_alloc` ends; it fails only when no free storage has
`reqMinsize` bytes, and otherwise hands out a largest free storage, with its
size. -/
structure SplitServes (shm : ShmemT) (blocks : List Nat) (reqMinsize : Nat) : Prop where
  returns : exists r, splitAlloc shm true reqMinsize = some r
  fails_iff : forall r e shm', splitAlloc shm true reqMinsize = some (r, e, shm') ->
    (r = none ↔ forall a, IsFree shm blocks a -> (shm.st a).size < reqMinsize)
  largest : forall addr size e shm',
    splitAlloc shm true reqMinsize = some (some (addr, size), e, shm') ->
    exists a, IsFree shm blocks a ∧ addr = a + storageSize ∧ size = (shm.st a).size ∧
      forall b, IsFree shm blocks b -> (shm.st b).size ≤ (shm.st a).size

theorem getMaxSt_largest (h : Layout lo hi shm frees av blocks [])
    (hgraded : Graded shm) :
    (getMaxSt shm = some (Except.error Errno.getMaxExhausted) ∧
        forall a, ¬ IsFree shm blocks a) ∨
      exists a i, getMaxSt shm = some (Except.ok a) ∧ a ∈ frees i ∧
        forall b, IsFree shm blocks b -> (shm.st b).size ≤ (shm.st a).size := by
  by_cases hav : av = []
  · left
    have hempty : shm.available.queueEmpty (QNode.head 0) = true := by
      rw [h.lists.available.queueEmpty_iff, hav]
      rfl
    constructor
    · unfold getMaxSt
      rw [if_pos (Or.inr hempty)]
    · intro a ha
      have hmem := h.lists.mem_available ((h.isFree_iff a).mp ha)
      rw [hav] at hmem
      cases hmem
  · right
    obtain ⟨l, i, rfl⟩ : exists l i, av = l ++ [i] :=
      ⟨_, _, (List.dropLast_append_getLast hav).symm⟩
    have hi : i ∈ l ++ [i] := by simp
    have hmem := (h.lists.mem_iff i).mp hi
    have hlast := h.lists.last
    rw [List.getLastD_concat] at hlast
    have hlt := h.lists.lt_freeLen i hi
    have hfull : ¬ shm.free.queueEmpty (QNode.head i) = true := by
      rw [(h.lists.free i).queueEmpty_iff, List.map_eq_nil_iff]
      exact hmem
    have hopen : ¬ (shm.maxAvailableIndex = shm.freeLen ∨
        shm.available.queueEmpty (QNode.head 0) = true) := by
      rw [h.lists.available.queueEmpty_iff]
      simp
      omega
    obtain ⟨c, post, hfrees⟩ := List.exists_cons_of_ne_nil hmem
    have hring := h.lists.free i
    have hring' : Ring shm.free (QNode.head i)
        ([] ++ QNode.entry c :: post.map QNode.entry) := by
      rw [hfrees] at hring
      exact hring
    have hfuel : post.length < shm.stat.stCount := by
      have hle := h.length_free i
      rw [hfrees, List.length_cons] at hle
      omega
    have hlist : frees i = [c] ++ post := hfrees
    obtain ⟨x, hx, hxmem⟩ := findMax_spec h.lists hlist
      (show c ∈ frees i by simp [hfrees]) hfuel
    obtain ⟨hxc, hxpost⟩ := findMax_ge h.lists hlist hx
    refine ⟨x, i, ?_, hxmem, ?_⟩
    · unfold getMaxSt
      rw [if_neg hopen, h.lists.available.pointers_head.2, List.map_append,
        List.map_singleton, List.getLastD_concat]
      dsimp only
      rw [if_neg hfull, hring'.next_head]
      dsimp only
      rw [hring'.pointers.1, hx]
      rfl
    · intro b hb
      have hbmem := (h.isFree_iff b).mp hb
      have hble := h.lists.le_max (h.lists.mem_available hbmem)
      by_cases hsame : insertClass shm (shm.st b).size = i
      · rw [hsame, hfrees] at hbmem
        rcases List.mem_cons.mp hbmem with rfl | hbmem
        · exact hxc
        · exact hxpost b hbmem
      · have hxclass := (h.lists.placed i x hxmem).2
        by_contra hlarge
        have hmono := hgraded.insertClass_mono (Nat.le_of_lt (Nat.lt_of_not_le hlarge))
        omega

theorem splitServes_refused {reqMinsize : Nat}
    (hres : exists e shm', splitAlloc shm true reqMinsize = some (none, e, shm'))
    (hsmall : forall b, IsFree shm blocks b -> (shm.st b).size < reqMinsize) :
    SplitServes shm blocks reqMinsize := by
  obtain ⟨e, shm', hres⟩ := hres
  constructor
  · exact ⟨_, hres⟩
  · intro r e' shm2 heq
    rw [hres] at heq
    cases heq
    exact ⟨fun _ => hsmall, fun _ => rfl⟩
  · intro addr size e' shm2 heq
    rw [hres] at heq
    cases heq

theorem splitServes (h : Layout lo hi shm frees av blocks []) (hgraded : Graded shm)
    (reqMinsize : Nat) : SplitServes shm blocks reqMinsize := by
  have htuned := h.tune shm.stat.failed shm.stat.splitFailed (shm.stat.split + 1)
    h.threshold
  have hsearch := getMaxSt_largest htuned
    ⟨hgraded.minSize, hgraded.factor⟩
  have hunfold : splitAlloc shm true reqMinsize =
      splitMax { shm with stat := { shm.stat with split := shm.stat.split + 1 } }
        reqMinsize := rfl
  rcases hsearch with ⟨hnone, hnofree⟩ | ⟨a, i, hmax, ha, hlargest⟩
  · have hres : exists e shm', splitAlloc shm true reqMinsize = some (none, e, shm') := by
      rw [hunfold]
      unfold splitMax
      rw [hnone]
      exact ⟨_, _, rfl⟩
    exact splitServes_refused hres fun b hb => absurd hb (hnofree b)
  · have hafree := (htuned.isFree_of_mem ha).1
    by_cases hsmall : (shm.st a).size < reqMinsize
    · have hres : exists e shm',
          splitAlloc shm true reqMinsize = some (none, e, shm') := by
        rw [hunfold]
        unfold splitMax
        rw [hmax]
        dsimp only
        rw [if_pos hsmall]
        exact ⟨_, _, rfl⟩
      exact splitServes_refused hres fun b hb =>
        Nat.lt_of_le_of_lt (hlargest b hb) hsmall
    · have hres : exists shm', splitAlloc shm true reqMinsize =
          some (some (a + storageSize, (shm.st a).size), Errno.none, shm') := by
        obtain ⟨hmem, hfree, hloose⟩ := (htuned.listed a).mp ⟨i, ha⟩
        obtain ⟨free, available, max, frees', av', hremove, -⟩ :=
          htuned.remove hmem hfree hloose
        rw [hunfold]
        unfold splitMax
        rw [hmax]
        dsimp only
        rw [if_neg hsmall, hremove]
        have hsize := (relisted_st
          { shm with stat := { shm.stat with split := shm.stat.split + 1 } } a none free
          available max a).2.1
        dsimp only at hsize ⊢
        rw [if_pos rfl, hsize]
        exact ⟨_, rfl⟩
      obtain ⟨shm', hres⟩ := hres
      constructor
      · exact ⟨_, hres⟩
      · intro r e' shm2 heq
        rw [hres] at heq
        cases heq
        constructor
        · intro hnull
          cases hnull
        · intro hall
          exact absurd (hall a hafree) hsmall
      · intro addr size e' shm2 heq
        rw [hres] at heq
        cases heq
        exact ⟨a, hafree, rfl, rfl, hlargest⟩

section Created

variable {size minSize maxSize factor : Nat} {levelType : Int} {mmap : Bool}
  {s : System}

/-- In every state of a run the largest free storage is handed out. -/
theorem split_serves
    (hcreate : create size minSize maxSize levelType factor mmap =
      CreateResult.created shm) (hlen : shm.freeLen ≤ 2 ^ 32)
    (hrun : Reaches step Permitted ⟨shm, []⟩ s) :
    exists blocks, Ring s.shm.order (QNode.head 0) (blocks.map QNode.entry) ∧
      forall reqMinsize, SplitServes s.shm blocks reqMinsize := by
  obtain ⟨⟨frees, av, blocks, hlayout, -, -⟩, -⟩ :=
    reaches_consistent hcreate hlen hrun
  exact ⟨blocks, hlayout.storages.order, fun n =>
    splitServes hlayout (reaches_graded hcreate hrun) n⟩

end Created

theorem split_serves_allocated :
    create 8192 8 64 0 8 true = CreateResult.created twoPages ∧
      exists s : System, Reaches step Permitted ⟨twoPages, []⟩ s ∧
        exists blocks, Ring s.shm.order (QNode.head 0) (blocks.map QNode.entry) ∧
          forall reqMinsize, SplitServes s.shm blocks reqMinsize := by
  have hrun : Reaches step Permitted ⟨twoPages, []⟩ _ :=
    (Reaches.refl _).oneLabel (a := Call.alloc 100) trivial (by decide +kernel)
  have hcreate : create 8192 8 64 0 8 true = CreateResult.created twoPages := rfl
  exact ⟨hcreate, _, hrun, split_serves hcreate (by decide +kernel) hrun⟩

/-- With more classes than an `unsigned int` can number the largest storage cannot
be taken off its list. -/
theorem split_serves_many_classes :
    create (2 ^ 40) 8 (2 ^ 36) 0 8 true = CreateResult.created manyClasses ∧
      exists s : System, Reaches step Permitted ⟨manyClasses, []⟩ s ∧
        forall blocks, Ring s.shm.order (QNode.head 0) (blocks.map QNode.entry) ->
          ¬ SplitServes s.shm blocks 1 := by
  have hrun : Reaches step Permitted ⟨manyClasses, []⟩ _ :=
    (Reaches.refl _).oneLabel (a := Call.alloc 8) trivial (by decide +kernel)
  refine ⟨rfl, _, hrun, ?_⟩
  generalize hs : after step ⟨manyClasses, []⟩ [Call.alloc 8] = s
  have heval : s.shm.order.prev (QNode.head 0) =
        some (QNode.entry (manyClassesAddr + 8)) ∧
      (s.shm.st (manyClassesAddr + 8)).alloc = false ∧
      1 ≤ (s.shm.st (manyClassesAddr + 8)).size ∧
      (splitAlloc s.shm true 1).map Prod.fst = some none := by
    rw [← hs]
    decide +kernel
  obtain ⟨hprev, hfree, hsize, hnull⟩ := heval
  intro blocks hring hserves
  obtain ⟨⟨r, e, shm'⟩, hres, rfl⟩ := Option.map_eq_some_iff.mp hnull
  have hsmall := (hserves.fails_iff none e shm' hres).mp rfl _
    ⟨mem_blocks_of_prev hring hprev, hfree⟩
  omega

end Shmem
end NgxEpoll
