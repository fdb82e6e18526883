import NgxEpoll.Shmem.Calls

/-!
# Release in the shared memory allocator

`dfs_shmem_free` joins the storage with the free neighbours behind and before it,
and then inserts what it has got.
-/

namespace NgxEpoll
namespace Shmem

open Foundation NgxEpoll.Core

variable {lo hi : Nat} {shm : ShmemT} {frees : Nat -> List Nat} {av : List Nat}
  {blocks pre post : List Nat} {a b : Nat}

theorem Blocks.next_place (h : Blocks lo hi shm (pre ++ a :: b :: post)) :
    b = a + storageSize + (shm.st a).size := by
  obtain ⟨m, -, -, hnext, -⟩ := tiles_append.mp h.tiles
  unfold width at hnext
  omega

theorem insertFree_sound (h : Layout lo hi shm frees av (pre ++ a :: post) [a])
    (hfree : (shm.st a).alloc = false) (hpre : Apart shm.st pre)
    (hpost : Apart shm.st post)
    (hlast : forall x, x ∈ pre.getLast? -> (shm.st x).alloc = true)
    (hfirst : forall y, y ∈ post.head? -> (shm.st y).alloc = true) :
    exists shm', insertFree shm a = some shm' ∧
      Sound lo hi shm' (InUse shm (pre ++ a :: post)) := by
  obtain ⟨head, free, available, max, frees', av', heq, hlayout⟩ :=
    h.insert (by simp) hfree (by simp)
  have hst := relisted_st shm a head free available max
  refine ⟨_, heq, frees', av', pre ++ a :: post, hlayout, ?_, ?_⟩
  · exact (hpre.join hpost hlast hfirst).mono fun x _ hx => (hst x).1.trans hx
  · intro x
    unfold InUse
    rw [(hst x).1]

theorem freePrev_spec (h : Layout lo hi shm frees av (pre ++ a :: post) [a])
    (hfree : (shm.st a).alloc = false) (hpre : Apart shm.st pre)
    (hpost : Apart shm.st post)
    (hfirst : forall y, y ∈ post.head? -> (shm.st y).alloc = true) :
    exists shm', freePrev shm a = some (Errno.none, shm') ∧
      Sound lo hi shm' (InUse shm (pre ++ a :: post)) := by
  have hring := h.storages.order
  rw [List.map_append, List.map_cons] at hring
  dsimp only [freePrev]
  rw [hring.pointers.2]
  cases pre using List.reverseRecOn with
  | nil =>
      obtain ⟨shm', heq, hsound⟩ :=
        insertFree_sound h hfree hpre hpost (by simp) hfirst
      refine ⟨shm', ?_, hsound⟩
      simp [heq]
  | append_singleton l p =>
      rw [List.map_append, List.map_singleton, List.getLastD_concat]
      dsimp only
      by_cases halloc : (shm.st p).alloc = true
      · rw [if_neg (by simp [halloc])]
        obtain ⟨shm', heq, hsound⟩ :=
          insertFree_sound h hfree hpre hpost (by simp [halloc]) hfirst
        exact ⟨shm', by simp [heq], hsound⟩
      · rw [Bool.not_eq_true] at halloc
        rw [List.append_assoc, List.singleton_append] at h ⊢
        have hplace := h.storages.next_place
        have hne : p ≠ a := by
          unfold storageSize at hplace
          omega
        obtain ⟨free, available, max, frees', av', heq, hlayout⟩ :=
          h.remove (by simp) halloc (by simp [hne])
        have hst := relisted_st shm p none free available max
        rw [if_pos ⟨halloc, by omega⟩, heq, if_pos rfl]
        dsimp only
        have hmerged := hlayout.merge ((hst p).1.trans halloc) ((hst a).1.trans hfree)
          (by simp)
        obtain ⟨hl, -, hlast, -⟩ := Apart.around hpre halloc
        have halloc' : forall x,
            ((joined (relisted shm p none free available max) p a).st x).alloc =
              (shm.st x).alloc := fun x => (joined_alloc _ _ _ x).trans (hst x).1
        obtain ⟨shm', hinsert, frees2, av2, blocks2, hlayout2, hapart2, huse2⟩ :=
          insertFree_sound hmerged ((halloc' p).trans halloc)
            (hl.mono fun x _ hx => (halloc' x).trans hx)
            (hpost.mono fun x _ hx => (halloc' x).trans hx)
            (fun x hx => (halloc' x).trans (hlast x hx))
            (fun y hy => (halloc' y).trans (hfirst y hy))
        refine ⟨shm', ?_, frees2, av2, blocks2, hlayout2, hapart2, ?_⟩
        · change (insertFree (joined (relisted shm p none free available max) p a)
            p).map _ = _
          rw [hinsert]
          rfl
        · intro x
          rw [huse2 x]
          unfold InUse
          rw [halloc' x]
          by_cases hxa : x = a
          · subst hxa
            simp [hfree]
          · simp [hxa]

theorem freeNext_spec (h : Layout lo hi shm frees av (pre ++ a :: post) [a])
    (hfree : (shm.st a).alloc = false) (hpre : Apart shm.st pre)
    (hpost : Apart shm.st post) :
    exists shm', freeNext shm a = some (Errno.none, shm') ∧
      Sound lo hi shm' (InUse shm (pre ++ a :: post)) := by
  have hring := h.storages.order
  rw [List.map_append, List.map_cons] at hring
  unfold freeNext
  rw [hring.pointers.1]
  cases post with
  | nil =>
      obtain ⟨shm', heq, hsound⟩ := freePrev_spec h hfree hpre hpost (by simp)
      exact ⟨shm', heq, hsound⟩
  | cons n post =>
      rw [List.map_cons, List.headD_cons]
      dsimp only
      by_cases halloc : (shm.st n).alloc = true
      · rw [if_neg (by simp [halloc])]
        exact freePrev_spec h hfree hpre hpost (by simp [halloc])
      · rw [Bool.not_eq_true] at halloc
        have hplace := h.storages.next_place
        have hne : n ≠ a := by
          unfold storageSize at hplace
          omega
        obtain ⟨free, available, max, frees', av', heq, hlayout⟩ :=
          h.remove (by simp) halloc (by simp [hne])
        have hst := relisted_st shm n none free available max
        rw [if_pos ⟨halloc, hplace⟩, heq, if_pos rfl]
        have hmerged := hlayout.merge ((hst a).1.trans hfree) ((hst n).1.trans halloc)
          (by simp [or_comm])
        have halloc' : forall x,
            ((joined (relisted shm n none free available max) a n).st x).alloc =
              (shm.st x).alloc := fun x => (joined_alloc _ _ _ x).trans (hst x).1
        have hpost' : Apart shm.st ([] ++ n :: post) := hpost
        obtain ⟨-, hrest, -, hfirst⟩ := hpost'.around halloc
        obtain ⟨shm', hprev, frees2, av2, blocks2, hlayout2, hapart2, huse2⟩ :=
          freePrev_spec hmerged ((halloc' a).trans hfree)
            (hpre.mono fun x _ hx => (halloc' x).trans hx)
            (hrest.mono fun x _ hx => (halloc' x).trans hx)
            (fun y hy => (halloc' y).trans (hfirst y hy))
        refine ⟨shm', hprev, frees2, av2, blocks2, hlayout2, hapart2, ?_⟩
        intro x
        rw [huse2 x]
        unfold InUse
        rw [halloc' x]
        by_cases hxn : x = n
        · subst hxn
          simp [halloc]
        · simp [hxn]

theorem free_spec {used : Nat -> Prop} (h : Sound lo hi shm used) (ha : used a) :
    exists shm', free shm (a + storageSize) = some (Errno.none, shm') ∧
      Sound lo hi shm' fun x => used x ∧ x ≠ a := by
  obtain ⟨frees, av, blocks, hlayout, hapart, huse⟩ := h
  obtain ⟨hmem, halloc⟩ := (huse a).mpr ha
  obtain ⟨pre, post, rfl⟩ := List.append_of_mem hmem
  have hreleased := hlayout.release halloc
  have hpre : Apart shm.st pre := (List.isChain_append.mp hapart).1
  have hpost : Apart shm.st post :=
    (List.isChain_cons.mp (List.isChain_append.mp hapart).2.1).2
  have hnot := hlayout.storages.not_mem
  have hsame : forall x, x ≠ a ->
      ((Function.update shm.st a { shm.st a with alloc := false }) x).alloc =
        (shm.st x).alloc := fun x hx => by rw [Function.update_of_ne hx]
  have hpre' := hpre.mono fun x hx halloc =>
    (hsame x fun heq => hnot (by simp [← heq, hx])).trans halloc
  have hpost' := hpost.mono fun x hx halloc =>
    (hsame x fun heq => hnot (by simp [← heq, hx])).trans halloc
  obtain ⟨shm', heq, frees2, av2, blocks2, hlayout2, hapart2, huse2⟩ :=
    freeNext_spec hreleased (by simp) hpre' hpost'
  refine ⟨shm', ?_, frees2, av2, blocks2, hlayout2, hapart2, ?_⟩
  · dsimp only [free]
    rw [if_neg (by unfold storageSize; omega), Nat.add_sub_cancel,
      if_neg (by simp [halloc])]
    exact heq
  · intro x
    rw [huse2 x]
    dsimp only
    rw [← huse x]
    unfold InUse
    by_cases hxa : x = a
    · simp [hxa]
    · simp [hxa]

end Shmem
end NgxEpoll
