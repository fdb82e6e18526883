import NgxEpoll.Foundation.Runs
import NgxEpoll.Shmem.Release

/-!
# Runs of the shared memory allocator

A mapping from `dfs_shmem_create` and any sequence of calls, where a released
address is one that was handed out and not released since.

## Creation
-/

namespace NgxEpoll
namespace Shmem

open Foundation NgxEpoll.Core

theorem insertFirst_lists {shm : ShmemT} (hpos : 0 < shm.freeLen)
    (hfree : forall i, Ring shm.free (QNode.head i) [])
    (havailable : Ring shm.available (QNode.head 0) []) (a size : Nat) :
    exists frees av, Lists (insertFirst shm a size) frees av ∧
      forall x, (exists i, x ∈ frees i) ↔ x = a := by
  -- insertion into empty lists, from a state where the storage is in place
  have hempty : Lists { shm with
      maxAvailableIndex := shm.freeLen
      st := Function.update shm.st a ⟨false, size, 0, none⟩ } (fun _ => []) [] :=
    { free := hfree
      available := havailable
      sorted := List.Pairwise.nil
      mem_iff := by simp
      lt_freeLen := by simp
      last := rfl
      placed := by simp }
  generalize hi : insertClass shm size = i
  have hindex : (if shm.freeLen ≤ getInsertIndex shm size then shm.freeLen - 1
      else getInsertIndex shm size) = i := by
    rw [← hi]
    unfold insertClass
    split
    · omega
    · omega
  have hone : Ring _ (QNode.head 0) ([i].map QNode.entry) :=
    (havailable.insertHead (x := QNode.entry i) (by simp)).1
  have hlists := hempty.insert (a := a) (i := i) hpos
    (by dsimp only; rw [Function.update_self]; exact hi) (by simp) hone
    (List.pairwise_singleton _ _) (by simp) (show i = [i].getLastD shm.freeLen from rfl)
  refine ⟨_, [i], ?_, fun x => (listed_cons (fun _ => []) i a x).trans (by simp)⟩
  dsimp only [insertFirst]
  rw [hindex]
  refine hlists.congr hlists.free rfl rfl rfl (fun _ => rfl) ?_
  intro j x _
  by_cases hx : x = a
  · simp [relisted, hx]
  · simp [relisted, hx]

theorem insertFirst_sound {shm : ShmemT} {lo hi : Nat} (hpos : 0 < shm.freeLen)
    (hlen : shm.freeLen ≤ 2 ^ 32) (hthreshold : storageSize + shm.splitThreshold < 2 ^ 64)
    (hfree : forall i, Ring shm.free (QNode.head i) [])
    (havailable : Ring shm.available (QNode.head 0) [])
    (horder : Ring shm.order (QNode.head 0) [])
    (hstat : shm.stat = ⟨0, 0, 1, hi, lo, 0, 0, 0⟩) (hroom : lo + storageSize ≤ hi) :
    Sound lo hi (insertFirst shm lo (hi - lo - storageSize)) fun _ => False := by
  obtain ⟨frees, av, hlists, hlisted⟩ :=
    insertFirst_lists hpos hfree havailable lo (hi - lo - storageSize)
  have hst : ((insertFirst shm lo (hi - lo - storageSize)).st lo).alloc = false ∧
      ((insertFirst shm lo (hi - lo - storageSize)).st lo).size =
        hi - lo - storageSize := by
    simp [insertFirst]
  refine ⟨frees, av, [lo], ?_, List.IsChain.singleton _, ?_⟩
  · refine
      { storages :=
          { order := (horder.insertHead (by simp)).1
            tiles := ⟨rfl, ?_⟩
            systemSize := congrArg ShmemStat.systemSize hstat
            totalSize := congrArg ShmemStat.totalSize hstat
            stCount := congrArg ShmemStat.stCount hstat
            usedSize := (congrArg ShmemStat.usedSize hstat).trans ?_
            reqsSize := (congrArg ShmemStat.reqsSize hstat).trans ?_ }
        lists := hlists
        listed := ?_
        freeLen := ⟨hpos, hlen⟩
        threshold := hthreshold }
    · change lo + (storageSize + _) = hi
      rw [hst.2]
      omega
    · simp [allocSum, hst.1]
    · simp [allocSum, hst.1]
    · intro x
      rw [hlisted x]
      constructor
      · rintro rfl
        exact ⟨by simp, hst.1, by simp⟩
      · rintro ⟨hx, -⟩
        exact List.mem_singleton.mp hx
  · intro x
    refine iff_of_false ?_ id
    rintro ⟨hx, halloc⟩
    rw [List.mem_singleton.mp hx, hst.1] at halloc
    cases halloc

theorem roundUp_lt (x : Nat) : roundUp x < 2 ^ 64 ∧ roundUp x % pageSize = 0 := by
  unfold roundUp pageSize
  omega

theorem createLevels_sound {size minSize maxSize factor : Nat} {levelType : LevelType}
    {mmap : Bool} {shm : ShmemT} (hmin : minSize < maxSize)
    (h : createLevels size minSize maxSize factor levelType mmap =
      CreateResult.created shm) (hlen : shm.freeLen ≤ 2 ^ 32) :
    shm.stat.systemSize + storageSize ≤ shm.stat.totalSize ∧
      (shm.st shm.stat.systemSize).size =
        shm.stat.totalSize - shm.stat.systemSize - storageSize ∧
      Sound shm.stat.systemSize shm.stat.totalSize shm fun _ => False := by
  unfold createLevels at h
  cases hclasses : classes levelType minSize maxSize factor with
  | none =>
      rw [hclasses] at h
      cases h
  | some n =>
      rw [hclasses] at h
      dsimp only at h
      split at h
      · cases h
      split at h
      · cases h
      split at h
      · cases h
      split at h
      · cases h
      rename_i hn htotal hmmap henough
      split at h
      · cases h
      split at h
      · cases h
      rename_i hinside hfits
      obtain ⟨hlt, hpage⟩ := roundUp_lt size
      generalize roundUp size = total at *
      have hsystem : alignment (shmemSize + freeNodeSize * (n + 1)) =
          shmemSize + freeNodeSize * (n + 1) := by
        unfold alignment
        rw [if_pos (by unfold shmemSize freeNodeSize; omega), Nat.mod_eq_of_lt]
        omega
      rw [hsystem] at h hfits
      have hroom : shmemSize + freeNodeSize * (n + 1) + storageSize ≤ total := by
        unfold shmemSize freeNodeSize storageSize pageSize at *
        omega
      cases h
      refine ⟨hroom, by simp [insertFirst, blank], ?_⟩
      refine insertFirst_sound (Nat.succ_pos n) hlen ?_ ?_ (ring_queueInit _ _)
        (ring_queueInit _ _) rfl hroom
      · change storageSize + minSize < 2 ^ 64
        unfold storageSize at *
        omega
      · intro i
        exact ⟨⟨rfl, rfl, trivial⟩, List.nodup_singleton _⟩

theorem create_sound {size minSize maxSize factor : Nat} {levelType : Int}
    {mmap : Bool} {shm : ShmemT}
    (h : create size minSize maxSize levelType factor mmap = CreateResult.created shm)
    (hlen : shm.freeLen ≤ 2 ^ 32) :
    shm.stat.systemSize + storageSize ≤ shm.stat.totalSize ∧
      (shm.st shm.stat.systemSize).size =
        shm.stat.totalSize - shm.stat.systemSize - storageSize ∧
      Sound shm.stat.systemSize shm.stat.totalSize shm fun _ => False := by
  dsimp only [create] at h
  split at h
  · cases h
  split at h
  · cases h
  rename_i hmin
  have hlt : alignment minSize < alignment maxSize := by
    rw [not_or] at hmin
    omega
  split at h
  · exact createLevels_sound hlt h hlen
  split at h
  · exact createLevels_sound hlt h hlen
  · cases h

/-!
## Calls and runs
-/

structure System where
  shm : ShmemT
  live : List Nat

inductive Call where
  | alloc (size : Nat)
  | splitAlloc (actSize : Bool) (reqMinsize : Nat)
  | free (addr : Nat)
  | setSplitThreshold (size : Nat)

def call (s : System) : Call -> Option (Errno × System)
  | Call.alloc size =>
      (alloc s.shm size).map fun r => (r.2.1, ⟨r.2.2, r.1.toList ++ s.live⟩)
  | Call.splitAlloc actSize reqMinsize =>
      (splitAlloc s.shm actSize reqMinsize).map fun r =>
        (r.2.1, ⟨r.2.2, (r.1.map Prod.fst).toList ++ s.live⟩)
  | Call.free addr =>
      (free s.shm addr).map fun r => (r.1, ⟨r.2, s.live.filter fun x => x != addr⟩)
  | Call.setSplitThreshold size =>
      some (Errno.none, ⟨setSplitThreshold s.shm size, s.live⟩)

def step (s : System) (c : Call) : Option System :=
  (call s c).map Prod.snd

/-- Released addresses are live, and the threshold leaves room for a header. -/
def Permitted (s : System) : Call -> Prop
  | Call.free addr => addr ∈ s.live
  | Call.setSplitThreshold size => storageSize + size < 2 ^ 64
  | _ => True

instance (s : System) (c : Call) : Decidable (Permitted s c) := by
  unfold Permitted
  split <;> infer_instance

/-- The live addresses are those of the storages in use. -/
structure Consistent (lo hi : Nat) (s : System) : Prop where
  sound : Sound lo hi s.shm fun a => a + storageSize ∈ s.live
  live : forall addr, addr ∈ s.live -> storageSize ≤ addr

theorem Sound.congr {lo hi : Nat} {shm : ShmemT} {used used' : Nat -> Prop}
    (h : Sound lo hi shm used) (heq : forall a, used a ↔ used' a) :
    Sound lo hi shm used' := by
  obtain ⟨frees, av, blocks, hlayout, hapart, huse⟩ := h
  exact ⟨frees, av, blocks, hlayout, hapart, fun a => (huse a).trans (heq a)⟩

theorem Sound.setSplitThreshold {lo hi : Nat} {shm : ShmemT} {used : Nat -> Prop}
    (h : Sound lo hi shm used) {size : Nat} (hsize : storageSize + size < 2 ^ 64) :
    Sound lo hi (setSplitThreshold shm size) used := by
  obtain ⟨frees, av, blocks, hlayout, hapart, huse⟩ := h
  exact ⟨frees, av, blocks, hlayout.tune shm.stat.failed shm.stat.splitFailed
    shm.stat.split hsize, hapart, huse⟩

theorem Handed.consistent {lo hi : Nat} {s : System} {shm' : ShmemT} {addr : Option Nat}
    (hs : Consistent lo hi s)
    (h : Handed lo hi shm' (fun a => a + storageSize ∈ s.live) addr) :
    Consistent lo hi ⟨shm', addr.toList ++ s.live⟩ := by
  refine ⟨h.2.congr fun a => ?_, ?_⟩
  · simp only [List.mem_append, Option.mem_toList]
    exact or_comm
  · intro x hx
    rcases List.mem_append.mp hx with hx | hx
    · obtain ⟨a, rfl, -⟩ := h.1 x (by simpa using hx)
      omega
    · exact hs.live x hx

/-- A permitted call ends, returns no code of damage and keeps the system
consistent. -/
theorem call_spec {lo hi : Nat} {s : System} (hs : Consistent lo hi s) {c : Call}
    (hc : Permitted s c) :
    exists e s', call s c = some (e, s') ∧ e.damaged = false ∧ Consistent lo hi s' := by
  cases c with
  | alloc size =>
      obtain ⟨addr, e, shm', heq, he, hhanded⟩ := alloc_spec hs.sound size
      exact ⟨e, _, by simp [call, heq], he, hhanded.consistent hs⟩
  | splitAlloc actSize reqMinsize =>
      obtain ⟨r, e, shm', heq, he, hhanded⟩ :=
        splitAlloc_spec hs.sound actSize reqMinsize
      exact ⟨e, _, by simp [call, heq], he, hhanded.consistent hs⟩
  | free addr =>
      have hle := hs.live addr hc
      obtain ⟨a, rfl⟩ : exists a, addr = a + storageSize :=
        ⟨addr - storageSize, by omega⟩
      obtain ⟨shm', heq, hsound⟩ := free_spec hs.sound hc
      refine ⟨Errno.none, _, by simp [call, heq]; rfl, rfl, ?_, ?_⟩
      · exact hsound.congr fun x => by simp
      · intro x hx
        exact hs.live x (List.mem_filter.mp hx).1
  | setSplitThreshold size =>
      exact ⟨Errno.none, _, rfl, rfl, hs.sound.setSplitThreshold hc, hs.live⟩

theorem step_consistent {lo hi : Nat} {s s' : System} {c : Call}
    (hs : Consistent lo hi s) (hc : Permitted s c) (h : step s c = some s') :
    Consistent lo hi s' := by
  obtain ⟨e, t, heq, -, ht⟩ := call_spec hs hc
  obtain rfl : t = s' := by simpa [step, heq] using h
  exact ht

section Created

variable {size minSize maxSize factor : Nat} {levelType : Int} {mmap : Bool}
  {shm : ShmemT} {s : System}

theorem reaches_consistent
    (hcreate : create size minSize maxSize levelType factor mmap =
      CreateResult.created shm) (hlen : shm.freeLen ≤ 2 ^ 32)
    (hrun : Reaches step Permitted ⟨shm, []⟩ s) :
    Consistent shm.stat.systemSize shm.stat.totalSize s := by
  refine hrun.invariant (Consistent shm.stat.systemSize shm.stat.totalSize) ?_ ?_
  · intro t c u ht hc hstep
    exact step_consistent ht hc hstep
  · refine ⟨?_, by simp⟩
    exact (create_sound hcreate hlen).2.2.congr fun a => by simp

/-!
## What holds in every run
-/

theorem blocks_of_unused {lo hi : Nat} {blocks : List Nat} (h : Blocks lo hi shm blocks)
    (hapart : Apart shm.st blocks) (hroom : lo + storageSize ≤ hi)
    (hunused : forall a, a ∈ blocks -> (shm.st a).alloc = false) :
    blocks = [lo] ∧ (shm.st lo).size = hi - lo - storageSize ∧
      shm.stat.usedSize = 0 ∧ shm.stat.reqsSize = 0 := by
  have hsum : forall field : Storage -> Nat, allocSum shm.st field blocks = 0 := by
    intro field
    have hnil : blocks.filter (fun a => (shm.st a).alloc) = [] := by
      rw [List.filter_eq_nil_iff]
      intro a ha
      simp [hunused a ha]
    unfold allocSum
    rw [hnil]
    rfl
  have hused := h.usedSize.trans (hsum Storage.size)
  have hreqs := h.reqsSize.trans (hsum Storage.actSize)
  have htiles := h.tiles
  cases blocks with
  | nil =>
      have heq : lo = hi := htiles
      unfold storageSize at hroom
      omega
  | cons a rest =>
      cases rest with
      | nil =>
          obtain ⟨rfl, hend⟩ := htiles
          have hend : a + width shm.st a = hi := hend
          unfold width at hend
          exact ⟨rfl, by omega, hused, hreqs⟩
      | cons b rest =>
          have hor := (List.isChain_cons_cons.mp hapart).1
          rw [hunused a (by simp), hunused b (by simp)] at hor
          simp at hor

/-- The storages tile the region, no two neighbours are free and the statistics
count them; once nothing is live there is one free storage as in the beginning. -/
theorem storages_tile
    (hcreate : create size minSize maxSize levelType factor mmap =
      CreateResult.created shm) (hlen : shm.freeLen ≤ 2 ^ 32)
    (hrun : Reaches step Permitted ⟨shm, []⟩ s) :
    exists blocks, Blocks shm.stat.systemSize shm.stat.totalSize s.shm blocks ∧
      Apart s.shm.st blocks ∧
      (s.live = [] ->
        blocks = [shm.stat.systemSize] ∧
          (s.shm.st shm.stat.systemSize).alloc = false ∧
          (s.shm.st shm.stat.systemSize).size = (shm.st shm.stat.systemSize).size ∧
          s.shm.stat.usedSize = 0 ∧ s.shm.stat.reqsSize = 0) := by
  obtain ⟨hsound, -⟩ := reaches_consistent hcreate hlen hrun
  obtain ⟨hroom, hsize, -⟩ := create_sound hcreate hlen
  obtain ⟨frees, av, blocks, hlayout, hapart, huse⟩ := hsound
  refine ⟨blocks, hlayout.storages, hapart, fun hlive => ?_⟩
  have hunused : forall a, a ∈ blocks -> (s.shm.st a).alloc = false := by
    intro a ha
    by_contra halloc
    have hmem := (huse a).mp ⟨ha, by simpa using halloc⟩
    rw [hlive] at hmem
    cases hmem
  obtain ⟨hblocks, hfirst, hused, hreqs⟩ :=
    blocks_of_unused hlayout.storages hapart hroom hunused
  refine ⟨hblocks, hunused _ (by simp [hblocks]), ?_, hused, hreqs⟩
  rw [hfirst, hsize]

end Created

def twoPages : ShmemT :=
  insertFirst (blank LevelType.linear 8 64 8 8 8192 488) 488 7640

theorem storages_tile_released :
    create 8192 8 64 0 8 true = CreateResult.created twoPages ∧
      exists s : System, Reaches step Permitted ⟨twoPages, []⟩ s ∧
        exists blocks, Blocks 488 8192 s.shm blocks ∧ Apart s.shm.st blocks ∧
          (s.live = [] -> blocks = [488] ∧ (s.shm.st 488).alloc = false ∧
            (s.shm.st 488).size = 7640 ∧ s.shm.stat.usedSize = 0 ∧
            s.shm.stat.reqsSize = 0) := by
  have hrun : Reaches step Permitted ⟨twoPages, []⟩ _ :=
    ((((Reaches.refl _).oneLabel (a := Call.alloc 100) trivial
      (by decide +kernel)).oneLabel (a := Call.alloc 200) trivial
      (by decide +kernel)).oneLabel (a := Call.free 552) (by decide +kernel)
      (by decide +kernel)).oneLabel (a := Call.free 716) (by decide +kernel)
      (by decide +kernel)
  have hcreate : create 8192 8 64 0 8 true = CreateResult.created twoPages := rfl
  exact ⟨hcreate, _, hrun, storages_tile hcreate (by decide +kernel) hrun⟩

def manyClasses : ShmemT :=
  insertFirst
    (blank LevelType.linear 8 (2 ^ 36) 8 (2 ^ 33) (2 ^ 40) (168 + 40 * 2 ^ 33))
    (168 + 40 * 2 ^ 33) (2 ^ 40 - (168 + 40 * 2 ^ 33) - 64)

def manyClassesAddr : Nat := 168 + 40 * 2 ^ 33 + 64

/-- With that many classes one allocation and its release leave two free
neighbours. -/
theorem storages_tile_many_classes :
    create (2 ^ 40) 8 (2 ^ 36) 0 8 true = CreateResult.created manyClasses ∧
      exists s : System, Reaches step Permitted ⟨manyClasses, []⟩ s ∧ s.live = [] ∧
        ¬ exists blocks, Blocks manyClasses.stat.systemSize manyClasses.stat.totalSize
          s.shm blocks ∧ Apart s.shm.st blocks := by
  have hrun : Reaches step Permitted ⟨manyClasses, []⟩ _ :=
    ((Reaches.refl _).oneLabel (a := Call.alloc 8) trivial
      (by decide +kernel)).oneLabel (a := Call.free manyClassesAddr)
      (by decide +kernel) (by decide +kernel)
  refine ⟨rfl, _, hrun, by decide +kernel, ?_⟩
  generalize hs : after step (after step ⟨manyClasses, []⟩ [Call.alloc 8])
    [Call.free manyClassesAddr] = s
  have heval : s.shm.stat.stCount = 2 ∧
      s.shm.order.next (QNode.head 0) = some (QNode.entry (manyClassesAddr - 64)) ∧
      s.shm.order.next (QNode.entry (manyClassesAddr - 64)) =
        some (QNode.entry (manyClassesAddr + 8)) ∧
      (s.shm.st (manyClassesAddr - 64)).alloc = false ∧
      (s.shm.st (manyClassesAddr + 8)).alloc = false := by
    rw [← hs]
    decide +kernel
  obtain ⟨hcount, hfirst, hsecond, hfree1, hfree2⟩ := heval
  rintro ⟨blocks, hblocks, hapart⟩
  obtain ⟨a, b, rfl⟩ := List.length_eq_two.mp (hblocks.stCount.symm.trans hcount)
  have hring : Ring s.shm.order (QNode.head 0) ([] ++ [QNode.entry a, QNode.entry b]) :=
    hblocks.order
  obtain rfl : a = manyClassesAddr - 64 := by
    simpa [hfirst, eq_comm] using hring.next_head
  obtain rfl : b = manyClassesAddr + 8 := by
    simpa [hsecond, eq_comm] using hring.pointers.1
  have hor := (List.isChain_cons_cons.mp hapart).1
  rw [hfree1, hfree2] at hor
  simp at hor

/-- The free lists have exactly the free storages, each in the list of its class,
and the available classes are those with storages. -/
def ListsExact (shm : ShmemT) : Prop :=
  exists (frees : Nat -> List Nat) (av blocks : List Nat),
    Ring shm.order (QNode.head 0) (blocks.map QNode.entry) ∧
    (forall i, Ring shm.free (QNode.head i) ((frees i).map QNode.entry)) ∧
    Ring shm.available (QNode.head 0) (av.map QNode.entry) ∧
    (forall i a, a ∈ frees i ↔
      a ∈ blocks ∧ (shm.st a).alloc = false ∧ i = insertClass shm (shm.st a).size) ∧
    av.Pairwise (· < ·) ∧ (forall i, i ∈ av ↔ frees i ≠ []) ∧
    shm.maxAvailableIndex = av.getLastD shm.freeLen ∧
    forall a, a ∈ blocks -> (shm.st a).alloc = false -> (removeFree shm a).1 = true

section Created

variable {size minSize maxSize factor : Nat} {levelType : Int} {mmap : Bool}
  {shm : ShmemT} {s : System}

theorem Sound.listsExact {lo hi : Nat} {used : Nat -> Prop}
    (h : Sound lo hi shm used) : ListsExact shm := by
  obtain ⟨frees, av, blocks, hlayout, -, -⟩ := h
  refine ⟨frees, av, blocks, hlayout.storages.order, hlayout.lists.free,
    hlayout.lists.available, ?_, hlayout.lists.sorted, hlayout.lists.mem_iff,
    hlayout.lists.last, ?_⟩
  · intro i a
    constructor
    · intro ha
      obtain ⟨hmem, hfree, -⟩ := (hlayout.listed a).mp ⟨i, ha⟩
      exact ⟨hmem, hfree, (hlayout.lists.placed i a ha).2⟩
    · rintro ⟨hmem, hfree, rfl⟩
      obtain ⟨j, hj⟩ := (hlayout.listed a).mpr ⟨hmem, hfree, by simp⟩
      rw [← (hlayout.lists.placed j a hj).2]
      exact hj
  · intro a hmem hfree
    obtain ⟨free, available, max, frees', av', heq, -⟩ :=
      hlayout.remove hmem hfree (by simp)
    rw [heq]

/-- The lists are exact in every state of a run, and no permitted call returns a
code of damaged lists or fails to return. -/
theorem free_lists_exact
    (hcreate : create size minSize maxSize levelType factor mmap =
      CreateResult.created shm) (hlen : shm.freeLen ≤ 2 ^ 32)
    (hrun : Reaches step Permitted ⟨shm, []⟩ s) :
    ListsExact s.shm ∧
      forall c, Permitted s c -> exists e s', call s c = some (e, s') ∧
        e ≠ Errno.allocMaxAvailableEmpty ∧ e ≠ Errno.allocRemoveFree ∧
        e ≠ Errno.getMaxCritical ∧ e ≠ Errno.splitAllocRemoveFree ∧
        e ≠ Errno.freeRemoveNext ∧ e ≠ Errno.freeRemovePrev := by
  have hs := reaches_consistent hcreate hlen hrun
  refine ⟨hs.sound.listsExact, fun c hc => ?_⟩
  obtain ⟨e, s', heq, he, -⟩ := call_spec hs hc
  refine ⟨e, s', heq, ?_⟩
  refine ⟨?_, ?_, ?_, ?_, ?_, ?_⟩ <;> rintro rfl <;> cases he

end Created

theorem free_lists_exact_allocated :
    create 8192 8 64 0 8 true = CreateResult.created twoPages ∧
      exists s : System, Reaches step Permitted ⟨twoPages, []⟩ s ∧ ListsExact s.shm := by
  have hrun : Reaches step Permitted ⟨twoPages, []⟩ _ :=
    ((Reaches.refl _).oneLabel (a := Call.alloc 100) trivial
      (by decide +kernel)).oneLabel (a := Call.splitAlloc true 50) trivial
      (by decide +kernel)
  have hcreate : create 8192 8 64 0 8 true = CreateResult.created twoPages := rfl
  exact ⟨hcreate, _, hrun, (free_lists_exact hcreate (by decide +kernel) hrun).1⟩

/-- With more classes than an `unsigned int` can number the last one is taken for
another, and the next release fails. -/
theorem free_lists_exact_many_classes :
    create (2 ^ 40) 8 (2 ^ 36) 0 8 true = CreateResult.created manyClasses ∧
      exists s : System, Reaches step Permitted ⟨manyClasses, []⟩ s ∧
        ¬ ListsExact s.shm ∧ Permitted s (Call.free manyClassesAddr) ∧
        (call s (Call.free manyClassesAddr)).map Prod.fst =
          some Errno.freeRemoveNext := by
  have hrun : Reaches step Permitted ⟨manyClasses, []⟩ _ :=
    (Reaches.refl _).oneLabel (a := Call.alloc 8) trivial (by decide +kernel)
  refine ⟨rfl, _, hrun, ?_, by decide +kernel, by decide +kernel⟩
  generalize hs : after step ⟨manyClasses, []⟩ [Call.alloc 8] = s
  have heval : s.shm.maxAvailableIndex = 2 ^ 32 - 1 ∧ s.shm.freeLen = 2 ^ 33 ∧
      s.shm.available.prev (QNode.head 0) = some (QNode.entry (2 ^ 33 - 1)) := by
    rw [← hs]
    decide +kernel
  obtain ⟨hmax, hlen, htail⟩ := heval
  rintro ⟨frees, av, blocks, -, -, havail, -, -, -, hlast, -⟩
  rw [hmax, hlen] at hlast
  cases av using List.reverseRecOn with
  | nil => simp at hlast
  | append_singleton l i =>
      have hi := havail.pointers_head.2
      rw [List.map_append, List.map_singleton, List.getLastD_concat, htail] at hi
      rw [List.getLastD_concat] at hlast
      simp only [Option.some.injEq, QNode.entry.injEq] at hi
      omega

end Shmem
end NgxEpoll
