import NgxEpoll.Shmem.Runs

/-!
# Size classes

A size to allocate is looked for from its class rounded up on, and a free storage
is filed in its class rounded down.

## The floor of a class
-/

namespace NgxEpoll
namespace Shmem

open Foundation NgxEpoll.Core

/-- The sizes a mapping was created with make classes. -/
structure Graded (shm : ShmemT) : Prop where
  minSize : 0 < shm.minSize
  factor : shm.levelType = LevelType.linear -> 0 < shm.factor

def classFloor (shm : ShmemT) (i : Nat) : Nat :=
  match shm.levelType with
  | LevelType.linear => shm.minSize + i * shm.factor
  | LevelType.exp => shm.minSize * 2 ^ i

variable {shm : ShmemT} {n m a : Nat}

theorem minSize_le_classFloor (shm : ShmemT) (i : Nat) :
    shm.minSize ≤ classFloor shm i := by
  unfold classFloor
  cases shm.levelType with
  | linear => exact Nat.le_add_right ..
  | exp => exact Nat.le_mul_of_pos_right _ (Nat.two_pow_pos i)

theorem Graded.le_insertIndex (h : Graded shm) {i : Nat} (hi : 0 < i) (m : Nat) :
    i ≤ getInsertIndex shm m ↔ classFloor shm i ≤ m := by
  have hmin := h.minSize
  have hfactor := h.factor
  unfold getInsertIndex classFloor
  cases hlevel : shm.levelType with
  | linear =>
      have hpos := hfactor hlevel
      have hstep : 0 < i * shm.factor := Nat.mul_pos hi hpos
      simp only
      split
      · omega
      · rw [Nat.le_div_iff_mul_le hpos]
        omega
  | exp =>
      have hstep : shm.minSize * 2 ≤ shm.minSize * 2 ^ i :=
        Nat.mul_le_mul_left _ (Nat.le_self_pow (by omega) 2)
      simp only
      split
      · omega
      · have hdiv : m / shm.minSize ≠ 0 := by
          rw [Nat.div_ne_zero_iff]
          omega
        rw [le_dfsMathDfslog2_down hdiv, Nat.le_div_iff_mul_le hmin, Nat.mul_comm]

/-- A size is looked for from class `i` on when it is at most the floor of `i`. -/
theorem Graded.allocIndex_le (h : Graded shm) (n i : Nat) :
    getAllocIndex shm n ≤ i ↔ n ≤ classFloor shm i := by
  have hmin := h.minSize
  have hfactor := h.factor
  have hfloor := minSize_le_classFloor shm i
  unfold getAllocIndex
  split
  · omega
  · unfold classFloor at hfloor ⊢
    cases hlevel : shm.levelType with
    | linear =>
        have hpos := hfactor hlevel
        have hdiv := Nat.div_add_mod (n - shm.minSize) shm.factor
        have hmod := Nat.mod_lt (n - shm.minSize) hpos
        simp only
        have hceil : (n - shm.minSize) / shm.factor +
            (if (n - shm.minSize) % shm.factor = 0 then 0 else 1) ≤ i ↔
              n - shm.minSize ≤ i * shm.factor := by
          rw [Nat.mul_comm i]
          constructor
          · intro hle
            have hmul := Nat.mul_le_mul_left shm.factor hle
            rw [Nat.mul_add] at hmul
            split at hmul
            · omega
            · omega
          · intro hle
            by_contra hlt
            have hmul := Nat.mul_le_mul_left shm.factor (Nat.lt_of_not_le hlt)
            rw [Nat.mul_succ, Nat.mul_add] at hmul
            split at hmul
            · omega
            · omega
        rw [hceil]
        omega
    | exp =>
        have hdiv := Nat.div_add_mod n shm.minSize
        have hmod := Nat.mod_lt n hmin
        have hquot : 0 < n / shm.minSize := Nat.div_pos (by omega) hmin
        simp only
        rw [dfsMathDfslog2_up_le (Nat.ne_of_gt (Nat.add_pos_left hquot _))]
        constructor
        · intro hle
          have hmul := Nat.mul_le_mul_left shm.minSize hle
          rw [Nat.mul_add] at hmul
          split at hmul
          · omega
          · omega
        · intro hle
          by_contra hlt
          have hmul := Nat.mul_le_mul_left shm.minSize (Nat.lt_of_not_le hlt)
          rw [Nat.mul_succ, Nat.mul_add] at hmul
          split at hmul
          · omega
          · omega

theorem Graded.insertIndex_mono (h : Graded shm) (hle : n ≤ m) :
    getInsertIndex shm n ≤ getInsertIndex shm m := by
  by_cases hzero : getInsertIndex shm n = 0
  · rw [hzero]
    exact Nat.zero_le _
  · have hpos := Nat.pos_of_ne_zero hzero
    rw [h.le_insertIndex hpos]
    exact Nat.le_trans ((h.le_insertIndex hpos n).mp (Nat.le_refl _)) hle

theorem Graded.insertClass_mono (h : Graded shm) (hle : n ≤ m) :
    insertClass shm n ≤ insertClass shm m := by
  have hindex := h.insertIndex_mono hle
  unfold insertClass
  omega

/-- Everything filed in a class above the first one is large enough for the sizes
that are looked for there. -/
theorem Graded.le_of_allocIndex_le (h : Graded shm)
    (hle : getAllocIndex shm n ≤ getInsertIndex shm m)
    (hpos : 0 < getInsertIndex shm m) : n ≤ m :=
  Nat.le_trans ((h.allocIndex_le n _).mp hle)
    ((h.le_insertIndex hpos m).mp (Nat.le_refl _))

/-- A size that fits is looked for at most one class above the one it is filed
in. -/
theorem Graded.allocIndex_le_succ (h : Graded shm) (hle : n ≤ m) :
    getAllocIndex shm n ≤ getInsertIndex shm m + 1 := by
  rw [h.allocIndex_le]
  have hfloor := h.le_insertIndex (Nat.succ_pos (getInsertIndex shm m)) m
  rw [Nat.succ_eq_add_one] at hfloor
  omega

theorem Graded.allocIndex_eq_zero (h : Graded shm) :
    getAllocIndex shm n = 0 ↔ n ≤ shm.minSize := by
  have hfloor : classFloor shm 0 = shm.minSize := by
    unfold classFloor
    cases shm.levelType with
    | linear => simp
    | exp => simp
  rw [← Nat.le_zero, h.allocIndex_le, hfloor]

/-!
## The classes of a run
-/

def grading (shm : ShmemT) : Nat × Nat × Nat × LevelType :=
  (shm.freeLen, shm.minSize, shm.factor, shm.levelType)

theorem Graded.congr {shm' : ShmemT} (h : Graded shm) (heq : grading shm' = grading shm) :
    Graded shm' := by
  have hmin : shm'.minSize = shm.minSize := congrArg (fun g => g.2.1) heq
  have hfactor : shm'.factor = shm.factor := congrArg (fun g => g.2.2.1) heq
  have hlevel : shm'.levelType = shm.levelType := congrArg (fun g => g.2.2.2) heq
  constructor
  · rw [hmin]
    exact h.minSize
  · rw [hlevel, hfactor]
    exact h.factor

theorem grading_removeFree (shm : ShmemT) (a : Nat) :
    grading (removeFree shm a).2 = grading shm := by
  dsimp only [removeFree]
  generalize (if shm.maxAvailableIndex < getInsertIndex shm (shm.st a).size then
    shm.maxAvailableIndex else getInsertIndex shm (shm.st a).size) = index
  split
  · rfl
  · split
    · rfl
    · rfl

theorem insertFree_relisted {shm' : ShmemT} {b : Nat} (h : insertFree shm b = some shm') :
    exists head free available max, shm' = relisted shm b head free available max := by
  dsimp only [insertFree] at h
  generalize (if shm.freeLen - 1 < getInsertIndex shm (shm.st b).size then
    shm.freeLen - 1 else getInsertIndex shm (shm.st b).size) = index at h
  split at h
  · cases h
    refine ⟨(shm.st b).freeListHead, shm.free, shm.available, shm.maxAvailableIndex, ?_⟩
    unfold relisted
    rw [Function.update_eq_self]
  · split at h
    · split at h
      · cases h
      · cases h
        exact ⟨_, _, _, _, rfl⟩
      · cases h
        exact ⟨_, _, _, _, rfl⟩
    · cases h
      exact ⟨_, _, _, _, rfl⟩

theorem grading_insertFree {shm' : ShmemT} {b : Nat} (h : insertFree shm b = some shm') :
    grading shm' = grading shm := by
  obtain ⟨head, free, available, max, rfl⟩ := insertFree_relisted h
  rfl

theorem grading_allocStorage {r : Option Nat × Errno × ShmemT}
    (h : allocStorage shm a n = some r) : grading r.2.2 = grading shm := by
  by_cases hsplit : (shm.st a).size - n < (storageSize + shm.splitThreshold) % 2 ^ 64
  · dsimp only [allocStorage] at h
    rw [if_pos hsplit] at h
    cases h
    rfl
  · rw [allocStorage_eq_split hsplit] at h
    obtain ⟨shm2, hinsert, rfl⟩ := Option.map_eq_some_iff.mp h
    have hgrading := grading_insertFree hinsert
    exact hgrading

theorem grading_allocFrom {i : Nat} {r : Option Nat × Errno × ShmemT}
    (h : allocFrom shm i n = some r) : grading r.2.2 = grading shm := by
  unfold allocFrom at h
  split at h
  · cases h
  · cases h
    rfl
  · next b _ =>
    dsimp only at h
    split at h
    · exact (grading_allocStorage h).trans (grading_removeFree shm b)
    · cases h
      rfl

theorem grading_alloc {r : Option Nat × Errno × ShmemT} (h : alloc shm n = some r) :
    grading r.2.2 = grading shm := by
  dsimp only [alloc] at h
  split at h
  · cases h
    rfl
  · split at h
    · cases h
      rfl
    · split at h
      · split at h
        · exact grading_allocFrom h
        · split at h
          · cases h
          · exact grading_allocFrom h
          · cases h
            rfl
      · split at h
        · cases h
          rfl
        · exact grading_allocFrom h

theorem grading_splitAlloc {actSize : Bool} {r : Option (Nat × Nat) × Errno × ShmemT}
    (h : splitAlloc shm actSize n = some r) : grading r.2.2 = grading shm := by
  unfold splitAlloc at h
  split at h
  · cases h
    rfl
  · unfold splitMax at h
    split at h
    · cases h
    · cases h
      rfl
    · next b _ =>
      split at h
      · cases h
        rfl
      · dsimp only at h
        split at h
        · cases h
          exact grading_removeFree
            { shm with stat := { shm.stat with split := shm.stat.split + 1 } } b
        · cases h
          rfl

theorem grading_freePrev {r : Errno × ShmemT} (h : freePrev shm a = some r) :
    grading r.2 = grading shm := by
  have hfinish : forall {shm2 : ShmemT} {x : Nat},
      (insertFree shm2 x).map (fun shm3 => (Errno.none, shm3)) = some r ->
        grading r.2 = grading shm2 := by
    intro shm2 x hmap
    obtain ⟨shm3, hinsert, rfl⟩ := Option.map_eq_some_iff.mp hmap
    exact grading_insertFree hinsert
  dsimp only [freePrev] at h
  split at h
  · exact hfinish h
  · next p _ =>
    split at h
    · split at h
      · exact (hfinish h).trans (grading_removeFree shm p)
      · cases h
        rfl
    · exact hfinish h
  · cases h

theorem grading_freeNext {r : Errno × ShmemT} (h : freeNext shm a = some r) :
    grading r.2 = grading shm := by
  dsimp only [freeNext] at h
  split at h
  · exact grading_freePrev h
  · next b _ =>
    split at h
    · split at h
      · exact (grading_freePrev h).trans (grading_removeFree shm b)
      · cases h
        rfl
    · exact grading_freePrev h
  · cases h

theorem grading_free {addr : Nat} {r : Errno × ShmemT} (h : free shm addr = some r) :
    grading r.2 = grading shm := by
  dsimp only [free] at h
  split at h
  · cases h
    rfl
  · split at h
    · cases h
      rfl
    · have hgrading := grading_freeNext h
      exact hgrading

theorem grading_step {s s' : System} {c : Call} (h : step s c = some s') :
    grading s'.shm = grading s.shm := by
  unfold step at h
  obtain ⟨⟨e, t⟩, hcall, rfl⟩ := Option.map_eq_some_iff.mp h
  cases c with
  | alloc size =>
      obtain ⟨r, hr, heq⟩ := Option.map_eq_some_iff.mp hcall
      cases heq
      exact grading_alloc hr
  | splitAlloc actSize reqMinsize =>
      obtain ⟨r, hr, heq⟩ := Option.map_eq_some_iff.mp hcall
      cases heq
      exact grading_splitAlloc hr
  | free addr =>
      obtain ⟨r, hr, heq⟩ := Option.map_eq_some_iff.mp hcall
      cases heq
      exact grading_free hr
  | setSplitThreshold size =>
      cases hcall
      rfl

section Created

variable {size minSize maxSize factor : Nat} {levelType : Int} {mmap : Bool}
  {s : System}

theorem createLevels_graded {level : LevelType} (hmin : 0 < minSize)
    (h : createLevels size minSize maxSize factor level mmap =
      CreateResult.created shm) : Graded shm := by
  unfold createLevels at h
  cases hclasses : classes level minSize maxSize factor with
  | none =>
      rw [hclasses] at h
      cases h
  | some k =>
      rw [hclasses] at h
      dsimp only at h
      split at h
      · cases h
      split at h
      · cases h
      split at h
      · cases h
      split at h
      · cases h
      split at h
      · cases h
      split at h
      · cases h
      cases h
      refine ⟨hmin, fun hlevel => ?_⟩
      change level = LevelType.linear at hlevel
      subst hlevel
      change 0 < factor
      simp only [classes] at hclasses
      split at hclasses
      · cases hclasses
      · omega

theorem create_graded
    (h : create size minSize maxSize levelType factor mmap = CreateResult.created shm) :
    Graded shm := by
  dsimp only [create] at h
  split at h
  · cases h
  split at h
  · cases h
  rename_i hmin
  rw [not_or] at hmin
  have hpos := Nat.pos_of_ne_zero hmin.1
  split at h
  · exact createLevels_graded hpos h
  split at h
  · exact createLevels_graded hpos h
  · cases h

theorem reaches_graded
    (hcreate : create size minSize maxSize levelType factor mmap =
      CreateResult.created shm) (hrun : Reaches step Permitted ⟨shm, []⟩ s) :
    Graded s.shm := by
  refine hrun.invariant (fun s => Graded s.shm) ?_ (create_graded hcreate)
  intro t c u ht _ hstep
  exact ht.congr (grading_step hstep)

end Created

end Shmem
end NgxEpoll
