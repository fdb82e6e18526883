import NgxEpoll.Foundation.Accesses
import NgxEpoll.Foundation.Regions
import NgxEpoll.Shmem.Runs

/-!
# The accesses of `dfs_shmem_create`

`dfs_shmem_create` with its divisions and what it maps, writes and unmaps, in the
order of the source and with the sums of a `size_t`.  Writes of single fields of one
structure are one access.

## The accesses
-/

namespace NgxEpoll
namespace Shmem

open Foundation NgxEpoll.Core

def classesDivide (levelType : LevelType) (minSize factor : Nat) : Access :=
  match levelType with
  | LevelType.linear => Access.divide factor
  | LevelType.exp => Access.divide minSize

def insertIndexDivide (shm : ShmemT) (size : Nat) : List Access :=
  if size ≤ shm.minSize then []
  else [classesDivide shm.levelType shm.minSize shm.factor]

def firstClass (shm : ShmemT) (size : Nat) : Nat :=
  if shm.freeLen ≤ getInsertIndex shm size then shm.freeLen - 1
  else getInsertIndex shm size

def writeNode (i : Nat) : Access :=
  Access.write (shmemSize + freeNodeSize * i) freeNodeSize

/-- What is done, and with it the code and what is returned; without these when the
function does not return. -/
abbrev Traced := List Access × Option (Errno × Option ShmemT)

def createMapped (minSize maxSize factor : Nat) (levelType : LevelType)
    (freeLen totalSize : Nat) : Traced :=
  let freeSize := freeNodeSize * freeLen % 2 ^ 64
  if totalSize ≤ (freeSize + shmemSize + storageSize) % 2 ^ 64 then
    ([Access.unmap], some (Errno.createTotalsizeNotEnough, none))
  else
    let nodes := (List.range freeLen).map writeNode
    let systemSize := alignment ((shmemSize + freeSize) % 2 ^ 64)
    let size := sizeSub (sizeSub totalSize systemSize) storageSize
    let filled := nodes ++ [Access.write 0 shmemSize, Access.write systemSize storageSize]
    if size < maxSize then
      (filled ++ [Access.unmap], some (Errno.createStoragesize, none))
    else
      let shm := blank levelType minSize maxSize factor freeLen totalSize systemSize
      (filled ++ insertIndexDivide shm size ++ [writeNode (firstClass shm size),
          Access.write systemSize storageSize, Access.write 0 shmemSize],
        some (Errno.none, some (insertFirst shm systemSize size)))

def createLevelsTraced (size minSize maxSize factor : Nat) (levelType : LevelType)
    (mmap : Bool) : Traced :=
  let divide := classesDivide levelType minSize factor
  match classes levelType minSize maxSize factor with
  | none => ([divide], none)
  | some n =>
      if n = 0 then ([divide], some (Errno.createFreelen, none))
      else
        let totalSize := roundUp size
        if totalSize = 0 then ([divide], some (Errno.createTotalsize, none))
        else if !mmap then ([divide], some (Errno.createMmap, none))
        else
          let r := createMapped minSize maxSize factor levelType (n + 1) totalSize
          (divide :: Access.map totalSize :: Access.write 0 shmemSize :: r.1, r.2)

def createTraced (size minSize maxSize : Nat) (levelType : Int) (factor : Nat)
    (mmap : Bool) : Traced :=
  if size = 0 then ([], some (Errno.createSize, none))
  else
    let minSize := alignment minSize
    let maxSize := alignment maxSize
    if minSize = 0 ∨ maxSize ≤ minSize then ([], some (Errno.createMinsize, none))
    else if levelType = 0 then
      createLevelsTraced size minSize maxSize (alignment factor) LevelType.linear mmap
    else if levelType = 1 then
      createLevelsTraced size minSize maxSize expFactor LevelType.exp mmap
    else ([], some (Errno.createLeveltype, none))

/-!
## What is asked of it
-/

def regions (shm : ShmemT) : List (Nat × Nat) :=
  (0, shmemSize) ::
    ((List.range shm.freeLen).map fun i => (shmemSize + freeNodeSize * i, freeNodeSize)) ++
    [(shm.stat.systemSize, storageSize + (shm.st shm.stat.systemSize).size)]

/-- The manager in a mapping of `total` bytes: the regions lie disjointly inside, and
one free storage, on the list of its class, fills the rest. -/
structure LaidOut (total : Nat) (shm : ShmemT) : Prop where
  apart : (regions shm).Pairwise RegionsApart
  inside : forall r, r ∈ regions shm -> r.1 + r.2 ≤ total
  fills : shm.stat.systemSize = shmemSize + freeNodeSize * shm.freeLen ∧
    shm.stat.systemSize + storageSize + (shm.st shm.stat.systemSize).size = total
  order : Ring shm.order (QNode.head 0) [QNode.entry shm.stat.systemSize]
  free : (shm.st shm.stat.systemSize).alloc = false
  listed : exists frees av, Lists shm frees av ∧
    forall x, (exists i, x ∈ frees i) ↔ x = shm.stat.systemSize

/-- The code and the result, with `m` bytes left mapped. -/
def Returns (m : Option Nat) : Option (Errno × Option ShmemT) -> Prop
  | none => False
  | some (e, none) => e ≠ Errno.none ∧ m = none
  | some (e, some shm) => e = Errno.none ∧ exists total, m = some total ∧ LaidOut total shm

/-- With `m` bytes mapped before: no division by zero, no write outside of the mapping,
and one of the two ends. -/
structure CreateSafe (m : Option Nat) (r : Traced) : Prop where
  safe : Safe m r.1
  returns : Returns (mapping m r.1) r.2

/-- The parameters get as far as the classes of a linear mapping. -/
def Linear (size minSize maxSize : UInt64) (levelType : Int) : Prop :=
  size ≠ 0 ∧ 0 < alignment minSize.toNat ∧
    alignment minSize.toNat < alignment maxSize.toNat ∧ levelType = 0

def linearSize (minSize maxSize factor : UInt64) : Nat :=
  let span := alignment maxSize.toNat - alignment minSize.toNat
  let step := alignment factor.toNat
  shmemSize + freeNodeSize * ((span + (step - 1)) / step + 1) + storageSize

/-- The space for the classes wraps to less than the mapping has. -/
def SpaceWraps (size minSize maxSize factor : UInt64) : Prop :=
  2 ^ 64 ≤ linearSize minSize maxSize factor ∧
    linearSize minSize maxSize factor % 2 ^ 64 < roundUp size.toNat

/-!
## The end of the function
-/

variable {minSize maxSize factor freeLen total : Nat} {levelType : LevelType}

theorem createSafe_cons {m : Option Nat} {x : Access} {l : List Access}
    {v : Option (Errno × Option ShmemT)} :
    CreateSafe m (x :: l, v) ↔ x.Allowed m ∧ CreateSafe (x.mapping m) (l, v) := by
  constructor
  · rintro ⟨⟨hx, hsafe⟩, hreturns⟩
    exact ⟨hx, hsafe, hreturns⟩
  · rintro ⟨hx, hsafe, hreturns⟩
    exact ⟨⟨hx, hsafe⟩, hreturns⟩

theorem nodes_le (hpos : 0 < freeLen)
    (h : Safe (some total) ((List.range freeLen).map writeNode)) :
    shmemSize + freeNodeSize * freeLen ≤ total := by
  have hlast := (safe_writes _ _ _).mp h (freeLen - 1) (List.mem_range.mpr (by omega))
  unfold shmemSize freeNodeSize at *
  omega

theorem firstClass_lt {shm : ShmemT} (hpos : 0 < shm.freeLen) (size : Nat) :
    firstClass shm size < shm.freeLen := by
  unfold firstClass
  split
  · omega
  · omega

theorem keeps_insertIndexDivide {shm : ShmemT} {size : Nat} (hmin : shm.minSize ≠ 0)
    (hfactor : shm.levelType = LevelType.linear -> shm.factor ≠ 0) :
    Keeps total (insertIndexDivide shm size) := by
  unfold insertIndexDivide
  split
  · exact keeps_nil
  · cases hlevel : shm.levelType with
    | linear => exact keeps_nil.divide (hfactor hlevel)
    | exp => exact keeps_nil.divide hmin

theorem regions_apart {shm : ShmemT}
    (hsystem : shm.stat.systemSize = shmemSize + freeNodeSize * shm.freeLen) :
    (regions shm).Pairwise RegionsApart := by
  unfold regions
  rw [hsystem, List.cons_append, List.pairwise_cons, List.pairwise_append, List.pairwise_map]
  unfold RegionsApart Foundation.Apart shmemSize freeNodeSize
  refine ⟨?_, ?_, List.pairwise_singleton _ _, ?_⟩
  · simp only [List.mem_append, List.mem_map, List.mem_range, List.mem_singleton]
    rintro r (⟨i, -, rfl⟩ | rfl)
    · dsimp only
      omega
    · dsimp only
      omega
  · refine List.pairwise_lt_range.imp fun {i j} hij => ?_
    dsimp only
    omega
  · simp only [List.mem_map, List.mem_range, List.mem_singleton]
    rintro r ⟨i, hi, rfl⟩ r' rfl
    dsimp only
    omega

theorem insertFirst_laidOut (hpos : 0 < freeLen)
    (hroom : shmemSize + freeNodeSize * freeLen + storageSize ≤ total) :
    LaidOut total (insertFirst
      (blank levelType minSize maxSize factor freeLen total
        (shmemSize + freeNodeSize * freeLen))
      (shmemSize + freeNodeSize * freeLen)
      (total - (shmemSize + freeNodeSize * freeLen) - storageSize)) := by
  generalize hshm : insertFirst _ _ _ = shm
  have hsystem : shm.stat.systemSize = shmemSize + freeNodeSize * freeLen := by
    rw [← hshm]
    rfl
  have hlen : shm.freeLen = freeLen := by
    rw [← hshm]
    rfl
  have hst : shm.st shm.stat.systemSize = ⟨false,
      total - (shmemSize + freeNodeSize * freeLen) - storageSize, 0,
      (shm.st shm.stat.systemSize).freeListHead⟩ := by
    rw [hsystem, ← hshm]
    simp [insertFirst]
  have hsize := congrArg Storage.size hst
  dsimp only at hsize
  refine
    { apart := regions_apart (by rw [hsystem, hlen])
      inside := ?_
      fills := ⟨by rw [hsystem, hlen], by rw [hsize, hsystem]; omega⟩
      order := ?_
      free := congrArg Storage.alloc hst
      listed := ?_ }
  · unfold regions
    rw [hsize, hsystem, hlen]
    simp only [List.cons_append, List.mem_cons, List.mem_append, List.mem_map,
      List.mem_range, List.not_mem_nil, or_false]
    unfold shmemSize freeNodeSize storageSize at *
    rintro r (rfl | ⟨i, hi, rfl⟩ | rfl)
    · dsimp only
      omega
    · dsimp only
      omega
    · dsimp only
      omega
  · rw [hsystem, ← hshm]
    exact ((ring_queueInit _ _).insertHead (by simp)).1
  · rw [hsystem, ← hshm]
    refine insertFirst_lists hpos (fun i => ?_) (ring_queueInit _ _) _ _
    exact ⟨⟨rfl, rfl, trivial⟩, List.nodup_singleton _⟩

theorem sizes_eq (hroom : shmemSize + freeNodeSize * freeLen + storageSize ≤ total)
    (htotal : total < 2 ^ 64) :
    freeNodeSize * freeLen % 2 ^ 64 = freeNodeSize * freeLen ∧
      alignment ((shmemSize + freeNodeSize * freeLen) % 2 ^ 64) =
        shmemSize + freeNodeSize * freeLen ∧
      sizeSub (sizeSub total (shmemSize + freeNodeSize * freeLen)) storageSize =
        total - (shmemSize + freeNodeSize * freeLen) - storageSize := by
  have hlt : shmemSize + freeNodeSize * freeLen < 2 ^ 64 := by omega
  refine ⟨Nat.mod_eq_of_lt (by omega), ?_, ?_⟩
  · unfold alignment
    rw [Nat.mod_eq_of_lt hlt, if_pos (by unfold shmemSize freeNodeSize; omega),
      Nat.mod_eq_of_lt hlt]
  · rw [sizeSub_eq (x := total) (by omega), sizeSub_eq (by omega)]

theorem createMapped_fits (hmin : minSize ≠ 0)
    (hfactor : levelType = LevelType.linear -> factor ≠ 0) (hpos : 0 < freeLen)
    (htotal : total < 2 ^ 64)
    (hroom : shmemSize + freeNodeSize * freeLen + storageSize < total) :
    CreateSafe (some total) (createMapped minSize maxSize factor levelType freeLen total) := by
  obtain ⟨hfree, hsystem, hsize⟩ := sizes_eq (Nat.le_of_lt hroom) htotal
  unfold createMapped
  dsimp only
  rw [hfree, if_neg (by rw [Nat.mod_eq_of_lt]; all_goals omega), hsystem, hsize]
  have hstorage : shmemSize + freeNodeSize * freeLen + storageSize ≤ total := by omega
  have hfilled : Keeps total ((List.range freeLen).map writeNode ++
      [Access.write 0 shmemSize,
        Access.write (shmemSize + freeNodeSize * freeLen) storageSize]) := by
    refine (keeps_writes fun i hi => ?_).append
      ((keeps_nil.write hstorage).write (by omega))
    rw [List.mem_range] at hi
    unfold shmemSize freeNodeSize storageSize at *
    omega
  split
  · exact ⟨hfilled.unmap.1, by decide, hfilled.unmap.2⟩
  · generalize hshm : blank levelType minSize maxSize factor freeLen total
      (shmemSize + freeNodeSize * freeLen) = shm
    generalize hn : total - (shmemSize + freeNodeSize * freeLen) - storageSize = n
    have hdivide : Keeps total (insertIndexDivide shm n) :=
      keeps_insertIndexDivide (by rw [← hshm]; exact hmin) (by rw [← hshm]; exact hfactor)
    have hlen : shm.freeLen = freeLen := by
      rw [← hshm]
      rfl
    have hclass : firstClass shm n < freeLen :=
      hlen ▸ firstClass_lt (hlen ▸ hpos) n
    have hnode : shmemSize + freeNodeSize * firstClass shm n + freeNodeSize ≤ total := by
      unfold shmemSize freeNodeSize storageSize at *
      omega
    have hall := (hfilled.append hdivide).append
      (((keeps_nil.write (a := 0) (n := shmemSize) (by omega)).write hstorage).write hnode)
    refine ⟨hall.safe, rfl, total, hall.mapped, ?_⟩
    rw [← hshm, ← hn]
    exact insertFirst_laidOut hpos (Nat.le_of_lt hroom)

theorem createMapped_refused
    (hless : total ≤ (shmemSize + freeNodeSize * freeLen + storageSize) % 2 ^ 64) :
    createMapped minSize maxSize factor levelType freeLen total =
      ([Access.unmap], some (Errno.createTotalsizeNotEnough, none)) := by
  unfold createMapped
  dsimp only
  rw [if_pos (by omega)]

theorem createMapped_wraps (hpos : 0 < freeLen)
    (htotal : total < 2 ^ 64 ∧ total % pageSize = 0)
    (hwraps : 2 ^ 64 ≤ shmemSize + freeNodeSize * freeLen + storageSize)
    (hless : (shmemSize + freeNodeSize * freeLen + storageSize) % 2 ^ 64 < total) :
    ¬ Safe (some total) (createMapped minSize maxSize factor levelType freeLen total).1 := by
  unfold createMapped
  dsimp only
  rw [if_neg (by omega)]
  intro h
  have hnodes : Safe (some total) ((List.range freeLen).map writeNode) := by
    split at h
    · simp only [List.append_assoc, safe_append] at h
      exact h.1
    · simp only [List.append_assoc, safe_append] at h
      exact h.1
  have hroom := nodes_le hpos hnodes
  unfold storageSize pageSize at *
  omega

theorem createMapped_safe (hmin : minSize ≠ 0)
    (hfactor : levelType = LevelType.linear -> factor ≠ 0) (hpos : 0 < freeLen)
    (htotal : total < 2 ^ 64 ∧ total % pageSize = 0) :
    CreateSafe (some total) (createMapped minSize maxSize factor levelType freeLen total) ↔
      ¬ (2 ^ 64 ≤ shmemSize + freeNodeSize * freeLen + storageSize ∧
        (shmemSize + freeNodeSize * freeLen + storageSize) % 2 ^ 64 < total) := by
  by_cases hless : total ≤ (shmemSize + freeNodeSize * freeLen + storageSize) % 2 ^ 64
  · rw [createMapped_refused hless]
    exact iff_of_true ⟨⟨trivial, trivial⟩, by decide, rfl⟩ (by omega)
  rw [Nat.not_le] at hless
  by_cases hwraps : 2 ^ 64 ≤ shmemSize + freeNodeSize * freeLen + storageSize
  · exact iff_of_false (fun h => createMapped_wraps hpos htotal hwraps hless h.safe)
      (fun h => h ⟨hwraps, hless⟩)
  · refine iff_of_true ?_ (not_and_of_not_left _ hwraps)
    rw [Nat.mod_eq_of_lt (by omega)] at hless
    exact createMapped_fits hmin hfactor hpos htotal.1 hless

/-!
## The whole function
-/

theorem classes_linear {step : Nat} (hstep : step ≠ 0) :
    classes LevelType.linear minSize maxSize step =
      some ((maxSize - minSize + (step - 1)) / step) := by
  unfold classes
  dsimp only
  rw [if_neg hstep]
  generalize maxSize - minSize = span
  congr 1
  have hdiv := Nat.div_add_mod span step
  have hmod := Nat.mod_lt span (Nat.pos_of_ne_zero hstep)
  generalize span / step = q at *
  generalize span % step = r at *
  subst hdiv
  split
  · rename_i hr
    subst hr
    rw [Nat.add_zero, Nat.add_zero, Nat.mul_add_div (Nat.pos_of_ne_zero hstep),
      Nat.div_eq_of_lt (by omega), Nat.add_zero]
  · rw [Nat.add_assoc, Nat.mul_add_div (Nat.pos_of_ne_zero hstep)]
    congr 1
    symm
    rw [Nat.div_eq_iff (Nat.pos_of_ne_zero hstep)]
    omega

theorem classes_exp (hmax : maxSize < 2 ^ 64) :
    exists n, classes LevelType.exp minSize maxSize factor = some n ∧ n ≤ 64 := by
  refine ⟨_, rfl, ?_⟩
  generalize hpower : maxSize / minSize + (if maxSize % minSize = 0 then 0 else 1) = power
  by_cases hzero : power = 0
  · subst hzero
    decide
  · refine (dfsMathDfslog2_up_le hzero 64).mpr ?_
    have hdiv : maxSize / minSize ≤ maxSize := Nat.div_le_self ..
    split at hpower
    · omega
    · omega

theorem classesDivide_allowed {m : Option Nat} (hmin : minSize ≠ 0)
    (hfactor : levelType = LevelType.linear -> factor ≠ 0) :
    (classesDivide levelType minSize factor).Allowed m ∧
      (classesDivide levelType minSize factor).mapping m = m := by
  cases levelType with
  | linear => exact ⟨hfactor rfl, rfl⟩
  | exp => exact ⟨hmin, rfl⟩

theorem createLevelsTraced_safe {size n : Nat} {mmap : Bool} (hmin : minSize ≠ 0)
    (hfactor : levelType = LevelType.linear -> factor ≠ 0)
    (hclasses : classes levelType minSize maxSize factor = some n) (hn : n ≠ 0) :
    CreateSafe none (createLevelsTraced size minSize maxSize factor levelType mmap) ↔
      ¬ (mmap = true ∧ 2 ^ 64 ≤ shmemSize + freeNodeSize * (n + 1) + storageSize ∧
        (shmemSize + freeNodeSize * (n + 1) + storageSize) % 2 ^ 64 < roundUp size) := by
  obtain ⟨hdivide, hmapping⟩ := classesDivide_allowed hmin hfactor
  have hearly : forall e, e ≠ Errno.none ->
      CreateSafe none ([classesDivide levelType minSize factor], some (e, none)) :=
    fun e he => ⟨⟨hdivide, trivial⟩, he, hmapping⟩
  unfold createLevelsTraced
  rw [hclasses]
  dsimp only
  rw [if_neg hn]
  by_cases htotal : roundUp size = 0
  · rw [if_pos htotal]
    refine iff_of_true (hearly _ (by decide)) ?_
    rintro ⟨-, -, hlt⟩
    omega
  · rw [if_neg htotal]
    cases mmap with
    | false => exact iff_of_true (hearly _ (by decide)) (fun h => Bool.noConfusion h.1)
    | true =>
        obtain ⟨hlt, hpage⟩ := roundUp_lt size
        have hheader : 0 + shmemSize ≤ roundUp size := by
          unfold shmemSize pageSize at *
          omega
        rw [if_neg (by decide), createSafe_cons, createSafe_cons, createSafe_cons,
          hmapping, and_iff_right hdivide]
        refine (and_iff_right trivial).trans ((and_iff_right hheader).trans ?_)
        exact (createMapped_safe hmin hfactor (Nat.succ_pos n) ⟨hlt, hpage⟩).trans
          (not_congr (and_iff_right rfl).symm)

theorem factor_ne_zero {n : Nat}
    (hclasses : classes levelType minSize maxSize factor = some n)
    (hlinear : levelType = LevelType.linear) : factor ≠ 0 := by
  subst hlinear
  intro hzero
  subst hzero
  cases hclasses

def Traced.result (m : Option Nat) (r : Traced) : CreateResult :=
  if Safe m r.1 then
    match r.2 with
    | none => CreateResult.crashed
    | some (e, none) => CreateResult.failed e
    | some (_, some shm) => CreateResult.created shm
  else CreateResult.crashed

theorem result_of_safe {m : Option Nat} {r : Traced} (h : Safe m r.1) :
    r.result m =
      match r.2 with
      | none => CreateResult.crashed
      | some (e, none) => CreateResult.failed e
      | some (_, some shm) => CreateResult.created shm :=
  if_pos h

theorem result_cons {m : Option Nat} {x : Access} {l : List Access}
    {v : Option (Errno × Option ShmemT)} (hx : x.Allowed m) :
    Traced.result m (x :: l, v) = Traced.result (x.mapping m) (l, v) := by
  unfold Traced.result
  simp only [safe_cons, hx, true_and]

theorem createMapped_result (hmin : minSize ≠ 0)
    (hfactor : levelType = LevelType.linear -> factor ≠ 0) (hpos : 0 < freeLen)
    (htotal : total < 2 ^ 64 ∧ total % pageSize = 0) :
    (createMapped minSize maxSize factor levelType freeLen total).result (some total) =
      if total ≤ (freeNodeSize * freeLen + shmemSize + storageSize) % 2 ^ 64 then
        CreateResult.failed Errno.createTotalsizeNotEnough
      else if total < shmemSize + freeNodeSize * freeLen then CreateResult.crashed
      else
        let systemSize := alignment (shmemSize + freeNodeSize * freeLen)
        if total - systemSize - storageSize < maxSize then
          CreateResult.failed Errno.createStoragesize
        else
          CreateResult.created (insertFirst
            (blank levelType minSize maxSize factor freeLen total systemSize)
            systemSize (total - systemSize - storageSize)) := by
  rw [Nat.add_comm (freeNodeSize * freeLen) shmemSize]
  by_cases hless : total ≤ (shmemSize + freeNodeSize * freeLen + storageSize) % 2 ^ 64
  · rw [createMapped_refused hless, if_pos hless]
    exact result_of_safe ⟨trivial, trivial⟩
  rw [if_neg hless]
  rw [Nat.not_le] at hless
  by_cases hwraps : 2 ^ 64 ≤ shmemSize + freeNodeSize * freeLen + storageSize
  · rw [if_pos (by unfold storageSize pageSize at *; omega)]
    exact if_neg (createMapped_wraps hpos htotal hwraps hless)
  rw [Nat.mod_eq_of_lt (by omega)] at hless
  rw [result_of_safe (createMapped_fits hmin hfactor hpos htotal.1 hless).safe,
    if_neg (by omega)]
  obtain ⟨hfree, hsystem, hsize⟩ := sizes_eq (Nat.le_of_lt hless) htotal.1
  have haligned := hsystem
  rw [Nat.mod_eq_of_lt (by omega)] at haligned
  unfold createMapped
  dsimp only
  rw [hfree, if_neg (by rw [Nat.mod_eq_of_lt]; all_goals omega), hsystem, hsize, haligned]
  by_cases hfits : total - (shmemSize + freeNodeSize * freeLen) - storageSize < maxSize
  · rw [if_pos hfits, if_pos hfits]
  · rw [if_neg hfits, if_neg hfits]

theorem createLevels_eq_result (size : Nat) (mmap : Bool) (hmin : minSize ≠ 0) :
    createLevels size minSize maxSize factor levelType mmap =
      (createLevelsTraced size minSize maxSize factor levelType mmap).result none := by
  unfold createLevels createLevelsTraced
  cases hclasses : classes levelType minSize maxSize factor with
  | none => exact (ite_self _).symm
  | some n =>
      have hfactor := factor_ne_zero hclasses
      obtain ⟨hdivide, hmapping⟩ := @classesDivide_allowed _ _ _ none hmin hfactor
      have hearly : forall e, CreateResult.failed e =
          Traced.result none ([classesDivide levelType minSize factor], some (e, none)) :=
        fun e => (if_pos ⟨hdivide, trivial⟩).symm
      dsimp only
      by_cases hn : n = 0
      · rw [if_pos hn, if_pos hn]
        exact hearly _
      rw [if_neg hn, if_neg hn]
      by_cases htotal : roundUp size = 0
      · rw [if_pos htotal, if_pos htotal]
        exact hearly _
      rw [if_neg htotal, if_neg htotal]
      cases mmap with
      | false => exact hearly _
      | true =>
          have hpage := roundUp_lt size
          have hheader : (Access.write 0 shmemSize).Allowed (some (roundUp size)) := by
            change 0 + shmemSize ≤ roundUp size
            unfold shmemSize pageSize at *
            omega
          have hmmap : ¬ (!true) = true := by decide
          have hmap : (Access.map (roundUp size)).Allowed none := trivial
          rw [if_neg hmmap, if_neg hmmap, result_cons hdivide, hmapping, result_cons hmap]
          refine Eq.trans ?_ (result_cons hheader).symm
          exact (createMapped_result hmin hfactor (Nat.succ_pos n) hpage).symm

theorem create_eq_result (size minSize maxSize : Nat) (levelType : Int) (factor : Nat)
    (mmap : Bool) :
    create size minSize maxSize levelType factor mmap =
      (createTraced size minSize maxSize levelType factor mmap).result none := by
  unfold create createTraced
  dsimp only
  split
  · rfl
  split
  · rfl
  rename_i hlimits
  have hmin := (not_or.mp hlimits).1
  split
  · exact createLevels_eq_result size mmap hmin
  split
  · exact createLevels_eq_result size mmap hmin
  · rfl

theorem createLinear_safe {size step : Nat} {mmap : Bool} (hmin : minSize ≠ 0)
    (hlt : minSize < maxSize) :
    CreateSafe none
        (createLevelsTraced size minSize maxSize step LevelType.linear mmap) ↔
      ¬ (step = 0 ∨ mmap = true ∧
        2 ^ 64 ≤ shmemSize + freeNodeSize * ((maxSize - minSize + (step - 1)) / step + 1) +
          storageSize ∧
        (shmemSize + freeNodeSize * ((maxSize - minSize + (step - 1)) / step + 1) +
          storageSize) % 2 ^ 64 < roundUp size) := by
  by_cases hstep : step = 0
  · subst hstep
    refine iff_of_false (fun h => ?_) (fun h => h (Or.inl rfl))
    exact h.safe.1 rfl
  · have hdiv := Nat.div_pos (show step ≤ maxSize - minSize + (step - 1) by omega)
      (Nat.pos_of_ne_zero hstep)
    rw [or_iff_right hstep]
    exact createLevelsTraced_safe hmin (fun _ => hstep) (classes_linear hstep)
      (Nat.ne_of_gt hdiv)

theorem createExp_safe {size : Nat} {mmap : Bool} (hmin : minSize ≠ 0)
    (hmax : maxSize < 2 ^ 64) :
    CreateSafe none
      (createLevelsTraced size minSize maxSize expFactor LevelType.exp mmap) := by
  obtain ⟨n, hclasses, hle⟩ := @classes_exp minSize maxSize expFactor hmax
  by_cases hn : n = 0
  · subst hn
    unfold createLevelsTraced
    rw [hclasses]
    exact ⟨⟨hmin, trivial⟩, by decide, rfl⟩
  · refine (createLevelsTraced_safe hmin (fun h => ?_) hclasses hn).mpr ?_
    · cases h
    · rintro ⟨-, hwraps, -⟩
      unfold shmemSize freeNodeSize storageSize at hwraps
      omega

/-- `dfs_shmem_create` meets what is asked of it, unless a linear mapping has the
factor 0 or the space for its classes wraps. -/
theorem create_safe_iff (size minSize maxSize : UInt64) (levelType : Int)
    (factor : UInt64) (mmap : Bool) :
    CreateSafe none (createTraced size.toNat minSize.toNat maxSize.toNat levelType
        factor.toNat mmap) ↔
      ¬ (Linear size minSize maxSize levelType ∧ (alignment factor.toNat = 0 ∨
        mmap = true ∧ SpaceWraps size minSize maxSize factor)) := by
  have hearly : forall e, e ≠ Errno.none -> CreateSafe none ([], some (e, none)) :=
    fun e he => ⟨trivial, he, rfl⟩
  unfold createTraced Linear
  by_cases hsize : size.toNat = 0
  · rw [if_pos hsize]
    refine iff_of_true (hearly _ (by decide)) ?_
    rintro ⟨⟨hne, -⟩, -⟩
    exact hne (UInt64.toNat_inj.mp hsize)
  rw [if_neg hsize]
  have hne : size ≠ 0 := fun h => hsize (congrArg UInt64.toNat h)
  have hmax : alignment maxSize.toNat < 2 ^ 64 := Nat.mod_lt _ (by decide)
  unfold SpaceWraps linearSize
  dsimp only
  generalize alignment minSize.toNat = min at *
  generalize alignment maxSize.toNat = max at *
  generalize alignment factor.toNat = step at *
  by_cases hlimits : min = 0 ∨ max ≤ min
  · rw [if_pos hlimits]
    refine iff_of_true (hearly _ (by decide)) ?_
    rintro ⟨⟨-, hpos, hlt, -⟩, -⟩
    omega
  rw [if_neg hlimits]
  rw [not_or, Nat.not_le] at hlimits
  by_cases hlinear : levelType = 0
  · rw [if_pos hlinear]
    have hpassed : size ≠ 0 ∧ 0 < min ∧ min < max ∧ levelType = 0 :=
      ⟨hne, Nat.pos_of_ne_zero hlimits.1, hlimits.2, hlinear⟩
    rw [and_iff_right hpassed]
    exact createLinear_safe hlimits.1 hlimits.2
  · rw [if_neg hlinear]
    have hnot : ¬ (size ≠ 0 ∧ 0 < min ∧ min < max ∧ levelType = 0) :=
      fun h => hlinear h.2.2.2
    refine iff_of_true ?_ (fun h => hnot h.1)
    split
    · exact createExp_safe hlimits.1 hmax
    · exact hearly _ (by decide)

/-- A linear mapping with the factor 0, and one of two pages with so many classes that
their space wraps to 256 bytes. -/
theorem create_safe_factor_zero :
    ¬ CreateSafe none (createTraced (2 ^ 20) 8 64 0 0 true) ∧
      ¬ CreateSafe none (createTraced 8192 8 3689348814741910328 0 8 true) := by
  refine ⟨fun h => h.safe.1 rfl, fun h => ?_⟩
  have hclasses : classes LevelType.linear 8 3689348814741910328 8 =
      some 461168601842738790 := by decide
  have hcalls : createTraced 8192 8 3689348814741910328 0 8 true =
      createLevelsTraced 8192 8 3689348814741910328 8 LevelType.linear true := by
    unfold createTraced
    rw [if_neg (by decide)]
    dsimp only
    rw [if_neg (by decide), if_pos rfl]
    rfl
  rw [hcalls] at h
  have hsafe := (createLevelsTraced_safe (by decide) (fun _ => by decide) hclasses
    (by decide)).mp h
  exact hsafe (by decide)

end Shmem
end NgxEpoll
