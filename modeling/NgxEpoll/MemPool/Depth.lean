import NgxEpoll.MemPool.Runs

/-!
# The depth of `pool_alloc`

A large region needs a descriptor, which `pool_alloc_large` takes from `pool_alloc`.
Here the calls of the two functions are counted.

## Calls within a depth
-/

namespace NgxEpoll
namespace MemPool

open Foundation NgxEpoll.Core

variable {M : Malloc}

/-- `pool_alloc_large`, where `inner` stands for `pool_alloc`. -/
def allocLargeBy (inner : World M -> Nat -> Option (Option Nat × World M)) (w : World M)
    (size : Nat) : Option (Option Nat × World M) :=
  match memoryAlloc w.heap size with
  | (none, heap) => some (none, { w with heap := heap })
  | (some p, heap) =>
      match inner { w with heap := heap } poolLargeSize with
      | none => none
      | some (none, w) => some (none, { w with heap := memoryFree w.heap p })
      | some (some l, w) => some (some p, linkLarge w l p size)

/-- `pool_alloc` with at most `depth` calls of it inside each other, the first one
included. -/
def allocIn : Nat -> World M -> Nat -> Option (Option Nat × World M)
  | 0, _, _ => none
  | depth + 1, w, size =>
      if size = 0 then some (none, w)
      else if size ≤ w.pool.max then some (allocSmall w size)
      else allocLargeBy (allocIn depth) w size

theorem allocIn_succ (depth : Nat) (w : World M) (size : Nat) :
    allocIn (depth + 1) w size =
      if size = 0 then some (none, w)
      else if size ≤ w.pool.max then some (allocSmall w size)
      else allocLargeBy (allocIn depth) w size := rfl

theorem allocLargeBy_none {inner : World M -> Nat -> Option (Option Nat × World M)}
    {w : World M} {size : Nat} {heap : M.State}
    (h : memoryAlloc w.heap size = (none, heap)) :
    allocLargeBy inner w size = some (none, { w with heap := heap }) := by
  unfold allocLargeBy
  rw [h]

theorem allocLargeBy_some {inner : World M -> Nat -> Option (Option Nat × World M)}
    {w : World M} {size p : Nat} {heap : M.State}
    (h : memoryAlloc w.heap size = (some p, heap)) :
    allocLargeBy inner w size =
      (inner { w with heap := heap } poolLargeSize).map fun r =>
        match r with
        | (none, w) => (none, { w with heap := memoryFree w.heap p })
        | (some l, w) => (some p, linkLarge w l p size) := by
  unfold allocLargeBy
  rw [h]
  dsimp only
  cases inner { w with heap := heap } poolLargeSize with
  | none => rfl
  | some r =>
      obtain ⟨l, w⟩ := r
      cases l with
      | none => rfl
      | some l => rfl

def Extends (inner inner' : World M -> Nat -> Option (Option Nat × World M)) : Prop :=
  forall w size r, inner w size = some r -> inner' w size = some r

theorem Extends.allocLargeBy {inner inner' : World M -> Nat -> Option (Option Nat × World M)}
    (h : Extends inner inner') : Extends (allocLargeBy inner) (allocLargeBy inner') := by
  intro w size r heq
  cases hmalloc : memoryAlloc w.heap size with
  | mk p heap =>
      cases p with
      | none =>
          rw [allocLargeBy_none hmalloc] at heq ⊢
          exact heq
      | some p =>
          rw [allocLargeBy_some hmalloc] at heq ⊢
          obtain ⟨r', hinner, rfl⟩ := Option.map_eq_some_iff.mp heq
          rw [h _ _ _ hinner]
          rfl

theorem alloc_extends : Extends (M := M) alloc (allocIn 2) := by
  intro w size r heq
  unfold alloc at heq
  rw [allocIn_succ]
  by_cases hzero : size = 0
  · rw [if_pos hzero] at heq ⊢
    exact heq
  rw [if_neg hzero] at heq ⊢
  by_cases hsmall : size ≤ w.pool.max
  · rw [if_pos hsmall] at heq ⊢
    exact heq
  rw [if_neg hsmall] at heq ⊢
  unfold allocLarge at heq
  split at heq
  · rename_i hmalloc
    rw [allocLargeBy_none hmalloc]
    exact heq
  · rename_i p heap hmalloc
    split at heq
    · cases heq
    · rename_i hmax
      rw [allocLargeBy_some hmalloc, allocIn_succ, if_neg (by decide),
        if_pos (Nat.not_lt.mp hmax)]
      cases hr : allocSmall { w with heap := heap } poolLargeSize with
      | mk l w1 =>
          rw [hr] at heq
          cases l with
          | none => exact heq
          | some l => exact heq

/-- With a descriptor that is large, and a `malloc` that always has memory, the calls
do not end. -/
theorem allocIn_endless (hmalloc : forall heap n, (M.malloc heap n).1 ≠ none) (depth : Nat)
    (w : World M) {size : Nat} (hmax : w.pool.max < poolLargeSize)
    (hsize : w.pool.max < size) : allocIn depth w size = none := by
  induction depth generalizing w size with
  | zero => rfl
  | succ depth ih =>
      rw [allocIn_succ, if_neg (by omega), if_neg (by omega)]
      cases h : memoryAlloc w.heap size with
      | mk p heap =>
          cases p with
          | none =>
              rw [memoryAlloc, if_neg (by omega)] at h
              exact absurd (congrArg Prod.fst h) (hmalloc _ _)
          | some p =>
              rw [allocLargeBy_some h, ih { w with heap := heap } hmax hmax]
              rfl

/-!
## The condition
-/

def poolMax (size maxSize : Nat) : Nat :=
  min (if size < poolSize then size else size - poolSize) maxSize

/-- One of the two calls of `malloc` for a large region fails: that for the region or
that for its descriptor. -/
def Refuses (M : Malloc) (heap : M.State) (size : Nat) : Prop :=
  match M.malloc heap size with
  | (none, _) => True
  | (some _, heap) => (M.malloc heap poolLargeSize).1 = none

instance (heap : M.State) (size : Nat) : Decidable (Refuses M heap size) := by
  unfold Refuses
  split <;> infer_instance

theorem create_max {heap heap' : M.State} {size maxSize : Nat} {pool : PoolT}
    (h : create heap size maxSize = (some pool, heap')) :
    pool.max = poolMax size maxSize := by
  unfold create at h
  split at h
  · cases h
  dsimp only at h
  split at h
  · cases h
  · cases h
    unfold poolMax poolSize
    dsimp only
    split
    · split
      · omega
      · omega
    · split
      · omega
      · omega

theorem memoryAlloc_eq {heap : M.State} {size : Nat} (hsize : size ≠ 0) :
    memoryAlloc heap size = M.malloc heap size :=
  if_neg hsize

theorem allocIn_one_isSome (w : World M) {size : Nat} (hsize : size ≠ 0)
    (hlarge : w.pool.max < size) :
    (allocIn 1 w size).isSome = true ↔ (M.malloc w.heap size).1 = none := by
  rw [allocIn_succ, if_neg hsize, if_neg (Nat.not_le.mpr hlarge)]
  cases h : M.malloc w.heap size with
  | mk p heap =>
      rw [← memoryAlloc_eq hsize] at h
      cases p with
      | none =>
          rw [allocLargeBy_none h]
          exact iff_of_true rfl rfl
      | some p =>
          rw [allocLargeBy_some h]
          exact iff_of_false Bool.false_ne_true nofun

theorem allocIn_two_isSome (w : World M) (size : Nat) :
    (allocIn 2 w size).isSome = true ↔
      size ≤ w.pool.max ∨ poolLargeSize ≤ w.pool.max ∨ Refuses M w.heap size := by
  rw [allocIn_succ]
  by_cases hsmall : size ≤ w.pool.max
  · refine iff_of_true ?_ (Or.inl hsmall)
    rw [if_pos hsmall]
    split
    · rfl
    · rfl
  have hsize : size ≠ 0 := by omega
  rw [or_iff_right hsmall, if_neg hsize, if_neg hsmall]
  unfold Refuses
  rw [← memoryAlloc_eq hsize]
  cases h : memoryAlloc w.heap size with
  | mk p heap =>
      cases p with
      | none =>
          rw [allocLargeBy_none h]
          exact iff_of_true rfl (Or.inr trivial)
      | some p =>
          rw [allocLargeBy_some h, Option.isSome_map]
          by_cases hmax : poolLargeSize ≤ w.pool.max
          · rw [allocIn_succ, if_neg (by decide), if_pos hmax]
            exact iff_of_true rfl (Or.inl hmax)
          · rw [or_iff_right hmax]
            exact allocIn_one_isSome { w with heap := heap } (by decide) (Nat.not_le.mp hmax)

/-!
## No call changes `max`
-/

theorem allocSmall_max (w : World M) (size : Nat) :
    (allocSmall w size).2.pool.max = w.pool.max := by
  unfold allocSmall allocBlock
  split
  · rfl
  · split
    · rfl
    · split
      · rfl
      · rfl

theorem allocIn_max {depth : Nat} {w : World M} {size : Nat} {r : Option Nat × World M}
    (h : allocIn depth w size = some r) : r.2.pool.max = w.pool.max := by
  induction depth generalizing w size r with
  | zero => cases h
  | succ depth ih =>
      rw [allocIn_succ] at h
      split at h
      · cases h
        rfl
      split at h
      · cases h
        exact allocSmall_max w size
      cases hmalloc : memoryAlloc w.heap size with
      | mk p heap =>
          cases p with
          | none =>
              rw [allocLargeBy_none hmalloc] at h
              cases h
              rfl
          | some p =>
              rw [allocLargeBy_some hmalloc] at h
              obtain ⟨⟨l, w1⟩, hinner, rfl⟩ := Option.map_eq_some_iff.mp h
              have hmax := ih hinner
              cases l with
              | none => exact hmax
              | some l => exact hmax

theorem alloc_max {w : World M} {size : Nat} {r : Option Nat × World M}
    (h : alloc w size = some r) : r.2.pool.max = w.pool.max :=
  allocIn_max (alloc_extends w size r h)

theorem calloc_max {w : World M} {size : Nat} {r : Option Nat × World M}
    (h : calloc w size = some r) : r.2.pool.max = w.pool.max := by
  unfold calloc at h
  split at h
  · cases h
  · rename_i heq
    have hmax := alloc_max heq
    cases h
    exact hmax
  · rename_i heq
    have hmax := alloc_max heq
    cases h
    exact hmax

theorem arrayCreate_max {w : World M} {n size : Nat} {r : Option Nat × World M}
    (h : arrayCreate w n size = some r) : r.2.pool.max = w.pool.max := by
  unfold arrayCreate at h
  split at h
  · cases h
    rfl
  split at h
  · cases h
  · cases h
  rename_i hheader
  split at h
  · cases h
  · rename_i helts
    cases h
    exact (alloc_max helts).trans (alloc_max hheader)
  · rename_i helts
    cases h
    exact (alloc_max helts).trans (alloc_max hheader)

theorem arrayPush_max {w : World M} {a : Nat} {r : Option Nat × World M}
    (h : arrayPush w a = some r) : r.2.pool.max = w.pool.max := by
  unfold arrayPush at h
  dsimp only at h
  split at h
  · split at h
    · cases h
      rfl
    split at h
    · cases h
    split at h
    · cases h
      rfl
    split at h
    · cases h
    · rename_i heq
      have hmax := alloc_max heq
      cases h
      exact hmax
    · rename_i heq
      have hmax := alloc_max heq
      cases h
      exact hmax
  · cases h
    rfl

theorem giveBack_max (w : World M) (r : Nat × Nat) :
    (giveBack w r).pool.max = w.pool.max := by
  unfold giveBack
  split
  · rfl
  · rfl

theorem freeLarge_max {clear : Bool} {turns l : Nat} {w : World M} {r : List Nat × World M}
    (h : freeLarge clear turns w l = some r) : r.2.pool.max = w.pool.max := by
  induction turns generalizing w l r with
  | zero =>
      unfold freeLarge at h
      split at h
      · cases h
        rfl
      · cases h
  | succ turns ih =>
      unfold freeLarge at h
      dsimp only at h
      split at h
      · cases h
        rfl
      split at h
      · split at h
        · exact ih h
        · obtain ⟨r', heq, rfl⟩ := Option.map_eq_some_iff.mp h
          exact (ih heq).trans rfl
      · cases h

theorem step_max {s s' : System M} {c : Call} (h : step s c = some s') :
    s'.world.pool.max = s.world.pool.max := by
  unfold step at h
  cases c with
  | alloc size =>
      obtain ⟨r, heq, rfl⟩ := Option.map_eq_some_iff.mp h
      exact alloc_max heq
  | calloc size =>
      obtain ⟨r, heq, rfl⟩ := Option.map_eq_some_iff.mp h
      exact calloc_max heq
  | arrayCreate n size =>
      obtain ⟨r, heq, rfl⟩ := Option.map_eq_some_iff.mp h
      exact arrayCreate_max heq
  | arrayPush a =>
      obtain ⟨r, heq, rfl⟩ := Option.map_eq_some_iff.mp h
      exact arrayPush_max heq
  | arrayDestroy a =>
      obtain ⟨w, heq, rfl⟩ := Option.map_eq_some_iff.mp h
      unfold arrayDestroy at heq
      dsimp only at heq
      split at heq
      · cases heq
        rfl
      split at heq
      · cases heq
      · cases heq
        exact (giveBack_max _ _).trans (giveBack_max _ _)
  | write addr bytes =>
      cases h
      rfl
  | reset turns =>
      obtain ⟨r, heq, rfl⟩ := Option.map_eq_some_iff.mp h
      unfold reset at heq
      obtain ⟨r', hfree, rfl⟩ := Option.map_eq_some_iff.mp heq
      exact freeLarge_max hfree

/-!
## Two calls
-/

/-- In every run of a pool from `pool_create`, a request ends within two calls of
`pool_alloc` exactly when it is not large, or a descriptor is not, or `malloc` fails. -/
theorem alloc_ends_iff {heap heap' : M.State} {size maxSize : Nat} {pool : PoolT}
    (hcreate : create heap size maxSize = (some pool, heap')) {mem : Mem} {s : System M}
    (hrun : Reaches step Always ⟨⟨pool, mem, heap'⟩, [], []⟩ s) (req : Nat) :
    (allocIn 2 s.world req).isSome = true ↔
      req ≤ poolMax size maxSize ∨ poolLargeSize ≤ poolMax size maxSize ∨
        Refuses M s.world.heap req := by
  have hmax := hrun.invariant (fun t => t.world.pool.max = pool.max)
    (fun t c u ht _ hstep => (step_max hstep).trans ht) rfl
  rw [allocIn_two_isSome, hmax, create_max hcreate]

theorem alloc_ends_iff_page :
    create (M := stack) [] 4096 4096 = (some page.world.pool, page.world.heap) ∧
      (allocIn 2 page.world 5000).isSome = true := by
  have hends := alloc_ends_iff page_created (Reaches.refl page) 5000
  exact ⟨page_created, hends.mpr (Or.inr (Or.inl (by decide)))⟩

def tiny : System stack :=
  let r := create (M := stack) [] 8 4096
  ⟨⟨r.1.get rfl, fun _ => 0, r.2⟩, [], []⟩

theorem alloc_ends_tiny :
    create (M := stack) [] 8 4096 = (some tiny.world.pool, tiny.world.heap) ∧
      ¬ (allocIn 2 tiny.world 100).isSome = true := by
  refine ⟨rfl, ?_⟩
  rw [allocIn_two_isSome]
  decide

end MemPool
end NgxEpoll
