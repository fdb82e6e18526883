import Mathlib.Data.List.Basic
import Mathlib.Data.List.Perm.Basic
import Mathlib.Logic.Function.Basic

/-!
# What the rows of a table hold

A table gives a list of items for every row.  When one row changes, the items of
all rows are the same, up to their order, but for what the row held and what it
holds now.
-/

namespace NgxEpoll
namespace Foundation

variable {item : Type}

def gather (f : Nat -> List item) (n : Nat) : List item :=
  (List.range n).flatMap f

theorem gather_succ (f : Nat -> List item) (n : Nat) :
    gather f (n + 1) = gather f n ++ f n := by
  simp only [gather, List.range_succ, List.flatMap_append, List.flatMap_singleton]

theorem mem_gather {f : Nat -> List item} {n : Nat} {x : item} :
    x ∈ gather f n ↔ exists i, i < n ∧ x ∈ f i := by
  simp only [gather, List.mem_flatMap, List.mem_range]

theorem gather_congr {f g : Nat -> List item} {n : Nat}
    (h : forall i, i < n -> f i = g i) : gather f n = gather g n := by
  induction n with
  | zero => rfl
  | succ n ih =>
      rw [gather_succ, gather_succ, h n (Nat.lt_succ_self n),
        ih (fun i hi => h i (Nat.lt_succ_of_lt hi))]

theorem gather_of_nil {f : Nat -> List item} {n k : Nat}
    (h : forall i, n ≤ i -> f i = []) (hle : n ≤ k) : gather f k = gather f n := by
  induction k with
  | zero =>
      have hzero : n = 0 := Nat.le_zero.mp hle
      rw [hzero]
  | succ k ih =>
      rcases Nat.lt_or_ge k n with hlt | hge
      · have heq : n = k + 1 := Nat.le_antisymm hle hlt
        rw [heq]
      · rw [gather_succ, h k hge, List.append_nil]
        exact ih hge

/-- Where two tables differ in row `i` only, their items differ in those of row `i`. -/
theorem gather_perm {f g : Nat -> List item} {n i : Nat} (hi : i < n)
    (h : forall j, j ≠ i -> g j = f j) : (f i ++ gather g n).Perm (g i ++ gather f n) := by
  induction n with
  | zero => exact absurd hi (Nat.not_lt_zero i)
  | succ n ih =>
      rw [gather_succ, gather_succ]
      rcases Nat.lt_succ_iff_lt_or_eq.mp hi with hlt | heq
      · rw [h n (Nat.ne_of_gt hlt), ← List.append_assoc, ← List.append_assoc]
        exact (ih hlt).append_right (f n)
      · have hrest : gather g n = gather f n :=
          gather_congr fun j hj => h j (by rw [heq]; exact Nat.ne_of_lt hj)
        rw [hrest, heq]
        have hswap : (gather f n ++ g n).Perm (g n ++ gather f n) :=
          List.perm_append_comm
        rw [← List.append_assoc (g n)]
        exact List.perm_append_comm.trans (hswap.append_right (f n))

theorem gather_fill {f g : Nat -> List item} {n i : Nat} (hi : i < n)
    (h : forall j, j ≠ i -> g j = f j) (hnil : f i = []) :
    (gather g n).Perm (g i ++ gather f n) := by
  have hperm := gather_perm hi h
  rw [hnil, List.nil_append] at hperm
  exact hperm

theorem gather_clear {f g : Nat -> List item} {n i : Nat} (hi : i < n)
    (h : forall j, j ≠ i -> g j = f j) (hnil : g i = []) :
    (gather f n).Perm (f i ++ gather g n) := by
  have hperm := gather_perm hi h
  rw [hnil, List.nil_append] at hperm
  exact hperm.symm

theorem gather_nodup_row {f : Nat -> List item} {n i j : Nat} {x : item}
    (h : (gather f n).Nodup) (hi : i < n) (hj : j < n) (hxi : x ∈ f i) (hxj : x ∈ f j) :
    i = j := by
  induction n with
  | zero => exact absurd hi (Nat.not_lt_zero i)
  | succ n ih =>
      rw [gather_succ] at h
      have hapart := List.nodup_append.mp h
      rcases Nat.lt_succ_iff_lt_or_eq.mp hi with hlti | heqi
      · rcases Nat.lt_succ_iff_lt_or_eq.mp hj with hltj | heqj
        · exact ih hapart.1 hlti hltj
        · have hmem : x ∈ gather f n := mem_gather.mpr ⟨i, hlti, hxi⟩
          exact absurd rfl (hapart.2.2 x hmem x (heqj ▸ hxj))
      · rcases Nat.lt_succ_iff_lt_or_eq.mp hj with hltj | heqj
        · have hmem : x ∈ gather f n := mem_gather.mpr ⟨j, hltj, hxj⟩
          exact absurd rfl (hapart.2.2 x hmem x (heqi ▸ hxi))
        · rw [heqi, heqj]

end Foundation
end NgxEpoll
