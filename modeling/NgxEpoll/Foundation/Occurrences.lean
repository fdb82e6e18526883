import Mathlib.Data.List.Basic

/-!
# Occurrences

Where a row of items occurs in another one, up to a folding of items, and the first place
that has a property.

## First places
-/

namespace NgxEpoll
namespace Foundation

section First

variable {P Q : Nat -> Prop} {r r' : Option Nat}

/-- The first place with a property, or none if there is no such place. -/
def First (P : Nat -> Prop) : Option Nat -> Prop
  | none => forall i, ¬ P i
  | some i => P i ∧ forall j, j < i -> ¬ P j

theorem First.unique (h : First P r) (h' : First P r') : r = r' := by
  cases r with
  | none =>
      cases r' with
      | none => rfl
      | some j => exact absurd h'.1 (h j)
  | some i =>
      cases r' with
      | none => exact absurd h.1 (h' i)
      | some j =>
          rcases Nat.lt_trichotomy i j with hlt | heq | hgt
          · exact absurd h.1 (h'.2 i hlt)
          · rw [heq]
          · exact absurd h'.1 (h.2 j hgt)

theorem First.zero (h : P 0) : First P (some 0) :=
  ⟨h, fun j hj => absurd hj (Nat.not_lt_zero j)⟩

theorem First.succ (h : ¬ P 0) (hnext : First (fun i => P (i + 1)) r) :
    First P (r.map fun i => i + 1) := by
  cases r with
  | none =>
      intro i
      cases i with
      | zero => exact h
      | succ i => exact hnext i
  | some i =>
      refine ⟨hnext.1, ?_⟩
      intro j hj
      cases j with
      | zero => exact h
      | succ j => exact hnext.2 j (Nat.lt_of_succ_lt_succ hj)

theorem First.congr (h : First P r) (hiff : forall i, P i ↔ Q i) : First Q r := by
  have heq : P = Q := funext fun i => propext (hiff i)
  exact heq ▸ h

/-- A first place with one property is the first one with another if and only if behind no
place with the one there is only later a place with the other. -/
theorem First.first_iff (h : First P r) :
    First Q r ↔ (forall i, P i -> exists j, j ≤ i ∧ Q j) ∧
      forall i, Q i -> exists j, j ≤ i ∧ P j := by
  cases r with
  | none =>
      constructor
      · intro hq
        exact ⟨fun i hi => absurd hi (h i), fun i hi => absurd hi (hq i)⟩
      · intro hboth i hi
        rcases hboth.2 i hi with ⟨j, -, hj⟩
        exact h j hj
  | some k =>
      constructor
      · intro hq
        constructor
        · intro i hi
          refine ⟨k, ?_, hq.1⟩
          by_contra hlt
          exact h.2 i (Nat.not_le.mp hlt) hi
        · intro i hi
          refine ⟨k, ?_, h.1⟩
          by_contra hlt
          exact hq.2 i (Nat.not_le.mp hlt) hi
      · intro hboth
        have hnone : forall j, j < k -> ¬ Q j := by
          intro j hj hq
          rcases hboth.2 j hq with ⟨i, hle, hi⟩
          exact h.2 i (Nat.lt_of_le_of_lt hle hj) hi
        rcases hboth.1 k h.1 with ⟨j, hle, hj⟩
        rcases Nat.lt_or_eq_of_le hle with hlt | heq
        · exact absurd hj (hnone j hlt)
        · exact ⟨heq ▸ hj, hnone⟩

end First

/-!
## Rows in rows
-/

variable {α : Type _} {fold : α -> α} {s t : List α} {x c : α} {i : Nat}

/-- With its items folded, `t` stands in `s` from a place on. -/
def Occurs (fold : α -> α) (t s : List α) (i : Nat) : Prop :=
  t.map fold <+: (s.drop i).map fold

instance [DecidableEq α] (fold : α -> α) (t s : List α) (i : Nat) :
    Decidable (Occurs fold t s i) :=
  inferInstanceAs (Decidable (_ <+: _))

theorem not_occurs_of_length (h : s.length < t.length + i) (hne : t ≠ []) :
    ¬ Occurs fold t s i := by
  intro hocc
  have hle := hocc.length_le
  rw [List.length_map, List.length_map, List.length_drop] at hle
  have hpos := List.length_pos_of_ne_nil hne
  omega

end Foundation
end NgxEpoll
