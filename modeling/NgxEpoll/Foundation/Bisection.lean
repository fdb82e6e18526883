import NgxEpoll.Foundation.Loop
import Mathlib.Algebra.Order.Ring.Int

/-!
# Bisection

A search halves a range of indexes.  It looks for an index where a comparison is 0, and
the comparison tells on which side of an index the search goes on.
-/

namespace NgxEpoll
namespace Foundation

def bisectBody (cmp : Int -> Int) (s : Int × Int) : Turn (Int × Int) (Option Int) :=
  if s.1 ≤ s.2 then
    let middle := (s.1 + s.2).tdiv 2
    if cmp middle = 0 then Turn.done (some middle)
    else if 0 < cmp middle then Turn.next (middle + 1, s.2)
    else Turn.next (s.1, middle - 1)
  else Turn.done none

def bisectMeasure (s : Int × Int) : Nat :=
  (s.2 - s.1 + 1).toNat

def bisect (cmp : Int -> Int) (left right : Int) : Option Int :=
  loop bisectMeasure (bisectBody cmp) (fun _ => none) (left, right)

/-- Below an index that lies too low all others do, and above one that lies too high. -/
structure Ordered (cmp : Int -> Int) (left right : Int) : Prop where
  below : forall i m, left ≤ i -> i ≤ m -> m ≤ right -> 0 < cmp m -> 0 < cmp i
  above : forall i m, left ≤ m -> m ≤ i -> i ≤ right -> cmp m < 0 -> cmp i < 0

theorem bisect_iff {cmp : Int -> Int} {left right : Int} (hpos : 0 ≤ left)
    (h : Ordered cmp left right) :
    (bisect cmp left right).isSome ↔ exists i, left ≤ i ∧ i ≤ right ∧ cmp i = 0 := by
  -- the indexes that are left have a hit wherever there is one
  let Inv : Int × Int -> Prop := fun s => left ≤ s.1 ∧ s.2 ≤ right ∧
    forall i, left ≤ i -> i ≤ right -> cmp i = 0 -> s.1 ≤ i ∧ i ≤ s.2
  have hinit : Inv (left, right) :=
    ⟨Int.le_refl left, Int.le_refl right, fun i hlo hhi _ => ⟨hlo, hhi⟩⟩
  refine loop_meets (fun _ => none)
    (fun r : Option Int => r.isSome ↔ exists i, left ≤ i ∧ i ≤ right ∧ cmp i = 0) ?_ hinit
  rintro ⟨lo, hi⟩ ⟨hlo, hhi, hall⟩
  dsimp only at hlo hhi hall
  unfold bisectBody
  dsimp only
  split
  next hle =>
    have hmiddle : lo ≤ (lo + hi).tdiv 2 ∧ (lo + hi).tdiv 2 ≤ hi := by
      rw [Int.tdiv_eq_ediv_of_nonneg (by omega)]
      omega
    generalize (lo + hi).tdiv 2 = middle at hmiddle ⊢
    split
    next hzero =>
      exact ⟨fun _ => ⟨middle, by omega, by omega, hzero⟩, fun _ => rfl⟩
    next hne =>
      split
      next hlow =>
        refine ⟨⟨by dsimp only; omega, hhi, fun i hi1 hi2 hzero => ?_⟩, ?_⟩
        · have hrange := hall i hi1 hi2 hzero
          have hnot : ¬ i ≤ middle := by
            intro hle
            have hpos := h.below i middle hi1 hle (by omega) hlow
            omega
          dsimp only
          omega
        · unfold bisectMeasure
          dsimp only
          omega
      next hhigh =>
        refine ⟨⟨hlo, by dsimp only; omega, fun i hi1 hi2 hzero => ?_⟩, ?_⟩
        · have hrange := hall i hi1 hi2 hzero
          have hnot : ¬ middle ≤ i := by
            intro hle
            have hneg := h.above i middle (by omega) hle hi2 (by omega)
            omega
          dsimp only
          omega
        · unfold bisectMeasure
          dsimp only
          omega
  next hgt =>
    constructor
    · intro hsome
      cases hsome
    · rintro ⟨i, hi1, hi2, hzero⟩
      have hrange := hall i hi1 hi2 hzero
      omega

end Foundation
end NgxEpoll
