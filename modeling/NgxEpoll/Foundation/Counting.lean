import Mathlib.Data.List.Nodup

/-!
# Counters that count

A counter that is to agree with the number of entries of a list that have some
property, while the entries change one at a time.
-/

namespace NgxEpoll
namespace Foundation

variable {ι α : Type}

def countOf (l : List ι) (p : α -> Bool) (f : ι -> α) : Nat :=
  l.countP (fun i => p (f i))

variable {l : List ι} {p q : α -> Bool} {f : ι -> α} {i : ι} {x : α}

theorem countOf_congr {f' : ι -> α} (h : forall j, j ∈ l -> p (f' j) = p (f j)) :
    countOf l p f' = countOf l p f := by
  unfold countOf
  apply List.countP_congr
  intro j hj
  rw [h j hj]

theorem countOf_update_same [DecidableEq ι] (h : p x = p (f i)) :
    countOf l p (Function.update f i x) = countOf l p f := by
  apply countOf_congr
  intro j _
  by_cases heq : j = i
  · subst heq
    rw [Function.update_self, h]
  · rw [Function.update_of_ne heq]

theorem countOf_update_new [DecidableEq ι] (hl : l.Nodup) (hi : i ∈ l) (hold : p (f i) = false)
    (hnew : p x = true) :
    countOf l p (Function.update f i x) = countOf l p f + 1 := by
  induction l with
  | nil => cases hi
  | cons j l ih =>
      have hnodup := List.nodup_cons.mp hl
      unfold countOf at *
      rw [List.countP_cons, List.countP_cons]
      by_cases heq : j = i
      · subst heq
        have hrest : l.countP (fun k => p (Function.update f j x k)) =
            l.countP (fun k => p (f k)) := by
          apply List.countP_congr
          intro k hk
          have hkj : k ≠ j := by
            intro hkj
            exact hnodup.1 (hkj ▸ hk)
          rw [Function.update_of_ne hkj]
        rw [hrest, Function.update_self, hold, hnew]
        simp
      · have hmem : i ∈ l := by
          cases hi with
          | head => exact absurd rfl heq
          | tail _ hmem => exact hmem
        rw [ih hnodup.2 hmem, Function.update_of_ne heq]
        omega

/-- Where one property implies another, the counts agree only if the properties do. -/
theorem forall_of_countOf_le (himp : forall j, j ∈ l -> p (f j) = true -> q (f j) = true)
    (hle : countOf l q f ≤ countOf l p f) :
    forall j, j ∈ l -> q (f j) = true -> p (f j) = true := by
  induction l with
  | nil =>
      intro j hj
      cases hj
  | cons k l ih =>
      have htail : forall j, j ∈ l -> p (f j) = true -> q (f j) = true :=
        fun j hj => himp j (List.mem_cons_of_mem _ hj)
      have hmono : countOf l p f ≤ countOf l q f :=
        List.countP_mono_left htail
      unfold countOf at hle hmono ih
      rw [List.countP_cons, List.countP_cons] at hle
      have hhead : q (f k) = true -> p (f k) = true := by
        intro hq
        rw [if_pos hq] at hle
        by_contra hp
        rw [if_neg hp] at hle
        omega
      have hrest : l.countP (fun i => q (f i)) ≤ l.countP (fun i => p (f i)) := by
        have hk := himp k List.mem_cons_self
        by_cases hp : p (f k) = true
        · rw [if_pos hp, if_pos (hk hp)] at hle
          omega
        · rw [if_neg hp] at hle
          omega
      intro j hj hq
      cases hj with
      | head => exact hhead hq
      | tail _ hmem => exact ih htail hrest j hmem hq

theorem countOf_le (himp : forall j, j ∈ l -> p (f j) = true -> q (f j) = true) :
    countOf l p f ≤ countOf l q f :=
  List.countP_mono_left himp

end Foundation
end NgxEpoll
