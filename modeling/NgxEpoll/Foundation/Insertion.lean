import Mathlib.Data.List.DropRight

/-!
# Insertion from behind

A list is sorted by putting its elements, in their order, into a list that is sorted
already.  The place of an element is found from the end of that list.
-/

namespace NgxEpoll
namespace Foundation

variable {α : Type} (le : α -> α -> Prop) [DecidableRel le]

def upTo (xs : List α) (x : α) : List α :=
  xs.rdropWhile fun y => ¬ le y x

def behind (xs : List α) (x : α) : List α :=
  xs.rtakeWhile fun y => ¬ le y x

def settle (xs : List α) (x : α) : List α :=
  upTo le xs x ++ x :: behind le xs x

def Tied (a b : α) : Prop :=
  le a b ∧ le b a

instance (a b : α) : Decidable (Tied le a b) :=
  inferInstanceAs (Decidable (_ ∧ _))

theorem upTo_append_behind (xs : List α) (x : α) : upTo le xs x ++ behind le xs x = xs :=
  List.rdropWhile_append_rtakeWhile

section Places

variable {le} {xs : List α} {x y : α}

theorem upTo_concat_pos (h : le y x) : upTo le (xs ++ [y]) x = xs ++ [y] :=
  List.rdropWhile_concat_neg _ _ _ (by simp [h])

theorem upTo_concat_neg (h : ¬ le y x) : upTo le (xs ++ [y]) x = upTo le xs x :=
  List.rdropWhile_concat_pos _ _ _ (by simp [h])

theorem settle_concat_pos (h : le y x) : settle le (xs ++ [y]) x = xs ++ [y] ++ [x] := by
  unfold settle behind
  rw [upTo_concat_pos h, List.rtakeWhile_concat_neg _ _ _ (by simp [h])]

theorem settle_concat_neg (h : ¬ le y x) :
    settle le (xs ++ [y]) x = settle le xs x ++ [y] := by
  unfold settle behind
  rw [upTo_concat_neg h, List.rtakeWhile_concat_pos _ _ _ (by simp [h]), List.append_assoc,
    List.cons_append]

theorem settle_perm (xs : List α) (x : α) : (settle le xs x).Perm (x :: xs) := by
  have hmiddle : (settle le xs x).Perm (x :: (upTo le xs x ++ behind le xs x)) :=
    List.perm_middle
  rw [upTo_append_behind] at hmiddle
  exact hmiddle

end Places

/-!
## Order
-/

/-- A relation that orders all elements, with ties. -/
structure TotalPreorder (le : α -> α -> Prop) : Prop where
  trans : forall a b c, le a b -> le b c -> le a c
  total : forall a b, le a b ∨ le b a

section Order

variable {le} (hle : TotalPreorder le) {xs : List α} {x : α}

include hle

theorem settle_pairwise (h : xs.Pairwise le) : (settle le xs x).Pairwise le := by
  induction xs using List.reverseRecOn with
  | nil => exact List.pairwise_singleton le x
  | append_singleton xs y ih =>
      obtain ⟨hxs, -, hlast⟩ := List.pairwise_append.mp h
      have hy : forall z, z ∈ xs -> le z y := fun z hz => hlast z hz y (by simp)
      by_cases hyx : le y x
      · rw [settle_concat_pos hyx]
        refine List.pairwise_append.mpr ⟨h, List.pairwise_singleton le x, ?_⟩
        intro z hz x' hx'
        rw [List.mem_singleton.mp hx']
        rcases List.mem_append.mp hz with hold | hnew
        · exact hle.trans z y x (hy z hold) hyx
        · rw [List.mem_singleton.mp hnew]
          exact hyx
      · rw [settle_concat_neg hyx]
        refine List.pairwise_append.mpr ⟨ih hxs, List.pairwise_singleton le y, ?_⟩
        intro z hz y' hy'
        rw [List.mem_singleton.mp hy']
        rcases List.mem_cons.mp ((settle_perm xs x).mem_iff.mp hz) with rfl | hold
        · exact (hle.total z y).resolve_right hyx
        · exact hy z hold

theorem settle_filter (xs : List α) (x a : α) :
    (settle le xs x).filter (Tied le a) = (xs ++ [x]).filter (Tied le a) := by
  induction xs using List.reverseRecOn with
  | nil => rfl
  | append_singleton xs y ih =>
      by_cases hyx : le y x
      · rw [settle_concat_pos hyx]
      · rw [settle_concat_neg hyx, List.filter_append, ih]
        simp only [List.filter_append, List.append_assoc]
        congr 1
        -- the two are not both tied with `a`
        by_cases hx : Tied le a x
        · have hy : ¬ Tied le a y := fun hy => hyx (hle.trans y a x hy.2 hx.1)
          simp [hx, hy]
        · simp [hx]

/-!
## The whole list
-/

variable (le) in
omit hle in
theorem foldl_settle_perm (ys xs : List α) : (xs.foldl (settle le) ys).Perm (ys ++ xs) := by
  induction xs generalizing ys with
  | nil => rw [List.foldl_nil, List.append_nil]
  | cons x xs ih =>
      rw [List.foldl_cons]
      refine (ih _).trans (((settle_perm ys x).append_right xs).trans ?_)
      exact List.perm_middle.symm

theorem foldl_settle_pairwise (xs : List α) {ys : List α} (h : ys.Pairwise le) :
    (xs.foldl (settle le) ys).Pairwise le := by
  induction xs generalizing ys with
  | nil => exact h
  | cons x xs ih => exact ih (settle_pairwise hle h)

theorem foldl_settle_filter (ys xs : List α) (a : α) :
    (xs.foldl (settle le) ys).filter (Tied le a) = (ys ++ xs).filter (Tied le a) := by
  induction xs generalizing ys with
  | nil => rw [List.foldl_nil, List.append_nil]
  | cons x xs ih =>
      rw [List.foldl_cons, ih, List.filter_append, settle_filter hle, ← List.filter_append,
        List.append_assoc, List.singleton_append]

end Order

end Foundation
end NgxEpoll
