import Mathlib.Data.List.Basic
import Mathlib.Logic.Function.Basic

/-!
# Null-terminated lists in memory

A memory gives each cell the cell that follows it.  `Chain next head xs` says
that the cells met from `head` on are `xs`, the last one without a successor.

## Walking and changing a list
-/

namespace NgxEpoll
namespace Foundation

variable {α : Type}

def Chain (next : α -> Option α) : Option α -> List α -> Prop
  | head, [] => head = none
  | head, x :: xs => head = some x ∧ Chain next (next x) xs

theorem chain_none {next : α -> Option α} {xs : List α} :
    Chain next none xs ↔ xs = [] := by
  cases xs with
  | nil => simp [Chain]
  | cons x xs => simp [Chain]

theorem chain_some {next : α -> Option α} {x : α} {xs : List α} :
    Chain next (some x) xs ↔ exists ys, xs = x :: ys ∧ Chain next (next x) ys := by
  cases xs with
  | nil => simp [Chain]
  | cons y ys =>
      constructor
      · rintro ⟨hxy, hchain⟩
        cases hxy
        exact ⟨ys, rfl, hchain⟩
      · rintro ⟨ys', heq, hchain⟩
        cases heq
        exact ⟨rfl, hchain⟩

theorem Chain.unique {next : α -> Option α} {head : Option α} {xs ys : List α}
    (hx : Chain next head xs) (hy : Chain next head ys) : xs = ys := by
  induction xs generalizing head ys with
  | nil =>
      cases hx
      exact (chain_none.mp hy).symm
  | cons x xs ih =>
      obtain ⟨rfl, hx⟩ := hx
      obtain ⟨ys', rfl, hy⟩ := chain_some.mp hy
      rw [ih hx hy.2]

theorem Chain.congr {next next' : α -> Option α} {head : Option α} {xs : List α}
    (heq : forall x, x ∈ xs -> next' x = next x) (h : Chain next head xs) :
    Chain next' head xs := by
  induction xs generalizing head with
  | nil => exact h
  | cons x xs ih =>
      refine ⟨h.1, ?_⟩
      rw [heq x (by simp)]
      exact ih (fun y hy => heq y (List.mem_cons_of_mem _ hy)) h.2

variable [DecidableEq α]

theorem Chain.frame {next : α -> Option α} {head : Option α} {xs : List α}
    {c : α} (hc : c ∉ xs) (v : Option α) (h : Chain next head xs) :
    Chain (Function.update next c v) head xs :=
  h.congr fun _ hx => Function.update_of_ne (ne_of_mem_of_not_mem hx hc) _ _

theorem Chain.push {next : α -> Option α} {head : Option α} {xs : List α}
    {c : α} (hc : c ∉ xs) (h : Chain next head xs) :
    Chain (Function.update next c head) (some c) (c :: xs) := by
  refine ⟨rfl, ?_⟩
  rw [Function.update_self]
  exact h.frame hc head

/-!
## Cutting a prefix off
-/

omit [DecidableEq α] in
/-- The list after the first `i` cells and the last one of these, as a loop with
two pointers finds them. -/
def walk (next : α -> Option α) : Nat -> Option α -> Option α ->
    Option α × Option α
  | 0, plast, p => (plast, p)
  | _ + 1, plast, none => (plast, none)
  | i + 1, _, some c => walk next i (some c) (next c)

omit [DecidableEq α] in
theorem walk_append {next : α -> Option α} {p : Option α} {xs ys : List α}
    (h : Chain next p (xs ++ ys)) (plast : Option α) :
    (walk next xs.length plast p).1 = xs.getLast?.or plast ∧
      Chain next (walk next xs.length plast p).2 ys := by
  induction xs generalizing p plast with
  | nil => exact ⟨rfl, h⟩
  | cons x xs ih =>
      obtain ⟨rfl, h⟩ := h
      have hrec := ih h (some x)
      refine ⟨?_, hrec.2⟩
      change (walk next xs.length (some x) (next x)).1 = _
      rw [hrec.1]
      cases hlast : xs.getLast? with
      | none =>
          rw [List.getLast?_eq_none_iff.mp hlast]
          rfl
      | some y =>
          rw [List.getLast?_cons, hlast]
          rfl

theorem Chain.cut {next : α -> Option α} {p : Option α} {xs ys : List α}
    {c : α} (hnodup : (xs ++ c :: ys).Nodup)
    (h : Chain next p (xs ++ c :: ys)) :
    Chain (Function.update next c none) p (xs ++ [c]) := by
  induction xs generalizing p with
  | nil =>
      obtain ⟨rfl, h⟩ := h
      exact ⟨rfl, Function.update_self _ _ _⟩
  | cons x xs ih =>
      obtain ⟨rfl, h⟩ := h
      obtain ⟨hx, hnodup⟩ := List.nodup_cons.mp hnodup
      refine ⟨rfl, ?_⟩
      rw [Function.update_of_ne (fun hxc => hx (by simp [hxc]))]
      exact ih hnodup h

omit [DecidableEq α] in
theorem Chain.link {next next' : α -> Option α} {p : Option α} {xs : List α} {y c : α}
    (h : Chain next p (xs ++ [y])) (hsame : forall x, x ∈ xs -> next' x = next x)
    (hlast : next' y = some c) (hnew : next' c = none) : Chain next' p (xs ++ [y] ++ [c]) := by
  induction xs generalizing p with
  | nil =>
      obtain ⟨rfl, -⟩ := h
      refine ⟨rfl, hlast, ?_⟩
      exact hnew
  | cons x xs ih =>
      obtain ⟨rfl, h⟩ := h
      refine ⟨rfl, ?_⟩
      rw [hsame x List.mem_cons_self]
      exact ih h fun z hz => hsame z (List.mem_cons_of_mem _ hz)

theorem Chain.bypass {next : α -> Option α} {p : Option α} {xs ys : List α}
    {c x : α} (hnodup : (xs ++ c :: x :: ys).Nodup)
    (h : Chain next p (xs ++ c :: x :: ys)) :
    Chain (Function.update next c (next x)) p (xs ++ c :: ys) := by
  induction xs generalizing p with
  | nil =>
      obtain ⟨rfl, -, h⟩ := h
      obtain ⟨hc, -⟩ := List.nodup_cons.mp hnodup
      refine ⟨rfl, ?_⟩
      rw [Function.update_self]
      exact h.frame (fun hmem => hc (List.mem_cons_of_mem _ hmem)) _
  | cons y xs ih =>
      obtain ⟨rfl, h⟩ := h
      obtain ⟨hy, hnodup⟩ := List.nodup_cons.mp hnodup
      refine ⟨rfl, ?_⟩
      rw [Function.update_of_ne (fun hyc => hy (by simp [hyc]))]
      exact ih hnodup h

end Foundation
end NgxEpoll
