import Mathlib.Data.Multiset.AddSub
import Mathlib.Data.Multiset.Range
import Mathlib.Data.List.GetD

/-!
# Arrays of queues

What pushing to and draining one queue of an array does to the bag of all
queued elements.
-/

namespace NgxEpoll
namespace Foundation

variable {α : Type}

def bagOf (queues : List (List α)) : Multiset α :=
  (queues.flatten : List α)

theorem coe_concat (xs : List α) (x : α) :
    ((xs ++ [x] : List α) : Multiset α) = x ::ₘ (xs : Multiset α) :=
  Multiset.coe_eq_coe.mpr (List.perm_append_singleton x xs)

theorem bagOf_push (queues : List (List α)) (k : Nat) (x : α)
    (hk : k < queues.length) :
    bagOf (queues.modify k (x :: ·)) = x ::ₘ bagOf queues := by
  induction queues generalizing k with
  | nil => simp at hk
  | cons q queues ih =>
      cases k with
      | zero => simp [bagOf]
      | succ k =>
          have hrec := ih k (by simpa using hk)
          simp only [bagOf, List.modify_succ_cons, List.flatten_cons] at hrec ⊢
          rw [← Multiset.coe_add, hrec, ← Multiset.coe_add]
          simp

theorem bagOf_set (queues : List (List α)) (k : Nat) (q : List α)
    (hk : k < queues.length) :
    bagOf (queues.set k q) + (queues.getD k [] : List α) =
      bagOf queues + (q : Multiset α) := by
  induction queues generalizing k with
  | nil => simp at hk
  | cons q' queues ih =>
      cases k with
      | zero =>
          simp only [bagOf, List.set_cons_zero, List.flatten_cons,
            List.getD_cons_zero, ← Multiset.coe_add]
          rw [Multiset.add_comm, ← Multiset.add_assoc, Multiset.add_assoc,
            Multiset.add_comm (q : Multiset α), Multiset.add_assoc]
      | succ k =>
          have hrec := ih k (by simpa using hk)
          simp only [bagOf, List.set_cons_succ, List.flatten_cons,
            List.getD_cons_succ, ← Multiset.coe_add] at hrec ⊢
          rw [Multiset.add_assoc, hrec, Multiset.add_assoc]

theorem length_of_getD_cons {queues : List (List α)} {k : Nat} {x : α}
    {rest : List α} (h : queues.getD k [] = x :: rest) : k < queues.length := by
  by_contra hk
  rw [List.getD_eq_default _ _ (by omega)] at h
  cases h

theorem bagOf_drain (queues : List (List α)) (k : Nat) :
    bagOf (queues.set k []) + (queues.getD k [] : List α) = bagOf queues := by
  by_cases hk : k < queues.length
  · have hset := bagOf_set queues k [] hk
    rw [Multiset.coe_nil, Multiset.add_zero] at hset
    exact hset
  · rw [List.set_eq_of_length_le (by omega),
      List.getD_eq_default _ _ (by omega), Multiset.coe_nil, Multiset.add_zero]

theorem bagOf_pop {queues : List (List α)} {k : Nat} {x : α} {rest : List α}
    (h : queues.getD k [] = x :: rest) :
    bagOf queues = x ::ₘ bagOf (queues.set k rest) := by
  have hset := bagOf_set queues k rest (length_of_getD_cons h)
  rw [h, ← Multiset.cons_coe, Multiset.add_cons, ← Multiset.cons_add] at hset
  exact (Multiset.add_left_inj.mp hset).symm

end Foundation
end NgxEpoll
