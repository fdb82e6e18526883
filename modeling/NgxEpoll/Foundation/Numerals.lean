import Mathlib.Data.Nat.Digits.Defs
import Mathlib.Data.Int.ModEq
import Mathlib.Data.BitVec
import Mathlib.Tactic.Ring

/-!
# Numerals

A row of digits is read from its first digit, which weighs most, with an accumulator.
An accumulator of bounded width keeps the value of the row up to its modulus.
-/

namespace NgxEpoll
namespace Foundation

variable {α : Type _} (base : Nat) (digit : α -> Nat)

def numeral (s : List α) : Nat :=
  Nat.ofDigits base (s.reverse.map digit)

def numeralFrom (v : Nat) (s : List α) : Nat :=
  s.foldl (fun v c => v * base + digit c) v

theorem numeralFrom_zero (s : List α) : numeralFrom base digit 0 s = numeral base digit s := by
  unfold numeralFrom numeral
  rw [Nat.ofDigits_eq_foldr, List.foldr_map, List.foldr_reverse]
  congr 1
  funext v c
  simp only [Nat.cast_id]
  ring

theorem numeralFrom_cons (v : Nat) (c : α) (s : List α) :
    numeralFrom base digit v (c :: s) = numeralFrom base digit (v * base + digit c) s :=
  rfl

theorem numeralFrom_modEq {m : Nat} (s : List α) : forall {v v' : Nat}, v ≡ v' [MOD m] ->
    numeralFrom base digit v s ≡ numeralFrom base digit v' s [MOD m] := by
  induction s with
  | nil =>
      intro v v' h
      exact h
  | cons c s ih =>
      intro v v' h
      exact ih ((h.mul_right base).add_right (digit c))

/-!
## Accumulators
-/

section

variable {σ : Type _} {step : σ -> α -> σ}

section

variable {ok : α -> Bool} {f : σ -> List α -> σ} (hnil : forall a, f a [] = a)
include hnil

theorem refusing_eq {bad : σ}
    (hcons : forall a c s, f a (c :: s) = if ok c then f (step a c) s else bad)
    (a : σ) (s : List α) :
    f a s = if forall c, c ∈ s -> ok c then s.foldl step a else bad := by
  induction s generalizing a with
  | nil => simp [hnil]
  | cons c s ih =>
      rw [hcons]
      cases hc : ok c with
      | true => simp [hc, ih]
      | false => simp [hc]

theorem stopping_eq (hcons : forall a c s, f a (c :: s) = if ok c then f (step a c) s else a)
    (a : σ) (s : List α) : f a s = (s.takeWhile ok).foldl step a := by
  induction s generalizing a with
  | nil => exact hnil a
  | cons c s ih =>
      rw [hcons]
      cases hc : ok c with
      | true => simp [hc, ih]
      | false => simp [hc]

end

/-- An accumulator that keeps every step up to a modulus keeps the value up to it. -/
theorem foldl_modEq {base : Nat} {digit : α -> Nat} {m : Int} (val : σ -> Int)
    (h : forall a c, val (step a c) ≡ val a * base + digit c [ZMOD m])
    (s : List α) : forall {a : σ} {v : Nat}, val a ≡ v [ZMOD m] ->
      val (s.foldl step a) ≡ numeralFrom base digit v s [ZMOD m] := by
  induction s with
  | nil =>
      intro a v ha
      exact ha
  | cons c s ih =>
      intro a v ha
      rw [numeralFrom_cons]
      apply ih
      push_cast
      exact (h a c).trans ((ha.mul_right _).add_right _)

end

theorem foldl_ofNat (w : Nat) (s : List α) : forall (v : Nat),
    s.foldl (fun x c => x * BitVec.ofNat w base + BitVec.ofNat w (digit c)) (BitVec.ofNat w v) =
      BitVec.ofNat w (numeralFrom base digit v s) := by
  induction s with
  | nil =>
      intro v
      rfl
  | cons c s ih =>
      intro v
      rw [List.foldl_cons, numeralFrom_cons, ← BitVec.ofNat_mul, ← BitVec.ofNat_add]
      exact ih _

end Foundation
end NgxEpoll
