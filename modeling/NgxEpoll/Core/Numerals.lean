import NgxEpoll.Core.Strings
import NgxEpoll.Foundation.Numerals

/-!
# Decimal numerals

What the number parsers of `dfs_string.cpp` make of a text, in terms of the number that
its digits stand for.
-/

namespace NgxEpoll
namespace Core

open Foundation

def Decimal (s : List Byte) : Prop :=
  s ≠ [] ∧ forall c, c ∈ s -> isDigit c

instance (s : List Byte) : Decidable (Decimal s) :=
  inferInstanceAs (Decidable (_ ∧ _))

def decimalValue (s : List Byte) : Nat :=
  numeral 10 digitOf s

/-!
## Parsers that want a numeral
-/

def refusingValue (w : Nat) (line : List Byte) : BitVec w :=
  if Decimal line then BitVec.ofNat w (decimalValue line) else BitVec.ofInt w ngxError

theorem refusingValue_eq {w : Nat} {f : BitVec w -> List Byte -> BitVec w}
    (hnil : forall a, f a [] = a)
    (hcons : forall a c s, f a (c :: s) =
      if isDigit c then f (a * BitVec.ofNat w 10 + BitVec.ofNat w (digitOf c)) s
      else BitVec.ofInt w ngxError)
    (line : List Byte) :
    (if line = [] then BitVec.ofInt w ngxError else f (BitVec.ofNat w 0) line) =
      refusingValue w line := by
  unfold refusingValue Decimal decimalValue
  by_cases hline : line = []
  · simp only [hline, if_true, ne_eq, not_true_eq_false, false_and, if_false]
  · simp only [ne_eq, hline, not_false_eq_true, true_and, if_false]
    rw [refusing_eq hnil hcons, foldl_ofNat, numeralFrom_zero]
    congr

theorem stringXxstrtoui_eq (line : List Byte) :
    stringXxstrtoui line = refusingValue 32 line :=
  refusingValue_eq (fun _ => rfl) (fun _ _ _ => rfl) line

theorem stringXxstrtotime_eq (line : List Byte) :
    stringXxstrtotime line = refusingValue 64 line :=
  refusingValue_eq (fun _ => rfl) (fun _ _ _ => rfl) line

/-!
## The parser that stops
-/

theorem cInt_modEq (n : Int) : cInt n ≡ n [ZMOD 2 ^ 32] :=
  Int.bmod_emod

theorem strtoiLoop_modEq (line : List Byte) :
    strtoiLoop 0 line ≡ decimalValue (line.takeWhile isDigit) [ZMOD 2 ^ 32] := by
  unfold decimalValue
  rw [stopping_eq (f := strtoiLoop) (fun _ => rfl) (fun _ _ _ => rfl), ← numeralFrom_zero]
  apply foldl_modEq id
  · intro a c
    exact cInt_modEq _
  · rfl

theorem stringXxstrtoi_modEq {line : List Byte} (h : 0x2d ∉ line) :
    stringXxstrtoi line ≡ decimalValue (line.takeWhile isDigit) [ZMOD 2 ^ 32] := by
  cases line with
  | nil => rfl
  | cons c line =>
      have hc : c ≠ 0x2d := fun heq => h (heq ▸ List.mem_cons_self)
      rw [stringXxstrtoi, if_neg hc]
      exact strtoiLoop_modEq (c :: line)

theorem stringXxstrtoi_unsigned {line : List Byte} (h : 0x2d ∉ line) {k : Nat} (hk : k ≤ 32) :
    (stringXxstrtoi line % 2 ^ k).toNat = decimalValue (line.takeWhile isDigit) % 2 ^ k := by
  have hmod : stringXxstrtoi line ≡ decimalValue (line.takeWhile isDigit) [ZMOD 2 ^ k] :=
    (stringXxstrtoi_modEq h).of_dvd (pow_dvd_pow 2 hk)
  rw [hmod]
  norm_cast

end Core
end NgxEpoll
