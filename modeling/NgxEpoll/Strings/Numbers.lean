import NgxEpoll.Core.Numerals

/-!
# Numerals with a sign

`string_xxstrtoi`, `string_xxstrhextoi` and `string_xxstrtossize` of `dfs_string.cpp`, on
the `n` bytes at `line` and what lies behind them.

## The functions
-/

namespace NgxEpoll
namespace Strings

open Foundation
open NgxEpoll.Core

structure Parser where
  base : Nat
  ok : Byte -> Bool
  digit : Byte -> Nat
  bits : Nat

/-- Conversion to the type of `value`.  An overflow wraps. -/
def Parser.wrap (p : Parser) (n : Int) : Int :=
  n.bmod (2 ^ p.bits)

def Parser.loop (p : Parser) (m : Mem) : Nat -> Nat -> Int -> Int
  | _, 0, value => value
  | line, n + 1, value =>
      if p.ok (m line) then
        p.loop m (line + 1) n (p.wrap (value * p.base + p.digit (m line)))
      else value

def Parser.run (p : Parser) (m : Mem) (line n : Nat) : Int :=
  if n = 0 then 0
  else if m line = 0x2d then p.wrap (-p.loop m (line + 1) n 0)
  else p.loop m line n 0

def isHexDigit (c : Byte) : Bool :=
  isDigit c || isHexLetter c

def hexDigitOf (c : Byte) : Nat :=
  if isDigit c then digitOf c else (c ||| 0x20).toNat - 0x61 + 10

def strtoi : Parser :=
  { base := 10, ok := isDigit, digit := digitOf, bits := 32 }

def strhextoi : Parser :=
  { base := 16, ok := isHexDigit, digit := hexDigitOf, bits := 32 }

def strtossize : Parser :=
  { base := 10, ok := isDigit, digit := digitOf, bits := 64 }

def stringXxstrtoi (m : Mem) (line n : Nat) : Int :=
  strtoi.run m line n

def stringXxstrhextoi (m : Mem) (line n : Nat) : Int :=
  strhextoi.run m line n

def stringXxstrtossize (m : Mem) (line n : Nat) : Int :=
  strtossize.run m line n

/-!
## Numbers at the start of a text
-/

namespace Parser

variable (p : Parser)

def digits (s : List Byte) : List Byte :=
  s.takeWhile p.ok

/-- The number whose digits, behind at most one `-`, are at the start of a text. -/
def signed (s : List Byte) : Int :=
  match s with
  | [] => 0
  | c :: t =>
      if c = 0x2d then -numeral p.base p.digit (p.digits t)
      else numeral p.base p.digit (p.digits s)

def InRange (x : Int) : Prop :=
  -2 ^ (p.bits - 1) ≤ x ∧ x < 2 ^ (p.bits - 1)

/-- `f` returns one value for a text, whatever lies behind it, and this is its number if
it is in range. -/
def Exact (f : Mem -> Nat -> Nat -> Int) (s : List Byte) : Prop :=
  exists v, (forall m line, load m line s.length = s -> f m line s.length = v) ∧
    (p.InRange (p.signed s) -> v = p.signed s)

def Unended (s : List Byte) : Prop :=
  s.head? = some 0x2d ∧ forall c, c ∈ s.tail -> p.ok c

theorem wrap_congr {a b : Int} (h : a ≡ b [ZMOD 2 ^ p.bits]) : p.wrap a = p.wrap b := by
  unfold wrap Int.bmod
  have hmod : a % ((2 ^ p.bits : Nat) : Int) = b % ((2 ^ p.bits : Nat) : Int) := by
    push_cast
    exact h
  rw [hmod]

theorem wrap_modEq (a : Int) : p.wrap a ≡ a [ZMOD 2 ^ p.bits] := by
  have h := @Int.bmod_emod a (2 ^ p.bits)
  push_cast at h
  exact h

theorem loop_eq (m : Mem) (n : Nat) : forall line value,
    p.loop m line n value =
      (p.digits (load m line n)).foldl
        (fun value c => p.wrap (value * p.base + p.digit c)) value := by
  induction n with
  | zero =>
      intro line value
      rfl
  | succ n ih =>
      intro line value
      unfold loop digits
      rw [load_succ]
      by_cases hc : p.ok (m line)
      · rw [if_pos hc, ih, List.takeWhile_cons_of_pos hc]
        rfl
      · rw [if_neg hc, List.takeWhile_cons_of_neg hc]
        rfl

theorem foldl_wrap (s : List Byte) : forall v : Nat,
    s.foldl (fun value c => p.wrap (value * p.base + p.digit c)) (p.wrap v) =
      p.wrap (numeralFrom p.base p.digit v s) := by
  induction s with
  | nil =>
      intro v
      rfl
  | cons c s ih =>
      intro v
      have hstep : p.wrap (p.wrap v * p.base + p.digit c) =
          p.wrap ((v * p.base + p.digit c : Nat) : Int) := by
        apply p.wrap_congr
        push_cast
        exact ((p.wrap_modEq v).mul_right _).add_right _
      rw [List.foldl_cons, hstep, ih, numeralFrom_cons]

theorem loop_zero (m : Mem) (line n : Nat) :
    p.loop m line n 0 = p.wrap (numeral p.base p.digit (p.digits (load m line n))) := by
  have hzero : p.wrap ((0 : Nat) : Int) = 0 := by
    unfold wrap
    exact Int.zero_bmod
  have h := p.foldl_wrap (p.digits (load m line n)) 0
  rw [hzero, numeralFrom_zero] at h
  rw [loop_eq, h]

theorem run_minus {m : Mem} {line n : Nat} (h : m line = 0x2d) (hn : n ≠ 0) :
    p.run m line n =
      p.wrap (-numeral p.base p.digit (p.digits (load m (line + 1) n))) := by
  unfold run
  rw [if_neg hn, if_pos h, loop_zero]
  exact p.wrap_congr (p.wrap_modEq _).neg

theorem run_plain {m : Mem} {line n : Nat} (h : m line ≠ 0x2d) :
    p.run m line n = p.wrap (numeral p.base p.digit (p.digits (load m line n))) := by
  unfold run
  rw [if_neg h]
  split
  · next hn =>
    subst hn
    exact Int.zero_bmod.symm
  · exact p.loop_zero m line n

theorem wrap_eq_self (hbits : p.bits ≠ 0) {x : Int} (h : p.InRange x) : p.wrap x = x := by
  have hpow : (2 : Int) ^ p.bits = 2 * 2 ^ (p.bits - 1) := by
    rw [← pow_succ', Nat.sub_add_cancel (Nat.pos_of_ne_zero hbits)]
  unfold InRange at h
  unfold wrap
  apply Int.bmod_eq_of_le
  · push_cast
    omega
  · push_cast
    omega

/-- What lies behind the digits of a text makes no difference, unless it goes on with
digits where the text ends with them. -/
theorem digits_append {t l : List Byte} (h : (forall c, c ∈ t -> p.ok c) -> p.digits l = []) :
    p.digits (t ++ l) = p.digits t := by
  induction t with
  | nil => exact h fun c hc => absurd hc List.not_mem_nil
  | cons c t ih =>
      unfold digits at *
      rw [List.cons_append]
      by_cases hc : p.ok c
      · rw [List.takeWhile_cons_of_pos hc, List.takeWhile_cons_of_pos hc, ih]
        intro hall
        exact h (List.forall_mem_cons.mpr ⟨hc, hall⟩)
      · rw [List.takeWhile_cons_of_neg hc, List.takeWhile_cons_of_neg hc]

/-- Where the digits end within the text, the parser returns its number, wrapped. -/
theorem run_ended {s : List Byte} (h : ¬ p.Unended s) {m : Mem} {line : Nat}
    (hload : load m line s.length = s) : p.run m line s.length = p.wrap (p.signed s) := by
  cases s with
  | nil => exact Int.zero_bmod.symm
  | cons c t =>
      rw [List.length_cons, load_succ] at hload
      injection hload with hc ht
      unfold signed
      dsimp only
      have hne : (c :: t).length ≠ 0 := Nat.succ_ne_zero _
      by_cases hminus : c = 0x2d
      · have hdigits (hall : forall x, x ∈ t -> p.ok x) (l : List Byte) : p.digits l = [] :=
          absurd ⟨congrArg some hminus, hall⟩ h
        rw [p.run_minus (hc.trans hminus) hne, if_pos hminus, List.length_cons, load_add, ht,
          p.digits_append fun hall => hdigits hall _]
      · rw [p.run_plain (fun heq => hminus (hc.symm.trans heq)), if_neg hminus,
          List.length_cons, load_succ, hc, ht]

theorem numeral_append (base : Nat) (digit : Byte -> Nat) (s : List Byte) (x : Byte) :
    numeral base digit (s ++ [x]) = numeral base digit s * base + digit x := by
  rw [← numeralFrom_zero, ← numeralFrom_zero]
  exact List.foldl_append

theorem run_unended {s : List Byte} (h : p.Unended s) {x : Byte} (hx : p.ok x) :
    p.run (asMem (s ++ [x])) 0 s.length ≡
      -(numeral p.base p.digit s.tail * p.base + p.digit x : Nat) [ZMOD 2 ^ p.bits] := by
  rcases h with ⟨hhead, hall⟩
  cases s with
  | nil => cases hhead
  | cons c ds =>
      have hload := load_asMem (c :: ds ++ [x])
      rw [List.length_append, List.length_singleton, load_succ] at hload
      injection hload with hc hrest
      have hdigits : p.digits (ds ++ [x]) = ds ++ [x] := by
        unfold digits
        rw [@List.takeWhile_append_of_pos _ p.ok ds [x] hall, List.takeWhile_cons_of_pos hx]
        rfl
      have hne : (c :: ds).length ≠ 0 := Nat.succ_ne_zero _
      rw [p.run_minus (hc.trans (Option.some.inj hhead)) hne, hrest]
      show p.wrap (-numeral p.base p.digit (p.digits (ds ++ [x]))) ≡ _ [ZMOD _]
      rw [hdigits, numeral_append]
      exact p.wrap_modEq _

/-- The parser keeps to the text if and only if this is not a `-` with digits up to the
end. -/
theorem exact_iff (hbits : p.bits ≠ 0) (hzero : p.ok 0x30 ∧ p.digit 0x30 = 0)
    (hone : p.ok 0x31 ∧ p.digit 0x31 = 1) (s : List Byte) :
    p.Exact p.run s ↔ ¬ p.Unended s := by
  constructor
  · intro h hunended
    rcases h with ⟨v, hsame, -⟩
    have hload (x : Byte) : load (asMem (s ++ [x])) 0 s.length = s := by
      have hall := load_asMem (s ++ [x])
      rw [List.length_append, load_add] at hall
      exact (List.append_inj hall (load_length _ _ _)).1
    have h0 := p.run_unended hunended hzero.1
    have h1 := p.run_unended hunended hone.1
    rw [hsame _ 0 (hload _), hzero.2] at h0
    rw [hsame _ 0 (hload _), hone.2] at h1
    have hdvd : (2 ^ p.bits : Int) ∣ 1 := by
      have hsub := (h0.symm.trans h1).dvd
      push_cast at hsub
      have hneg : (2 ^ p.bits : Int) ∣ -1 := by
        convert hsub using 1
        ring
      exact Int.dvd_neg.mp hneg
    have htwo : (2 : Int) ∣ 1 := (dvd_pow_self 2 hbits).trans hdvd
    revert htwo
    decide
  · intro h
    exists p.wrap (p.signed s)
    constructor
    · intro m line hload
      exact p.run_ended h hload
    · exact p.wrap_eq_self hbits

end Parser

theorem stringXxstrtoi_of_list {m : Mem} {line : Nat} {s : List Byte}
    (hload : load m line s.length = s) (hend : ¬ isDigit (m (line + s.length))) :
    stringXxstrtoi m line s.length = Core.stringXxstrtoi s := by
  have hloop : forall (s : List Byte) (value : Int),
      strtoiLoop value s = (s.takeWhile isDigit).foldl
        (fun value c => cInt (value * 10 + digitOf c)) value :=
    fun s value => stopping_eq (fun _ => rfl) (fun _ _ _ => rfl) value s
  cases s with
  | nil => rfl
  | cons c t =>
      rw [List.length_cons, load_succ] at hload
      injection hload with hc ht
      unfold stringXxstrtoi Parser.run Core.stringXxstrtoi
      rw [List.length_cons, if_neg (Nat.succ_ne_zero _), strtoi.loop_eq, strtoi.loop_eq, hc,
        load_add, ht, load_succ m line, hc, ht]
      dsimp only
      rw [hloop, hloop]
      have hbehind : strtoi.digits (load m (line + 1 + t.length) 1) = [] := by
        refine List.takeWhile_cons_of_neg ?_
        rw [Nat.add_assoc, Nat.add_comm 1]
        exact hend
      rw [strtoi.digits_append fun _ => hbehind]
      rfl

/-- Each of the three parsers keeps to the `n` bytes and returns the number at their start
if and only if they are not a `-` with digits up to the end. -/
theorem strto_exact_iff (s : List Byte) :
    (strtoi.Exact stringXxstrtoi s ↔ ¬ strtoi.Unended s) ∧
      (strhextoi.Exact stringXxstrhextoi s ↔ ¬ strhextoi.Unended s) ∧
      (strtossize.Exact stringXxstrtossize s ↔ ¬ strtossize.Unended s) := by
  constructor
  · exact strtoi.exact_iff (by decide) (by decide) (by decide) s
  · constructor
    · exact strhextoi.exact_iff (by decide) (by decide) (by decide) s
    · exact strtossize.exact_iff (by decide) (by decide) (by decide) s

/-- The three bytes `-12` give -12 or -123, as the byte behind them is. -/
theorem strto_reads_behind :
    load (asMem (ascii "-12")) 0 3 = ascii "-12" ∧
      load (asMem (ascii "-123")) 0 3 = ascii "-12" ∧
      stringXxstrtoi (asMem (ascii "-12")) 0 3 = -12 ∧
      stringXxstrtoi (asMem (ascii "-123")) 0 3 = -123 ∧
      stringXxstrhextoi (asMem (ascii "-12")) 0 3 = -0x12 ∧
      stringXxstrhextoi (asMem (ascii "-123")) 0 3 = -0x123 ∧
      stringXxstrtossize (asMem (ascii "-12")) 0 3 = -12 ∧
      stringXxstrtossize (asMem (ascii "-123")) 0 3 = -123 := by
  decide

end Strings
end NgxEpoll
