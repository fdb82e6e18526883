import NgxEpoll.Strings.Truncate

/-!
# Formats piece by piece

What a format prints is what its pieces print, behind one another.

## Pieces
-/

namespace NgxEpoll
namespace Strings

open Foundation
open NgxEpoll.Core

variable {m : Mem}

/-- With room for it and for a byte more, a piece of a format takes its arguments and
appends `text`. -/
def Prints (m : Mem) (fmt : List Byte) (args : List (BitVec 64)) (text : List Byte) : Prop :=
  forall max out rest args', out.length + text.length < max ->
    printLoop m max { fmt := fmt ++ rest, args := args ++ args', out := out } =
      printLoop m max { fmt := rest, args := args', out := out ++ text }

theorem prints_nil : Prints m [] [] [] := by
  intro max out rest args' _
  rw [List.append_nil]
  rfl

theorem Prints.append {fmt fmt' text text' : List Byte} {args args' : List (BitVec 64)}
    (h : Prints m fmt args text) (h' : Prints m fmt' args' text') :
    Prints m (fmt ++ fmt') (args ++ args') (text ++ text') := by
  intro max out rest args'' hroom
  rw [List.length_append] at hroom
  rw [List.append_assoc, List.append_assoc, h max out _ _ (by omega),
    h' max _ _ _ (by rw [List.length_append]; omega), List.append_assoc]

theorem prints_plain {text : List Byte} (h : forall c, c ∈ text -> c ≠ 0 ∧ c ≠ byte '%') :
    Prints m text [] text := by
  induction text with
  | nil => exact prints_nil
  | cons c text ih =>
      intro max out rest args' hroom
      rw [List.length_cons] at hroom
      have hc := h c List.mem_cons_self
      rw [List.cons_append, printLoop_plain hc.1 hc.2 (by omega)]
      have hrest := ih (fun c' hc' => h c' (List.mem_cons_of_mem c hc')) max (out ++ [c]) rest
        args' (by rw [List.length_append]; show out.length + 1 + _ < _; omega)
      rw [hrest, List.append_assoc, List.singleton_append]

/-- A format of pieces that has room writes its text and ends at the zero byte. -/
theorem Prints.returns {fmt text rest : List Byte} {args : List (BitVec 64)}
    (h : Prints m fmt args text) {max : Nat} (hroom : text.length < max) :
    stringXxvsnprintf m max (fmt ++ 0 :: rest) args =
      some { fmt := 0 :: rest, args := [], out := text } := by
  unfold stringXxvsnprintf
  have hloop := h max [] (0 :: rest) [] (by rw [List.length_nil]; omega)
  rw [List.append_nil, List.nil_append] at hloop
  rw [if_neg (by omega), hloop, printLoop_zero]

theorem Prints.cut {fmt text rest : List Byte} {args : List (BitVec 64)}
    (h : Prints m fmt args text) (max : Nat) :
    exists s, stringXxvsnprintf m max (fmt ++ 0 :: rest) args = some s ∧
      s.out = text.take max := by
  have hwhole := @Prints.returns m fmt text rest args h (max + text.length + 1) (by omega)
  exact xxvsnprintf_cuts m _ args (by omega) hwhole

/-!
## Strings and numbers
-/

structure Lies (m : Mem) (p : Nat) (text : List Byte) : Prop where
  bytes : load m p text.length = text
  ended : m (p + text.length) = 0
  filled : 0 ∉ text

theorem copyString_lies (text : List Byte) : forall {p room : Nat}, Lies m p text ->
    text.length < room -> copyString m p room = text := by
  induction text with
  | nil =>
      intro p room h hroom
      cases room with
      | zero => cases hroom
      | succ room =>
          have hend := h.ended
          rw [List.length_nil, Nat.add_zero] at hend
          unfold copyString
          rw [if_pos hend]
  | cons c text ih =>
      intro p room h hroom
      cases room with
      | zero => cases hroom
      | succ room =>
          obtain ⟨hc, hbytes⟩ := List.cons.inj h.bytes
          have hfilled := h.filled
          rw [List.mem_cons, not_or] at hfilled
          have htail : Lies m (p + 1) text := by
            constructor
            · exact hbytes
            · rw [Nat.add_assoc, Nat.add_comm 1]
              exact h.ended
            · exact hfilled.2
          unfold copyString
          rw [if_neg (by rw [hc]; exact Ne.symm hfilled.1),
            ih htail (Nat.lt_of_succ_lt_succ hroom), hc]

theorem prints_directive {fmt text : List Byte} {args : List (BitVec 64)}
    (h : forall max out rest args', out.length + text.length < max ->
      directive m max (args ++ args') out (fmt ++ rest) =
        some { fmt := rest, args := args', out := out ++ text }) :
    Prints m (byte '%' :: fmt) args text := by
  intro max out rest args' hroom
  rw [List.cons_append, printLoop_directive (by omega), h max out rest args' hroom]
  rfl

theorem prints_string {p : BitVec 64} {text : List Byte} (h : Lies m p.toNat text) :
    Prints m (ascii "%s") [p] text := by
  refine prints_directive fun max out rest args' hroom => ?_
  rw [← copyString_lies text h (show text.length < max - out.length by omega)]
  rfl

/-- The directive of a number: digits, an `u` or none, and the letter that ends it. -/
def numberFormat (ds : List Byte) (signed : Bool) (c : Byte) : List Byte :=
  byte '%' :: (ds ++ flagL signed ++ [c])

def numberDirective (ds : List Byte) (signed : Bool) : Directive :=
  { zero := if ds.head? = some (byte '0') then byte '0' else byte ' '
    width := decimalValue ds % 2 ^ 32
    sign := signed
    hexadecimal := 0
    maxWidth := false
    slen := 2 ^ 64 - 1 }

theorem directive_number {max : Nat} {out ds rest : List Byte} {args : List (BitVec 64)}
    (hds : forall c, c ∈ ds -> isDigit c) (signed : Bool) {c : Byte} (hdigit : ¬ isDigit c)
    (hflag : ¬ isFlag c) (hzero : c ≠ byte '0') :
    directive m max args out (ds ++ flagL signed ++ c :: rest) =
      convert m max (numberDirective ds signed) args out (c :: rest) := by
  cases signed with
  | true =>
      show directive m max args out (ds ++ [] ++ c :: rest) = _
      rw [List.append_nil, directive_digits hds hdigit, flagsLoop_end hflag, Option.bind_some]
      unfold numberDirective
      rw [← startDirective_zero hzero]
      rfl
  | false =>
      show directive m max args out (ds ++ [byte 'u'] ++ c :: rest) = _
      rw [List.append_assoc, List.singleton_append, directive_digits hds (by decide)]
      show (flagsLoop _ _ (c :: rest)).bind _ = _
      rw [flagsLoop_end hflag, Option.bind_some]
      unfold numberDirective
      rw [← startDirective_zero (show byte 'u' ≠ byte '0' by decide)]
      rfl

/-- A number is printed in decimal, where its directive does not ask for another base. -/
theorem prints_number {ds : List Byte} (hds : forall c, c ∈ ds -> isDigit c) (signed : Bool)
    {c : Byte} (hdigit : ¬ isDigit c) (hflag : ¬ isFlag c) (hzero : c ≠ byte '0')
    (hnumber : isNumber c) {a : BitVec 64} {n : Number}
    (hn : fetchNumber (numberDirective ds signed) a c = some n) (hdecimal : n.d.hexadecimal = 0) :
    Prints m (numberFormat ds signed c) [a] n.text := by
  refine prints_directive fun max out rest args' hroom => ?_
  rw [List.append_assoc, List.singleton_append, List.singleton_append,
    directive_number hds signed hdigit hflag hzero]
  have hclose : convert m max (numberDirective ds signed) (a :: args') out (c :: rest) =
      (fetchNumber (numberDirective ds signed) a c).map fun n =>
        { fmt := rest, args := args', out := n.put max out } := by
    have hother : forall c', ¬ isNumber c' -> c ≠ c' := by
      intro c' hc' heq
      exact hc' (heq ▸ hnumber)
    conv_lhs => unfold convert
    dsimp only
    rw [if_neg (hother _ (by decide)), if_neg (hother _ (by decide)),
      if_neg (hother _ (by decide)), if_neg (hother _ (by decide)),
      if_neg (hother _ (by decide)), if_neg (hother _ (by decide)), if_pos hnumber]
  rw [hclose, hn, Option.map_some, Number.put_decimal hdecimal (by omega)]

def decimalText (ds : List Byte) (n : Nat) : List Byte :=
  padded (decimalValue ds % 2 ^ 32)
    (if ds.head? = some (byte '0') then byte '0' else byte ' ') (ascii (Nat.repr n))

theorem prints_int {ds : List Byte} (hds : forall c, c ∈ ds -> isDigit c) {n : Nat}
    (hn : n < 2 ^ 31) :
    Prints m (numberFormat ds true (byte 'd')) [BitVec.ofNat 64 n] (decimalText ds n) := by
  have harg : intArg (BitVec.ofNat 64 n) = n := by
    unfold intArg
    rw [BitVec.setWidth_ofNat_of_le (by decide), BitVec.toInt_ofNat']
    rw [Int.bmod_eq_of_le (by omega) (by omega)]
  have hprints := @prints_number m ds hds true (byte 'd') (by decide) (by decide) (by decide)
    (by decide) (BitVec.ofNat 64 n) _ rfl rfl
  have htext : (Number.mk (numberDirective ds true) (intArg (BitVec.ofNat 64 n)) 0).text =
      decimalText ds n := by
    unfold Number.text Number.abs decimalText
    rw [harg]
    dsimp only
    rw [if_neg (by omega), if_pos (show (numberDirective ds true).sign = true from rfl),
      if_neg (by omega), List.nil_append, Int.toNat_natCast]
    rfl
  rw [← htext]
  exact hprints

/-!
## Decimal texts
-/

theorem numeral_snoc {α : Type _} (base : Nat) (digit : α -> Nat) (s : List α) (c : α) :
    numeral base digit (s ++ [c]) = digit c + base * numeral base digit s := by
  unfold numeral
  rw [List.reverse_append, List.reverse_singleton, List.singleton_append, List.map_cons,
    Nat.ofDigits_cons]

theorem ascii_repr (n : Nat) : ascii (Nat.repr n) =
    (if n < 10 then [] else ascii (Nat.repr (n / 10))) ++ [decDigit (n % 10)] := by
  unfold ascii
  rw [Nat.toList_repr, Nat.toDigits_eq_if (by decide), Nat.toList_repr,
    decDigit_digitChar (Nat.mod_lt n (by decide))]
  split
  next hlt =>
    rw [Nat.mod_eq_of_lt hlt]
    rfl
  next => rw [List.map_append, List.map_singleton]

theorem decimalValue_repr (n : Nat) : decimalValue (ascii (Nat.repr n)) = n := by
  induction n using Nat.strongRecOn with
  | ind n ih =>
      have hdigit : digitOf (decDigit (n % 10)) = n % 10 := by
        have hlt := Nat.mod_lt n (show 0 < 10 by decide)
        generalize n % 10 = d at hlt ⊢
        revert d
        decide
      unfold decimalValue at ih ⊢
      rw [ascii_repr, numeral_snoc, hdigit]
      split
      next hlt =>
        show n % 10 + 10 * 0 = n
        omega
      next hge =>
        rw [ih (n / 10) (by omega)]
        omega

theorem length_repr {n k : Nat} (hlo : 10 ^ k ≤ n) (hhi : n < 10 ^ (k + 1)) :
    (ascii (Nat.repr n)).length = k + 1 := by
  unfold ascii
  rw [List.length_map, Nat.toList_repr]
  have hle := (Nat.length_toDigits_le_iff (b := 10) (n := n) (by decide) k.succ_pos).mpr hhi
  rcases Nat.eq_zero_or_pos k with hzero | hpos
  · subst hzero
    have hdigits := @Nat.length_toDigits_pos 10 n
    omega
  · have hgt : ¬ (Nat.toDigits 10 n).length ≤ k := by
      rw [Nat.length_toDigits_le_iff (by decide) hpos]
      omega
    omega

def twoDigits (n : Nat) : List Byte :=
  [decDigit (n / 10), decDigit (n % 10)]

theorem decimalText_two {n : Nat} (h : n < 100) : decimalText (ascii "02") n = twoDigits n := by
  revert n
  decide +kernel

theorem twoDigits_injective {n n' : Nat} (h : n < 100) (h' : n' < 100)
    (heq : twoDigits n = twoDigits n') : n = n' := by
  have hdigit : forall d, d < 10 -> forall d', d' < 10 -> decDigit d = decDigit d' -> d = d' := by
    decide
  obtain ⟨htens, hunits⟩ := List.cons.inj heq
  have hunits := (List.cons.inj hunits).1
  have htens := hdigit _ (by omega) _ (by omega) htens
  have hunits := hdigit _ (by omega) _ (by omega) hunits
  omega

end Strings
end NgxEpoll
