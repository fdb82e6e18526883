import NgxEpoll.Core.Numerals
import NgxEpoll.Strings.Formats

/-!
# Numbers in formatted output

How long the digits are that `string_xxvsnprintf` puts into `temp`, and what it prints for
a `%L` and a `%uL`.

## Digits
-/

namespace NgxEpoll
namespace Strings

open Foundation
open NgxEpoll.Core

theorem putDigits_length (base : Nat) (digit : Nat -> Byte) {k : Nat} (hk : 0 < k) :
    forall (fuel : Nat) {n : Nat} (p : List Byte), n < base ^ k ->
      (putDigits base digit fuel n p).length ≤ p.length + k := by
  induction k, hk using Nat.le_induction with
  | base =>
      intro fuel n p hn
      rw [Nat.pow_one] at hn
      cases fuel with
      | zero => exact Nat.le_succ _
      | succ fuel =>
          unfold putDigits
          dsimp only
          rw [if_pos (Nat.div_eq_of_lt hn)]
          exact Nat.le_refl _
  | succ k _ ih =>
      intro fuel n p hn
      cases fuel with
      | zero => exact Nat.le_add_right _ _
      | succ fuel =>
          unfold putDigits
          dsimp only
          split
          · rw [List.length_cons]
            exact Nat.add_le_add_left (Nat.le_add_left 1 k) _
          · have hdiv : n / base < base ^ k := by
              rw [Nat.pow_succ'] at hn
              exact Nat.div_lt_of_lt_mul hn
            have hle := ih fuel (digit (n % base) :: p) hdiv
            rw [List.length_cons] at hle
            omega

theorem digits_length (hexadecimal : Nat) {ui64 : Nat} (h : ui64 < 2 ^ 64) :
    (digits hexadecimal ui64).length ≤ ngxInt64Len := by
  have hhex (digit : Nat -> Byte) : (putDigits 16 digit (ui64 + 1) ui64 []).length ≤ 16 := by
    have hle := putDigits_length 16 digit (k := 16) (by decide) (ui64 + 1) [] h
    rwa [List.length_nil, Nat.zero_add] at hle
  have hdec {n : Nat} (hn : n < 2 ^ 64) : (putDigits 10 decDigit (n + 1) n []).length ≤ 20 := by
    have hlt : n < 10 ^ 20 := hn.trans (by decide)
    have hle := putDigits_length 10 decDigit (k := 20) (by decide) (n + 1) [] hlt
    rwa [List.length_nil, Nat.zero_add] at hle
  unfold digits
  split
  · exact (hhex _).trans (by decide)
  · split
    · exact (hhex _).trans (by decide)
    · split
      · exact hdec ((Nat.mod_lt ui64 (Nat.two_pow_pos 32)).trans (by decide))
      · exact hdec h

theorem decDigit_digitChar {d : Nat} (h : d < 10) :
    decDigit d = BitVec.ofNat 8 (Nat.digitChar d).toNat := by
  rw [Nat.toNat_digitChar_of_lt_ten h]
  unfold decDigit
  rw [Nat.add_comm]

theorem putDigits_decimal (fuel : Nat) : forall {n : Nat} (p : List Byte), n < fuel ->
    putDigits 10 decDigit fuel n p = ascii (Nat.repr n) ++ p := by
  induction fuel with
  | zero =>
      intro n p h
      cases h
  | succ fuel ih =>
      intro n p h
      unfold putDigits ascii
      dsimp only
      rw [Nat.toList_repr, Nat.toDigits_eq_if (by decide),
        decDigit_digitChar (Nat.mod_lt n (by decide))]
      by_cases hlt : n < 10
      · rw [if_pos (Nat.div_eq_of_lt hlt), if_pos hlt, Nat.mod_eq_of_lt hlt]
        rfl
      · rw [if_neg (fun heq => hlt (Nat.lt_of_div_eq_zero (by decide) heq)), if_neg hlt,
          ih _ (by omega)]
        unfold ascii
        rw [Nat.toList_repr, List.map_append, List.append_assoc]
        rfl

theorem digits_decimal (n : Nat) : digits 0 n = ascii (Nat.repr n) := by
  unfold digits
  rw [if_neg (by decide), if_neg (by decide)]
  dsimp only
  split
  next hle =>
    rw [Nat.mod_eq_of_lt (by omega), putDigits_decimal _ _ (Nat.lt_succ_self n),
      List.append_nil]
  next => rw [putDigits_decimal _ _ (Nat.lt_succ_self n), List.append_nil]

/-!
## Widths
-/

theorem widthLoop_digits {ds : List Byte} (hds : forall c, c ∈ ds -> isDigit c) :
    forall (d : Directive) {c : Byte} (fmt : List Byte), ¬ isDigit c -> d.width < 2 ^ 32 ->
      widthLoop d (ds ++ c :: fmt) =
        some ({ d with width := numeralFrom 10 digitOf d.width ds % 2 ^ 32 }, c :: fmt) := by
  induction ds with
  | nil =>
      intro d c fmt hc hwidth
      rw [List.nil_append, widthLoop, if_neg hc]
      show _ = some ({ d with width := d.width % 2 ^ 32 }, c :: fmt)
      rw [Nat.mod_eq_of_lt hwidth]
  | cons x ds ih =>
      intro d c fmt hc hwidth
      rw [List.cons_append, widthLoop, if_pos (hds x List.mem_cons_self),
        ih (fun y hy => hds y (List.mem_cons_of_mem x hy)) _ _ hc
          (Nat.mod_lt _ (Nat.two_pow_pos 32))]
      have hmod := numeralFrom_modEq 10 digitOf ds
        (Nat.mod_modEq (d.width * 10 + digitOf x) (2 ^ 32))
      dsimp only
      rw [hmod, numeralFrom_cons]

def padded (width : Nat) (c : Byte) (text : List Byte) : List Byte :=
  List.replicate (width - text.length) c ++ text

def Number.text (n : Number) : List Byte :=
  (if n.d.sign ∧ n.i64 < 0 then [byte '-'] else []) ++
    padded n.d.width n.d.zero (ascii (Nat.repr n.abs))

theorem Number.put_decimal {n : Number} (hdecimal : n.d.hexadecimal = 0) {max : Nat}
    {out : List Byte} (hroom : out.length + n.text.length ≤ max) :
    n.put max out = out ++ n.text := by
  unfold Number.put
  unfold Number.text padded at hroom ⊢
  dsimp only
  rw [hdecimal, digits_decimal]
  generalize ascii (Nat.repr n.abs) = p at hroom ⊢
  have hsign : (if n.d.sign ∧ n.i64 < 0 then out ++ [byte '-'] else out) =
      out ++ if n.d.sign ∧ n.i64 < 0 then [byte '-'] else [] := by
    split
    · rfl
    · rw [List.append_nil]
  rw [hsign]
  generalize (if n.d.sign = true ∧ n.i64 < 0 then [byte '-'] else []) = sign at hroom ⊢
  simp only [List.length_append, List.length_replicate] at hroom
  rw [Nat.min_eq_left (by rw [List.length_append]; omega), List.take_of_length_le
    (by simp only [List.length_append, List.length_replicate]; omega)]
  simp only [List.append_assoc]

/-!
## Directives for 64 bits
-/

variable {m : Mem} {max : Nat} {args : List (BitVec 64)} {out rest ds : List Byte}

theorem directive_digits (hds : forall c, c ∈ ds -> isDigit c) {c : Byte} (hc : ¬ isDigit c) :
    directive m max args out (ds ++ c :: rest) =
      (flagsLoop { startDirective (ds.headD c) with width := decimalValue ds % 2 ^ 32 } args
        (c :: rest)).bind fun flags => convert m max flags.1 flags.2.1 out flags.2.2 := by
  have hstart : directive m max args out (ds ++ c :: rest) =
      (widthLoop (startDirective (ds.headD c)) (ds ++ c :: rest)).bind fun width =>
        (flagsLoop width.1 args width.2).bind fun flags =>
          convert m max flags.1 flags.2.1 out flags.2.2 := by
    cases ds with
    | nil => rfl
    | cons x ds => rfl
  rw [hstart, widthLoop_digits hds _ _ hc (Nat.two_pow_pos 32)]
  unfold decimalValue
  rw [← numeralFrom_zero]
  rfl

def flagL (signed : Bool) : List Byte :=
  if signed then [] else [byte 'u']

def directiveL (signed : Bool) (ds : List Byte) : List Byte :=
  byte '%' :: (ds ++ flagL signed) ++ [byte 'L']

def numberL (signed : Bool) (ds : List Byte) (a : BitVec 64) : Number :=
  Directive.fetch
    { zero := if ds.head? = some (byte '0') then byte '0' else byte ' '
      width := decimalValue ds % 2 ^ 32
      sign := signed
      hexadecimal := 0
      maxWidth := false
      slen := 2 ^ 64 - 1 } a.toInt a.toNat

theorem convert_L (d : Directive) (a : BitVec 64) :
    convert m max d (a :: args) out (byte 'L' :: rest) =
      some { fmt := rest, args := args, out := (d.fetch a.toInt a.toNat).put max out } :=
  rfl

theorem startDirective_zero {c : Byte} (hc : c ≠ byte '0') (ds : List Byte) :
    (startDirective (ds.headD c)).zero =
      if ds.head? = some (byte '0') then byte '0' else byte ' ' := by
  cases ds with
  | nil => exact if_neg hc
  | cons x ds =>
      show (if x = byte '0' then byte '0' else byte ' ') = _
      rw [List.head?_cons]
      simp only [Option.some.injEq]

theorem directive_L (hds : forall c, c ∈ ds -> isDigit c) (signed : Bool) (a : BitVec 64) :
    directive m max (a :: args) out (ds ++ flagL signed ++ byte 'L' :: rest) =
      some { fmt := rest, args := args, out := (numberL signed ds a).put max out } := by
  cases signed with
  | true =>
      show directive m max (a :: args) out (ds ++ [] ++ byte 'L' :: rest) = _
      rw [List.append_nil, directive_digits hds (by decide), flagsLoop_end (by decide),
        Option.bind_some, convert_L]
      unfold numberL
      rw [← startDirective_zero (c := byte 'L') (by decide)]
      rfl
  | false =>
      show directive m max (a :: args) out (ds ++ [byte 'u'] ++ byte 'L' :: rest) = _
      rw [List.append_assoc, List.singleton_append, directive_digits hds (by decide)]
      show (flagsLoop _ _ (byte 'L' :: rest)).bind _ = _
      rw [flagsLoop_end (by decide), Option.bind_some, convert_L]
      unfold numberL
      rw [← startDirective_zero (c := byte 'u') (by decide)]
      rfl

def textL (signed : Bool) (ds : List Byte) (a : BitVec 64) : List Byte :=
  (if signed ∧ a.toInt < 0 then [byte '-'] else []) ++
    padded (decimalValue ds % 2 ^ 32)
      (if ds.head? = some (byte '0') then byte '0' else byte ' ')
      (ascii (Nat.repr (if signed then a.toInt.natAbs else a.toNat)))

theorem numberL_text (signed : Bool) (ds : List Byte) (a : BitVec 64) :
    (numberL signed ds a).text = textL signed ds a := by
  cases signed with
  | true =>
      have habs : (numberL true ds a).abs = a.toInt.natAbs := by
        rcases toInt_bounds a with ⟨hlo, hhi⟩
        show (if a.toInt < 0 then (-a.toInt % 2 ^ 64).toNat else a.toInt.toNat) = _
        split <;> omega
      unfold Number.text textL
      rw [habs]
      rfl
  | false => rfl

theorem printBody_L (hds : forall c, c ∈ ds -> isDigit c) (signed : Bool) (a : BitVec 64)
    (hroom : out.length + (textL signed ds a).length ≤ max) :
    printBody m max { fmt := directiveL signed ds ++ rest, args := a :: args, out := out } =
      Turn.next { fmt := rest, args := args, out := out ++ textL signed ds a } := by
  have hpos : 0 < (textL signed ds a).length := by
    unfold textL padded ascii
    rw [List.length_append, List.length_append, List.length_map, Nat.toList_repr]
    have hdigits := @Nat.length_toDigits_pos 10 (if signed then a.toInt.natAbs else a.toNat)
    omega
  have hfmt : directiveL signed ds ++ rest =
      byte '%' :: (ds ++ flagL signed ++ byte 'L' :: rest) :=
    List.append_assoc _ _ _
  rw [← numberL_text] at hroom hpos ⊢
  rw [hfmt]
  unfold printBody
  dsimp only
  rw [if_pos ⟨by decide, by omega⟩, if_pos rfl, directive_L hds,
    Number.put_decimal _ hroom]
  cases signed <;> rfl

/-!
## Everything that is printed
-/

/-- The output stays in the buffer and the digits stay in `temp`, a format that ends its
directives returns where it has its arguments, and the numerals are exact. -/
structure PrintsRight (m : Mem) (max : Nat) (fmt : List Byte) (args : List (BitVec 64)) :
    Prop where
  inside : forall s, Turns (printBody m max) { fmt := fmt, args := args, out := [] } s ->
    s.out.length ≤ max
  result : forall s, stringXxvsnprintf m max fmt args = some s -> s.out.length ≤ max
  temp : forall d a c n, fetchNumber d a c = some n ->
    (digits n.d.hexadecimal n.abs).length ≤ ngxInt64Len
  returns : forall text rest n, fmt = text ++ 0 :: rest -> Format text n -> n ≤ args.length ->
    exists s, stringXxvsnprintf m max fmt args = some s
  numerals : forall s signed ds a args' rest, (forall c, c ∈ ds -> isDigit c) ->
    s.fmt = directiveL signed ds ++ rest -> s.args = a :: args' ->
    s.out.length + (textL signed ds a).length ≤ max ->
    printBody m max s =
      Turn.next { fmt := rest, args := args', out := s.out ++ textL signed ds a }

theorem turns_inside {s t : Print} (h : Turns (printBody m max) s t)
    (hs : s.out.length ≤ max) : t.out.length ≤ max :=
  h.keeps (fun s => s.out.length ≤ max) (fun _ _ _ hbody => (printBody_turns hbody).2) hs

theorem printLoop_inside {s t : Print} (h : printLoop m max s = some t)
    (hs : s.out.length ≤ max) : t.out.length ≤ max := by
  refine iterate_keeps (fun s : Print => s.out.length ≤ max) (fun t => t.out.length ≤ max)
    (fun _ _ _ hbody => (printBody_turns hbody).2) ?_ hs h
  intro s r hinv hbody
  rcases s with ⟨fmt, args, out⟩
  cases fmt with
  | nil => cases hbody
  | cons c fmt =>
      unfold printBody at hbody
      dsimp only at hbody
      split at hbody
      · split at hbody
        · split at hbody
          · cases hbody
          · cases hbody
        · cases hbody
      · cases hbody
        exact hinv

theorem Format.returns {text : List Byte} {n : Nat} (h : Format text n) (m : Mem) (max : Nat)
    {args : List (BitVec 64)} (hargs : n ≤ args.length) (rest : List Byte) :
    exists s, stringXxvsnprintf m max (text ++ 0 :: rest) args = some s := by
  unfold stringXxvsnprintf
  split
  · exact ⟨_, rfl⟩
  · rcases h.prints m max args [] (Nat.zero_le max) with ⟨o, hsome, ho⟩
    have hisSome := hsome hargs
    rw [← ho rest, Option.isSome_map] at hisSome
    exact Option.isSome_iff_exists.mp hisSome

theorem xxvsnprintf_right (m : Mem) (max : Nat) (fmt : List Byte) (args : List (BitVec 64)) :
    PrintsRight m max fmt args := by
  constructor
  case inside =>
    intro s hturns
    exact turns_inside hturns (Nat.zero_le max)
  case result =>
    intro s h
    unfold stringXxvsnprintf at h
    split at h
    · cases h
      exact Nat.zero_le max
    · exact printLoop_inside h (Nat.zero_le max)
  case temp =>
    intro d a c n hn
    exact digits_length _ (fetchNumber_some_fits hn).abs_lt
  case returns =>
    intro text rest n hfmt hformat hargs
    subst hfmt
    exact hformat.returns m max hargs rest
  case numerals =>
    intro s signed ds a args' rest hds hfmt hargs hroom
    rcases s with ⟨fmt, args, out⟩
    subst hfmt hargs
    exact printBody_L hds signed a hroom

theorem xxvsnprintf_right_least :
    printBody (asMem []) 32
        { fmt := directiveL true (ascii "022") ++ [0], args := [BitVec.ofInt 64 (-2 ^ 63)]
          out := [] } =
      Turn.next { fmt := [0], args := [], out := ascii "-0009223372036854775808" } :=
  (xxvsnprintf_right (asMem []) 32 (ascii "%022L\x00") [BitVec.ofInt 64 (-2 ^ 63)]).numerals
    { fmt := directiveL true (ascii "022") ++ [0], args := [BitVec.ofInt 64 (-2 ^ 63)]
      out := [] } true (ascii "022") (BitVec.ofInt 64 (-2 ^ 63)) [] [0] (by decide) rfl rfl
    (by decide +kernel)

/-- A negative number has its sign in front of the padding, and is longer than its width. -/
theorem negative_padded :
    (stringXxvsnprintf (asMem []) 16 (ascii "%5L\x00") [BitVec.ofInt 64 (-42)]).map Print.out =
      some (ascii "-   42") ∧
    (stringXxvsnprintf (asMem []) 16 (ascii "%5L\x00") [BitVec.ofInt 64 (-42)]).map Print.out ≠
      some (padded 5 (byte ' ') (ascii "-42")) := by
  decide +kernel

end Strings
end NgxEpoll
