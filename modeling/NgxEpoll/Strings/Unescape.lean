import NgxEpoll.Strings.Escape

/-!
# Escapes taken back

`string_unescape_uri` of `dfs_string.cpp`, on what `string_escape_uri` has written.

## The function
-/

namespace NgxEpoll
namespace Strings

open Foundation
open NgxEpoll.Core

def dfsUnescapeUri : Nat := 1

def dfsUnescapeRedirect : Nat := 2

inductive UnescapeState where
  | swUsual
  | swQuoted
  | swQuotedSecond
deriving DecidableEq

/-- What `string_unescape_uri` has in hand before a byte.  `prev` is the byte before. -/
structure Unescape where
  state : UnescapeState
  decoded : Byte
  prev : Byte
deriving DecidableEq

structure Unescaped where
  dst : List Byte
  next : Option Unescape

def unescapeUsual (type : Nat) (u : Unescape) (ch : Byte) : Unescaped :=
  if ch = 0x3f ∧ type &&& (dfsUnescapeUri ||| dfsUnescapeRedirect) ≠ 0 then
    { dst := [ch], next := none }
  else if ch = 0x25 then
    { dst := [], next := some { u with state := UnescapeState.swQuoted, prev := ch } }
  else { dst := [ch], next := some { u with prev := ch } }

def unescapeQuoted (u : Unescape) (ch : Byte) : Unescaped :=
  if isDigit ch then
    { dst := [],
      next := some { state := UnescapeState.swQuotedSecond, decoded := ch - 0x30, prev := ch } }
  else if isHexLetter ch then
    { dst := []
      next := some { state := UnescapeState.swQuotedSecond
                     decoded := (ch ||| 0x20) - 0x61 + 10
                     prev := ch } }
  else { dst := [ch], next := some { u with state := UnescapeState.swUsual, prev := ch } }

def unescapeQuotedSecond (type : Nat) (u : Unescape) (ch : Byte) : Unescaped :=
  let next := { u with state := UnescapeState.swUsual, prev := ch }
  if isDigit ch then
    let c := (u.decoded <<< 4) + ch - 0x30
    if type &&& dfsUnescapeRedirect ≠ 0 then
      if 0x25 < c ∧ c < 0x7f then { dst := [c], next := some next }
      else { dst := [0x25, u.prev, ch], next := some next }
    else { dst := [c], next := some next }
  else if isHexLetter ch then
    let c := (u.decoded <<< 4) + (ch ||| 0x20) - 0x61 + 10
    if type &&& dfsUnescapeUri ≠ 0 then
      if c = 0x3f then { dst := [c], next := none }
      else { dst := [c], next := some next }
    else if type &&& dfsUnescapeRedirect ≠ 0 then
      if c = 0x3f then { dst := [c], next := none }
      else if 0x25 < c ∧ c < 0x7f then { dst := [c], next := some next }
      else { dst := [0x25, u.prev, ch], next := some next }
    else { dst := [c], next := some next }
  else { dst := [], next := some next }

def unescapeByte (type : Nat) (u : Unescape) (ch : Byte) : Unescaped :=
  match u.state with
  | UnescapeState.swUsual => unescapeUsual type u ch
  | UnescapeState.swQuoted => unescapeQuoted u ch
  | UnescapeState.swQuotedSecond => unescapeQuotedSecond type u ch

def unescapeLoop (type : Nat) (u : Unescape) : List Byte -> List Byte × List Byte
  | [] => ([], [])
  | ch :: src =>
      match unescapeByte type u ch with
      | { dst := dst, next := none } => (dst, src)
      | { dst := dst, next := some u' } =>
          let rest := unescapeLoop type u' src
          (dst ++ rest.1, rest.2)

def stringUnescapeUri (type : Nat) (src : List Byte) : List Byte × List Byte :=
  unescapeLoop type { state := UnescapeState.swUsual, decoded := 0, prev := 0 } src

/-!
## Type 0
-/

inductive Mode where
  | usual
  | quoted
  | second (decoded : Byte)

def Unescape.mode (u : Unescape) : Mode :=
  match u.state with
  | UnescapeState.swUsual => Mode.usual
  | UnescapeState.swQuoted => Mode.quoted
  | UnescapeState.swQuotedSecond => Mode.second u.decoded

def hexValue (ch : Byte) : Option Byte :=
  if isDigit ch then some (ch - 0x30)
  else if isHexLetter ch then some ((ch ||| 0x20) - 0x61 + 10)
  else none

def decode : Mode -> List Byte -> List Byte
  | _, [] => []
  | Mode.usual, ch :: src =>
      if ch = 0x25 then decode Mode.quoted src else ch :: decode Mode.usual src
  | Mode.quoted, ch :: src =>
      match hexValue ch with
      | some v => decode (Mode.second v) src
      | none => ch :: decode Mode.usual src
  | Mode.second decoded, ch :: src =>
      match hexValue ch with
      | some v => ((decoded <<< 4) + v) :: decode Mode.usual src
      | none => decode Mode.usual src

section Decode

variable {ch v decoded : Byte} {src : List Byte}

theorem decode_percent :
    decode Mode.usual (0x25 :: src) = decode Mode.quoted src := rfl

theorem decode_usual (h : ch ≠ 0x25) :
    decode Mode.usual (ch :: src) = ch :: decode Mode.usual src := by
  conv_lhs => unfold decode
  rw [if_neg h]

theorem decode_quoted (h : hexValue ch = some v) :
    decode Mode.quoted (ch :: src) = decode (Mode.second v) src := by
  conv_lhs => unfold decode
  rw [h]

theorem decode_quoted_none (h : hexValue ch = none) :
    decode Mode.quoted (ch :: src) = ch :: decode Mode.usual src := by
  conv_lhs => unfold decode
  rw [h]

theorem decode_second (h : hexValue ch = some v) :
    decode (Mode.second decoded) (ch :: src) =
      ((decoded <<< 4) + v) :: decode Mode.usual src := by
  conv_lhs => unfold decode
  rw [h]

theorem decode_second_none (h : hexValue ch = none) :
    decode (Mode.second decoded) (ch :: src) = decode Mode.usual src := by
  conv_lhs => unfold decode
  rw [h]

theorem hexValue_digit (h : isDigit ch) : hexValue ch = some (ch - 0x30) := by
  unfold hexValue
  rw [if_pos h]

theorem hexValue_letter (h : ¬ isDigit ch) (hletter : isHexLetter ch) :
    hexValue ch = some ((ch ||| 0x20) - 0x61 + 10) := by
  unfold hexValue
  rw [if_neg h, if_pos hletter]

theorem hexValue_none (h : ¬ isDigit ch) (hletter : ¬ isHexLetter ch) : hexValue ch = none := by
  unfold hexValue
  rw [if_neg h, if_neg hletter]

theorem add_sub_byte (x y z : Byte) : x + (y - z) = x + y - z := by
  bv_omega

end Decode

theorem unescapeByte_zero (u : Unescape) (ch : Byte) :
    exists dst u', unescapeByte 0 u ch = { dst := dst, next := some u' } ∧
      forall src, decode u.mode (ch :: src) = dst ++ decode u'.mode src := by
  unfold unescapeByte Unescape.mode
  cases hstate : u.state with
  | swUsual =>
      dsimp only
      unfold unescapeUsual
      rw [if_neg (fun h => h.2 rfl)]
      split
      · next hpercent =>
        subst hpercent
        exact ⟨_, _, rfl, fun src => decode_percent⟩
      · next hpercent =>
        refine ⟨_, _, rfl, ?_⟩
        intro src
        dsimp only
        rw [hstate]
        exact decode_usual hpercent
  | swQuoted =>
      dsimp only
      unfold unescapeQuoted
      split
      · next hdigit => exact ⟨_, _, rfl, fun src => decode_quoted (hexValue_digit hdigit)⟩
      · next hdigit =>
        split
        · next hletter =>
          exact ⟨_, _, rfl, fun src => decode_quoted (hexValue_letter hdigit hletter)⟩
        · next hletter =>
          exact ⟨_, _, rfl, fun src => decode_quoted_none (hexValue_none hdigit hletter)⟩
  | swQuotedSecond =>
      dsimp only
      unfold unescapeQuotedSecond
      split
      · next hdigit =>
        rw [if_neg (fun h => h rfl)]
        refine ⟨_, _, rfl, ?_⟩
        intro src
        rw [decode_second (hexValue_digit hdigit), add_sub_byte]
        rfl
      · next hdigit =>
        split
        · next hletter =>
          rw [if_neg (fun h => h rfl), if_neg (fun h => h rfl)]
          refine ⟨_, _, rfl, ?_⟩
          intro src
          rw [decode_second (hexValue_letter hdigit hletter), ← BitVec.add_assoc, add_sub_byte]
          rfl
        · next hletter =>
          exact ⟨_, _, rfl, fun src => decode_second_none (hexValue_none hdigit hletter)⟩

theorem unescapeLoop_zero (u : Unescape) (src : List Byte) :
    unescapeLoop 0 u src = (decode u.mode src, []) := by
  induction src generalizing u with
  | nil => rfl
  | cons ch src ih =>
      obtain ⟨dst, u', hbyte, hdecode⟩ := unescapeByte_zero u ch
      unfold unescapeLoop
      rw [hbyte]
      dsimp only
      rw [ih u', hdecode src]

/-!
## Escapes
-/

theorem hexValue_hex : forall c : Byte,
    hexValue (hex.getD (c >>> 4).toNat 0) = some (c >>> 4) ∧
      hexValue (hex.getD (c &&& 0xf).toNat 0) = some (c &&& 0xf) ∧
      ((c >>> 4) <<< 4) + (c &&& 0xf) = c := by
  decide +kernel

theorem decode_escaped {type : Fin 6} {c : Byte} (h : escapes type c) (src : List Byte) :
    decode Mode.usual (escapeByte type c ++ src) = c :: decode Mode.usual src := by
  obtain ⟨hhigh, hlow, hbyte⟩ := hexValue_hex c
  unfold escapeByte
  rw [if_pos h, List.cons_append, decode_percent, List.cons_append, decode_quoted hhigh,
    List.cons_append, decode_second hlow, hbyte]
  rfl

theorem decode_plain {type : Fin 6} {c : Byte} (h : ¬ escapes type c) (hc : c ≠ 0x25)
    (src : List Byte) :
    decode Mode.usual (escapeByte type c ++ src) = c :: decode Mode.usual src := by
  unfold escapeByte
  rw [if_neg h]
  exact decode_usual hc

theorem decode_escape {type : Fin 6} {s : List Byte} (h : escapes type 0x25 ∨ 0x25 ∉ s) :
    decode Mode.usual (s.flatMap (escapeByte type)) = s := by
  induction s with
  | nil => rfl
  | cons c s ih =>
      have hs : escapes type 0x25 ∨ 0x25 ∉ s :=
        h.imp_right fun hmem hs => hmem (List.mem_cons_of_mem c hs)
      rw [List.flatMap_cons]
      by_cases hc : escapes type c
      · rw [decode_escaped hc, ih hs]
      · have hne : c ≠ 0x25 := by
          intro heq
          subst heq
          rcases h with htable | hmem
          · exact hc htable
          · exact hmem (List.mem_cons_self ..)
        rw [decode_plain hc hne, ih hs]

/-!
## A table without the `%`
-/

theorem escapes_percent : forall type, escapes type 0x25 ↔ type ≠ 3 := by
  decide +kernel

theorem hexValue_refresh : forall c, hexValue c ≠ none -> ¬ escapes 3 c ∧ c ≠ 0x25 := by
  decide +kernel

theorem escapeByte_escaped {c : Byte} (h : escapes 3 c) :
    exists high low, escapeByte 3 c = [0x25, high, low] ∧
      high ≠ c ∧ high ≠ 0x25 ∧ low ≠ 0x25 := by
  obtain ⟨hhigh, hlow, -⟩ := hexValue_hex c
  have hhigh_plain := hexValue_refresh _ (Option.ne_none_iff_exists'.mpr ⟨_, hhigh⟩)
  have hlow_plain := hexValue_refresh _ (Option.ne_none_iff_exists'.mpr ⟨_, hlow⟩)
  refine ⟨_, _, ?_, ?_, hhigh_plain.2, hlow_plain.2⟩
  · unfold escapeByte
    rw [if_pos h]
  · intro heq
    apply hhigh_plain.1
    rw [heq]
    exact h

variable {c : Byte} {s t l : List Byte}

theorem escapeByte_plain (h : ¬ escapes 3 c) : escapeByte 3 c = [c] := by
  unfold escapeByte
  rw [if_neg h]

theorem suffix_of_cons_suffix {x y : Byte} (h : x :: y :: t <:+ c :: l) : y :: t <:+ l := by
  rcases List.suffix_cons_iff.mp h with heq | hsuffix
  · exact ⟨[], (List.cons.inj heq).2⟩
  · exact (List.suffix_cons x _).trans hsuffix

theorem suffix_of_ne {x : Byte} (h : x :: t <:+ c :: l) (hne : x ≠ c) : x :: t <:+ l := by
  rcases List.suffix_cons_iff.mp h with heq | hsuffix
  · exact absurd (List.cons.inj heq).1 hne
  · exact hsuffix

theorem not_cons_suffix_nil {x : Byte} : ¬ x :: t <:+ [] :=
  fun h => absurd (List.suffix_nil.mp h) (List.cons_ne_nil x t)

/-- The escape of `e` after a `%` and a hex digit, of which only the two digits come out. -/
theorem decode_second_escaped {decoded high low : Byte} (hhigh : high ≠ 0x25)
    (hlow : low ≠ 0x25) (src : List Byte) :
    decode (Mode.second decoded) (0x25 :: high :: low :: src) =
      high :: low :: decode Mode.usual src := by
  rw [decode_second_none (by decide), decode_usual hhigh, decode_usual hlow]

/-- The bytes behind a `%` and a digit do not come back behind these, where no shorter text
comes back behind a byte. -/
theorem decode_second_suffix {d v : Byte}
    (ih : forall s, s.length < t.length ->
      forall z, ¬ z :: s <:+ decode Mode.usual (s.flatMap (escapeByte 3))) :
    ¬ 0x25 :: d :: t <:+ decode (Mode.second v) (t.flatMap (escapeByte 3)) := by
  intro hsuffix
  cases t with
  | nil => exact not_cons_suffix_nil hsuffix
  | cons e t =>
      have hnot := ih t (Nat.lt_succ_self _) e
      rw [List.flatMap_cons] at hsuffix
      by_cases he : escapes 3 e
      · obtain ⟨high, low, hbytes, -, hhigh, hlow⟩ := escapeByte_escaped he
        rw [hbytes, List.cons_append, List.cons_append, List.cons_append, List.nil_append,
          decode_second_escaped hhigh hlow] at hsuffix
        have hrest := suffix_of_ne (suffix_of_ne hsuffix hhigh.symm) hlow.symm
        exact hnot ((List.suffix_cons _ _).trans ((List.suffix_cons _ _).trans hrest))
      · rw [escapeByte_plain he, List.singleton_append] at hsuffix
        cases hvalue : hexValue e with
        | none =>
            -- `e` does not come out at all
            rw [decode_second_none hvalue] at hsuffix
            exact hnot ((List.suffix_cons _ _).trans ((List.suffix_cons _ _).trans hsuffix))
        | some w =>
            rw [decode_second hvalue] at hsuffix
            exact hnot ((List.suffix_cons _ _).trans (suffix_of_cons_suffix hsuffix))

/-- The bytes behind a `%` of the text do not come back behind a `%`, where no shorter
text comes back behind a byte. -/
theorem decode_quoted_suffix
    (ih : forall s, s.length < t.length ->
      forall y, ¬ y :: s <:+ decode Mode.usual (s.flatMap (escapeByte 3))) :
    ¬ 0x25 :: t <:+ decode Mode.quoted (t.flatMap (escapeByte 3)) := by
  intro hsuffix
  cases t with
  | nil => exact not_cons_suffix_nil hsuffix
  | cons d t =>
      have hnot := ih t (Nat.lt_succ_self _)
      rw [List.flatMap_cons] at hsuffix
      by_cases hd : escapes 3 d
      · -- out come the `%` of the escape and its digits
        obtain ⟨high, low, hbytes, hne, hhigh, hlow⟩ := escapeByte_escaped hd
        rw [hbytes, List.cons_append, List.cons_append, List.cons_append, List.nil_append,
          decode_quoted_none (by decide), decode_usual hhigh, decode_usual hlow] at hsuffix
        rcases List.suffix_cons_iff.mp hsuffix with heq | htail
        · injection heq with _ heq
          injection heq with heq _
          exact hne heq.symm
        · have hrest := suffix_of_ne (suffix_of_ne htail hhigh.symm) hlow.symm
          exact hnot d ((List.suffix_cons _ _).trans hrest)
      · rw [escapeByte_plain hd, List.singleton_append] at hsuffix
        cases hvalue : hexValue d with
        | none =>
            rw [decode_quoted_none hvalue] at hsuffix
            exact hnot d (suffix_of_cons_suffix hsuffix)
        | some v =>
            rw [decode_quoted hvalue] at hsuffix
            exact decode_second_suffix
              (fun s hs => ih s (Nat.lt_succ_of_lt hs)) hsuffix

theorem decode_usual_suffix (t : List Byte) :
    forall y, ¬ y :: t <:+ decode Mode.usual (t.flatMap (escapeByte 3)) := by
  induction hlength : t.length using Nat.strongRecOn generalizing t with
  | ind n ih =>
      subst hlength
      intro y hsuffix
      cases t with
      | nil => exact not_cons_suffix_nil hsuffix
      | cons c t =>
          have hshorter : forall s, s.length < t.length ->
              forall y, ¬ y :: s <:+ decode Mode.usual (s.flatMap (escapeByte 3)) := by
            intro s hlt
            exact ih s.length (Nat.lt_succ_of_lt hlt) s rfl
          have hnot := ih t.length (Nat.lt_succ_self _) t rfl
          rw [List.flatMap_cons] at hsuffix
          by_cases hc : escapes 3 c
          · rw [decode_escaped hc] at hsuffix
            exact hnot c (suffix_of_cons_suffix hsuffix)
          · by_cases hpercent : c = 0x25
            · subst hpercent
              rw [escapeByte_plain hc, List.singleton_append, decode_percent] at hsuffix
              exact decode_quoted_suffix hshorter ((List.suffix_cons _ _).trans hsuffix)
            · rw [decode_plain hc hpercent] at hsuffix
              exact hnot c (suffix_of_cons_suffix hsuffix)

theorem decode_escape_ne {s : List Byte} (h : 0x25 ∈ s) :
    decode Mode.usual (s.flatMap (escapeByte 3)) ≠ s := by
  induction s with
  | nil => exact absurd h List.not_mem_nil
  | cons c s ih =>
      intro heq
      rw [List.flatMap_cons] at heq
      by_cases hpercent : c = 0x25
      · subst hpercent
        have hc : ¬ escapes 3 0x25 := fun hc => (escapes_percent 3).mp hc rfl
        rw [escapeByte_plain hc, List.singleton_append, decode_percent] at heq
        refine @decode_quoted_suffix s ?_ ?_
        · intro t hlt
          exact decode_usual_suffix t
        · exact ⟨[], heq.symm⟩
      · have hmem : 0x25 ∈ s := by
          rcases List.mem_cons.mp h with hhead | htail
          · exact absurd hhead.symm hpercent
          · exact htail
        have htail : decode Mode.usual (escapeByte 3 c ++ s.flatMap (escapeByte 3)) =
            c :: decode Mode.usual (s.flatMap (escapeByte 3)) := by
          by_cases hc : escapes 3 c
          · exact decode_escaped hc _
          · exact decode_plain hc hpercent _
        rw [htail] at heq
        exact ih hmem (List.cons.inj heq).2

/-!
## The round trip
-/

/-- `string_unescape_uri` with type 0 takes all of what `string_escape_uri` writes for the
bytes, wherever they lie, and returns them. -/
def ComesBack (type : Fin 6) (s : List Byte) : Prop :=
  forall m src, load m src s.length = s ->
    exists dst, Returns (stringEscapeUri m src s.length type) dst ∧
      stringUnescapeUri 0 dst = (s, [])

theorem stringUnescapeUri_zero (src : List Byte) :
    stringUnescapeUri 0 src = (decode Mode.usual src, []) :=
  unescapeLoop_zero _ src

/-- A text comes back if and only if a 32-bit counter counts its bytes and its escape type
is not 3, or it has no `%`. -/
theorem escape_comes_back_iff (type : Fin 6) (s : List Byte) :
    ComesBack type s ↔ s.length < 2 ^ 32 ∧ (type ≠ 3 ∨ 0x25 ∉ s) := by
  constructor
  · intro h
    obtain ⟨dst, hreturns, hback⟩ := h (asMem s) 0 (load_asMem s)
    have hlength : s.length < 2 ^ 32 := by
      by_contra hlong
      obtain ⟨fuel, hfuel⟩ := hreturns
      have hsome := hfuel fuel (Nat.le_refl fuel)
      have hnone : stringEscapeUri (asMem s) 0 s.length type fuel = none :=
        pass_endless _ (Nat.not_lt.mp hlong) [] fuel
      rw [hnone] at hsome
      cases hsome
    refine ⟨hlength, ?_⟩
    rw [stringUnescapeUri_zero, hreturns.eq (stringEscapeUri_returns type hlength),
      load_asMem] at hback
    by_contra hboth
    obtain ⟨htype, hmem⟩ := not_or.mp hboth
    rw [not_not.mp htype] at hback
    exact decode_escape_ne (not_not.mp hmem) (Prod.mk.inj hback).1
  · intro h m src hload
    refine ⟨_, stringEscapeUri_returns type h.1, ?_⟩
    rw [stringUnescapeUri_zero, hload,
      decode_escape (h.2.imp_left (escapes_percent type).mpr)]

theorem escape_refresh_percent :
    stringEscapeUri (asMem (ascii "%41")) 0 3 3 4 = some (ascii "%41") ∧
      stringUnescapeUri 0 (ascii "%41") = (ascii "A", []) ∧ ¬ ComesBack 3 (ascii "%41") := by
  refine ⟨by decide, by decide, ?_⟩
  intro h
  obtain ⟨dst, hreturns, hback⟩ := h (asMem (ascii "%41")) 0 (load_asMem _)
  rw [hreturns.eq (stringEscapeUri_returns 3 (by decide)), load_asMem] at hback
  revert hback
  decide

end Strings
end NgxEpoll
