import NgxEpoll.Strings.Print

/-!
# Texts of formats

What a directive of `string_xxvsnprintf` is, and what becomes of one that its format does
not end.

## Directives
-/

namespace NgxEpoll
namespace Strings

open Foundation
open NgxEpoll.Core

def isFlag (c : Byte) : Bool :=
  c = byte 'u' || c = byte 'm' || c = byte 'X' || c = byte 'x' || c = byte '*'

def behindFlags (t : List Byte) : List Byte :=
  (t.dropWhile isDigit).dropWhile isFlag

def stars (t : List Byte) : Nat :=
  ((t.dropWhile isDigit).takeWhile isFlag).count (byte '*')

/-- The text of a format that ends all of its directives, and needs `n` arguments. -/
inductive Format : List Byte -> Nat -> Prop where
  | nil : Format [] 0
  | plain {c : Byte} {t : List Byte} {n : Nat} : c ≠ byte '%' -> Format t n -> Format (c :: t) n
  | directive {c : Byte} {t u : List Byte} {n : Nat} : behindFlags t = c :: u -> Format u n ->
      Format (byte '%' :: t) (stars t + fetches c + n)

/-- The text of a format that does not end its last directive. -/
inductive Unended : List Byte -> Prop where
  | here {t : List Byte} : behindFlags t = [] -> Unended (byte '%' :: t)
  | plain {c : Byte} {t : List Byte} : c ≠ byte '%' -> Unended t -> Unended (c :: t)
  | directive {c : Byte} {t u : List Byte} : behindFlags t = c :: u -> Unended u ->
      Unended (byte '%' :: t)

/-- The text of a format that ends all of its directives. -/
def Ended (t : List Byte) : Prop :=
  exists n, Format t n

theorem behindFlags_suffix (t : List Byte) : behindFlags t <:+ t :=
  (List.dropWhile_suffix _).trans (List.dropWhile_suffix _)

theorem ended_or_unended (t : List Byte) : Ended t ∨ Unended t := by
  induction hlength : t.length using Nat.strongRecOn generalizing t with
  | ind l ih =>
      subst hlength
      cases t with
      | nil => exact Or.inl ⟨0, Format.nil⟩
      | cons c t =>
          by_cases hc : c = byte '%'
          · subst hc
            cases hbehind : behindFlags t with
            | nil => exact Or.inr (Unended.here hbehind)
            | cons d u =>
                have hle := (behindFlags_suffix t).length_le
                rw [hbehind, List.length_cons] at hle
                rcases ih u.length (Nat.lt_succ_of_le (Nat.le_of_succ_le hle)) u rfl with h | h
                · rcases h with ⟨n, h⟩
                  exact Or.inl ⟨_, Format.directive hbehind h⟩
                · exact Or.inr (Unended.directive hbehind h)
          · rcases ih t.length (Nat.lt_succ_self _) t rfl with h | h
            · rcases h with ⟨n, h⟩
              exact Or.inl ⟨n, Format.plain hc h⟩
            · exact Or.inr (Unended.plain hc h)

/-!
## Turns
-/

variable {m : Mem} {max : Nat} {args : List (BitVec 64)} {out t r : List Byte}

theorem widthLoop_text (t : List Byte) : forall d : Directive, exists d',
    forall r, widthLoop d (t ++ 0 :: r) = some (d', t.dropWhile isDigit ++ 0 :: r) := by
  induction t with
  | nil =>
      intro d
      exact ⟨d, fun r => rfl⟩
  | cons c t ih =>
      intro d
      by_cases hc : isDigit c
      · rcases ih { d with width := (d.width * 10 + digitOf c) % 2 ^ 32 } with ⟨d', hd'⟩
        refine ⟨d', fun r => ?_⟩
        rw [List.cons_append, widthLoop, if_pos hc, hd', List.dropWhile_cons_of_pos hc]
      · refine ⟨d, fun r => ?_⟩
        rw [List.cons_append, widthLoop, if_neg hc, List.dropWhile_cons_of_neg hc]
        rfl

theorem flagsLoop_end {c : Byte} (h : ¬ isFlag c) (d : Directive) (args : List (BitVec 64))
    (fmt : List Byte) : flagsLoop d args (c :: fmt) = some (d, args, c :: fmt) := by
  simp only [isFlag, Bool.or_eq_true, decide_eq_true_eq, not_or] at h
  rcases h with ⟨⟨⟨⟨hu, hm⟩, hX⟩, hx⟩, hstar⟩
  conv_lhs => unfold flagsLoop
  rw [if_neg hu, if_neg hm, if_neg hX, if_neg hx, if_neg hstar]

theorem flagsLoop_flag {c : Byte} (h : isFlag c) (hstar : c ≠ byte '*') (d : Directive) :
    exists d', forall args fmt, flagsLoop d args (c :: fmt) = flagsLoop d' args fmt := by
  simp only [isFlag, Bool.or_eq_true, decide_eq_true_eq] at h
  rcases h with (((hu | hm) | hX) | hx) | heq
  · subst hu
    exact ⟨_, fun args fmt => rfl⟩
  · subst hm
    exact ⟨_, fun args fmt => rfl⟩
  · subst hX
    exact ⟨_, fun args fmt => rfl⟩
  · subst hx
    exact ⟨_, fun args fmt => rfl⟩
  · exact absurd heq hstar

theorem flagsLoop_text (t : List Byte) : forall (d : Directive) (args : List (BitVec 64)),
    (args.length < (t.takeWhile isFlag).count (byte '*') ∧
      forall r, flagsLoop d args (t ++ 0 :: r) = none) ∨
    exists d', forall r, flagsLoop d args (t ++ 0 :: r) =
      some (d', args.drop ((t.takeWhile isFlag).count (byte '*')),
        t.dropWhile isFlag ++ 0 :: r) := by
  induction t with
  | nil =>
      intro d args
      exact Or.inr ⟨d, fun r => flagsLoop_end (by decide) d args r⟩
  | cons c t ih =>
      intro d args
      by_cases hc : isFlag c
      · rw [List.takeWhile_cons_of_pos hc, List.dropWhile_cons_of_pos hc]
        by_cases hstar : c = byte '*'
        · subst hstar
          rw [List.count_cons_self]
          cases args with
          | nil => exact Or.inl ⟨Nat.succ_pos _, fun r => rfl⟩
          | cons a args =>
              rcases ih { d with slen := a.toNat } args with hnone | hsome
              · exact Or.inl ⟨Nat.succ_lt_succ hnone.1, hnone.2⟩
              · exact Or.inr hsome
        · rcases flagsLoop_flag hc hstar d with ⟨d', hd'⟩
          rw [List.count_cons_of_ne hstar]
          simp only [List.cons_append, hd']
          exact ih d' args
      · rw [List.takeWhile_cons_of_neg hc, List.dropWhile_cons_of_neg hc]
        exact Or.inr ⟨d, fun r => flagsLoop_end hc d args _⟩

theorem directive_text (m : Mem) (t : List Byte) (args : List (BitVec 64)) :
    (args.length < stars t ∧
      forall max out r, directive m max args out (t ++ 0 :: r) = none) ∨
    exists d, forall max out r, directive m max args out (t ++ 0 :: r) =
      convert m max d (args.drop (stars t)) out (behindFlags t ++ 0 :: r) := by
  have hwidth : exists d, forall max out r, directive m max args out (t ++ 0 :: r) =
      (flagsLoop d args (t.dropWhile isDigit ++ 0 :: r)).bind fun flags =>
        convert m max flags.1 flags.2.1 out flags.2.2 := by
    cases t with
    | nil => exact ⟨startDirective 0, fun max out r => rfl⟩
    | cons c t =>
        rcases widthLoop_text (c :: t) (startDirective c) with ⟨d, hd⟩
        exists d
        intro max out r
        show (widthLoop (startDirective c) (c :: t ++ 0 :: r)).bind _ = _
        rw [hd r]
        rfl
  rcases hwidth with ⟨d, hd⟩
  rcases flagsLoop_text (t.dropWhile isDigit) d args with ⟨hlt, hnone⟩ | ⟨d', hsome⟩
  · left
    constructor
    · exact hlt
    · intro max out r
      rw [hd, hnone]
      rfl
  · right
    exists d'
    intro max out r
    rw [hd, hsome]
    rfl

/-- A directive that its format ends does the same whatever lies behind the format. -/
theorem directive_ended (m : Mem) {c : Byte} {u : List Byte} (h : behindFlags t = c :: u)
    (args : List (BitVec 64)) :
    (args.length < stars t + fetches c ∧
      forall max out r, directive m max args out (t ++ 0 :: r) = none) ∨
    exists w, Writes m w ∧ forall max out r, directive m max args out (t ++ 0 :: r) =
      some { fmt := u ++ 0 :: r
             args := args.drop (stars t + fetches c)
             out := w max out } := by
  rcases directive_text m t args with ⟨hlt, hnone⟩ | ⟨d, hd⟩
  · exact Or.inl ⟨Nat.lt_add_right _ hlt, hnone⟩
  · rw [h] at hd
    rcases convert_cases m c d (args.drop (stars t)) with ⟨hlt, hnone⟩ | ⟨w, hw, hsome⟩
    · left
      constructor
      · rw [List.length_drop] at hlt
        omega
      · intro max out r
        rw [hd]
        exact hnone max out _
    · right
      exists w, hw
      intro max out r
      rw [hd, ← List.drop_drop]
      exact hsome max out _

/-- A directive that its format does not end takes the zero byte, and what lies behind it. -/
theorem directive_unended (m : Mem) (h : behindFlags t = []) {args : List (BitVec 64)}
    (hargs : stars t ≤ args.length) (max : Nat) (out r : List Byte) :
    directive m max args out (t ++ 0 :: r) =
      some { fmt := r, args := args.drop (stars t), out := out ++ [0] } := by
  rcases directive_text m t args with ⟨hlt, -⟩ | ⟨d, hd⟩
  · exact absurd hlt (Nat.not_lt.mpr hargs)
  · rw [hd, h]
    rfl

/-!
## Runs
-/

def Print.result (s : Print) : List Byte × List (BitVec 64) :=
  (s.out, s.args)

/-- The result is the same whatever lies behind a format, and there is one for `n`
arguments. -/
def Settled (m : Mem) (max : Nat) (t : List Byte) (n : Nat) (args : List (BitVec 64))
    (out : List Byte) : Prop :=
  exists o : Option (List Byte × List (BitVec 64)), (n ≤ args.length -> o.isSome) ∧
    forall r, (printLoop m max
      { fmt := t ++ 0 :: r, args := args, out := out }).map Print.result = o

section

variable {c : Byte} {u : List Byte} {n : Nat}

theorem settled_full (m : Mem) (n : Nat) (args : List (BitVec 64)) (hfull : max ≤ out.length) :
    Settled m max (c :: t) n args out := by
  exists some (out, args), fun _ => rfl
  intro r
  rw [List.cons_append, printLoop_full hfull]
  rfl

theorem settled_plain (hc : c ≠ byte '%')
    (h : out.length < max -> Settled m max t n args (out ++ [c])) :
    Settled m max (c :: t) n args out := by
  by_cases hfull : max ≤ out.length
  · exact settled_full m n args hfull
  · have hroom := Nat.lt_of_not_le hfull
    by_cases hzero : c = 0
    · subst hzero
      exists some (out, args), fun _ => rfl
      intro r
      rw [List.cons_append, printLoop_zero]
      rfl
    · rcases h hroom with ⟨o, hargs, ho⟩
      exists o, hargs
      intro r
      rw [List.cons_append, printLoop_plain hzero hc hroom]
      exact ho r

theorem settled_directive (hbehind : behindFlags t = c :: u)
    (h : forall w, Writes m w -> out.length < max ->
      Settled m max u n (args.drop (stars t + fetches c)) (w max out)) :
    Settled m max (byte '%' :: t) (stars t + fetches c + n) args out := by
  by_cases hfull : max ≤ out.length
  · exact settled_full m _ args hfull
  · have hroom := Nat.lt_of_not_le hfull
    rcases directive_ended m hbehind args with ⟨hlt, hnone⟩ | ⟨w, hw, hsome⟩
    · exists none
      constructor
      · intro hargs
        omega
      · intro r
        rw [List.cons_append, printLoop_directive hroom, hnone]
        rfl
    · rcases h w hw hroom with ⟨o, hargs, ho⟩
      exists o
      constructor
      · intro hle
        apply hargs
        rw [List.length_drop]
        omega
      · intro r
        rw [List.cons_append, printLoop_directive hroom, hsome]
        exact ho r

end

/-- A format that ends its directives gives the same result whatever lies behind it, and
gives one where there are enough arguments. -/
theorem Format.prints {n : Nat} (h : Format t n) (m : Mem) (max : Nat) :
    forall (args : List (BitVec 64)) (out : List Byte), out.length ≤ max ->
      Settled m max t n args out := by
  induction h with
  | nil =>
      intro args out _
      exists some (out, args), fun _ => rfl
      intro r
      rw [List.nil_append, printLoop_zero]
      rfl
  | plain hc _ ih =>
      intro args out hout
      apply settled_plain hc
      intro hroom
      exact ih args _ (adds_append (Nat.sub_pos_of_lt hroom) hout).length_le
  | directive hbehind _ ih =>
      intro args out _
      apply settled_directive hbehind
      intro w hw hroom
      exact ih _ _ (hw.adds max _ hroom).length_le

/-- With `k` arguments and enough room, a format goes on with what lies behind it. -/
def GoesOn (m : Mem) (t : List Byte) (k : Nat) : Prop :=
  forall args : List (BitVec 64), k ≤ args.length -> exists B, forall max out,
    out.length + B < max -> exists o, o.length < max ∧ forall r,
      printLoop m max { fmt := t ++ 0 :: r, args := args, out := out } =
        printLoop m max { fmt := r, args := args.drop k, out := o }

section

variable {c : Byte} {u : List Byte} {k : Nat}

theorem goesOn_here (m : Mem) (hbehind : behindFlags t = []) :
    GoesOn m (byte '%' :: t) (stars t) := by
  intro args hargs
  exists 1
  intro max out hroom
  exists out ++ [0]
  constructor
  · rw [List.length_append]
    exact hroom
  · intro r
    rw [List.cons_append, printLoop_directive (Nat.lt_of_succ_lt hroom),
      directive_unended m hbehind hargs]
    rfl

theorem GoesOn.plain (h : GoesOn m t k) (hzero : c ≠ 0) (hc : c ≠ byte '%') :
    GoesOn m (c :: t) k := by
  intro args hargs
  rcases h args hargs with ⟨B, hB⟩
  exists B + 1
  intro max out hroom
  have hroom' : (out ++ [c]).length + B < max := by
    rw [List.length_append, List.length_singleton]
    omega
  rcases hB max (out ++ [c]) hroom' with ⟨o, ho, hrun⟩
  exists o, ho
  intro r
  rw [List.cons_append, printLoop_plain hzero hc (by omega)]
  exact hrun r

theorem GoesOn.directive (h : GoesOn m u k) (hm : forall p, m p = 0)
    (hbehind : behindFlags t = c :: u) :
    GoesOn m (byte '%' :: t) (stars t + fetches c + k) := by
  intro args hargs
  rcases directive_ended m hbehind args with ⟨hlt, -⟩ | ⟨w, hw, hsome⟩
  · omega
  · rcases hw.bounded hm with ⟨B, hB⟩
    have hleft : k ≤ (args.drop (stars t + fetches c)).length := by
      rw [List.length_drop]
      omega
    rcases h _ hleft with ⟨B', hB'⟩
    exists B + B'
    intro max out hroom
    have hle := hB max out
    rcases hB' max (w max out) (by omega) with ⟨o, ho, hrun⟩
    exists o, ho
    intro r
    rw [List.drop_drop] at hrun
    rw [List.cons_append, printLoop_directive (by omega), hsome, Option.bind_some]
    exact hrun r

end

/-- Where the memory holds no strings, a format that does not end its last directive goes on
with what lies behind it. -/
theorem Unended.prints (h : Unended t) (hzero : 0 ∉ t) {m : Mem} (hm : forall p, m p = 0) :
    exists k, GoesOn m t k := by
  induction h with
  | here hbehind => exact ⟨_, goesOn_here m hbehind⟩
  | plain hc _ ih =>
      rcases ih (List.not_mem_of_not_mem_cons hzero) with ⟨k, hk⟩
      exact ⟨k, hk.plain (fun heq => hzero (heq ▸ List.mem_cons_self)) hc⟩
  | @directive c t u hbehind _ ih =>
      have hsuffix : c :: u <:+ t := hbehind ▸ behindFlags_suffix t
      have hzero' : 0 ∉ u := fun hmem =>
        hzero (List.mem_cons_of_mem _ (hsuffix.mem (List.mem_cons_of_mem c hmem)))
      rcases ih hzero' with ⟨k, hk⟩
      exact ⟨_, hk.directive hm hbehind⟩

/-!
## The terminator
-/

/-- Whatever lies behind the terminator of the format, the output is the same, and so are
the arguments that are consumed. -/
def Alike (text : List Byte) : Prop :=
  forall (m : Mem) (max : Nat) (args : List (BitVec 64)) (r r' : List Byte),
    (stringXxvsnprintf m max (text ++ 0 :: r) args).map Print.result =
      (stringXxvsnprintf m max (text ++ 0 :: r') args).map Print.result

theorem Ended.alike {text : List Byte} (h : Ended text) : Alike text := by
  intro m max args r r'
  rcases h with ⟨n, h⟩
  unfold stringXxvsnprintf
  split
  · rfl
  · rcases h.prints m max args [] (Nat.zero_le _) with ⟨o, -, ho⟩
    rw [ho r, ho r']

theorem Unended.not_alike {text : List Byte} (h : Unended text) (hzero : 0 ∉ text) :
    ¬ Alike text := by
  intro halike
  rcases h.prints hzero (m := fun _ => 0) (fun _ => rfl) with ⟨k, hk⟩
  rcases hk (List.replicate k 0) (by rw [List.length_replicate]) with ⟨B, hB⟩
  rcases hB (B + 1) [] (by rw [List.length_nil]; omega) with ⟨o, ho, hrun⟩
  have heq := halike (fun _ => 0) (B + 1) (List.replicate k 0) [0] (ascii "a\x00")
  unfold stringXxvsnprintf at heq
  rw [if_neg (Nat.succ_ne_zero B), if_neg (Nat.succ_ne_zero B), hrun, hrun] at heq
  change Option.map _ (printLoop _ _ { fmt := 0 :: [], args := _, out := o }) =
    Option.map _ (printLoop _ _ { fmt := byte 'a' :: [0], args := _, out := o }) at heq
  rw [printLoop_zero, printLoop_plain (by decide) (by decide) ho, printLoop_zero] at heq
  have hout : o = o ++ [byte 'a'] := congrArg Prod.fst (Option.some.inj heq)
  have hlength := congrArg List.length hout
  rw [List.length_append] at hlength
  exact absurd hlength (Nat.ne_of_lt (Nat.lt_succ_self _))

/-- Nothing behind the terminator of a format makes a difference exactly where the format
ends all of its directives. -/
theorem format_alike_iff (text : List Byte) (h : 0 ∉ text) : Alike text ↔ Ended text := by
  constructor
  · intro halike
    rcases ended_or_unended text with hended | hunended
    · exact hended
    · exact absurd halike (hunended.not_alike h)
  · exact Ended.alike

theorem format_alike_iff_unsigned : 0 ∉ ascii "%uL" ∧
    (Alike (ascii "%uL") ↔ Ended (ascii "%uL")) :=
  ⟨by decide, format_alike_iff _ (by decide)⟩

/-- A format that ends in a `%` prints its terminator, and the bytes behind it. -/
theorem terminator_printed :
    (stringXxvsnprintf (asMem []) 16 (ascii "%" ++ 0 :: [0]) []).map Print.result =
      some ([0], []) ∧
    (stringXxvsnprintf (asMem []) 16 (ascii "%" ++ 0 :: ascii "key\x00") []).map Print.result =
      some (0 :: ascii "key", []) ∧
    ¬ Alike (ascii "%") := by
  have hshort : (stringXxvsnprintf (asMem []) 16 (ascii "%" ++ 0 :: [0]) []).map Print.result =
      some ([0], []) := by
    decide +kernel
  have hlong : (stringXxvsnprintf (asMem []) 16 (ascii "%" ++ 0 :: ascii "key\x00") []).map
      Print.result = some (0 :: ascii "key", []) := by
    decide +kernel
  refine ⟨hshort, hlong, fun h => ?_⟩
  have heq := h (asMem []) 16 [] [0] (ascii "key\x00")
  rw [hshort, hlong] at heq
  exact absurd heq (by decide)

end Strings
end NgxEpoll
