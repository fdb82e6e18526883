import NgxEpoll.Core.Texts
import NgxEpoll.Foundation.Occurrences

/-!
# Searches for a string

`string_xxstrnstr`, `string_xxstrstrn`, `string_xxstrcasestrn`, `string_xxstrlcasestrn` and
`string_xxstrlstrn` of `dfs_string.cpp`.  They return where in the text they find the
string `s2`, of which `n` is the length minus one.

## The functions
-/

namespace NgxEpoll
namespace Strings

open Foundation
open NgxEpoll.Core

def compareBy (fold : Byte -> Byte) : List Byte -> List Byte -> Nat -> Int
  | _, _, 0 => 0
  | s1, s2, n + 1 =>
      let c1 := fold (s1.headD 0)
      let c2 := fold (s2.headD 0)
      if c1 = c2 then
        if c1 ≠ 0 then compareBy fold s1.tail s2.tail n else 0
      else (c1.toNat : Int) - c2.toNat

def strncmp (s1 s2 : List Byte) (n : Nat) : Int :=
  compareBy id s1 s2 n

/-- The two loops over the text.  At most `left` bytes are tried.  `null` and, where the
first byte is found, the opposite of `enough` return `NULL`, and `same` compares what lies
behind that byte. -/
def scan (null first : Byte -> Bool) (enough : Nat -> Bool) (same : List Byte -> Bool) :
    Nat -> List Byte -> Option Nat
  | 0, _ => none
  | _ + 1, [] => none
  | left + 1, c1 :: s1 =>
      if null c1 then none
      else if first c1 && !enough left then none
      else if first c1 && same s1 then some 0
      else (scan null first enough same left s1).map fun i => i + 1

def stringXxstrnstr (s1 s2 : List Byte) (len : Nat) : Option Nat :=
  let c2 := s2.headD 0
  let n := (cString s2.tail).length
  scan (fun c1 => c1 = 0) (fun c1 => c1 = c2) (fun len => n ≤ len)
    (fun s1 => strncmp s1 s2.tail n = 0) len s1

def stringXxstrstrn (s1 s2 : List Byte) (n : Nat) : Option Nat :=
  let c2 := s2.headD 0
  scan (fun c1 => c1 = 0) (fun c1 => c1 = c2) (fun _ => true)
    (fun s1 => strncmp s1 s2.tail n = 0) s1.length s1

def lower (c : Nat) : Nat :=
  if 0x41 ≤ c ∧ c ≤ 0x5a then c ||| 0x20 else c

def charToUint (c : Byte) : Nat :=
  (c.toInt % 2 ^ 32).toNat

def stringXxstrcasestrn (s1 s2 : List Byte) (n : Nat) : Option Nat :=
  let c2 := lower (charToUint (s2.headD 0))
  scan (fun c1 => c1 = 0) (fun c1 => lower c1.toNat = c2) (fun _ => true)
    (fun s1 => stringXxstrncasecmp s1 s2.tail (predSize n) = 0) s1.length s1

/-- `string_xxstrlcasestrn`, where `last` counts from `s1`. -/
def stringXxstrlcasestrn (s1 : List Byte) (last : Nat) (s2 : List Byte) (n : Nat) :
    Option Nat :=
  let c2 := lower (s2.headD 0).toNat
  let last := last - n
  scan (fun _ => false) (fun c1 => lower c1.toNat = c2) (fun _ => true)
    (fun s1 => stringXxstrncasecmp s1 s2.tail n = 0) last s1

/-- `string_xxstrlstrn`, where `last` counts from `s1`. -/
def stringXxstrlstrn (s1 : List Byte) (last : Nat) (s2 : List Byte) (n : Nat) :
    Option Nat :=
  let c2 := lower (s2.headD 0).toNat
  let last := last - n
  scan (fun _ => false) (fun c1 => lower c1.toNat = c2) (fun _ => true)
    (fun s1 => strncmp s1 s2.tail n = 0) last s1

/-!
## Comparisons
-/

variable {fold : Byte -> Byte} {s t : List Byte}

theorem stringXxstrncasecmp_eq (s t : List Byte) (n : Nat) :
    stringXxstrncasecmp s t n = compareBy stringXxctolower s t n := by
  induction n generalizing s t with
  | zero => rfl
  | succ n ih =>
      unfold stringXxstrncasecmp compareBy
      dsimp only
      rw [ih]

theorem compareBy_succ (s t : List Byte) (n : Nat) :
    compareBy fold s t (n + 1) = 0 ↔
      fold (s.headD 0) = fold (t.headD 0) ∧
        (fold (s.headD 0) ≠ 0 -> compareBy fold s.tail t.tail n = 0) := by
  dsimp only [compareBy]
  by_cases heq : fold (s.headD 0) = fold (t.headD 0)
  · rw [if_pos heq]
    by_cases hzero : fold (s.headD 0) ≠ 0
    · rw [if_pos hzero]
      exact ⟨fun h => ⟨heq, fun _ => h⟩, fun h => h.2 hzero⟩
    · rw [if_neg hzero]
      exact ⟨fun _ => ⟨heq, fun h => absurd h hzero⟩, fun _ => rfl⟩
  · rw [if_neg heq]
    constructor
    · intro h
      exact absurd (BitVec.eq_of_toNat_eq (by omega)) heq
    · intro h
      exact absurd h.1 heq

/-- A folding that makes a zero byte of no other one. -/
def KeepsNul (fold : Byte -> Byte) : Prop :=
  forall c, fold c = 0 ↔ c = 0

theorem keepsNul_id : KeepsNul id := fun _ => Iff.rfl

theorem keepsNul_lower : KeepsNul stringXxctolower := by
  unfold KeepsNul
  decide +kernel

/-- A comparison with bytes that are not zero finds whether they begin the text. -/
theorem compareBy_eq_zero (hfold : KeepsNul fold) (ht : 0 ∉ t) {n : Nat} (hn : n ≤ t.length) :
    compareBy fold s t n = 0 ↔ (t.take n).map fold <+: s.map fold := by
  induction n generalizing s t with
  | zero => exact iff_of_true rfl List.nil_prefix
  | succ n ih =>
      cases t with
      | nil => exact absurd hn (Nat.not_succ_le_zero n)
      | cons d t =>
          have hd : fold d ≠ 0 := by
            intro hzero
            exact ht ((hfold d).mp hzero ▸ List.mem_cons_self)
          have ht' : 0 ∉ t := fun hmem => ht (List.mem_cons_of_mem d hmem)
          rw [compareBy_succ, List.headD_cons, List.tail_cons, List.take_succ_cons, List.map_cons]
          cases s with
          | nil =>
              refine iff_of_false ?_ (fun h => by cases List.prefix_nil.mp h)
              intro h
              exact hd (h.1.symm.trans ((hfold 0).mpr rfl))
          | cons c s =>
              rw [List.headD_cons, List.map_cons, List.cons_prefix_cons, List.tail_cons,
                ih ht' (Nat.le_of_succ_le_succ hn), @eq_comm _ (fold c)]
              refine and_congr_right ?_
              intro heq
              exact ⟨fun h => h (heq ▸ hd), fun h _ => h⟩

theorem cString_cons (c : Byte) (s : List Byte) :
    cString (c :: s) = if c = 0 then [] else c :: cString s := by
  unfold cString
  rw [List.takeWhile_cons]
  by_cases hc : c = 0
  · have hstop : ¬ decide (c ≠ 0) = true := fun h => of_decide_eq_true h hc
    rw [if_pos hc, if_neg hstop]
  · rw [if_neg hc, if_pos (decide_eq_true hc)]

theorem prefix_cString (hfold : KeepsNul fold) (ht : 0 ∉ t) :
    t.map fold <+: (cString s).map fold ↔ t.map fold <+: s.map fold := by
  induction t generalizing s with
  | nil => exact iff_of_true List.nil_prefix List.nil_prefix
  | cons d t ih =>
      cases s with
      | nil => exact Iff.rfl
      | cons c s =>
          have ht' : 0 ∉ t := fun hmem => ht (List.mem_cons_of_mem d hmem)
          rw [cString_cons]
          split
          · next hc =>
            refine iff_of_false (fun h => by cases List.prefix_nil.mp h) ?_
            intro h
            have heq := (List.cons_prefix_cons.mp h).1
            rw [hc, (hfold 0).mpr rfl, hfold] at heq
            exact ht (heq ▸ List.mem_cons_self)
          · rw [List.map_cons, List.map_cons, List.map_cons, List.cons_prefix_cons,
              List.cons_prefix_cons, ih ht']

theorem prefix_take {n : Nat} (hn : t.length ≤ n) :
    t.map fold <+: (s.take n).map fold ↔ t.map fold <+: s.map fold := by
  rw [List.map_take, List.prefix_take_iff, List.length_map]
  exact and_iff_left hn

/-!
## Scans
-/

/-- A byte `first` in the text with a `rest` behind it. -/
def Hit (first : Byte -> Bool) (rest : List Byte -> Prop) (u : List Byte) (i : Nat) : Prop :=
  match u.drop i with
  | [] => False
  | c :: w => first c ∧ rest w

section Scan

variable {null first : Byte -> Bool} {enough : Nat -> Bool} {same : List Byte -> Bool}
  {rest : List Byte -> Prop}

theorem not_hit_nil (i : Nat) : ¬ Hit first rest [] i := by
  unfold Hit
  rw [List.drop_nil]
  exact id

theorem not_hit_of_length {u : List Byte} {n : Nat} (hrest : forall w, rest w -> n ≤ w.length)
    (hu : u.length ≤ n) (i : Nat) : ¬ Hit first rest u i := by
  unfold Hit
  cases hdrop : u.drop i with
  | nil => exact id
  | cons c w =>
      intro h
      have hle := hrest w h.2
      have hlength := congrArg List.length hdrop
      rw [List.length_drop, List.length_cons] at hlength
      omega

/-- What a scan needs to know of the text that `left` and `s1` stand for. -/
structure Scans (null first : Byte -> Bool) (enough : Nat -> Bool) (same : List Byte -> Bool)
    (rest : List Byte -> Prop) (Inv : Nat -> List Byte -> Prop)
    (text : Nat -> List Byte -> List Byte) : Prop where
  step : forall left c s, Inv (left + 1) (c :: s) -> Inv left s
  start : forall s i, Inv 0 s -> ¬ Hit first rest (text 0 s) i
  finish : forall left i, ¬ Hit first rest (text left []) i
  stop : forall left c s i, null c -> ¬ Hit first rest (text (left + 1) (c :: s)) i
  next : forall left c s, ¬ null c -> text (left + 1) (c :: s) = c :: text left s
  found : forall left s, Inv left s -> enough left -> (same s ↔ rest (text left s))
  short : forall left c s i, Inv left s -> ¬ enough left -> ¬ Hit first rest (c :: text left s) i

theorem Scans.finds {Inv : Nat -> List Byte -> Prop} {text : Nat -> List Byte -> List Byte}
    (h : Scans null first enough same rest Inv text) (left : Nat) (s : List Byte)
    (hinv : Inv left s) :
    First (Hit first rest (text left s)) (scan null first enough same left s) := by
  induction left generalizing s with
  | zero => exact fun i => h.start s i hinv
  | succ left ih =>
      cases s with
      | nil => exact h.finish (left + 1)
      | cons c s =>
          have hleft := h.step left c s hinv
          unfold scan
          split
          · next hnull => exact fun i => h.stop left c s i hnull
          · next hnull =>
            rw [h.next left c s hnull]
            split
            · next hshort =>
              intro i
              refine h.short left c s i hleft ?_
              intro henough
              rw [henough, Bool.not_true, Bool.and_false] at hshort
              cases hshort
            · next hshort =>
              have hplace : Hit first rest (c :: text left s) 0 ↔ (first c && same s) = true := by
                rw [Bool.and_eq_true]
                refine and_congr_right ?_
                intro hfirst
                refine (h.found left s hleft ?_).symm
                rw [hfirst, Bool.true_and, Bool.not_eq_true'] at hshort
                exact Bool.of_not_eq_false hshort
              split
              · next hfound => exact First.zero (hplace.mpr hfound)
              · next hfound =>
                exact First.succ (fun hhit => hfound (hplace.mp hhit)) (ih s hleft)

end Scan

/-!
## The places they find
-/

theorem occurs_iff_hit (fold : Byte -> Byte) (x : Byte) (t u : List Byte) (i : Nat) :
    Occurs fold (x :: t) u i ↔
      Hit (fun c => fold c = fold x) (fun w => t.map fold <+: w.map fold) u i := by
  unfold Occurs Hit
  cases u.drop i with
  | nil => exact iff_of_false (fun h => by cases List.prefix_nil.mp h) id
  | cons c w =>
      dsimp only
      rw [List.map_cons, List.map_cons, List.cons_prefix_cons, decide_eq_true_iff,
        @eq_comm _ (fold x)]

theorem prefix_length (w : List Byte) (h : t.map fold <+: w.map fold) :
    t.length ≤ w.length := by
  have hle := h.length_le
  rw [List.length_map, List.length_map] at hle
  exact hle

theorem scans_cString {first : Byte -> Bool} {same : List Byte -> Bool}
    {rest : List Byte -> Prop} (hsame : forall s, same s ↔ rest (cString s)) :
    Scans (fun c1 => c1 = 0) first (fun _ => true) same rest (fun left s => left = s.length)
      fun _ s => cString s := by
  constructor
  · intro left c s hinv
    exact Nat.succ.inj hinv
  · intro s i hinv
    rw [List.length_eq_zero_iff.mp hinv.symm]
    exact not_hit_nil i
  · intro left i
    exact not_hit_nil i
  · intro left c s i hnull
    rw [cString_cons, if_pos (of_decide_eq_true hnull)]
    exact not_hit_nil i
  · intro left c s hnull
    have hc : c ≠ 0 := fun hzero => hnull (decide_eq_true hzero)
    rw [cString_cons, if_neg hc]
  · intro left s hinv henough
    exact hsame s
  · intro left c s i hinv hshort
    exact absurd rfl hshort

theorem scans_last {first : Byte -> Bool} {same : List Byte -> Bool} {rest : List Byte -> Prop}
    {n : Nat} (hrest : forall w, rest w -> n ≤ w.length)
    (hsame : forall left s, same s ↔ rest (s.take (left + n))) :
    Scans (fun _ => false) first (fun _ => true) same rest (fun _ _ => True)
      fun left s => s.take (left + n) := by
  constructor
  · intro left c s hinv
    trivial
  · intro s i hinv
    apply not_hit_of_length hrest
    rw [List.length_take, Nat.zero_add]
    exact Nat.min_le_left n _
  · intro left i
    rw [List.take_nil]
    exact not_hit_nil i
  · intro left c s i hnull
    cases hnull
  · intro left c s hnull
    rw [Nat.succ_add, List.take_succ_cons]
  · intro left s hinv henough
    exact hsame left s
  · intro left c s i hinv hshort
    exact absurd rfl hshort

theorem cString_eq_self (ht : 0 ∉ t) : cString t = t := by
  induction t with
  | nil => rfl
  | cons d t ih =>
      have hd : d ≠ 0 := fun hzero => ht (hzero ▸ List.mem_cons_self)
      rw [cString_cons, if_neg hd, ih (fun hmem => ht (List.mem_cons_of_mem d hmem))]

theorem cString_length (s : List Byte) : (cString s).length ≤ s.length :=
  (List.takeWhile_prefix _).length_le

theorem scans_strnstr {first : Byte -> Bool} (ht : 0 ∉ t) :
    Scans (fun c1 => c1 = 0) first (fun len => t.length ≤ len)
      (fun s1 => strncmp s1 t t.length = 0) (fun w => t.map id <+: w.map id) (fun _ _ => True)
      fun left s => cString (s.take left) := by
  constructor
  · intro left c s hinv
    trivial
  · intro s i hinv
    exact not_hit_nil i
  · intro left i
    rw [List.take_nil]
    exact not_hit_nil i
  · intro left c s i hnull
    rw [List.take_succ_cons, cString_cons, if_pos (of_decide_eq_true hnull)]
    exact not_hit_nil i
  · intro left c s hnull
    have hc : c ≠ 0 := fun hzero => hnull (decide_eq_true hzero)
    rw [List.take_succ_cons, cString_cons, if_neg hc]
  · intro left s hinv henough
    rw [prefix_cString keepsNul_id ht, prefix_take (of_decide_eq_true henough),
      decide_eq_true_iff]
    unfold strncmp
    rw [compareBy_eq_zero keepsNul_id ht (Nat.le_refl _), List.take_length]
  · intro left c s i hinv hshort
    refine not_hit_of_length prefix_length ?_ i
    have hlt : ¬ t.length ≤ left := fun hle => hshort (decide_eq_true hle)
    have hle := cString_length (s.take left)
    rw [List.length_take] at hle
    rw [List.length_cons]
    omega

theorem lower_toNat : forall c : Byte, lower c.toNat = (stringXxctolower c).toNat := by
  decide +kernel

theorem lower_eq_iff (c x : Byte) :
    lower c.toNat = lower x.toNat ↔ stringXxctolower c = stringXxctolower x := by
  rw [lower_toNat, lower_toNat]
  exact BitVec.toNat_inj

variable {x : Byte}

theorem stringXxstrnstr_first (s : List Byte) (ht : 0 ∉ t) (len : Nat) :
    First (Occurs id (x :: t) (cString (s.take len))) (stringXxstrnstr s (x :: t) len) := by
  unfold stringXxstrnstr
  dsimp only [List.headD_cons, List.tail_cons]
  rw [cString_eq_self ht]
  have h := (@scans_strnstr t (fun c1 => c1 = x) ht).finds len s trivial
  exact h.congr fun i => (occurs_iff_hit id x t _ i).symm

theorem strncmp_cString (ht : 0 ∉ t) (s : List Byte) :
    decide (strncmp s t t.length = 0) = true ↔ t.map id <+: (cString s).map id := by
  unfold strncmp
  rw [prefix_cString keepsNul_id ht, decide_eq_true_iff,
    compareBy_eq_zero keepsNul_id ht (Nat.le_refl _), List.take_length]

theorem stringXxstrstrn_first (s : List Byte) (ht : 0 ∉ t) :
    First (Occurs id (x :: t) (cString s)) (stringXxstrstrn s (x :: t) t.length) := by
  unfold stringXxstrstrn
  dsimp only [List.headD_cons, List.tail_cons]
  have h := (@scans_cString (fun c1 => c1 = x) (fun s1 => strncmp s1 t t.length = 0)
    (fun w => t.map id <+: w.map id) (strncmp_cString ht)).finds s.length s rfl
  exact h.congr fun i => (occurs_iff_hit id x t _ i).symm

theorem scan_last (hfold : KeepsNul fold) (ht : 0 ∉ t) (first : Byte -> Bool) (s : List Byte)
    (last : Nat) :
    First (Hit first (fun w => t.map fold <+: w.map fold) (s.take last))
      (scan (fun _ => false) first (fun _ => true)
        (fun s1 => compareBy fold s1 t t.length = 0) (last - t.length) s) := by
  have hsame : forall left s, decide (compareBy fold s t t.length = 0) = true ↔
      t.map fold <+: (s.take (left + t.length)).map fold := by
    intro left s
    rw [prefix_take (Nat.le_add_left _ _), decide_eq_true_iff,
      compareBy_eq_zero hfold ht (Nat.le_refl _), List.take_length]
  have h := (@scans_last first (fun s1 => compareBy fold s1 t t.length = 0)
    (fun w => t.map fold <+: w.map fold) t.length prefix_length hsame).finds
    (last - t.length) s trivial
  rcases Nat.le_total t.length last with hle | hle
  · rw [Nat.sub_add_cancel hle] at h
    exact h
  · -- then neither text has room for the string
    rw [Nat.sub_eq_zero_of_le hle] at h ⊢
    refine h.congr fun i => iff_of_false ?_ ?_
    · rw [Nat.zero_add]
      exact not_hit_of_length prefix_length (List.length_take_le _ _) i
    · exact not_hit_of_length prefix_length ((List.length_take_le _ _).trans hle) i

theorem stringXxstrlcasestrn_first (s : List Byte) (ht : 0 ∉ t) (last : Nat) :
    First (Occurs stringXxctolower (x :: t) (s.take last))
      (stringXxstrlcasestrn s last (x :: t) t.length) := by
  have hfirst : (fun c1 : Byte => decide (lower c1.toNat = lower x.toNat)) =
      fun c1 => decide (stringXxctolower c1 = stringXxctolower x) :=
    funext fun c1 => decide_eq_decide.mpr (lower_eq_iff c1 x)
  have hsame : (fun s1 => decide (stringXxstrncasecmp s1 t t.length = 0)) =
      fun s1 => decide (compareBy stringXxctolower s1 t t.length = 0) :=
    funext fun s1 => decide_eq_decide.mpr (by rw [stringXxstrncasecmp_eq])
  have h := scan_last keepsNul_lower ht
    (fun c1 => stringXxctolower c1 = stringXxctolower x) s last
  rw [← hfirst, ← hsame] at h
  refine h.congr fun i => ?_
  rw [hfirst]
  exact (occurs_iff_hit stringXxctolower x t _ i).symm

/-!
## A first letter in the wrong case
-/

def otherCase (c : Byte) : Byte :=
  c ^^^ 0x20

/-- Where the string stands with its first letter in the other case, it stands before. -/
def FirstLetterFirst (t u : List Byte) : Prop :=
  isUpper (t.headD 0) || isLower (t.headD 0) ->
    forall i, Occurs id (otherCase (t.headD 0) :: t.tail) u i ->
      exists j, j < i ∧ Occurs id t u j

theorem lower_cases : forall c : Byte,
    lower c.toNat = (if isUpper c then c.toNat + 32 else c.toNat) ∧
      (otherCase c).toNat =
        if isUpper c then c.toNat + 32
        else if isLower c then c.toNat - 32
        else (otherCase c).toNat := by
  decide +kernel

/-- A byte without regard to case: this byte, or this letter in the other case. -/
theorem lower_eq_iff_or (c x : Byte) :
    lower c.toNat = lower x.toNat ↔ c = x ∨ (isUpper x || isLower x) = true ∧ c = otherCase x := by
  rw [(lower_cases c).1, (lower_cases x).1, ← BitVec.toNat_inj,
    ← @BitVec.toNat_inj 8 c (otherCase x)]
  have hother := (lower_cases x).2
  unfold isUpper isLower at *
  simp only [Bool.and_eq_true, Bool.or_eq_true, decide_eq_true_eq] at *
  split_ifs at * with hc hx hx hx hl
  · omega
  · omega
  · omega
  · omega
  · omega
  · omega

theorem stringXxstrlstrn_hit (s : List Byte) (ht : 0 ∉ t) (last : Nat) :
    First (fun i => Occurs id (x :: t) (s.take last) i ∨
        (isUpper x || isLower x) = true ∧ Occurs id (otherCase x :: t) (s.take last) i)
      (stringXxstrlstrn s last (x :: t) t.length) := by
  have h := scan_last keepsNul_id ht (fun c1 => lower c1.toNat = lower x.toNat) s last
  refine First.congr h ?_
  intro i
  rw [occurs_iff_hit, occurs_iff_hit]
  unfold Hit
  cases (s.take last).drop i with
  | nil => exact iff_of_false id (fun h => h.elim id And.right)
  | cons c w =>
      simp only [decide_eq_true_eq, id_eq, lower_eq_iff_or]
      rw [or_and_right, and_assoc]

theorem otherCase_ne : forall c : Byte, otherCase c ≠ c := by
  decide +kernel

theorem not_occurs_both {y : Byte} {u : List Byte} {i : Nat} (hne : y ≠ x)
    (h : Occurs id (x :: t) u i) : ¬ Occurs id (y :: t) u i := by
  rw [occurs_iff_hit] at h ⊢
  unfold Hit at *
  cases hdrop : u.drop i with
  | nil => exact id
  | cons c w =>
      rw [hdrop] at h
      intro h'
      exact hne ((of_decide_eq_true h'.1).symm.trans (of_decide_eq_true h.1))

theorem stringXxstrlstrn_first_iff (s : List Byte) (ht : 0 ∉ t) (last : Nat) :
    First (Occurs id (x :: t) (s.take last)) (stringXxstrlstrn s last (x :: t) t.length) ↔
      FirstLetterFirst (x :: t) (s.take last) := by
  rw [(stringXxstrlstrn_hit s ht last).first_iff]
  unfold FirstLetterFirst
  dsimp only [List.headD_cons, List.tail_cons]
  constructor
  · intro h hletter i hother
    rcases h.1 i (Or.inr ⟨hletter, hother⟩) with ⟨j, hle, hj⟩
    refine ⟨j, ?_, hj⟩
    rcases Nat.lt_or_eq_of_le hle with hlt | heq
    · exact hlt
    · subst heq
      exact absurd hother (not_occurs_both (otherCase_ne x) hj)
  · intro h
    constructor
    · intro i hi
      rcases hi with hocc | hother
      · exact ⟨i, Nat.le_refl i, hocc⟩
      · rcases h hother.1 i hother.2 with ⟨j, hlt, hj⟩
        exact ⟨j, Nat.le_of_lt hlt, hj⟩
    · intro i hi
      exact ⟨i, Nat.le_refl i, Or.inl hi⟩

/-!
## A last byte that is not compared
-/

/-- What `string_xxstrcasestrn` can find in a text: with a first byte from 0x80 on, what is
not there; of one byte, what is there as the last byte at most; else, what does not have all
its bytes but the last one in the text before it. -/
def CaseFindable (t u : List Byte) : Prop :=
  if 0x80 ≤ t.headD 0 then forall i, ¬ Occurs stringXxctolower t u i
  else if t.tail = [] then forall i, Occurs stringXxctolower t u i -> i + 1 = u.length
  else forall i, Occurs stringXxctolower t.dropLast u i ->
    exists j, j ≤ i ∧ Occurs stringXxctolower t u j

theorem caseFindable_cons (x : Byte) (t u : List Byte) :
    CaseFindable (x :: t) u ↔
      if 0x80 ≤ x then forall i, ¬ Occurs stringXxctolower (x :: t) u i
      else if t = [] then forall i, Occurs stringXxctolower (x :: t) u i -> i + 1 = u.length
      else forall i, Occurs stringXxctolower (x :: t).dropLast u i ->
        exists j, j ≤ i ∧ Occurs stringXxctolower (x :: t) u j :=
  Iff.rfl

theorem lower_charToUint : forall c : Byte,
    if 0x80 ≤ c then 256 ≤ lower (charToUint c) else charToUint c = c.toNat := by
  decide +kernel

theorem lower_lt (c : Byte) : lower c.toNat < 256 := by
  rw [lower_toNat]
  exact (stringXxctolower c).isLt

theorem compareBy_nil (hfold : KeepsNul fold) (s : List Byte) {n : Nat} (hn : n ≠ 0) :
    compareBy fold s [] n = 0 ↔ cString s = [] := by
  rcases Nat.exists_eq_succ_of_ne_zero hn with ⟨k, rfl⟩
  rw [compareBy_succ, List.headD_nil, (hfold 0).mpr rfl]
  cases s with
  | nil => exact iff_of_true ⟨(hfold 0).mpr rfl, fun h => absurd ((hfold 0).mpr rfl) h⟩ rfl
  | cons c s =>
      rw [List.headD_cons, cString_cons]
      by_cases hc : c = 0
      · rw [if_pos hc]
        have hzero := (hfold c).mpr hc
        exact iff_of_true ⟨hzero, fun h => absurd hzero h⟩ rfl
      · rw [if_neg hc]
        exact iff_of_false (fun h => hc ((hfold c).mp h.1)) (List.cons_ne_nil _ _)

/-- What `string_xxstrcasestrn` compares of the rest of the string. -/
def caseRest (t w : List Byte) : Prop :=
  if t = [] then w = [] else t.dropLast.map stringXxctolower <+: w.map stringXxctolower

theorem caseRest_iff (ht : 0 ∉ t) (s : List Byte) :
    decide (stringXxstrncasecmp s t (predSize t.length) = 0) = true ↔ caseRest t (cString s) := by
  rw [decide_eq_true_iff, stringXxstrncasecmp_eq]
  unfold caseRest predSize
  by_cases hnil : t = []
  · subst hnil
    rw [if_pos rfl, if_pos List.length_nil]
    exact compareBy_nil keepsNul_lower s (by decide)
  · have hne : t.length ≠ 0 := fun hzero => hnil (List.length_eq_zero_iff.mp hzero)
    have hlast : 0 ∉ t.dropLast := fun hmem => ht (List.mem_of_mem_dropLast hmem)
    rw [if_neg hnil, if_neg hne, prefix_cString keepsNul_lower hlast, List.dropLast_eq_take]
    exact compareBy_eq_zero keepsNul_lower ht (Nat.sub_le _ _)

theorem stringXxstrcasestrn_hit (s : List Byte) (ht : 0 ∉ t) :
    First (Hit (fun c1 => lower c1.toNat = lower (charToUint x)) (caseRest t) (cString s))
      (stringXxstrcasestrn s (x :: t) t.length) :=
  (@scans_cString (fun c1 => lower c1.toNat = lower (charToUint x))
    (fun s1 => stringXxstrncasecmp s1 t (predSize t.length) = 0)
    (caseRest t) (caseRest_iff ht)).finds s.length s rfl

theorem hit_single (x : Byte) (u : List Byte) (i : Nat) :
    Hit (fun c1 => lower c1.toNat = lower x.toNat) (caseRest []) u i ↔
      Occurs stringXxctolower [x] u i ∧ i + 1 = u.length := by
  rw [occurs_iff_hit]
  unfold Hit caseRest
  cases hdrop : u.drop i with
  | nil => exact iff_of_false id And.left
  | cons c w =>
      have hlength := congrArg List.length hdrop
      rw [List.length_drop, List.length_cons] at hlength
      have hend : w = [] ↔ i + 1 = u.length := by
        rw [← List.length_eq_zero_iff]
        omega
      simp only [decide_eq_true_eq, lower_eq_iff, if_true, hend, List.map_nil, List.nil_prefix,
        and_true]

theorem hit_dropLast (hne : t ≠ []) (x : Byte) (u : List Byte) (i : Nat) :
    Hit (fun c1 => lower c1.toNat = lower x.toNat) (caseRest t) u i ↔
      Occurs stringXxctolower (x :: t).dropLast u i := by
  rw [List.dropLast_cons_of_ne_nil hne, occurs_iff_hit]
  unfold Hit caseRest
  cases u.drop i with
  | nil => exact Iff.rfl
  | cons c w => simp only [decide_eq_true_eq, lower_eq_iff, if_neg hne]

theorem not_hit_high (hhigh : 0x80 ≤ x) (rest : List Byte -> Prop) (u : List Byte) (i : Nat) :
    ¬ Hit (fun c1 => lower c1.toNat = lower (charToUint x)) rest u i := by
  have hchar := lower_charToUint x
  rw [if_pos hhigh] at hchar
  unfold Hit
  cases u.drop i with
  | nil => exact id
  | cons c w =>
      intro hhit
      have heq : lower c.toNat = lower (charToUint x) := of_decide_eq_true hhit.1
      have hlt := lower_lt c
      omega

theorem stringXxstrcasestrn_first_iff (s : List Byte) (ht : 0 ∉ t) :
    First (Occurs stringXxctolower (x :: t) (cString s))
        (stringXxstrcasestrn s (x :: t) t.length) ↔
      CaseFindable (x :: t) (cString s) := by
  have hfind := @stringXxstrcasestrn_hit t x s ht
  have hchar := lower_charToUint x
  rw [hfind.first_iff, caseFindable_cons]
  by_cases hhigh : 0x80 ≤ x
  · rw [if_pos hhigh] at hchar ⊢
    have hnone := not_hit_high hhigh (caseRest t) (cString s)
    constructor
    · intro h i hi
      rcases h.2 i hi with ⟨j, -, hj⟩
      exact hnone j hj
    · intro h
      exact ⟨fun i hi => absurd hi (hnone i), fun i hi => absurd hi (h i)⟩
  · rw [if_neg hhigh] at hchar ⊢
    rw [hchar]
    by_cases hnil : t = []
    · subst hnil
      rw [if_pos rfl]
      constructor
      · intro h i hi
        rcases h.2 i hi with ⟨j, hle, hj⟩
        have hend := ((hit_single x _ j).mp hj).2
        have hlength : i < (cString s).length := by
          by_contra hge
          exact not_occurs_of_length (by simp; omega) (List.cons_ne_nil x []) hi
        omega
      · intro h
        constructor
        · intro i hi
          exact ⟨i, Nat.le_refl i, ((hit_single x _ i).mp hi).1⟩
        · intro i hi
          exact ⟨i, Nat.le_refl i, (hit_single x _ i).mpr ⟨hi, h i hi⟩⟩
    · rw [if_neg hnil]
      constructor
      · intro h i hi
        exact h.1 i ((hit_dropLast hnil x _ i).mpr hi)
      · intro h
        constructor
        · intro i hi
          exact h i ((hit_dropLast hnil x _ i).mp hi)
        · intro i hi
          refine ⟨i, Nat.le_refl i, (hit_dropLast hnil x _ i).mpr ?_⟩
          exact ((List.dropLast_prefix _).map _).trans hi

/-!
## The five searches
-/

/-- Three of the searches return the first occurrence of every string.  The other two do
so if and only if the string can be found in this text. -/
theorem searches_first {t : List Byte} (hne : t ≠ []) (ht : 0 ∉ t) (s : List Byte)
    (len last : Nat) :
    First (Occurs id t (cString (s.take len))) (stringXxstrnstr s t len) ∧
      First (Occurs id t (cString s)) (stringXxstrstrn s t (t.length - 1)) ∧
      First (Occurs stringXxctolower t (s.take last))
        (stringXxstrlcasestrn s last t (t.length - 1)) ∧
      (First (Occurs stringXxctolower t (cString s)) (stringXxstrcasestrn s t (t.length - 1)) ↔
        CaseFindable t (cString s)) ∧
      (First (Occurs id t (s.take last)) (stringXxstrlstrn s last t (t.length - 1)) ↔
        FirstLetterFirst t (s.take last)) := by
  cases t with
  | nil => exact absurd rfl hne
  | cons x t =>
      have ht' : 0 ∉ t := fun hmem => ht (List.mem_cons_of_mem x hmem)
      rw [List.length_cons, Nat.add_sub_cancel]
      exact ⟨stringXxstrnstr_first s ht' len, stringXxstrstrn_first s ht',
        stringXxstrlcasestrn_first s ht' last, stringXxstrcasestrn_first_iff s ht',
        stringXxstrlstrn_first_iff s ht' last⟩

theorem searches_first_keep :
    ascii "keep" ≠ [] ∧ 0 ∉ ascii "keep" ∧
      stringXxstrnstr (ascii "Keen to keep") (ascii "keep") 12 = some 8 ∧
      First (Occurs id (ascii "keep") (cString ((ascii "Keen to keep").take 12)))
        (stringXxstrnstr (ascii "Keen to keep") (ascii "keep") 12) := by
  have h := @searches_first (ascii "keep") (by decide) (by decide) (ascii "Keen to keep") 12 12
  exact ⟨by decide, by decide, by decide, h.1⟩

/-- `string_xxstrcasestrn` takes `keen` for `keep`, and misses a single letter that is not
the last one and an `é` in UTF-8.  `string_xxstrlstrn` takes `Keep` for `keep`. -/
theorem searches_miss :
    stringXxstrcasestrn (ascii "keen") (ascii "keep") 3 = some 0 ∧
      ¬ Occurs stringXxctolower (ascii "keep") (ascii "keen") 0 ∧
      stringXxstrcasestrn (ascii "ab") (ascii "A") 0 = none ∧
      Occurs stringXxctolower (ascii "A") (ascii "ab") 0 ∧
      stringXxstrcasestrn [0xc3, 0xa9] [0xc3, 0xa9] 1 = none ∧
      Occurs stringXxctolower [0xc3, 0xa9] [0xc3, 0xa9] 0 ∧
      stringXxstrlstrn (ascii "Keep") 4 (ascii "keep") 3 = some 0 ∧
      ¬ Occurs id (ascii "keep") (ascii "Keep") 0 := by
  decide +kernel

end Strings
end NgxEpoll
