import NgxEpoll.Core.Strings
import NgxEpoll.Foundation.Separators

/-!
# Searches and comparisons

What the functions for byte strings find in a text without a zero byte, and what a
comparison without regard to case tells of a word of capitals.
-/

namespace NgxEpoll
namespace Core

open Foundation

section

variable {s : List Byte} (h : 0 ∉ s)
include h

theorem cString_eq : cString s = s := by
  unfold cString
  rw [List.takeWhile_eq_self_iff]
  intro c hc
  exact decide_eq_true fun heq => h (heq ▸ hc)

theorem strchr_eq_none (c : Byte) : strchr s c = none ↔ c ∉ s := by
  unfold strchr
  rw [cString_eq h, List.findIdx?_eq_none_iff]
  constructor
  · intro hnone hc
    exact absurd (hnone c hc) (by simp)
  · intro hc x hx
    exact decide_eq_false fun heq => hc (heq ▸ hx)

theorem strchr_eq_some {c : Byte} (hc : c ∈ s) : strchr s c = some (beforeSep c s).length := by
  unfold strchr
  rw [cString_eq h]
  have hnone : (beforeSep c s).findIdx? (fun x => x = c) = none := by
    rw [List.findIdx?_eq_none_iff]
    intro x hx
    exact decide_eq_false fun heq => notMem_beforeSep c s (heq ▸ hx)
  conv_lhs => rw [← split_eq hc]
  rw [List.findIdx?_append, hnone, List.findIdx?_cons]
  simp

theorem strstr_iff (t : List Byte) : strstr s t ↔ t <:+: s := by
  rw [strstr, cString_eq h]

end

/-!
## Comparisons without regard to case
-/

theorem toupper_not_lower : forall c : Byte, isLower (toupper c) = false := by
  decide +kernel

theorem toupper_digit : forall c : Byte, isDigit (toupper c) = isDigit c := by
  decide +kernel

theorem stringXxctolower_upper : forall d : Byte, isUpper d = true ->
    isLower (stringXxctolower d) = true ∧ stringXxctolower d - 0x20 = d := by
  decide +kernel

/-- A comparison without regard to case of a capital and a letter that is none of the
small ones. -/
theorem stringXxctolower_eq_iff {c d : Byte} (hc : isLower c = false) (hd : isUpper d = true) :
    stringXxctolower c = stringXxctolower d ↔ c = d := by
  have hlower := stringXxctolower_upper d hd
  constructor
  · intro h
    cases hup : isUpper c with
    | true => rw [← (stringXxctolower_upper c hup).2, h, hlower.2]
    | false =>
        have hself : stringXxctolower c = c := by rw [stringXxctolower, hup]; rfl
        rw [hself] at h
        rw [h, hlower.1] at hc
        cases hc
  · intro h
    rw [h]

theorem stringXxstrncasecmp_succ (s t : List Byte) (n : Nat) :
    stringXxstrncasecmp s t (n + 1) = 0 ↔
      stringXxctolower (s.headD 0) = stringXxctolower (t.headD 0) ∧
        (stringXxctolower (s.headD 0) ≠ 0 -> stringXxstrncasecmp s.tail t.tail n = 0) := by
  dsimp only [stringXxstrncasecmp]
  by_cases heq : stringXxctolower (s.headD 0) = stringXxctolower (t.headD 0)
  · rw [if_pos heq]
    by_cases hzero : stringXxctolower (s.headD 0) ≠ 0
    · rw [if_pos hzero]
      exact ⟨fun h => ⟨heq, fun _ => h⟩, fun h => h.2 hzero⟩
    · rw [if_neg hzero]
      exact ⟨fun _ => ⟨heq, fun h => absurd h hzero⟩, fun _ => rfl⟩
  · rw [if_neg heq]
    constructor
    · intro h
      exact absurd (BitVec.eq_of_toNat_eq (by omega)) heq
    · intro h
      exact absurd h.1 heq

theorem stringXxstrncasecmp_eq_zero {t : List Byte}
    (ht : forall d, d ∈ t -> isUpper d = true) :
    forall {s : List Byte}, (forall c, c ∈ s -> isLower c = false) ->
      (stringXxstrncasecmp s t t.length = 0 ↔ t <+: s) := by
  induction t with
  | nil =>
      intro s _
      exact iff_of_true rfl List.nil_prefix
  | cons d t ih =>
      intro s hs
      rw [List.forall_mem_cons] at ht
      have hlower := (stringXxctolower_upper d ht.1).1
      rw [List.length_cons, stringXxstrncasecmp_succ]
      cases s with
      | nil =>
          refine iff_of_false (fun h => ?_) (fun h => by cases List.prefix_nil.mp h)
          rw [List.headD_cons] at h
          rw [← h.1] at hlower
          cases hlower
      | cons c s =>
          rw [List.forall_mem_cons] at hs
          rw [List.headD_cons, List.headD_cons, stringXxctolower_eq_iff hs.1 ht.1,
            List.cons_prefix_cons, List.tail_cons, List.tail_cons, ih ht.2 hs.2, eq_comm]
          refine and_congr_right fun heq => ?_
          have hpos : stringXxctolower c ≠ 0 := by
            intro hzero
            rw [heq, hzero] at hlower
            cases hlower
          exact ⟨fun h => h hpos, fun h _ => h⟩

end Core
end NgxEpoll
