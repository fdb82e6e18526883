import Mathlib.Data.List.Infix
import Mathlib.Data.List.TakeWhile

/-!
# Texts with a separator

A text is split at the first separator.  Words without the separator lie on one side of
it.
-/

namespace NgxEpoll
namespace Foundation

variable {α : Type _}

section Words

variable {sep : α} {a p t : List α}

theorem prefix_append_cons : forall {a p : List α}, sep ∉ p ->
    (p <+: a ++ sep :: t ↔ p <+: a)
  | _, [], _ => iff_of_true List.nil_prefix List.nil_prefix
  | [], d :: p, h => by
      rw [List.mem_cons, not_or] at h
      rw [List.nil_append, List.cons_prefix_cons, List.prefix_nil]
      exact iff_of_false (fun hp => h.1 hp.1.symm) nofun
  | c :: a, d :: p, h => by
      rw [List.mem_cons, not_or] at h
      rw [List.cons_append, List.cons_prefix_cons, List.cons_prefix_cons,
        prefix_append_cons h.2]

theorem infix_append_cons (h : sep ∉ p) :
    p <:+: a ++ sep :: t ↔ p <:+: a ∨ p <:+: t := by
  induction a with
  | nil =>
      rw [List.nil_append, List.infix_cons_iff, List.infix_nil]
      refine or_congr_left ?_
      rw [← List.nil_append (sep :: t), prefix_append_cons h, List.prefix_nil]
  | cons c a ih =>
      rw [List.cons_append, List.infix_cons_iff, ih, List.infix_cons_iff, or_assoc,
        ← List.cons_append, prefix_append_cons h]

end Words

variable [DecidableEq α]

def beforeSep (sep : α) (s : List α) : List α :=
  s.takeWhile fun c => c ≠ sep

def afterSep (sep : α) (s : List α) : List α :=
  (s.dropWhile fun c => c ≠ sep).tail

section

variable {sep : α} {a s t : List α}

theorem notMem_beforeSep (sep : α) (s : List α) : sep ∉ beforeSep sep s := by
  intro h
  have hne := List.mem_takeWhile_imp h
  simp at hne

theorem beforeSep_eq_self (h : sep ∉ s) : beforeSep sep s = s := by
  unfold beforeSep
  rw [List.takeWhile_eq_self_iff]
  intro c hc
  simp only [ne_eq, decide_not, Bool.not_eq_eq_eq_not, Bool.not_true, decide_eq_false_iff_not]
  exact fun heq => h (heq ▸ hc)

theorem beforeSep_append (h : sep ∉ a) : beforeSep sep (a ++ sep :: t) = a := by
  induction a with
  | nil => simp [beforeSep]
  | cons c a ih =>
      rw [List.mem_cons, not_or] at h
      have hc : c ≠ sep := fun heq => h.1 heq.symm
      simpa [beforeSep, hc] using ih h.2

theorem afterSep_append (h : sep ∉ a) : afterSep sep (a ++ sep :: t) = t := by
  induction a with
  | nil => simp [afterSep]
  | cons c a ih =>
      rw [List.mem_cons, not_or] at h
      have hc : c ≠ sep := fun heq => h.1 heq.symm
      simpa [afterSep, hc] using ih h.2

theorem split_eq (h : sep ∈ s) : beforeSep sep s ++ sep :: afterSep sep s = s := by
  obtain ⟨a, t, rfl, ha⟩ := List.eq_append_cons_of_mem h
  rw [beforeSep_append ha, afterSep_append ha]

theorem take_beforeSep (h : sep ∈ s) : s.take (beforeSep sep s).length = beforeSep sep s := by
  obtain ⟨a, t, rfl, ha⟩ := List.eq_append_cons_of_mem h
  rw [beforeSep_append ha, List.take_left]

theorem drop_beforeSep (h : sep ∈ s) : s.drop ((beforeSep sep s).length + 1) = afterSep sep s := by
  obtain ⟨a, t, rfl, ha⟩ := List.eq_append_cons_of_mem h
  rw [beforeSep_append ha, afterSep_append ha, ← List.drop_drop, List.drop_left, List.drop_one,
    List.tail_cons]

theorem mem_of_mem_beforeSep {c : α} (h : c ∈ beforeSep sep s) : c ∈ s :=
  (List.takeWhile_sublist _).subset h

theorem mem_of_mem_afterSep {c : α} (h : c ∈ afterSep sep s) : c ∈ s :=
  (List.dropWhile_sublist _).subset (List.mem_of_mem_tail h)

variable {p : List α}

theorem prefix_iff_beforeSep (h : sep ∉ p) : p <+: s ↔ p <+: beforeSep sep s := by
  by_cases hs : sep ∈ s
  · conv_lhs => rw [← split_eq hs]
    exact prefix_append_cons h
  · rw [beforeSep_eq_self hs]

theorem infix_iff_beforeSep (h : sep ∉ p) (hafter : sep ∈ s -> ¬ p <:+: afterSep sep s) :
    p <:+: s ↔ p <:+: beforeSep sep s := by
  by_cases hs : sep ∈ s
  · conv_lhs => rw [← split_eq hs]
    rw [infix_append_cons h, or_iff_left (hafter hs)]
  · rw [beforeSep_eq_self hs]

end

end Foundation
end NgxEpoll
