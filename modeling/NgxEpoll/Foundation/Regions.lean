import Mathlib.Algebra.GroupWithZero.Nat
import Mathlib.Algebra.Order.BigOperators.Group.List
import Mathlib.Algebra.Order.Group.Nat
import Mathlib.Data.List.Perm.Subperm
import Mathlib.Order.Interval.Finset.Nat
import NgxEpoll.Foundation.Memory

/-!
# Disjoint regions

A region is an address with a length.  Regions that share no address and lie in an
interval are together no longer than it.
-/

namespace NgxEpoll
namespace Foundation

def RegionsApart (r s : Nat × Nat) : Prop :=
  Apart r.1 r.2 s.1 s.2

instance (r s : Nat × Nat) : Decidable (RegionsApart r s) :=
  inferInstanceAs (Decidable (Apart r.1 r.2 s.1 s.2))

theorem RegionsApart.symm {r s : Nat × Nat} (h : RegionsApart r s) :
    RegionsApart s r := by
  unfold RegionsApart Apart at *
  omega

theorem not_apart_of_start {a n k : Nat} (hn : 0 < n) (hk : 0 < k) :
    ¬ RegionsApart (a, n) (a, k) := by
  unfold RegionsApart Apart
  omega

theorem pairwise_apart_perm {l l' : List (Nat × Nat)} (hperm : l.Perm l') :
    l.Pairwise RegionsApart ↔ l'.Pairwise RegionsApart :=
  hperm.pairwise_iff RegionsApart.symm

theorem exists_addresses {l : List (Nat × Nat)} (h : l.Pairwise RegionsApart) :
    exists s : Finset Nat, s.card = (l.map Prod.snd).sum ∧
      forall x, x ∈ s ↔ exists r, r ∈ l ∧ r.1 ≤ x ∧ x < r.1 + r.2 := by
  induction l with
  | nil => exact ⟨∅, rfl, by simp⟩
  | cons r l ih =>
      obtain ⟨hr, hl⟩ := List.pairwise_cons.mp h
      obtain ⟨s, hcard, hmem⟩ := ih hl
      have hdisj : Disjoint (Finset.Ico r.1 (r.1 + r.2)) s := by
        rw [Finset.disjoint_left]
        intro x hx hxs
        obtain ⟨r', hr', hlo, hhi⟩ := (hmem x).mp hxs
        have happart := hr r' hr'
        rw [Finset.mem_Ico] at hx
        unfold RegionsApart Apart at happart
        omega
      refine ⟨Finset.Ico r.1 (r.1 + r.2) ∪ s, ?_, ?_⟩
      · rw [Finset.card_union_of_disjoint hdisj, Nat.card_Ico, hcard, List.map_cons,
          List.sum_cons, Nat.add_sub_cancel_left]
      · intro x
        simp only [Finset.mem_union, Finset.mem_Ico, hmem, List.mem_cons]
        constructor
        · rintro (hx | ⟨r', hr', hx⟩)
          · exact ⟨r, Or.inl rfl, hx⟩
          · exact ⟨r', Or.inr hr', hx⟩
        · rintro ⟨r', rfl | hr', hx⟩
          · exact Or.inl hx
          · exact Or.inr ⟨r', hr', hx⟩

theorem sum_length_le {l : List (Nat × Nat)} {lo hi : Nat}
    (h : l.Pairwise RegionsApart)
    (hin : forall r, r ∈ l -> lo ≤ r.1 ∧ r.1 + r.2 ≤ hi) :
    (l.map Prod.snd).sum ≤ hi - lo := by
  obtain ⟨s, hcard, hmem⟩ := exists_addresses h
  rw [← hcard, ← Nat.card_Ico]
  refine Finset.card_le_card fun x hx => ?_
  obtain ⟨r, hr, hlo, hhi⟩ := (hmem x).mp hx
  have := hin r hr
  rw [Finset.mem_Ico]
  omega

theorem sum_length_le_of_subset {l l' : List (Nat × Nat)} (hnodup : l.Nodup)
    (hsub : l ⊆ l') : (l.map Prod.snd).sum ≤ (l'.map Prod.snd).sum := by
  obtain ⟨l'', hperm, hsublist⟩ := hnodup.subperm hsub
  rw [← (hperm.map Prod.snd).sum_eq]
  exact (hsublist.map Prod.snd).sum_le_sum (by simp)

theorem eraseP_start {l : List (Nat × Nat)} {p n : Nat}
    (h : l.Pairwise fun r r' => r.1 ≠ r'.1) (hmem : (p, n) ∈ l) :
    l.eraseP (fun r => r.1 == p) = l.erase (p, n) := by
  induction l with
  | nil => cases hmem
  | cons r l ih =>
      obtain ⟨hr, hl⟩ := List.pairwise_cons.mp h
      by_cases heq : r = (p, n)
      · subst heq
        simp
      · have hin := (List.mem_cons.mp hmem).resolve_left fun h => heq h.symm
        have hne : r.1 ≠ p := hr (p, n) hin
        rw [List.eraseP_cons_of_neg (by simpa using hne), List.erase_cons_tail (by
          simpa using heq), ih hl hin]

end Foundation
end NgxEpoll
