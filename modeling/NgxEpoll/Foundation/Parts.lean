import Mathlib.Data.List.Basic

/-!
# Independent parts of a state

A run performs actions on a state, and every action may be refused.  Where each
action reads and changes the part of the state that its key names, the runs of the
parts decide the run of the state: actions of different keys may change places.
-/

namespace NgxEpoll
namespace Foundation

variable {state action key : Type} [DecidableEq key]

def ofKey (keyOf : action -> key) (k : key) (acts : List action) : List action :=
  acts.filter fun a => keyOf a = k

def Reordered (keyOf : action -> key) (acts acts' : List action) : Prop :=
  forall k, ofKey keyOf k acts = ofKey keyOf k acts'

section Reordering

variable {keyOf : action -> key} {acts acts' : List action}

theorem ofKey_cons_same {k : key} {a : action} (h : keyOf a = k) :
    ofKey keyOf k (a :: acts) = a :: ofKey keyOf k acts := by
  unfold ofKey
  exact List.filter_cons_of_pos (by simpa using h)

theorem ofKey_cons_other {k : key} {a : action} (h : keyOf a ≠ k) :
    ofKey keyOf k (a :: acts) = ofKey keyOf k acts := by
  unfold ofKey
  exact List.filter_cons_of_neg (by simpa using h)

theorem Reordered.symm (h : Reordered keyOf acts acts') : Reordered keyOf acts' acts :=
  fun k => (h k).symm

theorem Reordered.mem (h : Reordered keyOf acts acts') {a : action} (ha : a ∈ acts) :
    a ∈ acts' := by
  have hkey : a ∈ ofKey keyOf (keyOf a) acts :=
    List.mem_filter.mpr ⟨ha, decide_eq_true rfl⟩
  rw [h] at hkey
  exact (List.mem_filter.mp hkey).1

theorem reordered_swap {a b : action} (pre mid post : List action) (hab : keyOf a ≠ keyOf b)
    (hmid : forall c, c ∈ mid -> keyOf c ≠ keyOf a ∧ keyOf c ≠ keyOf b) :
    Reordered keyOf (pre ++ a :: mid ++ b :: post) (pre ++ b :: mid ++ a :: post) := by
  intro k
  have hnone : keyOf a = k ∨ keyOf b = k -> ofKey keyOf k mid = [] := by
    intro hk
    refine List.filter_eq_nil_iff.mpr fun c hc h => ?_
    have hck := of_decide_eq_true h
    cases hk with
    | inl ha => exact (hmid c hc).1 (hck.trans ha.symm)
    | inr hb => exact (hmid c hc).2 (hck.trans hb.symm)
  have happend : forall x y : action,
      ofKey keyOf k (pre ++ x :: mid ++ y :: post) =
        ofKey keyOf k pre ++ (ofKey keyOf k (x :: mid) ++ ofKey keyOf k (y :: post)) := by
    intro x y
    simp only [ofKey, List.filter_append, List.append_assoc]
  rw [happend, happend]
  congr 1
  by_cases ha : keyOf a = k
  · have hb : keyOf b ≠ k := fun hb => hab (ha.trans hb.symm)
    rw [ofKey_cons_same ha, ofKey_cons_same ha, ofKey_cons_other hb, ofKey_cons_other hb,
      hnone (Or.inl ha)]
    rfl
  · by_cases hb : keyOf b = k
    · rw [ofKey_cons_same hb, ofKey_cons_same hb, ofKey_cons_other ha, ofKey_cons_other ha,
        hnone (Or.inr hb)]
      rfl
    · rw [ofKey_cons_other ha, ofKey_cons_other hb, ofKey_cons_other ha, ofKey_cons_other hb]

end Reordering

/-!
## Runs
-/

variable {step : state -> action -> Option state} {keyOf : action -> key}
variable {s s' t t' : state} {a : action} {acts acts' : List action}

theorem foldlM_cons_eq_some (h : (a :: acts).foldlM step s = some s') :
    exists s1, step s a = some s1 ∧ acts.foldlM step s1 = some s' := by
  rw [List.foldlM_cons] at h
  exact Option.bind_eq_some_iff.mp h

theorem foldlM_cons_of_step {s1 : state} (h : step s a = some s1) :
    (a :: acts).foldlM step s = acts.foldlM step s1 := by
  rw [List.foldlM_cons, h]
  rfl

theorem foldlM_keeps {Inv : state -> Prop}
    (hstep : forall s s' a, Inv s -> step s a = some s' -> Inv s')
    (hinit : Inv s) (h : acts.foldlM step s = some s') : Inv s' := by
  induction acts generalizing s with
  | nil =>
      cases h
      exact hinit
  | cons a acts ih =>
      obtain ⟨s1, hfirst, hrest⟩ := foldlM_cons_eq_some h
      exact ih (hstep s s1 a hinit hfirst) hrest

structure Parts (Inv : state -> Prop) (step : state -> action -> Option state)
    (keyOf : action -> key) (same : key -> state -> state -> Prop) : Prop where
  refl : forall k s, same k s s
  symm : forall {k s t}, same k s t -> same k t s
  trans : forall {k s t u}, same k s t -> same k t u -> same k s u
  keeps : forall {s s' a}, Inv s -> step s a = some s' -> Inv s'
  frame : forall {s s' a k}, Inv s -> step s a = some s' -> keyOf a ≠ k -> same k s s'
  inside : forall {s s' t a}, Inv s -> Inv t -> same (keyOf a) s t ->
    step s a = some s' -> exists t', step t a = some t' ∧ same (keyOf a) s' t'

namespace Parts

variable {Inv : state -> Prop} {same : key -> state -> state -> Prop}

theorem run_part (hp : Parts Inv step keyOf same) (k : key) (hs : Inv s) (ht : Inv t)
    (hsame : same k s t) (h : acts.foldlM step s = some s') :
    exists t', (ofKey keyOf k acts).foldlM step t = some t' ∧ same k s' t' := by
  induction acts generalizing s t with
  | nil =>
      cases h
      exact ⟨t, rfl, hsame⟩
  | cons a acts ih =>
      obtain ⟨s1, hfirst, hrest⟩ := foldlM_cons_eq_some h
      have hs1 := hp.keeps hs hfirst
      by_cases hk : keyOf a = k
      · subst hk
        obtain ⟨t1, hturn, hsame1⟩ := hp.inside hs ht hsame hfirst
        rw [ofKey_cons_same rfl, foldlM_cons_of_step hturn]
        exact ih hs1 (hp.keeps ht hturn) hsame1 hrest
      · rw [ofKey_cons_other hk]
        exact ih hs1 ht (hp.trans (hp.symm (hp.frame hs hfirst hk)) hsame) hrest

theorem run_of_parts (hp : Parts Inv step keyOf same) (u : key -> state) (hs : Inv s)
    (hu : forall k, Inv (u k)) (hsame : forall k, same k s (u k))
    (h : forall k, exists t, (ofKey keyOf k acts).foldlM step (u k) = some t) :
    exists s', acts.foldlM step s = some s' := by
  induction acts generalizing s u with
  | nil => exact ⟨s, rfl⟩
  | cons a acts ih =>
      obtain ⟨t, hrun⟩ := h (keyOf a)
      rw [ofKey_cons_same rfl] at hrun
      obtain ⟨u1, hfirst, hrest⟩ := foldlM_cons_eq_some hrun
      obtain ⟨s1, hturn, hsame1⟩ := hp.inside (hu _) hs (hp.symm (hsame _)) hfirst
      rw [foldlM_cons_of_step hturn]
      refine ih (Function.update u (keyOf a) u1) (hp.keeps hs hturn) ?_ ?_ ?_
      · intro k
        by_cases hk : k = keyOf a
        · subst hk
          rw [Function.update_self]
          exact hp.keeps (hu _) hfirst
        · rw [Function.update_of_ne hk]
          exact hu k
      · intro k
        by_cases hk : k = keyOf a
        · subst hk
          rw [Function.update_self]
          exact hp.symm hsame1
        · rw [Function.update_of_ne hk]
          exact hp.trans (hp.symm (hp.frame hs hturn (Ne.symm hk))) (hsame k)
      · intro k
        by_cases hk : k = keyOf a
        · subst hk
          rw [Function.update_self]
          exact ⟨t, hrest⟩
        · rw [Function.update_of_ne hk]
          obtain ⟨t', ht'⟩ := h k
          rw [ofKey_cons_other (Ne.symm hk)] at ht'
          exact ⟨t', ht'⟩

theorem reorder (hp : Parts Inv step keyOf same) (hs : Inv s)
    (hacts : Reordered keyOf acts acts') (h : acts.foldlM step s = some s') :
    exists t', acts'.foldlM step s = some t' ∧ forall k, same k s' t' := by
  have hpart : forall k, exists t, (ofKey keyOf k acts).foldlM step s = some t ∧
      same k s' t := fun k => hp.run_part k hs hs (hp.refl k s) h
  have hrun : exists t', acts'.foldlM step s = some t' := by
    refine hp.run_of_parts (fun _ => s) hs (fun _ => hs) (fun k => hp.refl k s) fun k => ?_
    obtain ⟨t, ht, -⟩ := hpart k
    rw [hacts k] at ht
    exact ⟨t, ht⟩
  obtain ⟨t', ht'⟩ := hrun
  refine ⟨t', ht', fun k => ?_⟩
  obtain ⟨t, ht, hsame⟩ := hpart k
  obtain ⟨u, hu, hsame'⟩ := hp.run_part k hs hs (hp.refl k s) ht'
  rw [← hacts k, ht] at hu
  cases hu
  exact hp.trans hsame (hp.symm hsame')

end Parts

/-!
## Last writes
-/

section LastWrite

variable {value : Type} {get : state -> value} {written : action -> Option value}

/-- A part that actions only overwrite holds the last value, or the one before the
run. -/
theorem foldlM_lastWrite {Inv : state -> Prop}
    (hkeeps : forall s s' a, Inv s -> step s a = some s' -> Inv s')
    (hwrite : forall s s' a, Inv s -> step s a = some s' ->
      get s' = (written a).getD (get s))
    (hs : Inv s) (h : acts.foldlM step s = some s') :
    get s' = (acts.filterMap written).getLast?.getD (get s) := by
  induction acts generalizing s with
  | nil =>
      cases h
      rfl
  | cons a acts ih =>
      obtain ⟨s1, hfirst, hrest⟩ := foldlM_cons_eq_some h
      rw [ih (hkeeps s s1 a hs hfirst) hrest, hwrite s s1 a hs hfirst, List.filterMap_cons]
      cases hw : written a with
      | none => rfl
      | some v =>
          rw [List.getLast?_cons]
          rfl

theorem Reordered.lastWrite_none (h : Reordered keyOf acts acts') :
    (acts.filterMap written).getLast? = none ↔ (acts'.filterMap written).getLast? = none := by
  have hhalf : forall {xs ys : List action}, Reordered keyOf xs ys ->
      (ys.filterMap written).getLast? = none -> (xs.filterMap written).getLast? = none := by
    intro xs ys hxy hnone
    rw [List.getLast?_eq_none_iff, List.filterMap_eq_nil_iff] at hnone ⊢
    exact fun a ha => hnone a (hxy.mem ha)
  exact ⟨hhalf h.symm, hhalf h⟩

end LastWrite

end Foundation
end NgxEpoll
