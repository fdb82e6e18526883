import Mathlib.Data.List.Basic

/-!
# Runs of labelled transition systems

A system is a partial step function on states and labels.  `Reaches step ok`
relates a state to every state that some finite run leads to, where each step
of the run meets the side condition `ok`.
-/

namespace NgxEpoll
namespace Foundation

variable {state label : Type}

inductive Reaches (step : state -> label -> Option state)
    (ok : state -> label -> Prop) : state -> state -> Prop where
  | refl (s : state) : Reaches step ok s s
  | tail {s t u : state} {a : label} :
      Reaches step ok s t -> ok t a -> step t a = some u -> Reaches step ok s u

def Always : state -> label -> Prop :=
  fun _ _ => True

variable {step : state -> label -> Option state} {ok : state -> label -> Prop}

theorem Reaches.invariant (Inv : state -> Prop)
    (hstep : forall t a u, Inv t -> ok t a -> step t a = some u -> Inv u)
    {s t : state} (hrun : Reaches step ok s t) (hinit : Inv s) : Inv t := by
  induction hrun with
  | refl => exact hinit
  | tail _ hok hs ih => exact hstep _ _ _ ih hok hs

theorem Reaches.returning (Inv : state -> Prop)
    (hstep : forall t a, Inv t -> ok t a -> exists u, step t a = some u ∧ Inv u)
    {s t : state} (hrun : Reaches step ok s t) (hinit : Inv s) :
    Inv t ∧ forall a, ok t a -> (step t a).isSome = true := by
  have hinv : Inv t := by
    refine hrun.invariant Inv (fun t a u ht hok hs => ?_) hinit
    obtain ⟨u', heq, hu⟩ := hstep t a ht hok
    rw [hs] at heq
    cases heq
    exact hu
  refine ⟨hinv, fun a hok => ?_⟩
  obtain ⟨u, heq, -⟩ := hstep t a hinv hok
  rw [heq]
  rfl

theorem Reaches.trans {s t u : state} (hst : Reaches step ok s t)
    (htu : Reaches step ok t u) : Reaches step ok s u := by
  induction htu with
  | refl => exact hst
  | tail _ hok hs ih => exact Reaches.tail ih hok hs

theorem Reaches.mono {ok' : state -> label -> Prop}
    (h : forall s a, ok s a -> ok' s a) {s t : state}
    (hrun : Reaches step ok s t) : Reaches step ok' s t := by
  induction hrun with
  | refl => exact Reaches.refl _
  | tail _ hok hs ih => exact Reaches.tail ih (h _ _ hok) hs

theorem Reaches.single {s t : state} {a : label} (hok : ok s a)
    (hs : step s a = some t) : Reaches step ok s t :=
  Reaches.tail (Reaches.refl s) hok hs

def runLabels (step : state -> label -> Option state) :
    state -> List label -> Option state
  | s, [] => some s
  | s, a :: as =>
      match step s a with
      | none => none
      | some t => runLabels step t as

/-- The state after a list of labels, or the first one if they do not make a
run. -/
def after (step : state -> label -> Option state) (s : state)
    (as : List label) : state :=
  (runLabels step s as).getD s

theorem Reaches.labels {s r : state} {as : List label}
    (hrun : Reaches step ok s r)
    (hok : forall a, a ∈ as -> forall r, ok r a)
    (h : (runLabels step r as).isSome = true) :
    Reaches step ok s (after step r as) := by
  induction as generalizing r with
  | nil => exact hrun
  | cons a as ih =>
      cases hstep : step r a with
      | none =>
          simp only [runLabels, hstep] at h
          cases h
      | some r' =>
          simp only [runLabels, hstep] at h
          have hrest := ih (Reaches.tail hrun (hok a (by simp) r) hstep)
            (fun a' ha' => hok a' (by simp [ha'])) h
          have heq : after step r (a :: as) = after step r' as := by
            obtain ⟨t, ht⟩ := Option.isSome_iff_exists.mp h
            simp only [after, runLabels, hstep, ht, Option.getD_some]
          rw [heq]
          exact hrest

theorem step_eq_some_after {r : state} {a : label}
    (h : (step r a).isSome = true) : step r a = some (after step r [a]) := by
  obtain ⟨t, ht⟩ := Option.isSome_iff_exists.mp h
  simp only [after, runLabels, ht, Option.getD_some]

theorem Reaches.oneLabel {s r : state} {a : label} (hrun : Reaches step ok s r)
    (hok : ok r a) (h : (step r a).isSome = true) :
    Reaches step ok s (after step r [a]) :=
  Reaches.tail hrun hok (step_eq_some_after h)

end Foundation
end NgxEpoll
