import Mathlib.Data.List.Basic
import Mathlib.Data.List.Induction
import Mathlib.Data.List.Nodup
import Mathlib.Data.List.Perm.Subperm
import Mathlib.Logic.Function.Basic
import Mathlib.Order.Lattice

/-!
# Deadlines

A partial map gives the armed timers their deadlines.  While the time is `now`,
timers that are due fire, the one with the least deadline first, and between
two of them others are deleted, or added with a deadline in the future.  A log
of such actions tells which timers have fired and which are left.
-/

namespace NgxEpoll
namespace Foundation

inductive Act (α κ : Type) where
  | fire (a : α) (k : κ)
  | delete (a : α)
  | add (a : α) (k : κ)

variable {α κ : Type}

def fires : List (Act α κ) -> List (α × κ)
  | [] => []
  | Act.fire a k :: log => (a, k) :: fires log
  | _ :: log => fires log

/-- The timer `a` was deleted before it could fire. -/
def RemovedFirst (a : α) (log : List (Act α κ)) : Prop :=
  exists before rest, log = before ++ Act.delete a :: rest ∧
    forall k, Act.fire a k ∉ before

/-- The timer `a` was added with deadline `k` and not deleted afterwards. -/
def AddedLast (a : α) (k : κ) (log : List (Act α κ)) : Prop :=
  exists before rest, log = before ++ Act.add a k :: rest ∧ Act.delete a ∉ rest

/-- What a log has to say when no timer is due any more. -/
structure Expired [LinearOrder κ] (now : κ) (armed : α -> κ -> Prop)
    (log : List (Act α κ)) (armed' : α -> κ -> Prop) : Prop where
  once : ((fires log).map Prod.fst).Nodup
  fired : forall a, a ∈ (fires log).map Prod.fst ↔
    (exists k, armed a k ∧ k ≤ now) ∧ ¬ RemovedFirst a log
  deadline : forall a k, (a, k) ∈ fires log -> armed a k ∧ k ≤ now
  ordered : (fires log).Pairwise fun x y => x.2 ≤ y.2
  left : forall a k, armed' a k ↔
    (armed a k ∧ now < k ∧ Act.delete a ∉ log) ∨ AddedLast a k log
  later : forall a k, armed' a k -> now < k

/-!
## Logs
-/

section Logs

variable {a : α} {k : κ} {log : List (Act α κ)}

theorem fires_append (log log' : List (Act α κ)) :
    fires (log ++ log') = fires log ++ fires log' := by
  induction log with
  | nil => rfl
  | cons act log ih =>
      cases act with
      | fire a k => exact congrArg (List.cons (a, k)) ih
      | delete a => exact ih
      | add a k => exact ih

theorem mem_fires : (a, k) ∈ fires log ↔ Act.fire a k ∈ log := by
  induction log with
  | nil => simp [fires]
  | cons act log ih =>
      cases act with
      | fire b k' => simp [fires, ih]
      | delete b => simp [fires, ih]
      | add b k' => simp [fires, ih]

theorem mem_fired : a ∈ (fires log).map Prod.fst ↔ exists k, Act.fire a k ∈ log := by
  simp [mem_fires]

theorem snoc_eq_append {log before rest : List (Act α κ)} {act act' : Act α κ}
    (h : log ++ [act] = before ++ act' :: rest) :
    (log = before ∧ act = act') ∨
      exists rest', rest = rest' ++ [act] ∧ log = before ++ act' :: rest' := by
  induction rest using List.reverseRecOn with
  | nil =>
      obtain ⟨hlog, hact⟩ := List.append_inj' h rfl
      cases hact
      exact Or.inl ⟨hlog, rfl⟩
  | append_singleton rest' act'' _ =>
      rw [← List.cons_append, ← List.append_assoc] at h
      obtain ⟨hlog, hact⟩ := List.append_inj' h rfl
      cases hact
      exact Or.inr ⟨rest', rfl, hlog⟩

theorem removedFirst_snoc {act : Act α κ} :
    RemovedFirst a (log ++ [act]) ↔
      RemovedFirst a log ∨ act = Act.delete a ∧ forall k, Act.fire a k ∉ log := by
  constructor
  · rintro ⟨before, rest, heq, hfire⟩
    rcases snoc_eq_append heq with ⟨rfl, hact⟩ | ⟨rest', -, hlog⟩
    · exact Or.inr ⟨hact, hfire⟩
    · exact Or.inl ⟨before, rest', hlog, hfire⟩
  · rintro (⟨before, rest, rfl, hfire⟩ | ⟨rfl, hfire⟩)
    · exact ⟨before, rest ++ [act], by simp, hfire⟩
    · exact ⟨log, [], rfl, hfire⟩

theorem addedLast_snoc {act : Act α κ} :
    AddedLast a k (log ++ [act]) ↔
      act = Act.add a k ∨ act ≠ Act.delete a ∧ AddedLast a k log := by
  constructor
  · rintro ⟨before, rest, heq, hdelete⟩
    rcases snoc_eq_append heq with ⟨-, hact⟩ | ⟨rest', rfl, hlog⟩
    · exact Or.inl hact
    · rw [List.mem_append, List.mem_singleton, not_or] at hdelete
      exact Or.inr ⟨Ne.symm hdelete.2, before, rest', hlog, hdelete.1⟩
  · rintro (rfl | ⟨hact, before, rest, rfl, hdelete⟩)
    · exact ⟨log, [], rfl, by simp⟩
    · refine ⟨before, rest ++ [act], by simp, ?_⟩
      rw [List.mem_append, List.mem_singleton, not_or]
      exact ⟨hdelete, Ne.symm hact⟩

end Logs

/-!
## Actions
-/

variable [DecidableEq α] [LinearOrder κ]

inductive Acts (now : κ) (m : α -> Option κ) :
    Act α κ -> (α -> Option κ) -> Prop where
  | fire {a : α} {k : κ} : m a = some k -> k ≤ now ->
      (forall b k', m b = some k' -> k ≤ k') ->
      Acts now m (Act.fire a k) (Function.update m a none)
  | delete {a : α} {k : κ} : m a = some k ->
      Acts now m (Act.delete a) (Function.update m a none)
  | add {a : α} {k : κ} : m a = none -> now < k ->
      Acts now m (Act.add a k) (Function.update m a (some k))

/-- The actions of a log lead from one map to another. -/
inductive Trace (now : κ) (m : α -> Option κ) :
    List (Act α κ) -> (α -> Option κ) -> Prop where
  | nil : Trace now m [] m
  | snoc {log : List (Act α κ)} {act : Act α κ} {m' m'' : α -> Option κ} :
      Trace now m log m' -> Acts now m' act m'' -> Trace now m (log ++ [act]) m''

def Act.subject : Act α κ -> α
  | Act.fire a _ => a
  | Act.delete a => a
  | Act.add a _ => a

section Traces

variable {now k : κ} {a : α} {m m' m'' : α -> Option κ} {log : List (Act α κ)}
  {act : Act α κ}

theorem acts_other (h : Acts now m act m') (ha : act.subject ≠ a) :
    m' a = m a := by
  cases h with
  | fire => exact Function.update_of_ne (Ne.symm ha) _ _
  | delete => exact Function.update_of_ne (Ne.symm ha) _ _
  | add => exact Function.update_of_ne (Ne.symm ha) _ _

theorem acts_armed (h : Acts now m act m') (ha : m' a = some k) :
    m a = some k ∨ now < k := by
  by_cases hother : act.subject = a
  · subst hother
    cases h with
    | fire => simp [Act.subject] at ha
    | delete => simp [Act.subject] at ha
    | add _ hlater =>
        rw [Act.subject, Function.update_self] at ha
        cases ha
        exact Or.inr hlater
  · rw [← acts_other h hother]
    exact Or.inl ha

theorem acts_due (h : Acts now m act m') (ha : m' a = some k) (hk : k ≤ now) :
    act.subject ≠ a := by
  rintro rfl
  cases h with
  | fire => simp [Act.subject] at ha
  | delete => simp [Act.subject] at ha
  | add _ hlater =>
      rw [Act.subject, Function.update_self] at ha
      cases ha
      exact absurd hk (not_le.mpr hlater)

theorem Trace.untouched (h : Trace now m log m') (ha : m' a = some k)
    (hk : k ≤ now) : m a = some k ∧ forall act, act ∈ log -> act.subject ≠ a := by
  induction h with
  | nil => exact ⟨ha, fun act hact => (by cases hact)⟩
  | @snoc log act m' m'' _ hacts ih =>
      have hother := acts_due hacts ha hk
      rw [acts_other hacts hother] at ha
      obtain ⟨hm, hlog⟩ := ih ha
      refine ⟨hm, ?_⟩
      intro act' hact'
      rcases List.mem_append.mp hact' with hin | hin
      · exact hlog act' hin
      · rw [List.mem_singleton.mp hin]
        exact hother

theorem Trace.fired (h : Trace now m log m') (ha : Act.fire a k ∈ log) :
    m a = some k ∧ k ≤ now ∧ ¬ RemovedFirst a log := by
  induction h with
  | nil => cases ha
  | @snoc log act m' m'' htrace hacts ih =>
      rw [removedFirst_snoc]
      rcases List.mem_append.mp ha with hin | hin
      · obtain ⟨hm, hk, hfirst⟩ := ih hin
        refine ⟨hm, hk, ?_⟩
        rintro (hremoved | ⟨-, hnone⟩)
        · exact hfirst hremoved
        · exact hnone k hin
      · obtain rfl := List.mem_singleton.mp hin
        cases hacts with
        | fire ha hk _ =>
            obtain ⟨hm, hlog⟩ := htrace.untouched ha hk
            refine ⟨hm, hk, ?_⟩
            rintro (⟨before, rest, rfl, -⟩ | ⟨heq, -⟩)
            · exact hlog (Act.delete a) (by simp) rfl
            · cases heq

theorem Trace.once (h : Trace now m log m') :
    ((fires log).map Prod.fst).Nodup := by
  induction h with
  | nil => exact List.nodup_nil
  | @snoc log act m' m'' htrace hacts ih =>
      rw [fires_append, List.map_append]
      cases hacts with
      | fire ha hk _ =>
          obtain ⟨-, hlog⟩ := htrace.untouched ha hk
          refine List.nodup_append'.mpr ⟨ih, List.nodup_singleton _, ?_⟩
          rw [List.disjoint_comm]
          intro b hb hin
          obtain rfl := List.mem_singleton.mp hb
          obtain ⟨k', hk'⟩ := mem_fired.mp hin
          exact hlog _ hk' rfl
      | delete => simpa [fires] using ih
      | add => simpa [fires] using ih

theorem Trace.length_fires_le {as : List α} (h : Trace now m log m')
    (has : forall a k, m a = some k -> a ∈ as) :
    (fires log).length ≤ as.length := by
  have hsub : (fires log).map Prod.fst ⊆ as := by
    intro a ha
    obtain ⟨k, hk⟩ := mem_fired.mp ha
    exact has a k (h.fired hk).1
  have hle := (h.once.subperm hsub).length_le
  rwa [List.length_map] at hle

theorem Trace.ordered (h : Trace now m log m') :
    ((fires log).Pairwise fun x y => x.2 ≤ y.2) ∧
      forall a k, (a, k) ∈ fires log -> forall b k', m' b = some k' -> k ≤ k' := by
  induction h with
  | nil => exact ⟨List.Pairwise.nil, fun a k hin => (by cases hin)⟩
  | @snoc log act m' m'' htrace hacts ih =>
      obtain ⟨hordered, hbound⟩ := ih
      have hkept : forall a k, (a, k) ∈ fires log ->
          forall b k', m'' b = some k' -> k ≤ k' := by
        intro a k hin b k' hb
        rcases acts_armed hacts hb with hb | hlater
        · exact hbound a k hin b k' hb
        · have hk := (htrace.fired (mem_fires.mp hin)).2.1
          exact le_of_lt (lt_of_le_of_lt hk hlater)
      rw [fires_append]
      cases hacts with
      | @fire a k ha hk hleast =>
          constructor
          · refine List.pairwise_append.mpr ⟨hordered, List.pairwise_singleton _ _, ?_⟩
            intro x hx y hy
            rw [List.mem_singleton.mp hy]
            exact hbound x.1 x.2 hx a k ha
          · intro b kb hb c kc hc
            rcases List.mem_append.mp hb with hin | hin
            · exact hkept b kb hin c kc hc
            · cases List.mem_singleton.mp hin
              rcases acts_armed (Acts.fire ha hk hleast) hc with hc | hlater
              · exact hleast c kc hc
              · exact le_of_lt (lt_of_le_of_lt hk hlater)
      | delete =>
          simp only [fires, List.append_nil]
          exact ⟨hordered, hkept⟩
      | add =>
          simp only [fires, List.append_nil]
          exact ⟨hordered, hkept⟩

theorem Trace.due (h : Trace now m log m') (ha : m a = some k) (hk : k ≤ now) :
    m' a = some k ∨ Act.fire a k ∈ log ∨ RemovedFirst a log := by
  induction h with
  | nil => exact Or.inl ha
  | @snoc log act m' m'' htrace hacts ih =>
      rw [removedFirst_snoc]
      rcases ih with hkept | hfired | hremoved
      · by_cases hother : act.subject = a
        · subst hother
          obtain ⟨-, hlog⟩ := htrace.untouched hkept hk
          cases hacts with
          | fire hm =>
              cases hm.symm.trans hkept
              exact Or.inr (Or.inl (by simp [Act.subject]))
          | delete =>
              refine Or.inr (Or.inr (Or.inr ⟨rfl, ?_⟩))
              exact fun k' hin => hlog _ hin rfl
          | add hm => cases hm.symm.trans hkept
        · rw [acts_other hacts hother]
          exact Or.inl hkept
      · exact Or.inr (Or.inl (List.mem_append_left _ hfired))
      · exact Or.inr (Or.inr (Or.inl hremoved))

/-- The timers that are armed: those that nothing has happened to, and those
that were added last. -/
theorem Trace.left (h : Trace now m log m') :
    m' a = some k ↔
      (m a = some k ∧ Act.delete a ∉ log ∧ forall k', Act.fire a k' ∉ log) ∨
        AddedLast a k log := by
  induction h with
  | nil =>
      constructor
      · exact fun ha => Or.inl ⟨ha, by simp, by simp⟩
      · rintro (⟨ha, -⟩ | ⟨before, rest, heq, -⟩)
        · exact ha
        · simp at heq
  | @snoc log act m' m'' htrace hacts ih =>
      by_cases hother : act.subject = a
      · subst hother
        cases hacts with
        | @fire a k' ha hk =>
            obtain ⟨-, hlog⟩ := htrace.untouched ha hk
            rw [Act.subject] at *
            rw [Function.update_self, addedLast_snoc]
            constructor
            · intro h
              cases h
            · rintro (⟨-, -, hfire⟩ | heq | ⟨-, before, rest, rfl, -⟩)
              · exact absurd (by simp) (hfire k')
              · cases heq
              · exact absurd rfl (hlog (Act.add a k) (by simp))
        | @delete a k' ha =>
            rw [Act.subject, Function.update_self, addedLast_snoc]
            constructor
            · intro h
              cases h
            · rintro (⟨-, hdelete, -⟩ | heq | ⟨hne, -⟩)
              · exact absurd (by simp) hdelete
              · cases heq
              · exact absurd rfl hne
        | @add a k' ha hlater =>
            rw [Act.subject] at ih
            rw [ha] at ih
            rw [Act.subject, Function.update_self, addedLast_snoc]
            constructor
            · intro h
              cases h
              exact Or.inr (Or.inl rfl)
            · rintro (⟨hm, hdelete, hfire⟩ | heq | ⟨-, hlast⟩)
              · refine absurd (ih.mpr (Or.inl ⟨hm, ?_, ?_⟩)) (by simp)
                · exact fun hin => hdelete (List.mem_append_left _ hin)
                · exact fun k'' hin => hfire k'' (List.mem_append_left _ hin)
              · cases heq
                rfl
              · exact absurd (ih.mpr (Or.inr hlast)) (by simp)
      · have hne : forall act', act'.subject = a -> act ≠ act' := by
          rintro act' rfl rfl
          exact hother rfl
        rw [acts_other hacts hother, ih, addedLast_snoc]
        simp [List.mem_append, Ne.symm (hne (Act.delete a) rfl),
          hne (Act.delete a) rfl, hne (Act.add a k) rfl,
          fun k' => Ne.symm (hne (Act.fire a k') rfl)]

theorem Trace.expired (h : Trace now m log m')
    (hlater : forall a k, m' a = some k -> now < k) :
    Expired now (fun a k => m a = some k) log (fun a k => m' a = some k) := by
  refine ⟨h.once, ?_, ?_, h.ordered.1, ?_, hlater⟩
  · intro a
    rw [mem_fired]
    constructor
    · rintro ⟨k, hin⟩
      obtain ⟨hm, hk, hfirst⟩ := h.fired hin
      exact ⟨⟨k, hm, hk⟩, hfirst⟩
    · rintro ⟨⟨k, hm, hk⟩, hfirst⟩
      rcases h.due hm hk with hkept | hfired | hremoved
      · exact absurd (hlater a k hkept) (not_lt.mpr hk)
      · exact ⟨k, hfired⟩
      · exact absurd hremoved hfirst
  · intro a k hin
    obtain ⟨hm, hk, -⟩ := h.fired (mem_fires.mp hin)
    exact ⟨hm, hk⟩
  · intro a k
    rw [h.left]
    constructor
    · rintro (⟨hm, hdelete, hfire⟩ | hlast)
      · have hkept := h.left.mpr (Or.inl ⟨hm, hdelete, hfire⟩)
        exact Or.inl ⟨hm, hlater a k hkept, hdelete⟩
      · exact Or.inr hlast
    · rintro (⟨hm, hk, hdelete⟩ | hlast)
      · refine Or.inl ⟨hm, hdelete, ?_⟩
        intro k' hin
        obtain ⟨hm', hk', -⟩ := h.fired hin
        cases hm'.symm.trans hm
        exact absurd hk' (not_le.mpr hk)
      · exact Or.inr hlast

end Traces

end Foundation
end NgxEpoll
