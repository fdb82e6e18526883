import NgxEpoll.Foundation.Sections
import Mathlib.Logic.Function.Basic

/-!
# The atomic lock

`dfs_atomic_lock_on`, `dfs_atomic_lock_try_on` and `dfs_atomic_lock_off` of
`dfs_lock.cpp`, taken by any number of threads: threads are interleaved between any
two accesses to the lock word and to what it protects.

## The lock word
-/

namespace NgxEpoll
namespace Locks

open Foundation

def lockOff : Nat := 1

def lockOn : Nat := 2

def cas (word old new : Nat) : Nat × Bool :=
  if word = old then (new, true) else (word, false)

/-- Where a thread is.  `taking` is the loop of `dfs_atomic_lock_on`; `trying` is
`dfs_atomic_lock_try_on` between its test of the word and its `CAS`; `leaving` is the
test of `dfs_atomic_lock_off` and `freeing` its loop. -/
inductive Pc (op var result : Type) where
  | idle
  | taking (o : op)
  | trying (o : op)
  | inside (o : op) (v : var)
  | leaving
  | freeing

/-- The lock, what it protects, and the threads; `log` lists the operations that ended,
and `waits` counts the turns of the loop of `dfs_atomic_lock_off` that fail. -/
structure Locked (thread state op var result : Type) where
  word : Nat
  shared : state
  pcs : thread -> Pc op var result
  log : List (thread × op × result)
  waits : Nat

inductive Move (op : Type) where
  | on (o : op)
  | tryOn (o : op)
  | go

section System

variable {thread state op var result : Type} [DecidableEq thread]

def Locked.goTo (s : Locked thread state op var result) (i : thread)
    (pc : Pc op var result) : Locked thread state op var result :=
  { s with pcs := Function.update s.pcs i pc }

def lockGo (c : Code state op var result) (s : Locked thread state op var result)
    (i : thread) : Option (Locked thread state op var result) :=
  match s.pcs i with
  | Pc.idle => none
  | Pc.taking o =>
      match cas s.word lockOff lockOn with
      | (word, true) => some ({ s with word := word }.goTo i (Pc.inside o (c.start o)))
      | (word, false) => some { s with word := word }
  | Pc.trying o =>
      match cas s.word lockOff lockOn with
      | (word, true) => some ({ s with word := word }.goTo i (Pc.inside o (c.start o)))
      | (word, false) => some ({ s with word := word }.goTo i Pc.idle)
  | Pc.inside o v =>
      match c.body (v, s.shared) with
      | Turn.next (v', shared) => some ({ s with shared := shared }.goTo i (Pc.inside o v'))
      | Turn.done (shared, r) =>
          some ({ s with shared := shared, log := s.log ++ [(i, o, r)] }.goTo i Pc.leaving)
  | Pc.leaving =>
      if s.word = lockOff then some (s.goTo i Pc.idle) else some (s.goTo i Pc.freeing)
  | Pc.freeing =>
      match cas s.word lockOn lockOff with
      | (word, true) => some ({ s with word := word }.goTo i Pc.idle)
      | (word, false) => some { s with word := word, waits := s.waits + 1 }

def lockStep (c : Code state op var result) (s : Locked thread state op var result)
    (l : thread × Move op) : Option (Locked thread state op var result) :=
  match l.2 with
  | Move.on o =>
      match s.pcs l.1 with
      | Pc.idle => some (s.goTo l.1 (Pc.taking o))
      | _ => none
  | Move.tryOn o =>
      match s.pcs l.1 with
      | Pc.idle => if s.word = lockOff then some (s.goTo l.1 (Pc.trying o)) else some s
      | _ => none
  | Move.go => lockGo c s l.1

def lockInit (thread : Type) {state op var result : Type} (shared : state) :
    Locked thread state op var result where
  word := lockOff
  shared := shared
  pcs := fun _ => Pc.idle
  log := []
  waits := 0

/-!
## Mutual exclusion
-/

def Pc.Holds : Pc op var result -> Prop
  | Pc.inside _ _ => True
  | Pc.leaving => True
  | Pc.freeing => True
  | _ => False

/-- The word is `DFS_LOCK_OFF` while no thread has the lock, and `DFS_LOCK_ON` while one
has it; the loop of `dfs_atomic_lock_off` does not wait. -/
structure Exclusive (s : Locked thread state op var result) : Prop where
  free : s.word = lockOff -> forall i, ¬ (s.pcs i).Holds
  taken : s.word ≠ lockOff -> s.word = lockOn ∧ exists i, (s.pcs i).Holds
  one : forall i j, (s.pcs i).Holds -> (s.pcs j).Holds -> i = j
  waits : s.waits = 0

omit [DecidableEq thread] in
theorem exclusive_lockInit (shared : state) :
    Exclusive (lockInit thread shared : Locked thread state op var result) := by
  constructor
  · exact fun _ _ h => h
  · intro h
    exact absurd rfl h
  · intro i j hi
    exact absurd hi id
  · rfl

variable {c : Code state op var result} {s s' : Locked thread state op var result} {i : thread}

theorem goTo_self (pc : Pc op var result) : (s.goTo i pc).pcs i = pc := by
  simp only [Locked.goTo, Function.update_self]

theorem goTo_other {pc : Pc op var result} {j : thread} (h : j ≠ i) :
    (s.goTo i pc).pcs j = s.pcs j := by
  simp only [Locked.goTo, Function.update_of_ne h]

theorem Exclusive.goTo (h : Exclusive s) {pc : Pc op var result}
    (hsame : pc.Holds ↔ (s.pcs i).Holds) : Exclusive (s.goTo i pc) := by
  have hholds : forall j, ((s.goTo i pc).pcs j).Holds ↔ (s.pcs j).Holds := by
    intro j
    rcases eq_or_ne j i with rfl | hne
    · rw [goTo_self]
      exact hsame
    · rw [goTo_other hne]
  constructor
  · intro hfree j hj
    exact h.free hfree j ((hholds j).mp hj)
  · intro htaken
    obtain ⟨hon, j, hj⟩ := h.taken htaken
    exact ⟨hon, j, (hholds j).mpr hj⟩
  · intro j k hj hk
    exact h.one j k ((hholds j).mp hj) ((hholds k).mp hk)
  · exact h.waits

omit [DecidableEq thread] in
theorem Exclusive.frame (h : Exclusive s) (hword : s'.word = s.word) (hpcs : s'.pcs = s.pcs)
    (hwaits : s'.waits = s.waits) : Exclusive s' := by
  constructor
  · rw [hword, hpcs]
    exact h.free
  · rw [hword, hpcs]
    exact h.taken
  · rw [hpcs]
    exact h.one
  · rw [hwaits]
    exact h.waits

theorem Exclusive.take (h : Exclusive s) (hfree : s.word = lockOff)
    {pc : Pc op var result} (hpc : pc.Holds) :
    Exclusive ({ s with word := lockOn }.goTo i pc) := by
  have hnone : forall j, (({ s with word := lockOn }.goTo i pc).pcs j).Holds -> j = i := by
    intro j hj
    by_contra hne
    rw [goTo_other hne] at hj
    exact h.free hfree j hj
  constructor
  · intro hbad
    exact absurd hbad (show ¬ lockOn = lockOff by decide)
  · intro _
    exact ⟨rfl, i, by rw [goTo_self]; exact hpc⟩
  · intro j k hj hk
    rw [hnone j hj, hnone k hk]
  · exact h.waits

theorem Exclusive.free_lock (h : Exclusive s) (hi : (s.pcs i).Holds) :
    Exclusive ({ s with word := lockOff }.goTo i Pc.idle) := by
  have hnone : forall j, ¬ (({ s with word := lockOff }.goTo i Pc.idle).pcs j).Holds := by
    intro j hj
    rcases eq_or_ne j i with rfl | hne
    · rw [goTo_self] at hj
      exact hj
    · rw [goTo_other hne] at hj
      exact hne (h.one j i hj hi)
  constructor
  · exact fun _ => hnone
  · intro hbad
    exact absurd rfl hbad
  · intro j k hj
    exact absurd hj (hnone j)
  · exact h.waits

omit [DecidableEq thread] in
theorem Exclusive.word_on (h : Exclusive s) (hi : (s.pcs i).Holds) : s.word = lockOn := by
  by_cases hfree : s.word = lockOff
  · exact absurd hi (h.free hfree i)
  · exact (h.taken hfree).1

theorem cas_hit {word : Nat} (old new : Nat) (h : word = old) : cas word old new = (new, true) :=
  if_pos h

theorem cas_miss {word old new : Nat} (h : word ≠ old) : cas word old new = (word, false) :=
  if_neg h

/-!
## What a step is to the protected state
-/

def Pc.section : Pc op var result -> Option (op × var)
  | Pc.inside o v => some (o, v)
  | _ => none

/-- A monitor of the same state: the thread inside is the one in its section. -/
structure Views (s : Locked thread state op var result)
    (m : Monitor thread state op var result) : Prop where
  shared : m.shared = s.shared
  log : m.log = s.log
  inside : forall i o v, m.inside = some (i, o, v) ↔ (s.pcs i).section = some (o, v)

variable {m : Monitor thread state op var result}

theorem Views.goTo (h : Views s m) {pc : Pc op var result} (hpc : pc.section = none)
    (hold : (s.pcs i).section = none) : Views (s.goTo i pc) m := by
  refine ⟨h.shared, h.log, fun j o v => ?_⟩
  rcases eq_or_ne j i with rfl | hne
  · rw [goTo_self, hpc, h.inside, hold]
  · rw [goTo_other hne]
    exact h.inside j o v

omit [DecidableEq thread] in
theorem Views.frame (h : Views s m) (hshared : s'.shared = s.shared) (hlog : s'.log = s.log)
    (hpcs : s'.pcs = s.pcs) : Views s' m :=
  ⟨h.shared.trans hshared.symm, h.log.trans hlog.symm, by rw [hpcs]; exact h.inside⟩

theorem Views.take (hview : Views s m) (h : Exclusive s) (hfree : s.word = lockOff) (o : op) :
    exists n, Views ({ s with word := lockOn }.goTo i (Pc.inside o (c.start o))) n ∧
      monitorStep c m (MonitorLabel.enter i o) = some n := by
  have hnone : m.inside = none := by
    cases hinside : m.inside with
    | none => rfl
    | some x =>
        obtain ⟨j, o', v⟩ := x
        have hsection := (hview.inside j o' v).mp hinside
        have hout := h.free hfree j
        cases hpc : s.pcs j with
        | inside o'' v' =>
            rw [hpc] at hout
            exact absurd trivial hout
        | _ =>
            rw [hpc] at hsection
            cases hsection
  refine ⟨{ m with inside := some (i, o, c.start o) }, ⟨hview.shared, hview.log, ?_⟩, ?_⟩
  · intro j o' v
    rcases eq_or_ne j i with rfl | hne
    · rw [goTo_self]
      simp [Pc.section]
    · rw [goTo_other hne]
      constructor
      · intro heq
        cases heq
        exact absurd rfl hne
      · intro hsection
        have hbad := (hview.inside j o' v).mpr hsection
        rw [hnone] at hbad
        cases hbad
  · simp only [monitorStep, hnone]

theorem Views.turn (hview : Views s m) (h : Exclusive s) {o : op} {v : var}
    (hpc : s.pcs i = Pc.inside o v) (hgo : lockGo c s i = some s') :
    exists n, Views s' n ∧ monitorStep c m (MonitorLabel.turn i) = some n := by
  have hinside : m.inside = some (i, o, v) := (hview.inside i o v).mpr (by rw [hpc]; rfl)
  have halone : forall j, j ≠ i -> (s.pcs j).section = none := by
    intro j hne
    cases hj : s.pcs j with
    | inside o' v' =>
        have hholds : (s.pcs j).Holds := by rw [hj]; trivial
        exact absurd (h.one j i hholds (by rw [hpc]; trivial)) hne
    | _ => rfl
  have hshared := hview.shared
  simp only [lockGo, hpc] at hgo
  split at hgo
  next v' shared hbody =>
    cases hgo
    refine ⟨{ m with inside := some (i, o, v'), shared := shared }, ⟨rfl, hview.log, ?_⟩, ?_⟩
    · intro j o' w
      rcases eq_or_ne j i with rfl | hne
      · rw [goTo_self]
        simp [Pc.section]
      · rw [goTo_other hne, halone j hne]
        constructor
        · intro heq
          cases heq
          exact absurd rfl hne
        · intro hbad
          cases hbad
    · simp only [monitorStep, hinside, hshared, hbody, if_true]
  next shared r hbody =>
    cases hgo
    refine ⟨{ inside := none, shared := shared, log := m.log ++ [(i, o, r)] },
      ⟨rfl, by rw [hview.log]; rfl, ?_⟩, ?_⟩
    · intro j o' w
      constructor
      · intro hbad
        cases hbad
      · intro hsection
        rcases eq_or_ne j i with rfl | hne
        · rw [goTo_self] at hsection
          cases hsection
        · rw [goTo_other hne, halone j hne] at hsection
          cases hsection
    · simp only [monitorStep, hinside, hshared, hbody, if_true]

theorem lockGo_spec (h : Exclusive s) (hview : Views s m) (hgo : lockGo c s i = some s') :
    Exclusive s' ∧ exists n, Views s' n ∧ (n = m ∨ exists b, monitorStep c m b = some n) := by
  have hgo0 := hgo
  unfold lockGo at hgo
  cases hpc : s.pcs i with
  | idle =>
      rw [hpc] at hgo
      cases hgo
  | taking o =>
      rw [hpc] at hgo
      by_cases hfree : s.word = lockOff
      · rw [cas_hit lockOff lockOn hfree] at hgo
        cases hgo
        obtain ⟨n, hn, hstep⟩ := hview.take (c := c) h hfree (i := i) o
        exact ⟨h.take hfree trivial, n, hn, Or.inr ⟨_, hstep⟩⟩
      · rw [cas_miss hfree] at hgo
        cases hgo
        exact ⟨h.frame rfl rfl rfl, m, hview.frame rfl rfl rfl, Or.inl rfl⟩
  | trying o =>
      rw [hpc] at hgo
      by_cases hfree : s.word = lockOff
      · rw [cas_hit lockOff lockOn hfree] at hgo
        cases hgo
        obtain ⟨n, hn, hstep⟩ := hview.take (c := c) h hfree (i := i) o
        exact ⟨h.take hfree trivial, n, hn, Or.inr ⟨_, hstep⟩⟩
      · rw [cas_miss hfree] at hgo
        cases hgo
        refine ⟨h.goTo ?_, m, hview.goTo rfl (by rw [hpc]; rfl), Or.inl rfl⟩
        rw [hpc]
        exact Iff.rfl
  | inside o v =>
      obtain ⟨n, hn, hstep⟩ := hview.turn h hpc hgo0
      refine ⟨?_, n, hn, Or.inr ⟨_, hstep⟩⟩
      rw [hpc] at hgo
      dsimp only at hgo
      have hholds : forall pc : Pc op var result, pc.Holds -> (pc.Holds ↔ (s.pcs i).Holds) := by
        intro pc hp
        rw [hpc]
        exact ⟨fun _ => trivial, fun _ => hp⟩
      split at hgo
      · cases hgo
        exact (h.goTo (hholds (Pc.inside o _) trivial)).frame rfl rfl rfl
      · cases hgo
        exact (h.goTo (hholds Pc.leaving trivial)).frame rfl rfl rfl
  | leaving =>
      rw [hpc] at hgo
      have hon : s.word = lockOn := h.word_on (i := i) (by rw [hpc]; trivial)
      have hne : ¬ s.word = lockOff := by
        rw [hon]
        decide
      dsimp only at hgo
      rw [if_neg hne] at hgo
      cases hgo
      refine ⟨h.goTo ?_, m, hview.goTo rfl (by rw [hpc]; rfl), Or.inl rfl⟩
      rw [hpc]
      exact Iff.rfl
  | freeing =>
      rw [hpc] at hgo
      have hholds : (s.pcs i).Holds := by rw [hpc]; trivial
      rw [cas_hit lockOn lockOff (h.word_on hholds)] at hgo
      cases hgo
      refine ⟨h.free_lock hholds, m, ?_, Or.inl rfl⟩
      exact (hview.frame rfl rfl rfl : Views { s with word := lockOff } m).goTo rfl
        (by change (s.pcs i).section = none; rw [hpc]; rfl)

theorem lockStep_spec (h : Exclusive s) (hview : Views s m) {l : thread × Move op}
    (hstep : lockStep c s l = some s') :
    Exclusive s' ∧ exists n, Views s' n ∧ (n = m ∨ exists b, monitorStep c m b = some n) := by
  obtain ⟨i, move⟩ := l
  cases move with
  | on o =>
      simp only [lockStep] at hstep
      split at hstep
      next hpc =>
        cases hstep
        refine ⟨h.goTo ?_, m, hview.goTo rfl (by rw [hpc]; rfl), Or.inl rfl⟩
        rw [hpc]
        exact Iff.rfl
      next => cases hstep
  | tryOn o =>
      simp only [lockStep] at hstep
      split at hstep
      next hpc =>
        split at hstep
        · cases hstep
          refine ⟨h.goTo ?_, m, hview.goTo rfl (by rw [hpc]; rfl), Or.inl rfl⟩
          rw [hpc]
          exact Iff.rfl
        · cases hstep
          exact ⟨h, m, hview, Or.inl rfl⟩
      next => cases hstep
  | go => exact lockGo_spec h hview hstep

end System

/-- In every interleaving at most one thread has the lock, freeing it never waits, and
the protected state is that of whole operations, in the order in which they ended. -/
theorem lock_run {thread state op var result : Type} [DecidableEq thread]
    {c : Code state op var result} {init : state} {s : Locked thread state op var result}
    (hrun : Reaches (lockStep c) Always (lockInit thread init) s) :
    Exclusive s ∧ exists m, Views s m ∧ Serialized c init m := by
  have hview : Views (lockInit thread init : Locked thread state op var result)
      { inside := none, shared := init, log := [] } := by
    refine ⟨rfl, rfl, fun i o v => ?_⟩
    constructor
    · intro hbad
      cases hbad
    · intro hbad
      cases hbad
  obtain ⟨m, ⟨hexclusive, hm⟩, hreach⟩ := Reaches.simulates
    (fun s m => Exclusive s ∧ Views s m)
    (fun s m l t hrel _ hstep => by
      obtain ⟨h', n, hn, hcase⟩ := lockStep_spec hrel.1 hrel.2 hstep
      exact ⟨n, ⟨h', hn⟩, hcase⟩)
    ⟨exclusive_lockInit init, hview⟩ hrun
  exact ⟨hexclusive, m, hm, serialized_run hreach⟩

end Locks
end NgxEpoll
