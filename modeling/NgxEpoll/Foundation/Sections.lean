import NgxEpoll.Foundation.Loop
import NgxEpoll.Foundation.Runs

/-!
# Critical sections

Threads run operations on a shared state.  An operation accesses the state in many
turns, and turns of different threads come in any order, but a thread enters its
section only when no other thread is inside.  Then the shared state is that of whole
operations, one after the other.

## Whole operations
-/

namespace NgxEpoll
namespace Foundation

variable {thread state op var result : Type}

/-- The code of the operations: the local variables at the start, and one turn. -/
structure Code (state op var result : Type) where
  start : op -> var
  body : var × state -> Turn (var × state) (state × result)

/-- Without other threads, the operation takes `s` to `s'`. -/
def Code.Executes (c : Code state op var result) (o : op) (s s' : state) (r : result) : Prop :=
  exists v t, Turns c.body (c.start o, s) (v, t) ∧ c.body (v, t) = Turn.done (s', r)

inductive Serial (c : Code state op var result) (s : state) :
    List (thread × op × result) -> state -> Prop where
  | nil : Serial c s [] s
  | snoc {log : List (thread × op × result)} {t u : state} {i : thread} {o : op} {r : result} :
      Serial c s log t -> c.Executes o t u r -> Serial c s (log ++ [(i, o, r)]) u

theorem Code.Executes.loop_eq {c : Code state op var result} {Inv : var × state -> Prop}
    {measure : var × state -> Nat} (hlow : Lowers Inv measure c.body)
    (stuck : var × state -> state × result) {o : op} {s s' : state} {r : result}
    (hinit : Inv (c.start o, s)) (h : c.Executes o s s' r) :
    loop measure c.body stuck (c.start o, s) = (s', r) := by
  obtain ⟨v, t, hturns, hdone⟩ := h
  rw [loop_turns hlow stuck hturns hinit]
  exact loop_done stuck hdone

/-!
## Threads that exclude each other
-/

/-- The thread inside with its operation and its variables, the shared state, and the
operations that ended. -/
structure Monitor (thread state op var result : Type) where
  inside : Option (thread × op × var)
  shared : state
  log : List (thread × op × result)

inductive MonitorLabel (thread op : Type) where
  | enter (i : thread) (o : op)
  | turn (i : thread)

variable [DecidableEq thread]

def monitorStep (c : Code state op var result) (m : Monitor thread state op var result) :
    MonitorLabel thread op -> Option (Monitor thread state op var result)
  | MonitorLabel.enter i o =>
      match m.inside with
      | none => some { m with inside := some (i, o, c.start o) }
      | some _ => none
  | MonitorLabel.turn i =>
      match m.inside with
      | some (j, o, v) =>
          if i = j then
            match c.body (v, m.shared) with
            | Turn.next (v', s') => some { m with inside := some (j, o, v'), shared := s' }
            | Turn.done (s', r) =>
                some { inside := none, shared := s', log := m.log ++ [(j, o, r)] }
          else none
      | none => none

/-- The shared state is where the operations of the log lead, and from there the
turns of the thread inside. -/
def Serialized (c : Code state op var result) (s : state)
    (m : Monitor thread state op var result) : Prop :=
  exists t, Serial c s m.log t ∧
    match m.inside with
    | none => m.shared = t
    | some (_, o, v) => Turns c.body (c.start o, t) (v, m.shared)

theorem Serialized.step {c : Code state op var result} {s : state}
    {m m' : Monitor thread state op var result} {l : MonitorLabel thread op}
    (h : Serialized c s m) (hstep : monitorStep c m l = some m') : Serialized c s m' := by
  obtain ⟨t, hserial, hshared⟩ := h
  cases l with
  | enter i o =>
      simp only [monitorStep] at hstep
      split at hstep
      next hnone =>
        cases hstep
        simp only [hnone] at hshared
        refine ⟨t, hserial, ?_⟩
        rw [hshared]
        exact Turns.refl _
      next => cases hstep
  | turn i =>
      simp only [monitorStep] at hstep
      split at hstep
      next j o v hinside =>
        simp only [hinside] at hshared
        split at hstep
        · split at hstep
          next v' s' hbody =>
            cases hstep
            exact ⟨t, hserial, Turns.tail hshared hbody⟩
          next s' r hbody =>
            cases hstep
            exact ⟨s', Serial.snoc hserial ⟨v, m.shared, hshared, hbody⟩, rfl⟩
        · cases hstep
      next => cases hstep

theorem serialized_run {c : Code state op var result} {s : state}
    {m : Monitor thread state op var result}
    (hrun : Reaches (monitorStep c) Always { inside := none, shared := s, log := [] } m) :
    Serialized c s m :=
  hrun.invariant (Serialized c s) (fun _ _ _ h _ hstep => h.step hstep)
    ⟨s, Serial.nil, rfl⟩

/-!
## Simulation
-/

omit [DecidableEq thread] in
/-- A system whose steps are steps of another one, or no steps at all, runs as the
other one does. -/
theorem Reaches.simulates {conc label abs alabel : Type} {cstep : conc -> label -> Option conc}
    {astep : abs -> alabel -> Option abs} {ok : conc -> label -> Prop}
    (Rel : conc -> abs -> Prop)
    (hstep : forall s m a t, Rel s m -> ok s a -> cstep s a = some t ->
      exists n, Rel t n ∧ (n = m ∨ exists b, astep m b = some n))
    {s t : conc} {m : abs} (hinit : Rel s m) (hrun : Reaches cstep ok s t) :
    exists n, Rel t n ∧ Reaches astep Always m n := by
  induction hrun with
  | refl => exact ⟨m, hinit, Reaches.refl m⟩
  | tail _ hok hs ih =>
      obtain ⟨n, hrel, hreach⟩ := ih
      obtain ⟨n', hrel', hcase⟩ := hstep _ _ _ _ hrel hok hs
      rcases hcase with heq | ⟨b, hb⟩
      · rw [heq] at hrel'
        exact ⟨n, hrel', hreach⟩
      · exact ⟨n', hrel', Reaches.tail hreach trivial hb⟩

end Foundation
end NgxEpoll
