import NgxEpoll.Threads.Invariants

/-!
# A thread in its cycle

What the flags and the state of a thread say about its place, and which threads
were told to stop.
-/

namespace NgxEpoll
namespace Threads

open Foundation
open NgxEpoll.Core

variable {cfg : Config} {s s' : State} {l : Label}

/-- The thread has left its loop, or has never come to it. -/
def Left (th : ThreadT) : Prop :=
  th.registered = true -> th.running = false

/-- The flags of a thread at its place in the cycle. -/
def Legal (c : Cycle) (th : ThreadT) : Prop :=
  match th.pc with
  | ThreadPc.absent => th.registered = false ∧ th.exited = false
  | ThreadPc.start => th.registered = false ∧ th.exited = false
  | ThreadPc.setOk => th.registered = false ∧ th.exited = false
  | ThreadPc.register Registration.initialized RegPc.lock =>
      th.registered = false ∧ th.exited = false ∧ th.state = ThreadSt.ok
  | ThreadPc.register Registration.initialized RegPc.inc =>
      th.registered = false ∧ th.exited = false ∧ th.state = ThreadSt.ok
  | ThreadPc.register Registration.initialized RegPc.signal =>
      th.registered = true ∧ th.exited = false ∧ th.state = ThreadSt.ok
  | ThreadPc.register Registration.initialized RegPc.unlock =>
      th.registered = true ∧ th.exited = false ∧ th.state = ThreadSt.ok
  | ThreadPc.notice =>
      th.registered = true ∧ th.exited = false ∧ th.state = ThreadSt.ok
  | ThreadPc.running =>
      th.registered = true ∧ th.exited = false ∧ th.state = ThreadSt.ok
  | ThreadPc.clean => Left th ∧ th.exited = false
  | ThreadPc.setExit => Left th ∧ th.exited = !c.exitFirst
  | ThreadPc.register Registration.exit RegPc.lock => Left th ∧ th.exited = false
  | ThreadPc.register Registration.exit RegPc.inc => Left th ∧ th.exited = false
  | ThreadPc.register Registration.exit RegPc.signal => Left th ∧ th.exited = true
  | ThreadPc.register Registration.exit RegPc.unlock => Left th ∧ th.exited = true
  | ThreadPc.gone => Left th ∧ th.exited = true

theorem legal_next {c : Cycle} {th th' : ThreadT} {a : Act} (h : Legal c th)
    (hnext : c.next th = some (th', a)) : Legal c th' := by
  have hadvance := next_cases hnext
  unfold Legal at h
  cases hadvance with
  | start pc =>
      rw [pc] at h
      exact h
  | setOk pc =>
      rw [pc] at h
      exact ⟨h.1, h.2, rfl⟩
  | lock r pc =>
      rw [pc] at h
      cases r with
      | initialized => exact h
      | exit => exact h
  | initialized pc =>
      rw [pc] at h
      exact ⟨rfl, h.2⟩
  | exit pc =>
      rw [pc] at h
      exact ⟨h.1, rfl⟩
  | signal r pc =>
      rw [pc] at h
      cases r with
      | initialized => exact h
      | exit => exact h
  | unlock r pc =>
      rw [pc] at h
      unfold Legal Cycle.afterRegister
      cases r with
      | initialized =>
          cases c.notice with
          | true => exact h
          | false => exact h
      | exit =>
          cases c.exitFirst with
          | true => exact h
          | false => exact h
  | notice pc =>
      rw [pc] at h
      exact h
  | stay pc running =>
      unfold Legal
      exact h
  | leave pc running =>
      rw [pc] at h
      exact ⟨fun _ => running, h.2.1⟩
  | clean pc =>
      rw [pc] at h
      unfold Legal
      cases hfirst : c.exitFirst with
      | true => exact h
      | false => exact h
  | setExit pc =>
      rw [pc] at h
      unfold Legal
      cases hfirst : c.exitFirst with
      | true =>
          rw [hfirst] at h
          exact h
      | false =>
          rw [hfirst] at h
          exact h

theorem legal_fails {c : Cycle} {th th' : ThreadT} {a : Act} (h : Legal c th)
    (hfails : c.fails th = some (th', a)) : Legal c th' := by
  obtain ⟨hpc, rfl, -⟩ := fails_cases hfails
  unfold Legal at h
  rw [hpc] at h
  refine ⟨?_, h.2⟩
  intro hregistered
  exact absurd (h.1.symm.trans hregistered) nofun

theorem Legal.running {c : Cycle} {th : ThreadT} (h : Legal c th)
    (hregistered : th.registered = true) (hrunning : th.running = true) :
    th.state = ThreadSt.ok ∧ th.exited = false ∧
      forall p, th.pc ≠ ThreadPc.register Registration.exit p := by
  have hleft : ¬ Left th := by
    intro hleft
    have hstopped := hleft hregistered
    rw [hrunning] at hstopped
    cases hstopped
  unfold Legal at h
  split at h
  · exact absurd (h.1.symm.trans hregistered) nofun
  · exact absurd (h.1.symm.trans hregistered) nofun
  · exact absurd (h.1.symm.trans hregistered) nofun
  · exact absurd (h.1.symm.trans hregistered) nofun
  · exact absurd (h.1.symm.trans hregistered) nofun
  · next hpc => exact ⟨h.2.2, h.2.1, by simp [hpc]⟩
  · next hpc => exact ⟨h.2.2, h.2.1, by simp [hpc]⟩
  · next hpc => exact ⟨h.2.2, h.2.1, by simp [hpc]⟩
  · next hpc => exact ⟨h.2.2, h.2.1, by simp [hpc]⟩
  all_goals exact absurd h.1 hleft

theorem legal_stop {c : Cycle} {th : ThreadT} (h : Legal c th) :
    Legal c { th with running := false } := by
  unfold Legal at h ⊢
  dsimp only
  split at h
  all_goals first
    | exact h
    | exact ⟨fun _ => rfl, h.2⟩

theorem registered_created {c : Cycle} {th : ThreadT} (h : Legal c th)
    (hregistered : th.registered = true) : th.pc ≠ ThreadPc.absent := by
  intro hpc
  unfold Legal at h
  rw [hpc] at h
  exact absurd (h.1.symm.trans hregistered) nofun

def AllLegal (s : State) : Prop :=
  forall t, Legal (runFunc t.kind) (s.threads t)

theorem allLegal_initial : AllLegal initial :=
  fun _ => ⟨rfl, rfl⟩

theorem AllLegal.update (h : AllLegal s) {t : Tid} {th : ThreadT}
    (hthreads : s'.threads = Function.update s.threads t th)
    (hth : Legal (runFunc t.kind) th) : AllLegal s' := by
  intro u
  rw [hthreads, Function.update_apply]
  split
  · next heq =>
    rw [heq]
    exact hth
  · exact h u

theorem absent_of_legal {c : Cycle} {th : ThreadT} (h : Legal c th)
    (hpc : th.pc = ThreadPc.absent) : th.registered = false ∧ th.exited = false := by
  unfold Legal at h
  rw [hpc] at h
  exact h

theorem Placed.absent (h : Placed cfg s) {k : Kind} {i : Nat}
    (hcreated : s.main.created cfg = cfg.phase k i) :
    (s.threads ⟨k, i⟩).pc = ThreadPc.absent := by
  have hiff := h.created ⟨k, i⟩
  rw [hcreated] at hiff
  have hself : ¬ i < cfg.phase k i k := by
    unfold Config.phase
    rw [if_neg (lt_irrefl _), if_pos rfl]
    exact lt_irrefl _
  by_contra hpc
  exact hself (hiff.mp hpc)

theorem AllLegal.main (h : AllLegal s) (hp : Placed cfg s) (hmove : MainMove cfg s s') :
    AllLegal s' := by
  cases hmove with
  | idle threads total counted created inBounds spawns stopping =>
      intro t
      rw [threads]
      exact h t
  | prepare k i hi main main' threads total =>
      have habsent : (s.threads ⟨k, i⟩).pc = ThreadPc.absent := by
        apply hp.absent
        rw [main]
        rfl
      have hflags := absent_of_legal (h ⟨k, i⟩) habsent
      apply h.update threads
      unfold Legal
      rw [habsent]
      exact hflags
  | spawn k i main main' threads total =>
      have habsent : (s.threads ⟨k, i⟩).pc = ThreadPc.absent := by
        apply hp.absent
        rw [main]
        rfl
      have hflags := absent_of_legal (h ⟨k, i⟩) habsent
      apply h.update threads
      exact hflags
  | count k i main main' threads total =>
      apply h.update threads
      exact h ⟨k, i⟩
  | stop t ht main main' spawns counted created inBounds threads total =>
      apply h.update threads
      exact legal_stop (h t)

theorem AllLegal.step (h : AllLegal s) (hp : Placed cfg s) (hmove : Move cfg l s s') :
    AllLegal s' := by
  cases hmove with
  | main hmain frame => exact h.main hp hmain
  | wake heq =>
      subst heq
      exact h
  | thread t th a s1 next label act eq =>
      have hthreads := ((act_frame act).setThread eq).1
      apply h.update hthreads
      exact next.elim (legal_next (h t)) (legal_fails (h t))

/-!
## Which threads were told to stop
-/

/-- No thread is told to stop before the end, and no task thread and no client
thread ever. -/
structure Told (s : State) : Prop where
  never : forall t, t.kind = Kind.task ∨ t.kind = Kind.cli ->
    (s.threads t).pc ≠ ThreadPc.absent -> (s.threads t).running = true
  late : s.main.stopping = false -> forall t,
    (s.threads t).pc ≠ ThreadPc.absent -> (s.threads t).running = true
  spawn : forall k i, s.main = MainPc.spawn k i -> (s.threads ⟨k, i⟩).running = true

theorem told_initial : Told initial := by
  constructor
  · intro t _ h
    exact absurd rfl h
  · intro _ t h
    exact absurd rfl h
  · intro k i h
    cases h

theorem Told.update (h : Told s) {t : Tid} {th : ThreadT}
    (hthreads : s'.threads = Function.update s.threads t th)
    (hstopping : s'.main.stopping = false -> s.main.stopping = false)
    (hspawn : forall k i, s'.main = MainPc.spawn k i -> (s'.threads ⟨k, i⟩).running = true)
    (hth : th.pc ≠ ThreadPc.absent ->
      (t.kind = Kind.task ∨ t.kind = Kind.cli ∨ s'.main.stopping = false) ->
      th.running = true) : Told s' := by
  constructor
  · intro u hkind
    rw [hthreads, Function.update_apply]
    split
    · next heq =>
      intro hpc
      rw [heq] at hkind
      apply hth hpc
      cases hkind with
      | inl hk => exact Or.inl hk
      | inr hk => exact Or.inr (Or.inl hk)
    · exact h.never u hkind
  · intro hstop u
    rw [hthreads, Function.update_apply]
    split
    · intro hpc
      exact hth hpc (Or.inr (Or.inr hstop))
    · exact h.late (hstopping hstop) u
  · exact hspawn

theorem Told.main (h : Told s) (hp : Placed cfg s) (hmove : MainMove cfg s s') :
    Told s' := by
  cases hmove with
  | idle threads total counted created inBounds spawns stopping =>
      constructor
      · rw [threads]
        exact h.never
      · rw [threads]
        exact fun hstop => h.late (stopping hstop)
      · intro k i hmain
        exact absurd hmain (spawns k i)
  | prepare k i hi main main' threads total =>
      apply h.update threads
      · rw [main]
        exact fun _ => rfl
      · rw [main', threads]
        intro k' i' heq
        cases heq
        rw [Function.update_self]
      · intro _ _
        rfl
  | spawn k i main main' threads total =>
      apply h.update threads
      · rw [main]
        exact fun _ => rfl
      · rw [main']
        exact nofun
      · intro _ _
        exact h.spawn k i main
  | count k i main main' threads total =>
      have hcreated : (s.threads ⟨k, i⟩).pc ≠ ThreadPc.absent := by
        rw [hp.created, main]
        exact (phase_lt_succ k i ⟨k, i⟩).mpr (Or.inr rfl)
      apply h.update threads
      · rw [main]
        exact fun _ => rfl
      · rw [main']
        exact nofun
      · intro _ _
        apply h.late _ _ hcreated
        rw [main]
        rfl
  | stop t ht main main' spawns counted created inBounds threads total =>
      apply h.update threads
      · rw [main']
        exact nofun
      · intro k i hmain
        exact absurd hmain (spawns k i)
      · intro _ hcond
        rw [main'] at hcond
        cases ht with
        | inl hk => simp [hk] at hcond
        | inr hk => simp [hk] at hcond

theorem Told.step (h : Told s) (hp : Placed cfg s) (hmove : Move cfg l s s') :
    Told s' := by
  cases hmove with
  | main hmain frame => exact h.main hp hmain
  | wake heq =>
      subst heq
      constructor
      · exact h.never
      · intro hstop
        apply h.late
        rw [← signalled_stopping]
        exact hstop
      · intro k i hmain
        exact h.spawn k i (signalled_spawns k i hmain)
  | thread t th a s1 next label act eq =>
      obtain ⟨hthreads, hmain⟩ := (act_frame act).setThread eq
      have hcreated := move_created next
      have hstopping : s'.main.stopping = s.main.stopping := by
        cases hmain with
        | inl heq => rw [heq]
        | inr heq => rw [heq, signalled_stopping]
      have hrunning : forall u, (s'.threads u).running = (s.threads u).running := by
        intro u
        rw [hthreads, Function.update_apply]
        split
        · next heq => rw [heq, hcreated.2.2.2]
        · rfl
      apply h.update hthreads
      · rw [hstopping]
        exact id
      · intro k i hspawn
        rw [hrunning]
        apply h.spawn
        cases hmain with
        | inl heq => exact heq.symm.trans hspawn
        | inr heq => exact signalled_spawns k i (heq.symm.trans hspawn)
      · intro _ hcond
        rw [hcreated.2.2.2]
        rw [hstopping] at hcond
        cases hcond with
        | inl hk => exact h.never t (Or.inl hk) hcreated.1
        | inr hcond =>
            cases hcond with
            | inl hk => exact h.never t (Or.inr hk) hcreated.1
            | inr hstop => exact h.late hstop t hcreated.1

end Threads
end NgxEpoll
