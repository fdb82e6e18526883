import NgxEpoll.Threads.Shutdown

/-!
# The start of the threads

A creation function waits until as many threads have registered as were counted.  A
thread whose initialisation fails is counted and never registers, so that the wait
has no end.
-/

namespace NgxEpoll
namespace Threads

open Foundation
open NgxEpoll.Core

variable {cfg : Config} {s s' : State} {l : Label}

def ThreadPc.settled : ThreadPc -> Bool
  | ThreadPc.absent => false
  | ThreadPc.start => false
  | ThreadPc.setOk => false
  | ThreadPc.register Registration.initialized _ => false
  | _ => true

def Settled (s : State) : Prop :=
  forall t, (s.threads t).pc ≠ ThreadPc.absent -> (s.threads t).pc.settled = true

/-- The thread has left without `register_thread_initialized`. -/
def GaveUp (th : ThreadT) : Prop :=
  th.pc.settled = true ∧ th.registered = false

/-- The main thread is in `wait_for_thread_registration`. -/
def Registers (s : State) : Prop :=
  exists k p, s.main = MainPc.wait (WaitFor.registration k) p

/-- It cannot go on there by itself: it has no step, or its next look at the counters
puts it to sleep. -/
def Blocked (cfg : Config) (s : State) : Prop :=
  Registers s ∧ (mainStep cfg s = none ∨ s.curRunning < s.total)

def MainPc.result : MainPc -> Option (Kind × Int)
  | MainPc.returned k r => some (k, r)
  | MainPc.refused k _ => some (k, ngxError)
  | _ => none

/-- The thread was created and has reached `THREAD_ST_OK`. -/
def Reached (th : ThreadT) : Prop :=
  th.pc ≠ ThreadPc.absent ∧ th.state = ThreadSt.ok

/-- The creation function is about to report the thread as failed. -/
def Reported (cfg : Config) (s : State) (t : Tid) : Prop :=
  s.main = MainPc.verify t.kind t.index ∧ t.index < cfg.count t.kind ∧
    (s.threads t).state ≠ ThreadSt.ok

/-- What the start of the threads is to guarantee in a state. -/
structure StartsRight (cfg : Config) (s : State) : Prop where
  unblocked : Settled s -> ¬ Blocked cfg s
  result : forall k r, s.main.result = some (k, r) ->
    (r = ngxOk ∨ r = ngxError) ∧
      (r = ngxOk ↔ (forall i, s.main ≠ MainPc.refused k i) ∧
        forall i, i < cfg.count k -> Reached (s.threads ⟨k, i⟩))
  reported : forall t, Reported cfg s t ->
    ¬ ((s.threads t).registered = true ∧ (s.threads t).running = true)

/-!
## The wait for the registrations
-/

/-- Without a thread that gave up, the threads that have settled have registered. -/
theorem Inv.registered_all (h : Inv cfg s) (hmain : Registers s) (hsettled : Settled s)
    (hnone : forall t, ¬ GaveUp (s.threads t)) : s.total ≤ s.curRunning := by
  rw [h.counts.total, h.counts.curRunning]
  apply countOf_le
  intro t _ hcounted
  have hcreated : (s.threads t).pc ≠ ThreadPc.absent := by
    obtain ⟨k, p, hp⟩ := hmain
    rw [h.placed.counted, hp] at hcounted
    rw [h.placed.created, hp]
    exact hcounted
  by_contra hregistered
  exact hnone t ⟨hsettled t hcreated, Bool.eq_false_iff.mpr hregistered⟩

theorem Inv.settled_idle (h : Inv cfg s) (hmain : Registers s) (hsettled : Settled s)
    (hnone : forall t, ¬ GaveUp (s.threads t)) (t : Tid) (r : Registration) (p : RegPc) :
    (s.threads t).pc ≠ ThreadPc.register r p := by
  intro hpc
  have hcreated : (s.threads t).pc ≠ ThreadPc.absent := by
    rw [hpc]
    exact nofun
  have hsettledt := hsettled t hcreated
  have hregistered : (s.threads t).registered = true := by
    by_contra hregistered
    exact hnone t ⟨hsettledt, Bool.eq_false_iff.mpr hregistered⟩
  have hrunning : (s.threads t).running = true := by
    apply h.told.late _ t hcreated
    obtain ⟨k, p', hp⟩ := hmain
    rw [hp]
    rfl
  cases r with
  | initialized =>
      rw [hpc] at hsettledt
      cases hsettledt
  | exit => exact ((h.legal t).running hregistered hrunning).2.2 p hpc

theorem Inv.unblocked (h : Inv cfg s) (hsettled : Settled s)
    (hnone : forall t, ¬ GaveUp (s.threads t)) : ¬ Blocked cfg s := by
  intro hblocked
  have hall := h.registered_all hblocked.1 hsettled hnone
  have hidle := h.settled_idle hblocked.1 hsettled hnone
  cases hblocked.2 with
  | inr hlt => exact absurd hlt (Nat.not_lt_of_le hall)
  | inl hstuck =>
      obtain ⟨k, p, hmain⟩ := hblocked.1
      have hfree : p = WaitPc.lock ∨ p = WaitPc.woken -> s.lock = none := by
        intro hp
        cases hlock : s.lock with
        | none => rfl
        | some who =>
            cases who with
            | main =>
                have hholds := h.held.main hlock
                rw [hmain] at hholds
                cases hp with
                | inl heq =>
                    rw [heq] at hholds
                    cases hholds
                | inr heq =>
                    rw [heq] at hholds
                    cases hholds
            | thread t =>
                obtain ⟨r, q, hpc⟩ := h.held.thread t hlock
                exact absurd hpc (hidle t r q)
      simp only [mainStep, hmain] at hstuck
      cases p with
      | lock =>
          simp only [hfree (Or.inl rfl), if_true] at hstuck
          cases hstuck
      | woken =>
          simp only [hfree (Or.inr rfl), if_true] at hstuck
          cases hstuck
      | check =>
          simp only at hstuck
          split at hstuck
          · cases hstuck
          · cases hstuck
      | unlock => cases hstuck
      | asleep =>
          cases h.awake _ hmain with
          | inl hlt => exact absurd hlt (Nat.not_lt_of_le hall)
          | inr hsignalling =>
              obtain ⟨t, r, hpc⟩ := hsignalling
              exact hidle t r _ hpc

theorem Inv.blocked (h : Inv cfg s) (hmain : Registers s) {t : Tid}
    (hgave : GaveUp (s.threads t)) : Blocked cfg s := by
  have hmain' := hmain
  obtain ⟨k, p, hp⟩ := hmain
  have hsame : s.main.created cfg = s.main.counted cfg := by
    rw [hp]
    rfl
  refine ⟨hmain', Or.inr ?_⟩
  by_contra hge
  have hall := h.counts.all_registered h.placed h.legal hsame (Nat.le_of_not_lt hge) t
  have hcreated : (s.threads t).pc ≠ ThreadPc.absent := by
    intro habsent
    have hsettled := hgave.1
    rw [habsent] at hsettled
    cases hsettled
  rw [h.placed.created, hsame, ← h.placed.counted] at hcreated
  have hregistered := hall hcreated
  rw [hgave.2] at hregistered
  cases hregistered

/-!
## The results
-/

theorem Inv.reached (h : Inv cfg s) {k : Kind} {i : Nat} (hi : i < cfg.count k)
    (hcounted : s.main.counted cfg = cfg.phase k (cfg.count k))
    (hstarted : s.main.started = true) (hstopping : s.main.stopping = false) :
    Reached (s.threads ⟨k, i⟩) := by
  have hcount : (s.threads ⟨k, i⟩).counted = true := by
    rw [h.placed.counted, hcounted]
    unfold Config.phase
    rw [if_neg (lt_irrefl _), if_pos rfl]
    exact hi
  have hregistered := h.started hstarted _ hcount
  have hcreated := registered_created (h.legal ⟨k, i⟩) hregistered
  have hrunning := h.told.late hstopping _ hcreated
  exact ⟨hcreated, ((h.legal ⟨k, i⟩).running hregistered hrunning).1⟩

theorem Inv.not_reported (h : Inv cfg s) (t : Tid) : ¬ Reported cfg s t := by
  intro hreported
  have hreached : Reached (s.threads t) := by
    apply h.reached hreported.2.1
    · rw [hreported.1]
      rfl
    · rw [hreported.1]
      rfl
    · rw [hreported.1]
      rfl
  exact hreported.2.2 hreached.2

def ReturnsOk (s : State) : Prop :=
  forall k r, s.main = MainPc.returned k r -> r = ngxOk

theorem signalled_returned {pc : MainPc} {k : Kind} {r : Int}
    (h : pc.signalled = MainPc.returned k r) : pc = MainPc.returned k r := by
  unfold MainPc.signalled at h
  split at h
  · cases h
  · exact h

theorem mainStep_returned (h : Inv cfg s) (hstep : mainStep cfg s = some s') :
    ReturnsOk s' := by
  intro k r hmain'
  unfold mainStep at hstep
  split at hstep
  · cases hstep
    cases hmain'
  · split at hstep
    · cases hstep
      cases hmain'
    · cases hstep
      cases hmain'
  · cases hstep
    cases hmain'
  · cases hstep
    cases hmain'
  · split at hstep
    · cases hstep
      cases hmain'
    · cases hstep
  · split at hstep
    · cases hstep
      cases hmain'
    · cases hstep
  · split at hstep
    · cases hstep
      cases hmain'
    · cases hstep
      cases hmain'
  · cases hstep
  · next w hmain =>
    cases hstep
    cases w with
    | registration k => cases hmain'
    | exit => cases hmain'
  · next k' i hmain =>
    split at hstep
    · next hi =>
      split at hstep
      · cases hstep
        cases hmain'
      · next hstate => exact absurd ⟨hmain, hi, hstate⟩ (h.not_reported ⟨k', i⟩)
    · cases hstep
      cases hmain'
      rfl
  · next k' r' hmain =>
    split at hstep
    · cases hstep
      cases k' <;> cases hmain'
    · cases hstep
  · cases hstep
  · cases hstep
    cases hmain'
  · next hmain =>
    cases hstep
    rw [hmain] at hmain'
    cases hmain'
  · split at hstep
    · cases hstep
      cases hmain'
    · cases hstep
      cases hmain'
  · split at hstep
    · cases hstep
      cases hmain'
    · cases hstep
      cases hmain'
  · cases hstep

theorem Inv.returnsOk_step (h : Inv cfg s) (hok : ReturnsOk s)
    (hstep : Threads.step cfg s l = some s') : ReturnsOk s' := by
  have hsignalled : s'.main = s.main ∨ s'.main = s.main.signalled -> ReturnsOk s' := by
    intro hmain k r hmain'
    apply hok k r
    cases hmain with
    | inl heq => exact heq.symm.trans hmain'
    | inr heq => exact signalled_returned (heq.symm.trans hmain')
  unfold Threads.step at hstep
  cases l with
  | main => exact mainStep_returned h hstep
  | mainFails =>
      intro k r hmain'
      simp only [mainFails] at hstep
      split at hstep
      · cases hstep
        cases hmain'
      · split at hstep
        · cases hstep
          cases hmain'
        · cases hstep
      · cases hstep
        cases hmain'
      · cases hstep
        cases hmain'
      · cases hstep
  | quit =>
      intro k r hmain'
      dsimp only at hstep
      split at hstep
      · cases hstep
        cases hmain'
      · cases hstep
  | wake =>
      dsimp only at hstep
      split at hstep
      · cases hstep
      · cases hstep
        exact hsignalled (Or.inr rfl)
  | thread t =>
      obtain ⟨th, a, s1, _, hact, heq⟩ := threadMove_cases hstep
      subst heq
      exact hsignalled (act_frame hact).main
  | threadFails t =>
      obtain ⟨th, a, s1, _, hact, heq⟩ := threadMove_cases hstep
      subst heq
      exact hsignalled (act_frame hact).main

theorem Inv.result (h : Inv cfg s) (hok : ReturnsOk s) {k : Kind} {r : Int}
    (hresult : s.main.result = some (k, r)) :
    (r = ngxOk ∨ r = ngxError) ∧
      (r = ngxOk ↔ (forall i, s.main ≠ MainPc.refused k i) ∧
        forall i, i < cfg.count k -> Reached (s.threads ⟨k, i⟩)) := by
  cases hmain : s.main with
  | returned k' r' =>
      rw [hmain] at hresult
      cases hresult
      have hr : r = ngxOk := hok k r hmain
      constructor
      · exact Or.inl hr
      · constructor
        · intro _
          refine ⟨nofun, ?_⟩
          intro i hi
          apply h.reached hi
          · rw [hmain]
            rfl
          · rw [hmain]
            rfl
          · rw [hmain]
            rfl
        · intro _
          exact hr
  | refused k' i =>
      rw [hmain] at hresult
      cases hresult
      constructor
      · exact Or.inr rfl
      · constructor
        · exact nofun
        · intro hnot
          exact absurd rfl (hnot.1 i)
  | _ =>
      rw [hmain] at hresult
      cases hresult

/-!
## Runs in which no initialisation fails
-/

def Label.initFails : Label -> Bool
  | Label.threadFails _ => true
  | _ => false

def NoneFails (_ : State) (l : Label) : Prop :=
  l.initFails = false

def Steady (s : State) : Prop :=
  forall t, (s.threads t).pc.settled = true -> (s.threads t).registered = true

theorem next_steady {c : Cycle} {th th' : ThreadT} {a : Act} (h : Legal c th)
    (hsteady : th.pc.settled = true -> th.registered = true)
    (hnext : c.next th = some (th', a)) :
    th'.pc.settled = true -> th'.registered = true := by
  have hkeeps := move_keeps_registered h (Or.inl hnext)
  cases hpc : th.pc.settled with
  | true =>
      intro _
      exact hkeeps (hsteady hpc)
  | false =>
      intro hsettled
      have hadvance := next_cases hnext
      unfold Legal at h
      cases hadvance with
      | start pc => cases hsettled
      | setOk pc => cases hsettled
      | lock r pc =>
          cases r with
          | initialized => cases hsettled
          | exit =>
              rw [pc] at hpc
              cases hpc
      | initialized pc => cases hsettled
      | signal r pc =>
          cases r with
          | initialized => cases hsettled
          | exit =>
              rw [pc] at hpc
              cases hpc
      | unlock r pc =>
          rw [pc] at hpc h
          cases r with
          | initialized => exact h.1
          | exit => cases hpc
      | exit pc | notice pc | stay pc _ | leave pc _ | clean pc | setExit pc =>
          rw [pc] at hpc
          cases hpc

theorem Steady.update (h : Steady s) {t : Tid} {th : ThreadT}
    (hthreads : s'.threads = Function.update s.threads t th)
    (hth : th.pc.settled = true -> th.registered = true) : Steady s' := by
  intro u
  rw [hthreads, Function.update_apply]
  split
  · exact hth
  · exact h u

theorem Steady.step (h : Steady s) (hl : AllLegal s) (hnone : NoneFails s l)
    (hmove : Move cfg l s s') : Steady s' := by
  cases hmove with
  | main hmain frame =>
      cases hmain with
      | idle threads total counted created inBounds spawns stopping =>
          intro t
          rw [threads]
          exact h t
      | prepare k i hi main main' threads total =>
          apply h.update threads
          exact h ⟨k, i⟩
      | spawn k i main main' threads total =>
          apply h.update threads
          exact nofun
      | count k i main main' threads total =>
          apply h.update threads
          exact h ⟨k, i⟩
      | stop t ht main main' spawns counted created inBounds threads total =>
          apply h.update threads
          exact h t
  | wake heq =>
      subst heq
      exact h
  | thread t th a s1 next label act eq =>
      have hthreads := ((act_frame act).setThread eq).1
      apply h.update hthreads
      cases label with
      | inl hnext => exact next_steady (hl t) (h t) hnext
      | inr heq =>
          subst heq
          cases hnone

/-- For any number of threads and any order of their steps, as long as no
initialisation fails: the main thread is not blocked once the threads have settled, a
creation function returns `NGX_OK` just when it created its threads and these reached
`THREAD_ST_OK`, and no running thread is reported. -/
theorem startsRight_of_noneFails (hrun : Reaches (step cfg) NoneFails initial s) :
    StartsRight cfg s := by
  have h : Inv cfg s ∧ ReturnsOk s ∧ Steady s := by
    refine hrun.invariant (fun s => Inv cfg s ∧ ReturnsOk s ∧ Steady s) ?_ ?_
    · intro t l u ht hok hstep
      have hmove := step_cases ht.1.placed.inBounds hstep
      exact ⟨ht.1.step hstep, ht.1.returnsOk_step ht.2.1 hstep,
        ht.2.2.step ht.1.legal hok hmove⟩
    · exact ⟨inv_initial, nofun, fun _ => nofun⟩
  have hnone : forall t, ¬ GaveUp (s.threads t) := by
    intro t hgave
    have hregistered := h.2.2 t hgave.1
    rw [hgave.2] at hregistered
    cases hregistered
  constructor
  · exact fun hsettled => h.1.unblocked hsettled hnone
  · exact fun k r => h.1.result h.2.1
  · exact fun t hreported => absurd hreported (h.1.not_reported t)

/-- When a thread gave up and all have settled, the wait for the registrations is
blocked, in every run. -/
theorem not_startsRight_of_gaveUp (hrun : Reaches (step cfg) Always initial s)
    (hmain : Registers s) (hsettled : Settled s)
    (hgave : exists t, GaveUp (s.threads t)) : ¬ StartsRight cfg s := by
  intro hright
  apply hgave.elim
  intro t ht
  exact hright.unblocked hsettled ((reaches_inv hrun).blocked hmain ht)

theorem startsRight_of_noneFails_small :
    StartsRight small (after (step small) initial shutdownRun) := by
  have hnone : forall l, l ∈ shutdownRun -> l.initFails = false := by decide +kernel
  exact startsRight_of_noneFails
    ((Reaches.refl _).labels (fun l hl _ => hnone l hl) (by decide +kernel))

def failingRun : List Label :=
  creates Kind.ns ++ creates Kind.task ++ List.replicate 5 Label.main ++
    [Label.threadFails ⟨Kind.cli, 0⟩] ++
    List.replicate 6 (Label.thread ⟨Kind.cli, 0⟩) ++ List.replicate 2 Label.main

/-- The client thread leaves, and the main thread sleeps in
`wait_for_thread_registration`. -/
theorem not_startsRight_small :
    exists s, Reaches (step small) Always initial s ∧
      s.main = MainPc.wait (WaitFor.registration Kind.cli) WaitPc.asleep ∧
      ¬ StartsRight small s := by
  have hrun : Reaches (step small) Always initial (after (step small) initial failingRun) :=
    (Reaches.refl _).labels (fun _ _ _ => trivial) (by decide +kernel)
  refine ⟨_, hrun, by decide +kernel, ?_⟩
  intro hright
  have hsettled : Settled (after (step small) initial failingRun) := by
    intro t hpc
    have hall : forall t, t ∈ small.ids ->
        ((after (step small) initial failingRun).threads t).pc ≠ ThreadPc.absent ->
        ((after (step small) initial failingRun).threads t).pc.settled = true := by
      decide +kernel
    exact hall t ((reaches_inv hrun).placed.mem_ids hpc) hpc
  apply hright.unblocked hsettled
  constructor
  · exact ⟨Kind.cli, WaitPc.asleep, by decide +kernel⟩
  · right
    decide +kernel

end Threads
end NgxEpoll
