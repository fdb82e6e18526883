import NgxEpoll.Threads.Counters

/-!
# The end of the threads

`worker_processer` stops the worker threads and the threads of the name services and
then waits for every thread that was counted.  The task threads and the client
thread are counted too, and nothing stops them.
-/

namespace NgxEpoll
namespace Threads

open Foundation
open NgxEpoll.Core

variable {cfg : Config} {s s' : State}

def WaitsForExit (s : State) : Prop :=
  exists p, s.main = MainPc.wait WaitFor.exit p

/-- While the main thread waits for the exits, every counted thread that has not
registered its exit is told to stop. -/
def ToldToStop (s : State) : Prop :=
  WaitsForExit s -> forall t, (s.threads t).counted = true ->
    (s.threads t).exited = false -> (s.threads t).running = false

theorem Inv.not_told (h : Inv cfg s) (hwait : WaitsForExit s) {t : Tid}
    (hkind : t.kind = Kind.task ∨ t.kind = Kind.cli)
    (hcounted : (s.threads t).counted = true) :
    (s.threads t).exited = false ∧ (s.threads t).running = true := by
  obtain ⟨p, hmain⟩ := hwait
  have hstarted : s.main.started = true := by
    rw [hmain]
    rfl
  have hregistered := h.started hstarted t hcounted
  have hcreated := registered_created (h.legal t) hregistered
  have hrunning := h.told.never t hkind hcreated
  exact ⟨((h.legal t).running hregistered hrunning).2.1, hrunning⟩

theorem Inv.cli_counted (h : Inv cfg s) (hwait : WaitsForExit s) :
    (s.threads ⟨Kind.cli, 0⟩).counted = true := by
  obtain ⟨p, hmain⟩ := hwait
  rw [h.placed.counted, hmain]
  exact Nat.zero_lt_one

/-- In no state that a run reaches, for any number of threads, is every thread told to
stop that the main thread waits for. -/
theorem toldToStop_iff (hrun : Reaches (step cfg) Always initial s) :
    ToldToStop s ↔ ¬ WaitsForExit s := by
  have h : Inv cfg s := reaches_inv hrun
  constructor
  · intro htold hwait
    have hcli := h.cli_counted hwait
    have hgoes := h.not_told hwait (Or.inr rfl) hcli
    have hstopped := htold hwait _ hcli hgoes.1
    rw [hgoes.2] at hstopped
    cases hstopped
  · intro hnot hwait
    exact absurd hwait hnot

theorem Inv.exits_missing (h : Inv cfg s) (hwait : WaitsForExit s) :
    s.curExited < s.total := by
  have hcli := h.cli_counted hwait
  have hgoes := h.not_told hwait (Or.inr rfl) hcli
  obtain ⟨p, hmain⟩ := hwait
  have hcreated : forall t, t ∈ cfg.ids -> (s.threads t).exited = true ->
      (s.threads t).counted = true := by
    intro t ht _
    rw [h.placed.counted, hmain]
    exact mem_ids.mp ht
  by_contra hge
  have hle : s.total ≤ s.curExited := Nat.le_of_not_lt hge
  rw [h.counts.total, h.counts.curExited] at hle
  have hall := forall_of_countOf_le (p := ThreadT.exited) (q := ThreadT.counted)
    hcreated hle
  have hexited := hall ⟨Kind.cli, 0⟩ (mem_ids.mpr Nat.zero_lt_one) hcli
  rw [hgoes.1] at hexited
  cases hexited

/-- The main thread is in `wait_for_thread_exit` and has not seen the last exit. -/
def StillWaits (s : State) : Prop :=
  exists p, s.main = MainPc.wait WaitFor.exit p ∧ p ≠ WaitPc.unlock

theorem stillWaits_signalled (h : StillWaits s) (hmain : s'.main = s.main.signalled) :
    StillWaits s' := by
  obtain ⟨p, hp, hne⟩ := h
  rw [hp] at hmain
  cases p with
  | lock => exact ⟨_, hmain, nofun⟩
  | check => exact ⟨_, hmain, nofun⟩
  | asleep => exact ⟨_, hmain, nofun⟩
  | woken => exact ⟨_, hmain, nofun⟩
  | unlock => exact absurd rfl hne

theorem Inv.stillWaits_step {l : Label} (h : Inv cfg s) (hwait : StillWaits s)
    (hstep : Threads.step cfg s l = some s') : StillWaits s' := by
  have hsignalled := hwait
  obtain ⟨p, hmain, hne⟩ := hwait
  have hmissing := h.exits_missing ⟨p, hmain⟩
  unfold Threads.step at hstep
  cases l with
  | main =>
      simp only [mainStep, hmain] at hstep
      cases p with
      | lock =>
          simp only at hstep
          split at hstep
          · cases hstep
            exact ⟨_, rfl, nofun⟩
          · cases hstep
      | check =>
          have hlt : s.counter WaitFor.exit < s.total := hmissing
          simp only [if_pos hlt] at hstep
          cases hstep
          exact ⟨_, rfl, nofun⟩
      | asleep => cases hstep
      | woken =>
          simp only at hstep
          split at hstep
          · cases hstep
            exact ⟨_, rfl, nofun⟩
          · cases hstep
      | unlock => exact absurd rfl hne
  | mainFails =>
      simp only [mainFails, hmain] at hstep
      cases hstep
  | quit =>
      simp only [hmain] at hstep
      cases hstep
  | wake =>
      dsimp only at hstep
      split at hstep
      · cases hstep
      · cases hstep
        exact stillWaits_signalled hsignalled rfl
  | thread t =>
      obtain ⟨th, a, s1, _, hact, heq⟩ := threadMove_cases hstep
      subst heq
      cases (act_frame hact).main with
      | inl hsame => exact ⟨p, hsame.trans hmain, hne⟩
      | inr hsame => exact stillWaits_signalled hsignalled hsame
  | threadFails t =>
      obtain ⟨th, a, s1, _, hact, heq⟩ := threadMove_cases hstep
      subst heq
      cases (act_frame hact).main with
      | inl hsame => exact ⟨p, hsame.trans hmain, hne⟩
      | inr hsame => exact stillWaits_signalled hsignalled hsame

theorem waits_forever (hrun : Reaches (step cfg) Always initial s) (hwait : StillWaits s)
    (hrun' : Reaches (step cfg) Always s s') : StillWaits s' := by
  have h : Inv cfg s' ∧ StillWaits s' := by
    refine hrun'.invariant (fun s => Inv cfg s ∧ StillWaits s) ?_ ?_
    · intro t l u ht _ hstep
      exact ⟨ht.1.step hstep, ht.1.stillWaits_step ht.2 hstep⟩
    · exact ⟨reaches_inv hrun, hwait⟩
  exact h.2

def small : Config where
  workerN := 1
  nsServiceNum := 1

def registers (t : Tid) : List Label :=
  List.replicate 6 (Label.thread t)

def creates (k : Kind) : List Label :=
  List.replicate 5 Label.main ++ registers ⟨k, 0⟩ ++ List.replicate 6 Label.main

def shutdownRun : List Label :=
  creates Kind.ns ++ creates Kind.task ++ creates Kind.cli ++ creates Kind.worker ++
    [Label.main, Label.quit] ++ List.replicate 6 Label.main

theorem toldToStop_iff_small :
    ToldToStop (after (step small) initial shutdownRun) ↔
      ¬ WaitsForExit (after (step small) initial shutdownRun) :=
  toldToStop_iff ((Reaches.refl _).labels (fun _ _ _ => trivial) (by decide +kernel))

/-- The main thread sleeps, and the client thread was never told to stop. -/
theorem not_toldToStop_small :
    exists s, Reaches (step small) Always initial s ∧
      s.main = MainPc.wait WaitFor.exit WaitPc.asleep ∧ ¬ ToldToStop s := by
  refine ⟨after (step small) initial shutdownRun,
    (Reaches.refl _).labels (fun _ _ _ => trivial) (by decide +kernel),
    by decide +kernel, ?_⟩
  intro htold
  have hstopped := htold ⟨WaitPc.asleep, by decide +kernel⟩ ⟨Kind.cli, 0⟩
    (by decide +kernel) (by decide +kernel)
  exact absurd hstopped (by decide +kernel)

end Threads
end NgxEpoll
