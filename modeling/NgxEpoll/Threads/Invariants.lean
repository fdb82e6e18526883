import NgxEpoll.Threads.System

/-!
# What holds in every state of the threads

Which threads there are, what the flags of a thread say about its place in its
cycle, and what the three counters count.
-/

namespace NgxEpoll
namespace Threads

open Foundation
open NgxEpoll.Core

variable {cfg : Config} {s s' : State} {l : Label}

/-!
## Moves
-/

theorem threadMove_cases {t : Tid} {move : Option (ThreadT × Act)}
    (h : s.threadMove t move = some s') :
    exists th a s1, move = some (th, a) ∧ s.act t a = some s1 ∧
      s' = s1.setThread t th := by
  unfold State.threadMove at h
  cases move with
  | none => cases h
  | some p =>
      have hmap := Option.map_eq_some_iff.mp h
      apply hmap.elim
      intro s1 hs1
      exact ⟨p.1, p.2, s1, rfl, hs1.1, hs1.2.symm⟩

/-- What a thread does to the shared variables, step by step. -/
inductive Acts (s : State) (t : Tid) : Act -> State -> Prop where
  | skip : Acts s t Act.skip s
  | acquire (free : s.lock = none) :
      Acts s t Act.acquire { s with lock := some (Who.thread t) }
  | initialized :
      Acts s t (Act.inc Registration.initialized) { s with curRunning := s.curRunning + 1 }
  | exit : Acts s t (Act.inc Registration.exit) { s with curExited := s.curExited + 1 }
  | signal : Acts s t Act.signal { s with main := s.main.signalled }
  | release : Acts s t Act.release { s with lock := none }

theorem act_cases {t : Tid} {a : Act} (h : s.act t a = some s') : Acts s t a s' := by
  unfold State.act at h
  split at h
  · cases h
    exact Acts.skip
  · split at h
    · next hfree =>
      cases h
      exact Acts.acquire hfree
    · cases h
  · cases h
    exact Acts.initialized
  · cases h
    exact Acts.exit
  · cases h
    exact Acts.signal
  · cases h
    exact Acts.release

structure Acted (s s' : State) : Prop where
  threads : s'.threads = s.threads
  total : s'.total = s.total
  main : s'.main = s.main ∨ s'.main = s.main.signalled

theorem act_frame {t : Tid} {a : Act} (h : s.act t a = some s') : Acted s s' := by
  cases act_cases h with
  | skip => exact ⟨rfl, rfl, Or.inl rfl⟩
  | acquire free => exact ⟨rfl, rfl, Or.inl rfl⟩
  | initialized => exact ⟨rfl, rfl, Or.inl rfl⟩
  | exit => exact ⟨rfl, rfl, Or.inl rfl⟩
  | signal => exact ⟨rfl, rfl, Or.inr rfl⟩
  | release => exact ⟨rfl, rfl, Or.inl rfl⟩

theorem Acted.setThread {s1 : State} (h : Acted s s1) {t : Tid} {th : ThreadT}
    (heq : s' = s1.setThread t th) :
    s'.threads = Function.update s.threads t th ∧
      (s'.main = s.main ∨ s'.main = s.main.signalled) := by
  rw [heq]
  constructor
  · rw [← h.threads]
    rfl
  · exact h.main

inductive Advance (c : Cycle) (th : ThreadT) : ThreadT -> Act -> Prop where
  | start (pc : th.pc = ThreadPc.start) :
      Advance c th { th with pc := ThreadPc.setOk } Act.skip
  | setOk (pc : th.pc = ThreadPc.setOk) :
      Advance c th { th with
        state := ThreadSt.ok
        pc := ThreadPc.register Registration.initialized RegPc.lock } Act.skip
  | lock (r : Registration) (pc : th.pc = ThreadPc.register r RegPc.lock) :
      Advance c th { th with pc := ThreadPc.register r RegPc.inc } Act.acquire
  | initialized (pc : th.pc = ThreadPc.register Registration.initialized RegPc.inc) :
      Advance c th { th with
        registered := true
        pc := ThreadPc.register Registration.initialized RegPc.signal }
        (Act.inc Registration.initialized)
  | exit (pc : th.pc = ThreadPc.register Registration.exit RegPc.inc) :
      Advance c th { th with
        exited := true
        pc := ThreadPc.register Registration.exit RegPc.signal }
        (Act.inc Registration.exit)
  | signal (r : Registration) (pc : th.pc = ThreadPc.register r RegPc.signal) :
      Advance c th { th with pc := ThreadPc.register r RegPc.unlock } Act.signal
  | unlock (r : Registration) (pc : th.pc = ThreadPc.register r RegPc.unlock) :
      Advance c th { th with pc := c.afterRegister r } Act.release
  | notice (pc : th.pc = ThreadPc.notice) :
      Advance c th { th with pc := ThreadPc.running } Act.skip
  | stay (pc : th.pc = ThreadPc.running) (running : th.running = true) :
      Advance c th th Act.skip
  | leave (pc : th.pc = ThreadPc.running) (running : th.running = false) :
      Advance c th { th with pc := ThreadPc.clean } Act.skip
  | clean (pc : th.pc = ThreadPc.clean) :
      Advance c th { th with
        pc := if c.exitFirst then ThreadPc.setExit
          else ThreadPc.register Registration.exit RegPc.lock } Act.skip
  | setExit (pc : th.pc = ThreadPc.setExit) :
      Advance c th { th with
        state := ThreadSt.exit
        pc := if c.exitFirst then ThreadPc.register Registration.exit RegPc.lock
          else ThreadPc.gone } Act.skip

section Advances

variable {c : Cycle} {th th' : ThreadT} {a : Act}

theorem next_cases (h : c.next th = some (th', a)) : Advance c th th' a := by
  unfold Cycle.next at h
  split at h <;> rename_i hpc
  · cases h
  · cases h
    exact Advance.start hpc
  · cases h
    exact Advance.setOk hpc
  · cases h
    exact Advance.lock _ hpc
  · cases h
    exact Advance.initialized hpc
  · cases h
    exact Advance.exit hpc
  · cases h
    exact Advance.signal _ hpc
  · cases h
    exact Advance.unlock _ hpc
  · cases h
    exact Advance.notice hpc
  · split at h
    · next hrunning =>
      cases h
      exact Advance.stay hpc hrunning
    · next hrunning =>
      cases h
      exact Advance.leave hpc (Bool.eq_false_iff.mpr hrunning)
  · have hclean := Advance.clean (c := c) hpc
    split at h
    · next hfirst =>
      cases h
      rw [if_pos hfirst] at hclean
      exact hclean
    · next hfirst =>
      cases h
      rw [if_neg hfirst] at hclean
      exact hclean
  · have hexit := Advance.setExit (c := c) hpc
    split at h
    · next hfirst =>
      cases h
      rw [if_pos hfirst] at hexit
      exact hexit
    · next hfirst =>
      cases h
      rw [if_neg hfirst] at hexit
      exact hexit
  · cases h

theorem fails_cases (h : c.fails th = some (th', a)) :
    th.pc = ThreadPc.start ∧ th' = { th with pc := ThreadPc.clean } ∧ a = Act.skip := by
  unfold Cycle.fails at h
  split at h
  · next hcond =>
    cases h
    exact ⟨hcond.1, rfl, rfl⟩
  · cases h

theorem afterRegister_created (r : Registration) : c.afterRegister r ≠ ThreadPc.absent := by
  cases r with
  | initialized =>
      unfold Cycle.afterRegister
      cases c.notice with
      | true => exact nofun
      | false => exact nofun
  | exit =>
      unfold Cycle.afterRegister
      cases c.exitFirst with
      | true => exact nofun
      | false => exact nofun

theorem move_created (h : c.next th = some (th', a) ∨ c.fails th = some (th', a)) :
    th.pc ≠ ThreadPc.absent ∧ th'.pc ≠ ThreadPc.absent ∧
      th'.counted = th.counted ∧ th'.running = th.running := by
  cases h with
  | inl hnext =>
      cases next_cases hnext with
      | unlock r pc => simp [pc, afterRegister_created]
      | clean pc => cases c.exitFirst <;> simp [pc]
      | setExit pc => cases c.exitFirst <;> simp [pc]
      | _ => simp [*]
  | inr hfails =>
      obtain ⟨hpc, rfl, -⟩ := fails_cases hfails
      simp [hpc]

end Advances

/-!
## The places of the main thread
-/

def Kind.rank : Kind -> Nat
  | Kind.ns => 0
  | Kind.task => 1
  | Kind.cli => 2
  | Kind.worker => 3

/-- The number of threads of a kind, when `i` threads of the kind `k` are there. -/
def Config.phase (cfg : Config) (k : Kind) (i : Nat) (k' : Kind) : Nat :=
  if k'.rank < k.rank then cfg.count k' else if k' = k then i else 0

def MainPc.counted (cfg : Config) : MainPc -> Kind -> Nat
  | MainPc.setup k => cfg.phase k 0
  | MainPc.prepare k i => cfg.phase k i
  | MainPc.spawn k i => cfg.phase k i
  | MainPc.count k i => cfg.phase k i
  | MainPc.refused k i => cfg.phase k i
  | MainPc.wait (WaitFor.registration k) _ => cfg.phase k (cfg.count k)
  | MainPc.verify k _ => cfg.phase k (cfg.count k)
  | MainPc.returned k _ => cfg.phase k (cfg.count k)
  | _ => cfg.count

/-- The threads of a kind that are created: one more than counted, between
`thread_create` and `threads_total_add`. -/
def MainPc.created (cfg : Config) : MainPc -> Kind -> Nat
  | MainPc.count k i => cfg.phase k (i + 1)
  | pc => pc.counted cfg

def MainPc.inBounds (cfg : Config) : MainPc -> Prop
  | MainPc.prepare k i => i ≤ cfg.count k
  | MainPc.spawn k i => i < cfg.count k
  | MainPc.count k i => i < cfg.count k
  | MainPc.refused k i => i ≤ cfg.count k
  | _ => True

theorem phase_lt_succ (k : Kind) (i : Nat) (t : Tid) :
    t.index < cfg.phase k (i + 1) t.kind ↔
      t.index < cfg.phase k i t.kind ∨ t = ⟨k, i⟩ := by
  cases t with
  | mk k' j =>
      simp only [Config.phase, Tid.mk.injEq]
      split
      · next hlt =>
        have hne : k' ≠ k := by
          intro heq
          rw [heq] at hlt
          exact lt_irrefl _ hlt
        simp [hne]
      · split
        · next heq =>
          simp only [heq, true_and]
          omega
        · next hne => simp [hne]

theorem phase_full (k : Kind) :
    (afterCreate k).counted cfg = cfg.phase k (cfg.count k) := by
  funext k'
  cases k <;> cases k' <;> rfl

theorem phase_le {k : Kind} {i : Nat} (hi : i ≤ cfg.count k) (k' : Kind) :
    cfg.phase k i k' ≤ cfg.count k' := by
  unfold Config.phase
  split
  · exact Nat.le_refl _
  · split
    · next heq =>
      rw [heq]
      exact hi
    · exact Nat.zero_le _

theorem created_le {pc : MainPc} (h : pc.inBounds cfg) (k : Kind) :
    pc.created cfg k ≤ cfg.count k := by
  cases pc with
  | setup k' => exact phase_le (Nat.zero_le _) k
  | prepare k' i => exact phase_le h k
  | spawn k' i => exact phase_le (Nat.le_of_lt h) k
  | count k' i => exact phase_le h k
  | wait w p =>
      cases w with
      | registration k' => exact phase_le (Nat.le_refl _) k
      | exit => exact Nat.le_refl _
  | verify k' i => exact phase_le (Nat.le_refl _) k
  | returned k' r => exact phase_le (Nat.le_refl _) k
  | refused k' i => exact phase_le h k
  | channel => exact Nat.le_refl _
  | loop => exact Nat.le_refl _
  | stopWorker i => exact Nat.le_refl _
  | stopNs i => exact Nat.le_refl _
  | ended => exact Nat.le_refl _

theorem signalled_same {α : Type} (f : MainPc -> α)
    (hwait : forall w, f (MainPc.wait w WaitPc.woken) = f (MainPc.wait w WaitPc.asleep))
    (pc : MainPc) : f pc.signalled = f pc := by
  unfold MainPc.signalled
  split
  · exact hwait _
  · rfl

theorem signalled_counted (pc : MainPc) : pc.signalled.counted cfg = pc.counted cfg := by
  apply signalled_same (MainPc.counted cfg)
  intro w
  cases w with
  | registration k => rfl
  | exit => rfl

theorem signalled_created (pc : MainPc) : pc.signalled.created cfg = pc.created cfg := by
  apply signalled_same (MainPc.created cfg)
  intro w
  cases w with
  | registration k => rfl
  | exit => rfl

theorem signalled_inBounds {pc : MainPc} (h : pc.inBounds cfg) :
    pc.signalled.inBounds cfg := by
  unfold MainPc.signalled
  split
  · trivial
  · exact h

def MainPc.stopping : MainPc -> Bool
  | MainPc.stopWorker _ => true
  | MainPc.stopNs _ => true
  | MainPc.wait WaitFor.exit _ => true
  | MainPc.ended => true
  | _ => false

theorem signalled_stopping (pc : MainPc) : pc.signalled.stopping = pc.stopping := by
  apply signalled_same MainPc.stopping
  intro w
  cases w with
  | registration k => rfl
  | exit => rfl

/-- What a step of the main thread does to the threads. -/
inductive MainMove (cfg : Config) (s s' : State) : Prop where
  | idle (threads : s'.threads = s.threads) (total : s'.total = s.total)
      (counted : s'.main.counted cfg = s.main.counted cfg)
      (created : s'.main.created cfg = s.main.created cfg)
      (inBounds : s.main.inBounds cfg -> s'.main.inBounds cfg)
      (spawns : forall k i, s'.main ≠ MainPc.spawn k i)
      (stopping : s'.main.stopping = false -> s.main.stopping = false)
  | prepare (k : Kind) (i : Nat) (hi : i < cfg.count k)
      (main : s.main = MainPc.prepare k i) (main' : s'.main = MainPc.spawn k i)
      (threads : s'.threads = Function.update s.threads ⟨k, i⟩
        { s.threads ⟨k, i⟩ with running := true, state := ThreadSt.unstart })
      (total : s'.total = s.total)
  | spawn (k : Kind) (i : Nat)
      (main : s.main = MainPc.spawn k i) (main' : s'.main = MainPc.count k i)
      (threads : s'.threads = Function.update s.threads ⟨k, i⟩
        { s.threads ⟨k, i⟩ with pc := ThreadPc.start })
      (total : s'.total = s.total)
  | count (k : Kind) (i : Nat)
      (main : s.main = MainPc.count k i) (main' : s'.main = MainPc.prepare k (i + 1))
      (threads : s'.threads = Function.update s.threads ⟨k, i⟩
        { s.threads ⟨k, i⟩ with counted := true })
      (total : s'.total = s.total + 1)
  | stop (t : Tid) (ht : t.kind = Kind.worker ∨ t.kind = Kind.ns)
      (main : s.main.stopping = true) (main' : s'.main.stopping = true)
      (spawns : forall k i, s'.main ≠ MainPc.spawn k i)
      (counted : s'.main.counted cfg = s.main.counted cfg)
      (created : s'.main.created cfg = s.main.created cfg)
      (inBounds : s'.main.inBounds cfg)
      (threads : s'.threads = Function.update s.threads t
        { s.threads t with running := false })
      (total : s'.total = s.total)

theorem afterCreate_created (k : Kind) :
    (afterCreate k).created cfg = (afterCreate k).counted cfg := by
  cases k <;> rfl

theorem afterCreate_inBounds (k : Kind) : (afterCreate k).inBounds cfg := by
  cases k <;> trivial

theorem wait_counted (w : WaitFor) (p p' : WaitPc) :
    (MainPc.wait w p').counted cfg = (MainPc.wait w p).counted cfg := by
  cases w <;> rfl

theorem wait_created (w : WaitFor) (p p' : WaitPc) :
    (MainPc.wait w p').created cfg = (MainPc.wait w p).created cfg := by
  cases w <;> rfl

theorem wait_stopping (w : WaitFor) (p p' : WaitPc)
    (h : (MainPc.wait w p').stopping = false) : (MainPc.wait w p).stopping = false := by
  cases w with
  | registration k => rfl
  | exit => cases h

theorem MainMove.waiting {w : WaitFor} {p p' : WaitPc}
    (hmain : s.main = MainPc.wait w p) (hmain' : s'.main = MainPc.wait w p')
    (hthreads : s'.threads = s.threads) (htotal : s'.total = s.total) :
    MainMove cfg s s' := by
  apply MainMove.idle hthreads htotal
  · rw [hmain, hmain']
    exact wait_counted w p p'
  · rw [hmain, hmain']
    exact wait_created w p p'
  · intro _
    rw [hmain']
    trivial
  · intro k i
    rw [hmain']
    intro h
    cases h
  · rw [hmain, hmain']
    exact wait_stopping w p p'

theorem MainMove.goto {pc : MainPc} (hmain : s.main = pc)
    (hthreads : s'.threads = s.threads) (htotal : s'.total = s.total)
    (hcounted : s'.main.counted cfg = pc.counted cfg)
    (hcreated : s'.main.created cfg = pc.created cfg)
    (hbounds : s'.main.inBounds cfg)
    (hspawns : forall k i, s'.main ≠ MainPc.spawn k i)
    (hstopping : s'.main.stopping = false -> pc.stopping = false) :
    MainMove cfg s s' := by
  subst hmain
  exact MainMove.idle hthreads htotal hcounted hcreated (fun _ => hbounds) hspawns
    hstopping

theorem mainStep_cases (hb : s.main.inBounds cfg) (h : mainStep cfg s = some s') :
    MainMove cfg s s' := by
  unfold mainStep at h
  split at h
  · next k hmain =>
    cases h
    exact MainMove.goto hmain rfl rfl rfl rfl (Nat.zero_le _) nofun fun _ => rfl
  · next k i hmain =>
    split at h
    · next hi =>
      cases h
      exact MainMove.prepare k i hi hmain rfl rfl rfl
    · next hi =>
      cases h
      rw [hmain] at hb
      have heq : i = cfg.count k := Nat.le_antisymm hb (Nat.le_of_not_lt hi)
      subst heq
      exact MainMove.goto hmain rfl rfl rfl rfl trivial nofun fun _ => rfl
  · next k i hmain =>
    cases h
    exact MainMove.spawn k i hmain rfl rfl rfl
  · next k i hmain =>
    cases h
    exact MainMove.count k i hmain rfl rfl rfl
  · next w hmain =>
    split at h
    · cases h
      exact MainMove.waiting hmain rfl rfl rfl
    · cases h
  · next w hmain =>
    split at h
    · cases h
      exact MainMove.waiting hmain rfl rfl rfl
    · cases h
  · next w hmain =>
    split at h
    · cases h
      exact MainMove.waiting hmain rfl rfl rfl
    · cases h
      exact MainMove.waiting hmain rfl rfl rfl
  · cases h
  · next w hmain =>
    cases h
    cases w with
    | registration k =>
        exact MainMove.goto hmain rfl rfl rfl rfl trivial nofun fun _ => rfl
    | exit => exact MainMove.goto hmain rfl rfl rfl rfl trivial nofun nofun
  · next k i hmain =>
    split at h
    · split at h
      · cases h
        exact MainMove.goto hmain rfl rfl rfl rfl trivial nofun fun _ => rfl
      · cases h
        exact MainMove.goto hmain rfl rfl rfl rfl trivial nofun fun _ => rfl
    · cases h
      exact MainMove.goto hmain rfl rfl rfl rfl trivial nofun fun _ => rfl
  · next k r hmain =>
    split at h
    · cases h
      have hcounted : (afterCreate k).counted cfg = cfg.phase k (cfg.count k) :=
        phase_full k
      refine MainMove.goto hmain rfl rfl hcounted ?_ ?_ ?_ ?_
      · rw [afterCreate_created]
        exact hcounted
      · exact afterCreate_inBounds k
      · cases k <;> exact nofun
      · intro _
        rfl
    · cases h
  · cases h
  · next hmain =>
    cases h
    exact MainMove.goto hmain rfl rfl rfl rfl trivial nofun fun _ => rfl
  · next hmain =>
    cases h
    apply MainMove.idle rfl rfl rfl rfl id
    · intro k i
      rw [hmain]
      exact nofun
    · exact id
  · next i hmain =>
    split at h
    · cases h
      refine MainMove.stop ⟨Kind.worker, i⟩ (Or.inl rfl) ?_ rfl nofun ?_ ?_ trivial rfl rfl
      · rw [hmain]
        rfl
      · rw [hmain]
        rfl
      · rw [hmain]
        rfl
    · cases h
      exact MainMove.goto hmain rfl rfl rfl rfl trivial nofun nofun
  · next i hmain =>
    split at h
    · cases h
      refine MainMove.stop ⟨Kind.ns, i⟩ (Or.inr rfl) ?_ rfl nofun ?_ ?_ trivial rfl rfl
      · rw [hmain]
        rfl
      · rw [hmain]
        rfl
      · rw [hmain]
        rfl
    · cases h
      exact MainMove.goto hmain rfl rfl rfl rfl trivial nofun nofun
  · cases h

theorem mainFails_cases (hb : s.main.inBounds cfg) (h : mainFails cfg s = some s') :
    MainMove cfg s s' := by
  unfold mainFails at h
  split at h
  · next k hmain =>
    cases h
    exact MainMove.goto hmain rfl rfl rfl rfl (Nat.zero_le _) nofun fun _ => rfl
  · next i hmain =>
    split at h
    · cases h
      rw [hmain] at hb
      exact MainMove.goto hmain rfl rfl rfl rfl hb nofun fun _ => rfl
    · cases h
  · next k i hmain =>
    cases h
    rw [hmain] at hb
    exact MainMove.goto hmain rfl rfl rfl rfl (Nat.le_of_lt hb) nofun fun _ => rfl
  · next hmain =>
    cases h
    exact MainMove.goto hmain rfl rfl rfl rfl trivial nofun nofun
  · cases h

theorem quit_cases (hmain : s.main = MainPc.loop) :
    MainMove cfg s { s with main := MainPc.stopWorker 0 } :=
  MainMove.goto hmain rfl rfl rfl rfl trivial nofun nofun

theorem signalled_spawns {pc : MainPc} (k : Kind) (i : Nat)
    (h : pc.signalled = MainPc.spawn k i) : pc = MainPc.spawn k i := by
  unfold MainPc.signalled at h
  split at h
  · cases h
  · exact h

/-!
## Waiting and the lock
-/

def MainPc.holds : MainPc -> Bool
  | MainPc.wait _ WaitPc.check => true
  | MainPc.wait _ WaitPc.unlock => true
  | _ => false

def MainPc.started : MainPc -> Bool
  | MainPc.prepare _ _ => false
  | MainPc.spawn _ _ => false
  | MainPc.count _ _ => false
  | MainPc.refused _ _ => false
  | MainPc.wait (WaitFor.registration _) p => decide (p = WaitPc.unlock)
  | _ => true

theorem stopping_started {pc : MainPc} (h : pc.stopping = true) : pc.started = true := by
  cases pc with
  | wait w p =>
      cases w with
      | registration k => cases h
      | exit => rfl
  | stopWorker i => rfl
  | stopNs i => rfl
  | ended => rfl
  | _ => cases h

theorem signalled_started {pc : MainPc} (h : pc.signalled.started = true) :
    pc.started = true := by
  unfold MainPc.signalled at h
  split at h
  · next w =>
    cases w with
    | registration k => cases h
    | exit => rfl
  · exact h

/-- What a step of the main thread does to the counters, the lock and its place. -/
structure MainFrame (cfg : Config) (s s' : State) : Prop where
  curRunning : s'.curRunning = s.curRunning
  curExited : s'.curExited = s.curExited
  lock : (s'.lock = s.lock ∧ (s.main.holds = true -> s'.main.holds = true)) ∨
    s'.lock = none ∨ (s'.lock = some Who.main ∧ s'.main.holds = true)
  started : s'.main.started = true -> s.main.started = true ∨
    (s.total ≤ s.curRunning ∧ s.main.created cfg = s.main.counted cfg)
  asleep : forall w, s'.main = MainPc.wait w WaitPc.asleep ->
    s.counter w < s.total ∧ s'.total = s.total

theorem MainFrame.plain {pc : MainPc} (hmain : s.main = pc) (hholds : pc.holds = false)
    (hrunning : s'.curRunning = s.curRunning) (hexited : s'.curExited = s.curExited)
    (hlock : s'.lock = s.lock)
    (hstarted : s'.main.started = true -> pc.started = true)
    (hasleep : forall w, s'.main ≠ MainPc.wait w WaitPc.asleep) :
    MainFrame cfg s s' := by
  rw [← hmain] at hholds hstarted
  constructor
  · exact hrunning
  · exact hexited
  · left
    constructor
    · exact hlock
    · rw [hholds]
      exact nofun
  · intro h
    exact Or.inl (hstarted h)
  · intro w h
    exact absurd h (hasleep w)

theorem mainStep_frame (h : mainStep cfg s = some s') : MainFrame cfg s s' := by
  unfold mainStep at h
  split at h
  · next k hmain =>
    cases h
    exact MainFrame.plain hmain rfl rfl rfl rfl nofun nofun
  · next k i hmain =>
    split at h
    · cases h
      exact MainFrame.plain hmain rfl rfl rfl rfl nofun nofun
    · cases h
      exact MainFrame.plain hmain rfl rfl rfl rfl nofun nofun
  · next k i hmain =>
    cases h
    exact MainFrame.plain hmain rfl rfl rfl rfl nofun nofun
  · next k i hmain =>
    cases h
    exact MainFrame.plain hmain rfl rfl rfl rfl nofun nofun
  · next w hmain =>
    split at h
    · cases h
      refine ⟨rfl, rfl, Or.inr (Or.inr ⟨rfl, rfl⟩), ?_, nofun⟩
      rw [hmain]
      cases w <;> exact fun hstarted => Or.inl hstarted
    · cases h
  · next w hmain =>
    split at h
    · cases h
      refine ⟨rfl, rfl, Or.inr (Or.inr ⟨rfl, rfl⟩), ?_, nofun⟩
      rw [hmain]
      cases w <;> exact fun hstarted => Or.inl hstarted
    · cases h
  · next w hmain =>
    split at h
    · next hlt =>
      cases h
      refine ⟨rfl, rfl, Or.inr (Or.inl rfl), ?_, ?_⟩
      · rw [hmain]
        cases w <;> exact fun hstarted => Or.inl hstarted
      · intro w' heq
        cases heq
        exact ⟨hlt, rfl⟩
    · next hge =>
      cases h
      refine ⟨rfl, rfl, Or.inl ⟨rfl, fun _ => rfl⟩, ?_, nofun⟩
      rw [hmain]
      cases w with
      | registration k => exact fun _ => Or.inr ⟨Nat.le_of_not_lt hge, rfl⟩
      | exit => exact fun _ => Or.inl rfl
  · cases h
  · next w hmain =>
    cases h
    refine ⟨rfl, rfl, Or.inr (Or.inl rfl), ?_, ?_⟩
    · rw [hmain]
      cases w <;> exact fun _ => Or.inl rfl
    · cases w <;> exact nofun
  · next k i hmain =>
    split at h
    · split at h
      · cases h
        exact MainFrame.plain hmain rfl rfl rfl rfl (fun _ => rfl) nofun
      · cases h
        exact MainFrame.plain hmain rfl rfl rfl rfl (fun _ => rfl) nofun
    · cases h
      exact MainFrame.plain hmain rfl rfl rfl rfl (fun _ => rfl) nofun
  · next k r hmain =>
    split at h
    · cases h
      refine MainFrame.plain hmain rfl rfl rfl rfl (fun _ => rfl) ?_
      cases k <;> exact nofun
    · cases h
  · cases h
  · next hmain =>
    cases h
    exact MainFrame.plain hmain rfl rfl rfl rfl (fun _ => rfl) nofun
  · next hmain =>
    cases h
    refine MainFrame.plain hmain rfl rfl rfl rfl (fun _ => rfl) ?_
    rw [hmain]
    exact nofun
  · next i hmain =>
    split at h
    · cases h
      exact MainFrame.plain hmain rfl rfl rfl rfl (fun _ => rfl) nofun
    · cases h
      exact MainFrame.plain hmain rfl rfl rfl rfl (fun _ => rfl) nofun
  · next i hmain =>
    split at h
    · cases h
      exact MainFrame.plain hmain rfl rfl rfl rfl (fun _ => rfl) nofun
    · cases h
      exact MainFrame.plain hmain rfl rfl rfl rfl (fun _ => rfl) nofun
  · cases h

theorem mainFails_frame (h : mainFails cfg s = some s') : MainFrame cfg s s' := by
  unfold mainFails at h
  split at h
  · next k hmain =>
    cases h
    exact MainFrame.plain hmain rfl rfl rfl rfl nofun nofun
  · next i hmain =>
    split at h
    · cases h
      exact MainFrame.plain hmain rfl rfl rfl rfl nofun nofun
    · cases h
  · next k i hmain =>
    cases h
    exact MainFrame.plain hmain rfl rfl rfl rfl nofun nofun
  · next hmain =>
    cases h
    exact MainFrame.plain hmain rfl rfl rfl rfl (fun _ => rfl) nofun
  · cases h

theorem quit_frame (hmain : s.main = MainPc.loop) :
    MainFrame cfg s { s with main := MainPc.stopWorker 0 } :=
  MainFrame.plain hmain rfl rfl rfl rfl (fun _ => rfl) nofun

/-- A step is a move of the main thread or of one of the others. -/
inductive Move (cfg : Config) (l : Label) (s s' : State) : Prop where
  | main (h : MainMove cfg s s') (frame : MainFrame cfg s s')
  | wake (h : s' = { s with main := s.main.signalled })
  | thread (t : Tid) (th : ThreadT) (a : Act) (s1 : State)
      (next : (runFunc t.kind).next (s.threads t) = some (th, a) ∨
        (runFunc t.kind).fails (s.threads t) = some (th, a))
      (label : (runFunc t.kind).next (s.threads t) = some (th, a) ∨
        l = Label.threadFails t)
      (act : s.act t a = some s1) (eq : s' = s1.setThread t th)

theorem step_cases (hb : s.main.inBounds cfg)
    (h : step cfg s l = some s') : Move cfg l s s' := by
  unfold step at h
  cases l with
  | main => exact Move.main (mainStep_cases hb h) (mainStep_frame h)
  | mainFails => exact Move.main (mainFails_cases hb h) (mainFails_frame h)
  | quit =>
      dsimp only at h
      split at h
      · next hmain =>
        cases h
        exact Move.main (quit_cases hmain) (quit_frame hmain)
      · cases h
  | wake =>
      dsimp only at h
      split at h
      · cases h
      · cases h
        exact Move.wake rfl
  | thread t =>
      have hcases := threadMove_cases h
      obtain ⟨th, a, s1, hnext, hact, heq⟩ := hcases
      exact Move.thread t th a s1 (Or.inl hnext) (Or.inl hnext) hact heq
  | threadFails t =>
      have hcases := threadMove_cases h
      obtain ⟨th, a, s1, hnext, hact, heq⟩ := hcases
      exact Move.thread t th a s1 (Or.inr hnext) (Or.inr rfl) hact heq

/-!
## Which threads there are
-/

structure Placed (cfg : Config) (s : State) : Prop where
  inBounds : s.main.inBounds cfg
  counted : forall t, (s.threads t).counted = true ↔ t.index < s.main.counted cfg t.kind
  created : forall t, (s.threads t).pc ≠ ThreadPc.absent ↔
    t.index < s.main.created cfg t.kind

theorem placed_initial : Placed cfg initial := by
  have hzero : forall t : Tid, ¬ t.index < cfg.phase Kind.ns 0 t.kind := by
    intro t
    unfold Config.phase
    split
    · next hlt => exact absurd hlt (Nat.not_lt_zero _)
    · split
      · exact Nat.not_lt_zero _
      · exact Nat.not_lt_zero _
  constructor
  · trivial
  · intro t
    constructor
    · exact nofun
    · intro h
      exact absurd h (hzero t)
  · intro t
    constructor
    · intro h
      exact absurd rfl h
    · intro h
      exact absurd h (hzero t)

theorem update_counted {f : Tid -> ThreadT} {t : Tid} {th : ThreadT}
    (h : th.counted = (f t).counted) (u : Tid) :
    (Function.update f t th u).counted = (f u).counted := by
  rw [Function.update_apply]
  split
  · next heq => rw [heq, h]
  · rfl

theorem update_created {f : Tid -> ThreadT} {t : Tid} {th : ThreadT}
    (h : th.pc ≠ ThreadPc.absent ↔ (f t).pc ≠ ThreadPc.absent) (u : Tid) :
    (Function.update f t th u).pc ≠ ThreadPc.absent ↔ (f u).pc ≠ ThreadPc.absent := by
  rw [Function.update_apply]
  split
  · next heq =>
    rw [heq]
    exact h
  · exact Iff.rfl

theorem Placed.of_same (h : Placed cfg s) (hb : s'.main.inBounds cfg)
    (hmainCounted : s'.main.counted cfg = s.main.counted cfg)
    (hmainCreated : s'.main.created cfg = s.main.created cfg)
    (hcounted : forall t, (s'.threads t).counted = (s.threads t).counted)
    (hcreated : forall t, (s'.threads t).pc ≠ ThreadPc.absent ↔
      (s.threads t).pc ≠ ThreadPc.absent) : Placed cfg s' := by
  constructor
  · exact hb
  · intro t
    rw [hcounted, hmainCounted]
    exact h.counted t
  · intro t
    rw [hcreated, hmainCreated]
    exact h.created t

theorem Placed.main (h : Placed cfg s) (hmove : MainMove cfg s s') : Placed cfg s' := by
  cases hmove with
  | idle threads total counted created inBounds spawns stopping =>
      apply h.of_same (inBounds h.inBounds) counted created
      · intro t
        rw [threads]
      · intro t
        rw [threads]
  | prepare k i hi main main' threads total =>
      apply h.of_same
      · rw [main']
        exact hi
      · rw [main, main']
        rfl
      · rw [main, main']
        rfl
      · intro t
        rw [threads]
        apply update_counted
        rfl
      · intro t
        rw [threads]
        apply update_created
        exact Iff.rfl
  | spawn k i main main' threads total =>
      have hb := h.inBounds
      rw [main] at hb
      constructor
      · rw [main']
        exact hb
      · intro t
        have hcounted := h.counted t
        rw [main] at hcounted
        rw [threads, main']
        have hsame : (Function.update s.threads ⟨k, i⟩
            { s.threads ⟨k, i⟩ with pc := ThreadPc.start } t).counted =
            (s.threads t).counted := by
          apply update_counted
          rfl
        rw [hsame]
        exact hcounted
      · intro t
        have hcreated := h.created t
        rw [main] at hcreated
        rw [threads, main']
        have hsucc : t.index < MainPc.created cfg (MainPc.count k i) t.kind ↔
            t.index < cfg.phase k i t.kind ∨ t = ⟨k, i⟩ := phase_lt_succ k i t
        rw [hsucc, Function.update_apply]
        split
        · next heq => simp [heq]
        · next hne =>
          simp only [hne, or_false]
          exact hcreated
  | count k i main main' threads total =>
      have hb := h.inBounds
      rw [main] at hb
      constructor
      · rw [main']
        exact hb
      · intro t
        have hcounted := h.counted t
        rw [main] at hcounted
        rw [threads, main']
        have hsucc : t.index < MainPc.counted cfg (MainPc.prepare k (i + 1)) t.kind ↔
            t.index < cfg.phase k i t.kind ∨ t = ⟨k, i⟩ := phase_lt_succ k i t
        rw [hsucc, Function.update_apply]
        split
        · next heq => simp [heq]
        · next hne =>
          simp only [hne, or_false]
          exact hcounted
      · intro t
        have hcreated := h.created t
        rw [main] at hcreated
        rw [threads, main']
        refine Iff.trans ?_ hcreated
        apply update_created
        exact Iff.rfl
  | stop t ht main main' spawns counted created inBounds threads total =>
      apply h.of_same inBounds counted created
      · intro u
        rw [threads]
        apply update_counted
        rfl
      · intro u
        rw [threads]
        apply update_created
        exact Iff.rfl

theorem Placed.step (h : Placed cfg s) (hmove : Move cfg l s s') : Placed cfg s' := by
  cases hmove with
  | main hmain frame => exact h.main hmain
  | wake heq =>
      subst heq
      exact h.of_same (signalled_inBounds h.inBounds) (signalled_counted _)
        (signalled_created _) (fun _ => rfl) (fun _ => Iff.rfl)
  | thread t th a s1 next label act eq =>
      obtain ⟨hthreads, hmain⟩ := (act_frame act).setThread eq
      have hcreated := move_created next
      have hsame : s'.main.inBounds cfg ∧ s'.main.counted cfg = s.main.counted cfg ∧
          s'.main.created cfg = s.main.created cfg := by
        cases hmain with
        | inl heq =>
            rw [heq]
            exact ⟨h.inBounds, rfl, rfl⟩
        | inr heq =>
            rw [heq]
            exact ⟨signalled_inBounds h.inBounds, signalled_counted _, signalled_created _⟩
      apply h.of_same hsame.1 hsame.2.1 hsame.2.2
      · intro u
        rw [hthreads]
        exact update_counted hcreated.2.2.1 u
      · intro u
        rw [hthreads]
        exact update_created ⟨fun _ => hcreated.1, fun _ => hcreated.2.1⟩ u

end Threads
end NgxEpoll
