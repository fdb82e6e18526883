import NgxEpoll.Threads.Cycles

/-!
# The counters and the condition variable

`total_threads`, `cur_runing_threads` and `cur_exited_threads` count threads, and
the main thread sleeps on `init_cond` only while a count is missing or a signal is
on its way.
-/

namespace NgxEpoll
namespace Threads

open Foundation
open NgxEpoll.Core

variable {cfg : Config} {s s' : State} {l : Label}

def Config.ids (cfg : Config) : List Tid :=
  [Kind.ns, Kind.task, Kind.cli, Kind.worker].flatMap
    (fun k => (List.range (cfg.count k)).map (Tid.mk k))

theorem mem_ids {t : Tid} : t ∈ cfg.ids ↔ t.index < cfg.count t.kind := by
  unfold Config.ids
  rw [List.mem_flatMap]
  constructor
  · intro h
    obtain ⟨k, _, hmap⟩ := h
    obtain ⟨i, hi, heq⟩ := List.mem_map.mp hmap
    subst heq
    exact List.mem_range.mp hi
  · intro h
    refine ⟨t.kind, ?_, List.mem_map.mpr ⟨t.index, List.mem_range.mpr h, rfl⟩⟩
    cases t.kind <;> simp

theorem ids_nodup (cfg : Config) : cfg.ids.Nodup := by
  unfold Config.ids
  apply List.nodup_flatMap.mpr
  constructor
  · intro k _
    apply List.Nodup.map _ List.nodup_range
    intro i j h
    cases h
    rfl
  · have hdisjoint : forall k k' : Kind, k ≠ k' ->
        List.Disjoint ((List.range (cfg.count k)).map (Tid.mk k))
          ((List.range (cfg.count k')).map (Tid.mk k')) := by
      intro k k' hne t h h'
      obtain ⟨i, _, heq⟩ := List.mem_map.mp h
      obtain ⟨j, _, heq'⟩ := List.mem_map.mp h'
      subst heq
      cases heq'
      exact hne rfl
    simp [hdisjoint]

structure Counts (cfg : Config) (s : State) : Prop where
  curRunning : s.curRunning = countOf cfg.ids ThreadT.registered s.threads
  curExited : s.curExited = countOf cfg.ids ThreadT.exited s.threads
  total : s.total = countOf cfg.ids ThreadT.counted s.threads

theorem countOf_zero {p : ThreadT -> Bool} (h : p threadZero = false) :
    countOf cfg.ids p initial.threads = 0 := by
  unfold countOf
  rw [List.countP_eq_zero]
  intro t _
  simp [initial, h]

theorem counts_initial : Counts cfg initial := by
  constructor
  · rw [countOf_zero rfl]
    rfl
  · rw [countOf_zero rfl]
    rfl
  · rw [countOf_zero rfl]
    rfl

theorem move_registered {c : Cycle} {th th' : ThreadT} {a : Act} (h : Legal c th)
    (hmove : c.next th = some (th', a) ∨ c.fails th = some (th', a)) :
    if a = Act.inc Registration.initialized then
      th.registered = false ∧ th'.registered = true
    else th'.registered = th.registered := by
  cases hmove with
  | inl hnext =>
      cases next_cases hnext with
      | initialized pc =>
          unfold Legal at h
          rw [pc] at h
          exact ⟨h.1, rfl⟩
      | _ => rfl
  | inr hfails =>
      obtain ⟨-, rfl, rfl⟩ := fails_cases hfails
      rfl

theorem move_exited {c : Cycle} {th th' : ThreadT} {a : Act} (h : Legal c th)
    (hmove : c.next th = some (th', a) ∨ c.fails th = some (th', a)) :
    if a = Act.inc Registration.exit then th.exited = false ∧ th'.exited = true
    else th'.exited = th.exited := by
  cases hmove with
  | inl hnext =>
      cases next_cases hnext with
      | exit pc =>
          unfold Legal at h
          rw [pc] at h
          exact ⟨h.2, rfl⟩
      | _ => rfl
  | inr hfails =>
      obtain ⟨-, rfl, rfl⟩ := fails_cases hfails
      rfl

theorem act_counters {t : Tid} {a : Act} (h : s.act t a = some s') :
    s'.curRunning =
        s.curRunning + (if a = Act.inc Registration.initialized then 1 else 0) ∧
      s'.curExited = s.curExited + (if a = Act.inc Registration.exit then 1 else 0) := by
  cases act_cases h with
  | skip => exact ⟨rfl, rfl⟩
  | acquire free => exact ⟨rfl, rfl⟩
  | initialized => exact ⟨rfl, rfl⟩
  | exit => exact ⟨rfl, rfl⟩
  | signal => exact ⟨rfl, rfl⟩
  | release => exact ⟨rfl, rfl⟩

theorem countOf_raised {p : ThreadT -> Bool} {t : Tid} {th : ThreadT} {b : Prop}
    [Decidable b] (ht : t ∈ cfg.ids)
    (h : if b then p (s.threads t) = false ∧ p th = true
      else p th = p (s.threads t)) :
    countOf cfg.ids p (Function.update s.threads t th) =
      countOf cfg.ids p s.threads + (if b then 1 else 0) := by
  split at h
  · next hb =>
    rw [if_pos hb]
    exact countOf_update_new (ids_nodup cfg) ht h.1 h.2
  · next hb =>
    rw [if_neg hb]
    exact countOf_update_same h

theorem Placed.mem_ids (h : Placed cfg s) {t : Tid}
    (hpc : (s.threads t).pc ≠ ThreadPc.absent) : t ∈ cfg.ids := by
  rw [Threads.mem_ids]
  exact Nat.lt_of_lt_of_le ((h.created t).mp hpc) (created_le h.inBounds t.kind)

theorem Counts.main (h : Counts cfg s) (hp : Placed cfg s) (hmove : MainMove cfg s s')
    (hframe : MainFrame cfg s s') : Counts cfg s' := by
  have hsame : forall {t : Tid} {th : ThreadT},
      s'.threads = Function.update s.threads t th ->
      th.registered = (s.threads t).registered -> th.exited = (s.threads t).exited ->
      s'.total = countOf cfg.ids ThreadT.counted s'.threads -> Counts cfg s' := by
    intro t th hthreads hregistered hexited htotal
    constructor
    · rw [hframe.curRunning, h.curRunning, hthreads, countOf_update_same hregistered]
    · rw [hframe.curExited, h.curExited, hthreads, countOf_update_same hexited]
    · exact htotal
  cases hmove with
  | idle threads total counted created inBounds spawns stopping =>
      constructor
      · rw [hframe.curRunning, threads]
        exact h.curRunning
      · rw [hframe.curExited, threads]
        exact h.curExited
      · rw [total, threads]
        exact h.total
  | prepare k i hi main main' threads total =>
      apply hsame threads rfl rfl
      rw [total, h.total, threads, countOf_update_same]
      rfl
  | spawn k i main main' threads total =>
      apply hsame threads rfl rfl
      rw [total, h.total, threads, countOf_update_same]
      rfl
  | count k i main main' threads total =>
      have hcreated : (s.threads ⟨k, i⟩).pc ≠ ThreadPc.absent := by
        rw [hp.created, main]
        exact (phase_lt_succ k i ⟨k, i⟩).mpr (Or.inr rfl)
      have hnew : (s.threads ⟨k, i⟩).counted = false := by
        rw [Bool.eq_false_iff]
        intro hcounted
        rw [hp.counted, main] at hcounted
        have hself : i < cfg.phase k i k := hcounted
        unfold Config.phase at hself
        rw [if_neg (lt_irrefl _), if_pos rfl] at hself
        exact lt_irrefl _ hself
      apply hsame threads rfl rfl
      rw [total, h.total, threads]
      exact (countOf_update_new (ids_nodup cfg) (hp.mem_ids hcreated) hnew rfl).symm
  | stop t ht main main' spawns counted created inBounds threads total =>
      apply hsame threads rfl rfl
      rw [total, h.total, threads, countOf_update_same]
      rfl

theorem Counts.step (h : Counts cfg s) (hp : Placed cfg s) (hl : AllLegal s)
    (hmove : Move cfg l s s') : Counts cfg s' := by
  cases hmove with
  | main hmain frame => exact h.main hp hmain frame
  | wake heq =>
      subst heq
      exact ⟨h.curRunning, h.curExited, h.total⟩
  | thread t th a s1 next label act eq =>
      have hacted := act_frame act
      have hthreads := (hacted.setThread eq).1
      have hcounters := act_counters act
      have hcreated := move_created next
      have hids := hp.mem_ids hcreated.1
      constructor
      · rw [hthreads, countOf_raised hids (move_registered (hl t) next), ← h.curRunning,
          ← hcounters.1, eq]
        rfl
      · rw [hthreads, countOf_raised hids (move_exited (hl t) next), ← h.curExited,
          ← hcounters.2, eq]
        rfl
      · rw [hthreads, countOf_update_same hcreated.2.2.1, ← h.total, ← hacted.total, eq]
        rfl

/-!
## The condition variable and the lock
-/

/-- When the main thread is behind a wait for the registrations, every thread that is
counted has registered. -/
def Started (s : State) : Prop :=
  s.main.started = true -> forall t, (s.threads t).counted = true ->
    (s.threads t).registered = true

theorem started_initial : Started initial :=
  fun _ _ => nofun

theorem move_keeps_registered {c : Cycle} {th th' : ThreadT} {a : Act} (h : Legal c th)
    (hmove : c.next th = some (th', a) ∨ c.fails th = some (th', a))
    (hregistered : th.registered = true) : th'.registered = true := by
  have hflags := move_registered h hmove
  split at hflags
  · exact hflags.2
  · exact hflags.trans hregistered

theorem Counts.all_registered (h : Counts cfg s) (hp : Placed cfg s) (hl : AllLegal s)
    (hsame : s.main.created cfg = s.main.counted cfg) (hle : s.total ≤ s.curRunning) :
    forall t, (s.threads t).counted = true -> (s.threads t).registered = true := by
  have hcounted : forall t, (s.threads t).pc ≠ ThreadPc.absent ↔
      (s.threads t).counted = true := by
    intro t
    rw [hp.created, hp.counted, hsame]
  rw [h.total, h.curRunning] at hle
  have hall := forall_of_countOf_le (p := ThreadT.registered) (q := ThreadT.counted)
    (fun t _ hregistered => (hcounted t).mp (registered_created (hl t) hregistered)) hle
  intro t ht
  exact hall t (hp.mem_ids ((hcounted t).mpr ht)) ht

theorem Started.update (h : Started s) {t : Tid} {th : ThreadT}
    (hthreads : s'.threads = Function.update s.threads t th)
    (hstarted : s'.main.started = true -> s.main.started = true)
    (hcounted : th.counted = (s.threads t).counted)
    (hregistered : (s.threads t).registered = true -> th.registered = true) :
    Started s' := by
  intro hs' u
  rw [hthreads, Function.update_apply]
  split
  · next heq =>
    rw [heq] at *
    rw [hcounted]
    exact fun hc => hregistered (h (hstarted hs') t hc)
  · exact h (hstarted hs') u

theorem Started.step (h : Started s) (hp : Placed cfg s) (hl : AllLegal s)
    (hc : Counts cfg s) (hmove : Move cfg l s s') : Started s' := by
  cases hmove with
  | main hmain frame =>
      cases hmain with
      | idle threads total counted created inBounds spawns stopping =>
          intro hstarted
          rw [threads]
          cases frame.started hstarted with
          | inl hold => exact h hold
          | inr hwait => exact hc.all_registered hp hl hwait.2 hwait.1
      | prepare k i hi main main' threads total =>
          intro hstarted
          rw [main'] at hstarted
          cases hstarted
      | spawn k i main main' threads total =>
          intro hstarted
          rw [main'] at hstarted
          cases hstarted
      | count k i main main' threads total =>
          intro hstarted
          rw [main'] at hstarted
          cases hstarted
      | stop t ht main main' spawns counted created inBounds threads total =>
          apply h.update threads (fun _ => stopping_started main)
          · rfl
          · exact id
  | wake heq =>
      subst heq
      exact fun hstarted => h (signalled_started hstarted)
  | thread t th a s1 next label act eq =>
      obtain ⟨hthreads, hmain⟩ := (act_frame act).setThread eq
      have hcreated := move_created next
      apply h.update hthreads
      · cases hmain with
        | inl heq =>
            rw [heq]
            exact id
        | inr heq =>
            rw [heq]
            exact signalled_started
      · exact hcreated.2.2.1
      · exact move_keeps_registered (hl t) next

def Signalling (s : State) : Prop :=
  exists t r, (s.threads t).pc = ThreadPc.register r RegPc.signal

/-- The main thread sleeps while a count is missing or a signal is on its way. -/
def Awake (s : State) : Prop :=
  forall w, s.main = MainPc.wait w WaitPc.asleep ->
    s.counter w < s.total ∨ Signalling s

theorem awake_initial : Awake initial :=
  fun _ => nofun

theorem signalled_awake {pc : MainPc} (w : WaitFor) :
    pc.signalled ≠ MainPc.wait w WaitPc.asleep := by
  unfold MainPc.signalled
  split
  · exact nofun
  · next hne =>
    intro heq
    exact hne w heq

theorem move_signal {c : Cycle} {th th' : ThreadT} {a : Act}
    (h : c.next th = some (th', a) ∨ c.fails th = some (th', a)) :
    (forall r, th.pc = ThreadPc.register r RegPc.signal -> a = Act.signal) ∧
      (forall r, a = Act.inc r -> th'.pc = ThreadPc.register r RegPc.signal) := by
  cases h with
  | inl hnext =>
      cases next_cases hnext
      all_goals simp [*]
  | inr hfails =>
      obtain ⟨hpc, rfl, rfl⟩ := fails_cases hfails
      simp [hpc]

theorem act_awake {t : Tid} {a : Act} (h : s.act t a = some s') :
    (a = Act.signal ∧ s'.main = s.main.signalled) ∨ s'.main = s.main ∧ a ≠ Act.signal := by
  cases act_cases h with
  | skip => exact Or.inr ⟨rfl, nofun⟩
  | acquire free => exact Or.inr ⟨rfl, nofun⟩
  | initialized => exact Or.inr ⟨rfl, nofun⟩
  | exit => exact Or.inr ⟨rfl, nofun⟩
  | signal => exact Or.inl ⟨rfl, rfl⟩
  | release => exact Or.inr ⟨rfl, nofun⟩

theorem Awake.step (h : Awake s) (hmove : Move cfg l s s') : Awake s' := by
  cases hmove with
  | main hmain frame =>
      intro w hasleep
      have hwait := frame.asleep w hasleep
      left
      rw [hwait.2]
      cases w with
      | registration k =>
          have hlt : s.curRunning < s.total := hwait.1
          rw [← frame.curRunning] at hlt
          exact hlt
      | exit =>
          have hlt : s.curExited < s.total := hwait.1
          rw [← frame.curExited] at hlt
          exact hlt
  | wake heq =>
      subst heq
      intro w hasleep
      exact absurd hasleep (signalled_awake w)
  | thread t th a s1 next label act eq =>
      have hacted := act_frame act
      have hthreads := (hacted.setThread eq).1
      have hsignal := move_signal next
      have hmain' : s'.main = s1.main := by
        rw [eq]
        rfl
      intro w hasleep
      rw [hmain'] at hasleep
      cases act_awake act with
      | inl hsig =>
          rw [hsig.2] at hasleep
          exact absurd hasleep (signalled_awake w)
      | inr hkeep =>
          rw [hkeep.1] at hasleep
          -- A count moves the thread to its signal, and nothing else moves one away.
          by_cases hinc : exists r, a = Act.inc r
          · obtain ⟨r, hr⟩ := hinc
            right
            refine ⟨t, r, ?_⟩
            rw [hthreads, Function.update_self]
            exact hsignal.2 r hr
          · have hcounters := act_counters act
            rw [if_neg (fun heq => hinc ⟨_, heq⟩), if_neg (fun heq => hinc ⟨_, heq⟩)]
              at hcounters
            have hcounter : s'.counter w = s.counter w := by
              rw [eq]
              cases w with
              | registration k => exact hcounters.1
              | exit => exact hcounters.2
            have htotal : s'.total = s.total := by
              rw [eq]
              exact hacted.total
            cases h w hasleep with
            | inl hlt =>
                left
                rw [hcounter, htotal]
                exact hlt
            | inr hsignalling =>
                right
                obtain ⟨u, r, hpc⟩ := hsignalling
                refine ⟨u, r, ?_⟩
                rw [hthreads, Function.update_apply]
                split
                · next heq =>
                  rw [heq] at hpc
                  exact absurd (hsignal.1 r hpc) hkeep.2
                · exact hpc

structure Held (s : State) : Prop where
  main : s.lock = some Who.main -> s.main.holds = true
  thread : forall t, s.lock = some (Who.thread t) ->
    exists r p, (s.threads t).pc = ThreadPc.register r p

theorem held_initial : Held initial :=
  ⟨nofun, fun _ => nofun⟩

theorem signalled_holds {pc : MainPc} (h : pc.holds = true) :
    pc.signalled.holds = true := by
  unfold MainPc.signalled
  split
  · cases h
  · exact h

theorem move_lock {c : Cycle} {th th' : ThreadT} {a : Act}
    (h : c.next th = some (th', a) ∨ c.fails th = some (th', a)) :
    (a = Act.acquire -> exists r p, th'.pc = ThreadPc.register r p) ∧
      (a ≠ Act.release -> (exists r p, th.pc = ThreadPc.register r p) ->
        exists r p, th'.pc = ThreadPc.register r p) := by
  cases h with
  | inl hnext =>
      cases next_cases hnext
      all_goals simp [*]
  | inr hfails =>
      obtain ⟨hpc, rfl, rfl⟩ := fails_cases hfails
      simp [hpc]

theorem act_lock {t : Tid} {a : Act} (h : s.act t a = some s') :
    (a = Act.acquire ∧ s'.lock = some (Who.thread t)) ∨
      (a = Act.release ∧ s'.lock = none) ∨
      (a ≠ Act.release ∧ s'.lock = s.lock) := by
  cases act_cases h with
  | skip => exact Or.inr (Or.inr ⟨nofun, rfl⟩)
  | acquire free => exact Or.inl ⟨rfl, rfl⟩
  | initialized => exact Or.inr (Or.inr ⟨nofun, rfl⟩)
  | exit => exact Or.inr (Or.inr ⟨nofun, rfl⟩)
  | signal => exact Or.inr (Or.inr ⟨nofun, rfl⟩)
  | release => exact Or.inr (Or.inl ⟨rfl, rfl⟩)

theorem Held.main_step (h : Held s) (hmove : MainMove cfg s s')
    (hframe : MainFrame cfg s s') (hp : Placed cfg s) : Held s' := by
  have hpcs : forall t, (exists r p, (s.threads t).pc = ThreadPc.register r p) ->
      exists r p, (s'.threads t).pc = ThreadPc.register r p := by
    have hkeep : forall {t : Tid} {th : ThreadT},
        s'.threads = Function.update s.threads t th ->
        (th.pc = (s.threads t).pc ∨ (s.threads t).pc = ThreadPc.absent) ->
        forall u, (exists r p, (s.threads u).pc = ThreadPc.register r p) ->
          exists r p, (s'.threads u).pc = ThreadPc.register r p := by
      intro t th hthreads hpc u hu
      rw [hthreads, Function.update_apply]
      split
      · next heq =>
        rw [heq] at hu
        cases hpc with
        | inl hsame =>
            rw [hsame]
            exact hu
        | inr habsent =>
            obtain ⟨r, p, hregister⟩ := hu
            rw [habsent] at hregister
            cases hregister
      · exact hu
    cases hmove with
    | idle threads total counted created inBounds spawns stopping =>
        intro t
        rw [threads]
        exact id
    | prepare k i hi main main' threads total =>
        apply hkeep threads
        left
        rfl
    | spawn k i main main' threads total =>
        apply hkeep threads
        right
        apply hp.absent
        rw [main]
        rfl
    | count k i main main' threads total =>
        apply hkeep threads
        left
        rfl
    | stop t ht main main' spawns counted created inBounds threads total =>
        apply hkeep threads
        left
        rfl
  cases hframe.lock with
  | inl hsame =>
      constructor
      · rw [hsame.1]
        exact fun hlock => hsame.2 (h.main hlock)
      · rw [hsame.1]
        exact fun t hlock => hpcs t (h.thread t hlock)
  | inr hchange =>
      cases hchange with
      | inl hnone =>
          constructor
          · rw [hnone]
            exact nofun
          · rw [hnone]
            exact fun _ => nofun
      | inr htaken =>
          constructor
          · exact fun _ => htaken.2
          · rw [htaken.1]
            exact fun _ => nofun

theorem Held.step (h : Held s) (hp : Placed cfg s) (hmove : Move cfg l s s') : Held s' := by
  cases hmove with
  | main hmain frame => exact h.main_step hmain frame hp
  | wake heq =>
      subst heq
      exact ⟨fun hlock => signalled_holds (h.main hlock), h.thread⟩
  | thread t th a s1 next label act eq =>
      obtain ⟨hthreads, hmain⟩ := (act_frame act).setThread eq
      have hlock' : s'.lock = s1.lock := by
        rw [eq]
        rfl
      have hmoves := move_lock next
      cases act_lock act with
      | inl hacquire =>
          constructor
          · rw [hlock', hacquire.2]
            exact nofun
          · rw [hlock', hacquire.2]
            intro u heq
            cases heq
            rw [hthreads, Function.update_self]
            exact hmoves.1 hacquire.1
      | inr hrest =>
          cases hrest with
          | inl hrelease =>
              constructor
              · rw [hlock', hrelease.2]
                exact nofun
              · rw [hlock', hrelease.2]
                exact fun _ => nofun
          | inr hsame =>
              constructor
              · rw [hlock', hsame.2]
                intro hlock
                cases hmain with
                | inl heq =>
                    rw [heq]
                    exact h.main hlock
                | inr heq =>
                    rw [heq]
                    exact signalled_holds (h.main hlock)
              · rw [hlock', hsame.2]
                intro u hlock
                have hold := h.thread u hlock
                rw [hthreads, Function.update_apply]
                split
                · next heq =>
                  rw [heq] at hold
                  exact hmoves.2 hsame.1 hold
                · exact hold

/-!
## Runs
-/

structure Inv (cfg : Config) (s : State) : Prop where
  placed : Placed cfg s
  legal : AllLegal s
  told : Told s
  counts : Counts cfg s
  started : Started s
  awake : Awake s
  held : Held s

theorem inv_initial : Inv cfg initial where
  placed := placed_initial
  legal := allLegal_initial
  told := told_initial
  counts := counts_initial
  started := started_initial
  awake := awake_initial
  held := held_initial

theorem Inv.step (h : Inv cfg s) (hstep : step cfg s l = some s') :
    Inv cfg s' := by
  have hmove := step_cases h.placed.inBounds hstep
  constructor
  · exact h.placed.step hmove
  · exact h.legal.step h.placed hmove
  · exact h.told.step h.placed hmove
  · exact h.counts.step h.placed h.legal hmove
  · exact h.started.step h.placed h.legal h.counts hmove
  · exact h.awake.step hmove
  · exact h.held.step h.placed hmove

theorem reaches_inv {ok : State -> Label -> Prop}
    (h : Reaches (step cfg) ok initial s) : Inv cfg s :=
  h.invariant (Inv cfg) (fun _ _ _ hinv _ hstep => hinv.step hstep) inv_initial

end Threads
end NgxEpoll
