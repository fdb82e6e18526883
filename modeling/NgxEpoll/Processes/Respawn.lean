import NgxEpoll.Processes.Runs

/-!
# How often a job is started again

`process_reap_workers` does not start a job again in the second in which it was
started last, nor in the next one: a worker that ends at once cannot make the master
process fork without end.
-/

namespace NgxEpoll
namespace Processes

open Foundation
open NgxEpoll.Core

/-- The clock does not go back, and its seconds fit in `restart_gap`. -/
def Forward (m : Master) (a : Action) : Prop :=
  forall second, a = Action.timeUpdate second -> m.tvSec ≤ second ∧ second < 2 ^ 32

/-- A job is started again two seconds after the last start in its slot at the
earliest. -/
structure Paced (m : Master) : Prop where
  apart : m.forks.Pairwise fun later earlier =>
    later.slot = earlier.slot -> later.auto = false -> earlier.second + 2 ≤ later.second
  gap : forall e, e ∈ m.forks -> e.second ≤ (m.processes e.slot).restartGap
  clock : forall s, (m.processes s).restartGap ≤ m.tvSec
  seconds : 0 ≤ m.tvSec ∧ m.tvSec < 2 ^ 32

section Steps

variable {m m' : Master} {s : Nat}

theorem Paced.frame (h : Paced m) (hforks : m'.forks = m.forks) (htv : m'.tvSec = m.tvSec)
    (hgap : forall t, (m'.processes t).restartGap = (m.processes t).restartGap) :
    Paced m' := by
  constructor
  · rw [hforks]
    exact h.apart
  · intro e he
    rw [hforks] at he
    rw [hgap]
    exact h.gap e he
  · intro t
    rw [hgap, htv]
    exact h.clock t
  · rw [htv]
    exact h.seconds

theorem Paced.fork (h : Paced m) {pid : Int} {auto : Bool} {image : Image}
    (hforks : m'.forks =
      { slot := s, pid := pid, second := m.tvSec, auto := auto, image := image } :: m.forks)
    (htv : m'.tvSec = m.tvSec)
    (hgap : (m'.processes s).restartGap = (m.tvSec % 2 ^ 32).toNat)
    (hother : forall t, t ≠ s -> m'.processes t = m.processes t)
    (hlate : auto = false -> maxRestartNum < m.tvSec - (m.processes s).restartGap) :
    Paced m' := by
  have hseconds := h.seconds
  have hnow : ((m'.processes s).restartGap : Int) = m.tvSec := by
    rw [hgap, Int.emod_eq_of_lt hseconds.1 hseconds.2]
    exact Int.toNat_of_nonneg hseconds.1
  have hle : forall e, e ∈ m.forks -> e.second ≤ (m'.processes e.slot).restartGap := by
    intro e he
    have hold := h.gap e he
    rcases Decidable.eq_or_ne e.slot s with heq | hne
    · have hclock := h.clock e.slot
      rw [heq] at hold hclock ⊢
      omega
    · rw [hother _ hne]
      exact hold
  constructor
  · rw [hforks]
    refine List.pairwise_cons.mpr ⟨?_, h.apart⟩
    intro e he hslot hauto
    have hold := h.gap e he
    have hlate := hlate hauto
    unfold maxRestartNum at hlate
    change s = e.slot at hslot
    rw [← hslot] at hold
    change e.second + 2 ≤ m.tvSec
    omega
  · intro e he
    rw [hforks] at he
    rcases List.mem_cons.mp he with rfl | hin
    · exact Int.le_of_eq hnow.symm
    · exact hle e hin
  · intro t
    rw [htv]
    rcases Decidable.eq_or_ne t s with rfl | hne
    · exact Int.le_of_eq hnow
    · rw [hother t hne]
      exact h.clock t
  · rw [htv]
    exact hseconds

theorem restartGap_opening (m : Master) (s slot : Nat) (channel : Int × Int)
    (opened : List Int) (unowned t : Nat) :
    ((opening m s slot channel opened unowned).processes t).restartGap =
      (m.processes t).restartGap := by
  change ((m.setProcess s _).processes t).restartGap = _
  rcases Decidable.eq_or_ne t s with rfl | hne
  · rw [setProcess_same]
  · rw [setProcess_other hne]

theorem Paced.startWorkers (h : Paced m) {k : Kernel} {job : Job} {r : Int}
    (hstart : processStartWorkers m k job = some (m', r)) : Paced m' := by
  have hspawned : forall m1 r1, processSpawn m k job none = some (m1, r1) -> Paced m1 := by
    intro m1 r1 hspawn
    change (if freeSlot m = processesMax then some (m, ngxInvalidPid)
      else spawnAt m k job (freeSlot m) true) = some (m1, r1) at hspawn
    split at hspawn
    · cases hspawn
      exact h
    · obtain ⟨-, hcases⟩ := spawnAt_cases hspawn
      rcases hcases with ⟨-, slot, channel, heq⟩ | ⟨-, a, b, -, -, -, -, heq⟩ |
        ⟨-, -, a, b, -, -, -, -, -, heq⟩
      · subst heq
        exact h.frame rfl rfl (restartGap_opening m _ _ _ _ _)
      · subst heq
        exact h.frame rfl rfl (restartGap_opening m _ _ _ _ _)
      · subst heq
        refine h.fork rfl rfl ?_ (spawned_other m job (freeSlot m) true _ a b)
          (fun hbad => nomatch hbad)
        rw [spawned_at]
  obtain ⟨⟨m1, r1⟩, hspawn, hr⟩ := Option.map_eq_some_iff.mp hstart
  have h1 := hspawned m1 r1 hspawn
  dsimp only at hr
  split at hr
  · cases hr
    exact h1
  · cases hr
    exact h1.frame rfl rfl (fun _ => rfl)

theorem Paced.reapTurn (h : Paced m) (hkept : Kept m) (hs : s < m.processLast)
    {live live' : Bool} {k : Kernel} (hturn : reapTurn m live k s = some (m', live')) :
    Paced m' ∧ Kept m' ∧ m'.processLast = m.processLast := by
  obtain ⟨hkept', hcases⟩ := reapTurn_cases hkept hs hturn
  rcases hcases with ⟨-, heq, -⟩ | ⟨-, -, heq, -⟩ | ⟨-, -, hempty, -⟩ |
    ⟨-, -, hrestarted, -⟩
  · subst heq
    exact ⟨h, hkept', rfl⟩
  · refine ⟨h.frame ?_ ?_ ?_, hkept', ?_⟩
    all_goals rw [heq]
    exact fun _ => rfl
  · refine ⟨h.frame hempty.forks hempty.tvSec ?_, hkept', hempty.last⟩
    intro t
    rcases Decidable.eq_or_ne t s with rfl | hne
    · exact hempty.gap
    · rw [hempty.other t hne]
  · obtain ⟨image, hforks⟩ := hrestarted.forks
    exact ⟨h.fork hforks hrestarted.tvSec hrestarted.gap hrestarted.other
      (fun _ => hrestarted.late), hkept', hrestarted.last⟩

theorem Paced.reapLoop (h : Paced m) (hkept : Kept m) {ks : Nat -> Kernel} {n : Nat}
    (hn : n ≤ m.processLast) {live : Bool} (hloop : reapLoop m ks n = some (m', live)) :
    Paced m' ∧ Kept m' ∧ m'.processLast = m.processLast := by
  induction n generalizing m' live with
  | zero =>
      cases hloop
      exact ⟨h, hkept, rfl⟩
  | succ n ih =>
      obtain ⟨⟨m1, live1⟩, hfirst, hturn⟩ := Option.bind_eq_some_iff.mp hloop
      obtain ⟨h1, hkept1, hlast1⟩ := ih (Nat.le_of_succ_le hn) hfirst
      obtain ⟨h', hkept', hlast'⟩ := h1.reapTurn hkept1 (by omega) hturn
      exact ⟨h', hkept', hlast'.trans hlast1⟩

theorem Paced.masterTurn (h : Paced m) (hsound : Sound m) {ks : Nat -> Kernel}
    (hturn : masterTurn m ks = some m') : Paced m' := by
  unfold Processes.masterTurn at hturn
  split at hturn
  · cases hturn
    exact h
  · split at hturn
    · obtain ⟨m1, hstatus, hreap⟩ := Option.bind_eq_some_iff.mp hturn
      obtain ⟨⟨m2, live⟩, hloop, heq⟩ := Option.map_eq_some_iff.mp hreap
      cases heq
      obtain ⟨hkept1, -, -, -⟩ := getStatusLoop_keeps
        (m := { m with processDoing := m.processDoing &&& ~~~doingReap })
        (hsound.kept.frame rfl rfl rfl (List.Perm.refl _)) hsound.named
        (hsound.mixed 0) hstatus
      obtain ⟨-, htv, hforks, -, -, -, hgap⟩ := getStatusLoop_frame hstatus
      have h1 : Paced m1 := h.frame hforks htv hgap
      exact (h1.reapLoop hkept1 (Nat.le_refl _) hloop).1.frame rfl rfl (fun _ => rfl)
    · split at hturn
      · cases hturn
        exact h.frame rfl rfl (fun _ => rfl)
      · split at hturn
        · cases hturn
          exact h.frame rfl rfl (fun _ => rfl)
        · cases hturn
          exact h

theorem restartGap_signalLoop (hsound : Sound m) (signo : Int) (wrote : Nat -> Bool)
    (n : Nat) :
    (signalLoop m signo wrote n).forks = m.forks ∧
      (signalLoop m signo wrote n).tvSec = m.tvSec ∧
      forall t, ((signalLoop m signo wrote n).processes t).restartGap =
        (m.processes t).restartGap := by
  induction n with
  | zero => exact ⟨rfl, rfl, fun _ => rfl⟩
  | succ n ih =>
      have h1 := (hsound.signalLoop signo wrote n).1
      rw [Processes.signalLoop]
      generalize Processes.signalLoop m signo wrote n = m1 at ih h1 ⊢
      unfold signalTurn
      dsimp only
      split
      next => exact ih
      next hused =>
        rw [if_neg (fun hbad => hbad.1 rfl)]
        have hs : (m1.processes n).Used := fun hbad => hused (Or.inl hbad)
        obtain ⟨-, heq⟩ := h1.kept.after_detach
          (p := { m1.processes n with ps := 0, ow := false }) hs rfl
        rw [heq]
        refine ⟨ih.1, ih.2.1, fun t => ?_⟩
        refine Eq.trans ?_ (ih.2.2 t)
        change ((m1.setProcess n _).processes t).restartGap = _
        rcases Decidable.eq_or_ne t n with rfl | hne
        · rw [setProcess_same]
        · rw [setProcess_other hne]

theorem Paced.step (h : Paced m) (hsound : Sound m) {a : Action}
    (hok : Forward m a) (hstep : step m a = some m') : Paced m' := by
  cases a with
  | startWorkers k job =>
      obtain ⟨⟨m1, r⟩, hstart, heq⟩ := Option.map_eq_some_iff.mp hstep
      cases heq
      exact h.startWorkers hstart
  | timeUpdate second =>
      obtain ⟨hle, hlt⟩ := hok second rfl
      cases hstep
      have hseconds := h.seconds
      constructor
      · exact h.apart
      · exact h.gap
      · exact fun t => Int.le_trans (h.clock t) hle
      · exact ⟨Int.le_trans hseconds.1 hle, hlt⟩
  | childEnds pid status place =>
      cases hstep
      unfold childEnds
      split
      · exact h.frame rfl rfl (fun _ => rfl)
      · exact h
  | setDoing flag =>
      cases hstep
      exact h.frame rfl rfl (fun _ => rfl)
  | turn ks => exact h.masterTurn hsound hstep
  | setOldWorkers =>
      cases hstep
      refine h.frame rfl rfl fun t => ?_
      simp only [processSetOldWorkers]
      split <;> rfl
  | signalWorkers signo wrote =>
      cases hstep
      obtain ⟨hforks, htv, hgap⟩ :=
        restartGap_signalLoop hsound signo wrote m.processLast
      exact h.frame hforks htv hgap

end Steps

/-- In every run, a job is started again two seconds after the last start in its slot
at the earliest. -/
theorem forks_apart {second : Int} {m : Master} (hlo : 0 ≤ second) (hhi : second < 2 ^ 32)
    (hrun : Reaches step Forward (masterInit second) m) :
    m.forks.Pairwise fun later earlier =>
      later.slot = earlier.slot -> later.auto = false ->
        earlier.second + 2 ≤ later.second := by
  have hpaced : Paced m ∧ Sound m := by
    refine hrun.invariant (fun m => Paced m ∧ Sound m) ?_ ?_
    · intro t a u ht hok hstep
      exact ⟨ht.1.step ht.2 hok hstep, (ht.2.next hstep).sound⟩
    · refine ⟨⟨List.Pairwise.nil, ?_, fun _ => hlo, hlo, hhi⟩, sound_masterInit second⟩
      intro e he
      cases he
  exact hpaced.1.apart

theorem forks_apart_again :
    let run := fun m a => after step m [a]
    let started := run (masterInit 0) (Action.startWorkers Kernel.plain emptyProcess.job)
    let ended := run (run started (Action.childEnds 1 0 0)) (Action.timeUpdate 5)
    let m := run (run ended (Action.setDoing doingReap)) (Action.turn fun _ => Kernel.plain)
    m.forks.map Fork.second = [5, 0] ∧
      m.forks.Pairwise fun later earlier =>
        later.slot = earlier.slot -> later.auto = false ->
          earlier.second + 2 ≤ later.second := by
  have hok : forall m a, (forall second, a ≠ Action.timeUpdate second) -> Forward m a :=
    fun m a h second heq => absurd heq (h second)
  refine ⟨by decide +kernel, forks_apart (by decide : (0 : Int) ≤ 0) (by decide) ?_⟩
  refine Reaches.oneLabel ?_ (hok _ _ fun _ h => nomatch h) (by decide +kernel)
  refine Reaches.oneLabel ?_ (hok _ _ fun _ h => nomatch h) (by decide +kernel)
  refine Reaches.oneLabel ?_ ?_ (by decide +kernel)
  · refine Reaches.oneLabel ?_ (hok _ _ fun _ h => nomatch h) (by decide +kernel)
    exact Reaches.oneLabel (Reaches.refl _) (hok _ _ fun _ h => nomatch h)
      (by decide +kernel)
  · intro second heq
    cases heq
    exact ⟨by decide +kernel, by decide⟩

end Processes
end NgxEpoll
