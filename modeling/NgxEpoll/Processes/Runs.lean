import NgxEpoll.Processes.Reaping

/-!
# Runs of the master process

Whatever the order in which workers are started, end, are waited for and started
again, the table tells the children and the open channels.

## One step
-/

namespace NgxEpoll
namespace Processes

open Foundation
open NgxEpoll.Core

section Steps

variable {m m' : Master} {a : Action}

/-- The action does not make the master process forget a child. -/
def Action.Quiet (a : Action) : Prop :=
  forall signo wrote, a ≠ Action.signalWorkers signo wrote

theorem Sound.held_pidsOf (h : Sound m) : m.held pidsOf = m.held waitedOf := by
  refine gather_congr fun s _ => ?_
  rcases Decidable.em (m.processes s).Used with hused | hunused
  · have hps : (m.processes s).ps &&& statusExited = 0 := by
      rw [h.running s hused]
      decide
    rw [waitedOf_running hused hps]
    exact if_pos hused
  · rw [waitedOf_unused hunused]
    exact if_neg hunused

theorem Sound.named (h : Sound m) : Named m := by
  unfold Named
  rw [h.held_pidsOf]
  exact h.kept.children.nodup_iff.mp h.kept.children_nodup

theorem Sound.startWorkers (h : Sound m) (k : Kernel) (job : Job) :
    exists m' r, processStartWorkers m k job = some (m', r) ∧ Sound m' ∧
      m'.forgotten = m.forgotten ∧ m.processLast ≤ m'.processLast := by
  have hbroadcast : forall m1 slot command, Sound m1 ->
      Sound (processBroadcast m1 slot command) := fun m1 _ _ h1 =>
    ⟨h1.kept.frame rfl rfl rfl (List.Perm.refl _), h1.running⟩
  suffices hspawn : exists m1 r, processSpawn m k job none = some (m1, r) ∧
      Sound m1 ∧ m1.forgotten = m.forgotten ∧ m.processLast ≤ m1.processLast by
    obtain ⟨m1, r, hspawn, h1, hsame⟩ := hspawn
    unfold processStartWorkers
    rw [hspawn, Option.map_some]
    dsimp only
    split
    · exact ⟨m1, ngxError, rfl, h1, hsame⟩
    · exact ⟨_, ngxOk, rfl, hbroadcast m1 _ _ h1, hsame⟩
  obtain ⟨hle, hfree⟩ := freeSlot_free h.kept
  have hlast := h.kept.last_le
  change exists m1 r, (if freeSlot m = processesMax then some (m, ngxInvalidPid)
    else spawnAt m k job (freeSlot m) true) = some (m1, r) ∧ Sound m1 ∧
      m1.forgotten = m.forgotten ∧ m.processLast ≤ m1.processLast
  split
  · exact ⟨m, ngxInvalidPid, rfl, h, rfl, Nat.le_refl _⟩
  next hmax =>
    obtain ⟨⟨m1, r⟩, hspawn⟩ := Option.isSome_iff_exists.mp
      (spawnAt_isSome (by omega : freeSlot m < processesMax) m k job true)
    refine ⟨m1, r, hspawn, ?_⟩
    have hkeep : forall slot channel opened unowned t,
        ((opening m (freeSlot m) slot channel opened unowned).processes t).Used ->
          ((opening m (freeSlot m) slot channel opened unowned).processes t).ps =
            statusRunning := by
      intro slot channel opened unowned t ht
      have hused := (opening_used hfree).mp ht
      change ((m.setProcess (freeSlot m) _).processes t).ps = _
      have hne : t ≠ freeSlot m := fun hbad => hfree (hbad ▸ hused)
      rw [setProcess_other hne]
      exact h.running t hused
    obtain ⟨hlt, hcases⟩ := spawnAt_cases hspawn
    rcases hcases with ⟨-, slot, channel, heq⟩ | ⟨-, a, b, ha, hb, hab, hvalid, heq⟩ |
      ⟨hr, hfresh, a, b, ha, hb, hab, hafile, hbfile, heq⟩
    · subst heq
      exact ⟨⟨h.kept.after_opening hfree slot channel [] (List.nil_append _).symm
        h.kept.opened_nodup List.not_mem_nil (Nat.zero_add _), hkeep _ _ _ _⟩, rfl,
        Nat.le_refl _⟩
    · subst heq
      refine ⟨⟨h.kept.after_opening hfree _ (a, b) [a, b] rfl ?_ hvalid ?_, hkeep _ _ _ _⟩, rfl,
        Nat.le_refl _⟩
      · refine List.nodup_cons.mpr ⟨?_, List.nodup_cons.mpr ⟨hb, h.kept.opened_nodup⟩⟩
        intro hmem
        rcases List.mem_cons.mp hmem with hbad | hbad
        · exact hab hbad
        · exact ha hbad
      · simp only [List.length_cons, List.length_nil]
        omega
    · subst heq
      refine ⟨⟨h.kept.after_spawned hfree hle hlt ha hb hab hr hfresh hafile hbfile, ?_⟩, rfl,
        (spawned_last_le hle job true r a b).1⟩
      intro t ht
      rcases Decidable.eq_or_ne t (freeSlot m) with rfl | hne
      · rw [spawned_at]
      · rw [spawned_other _ _ _ _ _ _ _ _ hne] at ht ⊢
        exact h.running t ht

theorem children_childEnds (m : Master) (pid status : Int) (place : Nat) :
    (childEnds m pid status place).children.Perm m.children := by
  unfold childEnds
  split
  next hin =>
    have hmem : pid ∈ m.running := List.contains_iff_mem.mp hin
    have hended : ((m.ended.take place ++ (pid, status) :: m.ended.drop place).map
        Prod.fst).Perm (pid :: m.ended.map Prod.fst) := by
      rw [List.map_append, List.map_cons]
      refine List.perm_middle.trans ?_
      rw [← List.map_append, List.take_append_drop]
    change (m.running.erase pid ++ _).Perm (m.running ++ m.ended.map Prod.fst)
    refine (hended.append_left _).trans (List.perm_middle.trans ?_)
    exact ((List.perm_cons_erase hmem).append_right _).symm
  next => exact List.Perm.refl _

theorem Sound.childEnds (h : Sound m) (pid status : Int) (place : Nat) :
    Sound (childEnds m pid status place) := by
  have hchildren := children_childEnds m pid status place
  unfold Processes.childEnds at hchildren ⊢
  split
  next hin =>
    rw [if_pos hin] at hchildren
    exact ⟨h.kept.frame rfl rfl rfl hchildren, h.running⟩
  next => exact h

theorem Sound.setOldWorkers (h : Sound m) : Sound (processSetOldWorkers m) := by
  have hat : forall s, exists ow,
      (processSetOldWorkers m).processes s = { m.processes s with ow := ow } := by
    intro s
    simp only [processSetOldWorkers]
    split
    · exact ⟨true, rfl⟩
    · exact ⟨(m.processes s).ow, rfl⟩
  constructor
  · refine h.kept.congr (fun s => ?_) (fun s => ?_) (fun s => ?_) rfl rfl rfl rfl
      rfl rfl (List.Perm.refl _)
    all_goals
      obtain ⟨ow, heq⟩ := hat s
      rw [heq]
    · exact id
    · rfl
    · rfl
  · intro s hs
    obtain ⟨ow, heq⟩ := hat s
    rw [heq] at hs ⊢
    exact h.running s hs

/-- A slot below `n` that `process_set_old_workers` marked has the child: these are the
slots that `process_signal_workers` gives up. -/
def Old (m : Master) (n : Nat) (pid : Int) : Prop :=
  exists s, s < n ∧ (m.processes s).Used ∧ (m.processes s).ow = true ∧
    (m.processes s).pid = pid

theorem old_succ_iff (m : Master) (n : Nat) (pid : Int) :
    Old m (n + 1) pid ↔ Old m n pid ∨
      (m.processes n).Used ∧ (m.processes n).ow = true ∧ (m.processes n).pid = pid := by
  constructor
  · intro hex
    obtain ⟨s, hs, hrest⟩ := hex
    rcases Nat.lt_succ_iff_lt_or_eq.mp hs with hlt | rfl
    · exact Or.inl ⟨s, hlt, hrest⟩
    · exact Or.inr hrest
  · intro hor
    rcases hor with ⟨s, hs, hrest⟩ | hrest
    · exact ⟨s, Nat.lt_succ_of_lt hs, hrest⟩
    · exact ⟨n, Nat.lt_succ_self n, hrest⟩

/-- A turn of `process_signal_workers` gives slot `n` up and forgets its child where the
slot is an old one; other slots stay. -/
theorem Sound.signalTurn (h : Sound m) (signo : Int) (wrote : Bool) (n : Nat) :
    let m' := signalTurn m signo wrote n
    Sound m' ∧ m'.processLast = m.processLast ∧
      (forall t, t ≠ n -> m'.processes t = m.processes t) ∧
      ((m'.processes n).Used -> (m.processes n).ow = false) ∧
      forall pid, pid ∈ m'.forgotten ↔ pid ∈ m.forgotten ∨
        (m.processes n).Used ∧ (m.processes n).ow = true ∧ (m.processes n).pid = pid := by
  unfold Processes.signalTurn
  dsimp only
  split
  next hskip =>
    refine ⟨h, rfl, fun _ _ => rfl, hskip.resolve_left, fun pid => (or_iff_left ?_).symm⟩
    intro hbad
    rcases hskip with hfree | how
    · exact hbad.1 hfree
    · rw [hbad.2.1] at how
      cases how
  next htaken =>
    rw [if_neg (fun hbad => hbad.1 rfl)]
    have hs : (m.processes n).Used := fun hbad => htaken (Or.inl hbad)
    have how : (m.processes n).ow = true :=
      (Bool.not_eq_false _).mp fun hbad => htaken (Or.inr hbad)
    obtain ⟨hkept, heq⟩ := h.kept.after_detach
      (p := { m.processes n with ps := 0, ow := false }) hs rfl
    have hps : (m.processes n).ps &&& statusExited = 0 := by
      rw [h.running n hs]
      decide
    rw [waitedOf_running hs hps] at hkept
    generalize detach m n { m.processes n with ps := 0, ow := false } = m' at hkept heq ⊢
    have hother : forall t, t ≠ n -> m'.processes t = m.processes t := by
      intro t ht
      rw [heq]
      exact setProcess_other ht
    have hgone : ¬ (m'.processes n).Used := by
      rw [heq]
      change ¬ ((m.setProcess n _).processes n).Used
      rw [setProcess_same]
      exact fun hbad => hbad rfl
    have hlast : m'.processLast = m.processLast := by
      rw [heq]
      rfl
    refine ⟨⟨hkept, fun t ht => ?_⟩, hlast, hother, fun hbad => absurd hbad hgone,
      fun pid => ?_⟩
    · change (m'.processes t).Used at ht
      change (m'.processes t).ps = _
      have hne : t ≠ n := fun hbad => hgone (hbad ▸ ht)
      rw [hother t hne] at ht ⊢
      exact h.running t ht
    · change pid ∈ (m.processes n).pid :: m.forgotten ↔ _
      rw [List.mem_cons]
      constructor
      · intro hor
        rcases hor with heq | hin
        · exact Or.inr ⟨hs, how, heq.symm⟩
        · exact Or.inl hin
      · intro hor
        rcases hor with hin | ⟨-, -, heq⟩
        · exact Or.inr hin
        · exact Or.inl heq.symm

/-- `process_signal_workers` gives the old slots up and forgets their children. -/
theorem Sound.signalLoop (h : Sound m) (signo : Int) (wrote : Nat -> Bool) (n : Nat) :
    let m' := signalLoop m signo wrote n
    Sound m' ∧ m'.processLast = m.processLast ∧
      (forall s, n ≤ s -> m'.processes s = m.processes s) ∧
      (forall s, s < n -> (m'.processes s).Used -> (m.processes s).ow = false) ∧
      forall pid, pid ∈ m'.forgotten ↔ pid ∈ m.forgotten ∨ Old m n pid := by
  induction n with
  | zero =>
      refine ⟨h, rfl, fun _ _ => rfl, fun s hs => absurd hs (Nat.not_lt_zero s), ?_⟩
      intro pid
      refine (or_iff_left ?_).symm
      intro hold
      obtain ⟨s, hs, -⟩ := hold
      exact absurd hs (Nat.not_lt_zero s)
  | succ n ih =>
      dsimp only at ih ⊢
      obtain ⟨h1, hlast, hbehind, hbefore, hforgot⟩ := ih
      rw [Processes.signalLoop]
      generalize Processes.signalLoop m signo wrote n = m1 at h1 hlast hbehind hbefore hforgot ⊢
      have hat := hbehind n (Nat.le_refl n)
      obtain ⟨h2, hlast2, hother, hgone, htold⟩ := h1.signalTurn signo (wrote n) n
      rw [hat] at hgone htold
      refine ⟨h2, hlast2.trans hlast, fun s hs => ?_, fun s hs hused => ?_, fun pid => ?_⟩
      · rw [hother s (Nat.ne_of_gt hs)]
        exact hbehind s (Nat.le_of_succ_le hs)
      · rcases Nat.lt_succ_iff_lt_or_eq.mp hs with hlt | rfl
        · rw [hother s (Nat.ne_of_lt hlt)] at hused
          exact hbefore s hlt hused
        · exact hgone hused
      · rw [htold, hforgot, old_succ_iff, or_assoc]

/-- Where `process_get_status` would write behind the table: a child ended that has no
slot, and `process_last` has come to the end of the table. -/
def Overruns (m : Master) (a : Action) : Prop :=
  (exists ks, a = Action.turn ks) ∧ m.processDoing &&& doingReap ≠ 0 ∧
    m.processLast = processesMax ∧ exists e, e ∈ m.ended ∧ e.1 ∉ m.held pidsOf

theorem slotOf_max (h : Kept m) {pid : Int} (hpid : pid ∈ m.children) :
    processesMax ≤ slotOf m pid ↔ m.processLast = processesMax ∧ pid ∉ m.held pidsOf := by
  have hle := slotOf_le m pid
  have hlast := h.last_le
  have hvalid : pid ≠ ngxInvalidPid := fun hbad => h.children_valid (hbad ▸ hpid)
  constructor
  · intro hmax
    refine ⟨by omega, fun hin => ?_⟩
    obtain ⟨s, hs, hx⟩ := Image.mem_held.mp hin
    have hlt := slotOf_lt hs (mem_pidsOf.mp hx).2.symm
    omega
  · intro hfull
    rcases Nat.lt_or_ge (slotOf m pid) m.processLast with hlt | hge
    · have hat := slotOf_pid hlt
      have hused : (m.processes (slotOf m pid)).Used := fun hbad => hvalid (hat.symm.trans hbad)
      exact absurd (Image.mem_held.mpr ⟨_, hlt, mem_pidsOf.mpr ⟨hused, hat.symm⟩⟩) hfull.2
    · omega

/-- The turn that waits for the children that ended and starts their jobs again. -/
theorem Sound.reapTurn (h : Sound m) (hdoing : m.processDoing &&& doingReap ≠ 0)
    (ks : Nat -> Kernel) :
    Overruns m (Action.turn ks) ∧ masterTurn m ks = none ∨
    exists m', masterTurn m ks = some m' ∧ Sound m' ∧
      List.Sublist m'.forgotten m.forgotten ∧ m'.processLast = m.processLast ∧
      m'.returned = m.returned ∧ m'.sent = m.sent ∧
      (m'.live = true ↔ exists s, (m'.processes s).Used) := by
  have hnonzero : m.processDoing ≠ 0 := by
    intro hbad
    rw [hbad] at hdoing
    exact hdoing BitVec.zero_and
  unfold masterTurn
  rw [if_neg hnonzero, if_pos hdoing]
  generalize hm1 : ({ m with processDoing := m.processDoing &&& ~~~doingReap } : Master) = m1
  have himage : m1.toImage = m.toImage := by rw [← hm1]
  have hsame : m1.ended = m.ended ∧ m1.forgotten = m.forgotten ∧
      m1.returned = m.returned ∧ m1.sent = m.sent := by
    rw [← hm1]
    exact ⟨rfl, rfl, rfl, rfl⟩
  have h1 : Sound m1 := by
    rw [← hm1]
    exact ⟨h.kept.frame rfl rfl rfl (List.Perm.refl _), h.running⟩
  unfold processGetStatus
  cases hloop : getStatusLoop m1 m1.ended with
  | none =>
      refine Or.inl ⟨⟨⟨ks, rfl⟩, hdoing, ?_⟩, rfl⟩
      obtain ⟨e, he, hmax⟩ := getStatusLoop_none.mp hloop
      have hchild : e.1 ∈ m1.children :=
        List.mem_append_right _ (List.mem_map.mpr ⟨e, he, rfl⟩)
      have hfull := (slotOf_max h1.kept hchild).mp hmax
      rw [himage] at hfull
      exact ⟨hfull.1, e, hsame.1 ▸ he, hfull.2⟩
  | some m2 =>
      refine Or.inr ?_
      obtain ⟨hkept2, hmixed2, hsub, -⟩ :=
        getStatusLoop_keeps (m := m1)
          (h1.kept.frame rfl rfl rfl (List.Perm.refl _)) h1.named (h1.mixed 0) hloop
      obtain ⟨hlast2, -, -, hsent2, hreturned2, -, -⟩ := getStatusLoop_frame hloop
      obtain ⟨m3, live, hreap, hkept3, hmixed3, hlast3, hforgotten3, hsent3, hreturned3, hlive⟩ :=
        reapLoop_spec ks hkept2 hmixed2 (Nat.le_refl m2.processLast)
      rw [Option.bind_some, processReapWorkers, hreap, Option.map_some]
      refine ⟨_, rfl, ⟨hkept3.frame rfl rfl rfl (List.Perm.refl _), ?_⟩, ?_, ?_, ?_, ?_, ?_⟩
      · intro s hs
        rcases hmixed3 s hs with hrun | ⟨hle, -⟩
        · exact hrun
        · have hlt := hkept3.lt_last hs
          omega
      · change List.Sublist m3.forgotten m.forgotten
        rw [hforgotten3, ← hsame.2.1]
        exact hsub
      · change m3.processLast = m.processLast
        rw [hlast3, hlast2, himage]
      · exact (hreturned3.trans hreturned2).trans hsame.2.2.1
      · exact (hsent3.trans hsent2).trans hsame.2.2.2
      · change live = true ↔ _
        rw [hlive]
        constructor
        · intro hex
          obtain ⟨s, -, hused⟩ := hex
          exact ⟨s, hused⟩
        · intro hex
          obtain ⟨s, hused⟩ := hex
          exact ⟨s, hlast3 ▸ hkept3.lt_last hused, hused⟩

/-- What a step leaves: `process_last` does not fall, and only `process_signal_workers`
forgets a child. -/
structure Stepped (m : Master) (a : Action) (m' : Master) : Prop where
  sound : Sound m'
  last : m.processLast ≤ m'.processLast
  quiet : a.Quiet -> List.Sublist m'.forgotten m.forgotten
  signalled : forall signo wrote, a = Action.signalWorkers signo wrote ->
    forall pid, pid ∈ m'.forgotten ↔ pid ∈ m.forgotten ∨ Old m m.processLast pid

theorem Stepped.of_quiet {m' : Master} (hsound : Sound m') (ha : a.Quiet)
    (hlast : m.processLast ≤ m'.processLast)
    (hforgotten : List.Sublist m'.forgotten m.forgotten) : Stepped m a m' :=
  ⟨hsound, hlast, fun _ => hforgotten, fun signo wrote hbad => absurd hbad (ha signo wrote)⟩

theorem Sound.step (h : Sound m) :
    Overruns m a ∧ step m a = none ∨ exists m', step m a = some m' ∧ Stepped m a m' := by
  have hsame : forall m', a.Quiet -> m'.toImage = m.toImage -> m'.children = m.children ->
      m'.forgotten = m.forgotten -> m'.forks = m.forks -> Stepped m a m' := by
    intro m' ha himage hchildren hforgotten hforks
    refine Stepped.of_quiet ⟨?_, ?_⟩ ha ?_ ?_
    · exact h.kept.frame himage hforgotten hforks (List.Perm.of_eq hchildren)
    · rw [himage]
      exact h.running
    · rw [himage]
    · rw [hforgotten]
  cases a with
  | startWorkers k job =>
      obtain ⟨m', r, hstart, h', hforgotten, hlast⟩ := h.startWorkers k job
      refine Or.inr ⟨m', ?_, Stepped.of_quiet h' (fun _ _ hbad => nomatch hbad) hlast ?_⟩
      · rw [Processes.step, hstart]
        rfl
      · rw [hforgotten]
  | timeUpdate second =>
      exact Or.inr ⟨_, rfl, hsame _ (fun _ _ hbad => nomatch hbad) rfl rfl rfl rfl⟩
  | childEnds pid status place =>
      refine Or.inr ⟨_, rfl, Stepped.of_quiet (h.childEnds pid status place)
        (fun _ _ hbad => nomatch hbad) ?_ ?_⟩
      all_goals
        unfold Processes.childEnds
        split
      · exact Nat.le_refl _
      · exact Nat.le_refl _
      · exact List.Sublist.refl _
      · exact List.Sublist.refl _
  | setDoing flag =>
      exact Or.inr ⟨_, rfl, hsame _ (fun _ _ hbad => nomatch hbad) rfl rfl rfl rfl⟩
  | turn ks =>
      have hquiet : (Action.turn ks).Quiet := fun _ _ hbad => nomatch hbad
      rw [Processes.step]
      by_cases hdoing : m.processDoing &&& doingReap = 0
      · refine Or.inr ?_
        unfold masterTurn
        split
        · exact ⟨m, rfl, hsame _ hquiet rfl rfl rfl rfl⟩
        · rw [if_neg (fun hbad => hbad hdoing)]
          split
          · exact ⟨_, rfl, hsame _ hquiet rfl rfl rfl rfl⟩
          · split
            · exact ⟨_, rfl, hsame _ hquiet rfl rfl rfl rfl⟩
            · exact ⟨m, rfl, hsame _ hquiet rfl rfl rfl rfl⟩
      · rcases h.reapTurn hdoing ks with hover | ⟨m', hturn, h', hsub, hlast, -⟩
        · exact Or.inl hover
        · exact Or.inr ⟨m', hturn, Stepped.of_quiet h' hquiet (Nat.le_of_eq hlast.symm) hsub⟩
  | setOldWorkers =>
      exact Or.inr ⟨_, rfl, Stepped.of_quiet h.setOldWorkers (fun _ _ hbad => nomatch hbad)
        (Nat.le_refl _) (List.Sublist.refl _)⟩
  | signalWorkers signo wrote =>
      obtain ⟨h', hlast, -, -, hforgot⟩ := h.signalLoop signo wrote m.processLast
      refine Or.inr ⟨_, rfl, h', Nat.le_of_eq hlast.symm, ?_, fun _ _ _ => hforgot⟩
      intro hbad
      exact absurd rfl (hbad signo wrote)

theorem Overruns.step (h : Sound m) (hover : Overruns m a) :
    Processes.step m a = none := by
  obtain ⟨⟨ks, rfl⟩, hdoing, hlast, e, he, hnone⟩ := hover
  have hnonzero : m.processDoing ≠ 0 := by
    intro hbad
    rw [hbad] at hdoing
    exact hdoing BitVec.zero_and
  have hchild : e.1 ∈ m.children :=
    List.mem_append_right _ (List.mem_map.mpr ⟨e, he, rfl⟩)
  have hmax : processesMax ≤ slotOf m e.1 := (slotOf_max h.kept hchild).mpr ⟨hlast, hnone⟩
  rw [Processes.step, masterTurn, if_neg hnonzero, if_pos hdoing, processGetStatus]
  have hloop : getStatusLoop { m with processDoing := m.processDoing &&& ~~~doingReap }
      m.ended = none := getStatusLoop_none.mpr ⟨e, he, hmax⟩
  rw [hloop]
  rfl

end Steps

/-!
## Runs
-/

section Runs

variable {second : Int} {m : Master}

theorem Sound.next {a : Action} {m' : Master} (h : Sound m)
    (hstep : Processes.step m a = some m') :
    Stepped m a m' := by
  rcases h.step (a := a) with ⟨-, hnone⟩ | ⟨u, hsome, hu⟩
  · rw [hnone] at hstep
    cases hstep
  · rw [hstep] at hsome
    cases hsome
    exact hu

theorem reaches_sound (hrun : Reaches step Always (masterInit second) m) : Sound m :=
  hrun.invariant Sound (fun _ _ _ h _ hstep => (h.next hstep).sound) (sound_masterInit second)

theorem reaches_sound_quiet
    (hrun : Reaches step (fun _ a => a.Quiet) (masterInit second) m) :
    Sound m ∧ m.forgotten = [] := by
  refine hrun.invariant (fun m => Sound m ∧ m.forgotten = []) ?_
    ⟨sound_masterInit second, rfl⟩
  intro t a u ht hquiet hstep
  have hnext := ht.1.next hstep
  refine ⟨hnext.sound, List.sublist_nil.mp ?_⟩
  rw [← ht.2]
  exact hnext.quiet hquiet

/-- The channels of the slots are the open descriptors, but for the pairs that a
failing `F_SETOWN` left open; no descriptor is closed that is not open; every child
that nobody waited for has one slot, unless `process_signal_workers` forgot it: it
forgets the children of the old slots, and no other call forgets one. -/
theorem table_tells (hrun : Reaches step Always (masterInit second) m) :
    m.opened.Nodup ∧ m.strays = [] ∧ m.children.Nodup ∧
      (exists leaked, leaked.length = 2 * m.unowned ∧
        m.opened.Perm (m.held channelsOf ++ leaked)) ∧
      m.children.Perm (m.held pidsOf ++ m.forgotten) ∧
      (Reaches step (fun _ a => a.Quiet) (masterInit second) m -> m.forgotten = []) ∧
      forall a m', step m a = some m' ->
        (a.Quiet -> List.Sublist m'.forgotten m.forgotten) ∧
        forall signo wrote, a = Action.signalWorkers signo wrote ->
          forall pid, pid ∈ m'.forgotten ↔ pid ∈ m.forgotten ∨ Old m m.processLast pid := by
  have h := reaches_sound hrun
  refine ⟨h.kept.opened_nodup, h.kept.strays, h.kept.children_nodup, h.kept.opened, ?_,
    fun hquiet => (reaches_sound_quiet hquiet).2, ?_⟩
  · rw [h.held_pidsOf]
    exact h.kept.children
  · intro a m' hstep
    exact ⟨(h.next hstep).quiet, (h.next hstep).signalled⟩

/-- A worker was started, and a second one whose channel nobody owns. -/
theorem table_tells_two :
    let started := after step (masterInit 0)
      [Action.startWorkers Kernel.plain emptyProcess.job]
    let m := after step started
      [Action.startWorkers { Kernel.plain with setown := false } emptyProcess.job]
    m.opened = [3, 4, 1, 2] ∧ m.unowned = 1 ∧ m.strays = [] := by
  intro started m
  have hrun : Reaches step Always (masterInit 0) m := by
    refine Reaches.oneLabel ?_ trivial (by decide +kernel)
    exact Reaches.oneLabel (Reaches.refl _) trivial (by decide +kernel)
  exact ⟨by decide +kernel, by decide +kernel, (table_tells hrun).2.1⟩

/-- `process_get_status` writes behind the table exactly where a child ended that has no
slot any more, and `process_last`, which does not fall, has come to the end of the table:
never, unless `process_signal_workers` was called. -/
theorem step_overruns (hrun : Reaches step Always (masterInit second) m) (a : Action) :
    (step m a = none ↔ Overruns m a) ∧
      (forall m', step m a = some m' -> m.processLast ≤ m'.processLast) ∧
      (Reaches step (fun _ a => a.Quiet) (masterInit second) m -> (step m a).isSome = true) := by
  have h := reaches_sound hrun
  have hnone : step m a = none -> Overruns m a := by
    intro hnone
    rcases h.step (a := a) with ⟨hover, -⟩ | ⟨u', hsome, -⟩
    · exact hover
    · rw [hnone] at hsome
      cases hsome
  refine ⟨⟨hnone, fun hover => hover.step h⟩, fun m' hstep => (h.next hstep).last,
    fun hquiet => ?_⟩
  obtain ⟨hsound, hforgotten⟩ := reaches_sound_quiet hquiet
  cases hstep : step m a with
  | some u => rfl
  | none =>
      -- a child that ended has a slot, since none was forgotten
      obtain ⟨-, -, -, e, he, hout⟩ := hnone hstep
      have hchild : e.1 ∈ m.children :=
        List.mem_append_right _ (List.mem_map.mpr ⟨e, he, rfl⟩)
      have hin := hsound.kept.children.mem_iff.mp hchild
      rw [hforgotten, List.append_nil, ← hsound.held_pidsOf] at hin
      exact absurd hin hout

/-!
## A full table
-/

/-- A kernel whose calls succeed starts a worker in the slot behind those in use. -/
theorem startWorkers_next (h : Sound m) (hlast : m.processLast < processesMax)
    (hused : forall s, s < m.processLast -> (m.processes s).Used) (job : Job) :
    exists m', step m (Action.startWorkers Kernel.plain job) = some m' ∧
      m'.processLast = m.processLast + 1 ∧
      forall s, s < m'.processLast -> (m'.processes s).Used := by
  obtain ⟨hle, hfree⟩ := freeSlot_free h.kept
  have hslot : freeSlot m = m.processLast := by
    rcases Nat.eq_or_lt_of_le hle with heq | hlt
    · exact heq
    · exact absurd (hused _ hlt) hfree
  have hspawn : processSpawn m Kernel.plain job none =
      some (spawned (opening m m.processLast m.processLast (above m.opened, above m.opened + 1)
        (above m.opened :: (above m.opened + 1) :: m.opened) m.unowned) job m.processLast true
          (above m.children), above m.children) := by
    unfold processSpawn
    rw [hslot, if_neg (Nat.ne_of_lt hlast)]
    unfold spawnAt
    rw [if_pos hlast]
    rfl
  have hvalid : above m.children ≠ ngxInvalidPid := by
    have hpos := above_pos m.children
    unfold ngxInvalidPid
    omega
  have hat := spawned_at m job m.processLast true (above m.children) (above m.opened)
    (above m.opened + 1)
  have hother := spawned_other m job m.processLast true (above m.children) (above m.opened)
    (above m.opened + 1)
  have hlast' := spawned_last_le (Nat.le_refl m.processLast) job true (above m.children)
    (above m.opened) (above m.opened + 1)
  generalize spawned _ job m.processLast true (above m.children) = m1 at hspawn hat hother hlast'
  refine ⟨processBroadcast m1 m1.processSlot channelCmdOpen, ?_, ?_, ?_⟩
  · rw [step, processStartWorkers, hspawn, Option.map_some]
    dsimp only
    rw [if_neg hvalid]
    rfl
  · change m1.processLast = _
    omega
  · intro s hs
    change s < m1.processLast at hs
    change (m1.processes s).Used
    rcases Decidable.eq_or_ne s m.processLast with rfl | hne
    · rw [hat]
      exact hvalid
    · rw [hother s hne]
      exact hused s (by omega)

theorem reaches_filled (second : Int) {n : Nat} (hn : n ≤ processesMax) :
    exists m, Reaches step Always (masterInit second) m ∧ m.processLast = n ∧
      forall s, s < n -> (m.processes s).Used := by
  induction n with
  | zero => exact ⟨_, Reaches.refl _, rfl, fun s hs => absurd hs (Nat.not_lt_zero s)⟩
  | succ n ih =>
      obtain ⟨m, hrun, hlast, hused⟩ := ih (Nat.le_of_succ_le hn)
      rw [← hlast] at hused
      obtain ⟨m', hstep, hlast', hused'⟩ := startWorkers_next (reaches_sound hrun)
        (by omega) hused emptyProcess.job
      rw [hlast] at hlast'
      rw [hlast'] at hused'
      exact ⟨m', Reaches.tail hrun trivial hstep, hlast', hused'⟩

theorem mem_ended_childEnds {pid : Int} (h : pid ∈ m.children) (status : Int) (place : Nat) :
    exists e, e ∈ (childEnds m pid status place).ended ∧ e.1 = pid := by
  unfold childEnds
  split
  next => exact ⟨(pid, status), List.mem_append_right _ List.mem_cons_self, rfl⟩
  next hout =>
    rcases List.mem_append.mp h with hrunning | hended
    · exact absurd (List.contains_iff_mem.mpr hrunning) hout
    · obtain ⟨e, he, heq⟩ := List.mem_map.mp hended
      exact ⟨e, he, heq⟩

/-- Where every worker is old, `process_signal_workers` leaves no slot in use, but the
children are there still. -/
theorem signalled_all (h : Sound m)
    (hused : forall s, s < m.processLast -> (m.processes s).Used) (signo : Int)
    (wrote : Nat -> Bool) :
    let m' := processSignalWorkers (processSetOldWorkers m) signo wrote
    m'.processLast = m.processLast ∧ m'.held pidsOf = [] ∧
      forall s, s < m.processLast -> (m.processes s).pid ∈ m'.children := by
  have hold : forall s, s < m.processLast ->
      (processSetOldWorkers m).processes s = { m.processes s with ow := true } := by
    intro s hs
    have hps := h.running s (hused s hs)
    exact if_pos ⟨hs, hused s hs, by rw [hps]; decide⟩
  obtain ⟨h', hlast, -, hgone, hforgot⟩ :=
    h.setOldWorkers.signalLoop signo wrote m.processLast
  change Sound (processSignalWorkers (processSetOldWorkers m) signo wrote) at h'
  refine ⟨hlast, List.eq_nil_iff_forall_not_mem.mpr fun x hx => ?_, fun s hs => ?_⟩
  · obtain ⟨s, hs, hin⟩ := Image.mem_held.mp hx
    have hs' : s < m.processLast := Nat.lt_of_lt_of_eq hs hlast
    have hflag := hgone s hs' (mem_pidsOf.mp hin).1
    rw [hold s hs'] at hflag
    cases hflag
  · refine h'.kept.children.mem_iff.mpr (List.mem_append_right _ ((hforgot _).mpr (Or.inr ?_)))
    refine ⟨s, hs, ?_⟩
    rw [hold s hs]
    exact ⟨hused s hs, rfl, rfl⟩

/-- All slots were in use once and none is now: the child of a worker that was
signalled ends, and its mark goes behind the table. -/
theorem step_overruns_unused :
    exists m, Reaches step Always (masterInit 0) m ∧ m.held pidsOf = [] ∧
      step m (Action.turn fun _ => Kernel.plain) = none := by
  obtain ⟨m, hrun, hlast, hused⟩ := reaches_filled 0 (Nat.le_refl processesMax)
  rw [← hlast] at hused
  obtain ⟨hlast1, hempty, hchildren⟩ :=
    signalled_all (reaches_sound hrun) hused 15 fun _ => true
  have hrun1 : Reaches step Always (masterInit 0)
      (processSignalWorkers (processSetOldWorkers m) 15 fun _ => true) :=
    (hrun.tail (a := Action.setOldWorkers) trivial rfl).tail
      (a := Action.signalWorkers 15 fun _ => true) trivial rfl
  generalize processSignalWorkers (processSetOldWorkers m) 15 (fun _ => true) = m1
    at hlast1 hempty hchildren hrun1
  have hzero : 0 < m.processLast := by
    rw [hlast]
    decide
  obtain ⟨e, he, hpid⟩ := mem_ended_childEnds (hchildren 0 hzero) 0 0
  have hrun2 : Reaches step Always (masterInit 0)
      (childEnds m1 (m.processes 0).pid 0 0) :=
    hrun1.tail (a := Action.childEnds (m.processes 0).pid 0 0) trivial rfl
  have himage : (childEnds m1 (m.processes 0).pid 0 0).toImage = m1.toImage := by
    unfold childEnds
    split <;> rfl
  generalize childEnds m1 (m.processes 0).pid 0 0 = m2 at he hrun2 himage
  have hempty2 : m2.held pidsOf = [] := by
    rw [himage]
    exact hempty
  have hrun3 : Reaches step Always (masterInit 0)
      { m2 with processDoing := m2.processDoing ||| doingReap } :=
    hrun2.tail (a := Action.setDoing doingReap) trivial rfl
  refine ⟨_, hrun3, hempty2, (step_overruns hrun3 _).1.mpr ⟨⟨_, rfl⟩, ?_, ?_, e, he, ?_⟩⟩
  · have habsorb : (m2.processDoing ||| doingReap) &&& doingReap = doingReap := by
      rw [BitVec.and_comm, BitVec.or_comm]
      ext i hi
      simp only [BitVec.getElem_and, BitVec.getElem_or, Bool.and_or_distrib_left,
        Bool.and_self]
      cases doingReap[i] <;> rfl
    change (m2.processDoing ||| doingReap) &&& doingReap ≠ 0
    rw [habsorb]
    decide
  · change m2.processLast = _
    rw [himage, hlast1, hlast]
  · change e.1 ∉ m2.held pidsOf
    rw [hempty2]
    exact List.not_mem_nil

end Runs

end Processes
end NgxEpoll
