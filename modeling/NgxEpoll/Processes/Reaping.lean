import NgxEpoll.Processes.Sound

/-!
# Children that ended

`process_get_status` waits for the children that ended and marks their slots;
`process_reap_workers` empties the marked slots and starts their jobs again.

## Slots by their pid
-/

namespace NgxEpoll
namespace Processes

open Foundation
open NgxEpoll.Core

theorem slotWith_spec (processes : Nat -> ProcessT) (pid : Int) (i n : Nat) :
    let s := slotWith processes pid i n
    i ≤ s ∧ s ≤ i + n ∧ (s < i + n -> (processes s).pid = pid) ∧
      forall t, i ≤ t -> t < s -> (processes t).pid ≠ pid := by
  induction n generalizing i with
  | zero =>
      refine ⟨Nat.le_refl i, Nat.le_refl i, ?_, ?_⟩
      · intro h
        exact absurd h (Nat.lt_irrefl i)
      · intro t hle hlt
        exact absurd hlt (Nat.not_lt.mpr hle)
  | succ n ih =>
      dsimp only
      unfold slotWith
      split
      next hpid =>
        refine ⟨Nat.le_refl i, Nat.le_add_right i _, fun _ => hpid, ?_⟩
        intro t hle hlt
        exact absurd hlt (Nat.not_lt.mpr hle)
      next hpid =>
        obtain ⟨hlo, hhi, hfound, hbefore⟩ := ih (i + 1)
        refine ⟨by omega, by omega, fun h => hfound (by omega), ?_⟩
        intro t hle hlt
        rcases Nat.eq_or_lt_of_le hle with heq | hgt
        · rw [← heq]
          exact hpid
        · exact hbefore t hgt hlt

theorem slotOf_le (m : Master) (pid : Int) : slotOf m pid ≤ m.processLast := by
  have h := (slotWith_spec m.processes pid 0 m.processLast).2.1
  rw [Nat.zero_add] at h
  exact h

theorem slotOf_pid {m : Master} {pid : Int} (h : slotOf m pid < m.processLast) :
    (m.processes (slotOf m pid)).pid = pid := by
  refine (slotWith_spec m.processes pid 0 m.processLast).2.2.1 ?_
  rw [Nat.zero_add]
  exact h

theorem slotOf_lt {m : Master} {pid : Int} {s : Nat} (hs : s < m.processLast)
    (hpid : (m.processes s).pid = pid) : slotOf m pid < m.processLast := by
  rcases Nat.lt_or_ge (slotOf m pid) m.processLast with hlt | hge
  · exact hlt
  · have hbefore := (slotWith_spec m.processes pid 0 m.processLast).2.2.2 s (Nat.zero_le s)
    exact absurd hpid (hbefore (Nat.lt_of_lt_of_le hs hge))

theorem freeSlot_free {m : Master} (h : Kept m) :
    freeSlot m ≤ m.processLast ∧ ¬ (m.processes (freeSlot m)).Used := by
  have hspec := slotWith_spec m.processes ngxInvalidPid 0 m.processLast
  dsimp only at hspec
  rw [Nat.zero_add] at hspec
  refine ⟨hspec.2.1, ?_⟩
  rcases Nat.eq_or_lt_of_le hspec.2.1 with heq | hlt
  · exact h.free _ (Nat.le_of_eq heq.symm)
  · exact fun hused => hused (hspec.2.2.1 hlt)

theorem mem_pidsOf {p : ProcessT} {x : Int} : x ∈ pidsOf p ↔ p.Used ∧ x = p.pid := by
  unfold pidsOf
  split
  next h => simp [h]
  next h => simp [h]

theorem pidsOf_congr {p q : ProcessT} (h : p.pid = q.pid) : pidsOf p = pidsOf q := by
  rcases Decidable.em p.Used with hp | hp
  · have hq : q.Used := fun hbad => hp (h.trans hbad)
    rw [pidsOf, if_pos hp, pidsOf, if_pos hq, h]
  · have hq : ¬ q.Used := fun hq => hp fun hbad => hq (h.symm.trans hbad)
    rw [pidsOf, if_neg hp, pidsOf, if_neg hq]

theorem mem_waitedOf {p : ProcessT} {x : Int} :
    x ∈ waitedOf p ↔ p.Used ∧ p.ps &&& statusExited = 0 ∧ x = p.pid := by
  unfold waitedOf
  split
  next h => simp [h]
  next h =>
    constructor
    · intro hx
      cases hx
    · intro hx
      exact absurd ⟨hx.1, hx.2.1⟩ h

/-- A slot with a child has one that nobody waited for, or one that ended. -/
def Mixed (m : Master) (n : Nat) : Prop :=
  forall s, (m.processes s).Used ->
    (m.processes s).ps = statusRunning ∨ n ≤ s ∧ (m.processes s).ps = statusExited

theorem Sound.mixed {m : Master} (h : Sound m) (n : Nat) : Mixed m n :=
  fun s hs => Or.inl (h.running s hs)

/-!
## Marking the slots
-/

section Marking

variable {m m' : Master} {pid status : Int} {rest : List (Int × Int)}

/-- The slots keep their pids, and no pid is given twice. -/
def Named (m : Master) : Prop :=
  (m.held pidsOf ++ m.forgotten).Nodup

theorem setExited_eq {s : Nat} (h : setExited m s status = some m') :
    s < processesMax ∧
      m' = m.setProcess s { m.processes s with status := status, ps := statusExited } := by
  unfold setExited at h
  split at h
  next hlt =>
    cases h
    exact ⟨hlt, rfl⟩
  next => cases h

theorem setExited_pid {s : Nat} (h : setExited m s status = some m') (t : Nat) :
    (m'.processes t).pid = (m.processes t).pid := by
  rw [(setExited_eq h).2]
  rcases Decidable.eq_or_ne t s with rfl | hne
  · rw [setProcess_same]
  · rw [setProcess_other hne]

theorem setExited_used {s t : Nat} (h : setExited m s status = some m') :
    (m'.processes t).Used ↔ (m.processes t).Used := by
  unfold ProcessT.Used
  rw [setExited_pid h]

theorem setExited_last {s : Nat} (h : setExited m s status = some m') :
    m'.processLast = m.processLast := by
  rw [(setExited_eq h).2]
  rfl

theorem slotOf_congr (hlast : m'.processLast = m.processLast)
    (hpid : forall t, (m'.processes t).pid = (m.processes t).pid) (x : Int) :
    slotOf m' x = slotOf m x := by
  have hwith : forall i n, slotWith m'.processes x i n = slotWith m.processes x i n := by
    intro i n
    induction n generalizing i with
    | zero => rfl
    | succ n ih =>
        simp only [slotWith, hpid]
        rw [ih]
  unfold slotOf
  rw [hlast, hwith]

theorem held_pidsOf_congr (hlast : m'.processLast = m.processLast)
    (hpid : forall t, (m'.processes t).pid = (m.processes t).pid) :
    m'.held pidsOf = m.held pidsOf := by
  exact Image.held_congr hlast fun t _ => pidsOf_congr (hpid t)

theorem held_channels_marked {s : Nat} (h : setExited m s status = some m') :
    m'.held channelsOf = m.held channelsOf := by
  refine Image.held_congr (setExited_last h) fun t _ => ?_
  rw [(setExited_eq h).2]
  rcases Decidable.eq_or_ne t s with rfl | hne
  · rw [setProcess_same]
    rfl
  · rw [setProcess_other hne]

theorem marked_mixed (hmixed : Mixed m 0)
    (hmark : setExited m (slotOf m pid) status = some m') : Mixed m' 0 := by
  have heq := (setExited_eq hmark).2
  intro t ht
  rw [setExited_used hmark] at ht
  rw [heq]
  rcases Decidable.eq_or_ne t (slotOf m pid) with rfl | hne
  · rw [setProcess_same]
    exact Or.inr ⟨Nat.zero_le _, rfl⟩
  · rw [setProcess_other hne]
    exact hmixed t ht

/-- A slot has the pid, so it is none of those that were forgotten, and its child is not
waited for any more. -/
theorem marked_slot (hnamed : Named m) (hvalid : pid ≠ ngxInvalidPid)
    (hin : pid ∈ m.held waitedOf ++ m.forgotten)
    (hmark : setExited m (slotOf m pid) status = some m') (hlt : slotOf m pid < m.processLast) :
    pid ∉ m.forgotten ∧ (m.held waitedOf).Perm (pid :: m'.held waitedOf) := by
  have heq := (setExited_eq hmark).2
  have hat := slotOf_pid hlt
  have hused : (m.processes (slotOf m pid)).Used := by
    unfold ProcessT.Used
    rw [hat]
    exact hvalid
  have hheld : pid ∈ m.held pidsOf :=
    Image.mem_held.mpr ⟨_, hlt, mem_pidsOf.mpr ⟨hused, hat.symm⟩⟩
  have hapart := List.nodup_append.mp hnamed
  have hkeep : pid ∉ m.forgotten := fun hd => hapart.2.2 pid hheld pid hd rfl
  have hwaited : waitedOf (m.processes (slotOf m pid)) = [pid] := by
    rcases List.mem_append.mp hin with hw | hd
    · obtain ⟨t, ht, hx⟩ := Image.mem_held.mp hw
      have hx' := mem_waitedOf.mp hx
      have hrow : slotOf m pid = t :=
        gather_nodup_row hapart.1 hlt ht (mem_pidsOf.mpr ⟨hused, hat.symm⟩)
          (mem_pidsOf.mpr ⟨hx'.1, hx'.2.2⟩)
      rw [hrow, waitedOf_running hx'.1 hx'.2.1, hx'.2.2]
    · exact absurd hd hkeep
  have hclear : (m.held waitedOf).Perm
      (waitedOf (m.processes (slotOf m pid)) ++ m'.held waitedOf) := by
    refine Image.held_clear (f := waitedOf) (setExited_last hmark) hlt (fun t ht => ?_) ?_
    · rw [heq, setProcess_other ht]
    · rw [heq, setProcess_same]
      exact waitedOf_exited (show statusExited &&& statusExited ≠ 0 by decide)
  rw [hwaited] at hclear
  exact ⟨hkeep, hclear⟩

theorem marked_behind (hin : pid ∈ m.held waitedOf ++ m.forgotten)
    (hmark : setExited m (slotOf m pid) status = some m') (hge : m.processLast ≤ slotOf m pid) :
    pid ∈ m.forgotten ∧ m'.held waitedOf = m.held waitedOf := by
  have heq := (setExited_eq hmark).2
  constructor
  · rcases List.mem_append.mp hin with hw | hd
    · obtain ⟨t, ht, hx⟩ := Image.mem_held.mp hw
      have hlt := slotOf_lt ht (mem_waitedOf.mp hx).2.2.symm
      exact absurd hlt (Nat.not_lt.mpr hge)
    · exact hd
  · refine Image.held_congr (setExited_last hmark) fun t ht => ?_
    rw [heq, setProcess_other (fun hts => by omega)]

/-- One child that ended: its slot is marked, or the master process forgot it and the
mark goes to the slot behind the last. -/
theorem Kept.after_mark (h : Kept { m with ended := (pid, status) :: rest })
    (hnamed : Named m) (hmixed : Mixed m 0)
    (hmark : setExited m (slotOf m pid) status = some m') :
    let m1 : Master := { m' with forgotten := m'.forgotten.erase pid }
    Kept { m1 with ended := rest } ∧ Named m1 ∧ Mixed m1 0 ∧
      List.Sublist m1.forgotten m.forgotten := by
  have hlast := setExited_last hmark
  have heq := (setExited_eq hmark).2
  have hforgotten : m'.forgotten = m.forgotten := by rw [heq]; rfl
  intro m1
  have hchildren : (Master.children { m with ended := (pid, status) :: rest }).Perm
      (pid :: Master.children { m1 with ended := rest }) := by
    have hrunning : m1.running = m.running := by
      change m'.running = _
      rw [heq]
      rfl
    unfold Master.children
    dsimp only
    rw [hrunning]
    exact List.perm_middle
  have hin : pid ∈ m.held waitedOf ++ m.forgotten :=
    h.children.mem_iff.mp (hchildren.mem_iff.mpr List.mem_cons_self)
  have hvalid : pid ≠ ngxInvalidPid := by
    intro hbad
    refine h.children_valid (hchildren.mem_iff.mpr ?_)
    rw [hbad]
    exact List.mem_cons_self
  have hsub : List.Sublist m1.forgotten m.forgotten := by
    change List.Sublist (m'.forgotten.erase pid) _
    rw [hforgotten]
    exact List.erase_sublist
  have hnamed' : Named m1 := by
    have hpids : m1.held pidsOf = m.held pidsOf :=
      held_pidsOf_congr hlast fun t => setExited_pid hmark t
    unfold Named
    rw [hpids]
    exact hnamed.sublist (hsub.append_left _)
  have hmixed' : Mixed m' 0 := marked_mixed hmixed hmark
  refine ⟨?_, hnamed', hmixed', hsub⟩
  constructor
  · change m'.processLast ≤ processesMax
    rw [hlast]
    exact h.last_le
  · intro t ht
    change m'.processLast ≤ t at ht
    rw [hlast] at ht
    change ¬ (m'.processes t).Used
    rw [setExited_used hmark]
    exact h.free t ht
  · change m'.opened.Nodup
    rw [heq]
    exact h.opened_nodup
  · change _ ∉ m'.opened
    rw [heq]
    exact h.opened_valid
  · obtain ⟨leaked, hleaked, hopened⟩ := h.opened
    refine ⟨leaked, ?_, ?_⟩
    · change leaked.length = 2 * m'.unowned
      rw [heq]
      exact hleaked
    · change m'.opened.Perm (m'.held channelsOf ++ leaked)
      rw [held_channels_marked hmark, heq]
      exact hopened
  · change m'.strays = []
    rw [heq]
    exact h.strays
  · exact (List.nodup_cons.mp (hchildren.nodup_iff.mp h.children_nodup)).2
  · exact fun hbad => h.children_valid (hchildren.mem_iff.mpr (List.mem_cons_of_mem pid hbad))
  · change (Master.children { m1 with ended := rest }).Perm
      (m'.held waitedOf ++ m'.forgotten.erase pid)
    rw [hforgotten]
    refine (List.perm_cons pid).mp (hchildren.symm.trans (h.children.trans ?_))
    change (m.held waitedOf ++ m.forgotten).Perm _
    rcases Nat.lt_or_ge (slotOf m pid) m.processLast with hlt | hge
    · obtain ⟨hkeep, hclear⟩ := marked_slot hnamed hvalid hin hmark hlt
      rw [List.erase_of_not_mem hkeep]
      exact hclear.append_right m.forgotten
    · obtain ⟨hd, hwaited⟩ := marked_behind hin hmark hge
      rw [hwaited]
      refine ((List.perm_cons_erase hd).append_left (m.held waitedOf)).trans ?_
      exact List.perm_middle
  · change forall e, e ∈ m'.forks -> e.Fits
    rw [heq]
    exact h.forks

theorem getStatusLoop_keeps (h : Kept { m with ended := rest }) (hnamed : Named m)
    (hmixed : Mixed m 0) (hloop : getStatusLoop m rest = some m') :
    Kept m' ∧ Mixed m' 0 ∧ List.Sublist m'.forgotten m.forgotten ∧ m'.ended = [] := by
  induction rest generalizing m with
  | nil =>
      cases hloop
      exact ⟨h, hmixed, List.Sublist.refl _, rfl⟩
  | cons e rest ih =>
      obtain ⟨pid, status⟩ := e
      obtain ⟨m1, hmark, hrest⟩ := Option.bind_eq_some_iff.mp hloop
      obtain ⟨h1, hnamed1, hmixed1, hsub1⟩ := h.after_mark hnamed hmixed hmark
      obtain ⟨h', hmixed', hsub', hended⟩ := ih h1 hnamed1 hmixed1 hrest
      exact ⟨h', hmixed', hsub'.trans hsub1, hended⟩

theorem getStatusLoop_none :
    getStatusLoop m rest = none ↔ exists e, e ∈ rest ∧ processesMax ≤ slotOf m e.1 := by
  induction rest generalizing m with
  | nil => simp [getStatusLoop]
  | cons e rest ih =>
      obtain ⟨pid, status⟩ := e
      rw [getStatusLoop]
      cases hmark : setExited m (slotOf m pid) status with
      | none =>
          have hge : processesMax ≤ slotOf m pid := by
            unfold setExited at hmark
            split at hmark
            · cases hmark
            · omega
          simp [hge]
      | some m1 =>
          have hlt := (setExited_eq hmark).1
          have hlast := setExited_last hmark
          have hcongr : forall x,
              slotOf { m1 with forgotten := m1.forgotten.erase pid } x = slotOf m x :=
            slotOf_congr hlast fun t => setExited_pid hmark t
          rw [Option.bind_some, ih]
          simp only [hcongr, List.mem_cons, exists_eq_or_imp]
          constructor
          · exact Or.inr
          · intro h
            rcases h with hbad | hin
            · exact absurd hlt (Nat.not_lt.mpr hbad)
            · exact hin

theorem getStatusLoop_frame (hloop : getStatusLoop m rest = some m') :
    m'.processLast = m.processLast ∧ m'.tvSec = m.tvSec ∧ m'.forks = m.forks ∧
      m'.sent = m.sent ∧ m'.returned = m.returned ∧ m'.running = m.running ∧
      forall s, (m'.processes s).restartGap = (m.processes s).restartGap := by
  induction rest generalizing m with
  | nil =>
      cases hloop
      exact ⟨rfl, rfl, rfl, rfl, rfl, rfl, fun _ => rfl⟩
  | cons e rest ih =>
      obtain ⟨m1, hmark, hrest⟩ := Option.bind_eq_some_iff.mp hloop
      have heq := (setExited_eq hmark).2
      have hgap : forall s, (m1.processes s).restartGap = (m.processes s).restartGap := by
        intro s
        rw [heq]
        rcases Decidable.eq_or_ne s (slotOf m e.1) with rfl | hne
        · rw [setProcess_same]
        · rw [setProcess_other hne]
      obtain ⟨hlast, htv, hforks, hsent, hreturned, hrunning, hgaps⟩ := ih hrest
      have hfields : m1.tvSec = m.tvSec ∧ m1.forks = m.forks ∧ m1.sent = m.sent ∧
          m1.returned = m.returned ∧ m1.running = m.running := by
        rw [heq]
        exact ⟨rfl, rfl, rfl, rfl, rfl⟩
      have hlast1 := setExited_last hmark
      exact ⟨hlast.trans hlast1, htv.trans hfields.1,
        hforks.trans hfields.2.1, hsent.trans hfields.2.2.1,
        hreturned.trans hfields.2.2.2.1, hrunning.trans hfields.2.2.2.2,
        fun s => (hgaps s).trans (hgap s)⟩

end Marking

/-!
## Emptying the slots and starting again
-/

section Reaping

variable {m m' : Master} {live live' : Bool} {k : Kernel} {s : Nat}

/-- The slot became empty; nothing but channels changed otherwise. -/
structure Emptied (m m' : Master) (s : Nat) : Prop where
  unused : ¬ (m'.processes s).Used
  gap : (m'.processes s).restartGap = (m.processes s).restartGap
  other : forall t, t ≠ s -> m'.processes t = m.processes t
  last : m'.processLast = m.processLast
  children : m'.running = m.running ∧ m'.ended = m.ended
  forgotten : m'.forgotten = m.forgotten
  forks : m'.forks = m.forks
  sent : m'.sent = m.sent
  returned : m'.returned = m.returned
  tvSec : m'.tvSec = m.tvSec

structure Restarted (m m' : Master) (s : Nat) : Prop where
  running : (m'.processes s).ps = statusRunning
  used : (m'.processes s).Used
  late : maxRestartNum < m.tvSec - (m.processes s).restartGap
  gap : (m'.processes s).restartGap = (m.tvSec % 2 ^ 32).toNat
  other : forall t, t ≠ s -> m'.processes t = m.processes t
  last : m'.processLast = m.processLast
  ended : m'.ended = m.ended
  forgotten : m'.forgotten = m.forgotten
  forks : exists image, m'.forks =
    { slot := s, pid := (m'.processes s).pid, second := m.tvSec, auto := false, image := image } ::
      m.forks
  sent : m'.sent = m.sent
  returned : m'.returned = m.returned
  tvSec : m'.tvSec = m.tvSec

theorem Emptied.of_detach {q : ProcessT} {opened : List Int} (hq : ¬ q.Used)
    (hgap : q.restartGap = (m.processes s).restartGap)
    (heq : m' = { m.setProcess s q with opened := opened }) : Emptied m m' s := by
  subst heq
  constructor
  · change ¬ ((m.setProcess s q).processes s).Used
    rw [setProcess_same]
    exact hq
  · change ((m.setProcess s q).processes s).restartGap = _
    rw [setProcess_same]
    exact hgap
  · exact fun t ht => setProcess_other ht
  · rfl
  · exact ⟨rfl, rfl⟩
  · rfl
  · rfl
  · rfl
  · rfl
  · rfl

theorem Emptied.opening (h : Emptied m m' s) (slot : Nat) (channel : Int × Int)
    (opened : List Int) (unowned : Nat) :
    Emptied m (opening m' s slot channel opened unowned) s := by
  constructor
  · exact fun hused => h.unused ((opening_used h.unused).mp hused)
  · change ((m'.setProcess s _).processes s).restartGap = _
    rw [setProcess_same]
    exact h.gap
  · intro t ht
    change (m'.setProcess s _).processes t = _
    rw [setProcess_other ht]
    exact h.other t ht
  · exact h.last
  · exact h.children
  · exact h.forgotten
  · exact h.forks
  · exact h.sent
  · exact h.returned
  · exact h.tvSec

theorem Emptied.restart (h : Emptied m m' s) (hs : s < m.processLast) {job : Job}
    {pid a b : Int} (hpid : pid ≠ ngxInvalidPid)
    (hlate : maxRestartNum < m.tvSec - (m.processes s).restartGap) :
    Restarted m (spawned (Processes.opening m' s s (a, b) (a :: b :: m'.opened) m'.unowned)
      job s false pid) s := by
  have hat := spawned_at m' job s false pid a b
  constructor
  · rw [hat]
  · rw [hat]
    exact hpid
  · exact hlate
  · rw [hat]
    change (m'.tvSec % 2 ^ 32).toNat = _
    rw [h.tvSec]
  · intro t ht
    rw [spawned_other _ _ _ _ _ _ _ _ ht]
    exact h.other t ht
  · change (if s = m'.processLast then m'.processLast + 1 else m'.processLast) = _
    have hlast := h.last
    rw [if_neg (by omega), hlast]
  · exact h.children.2
  · exact h.forgotten
  · refine ⟨(Processes.opening m' s s (a, b) (a :: b :: m'.opened) m'.unowned).toImage, ?_⟩
    rw [hat, ← h.tvSec, ← h.forks]
    rfl
  · exact h.sent
  · exact h.returned
  · exact h.tvSec

theorem spawnAt_emptied {m1 : Master} {job : Job} {r : Int} (h : Kept m1)
    (hempty : Emptied m m1 s) (hs : s < m.processLast)
    (hlate : maxRestartNum < m.tvSec - (m.processes s).restartGap)
    (hspawn : spawnAt m1 k job s false = some (m', r)) :
    Kept m' ∧
      (r = ngxInvalidPid ∧ Emptied m m' s ∨ r ≠ ngxInvalidPid ∧ Restarted m m' s) := by
  have hs1 : s ≤ m1.processLast := by
    rw [hempty.last]
    exact Nat.le_of_lt hs
  obtain ⟨hmax, hcases⟩ := spawnAt_cases hspawn
  rcases hcases with ⟨hr, slot, channel, heq⟩ | ⟨hr, a, b, ha, hb, hab, hvalid, heq⟩ |
    ⟨hr, hfresh, a, b, ha, hb, hab, hafile, hbfile, heq⟩
  · subst heq
    constructor
    · exact h.after_opening hempty.unused slot channel [] (List.nil_append _).symm
        h.opened_nodup List.not_mem_nil (Nat.zero_add _)
    · exact Or.inl ⟨hr, hempty.opening slot channel _ _⟩
  · subst heq
    constructor
    · refine h.after_opening hempty.unused _ (a, b) [a, b] rfl ?_ hvalid ?_
      · refine List.nodup_cons.mpr ⟨?_, List.nodup_cons.mpr ⟨hb, h.opened_nodup⟩⟩
        intro hmem
        rcases List.mem_cons.mp hmem with hbad | hbad
        · exact hab hbad
        · exact ha hbad
      · simp only [List.length_cons, List.length_nil]
        omega
    · exact Or.inl ⟨hr, hempty.opening _ (a, b) _ _⟩
  · subst heq
    constructor
    · exact h.after_spawned hempty.unused hs1 hmax ha hb hab hr hfresh hafile hbfile
    · exact Or.inr ⟨hr, hempty.restart hs hr hlate⟩

theorem reapTurn_cases (h : Kept m) (hs : s < m.processLast)
    (hturn : reapTurn m live k s = some (m', live')) :
    Kept m' ∧
      (¬ (m.processes s).Used ∧ m' = m ∧ live' = live ∨
        (m.processes s).Used ∧ (m.processes s).ps &&& statusExited = 0 ∧
          m' = { m with processOldAlived := m'.processOldAlived } ∧ live' = true ∨
        (m.processes s).Used ∧ (m.processes s).ps &&& statusExited ≠ 0 ∧
          Emptied m m' s ∧ live' = live ∨
        (m.processes s).Used ∧ (m.processes s).ps &&& statusExited ≠ 0 ∧
          Restarted m m' s ∧ live' = true) := by
  unfold reapTurn at hturn
  dsimp only at hturn
  split at hturn
  next hfree =>
    cases hturn
    exact ⟨h, Or.inl ⟨fun hused => hused hfree, rfl, rfl⟩⟩
  next hused =>
    split at hturn
    next hps =>
      cases hturn
      exact ⟨h.frame rfl rfl rfl (List.Perm.refl _), Or.inr (Or.inl ⟨hused, hps, rfl, rfl⟩)⟩
    next hps =>
      have hwaited := waitedOf_exited hps
      -- either way the slot is given up
      have hdetach : forall p : ProcessT, p.channel = (m.processes s).channel ->
          p.restartGap = (m.processes s).restartGap ->
          Kept (detach m s p) ∧ Emptied m (detach m s p) s := by
        intro p hchannel hgap
        obtain ⟨hkept, heq⟩ := h.after_detach hused hchannel
        rw [hwaited] at hkept
        have hunused : ¬ ProcessT.Used { p with
            pid := ngxInvalidPid, channel := (ngxInvalidFile, ngxInvalidFile) } :=
          fun hbad => hbad rfl
        exact ⟨hkept, Emptied.of_detach hunused hgap heq⟩
      split at hturn
      next =>
        cases hturn
        obtain ⟨hkept, hempty⟩ := hdetach { m.processes s with ow := false } rfl rfl
        exact ⟨hkept, Or.inr (Or.inr (Or.inl ⟨hused, hps, hempty, rfl⟩))⟩
      next =>
        obtain ⟨hkept, hempty⟩ := hdetach { m.processes s with ps := statusExited } rfl rfl
        split at hturn
        next =>
          cases hturn
          exact ⟨hkept, Or.inr (Or.inr (Or.inl ⟨hused, hps, hempty, rfl⟩))⟩
        next hlate =>
          obtain ⟨r, hspawn, hr⟩ := Option.map_eq_some_iff.mp hturn
          cases hr
          rw [hempty.tvSec] at hlate
          obtain ⟨hkept', hcases⟩ := spawnAt_emptied (k := k) (r := r.2) hkept hempty hs
            (Int.not_le.mp hlate) hspawn
          refine ⟨hkept', ?_⟩
          rcases hcases with ⟨hr, hempty'⟩ | ⟨hr, hrestarted⟩
          · exact Or.inr (Or.inr (Or.inl ⟨hused, hps, hempty', if_pos hr⟩))
          · exact Or.inr (Or.inr (Or.inr ⟨hused, hps, hrestarted, if_neg hr⟩))

theorem reapTurn_spec (h : Kept m) (hmixed : Mixed m s) (hs : s < m.processLast)
    (hturn : reapTurn m live k s = some (m', live')) :
    Kept m' ∧ Mixed m' (s + 1) ∧ m'.processLast = m.processLast ∧
      m'.forgotten = m.forgotten ∧ m'.sent = m.sent ∧ m'.returned = m.returned ∧
      (live' = true ↔ live = true ∨ (m'.processes s).Used) ∧
      forall t, t ≠ s -> m'.processes t = m.processes t := by
  have hsettled : forall other : (forall t, t ≠ s -> m'.processes t = m.processes t),
      ((m'.processes s).Used -> (m'.processes s).ps = statusRunning) -> Mixed m' (s + 1) := by
    intro hother hat t ht
    rcases Decidable.eq_or_ne t s with rfl | hne
    · exact Or.inl (hat ht)
    · rw [hother t hne] at ht ⊢
      rcases hmixed t ht with hrun | ⟨hle, hexited⟩
      · exact Or.inl hrun
      · exact Or.inr ⟨by omega, hexited⟩
  obtain ⟨hkept, hcases⟩ := reapTurn_cases h hs hturn
  refine ⟨hkept, ?_⟩
  rcases hcases with ⟨hfree, heq, hlive⟩ | ⟨hused, hps, heq, hlive⟩ |
    ⟨hused, hps, hempty, hlive⟩ | ⟨hused, hps, hrestarted, hlive⟩
  · subst heq
    refine ⟨hsettled (fun _ _ => rfl) (fun hbad => absurd hbad hfree), rfl, rfl, rfl, rfl,
      ?_, fun _ _ => rfl⟩
    rw [hlive]
    exact ⟨Or.inl, fun h => h.resolve_right hfree⟩
  · have hsame : m'.processes = m.processes := by rw [heq]
    have hrun : (m'.processes s).ps = statusRunning := by
      rw [hsame]
      rcases hmixed s hused with hrun | ⟨-, hexited⟩
      · exact hrun
      · rw [hexited] at hps
        exact absurd hps (by decide)
    refine ⟨hsettled (fun t _ => by rw [hsame]) (fun _ => hrun), by rw [heq], by rw [heq],
      by rw [heq], by rw [heq], ?_, fun t _ => by rw [hsame]⟩
    rw [hlive, hsame]
    exact ⟨fun _ => Or.inr hused, fun _ => rfl⟩
  · refine ⟨hsettled hempty.other (fun hbad => absurd hbad hempty.unused), hempty.last,
      hempty.forgotten, hempty.sent, hempty.returned, ?_, hempty.other⟩
    rw [hlive]
    exact ⟨Or.inl, fun h => h.resolve_right hempty.unused⟩
  · refine ⟨hsettled hrestarted.other (fun _ => hrestarted.running), hrestarted.last,
      hrestarted.forgotten, hrestarted.sent, hrestarted.returned, ?_, hrestarted.other⟩
    rw [hlive]
    exact ⟨fun _ => Or.inr hrestarted.used, fun _ => rfl⟩

theorem reapTurn_isSome (m : Master) (hs : s < processesMax) (live : Bool) (k : Kernel) :
    (reapTurn m live k s).isSome = true := by
  unfold reapTurn
  dsimp only
  split
  · rfl
  · split
    · rfl
    · split
      · rfl
      · split
        · rfl
        · rw [Option.isSome_map]
          exact spawnAt_isSome hs _ _ _ _

end Reaping

/-- The slots below `n` are settled, and `live` tells whether one of them has a
process. -/
theorem reapLoop_spec {m : Master} {n : Nat} (ks : Nat -> Kernel)
    (h : Kept m) (hmixed : Mixed m 0) (hn : n ≤ m.processLast) :
    exists m' live, reapLoop m ks n = some (m', live) ∧ Kept m' ∧ Mixed m' n ∧
      m'.processLast = m.processLast ∧ m'.forgotten = m.forgotten ∧ m'.sent = m.sent ∧
      m'.returned = m.returned ∧
      (live = true ↔ exists s, s < n ∧ (m'.processes s).Used) := by
  induction n with
  | zero =>
      refine ⟨m, false, rfl, h, hmixed, rfl, rfl, rfl, rfl, ?_⟩
      constructor
      · intro hbad
        cases hbad
      · intro hbad
        obtain ⟨s, hs, -⟩ := hbad
        exact absurd hs (Nat.not_lt_zero s)
  | succ n ih =>
      obtain ⟨m1, live1, hloop, hkept, hmixed1, hlast, hforgotten, hsent, hreturned, hlive⟩ :=
        ih (Nat.le_of_succ_le hn)
      have hn1 : n < m1.processLast := by omega
      have hmax := hkept.last_le
      obtain ⟨⟨m', live'⟩, hturn⟩ := Option.isSome_iff_exists.mp
        (reapTurn_isSome m1 (by omega : n < processesMax) live1 (ks n))
      obtain ⟨hkept', hmixed', hlast', hforgotten', hsent', hreturned', hlive', hother⟩ :=
        reapTurn_spec hkept hmixed1 hn1 hturn
      refine ⟨m', live', ?_, hkept', hmixed', hlast'.trans hlast, hforgotten'.trans hforgotten,
        hsent'.trans hsent, hreturned'.trans hreturned, ?_⟩
      · rw [reapLoop, hloop]
        exact hturn
      · rw [hlive', hlive]
        constructor
        · intro hor
          rcases hor with ⟨s, hs, hused⟩ | hused
          · refine ⟨s, Nat.lt_succ_of_lt hs, ?_⟩
            rw [hother s (Nat.ne_of_lt hs)]
            exact hused
          · exact ⟨n, Nat.lt_succ_self n, hused⟩
        · intro hex
          obtain ⟨s, hs, hused⟩ := hex
          rcases Nat.lt_succ_iff_lt_or_eq.mp hs with hlt | heq
          · rw [hother s (Nat.ne_of_lt hlt)] at hused
            exact Or.inl ⟨s, hlt, hused⟩
          · rw [heq] at hused
            exact Or.inr hused

end Processes
end NgxEpoll
