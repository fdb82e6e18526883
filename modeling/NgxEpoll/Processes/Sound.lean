import NgxEpoll.Processes.Table
import NgxEpoll.Foundation.Runs

/-!
# What the table says

Between two steps the slots with a pid are the children that nobody waited for yet,
and their channels are the channels that are open.

## What a slot holds
-/

namespace NgxEpoll
namespace Processes

open Foundation
open NgxEpoll.Core

def ProcessT.Used (p : ProcessT) : Prop :=
  p.pid ≠ ngxInvalidPid

instance (p : ProcessT) : Decidable p.Used :=
  inferInstanceAs (Decidable (p.pid ≠ ngxInvalidPid))

def channelsOf (p : ProcessT) : List Int :=
  if p.Used then [p.channel.1, p.channel.2] else []

def pidsOf (p : ProcessT) : List Int :=
  if p.Used then [p.pid] else []

/-- The child of a slot, unless `process_get_status` waited for it. -/
def waitedOf (p : ProcessT) : List Int :=
  if p.Used ∧ p.ps &&& statusExited = 0 then [p.pid] else []

def Image.held (i : Image) (f : ProcessT -> List Int) : List Int :=
  gather (fun s => f (i.processes s)) i.processLast

@[simp]
theorem channelsOf_unused {p : ProcessT} (h : ¬ p.Used) : channelsOf p = [] :=
  if_neg h

@[simp]
theorem waitedOf_unused {p : ProcessT} (h : ¬ p.Used) : waitedOf p = [] :=
  if_neg fun hp => h hp.1

theorem channelsOf_used {p : ProcessT} (h : p.Used) :
    channelsOf p = [p.channel.1, p.channel.2] :=
  if_pos h

theorem waitedOf_running {p : ProcessT} (h : p.Used) (hps : p.ps &&& statusExited = 0) :
    waitedOf p = [p.pid] :=
  if_pos ⟨h, hps⟩

theorem waitedOf_exited {p : ProcessT} (hps : p.ps &&& statusExited ≠ 0) :
    waitedOf p = [] :=
  if_neg fun hp => hps hp.2

theorem Image.mem_held {i : Image} {f : ProcessT -> List Int} {x : Int} :
    x ∈ i.held f ↔ exists s, s < i.processLast ∧ x ∈ f (i.processes s) :=
  mem_gather

/-- What a new worker has: its slot is free in its copy of the table, and its channel is
open beside those of the other slots and the pairs that were lost. -/
structure Fork.Fits (e : Fork) : Prop where
  slot : e.image.processSlot = e.slot
  free : ¬ (e.image.processes e.slot).Used
  valid : ngxInvalidFile ∉ e.image.opened
  strays : e.image.strays = []
  opened : exists leaked, leaked.length = 2 * e.image.unowned ∧
    e.image.opened.Perm ((e.image.processes e.slot).channel.1 ::
      (e.image.processes e.slot).channel.2 :: (e.image.held channelsOf ++ leaked))

/-- What is true of the table, of the children and of the open channels in the middle
of a step. -/
structure Kept (m : Master) : Prop where
  last_le : m.processLast ≤ processesMax
  free : forall s, m.processLast ≤ s -> ¬ (m.processes s).Used
  opened_nodup : m.opened.Nodup
  opened_valid : ngxInvalidFile ∉ m.opened
  opened : exists leaked, leaked.length = 2 * m.unowned ∧
    m.opened.Perm (m.held channelsOf ++ leaked)
  strays : m.strays = []
  children_nodup : m.children.Nodup
  children_valid : ngxInvalidPid ∉ m.children
  children : m.children.Perm (m.held waitedOf ++ m.forgotten)
  forks : forall e, e ∈ m.forks -> e.Fits

structure Sound (m : Master) : Prop where
  kept : Kept m
  running : forall s, (m.processes s).Used -> (m.processes s).ps = statusRunning

theorem sound_masterInit (second : Int) : Sound (masterInit second) := by
  constructor
  · constructor
    · exact Nat.zero_le _
    · intro s _ h
      exact h rfl
    · exact List.nodup_nil
    · exact List.not_mem_nil
    · exact ⟨[], rfl, List.Perm.refl _⟩
    · rfl
    · exact List.nodup_nil
    · exact List.not_mem_nil
    · exact List.Perm.refl _
    · intro e he
      cases he
  · intro s h
    exact absurd rfl h

section Slots

variable {m : Master} {s : Nat}

theorem Image.held_congr {i i' : Image} {f : ProcessT -> List Int}
    (hlast : i'.processLast = i.processLast)
    (hsame : forall t, t < i.processLast -> f (i'.processes t) = f (i.processes t)) :
    i'.held f = i.held f := by
  unfold Image.held
  rw [hlast]
  exact gather_congr hsame

theorem Kept.congr {m' : Master} (h : Kept m)
    (hused : forall t, (m'.processes t).Used -> (m.processes t).Used)
    (hchannels : forall t, channelsOf (m'.processes t) = channelsOf (m.processes t))
    (hwaited : forall t, waitedOf (m'.processes t) = waitedOf (m.processes t))
    (hlast : m'.processLast = m.processLast) (hopened : m'.opened = m.opened)
    (hunowned : m'.unowned = m.unowned) (hstrays : m'.strays = m.strays)
    (hforgotten : m'.forgotten = m.forgotten) (hforks : m'.forks = m.forks)
    (hchildren : m'.children.Perm m.children) : Kept m' := by
  constructor
  · rw [hlast]
    exact h.last_le
  · rw [hlast]
    exact fun t ht hbad => h.free t ht (hused t hbad)
  · rw [hopened]
    exact h.opened_nodup
  · rw [hopened]
    exact h.opened_valid
  · rw [hopened, hunowned, Image.held_congr hlast fun t _ => hchannels t]
    exact h.opened
  · rw [hstrays]
    exact h.strays
  · exact hchildren.nodup_iff.mpr h.children_nodup
  · exact fun hbad => h.children_valid (hchildren.mem_iff.mp hbad)
  · rw [Image.held_congr hlast fun t _ => hwaited t, hforgotten]
    exact hchildren.trans h.children
  · rw [hforks]
    exact h.forks

theorem Kept.frame {m' : Master} (h : Kept m) (himage : m'.toImage = m.toImage)
    (hforgotten : m'.forgotten = m.forgotten) (hforks : m'.forks = m.forks)
    (hchildren : m'.children.Perm m.children) : Kept m' :=
  h.congr (fun t => by rw [himage]; exact id) (fun t => by rw [himage])
    (fun t => by rw [himage]) (by rw [himage]) (by rw [himage]) (by rw [himage])
    (by rw [himage]) hforgotten hforks hchildren

theorem Kept.lt_last (h : Kept m) (hs : (m.processes s).Used) :
    s < m.processLast := by
  rcases Nat.lt_or_ge s m.processLast with hlt | hge
  · exact hlt
  · exact absurd hs (h.free s hge)

theorem Image.held_clear {i i' : Image} {f : ProcessT -> List Int}
    (hlast : i'.processLast = i.processLast) (hs : s < i.processLast)
    (hsame : forall t, t ≠ s -> i'.processes t = i.processes t)
    (hnil : f (i'.processes s) = []) :
    (i.held f).Perm (f (i.processes s) ++ i'.held f) := by
  unfold Image.held
  rw [hlast]
  exact gather_clear hs (fun t ht => by rw [hsame t ht]) hnil

theorem Image.held_fill {i i' : Image} {f : ProcessT -> List Int}
    (hnone : forall p : ProcessT, ¬ p.Used -> f p = [])
    (hfree : forall t, i.processLast ≤ t -> ¬ (i.processes t).Used)
    (hle : i.processLast ≤ i'.processLast) (hs : s < i'.processLast)
    (hsame : forall t, t ≠ s -> i'.processes t = i.processes t)
    (hnil : f (i.processes s) = []) :
    (i'.held f).Perm (f (i'.processes s) ++ i.held f) := by
  have hold : i.held f = gather (fun t => f (i.processes t)) i'.processLast :=
    (gather_of_nil (fun t ht => hnone _ (hfree t ht)) hle).symm
  rw [hold]
  exact gather_fill hs (fun t ht => by rw [hsame t ht]) hnil

end Slots

/-!
## Closing a channel
-/

section Closing

variable {m : Master} {s : Nat} {p : ProcessT}

theorem setProcess_same (m : Master) (s : Nat) (p : ProcessT) :
    (m.setProcess s p).processes s = p := by
  simp only [Master.setProcess, Function.update_self]

theorem setProcess_other {t : Nat} (ht : t ≠ s) :
    (m.setProcess s p).processes t = m.processes t := by
  simp only [Master.setProcess, Function.update_of_ne ht]

theorem Image.closeFd_open {i : Image} {fd : Int} (h : fd ∈ i.opened) :
    i.closeFd fd = { i with opened := i.opened.erase fd } :=
  if_pos (List.contains_iff_mem.mpr h)

theorem closeFd_open {fd : Int} (h : fd ∈ m.opened) :
    m.closeFd fd = { m with opened := m.opened.erase fd } := by
  unfold Master.closeFd
  rw [Image.closeFd_open h]

theorem channelClose_open (h1 : (m.processes s).channel.1 ∈ m.opened)
    (h2 : (m.processes s).channel.2 ∈ m.opened.erase (m.processes s).channel.1) :
    m.channelClose s =
      { m with
        opened := (m.opened.erase (m.processes s).channel.1).erase
          (m.processes s).channel.2 } := by
  unfold Master.channelClose
  rw [closeFd_open h1, closeFd_open h2]

theorem detach_eq (h1 : p.channel.1 ∈ m.opened)
    (h2 : p.channel.2 ∈ m.opened.erase p.channel.1) :
    detach m s p =
      { m.setProcess s
          { p with pid := ngxInvalidPid, channel := (ngxInvalidFile, ngxInvalidFile) } with
        opened := (m.opened.erase p.channel.1).erase p.channel.2 } := by
  unfold detach
  rw [channelClose_open (by rw [setProcess_same]; exact h1)
    (by rw [setProcess_same]; exact h2), setProcess_same]
  simp only [Master.setProcess, Function.update_idem]

/-- A slot is given up: its channel is closed; the child, if nobody waited for it, is
forgotten. -/
theorem Kept.after_detach (h : Kept m) (hs : (m.processes s).Used)
    (hp : p.channel = (m.processes s).channel) :
    let m' := detach m s p
    Kept { m' with forgotten := waitedOf (m.processes s) ++ m.forgotten } ∧
      m' = { m.setProcess s
          { p with pid := ngxInvalidPid, channel := (ngxInvalidFile, ngxInvalidFile) } with
        opened := m'.opened } := by
  obtain ⟨leaked, hleaked, hperm⟩ := h.opened
  have hlast := h.lt_last hs
  have hunused : ¬ ProcessT.Used
      { p with pid := ngxInvalidPid, channel := (ngxInvalidFile, ngxInvalidFile) } :=
    fun hused => hused rfl
  have hclear : forall f : ProcessT -> List Int, (forall q : ProcessT, ¬ q.Used -> f q = []) ->
      (m.held f).Perm (f (m.processes s) ++ (m.setProcess s { p with
        pid := ngxInvalidPid, channel := (ngxInvalidFile, ngxInvalidFile) }).held f) := by
    intro f hf
    refine Image.held_clear rfl hlast (fun t ht => setProcess_other ht) ?_
    rw [setProcess_same]
    exact hf _ hunused
  have hchannels := hclear channelsOf fun q hq => channelsOf_unused hq
  rw [channelsOf_used hs, ← hp] at hchannels
  -- the two ends stand in front of everything else that is open
  have hfront : m.opened.Perm (p.channel.1 :: p.channel.2 :: ((m.setProcess s { p with
      pid := ngxInvalidPid, channel := (ngxInvalidFile, ngxInvalidFile) }).held channelsOf ++
        leaked)) :=
    hperm.trans (hchannels.append_right leaked)
  have h1 : p.channel.1 ∈ m.opened := hfront.mem_iff.mpr (by simp)
  have hrest := hfront.erase p.channel.1
  rw [List.erase_cons_head] at hrest
  have h2 : p.channel.2 ∈ m.opened.erase p.channel.1 := hrest.mem_iff.mpr (by simp)
  have hrest2 := hrest.erase p.channel.2
  rw [List.erase_cons_head] at hrest2
  have heq := detach_eq (s := s) h1 h2
  dsimp only
  rw [heq]
  constructor
  · constructor
    · exact h.last_le
    · intro t ht
      rcases Decidable.eq_or_ne t s with rfl | hne
      · exact absurd hlast (Nat.not_lt.mpr ht)
      · change ¬ ((m.setProcess s _).processes t).Used
        rw [setProcess_other hne]
        exact h.free t ht
    · exact (h.opened_nodup.erase _).erase _
    · exact fun hbad => h.opened_valid (List.mem_of_mem_erase (List.mem_of_mem_erase hbad))
    · exact ⟨leaked, hleaked, hrest2⟩
    · exact h.strays
    · exact h.children_nodup
    · exact h.children_valid
    · refine h.children.trans ?_
      have hwaited := hclear waitedOf fun q hq => waitedOf_unused hq
      refine (hwaited.append_right m.forgotten).trans ?_
      rw [List.append_assoc]
      exact List.perm_append_comm_assoc _ _ _
    · exact h.forks
  · rfl

end Closing

/-!
## Starting a process
-/

section Spawning

variable {m m' : Master} {k : Kernel} {job : Job} {s : Nat}
  {auto : Bool} {pid : Int}

/-- A free slot whose channel is set, where the channel is open or closed again. -/
def opening (m : Master) (s slot : Nat) (channel : Int × Int) (opened : List Int)
    (unowned : Nat) : Master :=
  { m.setProcess s { m.processes s with channel := channel } with
    processSlot := slot
    opened := opened
    unowned := unowned }

theorem channelClose_opening (a b : Int) (u slot : Nat) :
    (opening m s slot (a, b) (a :: b :: m.opened) u).channelClose s =
      opening m s slot (a, b) m.opened u := by
  have hchannel : ((opening m s slot (a, b) (a :: b :: m.opened) u).processes s).channel =
      (a, b) := by
    change ((m.setProcess s _).processes s).channel = _
    rw [setProcess_same]
  rw [channelClose_open]
  · rw [hchannel]
    change opening m s slot (a, b) (((a :: b :: m.opened).erase a).erase b) u = _
    rw [List.erase_cons_head, List.erase_cons_head]
  · rw [hchannel]
    exact List.mem_cons_self
  · rw [hchannel]
    change b ∈ (a :: b :: m.opened).erase a
    rw [List.erase_cons_head]
    exact List.mem_cons_self

/-- What `openChannel` leaves: nothing open, or a pair of new descriptors, which stays
open where `F_SETOWN` fails. -/
theorem openChannel_cases (m : Master) (k : Kernel) (s : Nat) :
    (exists channel, openChannel m k s =
      (opening m s m.processSlot channel m.opened m.unowned, false)) ∨
    (exists a b, a ∉ m.opened ∧ b ∉ m.opened ∧ a ≠ b ∧
      ngxInvalidFile ∉ [a, b] ∧ k.setown = false ∧
      openChannel m k s =
        (opening m s m.processSlot (a, b) (a :: b :: m.opened) (m.unowned + 1), false)) ∨
    (exists a b, a ∉ m.opened ∧ b ∉ m.opened ∧ a ≠ b ∧
      a ≠ ngxInvalidFile ∧ b ≠ ngxInvalidFile ∧
      openChannel m k s = (opening m s s (a, b) (a :: b :: m.opened) m.unowned, true)) := by
  unfold openChannel
  split
  next hnone =>
    refine Or.inl ⟨(m.processes s).channel, ?_⟩
    simp only [opening, Master.setProcess, Function.update_eq_self]
  next a b hpair =>
    obtain ⟨ha, hb, hab, hafile, hbfile⟩ := k.fresh _ _ _ hpair
    have hclosed : (opening m s m.processSlot (a, b) (a :: b :: m.opened)
        m.unowned).channelClose s = opening m s m.processSlot (a, b) m.opened m.unowned :=
      channelClose_opening a b m.unowned m.processSlot
    have hleft : forall r, r = ((opening m s m.processSlot (a, b) (a :: b :: m.opened)
          m.unowned).channelClose s, false) ->
        exists channel, r = (opening m s m.processSlot channel m.opened m.unowned, false) :=
      fun r hr => ⟨(a, b), by rw [hr, hclosed]⟩
    dsimp only
    split
    · exact Or.inl (hleft _ rfl)
    · split
      · exact Or.inl (hleft _ rfl)
      · split
        · exact Or.inl (hleft _ rfl)
        · split
          next hown =>
            have hvalid : ngxInvalidFile ∉ [a, b] := by
              simp [hafile.symm, hbfile.symm]
            exact Or.inr (Or.inl ⟨a, b, ha, hb, hab, hvalid, by simpa using hown, rfl⟩)
          next =>
            split
            · exact Or.inl (hleft _ rfl)
            · split
              · exact Or.inl (hleft _ rfl)
              · exact Or.inr (Or.inr ⟨a, b, ha, hb, hab, hafile, hbfile, rfl⟩)

/-- What `process_spawn` leaves: a free slot that is as free as before, or a process
that runs. -/
theorem spawnAt_cases {r : Int} (h : spawnAt m k job s auto = some (m', r)) :
    s < processesMax ∧
    ((r = ngxInvalidPid ∧ exists slot channel,
        m' = opening m s slot channel m.opened m.unowned) ∨
      (r = ngxInvalidPid ∧ exists a b, a ∉ m.opened ∧ b ∉ m.opened ∧ a ≠ b ∧
        ngxInvalidFile ∉ [a, b] ∧
        m' = opening m s m.processSlot (a, b) (a :: b :: m.opened) (m.unowned + 1)) ∨
      (r ≠ ngxInvalidPid ∧ r ∉ m.children ∧ exists a b,
        a ∉ m.opened ∧ b ∉ m.opened ∧ a ≠ b ∧ a ≠ ngxInvalidFile ∧ b ≠ ngxInvalidFile ∧
        m' = spawned (opening m s s (a, b) (a :: b :: m.opened) m.unowned) job s auto r)) := by
  unfold spawnAt at h
  split at h
  next hlt =>
    refine ⟨hlt, ?_⟩
    rcases openChannel_cases m k s with ⟨channel, heq⟩ |
      ⟨a, b, ha, hb, hab, hvalid, -, heq⟩ | ⟨a, b, ha, hb, hab, hafile, hbfile, heq⟩
    · rw [heq] at h
      cases h
      exact Or.inl ⟨rfl, m.processSlot, channel, rfl⟩
    · rw [heq] at h
      cases h
      exact Or.inr (Or.inl ⟨rfl, a, b, ha, hb, hab, hvalid, rfl⟩)
    · rw [heq] at h
      dsimp only at h
      split at h
      · cases h
        exact Or.inl ⟨rfl, s, (a, b), channelClose_opening a b m.unowned s⟩
      next pid hfork =>
        cases h
        obtain ⟨hpid, hvalid⟩ := k.freshPid _ _ hfork
        exact Or.inr (Or.inr ⟨hvalid, hpid, a, b, ha, hb, hab, hafile, hbfile, rfl⟩)
  next => cases h

theorem spawnAt_isSome (h : s < processesMax) (m : Master) (k : Kernel) (job : Job)
    (auto : Bool) : (spawnAt m k job s auto).isSome = true := by
  unfold spawnAt
  rw [if_pos h]
  split
  · rfl
  · split <;> rfl

theorem held_opening {f : ProcessT -> List Int} (hnone : forall p : ProcessT, ¬ p.Used -> f p = [])
    (hs : ¬ (m.processes s).Used) (slot : Nat) (channel : Int × Int) (opened : List Int)
    (unowned : Nat) : (opening m s slot channel opened unowned).held f = m.held f := by
  refine Image.held_congr rfl fun t _ => ?_
  change f ((m.setProcess s _).processes t) = _
  rcases Decidable.eq_or_ne t s with rfl | hne
  · rw [setProcess_same, hnone _ hs]
    exact hnone _ hs
  · rw [setProcess_other hne]

theorem opening_used (hs : ¬ (m.processes s).Used) {slot : Nat} {channel : Int × Int}
    {opened : List Int} {unowned t : Nat} :
    ((opening m s slot channel opened unowned).processes t).Used ↔
      (m.processes t).Used := by
  change ((m.setProcess s _).processes t).Used ↔ _
  rcases Decidable.eq_or_ne t s with rfl | hne
  · rw [setProcess_same]
    rfl
  · rw [setProcess_other hne]

theorem Kept.after_opening (h : Kept m) (hs : ¬ (m.processes s).Used) (slot : Nat)
    (channel : Int × Int) {opened : List Int} (lost : List Int) {unowned : Nat}
    (hopened : opened = lost ++ m.opened) (hnodup : opened.Nodup)
    (hvalid : ngxInvalidFile ∉ lost)
    (hlost : lost.length + 2 * m.unowned = 2 * unowned) :
    Kept (opening m s slot channel opened unowned) := by
  constructor
  · exact h.last_le
  · intro t ht hused
    exact h.free t ht ((opening_used hs).mp hused)
  · exact hnodup
  · change ngxInvalidFile ∉ opened
    rw [hopened]
    intro hbad
    rcases List.mem_append.mp hbad with hin | hin
    · exact hvalid hin
    · exact h.opened_valid hin
  · obtain ⟨leaked, hleaked, hperm⟩ := h.opened
    refine ⟨lost ++ leaked, ?_, ?_⟩
    · change (lost ++ leaked).length = 2 * unowned
      rw [List.length_append]
      omega
    · rw [held_opening (fun p hp => channelsOf_unused hp) hs]
      change opened.Perm _
      rw [hopened]
      refine (hperm.append_left lost).trans ?_
      rw [← List.append_assoc, ← List.append_assoc]
      exact List.perm_append_comm.append_right leaked
  · exact h.strays
  · exact h.children_nodup
  · exact h.children_valid
  · rw [held_opening (fun p hp => waitedOf_unused hp) hs]
    exact h.children
  · exact h.forks

theorem spawned_at (m : Master) (job : Job) (s : Nat) (auto : Bool) (pid a b : Int) :
    (spawned (opening m s s (a, b) (a :: b :: m.opened) m.unowned) job s auto pid).processes s =
      { m.processes s with
        pid := pid
        channel := (a, b)
        job := job
        ps := statusRunning
        ow := false
        restartGap := (m.tvSec % 2 ^ 32).toNat } := by
  simp only [spawned, opening, Master.setProcess, Function.update_self]

theorem spawned_other (m : Master) (job : Job) (s : Nat) (auto : Bool) (pid a b : Int)
    (t : Nat) (ht : t ≠ s) :
    (spawned (opening m s s (a, b) (a :: b :: m.opened) m.unowned) job s auto pid).processes t =
      m.processes t := by
  simp only [spawned, opening, Master.setProcess, Function.update_of_ne ht]

theorem spawned_last_le (hlast : s ≤ m.processLast) (job : Job) (auto : Bool)
    (pid a b : Int) :
    let m' := spawned (opening m s s (a, b) (a :: b :: m.opened) m.unowned) job s auto pid
    m.processLast ≤ m'.processLast ∧ s < m'.processLast ∧
      (m'.processLast = m.processLast ∨ m'.processLast = s + 1) := by
  dsimp only
  change m.processLast ≤ (if s = m.processLast then m.processLast + 1 else m.processLast) ∧
    s < (if s = m.processLast then m.processLast + 1 else m.processLast) ∧ _
  split
  next heq =>
    refine ⟨Nat.le_succ _, by omega, Or.inr ?_⟩
    change (if s = m.processLast then _ else _) = _
    rw [if_pos heq, heq]
    rfl
  next hne =>
    refine ⟨Nat.le_refl _, by omega, Or.inl ?_⟩
    change (if s = m.processLast then _ else _) = _
    rw [if_neg hne]
    rfl

theorem Kept.fits (h : Kept m) (hs : ¬ (m.processes s).Used) {a b : Int}
    (hafile : a ≠ ngxInvalidFile) (hbfile : b ≠ ngxInvalidFile) (pid : Int) (auto : Bool) :
    Fork.Fits
      { slot := s, pid := pid, second := m.tvSec, auto := auto
        image := (opening m s s (a, b) (a :: b :: m.opened) m.unowned).toImage } := by
  have hchannel : ((opening m s s (a, b) (a :: b :: m.opened) m.unowned).processes s).channel =
      (a, b) := by
    change ((m.setProcess s _).processes s).channel = _
    rw [setProcess_same]
  constructor
  · rfl
  · exact fun hused => hs ((opening_used hs).mp hused)
  · intro hmem
    rcases List.mem_cons.mp hmem with heq | hin
    · exact hafile heq.symm
    · rcases List.mem_cons.mp hin with heq | hold
      · exact hbfile heq.symm
      · exact h.opened_valid hold
  · exact h.strays
  · obtain ⟨leaked, hleaked, hperm⟩ := h.opened
    refine ⟨leaked, hleaked, ?_⟩
    dsimp only
    rw [hchannel, held_opening (fun p hp => channelsOf_unused hp) hs]
    exact (hperm.cons b).cons a

theorem Kept.after_spawned (h : Kept m) (hs : ¬ (m.processes s).Used)
    (hlast : s ≤ m.processLast) (hmax : s < processesMax) {a b : Int}
    (ha : a ∉ m.opened) (hb : b ∉ m.opened) (hab : a ≠ b) (hpid : pid ≠ ngxInvalidPid)
    (hfresh : pid ∉ m.children) (hafile : a ≠ ngxInvalidFile) (hbfile : b ≠ ngxInvalidFile) :
    Kept (spawned (opening m s s (a, b) (a :: b :: m.opened) m.unowned) job s auto pid) := by
  have hat := spawned_at m job s auto pid a b
  have hother := spawned_other m job s auto pid a b
  have hused : (ProcessT.Used
      ((spawned (opening m s s (a, b) (a :: b :: m.opened) m.unowned) job s auto pid).processes
        s)) := by
    rw [hat]
    exact hpid
  have hle := spawned_last_le hlast job auto pid a b
  have hfits := h.fits hs hafile hbfile pid auto
  generalize hm' : spawned (opening m s s (a, b) (a :: b :: m.opened) m.unowned)
    job s auto pid = m' at hat hother hused hle ⊢
  have hfill : forall f : ProcessT -> List Int, (forall p : ProcessT, ¬ p.Used -> f p = []) ->
      (m'.held f).Perm (f (m'.processes s) ++ m.held f) := fun f hf =>
    Image.held_fill hf h.free hle.1 hle.2.1 hother (hf _ hs)
  have hopened : m'.opened = a :: b :: m.opened := by rw [← hm']; rfl
  have hchildren : m'.children = pid :: m.children := by rw [← hm']; rfl
  have hunowned : m'.unowned = m.unowned := by rw [← hm']; rfl
  have hstrays : m'.strays = m.strays := by rw [← hm']; rfl
  have hforgotten : m'.forgotten = m.forgotten := by rw [← hm']; rfl
  constructor
  · have hcases := hle.2.2
    have hmlast := h.last_le
    omega
  · intro t ht
    have hne : t ≠ s := fun heq => absurd hle.2.1 (Nat.not_lt.mpr (heq ▸ ht))
    rw [hother t hne]
    exact h.free t (Nat.le_trans hle.1 ht)
  · rw [hopened]
    refine List.nodup_cons.mpr ⟨?_, List.nodup_cons.mpr ⟨hb, h.opened_nodup⟩⟩
    intro hmem
    rcases List.mem_cons.mp hmem with heq | hin
    · exact hab heq
    · exact ha hin
  · rw [hopened]
    intro hmem
    rcases List.mem_cons.mp hmem with heq | hin
    · exact hafile heq.symm
    · rcases List.mem_cons.mp hin with heq | hold
      · exact hbfile heq.symm
      · exact h.opened_valid hold
  · obtain ⟨leaked, hleaked, hperm⟩ := h.opened
    refine ⟨leaked, by rw [hunowned]; exact hleaked, ?_⟩
    have hheld := hfill channelsOf fun p hp => channelsOf_unused hp
    rw [channelsOf_used hused, hat] at hheld
    rw [hopened]
    exact ((hperm.cons b).cons a).trans (hheld.append_right leaked).symm
  · rw [hstrays]
    exact h.strays
  · rw [hchildren]
    exact List.nodup_cons.mpr ⟨hfresh, h.children_nodup⟩
  · rw [hchildren]
    intro hmem
    rcases List.mem_cons.mp hmem with heq | hin
    · exact hpid heq.symm
    · exact h.children_valid hin
  · have hheld := hfill waitedOf fun p hp => waitedOf_unused hp
    have hrunning : (m'.processes s).ps &&& statusExited = 0 := by
      rw [hat]
      change statusRunning &&& statusExited = 0
      decide
    rw [waitedOf_running hused hrunning, hat] at hheld
    rw [hchildren, hforgotten]
    exact (h.children.cons pid).trans (hheld.append_right m.forgotten).symm
  · intro e he
    rw [← hm'] at he
    rcases List.mem_cons.mp he with rfl | hin
    · exact hfits
    · exact h.forks e hin

end Spawning

end Processes
end NgxEpoll
