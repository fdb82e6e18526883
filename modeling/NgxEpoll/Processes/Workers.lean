import NgxEpoll.Processes.Runs

/-!
# Workers

A new worker keeps the end of its own channel that it reads and the ends of the other
channels that are written.  The master process returns when no worker is left.

## The descriptors of a worker
-/

namespace NgxEpoll
namespace Processes

open Foundation
open NgxEpoll.Core

def closeOtherTurn (i : Image) (s : Nat) : Image :=
  if (i.processes s).pid = ngxInvalidPid then i
  else if s = i.processSlot then i
  else if (i.processes s).channel.2 = ngxInvalidFile then i
  else i.closeFd (i.processes s).channel.2

def closeOtherLoop (i : Image) : Nat -> Image
  | 0 => i
  | n + 1 => closeOtherTurn (closeOtherLoop i n) n

def processCloseOtherChannel (i : Image) : Image :=
  let i := closeOtherLoop i i.processLast
  i.closeFd (i.processes i.processSlot).channel.1

def writtenOf (p : ProcessT) : List Int :=
  if p.Used then [p.channel.1] else []

section Closing

variable {i : Image}

def leftOf (i : Image) (n t : Nat) : List Int :=
  if t < n then writtenOf (i.processes t) else channelsOf (i.processes t)

theorem leftOf_last (i : Image) :
    gather (leftOf i i.processLast) i.processLast = i.held writtenOf :=
  gather_congr fun _ ht => if_pos ht

theorem leftOf_zero (i : Image) : gather (leftOf i 0) i.processLast = i.held channelsOf :=
  gather_congr fun t _ => if_neg (Nat.not_lt_zero t)

theorem leftOf_succ {n : Nat} (hn : n < i.processLast) (hused : (i.processes n).Used) :
    (gather (leftOf i n) i.processLast).Perm
      ((i.processes n).channel.2 :: gather (leftOf i (n + 1)) i.processLast) := by
  have hother : forall t, t ≠ n -> leftOf i (n + 1) t = leftOf i n t := by
    intro t ht
    unfold leftOf
    rcases Nat.lt_or_ge t n with hlt | hge
    · rw [if_pos (Nat.lt_succ_of_lt hlt), if_pos hlt]
    · rw [if_neg (by omega), if_neg (by omega)]
  have hbefore : leftOf i n n = [(i.processes n).channel.1, (i.processes n).channel.2] := by
    unfold leftOf
    rw [if_neg (Nat.lt_irrefl n), channelsOf_used hused]
  have hafter : leftOf i (n + 1) n = [(i.processes n).channel.1] := by
    unfold leftOf
    rw [if_pos (Nat.lt_succ_self n)]
    exact if_pos hused
  have hperm := gather_perm hn hother
  rw [hbefore, hafter] at hperm
  exact (hperm.cons_inv).symm

theorem leftOf_unused {n : Nat} (hunused : ¬ (i.processes n).Used) :
    leftOf i (n + 1) = leftOf i n := by
  funext t
  unfold leftOf
  rcases Nat.lt_trichotomy t n with hlt | heq | hgt
  · rw [if_pos (Nat.lt_succ_of_lt hlt), if_pos hlt]
  · rw [heq, if_pos (Nat.lt_succ_self n), if_neg (Nat.lt_irrefl n),
      channelsOf_unused hunused]
    exact if_neg hunused
  · rw [if_neg (by omega), if_neg (by omega)]

theorem closeOtherLoop_spec {front : List Int} (hslot : ¬ (i.processes i.processSlot).Used)
    (hvalid : ngxInvalidFile ∉ i.opened)
    (hopened : i.opened.Perm (front ++ i.held channelsOf)) {n : Nat}
    (hn : n ≤ i.processLast) :
    closeOtherLoop i n = { i with opened := (closeOtherLoop i n).opened } ∧
      (closeOtherLoop i n).opened.Perm (front ++ gather (leftOf i n) i.processLast) := by
  induction n with
  | zero =>
      refine ⟨rfl, ?_⟩
      rw [leftOf_zero]
      exact hopened
  | succ n ih =>
      obtain ⟨heq, hperm⟩ := ih (Nat.le_of_succ_le hn)
      rw [closeOtherLoop]
      generalize closeOtherLoop i n = j at heq hperm ⊢
      have hprocesses : j.processes = i.processes := by rw [heq]
      have hprocessSlot : j.processSlot = i.processSlot := by rw [heq]
      unfold closeOtherTurn
      rw [hprocesses, hprocessSlot]
      by_cases hused : (i.processes n).Used
      · have hne : n ≠ i.processSlot := fun hbad => hslot (hbad ▸ hused)
        have hsplit := hperm.trans
          ((leftOf_succ hn hused).append_left front |>.trans List.perm_middle)
        have hin : (i.processes n).channel.2 ∈ j.opened :=
          hsplit.mem_iff.mpr List.mem_cons_self
        have hfile : (i.processes n).channel.2 ≠ ngxInvalidFile := by
          intro hbad
          refine hvalid (hopened.mem_iff.mpr (List.mem_append_right _ ?_))
          refine Image.mem_held.mpr ⟨n, hn, ?_⟩
          rw [channelsOf_used hused, ← hbad]
          exact List.mem_cons_of_mem _ List.mem_cons_self
        rw [if_neg hused, if_neg hne, if_neg hfile, Image.closeFd_open hin]
        constructor
        · rw [heq]
        · have herase := hsplit.erase (i.processes n).channel.2
          rw [List.erase_cons_head] at herase
          exact herase
      · rw [if_pos (Decidable.not_not.mp hused)]
        refine ⟨heq, ?_⟩
        rw [leftOf_unused hused]
        exact hperm

end Closing

/-- Every worker that was forked, by `process_start_workers` or again by
`process_reap_workers` in the middle of its loop, keeps of the descriptors that it got
its own reading end, the writing ends of the other workers, and the pairs that the
master process lost. -/
theorem worker_keeps {second : Int} {m : Master}
    (hrun : Reaches step Always (masterInit second) m) {e : Fork} (he : e ∈ m.forks) :
    (processCloseOtherChannel e.image).strays = [] ∧
      exists leaked, leaked.length = 2 * e.image.unowned ∧
        e.image.opened.Perm ((e.image.processes e.slot).channel.1 ::
          (e.image.processes e.slot).channel.2 :: (e.image.held channelsOf ++ leaked)) ∧
        (processCloseOtherChannel e.image).opened.Perm
          ((e.image.processes e.slot).channel.2 :: (e.image.held writtenOf ++ leaked)) := by
  have hfits := (reaches_sound hrun).kept.forks e he
  obtain ⟨leaked, hleaked, hperm⟩ := hfits.opened
  have hslot := hfits.slot
  have hfree : ¬ (e.image.processes e.image.processSlot).Used := by
    rw [hslot]
    exact hfits.free
  have hvalid := hfits.valid
  have hnone := hfits.strays
  generalize e.image = i at hperm hslot hfree hleaked hvalid hnone ⊢
  have hopened : i.opened.Perm (((i.processes e.slot).channel.1 ::
      (i.processes e.slot).channel.2 :: leaked) ++ i.held channelsOf) :=
    hperm.trans ((List.perm_append_comm.cons _).cons _)
  obtain ⟨hloop, hleft⟩ := closeOtherLoop_spec hfree hvalid hopened
    (Nat.le_refl i.processLast)
  rw [leftOf_last] at hleft
  unfold processCloseOtherChannel
  dsimp only
  generalize closeOtherLoop i i.processLast = j at hloop hleft ⊢
  have hown : (j.processes j.processSlot).channel = (i.processes e.slot).channel := by
    rw [hloop]
    change (i.processes i.processSlot).channel = _
    rw [hslot]
  have hstrays : j.strays = [] := by
    rw [hloop]
    exact hnone
  rw [hown, Image.closeFd_open (hleft.mem_iff.mpr List.mem_cons_self)]
  refine ⟨hstrays, leaked, hleaked, hperm, ?_⟩
  have herase := hleft.erase (i.processes e.slot).channel.1
  rw [List.cons_append, List.erase_cons_head] at herase
  exact herase.trans (List.Perm.cons _ List.perm_append_comm)

/-- Two workers were started, and the first one ended and was started again: the worker
keeps the reading end of a new channel, and the writing end of the second one. -/
theorem worker_keeps_again :
    let m := after step (masterInit 0) [Action.startWorkers Kernel.plain emptyProcess.job,
      Action.startWorkers Kernel.plain emptyProcess.job, Action.childEnds 1 0 0,
      Action.timeUpdate 5, Action.setDoing doingReap, Action.turn fun _ => Kernel.plain]
    exists e, e ∈ m.forks ∧ e.auto = false ∧ e.image.opened = [5, 6, 3, 4] ∧
      (processCloseOtherChannel e.image).opened = [6, 3] ∧
      (processCloseOtherChannel e.image).strays = [] := by
  intro m
  have hrun : Reaches step Always (masterInit 0) m :=
    (Reaches.refl _).labels (fun _ _ _ => trivial) (by decide +kernel)
  have hhead : (m.forks.head?.map fun e => (e.auto, e.image.opened,
      (processCloseOtherChannel e.image).opened)) = some (false, [5, 6, 3, 4], [6, 3]) := by
    decide +kernel
  obtain ⟨e, he, heq⟩ := Option.map_eq_some_iff.mp hhead
  obtain ⟨hauto, hopened, hleft⟩ := Prod.ext_iff.mp heq |>.imp_right Prod.ext_iff.mp
  have hin := List.mem_of_head? he
  exact ⟨e, hin, hauto, hopened, hleft, (worker_keeps hrun hin).1⟩

/-!
## The end of the master process
-/

/-- What happens between the start of the workers and the return of
`process_master_cycle`. -/
def InCycle (m : Master) (a : Action) : Prop :=
  m.returned = false ∧ a.Quiet ∧ forall k job, a ≠ Action.startWorkers k job

structure Lives (m : Master) : Prop where
  sound : Sound m
  forgotten : m.forgotten = []
  live : m.live = false -> forall s, ¬ (m.processes s).Used
  returned : m.returned = true -> m.live = false

section Cycle

variable {m m' : Master}

theorem Lives.frame (h : Lives m) (hsound : Sound m') (hforgotten : m'.forgotten = [])
    (hlive : m'.live = m.live) (hreturned : m'.returned = m.returned)
    (hused : forall s, (m'.processes s).Used -> (m.processes s).Used) : Lives m' := by
  refine ⟨hsound, hforgotten, ?_, ?_⟩
  · intro hdead s hs
    rw [hlive] at hdead
    exact h.live hdead s (hused s hs)
  · rw [hlive, hreturned]
    exact h.returned

theorem Lives.masterTurn (h : Lives m) (hsound : Sound m') (hforgotten : m'.forgotten = [])
    {ks : Nat -> Kernel} (hreturned : m.returned = false)
    (hturn : masterTurn m ks = some m') : Lives m' := by
  by_cases hdoing : m.processDoing &&& doingReap = 0
  · unfold Processes.masterTurn at hturn
    split at hturn
    · cases hturn
      exact h
    · rw [if_neg (fun hbad => hbad hdoing)] at hturn
      split at hturn
      next hquit =>
        cases hturn
        exact ⟨hsound, hforgotten, h.live, fun _ => hquit.1⟩
      next =>
        split at hturn
        · cases hturn
          exact h.frame hsound hforgotten rfl rfl (fun _ => id)
        · cases hturn
          exact h
  · rcases h.sound.reapTurn hdoing ks with ⟨-, hnone⟩ |
      ⟨m1, hsome, -, -, -, hsame, -, hlive⟩
    · rw [hnone] at hturn
      cases hturn
    · rw [hsome] at hturn
      cases hturn
      refine ⟨hsound, hforgotten, ?_, ?_⟩
      · intro hdead s hs
        rw [hlive.mpr ⟨s, hs⟩] at hdead
        cases hdead
      · intro hbad
        rw [hsame, hreturned] at hbad
        cases hbad

theorem Lives.step (h : Lives m) {a : Action} (hok : InCycle m a)
    (hstep : step m a = some m') : Lives m' := by
  have hnext := h.sound.next hstep
  have hsound := hnext.sound
  have hforgotten : m'.forgotten = [] := by
    have hsub := hnext.quiet hok.2.1
    rw [h.forgotten] at hsub
    exact List.sublist_nil.mp hsub
  cases a with
  | startWorkers k job => exact absurd rfl (hok.2.2 k job)
  | timeUpdate second =>
      cases hstep
      exact h.frame hsound hforgotten rfl rfl (fun _ => id)
  | childEnds pid status place =>
      cases hstep
      unfold childEnds at hsound hforgotten ⊢
      split at hsound
      next hin =>
        rw [if_pos hin] at hforgotten ⊢
        exact h.frame hsound hforgotten rfl rfl (fun _ => id)
      next hin =>
        rw [if_neg hin]
        exact h
  | setDoing flag =>
      cases hstep
      exact h.frame hsound hforgotten rfl rfl (fun _ => id)
  | turn ks => exact h.masterTurn hsound hforgotten hok.1 hstep
  | setOldWorkers =>
      cases hstep
      refine h.frame hsound hforgotten rfl rfl fun s hs => ?_
      simp only [processSetOldWorkers] at hs
      split at hs
      · exact hs
      · exact hs
  | signalWorkers signo wrote => exact absurd rfl (hok.2.1 signo wrote)

theorem lives_started {second : Int} {k : Kernel} {job : Job}
    (hstart : processStartWorkers (masterInit second) k job = some (m, ngxOk)) :
    Lives m := by
  obtain ⟨m1, r, heq, hsound, hforgotten, -⟩ := (sound_masterInit second).startWorkers k job
  rw [hstart] at heq
  cases heq
  have hkeep : m.live = true ∧ m.returned = false := by
    obtain ⟨⟨m2, r2⟩, hspawn, hr⟩ := Option.map_eq_some_iff.mp hstart
    have h2 : m2.live = true ∧ m2.returned = false := by
      change (if freeSlot (masterInit second) = processesMax then
          some (masterInit second, ngxInvalidPid)
        else spawnAt (masterInit second) k job (freeSlot (masterInit second)) true) =
          some (m2, r2) at hspawn
      split at hspawn
      · cases hspawn
        exact ⟨rfl, rfl⟩
      · obtain ⟨-, hcases⟩ := spawnAt_cases hspawn
        rcases hcases with ⟨-, slot, channel, heq⟩ | ⟨-, a, b, -, -, -, -, heq⟩ |
          ⟨-, -, a, b, -, -, -, -, -, heq⟩
        all_goals
          subst heq
          exact ⟨rfl, rfl⟩
    dsimp only at hr
    split at hr
    · cases hr
    · cases hr
      exact h2
  refine ⟨hsound, hforgotten, ?_, ?_⟩
  · intro hbad
    rw [hkeep.1] at hbad
    cases hbad
  · intro hbad
    rw [hkeep.2] at hbad
    cases hbad

end Cycle

/-- In whatever order the workers end and are started again, `process_master_cycle`
returns when all its children ended and were waited for. -/
theorem returns_alone {second : Int} {k : Kernel} {job : Job} {started m : Master}
    (hstart : processStartWorkers (masterInit second) k job = some (started, ngxOk))
    (hrun : Reaches step InCycle started m) (hreturned : m.returned = true) :
    m.children = [] := by
  have h : Lives m :=
    hrun.invariant Lives (fun t a u ht hok hstep => ht.step hok hstep) (lives_started hstart)
  have hnone : m.held waitedOf = [] := by
    refine List.eq_nil_iff_forall_not_mem.mpr fun x hx => ?_
    obtain ⟨s, -, hin⟩ := Image.mem_held.mp hx
    exact h.live (h.returned hreturned) s (mem_waitedOf.mp hin).1
  have hchildren := h.sound.kept.children
  rw [hnone, h.forgotten] at hchildren
  exact hchildren.eq_nil

/-- A worker ends in the second in which it was started, and the master process is told
to quit. -/
theorem returns_alone_quit :
    let run := fun m a => after step m [a]
    let started := run (masterInit 0) (Action.startWorkers Kernel.plain emptyProcess.job)
    let told := run (run started (Action.childEnds 1 0 0)) (Action.setDoing 5)
    let m := run (run told (Action.turn fun _ => Kernel.plain))
      (Action.turn fun _ => Kernel.plain)
    m.returned = true ∧ m.children = [] := by
  have hok : forall (m : Master) a, m.returned = false ->
      (forall signo wrote, a ≠ Action.signalWorkers signo wrote) ->
      (forall k job, a ≠ Action.startWorkers k job) -> InCycle m a :=
    fun _ _ h1 h2 h3 => ⟨h1, h2, h3⟩
  have hstart : processStartWorkers (masterInit 0) Kernel.plain emptyProcess.job =
      some (after step (masterInit 0) [Action.startWorkers Kernel.plain emptyProcess.job],
        ngxOk) := rfl
  refine ⟨by decide +kernel, returns_alone hstart ?_ (by decide +kernel)⟩
  refine Reaches.oneLabel ?_ (hok _ _ (by decide +kernel) (fun _ _ h => nomatch h)
    (fun _ _ h => nomatch h)) (by decide +kernel)
  refine Reaches.oneLabel ?_ (hok _ _ (by decide +kernel) (fun _ _ h => nomatch h)
    (fun _ _ h => nomatch h)) (by decide +kernel)
  refine Reaches.oneLabel ?_ (hok _ _ (by decide +kernel) (fun _ _ h => nomatch h)
    (fun _ _ h => nomatch h)) (by decide +kernel)
  exact Reaches.oneLabel (Reaches.refl _) (hok _ _ (by decide +kernel)
    (fun _ _ h => nomatch h) (fun _ _ h => nomatch h)) (by decide +kernel)

end Processes
end NgxEpoll
