import NgxEpoll.Server.Lives

/-!
# The accounts of the task nodes

`count`, `free_task` and `out_task` agree in every state of every run.
-/

namespace NgxEpoll
namespace Server

open Foundation
open NgxEpoll.Core
open Common
open Request
open Relation

def outstanding (mc : NnConn) : List Nat :=
  (List.range mc.maxTask.toNat).filter (fun n => n ∉ mc.freeTask)

/-- The accounts of a connection are in order. -/
structure Accounted (w : World) : Prop where
  count_eq : w.mc.count = (outstanding w.mc).length
  count_nonneg : 0 ≤ w.mc.count
  count_le : w.mc.count ≤ w.mc.maxTask
  free_length : (w.mc.freeTask.length : Int) = w.mc.maxTask - w.mc.count
  apart : forall n, n ∈ w.mc.freeTask -> n ∉ w.mc.outTask
  no_emptyPop : w.trace.emptyPop = false

theorem length_filter_not_mem {xs : List Nat} {m : Nat} (hnodup : xs.Nodup)
    (hlt : forall n, n ∈ xs -> n < m) :
    ((List.range m).filter (fun n => n ∉ xs)).length + xs.length = m := by
  have hinside : ((List.range m).filter (fun n => n ∈ xs)).Perm xs := by
    rw [List.perm_ext_iff_of_nodup
      (List.Nodup.filter _ List.nodup_range) hnodup]
    intro n
    simp only [List.mem_filter, List.mem_range, decide_eq_true_eq]
    exact ⟨fun h => h.2, fun h => ⟨hlt n h, h⟩⟩
  have hsplit := List.length_eq_length_filter_add (l := List.range m)
    (fun n => decide (n ∈ xs))
  rw [List.length_range, hinside.length_eq] at hsplit
  simp only [← decide_not] at hsplit
  omega

theorem accounted_of_balanced {w : World} {busy finished : Multiset Nat}
    {malloced : List (BitVec 64)}
    (h : (w.life busy finished malloced).places.Balanced) : Accounted w := by
  have hcount : w.mc.count + w.mc.freeTask.length = w.mc.maxTask := h.count_eq
  have hmax : 0 ≤ w.mc.maxTask := h.maxTask_nonneg
  have hone : forall n, (w.mc.freeTask : Multiset Nat).count n +
      (w.mc.outTask : Multiset Nat).count n ≤ 1 := by
    intro n
    have hle := h.count_le n
    simp only [World.life] at hle
    omega
  have hnodup : w.mc.freeTask.Nodup := by
    rw [← Multiset.coe_nodup, Multiset.nodup_iff_count_le_one]
    intro n
    have := hone n
    omega
  have hlt : forall n, n ∈ w.mc.freeTask -> n < w.mc.maxTask.toNat := by
    intro n hn
    apply Multiset.mem_range.mp
    change n ∈ Multiset.range (w.life busy finished malloced).places.maxTask.toNat
    rw [← h.places]
    simp [World.life, hn]
  have hlen := length_filter_not_mem hnodup hlt
  refine ⟨?_, ?_, ?_, ?_, ?_, h.no_emptyPop⟩
  · unfold outstanding
    omega
  · omega
  · omega
  · omega
  · intro n hfree hout
    have hn := hone n
    have hfree' := Multiset.one_le_count_iff_mem.mpr (Multiset.mem_coe.mpr hfree)
    have hout' := Multiset.one_le_count_iff_mem.mpr (Multiset.mem_coe.mpr hout)
    omega

def anyPolicy : Policy where
  loses := True
  rejects := fun _ => True
  returns := fun _ _ => True

theorem meets_anyPolicy (s : State) (a : Label) : Meets anyPolicy s a := by
  cases a with
  | decodeIter => exact ⟨fun _ _ _ _ => trivial, fun _ _ _ => trivial⟩
  | handle k block result => cases result <;> exact fun _ _ _ => trivial
  | _ => trivial

theorem balanced_of_run {ok : State -> Label -> Prop} {s s' : State}
    (hstart : Started s) (hrun : Reaches step ok s s') :
    s'.life.places.Balanced :=
  (life_of_run (p := anyPolicy) (fun t a _ => meets_anyPolicy t a)
    hstart.shape hrun).2.invariant (fun l => l.places.Balanced)
      (fun _ _ hl hstep => Life.step_balanced hl hstep) hstart.balanced

/-- In every state of every run, whatever the kernel, the peer and the
handlers do, the accounts are in order. -/
theorem accounted_of_run (s s' : State) (hstart : Started s)
    (hrun : Reaches step Always s s') : Accounted s'.w :=
  accounted_of_balanced (balanced_of_run hstart hrun)

theorem accounted_testTaken :
    outstanding testTaken.w.mc = [1] ∧ testTaken.batch = [[1]] ∧
      Accounted testTaken.w := by
  have hrun : Reaches step Always smallStart testTaken :=
    testTaken_reached trivial trivial trivial trivial trivial trivial
  exact ⟨by decide +kernel, by decide +kernel,
    accounted_of_run smallStart testTaken smallStart_started hrun⟩

/-!
## Lost nodes
-/

/-- Nothing is left to do: the task threads' queues, the write-back queues and
`out_task` are empty and no handler is running. -/
structure Quiet (s : State) : Prop where
  tq : bagOf s.w.tq = 0
  batch : bagOf s.batch = 0
  bque : bagOf s.bque = 0
  pc : s.pc = Pc.idle
  out : s.w.mc.outTask = []

def AllBack (w : World) : Prop :=
  w.mc.count = 0 ∧ (w.mc.freeTask.length : Int) = w.mc.maxTask ∧
    forall n : Nat, (n : Int) < w.mc.maxTask -> n ∈ w.mc.freeTask

/-- The handlers are those of `nn_rpc_service_run`. -/
def Serves (s : State) : Label -> Prop
  | Label.handle k block result =>
      block = none ∧ forall n rest, s.batch.getD k [] = n :: rest ->
        result = nnRpcServiceRun (s.w.mc.nodes n)
  | _ => True

/-- The step loses no node: a handled task has the command `TASK_TEST`, and no
decode attempt accepts a length word below -2. -/
def LosesNone (s : State) : Label -> Prop
  | Label.handle k _ _ =>
      forall n rest, s.batch.getD k [] = n :: rest ->
        (s.w.mc.nodes n).cmd = taskTestCmd
  | Label.decodeIter =>
      0 < bufferSize s.w.mc.inBuf ->
        loadInt s.w.mem s.w.mc.inBuf.pos ≤ cInt (bufferSize s.w.mc.inBuf) ->
        -2 ≤ loadInt s.w.mem s.w.mc.inBuf.pos
  | _ => True

def keepPolicy : Policy where
  loses := False
  rejects := fun _ => True
  returns := fun _ _ => True

theorem Life.step_lost {l l' : Life} (h : Life.Step keepPolicy l l') :
    l'.places.lost = l.places.lost := by
  cases h with
  | unread n _ => rw [Life.release_places]
  | lose n rest _ hloses => exact absurd hloses id
  | _ => rfl

theorem meets_keepPolicy {s : State} {a : Label} (hserves : Serves s a)
    (hloses : LosesNone s a) : Meets keepPolicy s a := by
  cases a with
  | decodeIter =>
      refine ⟨fun _ _ _ _ => trivial, ?_⟩
      intro hsize hword hle
      have := hloses hsize hle
      simp only [ngxAgain] at hword
      omega
  | handle k block result =>
      cases result with
      | some t => exact fun _ _ _ => trivial
      | none =>
          intro n rest hbatch
          have hresult := hserves.2 n rest hbatch
          rw [nnRpcServiceRun, if_pos (hloses n rest hbatch)] at hresult
          cases hresult
  | _ => trivial

theorem allBack_of_balanced {s : State} (hbal : s.life.places.Balanced)
    (hquiet : Quiet s) (hlost : s.life.places.lost = 0) : AllBack s.w := by
  have hfree : (s.w.mc.freeTask : Multiset Nat) =
      Multiset.range s.w.mc.maxTask.toNat := by
    have hplaces := hbal.places
    simp only [State.life, World.life, hquiet.tq, hquiet.batch, hquiet.bque,
      hquiet.pc, hquiet.out, Pc.held, Multiset.coe_nil,
      Multiset.add_zero] at hplaces hlost
    rw [hlost, Multiset.add_zero] at hplaces
    exact hplaces
  have hmax : 0 ≤ s.w.mc.maxTask := hbal.maxTask_nonneg
  have hcount : s.w.mc.count + s.w.mc.freeTask.length = s.w.mc.maxTask :=
    hbal.count_eq
  have hlen : s.w.mc.freeTask.length = s.w.mc.maxTask.toNat := by
    have := congrArg Multiset.card hfree
    simpa using this
  refine ⟨by omega, by omega, ?_⟩
  intro n hn
  have hmem : n ∈ (s.w.mc.freeTask : Multiset Nat) := by
    rw [hfree, Multiset.mem_range]
    omega
  exact hmem

/-- In a run that meets no unknown command and no length word below -2, every
quiet state has all its nodes back. -/
theorem allBack_of_run (s s' : State) (hstart : Started s)
    (hrun : Reaches step (fun t a => Serves t a ∧ LosesNone t a) s s')
    (hquiet : Quiet s') : AllBack s'.w := by
  have hlife := (life_of_run (p := keepPolicy)
    (fun t a h => meets_keepPolicy h.1 h.2) hstart.shape hrun).2
  have hlost : s'.life.places.lost = s.life.places.lost :=
    hlife.invariant (fun l => l.places.lost = s.life.places.lost)
      (fun _ _ hl hstep => (Life.step_lost hstep).trans hl) rfl
  refine allBack_of_balanced (balanced_of_run hstart hrun) hquiet ?_
  rw [hlost]
  cases hstart with
  | up conf allocs mem fd env taskNum threadId w hnum hvalid hinit =>
      obtain ⟨inBuf, out, buff, ev, env', _, _, _, rfl⟩ := nnConnInit_up hinit
      rfl

def testAnswered : State :=
  after step
    (after step testTaken
      [Label.handle 0 none (some (taskTest (testTaken.w.mc.nodes 1)))])
    [Label.popBack 0, Label.outIter, Label.outIter]

theorem allBack_testAnswered : Quiet testAnswered ∧ AllBack testAnswered.w := by
  have hquiet : Quiet testAnswered :=
    ⟨by decide +kernel, by decide +kernel, by decide +kernel,
      by decide +kernel, by decide +kernel⟩
  let ok : State -> Label -> Prop := fun t a => Serves t a ∧ LosesNone t a
  have hword : -2 ≤ loadInt testReceived.w.mem testReceived.w.mc.inBuf.pos := by
    decide +kernel
  have hempty : ¬ 0 < bufferSize testDispatched.w.mc.inBuf := by decide +kernel
  have htaken : Reaches step ok smallStart testTaken :=
    testTaken_reached ⟨trivial, trivial⟩ ⟨trivial, trivial⟩
      ⟨trivial, trivial⟩ ⟨trivial, trivial⟩
      ⟨trivial, fun _ _ => hword⟩ ⟨trivial, fun hsize => absurd hsize hempty⟩
  have hone : testTaken.batch.getD 0 [] = [1] := by decide +kernel
  have hcmd : (testTaken.w.mc.nodes 1).cmd = taskTestCmd := by decide +kernel
  have hok : ok testTaken
      (Label.handle 0 none (some (taskTest (testTaken.w.mc.nodes 1)))) := by
    refine ⟨⟨rfl, fun n rest hbatch => ?_⟩, fun n rest hbatch => ?_⟩
    · rw [hone] at hbatch
      cases hbatch
      rw [nnRpcServiceRun, if_pos hcmd]
    · rw [hone] at hbatch
      cases hbatch
      exact hcmd
  have hanswered : Reaches step ok smallStart testAnswered := by
    apply (htaken.oneLabel hok (by decide +kernel)).labels
    · intro a ha r
      simp only [List.mem_cons, List.not_mem_nil, or_false] at ha
      rcases ha with rfl | rfl | rfl <;> exact ⟨trivial, trivial⟩
    · decide +kernel
  exact ⟨hquiet,
    allBack_of_run smallStart testAnswered smallStart_started hanswered hquiet⟩

/-- A task whose command `nn_rpc_service_run` does not know. -/
def unknownTask : TaskT :=
  { taskNew with cmd := 1 }

def unknownTaken : State :=
  after step smallStart
    (receive (taskFrame unknownTask []) ++
      [Label.decodeIter, Label.decodeIter, Label.popAll 0])

def unknownLost : State :=
  after step unknownTaken [Label.handle 0 none none]

theorem allBack_unknownTask_fails :
    Started smallStart ∧ Reaches step Serves smallStart unknownLost ∧
      Quiet unknownLost ∧ ¬ AllBack unknownLost.w := by
  have htaken : Reaches step Serves smallStart unknownTaken := by
    apply (Reaches.refl smallStart).labels
    · intro a ha r
      simp only [receive, List.cons_append, List.nil_append, List.mem_cons,
        List.not_mem_nil, or_false] at ha
      rcases ha with rfl | rfl | rfl | rfl | rfl | rfl | rfl <;> trivial
    · decide +kernel
  refine ⟨smallStart_started, htaken.oneLabel ⟨rfl, ?_⟩ (by decide +kernel),
    ⟨by decide +kernel, by decide +kernel, by decide +kernel,
      by decide +kernel, by decide +kernel⟩, ?_⟩
  · intro n rest hbatch
    have hone : unknownTaken.batch.getD 0 [] = [1] := by decide +kernel
    rw [hone] at hbatch
    cases hbatch
    have hcmd : (unknownTaken.w.mc.nodes 1).cmd ≠ taskTestCmd := by
      decide +kernel
    rw [nnRpcServiceRun, if_neg hcmd]
  · rintro ⟨hcount, _, _⟩
    exact absurd hcount (by decide +kernel)

end Server
end NgxEpoll
