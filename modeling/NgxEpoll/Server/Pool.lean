import NgxEpoll.Server.EventLoop

/-!
# The pool of a connection

In every run of the event loop the pool of a connection is destroyed at most
once.  `mc`, which lies in it, is not used afterwards as long as no `write_back`
is overtaken by the thread it is about to wake.
-/

namespace NgxEpoll
namespace Server

open Foundation
open NgxEpoll.Core
open Common
open Request
open Relation

/-!
## A connection that never came up
-/

/-- No event of the connection is registered with epoll, no timer is set, and
the pool was destroyed at most once. -/
structure Unregistered (w : World) : Prop where
  destroyed : w.trace.destroyed.length ≤ 1
  unused : w.trace.usedAfterDestroy = false
  read : w.c.read.active = false
  write : w.c.write.active = false
  writeTimer : w.c.write.timerSet = false
  slowTimer : w.mc.evTimer.timerSet = false

theorem Unregistered.close {w : World} (h : Unregistered w) :
    Unregistered { w with c := connClose w.c } := by
  unfold connClose
  split
  · exact ⟨h.destroyed, h.unused, rfl, rfl, rfl, h.slowTimer⟩
  · exact h

theorem Unregistered.exit {w : World} (h : Unregistered w)
    (hpool : w.trace.destroyed = []) :
    Unregistered (nnConnInitError w).2 := by
  have hdestroyed : Unregistered (poolDestroy w) :=
    ⟨by simp [poolDestroy, hpool], h.unused, h.read, h.write, h.writeTimer,
      h.slowTimer⟩
  exact hdestroyed.close

theorem eventHandleRead_failed {w : World}
    (h : (eventHandleRead w).1 = ngxError) :
    (eventHandleRead w).2.c.read.active = false := by
  simp only [eventHandleRead, eventHandle, epollAddEvent] at h ⊢
  split at h
  · next hoff =>
    rw [if_pos hoff]
    split at h
    · cases h
    · next hfail =>
      rw [if_neg hfail]
  · cases h

theorem nnConnInit_failed {conf : ConfServer} {allocs : Allocs} {v : World}
    {mem : Mem} {fd : Int} {tq : List (List Nat)} {env : Env}
    (h : nnConnInit conf allocs (worldNew mem fd tq env) = (false, v)) :
    Unregistered v ∧ v.tq = tq := by
  have hnew : Unregistered (worldNew mem fd tq env) :=
    ⟨by simp [worldNew, traceNew], rfl, rfl, rfl, rfl, rfl⟩
  unfold nnConnInit at h
  split at h
  · cases h
    exact ⟨hnew.close, rfl⟩
  · split at h
    · split at h
      · simp only at h
        split at h
        · next herror =>
          have hread := eventHandleRead_failed herror
          cases h
          refine ⟨Unregistered.exit ⟨?_, rfl, hread, rfl, rfl, rfl⟩ rfl, rfl⟩
          exact hnew.destroyed
        · cases h
      · cases h
        exact ⟨hnew.exit rfl, rfl⟩
    · cases h
      exact ⟨hnew.exit rfl, rfl⟩

/-- The state of the loop when the connection never came up: nothing refers to
it. -/
structure Failed (first : List (ConnState × Int)) (l : LoopState) : Prop where
  world : Unregistered l.s.w
  same : l.s.w.trace.destroyed = first
  tq : bagOf l.s.w.tq = 0
  batch : bagOf l.s.batch = 0
  bque : bagOf l.s.bque = 0
  waking : l.s.waking = []
  held : l.s.pc.held = []
  notReading : l.s.pc.NotReading
  stage : forall rd wr, l.stage = Stage.posted rd wr -> rd = false ∧ wr = false

theorem bagOf_eq_zero_drain {queues : List (List Nat)} (h : bagOf queues = 0)
    (k : Nat) :
    bagOf (queues.set k []) = 0 ∧ queues.getD k [] = [] := by
  have hdrain := bagOf_drain queues k
  rw [h, bagOf, Multiset.coe_add, Multiset.coe_eq_zero,
    List.append_eq_nil_iff] at hdrain
  exact ⟨by rw [bagOf, hdrain.1, Multiset.coe_nil], hdrain.2⟩

theorem failed_of_act {first : List (ConnState × Int)} {l : LoopState}
    (h : Failed first l) {a : Label} {s' : State} {stage : Stage}
    (hstepped : Stepped l.s a s')
    (hstage : stageAfter l.s.w l.stage a = some stage) :
    Failed first ⟨s', stage⟩ := by
  obtain ⟨s, now⟩ := l
  simp only at hstepped hstage
  cases hstepped with
  | kernel env =>
      cases hstage
      exact ⟨{ h.world with }, h.same, h.tq, h.batch, h.bque, h.waking, h.held,
        h.notReading, h.stage⟩
  | poll rd wr _ =>
      have hread : s.w.c.read.active = false := h.world.read
      have hwrite : s.w.c.write.active = false := h.world.write
      simp only [stageAfter, hread, hwrite, Bool.and_false] at hstage
      split at hstage
      · cases hstage
        refine ⟨{ h.world with }, h.same, h.tq, h.batch, h.bque, h.waking, h.held,
          h.notReading, fun rd wr heq => ?_⟩
        cases heq
        exact ⟨rfl, rfl⟩
      · cases hstage
  | readEvent _ _ =>
      simp only [stageAfter] at hstage
      split at hstage
      · exact absurd (h.stage _ _ rfl).1 (by simp)
      · cases hstage
  | recvIter hpc => exact absurd hpc h.notReading.1
  | decodeIter hpc => exact absurd hpc h.notReading.2
  | writeEvent _ _ =>
      simp only [stageAfter] at hstage
      split at hstage
      · exact absurd (h.stage _ _ rfl).2 (by simp)
      · cases hstage
  | slowTimer _ hset =>
      rw [h.world.slowTimer] at hset
      cases hset
  | writeTimeout _ hset =>
      rw [h.world.writeTimer] at hset
      cases hset
  | popBack i _ =>
      simp only [stageAfter] at hstage
      split at hstage
      · cases hstage
        obtain ⟨hset, hget⟩ := bagOf_eq_zero_drain h.bque i
        exact ⟨h.world, h.same, h.tq, h.batch, hset, h.waking, hget,
          Pc.notReading_writing _, h.stage⟩
      · cases hstage
  | outDone hpc =>
      cases hstage
      exact ⟨h.world, h.same, h.tq, h.batch, h.bque, h.waking, rfl,
        Pc.notReading_idle, h.stage⟩
  | outIter n q hpc _ =>
      have hheld := h.held
      simp only [hpc, Pc.held] at hheld
      cases hheld
  | popAll k _ _ hk =>
      cases hstage
      obtain ⟨hset, hget⟩ := bagOf_eq_zero_drain h.tq k
      refine ⟨{ h.world with }, h.same, hset, ?_, h.bque, h.waking, h.held,
        h.notReading, h.stage⟩
      simp only [popAll, hget]
      exact (bagOf_eq_zero_drain h.batch k).1
  | handle k block result n rest hbatch _ =>
      rw [(bagOf_eq_zero_drain h.batch k).2] at hbatch
      cases hbatch
  | wake k hwaking =>
      rw [h.waking] at hwaking
      cases hwaking

theorem failed_of_step {first : List (ConnState × Int)} {l l' : LoopState}
    {a : LoopLabel} (h : Failed first l) (hstep : loopStep l a = some l') :
    Failed first l' := by
  cases a with
  | act a =>
      simp only [loopStep] at hstep
      split at hstep
      · next s stage hs hstage =>
        cases hstep
        exact failed_of_act h (stepped_of_step hs) hstage
      · cases hstep
  | stale =>
      simp only [loopStep, Option.ite_none_right_eq_some, Option.map_eq_some_iff]
        at hstep
      obtain ⟨_, stage, hstale, rfl⟩ := hstep
      unfold staleAfter at hstale
      split at hstale
      · next wr hnow => exact absurd (h.stage _ _ hnow).1 (by simp)
      · next hnow => exact absurd (h.stage _ _ hnow).2 (by simp)
      · cases hstale
  | turn =>
      simp only [loopStep, Option.ite_none_right_eq_some, Option.map_eq_some_iff]
        at hstep
      obtain ⟨_, stage, hturn, rfl⟩ := hstep
      refine { h with stage := fun rd wr heq => ?_ }
      simp only at heq
      subst heq
      unfold turnAfter at hturn
      split at hturn <;> cases hturn

theorem Failed.wakes {first : List (ConnState × Int)} {l l' : LoopState}
    {a : LoopLabel} (h : Failed first l) (hstep : loopStep l a = some l') :
    LoopWakes l a := by
  cases a with
  | act a =>
      simp only [loopStep] at hstep
      split at hstep
      · next s stage hs _ =>
        cases stepped_of_step hs with
        | wake k hwaking =>
            rw [h.waking] at hwaking
            cases hwaking
        | _ => trivial
      · cases hstep
  | _ => trivial

theorem Accepted.failed {l : LoopState} (h : Accepted false l) :
    Failed l.s.w.trace.destroyed l := by
  cases h with
  | init conf allocs mem fd env taskNum threadId _ w hfd hnum hvalid hinit =>
      obtain ⟨hworld, htq⟩ := nnConnInit_failed hinit
      refine ⟨hworld, rfl, ?_, bagOf_replicate taskNum, bagOf_replicate taskNum,
        rfl, rfl, Pc.notReading_idle, fun rd wr heq => ?_⟩
      · simp only [start, htq, bagOf_replicate]
      · cases heq
        exact ⟨rfl, rfl⟩

/-!
## The life of the pool
-/

/-- The pool is destroyed at most once, in state `ST_DISCONNCECTED` with `count`
zero or, where `nn_conn_init` did not return `ok`, by its error exit; and `mc`
is not used afterwards.  `first` are the destructions by `nn_conn_init`. -/
def PoolKept (ok : Bool) (first : List (ConnState × Int)) (w : World) : Prop :=
  w.trace.destroyed.length ≤ 1 ∧
    (forall d, d ∈ w.trace.destroyed ->
      d = (ConnState.disconnected, 0) ∨ ok = false ∧ d ∈ first) ∧
    w.trace.usedAfterDestroy = false

theorem Running.poolKept {l : LoopState} (h : Running l)
    (first : List (ConnState × Int)) : PoolKept true first l.s.w := by
  rcases h.life with ⟨hopen, _⟩ | ⟨hgone, _⟩
  · refine ⟨by simp [hopen.destroyed], fun d hd => ?_, hopen.unused⟩
    rw [hopen.destroyed] at hd
    cases hd
  · have hnonneg := (accounted_of_balanced h.served.replies.balanced).count_nonneg
    rcases hgone.destroyed with ⟨_, hnone⟩ | ⟨hcount, hone⟩
    · refine ⟨by simp [hnone], fun d hd => ?_, hgone.unused⟩
      rw [hnone] at hd
      cases hd
    · refine ⟨by simp [hone], fun d hd => Or.inl ?_, hgone.unused⟩
      rw [hone, List.mem_singleton] at hd
      rw [hd, Int.le_antisymm hcount hnonneg]

theorem Failed.poolKept {first : List (ConnState × Int)} {l : LoopState}
    (h : Failed first l) : PoolKept false first l.s.w :=
  ⟨h.world.destroyed, fun _ hd => Or.inr ⟨rfl, h.same ▸ hd⟩, h.world.unused⟩

theorem useMc_unused_iff {w : World} (h : w.trace.usedAfterDestroy = false) :
    w.useMc.trace.usedAfterDestroy = false <-> w.trace.destroyed = [] := by
  by_cases hpool : w.trace.destroyed = []
  · rw [useMc_of_pool hpool]
    exact ⟨fun _ => hpool, fun _ => h⟩
  · rw [World.useMc, if_neg hpool]
    constructor
    · intro hused
      cases hused
    · intro hnone
      exact absurd hnone hpool

theorem Running.poolKept_iff {l l' : LoopState} {a : LoopLabel} (h : Running l)
    (first : List (ConnState × Int)) (hserves : LoopServes l a)
    (hstep : loopStep l a = some l') :
    PoolKept true first l'.s.w <-> LoopWakes l a := by
  constructor
  · rintro ⟨_, _, hunused⟩
    cases a with
    | act a =>
        simp only [loopStep] at hstep
        split at hstep
        · next s stage hs _ =>
          cases hstep
          cases stepped_of_step hs with
          | wake k _ =>
              have hbefore : l.s.w.trace.usedAfterDestroy = false :=
                (h.poolKept first).2.2
              exact (h.pool_iff k).mp ((useMc_unused_iff hbefore).mp hunused)
          | _ => trivial
        · cases hstep
    | _ => trivial
  · intro hwakes
    exact (running_of_step h hserves hwakes hstep).poolKept first

/-- In every run of the event loop, whatever the results of `recv`, `send` and
`epoll_ctl` and whenever tasks complete, the pool is kept as long as each
`write_back` reads `wbt` in time for its wake-up, and no longer. -/
theorem poolKept_of_run (ok : Bool) (l l' : LoopState) (hstart : Accepted ok l)
    (hrun : Reaches loopStep (fun t a => LoopServes t a ∧ LoopWakes t a) l l') :
    PoolKept ok l.s.w.trace.destroyed l'.s.w ∧
      forall a l'', LoopServes l' a -> loopStep l' a = some l'' ->
        (PoolKept ok l.s.w.trace.destroyed l''.s.w <-> LoopWakes l' a) := by
  cases ok with
  | true =>
      have hrunning : Running l' := hrun.invariant Running
        (fun _ _ _ hl hok hstep => running_of_step hl hok.1 hok.2 hstep)
        hstart.running
      exact ⟨hrunning.poolKept _,
        fun _ _ hserves hstep => hrunning.poolKept_iff _ hserves hstep⟩
  | false =>
      have hfailed : Failed l.s.w.trace.destroyed l' :=
        hrun.invariant (Failed l.s.w.trace.destroyed)
          (fun _ _ _ hl _ hstep => failed_of_step hl hstep) hstart.failed
      refine ⟨hfailed.poolKept, fun a l'' _ hstep => ?_⟩
      exact ⟨fun _ => hfailed.wakes hstep,
        fun _ => (failed_of_step hfailed hstep).poolKept⟩

example : (nnConnInit smallConf smallAllocs (worldNew (fun _ => 0) 5 [[]]
    { silentEnv with ctls := [false] })).2.trace.destroyed =
      [(ConnState.connected, 0)] := by
  decide +kernel

def smallLoop : LoopState where
  s := smallStart
  stage := Stage.posted false false

theorem smallLoop_accepted : Accepted true smallLoop :=
  Accepted.init smallConf smallAllocs (fun _ => 0) 5 silentEnv 1 id true _
    (by decide) (by decide) smallAllocs_valid (Prod.ext (by decide) rfl)

/-- The peer has sent a task, which a task thread has taken, and has closed the
connection before the task was completed. -/
def closedBusy : LoopState :=
  after loopStep smallLoop
    [LoopLabel.turn, LoopLabel.turn,
      LoopLabel.act (Label.kernel { silentEnv with
        wire := taskFrame testTask []
        recvs := [RecvResult.data (taskFrame testTask []).length] }),
      LoopLabel.act (Label.poll true false), LoopLabel.act Label.readEvent,
      LoopLabel.act Label.recvIter, LoopLabel.act Label.recvIter,
      LoopLabel.act Label.decodeIter, LoopLabel.act Label.decodeIter,
      LoopLabel.turn, LoopLabel.turn, LoopLabel.act (Label.popAll 0),
      LoopLabel.act (Label.kernel { silentEnv with
        recvs := [RecvResult.closed] }),
      LoopLabel.act (Label.poll true false), LoopLabel.act Label.readEvent,
      LoopLabel.act Label.recvIter]

def latePushed : LoopState :=
  after loopStep closedBusy
    [LoopLabel.act (Label.handle 0 none
      (some (taskTest (closedBusy.s.w.mc.nodes 1))))]

def lateDone : LoopState :=
  after loopStep (after loopStep latePushed [LoopLabel.act (Label.wake 0)])
    [LoopLabel.act (Label.popBack 0), LoopLabel.act Label.outIter,
      LoopLabel.act Label.outIter]

theorem poolKept_lateDone :
    latePushed.s.w.trace.destroyed = [] ∧
      lateDone.s.w.trace.destroyed = [(ConnState.disconnected, 0)] ∧
      PoolKept true smallLoop.s.w.trace.destroyed lateDone.s.w := by
  let ok : LoopState -> LoopLabel -> Prop :=
    fun t a => LoopServes t a ∧ LoopWakes t a
  have hclosed : Reaches loopStep ok smallLoop closedBusy := by
    apply (Reaches.refl smallLoop).labels
    · intro a ha r
      simp only [List.mem_cons, List.not_mem_nil, or_false] at ha
      rcases ha with rfl | rfl | rfl | rfl | rfl | rfl | rfl | rfl | rfl | rfl |
        rfl | rfl | rfl | rfl | rfl | rfl <;> exact ⟨trivial, trivial⟩
    · decide +kernel
  have hone : closedBusy.s.batch.getD 0 [] = [1] := by decide +kernel
  have hcmd : (closedBusy.s.w.mc.nodes 1).cmd = taskTestCmd := by decide +kernel
  have hserves : LoopServes closedBusy (LoopLabel.act (Label.handle 0 none
      (some (taskTest (closedBusy.s.w.mc.nodes 1))))) := by
    refine ⟨rfl, fun n rest hbatch => ?_⟩
    rw [hone] at hbatch
    cases hbatch
    rw [nnRpcServiceRun, if_pos hcmd]
  have hpushed : Reaches loopStep ok smallLoop latePushed :=
    hclosed.oneLabel ⟨hserves, trivial⟩ (by decide +kernel)
  have hwoken := hpushed.oneLabel (a := LoopLabel.act (Label.wake 0))
    ⟨trivial, Or.inr (by decide +kernel)⟩ (by decide +kernel)
  have hdone : Reaches loopStep ok smallLoop lateDone := by
    apply hwoken.labels
    · intro a ha r
      simp only [List.mem_cons, List.not_mem_nil, or_false] at ha
      rcases ha with rfl | rfl | rfl <;> exact ⟨trivial, trivial⟩
    · decide +kernel
  exact ⟨by decide +kernel, by decide +kernel,
    (poolKept_of_run true smallLoop lateDone smallLoop_accepted hdone).1⟩

def bothTaken : LoopState :=
  after loopStep smallLoop
    [LoopLabel.turn, LoopLabel.turn,
      LoopLabel.act (Label.kernel { silentEnv with
        wire := taskFrame testTask [] ++ taskFrame testTask []
        recvs := [RecvResult.data (2 * (taskFrame testTask []).length)] }),
      LoopLabel.act (Label.poll true false), LoopLabel.act Label.readEvent,
      LoopLabel.act Label.recvIter, LoopLabel.act Label.recvIter,
      LoopLabel.act Label.decodeIter, LoopLabel.act Label.decodeIter,
      LoopLabel.act Label.decodeIter, LoopLabel.turn, LoopLabel.turn,
      LoopLabel.act (Label.popAll 0)]

def firstWoken : LoopState :=
  after loopStep
    (after loopStep bothTaken [LoopLabel.act (Label.handle 0 none
      (some (taskTest (bothTaken.s.w.mc.nodes 0))))])
    [LoopLabel.act (Label.wake 0)]

def bothPushed : LoopState :=
  after loopStep firstWoken [LoopLabel.act (Label.handle 0 none
    (some (taskTest (firstWoken.s.w.mc.nodes 1))))]

/-- The wake-up lets the thread of the connection take both.  Its next `send`
fails, and it destroys the pool.  Only then does the second `write_back` go on. -/
def wokenLate : LoopState :=
  after loopStep bothPushed
    [LoopLabel.act (Label.poll false false), LoopLabel.act (Label.popBack 0),
      LoopLabel.act Label.outIter, LoopLabel.act Label.outIter,
      LoopLabel.act Label.outIter, LoopLabel.turn, LoopLabel.turn,
      LoopLabel.act (Label.kernel { silentEnv with
        sends := [SendResult.error] }),
      LoopLabel.act (Label.poll false true), LoopLabel.act Label.writeEvent,
      LoopLabel.act (Label.wake 0)]

theorem poolKept_wokenLate_fails :
    Accepted true smallLoop ∧ Reaches loopStep LoopServes smallLoop wokenLate ∧
      wokenLate.s.w.trace.destroyed = [(ConnState.disconnected, 0)] ∧
      wokenLate.s.w.trace.usedAfterDestroy = true ∧
      ¬ PoolKept true smallLoop.s.w.trace.destroyed wokenLate.s.w := by
  have hserves : forall (l : LoopState) (n : Nat) (rest : List Nat),
      l.s.batch.getD 0 [] = n :: rest ->
      (l.s.w.mc.nodes n).cmd = taskTestCmd ->
      LoopServes l (LoopLabel.act (Label.handle 0 none
        (some (taskTest (l.s.w.mc.nodes n))))) := by
    intro l n rest hbatch hcmd
    refine ⟨rfl, fun m tail htaken => ?_⟩
    rw [hbatch] at htaken
    cases htaken
    rw [nnRpcServiceRun, if_pos hcmd]
  have htaken : Reaches loopStep LoopServes smallLoop bothTaken := by
    apply (Reaches.refl smallLoop).labels
    · intro a ha r
      simp only [List.mem_cons, List.not_mem_nil, or_false] at ha
      rcases ha with rfl | rfl | rfl | rfl | rfl | rfl | rfl | rfl | rfl | rfl |
        rfl | rfl | rfl <;> trivial
    · decide +kernel
  have hfirst := htaken.oneLabel
    (hserves bothTaken 0 [1] (by decide +kernel) (by decide +kernel))
    (by decide +kernel)
  have hwoken : Reaches loopStep LoopServes smallLoop firstWoken :=
    hfirst.oneLabel trivial (by decide +kernel)
  have hboth : Reaches loopStep LoopServes smallLoop bothPushed :=
    hwoken.oneLabel
      (hserves firstWoken 1 [] (by decide +kernel) (by decide +kernel))
      (by decide +kernel)
  have hlate : Reaches loopStep LoopServes smallLoop wokenLate := by
    apply hboth.labels
    · intro a ha r
      simp only [List.mem_cons, List.not_mem_nil, or_false] at ha
      rcases ha with rfl | rfl | rfl | rfl | rfl | rfl | rfl | rfl | rfl | rfl |
        rfl <;> trivial
    · decide +kernel
  have hused : wokenLate.s.w.trace.usedAfterDestroy = true := by decide +kernel
  refine ⟨smallLoop_accepted, hlate, by decide +kernel, hused, ?_⟩
  rintro ⟨_, _, hunused⟩
  rw [hused] at hunused
  cases hunused

end Server
end NgxEpoll
