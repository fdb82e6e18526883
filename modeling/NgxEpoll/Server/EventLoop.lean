import NgxEpoll.Server.Replies
import NgxEpoll.Request.Handlers

/-!
# The event loop

`thread_event_process` of `dn_thread.cpp` on the thread that owns a connection:
it waits for events, runs the handlers of the posted events, and then those of
the timers that have expired.  The steps of the server take their places in
this order.
-/

namespace NgxEpoll
namespace Server

open Foundation
open NgxEpoll.Core
open Common
open Request
open Relation

/-- Where the thread is in `thread_event_process`.  While it works on the posted
events, `rd` and `wr` tell whether those of the connection are among them; its
read event is posted before its write event. -/
inductive Stage where
  | wait
  | posted (rd wr : Bool)
  | timers

structure LoopState where
  s : State
  stage : Stage

inductive LoopLabel where
  | act (a : Label)
  | stale
  | turn

/-- The stage after a step, for a step that has its place in the loop.
`nn_event_process_handler` finds `mc` in `c->conn_data`, which `nn_conn_close`
sets to null together with `mc->connection`; with a null pointer the process
ends there. -/
def stageAfter (w : World) (stage : Stage) : Label -> Option Stage
  | Label.poll rd wr =>
      match stage with
      | Stage.wait =>
          some (Stage.posted (rd && w.c.read.active) (wr && w.c.write.active))
      | _ => none
  | Label.readEvent =>
      match stage with
      | Stage.posted true wr =>
          if w.mc.connection then some (Stage.posted false wr) else none
      | _ => none
  | Label.writeEvent =>
      match stage with
      | Stage.posted false true =>
          if w.mc.connection then some (Stage.posted false false) else none
      | _ => none
  | Label.popBack _ =>
      match stage with
      | Stage.posted rd wr => some (Stage.posted rd wr)
      | _ => none
  | Label.slowTimer =>
      match stage with
      | Stage.timers => some Stage.timers
      | _ => none
  | Label.writeTimeout =>
      match stage with
      | Stage.timers => if w.mc.connection then some Stage.timers else none
      | _ => none
  | _ => some stage

def staleAfter : Stage -> Option Stage
  | Stage.posted true wr => some (Stage.posted false wr)
  | Stage.posted false true => some (Stage.posted false false)
  | _ => none

def turnAfter : Stage -> Option Stage
  | Stage.posted false false => some Stage.timers
  | Stage.timers => some Stage.wait
  | _ => none

def loopStep (l : LoopState) : LoopLabel -> Option LoopState
  | LoopLabel.act a =>
      match step l.s a, stageAfter l.s.w l.stage a with
      | some s, some stage => some { s := s, stage := stage }
      | _, _ => none
  | LoopLabel.stale =>
      if l.s.Free ∧ l.s.w.c.fd = ngxInvalidFile then
        (staleAfter l.stage).map (fun stage => { l with stage := stage })
      else none
  | LoopLabel.turn =>
      if l.s.Free then
        (turnAfter l.stage).map (fun stage => { l with stage := stage })
      else none

/-- The handlers are those of `nn_rpc_service_run`. -/
def LoopServes (l : LoopState) : LoopLabel -> Prop
  | LoopLabel.act a => Serves l.s a
  | _ => True

/-- `write_back` reads `wbt->thread` for `notice_wake_up` while the connection is
up or a node of it is counted. -/
def WakesInTime (s : State) : Label -> Prop
  | Label.wake _ => s.w.mc.state = ConnState.connected ∨ 0 < s.w.mc.count
  | _ => True

def LoopWakes (l : LoopState) : LoopLabel -> Prop
  | LoopLabel.act a => WakesInTime l.s a
  | _ => True

/-- The thread has accepted a connection and called `nn_conn_init`, which has
returned `ok`.  Accepting is one of the posted events. -/
inductive Accepted : Bool -> LoopState -> Prop where
  | init (conf : ConfServer) (allocs : Allocs) (mem : Mem) (fd : Int)
      (env : Env) (taskNum : Nat) (threadId : Nat -> Nat) (ok : Bool)
      (w : World) :
      fd ≠ ngxInvalidFile -> 0 < taskNum -> allocs.Valid conf ->
      nnConnInit conf allocs
        (worldNew mem fd (List.replicate taskNum []) env) = (ok, w) ->
      Accepted ok
        { s := start w taskNum threadId, stage := Stage.posted false false }

/-!
## A connection that is up
-/

def Stage.writePosted : Stage -> Bool
  | Stage.posted _ wr => wr
  | _ => false

def Pc.NotReading (pc : Pc) : Prop :=
  pc ≠ Pc.recving ∧ pc ≠ Pc.decoding

theorem Pc.notReading_idle : Pc.idle.NotReading :=
  ⟨by simp, by simp⟩

theorem Pc.notReading_writing (q : List Nat) : (Pc.writing q).NotReading :=
  ⟨by simp, by simp⟩

/-- An open connection whose write event is posted or has nothing to do. -/
def OpenAt (stage : Stage) (w : World) : Prop :=
  Open stage.writePosted w ∧ (stage.writePosted = true ∨ Settled w)

/-- The output buffer as `nn_conn_init` makes it and every handler leaves it. -/
def OutFits (b : Buffer) : Prop :=
  b.Wf ∧ (b.endPtr - b.start < 2 ^ 31 ∨
    b.pos = b.start ∧ b.last = b.start ∧ b.endPtr - b.start < 2 ^ 32)

/-- The connection is open, or gone with no read handler running. -/
def Lives (stage : Stage) (s : State) : Prop :=
  OpenAt stage s.w ∨ Gone s.w ∧ s.pc.NotReading

/-- What every state of a run has in which `nn_conn_init` succeeded. -/
structure Running (l : LoopState) : Prop where
  served : Served l.s
  out : OutFits l.s.w.mc.out
  life : Lives l.stage l.s

theorem Running.outReady {l : LoopState} (h : Running l) : OutReady l.s.w :=
  outReady_of_replies h.out.1 h.out.2 h.served.replies

theorem Running.outFits {l : LoopState} (h : Running l) {v : World}
    (hmoves : Moves l.s.w v) : OutFits v.mc.out :=
  let hkept := outKept_of_moves h.outReady hmoves
  ⟨hkept.ready.wf, hkept.ready.small⟩

theorem Running.workable {l : LoopState} (h : Running l)
    (hhung : l.s.w.hung = false) : Workable l.s.w :=
  ⟨h.outReady, fun n hn => h.served.replies.back n (Or.inr hn), hhung⟩

theorem Running.open {l : LoopState} (h : Running l)
    (hconn : l.s.w.mc.connection = true) : OpenAt l.stage l.s.w := by
  refine h.life.resolve_right (fun hgone => ?_)
  rw [hgone.1.connection] at hconn
  cases hconn

theorem OpenAt.read {stage : Stage} {w v : World} (h : OpenAt stage w)
    (hkept : ReadKept w v) : OpenAt stage v :=
  ⟨hkept.open h.1, h.2.imp_right hkept.settled⟩

theorem Running.same {l : LoopState} (h : Running l) {s' : State}
    (hcontrol : s'.w.control = l.s.w.control) (hout : s'.w.mc.out = l.s.w.mc.out)
    (htask : s'.w.mc.outTask = l.s.w.mc.outTask)
    (hcount : s'.w.mc.count = l.s.w.mc.count)
    (hpc : l.s.pc.NotReading -> s'.pc.NotReading) :
    OutFits s'.w.mc.out ∧ Lives l.stage s' := by
  refine ⟨by rw [hout]; exact h.out, ?_⟩
  rcases h.life with hopen | ⟨hgone, hnot⟩
  · exact Or.inl (hopen.read (readKept_of_control hcontrol hout htask))
  · exact Or.inr ⟨gone_of_control hgone hcontrol hcount, hpc hnot⟩

theorem startRead_live {s : State} (h : Live s.w) :
    startRead s = { s with pc := Pc.recving } := by
  simp only [startRead, h.useMc_eq]
  rw [if_neg (by rw [h.state]; simp)]

/-- An iteration of the read handler that ends in `v` goes on with it or
finalizes it. -/
def Ends (s' : State) (v : World) : Prop :=
  s'.w = v ∨ s'.w = nnConnFinalize v ∧ s'.pc = Pc.idle

theorem recvIter_ends {s : State} (h : Live s.w) :
    Ends (recvIter s) (afterTurn (nnConnRecvTurn s.w)) := by
  have hkept := readKept_recvTurn h
  simp only [recvIter]
  cases hturn : nnConnRecvTurn s.w with
  | next w => exact Or.inl rfl
  | done r =>
      rw [hturn] at hkept
      have hpool : r.2.trace.destroyed = [] := hkept.destroyed.trans h.destroyed
      simp only [useMc_of_pool hpool]
      split
      · exact Or.inl rfl
      · exact Or.inr ⟨rfl, rfl⟩

theorem decodeIter_ends (s : State) :
    Ends (decodeIter s) (afterTurn (nnConnDecodeTurn s.w)) := by
  simp only [decodeIter]
  cases nnConnDecodeTurn s.w with
  | next w => exact Or.inl rfl
  | done r =>
      simp only
      split
      · exact Or.inr ⟨rfl, rfl⟩
      · exact Or.inl rfl

/-- An iteration of the read handler keeps the connection open or leaves it
gone. -/
theorem Running.read {l : LoopState} (h : Running l) {s' : State} {v : World}
    (hopen : OpenAt l.stage l.s.w) (hkept : ReadKept l.s.w v)
    (hends : Ends s' v) : OutFits s'.w.mc.out ∧ Lives l.stage s' := by
  rcases hends with heq | ⟨heq, hpc⟩
  · refine ⟨?_, Or.inl ?_⟩
    · rw [heq, hkept.out]
      exact h.out
    · rw [heq]
      exact hopen.read hkept
  · refine ⟨?_, Or.inr ⟨?_, ?_⟩⟩
    · rw [heq, show (nnConnFinalize v).mc.out = v.mc.out from
        congrArg Bytes.out (bytes_nnConnFinalize v), hkept.out]
      exact h.out
    · rw [heq]
      exact gone_nnConnFinalize (hkept.open hopen.1).toLive
    · rw [hpc]
      exact Pc.notReading_idle

theorem Running.reading {l : LoopState} (h : Running l)
    (hpc : ¬ l.s.pc.NotReading) : OpenAt l.stage l.s.w :=
  h.life.resolve_right (fun hgone => hpc hgone.2)

theorem processWrite_posted {w : World} (hopen : Open true w)
    (h : Workable w) :
    let v := processWrite w
    Open true v ∧ Settled v ∨ Gone v := by
  simp only [processWrite, hopen.toLive.useMc_eq]
  rw [if_pos (hopen.handler (Or.inl rfl))]
  exact (nnConnWriteHandler_spec hopen h).imp_right And.left

theorem processWrite_timeout {posted : Bool} {w : World}
    (hopen : Open posted w) (hset : w.c.write.timerSet = true) :
    Gone (processWrite (expireWrite w)) := by
  have hlive : Live (expireWrite w) :=
    ⟨hopen.destroyed, hopen.unused, hopen.state⟩
  have hhandler : (expireWrite w).mc.writeEventHandler = true :=
    hopen.handler (Or.inr (Or.inr hset))
  simp only [processWrite, hlive.useMc_eq]
  rw [if_pos hhandler]
  simp only [nnConnWriteHandler, hlive.useMc_eq]
  rw [if_neg (by rw [hlive.state]; simp),
    if_pos (show (expireWrite w).c.write.timedout = true from rfl)]
  exact gone_nnConnFinalize hlive

/-- The timer of a slow connection goes off.  Since the posted events have been
handled, its write handler does not finalize the connection. -/
theorem slowTimer_lives {s : State} {stage : Stage}
    (hstage : stage.writePosted = false) (hopen : OpenAt stage s.w)
    (h : Workable s.w) (hpc : s.pc = Pc.idle) : Lives stage (slowTimer s) := by
  obtain ⟨hopen, hsettled⟩ := hopen
  rw [hstage] at hopen hsettled
  have hsettled := hsettled.resolve_left (by simp)
  have hu : Open false (expireSlow s.w) :=
    ⟨⟨hopen.destroyed, hopen.unused, hopen.state⟩, hopen.fd, hopen.connection,
      hopen.timedout, hopen.handler⟩
  have hdone : Settled (expireSlow s.w) := hsettled.of_same rfl rfl rfl
  simp only [slowTimer]
  rcases nnConnTimerHandlerFront_spec hu (workable_event h _ _ _) hdone with
    ⟨htrue, hopen', hsettled'⟩ | ⟨hfalse, hgone⟩
  · rw [if_pos htrue, startRead_live hopen'.toLive]
    exact Or.inl ⟨by rw [hstage]; exact hopen', Or.inr hsettled'⟩
  · rw [if_neg (by rw [hfalse]; simp)]
    refine Or.inr ⟨hgone, ?_⟩
    rw [hpc]
    exact Pc.notReading_idle

theorem Running.outtask {l : LoopState} (h : Running l) {n : Nat}
    {q : List Nat} (hpc : l.s.pc = Pc.writing (n :: q))
    (hhung : l.s.w.hung = false) :
    OutFits (nnConnOuttask l.s.w n).2.mc.out ∧
      Lives l.stage { l.s with
        w := (nnConnOuttask l.s.w n).2, pc := Pc.writing q } := by
  have hreplies := h.served.replies
  simp only [State.life, hpc, Pc.held, ← Multiset.cons_coe,
    Multiset.add_cons] at hreplies
  have hidle := Pc.notReading_writing q
  rcases h.life with ⟨hopen, _⟩ | ⟨hgone, _⟩
  · have hready : OutReady (pushOut l.s.w n) :=
      outReady_of_replies h.out.1 h.out.2 (replies_pushOut hreplies)
    have hwork : Workable (pushOut l.s.w n) :=
      ⟨hready, fun m hm => (replies_pushOut hreplies).back m (Or.inr hm), hhung⟩
    have hpushed : Open l.stage.writePosted (pushOut l.s.w n) :=
      open_of_control hopen rfl
    have hkept := outKept_of_moves hready (nnConnOuttask_moves n hopen.state)
    refine ⟨⟨hkept.ready.wf, hkept.ready.small⟩, ?_⟩
    have heq : nnConnOuttask l.s.w n = nnConnOutput (pushOut l.s.w n) := by
      simp only [nnConnOuttask, hopen.toLive.useMc_eq]
      rw [if_neg (by rw [hopen.state]; simp)]
    rw [heq]
    rcases nnConnOutput_spec hpushed hwork with ⟨hopen', hsettled⟩ | ⟨hgone, _⟩
    · exact Or.inl ⟨hopen', Or.inr hsettled⟩
    · exact Or.inr ⟨hgone, hidle⟩
  · have hpool : l.s.w.trace.destroyed = [] :=
      hgone.pool (hreplies.balanced.count_pos (n := n)
        (Or.inr (Multiset.mem_cons_self n (bagOf l.s.bque + (q : Multiset Nat)))))
    have heq : (nnConnOuttask l.s.w n).2 = nnConnFreeTask l.s.w n := by
      simp only [nnConnOuttask, useMc_of_pool hpool]
      rw [if_pos (by rw [hgone.state]; simp)]
    rw [heq]
    refine ⟨?_, Or.inr ⟨gone_nnConnFreeTask hgone hpool n, hidle⟩⟩
    rw [show (nnConnFreeTask l.s.w n).mc.out = l.s.w.mc.out from
      congrArg Bytes.out (bytes_nnConnFreeTask l.s.w n)]
    exact h.out

theorem Running.handled {l : LoopState} (h : Running l) {k n : Nat}
    {rest : List Nat} (hbatch : l.s.batch.getD k [] = n :: rest)
    (block : Option (BitVec 64)) (result : Option TaskT) :
    let s' := finishTask
      { l.s with
        w := l.s.w.useMc
        batch := l.s.batch.set k rest
        malloced := block.toList ++ l.s.malloced } k n result
    OutFits s'.w.mc.out ∧ Lives l.stage s' := by
  have hcount : 0 < l.s.w.mc.count := by
    refine h.served.replies.balanced.count_pos (n := n) (Or.inl ?_)
    refine Multiset.mem_add.mpr (Or.inl ?_)
    rw [bagOf_pop hbatch]
    exact Multiset.mem_cons_self n _
  have hpool : l.s.w.trace.destroyed = [] := by
    rcases h.life with hopen | hgone
    · exact hopen.1.destroyed
    · exact hgone.1.pool hcount
  rw [useMc_of_pool hpool]
  cases result with
  | none => exact h.same rfl rfl rfl rfl id
  | some t => exact h.same rfl rfl rfl rfl id

theorem Running.pool_iff {l : LoopState} (h : Running l) (k : Nat) :
    l.s.w.trace.destroyed = [] <-> WakesInTime l.s (Label.wake k) := by
  rcases h.life with ⟨hopen, _⟩ | ⟨hgone, _⟩
  · exact ⟨fun _ => Or.inl hopen.state, fun _ => hopen.destroyed⟩
  · constructor
    · intro hpool
      exact Or.inr (Classical.not_not.mp (fun hnone => hgone.no_pool hnone hpool))
    · rintro (hstate | hcount)
      · rw [hgone.state] at hstate
        cases hstate
      · exact hgone.pool hcount

theorem Running.woken {l : LoopState} (h : Running l) {k : Nat}
    (hwakes : WakesInTime l.s (Label.wake k)) :
    OutFits (wakeUp l.s k).w.mc.out ∧ Lives l.stage (wakeUp l.s k) := by
  have hpool := (h.pool_iff k).mpr hwakes
  have huse : (wakeUp l.s k).w = l.s.w := useMc_of_pool hpool
  exact h.same (by rw [huse]) (by rw [huse]) (by rw [huse]) (by rw [huse]) id

theorem Running.polled {s : State} (h : Running ⟨s, Stage.wait⟩)
    (rd wr : Bool) :
    Lives (Stage.posted (rd && s.w.c.read.active) (wr && s.w.c.write.active))
      { s with w := pollReady s.w rd wr } := by
  rcases h.life with ⟨hopen, hsettled⟩ | ⟨hgone, hnot⟩
  · have hsettled := hsettled.resolve_left (by simp [Stage.writePosted])
    refine Or.inl ⟨?_, ?_⟩
    · refine ⟨⟨hopen.destroyed, hopen.unused, hopen.state⟩, hopen.fd,
        hopen.connection, hopen.timedout, fun hor => hopen.handler ?_⟩
      rcases hor with hposted | hor
      · simp only [Stage.writePosted, Bool.and_eq_true] at hposted
        exact Or.inr (Or.inl hposted.2)
      · exact Or.inr hor
    · cases hposted : wr && s.w.c.write.active with
      | true => exact Or.inl rfl
      | false =>
          refine Or.inr (hsettled.of_same ?_ rfl rfl)
          simp only [pollReady, hposted, Bool.or_false]
  · exact Or.inr ⟨⟨hgone.unused, hgone.state, hgone.connection, hgone.timer,
      hgone.destroyed⟩, hnot⟩

theorem State.Free.notReading {s : State} (h : s.Free) : s.pc.NotReading := by
  rw [h.2]
  exact Pc.notReading_idle

/-- Every step in its place in the loop keeps the connection open or leaves it
gone. -/
theorem Running.stepped {l : LoopState} (h : Running l) {a : Label} {s' : State}
    {stage : Stage} (hstepped : Stepped l.s a s') (hwakes : WakesInTime l.s a)
    (hstage : stageAfter l.s.w l.stage a = some stage) :
    OutFits s'.w.mc.out ∧ Lives stage s' := by
  obtain ⟨s, now⟩ := l
  simp only at hstepped hwakes hstage
  cases hstepped with
  | kernel env =>
      cases hstage
      exact h.same rfl rfl rfl rfl id
  | poll rd wr _ =>
      simp only [stageAfter] at hstage
      split at hstage
      · cases hstage
        exact ⟨h.out, h.polled rd wr⟩
      · cases hstage
  | readEvent hfree _ =>
      simp only [stageAfter] at hstage
      split at hstage
      · simp only [Option.ite_none_right_eq_some, Option.some.injEq] at hstage
        obtain ⟨hconn, rfl⟩ := hstage
        have hopen := h.open hconn
        rw [startRead_live hopen.1.toLive]
        exact ⟨h.out, Or.inl hopen⟩
      · cases hstage
  | recvIter hpc =>
      cases hstage
      have hopen := h.reading (fun hnot => hnot.1 hpc)
      exact h.read hopen (readKept_recvTurn hopen.1.toLive)
        (recvIter_ends hopen.1.toLive)
  | decodeIter hpc =>
      cases hstage
      have hopen := h.reading (fun hnot => hnot.2 hpc)
      exact h.read hopen (readKept_decodeTurn hopen.1.toLive) (decodeIter_ends s)
  | writeEvent hfree _ =>
      simp only [stageAfter] at hstage
      split at hstage
      · simp only [Option.ite_none_right_eq_some, Option.some.injEq] at hstage
        obtain ⟨hconn, rfl⟩ := hstage
        refine ⟨h.outFits (processWrite_moves s.w), ?_⟩
        rcases processWrite_posted (h.open hconn).1 (h.workable hfree.1) with
          ⟨hopen, hsettled⟩ | hgone
        · exact Or.inl ⟨hopen.unposted, Or.inr hsettled⟩
        · exact Or.inr ⟨hgone, hfree.notReading⟩
      · cases hstage
  | slowTimer hfree hset =>
      simp only [stageAfter] at hstage
      split at hstage
      · cases hstage
        obtain ⟨w, pc, heq, _, hmoves⟩ := slowTimer_moves hfree.held
        refine ⟨by rw [heq]; exact h.outFits hmoves, ?_⟩
        have hopen := h.life.resolve_right (fun hgone => by
          rw [hgone.1.timer] at hset
          cases hset)
        exact slowTimer_lives rfl hopen (h.workable hfree.1) hfree.2
      · cases hstage
  | writeTimeout hfree hset =>
      simp only [stageAfter] at hstage
      split at hstage
      · simp only [Option.ite_none_right_eq_some, Option.some.injEq] at hstage
        obtain ⟨hconn, rfl⟩ := hstage
        refine ⟨h.outFits (ReflTransGen.trans (expireWrite_moves s.w)
          (processWrite_moves _)), Or.inr ⟨?_, hfree.notReading⟩⟩
        exact processWrite_timeout (h.open hconn).1 hset
      · cases hstage
  | popBack i hfree =>
      simp only [stageAfter] at hstage
      split at hstage
      · cases hstage
        exact h.same rfl rfl rfl rfl (fun _ => Pc.notReading_writing _)
      · cases hstage
  | outDone hpc =>
      cases hstage
      exact h.same rfl rfl rfl rfl (fun _ => Pc.notReading_idle)
  | outIter n q hpc hhung =>
      cases hstage
      exact h.outtask hpc hhung
  | popAll k _ _ _ =>
      cases hstage
      exact h.same rfl rfl rfl rfl id
  | handle k block result n rest hbatch _ =>
      cases hstage
      exact h.handled hbatch block result
  | wake k _ =>
      cases hstage
      exact h.woken hwakes

theorem running_of_step {l l' : LoopState} {a : LoopLabel} (h : Running l)
    (hserves : LoopServes l a) (hwakes : LoopWakes l a) (hstep : loopStep l a = some l') :
    Running l' := by
  cases a with
  | act a =>
      simp only [loopStep] at hstep
      split at hstep
      · next s stage hs hstage =>
        cases hstep
        have hstepped := stepped_of_step hs
        obtain ⟨hout, hlife⟩ := h.stepped hstepped hwakes hstage
        exact ⟨served_of_stepped h.served hserves hstepped, hout, hlife⟩
      · cases hstep
  | stale =>
      simp only [loopStep, Option.ite_none_right_eq_some, Option.map_eq_some_iff]
        at hstep
      obtain ⟨⟨hfree, hfd⟩, stage, _, rfl⟩ := hstep
      refine ⟨h.served, h.out, ?_⟩
      rcases h.life with hopen | hgone
      · exact absurd hfd hopen.1.fd
      · exact Or.inr hgone
  | turn =>
      simp only [loopStep, Option.ite_none_right_eq_some, Option.map_eq_some_iff]
        at hstep
      obtain ⟨hfree, stage, hturn, rfl⟩ := hstep
      refine ⟨h.served, h.out, ?_⟩
      have hposted : l.stage.writePosted = false ∧ stage.writePosted = false := by
        unfold turnAfter at hturn
        split at hturn <;> cases hturn <;> exact ⟨by simp [*, Stage.writePosted], rfl⟩
      rcases h.life with ⟨hopen, hsettled⟩ | hgone
      · refine Or.inl ⟨?_, ?_⟩
        · rw [hposted.2, ← hposted.1]
          exact hopen
        · exact Or.inr (hsettled.resolve_left (by simp [hposted.1]))
      · exact Or.inr hgone

theorem Accepted.running {l : LoopState} (h : Accepted true l) : Running l := by
  cases h with
  | init conf allocs mem fd env taskNum threadId _ w hfd hnum hvalid hinit =>
      have hstarted : Started (start w taskNum threadId) :=
        Started.up conf allocs mem fd env taskNum threadId w hnum hvalid hinit
      obtain ⟨hready, _⟩ := nnConnInit_outReady hvalid hinit
      refine ⟨hstarted.served, ⟨hready.wf, hready.small⟩, Or.inl ?_⟩
      obtain ⟨inBuf, out, buff, ev, env', _, _, _, rfl⟩ := nnConnInit_up hinit
      refine ⟨⟨⟨rfl, rfl, rfl⟩, hfd, rfl, rfl, fun hor => ?_⟩, Or.inr fun hon => ?_⟩
      · rcases hor with hor | hor | hor <;> cases hor
      · cases hon

end Server
end NgxEpoll
