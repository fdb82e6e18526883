import NgxEpoll.Request.OutStream
import NgxEpoll.Foundation.Runs

/-!
# The server around a connection

One connection with the thread that owns it, the task threads of
`nn_task_handler.cpp` and the write-back queues of
`nn_net_response_handler.cpp`.  A step is one iteration of a loop of the I/O
thread, one of its other handlers, or one step of a task thread, so that every
interleaving of the threads is a run.  `write_back` takes two steps, since the
I/O thread can run between its `push_task` and its `notice_wake_up`.
-/

namespace NgxEpoll
namespace Server

open Foundation
open NgxEpoll.Core
open Common
open Request

/-!
## Handling a task
-/

def taskTestCmd : BitVec 32 := 16

def keyNotexist : Int := -2

def taskTest (task : TaskT) : TaskT :=
  if task.keyHead = 0 then
    { task with ret := BitVec.ofInt 32 keyNotexist, data := 0, dataLen := 0 }
  else { task with ret := BitVec.ofInt 32 ngxOk, data := 0, dataLen := 0 }

def nnRpcServiceRun (task : TaskT) : Option TaskT :=
  if task.cmd = taskTestCmd then some (taskTest task) else none

/-!
## Threads
-/

/-- The loop the I/O thread is in: of `nn_conn_recv`, of `nn_conn_decode`, or of
`write_back_pack_queue` with the nodes it has still to hand over. -/
inductive Pc where
  | idle
  | recving
  | decoding
  | writing (q : List Nat)

/-- `batch` holds the nodes that each task thread has taken from its queue and
not handled yet, `bque` the write-back queues, `waking` the task threads that are
in `write_back` behind its `push_task`, and `malloced` the blocks that handlers
have obtained. -/
structure State where
  w : World
  pc : Pc
  batch : List (List Nat)
  bque : List (List Nat)
  waking : List Nat
  threadId : Nat -> Nat
  malloced : List (BitVec 64)

inductive Label where
  | kernel (env : Env)
  | poll (rd wr : Bool)
  | readEvent
  | recvIter
  | decodeIter
  | writeEvent
  | slowTimer
  | writeTimeout
  | popBack (i : Nat)
  | outIter
  | popAll (k : Nat)
  | handle (k : Nat) (block : Option (BitVec 64)) (result : Option TaskT)
  | wake (k : Nat)

def State.Free (s : State) : Prop :=
  s.w.hung = false ∧ s.pc = Pc.idle

instance (pc : Pc) : Decidable (pc = Pc.idle) :=
  match pc with
  | Pc.idle => isTrue rfl
  | Pc.recving => isFalse (by simp)
  | Pc.decoding => isFalse (by simp)
  | Pc.writing _ => isFalse (by simp)

instance (s : State) : Decidable s.Free :=
  inferInstanceAs (Decidable (_ ∧ _))

def pollReady (w : World) (rd wr : Bool) : World :=
  { w with c := { w.c with
      read := { w.c.read with ready := w.c.read.ready || (rd && w.c.read.active) }
      write := { w.c.write with
        ready := w.c.write.ready || (wr && w.c.write.active) } } }

def startRead (s : State) : State :=
  let w := s.w.useMc
  if w.mc.state = ConnState.disconnected then { s with w := w, pc := Pc.idle }
  else { s with w := w, pc := Pc.recving }

/-- An iteration of `nn_conn_recv`, with what `nn_conn_read_handler` does when
the loop is left. -/
def recvIter (s : State) : State :=
  match nnConnRecvTurn s.w with
  | Turn.next w => { s with w := w }
  | Turn.done r =>
      let w := r.2.useMc
      if readGoesOn r.1 then { s with w := w, pc := Pc.decoding }
      else { s with w := nnConnFinalize w, pc := Pc.idle }

/-- An iteration of `nn_conn_decode`, with what `nn_conn_read_handler` does when
the loop is left. -/
def decodeIter (s : State) : State :=
  match nnConnDecodeTurn s.w with
  | Turn.next w => { s with w := w }
  | Turn.done r =>
      if r.1 = ngxError then { s with w := nnConnFinalize r.2, pc := Pc.idle }
      else { s with w := r.2, pc := Pc.idle }

def processWrite (w : World) : World :=
  let w := w.useMc
  if w.mc.writeEventHandler then nnConnWriteHandler w else w

def expireWrite (w : World) : World :=
  { w with c := { w.c with
      write := { w.c.write with timerSet := false, timedout := true } } }

def expireSlow (w : World) : World :=
  { w with mc := { w.mc with
      evTimer := { w.mc.evTimer with timerSet := false, timedout := true } } }

def slowTimer (s : State) : State :=
  let r := nnConnTimerHandlerFront (expireSlow s.w)
  if r.1 then startRead { s with w := r.2 } else { s with w := r.2 }

def popBack (s : State) (i : Nat) : State :=
  { s with pc := Pc.writing (s.bque.getD i []), bque := s.bque.set i [] }

def popAll (s : State) (k : Nat) : State :=
  { s with
    w := { s.w with tq := s.w.tq.set k [] }
    batch := s.batch.set k (s.w.tq.getD k []) }

/-- The handled node goes to a write-back queue, as `write_back` chooses it, or
nowhere.  With its `push_task` the I/O thread can have it. -/
def finishTask (s : State) (k n : Nat) : Option TaskT -> State
  | some t =>
      { s with
        w := { s.w with
          mc := { s.w.mc with nodes := Function.update s.w.mc.nodes n t } }
        bque := s.bque.modify (s.threadId k % s.bque.length) (n :: ·)
        waking := k :: s.waking }
  | none => { s with w := loseNode s.w n }

/-- The end of `write_back`: `notice_wake_up(&wbt->thread->tq_notice)` reads
`wbt`, which lies in the pool of `mc`, after the node has been handed over. -/
def wakeUp (s : State) (k : Nat) : State :=
  { s with w := s.w.useMc, waking := s.waking.erase k }

def step (s : State) : Label -> Option State
  | Label.kernel env => some { s with w := { s.w with env := env } }
  | Label.poll rd wr =>
      if s.Free then some { s with w := pollReady s.w rd wr } else none
  | Label.readEvent =>
      if s.Free ∧ s.w.c.fd ≠ ngxInvalidFile then some (startRead s) else none
  | Label.recvIter =>
      match s.pc with
      | Pc.recving => some (recvIter s)
      | _ => none
  | Label.decodeIter =>
      match s.pc with
      | Pc.decoding => some (decodeIter s)
      | _ => none
  | Label.writeEvent =>
      if s.Free ∧ s.w.c.fd ≠ ngxInvalidFile then
        some { s with w := processWrite s.w }
      else none
  | Label.slowTimer =>
      if s.Free ∧ s.w.mc.evTimer.timerSet then some (slowTimer s) else none
  | Label.writeTimeout =>
      if s.Free ∧ s.w.c.write.timerSet then
        some { s with w := processWrite (expireWrite s.w) }
      else none
  | Label.popBack i => if s.Free then some (popBack s i) else none
  | Label.outIter =>
      match s.pc with
      | Pc.writing [] => some { s with pc := Pc.idle }
      | Pc.writing (n :: q) =>
          if s.w.hung then none
          else some { s with w := (nnConnOuttask s.w n).2, pc := Pc.writing q }
      | _ => none
  | Label.popAll k =>
      if s.batch.getD k [] = [] ∧ k ∉ s.waking ∧ k < s.batch.length then
        some (popAll s k)
      else none
  | Label.handle k block result =>
      match s.batch.getD k [] with
      | [] => none
      | n :: rest =>
          if k ∈ s.waking then none
          else some (finishTask
            { s with
              w := s.w.useMc
              batch := s.batch.set k rest
              malloced := block.toList ++ s.malloced } k n result)
  | Label.wake k => if k ∈ s.waking then some (wakeUp s k) else none

inductive Stepped (s : State) : Label -> State -> Prop where
  | kernel (env : Env) :
      Stepped s (Label.kernel env) { s with w := { s.w with env := env } }
  | poll (rd wr : Bool) : s.Free ->
      Stepped s (Label.poll rd wr) { s with w := pollReady s.w rd wr }
  | readEvent : s.Free -> s.w.c.fd ≠ ngxInvalidFile ->
      Stepped s Label.readEvent (startRead s)
  | recvIter : s.pc = Pc.recving -> Stepped s Label.recvIter (recvIter s)
  | decodeIter : s.pc = Pc.decoding ->
      Stepped s Label.decodeIter (decodeIter s)
  | writeEvent : s.Free -> s.w.c.fd ≠ ngxInvalidFile ->
      Stepped s Label.writeEvent { s with w := processWrite s.w }
  | slowTimer : s.Free -> s.w.mc.evTimer.timerSet = true ->
      Stepped s Label.slowTimer (slowTimer s)
  | writeTimeout : s.Free -> s.w.c.write.timerSet = true ->
      Stepped s Label.writeTimeout { s with w := processWrite (expireWrite s.w) }
  | popBack (i : Nat) : s.Free -> Stepped s (Label.popBack i) (popBack s i)
  | outDone : s.pc = Pc.writing [] ->
      Stepped s Label.outIter { s with pc := Pc.idle }
  | outIter (n : Nat) (q : List Nat) : s.pc = Pc.writing (n :: q) ->
      s.w.hung = false ->
      Stepped s Label.outIter
        { s with w := (nnConnOuttask s.w n).2, pc := Pc.writing q }
  | popAll (k : Nat) : s.batch.getD k [] = [] -> k ∉ s.waking ->
      k < s.batch.length -> Stepped s (Label.popAll k) (popAll s k)
  | handle (k : Nat) (block : Option (BitVec 64)) (result : Option TaskT)
      (n : Nat) (rest : List Nat) : s.batch.getD k [] = n :: rest ->
      k ∉ s.waking ->
      Stepped s (Label.handle k block result)
        (finishTask
          { s with
            w := s.w.useMc
            batch := s.batch.set k rest
            malloced := block.toList ++ s.malloced } k n result)
  | wake (k : Nat) : k ∈ s.waking -> Stepped s (Label.wake k) (wakeUp s k)

theorem stepped_of_step {s s' : State} {a : Label} (h : step s a = some s') :
    Stepped s a s' := by
  cases a with
  | kernel env =>
      cases h
      exact Stepped.kernel env
  | poll rd wr =>
      simp only [step, Option.ite_none_right_eq_some, Option.some.injEq] at h
      obtain ⟨hfree, rfl⟩ := h
      exact Stepped.poll rd wr hfree
  | readEvent =>
      simp only [step, Option.ite_none_right_eq_some, Option.some.injEq] at h
      obtain ⟨⟨hfree, hfd⟩, rfl⟩ := h
      exact Stepped.readEvent hfree hfd
  | recvIter =>
      simp only [step] at h
      split at h
      · next hpc =>
        cases h
        exact Stepped.recvIter hpc
      · cases h
  | decodeIter =>
      simp only [step] at h
      split at h
      · next hpc =>
        cases h
        exact Stepped.decodeIter hpc
      · cases h
  | writeEvent =>
      simp only [step, Option.ite_none_right_eq_some, Option.some.injEq] at h
      obtain ⟨⟨hfree, hfd⟩, rfl⟩ := h
      exact Stepped.writeEvent hfree hfd
  | slowTimer =>
      simp only [step, Option.ite_none_right_eq_some, Option.some.injEq] at h
      obtain ⟨⟨hfree, hset⟩, rfl⟩ := h
      exact Stepped.slowTimer hfree hset
  | writeTimeout =>
      simp only [step, Option.ite_none_right_eq_some, Option.some.injEq] at h
      obtain ⟨⟨hfree, hset⟩, rfl⟩ := h
      exact Stepped.writeTimeout hfree hset
  | popBack i =>
      simp only [step, Option.ite_none_right_eq_some, Option.some.injEq] at h
      obtain ⟨hfree, rfl⟩ := h
      exact Stepped.popBack i hfree
  | outIter =>
      simp only [step] at h
      split at h
      · next hpc =>
        cases h
        exact Stepped.outDone hpc
      · next n q hpc =>
        split at h
        · cases h
        · next hhung =>
          cases h
          exact Stepped.outIter n q hpc (by simpa using hhung)
      · cases h
  | popAll k =>
      simp only [step, Option.ite_none_right_eq_some, Option.some.injEq] at h
      obtain ⟨⟨hempty, hawake, hk⟩, rfl⟩ := h
      exact Stepped.popAll k hempty hawake hk
  | handle k block result =>
      simp only [step] at h
      split at h
      · cases h
      · next n rest hbatch =>
        simp only [Option.ite_none_left_eq_some, Option.some.injEq] at h
        obtain ⟨hawake, rfl⟩ := h
        exact Stepped.handle k block result n rest hbatch hawake
  | wake k =>
      simp only [step, Option.ite_none_right_eq_some, Option.some.injEq] at h
      obtain ⟨hwaking, rfl⟩ := h
      exact Stepped.wake k hwaking

def start (w : World) (taskNum : Nat) (threadId : Nat -> Nat) : State where
  w := w
  pc := Pc.idle
  batch := List.replicate taskNum []
  bque := List.replicate taskNum []
  waking := []
  threadId := threadId
  malloced := []

/-- The servers in which a connection has just been accepted.
`create_task_thread` fails unless there is a task thread. -/
inductive Started : State -> Prop where
  | up (conf : ConfServer) (allocs : Allocs) (mem : Mem) (fd : Int) (env : Env)
      (taskNum : Nat) (threadId : Nat -> Nat) (w : World) :
      0 < taskNum -> allocs.Valid conf ->
      nnConnInit conf allocs
        (worldNew mem fd (List.replicate taskNum []) env) = (true, w) ->
      Started (start w taskNum threadId)

/-!
## A small server
-/

/-- The server with two task nodes, buffers of a kilobyte and one task thread,
right after a connection was accepted. -/
def smallStart : State :=
  start (nnConnInit smallConf smallAllocs
    (worldNew (fun _ => 0) 5 [[]] silentEnv)).2 1 id

theorem smallStart_started : Started smallStart :=
  Started.up smallConf smallAllocs (fun _ => 0) 5 silentEnv 1 id _ (by decide)
    smallAllocs_valid (Prod.ext (by decide) rfl)

/-- The peer sends some bytes, and the I/O thread receives them in one read
event. -/
def receive (bs : List Byte) : List Label :=
  [Label.kernel { silentEnv with
      wire := bs, recvs := [RecvResult.data bs.length] },
    Label.readEvent, Label.recvIter, Label.recvIter]

def testTask : TaskT :=
  { taskNew with cmd := taskTestCmd }

def testReceived : State :=
  after step smallStart (receive (taskFrame testTask []))

def testDispatched : State :=
  after step testReceived [Label.decodeIter]

def testTaken : State :=
  after step (after step testDispatched [Label.decodeIter]) [Label.popAll 0]

theorem testTaken_reached {ok : State -> Label -> Prop}
    (hkernel : forall {r env}, ok r (Label.kernel env))
    (hread : forall {r}, ok r Label.readEvent)
    (hrecv : forall {r}, ok r Label.recvIter)
    (hpop : forall {r}, ok r (Label.popAll 0))
    (hfirst : ok testReceived Label.decodeIter)
    (hsecond : ok testDispatched Label.decodeIter) :
    Reaches step ok smallStart testTaken := by
  have hreceived : Reaches step ok smallStart testReceived := by
    apply (Reaches.refl smallStart).labels
    · intro a ha r
      simp only [receive, List.mem_cons, List.not_mem_nil, or_false] at ha
      rcases ha with rfl | rfl | rfl | rfl
      · exact hkernel
      · exact hread
      · exact hrecv
      · exact hrecv
    · decide +kernel
  have hdispatched : Reaches step ok smallStart testDispatched :=
    hreceived.oneLabel hfirst (by decide +kernel)
  have hagain : Reaches step ok smallStart
      (after step testDispatched [Label.decodeIter]) :=
    hdispatched.oneLabel hsecond (by decide +kernel)
  exact hagain.oneLabel hpop (by decide +kernel)

end Server
end NgxEpoll
