import NgxEpoll.Common.TaskCodec
import NgxEpoll.Foundation.Loop

/-!
# The connection and its task nodes

`nn_conn_t` of `nn_request.h` with the part of `conn_t` and `event_t` its
handlers use, the kernel as a script of system call results, and the functions
of `nn_request.cpp` that move task nodes and tear the connection down.

The intrusive rings `free_task` and `out_task` are lists of node numbers, head
first; node `i` is the `i`-th element of the array that `nn_conn_init`
allocates.
-/

namespace NgxEpoll
namespace Request

open Foundation
open NgxEpoll.Core
open Common

/-- The outcome of one `recv` system call: some of the bytes on the wire, at
most `n + 1`, or one of its other answers. -/
inductive RecvResult where
  | data (n : Nat)
  | again
  | closed
  | error
  | intr
deriving DecidableEq

/-- The outcome of one `send` system call: at most `n` bytes accepted, or one of
its other answers. -/
inductive SendResult where
  | sent (n : Nat)
  | again
  | error
  | intr
deriving DecidableEq

/-- The kernel: the bytes the peer has sent and `recv` has not returned, and the
results that the next `recv`, `send` and `epoll_ctl` calls will have.  A script
that has run out answers `EAGAIN`, and success for `epoll_ctl`. -/
structure Env where
  wire : List Byte
  recvs : List RecvResult
  sends : List SendResult
  ctls : List Bool

structure Event where
  active : Bool
  ready : Bool
  timedout : Bool
  timerSet : Bool
deriving DecidableEq

structure ConnT where
  fd : Int
  read : Event
  write : Event

inductive ConnState where
  | connected
  | disconnected
deriving DecidableEq

/-- `nn_conn_t`.  `connection` and `writeEventHandler` tell whether the pointer
is set; `nodes i` is the task of node `i`. -/
structure NnConn where
  connection : Bool
  inBuf : Buffer
  out : Buffer
  outTask : List Nat
  writeEventHandler : Bool
  count : Int
  slow : Int
  freeTask : List Nat
  evTimer : Event
  maxTask : Int
  state : ConnState
  nodes : Nat -> TaskT

/-- One `dispatch_task` call: the node, its task, and the bytes its `data`
designated at that moment. -/
structure Dispatch where
  node : Nat
  task : TaskT
  payload : List Byte

/-- What has been observed of a connection so far.  None of it is read by the
code.  `carried i` is the payload of the frame last decoded into node `i`,
`lost` lists nodes that no queue holds any more, and `destroyed` the state and
`count` at each destruction of the pool. -/
structure Trace where
  received : List Byte
  dispatched : List Dispatch
  carried : Nat -> List Byte
  sent : List Byte
  freed : List (BitVec 64)
  lost : List Nat
  destroyed : List (ConnState × Int)
  usedAfterDestroy : Bool
  emptyPop : Bool

/-- A connection in its surroundings: memory, the task threads' queues, the
kernel.  `hung` is set when the I/O thread has entered a loop it never
leaves. -/
structure World where
  mem : Mem
  c : ConnT
  mc : NnConn
  tq : List (List Nat)
  env : Env
  trace : Trace
  hung : Bool

/-- An access to `mc`, which lives in the pool that `nn_conn_finalize`
destroys. -/
def World.useMc (w : World) : World :=
  if w.trace.destroyed = [] then w
  else { w with trace := { w.trace with usedAfterDestroy := true } }

@[simp] theorem useMc_mem (w : World) : w.useMc.mem = w.mem := by
  unfold World.useMc
  split <;> rfl

@[simp] theorem useMc_mc (w : World) : w.useMc.mc = w.mc := by
  unfold World.useMc
  split <;> rfl

@[simp] theorem useMc_tq (w : World) : w.useMc.tq = w.tq := by
  unfold World.useMc
  split <;> rfl

@[simp] theorem useMc_env (w : World) : w.useMc.env = w.env := by
  unfold World.useMc
  split <;> rfl

@[simp] theorem useMc_lost (w : World) : w.useMc.trace.lost = w.trace.lost := by
  unfold World.useMc
  split <;> rfl

@[simp] theorem useMc_freed (w : World) :
    w.useMc.trace.freed = w.trace.freed := by
  unfold World.useMc
  split <;> rfl

@[simp] theorem useMc_emptyPop (w : World) :
    w.useMc.trace.emptyPop = w.trace.emptyPop := by
  unfold World.useMc
  split <;> rfl

/-!
## Events and the connection object
-/

def epollCtl (env : Env) : Bool × Env :=
  match env.ctls with
  | [] => (true, env)
  | ok :: rest => (ok, { env with ctls := rest })

def epollAddEvent (env : Env) (ev : Event) : Int × Event × Env :=
  let r := epollCtl env
  if r.1 then (ngxOk, { ev with active := true }, r.2)
  else (ngxError, { ev with active := false }, r.2)

def epollDelEvent (env : Env) (ev : Event) : Int × Event × Env :=
  let r := epollCtl env
  if r.1 then (ngxOk, { ev with active := false }, r.2)
  else (ngxError, ev, r.2)

def eventHandle (env : Env) (ev : Event) : Int × Event × Env :=
  if !ev.active && !ev.ready then epollAddEvent env ev else (ngxOk, ev, env)

def eventHandleRead (w : World) : Int × World :=
  let r := eventHandle w.env w.c.read
  (r.1, { w with c := { w.c with read := r.2.1 }, env := r.2.2 })

def eventHandleWrite (w : World) : Int × World :=
  let r := eventHandle w.env w.c.write
  (r.1, { w with c := { w.c with write := r.2.1 }, env := r.2.2 })

def eventDelRead (w : World) : Int × World :=
  let r := epollDelEvent w.env { w.c.read with ready := false }
  (r.1, { w with c := { w.c with read := r.2.1 }, env := r.2.2 })

def eventTimerAdd (ev : Event) : Event :=
  { ev with timerSet := true }

def eventTimerDel (ev : Event) : Event :=
  { ev with timerSet := false }

/-- `conn_close`: the timers are removed and, since closing the descriptor
removes it from epoll, the events become inactive. -/
def connClose (c : ConnT) : ConnT :=
  if 0 < c.fd then
    { fd := ngxInvalidFile
      read := { eventTimerDel c.read with active := false }
      write := { eventTimerDel c.write with active := false } }
  else c

def nnConnClose (w : World) : World :=
  if w.mc.connection then
    { w with c := connClose w.c, mc := { w.mc with connection := false } }
  else w

/-!
## Task nodes
-/

def nnConnGetTask (w : World) : Option Nat × World :=
  let w := w.useMc
  if w.mc.maxTask ≤ w.mc.count then (none, w)
  else
    match w.mc.freeTask with
    | [] => (none, { w with trace := { w.trace with emptyPop := true } })
    | n :: rest =>
        (some n,
          { w with mc := { w.mc with freeTask := rest, count := w.mc.count + 1 } })

def takeFree (w : World) (rest : List Nat) : World :=
  { w with mc := { w.mc with freeTask := rest, count := w.mc.count + 1 } }

theorem nnConnGetTask_cases (w : World) {u : World} (hu : u = w.useMc) :
    (u.mc.maxTask ≤ u.mc.count ∧ nnConnGetTask w = (none, u)) ∨
      (u.mc.count < u.mc.maxTask ∧ u.mc.freeTask = [] ∧
        nnConnGetTask w =
          (none, { u with trace := { u.trace with emptyPop := true } })) ∨
      (exists n rest, u.mc.count < u.mc.maxTask ∧ u.mc.freeTask = n :: rest ∧
        nnConnGetTask w = (some n, takeFree u rest)) := by
  subst hu
  unfold nnConnGetTask
  simp only
  by_cases hfull : w.useMc.mc.maxTask ≤ w.useMc.mc.count
  · exact Or.inl ⟨hfull, if_pos hfull⟩
  · rw [if_neg hfull]
    right
    split
    · next hfree => exact Or.inl ⟨by omega, hfree, rfl⟩
    · next n rest hfree => exact Or.inr ⟨n, rest, by omega, hfree, rfl⟩

def poolDestroy (w : World) : World :=
  { w with trace := { w.trace with
      destroyed := w.trace.destroyed ++ [(w.mc.state, w.mc.count)] } }

/-- The part of `nn_conn_finalize` behind its first `if`.  It is all of it when
the state is `ST_DISCONNCECTED`. -/
def nnConnFinalizeTail (w : World) : World :=
  let w := w.useMc
  if 0 < w.mc.count then w else poolDestroy w

/-- The test of `nn_conn_free_task`: the task's data is handed to `free`. -/
def FreesData (task : TaskT) : Prop :=
  task.data ≠ 0 ∧ 0 < task.dataLen.toInt

instance (task : TaskT) : Decidable (FreesData task) :=
  inferInstanceAs (Decidable (_ ∧ _))

def releaseData (w : World) (q : Nat) : World :=
  let task := w.mc.nodes q
  if FreesData task then
    { w with
      mc := { w.mc with
        nodes := Function.update w.mc.nodes q { task with data := 0 } }
      trace := { w.trace with freed := w.trace.freed ++ [task.data] } }
  else w

def nnConnFreeTask (w : World) (q : Nat) : World :=
  let w := w.useMc
  let w := { w with mc := { w.mc with count := w.mc.count - 1 } }
  let w := releaseData w q
  let w := { w with mc := { w.mc with freeTask := w.mc.freeTask ++ [q] } }
  if w.mc.state = ConnState.disconnected ∧ w.mc.count = 0 then
    nnConnFinalizeTail w
  else w

def popOut (w : World) (rest : List Nat) : World :=
  { w with mc := { w.mc with outTask := rest } }

def nnConnFreeQueueTurn (w : World) : Turn World World :=
  let w := w.useMc
  match w.mc.outTask with
  | [] => Turn.done w
  | qn :: rest => Turn.next (nnConnFreeTask (popOut w rest) qn)

def nnConnFreeQueue (w : World) : World :=
  loop (fun w => w.mc.outTask.length) nnConnFreeQueueTurn id w

def nnConnFinalize (w : World) : World :=
  let w := w.useMc
  if w.mc.state = ConnState.connected then
    let w :=
      if w.mc.evTimer.timerSet then
        { w with mc := { w.mc with evTimer := eventTimerDel w.mc.evTimer } }
      else w
    let w := nnConnClose w
    let w := nnConnFreeQueue w
    let w := { w with mc := { w.mc with state := ConnState.disconnected } }
    nnConnFinalizeTail w
  else nnConnFinalizeTail w

/-!
## What freeing nodes leaves alone
-/

/-- The part of a world that no teardown touches: memory and buffers, the task
threads' queues, and what was received, dispatched and sent. -/
structure Bytes where
  mem : Mem
  inBuf : Buffer
  out : Buffer
  tq : List (List Nat)
  env : Env
  received : List Byte
  dispatched : List Dispatch
  carried : Nat -> List Byte
  sent : List Byte
  hung : Bool

def World.bytes (w : World) : Bytes where
  mem := w.mem
  inBuf := w.mc.inBuf
  out := w.mc.out
  tq := w.tq
  env := w.env
  received := w.trace.received
  dispatched := w.trace.dispatched
  carried := w.trace.carried
  sent := w.trace.sent
  hung := w.hung

@[simp] theorem bytes_useMc (w : World) : w.useMc.bytes = w.bytes := by
  unfold World.useMc
  split <;> rfl

@[simp] theorem bytes_nnConnClose (w : World) :
    (nnConnClose w).bytes = w.bytes := by
  unfold nnConnClose
  split <;> rfl

@[simp] theorem bytes_nnConnFinalizeTail (w : World) :
    (nnConnFinalizeTail w).bytes = w.bytes := by
  unfold nnConnFinalizeTail
  simp only
  split
  · exact bytes_useMc w
  · exact bytes_useMc w

@[simp] theorem bytes_releaseData (w : World) (q : Nat) :
    (releaseData w q).bytes = w.bytes := by
  unfold releaseData
  simp only
  split <;> rfl

@[simp] theorem bytes_nnConnFreeTask (w : World) (q : Nat) :
    (nnConnFreeTask w q).bytes = w.bytes := by
  unfold nnConnFreeTask
  simp only
  split
  · rw [bytes_nnConnFinalizeTail]
    exact (bytes_releaseData _ q).trans (bytes_useMc w)
  · exact (bytes_releaseData _ q).trans (bytes_useMc w)

@[simp] theorem bytes_nnConnFreeQueue (w : World) :
    (nnConnFreeQueue w).bytes = w.bytes := by
  refine loop_keeps _ (fun v : World => v.bytes = w.bytes)
    (fun v : World => v.bytes = w.bytes) ?_ ?_ (fun _ hv => hv) rfl
  · intro v v' hv h
    simp only [nnConnFreeQueueTurn] at h
    rw [← bytes_useMc] at hv
    split at h
    · cases h
    · cases h
      rw [bytes_nnConnFreeTask]
      exact hv
  · intro v r hv h
    simp only [nnConnFreeQueueTurn] at h
    split at h
    · cases h
      rw [bytes_useMc]
      exact hv
    · cases h

@[simp] theorem bytes_nnConnFinalize (w : World) :
    (nnConnFinalize w).bytes = w.bytes := by
  rw [← bytes_useMc w]
  simp only [nnConnFinalize]
  generalize w.useMc = u
  split
  · rw [bytes_nnConnFinalizeTail]
    refine (bytes_nnConnFreeQueue _).trans ?_
    rw [bytes_nnConnClose]
    split <;> rfl
  · exact bytes_nnConnFinalizeTail u

/-!
## What freeing nodes does to `mc`
-/

@[simp] theorem mc_nnConnFinalizeTail (w : World) :
    (nnConnFinalizeTail w).mc = w.mc := by
  unfold nnConnFinalizeTail
  simp only
  split
  · exact useMc_mc w
  · exact useMc_mc w

theorem mc_releaseData (w : World) (q : Nat) :
    (releaseData w q).mc.outTask = w.mc.outTask ∧
      (releaseData w q).mc.state = w.mc.state ∧
      forall m, m ≠ q -> (releaseData w q).mc.nodes m = w.mc.nodes m := by
  unfold releaseData
  simp only
  split
  · exact ⟨rfl, rfl, fun m hm => Function.update_of_ne hm _ _⟩
  · exact ⟨rfl, rfl, fun _ _ => rfl⟩

theorem mc_nnConnFreeTask (w : World) (q : Nat) :
    (nnConnFreeTask w q).mc.outTask = w.mc.outTask ∧
      (nnConnFreeTask w q).mc.state = w.mc.state ∧
      forall m, m ≠ q -> (nnConnFreeTask w q).mc.nodes m = w.mc.nodes m := by
  rw [← useMc_mc w]
  unfold nnConnFreeTask
  simp only
  generalize w.useMc = u
  have hrelease := mc_releaseData
    { u with mc := { u.mc with count := u.mc.count - 1 } } q
  split
  · rw [mc_nnConnFinalizeTail]
    exact hrelease
  · exact hrelease

theorem free_nnConnFreeTask (w : World) (q : Nat) :
    (nnConnFreeTask w q).mc.freeTask = w.mc.freeTask ++ [q] ∧
      (nnConnFreeTask w q).mc.count = w.mc.count - 1 ∧
      (nnConnFreeTask w q).mc.maxTask = w.mc.maxTask := by
  have hrelease : forall u : World,
      (releaseData u q).mc.freeTask = u.mc.freeTask ∧
        (releaseData u q).mc.count = u.mc.count ∧
        (releaseData u q).mc.maxTask = u.mc.maxTask := by
    intro u
    unfold releaseData
    simp only
    split <;> exact ⟨rfl, rfl, rfl⟩
  rw [← useMc_mc w]
  unfold nnConnFreeTask
  simp only
  generalize w.useMc = u
  obtain ⟨hfree, hcount, hmax⟩ := hrelease
    { u with mc := { u.mc with count := u.mc.count - 1 } }
  split
  · rw [mc_nnConnFinalizeTail]
    exact ⟨congrArg (· ++ [q]) hfree, hcount, hmax⟩
  · exact ⟨congrArg (· ++ [q]) hfree, hcount, hmax⟩

theorem mc_nnConnFreeQueue (w : World) :
    (nnConnFreeQueue w).mc.outTask = [] ∧
      forall m, m ∉ w.mc.outTask -> (nnConnFreeQueue w).mc.nodes m =
        w.mc.nodes m := by
  let Inv : World -> Prop := fun v =>
    (forall m, m ∈ v.mc.outTask -> m ∈ w.mc.outTask) ∧
      forall m, m ∉ w.mc.outTask -> v.mc.nodes m = w.mc.nodes m
  have hlow : Lowers Inv (fun v => v.mc.outTask.length)
      nnConnFreeQueueTurn := by
    rintro v v' ⟨hsub, hnodes⟩ h
    simp only [nnConnFreeQueueTurn] at h
    change Inv v' ∧ v'.mc.outTask.length < v.mc.outTask.length
    rw [← useMc_mc v] at hsub hnodes ⊢
    generalize v.useMc = u at hsub hnodes h ⊢
    split at h
    · cases h
    · next qn rest hout =>
      cases h
      obtain ⟨hqueue, _, hother⟩ := mc_nnConnFreeTask (popOut u rest) qn
      rw [hout] at hsub
      refine ⟨⟨?_, ?_⟩, ?_⟩
      · intro m hm
        rw [hqueue] at hm
        exact hsub m (List.mem_cons_of_mem _ hm)
      · intro m hm
        rw [hother m (fun heq => hm (hsub m (heq ▸ List.mem_cons_self)))]
        exact hnodes m hm
      · rw [hqueue, hout]
        exact Nat.lt_succ_self _
  refine loop_rule hlow id
    (fun v => v.mc.outTask = [] ∧ forall m, m ∉ w.mc.outTask ->
      v.mc.nodes m = w.mc.nodes m) ?_ ⟨fun _ hm => hm, fun _ _ => rfl⟩
  rintro v r ⟨_, hnodes⟩ h
  simp only [nnConnFreeQueueTurn, useMc_mc] at h
  split at h
  · next hout =>
    cases h
    rw [useMc_mc]
    exact ⟨hout, hnodes⟩
  · cases h

/-- `nn_conn_finalize` leaves the connection disconnected, with no task waiting
for output if it had been connected. -/
theorem mc_nnConnFinalize (w : World) :
    (nnConnFinalize w).mc.state = ConnState.disconnected ∧
      ((nnConnFinalize w).mc.outTask = [] ∧
          (forall m, m ∉ w.mc.outTask ->
            (nnConnFinalize w).mc.nodes m = w.mc.nodes m) ∨
        (nnConnFinalize w).mc = w.mc) := by
  rw [← useMc_mc w]
  simp only [nnConnFinalize]
  generalize w.useMc = u
  split
  · rw [mc_nnConnFinalizeTail]
    let v : World := nnConnClose
      (if u.mc.evTimer.timerSet = true then
        { u with mc := { u.mc with evTimer := eventTimerDel u.mc.evTimer } }
      else u)
    have hv : v.mc.outTask = u.mc.outTask ∧ v.mc.nodes = u.mc.nodes := by
      unfold v nnConnClose
      split <;> split <;> exact ⟨rfl, rfl⟩
    obtain ⟨hout, hnodes⟩ := mc_nnConnFreeQueue v
    refine ⟨rfl, Or.inl ⟨hout, fun m hm => ?_⟩⟩
    exact (hnodes m (by rwa [hv.1])).trans (congrFun hv.2 m)
  · next hstate =>
    rw [mc_nnConnFinalizeTail]
    refine ⟨?_, Or.inr rfl⟩
    cases hs : u.mc.state with
    | connected => exact absurd hs hstate
    | disconnected => rfl

end Request
end NgxEpoll
