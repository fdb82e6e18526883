import NgxEpoll.Foundation.Runs
import NgxEpoll.Foundation.Counting
import NgxEpoll.Core.Types
import Mathlib.Logic.Function.Basic

/-!
# The threads of a worker process

The start and the end of the threads of `dn_worker_process.cpp`: the main thread in
`worker_processer` with the four creation functions, and the threads in their
cycles.  A step is one access to what the threads share.  `init_lock` is held by
one thread at a time, and `init_cond` wakes the main thread, which alone waits.
-/

namespace NgxEpoll
namespace Threads

open Foundation
open NgxEpoll.Core

inductive Kind where
  | ns
  | task
  | cli
  | worker
deriving DecidableEq

structure Tid where
  kind : Kind
  index : Nat
deriving DecidableEq

/-- `THREAD_ST_OK`, the value of a zeroed field, `THREAD_ST_EXIT` and
`THREAD_ST_UNSTART`. -/
inductive ThreadSt where
  | ok
  | exit
  | unstart
deriving DecidableEq

inductive Registration where
  | initialized
  | exit
deriving DecidableEq

inductive RegPc where
  | lock
  | inc
  | signal
  | unlock
deriving DecidableEq

inductive ThreadPc where
  | absent
  | start
  | setOk
  | register (r : Registration) (p : RegPc)
  | notice
  | running
  | clean
  | setExit
  | gone
deriving DecidableEq

/-- `dfs_thread_t`, with what the thread has done so far: whether it was counted into
`total_threads`, and the two registrations. -/
structure ThreadT where
  state : ThreadSt
  running : Bool
  pc : ThreadPc
  counted : Bool
  registered : Bool
  exited : Bool
deriving DecidableEq

/-- What a cycle does of its own: an initialisation that may leave through `exit`,
`notice_init` behind the registration, and `THREAD_ST_EXIT` set before
`register_thread_exit`. -/
structure Cycle where
  mayFail : Bool
  notice : Bool
  exitFirst : Bool

def threadWorkerCycle : Cycle where
  mayFail := true
  notice := false
  exitFirst := false

def threadTaskCycle : Cycle where
  mayFail := false
  notice := true
  exitFirst := false

def threadCliCycle : Cycle where
  mayFail := true
  notice := false
  exitFirst := true

def threadNsServiceCycle : Cycle where
  mayFail := false
  notice := false
  exitFirst := false

def runFunc : Kind -> Cycle
  | Kind.ns => threadNsServiceCycle
  | Kind.task => threadTaskCycle
  | Kind.cli => threadCliCycle
  | Kind.worker => threadWorkerCycle

structure Config where
  workerN : Nat
  nsServiceNum : Nat

def Config.count (cfg : Config) : Kind -> Nat
  | Kind.ns => cfg.nsServiceNum
  | Kind.task => cfg.workerN
  | Kind.cli => 1
  | Kind.worker => cfg.workerN

/-- `wait_for_thread_registration`, from the creation function of a kind, and
`wait_for_thread_exit`. -/
inductive WaitFor where
  | registration (k : Kind)
  | exit
deriving DecidableEq

inductive WaitPc where
  | lock
  | check
  | asleep
  | woken
  | unlock
deriving DecidableEq

/-- Where the main thread is.  In `refused` a creation function has returned
`NGX_ERROR` before its wait, and in `ended` the process exits. -/
inductive MainPc where
  | setup (k : Kind)
  | prepare (k : Kind) (i : Nat)
  | spawn (k : Kind) (i : Nat)
  | count (k : Kind) (i : Nat)
  | wait (w : WaitFor) (p : WaitPc)
  | verify (k : Kind) (i : Nat)
  | returned (k : Kind) (r : Int)
  | refused (k : Kind) (i : Nat)
  | channel
  | loop
  | stopWorker (i : Nat)
  | stopNs (i : Nat)
  | ended
deriving DecidableEq

inductive Who where
  | main
  | thread (t : Tid)
deriving DecidableEq

/-- `total_threads`, `cur_runing_threads`, `cur_exited_threads` and the holder of
`init_lock`. -/
structure State where
  main : MainPc
  threads : Tid -> ThreadT
  total : Nat
  curRunning : Nat
  curExited : Nat
  lock : Option Who

def threadZero : ThreadT where
  state := ThreadSt.ok
  running := false
  pc := ThreadPc.absent
  counted := false
  registered := false
  exited := false

def initial : State where
  main := MainPc.setup Kind.ns
  threads := fun _ => threadZero
  total := 0
  curRunning := 0
  curExited := 0
  lock := none

/-!
## Steps of a thread
-/

inductive Act where
  | skip
  | acquire
  | inc (r : Registration)
  | signal
  | release
deriving DecidableEq

def Cycle.afterRegister (c : Cycle) : Registration -> ThreadPc
  | Registration.initialized => if c.notice then ThreadPc.notice else ThreadPc.running
  | Registration.exit => if c.exitFirst then ThreadPc.gone else ThreadPc.setExit

def Cycle.next (c : Cycle) (th : ThreadT) : Option (ThreadT × Act) :=
  match th.pc with
  | ThreadPc.absent => none
  | ThreadPc.start => some ({ th with pc := ThreadPc.setOk }, Act.skip)
  | ThreadPc.setOk =>
      some ({ th with
        state := ThreadSt.ok
        pc := ThreadPc.register Registration.initialized RegPc.lock }, Act.skip)
  | ThreadPc.register r RegPc.lock =>
      some ({ th with pc := ThreadPc.register r RegPc.inc }, Act.acquire)
  | ThreadPc.register Registration.initialized RegPc.inc =>
      some ({ th with
        registered := true
        pc := ThreadPc.register Registration.initialized RegPc.signal },
        Act.inc Registration.initialized)
  | ThreadPc.register Registration.exit RegPc.inc =>
      some ({ th with
        exited := true
        pc := ThreadPc.register Registration.exit RegPc.signal },
        Act.inc Registration.exit)
  | ThreadPc.register r RegPc.signal =>
      some ({ th with pc := ThreadPc.register r RegPc.unlock }, Act.signal)
  | ThreadPc.register r RegPc.unlock =>
      some ({ th with pc := c.afterRegister r }, Act.release)
  | ThreadPc.notice => some ({ th with pc := ThreadPc.running }, Act.skip)
  | ThreadPc.running =>
      if th.running then some (th, Act.skip)
      else some ({ th with pc := ThreadPc.clean }, Act.skip)
  | ThreadPc.clean =>
      if c.exitFirst then some ({ th with pc := ThreadPc.setExit }, Act.skip)
      else
        some ({ th with pc := ThreadPc.register Registration.exit RegPc.lock }, Act.skip)
  | ThreadPc.setExit =>
      if c.exitFirst then
        some ({ th with
          state := ThreadSt.exit
          pc := ThreadPc.register Registration.exit RegPc.lock }, Act.skip)
      else
        some ({ th with state := ThreadSt.exit, pc := ThreadPc.gone }, Act.skip)
  | ThreadPc.gone => none

def Cycle.fails (c : Cycle) (th : ThreadT) : Option (ThreadT × Act) :=
  if th.pc = ThreadPc.start ∧ c.mayFail = true then
    some ({ th with pc := ThreadPc.clean }, Act.skip)
  else none

def MainPc.signalled : MainPc -> MainPc
  | MainPc.wait w WaitPc.asleep => MainPc.wait w WaitPc.woken
  | pc => pc

def State.act (s : State) (t : Tid) : Act -> Option State
  | Act.skip => some s
  | Act.acquire =>
      if s.lock = none then some { s with lock := some (Who.thread t) } else none
  | Act.inc Registration.initialized => some { s with curRunning := s.curRunning + 1 }
  | Act.inc Registration.exit => some { s with curExited := s.curExited + 1 }
  | Act.signal => some { s with main := s.main.signalled }
  | Act.release => some { s with lock := none }

def State.setThread (s : State) (t : Tid) (th : ThreadT) : State :=
  { s with threads := Function.update s.threads t th }

def State.threadMove (s : State) (t : Tid) (move : Option (ThreadT × Act)) :
    Option State :=
  match move with
  | none => none
  | some (th, a) => (s.act t a).map (fun s => s.setThread t th)

/-!
## Steps of the main thread
-/

def State.counter (s : State) : WaitFor -> Nat
  | WaitFor.registration _ => s.curRunning
  | WaitFor.exit => s.curExited

def afterWait : WaitFor -> MainPc
  | WaitFor.registration k => MainPc.verify k 0
  | WaitFor.exit => MainPc.ended

def afterCreate : Kind -> MainPc
  | Kind.ns => MainPc.setup Kind.task
  | Kind.task => MainPc.setup Kind.cli
  | Kind.cli => MainPc.setup Kind.worker
  | Kind.worker => MainPc.channel

def mainStep (cfg : Config) (s : State) : Option State :=
  match s.main with
  | MainPc.setup k => some { s with main := MainPc.prepare k 0 }
  | MainPc.prepare k i =>
      if i < cfg.count k then
        some { s.setThread ⟨k, i⟩
            { s.threads ⟨k, i⟩ with running := true, state := ThreadSt.unstart } with
          main := MainPc.spawn k i }
      else some { s with main := MainPc.wait (WaitFor.registration k) WaitPc.lock }
  | MainPc.spawn k i =>
      some { s.setThread ⟨k, i⟩ { s.threads ⟨k, i⟩ with pc := ThreadPc.start } with
        main := MainPc.count k i }
  | MainPc.count k i =>
      some { s.setThread ⟨k, i⟩ { s.threads ⟨k, i⟩ with counted := true } with
        total := s.total + 1
        main := MainPc.prepare k (i + 1) }
  | MainPc.wait w WaitPc.lock =>
      if s.lock = none then
        some { s with lock := some Who.main, main := MainPc.wait w WaitPc.check }
      else none
  | MainPc.wait w WaitPc.woken =>
      if s.lock = none then
        some { s with lock := some Who.main, main := MainPc.wait w WaitPc.check }
      else none
  | MainPc.wait w WaitPc.check =>
      if s.counter w < s.total then
        some { s with lock := none, main := MainPc.wait w WaitPc.asleep }
      else some { s with main := MainPc.wait w WaitPc.unlock }
  | MainPc.wait _ WaitPc.asleep => none
  | MainPc.wait w WaitPc.unlock => some { s with lock := none, main := afterWait w }
  | MainPc.verify k i =>
      if i < cfg.count k then
        if (s.threads ⟨k, i⟩).state = ThreadSt.ok then
          some { s with main := MainPc.verify k (i + 1) }
        else some { s with main := MainPc.returned k ngxError }
      else some { s with main := MainPc.returned k ngxOk }
  | MainPc.returned k r =>
      if r = ngxOk then some { s with main := afterCreate k } else none
  | MainPc.refused _ _ => none
  | MainPc.channel => some { s with main := MainPc.loop }
  | MainPc.loop => some s
  | MainPc.stopWorker i =>
      if i < cfg.workerN then
        some { s.setThread ⟨Kind.worker, i⟩
            { s.threads ⟨Kind.worker, i⟩ with running := false } with
          main := MainPc.stopWorker (i + 1) }
      else some { s with main := MainPc.stopNs 0 }
  | MainPc.stopNs i =>
      if i < cfg.nsServiceNum then
        some { s.setThread ⟨Kind.ns, i⟩
            { s.threads ⟨Kind.ns, i⟩ with running := false } with
          main := MainPc.stopNs (i + 1) }
      else some { s with main := MainPc.wait WaitFor.exit WaitPc.lock }
  | MainPc.ended => none

/-- A call of the main thread fails: the allocation or the set-up of the threads, a
name of a name service that does not parse, `thread_create`, or
`channel_add_event`. -/
def mainFails (cfg : Config) (s : State) : Option State :=
  match s.main with
  | MainPc.setup k => some { s with main := MainPc.refused k 0 }
  | MainPc.prepare Kind.ns i =>
      if i < cfg.nsServiceNum then some { s with main := MainPc.refused Kind.ns i }
      else none
  | MainPc.spawn k i => some { s with main := MainPc.refused k i }
  | MainPc.channel => some { s with main := MainPc.ended }
  | _ => none

/-- The steps of the process.  `quit` is `process_quit_check`, and `wake` a wake-up
of the main thread without a signal. -/
inductive Label where
  | main
  | mainFails
  | quit
  | wake
  | thread (t : Tid)
  | threadFails (t : Tid)
deriving DecidableEq

def step (cfg : Config) (s : State) : Label -> Option State
  | Label.main => mainStep cfg s
  | Label.mainFails => mainFails cfg s
  | Label.quit =>
      if s.main = MainPc.loop then some { s with main := MainPc.stopWorker 0 } else none
  | Label.wake =>
      if s.main.signalled = s.main then none
      else some { s with main := s.main.signalled }
  | Label.thread t => s.threadMove t ((runFunc t.kind).next (s.threads t))
  | Label.threadFails t => s.threadMove t ((runFunc t.kind).fails (s.threads t))

end Threads
end NgxEpoll
