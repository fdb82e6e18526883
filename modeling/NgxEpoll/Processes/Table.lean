import NgxEpoll.Foundation.Tables
import NgxEpoll.Core.Types
import NgxEpoll.Core.Texts

/-!
# The table of processes

`dn_process.cpp`: the master process starts worker processes, waits for those that
ended and starts them again.  Every slot of `processes` holds a child and the two
ends of its channel.  A result `none` stands for an access behind the table.

## The state
-/

namespace NgxEpoll
namespace Processes

open Foundation
open NgxEpoll.Core

def processesMax : Nat := 1024

def maxRestartNum : Int := 1

def ngxInvalidPid : Int := -1

def statusRunning : BitVec 32 := 1

def statusExiting : BitVec 32 := 2

def statusExited : BitVec 32 := 4

def doingReap : BitVec 32 := 0x0001

def doingTerminate : BitVec 32 := 0x0002

def doingQuit : BitVec 32 := 0x0004

def doingBackup : BitVec 32 := 0x0800

def channelCmdNone : Nat := 0

def channelCmdOpen : Nat := 1

def channelCmdBackup : Nat := 6

/-- What a process runs: the arguments `proc`, `data` and `name` of `process_spawn`. -/
structure Job where
  proc : Nat
  data : Nat
  name : List Byte
deriving DecidableEq

structure ProcessT where
  pid : Int
  status : Int
  channel : Int × Int
  job : Job
  ps : BitVec 32
  restartGap : Nat
  ow : Bool
deriving DecidableEq

def emptyProcess : ProcessT where
  pid := ngxInvalidPid
  status := 0
  channel := (0, 0)
  job := { proc := 0, data := 0, name := [] }
  ps := 0
  restartGap := 0
  ow := false

structure Message where
  socket : Int
  command : Nat
  pid : Int
  slot : Nat
  fd : Int
deriving DecidableEq

/-- What a `fork` copies: the table, and the channels that are open.  `strays` are the
descriptors that were closed when they were not open, `unowned` counts the pairs that were
lost where `F_SETOWN` failed. -/
structure Image where
  processes : Nat -> ProcessT
  processLast : Nat
  processSlot : Nat
  opened : List Int
  strays : List Int
  unowned : Nat

/-- A `fork` that succeeded, with the copy that the worker has; `auto` where the slot was
`PROCESS_SLOT_AUTO`. -/
structure Fork where
  slot : Nat
  pid : Int
  second : Int
  auto : Bool
  image : Image

/-- The master process, and what the kernel holds of it: its children that run, and those
that ended in the order in which `waitpid` gives them.  `forgotten` are the children that
lost their slot to `process_signal_workers` and that nobody waited for yet. -/
structure Master extends Image where
  processDoing : BitVec 32
  processOldAlived : Bool
  live : Bool
  returned : Bool
  tvSec : Int
  running : List Int
  ended : List (Int × Int)
  forgotten : List Int
  sent : List Message
  forks : List Fork

/-- The answers of the kernel to the calls of one `process_spawn`: descriptors that
are not open and the pid of no child. -/
structure Kernel where
  socketpair : List Int -> Option (Int × Int)
  nonblocking : Bool × Bool
  fioasync : Bool
  setown : Bool
  cloexec : Bool × Bool
  fork : List Int -> Option Int
  fresh : forall fds a b, socketpair fds = some (a, b) ->
    a ∉ fds ∧ b ∉ fds ∧ a ≠ b ∧ a ≠ ngxInvalidFile ∧ b ≠ ngxInvalidFile
  freshPid : forall pids pid, fork pids = some pid -> pid ∉ pids ∧ pid ≠ ngxInvalidPid

def above (l : List Int) : Int :=
  l.foldr max 0 + 1

theorem lt_above {l : List Int} {x : Int} (h : x ∈ l) : x < above l := by
  induction l with
  | nil => cases h
  | cons y l ih =>
      unfold above at ih ⊢
      rw [List.foldr_cons]
      rcases List.mem_cons.mp h with rfl | hin
      · omega
      · have hlt := ih hin
        omega

theorem above_pos (l : List Int) : 0 < above l := by
  unfold above
  induction l with
  | nil => decide
  | cons y l ih =>
      rw [List.foldr_cons]
      omega

def Kernel.plain : Kernel where
  socketpair := fun fds => some (above fds, above fds + 1)
  nonblocking := (true, true)
  fioasync := true
  setown := true
  cloexec := (true, true)
  fork := fun pids => some (above pids)
  fresh := by
    intro fds a b heq
    cases heq
    have hpos := above_pos fds
    refine ⟨fun h => Int.lt_irrefl _ (lt_above h), fun h => ?_, ?_, ?_, ?_⟩
    · have hlt := lt_above h
      omega
    · omega
    · unfold ngxInvalidFile
      omega
    · unfold ngxInvalidFile
      omega
  freshPid := by
    intro pids pid heq
    cases heq
    have hpos := above_pos pids
    refine ⟨fun h => Int.lt_irrefl _ (lt_above h), ?_⟩
    unfold ngxInvalidPid
    omega

def Image.closeFd (i : Image) (fd : Int) : Image :=
  if i.opened.contains fd then { i with opened := i.opened.erase fd }
  else { i with strays := fd :: i.strays }

namespace Master

def setProcess (m : Master) (s : Nat) (p : ProcessT) : Master :=
  { m with processes := Function.update m.processes s p }

def children (m : Master) : List Int :=
  m.running ++ m.ended.map Prod.fst

def closeFd (m : Master) (fd : Int) : Master :=
  { m with toImage := m.toImage.closeFd fd }

def channelClose (m : Master) (s : Nat) : Master :=
  (m.closeFd (m.processes s).channel.1).closeFd (m.processes s).channel.2

end Master

/-!
## Starting a process
-/

/-- The loops over the table that stop at the first slot with `pid`: from slot `i` on,
with `n` slots to go. -/
def slotWith (processes : Nat -> ProcessT) (pid : Int) (i : Nat) : Nat -> Nat
  | 0 => i
  | n + 1 =>
      if (processes i).pid = pid then i
      else slotWith processes pid (i + 1) n

def freeSlot (m : Master) : Nat :=
  slotWith m.processes ngxInvalidPid 0 m.processLast

/-- The part of `process_spawn` before `fork`: the channel of slot `s`, and whether
it is ready. -/
def openChannel (m : Master) (k : Kernel) (s : Nat) : Master × Bool :=
  match k.socketpair m.opened with
  | none => (m, false)
  | some (a, b) =>
      let m := { m.setProcess s { m.processes s with channel := (a, b) } with
        opened := a :: b :: m.opened }
      if !k.nonblocking.1 then (m.channelClose s, false)
      else if !k.nonblocking.2 then (m.channelClose s, false)
      else if !k.fioasync then (m.channelClose s, false)
      else if !k.setown then ({ m with unowned := m.unowned + 1 }, false)
      else if !k.cloexec.1 then (m.channelClose s, false)
      else if !k.cloexec.2 then (m.channelClose s, false)
      else ({ m with processSlot := s }, true)

def spawned (m : Master) (job : Job) (s : Nat) (auto : Bool) (pid : Int) : Master :=
  { m.setProcess s { m.processes s with
      pid := pid
      job := job
      ps := statusRunning
      ow := false
      restartGap := (m.tvSec % 2 ^ 32).toNat } with
    processLast := if s = m.processLast then m.processLast + 1 else m.processLast
    running := pid :: m.running
    forks := { slot := s, pid := pid, second := m.tvSec, auto := auto, image := m.toImage } ::
      m.forks }

def spawnAt (m : Master) (k : Kernel) (job : Job) (s : Nat) (auto : Bool) :
    Option (Master × Int) :=
  if s < processesMax then
    match openChannel m k s with
    | (m, false) => some (m, ngxInvalidPid)
    | (m, true) =>
        match k.fork m.children with
        | none => some (m.channelClose s, ngxInvalidPid)
        | some pid => some (spawned m job s auto pid, pid)
  else none

def processSpawn (m : Master) (k : Kernel) (job : Job) :
    Option Nat -> Option (Master × Int)
  | none =>
      if freeSlot m = processesMax then some (m, ngxInvalidPid)
      else spawnAt m k job (freeSlot m) true
  | some s => spawnAt m k job s false

def notTold (m : Master) (s : Nat) : Bool :=
  s == m.processSlot || (m.processes s).ps &&& statusExited != 0 ||
    (m.processes s).ps &&& statusExiting != 0 ||
    (m.processes s).pid == ngxInvalidPid ||
    (m.processes s).channel.1 == ngxInvalidFile || (m.processes s).ow

def processBroadcast (m : Master) (slot command : Nat) : Master :=
  { m with sent := m.sent ++
      ((List.range m.processLast).filter fun s => !notTold m s).map fun s =>
        { socket := (m.processes s).channel.1
          command := command
          pid := (m.processes slot).pid
          slot := slot
          fd := (m.processes slot).channel.1 } }

def processStartWorkers (m : Master) (k : Kernel) (job : Job) : Option (Master × Int) :=
  (processSpawn m k job none).map fun r =>
    if r.2 = ngxInvalidPid then (r.1, ngxError)
    else (processBroadcast r.1 r.1.processSlot channelCmdOpen, ngxOk)

/-!
## Children that ended
-/

def slotOf (m : Master) (pid : Int) : Nat :=
  slotWith m.processes pid 0 m.processLast

def setExited (m : Master) (s : Nat) (status : Int) : Option Master :=
  if s < processesMax then
    some (m.setProcess s { m.processes s with status := status, ps := statusExited })
  else none

def getStatusLoop (m : Master) : List (Int × Int) -> Option Master
  | [] => some { m with ended := [] }
  | (pid, status) :: rest =>
      (setExited m (slotOf m pid) status).bind fun m =>
        getStatusLoop { m with forgotten := m.forgotten.erase pid } rest

def processGetStatus (m : Master) : Option Master :=
  getStatusLoop m m.ended

def detach (m : Master) (s : Nat) (p : ProcessT) : Master :=
  ((m.setProcess s { p with pid := ngxInvalidPid }).channelClose s).setProcess s
    { p with pid := ngxInvalidPid, channel := (ngxInvalidFile, ngxInvalidFile) }

def reapTurn (m : Master) (live : Bool) (k : Kernel) (s : Nat) : Option (Master × Bool) :=
  let p := m.processes s
  if p.pid = ngxInvalidPid then some (m, live)
  else if p.ps &&& statusExited = 0 then
    some ({ m with processOldAlived := m.processOldAlived || p.ow }, true)
  else if p.ow then some (detach m s { p with ow := false }, live)
  else
    let m := detach m s { p with ps := statusExited }
    if m.tvSec - p.restartGap ≤ maxRestartNum then some (m, live)
    else
      (processSpawn m k p.job (some s)).map fun r =>
        (r.1, if r.2 = ngxInvalidPid then live else true)

def reapLoop (m : Master) (ks : Nat -> Kernel) : Nat -> Option (Master × Bool)
  | 0 => some (m, false)
  | n + 1 => (reapLoop m ks n).bind fun r => reapTurn r.1 r.2 (ks n) n

def processReapWorkers (m : Master) (ks : Nat -> Kernel) : Option (Master × Bool) :=
  reapLoop m ks m.processLast

/-!
## Old processes
-/

def processSetOldWorkers (m : Master) : Master :=
  { m with processes := fun s =>
      let p := m.processes s
      if s < m.processLast ∧ p.pid ≠ ngxInvalidPid ∧ p.ps &&& statusRunning ≠ 0 then
        { p with ow := true }
      else p }

def signalCommand (_signo : Int) : Nat :=
  channelCmdNone

/-- One turn of the loop of `process_signal_workers`; `wrote` tells whether
`channel_write` succeeds. -/
def signalTurn (m : Master) (signo : Int) (wrote : Bool) (s : Nat) : Master :=
  let p := m.processes s
  if p.pid = ngxInvalidPid ∨ p.ow = false then m
  else if signalCommand signo ≠ channelCmdNone ∧ wrote then
    m.setProcess s { p with ps := p.ps ||| statusExiting, ow := false }
  else { detach m s { p with ps := 0, ow := false } with forgotten := p.pid :: m.forgotten }

def signalLoop (m : Master) (signo : Int) (wrote : Nat -> Bool) : Nat -> Master
  | 0 => m
  | n + 1 => signalTurn (signalLoop m signo wrote n) signo (wrote n) n

def processSignalWorkers (m : Master) (signo : Int) (wrote : Nat -> Bool) : Master :=
  signalLoop m signo wrote m.processLast

/-- `process_notify_workers_backup`, which leaves `pid` and `slot` of its message
unset. -/
def processNotifyWorkersBackup (m : Master) : Master :=
  { m with sent := m.sent ++
      ((List.range m.processLast).filter fun s =>
          (m.processes s).pid != ngxInvalidPid).map fun s =>
        { socket := (m.processes s).channel.1
          command := channelCmdBackup
          pid := 0
          slot := 0
          fd := ngxInvalidFile } }

/-!
## The master process
-/

def masterTurn (m : Master) (ks : Nat -> Kernel) : Option Master :=
  if m.processDoing = 0 then some m
  else if m.processDoing &&& doingReap ≠ 0 then
    (processGetStatus { m with processDoing := m.processDoing &&& ~~~doingReap }).bind
      fun m => (processReapWorkers m ks).map fun r =>
        { r.1 with live := r.2, processOldAlived := false }
  else if m.live = false ∧
      (m.processDoing &&& doingQuit ≠ 0 ∨ m.processDoing &&& doingTerminate ≠ 0) then
    some { m with returned := true }
  else if m.processDoing &&& doingBackup ≠ 0 ∧ m.live then
    some { processNotifyWorkersBackup m with
      processDoing := m.processDoing &&& ~~~doingBackup }
  else some m

inductive Action where
  | startWorkers (k : Kernel) (job : Job)
  | timeUpdate (second : Int)
  | childEnds (pid status : Int) (place : Nat)
  | setDoing (flag : BitVec 32)
  | turn (ks : Nat -> Kernel)
  | setOldWorkers
  | signalWorkers (signo : Int) (wrote : Nat -> Bool)

def childEnds (m : Master) (pid status : Int) (place : Nat) : Master :=
  if m.running.contains pid then
    { m with
      running := m.running.erase pid
      ended := m.ended.take place ++ (pid, status) :: m.ended.drop place }
  else m

def step (m : Master) : Action -> Option Master
  | Action.startWorkers k job => (processStartWorkers m k job).map Prod.fst
  | Action.timeUpdate second => some { m with tvSec := second }
  | Action.childEnds pid status place => some (childEnds m pid status place)
  | Action.setDoing flag => some { m with processDoing := m.processDoing ||| flag }
  | Action.turn ks => masterTurn m ks
  | Action.setOldWorkers => some (processSetOldWorkers m)
  | Action.signalWorkers signo wrote => some (processSignalWorkers m signo wrote)

/-- The master process before its first worker. -/
def masterInit (second : Int) : Master where
  processes := fun _ => emptyProcess
  processLast := 0
  processSlot := 0
  processDoing := 0
  processOldAlived := false
  live := true
  returned := false
  tvSec := second
  opened := []
  strays := []
  unowned := 0
  running := []
  ended := []
  forgotten := []
  sent := []
  forks := []

end Processes
end NgxEpoll
