import NgxEpoll.ConnPool.Pool
import NgxEpoll.Epoll.Interest

/-!
# One turn of the event loop

`epoll_process_events`, `event_process_posted` and `thread_event_process`, over
the connection slots of one thread, its pool and the interest list of the
kernel.  The handlers are a parameter: what they do is any list of the calls
below.

## The thread and the kernel
-/

namespace NgxEpoll
namespace Events

open Foundation
open NgxEpoll.Core
open ConnPool
open Epoll (Kind CtlOp epollin epollout)

/-- What the kernel stores for a descriptor: the connection and the low bit of
`data.ptr`.  `gen` tells how often the slot had been set up by then. -/
structure Entry where
  conn : Conn
  inst : Bool
  gen : Nat
deriving DecidableEq

structure EpollEvent where
  fd : Int
  conn : Conn
  inst : Bool
  gen : Nat
  events : BitVec 32
deriving DecidableEq

/-- An event in a posted queue; `gen` and `fd` are those of its connection when
it was posted. -/
structure Posted where
  conn : Conn
  kind : Kind
  gen : Nat
  fd : Int

/-- One call of a handler.  `eventGen` and `eventFd` belong to the event, `gen`
and `fd` to the connection at the time of the call. -/
structure Invocation where
  conn : Conn
  kind : Kind
  eventGen : Nat
  eventFd : Int
  gen : Nat
  fd : Int

/-- A thread with the kernel's side.  The fields from `gen` on are not read by
the code: how often each slot has been set up, in all and since the batch was
collected, the pool's connections in use, the events of the batch still to come,
the connection whose write event is still to come, the calls of handlers, and
whether the links of a posted event were overwritten. -/
structure World where
  mem : Slots
  pool : ConnPoolT
  comm : ConnPoolT
  entry : Int -> Option Entry
  isOpen : Int -> Bool
  postedAccept : List Posted
  posted : List Posted
  gen : Conn -> Nat
  reinits : Conn -> Nat
  held : List Conn
  pending : List EpollEvent
  half : Option Conn
  log : List Invocation
  torn : Bool

def eventOf (cn : ConnT) : Kind -> Event
  | Kind.read => cn.read
  | Kind.write => cn.write

def setEvent (cn : ConnT) (k : Kind) (ev : Event) : ConnT :=
  match k with
  | Kind.read => { cn with read := ev }
  | Kind.write => { cn with write := ev }

def setActive (w : World) (k : Kind) (c : Conn) (b : Bool) : World :=
  { w with
    mem := Function.update w.mem c
      (setEvent (w.mem c) k { eventOf (w.mem c) k with active := b }) }

def setReady (w : World) (k : Kind) (c : Conn) (b : Bool) : World :=
  { w with
    mem := Function.update w.mem c
      (setEvent (w.mem c) k { eventOf (w.mem c) k with ready := b }) }

def epollCtl (w : World) (op : CtlOp) (fd : Int) (data : Entry) (ok : Bool) :
    Bool × World :=
  if ok = true ∧ w.isOpen fd = true ∧
      ((w.entry fd).isSome = true ↔ op ≠ CtlOp.add) then
    (true, { w with
      entry := Function.update w.entry fd
        (if op = CtlOp.del then none else some data) })
  else (false, w)

def dataPtr (w : World) (k : Kind) (c : Conn) : Entry where
  conn := c
  inst := (eventOf (w.mem c) k).inst
  gen := w.gen c

def epollAddEvent (w : World) (k : Kind) (c : Conn) (ok : Bool) : World :=
  let op :=
    if (eventOf (w.mem c) k.other).active then CtlOp.mod else CtlOp.add
  let r := epollCtl (setActive w k c true) op (w.mem c).fd (dataPtr w k c) ok
  setActive r.2 k c r.1

def epollDelEvent (w : World) (k : Kind) (c : Conn) (ok : Bool) : World :=
  let op :=
    if (eventOf (w.mem c) k.other).active then CtlOp.mod else CtlOp.del
  let r := epollCtl w op (w.mem c).fd (dataPtr w k c) ok
  if r.1 then setActive r.2 k c false else r.2

/-!
## What a handler may do
-/

inductive Action where
  /-- `accept` returns `s`; `conn_pool_get_connection`, `conn_set_default`. -/
  | accept (s : Int)
  /-- `conn_get_from_mem` and the fields of `rev` set after it. -/
  | fromMem (c : Conn) (s : Int) (accepted : Bool)
  /-- The pointers that `nn_conn_init` sets. -/
  | initConn (c : Conn)
  /-- `event_handle_read` and `event_handle_write` with `c->ev_base`. -/
  | handleEvent (k : Kind) (c : Conn) (ok : Bool)
  /-- `epoll_add_event` with the thread's `event_base`, for the read event. -/
  | addRead (c : Conn) (ok : Bool)
  /-- `event_del_read` and `event_del_write`. -/
  | delEvent (k : Kind) (c : Conn) (ok : Bool)
  /-- What `recv`, `send` and the handlers do to `ready`. -/
  | ready (k : Kind) (c : Conn) (b : Bool)
  /-- `conn_close`. -/
  | close (c : Conn)
  /-- `conn_close` or `conn_release`, then `conn_pool_free_connection`. -/
  | release (c : Conn)

def setDefault (w : World) (c : Conn) (s : Int) : World :=
  { w with
    mem := connSetDefault w.mem c s
    gen := Function.update w.gen c (w.gen c + 1)
    reinits := Function.update w.reinits c (w.reinits c + 1)
    torn := w.torn || (w.postedAccept ++ w.posted).any (·.conn == c) }

/-- `accept`, `conn_pool_get_connection` and `conn_set_default` as in
`listen_rev_handler`; without a free connection the descriptor is closed. -/
def accept (w : World) (s : Int) : World :=
  let r := connPoolGetConnection w.mem w.pool w.comm
  let w' := { w with mem := r.2.1, pool := r.2.2.1, comm := r.2.2.2 }
  match r.1 with
  | none => w'
  | some c =>
      setDefault
        { w' with
          isOpen := Function.update w.isOpen s true
          held := c :: w.held }
        c s

def callocSlot : ConnT where
  fd := 0
  next := none
  read := zeroEvent
  write := zeroEvent
  evBase := false
  evTimer := false

def fromMem (w : World) (c : Conn) (s : Int) (accepted : Bool) : World :=
  let w' := setDefault
    { w with
      mem := Function.update w.mem c callocSlot
      isOpen := Function.update w.isOpen s true }
    c s
  { w' with
    mem := Function.update w'.mem c
      { w'.mem c with
        read := { (w'.mem c).read with accepted := accepted, handler := true } } }

def initConn (w : World) (c : Conn) : World :=
  { w with
    mem := Function.update w.mem c
      { w.mem c with
        evBase := true
        evTimer := true
        read := { (w.mem c).read with handler := true }
        write := { (w.mem c).write with handler := true } } }

def close (w : World) (c : Conn) : World :=
  if 0 < (w.mem c).fd then
    { w with
      mem := connClose w.mem c
      entry := Function.update w.entry (w.mem c).fd none
      isOpen := Function.update w.isOpen (w.mem c).fd false }
  else w

def release (w : World) (c : Conn) : World :=
  let w' := close w c
  let r := connPoolFreeConnection w'.mem w'.pool w'.comm c
  { w' with mem := r.1, pool := r.2.1, comm := r.2.2, held := w'.held.erase c }

/-- The kernel hands out descriptors that are not open, `memory_calloc` memory
that is not in use and not part of the pool, a null `ev_base` stops the process,
and only a connection in use is handed back. -/
def possible (w : World) : Action -> Bool
  | Action.accept s => decide (0 ≤ s) && !w.isOpen s
  | Action.fromMem c s _ =>
      decide (0 ≤ s) && !w.isOpen s && decide (c.1 ≠ 0) && decide (w.gen c = 0)
  | Action.handleEvent _ c _ => (w.mem c).evBase
  | Action.delEvent _ c _ => (w.mem c).evBase
  | Action.release c => decide (c ∈ w.held)
  | _ => true

def perform (w : World) : Action -> World
  | Action.accept s => accept w s
  | Action.fromMem c s accepted => fromMem w c s accepted
  | Action.initConn c => initConn w c
  | Action.handleEvent k c ok =>
      if !(eventOf (w.mem c) k).active && !(eventOf (w.mem c) k).ready then
        epollAddEvent w k c ok
      else w
  | Action.addRead c ok => epollAddEvent w Kind.read c ok
  | Action.delEvent k c ok => epollDelEvent (setReady w k c false) k c ok
  | Action.ready k c b => setReady w k c b
  | Action.close c => close w c
  | Action.release c => release w c

def act (w : World) (a : Action) : World :=
  if possible w a then perform w a else w

def acts (w : World) (as : List Action) : World :=
  as.foldl act w

abbrev Handlers := World -> Kind -> Conn -> List Action

/-!
## The event loop
-/

/-- `ev->handler(ev)` for an event that was reported or posted with `eventGen`
and `eventFd`.  `half` is the connection whose write event comes after it. -/
def runHandler (H : Handlers) (w : World) (k : Kind) (c : Conn) (eventGen : Nat)
    (eventFd : Int) (half : Option Conn) : World :=
  let w' := { w with
    log := w.log ++ [⟨c, k, eventGen, eventFd, w.gen c, (w.mem c).fd⟩]
    half := half }
  { acts w' (H w' k c) with half := none }

def postEvent (w : World) (k : Kind) (e : EpollEvent) (accepted : Bool) : World :=
  let p : Posted := ⟨e.conn, k, w.gen e.conn, (w.mem e.conn).fd⟩
  if accepted then { w with postedAccept := w.postedAccept ++ [p] }
  else { w with posted := w.posted ++ [p] }

def epollerr : BitVec 32 := 0x8

def epollhup : BitVec 32 := 0x10

/-- The events to handle: an error alone counts as readable and writable. -/
def effectiveEvents (events : BitVec 32) : BitVec 32 :=
  if events &&& (epollerr ||| epollhup) ≠ 0 ∧
      events &&& (epollin ||| epollout) = 0 then
    events ||| (epollin ||| epollout)
  else events

def isStale (w : World) (e : EpollEvent) : Bool :=
  decide ((w.mem e.conn).fd = ngxInvalidFile) ||
    (w.mem e.conn).read.inst != e.inst

def writePart (H : Handlers) (post : Bool) (w : World) (e : EpollEvent)
    (events : BitVec 32) : World :=
  if events &&& epollout ≠ 0 ∧ (w.mem e.conn).write.active = true then
    let w' := setReady w Kind.write e.conn true
    if !(w.mem e.conn).write.handler then w'
    else if post then
      postEvent
        { w' with
          mem := Function.update w'.mem e.conn
            { w'.mem e.conn with
              read := { (w'.mem e.conn).read with lastInst := e.inst } } }
        Kind.write e false
    else runHandler H w' Kind.write e.conn e.gen e.fd none
  else w

def processEvent (H : Handlers) (post : Bool) (w : World) (e : EpollEvent) :
    World :=
  if isStale w e then w
  else
    let events := effectiveEvents e.events
    if events &&& epollin ≠ 0 ∧ (w.mem e.conn).read.active = true then
      let w' := setReady w Kind.read e.conn true
      if !(w.mem e.conn).read.handler then w'
      else if post then
        writePart H post
          (postEvent
            { w' with
              mem := Function.update w'.mem e.conn
                { w'.mem e.conn with
                  read := { (w'.mem e.conn).read with lastInst := e.inst } } }
            Kind.read e (w.mem e.conn).read.accepted)
          e events
      else
        writePart H post
          (runHandler H w' Kind.read e.conn e.gen e.fd
            (if events &&& epollout ≠ 0 then some e.conn else none))
          e events
    else writePart H post w e events

def processEvents (H : Handlers) (post : Bool) : World -> List EpollEvent -> World
  | w, [] => w
  | w, e :: rest =>
      processEvents H post (processEvent H post { w with pending := rest } e) rest

inductive WaitResult where
  | failed (eintr : Bool)
  | events (es : List EpollEvent)

/-- `epoll_process_events`; `infinite` tells whether the timer is
`EVENT_TIMER_INFINITE`, and `post` is `EVENT_POST_EVENTS`. -/
def epollProcessEvents (H : Handlers) (infinite post : Bool) (w : World) :
    WaitResult -> Int × World
  | WaitResult.failed eintr => (if eintr then ngxOk else ngxError, w)
  | WaitResult.events [] => (if infinite then ngxError else ngxOk, w)
  | WaitResult.events (e :: es) =>
      (ngxOk, processEvents H post
        { w with reinits := fun _ => 0, pending := e :: es } (e :: es))

/-- The loop of `event_process_posted`, over the events that are posted; a
handler posts none. -/
def processPosted (H : Handlers) (accept : Bool) : World -> List Posted -> World
  | w, [] => w
  | w, p :: rest =>
      let w' := if accept then { w with postedAccept := rest }
        else { w with posted := rest }
      processPosted H accept
        (if (w'.mem p.conn).fd ≠ ngxInvalidFile then
          runHandler H w' p.kind p.conn p.gen p.fd none
        else w')
        rest

def eventProcessPosted (H : Handlers) (accept : Bool) (w : World) : World :=
  processPosted H accept w (if accept then w.postedAccept else w.posted)

/-- `thread_event_process` up to the timers; `cli` tells whether the thread is of
type `THREAD_CLI_TEST`. -/
def threadEventProcess (H : Handlers) (cli : Bool) (w : World)
    (r : WaitResult) : World :=
  let w1 := (epollProcessEvents H false cli w r).2
  let w2 :=
    if cli && !w1.postedAccept.isEmpty then eventProcessPosted H true w1 else w1
  if cli && !w2.posted.isEmpty then eventProcessPosted H false w2 else w2

end Events
end NgxEpoll
