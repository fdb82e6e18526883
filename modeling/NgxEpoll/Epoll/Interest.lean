import NgxEpoll.Request.Conn
import NgxEpoll.Foundation.Runs

/-!
# The interest set of the kernel

`dfs_epoll.cpp` chooses between `EPOLL_CTL_ADD`, `EPOLL_CTL_MOD` and
`EPOLL_CTL_DEL` by the `active` flags of the two events of a connection.  Here
the kernel's side is part of the state, with the log of the `epoll_ctl` calls,
and every call may fail.
-/

namespace NgxEpoll
namespace Epoll

open Foundation
open NgxEpoll.Core

inductive CtlOp where
  | add
  | mod
  | del
deriving DecidableEq

def epollin : BitVec 32 := 0x1

def epollout : BitVec 32 := 0x4

def epollet : BitVec 32 := 0x80000000

def eventClearEvent : BitVec 32 := 0

def eventCloseEvent : BitVec 32 := 1

/-- A connection with the kernel's entry for its descriptor.  `issued` lists the
`epoll_ctl` calls made for it, each with whether the descriptor was registered
at that moment; `evBase` tells whether `c->ev_base` is set. -/
structure Registration where
  c : Request.ConnT
  evBase : Bool
  entry : Option (BitVec 32)
  issued : List (CtlOp × Bool)

/-- `epoll_ctl`.  `ok` tells whether the kernel has the means; it refuses a bad
descriptor, a second `ADD`, and a `MOD` or `DEL` of what is not registered. -/
def epollCtl (s : Registration) (op : CtlOp) (events : BitVec 32) (ok : Bool) :
    Bool × Registration :=
  let s' := { s with issued := s.issued ++ [(op, s.entry.isSome)] }
  if ok = true ∧ 0 ≤ s.c.fd ∧ (s.entry.isSome = true ↔ op ≠ CtlOp.add) then
    (true, { s' with entry := if op = CtlOp.del then none else some events })
  else (false, s')

inductive Kind where
  | read
  | write
deriving DecidableEq

def Kind.mask : Kind -> BitVec 32
  | Kind.read => epollin
  | Kind.write => epollout

def Kind.other : Kind -> Kind
  | Kind.read => Kind.write
  | Kind.write => Kind.read

def eventOf (c : Request.ConnT) : Kind -> Request.Event
  | Kind.read => c.read
  | Kind.write => c.write

def setEvent (c : Request.ConnT) (event : Kind) (ev : Request.Event) :
    Request.ConnT :=
  match event with
  | Kind.read => { c with read := ev }
  | Kind.write => { c with write := ev }

def setActive (s : Registration) (event : Kind) (b : Bool) : Registration :=
  { s with c := setEvent s.c event { eventOf s.c event with active := b } }

def epollAddEvent (s : Registration) (event : Kind) (flags : BitVec 32)
    (ok : Bool) : Int × Registration :=
  let aevent := eventOf s.c event.other
  let op := if aevent.active then CtlOp.mod else CtlOp.add
  let events :=
    if aevent.active then event.mask ||| event.other.mask else event.mask
  let r := epollCtl (setActive s event true) op (events ||| flags) ok
  if r.1 then (ngxOk, setActive r.2 event true)
  else (ngxError, setActive r.2 event false)

def epollDelEvent (s : Registration) (event : Kind) (flags : BitVec 32)
    (ok : Bool) : Int × Registration :=
  if flags &&& eventCloseEvent ≠ 0 then (ngxOk, setActive s event false)
  else
    let e := eventOf s.c event.other
    let op := if e.active then CtlOp.mod else CtlOp.del
    let events :=
      if e.active then event.other.mask ||| flags else event.mask
    let r := epollCtl s op events ok
    if r.1 then (ngxOk, setActive r.2 event false) else (ngxError, r.2)

def epollAddConnection (s : Registration) (ok : Bool) : Int × Registration :=
  let r := epollCtl s CtlOp.add (epollin ||| epollout ||| epollet) ok
  if r.1 then
    (ngxOk, setActive (setActive r.2 Kind.read true) Kind.write true)
  else (ngxError, r.2)

def epollDelConnection (s : Registration) (flags : BitVec 32) (ok : Bool) :
    Int × Registration :=
  if flags &&& eventCloseEvent ≠ 0 then
    (ngxOk, setActive (setActive s Kind.read false) Kind.write false)
  else
    let r := epollCtl s CtlOp.del 0 ok
    if r.1 then
      (ngxOk, setActive (setActive r.2 Kind.read false) Kind.write false)
    else (ngxError, r.2)

def eventHandle (s : Registration) (event : Kind) (ok : Bool) :
    Int × Registration :=
  let ev := eventOf s.c event
  if !ev.active && !ev.ready then epollAddEvent s event eventClearEvent ok
  else (ngxOk, s)

def eventHandleRead (s : Registration) (ok : Bool) : Int × Registration :=
  eventHandle s Kind.read ok

def eventHandleWrite (s : Registration) (ok : Bool) : Int × Registration :=
  eventHandle s Kind.write ok

def clearReady (s : Registration) (event : Kind) : Registration :=
  { s with c := setEvent s.c event { eventOf s.c event with ready := false } }

def eventDel (s : Registration) (event : Kind) (ok : Bool) :
    Int × Registration :=
  epollDelEvent (clearReady s event) event eventClearEvent ok

def eventDelRead (s : Registration) (ok : Bool) : Int × Registration :=
  eventDel s Kind.read ok

def eventDelWrite (s : Registration) (ok : Bool) : Int × Registration :=
  eventDel s Kind.write ok

def closeFd (s : Registration) : Registration :=
  { s with c := { s.c with fd := ngxInvalidFile }, entry := none }

def removeTimers (s : Registration) : Registration :=
  { s with c := { s.c with
      read := Request.eventTimerDel s.c.read
      write := Request.eventTimerDel s.c.write } }

def connClose (s : Registration) : Registration :=
  if 0 < s.c.fd then
    let s := removeTimers (closeFd s)
    if s.evBase then (epollDelConnection s eventCloseEvent true).2 else s
  else s

/-!
## Sequences of calls
-/

inductive Label where
  | poll (rd wr : Bool)
  | handleRead (ok : Bool)
  | delRead (ok : Bool)
  | handleWrite (ok : Bool)
  | delWrite (ok : Bool)
  | addConnection (ok : Bool)
  | delConnection (flags : BitVec 32) (ok : Bool)
  | close

def pollReady (s : Registration) (rd wr : Bool) : Registration :=
  { s with c := { s.c with
      read := { s.c.read with ready := s.c.read.ready || (rd && s.c.read.active) }
      write := { s.c.write with
        ready := s.c.write.ready || (wr && s.c.write.active) } } }

def call (s : Registration) : Label -> Registration
  | Label.poll rd wr => pollReady s rd wr
  | Label.handleRead ok => (eventHandleRead s ok).2
  | Label.delRead ok => (eventDelRead s ok).2
  | Label.handleWrite ok => (eventHandleWrite s ok).2
  | Label.delWrite ok => (eventDelWrite s ok).2
  | Label.addConnection ok => (epollAddConnection s ok).2
  | Label.delConnection flags ok => (epollDelConnection s flags ok).2
  | Label.close => connClose s

def step (s : Registration) (a : Label) : Option Registration :=
  some (call s a)

/-- `epoll_add_connection` is called on a connection that is not registered. -/
def AddsOnce (s : Registration) : Label -> Prop
  | Label.addConnection _ =>
      s.c.read.active = false ∧ s.c.write.active = false
  | _ => True

/-- In addition, `EVENT_CLOSE_EVENT` is passed to `epoll_del_connection` only
when the descriptor has been closed. -/
def ClosesFirst (s : Registration) : Label -> Prop
  | Label.delConnection flags _ =>
      flags &&& eventCloseEvent ≠ 0 -> s.c.fd = ngxInvalidFile
  | a => AddsOnce s a

def interested (entry : Option (BitVec 32)) (event : Kind) : Bool :=
  match entry with
  | none => false
  | some events => events &&& event.mask != 0

/-- The kernel's entry and the `active` flags are in step. -/
structure InStep (s : Registration) : Prop where
  read : interested s.entry Kind.read = true ↔ s.c.read.active = true
  write : interested s.entry Kind.write = true ↔ s.c.write.active = true
  registered : s.entry.isSome = true ↔
    s.c.read.active = true ∨ s.c.write.active = true
  add : forall registered, (CtlOp.add, registered) ∈ s.issued ->
    registered = false
  mod : forall registered, (CtlOp.mod, registered) ∈ s.issued ->
    registered = true

structure Fresh (s : Registration) : Prop where
  evBase : s.evBase = true
  read : s.c.read.active = false
  write : s.c.write.active = false
  entry : s.entry = none
  issued : s.issued = []

/-!
## The calls keep flags and entry in step
-/

def active (c : Request.ConnT) (event : Kind) : Bool :=
  (eventOf c event).active

section Fields

variable (c : Request.ConnT) (s : Registration) (event : Kind)
  (ev : Request.Event) (b : Bool)

@[simp] theorem other_other : event.other.other = event := by
  cases event <;> rfl

@[simp] theorem setEvent_fd : (setEvent c event ev).fd = c.fd := by
  cases event <;> rfl

@[simp] theorem active_setEvent :
    active (setEvent c event ev) event = ev.active := by
  cases event <;> rfl

@[simp] theorem active_setEvent_other :
    active (setEvent c event ev) event.other = active c event.other := by
  cases event <;> rfl

end Fields

/-- No call is issued that the kernel refuses for the registration. -/
def Issues (op : CtlOp) (registered : Bool) : Prop :=
  (op = CtlOp.add -> registered = false) ∧ (op = CtlOp.mod -> registered = true)

/-- The entry as the flags of an event and of the other one have it. -/
structure Agrees (entry : Option (BitVec 32)) (event : Kind) (on off : Bool) :
    Prop where
  this : interested entry event = on
  other : interested entry event.other = off
  some : entry.isSome = (on || off)

theorem Agrees.symm {entry : Option (BitVec 32)} {event : Kind} {on off : Bool}
    (h : Agrees entry event on off) : Agrees entry event.other off on where
  this := h.other
  other := by rw [other_other]; exact h.this
  some := by rw [Bool.or_comm]; exact h.some

/-- What every call keeps.  The descriptor is registered only while it is
open. -/
structure Kept (s : Registration) : Prop where
  evBase : s.evBase = true
  agrees : forall event,
    Agrees s.entry event (active s.c event) (active s.c event.other)
  issues : forall op registered, (op, registered) ∈ s.issued ->
    Issues op registered
  closed : s.c.fd = ngxInvalidFile -> s.entry = none

theorem agrees_forall {entry : Option (BitVec 32)} {c : Request.ConnT}
    (event : Kind) (h : Agrees entry event (active c event) (active c event.other)) :
    forall event, Agrees entry event (active c event) (active c event.other) := by
  have hother := h.symm
  intro event'
  cases event <;> cases event'
  · exact h
  · exact hother
  · exact hother
  · exact h

theorem Kept.inStep {s : Registration} (h : Kept s) : InStep s where
  read := by
    rw [(h.agrees Kind.read).this]
    exact Iff.rfl
  write := by
    rw [(h.agrees Kind.write).this]
    exact Iff.rfl
  registered := by
    rw [(h.agrees Kind.read).some, Bool.or_eq_true]
    exact Iff.rfl
  add := fun registered hmem => (h.issues _ registered hmem).1 rfl
  mod := fun registered hmem => (h.issues _ registered hmem).2 rfl

theorem Fresh.kept {s : Registration} (h : Fresh s) : Kept s where
  evBase := h.evBase
  agrees := by
    apply agrees_forall Kind.read
    have hread : active s.c Kind.read = false := h.read
    have hwrite : active s.c Kind.read.other = false := h.write
    rw [h.entry, hread, hwrite]
    exact ⟨rfl, rfl, rfl⟩
  issues := by
    intro op registered hmem
    rw [h.issued] at hmem
    cases hmem
  closed := fun _ => h.entry

theorem epollCtl_cases (s : Registration) (op : CtlOp) (events : BitVec 32)
    (ok : Bool) :
    let s' := { s with issued := s.issued ++ [(op, s.entry.isSome)] }
    epollCtl s op events ok = (false, s') ∨
      (0 ≤ s.c.fd ∧ epollCtl s op events ok =
        (true,
          { s' with entry := if op = CtlOp.del then none else some events })) := by
  unfold epollCtl
  simp only
  split
  · next hok => exact Or.inr ⟨hok.2.1, rfl⟩
  · exact Or.inl rfl

theorem Kept.issue {s : Registration} (h : Kept s) {op : CtlOp}
    (hissues : Issues op s.entry.isSome) {c : Request.ConnT}
    {entry : Option (BitVec 32)} (hfd : c.fd = s.c.fd)
    (hclosed : entry = s.entry ∨ 0 ≤ s.c.fd) (event : Kind)
    (hagrees : Agrees entry event (active c event) (active c event.other)) :
    Kept { s with
      c := c
      entry := entry
      issued := s.issued ++ [(op, s.entry.isSome)] } where
  evBase := h.evBase
  agrees := agrees_forall event hagrees
  issues := by
    intro op' registered hmem
    rcases List.mem_append.mp hmem with hold | hnew
    · exact h.issues op' registered hold
    · cases List.mem_singleton.mp hnew
      exact hissues
  closed := by
    intro hinvalid
    have hinvalid : s.c.fd = ngxInvalidFile := hfd.symm.trans hinvalid
    rcases hclosed with hsame | hopen
    · exact hsame.trans (h.closed hinvalid)
    · rw [hinvalid] at hopen
      exact absurd hopen (by decide)

theorem Kept.same {s : Registration} (h : Kept s) {c : Request.ConnT}
    (hfd : c.fd = s.c.fd) (hactive : forall event, active c event =
      active s.c event) : Kept { s with c := c } where
  evBase := h.evBase
  agrees := by
    intro event
    rw [hactive, hactive]
    exact h.agrees event
  issues := h.issues
  closed := fun hinvalid => h.closed (hfd.symm.trans hinvalid)

/-!
## Adding and deleting events
-/

theorem agrees_added (event : Kind) (off : Bool) :
    Agrees (some ((if off then event.mask ||| event.other.mask
      else event.mask) ||| eventClearEvent)) event true off := by
  cases event <;> cases off <;> exact ⟨by decide, by decide, rfl⟩

theorem kept_epollAddEvent {s : Registration} (h : Kept s) (event : Kind)
    (hoff : active s.c event = false) (ok : Bool) :
    Kept (epollAddEvent s event eventClearEvent ok).2 := by
  have hagrees := h.agrees event
  have hsome : s.entry.isSome = active s.c event.other := by
    rw [hagrees.some, hoff]
    rfl
  simp only [epollAddEvent]
  rw [show (eventOf s.c event.other).active = active s.c event.other from rfl]
  generalize hop : (if active s.c event.other = true then CtlOp.mod
    else CtlOp.add) = op
  have hissues : Issues op s.entry.isSome := by
    rw [hsome, ← hop]
    cases active s.c event.other with
    | true => exact ⟨fun heq => (by cases heq), fun _ => rfl⟩
    | false => exact ⟨fun _ => rfl, fun heq => (by cases heq)⟩
  have hdel : op ≠ CtlOp.del := by
    rw [← hop]
    split <;> simp
  rcases epollCtl_cases (setActive s event true) op
      ((if active s.c event.other = true then event.mask ||| event.other.mask
        else event.mask) ||| eventClearEvent) ok with heq | ⟨hfd, heq⟩
  · rw [heq]
    refine h.issue hissues ?_ (Or.inl rfl) event ?_
    · simp [setActive]
    · simp only [setActive, active_setEvent, active_setEvent_other]
      rw [← hoff]
      exact hagrees
  · rw [heq, if_neg hdel]
    refine h.issue hissues ?_ (Or.inr ?_) event ?_
    · simp [setActive]
    · simpa [setActive] using hfd
    · simp only [setActive, active_setEvent, active_setEvent_other]
      exact agrees_added event _

theorem agrees_none (event : Kind) : Agrees none event false false :=
  ⟨rfl, rfl, rfl⟩

theorem agrees_deleted (event : Kind) (off : Bool) :
    Agrees (if (if off then CtlOp.mod else CtlOp.del) = CtlOp.del then none
      else some (if off then event.other.mask ||| eventClearEvent
        else event.mask)) event false off := by
  cases event <;> cases off <;> exact ⟨by decide, by decide, rfl⟩

theorem kept_epollDelEvent {s : Registration} (h : Kept s) (event : Kind)
    (ok : Bool) : Kept (epollDelEvent s event eventClearEvent ok).2 := by
  have hagrees := h.agrees event
  have hclear : ¬ (eventClearEvent &&& eventCloseEvent ≠ 0) := by decide
  simp only [epollDelEvent, if_neg hclear]
  rw [show (eventOf s.c event.other).active = active s.c event.other from rfl]
  have hissues : Issues (if active s.c event.other = true then CtlOp.mod
      else CtlOp.del) s.entry.isSome := by
    rw [hagrees.some]
    cases active s.c event.other with
    | true => exact ⟨fun heq => (by cases heq), fun _ => Bool.or_true _⟩
    | false => exact ⟨fun heq => (by cases heq), fun heq => (by cases heq)⟩
  rcases epollCtl_cases s (if active s.c event.other = true then CtlOp.mod
      else CtlOp.del) (if active s.c event.other = true then
        event.other.mask ||| eventClearEvent else event.mask) ok with
    heq | ⟨hfd, heq⟩
  · rw [heq]
    exact h.issue hissues rfl (Or.inl rfl) event hagrees
  · rw [heq]
    refine h.issue hissues ?_ (Or.inr hfd) event ?_
    · rw [setEvent_fd]
    · rw [active_setEvent, active_setEvent_other]
      exact agrees_deleted event _

theorem kept_clearReady {s : Registration} (h : Kept s) (event : Kind) :
    Kept (clearReady s event) := by
  apply h.same
  · exact setEvent_fd _ _ _
  · intro event'
    cases event <;> cases event' <;> rfl

theorem kept_eventHandle {s : Registration} (h : Kept s) (event : Kind)
    (ok : Bool) : Kept (eventHandle s event ok).2 := by
  unfold eventHandle
  simp only
  split
  · next hidle =>
    have hoff : active s.c event = false := by
      rw [Bool.and_eq_true, Bool.not_eq_true', Bool.not_eq_true'] at hidle
      exact hidle.1
    exact kept_epollAddEvent h event hoff ok
  · exact h

/-!
## Whole connections
-/

@[simp] theorem active_setBoth (s : Registration) (b : Bool) (event : Kind) :
    active (setActive (setActive s Kind.read b) Kind.write b).c event = b := by
  cases event <;> rfl

theorem agrees_addedBoth :
    Agrees (some (epollin ||| epollout ||| epollet)) Kind.read true true :=
  ⟨by decide, by decide, rfl⟩

theorem kept_epollAddConnection {s : Registration} (h : Kept s)
    (hread : s.c.read.active = false) (hwrite : s.c.write.active = false)
    (ok : Bool) : Kept (epollAddConnection s ok).2 := by
  have hsome : s.entry.isSome = false := by
    rw [(h.agrees Kind.read).some, Bool.or_eq_false_iff]
    exact ⟨hread, hwrite⟩
  have hissues : Issues CtlOp.add s.entry.isSome :=
    ⟨fun _ => hsome, fun heq => (by cases heq)⟩
  unfold epollAddConnection
  rcases epollCtl_cases s CtlOp.add (epollin ||| epollout ||| epollet) ok with
    heq | ⟨hfd, heq⟩
  · rw [heq]
    exact h.issue hissues rfl (Or.inl rfl) Kind.read (h.agrees Kind.read)
  · rw [heq]
    exact h.issue hissues rfl (Or.inr hfd) Kind.read agrees_addedBoth

theorem kept_epollDelConnection {s : Registration} (h : Kept s)
    (flags : BitVec 32)
    (hclosed : flags &&& eventCloseEvent ≠ 0 -> s.c.fd = ngxInvalidFile)
    (ok : Bool) : Kept (epollDelConnection s flags ok).2 := by
  unfold epollDelConnection
  split
  · next hclose =>
    have hentry : s.entry = none := h.closed (hclosed hclose)
    exact
      { evBase := h.evBase
        agrees := by
          intro event
          simp only [active_setBoth]
          rw [show (setActive (setActive s Kind.read false) Kind.write
            false).entry = none from hentry]
          exact agrees_none event
        issues := h.issues
        closed := fun _ => hentry }
  · have hissues : Issues CtlOp.del s.entry.isSome :=
      ⟨fun heq => (by cases heq), fun heq => (by cases heq)⟩
    rcases epollCtl_cases s CtlOp.del 0 ok with heq | ⟨hfd, heq⟩
    · rw [heq]
      exact h.issue hissues rfl (Or.inl rfl) Kind.read (h.agrees Kind.read)
    · rw [heq]
      exact h.issue hissues rfl (Or.inr hfd) Kind.read (agrees_none Kind.read)

theorem kept_connClose {s : Registration} (h : Kept s) : Kept (connClose s) := by
  unfold connClose
  split
  · simp only
    have hbase : (removeTimers (closeFd s)).evBase = true := h.evBase
    rw [if_pos hbase]
    exact
      { evBase := h.evBase
        agrees := by
          intro event
          have hclose : eventCloseEvent &&& eventCloseEvent ≠ 0 := by decide
          rw [epollDelConnection, if_pos hclose]
          simp only [active_setBoth]
          exact agrees_none event
        issues := h.issues
        closed := fun _ => rfl }
  · exact h

theorem kept_pollReady {s : Registration} (h : Kept s) (rd wr : Bool) :
    Kept (pollReady s rd wr) := by
  apply h.same
  · rfl
  · intro event
    cases event <;> rfl

theorem kept_of_call {s : Registration} (h : Kept s) {a : Label}
    (hcloses : ClosesFirst s a) : Kept (call s a) := by
  cases a with
  | poll rd wr => exact kept_pollReady h rd wr
  | handleRead ok => exact kept_eventHandle h Kind.read ok
  | delRead ok => exact kept_epollDelEvent (kept_clearReady h Kind.read) _ ok
  | handleWrite ok => exact kept_eventHandle h Kind.write ok
  | delWrite ok => exact kept_epollDelEvent (kept_clearReady h Kind.write) _ ok
  | addConnection ok => exact kept_epollAddConnection h hcloses.1 hcloses.2 ok
  | delConnection flags ok => exact kept_epollDelConnection h flags hcloses ok
  | close => exact kept_connClose h

theorem inStep_of_run {s t : Registration} (hfresh : Fresh s)
    (hrun : Reaches step ClosesFirst s t) : InStep t := by
  have hkept : Kept t := by
    refine hrun.invariant Kept ?_ hfresh.kept
    intro r a u hr hok hstep
    cases hstep
    exact kept_of_call hr hok
  exact hkept.inStep

def accepted (evBase : Bool) : Registration where
  c :=
    { fd := 7
      read := ⟨false, false, false, false⟩
      write := ⟨false, false, false, false⟩ }
  evBase := evBase
  entry := none
  issued := []

/-- Both events are added, the first time in vain for the second one, and the
read event is deleted again. -/
def addedAndDeleted : List Label :=
  [Label.handleRead true, Label.handleWrite false, Label.handleWrite true,
    Label.delRead true]

theorem inStep_addedAndDeleted :
    Fresh (accepted true) ∧
      (after step (accepted true) addedAndDeleted).entry = some epollout ∧
      InStep (after step (accepted true) addedAndDeleted) := by
  have hfresh : Fresh (accepted true) := ⟨rfl, rfl, rfl, rfl, rfl⟩
  refine ⟨hfresh, by decide, inStep_of_run hfresh ?_⟩
  apply (Reaches.refl _).labels
  · intro a ha r
    simp only [addedAndDeleted, List.mem_cons, List.not_mem_nil, or_false] at ha
    rcases ha with rfl | rfl | rfl | rfl <;> trivial
  · rfl

/-- `epoll_del_connection` with `EVENT_CLOSE_EVENT` on an open descriptor clears
the flags alone, and `conn_close` without `c->ev_base` clears none. -/
theorem inStep_without_close_fails :
    (Reaches step AddsOnce (accepted true)
        (after step (accepted true)
          [Label.addConnection true, Label.delConnection eventCloseEvent true]) ∧
      ¬ InStep (after step (accepted true)
          [Label.addConnection true,
            Label.delConnection eventCloseEvent true])) ∧
    Reaches step AddsOnce (accepted false)
        (after step (accepted false) [Label.handleRead true, Label.close]) ∧
      ¬ InStep (after step (accepted false)
          [Label.handleRead true, Label.close]) := by
  refine ⟨⟨?_, ?_⟩, ?_, ?_⟩
  · have hadded : Reaches step AddsOnce (accepted true)
        (after step (accepted true) [Label.addConnection true]) :=
      (Reaches.refl _).oneLabel (a := Label.addConnection true) ⟨rfl, rfl⟩ rfl
    exact hadded.oneLabel (a := Label.delConnection _ _) trivial rfl
  · intro hin
    exact absurd (hin.registered.mp rfl) (by decide)
  · apply (Reaches.refl _).labels
    · intro a ha r
      simp only [List.mem_cons, List.not_mem_nil, or_false] at ha
      rcases ha with rfl | rfl <;> trivial
    · rfl
  · intro hin
    exact absurd (hin.registered.mpr (Or.inl rfl)) (by decide)

/-!
## The flags alone

`Request.Conn` has the flags and the answers of `epoll_ctl`, not the entry.
-/

theorem epollCtl_c (s : Registration) (op : CtlOp) (events : BitVec 32)
    (ok : Bool) : (epollCtl s op events ok).2.c = s.c := by
  rcases epollCtl_cases s op events ok with heq | ⟨_, heq⟩ <;> rw [heq]

@[simp] theorem eventOf_setEvent (c : Request.ConnT) (event : Kind)
    (ev : Request.Event) : eventOf (setEvent c event ev) event = ev := by
  cases event <;> rfl

theorem eventHandle_flags (s : Registration) (event : Kind) (ok : Bool) :
    exists answer, forall (env : Request.Env) (rest : List Bool),
      env.ctls = answer :: rest ->
      (Request.eventHandle env (eventOf s.c event)).1 =
          (eventHandle s event ok).1 ∧
        (Request.eventHandle env (eventOf s.c event)).2.1 =
          eventOf (eventHandle s event ok).2.c event := by
  unfold eventHandle Request.eventHandle
  simp only
  split
  · unfold epollAddEvent Request.epollAddEvent
    simp only
    generalize hr : epollCtl _ _ _ ok = r
    have hc : r.2.c = (setActive s event true).c := by
      rw [← hr]
      exact epollCtl_c _ _ _ _
    refine ⟨r.1, ?_⟩
    intro env rest henv
    rw [show Request.epollCtl env = (r.1, { env with ctls := rest }) by
      simp only [Request.epollCtl, henv]]
    cases r.1 <;> simp [setActive, hc]
  · exact ⟨true, fun _ _ _ => ⟨rfl, rfl⟩⟩

theorem eventDelRead_flags (s : Registration) (ok : Bool) :
    exists answer, forall (env : Request.Env) (rest : List Bool),
      env.ctls = answer :: rest ->
      Request.epollDelEvent env { s.c.read with ready := false } =
        ((eventDelRead s ok).1, (eventDelRead s ok).2.c.read,
          { env with ctls := rest }) := by
  have hclear : ¬ (eventClearEvent &&& eventCloseEvent ≠ 0) := by decide
  unfold eventDelRead eventDel epollDelEvent Request.epollDelEvent
  rw [if_neg hclear]
  simp only
  generalize hr : epollCtl _ _ _ ok = r
  have hc : r.2.c = (clearReady s Kind.read).c := by
    rw [← hr]
    exact epollCtl_c _ _ _ _
  refine ⟨r.1, ?_⟩
  intro env rest henv
  rw [show Request.epollCtl env = (r.1, { env with ctls := rest }) by
    simp only [Request.epollCtl, henv]]
  cases r.1 <;> simp [setActive, setEvent, eventOf, clearReady, hc]

theorem connClose_flags {s : Registration} (hbase : s.evBase = true) :
    (connClose s).c = Request.connClose s.c := by
  have hclose : eventCloseEvent &&& eventCloseEvent ≠ 0 := by decide
  unfold connClose Request.connClose
  split
  · simp only
    rw [if_pos (show (removeTimers (closeFd s)).evBase = true from hbase),
      epollDelConnection, if_pos hclose]
    rfl
  · rfl

end Epoll
end NgxEpoll
