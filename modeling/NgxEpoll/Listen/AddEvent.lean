import NgxEpoll.Epoll.Interest

/-!
# Listening sockets

`conn_listening_add_event` of `dfs_conn_listen.cpp` with `conn_get_from_mem` of
`dfs_conn.cpp` and `epoll_add_event` of `dfs_epoll.cpp`, on an array of listening
sockets.  The kernel keeps an entry for each registered descriptor.

The loop reads the descriptor and the handler for a new connection through the
base pointer of the array.  For the first socket that is the right one; for a
later one the kernel refuses the second `EPOLL_CTL_ADD` of the same descriptor, so
that the call fails.
-/

namespace NgxEpoll
namespace Listen

open Foundation
open NgxEpoll.Core
open Epoll

structure EventT where
  data : Nat
  write : Bool
  accepted : Bool
  inst : Bool
  lastInstance : Bool
  active : Bool
  ready : Bool
  timedout : Bool
  timerSet : Bool
  handler : Option Nat
deriving DecidableEq

structure ConnT where
  fd : Int
  read : EventT
  write : EventT
  listening : Option Nat
  log : Nat
deriving DecidableEq

structure ListeningT where
  fd : Int
  handler : Nat
  log : Nat
  connection : Option Nat
deriving DecidableEq

/-- The kernel's entry for a descriptor: `events` and `data.ptr`, that is a
connection with an instance bit. -/
structure Entry where
  events : BitVec 32
  conn : Nat
  inst : Bool
deriving DecidableEq

/-- The array of listening sockets, the connections, the epoll instance, and what
`memory_calloc` and `epoll_ctl` will answer.  A script of allocations that has run
out answers null; `ctls` tells whether the kernel has the means. -/
structure World where
  ls : Nat -> ListeningT
  nelts : Nat
  conns : Nat -> ConnT
  interest : Int -> Option Entry
  callocs : List (Option Nat)
  ctls : List Bool

def eventZero : EventT where
  data := 0
  write := false
  accepted := false
  inst := false
  lastInstance := false
  active := false
  ready := false
  timedout := false
  timerSet := false
  handler := none

def connZero : ConnT where
  fd := 0
  read := eventZero
  write := eventZero
  listening := none
  log := 0

def connSetDefault (c : ConnT) (addr : Nat) (s : Int) : ConnT :=
  let inst := c.read.inst
  let lastInstance := c.read.lastInstance
  { c with
    fd := s
    listening := none
    read := { eventZero with inst := !inst, lastInstance := lastInstance, data := addr }
    write := { eventZero with inst := !inst, data := addr, write := true } }

def connGetFromMem (w : World) (s : Int) : Option Nat × World :=
  match w.callocs with
  | [] => (none, w)
  | none :: rest => (none, { w with callocs := rest })
  | some c :: rest =>
      (some c,
        { w with
          callocs := rest
          conns := Function.update w.conns c (connSetDefault connZero c s) })

def takeCtl (w : World) : Bool × World :=
  match w.ctls with
  | [] => (true, w)
  | ok :: rest => (ok, { w with ctls := rest })

/-- `epoll_ctl`: a bad descriptor is refused, and so are a second `ADD` and a
`MOD` of what is not registered. -/
def epollCtl (w : World) (op : CtlOp) (fd : Int) (ee : Entry) : Bool × World :=
  let r := takeCtl w
  if r.1 = true ∧ 0 ≤ fd ∧ ((w.interest fd).isSome = true ↔ op ≠ CtlOp.add) then
    (true,
      { r.2 with
        interest := Function.update w.interest fd
          (if op = CtlOp.del then none else some ee) })
  else (false, r.2)

def eventOf (c : ConnT) : Kind -> EventT
  | Kind.read => c.read
  | Kind.write => c.write

def setEvent (c : ConnT) (ev : EventT) : Kind -> ConnT
  | Kind.read => { c with read := ev }
  | Kind.write => { c with write := ev }

def setActive (w : World) (k : Nat) (event : Kind) (b : Bool) : World :=
  let c := w.conns k
  let ev := { eventOf c event with active := b }
  { w with conns := Function.update w.conns k (setEvent c ev event) }

def epollAddEvent (w : World) (k : Nat) (event : Kind) (flags : BitVec 32) :
    Int × World :=
  let ev := eventOf (w.conns k) event
  let c := w.conns ev.data
  let aevent := eventOf c event.other
  let op := if aevent.active then CtlOp.mod else CtlOp.add
  let events :=
    if aevent.active then event.mask ||| event.other.mask else event.mask
  let ee : Entry := { events := events ||| flags, conn := ev.data, inst := ev.inst }
  let r := epollCtl (setActive w k event true) op c.fd ee
  if r.1 then (ngxOk, setActive r.2 k event true)
  else (ngxError, setActive r.2 k event false)

/-- What `conn_listening_add_event` sets in the new connection `c` of socket `i`. -/
def initListening (w : World) (i c : Nat) : World :=
  let conn := w.conns c
  { w with
    conns := Function.update w.conns c
      { conn with
        listening := some i
        log := (w.ls i).log
        read := { conn.read with accepted := true, handler := some (w.ls 0).handler } }
    ls := Function.update w.ls i { w.ls i with connection := some c } }

/-- The loop body of `conn_listening_add_event`.  The descriptor and the handler of
a new connection are those of the first socket. -/
def addListening (w : World) (i : Nat) : Int × World :=
  match (w.ls i).connection with
  | some c => epollAddEvent w c Kind.read 0
  | none =>
      match connGetFromMem w (w.ls 0).fd with
      | (none, w) => (ngxError, w)
      | (some c, w) => epollAddEvent (initListening w i c) c Kind.read 0

def addListeningFrom (w : World) (i : Nat) : Nat -> Int × World
  | 0 => (ngxOk, w)
  | n + 1 =>
      let r := addListening w i
      if r.1 = ngxError then r else addListeningFrom r.2 (i + 1) n

def connListeningAddEvent (w : World) : Int × World :=
  addListeningFrom w 0 w.nelts

/-!
## Correct connections
-/

structure Serves (w : World) (i c : Nat) : Prop where
  connection : (w.ls i).connection = some c
  fd : (w.conns c).fd = (w.ls i).fd
  listening : (w.conns c).listening = some i
  handler : (w.conns c).read.handler = some (w.ls i).handler
  data : (w.conns c).read.data = c

/-- The descriptor of socket `i` is registered for reading, for connection `c`. -/
def Registered (w : World) (i c : Nat) : Prop :=
  exists e, w.interest (w.ls i).fd = some e ∧ e.conn = c ∧
    e.events &&& epollin ≠ 0

/-- Distinct descriptors, each socket without a connection or with a correct one of
its own, and memory for new ones that is not in use. -/
structure Prepared (w : World) : Prop where
  fds : forall i j, i < w.nelts -> j < w.nelts -> (w.ls i).fd = (w.ls j).fd -> i = j
  held : forall i c, i < w.nelts -> (w.ls i).connection = some c -> Serves w i c
  own : forall i j c, i < w.nelts -> j < w.nelts ->
    (w.ls i).connection = some c -> (w.ls j).connection = some c -> i = j
  fresh : forall i c, i < w.nelts -> (w.ls i).connection = some c ->
    some c ∉ w.callocs
  distinct : (w.callocs.filter Option.isSome).Nodup

/-- Every socket has a correct connection of its own and is registered for it. -/
def AllServed (w : World) : Prop :=
  (forall i, i < w.nelts -> exists c, Serves w i c ∧ Registered w i c) ∧
    forall i j c, i < w.nelts -> j < w.nelts ->
      (w.ls i).connection = some c -> (w.ls j).connection = some c -> i = j

/-!
## The calls
-/

variable {w w' : World}

theorem takeCtl_frame (w : World) :
    (takeCtl w).2 = { w with ctls := (takeCtl w).2.ctls } := by
  unfold takeCtl
  split
  · rfl
  · rfl

/-- A connection does not change in what makes it correct. -/
structure SameConn (c c' : ConnT) : Prop where
  fd : c'.fd = c.fd
  listening : c'.listening = c.listening
  handler : c'.read.handler = c.read.handler
  data : c'.read.data = c.read.data

structure Added (w w' : World) (fd : Int) : Prop where
  ls : w'.ls = w.ls
  nelts : w'.nelts = w.nelts
  callocs : w'.callocs = w.callocs
  conns : forall k, SameConn (w.conns k) (w'.conns k)
  interest : forall fd', fd' ≠ fd -> w'.interest fd' = w.interest fd'

theorem sameConn_setActive (w : World) (k x : Nat) (event : Kind) (b : Bool) :
    SameConn (w.conns x) ((setActive w k event b).conns x) := by
  unfold setActive
  simp only [Function.update_apply]
  split
  · next heq =>
    subst heq
    cases event with
    | read => exact ⟨rfl, rfl, rfl, rfl⟩
    | write => exact ⟨rfl, rfl, rfl, rfl⟩
  · exact ⟨rfl, rfl, rfl, rfl⟩

theorem SameConn.trans {a b c : ConnT} (h : SameConn a b) (h' : SameConn b c) :
    SameConn a c :=
  ⟨h'.fd.trans h.fd, h'.listening.trans h.listening, h'.handler.trans h.handler,
    h'.data.trans h.data⟩

theorem epollAddEvent_result (w : World) (k : Nat) (event : Kind) (flags : BitVec 32) :
    (epollAddEvent w k event flags).1 = ngxOk ∨
      (epollAddEvent w k event flags).1 = ngxError := by
  unfold epollAddEvent
  dsimp only
  generalize epollCtl _ _ _ _ = r
  cases hctl : r.1 with
  | true =>
      left
      simp
  | false =>
      right
      simp

/-- `epoll_add_event` for reading, on the read event of a connection that points to
its connection: when it succeeds the descriptor is registered for that connection,
and it fails for a registered descriptor whose write event is not active. -/
theorem epollAddEvent_read {k : Nat} (hdata : (w.conns k).read.data = k) {r : Int × World}
    (hr : epollAddEvent w k Kind.read 0 = r) (hok : r.1 = ngxOk) :
    Added w r.2 (w.conns k).fd ∧
      (exists e, r.2.interest (w.conns k).fd = some e ∧ e.conn = k ∧
        e.events &&& epollin ≠ 0) ∧
      ((w.conns k).write.active = false -> w.interest (w.conns k).fd = none) := by
  subst hr
  unfold epollAddEvent at hok ⊢
  have hread : eventOf (w.conns k) Kind.read = (w.conns k).read := rfl
  simp only [hread, hdata] at hok ⊢
  generalize hop : (if (eventOf (w.conns k) Kind.read.other).active = true then CtlOp.mod
    else CtlOp.add) = op at hok ⊢
  generalize hevents : (if (eventOf (w.conns k) Kind.read.other).active = true then
    Kind.read.mask ||| Kind.read.other.mask else Kind.read.mask) = events at hok ⊢
  have hmask : (events ||| 0) &&& epollin ≠ 0 := by
    rw [← hevents]
    split
    · decide
    · decide
  have hdel : op ≠ CtlOp.del := by
    rw [← hop]
    split
    · decide
    · decide
  unfold epollCtl at hok ⊢
  have hframe := takeCtl_frame (setActive w k Kind.read true)
  generalize takeCtl (setActive w k Kind.read true) = t at hok hframe ⊢
  dsimp only at hok ⊢
  split at hok
  · next hctl =>
    rw [if_pos hctl]
    simp only [if_true, if_neg hdel]
    refine ⟨?_, ?_, ?_⟩
    · constructor
      · simp only [setActive]
        rw [hframe]
        rfl
      · simp only [setActive]
        rw [hframe]
        rfl
      · simp only [setActive]
        rw [hframe]
        rfl
      · intro x
        have hfirst := sameConn_setActive w k x Kind.read true
        have hconns : t.2.conns = (setActive w k Kind.read true).conns := by rw [hframe]
        rw [← hconns] at hfirst
        exact hfirst.trans (sameConn_setActive _ k x Kind.read true)
      · intro fd' hne
        simp only [setActive]
        exact Function.update_of_ne hne _ _
    · simp only [setActive]
      exact ⟨_, Function.update_self .., rfl, hmask⟩
    · intro hwrite
      have hadd : op = CtlOp.add := by
        rw [← hop]
        exact if_neg (by simp [Kind.other, eventOf, hwrite])
      have hnone := hctl.2.2
      rw [hadd] at hnone
      have hisnone : ¬ (w.interest (w.conns k).fd).isSome = true := by
        intro hsome
        exact absurd rfl (hnone.mp hsome)
      exact Option.not_isSome_iff_eq_none.mp hisnone
  · next hctl =>
    simp [ngxOk, ngxError] at hok

/-- After the turns for the first `n` sockets of `w0`: these are served, the others
are as they were. -/
structure Progress (w0 w : World) (n : Nat) : Prop where
  nelts : w.nelts = w0.nelts
  fds : forall i, (w.ls i).fd = (w0.ls i).fd
  served : forall i, i < n -> exists c, Serves w i c ∧ Registered w i c
  held : forall i c, i < w.nelts -> (w.ls i).connection = some c -> Serves w i c
  own : forall i j c, i < w.nelts -> j < w.nelts ->
    (w.ls i).connection = some c -> (w.ls j).connection = some c -> i = j
  fresh : forall i c, i < w.nelts -> (w.ls i).connection = some c ->
    some c ∉ w.callocs
  distinct : (w.callocs.filter Option.isSome).Nodup

theorem Serves.of_same {i c : Nat} (hls : w'.ls = w.ls)
    (hconn : SameConn (w.conns c) (w'.conns c)) (h : Serves w i c) :
    Serves w' i c := by
  constructor
  · rw [hls]
    exact h.connection
  · rw [hls, hconn.fd]
    exact h.fd
  · rw [hconn.listening]
    exact h.listening
  · rw [hls, hconn.handler]
    exact h.handler
  · rw [hconn.data]
    exact h.data

theorem Registered.of_same {i c : Nat} (hls : w'.ls = w.ls)
    (hinterest : w'.interest (w.ls i).fd = w.interest (w.ls i).fd)
    (h : Registered w i c) : Registered w' i c := by
  unfold Registered
  rw [hls, hinterest]
  exact h

theorem Progress.register {w0 : World} {n c : Nat} (hw0 : Prepared w0)
    (h : Progress w0 w n) (hn : n < w.nelts) (hc : (w.ls n).connection = some c)
    {r : Int × World} (hr : epollAddEvent w c Kind.read 0 = r) (hok : r.1 = ngxOk) :
    Progress w0 r.2 (n + 1) := by
  have hserves : Serves w n c := h.held n c hn hc
  have hadd := epollAddEvent_read hserves.data hr hok
  rw [hserves.fd] at hadd
  have hadded : Added w r.2 (w.ls n).fd := hadd.1
  have hheld : forall i x, i < r.2.nelts -> (r.2.ls i).connection = some x ->
      Serves r.2 i x := by
    intro i x hi hx
    rw [hadded.nelts] at hi
    rw [hadded.ls] at hx
    exact (h.held i x hi hx).of_same hadded.ls (hadded.conns x)
  constructor
  · exact hadded.nelts.trans h.nelts
  · intro i
    rw [hadded.ls]
    exact h.fds i
  · intro i hi
    by_cases heq : i = n
    · subst heq
      refine ⟨c, hserves.of_same hadded.ls (hadded.conns c), ?_⟩
      unfold Registered
      rw [hadded.ls]
      exact hadd.2.1
    · have hlt : i < n := by omega
      have hserved := h.served i hlt
      apply hserved.elim
      intro x hx
      have hfd : (w.ls i).fd ≠ (w.ls n).fd := by
        intro hsame
        rw [h.fds, h.fds] at hsame
        apply heq
        rw [h.nelts] at hn
        exact hw0.fds i n (by omega) hn hsame
      exact ⟨x, hx.1.of_same hadded.ls (hadded.conns x),
        hx.2.of_same hadded.ls (hadded.interest _ hfd)⟩
  · exact hheld
  · intro i j x hi hj
    rw [hadded.nelts] at hi hj
    rw [hadded.ls]
    exact h.own i j x hi hj
  · intro i x hi
    rw [hadded.nelts] at hi
    rw [hadded.ls, hadded.callocs]
    exact h.fresh i x hi
  · rw [hadded.callocs]
    exact h.distinct

def newConn (w : World) (i c : Nat) (rest : List (Option Nat)) : World :=
  initListening
    { w with
      callocs := rest
      conns := Function.update w.conns c (connSetDefault connZero c (w.ls 0).fd) } i c

theorem connGetFromMem_some {s : Int} {c : Nat}
    (h : connGetFromMem w s = (some c, w')) :
    exists rest, w.callocs = some c :: rest ∧
      w' = { w with
        callocs := rest
        conns := Function.update w.conns c (connSetDefault connZero c s) } := by
  unfold connGetFromMem at h
  split at h
  · cases h
  · cases h
  · next rest hcallocs =>
    cases h
    exact ⟨rest, hcallocs, rfl⟩

theorem newConn_conns_ne {i c x : Nat} (rest : List (Option Nat)) (hne : x ≠ c) :
    (newConn w i c rest).conns x = w.conns x := by
  simp only [newConn, initListening]
  rw [Function.update_of_ne hne, Function.update_of_ne hne]

theorem newConn_conns (i c : Nat) (rest : List (Option Nat)) :
    ((newConn w i c rest).conns c).fd = (w.ls 0).fd ∧
      ((newConn w i c rest).conns c).listening = some i ∧
      ((newConn w i c rest).conns c).read.handler = some (w.ls 0).handler ∧
      ((newConn w i c rest).conns c).read.data = c ∧
      ((newConn w i c rest).conns c).write.active = false := by
  simp [newConn, initListening, connSetDefault, eventZero]

theorem newConn_fd (i j c : Nat) (rest : List (Option Nat)) :
    ((newConn w i c rest).ls j).fd = (w.ls j).fd := by
  simp only [newConn, initListening, Function.update_apply]
  split
  · next heq => rw [heq]
  · rfl

theorem newConn_handler (i j c : Nat) (rest : List (Option Nat)) :
    ((newConn w i c rest).ls j).handler = (w.ls j).handler := by
  simp only [newConn, initListening, Function.update_apply]
  split
  · next heq => rw [heq]
  · rfl

theorem newConn_connection (i c : Nat) (rest : List (Option Nat)) :
    ((newConn w i c rest).ls i).connection = some c := by
  simp [newConn, initListening]

theorem newConn_connection_ne {i j : Nat} (c : Nat) (rest : List (Option Nat))
    (hne : j ≠ i) : ((newConn w i c rest).ls j).connection = (w.ls j).connection := by
  simp only [newConn, initListening]
  rw [Function.update_of_ne hne]

theorem Progress.fresh_first {w0 : World} {c : Nat} {rest : List (Option Nat)}
    (h : Progress w0 w 0) (hcallocs : w.callocs = some c :: rest) :
    Progress w0 (newConn w 0 c rest) 0 := by
  have hconn := newConn_conns (w := w) 0 c rest
  have hother : forall i x, i < w.nelts -> i ≠ 0 ->
      ((newConn w 0 c rest).ls i).connection = some x ->
      x ≠ c ∧ (w.ls i).connection = some x := by
    intro i x hi hne hx
    rw [newConn_connection_ne c rest hne] at hx
    have hfresh := h.fresh i x hi hx
    constructor
    · intro heq
      apply hfresh
      rw [hcallocs, heq]
      exact List.mem_cons_self
    · exact hx
  have hfirst : forall x, ((newConn w 0 c rest).ls 0).connection = some x -> x = c := by
    intro x hx
    rw [newConn_connection] at hx
    exact (Option.some.inj hx).symm
  have hnodup : (some c :: rest.filter Option.isSome).Nodup := by
    have hdistinct := h.distinct
    rw [hcallocs] at hdistinct
    exact hdistinct
  constructor
  · exact h.nelts
  · intro i
    rw [newConn_fd]
    exact h.fds i
  · intro i hi
    omega
  · intro i x hi hx
    by_cases heq : i = 0
    · subst heq
      have hxc := hfirst x hx
      subst hxc
      constructor
      · exact hx
      · rw [newConn_fd]
        exact hconn.1
      · exact hconn.2.1
      · rw [newConn_handler]
        exact hconn.2.2.1
      · exact hconn.2.2.2.1
    · have hold := hother i x hi heq hx
      have hserves := h.held i x hi hold.2
      constructor
      · exact hx
      · rw [newConn_fd, newConn_conns_ne rest hold.1]
        exact hserves.fd
      · rw [newConn_conns_ne rest hold.1]
        exact hserves.listening
      · rw [newConn_handler, newConn_conns_ne rest hold.1]
        exact hserves.handler
      · rw [newConn_conns_ne rest hold.1]
        exact hserves.data
  · intro i j x hi hj hix hjx
    by_cases hi0 : i = 0
    · by_cases hj0 : j = 0
      · exact hi0.trans hj0.symm
      · rw [hi0] at hix
        exact absurd (hfirst x hix) (hother j x hj hj0 hjx).1
    · by_cases hj0 : j = 0
      · rw [hj0] at hjx
        exact absurd (hfirst x hjx) (hother i x hi hi0 hix).1
      · exact h.own i j x hi hj (hother i x hi hi0 hix).2 (hother j x hj hj0 hjx).2
  · intro i x hi hx
    by_cases heq : i = 0
    · rw [heq] at hx
      rw [hfirst x hx]
      intro hmem
      apply (List.nodup_cons.mp hnodup).1
      exact List.mem_filter.mpr ⟨hmem, rfl⟩
    · have hold := hother i x hi heq hx
      have hfresh := h.fresh i x hi hold.2
      rw [hcallocs] at hfresh
      exact fun hmem => hfresh (List.mem_cons_of_mem _ hmem)
  · exact (List.nodup_cons.mp hnodup).2

/-- A later socket without a connection makes the call fail: the descriptor of the
first one is registered already. -/
theorem addListening_later {w0 : World} {n : Nat} (h : Progress w0 w n) (hpos : 0 < n)
    (hnone : (w.ls n).connection = none) : (addListening w n).1 = ngxError := by
  unfold addListening
  rw [hnone]
  cases hget : connGetFromMem w (w.ls 0).fd with
  | mk r w1 =>
      cases r with
      | none => rfl
      | some c =>
          have hsome := connGetFromMem_some hget
          apply hsome.elim
          intro rest hrest
          rw [hrest.2]
          change (epollAddEvent (newConn w n c rest) c Kind.read 0).1 = ngxError
          have hconn := newConn_conns (w := w) n c rest
          have hresult := epollAddEvent_result (newConn w n c rest) c Kind.read 0
          apply hresult.elim
          · intro hok
            have hadd := (epollAddEvent_read hconn.2.2.2.1 rfl hok).2.2 hconn.2.2.2.2
            rw [hconn.1] at hadd
            have hserved := h.served 0 hpos
            apply hserved.elim
            intro x hx
            apply hx.2.elim
            intro e he
            have hreg : w.interest (w.ls 0).fd = none := hadd
            rw [he.1] at hreg
            cases hreg
          · exact id

theorem addListening_progress {w0 : World} {n : Nat} (hw0 : Prepared w0)
    (h : Progress w0 w n) (hn : n < w.nelts) (hok : (addListening w n).1 ≠ ngxError) :
    Progress w0 (addListening w n).2 (n + 1) := by
  cases hc : (w.ls n).connection with
  | some c =>
      unfold addListening at hok ⊢
      rw [hc] at hok ⊢
      have hresult := epollAddEvent_result w c Kind.read 0
      exact h.register hw0 hn hc rfl (hresult.resolve_right hok)
  | none =>
      cases n with
      | succ n => exact absurd (addListening_later h (Nat.succ_pos n) hc) hok
      | zero =>
          unfold addListening at hok ⊢
          rw [hc] at hok ⊢
          cases hget : connGetFromMem w (w.ls 0).fd with
          | mk r w1 =>
              rw [hget] at hok
              cases r with
              | none => exact absurd rfl hok
              | some c =>
                  have hsome := connGetFromMem_some hget
                  apply hsome.elim
                  intro rest hrest
                  rw [hrest.2] at hok ⊢
                  have hfirst := h.fresh_first hrest.1
                  have hresult := epollAddEvent_result (newConn w 0 c rest) c Kind.read 0
                  exact hfirst.register hw0 hn (newConn_connection 0 c rest) rfl
                    (hresult.resolve_right hok)

theorem addListeningFrom_progress {w0 : World} (hw0 : Prepared w0) (m : Nat) :
    forall {n : Nat} {w w' : World}, Progress w0 w n -> n + m = w.nelts ->
      addListeningFrom w n m = (ngxOk, w') -> Progress w0 w' (n + m) := by
  induction m with
  | zero =>
      intro n w w' h _ hrun
      cases hrun
      exact h
  | succ m ih =>
      intro n w w' h hnm hrun
      simp only [addListeningFrom] at hrun
      split at hrun
      · next herr =>
        rw [hrun] at herr
        cases herr
      · next hok =>
        have hstep := addListening_progress hw0 h (by omega) hok
        have hnelts : (n + 1) + m = (addListening w n).2.nelts := by
          rw [hstep.nelts, ← h.nelts]
          omega
        have hrest := ih hstep hnelts hrun
        rw [show n + (m + 1) = (n + 1) + m by omega]
        exact hrest

/-- When the call succeeds, every socket has a correct connection of its own, and its
descriptor is registered for that connection. -/
theorem connListeningAddEvent_serves (hw : Prepared w)
    (hrun : connListeningAddEvent w = (ngxOk, w')) : AllServed w' := by
  have hstart : Progress w w 0 := by
    constructor
    · rfl
    · intro i
      rfl
    · intro i hi
      omega
    · exact hw.held
    · exact hw.own
    · exact hw.fresh
    · exact hw.distinct
  have hend := addListeningFrom_progress hw w.nelts hstart (Nat.zero_add _) hrun
  rw [Nat.zero_add] at hend
  constructor
  · intro i hi
    rw [hend.nelts] at hi
    exact hend.served i hi
  · exact hend.own

def mixedWorld : World where
  ls := fun i =>
    if i = 0 then { fd := 5, handler := 1, log := 9, connection := none }
    else { fd := 6, handler := 2, log := 9, connection := some 40 }
  nelts := 2
  conns := fun k =>
    if k = 40 then
      { fd := 6
        read := { eventZero with data := 40, accepted := true, handler := some 2 }
        write := { eventZero with data := 40, write := true }
        listening := some 1
        log := 9 }
    else connZero
  interest := fun _ => none
  callocs := [some 30]
  ctls := []

theorem mixedWorld_prepared : Prepared mixedWorld := by
  have hcases : forall i, i < mixedWorld.nelts -> i = 0 ∨ i = 1 := by
    intro i hi
    have hlt : i < 2 := hi
    omega
  have hsecond : forall i c, i < mixedWorld.nelts ->
      (mixedWorld.ls i).connection = some c -> i = 1 ∧ c = 40 := by
    intro i c hi hc
    apply (hcases i hi).elim
    · intro heq
      subst heq
      cases hc
    · intro heq
      subst heq
      exact ⟨rfl, (Option.some.inj hc).symm⟩
  constructor
  · intro i j hi hj
    apply (hcases i hi).elim <;> apply (hcases j hj).elim <;> intro hj hi <;>
      subst hi <;> subst hj <;> decide
  · intro i c hi hc
    have heq := hsecond i c hi hc
    rw [heq.1, heq.2]
    constructor <;> rfl
  · intro i j c hi hj hic hjc
    exact (hsecond i c hi hic).1.trans (hsecond j c hj hjc).1.symm
  · intro i c hi hc
    rw [(hsecond i c hi hc).2]
    decide
  · decide

theorem connListeningAddEvent_serves_mixed :
    exists w', connListeningAddEvent mixedWorld = (ngxOk, w') ∧ AllServed w' := by
  have hrun : connListeningAddEvent mixedWorld =
      (ngxOk, (connListeningAddEvent mixedWorld).2) :=
    Prod.ext (by decide) rfl
  exact ⟨_, hrun, connListeningAddEvent_serves mixedWorld_prepared hrun⟩

end Listen
end NgxEpoll
