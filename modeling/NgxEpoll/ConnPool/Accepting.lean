import NgxEpoll.ConnPool.Sharing
import NgxEpoll.Foundation.Descriptors
import NgxEpoll.Foundation.Loop

/-!
# Accepting connections

`listen_rev_handler` of `dn_conn_event.cpp` on the pools of connections, with
`conn_close` and `conn_release` of `dfs_conn.cpp`, and `nn_conn_close` of
`nn_request.cpp`, which ends a connection.  Any threads accept and end connections, in
any order.

## The process
-/

namespace NgxEpoll
namespace ConnPool

open Foundation
open NgxEpoll.Core

/-- What the calls of one turn return.  `socket` is the result of `accept`, `address` tells
whether the text of `inet_ntoa` has a length, and `up` whether `nn_conn_init` reaches its
`return`. -/
structure Outcome where
  socket : Option Fresh
  poolCreate : Bool
  sockaddr : Bool
  nonblocking : Bool
  addrText : Bool
  address : Bool
  up : Bool

/-- The process.  `pooled` lists the slots with a `c->pool`, `fds` has the descriptors of
accepted sockets; `serving` lists the connections that have an `nn_conn_t`, and `created`
and `destroyed` count the memory pools.  `available` is the field of the listening
event. -/
structure Process where
  pools : Pools
  available : Int
  pooled : List Conn
  created : Nat
  destroyed : Nat
  fds : Descriptors
  serving : List Conn

def processInit (m : Slots) : Process where
  pools := commonInit m
  available := 0
  pooled := []
  created := 0
  destroyed := 0
  fds := noDescriptors
  serving := []

def Process.fd (s : Process) (c : Conn) : Int :=
  (s.pools.mem c).fd

def Process.pool (s : Process) (p : Nat) : ConnPoolT :=
  s.pools.pools.getD p zeroPool

def Process.shut (s : Process) (fd : Int) : Process :=
  { s with fds := s.fds.close fd }

def Process.write (s : Process) (m : Slots) : Process :=
  { s with pools := { s.pools with mem := m } }

/-!
## The functions
-/

def Process.free (s : Process) (p : Nat) (c : Conn) : Process :=
  let r := connPoolFreeConnection s.pools.mem (s.pool p) s.pools.comm c
  { s with
    pools :=
      { s.pools with
        mem := r.1
        pools := s.pools.pools.set p r.2.1
        comm := r.2.2
        held := s.pools.held.erase c } }

def Process.close (s : Process) (c : Conn) : Process :=
  let s' := s.write (connClose s.pools.mem c)
  if 0 < s.fd c then s'.shut (s.fd c) else s'

def Process.release (s : Process) (c : Conn) : Process :=
  let s := s.close c
  if c ∈ s.pooled then
    { s with pooled := s.pooled.erase c, destroyed := s.destroyed + 1 }
  else s

def Process.ensurePool (s : Process) (nc : Conn) (poolCreate : Bool) : Option Process :=
  if nc ∈ s.pooled then some s
  else if poolCreate then
    some { s with pooled := nc :: s.pooled, created := s.created + 1 }
  else none

def Process.init (s : Process) (p : Nat) (nc : Conn) (up : Bool) : Process :=
  if up then { s with serving := nc :: s.serving } else (s.release nc).free p nc

inductive Exit where
  | returned
  | error (nc : Option Conn)

/-- The part of a turn behind `conn_pool_get_connection`, which has given `nc`. -/
def Process.setUp (s : Process) (p : Nat) (o : Outcome) (nc : Conn) (fd : Int) :
    Turn (Process × Conn) (Process × Exit) :=
  let s := s.write (connSetDefault s.pools.mem nc fd)
  match s.ensurePool nc o.poolCreate with
  | none => Turn.done (s, Exit.error (some nc))
  | some s =>
      if o.sockaddr && o.nonblocking && o.addrText && o.address then
        Turn.next (s.init p nc o.up, nc)
      else Turn.done (s, Exit.error (some nc))

def acceptTurn (p : Nat) (o : Outcome) (s : Process) : Turn (Process × Conn) (Process × Exit) :=
  match o.socket with
  | none => Turn.done (s, Exit.returned)
  | some kernel =>
      let fd := kernel.pick s.fds.opened
      let s := { s with fds := s.fds.give kernel }
      let nc := (connPoolGetConnection s.pools.mem (s.pool p) s.pools.comm).1
      let s := { s with pools := getStep s.pools p (s.pool p) }
      match nc with
      | none => Turn.done (s.shut fd, Exit.returned)
      | some nc => s.setUp p o nc fd

def Process.goesOn (s : Process) (i : Int) : Bool :=
  s.available = 0 ∨ i < s.available

def acceptLoop (p : Nat) : Int -> Option Conn -> Process -> List Outcome -> Process × Exit
  | i, nc, s, [] => if s.goesOn i then (s, Exit.returned) else (s, Exit.error nc)
  | i, nc, s, o :: os =>
      if s.goesOn i then
        match acceptTurn p o s with
        | Turn.done r => r
        | Turn.next (s, nc) => acceptLoop p (i + 1) (some nc) s os
      else (s, Exit.error nc)

/-- `listen_rev_handler`.  There is no result where `conn_pool_free_connection` gets a
null pointer. -/
def listenRevHandler (p : Nat) (os : List Outcome) (s : Process) : Option Process :=
  match acceptLoop p 0 none s os with
  | (s, Exit.returned) => some s
  | (_, Exit.error none) => none
  | (s, Exit.error (some nc)) => some ((s.close nc).free p nc)

def nnConnClose (p : Nat) (c : Conn) (s : Process) : Process :=
  ({ s with serving := s.serving.erase c }.release c).free p c

inductive Doing where
  | init (n : Nat) (connections readEvents writeEvents : Bool)
  | accept (p : Nat) (os : List Outcome)
  | close (p : Nat) (c : Conn)
  | poolOut (p : Nat) (n : Int)
  | poolIn (p : Nat) (n : Int)

def Process.call (s : Process) (call : Call) : Option Process :=
  (callStep s.pools call).map fun pools => { s with pools := pools }

/-- Only threads that have a pool act, and only connections that are served are ended. -/
def processStep (s : Process) : Doing -> Option Process
  | Doing.init n c r w => s.call (Call.init n c r w)
  | Doing.accept p os =>
      if p < s.pools.pools.length then listenRevHandler p os s else none
  | Doing.close p c =>
      if p < s.pools.pools.length ∧ c ∈ s.serving then some (nnConnClose p c s) else none
  | Doing.poolOut p n => s.call (Call.poolOut p n)
  | Doing.poolIn p n => s.call (Call.poolIn p n)

/-!
## Descriptors of slots
-/

@[simp]
theorem fd_setNext (m : Slots) (c : Conn) (v : Option Conn) (d : Conn) :
    (setNext m c v d).fd = (m d).fd := by
  by_cases hd : d = c
  · subst hd
    simp [setNext]
  · rw [setNext_of_ne m v hd]

theorem fd_getCommConn (m : Slots) (comm : ConnPoolT) (n : Nat) (d : Conn) :
    ((getCommConn m comm n).2.2.1 d).fd = (m d).fd := by
  unfold getCommConn
  split
  · rfl
  · split
    · rfl
    · dsimp only
      split
      · rfl
      · exact fd_setNext m _ _ d

@[simp]
theorem fd_getStep (s : Pools) (p : Nat) (pool : ConnPoolT) (d : Conn) :
    ((getStep s p pool).mem d).fd = (s.mem d).fd := by
  show ((connPoolGetConnection s.mem pool s.comm).2.1 d).fd = (s.mem d).fd
  unfold connPoolGetConnection
  split
  · rfl
  · split
    · rfl
    · dsimp only
      split
      · exact fd_getCommConn s.mem s.comm _ d
      · exact fd_getCommConn s.mem s.comm _ d

@[simp]
theorem fd_free (s : Process) (p : Nat) (c d : Conn) : (s.free p c).fd d = s.fd d := by
  show ((connPoolFreeConnection s.pools.mem (s.pool p) s.pools.comm c).1 d).fd =
    (s.pools.mem d).fd
  unfold connPoolFreeConnection
  split
  · exact fd_setNext s.pools.mem c _ d
  · exact fd_setNext s.pools.mem c _ d

theorem fd_write_of_ne (s : Process) {c d : Conn} (v : ConnT) (h : d ≠ c) :
    (s.write (Function.update s.pools.mem c v)).fd d = s.fd d := by
  show (Function.update s.pools.mem c v d).fd = (s.pools.mem d).fd
  rw [Function.update_of_ne h]

/-!
## Every descriptor in its place
-/

section Shared

variable {s : Pools} {frees : List (List Conn)} {commFree : List Conn}

theorem Shared.held_nodup (h : Shared s frees commFree) : s.held.Nodup := by
  have hrest := (Multiset.nodup_add.mp h.nodup).2.1
  exact (Multiset.nodup_add.mp hrest).2.1

theorem Shared.held_lt (h : Shared s frees commFree) {c : Conn} (hc : c ∈ s.held) :
    c.1 < s.pools.length := by
  by_contra hge
  have honce := h.once c
  have hnone : s.pools[c.1]? = none := List.getElem?_eq_none (Nat.le_of_not_lt hge)
  unfold isConn at honce
  rw [hnone] at honce
  have hin : c ∈ places frees commFree s.held :=
    Multiset.mem_add.mpr (Or.inr (Multiset.mem_add.mpr (Or.inr hc)))
  exact Multiset.count_eq_zero.mp honce hin

theorem Shared.write (h : Shared s frees commFree) {c : Conn} (hc : c ∈ s.held) (v : ConnT) :
    Shared { s with mem := Function.update s.mem c v } frees commFree where
  lists :=
    { length := h.lists.length
      own := by
        intro p pool hp
        exact (h.lists.own p pool hp).update fun hin => (h.apart hin).2 hc
      comm := h.lists.comm.update (h.held_notMem hc) }
  once := h.once
  debt := h.debt

end Shared

/-- The connections `busy` have a descriptor that is open, the connections `idle` are
held without one, and no connection has the open descriptors `loose`. -/
structure Ledger (s : Process) (busy idle : List Conn) (loose : List Int) : Prop where
  shared : exists frees commFree, Shared s.pools frees commFree
  held : s.pools.held.Perm (busy ++ idle)
  owned : Owned s.fds (busy.map s.fd ++ loose)
  pooled : s.pooled.Nodup
  counted : s.created = s.destroyed + s.pooled.length
  available : s.available = 0

variable {s : Process} {busy idle : List Conn} {loose : List Int} {c : Conn} {p : Nat}

theorem ledger_init (m : Slots) : Ledger (processInit m) [] [] [] where
  shared := ⟨[], [], shared_commonInit m⟩
  held := List.Perm.refl _
  owned := owned_none
  pooled := List.nodup_nil
  counted := rfl
  available := rfl

theorem Ledger.nodup_held (h : Ledger s busy idle loose) : (busy ++ idle).Nodup := by
  rcases h.shared with ⟨frees, commFree, hshared⟩
  exact h.held.nodup_iff.mp hshared.held_nodup

theorem Ledger.call (h : Ledger s busy idle loose) {call : Call} {pools : Pools}
    (hcall : callStep s.pools call = some pools) (hheld : pools.held = s.pools.held)
    (hfd : forall d, d ∈ busy -> (pools.mem d).fd = s.fd d) :
    Ledger { s with pools := pools } busy idle loose := by
  rcases h.shared with ⟨frees, commFree, hshared⟩
  refine { h with shared := ?shared, held := ?held, owned := ?owned }
  case shared => exact shared_callStep hshared hcall
  case held => exact hheld ▸ h.held
  case owned =>
    rw [show busy.map (Process.fd { s with pools := pools }) = busy.map s.fd from
      List.map_congr_left hfd]
    exact h.owned

theorem Ledger.accept (h : Ledger s busy idle loose) (kernel : Fresh) :
    Ledger { s with fds := s.fds.give kernel } busy idle
      (kernel.pick s.fds.opened :: loose) :=
  { h with owned := (h.owned.give kernel).congr List.perm_middle.symm }

theorem Ledger.get (h : Ledger s busy [] loose) (hp : p < s.pools.pools.length) :
    Ledger { s with pools := getStep s.pools p (s.pool p) } busy
      (connPoolGetConnection s.pools.mem (s.pool p) s.pools.comm).1.toList loose := by
  rcases h.shared with ⟨frees, commFree, hshared⟩
  have hpool : s.pools.pools[p]? = some (s.pool p) := by
    rw [Process.pool, List.getD_eq_getElem?_getD, List.getElem?_eq_getElem hp]
    rfl
  refine { h with shared := ?shared, held := ?held, owned := ?owned }
  case shared => exact shared_getStep hshared hpool
  case held =>
    have hheld := h.held
    rw [List.append_nil] at hheld
    exact (hheld.append_left _).trans List.perm_append_comm
  case owned =>
    rw [show busy.map (Process.fd { s with pools := getStep s.pools p (s.pool p) }) =
        busy.map s.fd from List.map_congr_left fun d _ => fd_getStep s.pools p (s.pool p) d]
    exact h.owned

theorem Ledger.shut {fd : Int} (h : Ledger s busy idle (fd :: loose)) :
    Ledger (s.shut fd) busy idle loose :=
  { h with owned := (h.owned.congr List.perm_middle).close }

theorem Ledger.setDefault {fd : Int} (h : Ledger s busy [c] (fd :: loose)) :
    Ledger (s.write (connSetDefault s.pools.mem c fd)) (c :: busy) [] loose := by
  rcases h.shared with ⟨frees, commFree, hshared⟩
  have hheld : s.pools.held.Perm (c :: busy) := h.held.trans List.perm_append_comm
  have hnodup : c ∉ busy := (List.nodup_cons.mp (hheld.nodup_iff.mp hshared.held_nodup)).1
  refine { h with shared := ?shared, held := ?held, owned := ?owned }
  case shared =>
    exact ⟨frees, commFree, hshared.write (hheld.mem_iff.mpr List.mem_cons_self) _⟩
  case held =>
    rw [List.append_nil]
    exact hheld
  case owned =>
    have hsame : (c :: busy).map (s.write (connSetDefault s.pools.mem c fd)).fd =
        fd :: busy.map s.fd := by
      rw [List.map_cons]
      congr 1
      · exact congrArg ConnT.fd (Function.update_self c _ s.pools.mem)
      · refine List.map_congr_left fun d hd => ?_
        exact fd_write_of_ne s _ (ne_of_mem_of_not_mem hd hnodup)
    rw [hsame]
    exact h.owned.congr List.perm_middle

theorem write_connClose (s : Process) (c : Conn) :
    exists v, s.write (connClose s.pools.mem c) = s.write (Function.update s.pools.mem c v) := by
  unfold connClose
  split
  · exact ⟨_, rfl⟩
  · exact ⟨s.pools.mem c, by rw [Function.update_eq_self]⟩

/-- A connection loses its descriptor: it is closed, or it is 0 and stays open. -/
theorem Ledger.close (h : Ledger s busy [] loose) (hc : c ∈ busy) :
    exists loose', (loose' = loose ∨ loose' = 0 :: loose) ∧
      Ledger (s.close c) (busy.erase c) [c] loose' := by
  rcases h.shared with ⟨frees, commFree, hshared⟩
  rcases write_connClose s c with ⟨v, hv⟩
  have hbusy := List.perm_cons_erase hc
  have hheld : s.pools.held.Perm (busy.erase c ++ [c]) := by
    have heq := h.held
    rw [List.append_nil] at heq
    exact (heq.trans hbusy).trans (@List.perm_append_comm _ [c] _)
  have hnotin : c ∉ busy.erase c := by
    have hnodup := h.nodup_held
    rw [List.append_nil] at hnodup
    exact (List.nodup_cons.mp (hbusy.nodup_iff.mp hnodup)).1
  have hfd : (busy.erase c).map (s.write (Function.update s.pools.mem c v)).fd =
      (busy.erase c).map s.fd :=
    List.map_congr_left fun d hd => fd_write_of_ne s v (ne_of_mem_of_not_mem hd hnotin)
  have howned : Owned s.fds (s.fd c :: ((busy.erase c).map s.fd ++ loose)) :=
    h.owned.congr ((hbusy.map s.fd).append_right loose)
  -- the slot is written, and its descriptor belongs to no connection any more
  have hwritten : Ledger (s.write (Function.update s.pools.mem c v)) (busy.erase c) [c]
      (s.fd c :: loose) := by
    refine { h with shared := ?shared, held := hheld, owned := ?owned }
    case shared =>
      refine ⟨frees, commFree, hshared.write (hheld.mem_iff.mpr ?_) v⟩
      exact List.mem_append_right _ (List.mem_singleton_self c)
    case owned =>
      rw [hfd]
      exact howned.congr List.perm_middle.symm
  unfold Process.close
  dsimp only
  rw [hv]
  split
  next => exact ⟨loose, Or.inl rfl, hwritten.shut⟩
  next hpos =>
    have hge := howned.ne_neg List.mem_cons_self
    have hzero : s.fd c = 0 := by omega
    rw [hzero] at hwritten
    exact ⟨0 :: loose, Or.inr rfl, hwritten⟩

theorem Ledger.free (h : Ledger s busy [c] loose) (hp : p < s.pools.pools.length) :
    Ledger (s.free p c) busy [] loose := by
  rcases h.shared with ⟨frees, commFree, hshared⟩
  have hpool : s.pools.pools[p]? = some (s.pool p) := by
    rw [Process.pool, List.getD_eq_getElem?_getD, List.getElem?_eq_getElem hp]
    rfl
  have hin : c ∈ s.pools.held :=
    h.held.mem_iff.mpr (List.mem_append_right _ (List.mem_singleton_self c))
  refine { h with shared := ?shared, held := ?held, owned := ?owned }
  case shared => exact shared_freeStep hshared hpool (if_pos hin)
  case held =>
    have herase := (h.held.trans List.perm_append_comm).erase c
    rw [List.singleton_append, List.erase_cons_head] at herase
    rw [List.append_nil]
    exact herase
  case owned =>
    rw [show busy.map (s.free p c).fd = busy.map s.fd from
      List.map_congr_left fun d _ => fd_free s p c d]
    exact h.owned

/-!
## Memory pools
-/

theorem Ledger.release (h : Ledger s busy [] loose) (hc : c ∈ busy) :
    exists loose', (loose' = loose ∨ loose' = 0 :: loose) ∧
      Ledger (s.release c) (busy.erase c) [c] loose' := by
  rcases h.close hc with ⟨loose', hcases, hclosed⟩
  refine ⟨loose', hcases, ?_⟩
  unfold Process.release
  dsimp only
  split
  next hin =>
    refine { hclosed with pooled := hclosed.pooled.erase c, counted := ?counted }
    case counted =>
      have hcounted := hclosed.counted
      have hpos := List.length_pos_of_mem hin
      show (s.close c).created = (s.close c).destroyed + 1 + ((s.close c).pooled.erase c).length
      rw [List.length_erase_of_mem hin]
      omega
  next => exact hclosed

theorem Ledger.ensurePool (h : Ledger s busy idle loose) {poolCreate : Bool} {s' : Process}
    (hs : s.ensurePool c poolCreate = some s') : Ledger s' busy idle loose := by
  unfold Process.ensurePool at hs
  split at hs
  · cases hs
    exact h
  next hnot =>
    split at hs
    · cases hs
      refine { h with pooled := List.nodup_cons.mpr ⟨hnot, h.pooled⟩, counted := ?counted }
      case counted => exact congrArg (· + 1) h.counted
    · cases hs

theorem ensurePool_cases {poolCreate : Bool} {s' : Process}
    (hs : s.ensurePool c poolCreate = some s') :
    s'.pools = s.pools ∧ s'.serving = s.serving ∧ c ∈ s'.pooled ∧
      forall d, d ∈ s.pooled -> d ∈ s'.pooled := by
  unfold Process.ensurePool at hs
  split at hs
  next hin =>
    cases hs
    exact ⟨rfl, rfl, hin, fun _ hd => hd⟩
  next =>
    split at hs
    · cases hs
      exact ⟨rfl, rfl, List.mem_cons_self, fun _ hd => List.mem_cons_of_mem c hd⟩
    · cases hs

theorem close_fields (s : Process) (c : Conn) :
    (s.close c).pools.pools = s.pools.pools ∧ (s.close c).serving = s.serving ∧
      (s.close c).pooled = s.pooled := by
  unfold Process.close
  dsimp only
  split
  · exact ⟨rfl, rfl, rfl⟩
  · exact ⟨rfl, rfl, rfl⟩

theorem release_fields (s : Process) (c : Conn) :
    (s.release c).pools.pools = s.pools.pools ∧ (s.release c).serving = s.serving ∧
      forall d, d ≠ c -> d ∈ s.pooled -> d ∈ (s.release c).pooled := by
  rcases close_fields s c with ⟨hpools, hserving, hpooled⟩
  unfold Process.release
  dsimp only
  split
  · refine ⟨hpools, hserving, fun d hne hd => ?_⟩
    exact (List.mem_erase_of_ne hne).mpr (hpooled ▸ hd)
  · exact ⟨hpools, hserving, fun d _ hd => hpooled ▸ hd⟩

theorem free_fields (s : Process) (p : Nat) (c : Conn) :
    (s.free p c).pools.pools.length = s.pools.pools.length ∧
      (s.free p c).serving = s.serving ∧ (s.free p c).pooled = s.pooled :=
  ⟨List.length_set, rfl, rfl⟩

/-!
## The loop
-/

/-- The connections of `busy` are those that are held, each of `serving` has a memory
pool, and no descriptor but 0 is lost. -/
structure Kept (n : Nat) (s : Process) (busy : List Conn) : Prop where
  ledger : exists loose, (forall fd, fd ∈ loose -> fd = 0) ∧ Ledger s busy [] loose
  served : forall c, c ∈ s.serving -> c ∈ s.pooled
  threads : s.pools.pools.length = n

variable {n : Nat}

theorem Kept.error (h : Kept n s (c :: s.serving)) (hp : p < n) :
    Kept n ((s.close c).free p c) s.serving := by
  rcases h.ledger with ⟨loose, hzero, hledger⟩
  rcases hledger.close List.mem_cons_self with ⟨loose', hcases, hclosed⟩
  rcases close_fields s c with ⟨hpools, hserving, hpooled⟩
  have hthreads : (s.close c).pools.pools.length = n :=
    (congrArg List.length hpools).trans h.threads
  rw [List.erase_cons_head] at hclosed
  constructor
  · refine ⟨loose', ?_, hclosed.free (hthreads ▸ hp)⟩
    rcases hcases with rfl | rfl
    · exact hzero
    · intro fd hfd
      rcases List.mem_cons.mp hfd with rfl | hin
      · rfl
      · exact hzero fd hin
  · intro d hd
    show d ∈ (s.close c).pooled
    rw [hpooled]
    exact h.served d (hserving ▸ hd)
  · exact (free_fields (s.close c) p c).1.trans hthreads

theorem Kept.release (h : Kept n s busy) (hc : c ∈ busy) (hnot : c ∉ s.serving) (hp : p < n) :
    Kept n ((s.release c).free p c) (busy.erase c) := by
  rcases h.ledger with ⟨loose, hzero, hledger⟩
  rcases hledger.release hc with ⟨loose', hcases, hreleased⟩
  rcases release_fields s c with ⟨hpools, hserving, hpooled⟩
  have hthreads : (s.release c).pools.pools.length = n :=
    (congrArg List.length hpools).trans h.threads
  constructor
  · refine ⟨loose', ?_, hreleased.free (hthreads ▸ hp)⟩
    rcases hcases with rfl | rfl
    · exact hzero
    · intro fd hfd
      rcases List.mem_cons.mp hfd with rfl | hin
      · rfl
      · exact hzero fd hin
  · intro d hd
    have hd : d ∈ s.serving := hserving ▸ hd
    exact hpooled d (ne_of_mem_of_not_mem hd hnot) (h.served d hd)
  · exact (free_fields (s.release c) p c).1.trans hthreads

def Left (n : Nat) (r : Process × Exit) : Prop :=
  match r.2 with
  | Exit.returned => Kept n r.1 r.1.serving
  | Exit.error none => False
  | Exit.error (some nc) => Kept n r.1 (nc :: r.1.serving)

theorem Kept.init (h : Kept n s (c :: s.serving)) (hpool : c ∈ s.pooled) (hp : p < n)
    (up : Bool) : Kept n (s.init p c up) (s.init p c up).serving := by
  cases up with
  | true =>
      rcases h.ledger with ⟨loose, hzero, hledger⟩
      refine ⟨⟨loose, hzero, { hledger with }⟩, ?_, h.threads⟩
      intro d hd
      rcases List.mem_cons.mp hd with rfl | hin
      · exact hpool
      · exact h.served d hin
  | false =>
      have hnot : c ∉ s.serving := by
        rcases h.ledger with ⟨loose, -, hledger⟩
        have hnodup := hledger.nodup_held
        rw [List.append_nil] at hnodup
        exact (List.nodup_cons.mp hnodup).1
      have hreleased := h.release List.mem_cons_self hnot hp
      rw [List.erase_cons_head] at hreleased
      show Kept n ((s.release c).free p c) (s.release c).serving
      rw [(release_fields s c).2.1]
      exact hreleased

theorem Kept.setUp {loose : List Int} {fd : Int} (h : Ledger s s.serving [c] (fd :: loose))
    (hzero : forall fd, fd ∈ loose -> fd = 0)
    (hserved : forall c, c ∈ s.serving -> c ∈ s.pooled)
    (hthreads : s.pools.pools.length = n) (hp : p < n) (o : Outcome) :
    (s.setUp p o c fd).Meets (fun r => Kept n r.1 r.1.serving) (Left n) := by
  have hset := h.setDefault
  unfold Process.setUp
  dsimp only
  generalize ht : s.write (connSetDefault s.pools.mem c fd) = t at hset ⊢
  have hkept : Kept n t (c :: t.serving) := by
    subst ht
    exact ⟨⟨loose, hzero, hset⟩, hserved, hthreads⟩
  split
  next => exact hkept
  next t' hensure =>
    rcases ensurePool_cases hensure with ⟨hpools, hserving, hin, hpooled⟩
    have hkept' : Kept n t' (c :: t'.serving) := by
      rcases hkept.ledger with ⟨loose', hzero', hledger⟩
      constructor
      · exact ⟨loose', hzero', hserving ▸ hledger.ensurePool hensure⟩
      · intro d hd
        exact hpooled d (hkept.served d (hserving ▸ hd))
      · rw [hpools]
        exact hkept.threads
    split
    next => exact hkept'.init hin hp o.up
    next => exact hkept'

theorem Kept.acceptTurn (h : Kept n s s.serving) (hp : p < n) (o : Outcome) :
    (acceptTurn p o s).Meets (fun r => Kept n r.1 r.1.serving) (Left n) := by
  rcases h.ledger with ⟨loose, hzero, hledger⟩
  unfold ConnPool.acceptTurn
  split
  next => exact h
  next kernel hsocket =>
    have hgot := (hledger.accept kernel).get (h.threads.symm ▸ hp)
    have hlength : (getStep s.pools p (s.pool p)).pools.length = n :=
      List.length_set.trans h.threads
    dsimp only at hgot ⊢
    split
    next hnone =>
      rw [hnone] at hgot
      exact ⟨⟨loose, hzero, hgot.shut⟩, h.served, hlength⟩
    next nc hsome =>
      rw [hsome] at hgot
      exact Kept.setUp hgot hzero h.served hlength hp o

theorem Kept.acceptLoop (hp : p < n) (os : List Outcome) :
    forall {s : Process} (i : Int) (nc : Option Conn), Kept n s s.serving ->
      Left n (acceptLoop p i nc s os) := by
  induction os with
  | nil =>
      intro s i nc h
      have hgoes : s.goesOn i = true := by
        rcases h.ledger with ⟨loose, -, hledger⟩
        exact decide_eq_true (Or.inl hledger.available)
      unfold ConnPool.acceptLoop
      rw [if_pos hgoes]
      exact h
  | cons o os ih =>
      intro s i nc h
      have hgoes : s.goesOn i = true := by
        rcases h.ledger with ⟨loose, -, hledger⟩
        exact decide_eq_true (Or.inl hledger.available)
      have hturn := h.acceptTurn hp o
      unfold ConnPool.acceptLoop
      rw [if_pos hgoes]
      split
      next r hr =>
        rw [hr] at hturn
        exact hturn
      next t nc' ht =>
        rw [ht] at hturn
        exact ih (i + 1) (some nc') hturn

theorem Kept.listenRevHandler (h : Kept n s s.serving) (hp : p < n) (os : List Outcome) :
    exists s', listenRevHandler p os s = some s' ∧ Kept n s' s'.serving := by
  have hleft := h.acceptLoop hp os 0 none
  unfold ConnPool.listenRevHandler
  split
  next t ht =>
    rw [ht] at hleft
    exact ⟨t, rfl, hleft⟩
  next ht =>
    rw [ht] at hleft
    cases hleft
  next t nc ht =>
    rw [ht] at hleft
    refine ⟨_, rfl, ?_⟩
    have herror := Kept.error hleft hp
    show Kept n ((t.close nc).free p nc) (t.close nc).serving
    rw [(close_fields t nc).2.1]
    exact herror

theorem Kept.nnConnClose (h : Kept n s s.serving) (hc : c ∈ s.serving) (hp : p < n) :
    Kept n (nnConnClose p c s) (nnConnClose p c s).serving := by
  rcases h.ledger with ⟨loose, hzero, hledger⟩
  have hnodup := hledger.nodup_held
  rw [List.append_nil] at hnodup
  have hended : Kept n { s with serving := s.serving.erase c } s.serving := by
    refine ⟨⟨loose, hzero, { hledger with }⟩, ?_, h.threads⟩
    intro d hd
    exact h.served d (List.mem_of_mem_erase hd)
  have hreleased := hended.release hc (hnodup.not_mem_erase) hp
  show Kept n _ (({ s with serving := s.serving.erase c } : Process).release c).serving
  rw [(release_fields _ c).2.1]
  exact hreleased

/-!
## Every run
-/

theorem Kept.call (h : Kept n s s.serving) {call : Call} {pools : Pools}
    (hcall : callStep s.pools call = some pools) (hheld : pools.held = s.pools.held)
    (hfd : forall d, d ∈ s.serving -> (pools.mem d).fd = s.fd d) :
    Kept pools.pools.length { s with pools := pools } s.serving := by
  rcases h.ledger with ⟨loose, hzero, hledger⟩
  exact ⟨⟨loose, hzero, hledger.call hcall hheld hfd⟩, h.served, rfl⟩

theorem Kept.init_thread (h : Kept n s s.serving) {k : Nat} {c r w : Bool} {pools : Pools}
    (hcall : callStep s.pools (Call.init k c r w) = some pools) :
    Kept pools.pools.length { s with pools := pools } s.serving := by
  have hinit := hcall
  dsimp only [callStep, initStep] at hinit
  split at hinit
  next hok =>
    cases hinit
    rcases freeList_connPoolInit hok with ⟨-, -, -, hframe⟩
    refine h.call hcall rfl fun d hd => ?_
    have hlt : d.1 < s.pools.pools.length := by
      rcases h.ledger with ⟨loose, -, hledger⟩
      rcases hledger.shared with ⟨frees, commFree, hshared⟩
      exact hshared.held_lt (hledger.held.mem_iff.mpr (List.mem_append_left _ hd))
    exact congrArg ConnT.fd (hframe d (Nat.ne_of_lt hlt))
  next => cases hinit

theorem Kept.step (h : Kept n s s.serving) {doing : Doing} {s' : Process}
    (hs : processStep s doing = some s') : exists n, Kept n s' s'.serving := by
  cases doing with
  | init k c r w =>
      rcases Option.map_eq_some_iff.mp hs with ⟨pools, hcall, rfl⟩
      exact ⟨_, h.init_thread hcall⟩
  | accept p os =>
      unfold processStep at hs
      dsimp only at hs
      split at hs
      next hp =>
        rcases h.listenRevHandler (h.threads ▸ hp) os with ⟨t, ht, hkept⟩
        rw [ht] at hs
        cases hs
        exact ⟨n, hkept⟩
      next => cases hs
  | close p c =>
      unfold processStep at hs
      dsimp only at hs
      split at hs
      next hp =>
        cases hs
        exact ⟨n, h.nnConnClose hp.2 (h.threads ▸ hp.1)⟩
      next => cases hs
  | poolOut p k =>
      rcases Option.map_eq_some_iff.mp hs with ⟨pools, hcall, rfl⟩
      rcases Option.map_eq_some_iff.mp hcall with ⟨pool, -, heq⟩
      subst heq
      exact ⟨_, h.call hcall rfl fun _ _ => rfl⟩
  | poolIn p k =>
      rcases Option.map_eq_some_iff.mp hs with ⟨pools, hcall, rfl⟩
      rcases Option.map_eq_some_iff.mp hcall with ⟨pool, -, heq⟩
      subst heq
      exact ⟨_, h.call hcall rfl fun _ _ => rfl⟩

theorem kept_of_run {m : Slots} (hrun : Reaches processStep Always (processInit m) s) :
    exists n, Kept n s s.serving := by
  refine hrun.invariant (fun s => exists n, Kept n s s.serving) ?_ ?_
  · rintro t doing u ⟨n, h⟩ - hs
    exact h.step hs
  · refine ⟨0, ⟨[], ?_, ledger_init m⟩, ?_, rfl⟩
    · intro fd hfd
      cases hfd
    · intro c hc
      cases hc

/-- Whatever threads accept and end, in any order: the descriptors that are open are those
of the connections that are served, each of one of them, but for a 0 that `conn_close`
takes for none; nothing is closed that is not open; the connections that are served are
those that the pools have given away; the memory pools that are left belong to one slot
each; and the next call of `listen_rev_handler` hands no null pointer back. -/
theorem descriptors_served (m : Slots) (s : Process)
    (hrun : Reaches processStep Always (processInit m) s) :
    (exists zeros, (forall fd, fd ∈ zeros -> fd = 0) ∧
      Owned s.fds (s.serving.map s.fd ++ zeros)) ∧
      s.serving.Perm s.pools.held ∧ s.serving.Nodup ∧
      (forall c, c ∈ s.serving -> c ∈ s.pooled) ∧
      s.pooled.Nodup ∧ s.created = s.destroyed + s.pooled.length ∧
      forall p os, p < s.pools.pools.length -> (listenRevHandler p os s).isSome := by
  rcases kept_of_run hrun with ⟨n, h⟩
  rcases h.ledger with ⟨zeros, hzero, hledger⟩
  have hheld := hledger.held
  have hnodup := hledger.nodup_held
  rw [List.append_nil] at hheld hnodup
  refine ⟨⟨zeros, hzero, hledger.owned⟩, hheld.symm, hnodup, h.served, hledger.pooled,
    hledger.counted, ?_⟩
  intro p os hp
  rcases h.listenRevHandler (h.threads ▸ hp) os with ⟨t, ht, -⟩
  rw [ht]
  rfl

def wellAccepted (up : Bool) : Outcome where
  socket := some behindOpened
  poolCreate := true
  sockaddr := true
  nonblocking := true
  addrText := true
  address := true
  up := up

/-- Four sockets for two slots: the first is not set up, the last finds no slot, and one of
the others ends. -/
def fourAccepted : List Doing :=
  [Doing.init 2 true true true,
    Doing.accept 0 [wellAccepted false, wellAccepted true, wellAccepted true,
      wellAccepted true],
    Doing.close 0 (0, 0)]

theorem descriptors_served_four :
    exists s : Process, s.serving = [(0, 1)] ∧ s.fds.opened = [4] ∧
      (exists zeros, (forall fd, fd ∈ zeros -> fd = 0) ∧
        Owned s.fds (s.serving.map s.fd ++ zeros)) ∧
      s.serving.Perm s.pools.held ∧ s.serving.Nodup ∧
      (forall c, c ∈ s.serving -> c ∈ s.pooled) ∧
      s.pooled.Nodup ∧ s.created = s.destroyed + s.pooled.length ∧
      forall p os, p < s.pools.pools.length -> (listenRevHandler p os s).isSome := by
  let m : Slots := fun _ => initialSlot 0 1 0
  have hends : (runLabels processStep (processInit m) fourAccepted).map
      (fun s => (s.serving, s.fds.opened)) = some ([(0, 1)], [4]) := by
    decide +kernel
  rcases Option.map_eq_some_iff.mp hends with ⟨s, hs, hlast⟩
  have hrun : Reaches processStep Always (processInit m)
      (after processStep (processInit m) fourAccepted) := by
    refine (Reaches.refl _).labels (fun _ _ _ => trivial) ?_
    rw [hs]
    rfl
  have hafter : after processStep (processInit m) fourAccepted = s := by
    rw [after, hs]
    rfl
  rw [hafter] at hrun
  exact ⟨s, congrArg Prod.fst hlast, congrArg Prod.snd hlast, descriptors_served m s hrun⟩

end ConnPool
end NgxEpoll
