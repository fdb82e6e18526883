import NgxEpoll.ConnPool.Pool
import NgxEpoll.Foundation.Queues
import NgxEpoll.Foundation.Runs

/-!
# Pools that share connections

Every thread has a pool; `conn_pool_out` and `conn_pool_in` leave a debt or a
surplus in `change_n`, which the next calls settle with the common pool.  The
critical section of `comm_conn_lock` is the only access to what threads share,
so a run is a sequence of whole calls, by any threads in any order.

## The system
-/

namespace NgxEpoll
namespace ConnPool

open Foundation
open NgxEpoll.Core

/-- All pools of the process.  `held` lists the connections that callers have
got and not handed back, `totalIn` and `totalOut` what was passed to
`conn_pool_in` and to `conn_pool_out`; the code has none of the three. -/
structure Pools where
  mem : Slots
  pools : List ConnPoolT
  comm : ConnPoolT
  held : List Conn
  totalIn : Int
  totalOut : Int

def commonInit (m : Slots) : Pools where
  mem := m
  pools := []
  comm := connPoolCommonInit
  held := []
  totalIn := 0
  totalOut := 0

inductive Call where
  | init (n : Nat) (connections readEvents writeEvents : Bool)
  | getConnection (p : Nat)
  | freeConnection (p : Nat) (c : Conn)
  | poolOut (p : Nat) (n : Int)
  | poolIn (p : Nat) (n : Int)

/-- A thread that gets no pool does not start. -/
def initStep (s : Pools) (n : Nat) (connections readEvents writeEvents : Bool) :
    Option Pools :=
  let r := connPoolInit s.mem zeroPool s.pools.length n
    connections readEvents writeEvents
  if r.1 = ngxOk then some { s with mem := r.2.1, pools := s.pools ++ [r.2.2] }
  else none

def getStep (s : Pools) (p : Nat) (pool : ConnPoolT) : Pools :=
  let r := connPoolGetConnection s.mem pool s.comm
  { s with
    mem := r.2.1
    pools := s.pools.set p r.2.2.1
    comm := r.2.2.2
    held := r.1.toList ++ s.held }

def freeStep (s : Pools) (p : Nat) (pool : ConnPoolT) (c : Conn) : Option Pools :=
  if c ∈ s.held then
    let r := connPoolFreeConnection s.mem pool s.comm c
    some { s with
      mem := r.1
      pools := s.pools.set p r.2.1
      comm := r.2.2
      held := s.held.erase c }
  else none

def callStep (s : Pools) : Call -> Option Pools
  | Call.init n c r w => initStep s n c r w
  | Call.getConnection p => s.pools[p]?.map (getStep s p)
  | Call.freeConnection p c => s.pools[p]?.bind (freeStep s p · c)
  | Call.poolOut p n => s.pools[p]?.map fun pool =>
      { s with
        pools := s.pools.set p (connPoolOut pool n)
        totalOut := s.totalOut + n }
  | Call.poolIn p n => s.pools[p]?.map fun pool =>
      { s with
        pools := s.pools.set p (connPoolIn pool n)
        totalIn := s.totalIn + n }

/-!
## Where a connection is
-/

def isConn (pools : List ConnPoolT) (c : Conn) : Bool :=
  match pools[c.1]? with
  | none => false
  | some pool => decide (c.2 < pool.connectionN)

/-- All places together: the lists of the pools, the common list, the hands of
callers. -/
def places (frees : List (List Conn)) (commFree held : List Conn) :
    Multiset Conn :=
  bagOf frees + ((commFree : Multiset Conn) + (held : Multiset Conn))

/-- `frees` are the lists of the pools and `commFree` is the common one, with the
counters that belong to them. -/
structure FreeLists (s : Pools) (frees : List (List Conn))
    (commFree : List Conn) : Prop where
  length : frees.length = s.pools.length
  own : forall p pool, s.pools[p]? = some pool ->
    FreeList s.mem pool (frees.getD p [])
  comm : FreeList s.mem s.comm commFree

def changeSum (pools : List ConnPoolT) : Int :=
  (pools.map ConnPoolT.changeN).sum

/-- The invariant: lists and counters agree, every connection is in one place,
and the debts of the pools account for what went through the common pool. -/
structure Shared (s : Pools) (frees : List (List Conn))
    (commFree : List Conn) : Prop where
  lists : FreeLists s frees commFree
  once : forall c, (places frees commFree s.held).count c =
    if isConn s.pools c then 1 else 0
  debt : s.comm.freeConnectionN + changeSum s.pools = s.totalIn - s.totalOut

theorem shared_commonInit (m : Slots) : Shared (commonInit m) [] [] where
  lists :=
    { length := rfl
      own := by
        intro p pool h
        cases h
      comm := ⟨rfl, rfl⟩ }
  once := by
    intro c
    simp [places, bagOf, commonInit, isConn]
  debt := rfl

section Steps

variable {s : Pools} {frees : List (List Conn)} {commFree : List Conn}

theorem Shared.nodup (h : Shared s frees commFree) :
    (places frees commFree s.held).Nodup := by
  rw [Multiset.nodup_iff_count_le_one]
  intro c
  rw [h.once]
  split <;> omega

theorem mem_bagOf_getD {queues : List (List Conn)} {p : Nat} {c : Conn}
    (h : c ∈ queues.getD p []) : c ∈ bagOf queues := by
  rw [← bagOf_drain queues p]
  exact Multiset.mem_add.mpr (Or.inr h)

theorem Shared.apart (h : Shared s frees commFree) {p : Nat} {c : Conn}
    (hc : c ∈ frees.getD p []) : c ∉ commFree ∧ c ∉ s.held := by
  have hdisj := (Multiset.nodup_add.mp h.nodup).2.2
  have hnot := Multiset.disjoint_left.mp hdisj (mem_bagOf_getD hc)
  simp only [Multiset.mem_add, Multiset.mem_coe, not_or] at hnot
  exact hnot

theorem Shared.held_notMem (h : Shared s frees commFree) {c : Conn}
    (hc : c ∈ s.held) : c ∉ commFree := by
  have hrest := (Multiset.nodup_add.mp h.nodup).2.1
  exact fun hin =>
    Multiset.disjoint_left.mp (Multiset.nodup_add.mp hrest).2.2 hin hc

theorem Shared.nodup_lists (h : Shared s frees commFree) (p : Nat) :
    (frees.getD p [] ++ commFree).Nodup := by
  have hnodup := Multiset.nodup_add.mp h.nodup
  have hown : (frees.getD p []).Nodup := by
    have hbag := hnodup.1
    rw [← bagOf_drain frees p] at hbag
    exact (Multiset.nodup_add.mp hbag).2.1
  have hcomm : commFree.Nodup := (Multiset.nodup_add.mp hnodup.2.1).1
  refine List.nodup_append.mpr ⟨hown, hcomm, ?_⟩
  rintro a ha b hb rfl
  exact (h.apart ha).1 hb

theorem isConn_set {pools : List ConnPoolT} {p : Nat} {pool pool' : ConnPoolT}
    (hp : pools[p]? = some pool) (hn : pool'.connectionN = pool.connectionN) :
    isConn (pools.set p pool') = isConn pools := by
  funext c
  unfold isConn
  by_cases hc : p = c.1
  · subst hc
    have hlt := (List.getElem?_eq_some_iff.mp hp).1
    rw [List.getElem?_set_self hlt, hp]
    simp only [hn]
  · rw [List.getElem?_set_ne hc]

theorem isConn_append (pools : List ConnPoolT) (pool : ConnPoolT) (c : Conn) :
    isConn (pools ++ [pool]) c =
      (isConn pools c ||
        decide (c.1 = pools.length ∧ c.2 < pool.connectionN)) := by
  unfold isConn
  rcases Nat.lt_trichotomy c.1 pools.length with hlt | heq | hgt
  · simp [List.getElem?_append_left hlt, Nat.ne_of_lt hlt]
  · simp [heq]
  · have h1 : pools[c.1]? = none := List.getElem?_eq_none (by omega)
    have h2 : (pools ++ [pool])[c.1]? = none := by
      refine List.getElem?_eq_none ?_
      simp only [List.length_append, List.length_singleton]
      omega
    simp [h1, h2, Nat.ne_of_gt hgt]

theorem count_connArray (c : Conn) (p n : Nat) :
    (connArray p n : Multiset Conn).count c =
      if c.1 = p ∧ c.2 < n then 1 else 0 := by
  split
  · rename_i h
    exact Multiset.count_eq_one_of_mem (nodup_connArray p n) (mem_connArray.mpr h)
  · rename_i h
    exact Multiset.count_eq_zero_of_notMem (fun hmem => h (mem_connArray.mp hmem))

theorem changeSum_set {pools : List ConnPoolT} {p : Nat} {pool : ConnPoolT}
    (pool' : ConnPoolT) (hp : pools[p]? = some pool) :
    changeSum (pools.set p pool') + pool.changeN =
      changeSum pools + pool'.changeN := by
  unfold changeSum
  induction pools generalizing p with
  | nil => cases hp
  | cons q pools ih =>
      cases p with
      | zero =>
          cases hp
          simp only [List.set_cons_zero, List.map_cons, List.sum_cons]
          omega
      | succ p =>
          have hrec := ih hp
          simp only [List.set_cons_succ, List.map_cons, List.sum_cons]
          omega

theorem FreeLists.set (h : FreeLists s frees commFree) {p : Nat}
    {m' : Slots} {pool' comm' : ConnPoolT} {xs' ys' touched held' : List Conn}
    (hxs : FreeList m' pool' xs') (hys : FreeList m' comm' ys')
    (hframe : forall c, c ∉ touched -> m' c = s.mem c)
    (hapart : forall q c, c ∈ frees.getD q [] -> c ∉ touched)
    (hp : p < s.pools.length) :
    FreeLists
      { s with mem := m', pools := s.pools.set p pool', comm := comm', held := held' }
      (frees.set p xs') ys' where
  length := by simp [h.length]
  own := by
    intro q pool hq
    have hlen := h.length
    by_cases hqp : p = q
    · subst hqp
      rw [List.getElem?_set_self hp] at hq
      cases hq
      rw [List.getD_eq_getElem?_getD, List.getElem?_set_self (by omega)]
      exact hxs
    · rw [List.getElem?_set_ne hqp] at hq
      rw [List.getD_eq_getElem?_getD, List.getElem?_set_ne hqp,
        ← List.getD_eq_getElem?_getD]
      exact (h.own q pool hq).congr fun c hc => hframe c (hapart q c hc)
  comm := hys

theorem places_move {p : Nat} (hp : p < frees.length)
    {xs' ys' held held' : List Conn}
    (hmove : ((frees.getD p [] ++ commFree ++ held : List Conn) : Multiset Conn) =
      (xs' ++ ys' ++ held' : List Conn)) :
    places (frees.set p xs') ys' held' = places frees commFree held := by
  ext c
  have hset := congrArg (Multiset.count c) (bagOf_set frees p xs' hp)
  have hcount := congrArg (Multiset.count c) hmove
  simp only [← Multiset.coe_add, Multiset.count_add] at hset hcount
  simp only [places, Multiset.count_add]
  omega

theorem shared_getStep (h : Shared s frees commFree) {p : Nat}
    {pool : ConnPoolT} (hp : s.pools[p]? = some pool) :
    exists frees' commFree', Shared (getStep s p pool) frees' commFree' := by
  have hlt := (List.getElem?_eq_some_iff.mp hp).1
  have hlen := h.lists.length
  obtain ⟨xs', ys', hxs, hys, hperm, hsum, hn, hframe⟩ :=
    connPoolGetConnection_spec (h.lists.own p pool hp) h.lists.comm
      (h.nodup_lists p)
  refine ⟨frees.set p xs', ys', ?_, ?_, ?_⟩
  · exact h.lists.set hxs hys hframe (fun q c hc => (h.apart hc).1) hlt
  · intro c
    have hconn : isConn (getStep s p pool).pools = isConn s.pools :=
      isConn_set hp hn
    have hplaces : places (frees.set p xs') ys' (getStep s p pool).held =
        places frees commFree s.held := by
      refine places_move (by omega) (Multiset.coe_eq_coe.mpr ?_)
      refine (hperm.append_right s.held).trans ?_
      rw [List.append_assoc]
      exact List.perm_append_comm_assoc _ _ _
    rw [hconn, hplaces]
    exact h.once c
  · have hdebt := h.debt
    have hset := changeSum_set
      (connPoolGetConnection s.mem pool s.comm).2.2.1 hp
    simp only [getStep]
    omega

theorem shared_freeStep (h : Shared s frees commFree) {p : Nat}
    {pool : ConnPoolT} (hp : s.pools[p]? = some pool) {c : Conn} {s' : Pools}
    (hs : freeStep s p pool c = some s') :
    exists frees' commFree', Shared s' frees' commFree' := by
  have hlt := (List.getElem?_eq_some_iff.mp hp).1
  have hlen := h.lists.length
  dsimp only [freeStep] at hs
  split at hs
  · rename_i hheld
    cases hs
    have hxs : c ∉ frees.getD p [] := fun hin => (h.apart hin).2 hheld
    obtain ⟨xs', ys', hxs', hys', hperm, hsum, hn, hframe⟩ :=
      connPoolFreeConnection_spec (h.lists.own p pool hp) h.lists.comm hxs
        (h.held_notMem hheld)
    refine ⟨frees.set p xs', ys', ?_, ?_, ?_⟩
    · have hsame : forall d, d ∉ [c] -> _ := fun d hd => hframe d (by simpa using hd)
      refine h.lists.set hxs' hys' hsame ?_ hlt
      · rintro q d hd hdc
        cases List.mem_singleton.mp hdc
        exact (h.apart hd).2 hheld
    · intro d
      dsimp only
      rw [isConn_set hp hn, ← h.once d, places_move (by omega)]
      refine Multiset.coe_eq_coe.mpr ?_
      have hback := (List.perm_cons_erase hheld).append_left
        (frees.getD p [] ++ commFree)
      exact hback.trans (List.perm_middle.trans
        (hperm.append_right (s.held.erase c)))
    · have hdebt := h.debt
      have hset := changeSum_set
        (connPoolFreeConnection s.mem pool s.comm c).2.1 hp
      dsimp only
      omega
  · cases hs

theorem FreeLists.setCounters (h : FreeLists s frees commFree) {p : Nat}
    {pool : ConnPoolT} (hp : s.pools[p]? = some pool) (change used : Int)
    (totalIn totalOut : Int) :
    FreeLists
      { s with
        pools := s.pools.set p { pool with changeN := change, usedN := used }
        totalIn := totalIn
        totalOut := totalOut }
      frees commFree where
  length := by simp [h.length]
  own := by
    intro q pool' hq
    by_cases hqp : p = q
    · subst hqp
      rw [List.getElem?_set_self (List.getElem?_eq_some_iff.mp hp).1] at hq
      cases hq
      exact h.own p pool hp
    · rw [List.getElem?_set_ne hqp] at hq
      exact h.own q pool' hq
  comm := h.comm

theorem shared_initStep (h : Shared s frees commFree) {n : Nat} {c r w : Bool}
    {s' : Pools} (hs : initStep s n c r w = some s') :
    exists frees' commFree', Shared s' frees' commFree' := by
  dsimp only [initStep] at hs
  split at hs
  · rename_i hok
    cases hs
    obtain ⟨hlist, hn, hchange, hframe⟩ := freeList_connPoolInit hok
    have hlen := h.lists.length
    -- the new array is apart from every place
    have hold : forall d, d ∈ places frees commFree s.held ->
        d.1 ≠ s.pools.length := by
      intro d hd hdp
      have hcount := h.once d
      have hpos := Multiset.count_pos.mpr hd
      simp only [isConn, hdp, List.getElem?_length] at hcount
      simp only [Bool.false_eq_true, if_false] at hcount
      omega
    have hkeep : forall d, d ∈ places frees commFree s.held ->
        (connPoolInit s.mem zeroPool s.pools.length n c r w).2.1 d = s.mem d :=
      fun d hd => hframe d (hold d hd)
    refine ⟨frees ++ [connArray s.pools.length n], commFree, ⟨?_, ?_, ?_⟩, ?_, ?_⟩
    · simp [hlen]
    · intro q pool hq
      rcases Nat.lt_or_ge q s.pools.length with hlt | hge
      · rw [List.getElem?_append_left hlt] at hq
        rw [List.getD_append _ _ _ _ (by omega)]
        refine (h.lists.own q pool hq).congr fun d hd => hkeep d ?_
        exact Multiset.mem_add.mpr (Or.inl (mem_bagOf_getD hd))
      · have heq : q = s.pools.length := by
          have := (List.getElem?_eq_some_iff.mp hq).1
          simp only [List.length_append, List.length_singleton] at this
          omega
        subst heq
        rw [List.getElem?_concat_length] at hq
        cases hq
        rw [List.getD_append_right _ _ _ _ (by omega), hlen]
        simpa using hlist
    · refine h.lists.comm.congr fun d hd => hkeep d ?_
      exact Multiset.mem_add.mpr (Or.inr (Multiset.mem_add.mpr (Or.inl hd)))
    · intro d
      have hsplit : places (frees ++ [connArray s.pools.length n]) commFree s.held =
          places frees commFree s.held + (connArray s.pools.length n : Multiset Conn) := by
        ext e
        simp only [places, bagOf, List.flatten_append, List.flatten_singleton,
          ← Multiset.coe_add, Multiset.count_add]
        omega
      have honce := h.once d
      dsimp only
      rw [hsplit, Multiset.count_add, honce, count_connArray, isConn_append, hn]
      by_cases hd : d.1 = s.pools.length
      · have hnone : isConn s.pools d = false := by
          simp [isConn, hd]
        simp [hnone, hd]
      · simp [hd]
    · have hdebt := h.debt
      simp only [changeSum, List.map_append, List.sum_append, List.map_cons,
        List.map_nil, List.sum_cons, List.sum_nil, hchange] at hdebt ⊢
      omega
  · cases hs

theorem shared_callStep (h : Shared s frees commFree) {call : Call} {s' : Pools}
    (hs : callStep s call = some s') :
    exists frees' commFree', Shared s' frees' commFree' := by
  cases call with
  | init n c r w => exact shared_initStep h hs
  | getConnection p =>
      obtain ⟨pool, hp, rfl⟩ := Option.map_eq_some_iff.mp hs
      exact shared_getStep h hp
  | freeConnection p c =>
      obtain ⟨pool, hp, hfree⟩ := Option.bind_eq_some_iff.mp hs
      exact shared_freeStep h hp hfree
  | poolOut p n =>
      obtain ⟨pool, hp, rfl⟩ := Option.map_eq_some_iff.mp hs
      refine ⟨frees, commFree, h.lists.setCounters hp _ _ _ _, ?_, ?_⟩
      · intro c
        dsimp only
        rw [isConn_set hp (show (connPoolOut pool n).connectionN = _ from rfl)]
        exact h.once c
      · have hdebt := h.debt
        have hset := changeSum_set (connPoolOut pool n) hp
        simp only [connPoolOut] at hset ⊢
        omega
  | poolIn p n =>
      obtain ⟨pool, hp, rfl⟩ := Option.map_eq_some_iff.mp hs
      refine ⟨frees, commFree, h.lists.setCounters hp _ _ _ _, ?_, ?_⟩
      · intro c
        dsimp only
        rw [isConn_set hp (show (connPoolIn pool n).connectionN = _ from rfl)]
        exact h.once c
      · have hdebt := h.debt
        have hset := changeSum_set (connPoolIn pool n) hp
        simp only [connPoolIn] at hset ⊢
        omega

end Steps

/-!
## Every run
-/

theorem shared_run {m : Slots} {s : Pools}
    (hrun : Reaches callStep Always (commonInit m) s) :
    exists frees commFree, Shared s frees commFree :=
  hrun.invariant (fun s => exists frees commFree, Shared s frees commFree)
    (fun _ _ _ ⟨_, _, h⟩ _ hs => shared_callStep h hs)
    ⟨[], [], shared_commonInit m⟩

/-- After any calls, by any threads in any order, the lists and their counters
agree, every connection is in exactly one place, and the common pool together
with the debts of the pools balances what went in and out. -/
theorem connections_conserved (m : Slots) (s : Pools)
    (hrun : Reaches callStep Always (commonInit m) s) :
    exists frees commFree, FreeLists s frees commFree ∧
      (forall c, (places frees commFree s.held).count c =
        if isConn s.pools c then 1 else 0) ∧
      s.comm.freeConnectionN + changeSum s.pools = s.totalIn - s.totalOut := by
  obtain ⟨frees, commFree, h⟩ := shared_run hrun
  exact ⟨frees, commFree, h.lists, h.once, h.debt⟩

/-- Two threads' pools, and a connection that moves from the first to the
second. -/
def migration : List Call :=
  [Call.init 2 true true true, Call.init 1 true true true, Call.poolIn 0 1,
    Call.poolOut 1 1, Call.getConnection 0, Call.freeConnection 0 (0, 0),
    Call.getConnection 1, Call.getConnection 1]

theorem connections_conserved_migration :
    exists s, s.held = [(0, 0), (1, 0)] ∧
      exists frees commFree, FreeLists s frees commFree ∧
        (forall c, (places frees commFree s.held).count c =
          if isConn s.pools c then 1 else 0) ∧
        s.comm.freeConnectionN + changeSum s.pools = s.totalIn - s.totalOut := by
  let m : Slots := fun _ => initialSlot 0 1 0
  have hheld : (runLabels callStep (commonInit m) migration).map Pools.held =
      some [(0, 0), (1, 0)] := by
    decide +kernel
  obtain ⟨s, hs, hlast⟩ := Option.map_eq_some_iff.mp hheld
  have hrun : Reaches callStep Always (commonInit m)
      (after callStep (commonInit m) migration) := by
    refine (Reaches.refl _).labels (fun _ _ _ => trivial) ?_
    rw [hs]
    rfl
  have hafter : after callStep (commonInit m) migration = s := by
    rw [after, hs]
    rfl
  rw [hafter] at hrun
  exact ⟨s, hlast, connections_conserved m s hrun⟩

end ConnPool
end NgxEpoll
