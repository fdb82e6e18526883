import NgxEpoll.ConnPool.Slots
import Mathlib.Data.List.Nodup

/-!
# Connection pools

`dfs_conn_pool.cpp`: a pool for each thread, and the pool that they share, whose
free connections are lists through `next`.  `put_comm_conn` and `get_comm_conn`
hold the lock of the shared pool from their first to their last access to it.

## The functions
-/

namespace NgxEpoll
namespace ConnPool

open Foundation
open NgxEpoll.Core

/-- `conn_pool_t`; `connections`, `readEvents` and `writeEvents` tell whether the
arrays are allocated. -/
structure ConnPoolT where
  connections : Bool
  connectionN : Nat
  changeN : Int
  freeConnections : Option Conn
  freeConnectionN : Int
  readEvents : Bool
  writeEvents : Bool
  usedN : Int
deriving DecidableEq

def zeroPool : ConnPoolT where
  connections := false
  connectionN := 0
  changeN := 0
  freeConnections := none
  freeConnectionN := 0
  readEvents := false
  writeEvents := false
  usedN := 0

def connPoolCommonInit : ConnPoolT :=
  zeroPool

def connPoolFree (pool : ConnPoolT) : ConnPoolT :=
  { pool with
    connections := false
    readEvents := false
    writeEvents := false
    connectionN := 0
    freeConnectionN := 0 }

def initialSlot (p n i : Nat) : ConnT where
  fd := ngxInvalidFile
  next := if i = n - 1 then none else some (p, i + 1)
  read := { zeroEvent with inst := true }
  write := zeroEvent
  evBase := false
  evTimer := false

def initSlots (m : Slots) (p n : Nat) : Nat -> Slots
  | 0 => m
  | k + 1 => Function.update (initSlots m p n k) (p, k) (initialSlot p n k)

/-- `conn_pool_init`.  The last arguments tell which of the three allocations
succeed. -/
def connPoolInit (m : Slots) (pool : ConnPoolT) (p connectionN : Nat)
    (connections readEvents writeEvents : Bool) : Int × Slots × ConnPoolT :=
  if connectionN = 0 then (ngxError, m, pool)
  else
    let pool := { pool with connectionN := connectionN, connections := connections }
    if !connections then (ngxError, m, pool)
    else
      let pool := { pool with readEvents := readEvents }
      if !readEvents then (ngxError, m, connPoolFree pool)
      else
        let pool := { pool with writeEvents := writeEvents }
        if !writeEvents then (ngxError, m, connPoolFree pool)
        else
          (ngxOk, initSlots m p connectionN connectionN,
            { pool with
              freeConnections := some (p, 0)
              freeConnectionN := connectionN })

def putCommConn (m : Slots) (comm : ConnPoolT) (c : Conn) : Slots × ConnPoolT :=
  (setNext m c comm.freeConnections,
    { comm with
      freeConnectionN := comm.freeConnectionN + 1
      freeConnections := some c })

/-- `get_comm_conn`: the connections, how many, and what is left. -/
def getCommConn (m : Slots) (comm : ConnPoolT) (n : Nat) :
    Option Conn × Int × Slots × ConnPoolT :=
  if comm.freeConnectionN = 0 then (none, 0, m, comm)
  else if comm.freeConnectionN ≤ n then
    (comm.freeConnections, comm.freeConnectionN, m,
      { comm with freeConnections := none, freeConnectionN := 0 })
  else
    let r := walk (nextOf m) n comm.freeConnections comm.freeConnections
    let m' :=
      match r.1 with
      | none => m
      | some plast => setNext m plast none
    (comm.freeConnections, n, m',
      { comm with
        freeConnections := r.2
        freeConnectionN := comm.freeConnectionN - n })

def outConn (m : Slots) (pool : ConnPoolT) (c : Conn) : ConnPoolT :=
  { pool with
    freeConnections := (m c).next
    freeConnectionN := pool.freeConnectionN - 1
    usedN := pool.usedN + 1 }

/-- `conn_pool_get_connection`: the connection, the memory, the pool and the
common pool. -/
def connPoolGetConnection (m : Slots) (pool comm : ConnPoolT) :
    Option Conn × Slots × ConnPoolT × ConnPoolT :=
  match pool.freeConnections with
  | some c => (some c, m, outConn m pool c, comm)
  | none =>
      if 0 ≤ pool.changeN then (none, m, pool, comm)
      else
        let r := getCommConn m comm (-pool.changeN).toNat
        match r.1 with
        | none => (none, r.2.2.1, pool, r.2.2.2)
        | some c =>
            let pool := { pool with
              freeConnections := some c
              freeConnectionN := pool.freeConnectionN + r.2.1
              changeN := pool.changeN + r.2.1 }
            (some c, r.2.2.1, outConn r.2.2.1 pool c, r.2.2.2)

def connPoolFreeConnection (m : Slots) (pool comm : ConnPoolT) (c : Conn) :
    Slots × ConnPoolT × ConnPoolT :=
  if 0 < pool.changeN then
    let r := putCommConn m comm c
    (r.1,
      { pool with usedN := pool.usedN - 1, changeN := pool.changeN - 1 }, r.2)
  else
    (setNext m c pool.freeConnections,
      { pool with
        freeConnections := some c
        freeConnectionN := pool.freeConnectionN + 1
        usedN := pool.usedN - 1 },
      comm)

def connPoolOut (pool : ConnPoolT) (n : Int) : ConnPoolT :=
  { pool with changeN := pool.changeN - n, usedN := pool.usedN - n }

def connPoolIn (pool : ConnPoolT) (n : Int) : ConnPoolT :=
  { pool with changeN := pool.changeN + n, usedN := pool.usedN + n }

/-!
## The lists of free connections
-/

/-- The free connections of a pool are `xs`, and its counter says how many. -/
def FreeList (m : Slots) (pool : ConnPoolT) (xs : List Conn) : Prop :=
  Chain (nextOf m) pool.freeConnections xs ∧ pool.freeConnectionN = xs.length

theorem FreeList.update {m : Slots} {pool : ConnPoolT} {xs : List Conn}
    {c : Conn} {v : ConnT} (hc : c ∉ xs) (h : FreeList m pool xs) :
    FreeList (Function.update m c v) pool xs :=
  ⟨chain_update hc h.1, h.2⟩

theorem FreeList.congr {m m' : Slots} {pool : ConnPoolT} {xs : List Conn}
    (heq : forall c, c ∈ xs -> m' c = m c) (h : FreeList m pool xs) :
    FreeList m' pool xs :=
  ⟨h.1.congr fun c hc => by rw [nextOf, heq c hc, nextOf], h.2⟩

theorem FreeList.pop {m : Slots} {pool : ConnPoolT} {c : Conn} {xs : List Conn}
    (h : FreeList m pool (c :: xs)) : FreeList m (outConn m pool c) xs := by
  refine ⟨h.1.2, ?_⟩
  have hcount := h.2
  simp only [outConn, List.length_cons] at hcount ⊢
  omega

/-- What `get_comm_conn` takes is a prefix of the list, of the length it
reports. -/
theorem getCommConn_spec {m : Slots} {comm : ConnPoolT} {ys : List Conn} {n : Nat}
    (hn : 0 < n) (hlist : FreeList m comm ys) (hnodup : ys.Nodup) :
    let r := getCommConn m comm n
    exists ts us, ys = ts ++ us ∧ Chain (nextOf r.2.2.1) r.1 ts ∧
      r.2.1 = ts.length ∧ FreeList r.2.2.1 r.2.2.2 us ∧
      r.2.2.2.freeConnectionN + r.2.1 = comm.freeConnectionN ∧
      forall c, c ∉ ts -> r.2.2.1 c = m c := by
  obtain ⟨hchain, hcount⟩ := hlist
  dsimp only
  unfold getCommConn
  split
  · rename_i hzero
    have hnil : ys = [] := by
      rw [hcount] at hzero
      exact List.length_eq_zero_iff.mp (by omega)
    subst hnil
    exact ⟨[], [], rfl, rfl, rfl, ⟨hchain, hcount⟩, by simp, fun _ _ => rfl⟩
  · split
    · exact ⟨ys, [], by simp, hchain, hcount, ⟨rfl, rfl⟩, by simp, fun _ _ => rfl⟩
    · rename_i hsome hlt
      rw [hcount] at hlt
      have hlen : n < ys.length := by omega
      -- the loop stops at the last of the first `n` connections
      obtain ⟨ts, plast, hts⟩ : exists ts plast, ys.take n = ts ++ [plast] := by
        have hne : ys.take n ≠ [] := by
          intro hnil
          have := congrArg List.length hnil
          simp only [List.length_take, List.length_nil] at this
          omega
        exact ⟨_, _, (List.dropLast_append_getLast hne).symm⟩
      have htake : (ts ++ [plast]).length = n := by
        rw [← hts, List.length_take]
        omega
      have hys : ys = (ts ++ [plast]) ++ ys.drop n := by
        rw [← hts, List.take_append_drop]
      have hwalk := walk_append (hys ▸ hchain) comm.freeConnections
      rw [htake] at hwalk
      have hlast : (walk (nextOf m) n comm.freeConnections
          comm.freeConnections).1 = some plast := by
        rw [hwalk.1, List.getLast?_concat]
        rfl
      have hsplit : ys = ts ++ plast :: ys.drop n := by
        rw [hys]
        simp [← htake]
      have hdisj : plast ∉ ys.drop n := by
        rw [hsplit] at hnodup
        exact (List.nodup_cons.mp (List.nodup_append.mp hnodup).2.1).1
      refine ⟨ts ++ [plast], ys.drop n, hys, ?_, ?_, ⟨?_, ?_⟩, by simp, ?_⟩
      · simp only [hlast, nextOf_setNext]
        exact Chain.cut (hsplit ▸ hnodup) (hsplit ▸ hchain)
      · rw [htake]
      · simp only [hlast, nextOf_setNext]
        exact hwalk.2.frame hdisj none
      · simp only [List.length_drop]
        omega
      · intro c hc
        simp only [hlast]
        exact setNext_of_ne _ _ (fun heq => hc (by simp [heq]))

/-- What `conn_pool_get_connection` hands out leaves the two lists, and nothing
else does. -/
theorem connPoolGetConnection_spec {m : Slots} {pool comm : ConnPoolT}
    {xs ys : List Conn} (hpool : FreeList m pool xs)
    (hcomm : FreeList m comm ys) (hnodup : (xs ++ ys).Nodup) :
    let r := connPoolGetConnection m pool comm
    exists xs' ys', FreeList r.2.1 r.2.2.1 xs' ∧ FreeList r.2.1 r.2.2.2 ys' ∧
      (xs ++ ys).Perm (r.1.toList ++ (xs' ++ ys')) ∧
      r.2.2.2.freeConnectionN + r.2.2.1.changeN =
        comm.freeConnectionN + pool.changeN ∧
      r.2.2.1.connectionN = pool.connectionN ∧
      forall c, c ∉ ys -> r.2.1 c = m c := by
  dsimp only
  unfold connPoolGetConnection
  cases hfree : pool.freeConnections with
  | some c =>
      have hchain := hpool.1
      rw [hfree] at hchain
      obtain ⟨xs', rfl, hchain'⟩ := chain_some.mp hchain
      exact ⟨xs', ys, hpool.pop, hcomm, List.Perm.refl _, rfl, rfl,
        fun _ _ => rfl⟩
  | none =>
      have hnil : xs = [] := chain_none.mp (hfree ▸ hpool.1)
      subst hnil
      have hzero := hpool.2
      by_cases hchange : 0 ≤ pool.changeN
      · rw [if_pos hchange]
        exact ⟨[], ys, hpool, hcomm, List.Perm.refl _, rfl, rfl, fun _ _ => rfl⟩
      · rw [if_neg hchange]
        obtain ⟨ts, us, rfl, hts, hnum, hus, hcount, hframe⟩ :=
          getCommConn_spec (n := (-pool.changeN).toNat) (by omega) hcomm
            (by simpa using hnodup)
        have hframe' : forall c, c ∉ ts ++ us ->
            (getCommConn m comm (-pool.changeN).toNat).2.2.1 c = m c :=
          fun c hc => hframe c (fun hin => hc (List.mem_append_left us hin))
        dsimp only
        cases hhead : (getCommConn m comm (-pool.changeN).toNat).1 with
        | none =>
            rw [hhead] at hts
            have hnil := chain_none.mp hts
            subst hnil
            refine ⟨[], us, ?_, hus, List.Perm.refl _, ?_, rfl, hframe'⟩
            · exact ⟨hpool.1, hpool.2⟩
            · simp only [List.length_nil] at hnum
              dsimp only
              omega
        | some c =>
            rw [hhead] at hts
            obtain ⟨ts', rfl, hts'⟩ := chain_some.mp hts
            refine ⟨ts', us, ?_, hus, List.Perm.refl _, ?_, rfl, hframe'⟩
            · refine ⟨hts', ?_⟩
              simp only [outConn, hnum, hzero, List.length_cons, List.length_nil]
              omega
            · dsimp only [outConn]
              omega

theorem connPoolFreeConnection_spec {m : Slots} {pool comm : ConnPoolT}
    {xs ys : List Conn} {c : Conn} (hpool : FreeList m pool xs)
    (hcomm : FreeList m comm ys) (hxs : c ∉ xs) (hys : c ∉ ys) :
    let r := connPoolFreeConnection m pool comm c
    exists xs' ys', FreeList r.1 r.2.1 xs' ∧ FreeList r.1 r.2.2 ys' ∧
      (c :: (xs ++ ys)).Perm (xs' ++ ys') ∧
      r.2.2.freeConnectionN + r.2.1.changeN =
        comm.freeConnectionN + pool.changeN ∧
      r.2.1.connectionN = pool.connectionN ∧
      forall d, d ≠ c -> r.1 d = m d := by
  dsimp only
  unfold connPoolFreeConnection putCommConn
  split
  · refine ⟨xs, c :: ys, hpool.update hxs, ⟨?_, ?_⟩, ?_, ?_, rfl, ?_⟩
    · dsimp only
      rw [nextOf_setNext]
      exact hcomm.1.push hys
    · have hcount := hcomm.2
      simp only [List.length_cons]
      omega
    · exact List.perm_middle.symm
    · dsimp only
      omega
    · exact fun d hd => setNext_of_ne _ _ hd
  · refine ⟨c :: xs, ys, ⟨?_, ?_⟩, hcomm.update hys, List.Perm.refl _, rfl, rfl, ?_⟩
    · dsimp only
      rw [nextOf_setNext]
      exact hpool.1.push hxs
    · have hcount := hpool.2
      simp only [List.length_cons]
      omega
    · exact fun d hd => setNext_of_ne _ _ hd

/-!
## A new pool
-/

def connArray (p n : Nat) : List Conn :=
  (List.range n).map (Prod.mk p)

theorem mem_connArray {p n : Nat} {c : Conn} :
    c ∈ connArray p n ↔ c.1 = p ∧ c.2 < n := by
  constructor
  · intro h
    obtain ⟨i, hi, rfl⟩ := List.mem_map.mp h
    exact ⟨rfl, List.mem_range.mp hi⟩
  · rintro ⟨rfl, hi⟩
    exact List.mem_map.mpr ⟨c.2, List.mem_range.mpr hi, rfl⟩

theorem nodup_connArray (p n : Nat) : (connArray p n).Nodup := by
  refine List.Nodup.map ?_ List.nodup_range
  intro i j hij
  exact congrArg Prod.snd hij

theorem initSlots_apply (m : Slots) (p n k : Nat) (c : Conn) :
    initSlots m p n k c =
      if c.1 = p ∧ c.2 < k then initialSlot p n c.2 else m c := by
  induction k with
  | zero => simp [initSlots]
  | succ k ih =>
      rw [initSlots]
      by_cases hc : c = (p, k)
      · rw [hc]
        simp
      · rw [Function.update_of_ne hc, ih]
        have hiff : (c.1 = p ∧ c.2 < k + 1) ↔ (c.1 = p ∧ c.2 < k) := by
          constructor
          · rintro ⟨hp, hlt⟩
            refine ⟨hp, ?_⟩
            by_contra hge
            exact hc (Prod.ext hp (by omega))
          · rintro ⟨hp, hlt⟩
            exact ⟨hp, by omega⟩
        simp only [hiff]

theorem chain_initSlots (m : Slots) (p n k : Nat) (hk : k < n) :
    Chain (nextOf (initSlots m p n n)) (some (p, k))
      ((List.range' k (n - k)).map (Prod.mk p)) := by
  obtain ⟨j, hj⟩ : exists j, n - k = j + 1 := ⟨n - k - 1, by omega⟩
  induction j generalizing k with
  | zero =>
      have hlast : k = n - 1 := by omega
      rw [hj]
      have hnext : nextOf (initSlots m p n n) (p, k) = none := by
        simp [nextOf, initSlots_apply, hk, initialSlot, ← hlast]
      exact ⟨rfl, hnext⟩
  | succ j ih =>
      rw [hj]
      refine ⟨rfl, ?_⟩
      have hnext : nextOf (initSlots m p n n) (p, k) = some (p, k + 1) := by
        have hne : k ≠ n - 1 := by omega
        simp [nextOf, initSlots_apply, hk, initialSlot, hne]
      have hrest := ih (k + 1) (by omega) (by omega)
      rw [show n - (k + 1) = j + 1 by omega] at hrest
      rw [hnext]
      exact hrest

theorem freeList_connPoolInit {m : Slots} {p n : Nat} {c r w : Bool}
    (hok : (connPoolInit m zeroPool p n c r w).1 = ngxOk) :
    let i := connPoolInit m zeroPool p n c r w
    FreeList i.2.1 i.2.2 (connArray p n) ∧ i.2.2.connectionN = n ∧
      i.2.2.changeN = 0 ∧ forall d : Conn, d.1 ≠ p -> i.2.1 d = m d := by
  dsimp only
  unfold connPoolInit at hok ⊢
  by_cases hn : n = 0
  · rw [if_pos hn] at hok
    cases hok
  · rw [if_neg hn] at hok ⊢
    cases c <;> cases r <;> cases w <;> try cases hok
    refine ⟨⟨?_, ?_⟩, rfl, rfl, ?_⟩
    · have hchain := chain_initSlots m p n 0 (by omega)
      rw [connArray, List.range_eq_range']
      exact hchain
    · simp [connArray]
    · intro d hd
      simp [initSlots_apply, hd]

end ConnPool
end NgxEpoll
