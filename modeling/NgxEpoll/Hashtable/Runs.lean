import NgxEpoll.Foundation.Chains
import NgxEpoll.Foundation.Runs
import NgxEpoll.Hashtable.Functions

/-!
# Runs of the hash table

A table from `dfs_hashtable_init` and any sequence of `dfs_hashtable_join` and
`dfs_hashtable_remove_link`, where the memory changes in between but for the keys of
the links that are present.

## Calls
-/

namespace NgxEpoll
namespace Hashtable

open Foundation NgxEpoll.Core

structure System where
  world : World
  present : List Nat

inductive Call where
  /-- A link is given its key and joined. -/
  | join (hl key len : Nat)
  | remove (hl : Nat)
  | write (addr : Nat) (bytes : List Byte)

def World.setKey (w : World) (hl key len : Nat) : World :=
  { w with link := Function.update w.link hl { w.link hl with key := key, len := len } }

def step (s : System) : Call -> Option System
  | Call.join hl key len =>
      (join (s.world.setKey hl key len) hl).map fun r =>
        ⟨r.2, if r.1 then hl :: s.present else s.present⟩
  | Call.remove hl =>
      (removeLink s.world hl).map fun r =>
        ⟨r.2, if r.1 then s.present.erase hl else s.present⟩
  | Call.write addr bytes =>
      some { s with world := { s.world with mem := store s.world.mem addr bytes } }

def World.slot (w : World) (hl : Nat) : Nat :=
  w.hash (w.link hl).key (w.link hl).len

/-- The hash of a key of this length is that of its bytes. -/
def Whole (hash : HashFn) (len : Nat) : Prop :=
  hash = HashFn.key8 -> len % 8 = 0

instance (hash : HashFn) (len : Nat) : Decidable (Whole hash len) :=
  inferInstanceAs (Decidable (_ -> _))

/-- Only links that are not present are joined, and the keys of those that are stay. -/
def Honest (s : System) : Call -> Prop
  | Call.join hl _ _ => hl ∉ s.present
  | Call.remove _ => True
  | Call.write addr bytes => forall hl, hl ∈ s.present ->
      Apart (s.world.link hl).key (s.world.link hl).len addr bytes.length

/-- Moreover a key is not null and has a hash of its own, the count is in range, and so
is the index of a link that is removed. -/
def Tame (s : System) : Call -> Prop
  | Call.join hl key len => hl ∉ s.present ∧ key ≠ 0 ∧ Whole s.world.table.hash len ∧
      s.world.table.count < 2 ^ 31 - 1
  | Call.remove hl => (s.world.link hl).key ≠ 0 ∧ s.world.slot hl < 2 ^ 31
  | Call.write addr bytes => forall hl, hl ∈ s.present ->
      Apart (s.world.link hl).key (s.world.link hl).len addr bytes.length

instance (s : System) (c : Call) : Decidable (Honest s c) :=
  match c with
  | Call.join hl _ _ => inferInstanceAs (Decidable (hl ∉ s.present))
  | Call.remove _ => inferInstanceAs (Decidable True)
  | Call.write _ _ => inferInstanceAs (Decidable (forall hl, hl ∈ s.present -> _))

instance (s : System) (c : Call) : Decidable (Tame s c) :=
  match c with
  | Call.join hl _ _ => inferInstanceAs (Decidable (hl ∉ s.present ∧ _))
  | Call.remove _ => inferInstanceAs (Decidable (_ ∧ _))
  | Call.write _ _ => inferInstanceAs (Decidable (forall hl, hl ∈ s.present -> _))

/-!
## What is asked of every state
-/

/-- The first `len` bytes behind the key of a link are those of `key`. -/
def Begins (w : World) (key len hl : Nat) : Prop :=
  load w.mem key len = load w.mem (w.link hl).key len

/-- The link has the key: as many bytes, and the same ones. -/
def HasKey (w : World) (key len hl : Nat) : Prop :=
  (w.link hl).len = len ∧ Begins w key len hl

instance (w : World) (key len hl : Nat) : Decidable (Begins w key len hl) :=
  inferInstanceAs (Decidable (_ = _))

instance (w : World) (key len hl : Nat) : Decidable (HasKey w key len hl) :=
  inferInstanceAs (Decidable (_ ∧ _))

def newest (s : System) (key len : Nat) : Option Nat :=
  s.present.find? fun hl => HasKey s.world key len hl

/-- A link of another length is in the bucket of the key and begins with its bytes, and
it was joined after every link with the key. -/
def Shadowed (s : System) (key len : Nat) : Prop :=
  exists pre hl post, s.present = pre ++ hl :: post ∧
    s.world.slot hl = s.world.hash key len ∧ Begins s.world key len hl ∧
    (s.world.link hl).len ≠ len ∧ forall g, g ∈ pre -> ¬ HasKey s.world key len g

def World.next (w : World) (hl : Nat) : Option Nat :=
  (w.link hl).next

/-- The links of every bucket, in the order they were joined. -/
def Buckets (w : World) (present : List Nat) : Prop :=
  forall i, i < w.table.size ->
    Chain w.next (w.table.buckets i) (present.filter fun hl => w.slot hl = i)

/-- The table has the links that are present and counts them, a link is removed when it
is present, and only that one, and a key is looked up as it should be exactly when it
is not shadowed. -/
structure Proper (s : System) : Prop where
  buckets : Buckets s.world s.present
  count : s.world.table.count = s.present.length
  removed : forall hl, (s.world.link hl).key ≠ 0 -> s.world.slot hl < 2 ^ 31 -> exists w,
    removeLink s.world hl = some (decide (hl ∈ s.present), w) ∧
      (hl ∉ s.present -> w = s.world) ∧ Buckets w (s.present.erase hl)
  lookup : forall key len, key ≠ 0 -> Whole s.world.table.hash len ->
    (lookup s.world key len = some (newest s key len) ↔ ¬ Shadowed s key len)

/-!
## The invariant
-/

structure Sound (s : System) : Prop where
  buckets : Buckets s.world s.present
  count : s.world.table.count = s.present.length
  nodup : s.present.Nodup
  null : 0 ∉ s.present
  keys : forall hl, hl ∈ s.present -> (s.world.link hl).key ≠ 0 ∧
    Whole s.world.table.hash (s.world.link hl).len
  size : 0 < s.world.table.size ∧ s.world.table.slots = s.world.table.size

variable {s : System} {w : World} {hl i turns : Nat} {head link : Option Nat}
  {pre post xs : List Nat}

theorem World.hash_lt (w : World) (key len : Nat) (hsize : 0 < w.table.size) :
    w.hash key len < w.table.size :=
  w.table.hash.hash_lt _ _ _ hsize

theorem hash_eq {w w' : World} {key key' len : Nat} (htable : w'.table.hash = w.table.hash)
    (hsize : w'.table.size = w.table.size) (hpos : 0 < w.table.size)
    (hwhole : Whole w.table.hash len)
    (h : load w.mem key len = load w'.mem key' len) : w.hash key len = w'.hash key' len := by
  unfold World.hash
  rw [htable, hsize]
  exact (local_of_whole hpos hwhole _ _ _ _ h).2

theorem World.setNext_next (w : World) (hl : Nat) (next : Option Nat) :
    (w.setNext hl next).next = Function.update w.next hl next := by
  funext x
  by_cases hx : x = hl
  · subst hx
    simp [World.setNext, World.next]
  · simp [World.setNext, World.next, hx]

theorem World.setNext_key (w : World) (hl : Nat) (next : Option Nat) (x : Nat) :
    ((w.setNext hl next).link x).key = (w.link x).key ∧
      ((w.setNext hl next).link x).len = (w.link x).len := by
  by_cases hx : x = hl
  · subst hx
    simp [World.setNext]
  · simp [World.setNext, hx]

/-!
## Lookup
-/

theorem lookupFrom_chain {key len : Nat}
    (hchain : Chain w.next head xs) (hturns : xs.length ≤ turns)
    (hnodup : xs.Nodup) (hkeys : forall x, x ∈ xs -> (w.link x).key ≠ 0) :
    lookupFrom w key len turns head = some (xs.find? fun x => Begins w key len x) := by
  induction xs generalizing turns head with
  | nil =>
      obtain rfl : head = none := hchain
      cases turns with
      | zero => rfl
      | succ turns => rfl
  | cons x xs ih =>
      obtain ⟨rfl, hchain⟩ := hchain
      obtain ⟨hx, hnodup⟩ := List.nodup_cons.mp hnodup
      cases turns with
      | zero => cases hturns
      | succ turns =>
          have hself : (w.link x).next ≠ some x := by
            intro hnext
            rw [World.next, hnext] at hchain
            obtain ⟨ys, rfl, -⟩ := chain_some.mp hchain
            exact hx (List.mem_cons_self ..)
          unfold lookupFrom
          dsimp only
          rw [if_neg (hkeys x (List.mem_cons_self ..))]
          by_cases hbegins : load w.mem key len = load w.mem (w.link x).key len
          · rw [if_pos hbegins, List.find?_cons_of_pos]
            exact decide_eq_true (show Begins w key len x from hbegins)
          · have hskip : (x :: xs).find? (fun x => decide (Begins w key len x)) =
                xs.find? fun x => decide (Begins w key len x) :=
              List.find?_cons_of_neg fun h => hbegins (of_decide_eq_true h)
            rw [if_neg hbegins, if_neg hself, hskip]
            exact ih hchain (Nat.le_of_succ_le_succ hturns) hnodup
              fun y hy => hkeys y (List.mem_cons_of_mem _ hy)

/-- Of two properties, one of which implies the other, the first elements that have them
are the same exactly when none with only the weaker one comes first. -/
theorem find_eq_find_iff {α : Type} {p q : α -> Bool} {xs : List α}
    (himp : forall x, q x = true -> p x = true) :
    xs.find? p = xs.find? q ↔
      ¬ exists pre x post, xs = pre ++ x :: post ∧ p x = true ∧ q x = false ∧
        forall g, g ∈ pre -> q g = false := by
  induction xs with
  | nil => exact iff_of_true rfl (by rintro ⟨pre, x, post, h, -⟩; cases pre <;> cases h)
  | cons y xs ih =>
      by_cases hq : q y = true
      · rw [List.find?_cons_of_pos (himp y hq), List.find?_cons_of_pos hq]
        refine iff_of_true rfl ?_
        rintro ⟨pre, x, post, heq, -, hx, hpre⟩
        cases pre with
        | nil =>
            cases heq
            rw [hq] at hx
            cases hx
        | cons g pre =>
            cases heq
            have hg := hpre y (List.mem_cons_self ..)
            rw [hq] at hg
            cases hg
      rw [Bool.not_eq_true] at hq
      by_cases hp : p y = true
      · rw [List.find?_cons_of_pos hp]
        refine iff_of_false (fun heq => ?_)
          (fun h => h ⟨[], y, xs, rfl, hp, hq, nofun⟩)
        have hy := List.find?_some heq.symm
        rw [hq] at hy
        cases hy
      · rw [List.find?_cons_of_neg hp, List.find?_cons_of_neg (by rw [hq]; decide), ih]
        refine not_congr ⟨?_, ?_⟩
        · rintro ⟨pre, x, post, rfl, hx⟩
          exact ⟨y :: pre, x, post, rfl, hx.1, hx.2.1, List.forall_mem_cons.mpr ⟨hq, hx.2.2⟩⟩
        · rintro ⟨pre, x, post, heq, hx⟩
          cases pre with
          | nil =>
              cases heq
              exact absurd hx.1 hp
          | cons g pre =>
              cases heq
              exact ⟨pre, x, post, rfl, hx.1, hx.2.1,
                (List.forall_mem_cons.mp hx.2.2).2⟩

/-- What `dfs_hashtable_lookup` finds: the first link of the bucket that begins with the
bytes of the key. -/
theorem Sound.lookup_eq (h : Sound s) {key len : Nat} (hkey : key ≠ 0) :
    lookup s.world key len = some (s.present.find? fun x =>
      decide (s.world.slot x = s.world.hash key len) && decide (Begins s.world key len x)) := by
  have hlt := s.world.hash_lt key len h.size.1
  unfold lookup
  dsimp only
  rw [if_neg hkey, if_neg (by rw [h.size.2]; omega)]
  have hkeys : forall x, x ∈ (s.present.filter fun x =>
      s.world.slot x = s.world.hash key len) -> (s.world.link x).key ≠ 0 :=
    fun x hx => (h.keys x (List.mem_of_mem_filter hx)).1
  have hturns : (s.present.filter fun x =>
      s.world.slot x = s.world.hash key len).length ≤ s.world.table.count.toNat := by
    rw [h.count]
    exact List.length_filter_le _ _
  rw [lookupFrom_chain (h.buckets _ hlt) hturns (h.nodup.filter _) hkeys,
    List.find?_filter]
  simp only [decide_eq_true_eq, Bool.decide_and]

theorem Sound.lookup_iff (h : Sound s) {key len : Nat} (hkey : key ≠ 0)
    (hwhole : Whole s.world.table.hash len) :
    lookup s.world key len = some (newest s key len) ↔ ¬ Shadowed s key len := by
  rw [h.lookup_eq hkey, Option.some_inj]
  have himp : forall x, decide (HasKey s.world key len x) = true ->
      (decide (s.world.slot x = s.world.hash key len) &&
        decide (Begins s.world key len x)) = true := by
    intro x hx
    obtain ⟨hlen, hbegins⟩ := of_decide_eq_true hx
    have hslot : s.world.slot x = s.world.hash key len := by
      unfold World.slot
      rw [hlen]
      exact hash_eq rfl rfl h.size.1 hwhole hbegins.symm
    rw [Bool.and_eq_true]
    exact ⟨decide_eq_true hslot, decide_eq_true hbegins⟩
  refine (find_eq_find_iff himp).trans (not_congr ?_)
  unfold Shadowed
  simp only [Bool.and_eq_true, decide_eq_true_eq, decide_eq_false_iff_not]
  refine exists_congr fun pre => exists_congr fun x => exists_congr fun post => ?_
  constructor
  · rintro ⟨heq, ⟨hslot, hbegins⟩, hnot, hpre⟩
    exact ⟨heq, hslot, hbegins, fun hlen => hnot ⟨hlen, hbegins⟩, hpre⟩
  · rintro ⟨heq, hslot, hbegins, hlen, hpre⟩
    exact ⟨heq, ⟨hslot, hbegins⟩, fun hkey => hlen hkey.1, hpre⟩

/-!
## Removal
-/

/-- The state after a link of bucket `i` is taken out; `link` is the link in front of
it, or none for the bucket. -/
def unlinked (w : World) (hl i : Nat) (link : Option Nat) : World :=
  let w' :=
    match link with
    | none => w.setBucket i (w.link hl).next
    | some p => w.setNext p (w.link hl).next
  { w' with table := { w'.table with count := w'.table.count - 1 } }

theorem removeFrom_found (hchain : Chain w.next head (pre ++ hl :: post)) (hnot : hl ∉ pre)
    (hturns : pre.length < turns) :
    removeFrom w hl i turns link head =
      some (true, unlinked w hl i (pre.getLast?.or link)) := by
  induction pre generalizing head link turns with
  | nil =>
      obtain ⟨rfl, -⟩ := hchain
      obtain ⟨turns, rfl⟩ := Nat.exists_eq_succ_of_ne_zero (Nat.ne_of_gt hturns)
      unfold removeFrom
      exact if_pos rfl
  | cons x pre ih =>
      obtain ⟨rfl, hchain⟩ := hchain
      rw [List.mem_cons, not_or] at hnot
      rw [List.length_cons] at hturns
      obtain ⟨turns, rfl⟩ := Nat.exists_eq_succ_of_ne_zero (show turns ≠ 0 by omega)
      unfold removeFrom
      rw [if_neg (Ne.symm hnot.1)]
      have hrest : removeFrom w hl i turns (some x) (w.next x) =
          some (true, unlinked w hl i (pre.getLast?.or (some x))) :=
        ih hchain hnot.2 (Nat.lt_of_succ_lt_succ hturns)
      refine hrest.trans ?_
      rw [List.getLast?_cons]
      cases pre.getLast? with
      | none => rfl
      | some y => rfl

theorem removeFrom_absent (hchain : Chain w.next head xs) (hnot : hl ∉ xs)
    (hturns : xs.length ≤ turns) : removeFrom w hl i turns link head = some (false, w) := by
  induction xs generalizing head link turns with
  | nil =>
      obtain rfl : head = none := hchain
      cases turns with
      | zero => rfl
      | succ turns => rfl
  | cons x xs ih =>
      obtain ⟨rfl, hchain⟩ := hchain
      rw [List.mem_cons, not_or] at hnot
      cases turns with
      | zero => cases hturns
      | succ turns =>
          unfold removeFrom
          rw [if_neg (Ne.symm hnot.1)]
          exact ih hchain hnot.2 (Nat.le_of_succ_le_succ hturns)

theorem unlinked_same (w : World) (hl i : Nat) (link : Option Nat) :
    (unlinked w hl i link).table.size = w.table.size ∧
      (unlinked w hl i link).table.slots = w.table.slots ∧
      (unlinked w hl i link).table.hash = w.table.hash ∧
      (unlinked w hl i link).table.count = w.table.count - 1 ∧
      (unlinked w hl i link).mem = w.mem ∧
      forall x, ((unlinked w hl i link).link x).key = (w.link x).key ∧
        ((unlinked w hl i link).link x).len = (w.link x).len := by
  cases link with
  | none => exact ⟨rfl, rfl, rfl, rfl, rfl, fun x => ⟨rfl, rfl⟩⟩
  | some p => exact ⟨rfl, rfl, rfl, rfl, rfl, w.setNext_key p (w.link hl).next⟩

theorem unlinked_slot (w : World) (hl i : Nat) (link : Option Nat) (x : Nat) :
    (unlinked w hl i link).slot x = w.slot x := by
  obtain ⟨hsize, -, hhash, -, hmem, hlink⟩ := unlinked_same w hl i link
  unfold World.slot World.hash
  rw [hsize, hhash, hmem, (hlink x).1, (hlink x).2]

theorem unlinked_next (w : World) (hl i : Nat) (link : Option Nat) :
    (unlinked w hl i link).next =
      match link with
      | none => w.next
      | some p => Function.update w.next p (w.next hl) := by
  cases link with
  | none => rfl
  | some p => exact w.setNext_next p (w.next hl)

theorem unlinked_chain (hnodup : (pre ++ hl :: post).Nodup)
    (hchain : Chain w.next (w.table.buckets i) (pre ++ hl :: post)) :
    Chain (unlinked w hl i pre.getLast?).next ((unlinked w hl i pre.getLast?).table.buckets i)
      (pre ++ post) := by
  rw [unlinked_next]
  rcases pre.eq_nil_or_concat' with rfl | ⟨init, p, rfl⟩
  · have hbucket : (unlinked w hl i none).table.buckets i = w.next hl :=
      Function.update_self _ _ _
    rw [List.getLast?_nil, hbucket]
    exact hchain.2
  · rw [List.getLast?_concat]
    rw [List.append_assoc, List.singleton_append] at hnodup hchain ⊢
    exact hchain.bypass hnodup

theorem unlinked_other {j : Nat} (hj : j ≠ i) (hpre : forall p, p ∈ pre -> p ∉ xs)
    (hchain : Chain w.next (w.table.buckets j) xs) :
    Chain (unlinked w hl i pre.getLast?).next ((unlinked w hl i pre.getLast?).table.buckets j)
      xs := by
  rw [unlinked_next]
  cases hlast : pre.getLast? with
  | none =>
      have hbucket : (unlinked w hl i none).table.buckets j = w.table.buckets j :=
        Function.update_of_ne hj _ _
      rw [hbucket]
      exact hchain
  | some p => exact hchain.frame (hpre p (List.mem_of_getLast? hlast)) _

theorem Sound.unlinked_buckets (h : Sound s)
    (hsplit : s.present.filter (fun x => s.world.slot x = s.world.slot hl) =
      pre ++ hl :: post) :
    Buckets (unlinked s.world hl (s.world.slot hl) pre.getLast?) (s.present.erase hl) := by
  have hnodup : (pre ++ hl :: post).Nodup := hsplit ▸ h.nodup.filter _
  have hsame := unlinked_same s.world hl (s.world.slot hl) pre.getLast?
  intro j hj
  rw [hsame.1] at hj
  have hchain := h.buckets j hj
  have hfilter : (s.present.erase hl).filter (fun x =>
      (unlinked s.world hl (s.world.slot hl) pre.getLast?).slot x = j) =
        (s.present.filter fun x => s.world.slot x = j).erase hl := by
    rw [List.erase_filter]
    exact List.filter_congr fun x _ => by rw [unlinked_slot]
  rw [hfilter]
  by_cases hji : j = s.world.slot hl
  · subst hji
    rw [hsplit] at hchain ⊢
    have hpre : hl ∉ pre := fun hmem =>
      (List.nodup_append.mp hnodup).2.2 hl hmem hl (List.mem_cons_self ..) rfl
    rw [List.erase_append_right _ hpre, List.erase_cons_head]
    exact unlinked_chain hnodup hchain
  · have hother : hl ∉ s.present.filter fun x => s.world.slot x = j := fun hmem =>
      hji (of_decide_eq_true (List.mem_filter.mp hmem).2).symm
    rw [List.erase_of_not_mem hother]
    refine unlinked_other hji (fun p hp hmem => hji ?_) hchain
    have hmemp : p ∈ s.present.filter fun x => s.world.slot x = s.world.slot hl :=
      hsplit ▸ List.mem_append_left _ hp
    exact (of_decide_eq_true (List.mem_filter.mp hmem).2).symm.trans
      (of_decide_eq_true (List.mem_filter.mp hmemp).2)

theorem removeLink_eq (hnull : hl ≠ 0) (hslot : w.slot hl < 2 ^ 31)
    (hroom : w.slot hl < w.table.slots) :
    removeLink w hl = removeFrom w hl (w.slot hl) w.table.count.toNat none
      (w.table.buckets (w.slot hl)) := by
  have hindex : ((w.hash (w.link hl).key (w.link hl).len : Int) + 2 ^ 31) % 2 ^ 32 - 2 ^ 31 =
      (w.slot hl : Int) := by
    unfold World.slot at *
    omega
  unfold removeLink
  rw [if_neg hnull]
  dsimp only
  rw [hindex, Int.toNat_natCast, if_neg (by omega)]

theorem Sound.slot_lt (h : Sound s) (hl : Nat) : s.world.slot hl < s.world.table.size :=
  s.world.hash_lt _ _ h.size.1

theorem Sound.removeLink_absent (h : Sound s) (hslot : s.world.slot hl < 2 ^ 31)
    (hnot : hl ∉ s.present) : removeLink s.world hl = some (false, s.world) := by
  by_cases hnull : hl = 0
  · unfold removeLink
    exact if_pos hnull
  have hlt := h.slot_lt hl
  rw [removeLink_eq hnull hslot (by rw [h.size.2]; exact hlt)]
  refine removeFrom_absent (h.buckets _ hlt) (fun hmem => hnot (List.mem_of_mem_filter hmem)) ?_
  rw [h.count]
  exact List.length_filter_le _ _

theorem Sound.removeLink_present (h : Sound s) (hslot : s.world.slot hl < 2 ^ 31)
    (hin : hl ∈ s.present) :
    exists pre post,
      s.present.filter (fun x => s.world.slot x = s.world.slot hl) = pre ++ hl :: post ∧
        removeLink s.world hl =
          some (true, unlinked s.world hl (s.world.slot hl) pre.getLast?) := by
  have hlt := h.slot_lt hl
  have hmem : hl ∈ s.present.filter fun x => s.world.slot x = s.world.slot hl :=
    List.mem_filter.mpr ⟨hin, decide_eq_true rfl⟩
  obtain ⟨pre, post, hsplit⟩ := List.append_of_mem hmem
  refine ⟨pre, post, hsplit, ?_⟩
  have hpre : hl ∉ pre := fun hmem =>
    (List.nodup_append.mp (hsplit ▸ h.nodup.filter _)).2.2 hl hmem hl
      (List.mem_cons_self ..) rfl
  have hturns : pre.length < s.world.table.count.toNat := by
    have hle := List.length_filter_le (fun x => decide (s.world.slot x = s.world.slot hl))
      s.present
    rw [hsplit, List.length_append, List.length_cons] at hle
    rw [h.count, Int.toNat_natCast]
    omega
  rw [removeLink_eq (ne_of_mem_of_not_mem hin h.null) hslot (by rw [h.size.2]; exact hlt),
    removeFrom_found (hsplit ▸ h.buckets _ hlt) hpre hturns, Option.or_none]

theorem Sound.unlinked (h : Sound s)
    (hsplit : s.present.filter (fun x => s.world.slot x = s.world.slot hl) =
      pre ++ hl :: post) (hin : hl ∈ s.present) :
    Sound ⟨unlinked s.world hl (s.world.slot hl) pre.getLast?, s.present.erase hl⟩ := by
  obtain ⟨hsize, hslots, hhash, hcount, -, hlink⟩ :=
    unlinked_same s.world hl (s.world.slot hl) pre.getLast?
  have hpos : 0 < s.present.length := List.length_pos_of_mem hin
  constructor
  · exact h.unlinked_buckets hsplit
  · dsimp only
    rw [hcount, h.count, List.length_erase_of_mem hin]
    omega
  · exact h.nodup.erase hl
  · exact fun hmem => h.null (List.mem_of_mem_erase hmem)
  · intro x hx
    dsimp only
    rw [(hlink x).1, (hlink x).2, hhash]
    exact h.keys x (List.mem_of_mem_erase hx)
  · exact ⟨hsize ▸ h.size.1, hslots.trans (h.size.2.trans hsize.symm)⟩

/-!
## Joining
-/

def joined (w : World) (hl : Nat) : World :=
  let i := w.slot hl
  let w' := (w.setNext hl (w.table.buckets i)).setBucket i (some hl)
  { w' with table := { w'.table with count := w'.table.count + 1 } }

theorem join_eq (hnull : hl ≠ 0) (hroom : w.slot hl < w.table.slots)
    (hcount : w.table.count < 2 ^ 31 - 1) : join w hl = some (true, joined w hl) := by
  have hindex : ¬ w.table.slots ≤ w.hash (w.link hl).key (w.link hl).len :=
    Nat.not_le.mpr hroom
  unfold join
  dsimp only
  rw [if_neg hnull, if_neg hindex]
  exact if_pos hcount

theorem joined_next (w : World) (hl : Nat) :
    (joined w hl).next = Function.update w.next hl (w.table.buckets (w.slot hl)) :=
  w.setNext_next hl (w.table.buckets (w.slot hl))

theorem joined_link (w : World) (hl x : Nat) :
    ((joined w hl).link x).key = (w.link x).key ∧
      ((joined w hl).link x).len = (w.link x).len :=
  w.setNext_key hl (w.table.buckets (w.slot hl)) x

theorem joined_slot (w : World) (hl x : Nat) : (joined w hl).slot x = w.slot x := by
  obtain ⟨hkey, hlen⟩ := joined_link w hl x
  unfold World.slot
  rw [hkey, hlen]
  rfl

theorem Sound.joined_buckets (h : Sound s) (hnot : hl ∉ s.present) :
    Buckets (joined s.world hl) (hl :: s.present) := by
  intro j hj
  have hchain := h.buckets j hj
  have hother : hl ∉ s.present.filter fun x => s.world.slot x = j :=
    fun hmem => hnot (List.mem_of_mem_filter hmem)
  have hfilter : (hl :: s.present).filter (fun x => (joined s.world hl).slot x = j) =
      (hl :: s.present).filter fun x => s.world.slot x = j :=
    List.filter_congr fun x _ => by rw [joined_slot]
  rw [hfilter, joined_next, List.filter_cons]
  by_cases hji : s.world.slot hl = j
  · subst hji
    have hbucket : (joined s.world hl).table.buckets (s.world.slot hl) = some hl :=
      Function.update_self _ _ _
    rw [hbucket, if_pos (decide_eq_true rfl)]
    exact hchain.push hother
  · have hbucket : (joined s.world hl).table.buckets j = s.world.table.buckets j :=
      Function.update_of_ne (Ne.symm hji) _ _
    rw [hbucket, decide_eq_false hji, if_neg Bool.false_ne_true]
    exact hchain.frame hother _

theorem Sound.joined (h : Sound s) (hnot : hl ∉ s.present) (hnull : hl ≠ 0)
    (hkey : (s.world.link hl).key ≠ 0)
    (hwhole : Whole s.world.table.hash (s.world.link hl).len) :
    Sound ⟨joined s.world hl, hl :: s.present⟩ := by
  constructor
  · exact h.joined_buckets hnot
  · change s.world.table.count + 1 = ((hl :: s.present).length : Int)
    rw [h.count, List.length_cons]
    rfl
  · exact List.nodup_cons.mpr ⟨hnot, h.nodup⟩
  · exact List.not_mem_cons_of_ne_of_not_mem (Ne.symm hnull) h.null
  · intro x hx
    obtain ⟨hkeyx, hlenx⟩ := joined_link s.world hl x
    dsimp only
    rw [hkeyx, hlenx]
    cases List.mem_cons.mp hx with
    | inl heq =>
        subst heq
        exact ⟨hkey, hwhole⟩
    | inr hmem => exact h.keys x hmem
  · exact h.size

/-!
## Other steps
-/

theorem Sound.frame (h : Sound s) {w : World} (htable : w.table = s.world.table)
    (hnext : w.next = s.world.next)
    (hlink : forall x, x ∈ s.present -> (w.link x).key = (s.world.link x).key ∧
      (w.link x).len = (s.world.link x).len ∧ w.slot x = s.world.slot x) :
    Sound ⟨w, s.present⟩ := by
  constructor
  · intro j hj
    dsimp only at hj ⊢
    rw [htable] at hj
    rw [htable, hnext, List.filter_congr fun x hx => by rw [(hlink x hx).2.2]]
    exact h.buckets j hj
  · exact htable ▸ h.count
  · exact h.nodup
  · exact h.null
  · intro x hx
    obtain ⟨hkey, hlen, -⟩ := hlink x hx
    dsimp only
    rw [hkey, hlen, htable]
    exact h.keys x hx
  · exact htable ▸ h.size

theorem Sound.setKey (h : Sound s) (hnot : hl ∉ s.present) (key len : Nat) :
    Sound ⟨s.world.setKey hl key len, s.present⟩ := by
  refine h.frame rfl ?_ fun x hx => ?_
  · funext x
    by_cases hx : x = hl
    · subst hx
      simp [World.next, World.setKey]
    · simp [World.next, World.setKey, hx]
  · have hlink : (s.world.setKey hl key len).link x = s.world.link x :=
      Function.update_of_ne (ne_of_mem_of_not_mem hx hnot) _ _
    unfold World.slot
    rw [hlink]
    exact ⟨rfl, rfl, rfl⟩

theorem Sound.write (h : Sound s) {addr : Nat} {bytes : List Byte}
    (hapart : forall hl, hl ∈ s.present ->
      Apart (s.world.link hl).key (s.world.link hl).len addr bytes.length) :
    Sound ⟨{ s.world with mem := store s.world.mem addr bytes }, s.present⟩ := by
  refine h.frame rfl rfl fun x hx => ⟨rfl, rfl, ?_⟩
  have hload := load_store_of_apart s.world.mem addr bytes _ _ (hapart x hx)
  have hslot : s.world.slot x =
      World.slot { s.world with mem := store s.world.mem addr bytes } x :=
    hash_eq rfl rfl h.size.1 (h.keys x hx).2 hload.symm
  exact hslot.symm

theorem Sound.step (h : Sound s) {c : Call} (hc : Tame s c) :
    exists s', step s c = some s' ∧ Sound s' := by
  cases c with
  | join hl key len =>
      obtain ⟨hnot, hkey, hwhole, hcount⟩ := hc
      have hset := h.setKey hnot key len
      have hlink : (s.world.setKey hl key len).link hl =
          { s.world.link hl with key := key, len := len } := Function.update_self _ _ _
      by_cases hnull : hl = 0
      · refine ⟨⟨s.world.setKey hl key len, s.present⟩, ?_, hset⟩
        rw [Hashtable.step, join, if_pos hnull]
        rfl
      · have hlt := hset.slot_lt hl
        have hjoined := hset.joined hnot hnull (by dsimp only; rw [hlink]; exact hkey)
          (by dsimp only; rw [hlink]; exact hwhole)
        refine ⟨_, ?_, hjoined⟩
        have hroom : (s.world.setKey hl key len).slot hl < s.world.table.slots := by
          rw [h.size.2]
          exact hlt
        rw [Hashtable.step, join_eq hnull hroom hcount]
        rfl
  | remove hl =>
      obtain ⟨-, hslot⟩ := hc
      by_cases hin : hl ∈ s.present
      · obtain ⟨pre, post, hsplit, heq⟩ := h.removeLink_present hslot hin
        refine ⟨_, ?_, h.unlinked hsplit hin⟩
        rw [Hashtable.step, heq]
        rfl
      · refine ⟨s, ?_, h⟩
        rw [Hashtable.step, h.removeLink_absent hslot hin]
        rfl
  | write addr bytes => exact ⟨_, rfl, h.write hc⟩

theorem Sound.proper (h : Sound s) : Proper s := by
  refine ⟨h.buckets, h.count, fun hl _ hslot => ?_, fun key len hkey hwhole => ?_⟩
  · by_cases hin : hl ∈ s.present
    · obtain ⟨pre, post, hsplit, heq⟩ := h.removeLink_present hslot hin
      rw [decide_eq_true hin]
      exact ⟨_, heq, fun hnot => absurd hin hnot, h.unlinked_buckets hsplit⟩
    · rw [decide_eq_false hin, List.erase_of_not_mem hin]
      exact ⟨_, h.removeLink_absent hslot hin, fun _ => rfl, h.buckets⟩
  · exact h.lookup_iff hkey hwhole

/-!
## Every run
-/

theorem init_sound {hashSz : Nat} {hash : HashFn} {calloc : Bool} {table : HashtableT}
    (hinit : init hashSz hash calloc = some table) (hsize : table.size < 2 ^ 61)
    (link : Nat -> Link) (mem : Mem) : Sound ⟨⟨table, link, mem⟩, []⟩ := by
  unfold init at hinit
  split at hinit
  · cases hinit
  case h_2 size heq =>
    split at hinit
    case isFalse => cases hinit
    cases hinit
    have hpos : 0 < size := by
      split at heq
      · cases heq
        decide
      · exact Nat.zero_lt_of_lt (one_lt_of_findPrime heq)
    exact
      { buckets := fun _ _ => rfl
        count := rfl
        nodup := List.nodup_nil
        null := nofun
        keys := nofun
        size := ⟨hpos, by dsimp only at hsize ⊢; omega⟩ }

/-- In every run of tame calls the table is proper, and the next tame call returns. -/
theorem table_proper_of_run {hashSz : Nat} {hash : HashFn} {calloc : Bool}
    {table : HashtableT} (hinit : init hashSz hash calloc = some table)
    (hsize : table.size < 2 ^ 61) {link : Nat -> Link} {mem : Mem} {s : System}
    (hrun : Reaches step Tame ⟨⟨table, link, mem⟩, []⟩ s) :
    Proper s ∧ forall c, Tame s c -> (step s c).isSome = true := by
  exact (hrun.returning Sound (fun _ _ ht hc => ht.step hc)
    (init_sound hinit hsize link mem)).imp_left Sound.proper

/-!
## Two keys
-/

def words : System :=
  ⟨⟨(init 0 HashFn.hash4 true).get rfl, fun _ => ⟨0, 0, none⟩,
    store (store (fun _ => 0) 100 [97, 98]) 200 [97, 98, 99]⟩, []⟩

theorem table_proper_of_run_words :
    init 0 HashFn.hash4 true = some words.world.table ∧
      exists s, Reaches step Tame words s ∧ Proper s := by
  have hinit : init 0 HashFn.hash4 true = some words.world.table := rfl
  have hrun : Reaches step Tame words _ :=
    (((Reaches.refl _).oneLabel (a := Call.join 1 100 2) (by decide) rfl).oneLabel
      (a := Call.join 2 200 3) (by decide) rfl).oneLabel (a := Call.remove 1)
      (by decide) (by decide +kernel)
  exact ⟨hinit, _, hrun, (table_proper_of_run hinit (by decide) hrun).1⟩

/-- The longer key is joined last, and the shorter one is looked up. -/
theorem table_proper_prefix :
    init 0 HashFn.hash4 true = some words.world.table ∧
      exists s, Reaches step Honest words s ∧ s.present = [2, 1] ∧
        newest s 100 2 = some 1 ∧ lookup s.world 100 2 = some (some 2) := by
  have hrun : Reaches step Honest words _ :=
    ((Reaches.refl _).oneLabel (a := Call.join 1 100 2) (by decide) rfl).oneLabel
      (a := Call.join 2 200 3) (by decide) rfl
  exact ⟨rfl, _, hrun, rfl, by decide, by decide⟩

end Hashtable
end NgxEpoll
