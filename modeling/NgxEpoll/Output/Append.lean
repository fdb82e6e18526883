import Mathlib.Algebra.Ring.Nat
import NgxEpoll.Foundation.Chains
import NgxEpoll.Foundation.Loop
import NgxEpoll.Core.Buffer

/-!
# Moving nodes from one chain to another

`chain_append_withsize` of `dfs_chain.cpp` on the nodes of its chains.  A `chain_t **`
is the place of a pointer: the variable behind `dst_chain`, or the field `next` of a
node.

## The function
-/

namespace NgxEpoll
namespace Output

open Foundation
open NgxEpoll.Core

variable {α : Type} [DecidableEq α]

/-- The field `next` of the nodes, and the variables behind `dst_chain` and
`free_chain`. -/
structure Nodes (α : Type) where
  next : α -> Option α
  dst : Option α
  free : Option α

inductive Place (α : Type) where
  | dst
  | next (c : α)

namespace Nodes

def read (w : Nodes α) : Place α -> Option α
  | Place.dst => w.dst
  | Place.next c => w.next c

def write (w : Nodes α) (place : Place α) (v : Option α) : Nodes α :=
  match place with
  | Place.dst => { w with dst := v }
  | Place.next c => { w with next := Function.update w.next c v }

end Nodes

def endTurn (w : Nodes α) (place : Place α) : Turn (Place α) (Option (Place α)) :=
  match w.read place with
  | some c => Turn.next (Place.next c)
  | none => Turn.done (some place)

structure Taking (α : Type) where
  nodes : Nodes α
  dstChain : Place α
  srcChain : Option α
  size : Nat

def takeTurn (buf : α -> Buffer) (s : Taking α) :
    Turn (Taking α) (Option (Taking α)) :=
  match s.srcChain with
  | none => Turn.done (some s)
  | some c =>
      if 0 < s.size then
        let bufSize := cSize (bufferSize (buf c))
        let w := s.nodes.write s.dstChain (some c)
        let srcChain := w.next c
        let w := w.write (Place.next c) none
        Turn.next ⟨w, Place.next c, srcChain, cSize ((s.size : Int) - bufSize)⟩
      else Turn.done (some s)

def chainAppendWithsize (buf : α -> Buffer) (w : Nodes α) (srcChain : Option α)
    (size fuel : Nat) : Option (Nodes α) :=
  if srcChain = none ∨ size = 0 then some w
  else
    (iterate (endTurn w) (fun _ => none) fuel Place.dst).bind fun dstChain =>
      (iterate (takeTurn buf) (fun _ => none) fuel ⟨w, dstChain, srcChain, size⟩).map
        fun s =>
          if s.srcChain = none then s.nodes else { s.nodes with free := s.srcChain }

/-!
## What is asked of a call
-/

section Sizes

variable (sizes : α -> Nat)

def total (nodes : List α) : Nat :=
  (nodes.map sizes).sum

/-- The prefix `p` of `nodes` has `size` bytes or is all of them, and none that is
shorter will do. -/
structure Shortest (size : Nat) (nodes p : List α) : Prop where
  isPrefix : p <+: nodes
  enough : size ≤ total sizes p ∨ p = nodes
  least : forall q, q <+: p -> q ≠ p -> total sizes q < size

/-- The shortest prefix is everything, or it has exactly `size` bytes. -/
def Exact (size : Nat) (nodes : List α) : Prop :=
  forall p, Shortest sizes size nodes p -> p = nodes ∨ total sizes p = size

def taken : Nat -> List α -> List α
  | _, [] => []
  | size, c :: rest =>
      if 0 < size then c :: taken (cSize ((size : Int) - sizes c)) rest else []

end Sizes

/-- The shortest prefix of `src` is behind the nodes `dst`, the rest is in
`*free_chain`, and no other node has changed. -/
structure Appended (sizes : α -> Nat) (size : Nat) (dst src : List α) (w w' : Nodes α) :
    Prop where
  moved : exists p rest, src = p ++ rest ∧ Shortest sizes size src p ∧
    Chain w'.next w'.dst (dst ++ p) ∧
    (if rest = [] then w'.free = w.free else Chain w'.next w'.free rest)
  frame : forall c, c ∉ dst ++ src -> w'.next c = w.next c

/-!
## The loops
-/

/-- The place of the null pointer at the end of a chain. -/
def endOf (xs : List α) : Place α :=
  xs.getLast?.elim Place.dst Place.next

omit [DecidableEq α] in
theorem endOf_concat (xs : List α) (y : α) : endOf (xs ++ [y]) = Place.next y := by
  unfold endOf
  rw [List.getLast?_concat]
  rfl

variable {w : Nodes α} {buf : α -> Buffer} {dst src : List α} {place : Place α}
variable {size : Nat}

omit [DecidableEq α] in
theorem iterate_endTurn {fuel : Nat} (h : Chain w.next (w.read place) dst)
    (hfuel : dst.length < fuel) :
    iterate (endTurn w) (fun _ => none) fuel place =
      some (dst.getLast?.elim place Place.next) := by
  obtain ⟨fuel, rfl⟩ : exists k, fuel = k + 1 := ⟨fuel - 1, by omega⟩
  induction dst generalizing place fuel with
  | nil =>
      have hturn : endTurn w place = Turn.done (some place) := by
        unfold endTurn
        rw [show w.read place = none from h]
      exact iterate_done hturn
  | cons c dst ih =>
      obtain ⟨hread, hrest⟩ := h
      have hturn : endTurn w place = Turn.next (Place.next c) := by
        unfold endTurn
        rw [hread]
      obtain ⟨fuel, rfl⟩ : exists k, fuel = k + 1 := ⟨fuel - 1, by
        rw [List.length_cons] at hfuel
        omega⟩
      have hread' : Chain w.next (w.read (Place.next c)) dst := hrest
      rw [iterate_next hturn, ih hread' fuel (Nat.lt_of_succ_lt_succ hfuel),
        List.getLast?_cons]
      cases dst.getLast? with
      | none => rfl
      | some y => rfl

theorem write_link {c : α} (h : Chain w.next w.dst dst) (hnodup : dst.Nodup) (hc : c ∉ dst) :
    Chain ((w.write (endOf dst) (some c)).write (Place.next c) none).next
      ((w.write (endOf dst) (some c)).write (Place.next c) none).dst (dst ++ [c]) := by
  rcases List.eq_nil_or_concat' dst with rfl | ⟨xs, y, rfl⟩
  · exact ⟨rfl, Function.update_self _ _ _⟩
  · rw [endOf_concat]
    have hyc : y ≠ c := fun heq => hc (by simp [heq])
    refine h.link (fun x hx => ?_) ?_ ?_
    · have hxc : x ≠ c := fun heq => hc (by simp [← heq, hx])
      have hxy : x ≠ y := by
        rintro rfl
        exact (List.nodup_append.mp hnodup).2.2 x hx x (by simp) rfl
      dsimp only [Nodes.write]
      rw [Function.update_of_ne hxc, Function.update_of_ne hxy]
    · dsimp only [Nodes.write]
      rw [Function.update_of_ne hyc, Function.update_self]
    · exact Function.update_self _ _ _

theorem write_frame {c x : α} (hxc : x ≠ c) (hx : x ∉ dst) :
    ((w.write (endOf dst) (some c)).write (Place.next c) none).next x = w.next x := by
  rcases List.eq_nil_or_concat' dst with rfl | ⟨xs, y, rfl⟩
  · exact Function.update_of_ne hxc _ _
  · rw [endOf_concat]
    have hxy : x ≠ y := fun heq => hx (by simp [heq])
    dsimp only [Nodes.write]
    rw [Function.update_of_ne hxc, Function.update_of_ne hxy]

theorem takeTurn_moves (buf : α -> Buffer) {c : α} {rest : List α}
    (hdst : Chain w.next w.dst dst) (hsrc : Chain w.next (some c) (c :: rest))
    (hnodup : (dst ++ c :: rest).Nodup)
    (hsize : 0 < size) :
    exists w', takeTurn buf ⟨w, endOf dst, some c, size⟩ =
        Turn.next ⟨w', endOf (dst ++ [c]), w.next c,
          cSize ((size : Int) - cSize (bufferSize (buf c)))⟩ ∧
      Chain w'.next w'.dst (dst ++ [c]) ∧ Chain w'.next (w.next c) rest ∧ w'.free = w.free ∧
      forall x, x ∉ dst ++ [c] -> w'.next x = w.next x := by
  obtain ⟨hdnodup, hcnodup, hapart⟩ := List.nodup_append.mp hnodup
  have hc : c ∉ dst := fun hmem => hapart c hmem c List.mem_cons_self rfl
  have hframe : forall x, x ∉ dst ++ [c] ->
      ((w.write (endOf dst) (some c)).write (Place.next c) none).next x = w.next x := by
    intro x hx
    rw [List.mem_append, List.mem_singleton, not_or] at hx
    exact write_frame hx.2 hx.1
  have hread : (w.write (endOf dst) (some c)).next c = w.next c := by
    rcases List.eq_nil_or_concat' dst with rfl | ⟨xs, y, rfl⟩
    · rfl
    · rw [endOf_concat]
      exact Function.update_of_ne (fun heq => hc (by simp [heq])) _ _
  refine ⟨(w.write (endOf dst) (some c)).write (Place.next c) none, ?_,
    write_link hdst hdnodup hc, ?_, ?_, hframe⟩
  · unfold takeTurn
    dsimp only
    rw [if_pos hsize, hread, endOf_concat]
  · refine hsrc.2.congr fun x hx => hframe x ?_
    rw [List.mem_append, List.mem_singleton, not_or]
    constructor
    · exact fun hmem => hapart x hmem x (List.mem_cons_of_mem _ hx) rfl
    · rintro rfl
      exact (List.nodup_cons.mp hcnodup).1 hx
  · unfold endOf
    cases dst.getLast? with
    | none => rfl
    | some y => rfl

structure Took (w : Nodes α) (dst src moved : List α) (s : Taking α) : Prop where
  split : exists rest, src = moved ++ rest ∧ Chain s.nodes.next s.srcChain rest
  chain : Chain s.nodes.next s.nodes.dst (dst ++ moved)
  free : s.nodes.free = w.free
  frame : forall x, x ∉ dst ++ src -> s.nodes.next x = w.next x

theorem iterate_takeTurn {srcChain : Option α} {fuel : Nat} (hdst : Chain w.next w.dst dst)
    (hsrc : Chain w.next srcChain src) (hnodup : (dst ++ src).Nodup)
    (hfuel : src.length < fuel) :
    exists s, iterate (takeTurn buf) (fun _ => none) fuel
        ⟨w, endOf dst, srcChain, size⟩ = some s ∧
      Took w dst src (taken (fun c => cSize (bufferSize (buf c))) size src) s := by
  induction src generalizing w dst srcChain size fuel with
  | nil =>
      obtain ⟨fuel, rfl⟩ : exists k, fuel = k + 1 := ⟨fuel - 1, by omega⟩
      obtain rfl : srcChain = none := hsrc
      refine ⟨_, iterate_done rfl, ⟨[], rfl, rfl⟩, ?_, rfl, fun _ _ => rfl⟩
      rw [taken, List.append_nil]
      exact hdst
  | cons c rest ih =>
      obtain ⟨fuel, rfl⟩ : exists k, fuel = k + 1 := ⟨fuel - 1, by omega⟩
      obtain rfl : srcChain = some c := hsrc.1
      unfold taken
      by_cases hsize : 0 < size
      · obtain ⟨w1, hturn, hdst1, hsrc1, hfree1, hframe1⟩ :=
          takeTurn_moves buf hdst hsrc hnodup hsize
        have hnodup1 : (dst ++ [c] ++ rest).Nodup := by
          rw [List.append_assoc]
          exact hnodup
        obtain ⟨s, hrun, htook⟩ := ih hdst1 hsrc1 hnodup1 (Nat.lt_of_succ_lt_succ hfuel)
        rw [if_pos hsize, iterate_next hturn]
        refine ⟨s, hrun, ?_, ?_, htook.free.trans hfree1, ?_⟩
        · obtain ⟨rest', heq, hchain⟩ := htook.split
          exact ⟨rest', by rw [List.cons_append, ← heq], hchain⟩
        · have hdst' := htook.chain
          rw [List.append_assoc] at hdst'
          exact hdst'
        · intro x hx
          have hx' : x ∉ dst ++ [c] ++ rest := by
            rw [List.append_assoc]
            exact hx
          rw [htook.frame x hx']
          exact hframe1 x fun hmem => hx' (List.mem_append_left _ hmem)
      · rw [if_neg hsize]
        have hturn : takeTurn buf ⟨w, endOf dst, some c, size⟩ =
            Turn.done (some ⟨w, endOf dst, some c, size⟩) := if_neg hsize
        refine ⟨_, iterate_done hturn, ⟨c :: rest, rfl, hsrc⟩, ?_, rfl, fun _ _ => rfl⟩
        rw [List.append_nil]
        exact hdst

/-!
## The shortest prefix
-/

section Prefixes

variable {sizes : α -> Nat} {c : α} {rest p q : List α}

omit [DecidableEq α] in
theorem total_cons (c : α) (rest : List α) :
    total sizes (c :: rest) = sizes c + total sizes rest := by
  unfold total
  rw [List.map_cons, List.sum_cons]

omit [DecidableEq α] in
theorem Shortest.unique (hp : Shortest sizes size src p) (hq : Shortest sizes size src q) :
    p = q := by
  have hhalf : forall {p q : List α}, Shortest sizes size src p ->
      Shortest sizes size src q -> p <+: q -> p = q := by
    intro p q hp hq hpq
    by_contra hne
    have hless := hq.least p hpq hne
    rcases hp.enough with henough | rfl
    · exact Nat.not_le_of_lt hless henough
    · exact hne (hpq.eq_of_length_le hq.isPrefix.length_le)
  rcases List.prefix_or_prefix_of_prefix hp.isPrefix hq.isPrefix with hpq | hqp
  · exact hhalf hp hq hpq
  · exact (hhalf hq hp hqp).symm

omit [DecidableEq α] in
theorem shortest_first (hsize : 0 < size) (hc : size ≤ sizes c) :
    Shortest sizes size (c :: rest) [c] where
  isPrefix := ⟨rest, rfl⟩
  enough := by
    left
    rw [total_cons]
    exact Nat.le_trans hc (Nat.le_add_right _ _)
  least := by
    intro q hq hne
    rcases List.prefix_cons_iff.mp hq with rfl | ⟨q', rfl, hq'⟩
    · exact hsize
    · rw [List.prefix_nil.mp hq'] at hne
      exact absurd rfl hne

omit [DecidableEq α] in
theorem Shortest.cons (hc : sizes c < size) (hp : Shortest sizes (size - sizes c) rest p) :
    Shortest sizes size (c :: rest) (c :: p) where
  isPrefix := (List.prefix_cons_inj c).mpr hp.isPrefix
  enough := by
    rcases hp.enough with henough | rfl
    · left
      rw [total_cons]
      omega
    · exact Or.inr rfl
  least := by
    intro q hq hne
    rcases List.prefix_cons_iff.mp hq with rfl | ⟨q', rfl, hq'⟩
    · exact Nat.lt_of_le_of_lt (Nat.zero_le _) hc
    · have hless := hp.least q' hq' fun heq => hne (by rw [heq])
      rw [total_cons]
      omega

omit [DecidableEq α] in
theorem shortest_exists (sizes : α -> Nat) (hsize : 0 < size) (nodes : List α) :
    exists p, Shortest sizes size nodes p := by
  induction nodes generalizing size with
  | nil =>
      refine ⟨[], List.prefix_refl _, Or.inr rfl, fun q hq hne => ?_⟩
      exact absurd (List.prefix_nil.mp hq) hne
  | cons c rest ih =>
      by_cases hc : size ≤ sizes c
      · exact ⟨[c], shortest_first hsize hc⟩
      · obtain ⟨p, hp⟩ := @ih (size - sizes c) (by omega)
        exact ⟨c :: p, hp.cons (Nat.lt_of_not_le hc)⟩

omit [DecidableEq α] in
/-- The loop moves the shortest prefix unless that has too many bytes and nodes are
left. -/
theorem taken_eq_iff (hlt : size < 2 ^ 64) (hsizes : forall c, sizes c < 2 ^ 64)
    (hsize : 0 < size) (hp : Shortest sizes size src p) :
    taken sizes size src = p ↔ p = src ∨ total sizes p = size := by
  induction src generalizing size p with
  | nil =>
      have hnil := List.prefix_nil.mp hp.isPrefix
      rw [hnil]
      exact iff_of_true rfl (Or.inl rfl)
  | cons c rest ih =>
      unfold taken
      rw [if_pos hsize]
      rcases Nat.lt_trichotomy (sizes c) size with hless | heq | hmore
      · have hsub : cSize ((size : Int) - sizes c) = size - sizes c := by
          unfold cSize
          omega
        obtain ⟨p', hp'⟩ := shortest_exists sizes (Nat.sub_pos_of_lt hless) rest
        rw [hp.unique (hp'.cons hless), hsub, List.cons_inj_right, List.cons_inj_right,
          ih (Nat.lt_of_le_of_lt (Nat.sub_le _ _) hlt) (Nat.sub_pos_of_lt hless) hp', total_cons]
        constructor
        · rintro (hall | htotal)
          · exact Or.inl hall
          · right
            omega
        · rintro (hall | htotal)
          · exact Or.inl hall
          · right
            omega
      · have hsub : cSize ((size : Int) - sizes c) = 0 := by
          unfold cSize
          omega
        have hnone : taken sizes 0 rest = [] := by
          cases rest with
          | nil => rfl
          | cons d rest => rfl
        rw [hp.unique (shortest_first hsize (Nat.le_of_eq heq.symm)), hsub, hnone]
        refine iff_of_true rfl (Or.inr ?_)
        rw [total_cons, heq]
        rfl
      · have hlarge := hsizes c
        have hsub : 0 < cSize ((size : Int) - sizes c) := by
          unfold cSize
          omega
        rw [hp.unique (shortest_first hsize (Nat.le_of_lt hmore)), total_cons]
        cases rest with
        | nil => exact iff_of_true rfl (Or.inl rfl)
        | cons d rest =>
            refine iff_of_false ?_ ?_
            · unfold taken
              rw [if_pos hsub]
              simp
            · rintro (hall | htotal)
              · cases hall
              · omega

end Prefixes

/-!
## The call
-/

def sizesOf (buf : α -> Buffer) (c : α) : Nat :=
  cSize (bufferSize (buf c))

omit [DecidableEq α] in
theorem sizesOf_lt (buf : α -> Buffer) (c : α) : sizesOf buf c < 2 ^ 64 := by
  unfold sizesOf cSize
  omega

theorem chainAppendWithsize_returns (buf : α -> Buffer) {srcChain : Option α}
    (hdst : Chain w.next w.dst dst) (hsrc : Chain w.next srcChain src)
    (hnodup : (dst ++ src).Nodup) (hsize : 0 < size) :
    exists w', Returns (chainAppendWithsize buf w srcChain size) w' ∧
      (exists rest, src = taken (sizesOf buf) size src ++ rest ∧
        Chain w'.next w'.dst (dst ++ taken (sizesOf buf) size src) ∧
        (if rest = [] then w'.free = w.free else Chain w'.next w'.free rest)) ∧
      forall c, c ∉ dst ++ src -> w'.next c = w.next c := by
  cases srcChain with
  | none =>
      have hnil := chain_none.mp hsrc
      subst hnil
      refine ⟨w, ⟨0, fun n _ => if_pos (Or.inl rfl)⟩, ⟨[], rfl, ?_, rfl⟩, fun _ _ => rfl⟩
      rw [taken, List.append_nil]
      exact hdst
  | some c =>
      have hgo : ¬ (some c = none ∨ size = 0) := by
        rintro (hnone | hzero)
        · cases hnone
        · omega
      obtain ⟨s, htake, htook⟩ := @iterate_takeTurn _ _ w buf dst src size (some c)
        (src.length + 1) hdst hsrc hnodup (Nat.lt_succ_self _)
      refine ⟨if s.srcChain = none then s.nodes else { s.nodes with free := s.srcChain },
        ⟨dst.length + src.length + 1, fun n hn => ?_⟩, ?_, ?_⟩
      · have hend := @iterate_endTurn _ w dst Place.dst n hdst (by omega)
        have htake' := iterate_mono htake (show src.length + 1 ≤ n by omega)
        unfold chainAppendWithsize
        rw [if_neg hgo, hend, Option.bind_some]
        change Option.map _ (iterate (takeTurn buf) (fun _ => none) n
          ⟨w, endOf dst, some c, size⟩) = _
        rw [htake']
        rfl
      · obtain ⟨rest, hsplit, hrest⟩ := htook.split
        refine ⟨rest, hsplit, ?_, ?_⟩
        · split
          · exact htook.chain
          · exact htook.chain
        · cases hleft : s.srcChain with
          | none =>
              rw [hleft] at hrest
              rw [if_pos (chain_none.mp hrest), if_pos rfl]
              exact htook.free
          | some d =>
              rw [hleft] at hrest
              obtain ⟨rest', rfl, -⟩ := chain_some.mp hrest
              rw [if_neg (List.cons_ne_nil _ _), if_neg (Option.some_ne_none d)]
              exact hrest
      · intro x hx
        split
        · exact htook.frame x hx
        · exact htook.frame x hx

theorem Appended.taken_shortest {srcChain : Option α} {w' : Nodes α}
    (h : Appended (sizesOf buf) size dst src w w') (hdst : Chain w.next w.dst dst)
    (hsrc : Chain w.next srcChain src) (hnodup : (dst ++ src).Nodup) (hsize : 0 < size)
    (hreturns : Returns (chainAppendWithsize buf w srcChain size) w') :
    Shortest (sizesOf buf) size src (taken (sizesOf buf) size src) := by
  obtain ⟨w1, hreturns1, ⟨rest, -, hchain, -⟩, -⟩ :=
    chainAppendWithsize_returns buf hdst hsrc hnodup hsize
  obtain rfl := hreturns.eq hreturns1
  obtain ⟨p, rest', -, hshort, hchain', -⟩ := h.moved
  rw [List.append_cancel_left (hchain.unique hchain')]
  exact hshort

/-- A call appends the shortest prefix of the source that has `size` bytes, and keeps the
rest, just where that prefix has `size` bytes exactly or is the whole source. -/
theorem chain_append_shortest_iff {srcChain : Option α} (hdst : Chain w.next w.dst dst)
    (hsrc : Chain w.next srcChain src) (hnodup : (dst ++ src).Nodup) (hsize : 0 < size)
    (hlt : size < 2 ^ 64) :
    (exists w', Returns (chainAppendWithsize buf w srcChain size) w' ∧
        Appended (sizesOf buf) size dst src w w') ↔
      Exact (sizesOf buf) size src := by
  have htaken : forall p, Shortest (sizesOf buf) size src p ->
      (taken (sizesOf buf) size src = p ↔ p = src ∨ total (sizesOf buf) p = size) :=
    fun p hp => taken_eq_iff hlt (sizesOf_lt buf) hsize hp
  constructor
  · rintro ⟨w', hreturns, happended⟩ p hp
    have hshort := happended.taken_shortest hdst hsrc hnodup hsize hreturns
    exact (htaken p hp).mp (hshort.unique hp)
  · intro hexact
    obtain ⟨w', hreturns, ⟨rest, hsplit, hchain, hrest⟩, hframe⟩ :=
      chainAppendWithsize_returns buf hdst hsrc hnodup hsize
    obtain ⟨p, hp⟩ := shortest_exists (sizesOf buf) hsize src
    have hmoved := (htaken p hp).mpr (hexact p hp)
    rw [hmoved] at hsplit hchain
    exact ⟨w', hreturns, ⟨⟨p, rest, hsplit, hp, hchain, hrest⟩, hframe⟩⟩

def bufferOf (n : Nat) : Buffer :=
  ⟨0, n, 0, 0, 0, n, true⟩

def threeNodes : Nodes Nat :=
  ⟨fun c => if c = 2 then some 3 else none, some 1, none⟩

theorem chain_append_shortest_iff_even :
    (exists w', Returns (chainAppendWithsize bufferOf threeNodes (some 2) 2) w' ∧
        Appended (sizesOf bufferOf) 2 [1] [2, 3] threeNodes w') ↔
      Exact (sizesOf bufferOf) 2 [2, 3] :=
  chain_append_shortest_iff ⟨rfl, rfl⟩ ⟨rfl, rfl, rfl⟩ (by decide) (by decide) (by decide)

/-- The node 2 has a byte too many, and so the node 3 is moved too. -/
theorem chain_append_shortest_overrun :
    ¬ exists w', Returns (chainAppendWithsize bufferOf threeNodes (some 2) 1) w' ∧
      Appended (sizesOf bufferOf) 1 [1] [2, 3] threeNodes w' := by
  rintro ⟨w', hreturns, happended⟩
  have hshort := happended.taken_shortest ⟨rfl, rfl⟩ ⟨rfl, rfl, rfl⟩ (by decide) (by decide)
    hreturns
  exact absurd (hshort.least [2] (by decide) (by decide)) (by decide)

end Output
end NgxEpoll
