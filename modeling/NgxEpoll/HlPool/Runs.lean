import NgxEpoll.Foundation.Runs
import NgxEpoll.HlPool.Functions
import NgxEpoll.MemPool.Runs

/-!
# Runs of the half-life memory pool

A pool from `hl_mempool_create` and any sequence of `hl_mempool_get` and
`hl_mempool_free`, where an element that is freed was handed out and not freed since.

## The invariant
-/

namespace NgxEpoll
namespace HlPool

open Foundation
open MemPool (Malloc Contract)

variable {M : Malloc} {C : Contract M}

def nodesOf (n : Nat) (as : List Nat) : List (Nat × Nat) :=
  as.map fun a => (a, n)

structure Fixed (p p' : HlMempool) : Prop where
  maxSize : p'.maxSize = p.maxSize
  minSize : p'.minSize = p.minSize
  elementSize : p'.elementSize = p.elementSize

/-- The queue has the elements `xs`, and the other blocks are `others`. -/
structure Sound (C : Contract M) (w : World M) (xs : List Nat)
    (others : List (Nat × Nat)) : Prop where
  valid : C.valid w.heap
  blocks : (C.blocks w.heap).Perm (nodesOf (allocSize w.pool.elementSize) xs ++ others)
  ring : Ring w.pool.freeQ Node.head (xs.map Node.elem)
  freeSize : w.pool.freeSize = xs.length
  maxSize : 0 < w.pool.maxSize ∧ w.pool.maxSize < 2 ^ 31
  elementSize : 0 ≤ w.pool.elementSize ∧ w.pool.elementSize < 2 ^ 31

variable {w w' : World M} {xs ys : List Nat} {others rest : List (Nat × Nat)} {a : Nat}

theorem Fixed.refl (p : HlMempool) : Fixed p p :=
  ⟨rfl, rfl, rfl⟩

theorem Fixed.trans {p p' p'' : HlMempool} (h : Fixed p p') (h' : Fixed p' p'') :
    Fixed p p'' :=
  ⟨h'.maxSize.trans h.maxSize, h'.minSize.trans h.minSize,
    h'.elementSize.trans h.elementSize⟩

theorem allocSize_pos {n : Int} (hlo : 0 ≤ n) (hhi : n < 2 ^ 31) : 0 < allocSize n := by
  unfold allocSize queueSize
  dsimp only
  split
  · omega
  · omega

theorem nodup_of_apart {n : Nat} {as : List Nat} (hn : 0 < n)
    (h : (nodesOf n as).Pairwise RegionsApart) : as.Nodup := by
  unfold nodesOf at h
  rw [List.pairwise_map] at h
  refine h.imp fun {a b} hapart heq => ?_
  subst heq
  exact not_apart_of_start hn hn hapart

theorem Sound.perm (h : Sound C w xs others) (hperm : others.Perm rest) :
    Sound C w xs rest :=
  { h with blocks := h.blocks.trans (hperm.append_left _) }

theorem Sound.not_mem (h : Sound C w xs ((a, allocSize w.pool.elementSize) :: others)) :
    a ∉ xs := by
  have happart := (pairwise_apart_perm h.blocks).mp (C.apart _ h.valid)
  intro hmem
  refine not_apart_of_start (allocSize_pos h.elementSize.1 h.elementSize.2)
    (allocSize_pos h.elementSize.1 h.elementSize.2)
    ((List.pairwise_append.mp happart).2.2 _ (List.mem_map_of_mem hmem) _
      (List.mem_cons_self ..))

theorem Sound.nodup (h : Sound C w xs (nodesOf (allocSize w.pool.elementSize) ys ++ rest)) :
    (xs ++ ys).Nodup := by
  have happart := (pairwise_apart_perm h.blocks).mp (C.apart _ h.valid)
  rw [← List.append_assoc] at happart
  refine nodup_of_apart (allocSize_pos h.elementSize.1 h.elementSize.2) ?_
  unfold nodesOf
  rw [List.map_append]
  exact (List.pairwise_append.mp happart).1

/-!
## Single nodes
-/

theorem head_not_mem (xs : List Nat) : Node.head ∉ xs.map Node.elem := by
  simp

theorem Sound.insert (h : Sound C w xs ((a, allocSize w.pool.elementSize) :: others))
    (hlen : xs.length < 2 ^ 31 - 1) (first : Bool) :
    exists w', insert w first (Node.elem a) = some w' ∧ Fixed w.pool w'.pool ∧
      Sound C w' (if first then a :: xs else xs ++ [a]) others := by
  have hnot : Node.elem a ∉ Node.head :: xs.map Node.elem := by
    simp [h.not_mem]
  obtain ⟨hnext, hprev⟩ := h.ring.pointers_head
  have hcount : w.pool.freeSize < 2 ^ 31 - 1 := by
    rw [h.freeSize]
    omega
  have hblocks := h.blocks
  unfold HlPool.insert
  cases first with
  | true =>
      dsimp only
      rw [if_pos rfl, hnext]
      dsimp only
      rw [if_pos hcount]
      refine ⟨_, rfl, ⟨rfl, rfl, rfl⟩, h.valid, ?_, ?_, ?_, h.maxSize, h.elementSize⟩
      · exact hblocks.trans List.perm_middle
      · exact (h.ring.insertHead hnot).1
      · rw [if_pos rfl, h.freeSize]
        rfl
  | false =>
      dsimp only
      rw [if_neg Bool.false_ne_true, hprev]
      dsimp only
      rw [if_pos hcount]
      refine ⟨_, rfl, ⟨rfl, rfl, rfl⟩, h.valid, ?_, ?_, ?_, h.maxSize, h.elementSize⟩
      · dsimp only
        rw [if_neg Bool.false_ne_true, nodesOf, List.map_append, List.append_assoc]
        exact hblocks
      · rw [if_neg Bool.false_ne_true, if_neg Bool.false_ne_true, List.map_append]
        exact (h.ring.insertTail hnot).1
      · change w.pool.freeSize + 1 = ((xs ++ [a]).length : Int)
        rw [List.length_append, h.freeSize]
        rfl

theorem Sound.remove (h : Sound C w (a :: xs) others) :
    exists w', remove w (Node.elem a) = some w' ∧ Fixed w.pool w'.pool ∧
      Sound C w' xs ((a, allocSize w.pool.elementSize) :: others) := by
  have hring : Ring w.pool.freeQ Node.head ([] ++ Node.elem a :: xs.map Node.elem) :=
    h.ring
  obtain ⟨hnext, hprev⟩ := hring.pointers
  have hfree := h.freeSize
  rw [List.length_cons] at hfree
  unfold HlPool.remove
  rw [hnext, hprev]
  dsimp only
  rw [if_pos (by omega)]
  refine ⟨_, rfl, ⟨rfl, rfl, rfl⟩, h.valid, ?_, hring.remove.1, ?_, h.maxSize,
    h.elementSize⟩
  · exact h.blocks.trans List.perm_middle.symm
  · dsimp only
    omega

theorem Sound.release (h : Sound C w xs ((a, allocSize w.pool.elementSize) :: others)) :
    Sound C { w with heap := M.free w.heap a } xs others := by
  have hperm := h.blocks.trans List.perm_middle
  obtain ⟨hvalid, hfreed⟩ := C.free _ _ _ h.valid
    (hperm.mem_iff.mpr (List.mem_cons_self ..))
  refine { h with valid := hvalid, blocks := hfreed.trans ?_ }
  have herased := hperm.erase (a, allocSize w.pool.elementSize)
  rwa [List.erase_cons_head] at herased

theorem Sound.dropFirst (h : Sound C w (a :: xs) others) :
    exists w', dropFirst w = some w' ∧ Fixed w.pool w'.pool ∧ Sound C w' xs others := by
  obtain ⟨w', hremove, hfixed, hsound⟩ := h.remove
  rw [← hfixed.elementSize] at hsound
  refine ⟨_, ?_, ?_, hsound.release⟩
  · unfold HlPool.dropFirst
    rw [h.ring.next_head]
    dsimp only
    rw [hremove]
    rfl
  · exact hfixed

/-!
## Loops
-/

theorem Sound.malloc (h : Sound C w xs others) :
    (exists heap, M.malloc w.heap (allocSize w.pool.elementSize) = (none, heap) ∧
      Sound C { w with heap := heap } xs others) ∨
    exists a heap, M.malloc w.heap (allocSize w.pool.elementSize) = (some a, heap) ∧
      Sound C { w with heap := heap } xs
        ((a, allocSize w.pool.elementSize) :: others) := by
  cases hmalloc : M.malloc w.heap (allocSize w.pool.elementSize) with
  | mk p heap =>
      cases p with
      | none =>
          obtain ⟨hvalid, hperm⟩ := C.malloc_none _ _ _ h.valid hmalloc
          exact Or.inl ⟨heap, rfl,
            { h with valid := hvalid, blocks := hperm.trans h.blocks }⟩
      | some a =>
          obtain ⟨hvalid, hperm⟩ := C.malloc_some _ _ _ _ h.valid hmalloc
          exact Or.inr ⟨a, heap, rfl,
            { h with
              valid := hvalid
              blocks := (hperm.trans (h.blocks.cons _)).trans List.perm_middle.symm }⟩

/-- What the loop that fills the queue does: it ends, and with all the nodes the queue
is full. -/
theorem Sound.fill (h : Sound C w xs others) (hle : (xs.length : Int) ≤ w.pool.maxSize)
    (first : Bool) {turns : Nat} (hturns : w.pool.maxSize ≤ xs.length + turns) :
    exists ok w' xs', fill first turns w = some (ok, w') ∧ Fixed w.pool w'.pool ∧
      Sound C w' xs' others ∧ (xs'.length : Int) ≤ w'.pool.maxSize ∧
      (ok = true -> (xs'.length : Int) = w'.pool.maxSize) := by
  induction turns generalizing w xs with
  | zero =>
      have hfull : ¬ w.pool.freeSize < w.pool.maxSize := by
        rw [h.freeSize]
        omega
      unfold HlPool.fill
      rw [if_neg hfull]
      exact ⟨true, w, xs, rfl, Fixed.refl _, h, hle, fun _ => by omega⟩
  | succ turns ih =>
      unfold HlPool.fill
      by_cases hless : w.pool.freeSize < w.pool.maxSize
      · rw [if_pos hless]
        dsimp only
        rw [h.freeSize] at hless
        rcases h.malloc with ⟨heap, hmalloc, h1⟩ | ⟨a, heap, hmalloc, h1⟩
        · rw [hmalloc]
          exact ⟨false, _, xs, rfl, ⟨rfl, rfl, rfl⟩, h1, hle, nofun⟩
        · have hmax := h.maxSize
          obtain ⟨w2, hinsert, hfixed, h2⟩ := h1.insert (by omega) first
          have hlen : (if first then a :: xs else xs ++ [a]).length = xs.length + 1 := by
            cases first with
            | true => rfl
            | false => exact List.length_append
          have hmaxSize : w2.pool.maxSize = w.pool.maxSize := hfixed.maxSize
          obtain ⟨ok, w', xs', heq, hfixed', hrest⟩ :=
            ih h2 (by rw [hlen, hmaxSize]; omega) (by rw [hlen, hmaxSize]; omega)
          rw [hmalloc]
          dsimp only
          rw [hinsert]
          refine ⟨ok, w', xs', heq, ?_, hrest⟩
          exact Fixed.trans ⟨hfixed.maxSize, hfixed.minSize, hfixed.elementSize⟩ hfixed'
      · rw [if_neg hless]
        rw [h.freeSize] at hless
        exact ⟨true, w, xs, rfl, Fixed.refl _, h, hle, fun _ => by omega⟩

theorem Sound.shrink (h : Sound C w xs others) {turns : Nat}
    (hturns : (xs.length : Int) ≤ w.pool.maxSize + turns) :
    exists w' xs', shrink turns w = some w' ∧ Fixed w.pool w'.pool ∧
      Sound C w' xs' others ∧ (xs'.length : Int) ≤ w'.pool.maxSize := by
  induction turns generalizing w xs with
  | zero =>
      have hfits : ¬ w.pool.maxSize < w.pool.freeSize := by
        rw [h.freeSize]
        omega
      unfold HlPool.shrink
      rw [if_neg hfits]
      exact ⟨w, xs, rfl, Fixed.refl _, h, by omega⟩
  | succ turns ih =>
      unfold HlPool.shrink
      by_cases hlong : w.pool.maxSize < w.pool.freeSize
      · rw [if_pos hlong]
        rw [h.freeSize] at hlong
        cases xs with
        | nil =>
            have hmax := h.maxSize
            rw [List.length_nil] at hlong
            omega
        | cons a xs =>
            obtain ⟨w1, hdrop, hfixed, h1⟩ := h.dropFirst
            have hmaxSize : w1.pool.maxSize = w.pool.maxSize := hfixed.maxSize
            rw [List.length_cons] at hturns
            obtain ⟨w', xs', heq, hfixed', hrest⟩ := ih h1 (by rw [hmaxSize]; omega)
            dsimp only
            rw [hdrop]
            exact ⟨w', xs', heq, hfixed.trans hfixed', hrest⟩
      · rw [if_neg hlong]
        rw [h.freeSize] at hlong
        exact ⟨w, xs, rfl, Fixed.refl _, h, by omega⟩

theorem Sound.clean (h : Sound C w xs others) {turns : Nat} (hturns : xs.length ≤ turns) :
    exists w', clean turns w = some w' ∧ Sound C w' [] others := by
  induction turns generalizing w xs with
  | zero =>
      obtain rfl := List.length_eq_zero_iff.mp (Nat.le_zero.mp hturns)
      unfold HlPool.clean
      rw [if_pos (h.ring.queueEmpty_iff.mpr rfl)]
      exact ⟨w, rfl, h⟩
  | succ turns ih =>
      unfold HlPool.clean
      cases xs with
      | nil =>
          rw [if_pos (h.ring.queueEmpty_iff.mpr rfl)]
          exact ⟨w, rfl, h⟩
      | cons a xs =>
          obtain ⟨w1, hdrop, -, h1⟩ := h.dropFirst
          obtain ⟨w', heq, hrest⟩ := ih h1 (Nat.le_of_succ_le_succ hturns)
          rw [if_neg fun hempty => nomatch h.ring.queueEmpty_iff.mp hempty]
          dsimp only
          rw [hdrop]
          exact ⟨w', heq, hrest⟩

/-!
## Calls
-/

theorem Sound.doExpand (h : Sound C w xs others)
    (hle : (xs.length : Int) ≤ w.pool.maxSize)
    (hmin : ¬ (w.pool.freeSize = 0 ∧ w.pool.minSize < 0)) :
    exists ok w' xs', doExpand w = some (ok, w') ∧ Fixed w.pool w'.pool ∧
      Sound C w' xs' others ∧ (xs'.length : Int) ≤ w'.pool.maxSize ∧
      (ok = true -> xs' ≠ []) := by
  unfold HlPool.doExpand
  by_cases hmany : w.pool.minSize < w.pool.freeSize
  · rw [if_pos hmany]
    refine ⟨true, w, xs, rfl, Fixed.refl _, h, hle, fun _ hnil => ?_⟩
    subst hnil
    have hfree : w.pool.freeSize = 0 := h.freeSize
    exact hmin ⟨hfree, hfree ▸ hmany⟩
  · rw [if_neg hmany]
    have hturns : w.pool.maxSize ≤ xs.length + (missing w.pool : Int) := by
      unfold missing
      rw [h.freeSize]
      omega
    obtain ⟨ok, w', xs', heq, hfixed, h', hle', hfull⟩ := h.fill hle false hturns
    refine ⟨ok, w', xs', heq, hfixed, h', hle', fun hok hnil => ?_⟩
    subst hnil
    have hmax := h'.maxSize
    have hlen := hfull hok
    rw [List.length_nil] at hlen
    omega

/-- `hl_mempool_get` hands out the first element, unless the queue stays empty. -/
theorem Sound.get (h : Sound C w xs others) (hle : (xs.length : Int) ≤ w.pool.maxSize)
    (hmin : ¬ (w.pool.freeSize = 0 ∧ w.pool.minSize < 0)) :
    exists (r : Option Nat) (w' : World M) (xs' : List Nat),
        get w = some (r.map Node.elem, w') ∧ Fixed w.pool w'.pool ∧
        Sound C w' xs' (nodesOf (allocSize w.pool.elementSize) r.toList ++ others) ∧
        (xs'.length : Int) ≤ w'.pool.maxSize := by
  obtain ⟨ok, w1, xs1, hexpand, hfixed, h1, hle1, hne⟩ := h.doExpand hle hmin
  unfold HlPool.get
  rw [hexpand]
  dsimp only
  cases xs1 with
  | nil =>
      have hok : ok = false := Bool.eq_false_iff.mpr fun hok => hne hok rfl
      have hfree : w1.pool.freeSize = 0 := h1.freeSize
      rw [if_pos ⟨hok, Int.le_of_eq hfree⟩]
      exact ⟨none, w1, [], rfl, hfixed, h1, hle1⟩
  | cons a xs1 =>
      have hfree := h1.freeSize
      rw [List.length_cons] at hfree hle1
      rw [if_neg (by omega), h1.ring.next_head]
      obtain ⟨w2, hremove, hfixed2, h2⟩ := h1.remove
      dsimp only
      rw [hremove]
      refine ⟨some a, w2, xs1, rfl, hfixed.trans hfixed2, ?_, ?_⟩
      · rw [hfixed.elementSize] at h2
        exact h2
      · rw [hfixed2.maxSize]
        omega

theorem Sound.free (h : Sound C w xs ((a, allocSize w.pool.elementSize) :: others))
    (hmax : w.pool.freeSize < 2 ^ 31 - 1) :
    exists w' xs', free w (Node.elem a) = some w' ∧ Fixed w.pool w'.pool ∧
      Sound C w' xs' others ∧ (xs'.length : Int) ≤ w'.pool.maxSize := by
  rw [h.freeSize] at hmax
  obtain ⟨w1, hinsert, hfixed, h1⟩ := h.insert (by omega) false
  rw [if_neg Bool.false_ne_true] at h1
  obtain ⟨w', xs', heq, hfixed', hrest⟩ :=
    @Sound.shrink _ _ _ _ _ h1 (w1.pool.freeSize - w1.pool.maxSize).toNat (by
      rw [h1.freeSize]
      omega)
  unfold HlPool.free
  rw [hinsert]
  exact ⟨w', xs', heq, hfixed.trans hfixed', hrest⟩

theorem empty_sound {heap : M.State} (hvalid : C.valid heap) {max min elem : Int32}
    (hmax : 0 < max.toInt) (helem : 0 ≤ elem.toInt) :
    Sound C ⟨empty max.toInt min.toInt elem.toInt, heap⟩ [] (C.blocks heap) :=
  { valid := hvalid
    blocks := List.Perm.refl _
    ring := ring_queueInit _ _
    freeSize := rfl
    maxSize := ⟨hmax, max.toInt_lt⟩
    elementSize := ⟨helem, elem.toInt_lt⟩ }

theorem create_spec {heap : M.State} (hvalid : C.valid heap) (max min elem : Int32) :
    exists r heap', create heap max.toInt min.toInt elem.toInt = some (r, heap') ∧
      forall pool, r = some pool -> exists xs others, Sound C ⟨pool, heap'⟩ xs others ∧
        (xs.length : Int) ≤ pool.maxSize := by
  unfold create
  by_cases hbad : max.toInt ≤ 0 ∨ max.toInt < min.toInt ∨ elem.toInt < 0
  · rw [if_pos hbad]
    exact ⟨none, heap, rfl, nofun⟩
  rw [if_neg hbad]
  rw [not_or, not_or] at hbad
  cases hmalloc : M.malloc heap hlMempoolSize with
  | mk t heap1 =>
      cases t with
      | none => exact ⟨none, heap1, rfl, nofun⟩
      | some t =>
          obtain ⟨hvalid1, -⟩ := C.malloc_some _ _ _ _ hvalid hmalloc
          have hpos := Int.not_le.mp hbad.1
          have h1 := @empty_sound _ _ _ hvalid1 max min elem hpos (Int.not_lt.mp hbad.2.2)
          have hturns : max.toInt ≤
              0 + ((missing (empty max.toInt min.toInt elem.toInt) : Nat) : Int) := by
            change max.toInt ≤ 0 + ((max.toInt - 0).toNat : Int)
            omega
          obtain ⟨ok, w, xs, heq, -, hw, hle, -⟩ :=
            h1.fill (Int.le_of_lt hpos) true hturns
          dsimp only
          rw [heq]
          cases ok with
          | true =>
              refine ⟨some w.pool, w.heap, rfl, fun pool hpool => ?_⟩
              cases hpool
              exact ⟨xs, _, hw, hle⟩
          | false =>
              obtain ⟨w', hclean, -⟩ :=
                @Sound.clean _ _ _ _ _ hw w.pool.freeSize.toNat (by rw [hw.freeSize]; omega)
              dsimp only
              unfold doClean
              rw [hclean]
              exact ⟨none, _, rfl, nofun⟩

/-!
## Runs
-/

structure System (M : Malloc) where
  world : World M
  held : List Node

inductive Call where
  | get
  | free (x : Node)

def step (s : System M) : Call -> Option (System M)
  | Call.get => (get s.world).map fun r => ⟨r.2, r.1.toList ++ s.held⟩
  | Call.free x => (free s.world x).map fun w => ⟨w, s.held.erase x⟩

def Honest (s : System M) : Call -> Prop
  | Call.get => True
  | Call.free x => x ∈ s.held

/-- No element is asked of an empty queue that is never filled again, and none is
freed when the queue is as long as an `int` can tell. -/
def Tame (s : System M) : Call -> Prop
  | Call.get => ¬ (s.world.pool.freeSize = 0 ∧ s.world.pool.minSize < 0)
  | Call.free x => x ∈ s.held ∧ s.world.pool.freeSize < 2 ^ 31 - 1

instance (s : System M) (c : Call) : Decidable (Tame s c) :=
  match c with
  | Call.get => inferInstanceAs (Decidable (¬ (_ ∧ _)))
  | Call.free _ => inferInstanceAs (Decidable (_ ∧ _))

/-- What is said of every state: the count is that of the queue and in its bounds, the
head was not handed out, and nothing was handed out twice. -/
structure Proper (s : System M) : Prop where
  queue : exists xs, Ring s.world.pool.freeQ Node.head xs ∧
    s.world.pool.freeSize = xs.length
  bounds : 0 ≤ s.world.pool.freeSize ∧ s.world.pool.freeSize ≤ s.world.pool.maxSize
  head : Node.head ∉ s.held
  once : s.held.Nodup

/-- The invariant: the elements of the queue, those that are handed out, and the other
blocks. -/
def Held (C : Contract M) (s : System M) : Prop :=
  exists xs ys rest,
    Sound C s.world xs (nodesOf (allocSize s.world.pool.elementSize) ys ++ rest) ∧
      s.held = ys.map Node.elem ∧ (xs.length : Int) ≤ s.world.pool.maxSize

theorem Held.step {s : System M} (h : Held C s) {c : Call} (hc : Tame s c) :
    exists s', step s c = some s' ∧ Held C s' := by
  obtain ⟨xs, ys, rest, hs, hheld, hle⟩ := h
  cases c with
  | get =>
      obtain ⟨r, w', xs', heq, hfixed, h', hle'⟩ := hs.get hle hc
      refine ⟨⟨w', (r.map Node.elem).toList ++ s.held⟩, ?_, xs', r.toList ++ ys, rest, ?_,
        ?_, hle'⟩
      · rw [HlPool.step, heq]
        rfl
      · rw [← hfixed.elementSize] at h'
        unfold nodesOf at *
        rw [List.map_append, List.append_assoc]
        exact h'
      · rw [hheld, List.map_append]
        cases r with
        | none => rfl
        | some a => rfl
  | free x =>
      obtain ⟨hx, hmax⟩ := hc
      rw [hheld] at hx
      obtain ⟨a, ha, rfl⟩ := List.mem_map.mp hx
      have hperm := List.perm_cons_erase ha
      have hs1 := hs.perm (((hperm.map _).append_right _))
      obtain ⟨w', xs', heq, hfixed, h', hle'⟩ := Sound.free hs1 hmax
      refine ⟨⟨w', s.held.erase (Node.elem a)⟩, ?_, xs', ys.erase a, rest, ?_, ?_, hle'⟩
      · rw [HlPool.step, heq]
        rfl
      · rw [← hfixed.elementSize] at h'
        exact h'
      · rw [hheld, List.map_erase]
        intro b c hbc
        cases hbc
        rfl

theorem Held.proper {s : System M} (h : Held C s) : Proper s := by
  obtain ⟨xs, ys, rest, hs, hheld, hle⟩ := h
  have hfree := hs.freeSize
  have hnodup := (List.nodup_append.mp hs.nodup).2.1
  constructor
  · exact ⟨_, hs.ring, by rw [hfree, List.length_map]⟩
  · omega
  · rw [hheld]
    exact head_not_mem ys
  · rw [hheld]
    refine hnodup.map fun b c hbc => ?_
    cases hbc
    rfl

/-- In every run of tame calls the pool is proper, and the next tame call returns. -/
theorem queue_proper_of_run {heap heap' : M.State} {max min elem : Int32} {pool : HlMempool}
    (hvalid : C.valid heap)
    (hcreate : create heap max.toInt min.toInt elem.toInt = some (some pool, heap'))
    {s : System M} (hrun : Reaches step Tame ⟨⟨pool, heap'⟩, []⟩ s) :
    Proper s ∧ forall c, Tame s c -> (step s c).isSome = true := by
  have hinit : Held C ⟨⟨pool, heap'⟩, []⟩ := by
    obtain ⟨r, heap1, heq, hsound⟩ := create_spec hvalid max min elem
    rw [hcreate] at heq
    cases heq
    obtain ⟨xs, others, hs, hle⟩ := hsound pool rfl
    exact ⟨xs, [], others, hs, rfl, hle⟩
  exact (hrun.returning (Held C) (fun _ _ ht hc => ht.step hc) hinit).imp_left Held.proper

/-!
## Two pools
-/

def pair : System MemPool.stack :=
  let r := (create (M := MemPool.stack) [] 2 0 8).get rfl
  ⟨⟨r.1.get rfl, r.2⟩, []⟩

/-- Both elements are handed out, one is freed, and two more are handed out. -/
theorem queue_proper_of_run_pair :
    create (M := MemPool.stack) [] 2 0 8 = some (some pair.world.pool, pair.world.heap) ∧
      exists s, Reaches step Tame pair s ∧ Proper s := by
  have hcreate : create (M := MemPool.stack) [] (2 : Int32).toInt (0 : Int32).toInt
      (8 : Int32).toInt = some (some pair.world.pool, pair.world.heap) := rfl
  have hrun : Reaches step Tame pair _ :=
    (((((Reaches.refl _).oneLabel (a := Call.get) (by decide) rfl).oneLabel (a := Call.get)
      (by decide) rfl).oneLabel (a := Call.free (Node.elem 4176)) (by decide) rfl).oneLabel
      (a := Call.get) (by decide) rfl).oneLabel (a := Call.get) (by decide) rfl
  exact ⟨hcreate, _, hrun,
    (queue_proper_of_run (C := MemPool.stackContract) MemPool.stacked_nil hcreate hrun).1⟩

/-- A pool of one element that is not filled again. -/
def lone : System MemPool.stack :=
  let r := (create (M := MemPool.stack) [] 1 (-1) 8).get rfl
  ⟨⟨r.1.get rfl, r.2⟩, []⟩

/-- The second element that is asked for is the head of the queue. -/
theorem queue_proper_lone :
    create (M := MemPool.stack) [] 1 (-1) 8 =
        some (some lone.world.pool, lone.world.heap) ∧
      exists s, Reaches step Honest lone s ∧ ¬ Proper s := by
  have hrun : Reaches step Honest lone _ :=
    ((Reaches.refl _).oneLabel (a := Call.get) trivial rfl).oneLabel (a := Call.get)
      trivial rfl
  exact ⟨rfl, _, hrun, fun h => h.head (by decide)⟩

end HlPool
end NgxEpoll
