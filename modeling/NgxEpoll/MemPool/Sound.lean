import NgxEpoll.Foundation.Chains
import NgxEpoll.Foundation.Regions
import NgxEpoll.MemPool.Functions

/-!
# The invariant of the memory pool

Every region in use lies in a block below `data.last` or is a large block, the linked
descriptors lie in blocks, and no two of all these share a byte.

## The system's allocator
-/

namespace NgxEpoll
namespace MemPool

open Foundation NgxEpoll.Core

structure Contract (M : Malloc) where
  valid : M.State -> Prop
  blocks : M.State -> List (Nat × Nat)
  apart : forall s, valid s -> (blocks s).Pairwise RegionsApart
  inside : forall s, valid s -> forall b, b ∈ blocks s ->
    1 ≤ b.1 ∧ b.1 % 16 = 0 ∧ b.1 + b.2 < 2 ^ 63
  malloc_none : forall s n s', valid s -> M.malloc s n = (none, s') ->
    valid s' ∧ (blocks s').Perm (blocks s)
  malloc_some : forall s n p s', valid s -> M.malloc s n = (some p, s') ->
    valid s' ∧ (blocks s').Perm ((p, n) :: blocks s)
  free : forall s p n, valid s -> (p, n) ∈ blocks s ->
    valid (M.free s p) ∧ (blocks (M.free s p)).Perm ((blocks s).erase (p, n))

/-!
## Blocks and descriptors
-/

def headerSize (i : Nat) : Nat :=
  if i = 0 then poolSize else poolDataSize

def poolBlocks (p : PoolT) : List (Nat × Nat) :=
  (List.range p.count).map fun i => ((p.block i).addr, p.psize)

structure PoolOk (p : PoolT) : Prop where
  current : p.current < p.count
  max : p.max + poolSize ≤ p.psize
  header : forall i, i < p.count -> (p.block i).addr + headerSize i ≤ (p.block i).last
  last : forall i, i < p.count -> (p.block i).last ≤ (p.block i).stop
  stop : forall i, i < p.count -> (p.block i).stop = (p.block i).addr + p.psize

def toPtr (p : Nat) : Option Nat :=
  if p = 0 then none else some p

def nextLarge (m : Mem) (l : Nat) : Option Nat :=
  toPtr (loadNat m (l + 16) 8)

def descriptor (l : Nat) : Nat × Nat :=
  (l, poolLargeSize)

theorem one_le_descriptor (l : Nat) : 1 ≤ (descriptor l).2 :=
  Nat.le_add_left 1 23

def largeOf (m : Mem) (l : Nat) : Option (Nat × Nat) :=
  if loadNat m l 8 = 0 then none else some (loadNat m l 8, loadNat m (l + 8) 8)

def larges (m : Mem) (nodes : List Nat) : List (Nat × Nat) :=
  nodes.filterMap (largeOf m)

/-- A region past the header of a block and below `data.last`. -/
def InBlock (p : PoolT) (r : Nat × Nat) : Prop :=
  exists i, i < p.count ∧ (p.block i).addr + headerSize i ≤ r.1 ∧
    r.1 + r.2 ≤ (p.block i).last

def Placed (p : PoolT) (ls : List (Nat × Nat)) (r : Nat × Nat) : Prop :=
  1 ≤ r.2 ∧ r.1 % 8 = 0 ∧ (InBlock p r ∨ r ∈ ls)

structure Sound (C : Contract M) (w : World M) (owned : List (Nat × Nat))
    (nodes : List Nat) (rest : List (Nat × Nat)) : Prop where
  valid : C.valid w.heap
  blocks : (C.blocks w.heap).Perm (poolBlocks w.pool ++ larges w.mem nodes ++ rest)
  pool : PoolOk w.pool
  apart : (owned ++ nodes.map descriptor).Pairwise RegionsApart
  placed : forall r, r ∈ owned -> Placed w.pool (larges w.mem nodes) r
  contained : forall l, l ∈ nodes -> w.pool.Contains l
  chain : Chain (nextLarge w.mem) (toPtr w.pool.large) nodes
  positive : forall b, b ∈ larges w.mem nodes -> 1 ≤ b.2

theorem alignPtr_spec {x : Nat} (h : x + 8 ≤ 2 ^ 64) :
    x ≤ alignPtr x ∧ alignPtr x < x + 8 ∧ alignPtr x % 8 = 0 := by
  unfold alignPtr
  omega

theorem alignPtr_eq {x : Nat} (h : x + 8 ≤ 2 ^ 64) (hx : x % 8 = 0) : alignPtr x = x := by
  unfold alignPtr
  omega

theorem le_headerSize (i : Nat) : poolDataSize ≤ headerSize i ∧ headerSize i ≤ poolSize := by
  unfold headerSize poolDataSize poolSize
  split
  · omega
  · omega

section SetLast

variable (p : PoolT) (i j last : Nat)

@[simp] theorem setLast_addr : ((p.setLast i last).block j).addr = (p.block j).addr := by
  by_cases h : j = i
  · subst h
    simp [PoolT.setLast]
  · simp [PoolT.setLast, h]

@[simp] theorem setLast_stop : ((p.setLast i last).block j).stop = (p.block j).stop := by
  by_cases h : j = i
  · subst h
    simp [PoolT.setLast]
  · simp [PoolT.setLast, h]

theorem setLast_last : ((p.setLast i last).block j).last =
    if j = i then last else (p.block j).last := by
  by_cases h : j = i
  · subst h
    simp [PoolT.setLast]
  · simp [PoolT.setLast, h]

@[simp] theorem setLast_count : (p.setLast i last).count = p.count := rfl

@[simp] theorem setLast_max : (p.setLast i last).max = p.max := rfl

@[simp] theorem setLast_large : (p.setLast i last).large = p.large := rfl

@[simp] theorem setLast_current : (p.setLast i last).current = p.current := rfl

@[simp] theorem setLast_psize : (p.setLast i last).psize = p.psize := by
  simp [PoolT.psize]

@[simp] theorem poolBlocks_setLast : poolBlocks (p.setLast i last) = poolBlocks p := by
  simp [poolBlocks]

@[simp] theorem setLast_contains {l : Nat} :
    (p.setLast i last).Contains l ↔ p.Contains l := by
  simp [PoolT.Contains]

end SetLast

/-!
## What the invariant says
-/

variable {C : Contract M} {w : World M} {owned rest : List (Nat × Nat)} {nodes : List Nat}

theorem mem_poolBlocks {p : PoolT} {i : Nat} (hi : i < p.count) :
    ((p.block i).addr, p.psize) ∈ poolBlocks p :=
  List.mem_map.mpr ⟨i, List.mem_range.mpr hi, rfl⟩

theorem Sound.blocksApart (h : Sound C w owned nodes rest) :
    (poolBlocks w.pool ++ larges w.mem nodes ++ rest).Pairwise RegionsApart :=
  (pairwise_apart_perm h.blocks).mp (C.apart _ h.valid)

theorem Sound.inside (h : Sound C w owned nodes rest) {b : Nat × Nat}
    (hb : b ∈ poolBlocks w.pool ++ larges w.mem nodes ++ rest) :
    1 ≤ b.1 ∧ b.1 % 16 = 0 ∧ b.1 + b.2 < 2 ^ 63 :=
  C.inside _ h.valid b (h.blocks.mem_iff.mpr hb)

theorem Sound.block_inside (h : Sound C w owned nodes rest) {i : Nat}
    (hi : i < w.pool.count) :
    1 ≤ (w.pool.block i).addr ∧ (w.pool.block i).addr % 16 = 0 ∧
      (w.pool.block i).addr + w.pool.psize < 2 ^ 63 :=
  h.inside (List.mem_append_left _ (List.mem_append_left _ (mem_poolBlocks hi)))

theorem Sound.block_apart (h : Sound C w owned nodes rest) {i j : Nat}
    (hi : i < w.pool.count) (hj : j < w.pool.count) (hij : i ≠ j) :
    (w.pool.block i).addr + w.pool.psize ≤ (w.pool.block j).addr ∨
      (w.pool.block j).addr + w.pool.psize ≤ (w.pool.block i).addr := by
  have hpairs := (List.pairwise_append.mp (List.pairwise_append.mp h.blocksApart).1).1
  have hmax := h.pool.max
  have hsymm : Std.Symm fun i j : Nat =>
      RegionsApart ((w.pool.block i).addr, w.pool.psize)
        ((w.pool.block j).addr, w.pool.psize) := ⟨fun _ _ => RegionsApart.symm⟩
  have happart := (List.pairwise_map.mp hpairs).forall (List.mem_range.mpr hi)
    (List.mem_range.mpr hj) hij
  unfold RegionsApart Apart at happart
  unfold poolSize at hmax
  omega

theorem Sound.large_apart (h : Sound C w owned nodes rest) {i : Nat}
    (hi : i < w.pool.count) {r : Nat × Nat} (hr : r ∈ larges w.mem nodes ++ rest) :
    RegionsApart ((w.pool.block i).addr, w.pool.psize) r := by
  have hpairs := h.blocksApart
  rw [List.append_assoc] at hpairs
  exact (List.pairwise_append.mp hpairs).2.2 _ (mem_poolBlocks hi) r hr

/-- A region that is placed below `data.last` stays apart from what lies above. -/
theorem Sound.inBlock_apart (h : Sound C w owned nodes rest) {i m n : Nat}
    (hi : i < w.pool.count) (hm : (w.pool.block i).last ≤ m)
    (hfit : m + n ≤ (w.pool.block i).stop) {r : Nat × Nat} (hpos : 1 ≤ r.2)
    (hr : InBlock w.pool r) : RegionsApart (m, n) r := by
  have hheader := h.pool.header i hi
  have hstop := h.pool.stop i hi
  obtain ⟨j, hj, hlo, hhi⟩ := hr
  have hlast := h.pool.last j hj
  have hstop' := h.pool.stop j hj
  by_cases hij : i = j
  · subst hij
    unfold RegionsApart Apart
    dsimp only
    omega
  · have := h.block_apart hi hj hij
    unfold RegionsApart Apart
    dsimp only
    omega

theorem Sound.apart_above (h : Sound C w owned nodes rest) {i m n : Nat}
    (hi : i < w.pool.count) (hm : (w.pool.block i).last ≤ m)
    (hfit : m + n ≤ (w.pool.block i).stop) {r : Nat × Nat} (hr : r ∈ owned) :
    RegionsApart (m, n) r := by
  have hheader := h.pool.header i hi
  have hstop := h.pool.stop i hi
  obtain ⟨hpos, -, hblock | hlarge⟩ := h.placed r hr
  · exact h.inBlock_apart hi hm hfit hpos hblock
  · have happart := h.large_apart hi (List.mem_append_left _ hlarge)
    unfold RegionsApart Apart at *
    dsimp only at *
    omega

theorem Sound.node_apart (h : Sound C w owned nodes rest) {l : Nat} (hl : l ∈ nodes)
    {r : Nat × Nat} (hr : r ∈ owned) : RegionsApart r (descriptor l) :=
  (List.pairwise_append.mp h.apart).2.2 r hr _ (List.mem_map_of_mem hl)

theorem Sound.perm (h : Sound C w owned nodes rest) {owned' : List (Nat × Nat)}
    (hperm : owned'.Perm owned) : Sound C w owned' nodes rest :=
  { h with
    apart := (pairwise_apart_perm (hperm.append_right _)).mpr h.apart
    placed := fun r hr => h.placed r (hperm.mem_iff.mp hr) }

theorem Sound.sublist (h : Sound C w owned nodes rest) {owned' : List (Nat × Nat)}
    (hsub : owned'.Sublist owned) : Sound C w owned' nodes rest :=
  { h with
    apart := h.apart.sublist (hsub.append_right _)
    placed := fun r hr => h.placed r (hsub.subset hr) }

/-!
## Changes
-/

theorem Sound.heap (h : Sound C w owned nodes rest) {heap : M.State}
    {rest' : List (Nat × Nat)} (hvalid : C.valid heap)
    (hblocks : (C.blocks heap).Perm
      (poolBlocks w.pool ++ larges w.mem nodes ++ rest')) :
    Sound C { w with heap := heap } owned nodes rest' :=
  { h with
    valid := hvalid
    blocks := hblocks }

theorem InBlock.mono {p p' : PoolT} {r : Nat × Nat} (h : InBlock p r)
    (hcount : p.count ≤ p'.count)
    (haddr : forall i, i < p.count -> (p'.block i).addr = (p.block i).addr)
    (hlast : forall i, i < p.count -> (p.block i).last ≤ (p'.block i).last) :
    InBlock p' r := by
  obtain ⟨i, hi, hlo, hhi⟩ := h
  exact ⟨i, Nat.lt_of_lt_of_le hi hcount, by rwa [haddr i hi], Nat.le_trans hhi (hlast i hi)⟩

theorem InBlock.setLast {p : PoolT} {r : Nat × Nat} (h : InBlock p r) {i last : Nat}
    (hlast : (p.block i).last ≤ last) : InBlock (p.setLast i last) r := by
  refine h.mono (Nat.le_refl _) (fun j _ => setLast_addr _ _ _ _) fun j _ => ?_
  rw [setLast_last]
  split
  · rename_i hji
    rwa [hji]
  · exact Nat.le_refl _

/-- Where `data.last` is set back to the start of a region, what is apart from the region
stays below it. -/
theorem InBlock.lower {p : PoolT} {e n : Nat} {q : Nat × Nat} (h : InBlock p q)
    (hend : e + n = (p.block 0).last) (hpos : 1 ≤ q.2) (hapart : RegionsApart (e, n) q) :
    InBlock (p.setLast 0 e) q := by
  obtain ⟨j, hj, hlo, hhi⟩ := h
  refine ⟨j, hj, by simpa using hlo, ?_⟩
  rw [setLast_last]
  split
  · rename_i hj0
    subst hj0
    unfold RegionsApart Apart at hapart
    dsimp only at hapart
    omega
  · exact hhi

theorem Placed.mono {p p' : PoolT} {ls : List (Nat × Nat)} {r : Nat × Nat}
    (h : Placed p ls r) (hblock : InBlock p r -> InBlock p' r) : Placed p' ls r :=
  ⟨h.1, h.2.1, h.2.2.imp_left hblock⟩

theorem PoolOk.setLast {p : PoolT} (h : PoolOk p) {i last : Nat}
    (hheader : (p.block i).addr + headerSize i ≤ last) (hlast : last ≤ (p.block i).stop) :
    PoolOk (p.setLast i last) := by
  refine ⟨h.current, by simpa using h.max, fun j hj => ?_, fun j hj => ?_, fun j hj => ?_⟩
  · rw [setLast_addr, setLast_last]
    split
    · rename_i hji
      rw [hji]
      exact hheader
    · exact h.header j hj
  · rw [setLast_stop, setLast_last]
    split
    · rename_i hji
      rw [hji]
      exact hlast
    · exact h.last j hj
  · rw [setLast_stop, setLast_addr, setLast_psize]
    exact h.stop j hj

theorem Sound.carve (h : Sound C w owned nodes rest) {i m n : Nat}
    (hi : i < w.pool.count) (hm : (w.pool.block i).last ≤ m) (halign : m % 8 = 0)
    (hn : 1 ≤ n) (hfit : m + n ≤ (w.pool.block i).stop)
    (hclear : forall l, l ∈ nodes -> RegionsApart (m, n) (descriptor l)) :
    Sound C (w.setLast i (m + n)) ((m, n) :: owned) nodes rest := by
  have hheader := h.pool.header i hi
  refine ⟨h.valid, ?_, h.pool.setLast (by omega) hfit, ?_, ?_, ?_, h.chain, h.positive⟩
  · simpa [World.setLast] using h.blocks
  · rw [List.cons_append]
    refine List.pairwise_cons.mpr ⟨fun r hr => ?_, h.apart⟩
    rcases List.mem_append.mp hr with hr | hr
    · exact h.apart_above hi hm hfit hr
    · obtain ⟨l, hl, rfl⟩ := List.mem_map.mp hr
      exact hclear l hl
  · intro r hr
    rcases List.mem_cons.mp hr with rfl | hr
    · refine ⟨hn, halign, Or.inl ⟨i, hi, ?_, ?_⟩⟩
      · simp only [World.setLast, setLast_addr]
        omega
      · simp [World.setLast, setLast_last]
    · exact (h.placed r hr).mono fun hblock => hblock.setLast (by omega)
  · intro l hl
    exact (setLast_contains _ _ _).mpr (h.contained l hl)

theorem Sound.in_first {e n : Nat} (h : Sound C w ((e, n) :: owned) nodes rest)
    (hend : e + n = (w.pool.block 0).last) : (w.pool.block 0).addr + poolSize ≤ e := by
  have hzero : 0 < w.pool.count := Nat.lt_of_le_of_lt (Nat.zero_le _) h.pool.current
  have hheader := h.pool.header 0 hzero
  have hlast := h.pool.last 0 hzero
  have hstop := h.pool.stop 0 hzero
  have hsize : headerSize 0 = poolSize := rfl
  obtain ⟨hpos, -, ⟨j, hj, hlo, hhi⟩ | hlarge⟩ := h.placed (e, n) (by simp)
  · by_cases hj0 : j = 0
    · subst hj0
      omega
    · have hlast' := h.pool.last j hj
      have hstop' := h.pool.stop j hj
      have := h.block_apart hj hzero hj0
      unfold poolSize at *
      dsimp only at *
      omega
  · have happart := h.large_apart hzero (List.mem_append_left _ hlarge)
    unfold RegionsApart Apart at happart
    unfold poolSize at *
    dsimp only at *
    omega

theorem Sound.grow {e n k : Nat} (h : Sound C w ((e, n) :: owned) nodes rest)
    (hend : e + n = (w.pool.block 0).last) (hfit : e + n + k ≤ (w.pool.block 0).stop)
    (hclear : forall l, l ∈ nodes -> RegionsApart (e + n, k) (descriptor l)) :
    Sound C (w.setLast 0 (e + n + k)) ((e, n + k) :: owned) nodes rest := by
  have hzero : 0 < w.pool.count := Nat.lt_of_le_of_lt (Nat.zero_le _) h.pool.current
  have hheader := h.pool.header 0 hzero
  have hfirst := h.in_first hend
  obtain ⟨happart, hpairs⟩ := List.pairwise_cons.mp h.apart
  refine ⟨h.valid, ?_, h.pool.setLast (by omega) hfit, ?_, ?_, ?_, h.chain, h.positive⟩
  · simpa [World.setLast] using h.blocks
  · rw [List.cons_append]
    refine List.pairwise_cons.mpr ⟨fun r hr => ?_, hpairs⟩
    have hold := happart r hr
    -- apart from the old part and from the new one
    rcases List.mem_append.mp hr with hr | hr
    · have habove := h.apart_above hzero (Nat.le_of_eq hend.symm) hfit
        (List.mem_cons_of_mem _ hr)
      have hpos := (h.placed r (List.mem_cons_of_mem _ hr)).1
      unfold RegionsApart Apart at *
      dsimp only at *
      omega
    · obtain ⟨l, hl, rfl⟩ := List.mem_map.mp hr
      have habove := hclear l hl
      unfold RegionsApart Apart descriptor poolLargeSize at *
      dsimp only at *
      omega
  · intro r hr
    rcases List.mem_cons.mp hr with rfl | hr
    · obtain ⟨hpos, halign, -⟩ := h.placed (e, n) (by simp)
      refine ⟨Nat.le_trans hpos (Nat.le_add_right _ _), halign,
        Or.inl ⟨0, hzero, ?_, ?_⟩⟩
      · simpa [World.setLast, headerSize] using hfirst
      · simp [World.setLast, setLast_last, Nat.add_assoc]
    · exact (h.placed r (List.mem_cons_of_mem _ hr)).mono fun hblock =>
        hblock.setLast (by omega)
  · intro l hl
    exact (setLast_contains _ _ _).mpr (h.contained l hl)

theorem Sound.lower {e n : Nat} (h : Sound C w ((e, n) :: owned) nodes rest)
    (hend : e + n = (w.pool.block 0).last) :
    Sound C (w.setLast 0 e) owned nodes rest := by
  have hzero : 0 < w.pool.count := Nat.lt_of_le_of_lt (Nat.zero_le _) h.pool.current
  have hlast := h.pool.last 0 hzero
  have hfirst := h.in_first hend
  obtain ⟨happart, hpairs⟩ := List.pairwise_cons.mp h.apart
  obtain ⟨hpos, -, -⟩ := h.placed (e, n) (by simp)
  refine ⟨h.valid, ?_, h.pool.setLast hfirst (by omega), hpairs, ?_, ?_, h.chain, h.positive⟩
  · simpa [World.setLast] using h.blocks
  · intro r hr
    have hold := h.placed r (List.mem_cons_of_mem _ hr)
    exact hold.mono fun hblock =>
      hblock.lower hend hold.1 (happart r (List.mem_append_left _ hr))
  · intro l hl
    exact (setLast_contains _ _ _).mpr (h.contained l hl)

end MemPool
end NgxEpoll
