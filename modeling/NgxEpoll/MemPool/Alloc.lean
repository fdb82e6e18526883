import NgxEpoll.MemPool.Sound

/-!
# Allocation from the pool

What `pool_alloc` does to the invariant: a region is carved from a block, new or old,
or it is a large block whose descriptor is carved.

## The memory
-/

namespace NgxEpoll
namespace MemPool

open Foundation NgxEpoll.Core

variable {M : Malloc} {C : Contract M} {w : World M} {owned rest : List (Nat × Nat)}
variable {nodes : List Nat}

theorem Sound.withMem (h : Sound C w owned nodes rest) {m : Mem}
    (hm : forall l, l ∈ nodes -> forall k, k + 8 ≤ poolLargeSize ->
      loadNat m (l + k) 8 = loadNat w.mem (l + k) 8) :
    Sound C { w with mem := m } owned nodes rest := by
  have hlarge : larges m nodes = larges w.mem nodes := by
    refine List.filterMap_congr fun l hl => ?_
    have halloc := hm l hl 0 (by decide)
    rw [Nat.add_zero] at halloc
    rw [largeOf, largeOf, halloc, hm l hl 8 (by decide)]
  have hnext : forall l, l ∈ nodes -> nextLarge m l = nextLarge w.mem l := by
    intro l hl
    rw [nextLarge, nextLarge, hm l hl 16 (by decide)]
  exact
    { h with
      blocks := by
        rw [hlarge]
        exact h.blocks
      placed := by
        rw [hlarge]
        exact h.placed
      chain := h.chain.congr hnext
      positive := by
        rw [hlarge]
        exact h.positive }

theorem Sound.write (h : Sound C w owned nodes rest) {r : Nat × Nat} (hr : r ∈ owned)
    {m : Mem} (hm : DiffersIn w.mem m r.1 r.2) :
    Sound C { w with mem := m } owned nodes rest := by
  refine h.withMem fun l hl k hk => hm.loadNat_eq ?_
  have happart := h.node_apart hl hr
  unfold RegionsApart Apart descriptor at *
  dsimp only at *
  omega

/-!
## The system's allocator
-/

theorem Sound.malloc (h : Sound C w owned nodes rest) {n : Nat} (hn : 1 ≤ n) :
    (exists heap, memoryAlloc w.heap n = (none, heap) ∧
      Sound C { w with heap := heap } owned nodes rest) ∨
    exists p heap, memoryAlloc w.heap n = (some p, heap) ∧
      Sound C { w with heap := heap } owned nodes ((p, n) :: rest) := by
  have heq : memoryAlloc w.heap n = M.malloc w.heap n := if_neg (by omega)
  rw [heq]
  cases hmalloc : M.malloc w.heap n with
  | mk r heap =>
      cases r with
      | none =>
          obtain ⟨hvalid, hperm⟩ := C.malloc_none _ _ _ h.valid hmalloc
          exact Or.inl ⟨heap, rfl, h.heap hvalid (hperm.trans h.blocks)⟩
      | some p =>
          obtain ⟨hvalid, hperm⟩ := C.malloc_some _ _ _ _ h.valid hmalloc
          refine Or.inr ⟨p, heap, rfl, h.heap hvalid ?_⟩
          exact (hperm.trans (h.blocks.cons _)).trans List.perm_middle.symm

theorem Sound.free {p n : Nat} (h : Sound C w owned nodes ((p, n) :: rest)) :
    Sound C { w with heap := memoryFree w.heap p } owned nodes rest := by
  have hp : p ≠ 0 := by
    have := (h.inside (b := (p, n)) (by simp)).1
    dsimp only at this
    omega
  have hmem : (p, n) ∈ C.blocks w.heap := h.blocks.mem_iff.mpr (by simp)
  obtain ⟨hvalid, hperm⟩ := C.free _ p n h.valid hmem
  have heq : memoryFree w.heap p = M.free w.heap p := if_neg hp
  rw [heq]
  refine h.heap hvalid (hperm.trans ?_)
  have hfront := (h.blocks.trans List.perm_middle).erase (p, n)
  rwa [List.erase_cons_head] at hfront

theorem Sound.fresh_apart {b : Nat × Nat} (h : Sound C w owned nodes (b :: rest)) :
    (forall r, r ∈ owned -> RegionsApart b r) ∧
      forall l, l ∈ nodes -> RegionsApart b (descriptor l) := by
  have hblock : forall i, i < w.pool.count ->
      RegionsApart ((w.pool.block i).addr, w.pool.psize) b :=
    fun i hi => h.large_apart hi (by simp)
  have hlarge : forall r, r ∈ larges w.mem nodes -> RegionsApart r b := by
    intro r hr
    exact (List.pairwise_append.mp h.blocksApart).2.2 r (List.mem_append_right _ hr) b
      (by simp)
  have hmax := h.pool.max
  constructor
  · intro r hr
    obtain ⟨hpos, -, ⟨i, hi, hlo, hhi⟩ | hr⟩ := h.placed r hr
    · have happart := hblock i hi
      have hlast := h.pool.last i hi
      have hstop := h.pool.stop i hi
      unfold RegionsApart Apart at *
      dsimp only at *
      omega
    · exact (hlarge r hr).symm
  · intro l hl
    obtain ⟨i, hi, hlo, hhi⟩ := h.contained l hl
    have happart := hblock i hi
    have hstop := h.pool.stop i hi
    unfold RegionsApart Apart descriptor poolLargeSize at *
    dsimp only at *
    omega

/-!
## A new block
-/

def PoolT.extended (p : PoolT) (np current : Nat) : PoolT :=
  { p with
    block := Function.update p.block p.count
      ⟨np, np + poolDataSize, np + p.psize⟩
    count := p.count + 1
    current := current }

theorem extended_old {p : PoolT} {np current i : Nat} (hi : i < p.count) :
    (p.extended np current).block i = p.block i :=
  Function.update_of_ne (Nat.ne_of_lt hi) _ _

theorem extended_new {p : PoolT} {np current : Nat} :
    (p.extended np current).block p.count = ⟨np, np + poolDataSize, np + p.psize⟩ :=
  Function.update_self _ _ _

theorem extended_psize {p : PoolT} {np current : Nat} (h : 0 < p.count) :
    (p.extended np current).psize = p.psize := by
  unfold PoolT.psize
  rw [extended_old h]

theorem poolBlocks_extended {p : PoolT} {np current : Nat} (h : 0 < p.count) :
    poolBlocks (p.extended np current) = poolBlocks p ++ [(np, p.psize)] := by
  unfold poolBlocks
  rw [extended_psize h, show (p.extended np current).count = p.count + 1 from rfl,
    List.range_succ, List.map_append, List.map_singleton, extended_new]
  congr 1
  exact List.map_congr_left fun i hi => by rw [extended_old (List.mem_range.mp hi)]

theorem PoolOk.extended {p : PoolT} (h : PoolOk p) {np current : Nat}
    (hcurrent : current ≤ p.count) : PoolOk (p.extended np current) := by
  have hzero : 0 < p.count := Nat.lt_of_le_of_lt (Nat.zero_le _) h.current
  have hmax := h.max
  have hcount : (p.extended np current).count = p.count + 1 := rfl
  have hcases : forall i, i < p.count + 1 -> i < p.count ∨ i = p.count := fun i hi => by
    omega
  refine ⟨Nat.lt_succ_of_le hcurrent, by rwa [extended_psize hzero], ?_, ?_, ?_⟩
  · intro i hi
    rcases hcases i hi with hi | rfl
    · rw [extended_old hi]
      exact h.header i hi
    · rw [extended_new, headerSize, if_neg (by omega)]
  · intro i hi
    rcases hcases i hi with hi | rfl
    · rw [extended_old hi]
      exact h.last i hi
    · rw [extended_new]
      unfold poolSize at hmax
      unfold poolDataSize
      dsimp only
      omega
  · intro i hi
    rw [extended_psize hzero]
    rcases hcases i hi with hi | rfl
    · rw [extended_old hi]
      exact h.stop i hi
    · rw [extended_new]

theorem InBlock.extended {p : PoolT} {np current : Nat} {r : Nat × Nat} (h : InBlock p r) :
    InBlock (p.extended np current) r := by
  refine h.mono (Nat.le_succ _) (fun i hi => ?_) (fun i hi => ?_)
  · rw [extended_old hi]
  · rw [extended_old hi]

theorem Sound.extend {np current : Nat}
    (h : Sound C w owned nodes ((np, w.pool.psize) :: rest))
    (hcurrent : current ≤ w.pool.count) :
    Sound C { w with pool := w.pool.extended np current } owned nodes rest := by
  have hzero : 0 < w.pool.count := Nat.lt_of_le_of_lt (Nat.zero_le _) h.pool.current
  refine ⟨h.valid, ?_, h.pool.extended hcurrent, h.apart, ?_, ?_, h.chain, h.positive⟩
  · dsimp only
    rw [poolBlocks_extended hzero]
    have hmove : (poolBlocks w.pool ++ larges w.mem nodes ++ (np, w.pool.psize) :: rest).Perm
        (poolBlocks w.pool ++ [(np, w.pool.psize)] ++ larges w.mem nodes ++ rest) := by
      simp only [List.append_assoc, List.cons_append]
      refine List.Perm.append_left _ ?_
      rw [← List.append_assoc]
      exact List.perm_middle
    exact h.blocks.trans hmove
  · intro r hr
    exact (h.placed r hr).mono InBlock.extended
  · intro l hl
    obtain ⟨i, hi, hlo, hhi⟩ := h.contained l hl
    refine ⟨i, Nat.lt_succ_of_lt hi, ?_, ?_⟩
    · dsimp only
      rwa [extended_old hi]
    · dsimp only
      rwa [extended_old hi]

theorem nextCurrent_le (p : PoolT) : nextCurrent p ≤ p.count := by
  have hfold : forall (l : List Nat) (c : Option Nat), (forall i, i ∈ l -> i + 1 ≤ p.count) ->
      (forall i, c = some i -> i ≤ p.count) ->
      forall i, l.foldl (fun c i =>
        if (p.block i).stop - (p.block i).last < 8 then some (i + 1) else c) c = some i ->
        i ≤ p.count := by
    intro l
    induction l with
    | nil => exact fun c _ hc => hc
    | cons j l ih =>
        intro c hl hc
        refine ih _ (fun i hi => hl i (List.mem_cons_of_mem _ hi)) ?_
        intro i hi
        dsimp only at hi
        split at hi
        · cases hi
          exact hl j (by simp)
        · exact hc i hi
  unfold nextCurrent
  generalize hr : List.foldl _ _ _ = r
  cases r with
  | none => exact Nat.le_refl _
  | some i =>
      refine hfold _ none (fun j hj => ?_) (fun _ h => by cases h) i hr
      obtain ⟨k, hk, rfl⟩ := List.mem_range'.mp hj
      omega

/-!
## Small regions
-/

/-- Where a block has room for a request, the bytes it would give hold no linked
descriptor. -/
def ClearOf (p : PoolT) (nodes : List Nat) (size : Nat) : Prop :=
  forall i, i ∈ p.fromCurrent -> (p.block i).Fits size ->
    forall l, l ∈ nodes -> RegionsApart (alignPtr (p.block i).last, size) (descriptor l)

structure Grown (p p' : PoolT) : Prop where
  max : p'.max = p.max
  addr : (p'.block 0).addr = (p.block 0).addr
  stop : (p'.block 0).stop = (p.block 0).stop
  below : forall r, InBlock p r -> InBlock p' r

theorem Grown.refl (p : PoolT) : Grown p p :=
  ⟨rfl, rfl, rfl, fun _ hr => hr⟩

theorem mem_fromCurrent {p : PoolT} {i : Nat} (h : i ∈ p.fromCurrent) : i < p.count := by
  obtain ⟨k, hk, rfl⟩ := List.mem_range'.mp h
  omega

theorem allocBlock_spec (h : Sound C w owned nodes rest) {size : Nat} (hsize : 1 ≤ size)
    (hmax : size ≤ w.pool.max) :
    exists r w', allocBlock w size = (r, w') ∧ w'.mem = w.mem ∧
      w'.pool.large = w.pool.large ∧ Grown w.pool w'.pool ∧
      (forall m, r = some m -> InBlock w'.pool (m, size)) ∧
      Sound C w' (r.toList.map (fun m => (m, size)) ++ owned) nodes rest := by
  have hzero : 0 < w.pool.count := Nat.lt_of_le_of_lt (Nat.zero_le _) h.pool.current
  have hpsize := h.pool.max
  have hpos : 1 ≤ w.pool.psize := by
    unfold poolSize at hpsize
    omega
  unfold allocBlock
  rw [if_neg (by omega)]
  rcases h.malloc hpos with ⟨heap, heq, h'⟩ | ⟨np, heap, heq, h'⟩
  · rw [heq]
    exact ⟨_, _, rfl, rfl, rfl, Grown.refl _, fun _ hm => (by cases hm), h'⟩
  · rw [heq]
    have hinside := h'.inside (b := (np, w.pool.psize)) (by simp)
    have hfresh := h'.fresh_apart.2
    dsimp only at hinside hfresh
    have hm : alignPtr (np + poolDataSize) = np + poolDataSize :=
      alignPtr_eq (by unfold poolDataSize; omega) (by unfold poolDataSize; omega)
    have hblock : (w.pool.extended np (nextCurrent w.pool)).block w.pool.count =
        ⟨np, np + poolDataSize, np + w.pool.psize⟩ := extended_new
    have hcarve := (h'.extend (nextCurrent_le w.pool)).carve
      (i := w.pool.count) (m := np + poolDataSize) (n := size) (Nat.lt_succ_self _)
      (by dsimp only; rw [hblock]) (by unfold poolDataSize; omega) hsize
      (by
        dsimp only
        rw [hblock]
        unfold poolSize at hpsize
        unfold poolDataSize
        dsimp only
        omega)
      (fun l hl => by
        have := hfresh l hl
        unfold RegionsApart Apart descriptor poolLargeSize at *
        unfold poolSize at hpsize
        unfold poolDataSize
        dsimp only at *
        omega)
    have hworld : ({ w with
        heap := heap
        pool := w.pool.extended np (nextCurrent w.pool) } : World M).setLast w.pool.count
          (np + poolDataSize + size) =
        { w with
          heap := heap
          pool := { w.pool with
            block := Function.update w.pool.block w.pool.count
              ⟨np, np + poolDataSize + size, np + w.pool.psize⟩
            count := w.pool.count + 1
            current := nextCurrent w.pool } } := by
      unfold World.setLast PoolT.setLast PoolT.extended
      dsimp only
      rw [Function.update_idem, Function.update_self]
    dsimp only at hcarve
    rw [hworld] at hcarve
    have hfirst : Function.update w.pool.block w.pool.count
        ⟨np, np + poolDataSize + size, np + w.pool.psize⟩ 0 = w.pool.block 0 :=
      Function.update_of_ne (by omega) _ _
    dsimp only
    rw [hm]
    refine ⟨_, _, rfl, rfl, rfl, ⟨rfl, congrArg Block.addr hfirst,
      congrArg Block.stop hfirst, fun r hr => ?_⟩, fun m hm => ?_, hcarve⟩
    · refine hr.mono (Nat.le_succ _) (fun i hi => ?_) (fun i hi => ?_)
      · dsimp only
        rw [Function.update_of_ne (Nat.ne_of_lt hi)]
      · dsimp only
        rw [Function.update_of_ne (Nat.ne_of_lt hi)]
    cases hm
    refine ⟨w.pool.count, Nat.lt_succ_self _, ?_, ?_⟩
    · dsimp only
      rw [Function.update_self, headerSize, if_neg (by omega)]
    · dsimp only
      rw [Function.update_self]

theorem allocSmall_spec (h : Sound C w owned nodes rest) {size : Nat} (hsize : 1 ≤ size)
    (hmax : size ≤ w.pool.max) (hclear : ClearOf w.pool nodes size) :
    exists r w', allocSmall w size = (r, w') ∧ w'.mem = w.mem ∧
      w'.pool.large = w.pool.large ∧ Grown w.pool w'.pool ∧
      (forall m, r = some m -> InBlock w'.pool (m, size)) ∧
      Sound C w' (r.toList.map (fun m => (m, size)) ++ owned) nodes rest := by
  unfold allocSmall
  cases hfind : w.pool.fromCurrent.find? fun i => (w.pool.block i).Fits size with
  | none => exact allocBlock_spec h hsize hmax
  | some i =>
      have hmem := List.mem_of_find?_eq_some hfind
      have hfits : (w.pool.block i).Fits size := by
        simpa using List.find?_some hfind
      have hi := mem_fromCurrent hmem
      have hinside := h.block_inside hi
      have hlast := h.pool.last i hi
      have hstop := h.pool.stop i hi
      have halign := alignPtr_spec (x := (w.pool.block i).last) (by omega)
      obtain ⟨hroom, hfit⟩ := hfits
      have hcarve := h.carve hi halign.1 halign.2.2 hsize (by omega)
        (hclear i hmem ⟨hroom, hfit⟩)
      refine ⟨_, _, rfl, rfl, rfl, ⟨rfl, setLast_addr _ _ _ _, setLast_stop _ _ _ _,
        fun r hr => hr.setLast (by omega)⟩, fun m hm => ?_, hcarve⟩
      cases hm
      have hheader := h.pool.header i hi
      refine ⟨i, hi, ?_, ?_⟩
      · simp only [World.setLast, setLast_addr]
        omega
      · simp [World.setLast, setLast_last]

/-!
## Large regions
-/

theorem Sound.large_lt (h : Sound C w owned nodes rest) : w.pool.large < 2 ^ 64 := by
  by_cases hnull : w.pool.large = 0
  · omega
  · have hchain := h.chain
    rw [toPtr, if_neg hnull] at hchain
    obtain ⟨ns, rfl, -⟩ := chain_some.mp hchain
    obtain ⟨i, hi, -, hhi⟩ := h.contained w.pool.large (by simp)
    have hinside := h.block_inside hi
    have hstop := h.pool.stop i hi
    omega

/-- A carved descriptor is linked to the large block that was allocated for it. -/
theorem Sound.link {l p n : Nat}
    (h : Sound C w (descriptor l :: owned) nodes ((p, n) :: rest)) (hn : 1 ≤ n)
    (hl : w.pool.Contains l) :
    DiffersIn w.mem (linkLarge w l p n).mem l poolLargeSize ∧
      Sound C (linkLarge w l p n) ((p, n) :: owned) (l :: nodes) rest := by
  obtain ⟨hp, halign, hpn⟩ := h.inside (b := (p, n)) (by simp)
  have hlarge := h.large_lt
  have hfresh := h.fresh_apart
  obtain ⟨happart, hpairs⟩ := List.pairwise_cons.mp h.apart
  have hdiffers : DiffersIn w.mem (linkLarge w l p n).mem l poolLargeSize :=
    ((differsIn_storeNat _ p (Nat.le_refl _) (by unfold poolLargeSize; omega)).trans
      (differsIn_storeNat _ n (by omega) (by unfold poolLargeSize; omega))).trans
      (differsIn_storeNat _ _ (by omega) (by unfold poolLargeSize; omega))
  have hold := h.write (r := descriptor l) (by simp) hdiffers
  -- the three words of the new descriptor
  have halloc : loadNat (linkLarge w l p n).mem l 8 = p := by
    dsimp only [linkLarge]
    rw [loadNat_storeNat_of_apart _ _ (by unfold Apart; omega),
      loadNat_storeNat_of_apart _ _ (by unfold Apart; omega), loadNat_storeNat_self]
    exact Nat.mod_eq_of_lt (by dsimp only at hpn; omega)
  have hsize : loadNat (linkLarge w l p n).mem (l + 8) 8 = n := by
    dsimp only [linkLarge]
    rw [loadNat_storeNat_of_apart _ _ (by unfold Apart; omega), loadNat_storeNat_self]
    exact Nat.mod_eq_of_lt (by dsimp only at hpn; omega)
  have hnext : loadNat (linkLarge w l p n).mem (l + 16) 8 = w.pool.large := by
    dsimp only [linkLarge]
    rw [loadNat_storeNat_self]
    exact Nat.mod_eq_of_lt (by omega)
  have hpos : l ≠ 0 := by
    obtain ⟨i, -, hlo, -⟩ := hl
    unfold poolDataSize at hlo
    omega
  have hcons : larges (linkLarge w l p n).mem (l :: nodes) =
      (p, n) :: larges (linkLarge w l p n).mem nodes := by
    have hself : largeOf (linkLarge w l p n).mem l = some (p, n) := by
      rw [largeOf, halloc, hsize, if_neg (by dsimp only at hp; omega)]
    exact List.filterMap_cons_some hself
  refine ⟨hdiffers, h.valid, ?_,
    ⟨h.pool.current, h.pool.max, h.pool.header, h.pool.last, h.pool.stop⟩, ?_, ?_, ?_, ?_,
    ?_⟩
  · rw [hcons]
    refine hold.blocks.trans ?_
    simp only [List.append_assoc, List.cons_append]
    refine List.Perm.append_left _ List.perm_middle
  · rw [List.map_cons, List.cons_append]
    refine List.pairwise_cons.mpr ⟨fun r hr => ?_, ?_⟩
    · rcases List.mem_append.mp hr with hr | hr
      · exact hfresh.1 r (List.mem_cons_of_mem _ hr)
      · rcases List.mem_cons.mp hr with rfl | hr
        · exact hfresh.1 _ (by simp)
        · obtain ⟨x, hx, rfl⟩ := List.mem_map.mp hr
          exact hfresh.2 x hx
    · have hperm : (owned ++ descriptor l :: nodes.map descriptor).Perm
          (descriptor l :: owned ++ nodes.map descriptor) := List.perm_middle
      exact (pairwise_apart_perm hperm).mpr h.apart
  · intro r hr
    rw [hcons]
    rcases List.mem_cons.mp hr with rfl | hr
    · exact ⟨hn, by dsimp only at *; omega, Or.inr (by simp)⟩
    · obtain ⟨h1, h2, h3⟩ := hold.placed r (List.mem_cons_of_mem _ hr)
      exact ⟨h1, h2, h3.imp_right (List.mem_cons_of_mem _)⟩
  · intro x hx
    rcases List.mem_cons.mp hx with rfl | hx
    · exact hl
    · exact h.contained x hx
  · refine ⟨if_neg hpos, ?_⟩
    rw [nextLarge, hnext]
    exact hold.chain
  · rw [hcons]
    intro b hb
    rcases List.mem_cons.mp hb with rfl | hb
    · exact hn
    · exact hold.positive b hb

/-- The bytes that a request takes from a block: its own, or those of a
descriptor. -/
def carved (p : PoolT) (size : Nat) : Nat :=
  if size ≤ p.max then size else poolLargeSize

theorem InBlock.contains {p : PoolT} {l : Nat} (hp : PoolOk p)
    (h : InBlock p (descriptor l)) : p.Contains l := by
  obtain ⟨i, hi, hlo, hhi⟩ := h
  have hlast := hp.last i hi
  have hheader := le_headerSize i
  unfold descriptor at *
  dsimp only at *
  exact ⟨i, hi, by omega, by omega⟩

/-- Every linked descriptor lies below `data.last` of a block. -/
def Low (p : PoolT) (nodes : List Nat) : Prop :=
  forall l, l ∈ nodes -> InBlock p (descriptor l)

theorem Low.grown {p p' : PoolT} (h : Low p nodes) (hgrown : Grown p p') : Low p' nodes :=
  fun l hl => hgrown.below _ (h l hl)

theorem allocLarge_spec (h : Sound C w owned nodes rest) {size : Nat} (hsize : 1 ≤ size)
    (hclear : ClearOf w.pool nodes poolLargeSize) {r : Option Nat} {w' : World M}
    (heq : allocLarge w size = some (r, w')) :
    exists nodes', Grown w.pool w'.pool ∧
      (forall q, q ∈ owned -> load w'.mem q.1 q.2 = load w.mem q.1 q.2) ∧
      Sound C w' (r.toList.map (fun m => (m, size)) ++ owned) nodes' rest ∧
      (Low w.pool nodes -> Low w'.pool nodes') := by
  unfold allocLarge at heq
  rcases h.malloc hsize with ⟨heap, hmalloc, h'⟩ | ⟨p, heap, hmalloc, h'⟩
  · rw [hmalloc] at heq
    cases heq
    exact ⟨nodes, Grown.refl _, fun _ _ => rfl, h', fun hlow => hlow⟩
  · rw [hmalloc] at heq
    dsimp only at heq
    split at heq
    · cases heq
    rename_i hmax
    obtain ⟨d, w1, hsmall, hmem, -, hgrown, hin, h1⟩ :=
      allocSmall_spec h' (by decide) (Nat.le_of_not_lt hmax) hclear
    rw [hsmall] at heq
    cases d with
    | none =>
        cases heq
        exact ⟨nodes, hgrown, fun q _ => by rw [hmem], h1.free, fun hlow => hlow.grown hgrown⟩
    | some l =>
        cases heq
        obtain ⟨hdiffers, h2⟩ := h1.link hsize ((hin l rfl).contains h1.pool)
        refine ⟨l :: nodes, ⟨hgrown.max, hgrown.addr, hgrown.stop, hgrown.below⟩,
          fun q hq => ?_, h2, fun hlow x hx => ?_⟩
        · rw [hdiffers.load_eq ?_, hmem]
          exact ((List.pairwise_cons.mp h1.apart).1 q (List.mem_append_left _ hq)).symm
        · rcases List.mem_cons.mp hx with rfl | hx
          · exact hin x rfl
          · exact hlow.grown hgrown x hx

theorem alloc_spec (h : Sound C w owned nodes rest) {size : Nat}
    (hclear : ClearOf w.pool nodes (carved w.pool size)) {r : Option Nat} {w' : World M}
    (heq : alloc w size = some (r, w')) :
    exists nodes', Grown w.pool w'.pool ∧
      (forall q, q ∈ owned -> load w'.mem q.1 q.2 = load w.mem q.1 q.2) ∧
      Sound C w' (r.toList.map (fun m => (m, size)) ++ owned) nodes' rest ∧
      (Low w.pool nodes -> Low w'.pool nodes') := by
  unfold alloc at heq
  unfold carved at hclear
  split at heq
  · cases heq
    exact ⟨nodes, Grown.refl _, fun _ _ => rfl, h, fun hlow => hlow⟩
  · rename_i hsize
    split at heq
    · rename_i hmax
      rw [if_pos hmax] at hclear
      obtain ⟨r', w1, hsmall, hmem, -, hgrown, -, h1⟩ :=
        allocSmall_spec h (by omega) hmax hclear
      rw [hsmall] at heq
      cases heq
      exact ⟨nodes, hgrown, fun q _ => by rw [hmem], h1, fun hlow => hlow.grown hgrown⟩
    · rename_i hmax
      rw [if_neg hmax] at hclear
      exact allocLarge_spec h (by omega) hclear heq

theorem calloc_spec (h : Sound C w owned nodes rest) {size : Nat}
    (hclear : ClearOf w.pool nodes (carved w.pool size)) {r : Option Nat} {w' : World M}
    (heq : calloc w size = some (r, w')) :
    exists nodes', Grown w.pool w'.pool ∧
      (forall q, q ∈ owned -> load w'.mem q.1 q.2 = load w.mem q.1 q.2) ∧
      Sound C w' (r.toList.map (fun m => (m, size)) ++ owned) nodes' rest ∧
      (Low w.pool nodes -> Low w'.pool nodes') := by
  unfold calloc at heq
  split at heq
  · cases heq
  · rename_i halloc
    cases heq
    exact alloc_spec h hclear halloc
  · rename_i p w1 halloc
    cases heq
    obtain ⟨nodes', hgrown, hkeep, h1, hlow⟩ := alloc_spec h hclear halloc
    have hzero : DiffersIn w1.mem (store w1.mem p (List.replicate size 0)) p size :=
      differsIn_store _ (Nat.le_refl _) (by simp)
    refine ⟨nodes', hgrown, fun q hq => ?_,
      h1.write (r := (p, size)) (by simp) hzero, hlow⟩
    rw [hzero.load_eq ?_, hkeep q hq]
    exact ((List.pairwise_cons.mp h1.apart).1 q (List.mem_append_left _ hq)).symm

end MemPool
end NgxEpoll
