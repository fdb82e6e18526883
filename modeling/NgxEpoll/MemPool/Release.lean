import NgxEpoll.MemPool.Alloc

/-!
# The end of regions

`pool_reset` and `pool_destroy` walk the linked descriptors and release the large
block of each.

## The loops
-/

namespace NgxEpoll
namespace MemPool

open Foundation NgxEpoll.Core

variable {M : Malloc} {C : Contract M} {w : World M} {owned rest : List (Nat × Nat)}
variable {nodes : List Nat}

theorem freeLarge_mono {clear : Bool} {turns turns' : Nat} {w : World M} {l : Nat}
    {r : List Nat × World M} (hle : turns ≤ turns')
    (h : freeLarge clear turns w l = some r) : freeLarge clear turns' w l = some r := by
  induction turns generalizing turns' w l r with
  | zero =>
      unfold freeLarge at h ⊢
      split at h
      · rename_i hl
        rwa [if_pos hl]
      · cases h
  | succ turns ih =>
      obtain ⟨k, rfl⟩ : exists k, turns' = k + 1 := ⟨turns' - 1, by omega⟩
      unfold freeLarge at h ⊢
      split at h
      · rename_i hl
        rwa [if_pos hl]
      rename_i hl
      rw [if_neg hl]
      dsimp only at h ⊢
      split at h
      · rename_i hin
        rw [if_pos hin]
        split at h
        · rename_i hp
          rw [if_pos hp]
          exact ih (by omega) h
        · rename_i hp
          rw [if_neg hp]
          obtain ⟨q, hq, rfl⟩ := Option.map_eq_some_iff.mp h
          rw [ih (by omega) hq]
          rfl
      · cases h

/-- The descriptors `ns` from `l` on, whose large blocks are not released yet. -/
structure Pending (C : Contract M) (w : World M) (l : Nat) (ns : List Nat)
    (rest : List (Nat × Nat)) : Prop where
  valid : C.valid w.heap
  blocks : (C.blocks w.heap).Perm (poolBlocks w.pool ++ larges w.mem ns ++ rest)
  contained : forall x, x ∈ ns -> w.pool.Contains x
  apart : (ns.map descriptor).Pairwise RegionsApart
  chain : Chain (nextLarge w.mem) (toPtr l) ns

structure Walked (C : Contract M) (clear : Bool) (w w' : World M) (ns : List Nat)
    (rest : List (Nat × Nat)) : Prop where
  pool : w'.pool = w.pool
  valid : C.valid w'.heap
  blocks : (C.blocks w'.heap).Perm (poolBlocks w.pool ++ rest)
  keeps : forall b k, (forall x, x ∈ ns -> RegionsApart (b, k) (descriptor x)) ->
    loadNat w'.mem b k = loadNat w.mem b k
  next : forall x, x ∈ ns -> nextLarge w'.mem x = nextLarge w.mem x
  cleared : clear = true -> forall x, x ∈ ns -> largeOf w'.mem x = none

theorem Pending.pos {l x : Nat} {ns : List Nat} (h : Pending C w l ns rest)
    (hx : x ∈ ns) : x ≠ 0 := by
  obtain ⟨i, -, hlo, -⟩ := h.contained x hx
  unfold poolDataSize at hlo
  omega

theorem word_apart {x y k : Nat} (h : RegionsApart (descriptor x) (descriptor y))
    (hk : k + 8 ≤ poolLargeSize) : RegionsApart (x + k, 8) (descriptor y) := by
  unfold RegionsApart Apart descriptor poolLargeSize at *
  dsimp only at *
  omega

theorem Pending.others {x : Nat} {ns : List Nat} (h : Pending C w x (x :: ns) rest) :
    forall y, y ∈ ns -> RegionsApart (descriptor x) (descriptor y) :=
  fun _ hy => (List.pairwise_cons.mp h.apart).1 _ (List.mem_map_of_mem hy)

theorem Pending.freed {x : Nat} {ns : List Nat} (h : Pending C w x (x :: ns) rest)
    (hp : loadNat w.mem x 8 ≠ 0) {m : Mem}
    (hkeep : forall b k, RegionsApart (b, k) (x, 8) -> loadNat m b k = loadNat w.mem b k) :
    Pending C { w with heap := M.free w.heap (loadNat w.mem x 8), mem := m }
      (loadNat m (x + 16) 8) ns rest ∧
    larges w.mem (x :: ns) = (loadNat w.mem x 8, loadNat w.mem (x + 8) 8) :: larges m ns := by
  have hword : forall y, y ∈ ns -> forall k, k + 8 ≤ poolLargeSize ->
      loadNat m (y + k) 8 = loadNat w.mem (y + k) 8 := by
    intro y hy k hk
    have hxy := (h.others y hy).symm
    refine hkeep _ _ ?_
    unfold RegionsApart Apart descriptor at *
    dsimp only at *
    omega
  have hrest : larges m ns = larges w.mem ns := by
    refine List.filterMap_congr fun y hy => ?_
    have halloc := hword y hy 0 (by decide)
    rw [Nat.add_zero] at halloc
    rw [largeOf, largeOf, halloc, hword y hy 8 (by decide)]
  have hlarge : larges w.mem (x :: ns) =
      (loadNat w.mem x 8, loadNat w.mem (x + 8) 8) :: larges m ns := by
    rw [hrest]
    exact List.filterMap_cons_some (if_neg hp)
  have hnext : loadNat m (x + 16) 8 = loadNat w.mem (x + 16) 8 := by
    refine hkeep _ _ ?_
    unfold RegionsApart Apart
    dsimp only
    omega
  have hblocks := h.blocks
  rw [hlarge, List.append_assoc, List.cons_append] at hblocks
  have hfront := hblocks.trans List.perm_middle
  obtain ⟨hvalid, hperm⟩ := C.free _ _ _ h.valid
    (hfront.mem_iff.mpr List.mem_cons_self)
  have hless := hfront.erase (loadNat w.mem x 8, loadNat w.mem (x + 8) 8)
  rw [List.erase_cons_head] at hless
  refine ⟨⟨hvalid, ?_, fun y hy => h.contained y (List.mem_cons_of_mem _ hy),
    (List.pairwise_cons.mp h.apart).2, ?_⟩, hlarge⟩
  · rw [List.append_assoc]
    exact hperm.trans hless
  · rw [hnext]
    refine h.chain.2.congr fun y hy => ?_
    rw [nextLarge, nextLarge, hword y hy 16 (by decide)]

theorem Walked.cons {clear : Bool} {w w1 w' : World M} {x : Nat} {ns : List Nat}
    (h : Walked C clear w1 w' ns rest) (hpool : w1.pool = w.pool)
    (hothers : forall y, y ∈ ns -> RegionsApart (descriptor x) (descriptor y))
    (hkeep : forall b k, RegionsApart (b, k) (x, 8) ->
      loadNat w1.mem b k = loadNat w.mem b k)
    (hcleared : clear = true -> loadNat w1.mem x 8 = 0) :
    Walked C clear w w' (x :: ns) rest := by
  have hword : forall k, k + 8 ≤ poolLargeSize -> loadNat w'.mem (x + k) 8 =
      loadNat w1.mem (x + k) 8 :=
    fun k hk => h.keeps _ _ fun y hy => word_apart (hothers y hy) hk
  refine ⟨h.pool.trans hpool, h.valid, by rw [← hpool]; exact h.blocks, ?_, ?_, ?_⟩
  · intro b k hapart
    have hx := hapart x (by simp)
    rw [h.keeps b k fun y hy => hapart y (List.mem_cons_of_mem _ hy), hkeep b k]
    unfold RegionsApart Apart descriptor poolLargeSize at *
    dsimp only at *
    omega
  · intro y hy
    rcases List.mem_cons.mp hy with rfl | hy
    · rw [nextLarge, nextLarge, hword 16 (by decide), hkeep]
      unfold RegionsApart Apart
      dsimp only
      omega
    · have hxy := (hothers y hy).symm
      rw [h.next y hy, nextLarge, nextLarge, hkeep]
      unfold RegionsApart Apart descriptor poolLargeSize at *
      dsimp only at *
      omega
  · intro hclear y hy
    rcases List.mem_cons.mp hy with rfl | hy
    · have hzero := hword 0 (by decide)
      rw [Nat.add_zero] at hzero
      rw [largeOf, hzero, hcleared hclear, if_pos rfl]
    · exact h.cleared hclear y hy

theorem freeLarge_spec (clear : Bool) {turns l : Nat} {ns : List Nat} {w : World M}
    (h : Pending C w l ns rest) (hturns : ns.length ≤ turns) :
    exists w', freeLarge clear turns w l = some ((larges w.mem ns).map Prod.fst, w') ∧
      Walked C clear w w' ns rest := by
  induction ns generalizing turns w l with
  | nil =>
      have hl : l = 0 := by
        have hchain := h.chain
        unfold Chain toPtr at hchain
        by_contra hl
        rw [if_neg hl] at hchain
        cases hchain
      refine ⟨w, ?_, rfl, h.valid, by simpa [larges] using h.blocks, fun _ _ _ => rfl,
        by simp, by simp⟩
      unfold freeLarge
      rw [if_pos hl]
      rfl
  | cons x ns ih =>
      obtain ⟨turns, rfl⟩ : exists k, turns = k + 1 := ⟨turns - 1, by
        rw [List.length_cons] at hturns
        omega⟩
      have hx0 := h.pos (x := x) (by simp)
      obtain ⟨hhead, hchain⟩ := h.chain
      obtain rfl : x = l := by
        unfold toPtr at hhead
        split at hhead
        · cases hhead
        · exact (Option.some.inj hhead).symm
      have hothers := h.others
      have hcontained := h.contained x (by simp)
      unfold freeLarge
      rw [if_neg hx0]
      dsimp only
      rw [if_pos hcontained]
      by_cases hp : loadNat w.mem x 8 = 0
      · have hlarge : larges w.mem (x :: ns) = larges w.mem ns :=
          List.filterMap_cons_none (if_pos hp)
        have hrest : Pending C w (loadNat w.mem (x + 16) 8) ns rest :=
          ⟨h.valid, by rw [← hlarge]; exact h.blocks,
            fun y hy => h.contained y (List.mem_cons_of_mem _ hy),
            (List.pairwise_cons.mp h.apart).2, hchain⟩
        obtain ⟨w', heq, hwalked⟩ := ih hrest (Nat.le_of_succ_le_succ hturns)
        rw [if_pos hp, heq, hlarge]
        exact ⟨w', rfl, hwalked.cons rfl hothers (fun _ _ _ => rfl) fun _ => hp⟩
      · rw [if_neg hp]
        generalize hm : (if clear = true then storeNat w.mem x 8 0 else w.mem) = m
        have hkeep : forall b k, RegionsApart (b, k) (x, 8) ->
            loadNat m b k = loadNat w.mem b k := by
          intro b k hapart
          rw [← hm]
          split
          · exact loadNat_storeNat_of_apart _ _ hapart
          · rfl
        obtain ⟨hrest, hlarge⟩ := h.freed hp hkeep
        obtain ⟨w', heq, hwalked⟩ := ih hrest (Nat.le_of_succ_le_succ hturns)
        dsimp only at heq ⊢
        rw [heq, hlarge]
        refine ⟨w', rfl, hwalked.cons rfl hothers hkeep fun hclear => ?_⟩
        rw [← hm, if_pos hclear, loadNat_storeNat_self]
        exact Nat.zero_mod _

/-!
## The two functions
-/

theorem Sound.pending (h : Sound C w owned nodes rest) :
    Pending C w w.pool.large nodes rest :=
  ⟨h.valid, h.blocks, h.contained, (List.pairwise_append.mp h.apart).2.1, h.chain⟩

theorem PoolOk.rewound {p : PoolT} (h : PoolOk p) : PoolOk p.rewound := by
  have hmax := h.max
  refine ⟨Nat.lt_of_le_of_lt (Nat.zero_le _) h.current, h.max, ?_, ?_, h.stop⟩
  · intro i _
    exact Nat.add_le_add_left (le_headerSize i).2 _
  · intro i hi
    have hstop := h.stop i hi
    dsimp only [PoolT.rewound]
    omega

theorem reset_mono {turns turns' : Nat} {r : List Nat × World M} (hle : turns ≤ turns')
    (h : reset turns w = some r) : reset turns' w = some r := by
  obtain ⟨q, hq, rfl⟩ := Option.map_eq_some_iff.mp h
  unfold reset
  rw [freeLarge_mono hle hq]
  rfl

theorem reset_spec (h : Sound C w owned nodes rest) {turns : Nat}
    (hturns : nodes.length ≤ turns) :
    exists w', reset turns w = some ((larges w.mem nodes).map Prod.fst, w') ∧
      w'.pool = w.pool.rewound ∧ larges w'.mem nodes = [] ∧
      Sound C w' [] nodes rest := by
  obtain ⟨w', heq, hwalked⟩ := freeLarge_spec true h.pending hturns
  have hlarge : larges w'.mem nodes = [] :=
    List.filterMap_eq_nil_iff.mpr (hwalked.cleared rfl)
  have hpool : ({ w' with pool := w'.pool.rewound } : World M).pool = w.pool.rewound :=
    congrArg PoolT.rewound hwalked.pool
  refine ⟨{ w' with pool := w'.pool.rewound }, ?_, hpool, hlarge, hwalked.valid, ?_, ?_,
    (List.pairwise_append.mp h.apart).2.1, by simp, ?_, ?_, by simp [hlarge]⟩
  · unfold reset
    rw [heq]
    rfl
  · rw [hpool]
    dsimp only
    rw [hlarge, List.append_nil]
    exact hwalked.blocks
  · rw [hpool]
    exact h.pool.rewound
  · rw [hpool]
    exact h.contained
  · rw [hpool]
    exact h.chain.congr hwalked.next

theorem foldl_free {bs : List (Nat × Nat)} {heap : M.State} (hvalid : C.valid heap)
    (h : (C.blocks heap).Perm (bs ++ rest)) :
    C.valid ((bs.map Prod.fst).foldl M.free heap) ∧
      (C.blocks ((bs.map Prod.fst).foldl M.free heap)).Perm rest := by
  induction bs generalizing heap with
  | nil => exact ⟨hvalid, h⟩
  | cons b bs ih =>
      obtain ⟨hvalid', hperm⟩ := C.free heap b.1 b.2 hvalid (h.mem_iff.mpr (by simp))
      have hrest := h.erase b
      rw [List.cons_append, List.erase_cons_head] at hrest
      exact ih hvalid' (hperm.trans hrest)

theorem addrs_eq (p : PoolT) : p.addrs = (poolBlocks p).map Prod.fst := by
  simp [PoolT.addrs, poolBlocks]

/-- The large blocks and those of the pool are released by `pool_destroy`, each
once. -/
theorem destroy_spec (h : Sound C w owned nodes rest) {turns : Nat}
    (hturns : nodes.length ≤ turns) :
    exists heap, destroy turns w =
        some ((larges w.mem nodes ++ poolBlocks w.pool).map Prod.fst, heap) ∧
      C.valid heap ∧ (C.blocks heap).Perm rest := by
  obtain ⟨w', heq, hwalked⟩ := freeLarge_spec false h.pending hturns
  have hfree := foldl_free hwalked.valid hwalked.blocks
  refine ⟨(w.pool.addrs).foldl M.free w'.heap, ?_, ?_⟩
  · unfold destroy
    rw [heq]
    dsimp only [Option.map_some]
    rw [hwalked.pool, List.map_append, addrs_eq]
  · rw [addrs_eq]
    exact hfree

theorem Sound.starts (h : Sound C w owned nodes rest) :
    ((larges w.mem nodes ++ poolBlocks w.pool).map Prod.fst).Nodup := by
  have hpos : forall b, b ∈ larges w.mem nodes ++ poolBlocks w.pool -> 1 ≤ b.2 := by
    intro b hb
    rcases List.mem_append.mp hb with hb | hb
    · exact h.positive b hb
    · obtain ⟨i, -, rfl⟩ := List.mem_map.mp hb
      have hmax := h.pool.max
      unfold poolSize at hmax
      dsimp only
      omega
  have hpairs : (larges w.mem nodes ++ poolBlocks w.pool).Pairwise RegionsApart :=
    (pairwise_apart_perm List.perm_append_comm).mp
      (List.pairwise_append.mp h.blocksApart).1
  refine List.pairwise_map.mpr (hpairs.imp_of_mem fun {a b} ha hb hab heq => ?_)
  have ha1 := hpos a ha
  have hb1 := hpos b hb
  unfold RegionsApart Apart at hab
  omega

end MemPool
end NgxEpoll
