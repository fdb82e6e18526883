import NgxEpoll.Slabs.Chunks

/-!
# Requests in a run

What `dfs_slabs_split_alloc` and `dfs_slabs_free` do to the chunks a manager owns, and
what holds of every request in every run.

## Split chunks and release
-/

namespace NgxEpoll
namespace Slabs

open Foundation NgxEpoll.Core

variable {A : MemAllocator} {H : Honest A} {w w' : World A}
variable {frees : Nat -> List Nat} {out : List Nat}

/-- `dfs_slabs_split_alloc` gets as far as the allocator. -/
def SplitTried (w : World A) (reqSize : Nat) (slabSize : Bool) : Prop :=
  reqSize ≠ 0 ∧ slabSize = true ∧ A.splitAlloc.isSome = true ∧
    chunkSizeOf reqSize ≤ w.mgr.classSize (w.mgr.freeLen - 1)

instance (w : World A) (reqSize : Nat) (slabSize : Bool) :
    Decidable (SplitTried w reqSize slabSize) :=
  inferInstanceAs (Decidable (_ ∧ _))

inductive Split (H : Honest A) (out : List Nat) (reqMinsize : Nat) :
    Option Nat × Option Nat × Errno × World A -> Prop where
  | refused {sz : Option Nat} {e : Errno} {w' : World A} {frees' : Nat -> List Nat}
      (owned : Owned H w' frees' out) : Split H out reqMinsize (none, sz, e, w')
  | served {c : Nat} {e : Errno} {w' : World A} {frees' : Nat -> List Nat}
      (owned : Owned H w' frees' (c :: out)) (fits : reqMinsize ≤ (w'.mem c).size)
      (block : blockOf w' c ∈ H.blocks w'.heap) :
      Split H out reqMinsize (some (c + chunkLinkSize), some (w'.mem c).size, e, w')

theorem Given.takeSplit {c act : Nat} (h : Given H w out c act) (hact : chunkLinkSize ≤ act)
    (req : Nat) :
    exists frees, Owned H (takeSplit w c (act - chunkLinkSize) req) frees (c :: out) := by
  obtain ⟨⟨frees, howned, hc⟩, hblock⟩ := h
  have hnew : (Slabs.takeSplit w c (act - chunkLinkSize) req).mem c =
      { w.mem c with id := splitId, size := act - chunkLinkSize, reqSize := req } :=
    Function.update_self _ _ _
  refine ⟨frees, howned.add hc (fun d hd => Function.update_of_ne hd _ _) rfl rfl rfl ?_ ?_
    (sizeAdd_eq howned.count_lt)⟩
  · unfold blockOf
    rw [hnew]
    dsimp only
    rw [Nat.sub_add_cancel hact]
    exact hblock
  · rw [hnew]
    exact Or.inl rfl

theorem Owned.splitAlloc (h : Owned H w frees out) {reqSize : Nat} {slabSize : Bool}
    {reqMinsize : Nat} (hreq : SplitTried w reqSize slabSize -> NoWrap reqMinsize) :
    shape (splitAlloc w reqSize slabSize reqMinsize).2.2.2.mgr = shape w.mgr ∧
      Split H out reqMinsize (splitAlloc w reqSize slabSize reqMinsize) := by
  unfold Slabs.splitAlloc
  by_cases hparam : reqSize = 0 ∨ slabSize = false
  · rw [if_pos hparam]
    exact ⟨rfl, Split.refused h⟩
  rw [if_neg hparam]
  rw [not_or, Bool.not_eq_false] at hparam
  cases hsplit : A.splitAlloc with
  | none => exact ⟨rfl, Split.refused h⟩
  | some split =>
      dsimp only
      by_cases hlarge : w.mgr.classSize (w.mgr.freeLen - 1) < chunkSizeOf reqSize
      · rw [if_pos hlarge]
        exact ⟨rfl, Split.refused h⟩
      rw [if_neg hlarge]
      have hwrap := hreq ⟨hparam.1, hparam.2, by rw [hsplit]; rfl, Nat.le_of_not_lt hlarge⟩
      cases halloc : split w.heap (chunkSizeOf reqMinsize) with
      | mk r heap =>
          cases r with
          | none =>
              obtain ⟨hvalid, hblocks⟩ := H.split_none split hsplit _ _ _ h.valid halloc
              exact ⟨rfl, Split.refused (h.congr rfl rfl rfl hvalid hblocks rfl)⟩
          | some r =>
              obtain ⟨c, act⟩ := r
              obtain ⟨hact, hvalid, hmem, hblocks⟩ :=
                H.split_some split hsplit _ _ _ _ _ h.valid halloc
              have hmin := (chunkSizeOf_spec hwrap).1
              have hpos : 0 < act := by
                unfold chunkLinkSize at hmin
                omega
              have hgiven := h.given hpos hvalid hmem hblocks
              have hsub : sizeSub act chunkLinkSize = act - chunkLinkSize :=
                sizeSub_eq (by omega)
              dsimp only
              rw [hsub]
              generalize (if act - chunkLinkSize ≤ reqSize then act - chunkLinkSize
                else reqSize) = req
              obtain ⟨frees', howned⟩ := hgiven.takeSplit (by omega) req
              have hsize : ((Slabs.takeSplit { w with heap := heap } c (act - chunkLinkSize)
                  req).mem c).size = act - chunkLinkSize := by
                dsimp only [Slabs.takeSplit]
                rw [Function.update_self]
              have hserved := @Split.served A H out reqMinsize c Errno.none _ _
                howned (by rw [hsize]; omega) (howned.blocks c (List.mem_append_left _
                  (List.mem_cons_self ..)))
              rw [hsize] at hserved
              exact ⟨rfl, hserved⟩

theorem Owned.linkFree (h : Owned H w frees out) {i c : Nat} (hc : c ∈ out)
    (hi : i < w.mgr.freeLen) (hsize : (w.mem c).size + chunkLinkSize = w.mgr.classSize i)
    (hfree : A.free ≠ none) :
    Owned H (linkFree w i c) (Function.update frees i (c :: frees i)) (out.erase c) := by
  have hmem := linkFree_mem w i c
  have hpush : (listed w.mgr.freeLen (Function.update frees i (c :: frees i))).Perm
      (c :: listed w.mgr.freeLen frees) := listed_push hi
  have hperm : (out.erase c ++ listed w.mgr.freeLen
      (Function.update frees i (c :: frees i))).Perm
      (out ++ listed w.mgr.freeLen frees) :=
    ((List.perm_append_left_iff _).mpr hpush).trans
      (List.perm_middle.trans ((List.perm_cons_erase hc).symm.append_right _))
  constructor
  · exact h.valid
  · refine linkFree_chains h.chains fun k hk hin => ?_
    exact (List.nodup_append.mp h.nodup).2.2 c hc c (mem_listed.mpr ⟨k, hk, hin⟩) rfl
  · exact hperm.nodup_iff.mpr h.nodup
  · intro d hd
    have hb := h.blocks d (hperm.mem_iff.mp hd)
    unfold blockOf at hb ⊢
    rw [(hmem d).1]
    exact hb
  · intro j hj d hd
    rw [(hmem d).1]
    by_cases hji : j = i
    · subst hji
      rw [Function.update_self] at hd
      cases List.mem_cons.mp hd with
      | inl heq =>
          rw [heq]
          exact hsize
      | inr hd => exact h.sizes j hj d hd
    · rw [Function.update_of_ne hji] at hd
      exact h.sizes j hj d hd
  · intro d hd
    rw [(hmem d).1, (hmem d).2.2]
    exact h.held d (List.mem_of_mem_erase hd)
  · have hcount := hperm.length_eq
    rw [List.length_append, List.length_append, ← h.chunkCount] at hcount
    exact hcount.symm
  · exact fun hnone => absurd hnone hfree

theorem Owned.freeSplit (h : Owned H w frees out) {c : Nat} (hc : c ∈ out)
    {free : A.State -> Nat -> Bool × A.State} (hfree : A.free = some free) :
    Owned H (freeSplit free w c).2.2 frees (out.erase c) := by
  have hperm := (List.perm_cons_erase hc).append_right (listed w.mgr.freeLen frees)
  obtain ⟨hcnot, hnodup⟩ := List.nodup_cons.mp (hperm.nodup_iff.mp h.nodup)
  obtain ⟨hvalid, hblocks⟩ :=
    H.free free hfree w.heap c _ h.valid (h.blocks c (List.mem_append_left _ hc))
  have hcount := hperm.length_eq
  rw [List.length_append, ← h.chunkCount, List.cons_append, List.length_cons] at hcount
  constructor
  · exact hvalid
  · exact h.chains
  · exact hnodup
  · intro d hd
    exact hblocks _ (h.blocks d (hperm.mem_iff.mpr (List.mem_cons_of_mem c hd)))
      (ne_of_mem_of_not_mem hd hcnot)
  · exact h.sizes
  · exact fun d hd => h.held d (List.mem_of_mem_erase hd)
  · change sizeSub w.mgr.stat.chunkCount 1 = _
    rw [hcount, sizeSub_eq (Nat.le_add_left 1 _), Nat.add_sub_cancel]
    exact List.length_append
  · exact h.noFree

/-- The chunks that are left are those that were handed out before, except `c`. -/
theorem Owned.free (h : Owned H w frees out) {c : Nat} (hc : c ∈ out) :
    shape (free w (c + chunkLinkSize)).2.2.mgr = shape w.mgr ∧
      exists frees' out', Owned H (Slabs.free w (c + chunkLinkSize)).2.2 frees' out' ∧
        (out.erase c).Subperm out' := by
  unfold Slabs.free
  rw [if_neg (by unfold chunkLinkSize; omega)]
  cases hfree : A.free with
  | none => exact ⟨rfl, frees, out, h, (List.erase_sublist ..).subperm⟩
  | some free =>
      dsimp only
      rw [Nat.add_sub_cancel]
      by_cases hid : (w.mem c).id = splitId
      · rw [if_pos hid]
        exact ⟨rfl, frees, out.erase c, h.freeSplit hc hfree, List.Subperm.refl _⟩
      · rw [if_neg hid]
        obtain ⟨i, hi, heq, hsize⟩ := (h.held c hc).resolve_left hid
        have hlinked := h.linkFree hc hi hsize (by rw [hfree]; exact Option.some_ne_none _)
        rw [heq, Int.toNat_natCast]
        dsimp only [freeClass]
        split
        · exact ⟨rfl, _, out.erase c, hlinked, List.Subperm.refl _⟩
        · exact ⟨rfl, _, out.erase c,
            hlinked.congr rfl rfl rfl hlinked.valid (fun _ hb => hb) rfl,
            List.Subperm.refl _⟩

/-!
## Runs
-/

/-- No request to the allocator of `dfs_slabs_split_alloc` wraps, and released pointers
are live. -/
def Tame (s : System A) : Call -> Prop
  | Call.alloc _ _ _ => True
  | Call.splitAlloc reqSize slabSize reqMinsize =>
      SplitTried s.world reqSize.toNat slabSize -> NoWrap reqMinsize.toNat
  | Call.free ptr => ptr ∈ s.live

instance (s : System A) (c : Call) : Decidable (Tame s c) :=
  match c with
  | Call.alloc _ _ _ => Decidable.isTrue trivial
  | Call.splitAlloc reqSize slabSize reqMinsize =>
      inferInstanceAs
        (Decidable (SplitTried s.world reqSize.toNat slabSize -> NoWrap reqMinsize.toNat))
  | Call.free ptr => inferInstanceAs (Decidable (ptr ∈ s.live))

/-- The live pointers are to chunks the manager owns. -/
structure Holding (H : Honest A) (s : System A) : Prop where
  sized : Sized s.world.mgr
  owned : exists frees out, Owned H s.world frees out ∧ s.live.Subperm (pointers out)

section Steps

variable {s s' : System A}

theorem step_holding (hs : Holding H s) {c : Call} (hc : Tame s c)
    (h : step s c = some s') : Holding H s' := by
  obtain ⟨hsized, frees, out, howned, hlive⟩ := hs
  cases c with
  | alloc allocType reqSize slabSize =>
      rcases howned.alloc hsized allocType (UInt64.toNat_lt reqSize) slabSize with
        ⟨hcrash, -⟩ | ⟨r, heq, hshape, hallocated⟩
      · rw [step, hcrash] at h
        cases h
      · rw [step, heq] at h
        cases h
        refine ⟨hsized.congr hshape, ?_⟩
        cases hallocated with
        | refused howned' _ => exact ⟨_, out, howned', hlive⟩
        | served howned' _ _ => exact ⟨_, _, howned', (List.subperm_cons _).mpr hlive⟩
  | splitAlloc reqSize slabSize reqMinsize =>
      obtain ⟨hshape, hsplit⟩ := howned.splitAlloc hc
      dsimp only [step] at h
      cases h
      refine ⟨hsized.congr hshape, ?_⟩
      revert hsplit
      generalize splitAlloc s.world reqSize.toNat slabSize reqMinsize.toNat = r
      intro hsplit
      cases hsplit with
      | refused howned' => exact ⟨_, out, howned', hlive⟩
      | served howned' _ _ => exact ⟨_, _, howned', (List.subperm_cons _).mpr hlive⟩
  | free ptr =>
      obtain ⟨c, hin, rfl⟩ := List.mem_map.mp (hlive.subset hc)
      obtain ⟨hshape, frees', out', howned', hsub⟩ := howned.free hin
      cases h
      refine ⟨hsized.congr hshape, frees', out', howned', ?_⟩
      have herase := hlive.erase (c + chunkLinkSize)
      rw [pointers_erase] at herase
      exact herase.trans (hsub.map fun a b heq => Nat.add_right_cancel heq)

theorem created_holding {heap heap' : A.State} {uptype : Int} {factor : Nat}
    {itemSizeMin itemSizeMax : UInt64} {e : Errno} {mgr : SlabManager}
    (hvalid : H.valid heap)
    (hcreate : create heap uptype factor itemSizeMin.toNat itemSizeMax.toNat =
      (e, some mgr, heap')) (mem : Nat -> ChunkLink) :
    Holding H ⟨⟨mgr, mem, heap'⟩, []⟩ := by
  have hmax := UInt64.toNat_lt itemSizeMax
  have hunused := create_unused hmax hcreate
  obtain ⟨-, -, _, _, hclasses, -⟩ := create_cases hcreate
  have hnil : listed mgr.freeLen (fun _ => []) = [] := by simp [listed]
  refine ⟨create_sized hmax hcreate, fun _ => [], [], ?_, List.nil_subperm⟩
  constructor
  · exact createClasses_heap hvalid H.calloc_some hclasses
  · exact fun i _ => hunused.freeList i
  · rw [hnil]
    exact List.nodup_nil
  · rw [hnil]
    exact fun c hc => absurd hc List.not_mem_nil
  · exact fun i _ c hc => absurd hc List.not_mem_nil
  · exact fun c hc => absurd hc List.not_mem_nil
  · rw [hnil]
    exact hunused.counts.2.2.2
  · exact fun _ => hnil

end Steps

/-!
## Sizes
-/

/-- The chunk of a call that hands one out is large enough; for one that was split the
size is the real one. -/
def Ample (H : Honest A) (s : System A) : Call -> Prop
  | Call.alloc allocType reqSize slabSize =>
      forall ptr sz e w, alloc s.world allocType reqSize.toNat slabSize =
        some (some ptr, sz, e, w) -> reqSize.toNat ≤ (w.mem (ptr - chunkLinkSize)).size
  | Call.splitAlloc reqSize slabSize reqMinsize =>
      forall ptr sz e w, splitAlloc s.world reqSize.toNat slabSize reqMinsize.toNat =
        (some ptr, sz, e, w) ->
          reqMinsize.toNat ≤ (w.mem (ptr - chunkLinkSize)).size ∧
          sz = some (w.mem (ptr - chunkLinkSize)).size ∧
          blockOf w (ptr - chunkLinkSize) ∈ H.blocks w.heap
  | Call.free _ => True

/-- The size asked for leaves room for the header and its alignment. -/
def Sane (s : System A) : Call -> Prop
  | Call.alloc _ reqSize _ => NoWrap reqSize.toNat
  | Call.splitAlloc reqSize slabSize reqMinsize =>
      SplitTried s.world reqSize.toNat slabSize -> NoWrap reqMinsize.toNat
  | Call.free _ => True

theorem Holding.alloc_iff {s : System A} (h : Holding H s) {allocType : Int}
    {reqSize : UInt64} {slabSize : Bool} {ptr : Nat} {sz : Option Nat} {e : Errno}
    {w : World A} (heq : alloc s.world allocType reqSize.toNat slabSize =
      some (some ptr, sz, e, w)) :
    reqSize.toNat ≤ (w.mem (ptr - chunkLinkSize)).size ↔ NoWrap reqSize.toNat := by
  obtain ⟨hsized, frees, out, howned, -⟩ := h
  have hlt := UInt64.toNat_lt reqSize
  rcases howned.alloc hsized allocType hlt slabSize with
    ⟨hcrash, -⟩ | ⟨r, heq', -, hallocated⟩
  · rw [heq] at hcrash
    cases hcrash
  · cases heq.symm.trans heq'
    cases hallocated with
    | served _ hclsid hsize =>
        obtain ⟨-, -, hiff⟩ := hsized.clsid hlt hclsid
        rw [Nat.add_sub_cancel, ← hiff, ← hsize, Nat.add_le_add_iff_right]

theorem Holding.ample {s : System A} (h : Holding H s) {c : Call} (hc : Sane s c) :
    Ample H s c := by
  cases c with
  | alloc allocType reqSize slabSize =>
      intro ptr sz e w heq
      exact (h.alloc_iff heq).mpr hc
  | splitAlloc reqSize slabSize reqMinsize =>
      intro ptr sz e w heq
      obtain ⟨-, frees, out, howned, -⟩ := h
      have hsplit := (howned.splitAlloc hc).2
      rw [heq] at hsplit
      cases hsplit with
      | served howned' hfits hblock =>
          rw [Nat.add_sub_cancel]
          exact ⟨hfits, rfl, hblock⟩
  | free ptr => trivial

/-- In every run where no split request wraps, a call whose own request does not wrap is
given enough, and a chunk from `dfs_slabs_alloc` is large enough only then. -/
theorem ample_of_run {heap heap' : A.State} {uptype : Int} {factor : Nat}
    {itemSizeMin itemSizeMax : UInt64} {e : Errno} {mgr : SlabManager}
    (hvalid : H.valid heap)
    (hcreate : create heap uptype factor itemSizeMin.toNat itemSizeMax.toNat =
      (e, some mgr, heap')) {mem : Nat -> ChunkLink} {s : System A}
    (hrun : Reaches step Tame ⟨⟨mgr, mem, heap'⟩, []⟩ s) :
    (forall c, Sane s c -> Ample H s c) ∧
      forall allocType reqSize slabSize, Ample H s (Call.alloc allocType reqSize slabSize) ->
        NoWrap reqSize.toNat ∨ forall ptr sz e w,
          alloc s.world allocType reqSize.toNat slabSize ≠ some (some ptr, sz, e, w) := by
  have hs : Holding H s := hrun.invariant (Holding H)
    (fun t c u ht hc hstep => step_holding ht hc hstep)
    (created_holding hvalid hcreate mem)
  constructor
  · exact fun c hc => hs.ample hc
  · intro allocType reqSize slabSize hample
    by_cases hwrap : NoWrap reqSize.toNat
    · exact Or.inl hwrap
    · exact Or.inr fun ptr sz e w heq =>
        hwrap ((hs.alloc_iff heq).mp (hample ptr sz e w heq))

def Contract.honest {A : MemAllocator} (C : Contract A) : Honest A where
  valid := C.valid
  blocks := C.blocks
  apart := C.apart
  inside := C.inside
  alloc_none := fun s n s' hs h => by
    obtain ⟨hvalid, hperm⟩ := C.alloc_none s n s' hs h
    exact ⟨hvalid, fun b hb => hperm.mem_iff.mpr hb⟩
  alloc_some := fun s n p s' hs h => by
    obtain ⟨hvalid, hperm⟩ := C.alloc_some s n p s' hs h
    have hapart := List.pairwise_cons.mp
      ((pairwise_apart_perm hperm).mp (C.apart s' hvalid))
    exact ⟨hvalid, hperm.mem_iff.mpr (List.mem_cons_self ..), fun b hb =>
      ⟨hperm.mem_iff.mpr (List.mem_cons_of_mem _ hb), hapart.1 b hb⟩⟩
  calloc_some := fun s n p s' hs h => (C.calloc s n p s' hs h).1
  split_none := fun f hf s n s' hs h => by
    obtain ⟨hvalid, hperm⟩ := C.split_none f hf s n s' hs h
    exact ⟨hvalid, fun b hb => hperm.mem_iff.mpr hb⟩
  split_some := fun f hf s n p act s' hs h => by
    obtain ⟨hle, hvalid, hperm⟩ := C.split_some f hf s n p act s' hs h
    have hapart := List.pairwise_cons.mp
      ((pairwise_apart_perm hperm).mp (C.apart s' hvalid))
    exact ⟨hle, hvalid, hperm.mem_iff.mpr (List.mem_cons_self ..), fun b hb =>
      ⟨hperm.mem_iff.mpr (List.mem_cons_of_mem _ hb), hapart.1 b hb⟩⟩
  free := fun f hf s p n hs hb => by
    obtain ⟨f', hf', hspec⟩ := C.free
    cases hf.symm.trans hf'
    obtain ⟨-, hvalid, hperm⟩ := hspec s p n hs hb
    refine ⟨hvalid, fun b hb' hne => ?_⟩
    refine hperm.mem_iff.mpr ((List.mem_erase_of_ne ?_).mpr hb')
    rintro rfl
    exact hne rfl

theorem ample_of_run_hundred :
    create (A := bumpAllocator) Bump.fresh 1 2 64 1024 =
        (Errno.none, some powers.world.mgr, powers.world.heap) ∧
      exists s : System bumpAllocator, Reaches step Tame powers s ∧
        Ample bumpContract.honest s (Call.alloc 0 100 true) ∧
        Ample bumpContract.honest s (Call.splitAlloc 200 true 100) := by
  have hrun : Reaches step Tame powers _ :=
    (Reaches.refl _).oneLabel (a := Call.alloc 0 50 true) trivial (by decide +kernel)
  have hcreate : create (A := bumpAllocator) Bump.fresh 1 2 (64 : UInt64).toNat
    (1024 : UInt64).toNat = (Errno.none, some powers.world.mgr, powers.world.heap) := rfl
  have hample := ample_of_run (H := bumpContract.honest) Bump.fresh_valid hcreate hrun
  exact ⟨hcreate, _, hrun, hample.1 _ (show NoWrap _ by decide +kernel),
    hample.1 _ (fun _ => show NoWrap _ by decide +kernel)⟩

theorem ample_wrapped :
    create (A := bumpAllocator) Bump.fresh 1 2 64 1024 =
        (Errno.none, some powers.world.mgr, powers.world.heap) ∧
      ¬ Ample bumpContract.honest powers (Call.alloc 0 18446744073709551584 true) := by
  refine ⟨rfl, fun hample => ?_⟩
  have hle := hample 306 _ _ _ rfl
  revert hle
  decide +kernel

/-!
## Attempts
-/

def FreeCount (w : World A) (n : Nat) : Prop :=
  exists frees, FreeLists w frees ∧ (listed w.mgr.freeLen frees).length = n

/-- The loop of `dfs_slabs_alloc` after a failed call of the allocator: it ends within
one attempt more than there are free chunks, and as long as it goes on each call of
`dfs_slabs_recover` has a result, with a chunk fewer unless there is no space. -/
structure Recovers (w : World A) (chunkSize id : Nat) : Prop where
  ends : forall n, FreeCount w n -> (allocLoop chunkSize id (n + 1) w).isSome = true
  gives : forall k w1, Rounds chunkSize id k w w1 ->
    exists r w2 n1 n2, recover w1 chunkSize id = some (r, w2) ∧
      FreeCount w1 n1 ∧ FreeCount w2 n2 ∧ (r ≠ Recovered.noSpace -> n2 < n1)

/-- What is said of a call of `dfs_slabs_alloc`: it returns, when the allocator was tried
in vain the lists are empty, and the loop after the first failure recovers. -/
structure AllocEnds (w : World A) (allocType : Int) (reqSize : Nat) (slabSize : Bool) :
    Prop where
  returns : (alloc w allocType reqSize slabSize).isSome = true
  empty : forall sz w', alloc w allocType reqSize slabSize =
    some (none, sz, Errno.allocFailed, w') ->
      forall i, i < w'.mgr.freeLen -> w'.mgr.freeList i = none
  loop : forall id heap, clsid w.mgr reqSize true = some id -> w.mgr.freeList id = none ->
    A.alloc w.heap (w.mgr.classSize id) = (none, heap) ->
      Recovers { w with heap := heap } (w.mgr.classSize id) id

theorem FreeCount.length (h : Owned H w frees out) {n : Nat} (hn : FreeCount w n) :
    (listed w.mgr.freeLen frees).length = n := by
  obtain ⟨frees', hlists, rfl⟩ := hn
  unfold listed
  rw [List.flatMap_congr fun i hi =>
    (h.chains i (List.mem_range.mp hi)).unique (hlists i (List.mem_range.mp hi))]

theorem Owned.recovers (h : Owned H w frees out) (hlen : w.mgr.freeLen < 2 ^ 31)
    {chunkSize id : Nat} (hsize : 0 < chunkSize) (hid : id < w.mgr.freeLen)
    (hnil : frees id = []) : Recovers w chunkSize id := by
  constructor
  · intro n hn
    rcases h.allocLoop (n + 1) hsize hid hnil
        (Nat.lt_succ_of_le (Nat.le_of_eq (hn.length h))) with
      ⟨-, hlarge⟩ | ⟨w', frees', heq, -⟩ | ⟨c, w', heq, -⟩
    · omega
    · rw [heq]
      rfl
    · rw [heq]
      rfl
  · intro k w1 hrounds
    obtain ⟨frees1, hshrunk, -⟩ := h.rounds hid hrounds
    have hlen1 := (shape_eq hshrunk.shape).1
    rcases hshrunk.owned.recover chunkSize (by rw [hlen1]; exact hid) with
      ⟨-, hlarge⟩ | ⟨r, w2, frees2, heq, hshrunk2, hless, -⟩
    · omega
    · exact ⟨r, w2, _, _, heq, ⟨frees1, hshrunk.owned.chains, rfl⟩,
        ⟨frees2, hshrunk2.owned.chains, rfl⟩, hless⟩

theorem Owned.nil_of_none (h : Owned H w frees out) {id : Nat} (hid : id < w.mgr.freeLen)
    (hnone : w.mgr.freeList id = none) : frees id = [] := by
  have hchain := h.chains id hid
  rw [hnone] at hchain
  exact chain_none.mp hchain

theorem Holding.allocEnds {s : System A} (h : Holding H s)
    (hlen : s.world.mgr.freeLen < 2 ^ 31) (allocType : Int) (reqSize : UInt64)
    (slabSize : Bool) : AllocEnds s.world allocType reqSize.toNat slabSize := by
  obtain ⟨hsized, frees, out, howned, -⟩ := h
  have hlt := UInt64.toNat_lt reqSize
  rcases howned.alloc hsized allocType hlt slabSize with
    ⟨-, hlarge⟩ | ⟨r, heq, -, hallocated⟩
  · omega
  constructor
  · rw [heq]
    rfl
  · intro sz w' heq'
    cases heq.symm.trans heq'
    cases hallocated with
    | refused _ hempty => exact hempty rfl
  · intro id heap hclsid hnone halloc
    obtain ⟨hid, hroom, -⟩ := hsized.clsid hlt hclsid
    obtain ⟨hvalid, hblocks⟩ := H.alloc_none _ _ _ howned.valid halloc
    have howned' : Owned H { s.world with heap := heap } frees out :=
      howned.congr rfl rfl rfl hvalid hblocks rfl
    exact howned'.recovers hlen (Nat.zero_lt_of_lt hroom) hid
      (howned.nil_of_none hid hnone)

theorem step_freeLen {s s' : System A} (hs : Holding H s) {c : Call} (hc : Tame s c)
    (h : step s c = some s') : s'.world.mgr.freeLen = s.world.mgr.freeLen := by
  obtain ⟨hsized, frees, out, howned, hlive⟩ := hs
  cases c with
  | alloc allocType reqSize slabSize =>
      rcases howned.alloc hsized allocType (UInt64.toNat_lt reqSize) slabSize with
        ⟨hcrash, -⟩ | ⟨r, heq, hshape, -⟩
      · rw [step, hcrash] at h
        cases h
      · rw [step, heq] at h
        cases h
        exact (shape_eq hshape).1
  | splitAlloc reqSize slabSize reqMinsize =>
      cases h
      exact (shape_eq (howned.splitAlloc hc).1).1
  | free ptr =>
      obtain ⟨c, hin, rfl⟩ := List.mem_map.mp (hlive.subset hc)
      cases h
      exact (shape_eq (howned.free hin).1).1

/-- With fewer than 2^31 classes, in every run where no split request wraps every
allocation ends. -/
theorem allocEnds_of_run {heap heap' : A.State} {uptype : Int} {factor : Nat}
    {itemSizeMin itemSizeMax : UInt64} {e : Errno} {mgr : SlabManager}
    (hvalid : H.valid heap)
    (hcreate : create heap uptype factor itemSizeMin.toNat itemSizeMax.toNat =
      (e, some mgr, heap')) (hlen : mgr.freeLen < 2 ^ 31) {mem : Nat -> ChunkLink}
    {s : System A} (hrun : Reaches step Tame ⟨⟨mgr, mem, heap'⟩, []⟩ s)
    (allocType : Int) (reqSize : UInt64) (slabSize : Bool) :
    AllocEnds s.world allocType reqSize.toNat slabSize := by
  have hs := hrun.invariant (fun t => Holding H t ∧ t.world.mgr.freeLen < 2 ^ 31)
    (fun t c u ht hc hstep => ⟨step_holding ht.1 hc hstep, by
      rw [step_freeLen ht.1 hc hstep]
      exact ht.2⟩)
    ⟨created_holding hvalid hcreate mem, hlen⟩
  exact hs.1.allocEnds hs.2 allocType reqSize slabSize

theorem allocEnds_of_run_released :
    create (A := bumpAllocator) Bump.fresh 1 2 64 1024 =
        (Errno.none, some powers.world.mgr, powers.world.heap) ∧
      exists s : System bumpAllocator, Reaches step Tame powers s ∧
        AllocEnds s.world 0 200 true := by
  have hrun : Reaches step Tame powers _ :=
    ((Reaches.refl _).oneLabel (a := Call.alloc 0 50 true) trivial
      (by decide +kernel)).oneLabel (a := Call.free 306) (by decide +kernel)
      (by decide +kernel)
  have hcreate : create (A := bumpAllocator) Bump.fresh 1 2 (64 : UInt64).toNat
    (1024 : UInt64).toNat = (Errno.none, some powers.world.mgr, powers.world.heap) := rfl
  exact ⟨hcreate, _, hrun, allocEnds_of_run (H := bumpContract.honest) Bump.fresh_valid
    hcreate (by decide +kernel) hrun 0 200 true⟩

/-- With all lists empty the index of the first loop goes past the range of an `int`. -/
theorem recoverUp_crash (hnone : forall i, w.mgr.freeList i = none) (n i : Nat)
    (hlarge : 2 ^ 31 ≤ i + n) : recoverUp w n i = none := by
  induction n generalizing i with
  | zero =>
      unfold recoverUp
      exact if_pos hlarge
  | succ n ih =>
      unfold recoverUp
      rw [hnone]
      dsimp only
      rw [ih (i + 1) (by omega)]
      exact ite_self _

theorem recover_crash (hnone : forall i, w.mgr.freeList i = none) (chunkSize : Nat)
    {id : Nat} (hlarge : 2 ^ 31 ≤ w.mgr.freeLen ∧ id < w.mgr.freeLen) :
    recover w chunkSize id = none := by
  have hcrash : forall st, recoverUp { w with mgr := { w.mgr with stat := st } }
      (w.mgr.freeLen - (id + 1)) (id + 1) = none := fun st =>
    recoverUp_crash (w := { w with mgr := { w.mgr with stat := st } }) hnone _ _ (by omega)
  unfold recover
  dsimp only
  rw [hcrash]

theorem freshChunk_crash {id : Nat}
    (hrefused : A.alloc w.heap (w.mgr.classSize id) = (none, w.heap))
    (hcrash : recover w (w.mgr.classSize id) id = none) : freshChunk w id = none := by
  unfold freshChunk
  dsimp only
  rw [hrefused]
  dsimp only
  unfold allocLoop
  rw [hcrash]
  rfl

theorem alloc_crash {allocType : Int} {reqSize id : Nat} (hpos : reqSize ≠ 0)
    (hclsid : clsid w.mgr reqSize true = some id) (hnone : w.mgr.freeList id = none)
    (hcrash : freshChunk w id = none) : alloc w allocType reqSize true = none := by
  unfold alloc
  rw [if_neg (by simp [hpos]), hclsid]
  dsimp only
  rw [hnone, hcrash]

theorem Bump.alloc_refused {b : Bump} {n : Nat} (h : 2 ^ 64 < b.next + n + 1) :
    bumpAllocator.alloc b n = (none, b) :=
  if_neg (Nat.not_le.mpr h)

/-- 2^31 + 1 classes, and nothing left to allocate. -/
def crowded : System bumpAllocator :=
  let r := create (A := bumpAllocator) ⟨2 ^ 64 - 34359738514, []⟩ 2 1024 1024
    (1024 + 1024 * 2 ^ 31)
  ⟨⟨r.2.1.get rfl, fun _ => ⟨0, 0, 0, none⟩, r.2.2⟩, []⟩

theorem allocEnds_crowded :
    create (A := bumpAllocator) ⟨2 ^ 64 - 34359738514, []⟩ 2 1024 1024
        (1024 + 1024 * 2 ^ 31) =
        (Errno.none, some crowded.world.mgr, crowded.world.heap) ∧
      ¬ AllocEnds crowded.world 0 50 true := by
  refine ⟨rfl, fun hends => ?_⟩
  have hclass : forall i, crowded.world.mgr.classSize i =
      chunkSizeOf ((1024 + 1024 * i) % 2 ^ 64) := by
    intro i
    rw [← itemSize_linear (by decide)]
    rfl
  have hlen : crowded.world.mgr.freeLen = 2 ^ 31 + 1 := by decide +kernel
  have hclsid : clsid crowded.world.mgr 50 true = some 0 := by
    unfold clsid
    rw [if_neg (by decide)]
    dsimp only
    rw [hlen, hclass, hclass, if_neg (by decide +kernel), if_pos (by decide +kernel)]
  have hnone : forall i, crowded.world.mgr.freeList i = none := fun i => rfl
  have hroom : 2 ^ 64 < crowded.world.heap.next + crowded.world.mgr.classSize 0 + 1 := by
    rw [hclass]
    decide +kernel
  have hfresh : freshChunk crowded.world 0 = none :=
    freshChunk_crash (Bump.alloc_refused hroom) (recover_crash hnone _ (by rw [hlen]; omega))
  have hreturns := hends.returns
  rw [alloc_crash (by decide) hclsid (hnone 0) hfresh] at hreturns
  cases hreturns

end Slabs
end NgxEpoll
