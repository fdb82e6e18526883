import NgxEpoll.Slabs.Classes
import NgxEpoll.Slabs.Recover

/-!
# The calls of the slab manager

What `dfs_slabs_alloc`, `dfs_slabs_split_alloc` and `dfs_slabs_free` do to the
accounts.

## Chunks going in and out
-/

namespace NgxEpoll
namespace Slabs

open Foundation NgxEpoll.Core

variable {A : MemAllocator} {C : Contract A} {w : World A} {frees : Nat -> List Nat}
  {out : List Nat}

def HeldBy (mgr : SlabManager) (c : ChunkLink) : Prop :=
  c.reqSize ≤ c.size ∧
    (c.id = splitId ∨ exists i : Nat, i < mgr.freeLen ∧ c.id = i ∧
      c.size + chunkLinkSize = mgr.classSize i)

theorem Accounts.add (h : Accounts C w frees out) {c : Nat}
    (hc : c ∉ out ++ listed w.mgr.freeLen frees) {w' : World A}
    (hheap : w'.heap = w.heap) (hmem : forall d, d ≠ c -> w'.mem d = w.mem d)
    (hshape : shape w'.mgr = shape w.mgr) (hlists : w'.mgr.freeList = w.mgr.freeList)
    (hblock : blockOf w' c ∈ C.blocks w.heap) (hheld : HeldBy w.mgr (w'.mem c))
    (hused : w'.mgr.stat.usedSize = w.mgr.stat.usedSize + (w'.mem c).size)
    (hreqs : w'.mgr.stat.reqsSize = w.mgr.stat.reqsSize + (w'.mem c).reqSize)
    (hfree : w'.mgr.stat.freeSize = w.mgr.stat.freeSize)
    (hcount : w'.mgr.stat.chunkCount = w.mgr.stat.chunkCount + 1) :
    Accounts C w' frees (c :: out) := by
  obtain ⟨hlen, hclass⟩ := shape_eq hshape
  have hne : forall d, d ∈ out ++ listed w.mgr.freeLen frees -> d ≠ c := by
    rintro d hd rfl
    exact hc hd
  have hkeep : forall field l, (forall d, d ∈ l -> d ∈ out ++ listed w.mgr.freeLen frees) ->
      sumOf w' field l = sumOf w field l :=
    fun field l hl => sumOf_congr fun d hd => by rw [hmem d (hne d (hl d hd))]
  have hlistedNe : forall i, i < w.mgr.freeLen -> forall d, d ∈ frees i -> d ≠ c :=
    fun i hi d hd => hne d (List.mem_append_right _ (mem_listed.mpr ⟨i, hi, hd⟩))
  refine
    { valid := by rw [hheap]; exact h.valid
      chains := ?_
      nodup := by
        rw [hlen]
        exact List.nodup_cons.mpr ⟨hc, h.nodup⟩
      blocks := ?_
      sizes := ?_
      held := ?_
      usedSize := ?_
      reqsSize := ?_
      freeSize := ?_
      chunkCount := ?_ }
  · intro i hi
    rw [hlen] at hi
    rw [hlists]
    exact (h.chains i hi).congr fun d hd => by rw [hmem d (hlistedNe i hi d hd)]
  · intro d hd
    rw [hlen, List.cons_append] at hd
    rw [hheap]
    rcases List.mem_cons.mp hd with rfl | hd
    · exact hblock
    · have hb := h.blocks d hd
      unfold blockOf at hb ⊢
      rw [hmem d (hne d hd)]
      exact hb
  · intro i hi d hd
    rw [hlen] at hi
    rw [hmem d (hlistedNe i hi d hd), hclass]
    exact h.sizes i hi d hd
  · intro d hd
    rw [hlen, hclass]
    rcases List.mem_cons.mp hd with rfl | hd
    · exact hheld
    · rw [hmem d (hne d (List.mem_append_left _ hd))]
      exact h.held d hd
  · rw [hused, sumOf_cons, hkeep _ _ fun d hd => List.mem_append_left _ hd, ← h.usedSize,
      Nat.add_comm]
  · rw [hreqs, sumOf_cons, hkeep _ _ fun d hd => List.mem_append_left _ hd, ← h.reqsSize,
      Nat.add_comm]
  · rw [hfree, hlen, hkeep _ _ fun d hd => List.mem_append_right _ hd]
    exact h.freeSize
  · rw [hcount, hlen, h.chunkCount, List.length_cons]
    omega

theorem Accounts.split_out (h : Accounts C w frees out) {c : Nat} (hc : c ∈ out) :
    c ∉ out.erase c ++ listed w.mgr.freeLen frees ∧
      w.mgr.stat.usedSize = (w.mem c).size + sumOf w ChunkLink.size (out.erase c) ∧
      w.mgr.stat.reqsSize = (w.mem c).reqSize + sumOf w ChunkLink.reqSize (out.erase c) ∧
      w.mgr.stat.chunkCount =
        (out.erase c).length + 1 + (listed w.mgr.freeLen frees).length := by
  have hperm := List.perm_cons_erase hc
  have hnodup := (hperm.append_right (listed w.mgr.freeLen frees)).nodup_iff.mp h.nodup
  refine ⟨(List.nodup_cons.mp hnodup).1, ?_, ?_, ?_⟩
  · rw [h.usedSize, sumOf_perm hperm, sumOf_cons]
  · rw [h.reqsSize, sumOf_perm hperm, sumOf_cons]
  · rw [h.chunkCount, hperm.length_eq, List.length_cons]

theorem freeSplit_spec (h : Accounts C w frees out) {c : Nat} (hc : c ∈ out)
    {free : A.State -> Nat -> Bool × A.State} (hfree : A.free = some free) :
    (freeSplit free w c).1 = slabOk ∧
      shape (freeSplit free w c).2.2.mgr = shape w.mgr ∧
      Accounts C (freeSplit free w c).2.2 frees (out.erase c) := by
  obtain ⟨free', hfree', hspec⟩ := C.free
  obtain rfl : free' = free := Option.some.inj (hfree'.symm.trans hfree)
  obtain ⟨hnot, hused, hreqs, hcount⟩ := h.split_out hc
  obtain ⟨-, hvalid, hperm⟩ :=
    hspec w.heap c _ h.valid (h.blocks c (List.mem_append_left _ hc))
  have hold : forall d, d ∈ out.erase c ++ listed w.mgr.freeLen frees ->
      d ∈ out ++ listed w.mgr.freeLen frees := by
    intro d hd
    rcases List.mem_append.mp hd with hd | hd
    · exact List.mem_append_left _ (List.mem_of_mem_erase hd)
    · exact List.mem_append_right _ hd
  refine ⟨rfl, rfl, ?_⟩
  refine
    { valid := hvalid
      chains := h.chains
      nodup := h.nodup.sublist ((List.erase_sublist ..).append_right _)
      blocks := ?_
      sizes := h.sizes
      held := fun d hd => h.held d (List.mem_of_mem_erase hd)
      usedSize := ?_
      reqsSize := ?_
      freeSize := h.freeSize
      chunkCount := ?_ }
  · intro d hd
    refine hperm.mem_iff.mpr ((List.mem_erase_of_ne ?_).mpr (h.blocks d (hold d hd)))
    intro heq
    obtain rfl : d = c := congrArg Prod.fst heq
    exact hnot hd
  · change sizeSub w.mgr.stat.usedSize (w.mem c).size = sumOf w _ _
    rw [sizeSub_eq (by omega)]
    omega
  · change sizeSub w.mgr.stat.reqsSize (w.mem c).reqSize = sumOf w _ _
    rw [sizeSub_eq (by omega)]
    omega
  · change sizeSub w.mgr.stat.chunkCount 1 = _
    rw [sizeSub_eq (by omega)]
    change _ = (out.erase c).length + (listed w.mgr.freeLen frees).length
    omega

theorem linkFree_mem (w : World A) (i c d : Nat) :
    ((linkFree w i c).mem d).size = (w.mem d).size ∧
      ((linkFree w i c).mem d).reqSize = (w.mem d).reqSize ∧
      ((linkFree w i c).mem d).id = (w.mem d).id := by
  by_cases hd : d = c
  · simp [linkFree, hd]
  · simp [linkFree, hd]

theorem linkFree_chains (h : FreeLists w frees) {i c : Nat}
    (hnot : forall k, k < w.mgr.freeLen -> c ∉ frees k) :
    FreeLists (linkFree w i c) (Function.update frees i (c :: frees i)) := by
  intro j hj
  have hnext : forall d, d ≠ c -> ((linkFree w i c).mem d).next = (w.mem d).next :=
    fun d hd => by simp [linkFree, hd]
  have hkeep : forall k, k < w.mgr.freeLen ->
      Chain (fun d => ((linkFree w i c).mem d).next) (w.mgr.freeList k) (frees k) :=
    fun k hk => (h k hk).congr fun d hd =>
      hnext d (ne_of_mem_of_not_mem hd (hnot k hk))
  by_cases hji : j = i
  · subst hji
    rw [Function.update_self]
    refine ⟨by simp [linkFree], ?_⟩
    have hfirst : ((linkFree w j c).mem c).next = w.mgr.freeList j := by simp [linkFree]
    dsimp only
    rw [hfirst]
    exact hkeep j hj
  · rw [Function.update_of_ne hji]
    have hlist : (linkFree w i c).mgr.freeList j = w.mgr.freeList j := by
      simp [linkFree, hji]
    rw [hlist]
    exact hkeep j hj

theorem freeClass_spec (h : Accounts C w frees out) {i c : Nat} (hc : c ∈ out)
    (hi : i < w.mgr.freeLen) (hsize : (w.mem c).size + chunkLinkSize = w.mgr.classSize i)
    (hcheck : w.mgr.classSize i ≤ w.mgr.stat.usedSize) :
    (freeClass w i c).1 = slabOk ∧ shape (freeClass w i c).2.2.mgr = shape w.mgr ∧
      Accounts C (freeClass w i c).2.2 (Function.update frees i (c :: frees i))
        (out.erase c) := by
  obtain ⟨hnot, hused, hreqs, hcount⟩ := h.split_out hc
  have hlt := h.sum_lt_all
  rw [← h.usedSize, ← h.freeSize, ← h.chunkCount] at hlt
  have hpush : (listed w.mgr.freeLen (Function.update frees i (c :: frees i))).Perm
      (c :: listed w.mgr.freeLen frees) := listed_push hi
  have hmem := linkFree_mem w i c
  have hapart : forall k, k < w.mgr.freeLen -> c ∉ frees k := fun k hk hin =>
    (List.nodup_append.mp h.nodup).2.2 c hc c (mem_listed.mpr ⟨k, hk, hin⟩) rfl
  have hsum : forall l, sumOf (countFree (linkFree w i c) c) ChunkLink.size l =
      sumOf w ChunkLink.size l := fun l => sumOf_congr fun d _ => (hmem d).1
  have hsumReqs : forall l, sumOf (countFree (linkFree w i c) c) ChunkLink.reqSize l =
      sumOf w ChunkLink.reqSize l := fun l => sumOf_congr fun d _ => (hmem d).2.1
  have hresult : freeClass w i c = (slabOk, Errno.none, countFree (linkFree w i c) c) :=
    if_neg (Nat.not_lt.mpr hcheck)
  rw [hresult]
  refine ⟨rfl, rfl, ?_⟩
  have hperm : (out.erase c ++ listed w.mgr.freeLen
      (Function.update frees i (c :: frees i))).Perm
      (out ++ listed w.mgr.freeLen frees) :=
    ((List.perm_append_left_iff _).mpr hpush).trans
      (List.perm_middle.trans ((List.perm_cons_erase hc).symm.append_right _))
  refine
    { valid := h.valid
      chains := linkFree_chains h.chains hapart
      nodup := hperm.nodup_iff.mpr h.nodup
      blocks := ?_
      sizes := ?_
      held := ?_
      usedSize := ?_
      reqsSize := ?_
      freeSize := ?_
      chunkCount := ?_ }
  · intro d hd
    have hb := h.blocks d (hperm.mem_iff.mp hd)
    unfold blockOf at hb ⊢
    change (d, ((linkFree w i c).mem d).size + chunkLinkSize) ∈ _
    rw [(hmem d).1]
    exact hb
  · intro j hj d hd
    change ((linkFree w i c).mem d).size + chunkLinkSize = w.mgr.classSize j
    rw [(hmem d).1]
    by_cases hji : j = i
    · subst hji
      rw [Function.update_self] at hd
      rcases List.mem_cons.mp hd with rfl | hd
      · exact hsize
      · exact h.sizes j hj d hd
    · rw [Function.update_of_ne hji] at hd
      exact h.sizes j hj d hd
  · intro d hd
    change ((linkFree w i c).mem d).reqSize ≤ ((linkFree w i c).mem d).size ∧
      (((linkFree w i c).mem d).id = splitId ∨ exists k : Nat, k < w.mgr.freeLen ∧
        ((linkFree w i c).mem d).id = k ∧
        ((linkFree w i c).mem d).size + chunkLinkSize = w.mgr.classSize k)
    rw [(hmem d).1, (hmem d).2.1, (hmem d).2.2]
    exact h.held d (List.mem_of_mem_erase hd)
  · rw [hsum]
    change sizeSub w.mgr.stat.usedSize ((linkFree w i c).mem c).size = _
    rw [(hmem c).1, sizeSub_eq (by omega)]
    omega
  · rw [hsumReqs]
    change sizeSub w.mgr.stat.reqsSize ((linkFree w i c).mem c).reqSize = _
    rw [(hmem c).2.1, sizeSub_eq (by omega)]
    omega
  · rw [hsum]
    change sizeAdd w.mgr.stat.freeSize ((linkFree w i c).mem c).size =
      sumOf w ChunkLink.size (listed w.mgr.freeLen _)
    rw [sumOf_perm hpush, sumOf_cons, ← h.freeSize, (hmem c).1, sizeAdd_eq (by omega),
      Nat.add_comm]
  · change w.mgr.stat.chunkCount = (out.erase c).length +
      (listed w.mgr.freeLen (Function.update frees i (c :: frees i))).length
    rw [hpush.length_eq, List.length_cons]
    omega

/-!
## Allocation
-/

def pointers (out : List Nat) : List Nat :=
  out.map fun c => c + chunkLinkSize

/-- A call that hands out `ptr`, or nothing. -/
def Handed (C : Contract A) (w : World A) (out : List Nat) (ptr : Option Nat) : Prop :=
  exists frees out', Accounts C w frees out' ∧
    pointers out' = ptr.toList ++ pointers out

theorem handed_none (h : Accounts C w frees out) : Handed C w out none :=
  ⟨frees, out, h, rfl⟩

theorem handed_some {c : Nat} (h : Accounts C w frees (c :: out)) :
    Handed C w out (some (c + chunkLinkSize)) :=
  ⟨frees, c :: out, h, rfl⟩

/-- The end of `dfs_slabs_alloc` adds a chunk to the accounts of a state `w1` that
has all but that chunk. -/
theorem handOut_spec {w1 : World A} (h : Accounts C w1 frees out) {c id reqSize : Nat}
    (hc : c ∉ out ++ listed w1.mgr.freeLen frees) (act : Bool)
    (hheap : w.heap = w1.heap) (hmem : forall d, d ≠ c -> w.mem d = w1.mem d)
    (hshape : shape w.mgr = shape w1.mgr) (hlists : w.mgr.freeList = w1.mgr.freeList)
    (hblock : blockOf w c ∈ C.blocks w1.heap) (hid : id < w1.mgr.freeLen)
    (hsize : (w.mem c).size + chunkLinkSize = w1.mgr.classSize id)
    (hreq : reqSize ≤ (w.mem c).size)
    (hused : w.mgr.stat.usedSize = w1.mgr.stat.usedSize)
    (hreqs : w.mgr.stat.reqsSize = w1.mgr.stat.reqsSize)
    (hfree : w.mgr.stat.freeSize = w1.mgr.stat.freeSize)
    (hcount : w.mgr.stat.chunkCount = w1.mgr.stat.chunkCount + 1) :
    Accounts C (handOut w c id act reqSize).2.2 frees (c :: out) := by
  have hlt := h.sum_lt hblock hc
  rw [← h.usedSize, ← h.freeSize] at hlt
  have hle := h.reqs_le
  rw [← h.usedSize, ← h.reqsSize] at hle
  simp only [blockOf] at hlt
  have hslab : (if act = true then (w.mem c).size else reqSize) ≤ (w.mem c).size := by
    split
    · exact Nat.le_refl _
    · exact hreq
  have hnew : (handOut w c id act reqSize).2.2.mem c =
      { w.mem c with
        id := id
        reqSize := if act = true then (w.mem c).size else reqSize } :=
    Function.update_self _ _ _
  refine h.add hc hheap ?_ hshape hlists ?_ ?_ ?_ ?_ hfree hcount
  · intro d hd
    exact (Function.update_of_ne hd _ _).trans (hmem d hd)
  · unfold blockOf at hblock ⊢
    rw [hnew]
    exact hblock
  · rw [hnew]
    exact ⟨hslab, Or.inr ⟨id, hid, rfl, hsize⟩⟩
  · rw [hnew]
    change sizeAdd w.mgr.stat.usedSize (w.mem c).size = _
    rw [hused, sizeAdd_eq (by omega)]
  · rw [hnew]
    change sizeAdd w.mgr.stat.reqsSize (if act = true then (w.mem c).size else reqSize) = _
    rw [hreqs, sizeAdd_eq (by omega)]

theorem freshChunk_spec (h : Accounts C w frees out) {id : Nat}
    (hid : id < w.mgr.freeLen) (hsize : 0 < w.mgr.classSize id) :
    (freshChunk w id = none ∧ 2 ^ 31 ≤ w.mgr.freeLen) ∨
      (exists e w', freshChunk w id = some (none, e, w') ∧ Fewer C w w' out) ∨
      exists c e w', freshChunk w id = some (some c, e, w') ∧
        shape w'.mgr = shape w.mgr ∧ Fresh C w' out c (w.mgr.classSize id) := by
  dsimp only [freshChunk]
  cases halloc : A.alloc w.heap (w.mgr.classSize id) with
  | mk p heap =>
      cases p with
      | some c =>
          obtain ⟨hvalid, hperm⟩ := C.alloc_some _ _ _ _ h.valid halloc
          exact Or.inr (Or.inr ⟨c, _, _, rfl, rfl, fresh_alloc h hsize hvalid hperm⟩)
      | none =>
          obtain ⟨hvalid, hperm⟩ := C.alloc_none _ _ _ h.valid halloc
          have h1 : Accounts C { w with heap := heap } frees out :=
            h.congr rfl rfl rfl hvalid (fun b hb => hperm.mem_iff.mpr hb) rfl rfl rfl rfl
          dsimp only
          rcases allocLoop_spec (w.mgr.stat.chunkCount + 1) h1 hsize hid
              (Nat.lt_succ_self _) with
            ⟨hnone, hlarge⟩ | ⟨w', hw', hfewer⟩ | ⟨c, w', hw', hshape, hfresh⟩
          · rw [hnone]
            exact Or.inl ⟨rfl, hlarge⟩
          · rw [hw']
            exact Or.inr (Or.inl ⟨_, w', rfl, hfewer.accounts, hfewer.shape,
              hfewer.count⟩)
          · rw [hw']
            exact Or.inr (Or.inr ⟨c, _, w', rfl, hshape, hfresh⟩)

theorem takeFree_spec (h : Accounts C w frees out) {id c reqSize : Nat}
    {rest : List Nat} (hid : id < w.mgr.freeLen) (hlist : frees id = c :: rest)
    (hfit : reqSize + chunkLinkSize ≤ w.mgr.classSize id) (act : Bool) :
    Accounts C (handOut (takeFree w id c) c id act reqSize).2.2
      (Function.update frees id rest) (c :: out) := by
  obtain ⟨-, -, -, hfreeSize, hcount⟩ := h.first hid hlist
  have hc : c ∈ frees id := by simp [hlist]
  have hsize := h.sizes id hid c hc
  have hblock := h.blocks c (List.mem_append_right _ (mem_listed.mpr ⟨id, hid, hc⟩))
  -- the accounts without the chunk, before it is counted as used
  have hpop : Accounts C
      { takeFree w id c with mgr := { (takeFree w id c).mgr with
        stat := { (takeFree w id c).mgr.stat with
          chunkCount := w.mgr.stat.chunkCount - 1 } } }
      (Function.update frees id rest) out ∧
      c ∉ out ++ listed w.mgr.freeLen (Function.update frees id rest) := by
    refine h.pop hid hlist rfl rfl rfl h.valid (fun b hb _ => hb) rfl rfl ?_ ?_
    · change sizeSub w.mgr.stat.freeSize (w.mem c).size + (w.mem c).size = _
      rw [sizeSub_eq (by omega)]
      omega
    · change w.mgr.stat.chunkCount - 1 + 1 = _
      omega
  refine handOut_spec hpop.1 hpop.2 act rfl (fun _ _ => rfl) rfl rfl hblock hid hsize ?_
    rfl rfl rfl ?_
  · change reqSize ≤ (w.mem c).size
    omega
  · change w.mgr.stat.chunkCount = w.mgr.stat.chunkCount - 1 + 1
    omega

theorem takeFresh_spec {id c reqSize : Nat} (hid : id < w.mgr.freeLen)
    (h : Fresh C w out c (w.mgr.classSize id))
    (hfit : reqSize + chunkLinkSize ≤ w.mgr.classSize id) (act : Bool) :
    exists frees, Accounts C (handOut (takeFresh w id c) c id act reqSize).2.2 frees
      (c :: out) := by
  obtain ⟨⟨frees, haccounts, hc⟩, hblock⟩ := h
  have hlt := haccounts.sum_lt hblock hc
  rw [← haccounts.chunkCount] at hlt
  dsimp only at hlt
  have hnew : ((takeFresh w id c).mem c).size = w.mgr.classSize id - chunkLinkSize := by
    dsimp only [takeFresh]
    rw [Function.update_self]
    exact sizeSub_eq (by omega)
  refine ⟨frees, ?_⟩
  refine handOut_spec haccounts hc act rfl ?_ rfl rfl ?_ hid ?_ ?_ rfl rfl rfl ?_
  · exact fun d hd => Function.update_of_ne hd _ _
  · unfold blockOf
    rw [hnew, Nat.sub_add_cancel (by omega)]
    exact hblock
  · rw [hnew]
    omega
  · rw [hnew]
    omega
  · change sizeAdd w.mgr.stat.chunkCount 1 = _
    unfold chunkLinkSize at *
    exact sizeAdd_eq (by omega)

theorem alloc_spec (h : Accounts C w frees out) (hfits : Fits w.mgr) (allocType : Int)
    {reqSize : Nat} (hreq : NoWrap reqSize) (slabSize : Bool) :
    (alloc w allocType reqSize slabSize = none ∧ 2 ^ 31 ≤ w.mgr.freeLen) ∨
      exists ptr sz e w', alloc w allocType reqSize slabSize = some (ptr, sz, e, w') ∧
        shape w'.mgr = shape w.mgr ∧ Handed C w' out ptr := by
  unfold alloc
  by_cases hparam : reqSize = 0 ∨ slabSize = false
  · rw [if_pos hparam]
    exact Or.inr ⟨none, _, _, w, rfl, rfl, handed_none h⟩
  rw [if_neg hparam]
  cases hclsid : clsid w.mgr reqSize true with
  | none => exact Or.inr ⟨none, _, _, w, rfl, rfl, handed_none h⟩
  | some id =>
      obtain ⟨hid, hfit⟩ := hfits reqSize id hreq hclsid
      have hlarge := (chunkSizeOf_spec hreq).1
      have hroom : reqSize + chunkLinkSize ≤ w.mgr.classSize id := by omega
      dsimp only
      cases hlist : frees id with
      | cons c rest =>
          rw [(h.first hid hlist).1]
          exact Or.inr ⟨_, _, _, _, rfl, rfl,
            handed_some (takeFree_spec h hid hlist hroom (allocType == 1))⟩
      | nil =>
          have hchain := h.chains id hid
          rw [hlist] at hchain
          have hnone : w.mgr.freeList id = none := hchain
          rw [hnone]
          have hpos : 0 < w.mgr.classSize id := by
            unfold chunkLinkSize at hroom
            omega
          dsimp only
          rcases freshChunk_spec h hid hpos with
            ⟨hcrash, hmany⟩ | ⟨e, w', hw', hfewer⟩ | ⟨c, e, w', hw', hshape, hfresh⟩
          · rw [hcrash]
            exact Or.inl ⟨rfl, hmany⟩
          · rw [hw']
            obtain ⟨frees', haccounts⟩ := hfewer.accounts
            refine Or.inr ⟨none, _, _, _, rfl, hfewer.shape, handed_none
              (haccounts.congr rfl rfl rfl haccounts.valid (fun b hb => hb) rfl rfl rfl
                rfl)⟩
          · rw [hw']
            obtain ⟨hlen, hclass⟩ := shape_eq hshape
            rw [← hclass] at hfresh hroom
            rw [← hlen] at hid
            obtain ⟨frees', haccounts⟩ :=
              takeFresh_spec hid hfresh hroom (allocType == 1)
            exact Or.inr ⟨_, _, _, _, rfl, hshape, handed_some haccounts⟩

theorem takeSplit_spec {c act req : Nat} (h : Fresh C w out c act)
    (hact : chunkLinkSize ≤ act) (hreq : req ≤ act - chunkLinkSize) :
    exists frees, Accounts C (takeSplit w c (act - chunkLinkSize) req) frees
      (c :: out) := by
  obtain ⟨⟨frees, haccounts, hc⟩, hblock⟩ := h
  have hlt := haccounts.sum_lt hblock hc
  have hle := haccounts.reqs_le
  rw [← haccounts.chunkCount, ← haccounts.usedSize, ← haccounts.freeSize] at hlt
  rw [← haccounts.usedSize, ← haccounts.reqsSize] at hle
  dsimp only at hlt
  have hnew : (takeSplit w c (act - chunkLinkSize) req).mem c =
      { w.mem c with id := splitId, size := act - chunkLinkSize, reqSize := req } :=
    Function.update_self _ _ _
  unfold chunkLinkSize at hlt hact hreq
  refine ⟨frees, haccounts.add hc rfl (fun d hd => Function.update_of_ne hd _ _) rfl rfl
    ?_ ?_ ?_ ?_ rfl ?_⟩
  · unfold blockOf
    rw [hnew]
    dsimp only
    rw [Nat.sub_add_cancel (show chunkLinkSize ≤ act from hact)]
    exact hblock
  · rw [hnew]
    exact ⟨hreq, Or.inl rfl⟩
  · rw [hnew]
    exact sizeAdd_eq (by unfold chunkLinkSize; omega)
  · rw [hnew]
    exact sizeAdd_eq (by omega)
  · exact sizeAdd_eq (by omega)

theorem splitAlloc_spec (h : Accounts C w frees out) (reqSize : Nat) (slabSize : Bool)
    {reqMinsize : Nat} (hreq : NoWrap reqMinsize) :
    exists ptr sz e w', splitAlloc w reqSize slabSize reqMinsize = (ptr, sz, e, w') ∧
      shape w'.mgr = shape w.mgr ∧ Handed C w' out ptr := by
  unfold splitAlloc
  by_cases hparam : reqSize = 0 ∨ slabSize = false
  · rw [if_pos hparam]
    exact ⟨none, _, _, w, rfl, rfl, handed_none h⟩
  rw [if_neg hparam]
  cases hsplit : A.splitAlloc with
  | none => exact ⟨none, _, _, w, rfl, rfl, handed_none h⟩
  | some split =>
      dsimp only
      by_cases hlarge : w.mgr.classSize (w.mgr.freeLen - 1) < chunkSizeOf reqSize
      · rw [if_pos hlarge]
        exact ⟨none, _, _, w, rfl, rfl, handed_none h⟩
      rw [if_neg hlarge]
      cases halloc : split w.heap (chunkSizeOf reqMinsize) with
      | mk r heap =>
          cases r with
          | none =>
              obtain ⟨hvalid, hperm⟩ := C.split_none split hsplit _ _ _ h.valid halloc
              exact ⟨none, _, _, _, rfl, rfl, handed_none
                (h.congr rfl rfl rfl hvalid (fun b hb => hperm.mem_iff.mpr hb) rfl rfl
                  rfl rfl)⟩
          | some r =>
              obtain ⟨c, act⟩ := r
              obtain ⟨hact, hvalid, hperm⟩ :=
                C.split_some split hsplit _ _ _ _ _ h.valid halloc
              have hmin := (chunkSizeOf_spec hreq).1
              have hfresh : Fresh C { w with heap := heap } out c act :=
                fresh_alloc h (by unfold chunkLinkSize at hmin; omega) hvalid hperm
              have hsub : sizeSub act chunkLinkSize = act - chunkLinkSize :=
                sizeSub_eq (by omega)
              dsimp only
              rw [hsub]
              obtain ⟨frees', haccounts⟩ := takeSplit_spec hfresh (by omega)
                (show (if act - chunkLinkSize ≤ reqSize then act - chunkLinkSize
                  else reqSize) ≤ act - chunkLinkSize by split <;> omega)
              exact ⟨_, _, _, _, rfl, rfl, handed_some haccounts⟩

/-!
## Release
-/

/-- The check of `dfs_slabs_free` passes, or is not made. -/
def CheckPasses (w : World A) (c : Nat) : Prop :=
  (w.mem c).id = splitId ∨ w.mgr.classSize (w.mem c).id.toNat ≤ w.mgr.stat.usedSize

instance (w : World A) (c : Nat) : Decidable (CheckPasses w c) :=
  inferInstanceAs (Decidable (_ ∨ _))

/-- `dfs_slabs_free` of a chunk that is handed out succeeds and keeps the accounts, if
its check passes. -/
theorem free_spec (h : Accounts C w frees out) {c : Nat} (hc : c ∈ out)
    (hcheck : CheckPasses w c) :
    (free w (c + chunkLinkSize)).1 = slabOk ∧
      shape (free w (c + chunkLinkSize)).2.2.mgr = shape w.mgr ∧
      exists frees', Accounts C (free w (c + chunkLinkSize)).2.2 frees'
        (out.erase c) := by
  obtain ⟨f, hf, -⟩ := C.free
  have heq : free w (c + chunkLinkSize) =
      if (w.mem c).id = splitId then freeSplit f w c
      else freeClass w (w.mem c).id.toNat c := by
    unfold free
    rw [if_neg (by unfold chunkLinkSize; omega), hf]
    dsimp only
    rw [Nat.add_sub_cancel]
  rw [heq]
  by_cases hid : (w.mem c).id = splitId
  · rw [if_pos hid]
    obtain ⟨hok, hshape, haccounts⟩ := freeSplit_spec h hc hf
    exact ⟨hok, hshape, frees, haccounts⟩
  · rw [if_neg hid]
    obtain ⟨i, hi, heqi, hsize⟩ := (h.held c hc).2.resolve_left hid
    have hcheck' := hcheck.resolve_left hid
    rw [heqi, Int.toNat_natCast] at hcheck' ⊢
    obtain ⟨hok, hshape, haccounts⟩ := freeClass_spec h hc hi hsize hcheck'
    exact ⟨hok, hshape, _, haccounts⟩

end Slabs
end NgxEpoll
