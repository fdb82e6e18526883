import NgxEpoll.Slabs.Recovered
import NgxEpoll.Slabs.LeastClass

/-!
# Chunks of the size asked for

In every run over an allocator that hands out new blocks: a chunk is large enough for
its request unless the request with its header wraps, and an allocation that fails has
given all free chunks back.

## The class of any request
-/

namespace NgxEpoll
namespace Slabs

open Foundation NgxEpoll.Core

/-- What a manager needs for its classes; all of it comes from its creation. -/
structure Sized (mgr : SlabManager) : Prop where
  fits : Fits mgr
  pos : 0 < mgr.freeLen
  first : chunkLinkSize < mgr.classSize 0
  lt : mgr.classSize 0 + 8 ≤ 2 ^ 64

theorem Sized.congr {m m' : SlabManager} (h : Sized m) (hshape : shape m' = shape m) :
    Sized m' := by
  obtain ⟨hlen, hclass⟩ := shape_eq hshape
  constructor
  · exact h.fits.congr hshape
  · rw [hlen]
    exact h.pos
  · rw [hclass]
    exact h.first
  · rw [hclass]
    exact h.lt

theorem Sized.clsid_wrapped {mgr : SlabManager} (h : Sized mgr) {size id : Nat}
    (hlt : size < 2 ^ 64) (hwrap : ¬ NoWrap size) (hid : clsid mgr size true = some id) :
    id = 0 := by
  have hsmall := chunkSizeOf_wrapped hlt hwrap
  have hfirst := h.first
  unfold clsid at hid
  split at hid
  · cases hid
  dsimp only at hid
  split at hid
  · cases hid
  rw [if_pos (by omega)] at hid
  exact (Option.some.inj hid).symm

theorem Sized.clsid {mgr : SlabManager} (h : Sized mgr) {size id : Nat}
    (hlt : size < 2 ^ 64) (hid : clsid mgr size true = some id) :
    id < mgr.freeLen ∧ chunkLinkSize < mgr.classSize id ∧
      (size + chunkLinkSize ≤ mgr.classSize id ↔ NoWrap size) := by
  by_cases hwrap : NoWrap size
  · obtain ⟨hidlt, hfit⟩ := h.fits size id hwrap hid
    have hspec := (chunkSizeOf_spec hwrap).1
    have hsize : size ≠ 0 := by
      intro hzero
      rw [hzero] at hid
      cases hid
    exact ⟨hidlt, by omega, iff_of_true (by omega) hwrap⟩
  · have hzero := h.clsid_wrapped hlt hwrap hid
    subst hzero
    have hlast := h.lt
    unfold NoWrap at *
    exact ⟨h.pos, h.first, iff_of_false (by omega) hwrap⟩

section Created

variable {A : MemAllocator} {heap heap' : A.State} {e : Errno} {mgr : SlabManager}

theorem create_sized {uptype : Int} {factor itemSizeMin itemSizeMax : Nat}
    (hmax : itemSizeMax < 2 ^ 64)
    (h : create heap uptype factor itemSizeMin itemSizeMax = (e, some mgr, heap')) :
    Sized mgr := by
  have hunused := create_unused hmax h
  obtain ⟨hmin, hratio, growth, freeLen, hclasses, hgrowth⟩ := create_cases h
  have hmade := createClasses_made hclasses
  have hdouble := (Nat.le_div_iff_mul_le hmin).mp hratio
  have hwrap : NoWrap itemSizeMin := by
    unfold NoWrap chunkLinkSize
    omega
  have hspec := chunkSizeOf_spec hwrap
  have hzero : mgr.classSize 0 = chunkSizeOf itemSizeMin := hmade.classSize 0
  have hlen : 0 < mgr.freeLen := by
    rw [hmade.freeLen]
    rcases hgrowth with ⟨-, -, heq⟩ | ⟨-, -, heq⟩
    · rw [heq]
      exact Nat.succ_pos _
    · rw [heq]
      exact Nat.succ_pos _
  constructor
  · exact hunused.fits
  · exact hlen
  · omega
  · unfold chunkLinkSize at hspec
    omega

end Created

/-!
## The calls
-/

variable {A : MemAllocator} {H : Honest A} {w w' : World A}
variable {frees : Nat -> List Nat} {out : List Nat}

theorem Owned.handOut {w1 : World A} (h : Owned H w1 frees out) {c id : Nat}
    (hc : c ∉ out ++ listed w1.mgr.freeLen frees) (act : Bool) (reqSize : Nat)
    (hheap : w.heap = w1.heap) (hmem : forall d, d ≠ c -> w.mem d = w1.mem d)
    (hshape : shape w.mgr = shape w1.mgr) (hlists : w.mgr.freeList = w1.mgr.freeList)
    (hblock : blockOf w c ∈ H.blocks w1.heap) (hid : id < w1.mgr.freeLen)
    (hsize : (w.mem c).size + chunkLinkSize = w1.mgr.classSize id)
    (hcount : w.mgr.stat.chunkCount = w1.mgr.stat.chunkCount + 1) :
    Owned H (handOut w c id act reqSize).2.2 frees (c :: out) ∧
      ((handOut w c id act reqSize).2.2.mem c).size + chunkLinkSize =
        w1.mgr.classSize id := by
  have hnew : (Slabs.handOut w c id act reqSize).2.2.mem c =
      { w.mem c with
        id := id
        reqSize := if act = true then (w.mem c).size else reqSize } :=
    Function.update_self _ _ _
  constructor
  · refine h.add hc ?_ hheap hshape hlists ?_ ?_ hcount
    · intro d hd
      exact (Function.update_of_ne hd _ _).trans (hmem d hd)
    · unfold blockOf at hblock ⊢
      rw [hnew]
      exact hblock
    · rw [hnew]
      exact Or.inr ⟨id, hid, rfl, hsize⟩
  · rw [hnew]
    exact hsize

theorem Owned.takeFree (h : Owned H w frees out) {id c : Nat} {rest : List Nat}
    (hid : id < w.mgr.freeLen) (hf : frees id = c :: rest) (act : Bool) (reqSize : Nat) :
    Owned H (Slabs.handOut (takeFree w id c) c id act reqSize).2.2
      (Function.update frees id rest) (c :: out) ∧
      ((Slabs.handOut (takeFree w id c) c id act reqSize).2.2.mem c).size +
        chunkLinkSize = w.mgr.classSize id := by
  have hlength := (listed_pop hid hf).length_eq
  have hcount := h.chunkCount
  rw [List.length_cons] at hlength
  have hin : c ∈ frees id := by simp [hf]
  have hblock := h.blocks c (List.mem_append_right _ (mem_listed.mpr ⟨id, hid, hin⟩))
  -- the chunks without this one, as if it had left the count of chunks too
  have hpop := h.pop (u := { Slabs.takeFree w id c with
      mgr := { (Slabs.takeFree w id c).mgr with
        stat := { (Slabs.takeFree w id c).mgr.stat with
          chunkCount := w.mgr.stat.chunkCount - 1 } } })
    hid hf rfl rfl rfl h.valid (fun b hb _ => hb)
    (show w.mgr.stat.chunkCount - 1 + 1 = _ by omega)
  exact hpop.1.handOut hpop.2.1 act reqSize rfl (fun _ _ => rfl) rfl rfl hblock hid
    (h.sizes id hid c hin)
    (show w.mgr.stat.chunkCount = w.mgr.stat.chunkCount - 1 + 1 by omega)

theorem Given.takeFresh {id c : Nat} (hid : id < w.mgr.freeLen)
    (hsize : chunkLinkSize < w.mgr.classSize id)
    (h : Given H w out c (w.mgr.classSize id)) (act : Bool) (reqSize : Nat) :
    exists frees, Owned H (Slabs.handOut (takeFresh w id c) c id act reqSize).2.2 frees
      (c :: out) ∧
      ((Slabs.handOut (Slabs.takeFresh w id c) c id act reqSize).2.2.mem c).size +
        chunkLinkSize = w.mgr.classSize id := by
  obtain ⟨⟨frees, howned, hc⟩, hblock⟩ := h
  have hnew : ((Slabs.takeFresh w id c).mem c).size =
      w.mgr.classSize id - chunkLinkSize := by
    dsimp only [Slabs.takeFresh]
    rw [Function.update_self]
    exact sizeSub_eq (Nat.le_of_lt hsize)
  refine ⟨frees, howned.handOut hc act reqSize rfl ?_ rfl rfl ?_ hid ?_ ?_⟩
  · exact fun d hd => Function.update_of_ne hd _ _
  · unfold blockOf
    rw [hnew, Nat.sub_add_cancel (Nat.le_of_lt hsize)]
    exact hblock
  · rw [hnew, Nat.sub_add_cancel (Nat.le_of_lt hsize)]
  · exact sizeAdd_eq howned.count_lt

/-- What `dfs_slabs_alloc` comes to: nothing, with all lists empty if the allocator was
tried, or a chunk of the class of the request. -/
inductive Allocated (H : Honest A) (w : World A) (out : List Nat) (reqSize : Nat) :
    Option Nat × Option Nat × Errno × World A -> Prop where
  | refused {sz : Option Nat} {e : Errno} {w' : World A} {frees' : Nat -> List Nat}
      (owned : Owned H w' frees' out)
      (empty : e = Errno.allocFailed ->
        forall i, i < w'.mgr.freeLen -> w'.mgr.freeList i = none) :
      Allocated H w out reqSize (none, sz, e, w')
  | served {c id : Nat} {sz : Option Nat} {e : Errno} {w' : World A}
      {frees' : Nat -> List Nat} (owned : Owned H w' frees' (c :: out))
      (class_eq : clsid w.mgr reqSize true = some id)
      (size : (w'.mem c).size + chunkLinkSize = w.mgr.classSize id) :
      Allocated H w out reqSize (some (c + chunkLinkSize), sz, e, w')

theorem Owned.freshChunk (h : Owned H w frees out) {id : Nat} (hid : id < w.mgr.freeLen)
    (hsize : 0 < w.mgr.classSize id) (hnil : frees id = []) :
    (freshChunk w id = none ∧ 2 ^ 31 ≤ w.mgr.freeLen) ∨
    (exists e w' frees', freshChunk w id = some (none, e, w') ∧
      Shrunk H out w frees w' frees' ∧ forall i, i < w.mgr.freeLen -> frees' i = []) ∨
    exists c e w', freshChunk w id = some (some c, e, w') ∧
      shape w'.mgr = shape w.mgr ∧ Given H w' out c (w.mgr.classSize id) := by
  dsimp only [Slabs.freshChunk]
  cases halloc : A.alloc w.heap (w.mgr.classSize id) with
  | mk p heap =>
      cases p with
      | some c =>
          obtain ⟨hvalid, hmem, hblocks⟩ := H.alloc_some _ _ _ _ h.valid halloc
          exact Or.inr (Or.inr ⟨c, _, _, rfl, rfl, h.given hsize hvalid hmem hblocks⟩)
      | none =>
          obtain ⟨hvalid, hblocks⟩ := H.alloc_none _ _ _ h.valid halloc
          have h1 : Shrunk H out w frees { w with heap := heap } frees :=
            ⟨h.congr rfl rfl rfl hvalid hblocks rfl, rfl, fun _ => List.suffix_refl _,
              Nat.le_refl _⟩
          have hfuel : (listed w.mgr.freeLen frees).length < w.mgr.stat.chunkCount + 1 := by
            rw [h.chunkCount]
            omega
          dsimp only
          rcases h1.owned.allocLoop (w.mgr.stat.chunkCount + 1) hsize hid hnil hfuel with
            ⟨hcrash, hlarge⟩ | ⟨w', frees', heq, hshrunk, hall⟩ |
              ⟨c, w', heq, hshape, hgiven⟩
          · rw [hcrash]
            exact Or.inl ⟨rfl, hlarge⟩
          · rw [heq]
            exact Or.inr (Or.inl ⟨_, w', frees', rfl, h1.trans hshrunk, hall⟩)
          · rw [heq]
            exact Or.inr (Or.inr ⟨c, _, w', rfl, hshape, hgiven⟩)

theorem Owned.alloc (h : Owned H w frees out) (hs : Sized w.mgr) (allocType : Int)
    {reqSize : Nat} (hreq : reqSize < 2 ^ 64) (slabSize : Bool) :
    (alloc w allocType reqSize slabSize = none ∧ 2 ^ 31 ≤ w.mgr.freeLen) ∨
      exists r, alloc w allocType reqSize slabSize = some r ∧
        shape r.2.2.2.mgr = shape w.mgr ∧ Allocated H w out reqSize r := by
  unfold Slabs.alloc
  by_cases hparam : reqSize = 0 ∨ slabSize = false
  · rw [if_pos hparam]
    exact Or.inr ⟨_, rfl, rfl, Allocated.refused h (fun he => Errno.noConfusion he)⟩
  rw [if_neg hparam]
  cases hclsid : clsid w.mgr reqSize true with
  | none =>
      exact Or.inr ⟨_, rfl, rfl, Allocated.refused h (fun he => Errno.noConfusion he)⟩
  | some id =>
      obtain ⟨hid, hroom, -⟩ := hs.clsid hreq hclsid
      dsimp only
      cases hf : frees id with
      | cons c rest =>
          rw [h.freeList_some hid hf]
          obtain ⟨howned, hsize⟩ := h.takeFree hid hf (allocType == 1) reqSize
          exact Or.inr ⟨_, rfl, rfl, Allocated.served howned hclsid hsize⟩
      | nil =>
          rw [h.freeList_none hid hf]
          dsimp only
          rcases h.freshChunk hid (Nat.zero_lt_of_lt hroom) hf with
            ⟨hcrash, hlarge⟩ | ⟨e, w', frees', heq, hshrunk, hall⟩ |
              ⟨c, e, w', heq, hshape, hgiven⟩
          · rw [hcrash]
            exact Or.inl ⟨rfl, hlarge⟩
          · rw [heq]
            have hlen := (shape_eq hshrunk.shape).1
            refine Or.inr ⟨_, rfl, hshrunk.shape, Allocated.refused
              (hshrunk.owned.congr rfl rfl rfl hshrunk.owned.valid (fun _ hb => hb) rfl)
              fun _ i hi => ?_⟩
            exact hshrunk.owned.freeList_none hi (hall i (by rw [← hlen]; exact hi))
          · rw [heq]
            obtain ⟨hlen, hclass⟩ := shape_eq hshape
            rw [← hclass] at hgiven hroom
            rw [← hlen] at hid
            obtain ⟨frees', howned, hsize⟩ :=
              hgiven.takeFresh hid hroom (allocType == 1) reqSize
            rw [hclass] at hsize
            exact Or.inr ⟨_, rfl, hshape, Allocated.served howned hclsid hsize⟩

end Slabs
end NgxEpoll
