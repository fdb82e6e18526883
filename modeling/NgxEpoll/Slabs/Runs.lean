import NgxEpoll.Foundation.Runs
import NgxEpoll.Slabs.Calls

/-!
# Runs of the slab manager

A manager from `dfs_slabs_create` and any sequence of calls, where a released pointer
is one that was handed out and not released since.

## Creation
-/

namespace NgxEpoll
namespace Slabs

open Foundation NgxEpoll.Core

variable {A : MemAllocator}

structure Unused (mgr : SlabManager) : Prop where
  fits : Fits mgr
  freeList : forall i, mgr.freeList i = none
  counts : mgr.stat.usedSize = 0 ∧ mgr.stat.reqsSize = 0 ∧ mgr.stat.freeSize = 0 ∧
    mgr.stat.chunkCount = 0

structure Made (mgr : SlabManager) (growth : Uptype) (step itemSizeMin count : Nat) :
    Prop where
  uptype : mgr.uptype = growth
  factor : mgr.factor = step
  freeLen : mgr.freeLen = count
  minSize : mgr.minSize = itemSizeMin
  classSize : forall i, mgr.classSize i =
    chunkSizeOf (itemSize growth step itemSizeMin i)
  freeList : forall i, mgr.freeList i = none
  counts : mgr.stat.usedSize = 0 ∧ mgr.stat.reqsSize = 0 ∧ mgr.stat.freeSize = 0 ∧
    mgr.stat.chunkCount = 0

section Created

variable {heap heap' : A.State} {e : Errno} {mgr : SlabManager}

theorem createClasses_made {uptype : Uptype} {factor itemSizeMin freeLen : Nat}
    (h : createClasses heap uptype factor itemSizeMin freeLen = (e, some mgr, heap')) :
    Made mgr uptype factor itemSizeMin freeLen := by
  unfold createClasses at h
  split at h
  · cases h
  · split at h
    · cases h
    · cases h
      exact ⟨rfl, rfl, rfl, rfl, fun _ => rfl, fun _ => rfl, rfl, rfl, rfl, rfl⟩

theorem createClasses_heap {valid : A.State -> Prop} (hvalid : valid heap)
    (hcalloc : forall s n p s', valid s -> A.calloc s n = (some p, s') -> valid s')
    {uptype : Uptype} {factor itemSizeMin freeLen : Nat}
    (h : createClasses heap uptype factor itemSizeMin freeLen = (e, some mgr, heap')) :
    valid heap' := by
  unfold createClasses at h
  split at h
  · cases h
  · rename_i hfirst
    split at h
    · cases h
    · rename_i hsecond
      cases h
      exact hcalloc _ _ _ _ (hcalloc _ _ _ _ hvalid hfirst) hsecond

theorem create_cases {uptype : Int} {factor itemSizeMin itemSizeMax : Nat}
    (h : create heap uptype factor itemSizeMin itemSizeMax = (e, some mgr, heap')) :
    1 ≤ itemSizeMin ∧ 2 ≤ itemSizeMax / itemSizeMin ∧
      exists growth freeLen, createClasses heap growth factor itemSizeMin freeLen =
        (e, some mgr, heap') ∧
      ((growth = Uptype.power ∧ factor = 2 ∧
        freeLen = dfsMathDfslog2 (itemSizeMax / itemSizeMin +
          if itemSizeMax % itemSizeMin = 0 then 0 else 1) true + 1) ∨
      (growth = Uptype.linear ∧ factor = 1024 ∧
        freeLen = (itemSizeMax - itemSizeMin) / factor +
          (if (itemSizeMax - itemSizeMin) % factor = 0 then 0 else 1) + 1)) := by
  unfold create at h
  split at h
  · cases h
  rename_i hsizes
  simp only [not_or, Nat.not_lt] at hsizes
  obtain ⟨hmin, -, hratio⟩ := hsizes
  refine ⟨Nat.pos_of_ne_zero hmin, hratio, ?_⟩
  split at h
  · split at h
    · cases h
    · rename_i hfactor
      exact ⟨Uptype.power, _, h, Or.inl ⟨rfl, not_not.mp hfactor, rfl⟩⟩
  split at h
  · split at h
    · cases h
    · rename_i hfactor
      exact ⟨Uptype.linear, _, h, Or.inr ⟨rfl, not_not.mp hfactor, rfl⟩⟩
  · cases h

theorem two_le_classes {n : Nat} (h : 2 ≤ n) : 2 ≤ dfsMathDfslog2 n true + 1 := by
  have hlog : 1 ≤ Nat.log2 n := (Nat.le_log2 (by omega)).mpr (by omega)
  unfold dfsMathDfslog2
  omega

theorem create_unused {uptype : Int} {factor itemSizeMin itemSizeMax : Nat}
    (hmax : itemSizeMax < 2 ^ 64)
    (h : create heap uptype factor itemSizeMin itemSizeMax = (e, some mgr, heap')) :
    Unused mgr := by
  obtain ⟨hmin, hratio, growth, freeLen, hclasses, hgrowth⟩ := create_cases h
  have hmade := createClasses_made hclasses
  refine ⟨?_, hmade.freeList, hmade.counts⟩
  rcases hgrowth with ⟨rfl, -, rfl⟩ | ⟨rfl, rfl, rfl⟩
  · refine fits_power hmade.uptype ?_
    rw [hmade.freeLen]
    exact two_le_classes (by omega)
  · have hclass := hmade.classSize
    have hlen := hmade.freeLen
    rw [← hmade.minSize] at hclass hlen
    refine fits_linear hmade.uptype hmade.factor hclass hlen ?_ ?_ hmax
    · rw [hmade.minSize]
      exact hmin
    · rw [hmade.minSize]
      exact (Nat.le_div_iff_mul_le hmin).mp hratio

end Created

/-!
## Calls and runs
-/

structure System (A : MemAllocator) where
  world : World A
  live : List Nat

inductive Call where
  | alloc (allocType : Int) (reqSize : UInt64) (slabSize : Bool)
  | splitAlloc (reqSize : UInt64) (slabSize : Bool) (reqMinsize : UInt64)
  | free (ptr : Nat)

def step (s : System A) : Call -> Option (System A)
  | Call.alloc allocType reqSize slabSize =>
      (alloc s.world allocType reqSize.toNat slabSize).map fun r =>
        ⟨r.2.2.2, r.1.toList ++ s.live⟩
  | Call.splitAlloc reqSize slabSize reqMinsize =>
      let r := splitAlloc s.world reqSize.toNat slabSize reqMinsize.toNat
      some ⟨r.2.2.2, r.1.toList ++ s.live⟩
  | Call.free ptr => some ⟨(free s.world ptr).2.2, s.live.erase ptr⟩

def System.chunk (s : System A) (ptr : Nat) : ChunkLink :=
  s.world.mem (ptr - chunkLinkSize)

def Outstanding (s : System A) : Call -> Prop
  | Call.free ptr => ptr ∈ s.live
  | _ => True

/-- The other chunks handed out are together at least as large as a header, or the
chunk is one from `dfs_slabs_split_alloc`. -/
def OthersCover (s : System A) (ptr : Nat) : Prop :=
  (s.chunk ptr).id = splitId ∨
    chunkLinkSize ≤ ((s.live.erase ptr).map fun p => (s.chunk p).size).sum

instance (s : System A) (ptr : Nat) : Decidable (OthersCover s ptr) :=
  inferInstanceAs (Decidable (_ ∨ _))

/-- Requests do not wrap, and released pointers are live and leave enough behind. -/
def Careful (s : System A) : Call -> Prop
  | Call.alloc _ reqSize _ => NoWrap reqSize.toNat
  | Call.splitAlloc _ _ reqMinsize => NoWrap reqMinsize.toNat
  | Call.free ptr => ptr ∈ s.live ∧ OthersCover s ptr

instance (s : System A) (c : Call) : Decidable (Careful s c) := by
  unfold Careful
  split <;> infer_instance

/-- The chunks behind the live pointers are those of the accounts. -/
structure Consistent (C : Contract A) (s : System A) : Prop where
  fits : Fits s.world.mgr
  accounts : exists frees out, Accounts C s.world frees out ∧ s.live = pointers out

theorem Fits.congr {m m' : SlabManager} (h : Fits m) (hshape : shape m' = shape m) :
    Fits m' := by
  unfold shape at hshape
  simp only [Prod.mk.injEq] at hshape
  obtain ⟨huptype, hlen, hfactor, hmin, hclass⟩ := hshape
  intro size id hwrap hid
  unfold clsid at hid
  rw [huptype, hlen, hfactor, hmin, hclass] at hid
  rw [hlen, hclass]
  exact h size id hwrap hid

theorem pointers_erase (out : List Nat) (c : Nat) :
    (pointers out).erase (c + chunkLinkSize) = pointers (out.erase c) := by
  unfold pointers
  rw [List.map_erase (fun x y h => by simpa using h)]

theorem sum_pointers {s : System A} (out : List Nat) (field : ChunkLink -> Nat) :
    ((pointers out).map fun p => field (s.chunk p)).sum = sumOf s.world field out := by
  unfold pointers sumOf System.chunk
  rw [List.map_map]
  congr 1

section Steps

variable {C : Contract A} {s s' : System A} {frees : Nat -> List Nat} {out : List Nat}

theorem checkPasses_iff (h : Accounts C s.world frees out) (hlive : s.live = pointers out)
    {c : Nat} (hc : c ∈ out) :
    CheckPasses s.world c ↔ OthersCover s (c + chunkLinkSize) := by
  have hused := (h.split_out hc).2.1
  unfold CheckPasses OthersCover
  rw [hlive, pointers_erase, sum_pointers _ ChunkLink.size]
  have hchunk : s.chunk (c + chunkLinkSize) = s.world.mem c := by
    unfold System.chunk
    rw [Nat.add_sub_cancel]
  rw [hchunk]
  rcases (h.held c hc).2 with hid | ⟨i, hi, hid, hsize⟩
  · exact iff_of_true (Or.inl hid) (Or.inl hid)
  · have hne : (s.world.mem c).id ≠ splitId := by
      rw [hid]
      unfold splitId
      omega
    rw [or_iff_right hne, or_iff_right hne, hid, Int.toNat_natCast]
    omega

theorem step_consistent (hs : Consistent C s) {c : Call} (hc : Careful s c)
    (h : step s c = some s') : Consistent C s' := by
  obtain ⟨hfits, frees, out, haccounts, hlive⟩ := hs
  cases c with
  | alloc allocType reqSize slabSize =>
      rcases alloc_spec haccounts hfits allocType hc slabSize with
        ⟨hnone, -⟩ | ⟨ptr, sz, e, w', heq, hshape, frees', out', haccounts', hptr⟩
      · rw [step, hnone] at h
        cases h
      · rw [step, heq] at h
        cases h
        exact ⟨hfits.congr hshape, frees', out', haccounts', by rw [hptr, hlive]⟩
  | splitAlloc reqSize slabSize reqMinsize =>
      obtain ⟨ptr, sz, e, w', heq, hshape, frees', out', haccounts', hptr⟩ :=
        splitAlloc_spec haccounts reqSize.toNat slabSize hc
      dsimp only [step] at h
      rw [heq] at h
      cases h
      exact ⟨hfits.congr hshape, frees', out', haccounts', by rw [hptr, hlive]⟩
  | free ptr =>
      obtain ⟨hptr, hcover⟩ := hc
      rw [hlive] at hptr
      obtain ⟨c, hc, rfl⟩ := List.mem_map.mp hptr
      have hcheck := (checkPasses_iff haccounts hlive hc).mpr hcover
      obtain ⟨-, hshape, frees', haccounts'⟩ := free_spec haccounts hc hcheck
      cases h
      exact ⟨hfits.congr hshape, frees', _, haccounts', by
        rw [hlive, pointers_erase]⟩

end Steps

/-- The statistics of a manager, over the chunks behind live pointers and those on the
lists `frees`. -/
structure Counted (s : System A) (frees : Nat -> List Nat) : Prop where
  chains : forall i, i < s.world.mgr.freeLen ->
    Chain (fun c => (s.world.mem c).next) (s.world.mgr.freeList i) (frees i)
  usedSize : s.world.mgr.stat.usedSize = (s.live.map fun p => (s.chunk p).size).sum
  reqsSize : s.world.mgr.stat.reqsSize = (s.live.map fun p => (s.chunk p).reqSize).sum
  freeSize : s.world.mgr.stat.freeSize =
    ((listed s.world.mgr.freeLen frees).map fun c => (s.world.mem c).size).sum
  chunkCount : s.world.mgr.stat.chunkCount =
    s.live.length + (listed s.world.mgr.freeLen frees).length

theorem Consistent.counted {C : Contract A} {s : System A} (h : Consistent C s) :
    exists frees, Counted s frees := by
  obtain ⟨-, frees, out, haccounts, hlive⟩ := h
  refine ⟨frees, haccounts.chains, ?_, ?_, haccounts.freeSize, ?_⟩
  · rw [hlive, sum_pointers _ ChunkLink.size]
    exact haccounts.usedSize
  · rw [hlive, sum_pointers _ ChunkLink.reqSize]
    exact haccounts.reqsSize
  · rw [hlive, pointers, List.length_map]
    exact haccounts.chunkCount

theorem Consistent.free_iff {C : Contract A} {s : System A} (h : Consistent C s)
    {ptr : Nat} (hptr : ptr ∈ s.live) :
    (free s.world ptr).1 = slabOk ↔ OthersCover s ptr := by
  obtain ⟨-, frees, out, haccounts, hlive⟩ := h
  rw [hlive] at hptr
  obtain ⟨c, hc, rfl⟩ := List.mem_map.mp hptr
  rw [← checkPasses_iff haccounts hlive hc]
  constructor
  · intro hok
    by_contra hcheck
    obtain ⟨f, hf, -⟩ := C.free
    unfold CheckPasses at hcheck
    rw [not_or] at hcheck
    unfold free at hok
    rw [if_neg (by unfold chunkLinkSize; omega), hf] at hok
    dsimp only at hok
    rw [Nat.add_sub_cancel, if_neg hcheck.1] at hok
    dsimp only [freeClass] at hok
    split at hok
    · cases hok
    · rename_i hnot
      exact hnot (Nat.lt_of_not_le hcheck.2)
  · exact fun hcheck => (free_spec haccounts hc hcheck).1

/-- In every run with careful calls the statistics count the chunks, and a live
pointer can be released exactly if the other chunks cover a header. -/
theorem slabs_counted {C : Contract A} {heap heap' : A.State} {uptype : Int}
    {factor : Nat} {itemSizeMin itemSizeMax : UInt64} {e : Errno} {mgr : SlabManager}
    (hvalid : C.valid heap)
    (hcreate : create heap uptype factor itemSizeMin.toNat itemSizeMax.toNat =
      (e, some mgr, heap')) {mem : Nat -> ChunkLink} {s : System A}
    (hrun : Reaches step Careful ⟨⟨mgr, mem, heap'⟩, []⟩ s) :
    (exists frees, Counted s frees) ∧
      forall ptr, ptr ∈ s.live -> ((free s.world ptr).1 = slabOk ↔ OthersCover s ptr) := by
  have hunused := create_unused (UInt64.toNat_lt itemSizeMax) hcreate
  obtain ⟨-, -, _, _, hclasses, -⟩ := create_cases hcreate
  have hvalid' : C.valid heap' := createClasses_heap hvalid
    (fun s n p s' hs h => (C.calloc s n p s' hs h).1) hclasses
  have hs : Consistent C s := by
    refine hrun.invariant (Consistent C) (fun t c u ht hc hstep =>
      step_consistent ht hc hstep) ⟨hunused.fits, fun _ => [], [], ?_, rfl⟩
    obtain ⟨hused, hreqs, hfree, hcount⟩ := hunused.counts
    have hnil : listed mgr.freeLen (fun _ => []) = [] := by simp [listed]
    exact
      { valid := hvalid'
        chains := fun i _ => hunused.freeList i
        nodup := by rw [hnil]; exact List.nodup_nil
        blocks := by rw [hnil]; simp
        sizes := by simp
        held := by simp
        usedSize := hused
        reqsSize := hreqs
        freeSize := by rw [hnil]; exact hfree
        chunkCount := by rw [hnil]; exact hcount }
  exact ⟨hs.counted, fun ptr hptr => hs.free_iff hptr⟩

/-!
## An allocator
-/

structure Bump where
  next : Nat
  live : List (Nat × Nat)

def Bump.alloc (b : Bump) (n : Nat) : Option Nat × Bump :=
  if b.next + n + 1 ≤ 2 ^ 64 then (some b.next, ⟨b.next + n + 1, (b.next, n) :: b.live⟩)
  else (none, b)

def Bump.splitAlloc (b : Bump) (n : Nat) : Option (Nat × Nat) × Bump :=
  match b.alloc n with
  | (some p, b') => (some (p, n), b')
  | (none, b') => (none, b')

/-- Blocks one after the other; what is released is not used again. -/
def bumpAllocator : MemAllocator where
  State := Bump
  alloc := Bump.alloc
  calloc := Bump.alloc
  splitAlloc := some Bump.splitAlloc
  free := some fun b p => (true, ⟨b.next, b.live.eraseP fun r => r.1 == p⟩)

/-- The blocks lie below the next address, and no two start at the same one. -/
structure Bump.Valid (b : Bump) : Prop where
  next : 1 ≤ b.next ∧ b.next ≤ 2 ^ 64
  below : forall r, r ∈ b.live -> 1 ≤ r.1 ∧ r.1 + r.2 < b.next
  apart : b.live.Pairwise RegionsApart
  starts : b.live.Pairwise fun r r' => r.1 ≠ r'.1

theorem Bump.alloc_valid {b b' : Bump} {n p : Nat} (hb : b.Valid)
    (h : b.alloc n = (some p, b')) : b'.Valid ∧ b'.live = (p, n) :: b.live := by
  unfold Bump.alloc at h
  split at h
  · rename_i hle
    cases h
    refine ⟨⟨⟨?_, hle⟩, ?_, ?_, ?_⟩, rfl⟩
    · dsimp only
      omega
    · intro r hr
      rcases List.mem_cons.mp hr with rfl | hr
      · exact ⟨hb.next.1, Nat.lt_succ_self _⟩
      · have := hb.below r hr
        dsimp only
        omega
    · refine List.pairwise_cons.mpr ⟨fun r hr => ?_, hb.apart⟩
      have := hb.below r hr
      unfold RegionsApart Apart
      dsimp only
      omega
    · refine List.pairwise_cons.mpr ⟨fun r hr => ?_, hb.starts⟩
      have := hb.below r hr
      dsimp only
      omega
  · cases h

theorem Bump.alloc_none {b b' : Bump} {n : Nat} (h : b.alloc n = (none, b')) : b' = b := by
  unfold Bump.alloc at h
  split at h
  · cases h
  · cases h
    rfl

theorem Bump.splitAlloc_none {b b' : Bump} {n : Nat} (h : b.splitAlloc n = (none, b')) :
    b' = b := by
  unfold Bump.splitAlloc at h
  split at h
  · cases h
  · rename_i halloc
    cases h
    exact Bump.alloc_none halloc

theorem Bump.splitAlloc_valid {b b' : Bump} {n p act : Nat} (hb : b.Valid)
    (h : b.splitAlloc n = (some (p, act), b')) :
    n ≤ act ∧ b'.Valid ∧ b'.live = (p, act) :: b.live := by
  unfold Bump.splitAlloc at h
  split at h
  · rename_i halloc
    cases h
    exact ⟨Nat.le_refl _, Bump.alloc_valid hb halloc⟩
  · cases h

def bumpContract : Contract bumpAllocator where
  valid := Bump.Valid
  blocks := Bump.live
  apart := fun _ hs => hs.apart
  inside := fun _ hs r hr => by
    have hnext := hs.next
    have := hs.below r hr
    omega
  alloc_none := fun _ _ _ hs h => by
    obtain rfl := Bump.alloc_none h
    exact ⟨hs, List.Perm.refl _⟩
  alloc_some := fun _ _ _ _ hs h => by
    obtain ⟨hvalid, hlive⟩ := Bump.alloc_valid hs h
    exact ⟨hvalid, hlive ▸ List.Perm.refl _⟩
  calloc := fun _ _ _ _ hs h => by
    obtain ⟨hvalid, hlive⟩ := Bump.alloc_valid hs h
    exact ⟨hvalid, hlive ▸ List.Perm.refl _⟩
  split_none := by
    rintro f ⟨⟩ s n s' hs h
    obtain rfl := Bump.splitAlloc_none h
    exact ⟨hs, List.Perm.refl _⟩
  split_some := by
    rintro f ⟨⟩ s n p act s' hs h
    obtain ⟨hle, hvalid, hlive⟩ := Bump.splitAlloc_valid hs h
    exact ⟨hle, hvalid, hlive ▸ List.Perm.refl _⟩
  free := by
    refine ⟨_, rfl, fun s p n hs hmem => ⟨rfl, ?_, ?_⟩⟩
    · have hsub : (s.live.eraseP fun r => r.1 == p).Sublist s.live :=
        List.eraseP_sublist
      exact ⟨hs.next, fun r hr => hs.below r (hsub.subset hr), hs.apart.sublist hsub,
        hs.starts.sublist hsub⟩
    · exact (eraseP_start hs.starts hmem) ▸ List.Perm.refl _

def Bump.fresh : Bump := ⟨64, []⟩

theorem Bump.fresh_valid : Bump.fresh.Valid :=
  ⟨by decide, by simp [Bump.fresh], List.Pairwise.nil, List.Pairwise.nil⟩

def powers : System bumpAllocator :=
  let r := create (A := bumpAllocator) Bump.fresh 1 2 64 1024
  ⟨⟨r.2.1.get rfl, fun _ => ⟨0, 0, 0, none⟩, r.2.2⟩, []⟩

theorem slabs_counted_two :
    create (A := bumpAllocator) Bump.fresh 1 2 64 1024 =
        (Errno.none, some powers.world.mgr, powers.world.heap) ∧
      exists s : System bumpAllocator, Reaches step Careful powers s ∧
        (exists frees, Counted s frees) ∧
        forall ptr, ptr ∈ s.live -> ((free s.world ptr).1 = slabOk ↔ OthersCover s ptr) := by
  have hrun : Reaches step Careful powers _ :=
    (((Reaches.refl _).oneLabel (a := Call.alloc 0 50 true) (by decide +kernel)
      (by decide +kernel)).oneLabel (a := Call.alloc 0 100 true) (by decide +kernel)
      (by decide +kernel)).oneLabel (a := Call.free 306) (by decide +kernel)
      (by decide +kernel)
  have hcreate : create (A := bumpAllocator) Bump.fresh 1 2 (64 : UInt64).toNat
    (1024 : UInt64).toNat = (Errno.none, some powers.world.mgr, powers.world.heap) := rfl
  exact ⟨hcreate, _, hrun,
    slabs_counted (C := bumpContract) Bump.fresh_valid hcreate hrun⟩

/-- The only chunk cannot be released: its size without the header is less than the
size of its class. -/
theorem slabs_counted_single :
    create (A := bumpAllocator) Bump.fresh 1 2 64 1024 =
        (Errno.none, some powers.world.mgr, powers.world.heap) ∧
      exists s : System bumpAllocator, Reaches step Outstanding powers s ∧
        306 ∈ s.live ∧ (free s.world 306).1 = slabError := by
  have hrun : Reaches step Outstanding powers _ :=
    (Reaches.refl _).oneLabel (a := Call.alloc 0 50 true) trivial (by decide +kernel)
  exact ⟨rfl, _, hrun, by decide +kernel, by decide +kernel⟩

end Slabs
end NgxEpoll
