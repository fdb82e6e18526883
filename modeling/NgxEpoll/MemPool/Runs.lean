import NgxEpoll.Foundation.Runs
import NgxEpoll.MemPool.Arrays

/-!
# Runs of the memory pool

A pool from `pool_create` and any sequence of calls, with writes of the caller to its
own regions in between.

## Creation
-/

namespace NgxEpoll
namespace MemPool

open Foundation NgxEpoll.Core

variable {M : Malloc} {C : Contract M}

theorem create_sound {heap heap' : M.State} {size maxSize : Nat} {pool : PoolT}
    (hvalid : C.valid heap) (h : create heap size maxSize = (some pool, heap'))
    (mem : Mem) : Sound C ⟨pool, mem, heap'⟩ [] [] (C.blocks heap) := by
  unfold create at h
  split at h
  · cases h
  dsimp only at h
  generalize hn : (if size < poolSize then size + poolSize else size) = n at h
  have hle : poolSize ≤ n := by
    rw [← hn]
    split
    · omega
    · omega
  have heq : memoryAlloc heap n = M.malloc heap n :=
    if_neg (by unfold poolSize at hle; omega)
  rw [heq] at h
  split at h
  · cases h
  rename_i p heap1 hmalloc
  cases h
  obtain ⟨hvalid', hperm⟩ := C.malloc_some _ _ _ _ hvalid hmalloc
  have hpsize : PoolT.psize
      { block := fun _ => ⟨p, p + poolSize, p + n⟩
        count := 1
        max := if n - poolSize < maxSize then n - poolSize else maxSize
        current := 0
        large := 0 } = n := Nat.add_sub_cancel_left _ _
  refine ⟨hvalid', ?_, ⟨Nat.zero_lt_one, ?_, ?_, ?_, ?_⟩, List.Pairwise.nil, by simp,
    by simp, rfl, by simp [larges]⟩
  · dsimp only
    unfold poolBlocks larges
    rw [hpsize]
    exact hperm
  · rw [hpsize]
    dsimp only
    split
    · omega
    · omega
  · intro i _
    exact Nat.add_le_add_left (le_headerSize i).2 _
  · intro i _
    exact Nat.add_le_add_left hle _
  · intro i _
    rw [hpsize]

/-!
## Calls
-/

/-- A pool with the regions of `pool_alloc` and `pool_calloc` and the arrays that are in
use. -/
structure System (M : Malloc) where
  world : World M
  regions : List (Nat × Nat)
  arrays : List Nat

inductive Call where
  | alloc (size : UInt64)
  | calloc (size : UInt64)
  | arrayCreate (n : UInt32) (size : UInt64)
  | arrayPush (a : Nat)
  | arrayDestroy (a : Nat)
  | write (addr : Nat) (bytes : List Byte)
  | reset (turns : Nat)

def step (s : System M) : Call -> Option (System M)
  | Call.alloc size =>
      (alloc s.world size.toNat).map fun r =>
        ⟨r.2, r.1.toList.map (fun p => (p, size.toNat)) ++ s.regions, s.arrays⟩
  | Call.calloc size =>
      (calloc s.world size.toNat).map fun r =>
        ⟨r.2, r.1.toList.map (fun p => (p, size.toNat)) ++ s.regions, s.arrays⟩
  | Call.arrayCreate n size =>
      (arrayCreate s.world n.toNat size.toNat).map fun r =>
        ⟨r.2, s.regions, r.1.toList ++ s.arrays⟩
  | Call.arrayPush a =>
      (arrayPush s.world a).map fun r => ⟨r.2, s.regions, s.arrays⟩
  | Call.arrayDestroy a =>
      (arrayDestroy s.world a).map fun w => ⟨w, s.regions, s.arrays.erase a⟩
  | Call.write addr bytes =>
      some { s with world := { s.world with mem := store s.world.mem addr bytes } }
  | Call.reset turns => (reset turns s.world).map fun r => ⟨r.2, [], []⟩

def arrayRegions (m : Mem) (a : Nat) : List (Nat × Nat) :=
  [header a, eltsOf m a]

def System.owned (s : System M) : List (Nat × Nat) :=
  s.regions ++ s.arrays.flatMap (arrayRegions s.world.mem)

/-- The bytes lie in a region or among the elements of an array. -/
def Writable (s : System M) (addr n : Nat) : Prop :=
  exists r, r ∈ s.regions ++ s.arrays.map (eltsOf s.world.mem) ∧ r.1 ≤ addr ∧
    addr + n ≤ r.1 + r.2

instance (s : System M) (addr n : Nat) : Decidable (Writable s addr n) :=
  inferInstanceAs (Decidable (exists r, r ∈ _ ∧ _))

/-- Arrays and regions are used only while they are in use. -/
def Permitted (s : System M) : Call -> Prop
  | Call.arrayPush a => a ∈ s.arrays
  | Call.arrayDestroy a => a ∈ s.arrays
  | Call.write addr bytes => Writable s addr bytes.length
  | _ => True

instance (s : System M) (c : Call) : Decidable (Permitted s c) := by
  unfold Permitted
  split <;> infer_instance

def linked (m : Mem) : Nat -> Nat -> List Nat
  | 0, _ => []
  | turns + 1, l => if l = 0 then [] else l :: linked m turns (loadNat m (l + 16) 8)

/-- No bytes of a linked descriptor are among those a request would take from a block
with room for it. -/
def Clear (w : World M) (size : Nat) : Prop :=
  forall turns, ClearOf w.pool (linked w.mem turns w.pool.large) (carved w.pool size)

/-- Allocations are clear of linked descriptors, and the sizes and counts of arrays do
not wrap. -/
def Careful (s : System M) : Call -> Prop
  | Call.alloc size => Clear s.world size.toNat
  | Call.calloc size => Clear s.world size.toNat
  | Call.arrayCreate n size =>
      n.toNat * size.toNat < 2 ^ 64 ∧ Clear s.world arraySize ∧
        forall r w, alloc s.world arraySize = some (r, w) ->
          Clear w (n.toNat * size.toNat)
  | Call.arrayPush a =>
      a ∈ s.arrays ∧
        forall turns, GrowOk s.world a (linked s.world.mem turns s.world.pool.large)
  | Call.arrayDestroy a => a ∈ s.arrays
  | Call.write addr bytes => Writable s addr bytes.length
  | Call.reset _ => True

/-- A push that finds the array full can count the places that it adds. -/
def CountFits (w : World M) (a : Nat) : Prop :=
  let arr := readArray w.mem a
  arr.nelts = arr.nalloc ->
    (if InPlace w.pool arr then arr.nalloc + 1 else arr.nalloc * 2) < 2 ^ 32

instance (w : World M) (a : Nat) : Decidable (CountFits w a) :=
  inferInstanceAs (Decidable (_ -> _))

/-- `pool_reset` is called only while no large region is linked, and the sizes and counts
of arrays do not wrap. -/
def Unlinked (s : System M) : Call -> Prop
  | Call.arrayCreate n size => n.toNat * size.toNat < 2 ^ 64
  | Call.arrayPush a => a ∈ s.arrays ∧ CountFits s.world a
  | Call.arrayDestroy a => a ∈ s.arrays
  | Call.write addr bytes => Writable s addr bytes.length
  | Call.reset _ => s.world.pool.large = 0
  | _ => True

instance (s : System M) (c : Call) : Decidable (Unlinked s c) := by
  unfold Unlinked
  split <;> infer_instance

/-!
## The invariant of the system
-/

structure ArrayOk (p : PoolT) (arr : ArrayT) : Prop where
  pool : arr.pool = (p.block 0).addr
  nelts : arr.nelts ≤ arr.nalloc

structure Consistent (C : Contract M) (s : System M) (nodes : List Nat)
    (rest : List (Nat × Nat)) : Prop where
  sound : Sound C s.world s.owned nodes rest
  arrays : forall a, a ∈ s.arrays -> ArrayOk s.world.pool (readArray s.world.mem a)

theorem linked_of_chain {m : Mem} {l : Nat} {ns : List Nat}
    (h : Chain (nextLarge m) (toPtr l) ns) : linked m ns.length l = ns := by
  induction ns generalizing l with
  | nil => rfl
  | cons x ns ih =>
      obtain ⟨hhead, hchain⟩ := h
      unfold toPtr at hhead
      split at hhead
      · cases hhead
      · rename_i hl
        obtain rfl := Option.some.inj hhead
        rw [List.length_cons, linked, if_neg hl, ih hchain]

theorem clear_of_chain {w : World M} {size : Nat} {nodes : List Nat} (h : Clear w size)
    (hchain : Chain (nextLarge w.mem) (toPtr w.pool.large) nodes) :
    ClearOf w.pool nodes (carved w.pool size) := by
  have := h nodes.length
  rwa [linked_of_chain hchain] at this

theorem linked_subset {m : Mem} {l : Nat} {ns : List Nat}
    (h : Chain (nextLarge m) (toPtr l) ns) (turns : Nat) : linked m turns l ⊆ ns := by
  induction turns generalizing l ns with
  | zero => exact List.nil_subset _
  | succ turns ih =>
      rw [linked]
      split
      · exact List.nil_subset _
      · rename_i hl
        rw [toPtr, if_neg hl] at h
        obtain ⟨ns', rfl, hchain⟩ := chain_some.mp h
        exact List.cons_subset_cons _ (ih hchain)

theorem Sound.nodes_of_null {w : World M} {owned rest : List (Nat × Nat)}
    {nodes : List Nat} (h : Sound C w owned nodes rest) (hnull : w.pool.large = 0) :
    nodes = [] := by
  have hchain := h.chain
  rw [hnull] at hchain
  exact chain_none.mp hchain

theorem Sound.clear {w : World M} {owned rest : List (Nat × Nat)} {nodes : List Nat}
    (h : Sound C w owned nodes rest) (hlow : Low w.pool nodes) (size : Nat) :
    Clear w size := by
  intro turns i hi hfits l hl
  have hcount := mem_fromCurrent hi
  have hinside := h.block_inside hcount
  have hlast := h.pool.last i hcount
  have hstop := h.pool.stop i hcount
  have halign := alignPtr_spec (x := (w.pool.block i).last) (by omega)
  obtain ⟨hroom, hfit⟩ := hfits
  exact h.inBlock_apart hcount halign.1 (by omega) (one_le_descriptor l)
    (hlow l (linked_subset h.chain turns hl))

theorem arrays_congr {m m' : Mem} {as : List Nat}
    (h : forall q, q ∈ as.flatMap (arrayRegions m) -> load m' q.1 q.2 = load m q.1 q.2) :
    (forall a, a ∈ as -> readArray m' a = readArray m a) ∧
      as.flatMap (arrayRegions m') = as.flatMap (arrayRegions m) := by
  have hread : forall a, a ∈ as -> readArray m' a = readArray m a := by
    intro a ha
    refine readArray_congr (h (header a) (List.mem_flatMap.mpr ⟨a, ha, ?_⟩))
    simp [arrayRegions]
  refine ⟨hread, List.flatMap_congr fun a ha => ?_⟩
  rw [arrayRegions, arrayRegions, eltsOf, eltsOf, hread a ha]

section Steps

variable {s : System M} {nodes : List Nat} {rest : List (Nat × Nat)}

def System.others (s : System M) (a : Nat) : List (Nat × Nat) :=
  s.regions ++ (s.arrays.erase a).flatMap (arrayRegions s.world.mem)

theorem owned_perm {a : Nat} (ha : a ∈ s.arrays) :
    s.owned.Perm (header a :: eltsOf s.world.mem a :: s.others a) := by
  have hfront : (s.arrays.flatMap (arrayRegions s.world.mem)).Perm
      (header a :: eltsOf s.world.mem a ::
        (s.arrays.erase a).flatMap (arrayRegions s.world.mem)) :=
    (List.perm_cons_erase ha).flatMap_right _
  refine (hfront.append_left s.regions).trans ?_
  exact List.perm_middle.trans (List.perm_middle.cons _)

theorem Consistent.held (h : Consistent C s nodes rest) {a : Nat} (ha : a ∈ s.arrays) :
    Held C s.world a (s.others a) nodes rest :=
  ⟨h.sound.perm (owned_perm ha).symm, (h.arrays a ha).pool, (h.arrays a ha).nelts⟩

theorem Consistent.added (h : Consistent C s nodes rest) {w : World M}
    {new : List (Nat × Nat)} {nodes' : List Nat}
    (hsound : Sound C w (new ++ s.owned) nodes' rest)
    (haddr : (w.pool.block 0).addr = (s.world.pool.block 0).addr)
    (hkeep : forall q, q ∈ s.owned -> load w.mem q.1 q.2 = load s.world.mem q.1 q.2) :
    Consistent C ⟨w, new ++ s.regions, s.arrays⟩ nodes' rest := by
  obtain ⟨hread, hregions⟩ := arrays_congr fun q hq =>
    hkeep q (List.mem_append_right _ hq)
  constructor
  · unfold System.owned at hsound ⊢
    dsimp only
    rwa [hregions, List.append_assoc]
  · intro a ha
    dsimp only at ha ⊢
    rw [hread a ha]
    exact ⟨(h.arrays a ha).pool.trans haddr.symm, (h.arrays a ha).nelts⟩

theorem Consistent.pushed (h : Consistent C s nodes rest) {a : Nat} (ha : a ∈ s.arrays)
    {w : World M} {nodes' : List Nat} (hheld : Held C w a (s.others a) nodes' rest)
    (hpushed : Pushed s.world w a (s.others a)) :
    Consistent C ⟨w, s.regions, s.arrays⟩ nodes' rest := by
  obtain ⟨hread, hregions⟩ := arrays_congr fun q hq =>
    hpushed.others q (List.mem_append_right _ hq)
  have hothers : System.others ⟨w, s.regions, s.arrays⟩ a = s.others a := by
    unfold System.others
    rw [hregions]
  constructor
  · refine hheld.sound.perm ?_
    rw [← hothers]
    exact owned_perm (s := ⟨w, s.regions, s.arrays⟩) ha
  · intro b hb
    dsimp only at hb ⊢
    by_cases hba : b = a
    · subst hba
      exact ⟨hheld.pool, hheld.nelts⟩
    · rw [hread b ((List.mem_erase_of_ne hba).mpr hb)]
      exact ⟨(h.arrays b hb).pool.trans hpushed.addr.symm, (h.arrays b hb).nelts⟩

theorem Consistent.written (h : Consistent C s nodes rest) {addr : Nat}
    {bytes : List Byte} (hw : Writable s addr bytes.length) :
    Consistent C
      { s with world := { s.world with mem := store s.world.mem addr bytes } } nodes
      rest := by
  obtain ⟨r, hr, hlo, hhi⟩ := hw
  have hdiffers : DiffersIn s.world.mem (store s.world.mem addr bytes) r.1 r.2 :=
    differsIn_store _ hlo hhi
  have hmem : r ∈ s.owned := by
    refine (List.mem_append.mp hr).elim (List.mem_append_left _) fun hr => ?_
    obtain ⟨b, hb, rfl⟩ := List.mem_map.mp hr
    exact List.mem_append_right _ (List.mem_flatMap.mpr ⟨b, hb, by simp [arrayRegions]⟩)
  -- no header is written
  have hread : forall a, a ∈ s.arrays ->
      readArray (store s.world.mem addr bytes) a = readArray s.world.mem a := by
    intro a ha
    refine readArray_congr (hdiffers.load_eq ?_)
    refine (List.pairwise_cons.mp (h.held ha).sound.apart).1 r (List.mem_append_left _ ?_)
    rcases List.mem_append.mp hr with hr | hr
    · exact List.mem_cons_of_mem _ (List.mem_append_left _ hr)
    · obtain ⟨b, hb, rfl⟩ := List.mem_map.mp hr
      by_cases hba : b = a
      · rw [hba]
        exact List.mem_cons_self
      · refine List.mem_cons_of_mem _ (List.mem_append_right _ (List.mem_flatMap.mpr
          ⟨b, (List.mem_erase_of_ne hba).mpr hb, by simp [arrayRegions]⟩))
  have hregions : s.arrays.flatMap (arrayRegions (store s.world.mem addr bytes)) =
      s.arrays.flatMap (arrayRegions s.world.mem) := by
    refine List.flatMap_congr fun a ha => ?_
    rw [arrayRegions, arrayRegions, eltsOf, eltsOf, hread a ha]
  constructor
  · unfold System.owned
    dsimp only
    rw [hregions]
    exact h.sound.write hmem hdiffers
  · intro a ha
    dsimp only at ha ⊢
    rw [hread a ha]
    exact h.arrays a ha

theorem Consistent.created (h : Consistent C s nodes rest) {a : Nat} {w : World M}
    {nodes' : List Nat} (hheld : Held C w a s.owned nodes' rest)
    (haddr : (w.pool.block 0).addr = (s.world.pool.block 0).addr)
    (hkeep : forall q, q ∈ s.owned -> load w.mem q.1 q.2 = load s.world.mem q.1 q.2) :
    Consistent C ⟨w, s.regions, a :: s.arrays⟩ nodes' rest := by
  obtain ⟨hread, hregions⟩ := arrays_congr fun q hq =>
    hkeep q (List.mem_append_right _ hq)
  constructor
  · refine hheld.sound.perm ?_
    unfold System.owned
    dsimp only
    rw [List.flatMap_cons, hregions]
    exact List.perm_middle.trans (List.perm_middle.cons _)
  · intro b hb
    dsimp only at hb ⊢
    rcases List.mem_cons.mp hb with rfl | hb
    · exact ⟨hheld.pool, hheld.nelts⟩
    · rw [hread b hb]
      exact ⟨(h.arrays b hb).pool.trans haddr.symm, (h.arrays b hb).nelts⟩

theorem step_consistent (h : Consistent C s nodes rest) {c : Call} (hc : Careful s c)
    {t : System M} (hstep : step s c = some t) :
    exists nodes', Consistent C t nodes' rest ∧
      (Unlinked s c -> Low s.world.pool nodes -> Low t.world.pool nodes') := by
  unfold step at hstep
  cases c with
  | alloc size =>
      obtain ⟨⟨r, w⟩, halloc, rfl⟩ := Option.map_eq_some_iff.mp hstep
      obtain ⟨nodes', hgrown, hkeep, h1, hlow⟩ :=
        alloc_spec h.sound (clear_of_chain hc h.sound.chain) halloc
      exact ⟨nodes', h.added h1 hgrown.addr hkeep, fun _ => hlow⟩
  | calloc size =>
      obtain ⟨⟨r, w⟩, hcalloc, rfl⟩ := Option.map_eq_some_iff.mp hstep
      obtain ⟨nodes', hgrown, hkeep, h1, hlow⟩ :=
        calloc_spec h.sound (clear_of_chain hc h.sound.chain) hcalloc
      exact ⟨nodes', h.added h1 hgrown.addr hkeep, fun _ => hlow⟩
  | arrayCreate n size =>
      obtain ⟨⟨r, w⟩, hcreate, rfl⟩ := Option.map_eq_some_iff.mp hstep
      obtain ⟨hfits, hclear, hclear'⟩ := hc
      have hcarve := clear_of_chain hclear h.sound.chain
      obtain ⟨nodes', haddr, hkeep, hresult, hlow⟩ :=
        arrayCreate_spec h.sound n.toNat_lt size.toNat_lt hfits hcarve
          (fun r w' _ halloc hchain => clear_of_chain (hclear' r w' halloc) hchain) hcreate
      rcases hresult with ⟨rfl, h1⟩ | ⟨a, rfl, h1⟩
      · have hnew : Sound C w ([] ++ s.owned) nodes' rest := h1
        exact ⟨nodes', h.added hnew haddr hkeep, fun _ => hlow⟩
      · exact ⟨nodes', h.created h1 haddr hkeep, fun _ => hlow⟩
  | arrayPush a =>
      obtain ⟨ha, hgrow⟩ := hc
      obtain ⟨⟨r, w⟩, hpush, rfl⟩ := Option.map_eq_some_iff.mp hstep
      have hgrow' := hgrow nodes.length
      rw [linked_of_chain h.sound.chain] at hgrow'
      obtain ⟨nodes', h1, hpushed, hlow⟩ := arrayPush_spec (h.held ha) hgrow' hpush
      exact ⟨nodes', h.pushed ha h1 hpushed, fun _ => hlow⟩
  | arrayDestroy a =>
      obtain ⟨w, hdestroy, rfl⟩ := Option.map_eq_some_iff.mp hstep
      obtain ⟨hmem, haddr, h1, hlow⟩ := arrayDestroy_spec (h.held hc) hdestroy
      refine ⟨nodes, ⟨?_, fun b hb => ?_⟩, fun _ => hlow⟩
      · unfold System.owned
        dsimp only
        rw [hmem]
        exact h1
      · dsimp only at hb ⊢
        rw [hmem]
        have hb' := h.arrays b (List.mem_of_mem_erase hb)
        exact ⟨hb'.pool.trans haddr.symm, hb'.nelts⟩
  | write addr bytes =>
      cases hstep
      exact ⟨nodes, h.written hc, fun _ hlow => hlow⟩
  | reset turns =>
      obtain ⟨⟨freed, w⟩, hreset, rfl⟩ := Option.map_eq_some_iff.mp hstep
      obtain ⟨w', heq, -, -, h1⟩ :=
        reset_spec h.sound (Nat.le_max_right turns nodes.length)
      rw [reset_mono (Nat.le_max_left turns nodes.length) hreset] at heq
      cases heq
      refine ⟨nodes, ⟨h1, fun a ha => by cases ha⟩, fun hnull _ l hl => ?_⟩
      rw [h.sound.nodes_of_null hnull] at hl
      cases hl

/-- Where the descriptors lie below `data.last`, no bytes of theirs are handed out. -/
theorem Consistent.careful (h : Consistent C s nodes rest) (hlow : Low s.world.pool nodes)
    {c : Call} (hc : Unlinked s c) : Careful s c := by
  cases c with
  | alloc size => exact h.sound.clear hlow _
  | calloc size => exact h.sound.clear hlow _
  | arrayCreate n size =>
      refine ⟨hc, h.sound.clear hlow _, fun r w halloc => ?_⟩
      obtain ⟨nodes', -, -, h1, hlow'⟩ :=
        alloc_spec h.sound (clear_of_chain (h.sound.clear hlow _) h.sound.chain) halloc
      exact h1.clear (hlow' hlow) _
  | arrayPush a =>
      obtain ⟨ha, hcount⟩ := hc
      refine ⟨ha, fun turns hfull => ?_⟩
      have hcount := hcount hfull
      split
      · rename_i hin
        rw [if_pos hin] at hcount
        refine ⟨hcount, fun l hl => ?_⟩
        have hzero : 0 < s.world.pool.count :=
          Nat.lt_of_le_of_lt (Nat.zero_le _) h.sound.pool.current
        exact h.sound.inBlock_apart hzero (Nat.le_refl _) ((h.held ha).in_place hin).2.2
          (one_le_descriptor l) (hlow l (linked_subset h.sound.chain turns hl))
      · rename_i hin
        rw [if_neg hin] at hcount
        exact ⟨hcount, h.sound.clear hlow _ turns⟩
  | arrayDestroy a => exact hc
  | write addr bytes => exact hc
  | reset turns => trivial

end Steps

/-!
## Along a run
-/

def InOneBlock (C : Contract M) (w : World M) (r : Nat × Nat) : Prop :=
  exists i, i < w.pool.count ∧ ((w.pool.block i).addr, w.pool.psize) ∈ C.blocks w.heap ∧
    (w.pool.block i).addr + headerSize i ≤ r.1 ∧
    r.1 + r.2 ≤ (w.pool.block i).addr + w.pool.psize

/-- A block of the system that is not of the pool. -/
def OwnBlock (C : Contract M) (w : World M) (r : Nat × Nat) : Prop :=
  r ∈ C.blocks w.heap ∧ forall i, i < w.pool.count ->
    RegionsApart ((w.pool.block i).addr, w.pool.psize) r

structure RegionsSound (C : Contract M) (s : System M) : Prop where
  apart : s.owned.Pairwise RegionsApart
  aligned : forall r, r ∈ s.owned -> r.1 % 8 = 0
  placed : forall r, r ∈ s.owned -> InOneBlock C s.world r ∨ OwnBlock C s.world r

theorem Consistent.regionsSound {s : System M} {nodes : List Nat}
    {rest : List (Nat × Nat)} (h : Consistent C s nodes rest) : RegionsSound C s := by
  refine ⟨(List.pairwise_append.mp h.sound.apart).1,
    fun r hr => (h.sound.placed r hr).2.1, fun r hr => ?_⟩
  obtain ⟨-, -, ⟨i, hi, hlo, hhi⟩ | hlarge⟩ := h.sound.placed r hr
  · have hlast := h.sound.pool.last i hi
    have hstop := h.sound.pool.stop i hi
    have hblock := h.sound.blocks.mem_iff.mpr
      (List.mem_append_left _ (List.mem_append_left _ (mem_poolBlocks hi)))
    exact Or.inl ⟨i, hi, hblock, hlo, by omega⟩
  · have hblock := h.sound.blocks.mem_iff.mpr
      (List.mem_append_left _ (List.mem_append_right _ hlarge))
    exact Or.inr ⟨hblock, fun i hi => h.sound.large_apart hi (List.mem_append_left _ hlarge)⟩

theorem run_consistent {heap heap' : M.State} {size maxSize : Nat} {pool : PoolT}
    (hvalid : C.valid heap) (hcreate : create heap size maxSize = (some pool, heap'))
    {mem : Mem} {s : System M}
    (hrun : Reaches step Careful ⟨⟨pool, mem, heap'⟩, [], []⟩ s) :
    exists nodes, Consistent C s nodes (C.blocks heap) :=
  hrun.invariant (fun s => exists nodes, Consistent C s nodes (C.blocks heap))
    (fun _ _ _ ⟨_, hs⟩ hc hstep => (step_consistent hs hc hstep).imp fun _ => And.left)
    ⟨[], create_sound hvalid hcreate mem, fun _ ha => by cases ha⟩

/-- While `pool_reset` never finds a large region linked, every call is careful. -/
theorem careful_of_unlinked {heap heap' : M.State} {size maxSize : Nat} {pool : PoolT}
    (hvalid : C.valid heap) (hcreate : create heap size maxSize = (some pool, heap'))
    {mem : Mem} {s : System M}
    (hrun : Reaches step Unlinked ⟨⟨pool, mem, heap'⟩, [], []⟩ s) :
    Reaches step Careful ⟨⟨pool, mem, heap'⟩, [], []⟩ s := by
  refine (hrun.invariant (fun t => Reaches step Careful ⟨⟨pool, mem, heap'⟩, [], []⟩ t ∧
    exists nodes, Consistent C t nodes (C.blocks heap) ∧ Low t.world.pool nodes) ?_ ?_).1
  · rintro t c u ⟨ht, nodes, hs, hlow⟩ hc hstep
    have hcareful := hs.careful hlow hc
    obtain ⟨nodes', hu, hlow'⟩ := step_consistent hs hcareful hstep
    exact ⟨ht.tail hcareful hstep, nodes', hu, hlow' hc hlow⟩
  · exact ⟨Reaches.refl _, [], ⟨create_sound hvalid hcreate mem, fun _ ha => by cases ha⟩,
      fun _ hl => by cases hl⟩

theorem Consistent.push_elements {s t : System M} {nodes : List Nat}
    {rest : List (Nat × Nat)} (h : Consistent C s nodes rest) {a : Nat}
    (hc : Careful s (Call.arrayPush a)) (hstep : step s (Call.arrayPush a) = some t)
    {b : Nat} (hb : b ∈ s.arrays) :
    elements s.world.mem b <+: elements t.world.mem b := by
  obtain ⟨ha, hgrow⟩ := hc
  unfold step at hstep
  obtain ⟨⟨r, w⟩, hpush, rfl⟩ := Option.map_eq_some_iff.mp hstep
  have hgrow' := hgrow nodes.length
  rw [linked_of_chain h.sound.chain] at hgrow'
  obtain ⟨nodes', -, hpushed, -⟩ := arrayPush_spec (h.held ha) hgrow' hpush
  by_cases hba : b = a
  · subst hba
    exact hpushed.elements
  · have hothers : forall q, q ∈ arrayRegions s.world.mem b ->
        load w.mem q.1 q.2 = load s.world.mem q.1 q.2 := by
      intro q hq
      exact hpushed.others q (List.mem_append_right _
        (List.mem_flatMap.mpr ⟨b, (List.mem_erase_of_ne hba).mpr hb, hq⟩))
    have hread : readArray w.mem b = readArray s.world.mem b :=
      readArray_congr (hothers (header b) (by simp [arrayRegions]))
    refine elements_prefix (by rw [hread]) (by rw [hread]) ?_
    dsimp only
    rw [hread]
    exact load_initial (hothers (eltsOf s.world.mem b) (by simp [arrayRegions]))
      (Nat.mul_le_mul_right _ (h.arrays b hb).nelts)

/-- In every run with careful calls the regions are sound, and a push keeps the
elements there are. -/
theorem regions_sound {heap heap' : M.State} {size maxSize : Nat} {pool : PoolT}
    (hvalid : C.valid heap) (hcreate : create heap size maxSize = (some pool, heap'))
    {mem : Mem} {s : System M}
    (hrun : Reaches step Careful ⟨⟨pool, mem, heap'⟩, [], []⟩ s) :
    RegionsSound C s ∧
      forall a t, Careful s (Call.arrayPush a) -> step s (Call.arrayPush a) = some t ->
        forall b, b ∈ s.arrays -> elements s.world.mem b <+: elements t.world.mem b := by
  obtain ⟨nodes, hs⟩ := run_consistent hvalid hcreate hrun
  exact ⟨hs.regionsSound, fun a t hc hstep b hb => hs.push_elements hc hstep hb⟩

/-- In every run with careful calls the linked descriptors stay apart from the regions,
and `pool_reset` and `pool_destroy` release the blocks they should, each once. -/
theorem large_released_once {heap heap' : M.State} {size maxSize : Nat} {pool : PoolT}
    (hvalid : C.valid heap) (hcreate : create heap size maxSize = (some pool, heap'))
    {mem : Mem} {s : System M}
    (hrun : Reaches step Careful ⟨⟨pool, mem, heap'⟩, [], []⟩ s) :
    exists nodes ls, Chain (nextLarge s.world.mem) (toPtr s.world.pool.large) nodes ∧
      (forall l, l ∈ nodes -> forall r, r ∈ s.owned -> RegionsApart r (descriptor l)) ∧
      (C.blocks s.world.heap).Perm (poolBlocks s.world.pool ++ ls ++ C.blocks heap) ∧
      ((ls ++ poolBlocks s.world.pool).map Prod.fst).Nodup ∧
      (forall turns, nodes.length ≤ turns -> exists w,
        reset turns s.world = some (ls.map Prod.fst, w) ∧
        (C.blocks w.heap).Perm (poolBlocks s.world.pool ++ C.blocks heap)) ∧
      forall turns, nodes.length ≤ turns -> exists heap'',
        destroy turns s.world =
          some ((ls ++ poolBlocks s.world.pool).map Prod.fst, heap'') ∧
        (C.blocks heap'').Perm (C.blocks heap) := by
  obtain ⟨nodes, hs⟩ := run_consistent hvalid hcreate hrun
  refine ⟨nodes, larges s.world.mem nodes, hs.sound.chain,
    fun l hl r hr => hs.sound.node_apart hl hr, hs.sound.blocks, hs.sound.starts,
    fun turns hturns => ?_, fun turns hturns => ?_⟩
  · obtain ⟨w, heq, hpool, hlarge, hw⟩ := reset_spec hs.sound hturns
    have hblocks := hw.blocks
    rw [hlarge, hpool, List.append_nil] at hblocks
    exact ⟨w, heq, hblocks⟩
  · obtain ⟨heap'', heq, -, hblocks⟩ := destroy_spec hs.sound hturns
    exact ⟨heap'', heq, hblocks⟩

/-!
## An allocator
-/

def top (bs : List (Nat × Nat)) : Nat :=
  bs.foldr (fun b t => max (b.1 + b.2 + 1) t) 4096

def topMalloc (bs : List (Nat × Nat)) (n : Nat) : Option Nat × List (Nat × Nat) :=
  let p := (top bs + 15) / 16 * 16
  if p + n < 2 ^ 63 then (some p, (p, n) :: bs) else (none, bs)

def stack : Malloc where
  State := List (Nat × Nat)
  malloc := topMalloc
  free := fun bs p => bs.eraseP fun b => b.1 == p

structure Stacked (bs : List (Nat × Nat)) : Prop where
  inside : forall b, b ∈ bs -> 1 ≤ b.1 ∧ b.1 % 16 = 0 ∧ b.1 + b.2 < 2 ^ 63
  apart : bs.Pairwise RegionsApart
  starts : bs.Pairwise fun b b' => b.1 ≠ b'.1

theorem lt_top {bs : List (Nat × Nat)} {b : Nat × Nat} (hb : b ∈ bs) :
    b.1 + b.2 < top bs := by
  induction bs with
  | nil => cases hb
  | cons c bs ih =>
      change _ < max (c.1 + c.2 + 1) (top bs)
      rcases List.mem_cons.mp hb with rfl | hb
      · omega
      · have := ih hb
        omega

theorem le_top (bs : List (Nat × Nat)) : 4096 ≤ top bs := by
  induction bs with
  | nil => exact Nat.le_refl _
  | cons c bs ih => exact Nat.le_trans ih (Nat.le_max_right _ _)

theorem topMalloc_some {bs bs' : List (Nat × Nat)} {n p : Nat} (hbs : Stacked bs)
    (h : topMalloc bs n = (some p, bs')) : Stacked bs' ∧ bs' = (p, n) :: bs := by
  unfold topMalloc at h
  dsimp only at h
  split at h
  · rename_i hle
    cases h
    have htop := le_top bs
    refine ⟨⟨fun b hb => ?_, List.pairwise_cons.mpr ⟨fun b hb => ?_, hbs.apart⟩,
      List.pairwise_cons.mpr ⟨fun b hb => ?_, hbs.starts⟩⟩, rfl⟩
    · rcases List.mem_cons.mp hb with rfl | hb
      · dsimp only
        omega
      · exact hbs.inside b hb
    · have := lt_top hb
      unfold RegionsApart Apart
      dsimp only
      omega
    · have := lt_top hb
      dsimp only
      omega
  · cases h

def stackContract : Contract stack where
  valid := Stacked
  blocks := fun bs => bs
  apart := fun _ hs => hs.apart
  inside := fun _ hs => hs.inside
  malloc_none := by
    intro bs n bs' hs h
    change topMalloc bs n = (none, bs') at h
    unfold topMalloc at h
    dsimp only at h
    split at h
    · cases h
    · cases h
      exact ⟨hs, List.Perm.refl _⟩
  malloc_some := by
    intro bs n p bs' hs h
    obtain ⟨hs', rfl⟩ := topMalloc_some hs h
    exact ⟨hs', List.Perm.refl _⟩
  free := by
    intro bs p n hs hmem
    have hsub : (bs.eraseP fun b => b.1 == p).Sublist bs := List.eraseP_sublist
    refine ⟨⟨fun b hb => hs.inside b (hsub.subset hb), hs.apart.sublist hsub,
      hs.starts.sublist hsub⟩, ?_⟩
    exact (eraseP_start hs.starts hmem) ▸ List.Perm.refl _

theorem stacked_nil : Stacked [] :=
  ⟨by simp, List.Pairwise.nil, List.Pairwise.nil⟩

/-- A pool of one page, with nothing else allocated. -/
def page : System stack :=
  let r := create (M := stack) [] 4096 4096
  ⟨⟨r.1.get rfl, fun _ => 0, r.2⟩, [], []⟩

theorem page_created : create (M := stack) [] 4096 4096 =
    (some page.world.pool, page.world.heap) := rfl

/-- An array that grows at the end of the first block, and a large region. -/
theorem regions_sound_grown :
    create (M := stack) [] 4096 4096 = (some page.world.pool, page.world.heap) ∧
      exists s : System stack, Reaches step Careful page s ∧
        RegionsSound stackContract s ∧
        forall a t, Careful s (Call.arrayPush a) -> step s (Call.arrayPush a) = some t ->
          forall b, b ∈ s.arrays -> elements s.world.mem b <+: elements t.world.mem b := by
  have hrun : Reaches step Unlinked page _ :=
    ((((((Reaches.refl page).oneLabel (a := Call.alloc 100) trivial
      (by decide +kernel)).oneLabel (a := Call.reset 1) rfl
      (by decide +kernel)).oneLabel (a := Call.arrayCreate 1 8) (by decide)
      (by decide +kernel)).oneLabel (a := Call.arrayPush 4152) (by decide +kernel)
      (by decide +kernel)).oneLabel (a := Call.arrayPush 4152) (by decide +kernel)
      (by decide +kernel)).oneLabel (a := Call.alloc 5000) trivial (by decide +kernel)
  have hcareful := careful_of_unlinked (C := stackContract) stacked_nil page_created hrun
  exact ⟨page_created, _, hcareful, regions_sound (C := stackContract) stacked_nil
    page_created hcareful⟩

/-- The header of an array on a descriptor that stays linked makes `pool_reset` release
the pool itself; then a large region covers a small one. -/
theorem regions_sound_relinked :
    create (M := stack) [] 4096 4096 = (some page.world.pool, page.world.heap) ∧
      poolLargeSize ≤ page.world.pool.max ∧
      exists s : System stack, Reaches step Permitted page s ∧
        ¬ s.owned.Pairwise RegionsApart := by
  have hrun : Reaches step Permitted page _ :=
    (((((((Reaches.refl page).oneLabel (a := Call.alloc 32) trivial
      (by decide +kernel)).oneLabel (a := Call.alloc 5000) trivial
      (by decide +kernel)).oneLabel (a := Call.reset 1) trivial
      (by decide +kernel)).oneLabel (a := Call.arrayCreate 2 8) trivial
      (by decide +kernel)).oneLabel (a := Call.reset 1) trivial
      (by decide +kernel)).oneLabel (a := Call.alloc 32) trivial
      (by decide +kernel)).oneLabel (a := Call.alloc 5000) trivial (by decide +kernel)
  exact ⟨page_created, by decide, _, hrun, by decide +kernel⟩

/-- One large region on a page: the descriptor is linked, and both functions release
what they should. -/
theorem large_released_once_page :
    create (M := stack) [] 4096 4096 = (some page.world.pool, page.world.heap) ∧
      exists s : System stack, Reaches step Careful page s ∧
        exists nodes ls, Chain (nextLarge s.world.mem) (toPtr s.world.pool.large) nodes ∧
          (forall l, l ∈ nodes -> forall r, r ∈ s.owned ->
            RegionsApart r (descriptor l)) ∧
          (stackContract.blocks s.world.heap).Perm
            (poolBlocks s.world.pool ++ ls ++ []) ∧
          ((ls ++ poolBlocks s.world.pool).map Prod.fst).Nodup ∧
          (forall turns, nodes.length ≤ turns -> exists w,
            reset turns s.world = some (ls.map Prod.fst, w) ∧
            (stackContract.blocks w.heap).Perm (poolBlocks s.world.pool ++ [])) ∧
          forall turns, nodes.length ≤ turns -> exists heap'',
            destroy turns s.world =
              some ((ls ++ poolBlocks s.world.pool).map Prod.fst, heap'') ∧
            (stackContract.blocks heap'').Perm [] := by
  have hrun : Reaches step Unlinked page _ :=
    ((Reaches.refl page).oneLabel (a := Call.alloc 100) trivial
      (by decide +kernel)).oneLabel (a := Call.alloc 5000) trivial (by decide +kernel)
  have hcareful := careful_of_unlinked (C := stackContract) stacked_nil page_created hrun
  exact ⟨page_created, _, hcareful, large_released_once (C := stackContract) stacked_nil
    page_created hcareful⟩

/-- A small region on a descriptor that stays linked: with the address of the pool
written there, `pool_destroy` releases the pool twice. -/
theorem large_released_once_relinked :
    create (M := stack) [] 4096 4096 = (some page.world.pool, page.world.heap) ∧
      exists s : System stack, Reaches step Permitted page s ∧
        (exists r, r ∈ s.owned ∧
          ¬ RegionsApart r (descriptor s.world.pool.large)) ∧
        (destroy 1 s.world).map Prod.fst = some [4096, 4096] := by
  have hrun : Reaches step Permitted page _ :=
    ((((Reaches.refl page).oneLabel (a := Call.alloc 5000) trivial
      (by decide +kernel)).oneLabel (a := Call.reset 1) trivial
      (by decide +kernel)).oneLabel (a := Call.alloc 24) trivial
      (by decide +kernel)).oneLabel (a := Call.write 4152 (leBytes 24 4096))
      (by decide +kernel) (by decide +kernel)
  exact ⟨page_created, _, hrun, ⟨(4152, 24), by decide +kernel, by decide +kernel⟩,
    by decide +kernel⟩

end MemPool
end NgxEpoll
