import NgxEpoll.MemPool.Release

/-!
# Arrays in the pool

An array has two regions, its header and its elements.  A full array at the end of
the first block grows there, any other one moves to a new region.

## The header
-/

namespace NgxEpoll
namespace MemPool

open Foundation NgxEpoll.Core

section Header

variable (m : Mem) (a v : Nat)

theorem readArray_setElts (hv : v < 2 ^ 64) : readArray (setElts m a v) a =
    ⟨v, (readArray m a).nelts, (readArray m a).size,
      (readArray m a).nalloc, (readArray m a).pool⟩ := by
  unfold readArray setElts
  rw [loadNat_storeNat _ _ (by omega)]
  repeat rw [loadNat_storeNat_of_apart _ _ (by unfold Apart; omega)]

theorem readArray_setNelts (hv : v < 2 ^ 32) : readArray (setNelts m a v) a =
    ⟨(readArray m a).elts, v, (readArray m a).size,
      (readArray m a).nalloc, (readArray m a).pool⟩ := by
  unfold readArray setNelts
  rw [loadNat_storeNat _ _ (by omega)]
  repeat rw [loadNat_storeNat_of_apart _ _ (by unfold Apart; omega)]

theorem readArray_setSize (hv : v < 2 ^ 64) : readArray (setSize m a v) a =
    ⟨(readArray m a).elts, (readArray m a).nelts, v,
      (readArray m a).nalloc, (readArray m a).pool⟩ := by
  unfold readArray setSize
  rw [loadNat_storeNat _ _ (by omega)]
  repeat rw [loadNat_storeNat_of_apart _ _ (by unfold Apart; omega)]

theorem readArray_setNalloc (hv : v < 2 ^ 32) : readArray (setNalloc m a v) a =
    ⟨(readArray m a).elts, (readArray m a).nelts,
      (readArray m a).size, v, (readArray m a).pool⟩ := by
  unfold readArray setNalloc
  rw [loadNat_storeNat _ _ (by omega)]
  repeat rw [loadNat_storeNat_of_apart _ _ (by unfold Apart; omega)]

theorem readArray_setPool (hv : v < 2 ^ 64) : readArray (setPool m a v) a =
    ⟨(readArray m a).elts, (readArray m a).nelts,
      (readArray m a).size, (readArray m a).nalloc, v⟩ := by
  unfold readArray setPool
  rw [loadNat_storeNat _ _ (by omega)]
  repeat rw [loadNat_storeNat_of_apart _ _ (by unfold Apart; omega)]

theorem differsIn_setElts : DiffersIn m (setElts m a v) a arraySize :=
  differsIn_storeNat m v (Nat.le_refl _) (by unfold arraySize; omega)

theorem differsIn_setNelts : DiffersIn m (setNelts m a v) a arraySize :=
  differsIn_storeNat m v (by omega) (by unfold arraySize; omega)

theorem differsIn_setSize : DiffersIn m (setSize m a v) a arraySize :=
  differsIn_storeNat m v (by omega) (by unfold arraySize; omega)

theorem differsIn_setNalloc : DiffersIn m (setNalloc m a v) a arraySize :=
  differsIn_storeNat m v (by omega) (by unfold arraySize; omega)

theorem differsIn_setPool : DiffersIn m (setPool m a v) a arraySize :=
  differsIn_storeNat m v (by omega) (by unfold arraySize; omega)

end Header

theorem readArray_congr {m m' : Mem} {a : Nat}
    (h : load m' a arraySize = load m a arraySize) : readArray m' a = readArray m a := by
  have hpart : forall k w, k + w ≤ arraySize -> loadNat m' (a + k) w = loadNat m (a + k) w := by
    intro k w hkw
    rw [loadNat, loadNat, load_part h hkw]
  have hfirst := hpart 0 8 (by decide)
  rw [Nat.add_zero] at hfirst
  unfold readArray
  rw [hfirst, hpart 8 4 (by decide), hpart 16 8 (by decide), hpart 24 4 (by decide),
    hpart 32 8 (by decide)]

theorem readArray_lt (m : Mem) (a : Nat) :
    (readArray m a).nelts < 2 ^ 32 ∧ (readArray m a).nalloc < 2 ^ 32 :=
  ⟨loadNat_lt m (a + 8) 4, loadNat_lt m (a + 24) 4⟩

def header (a : Nat) : Nat × Nat :=
  (a, arraySize)

def eltsOf (m : Mem) (a : Nat) : Nat × Nat :=
  ((readArray m a).elts, (readArray m a).nalloc * (readArray m a).size)

def elements (m : Mem) (a : Nat) : List (List Byte) :=
  (List.range (readArray m a).nelts).map fun i =>
    load m ((readArray m a).elts + (readArray m a).size * i) (readArray m a).size

theorem elements_prefix {m m' : Mem} {a a' : Nat}
    (hsize : (readArray m' a').size = (readArray m a).size)
    (hnelts : (readArray m a).nelts ≤ (readArray m' a').nelts)
    (hload : load m' (readArray m' a').elts ((readArray m a).nelts * (readArray m a).size) =
      load m (readArray m a).elts ((readArray m a).nelts * (readArray m a).size)) :
    elements m a <+: elements m' a' := by
  obtain ⟨k, hk⟩ := Nat.exists_eq_add_of_le hnelts
  have hsame : elements m a = (List.range (readArray m a).nelts).map fun i =>
      load m' ((readArray m' a').elts + (readArray m' a').size * i)
        (readArray m' a').size := by
    refine List.map_congr_left fun i hi => ?_
    rw [hsize]
    refine (load_part hload ?_).symm
    rw [← Nat.mul_succ, Nat.mul_comm]
    exact Nat.mul_le_mul_right _ (List.mem_range.mp hi)
  unfold elements at hsame ⊢
  rw [hsame, hk, List.range_add, List.map_append]
  exact List.prefix_append _ _

/-!
## Creation and release
-/

variable {M : Malloc} {C : Contract M} {w : World M} {owned rest : List (Nat × Nat)}
variable {nodes : List Nat}

theorem Sound.owned_lt (h : Sound C w owned nodes rest) {r : Nat × Nat} (hr : r ∈ owned) :
    1 ≤ r.1 ∧ r.1 + r.2 < 2 ^ 63 := by
  obtain ⟨hpos, -, ⟨i, hi, hlo, hhi⟩ | hlarge⟩ := h.placed r hr
  · have hinside := h.block_inside hi
    have hlast := h.pool.last i hi
    have hstop := h.pool.stop i hi
    omega
  · have hinside := h.inside (List.mem_append_left _ (List.mem_append_right _ hlarge))
    exact ⟨hinside.1, hinside.2.2⟩

structure Held (C : Contract M) (w : World M) (a : Nat) (others : List (Nat × Nat))
    (nodes : List Nat) (rest : List (Nat × Nat)) : Prop where
  sound : Sound C w (header a :: eltsOf w.mem a :: others) nodes rest
  pool : (readArray w.mem a).pool = (w.pool.block 0).addr
  nelts : (readArray w.mem a).nelts ≤ (readArray w.mem a).nalloc

theorem Sound.writeHeader {a : Nat} {e : Nat × Nat}
    (h : Sound C w (header a :: e :: owned) nodes rest) {m : Mem}
    (hm : DiffersIn w.mem m a arraySize) :
    Sound C { w with mem := m } (header a :: e :: owned) nodes rest ∧
      forall q, q ∈ e :: owned -> load m q.1 q.2 = load w.mem q.1 q.2 := by
  refine ⟨h.write (r := header a) (by simp) hm, fun q hq => hm.load_eq ?_⟩
  exact ((List.pairwise_cons.mp h.apart).1 q (List.mem_append_left _ hq)).symm

theorem Sound.giveBack {r : Nat × Nat} (h : Sound C w (r :: owned) nodes rest) :
    (giveBack w r).mem = w.mem ∧
      ((giveBack w r).pool.block 0).addr = (w.pool.block 0).addr ∧
      Sound C (giveBack w r) owned nodes rest ∧
      (Low w.pool nodes -> Low (giveBack w r).pool nodes) := by
  have hlt := h.owned_lt (r := r) (by simp)
  unfold MemPool.giveBack
  rw [sizeAdd_eq (by omega)]
  split
  · rename_i hend
    refine ⟨rfl, setLast_addr _ _ _ _, h.lower hend, fun hlow l hl => ?_⟩
    exact (hlow l hl).lower hend (one_le_descriptor l) (h.node_apart hl (by simp))
  · exact ⟨rfl, rfl, h.sublist (List.sublist_cons_self _ _), fun hlow => hlow⟩

theorem arrayDestroy_spec {a : Nat} (h : Held C w a owned nodes rest) {w' : World M}
    (heq : arrayDestroy w a = some w') :
    w'.mem = w.mem ∧ (w'.pool.block 0).addr = (w.pool.block 0).addr ∧
      Sound C w' owned nodes rest ∧ (Low w.pool nodes -> Low w'.pool nodes) := by
  have hzero : 0 < w.pool.count :=
    Nat.lt_of_le_of_lt (Nat.zero_le _) h.sound.pool.current
  have hinside := h.sound.block_inside hzero
  have hlt := (h.sound.owned_lt (r := eltsOf w.mem a) (by simp)).2
  unfold eltsOf at hlt
  have hsize : (readArray w.mem a).size * (readArray w.mem a).nalloc % 2 ^ 64 =
      (readArray w.mem a).nalloc * (readArray w.mem a).size := by
    rw [Nat.mul_comm]
    exact Nat.mod_eq_of_lt (by dsimp only at hlt; omega)
  unfold arrayDestroy at heq
  dsimp only at heq
  rw [h.pool, if_neg (by omega), if_neg (by simp), hsize] at heq
  cases heq
  obtain ⟨hmem, haddr, h1, hlow⟩ := (h.sound.perm (List.Perm.swap _ _ _)).giveBack
  obtain ⟨hmem', haddr', h2, hlow'⟩ := h1.giveBack
  exact ⟨hmem'.trans hmem, haddr'.trans haddr, h2, fun h => hlow' (hlow h)⟩

theorem arrayCreate_spec (h : Sound C w owned nodes rest) {n size : Nat}
    (hn : n < 2 ^ 32) (hsize : size < 2 ^ 64) (hfits : n * size < 2 ^ 64)
    (hclear : ClearOf w.pool nodes (carved w.pool arraySize))
    (hclear' : forall r w' nodes', alloc w arraySize = some (r, w') ->
      Chain (nextLarge w'.mem) (toPtr w'.pool.large) nodes' ->
      ClearOf w'.pool nodes' (carved w'.pool (n * size)))
    {r : Option Nat} {w' : World M} (heq : arrayCreate w n size = some (r, w')) :
    exists nodes', (w'.pool.block 0).addr = (w.pool.block 0).addr ∧
      (forall q, q ∈ owned -> load w'.mem q.1 q.2 = load w.mem q.1 q.2) ∧
      ((r = none ∧ Sound C w' owned nodes' rest) ∨
        exists a, r = some a ∧ Held C w' a owned nodes' rest) ∧
      (Low w.pool nodes -> Low w'.pool nodes') := by
  unfold arrayCreate at heq
  split at heq
  · cases heq
    exact ⟨nodes, rfl, fun _ _ => rfl, Or.inl ⟨rfl, h⟩, fun hlow => hlow⟩
  split at heq
  · cases heq
  · cases heq
  rename_i hne _ a w1 hheader
  obtain ⟨nodes1, hgrown, hkeep, h1, hlow⟩ := alloc_spec h hclear hheader
  rw [Nat.mod_eq_of_lt hfits] at heq
  split at heq
  · cases heq
  · rename_i w2 helts
    cases heq
    obtain ⟨nodes2, hgrown', hkeep', h2, hlow'⟩ :=
      alloc_spec h1 (hclear' _ _ _ hheader h1.chain) helts
    have hdiffers := differsIn_setElts w2.mem a 0
    refine ⟨nodes2, hgrown'.addr.trans hgrown.addr, fun q hq => ?_, Or.inl ⟨rfl, ?_⟩,
      fun h => hlow' (hlow h)⟩
    · rw [hdiffers.load_eq ?_, hkeep' q (List.mem_cons_of_mem _ hq), hkeep q hq]
      exact ((List.pairwise_cons.mp h2.apart).1 q (List.mem_append_left _ hq)).symm
    · exact (h2.write (r := header a) (by simp [header]) hdiffers).sublist
        (List.sublist_cons_self _ _)
  · rename_i e w2 helts
    cases heq
    obtain ⟨nodes2, hgrown', hkeep', h2, hlow'⟩ :=
      alloc_spec h1 (hclear' _ _ _ hheader h1.chain) helts
    have hzero : 0 < w2.pool.count := Nat.lt_of_le_of_lt (Nat.zero_le _) h2.pool.current
    have haddr := h2.block_inside hzero
    have he := (h2.owned_lt (r := (e, n * size)) (by simp)).2
    dsimp only at he
    generalize hm : setPool (setNalloc (setSize (setNelts (setElts w2.mem a e) a 0) a
      size) a n) a (w2.pool.block 0).addr = m
    have hread : readArray m a = ⟨e, 0, size, n, (w2.pool.block 0).addr⟩ := by
      rw [← hm, readArray_setPool _ _ _ (by omega), readArray_setNalloc _ _ _ hn,
        readArray_setSize _ _ _ hsize, readArray_setNelts _ _ _ (by omega),
        readArray_setElts _ _ _ (by omega)]
    have hdiffers : DiffersIn w2.mem m a arraySize := by
      rw [← hm]
      exact ((((differsIn_setElts _ a e).trans (differsIn_setNelts _ a 0)).trans
        (differsIn_setSize _ a size)).trans (differsIn_setNalloc _ a n)).trans
        (differsIn_setPool _ a _)
    have helts : eltsOf m a = (e, n * size) := by
      unfold eltsOf
      rw [hread]
    obtain ⟨h3, hkeep3⟩ := (h2.perm (List.Perm.swap _ _ _)).writeHeader hdiffers
    refine ⟨nodes2, hgrown'.addr.trans hgrown.addr, fun q hq => ?_,
      Or.inr ⟨a, rfl, ?_, ?_, ?_⟩, fun h => hlow' (hlow h)⟩
    · exact ((hkeep3 q (List.mem_cons_of_mem _ hq)).trans
        (hkeep' q (List.mem_cons_of_mem _ hq))).trans (hkeep q hq)
    · rw [helts]
      exact h3
    · dsimp only
      rw [hread]
    · dsimp only
      rw [hread]
      exact Nat.zero_le _

/-!
## Pushing
-/

/-- What a call leaves of an array and of the other regions. -/
structure Pushed (w w' : World M) (a : Nat) (others : List (Nat × Nat)) : Prop where
  addr : (w'.pool.block 0).addr = (w.pool.block 0).addr
  others : forall q, q ∈ others -> load w'.mem q.1 q.2 = load w.mem q.1 q.2
  elements : elements w.mem a <+: elements w'.mem a

theorem nextElt_spec {a : Nat} (h : Held C w a owned nodes rest)
    (hroom : (readArray w.mem a).nelts < (readArray w.mem a).nalloc) :
    Held C (nextElt w a).2 a owned nodes rest ∧ Pushed w (nextElt w a).2 a owned := by
  have hlt := (readArray_lt w.mem a).2
  obtain ⟨h1, hkeep⟩ := h.sound.writeHeader
    (differsIn_setNelts w.mem a ((readArray w.mem a).nelts + 1))
  have hread := readArray_setNelts w.mem a ((readArray w.mem a).nelts + 1) (by omega)
  have helts : eltsOf (setNelts w.mem a ((readArray w.mem a).nelts + 1)) a =
      eltsOf w.mem a := by
    unfold eltsOf
    rw [hread]
  unfold nextElt
  dsimp only
  refine ⟨⟨?_, ?_, ?_⟩, rfl, fun q hq => hkeep q (List.mem_cons_of_mem _ hq), ?_⟩
  · rw [helts]
    exact h1
  · rw [hread]
    exact h.pool
  · rw [hread]
    exact hroom
  · refine elements_prefix (by rw [hread]) (by rw [hread]; exact Nat.le_succ _) ?_
    rw [hread]
    have hload := hkeep (eltsOf w.mem a) (by simp)
    exact load_initial hload (Nat.mul_le_mul_right _ h.nelts)

theorem Held.bytes {a : Nat} (h : Held C w a owned nodes rest) :
    (readArray w.mem a).size * (readArray w.mem a).nalloc % 2 ^ 64 =
        (readArray w.mem a).nalloc * (readArray w.mem a).size ∧
      1 ≤ (readArray w.mem a).elts ∧
      (readArray w.mem a).elts + (readArray w.mem a).nalloc * (readArray w.mem a).size <
        2 ^ 63 ∧
      1 ≤ (readArray w.mem a).nalloc ∧
      (readArray w.mem a).size ≤ (readArray w.mem a).nalloc * (readArray w.mem a).size := by
  have hlt := h.sound.owned_lt (r := eltsOf w.mem a) (by simp)
  have hpos := (h.sound.placed (eltsOf w.mem a) (by simp)).1
  unfold eltsOf at hlt hpos
  dsimp only at hlt hpos
  have hnalloc : 1 ≤ (readArray w.mem a).nalloc := by
    rcases Nat.eq_zero_or_pos (readArray w.mem a).nalloc with hz | hz
    · rw [hz, Nat.zero_mul] at hpos
      omega
    · exact hz
  refine ⟨?_, hlt.1, hlt.2, hnalloc, Nat.le_mul_of_pos_left _ hnalloc⟩
  rw [Nat.mul_comm]
  exact Nat.mod_eq_of_lt (by omega)

/-- An array at the end of the first block grows there by one element. -/
theorem Held.in_place {a : Nat} (h : Held C w a owned nodes rest)
    (hin : InPlace w.pool (readArray w.mem a)) :
    sizeAdd (w.pool.block 0).last (readArray w.mem a).size =
        (w.pool.block 0).last + (readArray w.mem a).size ∧
      (readArray w.mem a).elts + (readArray w.mem a).nalloc * (readArray w.mem a).size =
        (w.pool.block 0).last ∧
      (w.pool.block 0).last + (readArray w.mem a).size ≤ (w.pool.block 0).stop := by
  have hzero : 0 < w.pool.count :=
    Nat.lt_of_le_of_lt (Nat.zero_le _) h.sound.pool.current
  have hinside := h.sound.block_inside hzero
  have hlast := h.sound.pool.last 0 hzero
  have hstop := h.sound.pool.stop 0 hzero
  obtain ⟨hbytes, -, hlt, -, hsize⟩ := h.bytes
  obtain ⟨hend, hfit⟩ := hin
  rw [hbytes, sizeAdd_eq (by omega)] at hend
  have hadd : sizeAdd (w.pool.block 0).last (readArray w.mem a).size =
      (w.pool.block 0).last + (readArray w.mem a).size := sizeAdd_eq (by omega)
  exact ⟨hadd, hend, hadd ▸ hfit⟩

/-- A full array got room; its elements are as many as before. -/
structure Roomy (w w' : World M) (a : Nat) : Prop where
  room : (readArray w'.mem a).nelts < (readArray w'.mem a).nalloc
  nelts : (readArray w'.mem a).nelts = (readArray w.mem a).nelts
  size : (readArray w'.mem a).size = (readArray w.mem a).size

theorem grow_spec {a : Nat} (h : Held C w a owned nodes rest)
    (hin : InPlace w.pool (readArray w.mem a))
    (hnalloc : (readArray w.mem a).nalloc + 1 < 2 ^ 32)
    (hclear : forall l, l ∈ nodes ->
      RegionsApart ((w.pool.block 0).last, (readArray w.mem a).size) (descriptor l))
    {w1 : World M} (hw1 : w1 = { w.setLast 0 (sizeAdd (w.pool.block 0).last
        (readArray w.mem a).size) with
      mem := setNalloc w.mem a ((readArray w.mem a).nalloc + 1) }) :
    Held C w1 a owned nodes rest ∧ Pushed w w1 a owned ∧ Roomy w w1 a := by
  have hzero : 0 < w.pool.count :=
    Nat.lt_of_le_of_lt (Nat.zero_le _) h.sound.pool.current
  obtain ⟨hadd, hend, hfit⟩ := h.in_place hin
  rw [hadd] at hw1
  have hgrow := (h.sound.perm (List.Perm.swap _ _ _)).grow
    (k := (readArray w.mem a).size) hend (by rw [hend]; exact hfit)
    (by rw [hend]; exact hclear)
  obtain ⟨h1, hkeep⟩ := (hgrow.perm (List.Perm.swap _ _ _)).writeHeader
    (differsIn_setNalloc w.mem a ((readArray w.mem a).nalloc + 1))
  have hread := readArray_setNalloc w.mem a ((readArray w.mem a).nalloc + 1) hnalloc
  have helts : eltsOf (setNalloc w.mem a ((readArray w.mem a).nalloc + 1)) a =
      ((readArray w.mem a).elts, (readArray w.mem a).nalloc * (readArray w.mem a).size +
        (readArray w.mem a).size) := by
    unfold eltsOf
    rw [hread]
    dsimp only
    rw [Nat.succ_mul]
  subst hw1
  rw [hend] at h1
  refine ⟨⟨?_, ?_, ?_⟩,
    ⟨setLast_addr _ _ _ _, fun q hq => hkeep q (List.mem_cons_of_mem _ hq), ?_⟩, ?_⟩
  · dsimp only
    rw [helts]
    exact h1
  · simp only [World.setLast, setLast_addr]
    rw [hread]
    exact h.pool
  · dsimp only
    rw [hread]
    exact Nat.le_succ_of_le h.nelts
  · refine elements_prefix (by rw [hread]) (by rw [hread]) ?_
    dsimp only
    rw [hread]
    have hload := hkeep _ (List.mem_cons_self)
    exact load_initial hload (Nat.le_add_right_of_le (Nat.mul_le_mul_right _ h.nelts))
  · refine ⟨?_, ?_, ?_⟩
    all_goals
      dsimp only
      rw [hread]
    exact Nat.lt_succ_of_le h.nelts

theorem move_spec {a na : Nat} (h : Held C w a owned nodes rest)
    (hnalloc : (readArray w.mem a).nalloc * 2 < 2 ^ 32)
    (hclear : ClearOf w.pool nodes
      (carved w.pool (2 * ((readArray w.mem a).nalloc * (readArray w.mem a).size))))
    {w1 w2 : World M}
    (halloc : alloc w (2 * ((readArray w.mem a).nalloc * (readArray w.mem a).size)) =
      some (some na, w1))
    (hw2 : w2 = { w1 with
      mem := setNalloc (setElts (memmove w1.mem na (readArray w.mem a).elts
        ((readArray w.mem a).nalloc * (readArray w.mem a).size)) a na) a
        ((readArray w.mem a).nalloc * 2) }) :
    exists nodes', Held C w2 a owned nodes' rest ∧ Pushed w w2 a owned ∧ Roomy w w2 a ∧
      (Low w.pool nodes -> Low w2.pool nodes') := by
  obtain ⟨-, -, -, hpos, -⟩ := h.bytes
  obtain ⟨nodes', hgrown, hkeep, h1, hlow⟩ := alloc_spec h.sound hclear halloc
  generalize harr : readArray w.mem a = arr at *
  generalize hB : arr.nalloc * arr.size = bytes at *
  have helts : eltsOf w.mem a = (arr.elts, bytes) := by
    rw [eltsOf, harr, hB]
  rw [helts] at h1 hkeep
  have hna := (h1.owned_lt (r := (na, 2 * bytes)) (by simp)).2
  dsimp only at hna
  -- the elements are copied to the new region
  generalize hm1 : memmove w1.mem na arr.elts bytes = m1 at *
  have hcopied : DiffersIn w1.mem m1 na (2 * bytes) := by
    rw [← hm1]
    exact differsIn_store _ (Nat.le_refl _) (by rw [load_length]; omega)
  have hnew : load m1 na bytes = load w.mem arr.elts bytes := by
    have hself := load_store_self w1.mem na (load w1.mem arr.elts bytes)
    rw [load_length] at hself
    rw [← hm1, memmove, hself]
    exact hkeep (arr.elts, bytes) (by simp)
  have h2 := h1.write (r := (na, 2 * bytes)) (by simp) hcopied
  have hkeep2 : forall q, q ∈ header a :: (arr.elts, bytes) :: owned ->
      load m1 q.1 q.2 = load w.mem q.1 q.2 := by
    intro q hq
    rw [hcopied.load_eq ?_, hkeep q hq]
    exact ((List.pairwise_cons.mp h1.apart).1 q (List.mem_append_left _ hq)).symm
  have hread1 : readArray m1 a = arr :=
    (readArray_congr (hkeep2 (header a) (by simp))).trans harr
  -- the header names the new region
  generalize hm2 : setNalloc (setElts m1 a na) a (arr.nalloc * 2) = m2 at *
  have hheader : DiffersIn m1 m2 a arraySize := by
    rw [← hm2]
    exact (differsIn_setElts _ a na).trans (differsIn_setNalloc _ a _)
  have hread2 : readArray m2 a = ⟨na, arr.nelts, arr.size, arr.nalloc * 2, arr.pool⟩ := by
    rw [← hm2, readArray_setNalloc _ _ _ hnalloc, readArray_setElts _ _ _ (by omega), hread1]
  have helts2 : eltsOf m2 a = (na, 2 * bytes) := by
    rw [eltsOf, hread2, ← hB]
    dsimp only
    rw [Nat.mul_comm arr.nalloc 2, Nat.mul_assoc]
  obtain ⟨h3, hkeep3⟩ := (h2.perm (List.Perm.swap _ _ _)).writeHeader hheader
  have hnelts := h.nelts
  have hpool := h.pool
  rw [harr] at hnelts hpool
  subst hw2
  refine ⟨nodes', ⟨?_, ?_, ?_⟩, ⟨hgrown.addr, fun q hq => ?_, ?_⟩, ?_, hlow⟩
  · dsimp only
    rw [helts2]
    exact h3.sublist (((List.sublist_cons_self _ _).cons_cons _).cons_cons _)
  · dsimp only
    rw [hread2, hgrown.addr]
    exact hpool
  · dsimp only
    rw [hread2]
    dsimp only
    omega
  · exact (hkeep3 q (List.mem_cons_of_mem _ (List.mem_cons_of_mem _ hq))).trans
      (hkeep2 q (List.mem_cons_of_mem _ (List.mem_cons_of_mem _ hq)))
  · refine elements_prefix (by rw [hread2, harr]) (by rw [hread2, harr]) ?_
    dsimp only
    rw [hread2, harr]
    have hload := hkeep3 (na, 2 * bytes) (by simp)
    have hle : arr.nelts * arr.size ≤ bytes := by
      rw [← hB]
      exact Nat.mul_le_mul_right _ hnelts
    exact (load_initial hload (by dsimp only; omega)).trans (load_initial hnew hle)
  · refine ⟨?_, ?_, ?_⟩
    all_goals
      dsimp only
      rw [hread2]
    · dsimp only
      omega
    · rw [harr]
    · rw [harr]

/-- A push that finds the array full can count one more place for elements, and takes
no bytes of a linked descriptor. -/
def GrowOk (w : World M) (a : Nat) (nodes : List Nat) : Prop :=
  let arr := readArray w.mem a
  arr.nelts = arr.nalloc ->
    if InPlace w.pool arr then
      arr.nalloc + 1 < 2 ^ 32 ∧
        forall l, l ∈ nodes -> RegionsApart ((w.pool.block 0).last, arr.size) (descriptor l)
    else
      arr.nalloc * 2 < 2 ^ 32 ∧
        ClearOf w.pool nodes (carved w.pool (2 * (arr.nalloc * arr.size)))

theorem Pushed.trans {w w1 w2 : World M} {a : Nat} (h : Pushed w w1 a owned)
    (h' : Pushed w1 w2 a owned) : Pushed w w2 a owned :=
  ⟨h'.addr.trans h.addr, fun q hq => (h'.others q hq).trans (h.others q hq),
    h.elements.trans h'.elements⟩

theorem arrayPush_spec {a : Nat} (h : Held C w a owned nodes rest)
    (hgrow : GrowOk w a nodes) {r : Option Nat} {w' : World M}
    (heq : arrayPush w a = some (r, w')) :
    exists nodes', Held C w' a owned nodes' rest ∧ Pushed w w' a owned ∧
      (Low w.pool nodes -> Low w'.pool nodes') := by
  have hrefl : Pushed w w a owned := ⟨rfl, fun _ _ => rfl, List.prefix_refl _⟩
  have hzero : 0 < w.pool.count :=
    Nat.lt_of_le_of_lt (Nat.zero_le _) h.sound.pool.current
  have hinside := h.sound.block_inside hzero
  obtain ⟨hbytes, -, hlt, -, -⟩ := h.bytes
  unfold arrayPush at heq
  dsimp only at heq
  split at heq
  · rename_i hfull
    have hcond := hgrow hfull
    rw [h.pool, if_neg (by omega), if_neg (by simp)] at heq
    split at heq
    · rename_i hin
      rw [if_pos hin] at hcond
      obtain ⟨h1, hpushed, hroom⟩ := grow_spec h hin hcond.1 hcond.2 rfl
      obtain ⟨h2, hpushed'⟩ := nextElt_spec h1 hroom.room
      cases heq
      refine ⟨nodes, h2, hpushed.trans hpushed', fun hlow l hl => ?_⟩
      refine (hlow l hl).setLast ?_
      rw [(h.in_place hin).1]
      exact Nat.le_add_right _ _
    · rename_i hin
      rw [if_neg hin] at hcond
      rw [hbytes, Nat.mod_eq_of_lt (by omega)] at heq
      split at heq
      · cases heq
      · rename_i w1 halloc
        cases heq
        obtain ⟨nodes', hgrown, hkeep, h1, hlow⟩ := alloc_spec h.sound hcond.2 halloc
        have hread : readArray w'.mem a = readArray w.mem a :=
          readArray_congr (hkeep (header a) (by simp))
        refine ⟨nodes', ⟨?_, ?_, ?_⟩, ⟨hgrown.addr, fun q hq => hkeep q (by simp [hq]), ?_⟩,
          hlow⟩
        · have helts : eltsOf w'.mem a = eltsOf w.mem a := by
            rw [eltsOf, hread]
            rfl
          rw [helts]
          exact h1
        · rw [hread, hgrown.addr]
          exact h.pool
        · rw [hread]
          exact h.nelts
        · refine elements_prefix (by rw [hread]) (by rw [hread]) ?_
          rw [hread]
          exact load_initial (hkeep (eltsOf w.mem a) (by simp))
            (Nat.mul_le_mul_right _ h.nelts)
      · rename_i na w1 halloc
        cases heq
        obtain ⟨nodes', h1, hpushed, hroom, hlow⟩ := move_spec h hcond.1 hcond.2 halloc rfl
        obtain ⟨h2, hpushed'⟩ := nextElt_spec h1 hroom.room
        exact ⟨nodes', h2, hpushed.trans hpushed', hlow⟩
  · rename_i hroom
    obtain ⟨h1, hpushed⟩ := nextElt_spec h (Nat.lt_of_le_of_ne h.nelts hroom)
    cases heq
    exact ⟨nodes, h1, hpushed, fun hlow => hlow⟩

/-!
## Elements
-/

theorem elements_length (m : Mem) (a : Nat) : (elements m a).length = (readArray m a).nelts := by
  unfold elements
  rw [List.length_map, List.length_range]

theorem nextElt_write {a : Nat} (h : Held C w a owned nodes rest)
    (hroom : (readArray w.mem a).nelts < (readArray w.mem a).nalloc) {bytes : List Byte}
    (hbytes : bytes.length = (readArray w.mem a).size) {p : Nat}
    (hp : (nextElt w a).1 = some p) :
    elements (store (nextElt w a).2.mem p bytes) a = elements w.mem a ++ [bytes] := by
  obtain ⟨-, -, hlt, -, -⟩ := h.bytes
  have hnalloc := (readArray_lt w.mem a).2
  have hread := readArray_setNelts w.mem a ((readArray w.mem a).nelts + 1) (by omega)
  have happly : (nextElt w a).2.mem = setNelts w.mem a ((readArray w.mem a).nelts + 1) := rfl
  obtain ⟨-, hkeep⟩ := h.sound.writeHeader
    (differsIn_setNelts w.mem a ((readArray w.mem a).nelts + 1))
  have helts := hkeep (eltsOf w.mem a) (by simp)
  have hapart : RegionsApart (header a) (eltsOf w.mem a) :=
    (List.pairwise_cons.mp h.sound.apart).1 _ (by simp)
  unfold nextElt at hp
  dsimp only at hp
  rw [happly]
  generalize setNelts w.mem a ((readArray w.mem a).nelts + 1) = m at hread helts ⊢
  unfold eltsOf at helts hapart
  unfold elements
  generalize readArray w.mem a = arr at *
  dsimp only at helts
  -- the element lies behind the others, inside the region
  have hinside : arr.size * arr.nelts + arr.size ≤ arr.nalloc * arr.size := by
    rw [← Nat.mul_succ, Nat.mul_comm]
    exact Nat.mul_le_mul_right _ hroom
  rw [Nat.mod_eq_of_lt (by omega)] at hp
  cases hp
  have hwritten : DiffersIn m (store m (arr.elts + arr.size * arr.nelts) bytes)
      (arr.elts + arr.size * arr.nelts) arr.size :=
    differsIn_store _ (Nat.le_refl _) (by rw [hbytes])
  have hheader : readArray (store m (arr.elts + arr.size * arr.nelts) bytes) a =
      readArray m a := by
    refine readArray_congr (hwritten.load_eq ?_)
    unfold RegionsApart header Apart at hapart
    unfold Apart
    dsimp only at hapart
    omega
  rw [hheader, hread]
  dsimp only
  rw [List.range_succ, List.map_append, List.map_singleton]
  congr 1
  · refine List.map_congr_left fun i hi => ?_
    have hle : arr.size * i + arr.size ≤ arr.size * arr.nelts := by
      rw [← Nat.mul_succ]
      exact Nat.mul_le_mul_left _ (List.mem_range.mp hi)
    rw [hwritten.load_eq (by unfold Apart; omega)]
    exact load_part helts (by omega)
  · have hself := load_store_self m (arr.elts + arr.size * arr.nelts) bytes
    rw [hbytes] at hself
    rw [hself]

theorem Roomy.elements {w' : World M} {a : Nat} (h : Roomy w w' a)
    (hpushed : Pushed w w' a owned) : elements w'.mem a = elements w.mem a := by
  refine (hpushed.elements.eq_of_length ?_).symm
  rw [elements_length, elements_length, h.nelts]

theorem eq_and_eq_of_some_pair {α β : Type} {r : α × β} {x : α} {y : β}
    (h : some r = some (x, y)) : r.1 = x ∧ r.2 = y :=
  Prod.ext_iff.mp (Option.some.inj h)

/-- `array_push` that succeeds, and the element that the caller writes: it is put behind
the others, as it is in a list. -/
theorem arrayPush_appends {a : Nat} (h : Held C w a owned nodes rest)
    (hgrow : GrowOk w a nodes) {p : Nat} {w' : World M}
    (heq : arrayPush w a = some (some p, w')) {bytes : List Byte}
    (hbytes : bytes.length = (readArray w.mem a).size) :
    elements (store w'.mem p bytes) a = elements w.mem a ++ [bytes] := by
  have hzero : 0 < w.pool.count :=
    Nat.lt_of_le_of_lt (Nat.zero_le _) h.sound.pool.current
  have hinside := h.sound.block_inside hzero
  obtain ⟨hsize, -, hlt, -, -⟩ := h.bytes
  unfold arrayPush at heq
  dsimp only at heq
  split at heq
  · rename_i hfull
    have hcond := hgrow hfull
    rw [h.pool, if_neg (by omega), if_neg (by simp)] at heq
    split at heq
    · rename_i hin
      rw [if_pos hin] at hcond
      obtain ⟨h1, hpushed, hroom⟩ := grow_spec h hin hcond.1 hcond.2 rfl
      obtain ⟨hp, rfl⟩ := eq_and_eq_of_some_pair heq
      rw [← hroom.elements hpushed]
      exact nextElt_write h1 hroom.room (hbytes.trans hroom.size.symm) hp
    · rename_i hin
      rw [if_neg hin] at hcond
      rw [hsize, Nat.mod_eq_of_lt (by omega)] at heq
      split at heq
      · cases heq
      · cases heq
      · rename_i na w1 halloc
        obtain ⟨nodes', h1, hpushed, hroom, -⟩ := move_spec h hcond.1 hcond.2 halloc rfl
        obtain ⟨hp, rfl⟩ := eq_and_eq_of_some_pair heq
        rw [← hroom.elements hpushed]
        exact nextElt_write h1 hroom.room (hbytes.trans hroom.size.symm) hp
  · rename_i hroom
    obtain ⟨hp, rfl⟩ := eq_and_eq_of_some_pair heq
    exact nextElt_write h (Nat.lt_of_le_of_ne h.nelts hroom) hbytes hp

theorem arrayPush_encodes {item : Type} {encode : item -> List Byte} {xs : List item} {a : Nat}
    (h : Held C w a owned nodes rest) (hgrow : GrowOk w a nodes)
    (hxs : elements w.mem a = xs.map encode) {p : Nat} {w' : World M}
    (heq : arrayPush w a = some (some p, w')) {x : item}
    (hx : (encode x).length = (readArray w.mem a).size) :
    elements (store w'.mem p (encode x)) a = (xs ++ [x]).map encode := by
  rw [arrayPush_appends h hgrow heq hx, hxs, List.map_append]
  rfl

end MemPool
end NgxEpoll
