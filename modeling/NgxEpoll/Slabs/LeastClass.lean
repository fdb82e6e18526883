import NgxEpoll.Slabs.Runs

/-!
# The least class of a request

Where no class size wraps, the class that `dfs_slabs_clsid` gives to a request of an
item is there and large enough, and for classes that double it is the least one.  Only
with two such classes is the second one left out for the sizes in between.

## The binary search
-/

namespace NgxEpoll
namespace Slabs

open NgxEpoll.Core

/-- The first `n` class sizes do not go down, and go up from the second one that is
larger than the first on. -/
structure Climbs (classSize : Nat -> Nat) (n : Nat) : Prop where
  mono : forall i j, i ≤ j -> j < n -> classSize i ≤ classSize j
  strict : forall i j, i < j -> j < n -> classSize 0 < classSize i ->
    classSize i < classSize j

structure LeastClass (classSize : Nat -> Nat) (n allSize id : Nat) : Prop where
  lt : id < n
  fits : allSize ≤ classSize id
  least : forall j, j < id -> classSize j < allSize

variable {classSize : Nat -> Nat} {n allSize : Nat}

theorem Climbs.lt_of_lt (h : Climbs classSize n) {i j : Nat} (hi : i < n)
    (hlt : classSize i < classSize j) : i < j := by
  by_contra hle
  exact Nat.not_le_of_lt hlt (h.mono j i (Nat.le_of_not_lt hle) hi)

theorem Climbs.leastClass_succ (h : Climbs classSize n) {i : Nat} (hi : i + 1 < n)
    (hlt : classSize i < allSize) (hle : allSize ≤ classSize (i + 1)) :
    LeastClass classSize n allSize (i + 1) := by
  constructor
  · exact hi
  · exact hle
  · intro j hj
    have hmono := h.mono j i (Nat.lt_succ_iff.mp hj) (Nat.lt_of_succ_lt hi)
    exact Nat.lt_of_le_of_lt hmono hlt

/-- A class of just the size is the least one, past the classes that are equal. -/
theorem Climbs.leastClass_eq (h : Climbs classSize n) {i : Nat} (hi : i < n)
    (heq : allSize = classSize i) (hfirst : classSize 0 < allSize) :
    LeastClass classSize n allSize i := by
  constructor
  · exact hi
  · exact Nat.le_of_eq heq
  · intro j hj
    by_contra hle
    have hmono := h.mono j i (Nat.le_of_lt hj) hi
    have hstrict := h.strict j i hj hi (by omega)
    omega

/-- Between a class that is too small and one that is large enough, the search ends at
the least one. -/
theorem Climbs.search (h : Climbs classSize n) (hfirst : classSize 0 < allSize)
    (fuel : Nat) {low high : Nat} (hlow : 1 ≤ low) (hle : low ≤ high)
    (hhigh : high + 1 < n) (hfuel : high < low + fuel)
    (hbelow : classSize (low - 1) < allSize) (habove : allSize ≤ classSize (high + 1)) :
    exists id, search classSize allSize fuel low high = some id ∧
      LeastClass classSize n allSize id := by
  induction fuel generalizing low high with
  | zero => omega
  | succ fuel ih =>
      unfold Slabs.search
      rw [if_neg (Nat.not_lt_of_le hle)]
      dsimp only
      have hmid : low ≤ (low + high) / 2 ∧ (low + high) / 2 ≤ high := by omega
      generalize (low + high) / 2 = mid at hmid
      obtain ⟨hlm, hmh⟩ := hmid
      have hpred : mid - 1 + 1 = mid := by omega
      by_cases hfits : allSize ≤ classSize mid
      · rw [if_pos hfits]
        by_cases hprev : classSize (mid - 1) < allSize
        · rw [if_pos hprev]
          have hleast := h.leastClass_succ (i := mid - 1) (by omega) hprev
            (by rw [hpred]; exact hfits)
          rw [hpred] at hleast
          exact ⟨mid, rfl, hleast⟩
        · rw [if_neg hprev]
          by_cases heq : allSize = classSize (mid - 1)
          · rw [if_pos heq]
            exact ⟨mid - 1, rfl, h.leastClass_eq (by omega) heq hfirst⟩
          · rw [if_neg heq]
            -- the class before the middle is still too large, so the search goes on
            have hlt : low - 1 < mid - 1 := h.lt_of_lt (by omega) (by omega)
            exact ih hlow (by omega) (by omega) (by omega) hbelow
              (by rw [hpred]; exact hfits)
      · rw [if_neg hfits]
        by_cases hnext : allSize ≤ classSize (mid + 1)
        · rw [if_pos hnext]
          exact ⟨mid + 1, rfl,
            h.leastClass_succ (by omega) (Nat.lt_of_not_le hfits) hnext⟩
        · rw [if_neg hnext]
          have hlt : mid + 1 < high + 1 := h.lt_of_lt (by omega) (by omega)
          exact ih (by omega) (by omega) hhigh (by omega) (Nat.lt_of_not_le hfits) habove

/-!
## Classes that do not wrap
-/

def plainItemSize (mgr : SlabManager) (i : Nat) : Nat :=
  match mgr.uptype with
  | Uptype.power => mgr.minSize * 2 ^ i
  | Uptype.linear => mgr.minSize + 1024 * i

/-- A manager from `dfs_slabs_create` whose class sizes do not wrap, for items up to
`itemSizeMax`. -/
structure Unwrapped (mgr : SlabManager) (itemSizeMax : Nat) : Prop where
  two : 2 ≤ mgr.freeLen
  minSize : 1 ≤ mgr.minSize
  factor : mgr.factor = match mgr.uptype with
    | Uptype.power => 2
    | Uptype.linear => 1024
  classSize : forall i, mgr.classSize i =
    chunkSizeOf (itemSize mgr.uptype mgr.factor mgr.minSize i)
  covers : itemSizeMax ≤ plainItemSize mgr (mgr.freeLen - 1)
  noWrap : NoWrap (plainItemSize mgr (mgr.freeLen - 1))

variable {mgr : SlabManager} {itemSizeMax size : Nat}

theorem plainItemSize_mono (mgr : SlabManager) {i j : Nat} (hij : i ≤ j) :
    plainItemSize mgr i ≤ plainItemSize mgr j := by
  unfold plainItemSize
  cases mgr.uptype with
  | power => exact Nat.mul_le_mul_left _ (Nat.pow_le_pow_right (by decide) hij)
  | linear => exact Nat.add_le_add_left (Nat.mul_le_mul_left _ hij) _

theorem NoWrap.mono {x y : Nat} (h : NoWrap y) (hxy : x ≤ y) : NoWrap x := by
  unfold NoWrap at *
  omega

theorem NoWrap.lt {x : Nat} (h : NoWrap x) : x < 2 ^ 64 := by
  unfold NoWrap at h
  omega

theorem itemSize_power {m : Nat} (hm : m < 2 ^ 64) (i : Nat) :
    itemSize Uptype.power 2 m i = m * 2 ^ i % 2 ^ 64 := by
  induction i with
  | zero =>
      rw [Nat.pow_zero, Nat.mul_one, Nat.mod_eq_of_lt hm]
      rfl
  | succ i ih =>
      change itemSize Uptype.power 2 m i * 2 % 2 ^ 64 = _
      rw [ih, Nat.mod_mul_mod, Nat.mul_assoc, ← Nat.pow_succ]

namespace Unwrapped

theorem noWrap_item (h : Unwrapped mgr itemSizeMax) {i : Nat} (hi : i < mgr.freeLen) :
    NoWrap (plainItemSize mgr i) :=
  h.noWrap.mono (plainItemSize_mono mgr (Nat.le_sub_one_of_lt hi))

theorem minSize_lt (h : Unwrapped mgr itemSizeMax) : mgr.minSize < 2 ^ 64 := by
  have hzero := (h.noWrap_item (i := 0) (Nat.lt_of_lt_of_le (by decide) h.two)).lt
  have heq : plainItemSize mgr 0 = mgr.minSize := by
    unfold plainItemSize
    cases mgr.uptype with
    | power => exact Nat.mul_one _
    | linear => exact Nat.add_zero _
  rwa [heq] at hzero

theorem classSize_eq (h : Unwrapped mgr itemSizeMax) {i : Nat} (hi : i < mgr.freeLen) :
    mgr.classSize i = chunkSizeOf (plainItemSize mgr i) := by
  have hlt := (h.noWrap_item hi).lt
  have hmin := h.minSize_lt
  have hfactor := h.factor
  rw [h.classSize]
  unfold plainItemSize at hlt ⊢
  cases huptype : mgr.uptype with
  | power =>
      rw [huptype] at hlt hfactor
      rw [hfactor, itemSize_power hmin, Nat.mod_eq_of_lt hlt]
  | linear =>
      rw [huptype] at hlt hfactor
      rw [hfactor, itemSize_linear hmin, Nat.mod_eq_of_lt hlt]

theorem le_last (h : Unwrapped mgr itemSizeMax) (hsize : size ≤ itemSizeMax) :
    chunkSizeOf size ≤ mgr.classSize (mgr.freeLen - 1) := by
  have htwo := h.two
  rw [h.classSize_eq (by omega)]
  exact chunkSizeOf_mono (Nat.le_trans hsize h.covers) h.noWrap

theorem chunkSizeOf_double {x y : Nat} (hxy : 2 * x ≤ y) (hy : NoWrap y)
    (hlarge : 40 < chunkSizeOf x) : chunkSizeOf x < chunkSizeOf y := by
  have hx := hy.mono (show x ≤ y by omega)
  have hx' := chunkSizeOf_spec hx
  have hy' := chunkSizeOf_spec hy
  unfold chunkLinkSize at hx' hy'
  omega

theorem climbs (h : Unwrapped mgr itemSizeMax) (hpower : mgr.uptype = Uptype.power) :
    Climbs mgr.classSize mgr.freeLen := by
  have hmono : forall i j, i ≤ j -> j < mgr.freeLen ->
      mgr.classSize i ≤ mgr.classSize j := by
    intro i j hij hj
    rw [h.classSize_eq hj, h.classSize_eq (Nat.lt_of_le_of_lt hij hj)]
    exact chunkSizeOf_mono (plainItemSize_mono mgr hij) (h.noWrap_item hj)
  constructor
  · exact hmono
  · intro i j hij hj hfirst
    have hi := Nat.lt_trans hij hj
    have hdouble : 2 * plainItemSize mgr i ≤ plainItemSize mgr j := by
      have hstep : 2 * plainItemSize mgr i = plainItemSize mgr (i + 1) := by
        unfold plainItemSize
        rw [hpower]
        dsimp only
        rw [Nat.pow_succ, Nat.mul_left_comm, Nat.mul_comm 2]
      rw [hstep]
      exact plainItemSize_mono mgr hij
    have hzero : 40 ≤ mgr.classSize 0 := by
      rw [h.classSize_eq (by omega)]
      have hmin := h.minSize
      have hspec := chunkSizeOf_spec (h.noWrap_item (i := 0) (by omega))
      have hitem : 1 ≤ plainItemSize mgr 0 := by
        unfold plainItemSize
        rw [hpower]
        dsimp only
        rw [Nat.pow_zero, Nat.mul_one]
        exact hmin
      unfold chunkLinkSize at hspec
      omega
    rw [h.classSize_eq hi] at hfirst ⊢
    rw [h.classSize_eq hj]
    exact chunkSizeOf_double hdouble (h.noWrap_item hj)
      (Nat.lt_of_le_of_lt hzero hfirst)

end Unwrapped

/-!
## The class of a request
-/

/-- The request is larger than the first of two classes and smaller than the second, and
the classes double. -/
def BetweenTwo (mgr : SlabManager) (size : Nat) : Prop :=
  mgr.uptype = Uptype.power ∧ mgr.freeLen = 2 ∧
    mgr.classSize 0 < chunkSizeOf size ∧ chunkSizeOf size < mgr.classSize 1

instance (mgr : SlabManager) (size : Nat) : Decidable (BetweenTwo mgr size) :=
  inferInstanceAs (Decidable (_ ∧ _))

/-- What is said of the class of a request: it is there and large enough, for classes
that double the least one, and only what is larger than the largest one has none. -/
structure Classified (mgr : SlabManager) (size : Nat) : Prop where
  fits : forall id, clsid mgr size true = some id ->
    id < mgr.freeLen ∧ chunkSizeOf size ≤ mgr.classSize id
  least : mgr.uptype = Uptype.power -> forall id, clsid mgr size true = some id ->
    forall j, j < id -> mgr.classSize j < chunkSizeOf size
  invalid : clsid mgr size true = none ↔
    mgr.classSize (mgr.freeLen - 1) < chunkSizeOf size

theorem clsid_power (hpower : mgr.uptype = Uptype.power) (hsize : size ≠ 0)
    (hlast : chunkSizeOf size ≤ mgr.classSize (mgr.freeLen - 1)) :
    clsid mgr size true =
      if chunkSizeOf size ≤ mgr.classSize 0 then some 0
      else if chunkSizeOf size = mgr.classSize (mgr.freeLen - 1) then
        some (mgr.freeLen - 1)
      else search mgr.classSize (chunkSizeOf size) mgr.freeLen 1
        (mgr.freeLen - 1 - 1) := by
  unfold clsid
  rw [if_neg hsize]
  dsimp only
  rw [if_neg (Nat.not_lt_of_le hlast), hpower]

theorem Unwrapped.clsid_power_least (h : Unwrapped mgr itemSizeMax)
    (hpower : mgr.uptype = Uptype.power) (hpos : 1 ≤ size) (hsize : size ≤ itemSizeMax)
    (hnot : ¬ BetweenTwo mgr size) :
    exists id, clsid mgr size true = some id ∧
      LeastClass mgr.classSize mgr.freeLen (chunkSizeOf size) id := by
  have hclimbs := h.climbs hpower
  have hlast := h.le_last hsize
  have htwo := h.two
  rw [clsid_power hpower (by omega) hlast]
  by_cases hfirst : chunkSizeOf size ≤ mgr.classSize 0
  · rw [if_pos hfirst]
    exact ⟨0, rfl, by omega, hfirst, fun j hj => absurd hj (Nat.not_lt_zero j)⟩
  rw [if_neg hfirst]
  by_cases heq : chunkSizeOf size = mgr.classSize (mgr.freeLen - 1)
  · rw [if_pos heq]
    exact ⟨_, rfl, hclimbs.leastClass_eq (by omega) heq (Nat.lt_of_not_le hfirst)⟩
  rw [if_neg heq]
  have hthree : 3 ≤ mgr.freeLen := by
    by_contra hless
    have hlen : mgr.freeLen = 2 := by omega
    rw [hlen] at hlast heq
    exact hnot ⟨hpower, hlen, Nat.lt_of_not_le hfirst, Nat.lt_of_le_of_ne hlast heq⟩
  have hhigh : mgr.freeLen - 1 - 1 + 1 = mgr.freeLen - 1 := by omega
  refine hclimbs.search (Nat.lt_of_not_le hfirst) mgr.freeLen (Nat.le_refl 1) ?_ ?_ ?_
    (Nat.lt_of_not_le hfirst) ?_
  · omega
  · omega
  · omega
  · rw [hhigh]
    exact hlast

theorem Unwrapped.clsid_linear_fits (h : Unwrapped mgr itemSizeMax)
    (hlinear : mgr.uptype = Uptype.linear) (hsize : size ≤ itemSizeMax) {id : Nat}
    (hid : clsid mgr size true = some id) :
    id < mgr.freeLen ∧ chunkSizeOf size ≤ mgr.classSize id := by
  have htwo := h.two
  obtain ⟨-, -, ⟨rfl, hfirst⟩ | ⟨rfl, hlast⟩ | ⟨hfirst, -, hceil⟩⟩ :=
    clsid_linear hlinear hid
  · exact ⟨by omega, hfirst⟩
  · exact ⟨by omega, Nat.le_of_eq hlast⟩
  · have hitem : forall i, plainItemSize mgr i = mgr.minSize + 1024 * i := by
      intro i
      unfold plainItemSize
      rw [hlinear]
    have hfactor : mgr.factor = 1024 := by rw [h.factor, hlinear]
    have hcovers := h.covers
    have habove : mgr.minSize < size := by
      by_contra hle
      have hzero := h.classSize_eq (i := 0) (by omega)
      rw [hitem, Nat.mul_zero, Nat.add_zero] at hzero
      have hwrap := h.noWrap_item (i := 0) (by omega)
      rw [hitem, Nat.mul_zero, Nat.add_zero] at hwrap
      have hmono := chunkSizeOf_mono (Nat.le_of_not_lt hle) hwrap
      omega
    rw [hitem] at hcovers
    rw [hfactor, sizeSub_eq (Nat.le_of_lt habove)] at hceil
    have hround : size ≤ mgr.minSize + 1024 * id ∧ id ≤ mgr.freeLen - 1 := by
      rw [hceil]
      split
      · omega
      · omega
    have hlt : id < mgr.freeLen := by omega
    constructor
    · exact hlt
    · rw [h.classSize_eq hlt, hitem]
      have hwrap := h.noWrap_item hlt
      rw [hitem] at hwrap
      exact chunkSizeOf_mono hround.1 hwrap

theorem clsid_linear_ne_none (hlinear : mgr.uptype = Uptype.linear) (hsize : size ≠ 0)
    (hlast : chunkSizeOf size ≤ mgr.classSize (mgr.freeLen - 1)) :
    clsid mgr size true ≠ none := by
  unfold clsid
  rw [if_neg hsize]
  dsimp only
  rw [if_neg (Nat.not_lt_of_le hlast), hlinear]
  split
  · exact Option.some_ne_none _
  split
  · exact Option.some_ne_none _
  · exact Option.some_ne_none _

/-- The requests of items are classified, except those between two classes that
double. -/
theorem Unwrapped.classified_iff (h : Unwrapped mgr itemSizeMax) (hpos : 1 ≤ size)
    (hsize : size ≤ itemSizeMax) : Classified mgr size ↔ ¬ BetweenTwo mgr size := by
  have hlast := h.le_last hsize
  have hnot := Nat.not_lt_of_le hlast
  constructor
  · intro hclass hbetween
    obtain ⟨hpower, hlen, hfirst, hsecond⟩ := hbetween
    refine hnot (hclass.invalid.mp ?_)
    rw [clsid_power hpower (by omega) hlast, hlen, if_neg (Nat.not_le_of_lt hfirst),
      if_neg (Nat.ne_of_lt hsecond)]
    rfl
  · intro hbetween
    cases huptype : mgr.uptype with
    | power =>
        obtain ⟨id, hid, hleast⟩ := h.clsid_power_least huptype hpos hsize hbetween
        constructor
        · intro id' hid'
          cases hid.symm.trans hid'
          exact ⟨hleast.lt, hleast.fits⟩
        · intro _ id' hid'
          cases hid.symm.trans hid'
          exact hleast.least
        · rw [hid]
          exact iff_of_false (Option.some_ne_none _) hnot
    | linear =>
        constructor
        · intro id hid
          exact h.clsid_linear_fits huptype hsize hid
        · intro hpower
          rw [huptype] at hpower
          cases hpower
        · exact iff_of_false (clsid_linear_ne_none huptype (by omega) hlast) hnot

/-!
## Managers that are created
-/

variable {A : MemAllocator} {heap heap' : A.State} {e : Errno}

theorem le_power_last {itemSizeMin : Nat} (hmin : 1 ≤ itemSizeMin) :
    itemSizeMax ≤ itemSizeMin * 2 ^ dfsMathDfslog2 (itemSizeMax / itemSizeMin +
      if itemSizeMax % itemSizeMin = 0 then 0 else 1) true := by
  have hdiv := Nat.div_add_mod itemSizeMax itemSizeMin
  have hmod := Nat.mod_lt itemSizeMax hmin
  by_cases hzero : itemSizeMax = 0
  · rw [hzero]
    exact Nat.zero_le _
  have hpower : itemSizeMax / itemSizeMin +
      (if itemSizeMax % itemSizeMin = 0 then 0 else 1) ≠ 0 := by
    split
    · rename_i hrem
      intro hquot
      rw [Nat.add_zero] at hquot
      rw [hquot, hrem, Nat.mul_zero] at hdiv
      omega
    · exact Nat.succ_ne_zero _
  have hlog := (dfsMathDfslog2_up_le hpower _).mp (Nat.le_refl _)
  refine Nat.le_trans ?_ (Nat.mul_le_mul_left itemSizeMin hlog)
  rw [Nat.mul_add]
  split
  · omega
  · omega

theorem create_unwrapped {uptype : Int} {factor itemSizeMin : Nat}
    (hcreate : create heap uptype factor itemSizeMin itemSizeMax =
      (e, some mgr, heap'))
    (hwrap : forall i, i < mgr.freeLen -> NoWrap (plainItemSize mgr i)) :
    Unwrapped mgr itemSizeMax := by
  obtain ⟨hmin, hratio, growth, freeLen, hclasses, hgrowth⟩ := create_cases hcreate
  have hmade := createClasses_made hclasses
  have hlen := hmade.freeLen
  have hpos : 1 ≤ mgr.minSize := by
    rw [hmade.minSize]
    exact hmin
  have hclass := hmade.classSize
  rw [← hmade.uptype, ← hmade.factor, ← hmade.minSize] at hclass
  have hlast : 0 < mgr.freeLen -> NoWrap (plainItemSize mgr (mgr.freeLen - 1)) :=
    fun h => hwrap _ (Nat.sub_lt h Nat.one_pos)
  rcases hgrowth with ⟨rfl, rfl, rfl⟩ | ⟨rfl, rfl, rfl⟩
  · have htwo := two_le_classes (n := itemSizeMax / itemSizeMin +
      if itemSizeMax % itemSizeMin = 0 then 0 else 1) (by omega)
    rw [← hlen] at htwo
    refine ⟨htwo, hpos, ?_, hclass, ?_, hlast (by omega)⟩
    · rw [hmade.uptype]
      exact hmade.factor
    · unfold plainItemSize
      rw [hmade.uptype, hmade.minSize, hlen, Nat.add_sub_cancel]
      exact le_power_last hmin
  · have hdouble := (Nat.le_div_iff_mul_le hmin).mp hratio
    have htwo : 2 ≤ mgr.freeLen := by
      rw [hlen]
      split
      · omega
      · omega
    refine ⟨htwo, hpos, ?_, hclass, ?_, hlast (by omega)⟩
    · rw [hmade.uptype]
      exact hmade.factor
    · unfold plainItemSize
      rw [hmade.uptype, hmade.minSize, hlen]
      dsimp only
      split
      · omega
      · omega

/-- `dfs_slabs_clsid` classifies a request for an item exactly if it is not one between
two classes that double. -/
theorem clsid_classified_iff {uptype : Int} {factor : Nat}
    {itemSizeMin itemSizeMax size : UInt64}
    (hcreate : create heap uptype factor itemSizeMin.toNat itemSizeMax.toNat =
      (e, some mgr, heap'))
    (hwrap : forall i, i < mgr.freeLen -> NoWrap (plainItemSize mgr i))
    (hpos : 1 ≤ size.toNat) (hsize : size.toNat ≤ itemSizeMax.toNat) :
    Classified mgr size.toNat ↔ ¬ BetweenTwo mgr size.toNat :=
  (create_unwrapped hcreate hwrap).classified_iff hpos hsize

def twoPowers : SlabManager :=
  (create (A := bumpAllocator) Bump.fresh 1 2 64 128).2.1.get rfl

theorem clsid_classified_iff_hundred :
    create (A := bumpAllocator) Bump.fresh 1 2 64 1024 =
        (Errno.none, some powers.world.mgr, powers.world.heap) ∧
      (Classified powers.world.mgr 100 ↔ ¬ BetweenTwo powers.world.mgr 100) := by
  have hcreate : create (A := bumpAllocator) Bump.fresh 1 2 (64 : UInt64).toNat
    (1024 : UInt64).toNat = (Errno.none, some powers.world.mgr, powers.world.heap) := rfl
  have hclassified : Classified powers.world.mgr (100 : UInt64).toNat ↔
      ¬ BetweenTwo powers.world.mgr (100 : UInt64).toNat :=
    clsid_classified_iff hcreate (by decide +kernel) (by decide) (by decide)
  exact ⟨hcreate, hclassified⟩

/-- A request for 70 bytes takes 104 with its header, which the second class has. -/
theorem clsid_classified_seventy :
    (create (A := bumpAllocator) Bump.fresh 1 2 64 128).2.1 = some twoPowers ∧
      (forall i, i < twoPowers.freeLen -> NoWrap (plainItemSize twoPowers i)) ∧
      ¬ Classified twoPowers 70 := by
  refine ⟨rfl, by decide +kernel, ?_⟩
  intro hclass
  have hnone : clsid twoPowers 70 true = none := by decide +kernel
  have hlarge := hclass.invalid.mp hnone
  exact absurd hlarge (by decide +kernel)

end Slabs
end NgxEpoll
