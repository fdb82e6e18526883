import NgxEpoll.Foundation.Chains
import NgxEpoll.Foundation.Regions
import NgxEpoll.Foundation.Runs
import NgxEpoll.Mblks.Functions

/-!
# Runs of a set of memory blocks

A set from `mem_mblks_new_fn` and any sequence of `mem_get`, `mem_get0` and `mem_put`,
where a block that is put back is held, and the holders write into the data part of
their blocks in between.

## Calls
-/

namespace NgxEpoll
namespace Mblks

open Foundation NgxEpoll.Core

structure System where
  world : World
  held : List Nat

inductive Call where
  | get
  | get0
  | put (ptr : Nat)
  | write (addr : Nat) (bytes : List Byte)

def step (s : System) : Call -> Option System
  | Call.get => (memGet s.world).map fun r => ⟨r.2, r.1.toList ++ s.held⟩
  | Call.get0 => (memGet0 s.world).map fun r => ⟨r.2, r.1.toList ++ s.held⟩
  | Call.put ptr => (memPut s.world ptr).map fun w => ⟨w, s.held.erase ptr⟩
  | Call.write addr bytes =>
      some { s with world := { s.world with mem := store s.world.mem addr bytes } }

/-- The bytes lie in the data part of a held block. -/
def Writable (s : System) (addr n : Nat) : Prop :=
  exists ptr, ptr ∈ s.held ∧ ptr ≤ addr ∧
    addr + n ≤ ptr + s.world.mblks.realSizeofType

instance (s : System) (addr n : Nat) : Decidable (Writable s addr n) :=
  inferInstanceAs (Decidable (exists ptr, ptr ∈ s.held ∧ _))

/-- Blocks are put back and written to only while they are held. -/
def Honest (s : System) : Call -> Prop
  | Call.get => True
  | Call.get0 => True
  | Call.put ptr => ptr ∈ s.held
  | Call.write addr bytes => Writable s addr bytes.length

instance (s : System) (c : Call) : Decidable (Honest s c) :=
  match c with
  | Call.get => inferInstanceAs (Decidable True)
  | Call.get0 => inferInstanceAs (Decidable True)
  | Call.put ptr => inferInstanceAs (Decidable (ptr ∈ s.held))
  | Call.write addr bytes => inferInstanceAs (Decidable (Writable s addr bytes.length))

/-!
## What is asked of every state
-/

def MemMblks.block (b : MemMblks) (i : Nat) : Nat :=
  b.addr + memMblksSize + i * b.paddedSizeofType

def MemMblks.region (b : MemMblks) (ptr : Nat) : Nat × Nat :=
  (ptr - memBlockHead, b.paddedSizeofType)

/-- The counts tell how many blocks are held, these lie apart and inside, there is no
block left only when all are held, and the next block to hand out is never the link
past the end. -/
structure Proper (count : Nat) (s : System) : Prop where
  counts : s.world.mblks.hotCount + s.world.mblks.coldCount = count ∧
    s.world.mblks.hotCount = s.held.length
  apart : (s.held.map s.world.mblks.region).Pairwise RegionsApart
  inside : forall ptr, ptr ∈ s.held ->
    s.world.mblks.addr + memMblksSize + memBlockHead ≤ ptr ∧
      ptr + s.world.mblks.realSizeofType ≤ s.world.mblks.addr + s.world.mblks.size
  null : forall r w, memGet s.world = some (r, w) -> (r = none ↔ s.held.length = count)
  link : s.world.mblks.coldCount ≠ 0 -> exists i, i < count ∧
    s.world.mblks.freeBlks = s.world.mblks.block i

/-!
## The invariant
-/

def MemMblks.past (b : MemMblks) : Nat :=
  (b.addr + b.size) % 2 ^ 64

/-- A link, with the one past the end as null. -/
def MemMblks.link (b : MemMblks) (v : Nat) : Option Nat :=
  if v = b.past then none else some v

/-- The blocks are `frees`, in the order of their links, and those with the addresses
`bs`, which are held. -/
structure Sound (count : Nat) (w : World) (frees bs : List Nat) : Prop where
  size : w.mblks.size = w.mblks.paddedSizeofType * count + memMblksSize
  room : 0 < w.mblks.addr ∧ w.mblks.addr + w.mblks.size ≤ 2 ^ 64
  padded : 0 < count ->
    w.mblks.paddedSizeofType = memBlockHead + w.mblks.realSizeofType
  freeBlks : w.mblks.freeBlks < 2 ^ 64
  blocks : (frees ++ bs).Perm ((List.range count).map w.mblks.block)
  chain : Chain (fun b => w.mblks.link (next w.mem b)) (w.mblks.link w.mblks.freeBlks) frees
  owner : forall b, b ∈ bs -> next w.mem b = w.mblks.addr
  coldCount : w.mblks.coldCount = frees.length
  hotCount : w.mblks.hotCount = bs.length

variable {count : Nat} {w w' : World} {frees bs : List Nat} {b : Nat}

theorem Sound.mem_block (h : Sound count w frees bs) (hb : b ∈ frees ++ bs) :
    exists i, i < count ∧ b = w.mblks.block i := by
  obtain ⟨i, hi, rfl⟩ := List.mem_map.mp (h.blocks.mem_iff.mp hb)
  exact ⟨i, List.mem_range.mp hi, rfl⟩

theorem Sound.inside (h : Sound count w frees bs) (hb : b ∈ frees ++ bs) :
    w.mblks.addr + memMblksSize ≤ b ∧
      b + w.mblks.paddedSizeofType ≤ w.mblks.addr + w.mblks.size ∧
      w.mblks.paddedSizeofType = memBlockHead + w.mblks.realSizeofType := by
  obtain ⟨i, hi, rfl⟩ := h.mem_block hb
  have hpadded := h.padded (Nat.zero_lt_of_lt hi)
  have hmul : (i + 1) * w.mblks.paddedSizeofType ≤ w.mblks.paddedSizeofType * count := by
    rw [Nat.mul_comm w.mblks.paddedSizeofType]
    exact Nat.mul_le_mul_right _ hi
  rw [Nat.succ_mul] at hmul
  rw [h.size]
  unfold MemMblks.block
  omega

theorem Sound.inside_head (h : Sound count w frees bs) (hb : b ∈ frees ++ bs) :
    w.mblks.Inside b ∧ b < 2 ^ 64 ∧ w.mblks.addr < 2 ^ 64 := by
  have hin := h.inside hb
  have hroom := h.room
  unfold MemMblks.Inside memMblksSize memBlockHead at *
  omega

instance apart_symm (n : Nat) : Std.Symm fun a b => Apart a n b n where
  symm a b h := by
    unfold Apart at *
    omega

theorem Sound.apart (h : Sound count w frees bs) :
    (frees ++ bs).Pairwise fun a b => Apart a w.mblks.paddedSizeofType b
      w.mblks.paddedSizeofType := by
  refine (h.blocks.pairwise_iff fun hab => (apart_symm _).symm _ _ hab).mpr ?_
  rw [List.pairwise_map]
  refine List.pairwise_lt_range.imp fun {i j} hij => ?_
  have hmul : (i + 1) * w.mblks.paddedSizeofType ≤ j * w.mblks.paddedSizeofType :=
    Nat.mul_le_mul_right _ hij
  rw [Nat.succ_mul] at hmul
  unfold Apart MemMblks.block
  omega

theorem Sound.nodup (h : Sound count w frees bs) : (frees ++ bs).Nodup := by
  refine h.apart.imp_of_mem fun {a b} ha _ hapart heq => ?_
  subst heq
  have hin := h.inside ha
  unfold Apart memBlockHead at *
  omega

theorem Sound.next_eq (h : Sound count w frees bs) {c : Nat} {m : Mem}
    (hc : c ∈ frees ++ bs) (hb : b ∈ frees ++ bs) (hne : b ≠ c)
    (hdiffers : DiffersIn w.mem m c w.mblks.paddedSizeofType) :
    next m b = next w.mem b := by
  have happart := h.apart.forall hb hc hne
  have hin := h.inside hb
  refine hdiffers.loadNat_eq ?_
  unfold Apart memBlockHead at *
  omega

theorem Sound.freeBlks_eq (h : Sound count w (b :: frees) bs) : w.mblks.freeBlks = b := by
  have hlink := h.chain.1
  unfold MemMblks.link at hlink
  split at hlink
  · cases hlink
  · exact Option.some.inj hlink

theorem Sound.link_block (h : Sound count w frees bs) (hb : b ∈ frees ++ bs) :
    w.mblks.link b = some b := by
  have hin := h.inside hb
  have hroom := h.room
  refine if_neg fun heq => ?_
  unfold MemMblks.past memMblksSize memBlockHead at *
  omega

theorem next_lt (m : Mem) (a : Nat) : next m a < 2 ^ 64 :=
  loadNat_lt m a memBlockHead

theorem next_setNext (m : Mem) {a v : Nat} (hv : v < 2 ^ 64) : next (setNext m a v) a = v :=
  loadNat_storeNat m a hv

theorem Sound.differs_setNext (h : Sound count w frees bs) (hb : b ∈ frees ++ bs)
    (v : Nat) : DiffersIn w.mem (setNext w.mem b v) b w.mblks.paddedSizeofType := by
  have hin := h.inside hb
  exact differsIn_storeNat _ _ (Nat.le_refl _) (by omega)

/-!
## What the calls keep
-/

theorem Sound.congr_held (h : Sound count w frees bs) {bs' : List Nat}
    (hperm : bs.Perm bs') : Sound count w frees bs' :=
  { h with
    blocks := (hperm.append_left frees).symm.trans h.blocks
    owner := fun b hb => h.owner b (hperm.mem_iff.mpr hb)
    hotCount := by rw [h.hotCount, hperm.length_eq] }

def taken (w : World) : World :=
  { mblks := { w.mblks with
      freeBlks := next w.mem w.mblks.freeBlks
      hotCount := w.mblks.hotCount + 1
      coldCount := w.mblks.coldCount - 1 }
    mem := setNext w.mem w.mblks.freeBlks w.mblks.addr }

theorem Sound.get (h : Sound count w (b :: frees) bs) :
    memGet w = some (some (b + memBlockHead), taken w) ∧
      Sound count (taken w) frees (b :: bs) := by
  have hmem : b ∈ b :: frees ++ bs := List.mem_cons_self ..
  obtain ⟨hinside, -, haddr⟩ := h.inside_head hmem
  have hfree := h.freeBlks_eq
  have hcold := h.coldCount
  rw [List.length_cons] at hcold
  have hnot := List.nodup_cons.mp h.nodup
  have hothers : forall c, c ∈ frees ++ bs -> next (taken w).mem c = next w.mem c := by
    intro c hc
    unfold taken
    rw [hfree]
    exact h.next_eq hmem (List.mem_cons_of_mem _ hc) (ne_of_mem_of_not_mem hc hnot.1)
      (h.differs_setNext hmem _)
  refine ⟨?_, h.size, h.room, h.padded, next_lt _ _, ?_, ?_, ?_, ?_, ?_⟩
  · unfold memGet
    rw [if_pos (by omega)]
    dsimp only
    rw [hfree, if_pos hinside]
    unfold taken
    rw [hfree]
  · exact List.perm_middle.trans h.blocks
  · have hchain := h.chain.2
    unfold taken
    dsimp only
    rw [hfree]
    refine hchain.congr fun c hc => ?_
    have heq := hothers c (List.mem_append_left _ hc)
    unfold taken at heq
    rw [hfree] at heq
    exact congrArg _ heq
  · intro c hc
    rcases List.mem_cons.mp hc with rfl | hc
    · unfold taken
      rw [hfree]
      exact next_setNext _ haddr
    · rw [hothers c (List.mem_append_right _ hc)]
      exact h.owner c hc
  · unfold taken
    dsimp only
    omega
  · unfold taken
    dsimp only
    rw [h.hotCount, List.length_cons]
    rfl

def returned (w : World) (b : Nat) : World :=
  { mblks := { w.mblks with
      hotCount := w.mblks.hotCount - 1
      coldCount := w.mblks.coldCount + 1
      freeBlks := b }
    mem := setNext w.mem b w.mblks.freeBlks }

theorem Sound.put (h : Sound count w frees (b :: bs)) :
    memPut w (b + memBlockHead) = some (returned w b) ∧
      Sound count (returned w b) (b :: frees) bs := by
  have hmem : b ∈ frees ++ b :: bs := by simp
  obtain ⟨hinside, hlt, -⟩ := h.inside_head hmem
  have hin := h.inside hmem
  have howner := h.owner b (List.mem_cons_self ..)
  have hnot := List.nodup_cons.mp (List.perm_middle.nodup_iff.mp h.nodup)
  have hhot := h.hotCount
  rw [List.length_cons] at hhot
  have hothers : forall c, c ∈ frees ++ bs -> next (returned w b).mem c = next w.mem c := by
    intro c hc
    refine h.next_eq hmem ?_ (ne_of_mem_of_not_mem hc hnot.1) (h.differs_setNext hmem _)
    exact List.perm_middle.mem_iff.mpr (List.mem_cons_of_mem _ hc)
  have hroom := h.room
  refine ⟨?_, h.size, h.room, h.padded, hlt, ?_, ?_, ?_, ?_, ?_⟩
  · have hpdata : sizeSub (b + memBlockHead) memBlockHead = b := by
      rw [sizeSub_eq (Nat.le_add_left ..), Nat.add_sub_cancel]
    unfold memPut
    rw [if_neg (by unfold memBlockHead; omega)]
    dsimp only
    rw [hpdata, howner, if_neg (by unfold memMblksSize at hin; omega),
      if_neg (not_not.mpr hinside), if_neg (by omega), if_neg (not_not.mpr rfl)]
    rfl
  · exact List.perm_middle.symm.trans h.blocks
  · refine ⟨h.link_block hmem, ?_⟩
    have hnext : next (returned w b).mem b = w.mblks.freeBlks := next_setNext _ h.freeBlks
    dsimp only
    rw [hnext]
    refine h.chain.congr fun c hc => ?_
    exact congrArg w.mblks.link (hothers c (List.mem_append_left _ hc))
  · intro c hc
    rw [hothers c (List.mem_append_right _ hc)]
    exact h.owner c (List.mem_cons_of_mem _ hc)
  · unfold returned
    dsimp only
    rw [h.coldCount, List.length_cons]
    rfl
  · unfold returned
    dsimp only
    omega

theorem Sound.data (h : Sound count w frees bs) (hb : b ∈ frees ++ bs) {m : Mem}
    (hdiffers : DiffersIn w.mem m (b + memBlockHead) w.mblks.realSizeofType) :
    Sound count { w with mem := m } frees bs := by
  have hin := h.inside hb
  have hblock : DiffersIn w.mem m b w.mblks.paddedSizeofType :=
    hdiffers.mono (by omega) (by omega)
  have hsame : forall c, c ∈ frees ++ bs -> next m c = next w.mem c := by
    intro c hc
    by_cases hcb : c = b
    · subst hcb
      refine hdiffers.loadNat_eq ?_
      unfold Apart
      omega
    · exact h.next_eq hb hc hcb hblock
  exact { h with
    chain := h.chain.congr fun c hc =>
      congrArg w.mblks.link (hsame c (List.mem_append_left _ hc))
    owner := fun c hc => by
      rw [hsame c (List.mem_append_right _ hc)]
      exact h.owner c hc }

/-!
## Creation
-/

theorem linkBlocks_spec {padded : Nat} (hpadded : memBlockHead ≤ padded) (n : Nat) (m : Mem)
    {ptr : Nat} (hroom : ptr + n * padded ≤ 2 ^ 64) :
    DiffersIn m (linkBlocks padded n m ptr) ptr (n * padded) ∧
      forall i, i < n -> next (linkBlocks padded n m ptr) (ptr + i * padded) =
        (ptr + (i + 1) * padded) % 2 ^ 64 := by
  induction n generalizing m ptr with
  | zero => exact ⟨DiffersIn.refl _ _ _, nofun⟩
  | succ n ih =>
      rw [Nat.succ_mul] at hroom ⊢
      unfold linkBlocks
      dsimp only
      have hself : next (setNext m ptr (ptr + padded)) ptr = (ptr + padded) % 2 ^ 64 :=
        loadNat_storeNat_self m ptr memBlockHead _
      have hfirst : DiffersIn m (setNext m ptr (ptr + padded)) ptr padded :=
        differsIn_storeNat m _ (Nat.le_refl _) (Nat.add_le_add_left hpadded _)
      rw [hself]
      cases n with
      | zero =>
          refine ⟨hfirst.mono (Nat.le_refl _) (by omega), fun i hi => ?_⟩
          obtain rfl := Nat.lt_one_iff.mp hi
          rw [Nat.zero_mul, Nat.zero_add, Nat.one_mul]
          exact hself
      | succ n =>
          have hmul : padded ≤ (n + 1) * padded := Nat.le_mul_of_pos_left _ (Nat.succ_pos n)
          unfold memBlockHead at hpadded
          rw [Nat.mod_eq_of_lt (show ptr + padded < 2 ^ 64 by omega)]
          have hroom' : ptr + padded + (n + 1) * padded ≤ 2 ^ 64 := by omega
          obtain ⟨hrest, hnext⟩ := ih (setNext m ptr (ptr + padded)) hroom'
          constructor
          · exact (hfirst.mono (Nat.le_refl _) (by omega)).trans
              (hrest.mono (by omega) (by omega))
          · intro i hi
            cases i with
            | zero =>
                rw [Nat.zero_mul, Nat.zero_add, Nat.one_mul, Nat.add_zero]
                refine (hrest.loadNat_eq ?_).trans hself
                unfold Apart memBlockHead
                omega
            | succ i =>
                have hshift : forall j, ptr + (j + 1) * padded = ptr + padded + j * padded := by
                  intro j
                  rw [Nat.succ_mul]
                  omega
                rw [hshift i, hshift (i + 1)]
                exact hnext i (Nat.lt_of_succ_lt_succ hi)

theorem chain_blocks {p : MemMblks} {m : Mem} {count : Nat}
    (hsize : p.size = p.paddedSizeofType * count + memMblksSize)
    (hroom : 0 < p.addr ∧ p.addr + p.size ≤ 2 ^ 64)
    (hpadded : 0 < count -> 0 < p.paddedSizeofType)
    (hnext : forall i, i < count -> next m (p.block i) = p.block (i + 1) % 2 ^ 64)
    (k : Nat) (hk : k ≤ count) :
    Chain (fun b => p.link (next m b)) (p.link (p.block (count - k) % 2 ^ 64))
      ((List.range' (count - k) k).map p.block) := by
  induction k with
  | zero =>
      have hlast : p.block count = p.addr + p.size := by
        rw [hsize, Nat.mul_comm]
        unfold MemMblks.block
        omega
      rw [Nat.sub_zero, hlast]
      exact if_pos rfl
  | succ k ih =>
      have hi : count - (k + 1) < count := by omega
      have hsucc : count - k = count - (k + 1) + 1 := by omega
      have hmul : (count - (k + 1) + 1) * p.paddedSizeofType ≤ p.paddedSizeofType * count := by
        rw [Nat.mul_comm p.paddedSizeofType]
        exact Nat.mul_le_mul_right _ hi
      rw [Nat.succ_mul] at hmul
      have hpos := hpadded (Nat.zero_lt_of_lt hi)
      have hlt : p.block (count - (k + 1)) < p.addr + p.size := by
        rw [hsize]
        unfold MemMblks.block
        omega
      rw [List.range'_succ, List.map_cons, Nat.mod_eq_of_lt (by omega)]
      refine ⟨if_neg fun heq => ?_, ?_⟩
      · unfold MemMblks.past at heq
        unfold MemMblks.block memMblksSize at *
        omega
      · dsimp only
        rw [hnext _ hi, ← hsucc]
        exact ih (Nat.le_of_succ_le hk)

theorem sound_new
    (hsize : w.mblks.size = w.mblks.paddedSizeofType * count + memMblksSize)
    (hroom : 0 < w.mblks.addr ∧ w.mblks.addr + w.mblks.size ≤ 2 ^ 64)
    (hpadded : 0 < count ->
      w.mblks.paddedSizeofType = memBlockHead + w.mblks.realSizeofType)
    (hfree : w.mblks.freeBlks = w.mblks.block 0 % 2 ^ 64)
    (hcold : w.mblks.coldCount = count) (hhot : w.mblks.hotCount = 0)
    (hnext : forall i, i < count ->
      next w.mem (w.mblks.block i) = w.mblks.block (i + 1) % 2 ^ 64) :
    Sound count w ((List.range count).map w.mblks.block) [] := by
  have hpos : 0 < count -> 0 < w.mblks.paddedSizeofType := by
    intro h
    rw [hpadded h]
    unfold memBlockHead
    omega
  have hchain := chain_blocks hsize hroom hpos hnext count (Nat.le_refl _)
  rw [Nat.sub_self, ← List.range_eq_range', ← hfree] at hchain
  exact
    { size := hsize
      room := hroom
      padded := hpadded
      freeBlks := by
        rw [hfree]
        exact Nat.mod_lt _ (by decide)
      blocks := by rw [List.append_nil]
      chain := hchain
      owner := by simp
      coldCount := by rw [hcold, List.length_map, List.length_range]
      hotCount := hhot }

theorem newSize_eq {padded count : Nat} (h : padded * count + memMblksSize < 2 ^ 64) :
    (((padded : Int) * (count : Int) + (memMblksSize : Int)) % 2 ^ 64).toNat =
      padded * count + memMblksSize := by
  have hcast : (padded : Int) * (count : Int) + (memMblksSize : Int) =
      ((padded * count + memMblksSize : Nat) : Int) := by
    rw [Int.natCast_add, Int.natCast_mul]
  rw [hcast]
  omega

/-- The links of a new set; with no block the address behind the set may be past every
address. -/
theorem linkBlocks_new {addr padded count : Nat} (m : Mem)
    (hpadded : 0 < count -> memBlockHead ≤ padded)
    (hroom : addr + (padded * count + memMblksSize) ≤ 2 ^ 64) (i : Nat) (hi : i < count) :
    next (linkBlocks padded count m ((addr + memMblksSize) % 2 ^ 64))
        (addr + memMblksSize + i * padded) =
      (addr + memMblksSize + (i + 1) * padded) % 2 ^ 64 := by
  have hpos := Nat.zero_lt_of_lt hi
  have hmul : padded ≤ padded * count := Nat.le_mul_of_pos_right _ hpos
  have hbound := hpadded hpos
  rw [Nat.mod_eq_of_lt (by unfold memBlockHead at hbound; omega)]
  refine (linkBlocks_spec hbound count _ ?_).2 i hi
  rw [Nat.mul_comm count]
  omega

theorem memMblksNew_sound {memAlloc : Nat -> Option Nat} {m : Mem} {sizeofType : UInt64}
    {count : Nat} (hcount : count < 2 ^ 31)
    (hsize : (sizeofType.toNat + memBlockHead) * count + memMblksSize < 2 ^ 64)
    (halloc : forall n p, memAlloc n = some p -> 0 < p ∧ p + n ≤ 2 ^ 64)
    (hnew : memMblksNew (some memAlloc) m sizeofType.toNat count = some w) :
    Sound count w ((List.range count).map w.mblks.block) [] := by
  have hpadded : 0 < count ->
      sizeofPerMemBlock sizeofType.toNat = memBlockHead + sizeofType.toNat := by
    intro hpos
    have hmul : sizeofType.toNat + memBlockHead ≤
        (sizeofType.toNat + memBlockHead) * count := Nat.le_mul_of_pos_right _ hpos
    unfold sizeofPerMemBlock
    rw [Nat.mod_eq_of_lt (by omega), Nat.add_comm]
  have htotal : sizeofPerMemBlock sizeofType.toNat * count + memMblksSize < 2 ^ 64 := by
    rcases Nat.eq_zero_or_pos count with rfl | hpos
    · rw [Nat.mul_zero]
      decide
    · rw [hpadded hpos, Nat.add_comm memBlockHead]
      exact hsize
  unfold memMblksNew at hnew
  dsimp only at hnew
  generalize sizeofPerMemBlock sizeofType.toNat = padded at *
  rw [newSize_eq htotal] at hnew
  cases haddr : memAlloc (padded * count + memMblksSize) with
  | none =>
      rw [haddr] at hnew
      cases hnew
  | some addr =>
      rw [haddr] at hnew
      cases hnew
      obtain ⟨hpos, hroom⟩ := halloc _ _ haddr
      refine sound_new rfl ⟨hpos, hroom⟩ hpadded ?_ ?_ rfl
        (linkBlocks_new _ (fun hpos => by rw [hpadded hpos]; exact Nat.le_add_right _ _) hroom)
      · dsimp only [MemMblks.block]
        rw [Nat.zero_mul, Nat.add_zero]
      · dsimp only
        omega

/-!
## Runs
-/

def Held (count : Nat) (s : System) : Prop :=
  exists frees bs, Sound count s.world frees bs ∧ s.held = bs.map (· + memBlockHead)

variable {s : System}

theorem Sound.get_cases (h : Sound count w frees bs) :
    (frees = [] ∧ memGet w = some (none, w)) ∨
      exists b frees', frees = b :: frees' ∧
        memGet w = some (some (b + memBlockHead), taken w) ∧
        Sound count (taken w) frees' (b :: bs) := by
  cases frees with
  | nil =>
      have hcold : w.mblks.coldCount = 0 := h.coldCount
      exact Or.inl ⟨rfl, if_neg (not_not.mpr hcold)⟩
  | cons b frees => exact Or.inr ⟨b, frees, rfl, h.get⟩

theorem Sound.zeroed (h : Sound count w frees bs) (hb : b ∈ frees ++ bs) :
    Sound count { w with
      mem := store w.mem (b + memBlockHead) (List.replicate w.mblks.realSizeofType 0) }
      frees bs :=
  h.data hb (differsIn_store _ (Nat.le_refl _) (by rw [List.length_replicate]))

theorem Held.step (h : Held count s) {c : Call} (hc : Honest s c) :
    exists s', step s c = some s' ∧ Held count s' := by
  obtain ⟨frees, bs, hs, hheld⟩ := h
  cases c with
  | get =>
      unfold Mblks.step
      rcases hs.get_cases with ⟨-, heq⟩ | ⟨b, frees', -, heq, h'⟩
      · rw [heq]
        exact ⟨_, rfl, frees, bs, hs, hheld⟩
      · rw [heq]
        exact ⟨_, rfl, frees', b :: bs, h', congrArg (List.cons _) hheld⟩
  | get0 =>
      unfold Mblks.step memGet0
      rcases hs.get_cases with ⟨-, heq⟩ | ⟨b, frees', -, heq, h'⟩
      · rw [heq]
        exact ⟨_, rfl, frees, bs, hs, hheld⟩
      · rw [heq]
        exact ⟨_, rfl, frees', b :: bs, h'.zeroed (by simp),
          congrArg (List.cons _) hheld⟩
  | put ptr =>
      have hptr : ptr ∈ s.held := hc
      rw [hheld] at hptr
      obtain ⟨b, hb, rfl⟩ := List.mem_map.mp hptr
      obtain ⟨heq, h'⟩ := (hs.congr_held (List.perm_cons_erase hb)).put
      refine ⟨⟨returned s.world b, s.held.erase (b + memBlockHead)⟩, ?_, b :: frees,
        bs.erase b, h', ?_⟩
      · rw [Mblks.step, heq]
        rfl
      · rw [hheld, List.map_erase fun x y hxy => Nat.add_right_cancel hxy]
  | write addr bytes =>
      obtain ⟨ptr, hptr, hlo, hhi⟩ := hc
      rw [hheld] at hptr
      obtain ⟨b, hb, rfl⟩ := List.mem_map.mp hptr
      exact ⟨_, rfl, frees, bs, hs.data (List.mem_append_right _ hb)
        (differsIn_store _ hlo hhi), hheld⟩

theorem Held.proper (h : Held count s) : Proper count s := by
  obtain ⟨frees, bs, hs, hheld⟩ := h
  have hlen := hs.blocks.length_eq
  rw [List.length_append, List.length_map, List.length_range] at hlen
  have hbs : s.held.length = bs.length := by rw [hheld, List.length_map]
  have hhot := hs.hotCount
  have hcold := hs.coldCount
  constructor
  · rw [hbs]
    omega
  · rw [hheld, List.pairwise_map, List.pairwise_map]
    exact (List.pairwise_append.mp hs.apart).2.1
  · intro ptr hptr
    rw [hheld] at hptr
    obtain ⟨b, hb, rfl⟩ := List.mem_map.mp hptr
    have hin := hs.inside (List.mem_append_right _ hb)
    omega
  · intro r w hget
    rcases hs.get_cases with ⟨rfl, heq⟩ | ⟨b, frees', rfl, heq, -⟩
    · cases heq.symm.trans hget
      rw [List.length_nil] at hlen
      exact iff_of_true rfl (by omega)
    · cases heq.symm.trans hget
      rw [List.length_cons] at hlen
      exact iff_of_false nofun (by omega)
  · intro hne
    cases frees with
    | nil => exact absurd hcold hne
    | cons b frees =>
        rw [hs.freeBlks_eq]
        exact hs.mem_block (List.mem_cons_self ..)

/-- In every run of a set from `mem_mblks_new_fn` the state is proper, and the next call
returns. -/
theorem blocks_proper_of_run {memAlloc : Nat -> Option Nat} {m : Mem} {sizeofType : UInt64}
    {count : Nat} (hcount : count < 2 ^ 31)
    (hsize : (sizeofType.toNat + memBlockHead) * count + memMblksSize < 2 ^ 64)
    (halloc : forall n p, memAlloc n = some p -> 0 < p ∧ p + n ≤ 2 ^ 64)
    (hnew : memMblksNew (some memAlloc) m sizeofType.toNat count = some w)
    (hrun : Reaches step Honest ⟨w, []⟩ s) :
    Proper count s ∧ forall c, Honest s c -> (step s c).isSome = true := by
  have hnew := memMblksNew_sound hcount hsize halloc hnew
  exact (hrun.returning (Held count) (fun _ _ ht hc => ht.step hc)
    ⟨_, [], hnew, rfl⟩).imp_left Held.proper

def atPage (n : Nat) : Option Nat :=
  if n < 2 ^ 32 then some 4096 else none

def two : World :=
  (memMblksNew (some atPage) (fun _ => 0) 8 2).get rfl

/-- One block is handed out and filled by its holder, so is the other, and the first one
is put back. -/
theorem blocks_proper_of_run_two :
    memMblksNew (some atPage) (fun _ => 0) 8 2 = some two ∧
      exists s, Reaches step Honest ⟨two, []⟩ s ∧ Proper 2 s := by
  have hnew : memMblksNew (some atPage) (fun _ => 0) (8 : UInt64).toNat (2 : Nat) =
      some two := rfl
  have hrun : Reaches step Honest ⟨two, []⟩ _ :=
    ((((Reaches.refl _).oneLabel (a := Call.get) trivial (by decide +kernel)).oneLabel
      (a := Call.write 4192 [1, 2, 3, 4, 5, 6, 7, 8]) (by decide +kernel) rfl).oneLabel
      (a := Call.get0) trivial (by decide +kernel)).oneLabel (a := Call.put 4192)
      (by decide +kernel) (by decide +kernel)
  have halloc : forall n p, atPage n = some p -> 0 < p ∧ p + n ≤ 2 ^ 64 := by
    intro n p h
    unfold atPage at h
    split at h
    · cases h
      omega
    · cases h
  exact ⟨hnew, _, hrun, (blocks_proper_of_run (by decide) (by decide) halloc hnew hrun).1⟩

end Mblks
end NgxEpoll
