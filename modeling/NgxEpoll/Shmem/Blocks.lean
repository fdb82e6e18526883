import NgxEpoll.Foundation.Tiling
import NgxEpoll.Shmem.Lists

/-!
# The storages of the shared memory allocator

The storages on the order list tile the region behind the classes, and the
statistics count them.

## Sums over the allocated storages
-/

namespace NgxEpoll
namespace Shmem

open Foundation NgxEpoll.Core

def allocSum (st : Nat -> Storage) (field : Storage -> Nat) (blocks : List Nat) : Nat :=
  ((blocks.filter fun a => (st a).alloc).map fun a => field (st a)).sum

section Sums

variable {st st' : Nat -> Storage} {field : Storage -> Nat}

theorem allocSum_append (l r : List Nat) :
    allocSum st field (l ++ r) = allocSum st field l + allocSum st field r := by
  simp [allocSum]

theorem allocSum_cons (a : Nat) (l : List Nat) :
    allocSum st field (a :: l) =
      (if (st a).alloc then field (st a) else 0) + allocSum st field l := by
  unfold allocSum
  cases h : (st a).alloc <;> simp [h]

theorem allocSum_congr {l : List Nat}
    (h : forall a, a ∈ l -> (st' a).alloc = (st a).alloc ∧ field (st' a) = field (st a)) :
    allocSum st' field l = allocSum st field l := by
  induction l with
  | nil => rfl
  | cons a l ih =>
      obtain ⟨halloc, hfield⟩ := h a (List.mem_cons_self ..)
      rw [allocSum_cons, allocSum_cons, halloc, hfield,
        ih fun b hb => h b (List.mem_cons_of_mem _ hb)]

theorem allocSum_middle (pre post : List Nat) (a : Nat) :
    allocSum st field (pre ++ a :: post) =
      allocSum st field (pre ++ post) + if (st a).alloc then field (st a) else 0 := by
  rw [allocSum_append, allocSum_append, allocSum_cons]
  omega

theorem allocSum_update {pre post : List Nat} {a : Nat} (ha : a ∉ pre ++ post)
    (s : Storage) :
    allocSum (Function.update st a s) field (pre ++ a :: post) =
      allocSum st field (pre ++ post) + if s.alloc then field s else 0 := by
  have hsame : allocSum (Function.update st a s) field (pre ++ post) =
      allocSum st field (pre ++ post) := by
    refine allocSum_congr fun x hx => ?_
    have hne : x ≠ a := fun heq => ha (heq ▸ hx)
    rw [Function.update_of_ne hne]
    exact ⟨rfl, rfl⟩
  rw [allocSum_middle, hsame, Function.update_self]

end Sums

/-!
## The invariant of the storages
-/

def width (st : Nat -> Storage) (a : Nat) : Nat :=
  storageSize + (st a).size

/-- The storages from `lo` to `hi` and the statistics. -/
structure Blocks (lo hi : Nat) (shm : ShmemT) (blocks : List Nat) : Prop where
  order : Ring shm.order (QNode.head 0) (blocks.map QNode.entry)
  tiles : Tiles (width shm.st) lo blocks hi
  systemSize : shm.stat.systemSize = lo
  totalSize : shm.stat.totalSize = hi
  stCount : shm.stat.stCount = blocks.length
  usedSize : shm.stat.usedSize = allocSum shm.st Storage.size blocks
  reqsSize : shm.stat.reqsSize = allocSum shm.st Storage.actSize blocks

variable {lo hi : Nat} {shm : ShmemT} {blocks pre post : List Nat} {a b : Nat}

theorem Blocks.nodup (h : Blocks lo hi shm blocks) : blocks.Nodup := by
  refine h.tiles.nodup fun a _ => ?_
  unfold width storageSize
  omega

theorem Blocks.not_mem (h : Blocks lo hi shm (pre ++ a :: post)) : a ∉ pre ++ post := by
  have hperm : (pre ++ a :: post).Perm (a :: (pre ++ post)) := List.perm_middle
  exact (List.nodup_cons.mp (hperm.nodup_iff.mp h.nodup)).1

theorem relisted_st (shm : ShmemT) (a : Nat) (head : Option Nat)
    (free available : Links QNode) (max x : Nat) :
    ((relisted shm a head free available max).st x).alloc = (shm.st x).alloc ∧
      ((relisted shm a head free available max).st x).size = (shm.st x).size ∧
      ((relisted shm a head free available max).st x).actSize = (shm.st x).actSize := by
  by_cases hx : x = a
  · subst hx
    simp [relisted]
  · simp [relisted, hx]

theorem Blocks.relisted (h : Blocks lo hi shm blocks) (a : Nat) (head : Option Nat)
    (free available : Links QNode) (max : Nat) :
    Blocks lo hi (relisted shm a head free available max) blocks := by
  have hst := relisted_st shm a head free available max
  refine
    { order := h.order
      tiles := h.tiles.congr fun x _ => ?_
      systemSize := h.systemSize
      totalSize := h.totalSize
      stCount := h.stCount
      usedSize := h.usedSize.trans ?_
      reqsSize := h.reqsSize.trans ?_ }
  · unfold width
    rw [(hst x).2.1]
  · exact (allocSum_congr fun x _ => ⟨(hst x).1, (hst x).2.1⟩).symm
  · exact (allocSum_congr fun x _ => ⟨(hst x).1, (hst x).2.2⟩).symm

/-!
## Allocation, release, merging and splitting
-/

theorem Blocks.mark (h : Blocks lo hi shm (pre ++ a :: post)) {s : Storage}
    (hsize : s.size = (shm.st a).size) {used reqs : Nat}
    (hused : used + (if (shm.st a).alloc then (shm.st a).size else 0) =
      shm.stat.usedSize + if s.alloc then s.size else 0)
    (hreqs : reqs + (if (shm.st a).alloc then (shm.st a).actSize else 0) =
      shm.stat.reqsSize + if s.alloc then s.actSize else 0) :
    Blocks lo hi
      { shm with
        st := Function.update shm.st a s
        stat := { shm.stat with usedSize := used, reqsSize := reqs } }
      (pre ++ a :: post) := by
  have husedSize := h.usedSize
  have hreqsSize := h.reqsSize
  rw [allocSum_middle] at husedSize hreqsSize
  refine
    { order := h.order
      tiles := h.tiles.congr fun x _ => ?_
      systemSize := h.systemSize
      totalSize := h.totalSize
      stCount := h.stCount
      usedSize := ?_
      reqsSize := ?_ }
  · unfold width
    by_cases hx : x = a
    · simp [hx, hsize]
    · simp [hx]
  · dsimp only
    rw [allocSum_update h.not_mem]
    omega
  · dsimp only
    rw [allocSum_update h.not_mem]
    omega

theorem Blocks.take (h : Blocks lo hi shm (pre ++ a :: post))
    (hfree : (shm.st a).alloc = false) (n : Nat) :
    Blocks lo hi
      { shm with
        st := Function.update shm.st a { shm.st a with alloc := true, actSize := n }
        stat := { shm.stat with
          usedSize := shm.stat.usedSize + (shm.st a).size
          reqsSize := shm.stat.reqsSize + n } }
      (pre ++ a :: post) := by
  refine h.mark ?_ ?_ ?_
  · rfl
  · simp [hfree]
  · simp [hfree]

theorem Blocks.release (h : Blocks lo hi shm (pre ++ a :: post))
    (halloc : (shm.st a).alloc = true) :
    Blocks lo hi
      { shm with
        st := Function.update shm.st a { shm.st a with alloc := false }
        stat := { shm.stat with
          usedSize := shm.stat.usedSize - (shm.st a).size
          reqsSize := shm.stat.reqsSize - (shm.st a).actSize } }
      (pre ++ a :: post) := by
  have hused := h.usedSize
  have hreqs := h.reqsSize
  rw [allocSum_middle, halloc, if_pos rfl] at hused hreqs
  refine h.mark ?_ ?_ ?_
  · rfl
  · rw [halloc, if_pos rfl, if_neg (by simp)]
    omega
  · rw [halloc, if_pos rfl, if_neg (by simp)]
    omega

/-- The state when the storage `b` has joined the one before it. -/
def joined (shm : ShmemT) (a b : Nat) : ShmemT :=
  { shm with
    st := Function.update shm.st a
      { shm.st a with size := (shm.st a).size + ((shm.st b).size + storageSize) }
    order := shm.order.queueRemove (QNode.entry b)
    stat := { shm.stat with stCount := shm.stat.stCount - 1 } }

theorem joined_alloc (shm : ShmemT) (a b x : Nat) :
    ((joined shm a b).st x).alloc = (shm.st x).alloc := by
  by_cases hx : x = a
  · simp [joined, hx]
  · simp [joined, hx]

theorem Blocks.merge (h : Blocks lo hi shm (pre ++ a :: b :: post))
    (ha : (shm.st a).alloc = false) (hb : (shm.st b).alloc = false) :
    Blocks lo hi (joined shm a b) (pre ++ a :: post) := by
  have hnot := h.not_mem
  have hnot' : a ∉ pre ++ post := fun hmem => hnot (by
    simp only [List.mem_append, List.mem_cons] at hmem ⊢
    tauto)
  have hne : b ≠ a := fun heq => hnot (by simp [heq])
  have hsum : forall field : Storage -> Nat,
      allocSum shm.st field (pre ++ a :: b :: post) =
        allocSum shm.st field (pre ++ post) := by
    intro field
    rw [allocSum_middle, allocSum_middle, ha, hb]
    simp
  have hring := h.order
  rw [List.map_append, List.map_cons, List.map_cons] at hring
  have hring' : Ring shm.order (QNode.head 0) ((pre.map QNode.entry ++
      [QNode.entry a]) ++ QNode.entry b :: post.map QNode.entry) := by
    rw [List.append_assoc]
    exact hring
  have hbplace : b = a + width shm.st a := by
    obtain ⟨m, -, heq, hnext, -⟩ := tiles_append.mp h.tiles
    exact hnext
  refine
    { order := ?_
      tiles := ?_
      systemSize := h.systemSize
      totalSize := h.totalSize
      stCount := ?_
      usedSize := ?_
      reqsSize := ?_ }
  · have hremoved := hring'.remove.1
    rw [List.append_assoc] at hremoved
    rw [List.map_append, List.map_cons]
    exact hremoved
  · refine (tiles_split hbplace ?_ ?_).mp h.tiles
    · simp only [width, joined, Function.update_self]
      omega
    · intro x hx
      have hxa : x ≠ a := fun heq => hnot' (heq ▸ hx)
      simp [width, joined, hxa]
  · have hcount := h.stCount
    simp only [joined, List.length_append, List.length_cons] at hcount ⊢
    omega
  · dsimp only [joined]
    rw [h.usedSize, hsum, allocSum_update hnot', ha]
    rfl
  · dsimp only [joined]
    rw [h.reqsSize, hsum, allocSum_update hnot', ha]
    rfl

theorem Blocks.split (h : Blocks lo hi shm (pre ++ a :: post))
    (hfree : (shm.st a).alloc = false) {n : Nat}
    (hroom : n + storageSize ≤ (shm.st a).size) {shm' : ShmemT}
    (hb : b = a + storageSize + n)
    (horder : Ring shm'.order (QNode.head 0)
      ((pre ++ a :: b :: post).map QNode.entry))
    (hst : forall x, x ≠ a -> x ≠ b -> shm'.st x = shm.st x)
    (hsta : (shm'.st a).alloc = true ∧ (shm'.st a).size = n ∧ (shm'.st a).actSize = n)
    (hstb : (shm'.st b).alloc = false ∧
      (shm'.st b).size = (shm.st a).size - (n + storageSize))
    (hstat : shm'.stat = { shm.stat with
      usedSize := shm.stat.usedSize + n
      reqsSize := shm.stat.reqsSize + n
      stCount := shm.stat.stCount + 1 }) :
    Blocks lo hi shm' (pre ++ a :: b :: post) := by
  have hout : forall x, x ∈ pre ++ post -> x ≠ a ∧ x ≠ b := by
    intro x hx
    refine ⟨fun heq => h.not_mem (heq ▸ hx), ?_⟩
    obtain ⟨hbefore, hafter⟩ := h.tiles.apart
    unfold width storageSize at *
    rcases List.mem_append.mp hx with hx | hx
    · have := hbefore x hx
      omega
    · have := hafter x hx
      omega
  have hsame : forall x, x ∈ pre ++ post -> shm'.st x = shm.st x :=
    fun x hx => hst x (hout x hx).1 (hout x hx).2
  have hsum : forall field : Storage -> Nat, field (shm'.st a) = n ->
      allocSum shm'.st field (pre ++ a :: b :: post) =
        allocSum shm.st field (pre ++ a :: post) + n := by
    intro field hfield
    have hothers : allocSum shm'.st field (pre ++ post) =
        allocSum shm.st field (pre ++ post) :=
      allocSum_congr fun x hx => by rw [hsame x hx]; exact ⟨rfl, rfl⟩
    rw [allocSum_middle, allocSum_middle, allocSum_middle, hothers, hsta.1, hstb.1,
      hfree, hfield]
    simp
  refine
    { order := horder
      tiles := ?_
      systemSize := ?_
      totalSize := ?_
      stCount := ?_
      usedSize := ?_
      reqsSize := ?_ }
  · refine (tiles_split ?_ ?_ ?_).mpr h.tiles
    · rw [hb, width, hsta.2.1]
      omega
    · unfold width
      rw [hsta.2.1, hstb.2]
      omega
    · intro x hx
      unfold width
      rw [hsame x hx]
  · rw [hstat]
    exact h.systemSize
  · rw [hstat]
    exact h.totalSize
  · rw [hstat]
    have hcount := h.stCount
    simp only [List.length_append, List.length_cons] at hcount ⊢
    omega
  · rw [hstat, hsum _ hsta.2.1, ← h.usedSize]
  · rw [hstat, hsum _ hsta.2.2, ← h.reqsSize]

end Shmem
end NgxEpoll
