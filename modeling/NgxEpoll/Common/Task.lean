import NgxEpoll.Core.Buffer
import Mathlib.Data.List.OfFn

/-!
# Tasks and their wire image

`task_t` of `dfs_task.h` and the two functions of `dfs_task.cpp` that copy it
into and out of a byte buffer.  The image of a task is the raw x86-64 struct,
so the padding between the fields travels with it.
-/

namespace NgxEpoll
namespace Common

open Foundation
open NgxEpoll.Core

def taskEagin : Int := -2

def keyLen : Nat := 256

def ownerLen : Nat := 16

def groupLen : Nat := 16

/-- `task_t`, with the padding the compiler puts before `opq`, before
`data_len` and before `data`. -/
@[ext]
structure TaskT where
  cmd : BitVec 32
  ret : BitVec 32
  seq : BitVec 32
  pad12 : BitVec 32
  opq : BitVec 64
  masterNodeid : BitVec 32
  key : Fin keyLen -> Byte
  user : Fin ownerLen -> Byte
  group : Fin groupLen -> Byte
  permission : BitVec 16
  pad318 : BitVec 16
  dataLen : BitVec 32
  pad324 : BitVec 32
  data : BitVec 64

/-- The first character of the key, which is null where `strlen` finds the key
empty. -/
def TaskT.keyHead (t : TaskT) : Byte :=
  t.key ⟨0, by decide⟩

def taskSize : Nat := 336

def intSize : Nat := 4

def headerSize : Nat := intSize + taskSize + intSize

def TaskT.image (t : TaskT) : List Byte :=
  leBytes 4 t.cmd.toNat ++ (leBytes 4 t.ret.toNat ++ (leBytes 4 t.seq.toNat ++
    (leBytes 4 t.pad12.toNat ++ (leBytes 8 t.opq.toNat ++
      (leBytes 4 t.masterNodeid.toNat ++ (List.ofFn t.key ++
        (List.ofFn t.user ++ (List.ofFn t.group ++
          (leBytes 2 t.permission.toNat ++ (leBytes 2 t.pad318.toNat ++
            (leBytes 4 t.dataLen.toNat ++ (leBytes 4 t.pad324.toNat ++
              leBytes 8 t.data.toNat))))))))))))

def taskAt (m : Mem) (a : Nat) : TaskT where
  cmd := loadWord m a 4
  ret := loadWord m (a + 4) 4
  seq := loadWord m (a + 8) 4
  pad12 := loadWord m (a + 12) 4
  opq := loadWord m (a + 16) 8
  masterNodeid := loadWord m (a + 24) 4
  key := fun i => m (a + 28 + i)
  user := fun i => m (a + 284 + i)
  group := fun i => m (a + 300 + i)
  permission := loadWord m (a + 316) 2
  pad318 := loadWord m (a + 318) 2
  dataLen := loadWord m (a + 320) 4
  pad324 := loadWord m (a + 324) 4
  data := loadWord m (a + 328) 8

def taskNew : TaskT where
  cmd := 0
  ret := 0
  seq := 0
  pad12 := 0
  opq := 0
  masterNodeid := 0
  key := fun _ => 0
  user := fun _ => 0
  group := fun _ => 0
  permission := 0
  pad318 := 0
  dataLen := 0
  pad324 := 0
  data := 0

/-- `task_encode2str`.  The signed sum wraps as on the target machine. -/
def taskEncode2str (m : Mem) (task : TaskT) (buff : Nat) (len : Int) :
    Int × Mem :=
  let needSize := cInt (intSize + taskSize + intSize + task.dataLen.toInt)
  if len < needSize then (taskEagin, m)
  else
    let m := store m buff (leBytes 4 (BitVec.ofInt 32 needSize).toNat)
    let buff := buff + intSize
    let m := store m buff task.image
    let buff := buff + taskSize
    let m := store m buff (leBytes 4 task.dataLen.toNat)
    let buff := buff + intSize
    let m :=
      if 0 < task.dataLen.toInt then
        store m buff (load m task.data.toNat task.dataLen.toInt.toNat)
      else m
    (needSize, m)

/-- `task_decodefstr`.  The length word is read before anything is known about
`len`; only `opq` of the receiving task survives the struct copy. -/
def taskDecodefstr (m : Mem) (buff : Nat) (len : Int) (task : TaskT) :
    Int × TaskT :=
  let data := task.opq
  let needSize := loadInt m buff
  if len < needSize then (taskEagin, task)
  else
    let buff := buff + intSize
    let task := taskAt m buff
    let buff := buff + taskSize
    let dataLen := loadInt m buff
    let buff := buff + intSize
    let task :=
      if 0 < dataLen then { task with data := BitVec.ofNat 64 buff } else task
    (needSize, { task with opq := data })

/-!
## The struct image

A task is determined by its image, and the image read back from memory is the
task.
-/

@[simp] theorem TaskT.image_length (t : TaskT) : t.image.length = taskSize := by
  simp only [TaskT.image, List.length_append, leBytes_length, List.length_ofFn]
  rfl

theorem chars_of_load {m : Mem} {a n : Nat} {f : Fin n -> Byte}
    (h : load m a n = List.ofFn f) : (fun i : Fin n => m (a + i)) = f := by
  funext i
  have hget := congrArg (fun bs => bs[i.val]?) h
  simp only [load_getElem?] at hget
  rw [if_pos i.isLt, List.getElem?_eq_getElem (by simp)] at hget
  simpa using hget

theorem load_words_iff {m : Mem} {a n w v : Nat} {ys : List Byte}
    (hlen : n = w + ys.length) :
    load m a n = leBytes w v ++ ys ↔
      load m a w = leBytes w v ∧ load m (a + w) ys.length = ys := by
  have hsplit : load m a n = leBytes w v ++ ys ↔ _ :=
    load_eq_append_iff (by simpa using hlen)
  simpa using hsplit

theorem load_chars_iff {m : Mem} {a n k : Nat} {f : Fin k -> Byte}
    {ys : List Byte} (hlen : n = k + ys.length) :
    load m a n = List.ofFn f ++ ys ↔
      load m a k = List.ofFn f ∧ load m (a + k) ys.length = ys := by
  have hsplit : load m a n = List.ofFn f ++ ys ↔ _ :=
    load_eq_append_iff (by simpa using hlen)
  simpa using hsplit

theorem taskAt_of_load {m : Mem} {a : Nat} {t : TaskT}
    (h : load m a taskSize = t.image) : taskAt m a = t := by
  have hlen : taskSize = t.image.length := by simp
  rw [hlen] at h
  unfold TaskT.image at h
  rw [load_words_iff (by simp)] at h
  obtain ⟨hcmd, h⟩ := h
  rw [load_words_iff (by simp)] at h
  obtain ⟨hret, h⟩ := h
  rw [load_words_iff (by simp)] at h
  obtain ⟨hseq, h⟩ := h
  rw [load_words_iff (by simp)] at h
  obtain ⟨hpad12, h⟩ := h
  rw [load_words_iff (by simp)] at h
  obtain ⟨hopq, h⟩ := h
  rw [load_words_iff (by simp)] at h
  obtain ⟨hnode, h⟩ := h
  rw [load_chars_iff (by simp)] at h
  obtain ⟨hkey, h⟩ := h
  rw [load_chars_iff (by simp)] at h
  obtain ⟨huser, h⟩ := h
  rw [load_chars_iff (by simp)] at h
  obtain ⟨hgroup, h⟩ := h
  rw [load_words_iff (by simp)] at h
  obtain ⟨hperm, h⟩ := h
  rw [load_words_iff (by simp)] at h
  obtain ⟨hpad318, h⟩ := h
  rw [load_words_iff (by simp)] at h
  obtain ⟨hdataLen, h⟩ := h
  rw [load_words_iff (by simp)] at h
  obtain ⟨hpad324, hdata⟩ := h
  simp only [leBytes_length] at hdata
  apply TaskT.ext
  · exact loadWord_of_load (w := 4) hcmd
  · exact loadWord_of_load (w := 4) hret
  · exact loadWord_of_load (w := 4) hseq
  · exact loadWord_of_load (w := 4) hpad12
  · exact loadWord_of_load (w := 8) hopq
  · exact loadWord_of_load (w := 4) hnode
  · exact chars_of_load hkey
  · exact chars_of_load huser
  · exact chars_of_load hgroup
  · exact loadWord_of_load (w := 2) hperm
  · exact loadWord_of_load (w := 2) hpad318
  · exact loadWord_of_load (w := 4) hdataLen
  · exact loadWord_of_load (w := 4) hpad324
  · exact loadWord_of_load (w := 8) hdata

theorem taskAt_congr {m m' : Mem} {a b : Nat}
    (h : load m a taskSize = load m' b taskSize) : taskAt m a = taskAt m' b := by
  have hword : forall {k w : Nat}, k + w ≤ taskSize ->
      loadWord m (a + k) w = loadWord m' (b + k) w := by
    intro k w hkw
    exact loadWord_congr (load_part h hkw)
  have hchar : forall {k n : Nat}, k + n ≤ taskSize ->
      (fun i : Fin n => m (a + k + i)) = fun i : Fin n => m' (b + k + i) := by
    intro k n hkn
    funext i
    have hi := i.isLt
    have hone := load_part (k := k + i) (w := 1) h (by omega)
    simp only [load_succ, load_zero, List.cons.injEq, and_true] at hone
    rw [show a + k + i = a + (k + i) by omega, hone,
      show b + k + i = b + (k + i) by omega]
  apply TaskT.ext <;> simp only [taskAt]
  · exact hword (k := 0) (by decide)
  · exact hword (by decide)
  · exact hword (by decide)
  · exact hword (by decide)
  · exact hword (by decide)
  · exact hword (by decide)
  · exact hchar (by decide)
  · exact hchar (by decide)
  · exact hchar (by decide)
  · exact hword (by decide)
  · exact hword (by decide)
  · exact hword (by decide)
  · exact hword (by decide)
  · exact hword (by decide)

end Common
end NgxEpoll
