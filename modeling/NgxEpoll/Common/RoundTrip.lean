import NgxEpoll.Common.Frame

/-!
# Round trips through one buffer

Tasks are encoded one after another into an empty buffer and decoded again
until the buffer is empty.  The sizes go through `int` parameters, so the law
holds exactly as long as the free space survives that conversion.
-/

namespace NgxEpoll
namespace Common

open Foundation
open NgxEpoll.Core

/-- Encode tasks one after another; the result lists the bytes each one
produced.  Any code but `NGX_OK` ends it. -/
def taskEncodeAll : Mem -> Buffer -> List TaskT ->
    Option (Mem × Buffer × List Nat)
  | m, b, [] => some (m, b, [])
  | m, b, t :: ts =>
      let r := taskEncode m t b
      if r.1 = ngxOk then
        match taskEncodeAll r.2.1 r.2.2 ts with
        | none => none
        | some (m', b', ns) => some (m', b', (r.2.2.last - b.last) :: ns)
      else none

/-- Decode until the buffer is empty, each frame into the next receiving task;
the result lists the tasks and the bytes each one consumed. -/
def taskDecodeAll (m : Mem) : Buffer -> List TaskT ->
    Option (List (TaskT × Nat))
  | b, [] => if bufferSize b ≤ 0 then some [] else none
  | b, r :: rs =>
      if bufferSize b ≤ 0 then some []
      else
        let d := taskDecode m b r
        if d.1 = ngxOk then
          match taskDecodeAll m d.2.1 rs with
          | none => none
          | some ds => some ((d.2.2, d.2.1.pos - b.pos) :: ds)
        else none

/-- A decoded task carries what the sent task carried, and the `opq` of the
task it was decoded into. -/
structure SameTask (m m' : Mem) (sent receiver decoded : TaskT) : Prop where
  cmd : decoded.cmd = sent.cmd
  ret : decoded.ret = sent.ret
  seq : decoded.seq = sent.seq
  masterNodeid : decoded.masterNodeid = sent.masterNodeid
  key : decoded.key = sent.key
  user : decoded.user = sent.user
  group : decoded.group = sent.group
  permission : decoded.permission = sent.permission
  dataLen : decoded.dataLen = sent.dataLen
  payload : decoded.payload m' = sent.payload m
  opq : decoded.opq = receiver.opq

/-- The decoded list matches the sent one, task by task, and each task consumed
the bytes it produced. -/
def Delivered (m m' : Mem) :
    List TaskT -> List TaskT -> List Nat -> List (TaskT × Nat) -> Prop
  | [], [], [], [] => True
  | t :: ts, r :: rs, n :: ns, d :: ds =>
      SameTask m m' t r d.1 ∧ d.2 = n ∧ Delivered m m' ts rs ns ds
  | _, _, _, _ => False

def RoundTrips (m : Mem) (b : Buffer) (ts rs : List TaskT) : Prop :=
  exists m' b' ns ds,
    taskEncodeAll m b ts = some (m', b', ns) ∧
      taskDecodeAll m' b' rs = some ds ∧ Delivered m m' ts rs ns ds

def framesSize (ts : List TaskT) : Int :=
  (ts.map TaskT.frameSize).sum

def framesOf (m : Mem) (ts : List TaskT) : List Byte :=
  ts.flatMap fun t => taskFrame t (t.payload m)

/-- The payload of a task lies outside the free space of a buffer, as `memcpy`
demands. -/
def PayloadOutside (b : Buffer) (t : TaskT) : Prop :=
  Apart t.data.toNat t.dataLen.toInt.toNat b.last (b.endPtr - b.last)

@[simp] theorem framesSize_nil : framesSize [] = 0 := rfl

@[simp] theorem framesSize_cons (t : TaskT) (ts : List TaskT) :
    framesSize (t :: ts) = t.frameSize + framesSize ts := by
  simp [framesSize]

@[simp] theorem framesOf_nil (m : Mem) : framesOf m [] = [] := rfl

@[simp] theorem framesOf_cons (m : Mem) (t : TaskT) (ts : List TaskT) :
    framesOf m (t :: ts) = taskFrame t (t.payload m) ++ framesOf m ts := by
  simp [framesOf]

theorem framesOf_append (m : Mem) (ts us : List TaskT) :
    framesOf m (ts ++ us) = framesOf m ts ++ framesOf m us := by
  simp [framesOf]

theorem frameSize_ge {t : TaskT} (h : 0 ≤ t.dataLen.toInt) :
    344 ≤ t.frameSize := by
  simp only [TaskT.frameSize, headerSize, intSize, taskSize]
  omega

theorem framesSize_nonneg {ts : List TaskT}
    (h : forall t, t ∈ ts -> 0 ≤ t.dataLen.toInt) : 0 ≤ framesSize ts := by
  induction ts with
  | nil => simp
  | cons t ts ih =>
      have hhead := frameSize_ge (h t (by simp))
      have htail := ih (fun t' ht' => h t' (by simp [ht']))
      rw [framesSize_cons]
      omega

theorem frameSize_le_framesSize {ts : List TaskT}
    (h : forall t, t ∈ ts -> 0 ≤ t.dataLen.toInt) {t : TaskT} (ht : t ∈ ts) :
    t.frameSize ≤ framesSize ts := by
  induction ts with
  | nil => cases ht
  | cons t' ts ih =>
      have hhead := frameSize_ge (h t' (by simp))
      have htail : 0 ≤ framesSize ts := framesSize_nonneg
        (fun t ht => h t (by simp [ht]))
      rw [framesSize_cons]
      cases ht with
      | head => omega
      | tail _ ht =>
          have := ih (fun t ht => h t (by simp [ht])) ht
          omega

theorem framesOf_length {m : Mem} {ts : List TaskT}
    (h : forall t, t ∈ ts -> t.Sendable) :
    ((framesOf m ts).length : Int) = framesSize ts := by
  induction ts with
  | nil => rfl
  | cons t ts ih =>
      have hhead := (h t (by simp)).frame_length m
      have htail := ih (fun t' ht' => h t' (by simp [ht']))
      rw [framesOf_cons, framesSize_cons, List.length_append]
      omega

/-!
## Encoding
-/

section Encoding

variable {m : Mem} {b : Buffer} {t : TaskT} {ts : List TaskT}

theorem wf_append (hb : b.Wf) {n : Nat} (hn : (n : Int) ≤ bufferFreeSize b) :
    ({ b with last := b.last + n } : Buffer).Wf where
  memory := hb.memory
  start_le_pos := hb.start_le_pos
  pos_le_last := by
    have := hb.pos_le_last
    simp only
    omega
  last_le_end := by
    rw [hb.freeSize_eq] at hn
    have := hb.last_le_end
    simp only
    omega
  end_lt := hb.end_lt

theorem payload_store_of_outside {n : Nat} {bs : List Byte}
    (hlast : b.last ≤ n) (hend : n + bs.length ≤ b.endPtr)
    (ht : PayloadOutside b t) :
    t.payload (store m n bs) = t.payload m := by
  apply load_store_of_apart
  rcases ht with h | h | h | h
  · exact Or.inl h
  · exact Or.inr (Or.inl (by omega))
  · exact Or.inr (Or.inr (Or.inl (by omega)))
  · exact Or.inr (Or.inr (Or.inr (by omega)))

theorem PayloadOutside.mono {b' : Buffer} (h : PayloadOutside b t)
    (hlast : b.last ≤ b'.last) (hend : b'.endPtr = b.endPtr) :
    PayloadOutside b' t := by
  unfold PayloadOutside Apart at *
  omega

theorem PayloadOutside.apart_header (h : PayloadOutside b t)
    (hroom : b.last + headerSize ≤ b.endPtr) :
    Apart t.data.toNat t.dataLen.toInt.toNat b.last headerSize := by
  generalize headerSize = size at *
  unfold PayloadOutside Apart at *
  omega

theorem framesOf_congr {m m' : Mem}
    (h : forall t, t ∈ ts -> t.payload m' = t.payload m) :
    framesOf m' ts = framesOf m ts := by
  induction ts with
  | nil => simp
  | cons t ts ih =>
      rw [framesOf_cons, framesOf_cons, h t (by simp),
        ih (fun t' ht' => h t' (by simp [ht']))]

/-- When the total fits the converted free space, the tasks are encoded one
behind the other. -/
theorem taskEncodeAll_eq (hb : b.Wf)
    (hnonneg : forall t, t ∈ ts -> 0 ≤ t.dataLen.toInt)
    (hfit : framesSize ts ≤ cInt (bufferFreeSize b))
    (hout : forall t, t ∈ ts -> PayloadOutside b t) :
    taskEncodeAll m b ts =
      some (store m b.last (framesOf m ts),
        { b with last := b.last + (framesOf m ts).length },
        ts.map fun t => t.frameSize.toNat) := by
  induction ts generalizing m b with
  | nil =>
      simp [taskEncodeAll]
  | cons t ts ih =>
      have hge := frameSize_ge (hnonneg t (by simp))
      have hrest : 0 ≤ framesSize ts := framesSize_nonneg
        (fun t' ht' => hnonneg t' (by simp [ht']))
      have hint := cInt_lt (bufferFreeSize b)
      have hfree : 0 ≤ bufferFreeSize b := by
        rw [hb.freeSize_eq]
        omega
      have hle := cInt_le_self hfree
      rw [framesSize_cons] at hfit
      have ht : t.Sendable :=
        ⟨hnonneg t (by simp), by omega⟩
      have hframe := ht.frame_length m
      have hroom : b.last + (taskFrame t (t.payload m)).length ≤ b.endPtr := by
        have hnat := hb.freeSize_eq
        have := hb.last_le_end
        omega
      have hapart := (hout t (by simp)).apart_header
        (by rw [taskFrame_length] at hroom; omega)
      have hstep := taskEncode_ok (m := m) hb ht (by omega) hapart
      generalize hf : taskFrame t (t.payload m) = frame at *
      have hb' : ({ b with last := b.last + frame.length } : Buffer).Wf :=
        wf_append hb (by omega)
      have hfree' :
          bufferFreeSize ({ b with last := b.last + frame.length } : Buffer) =
            bufferFreeSize b - t.frameSize := by
        simp only [bufferFreeSize]
        omega
      have hkeep : forall t', t' ∈ ts ->
          t'.payload (store m b.last frame) = t'.payload m := by
        intro t' ht'
        exact payload_store_of_outside (Nat.le_refl _) hroom
          (hout t' (by simp [ht']))
      have hih := ih (m := store m b.last frame)
        (b := { b with last := b.last + frame.length }) hb'
        (fun t' ht' => hnonneg t' (by simp [ht']))
        (by rw [hfree', cInt_sub (by omega) (by omega)]; omega)
        (fun t' ht' => (hout t' (by simp [ht'])).mono
          (Nat.le_add_right _ _) rfl)
      rw [framesOf_congr hkeep] at hih
      simp only [taskEncodeAll]
      rw [hstep]
      simp only [if_pos]
      rw [hih]
      simp only [framesOf_cons, hf, List.map_cons, store_append,
        List.length_append]
      rw [show b.last + frame.length - b.last = t.frameSize.toNat by omega,
        Nat.add_assoc]

/-- A successful `task_encode` found the frame size within the converted free
space. -/
theorem frameSize_le_of_taskEncode_ok (hnonneg : 0 ≤ t.dataLen.toInt)
    (hok : (taskEncode m t b).1 = ngxOk) :
    t.frameSize ≤ cInt (bufferFreeSize b) ∧
      (taskEncode m t b).2.2 =
        { b with last := b.last + t.frameSize.toNat } := by
  have hlt := BitVec.toInt_lt (x := t.dataLen)
  have hge := frameSize_ge hnonneg
  have hneed :
      cInt (intSize + taskSize + intSize + t.dataLen.toInt) = t.frameSize ∨
        cInt (intSize + taskSize + intSize + t.dataLen.toInt) < 0 := by
    simp only [TaskT.frameSize, headerSize, intSize, taskSize, cInt_eq]
    simp only [Nat.reduceSub] at hlt
    omega
  unfold taskEncode at hok ⊢
  simp only at hok ⊢
  by_cases hfree : bufferFreeSize b ≤ 0
  · rw [if_pos hfree] at hok
    exact absurd hok ngxAgain_ne_ngxOk
  · rw [if_neg hfree] at hok ⊢
    simp only [taskEncode2str] at hok ⊢
    by_cases hshort : cInt (bufferFreeSize b) <
        cInt (intSize + taskSize + intSize + t.dataLen.toInt)
    · rw [if_pos hshort, if_pos (show taskEagin ≤ 0 by decide)] at hok
      exact absurd hok ngxAgain_ne_ngxOk
    · rw [if_neg hshort] at hok ⊢
      rcases hneed with hneed | hneed
      · rw [hneed] at hshort hok ⊢
        rw [if_neg (by omega)]
        exact ⟨by omega, rfl⟩
      · rw [if_pos (by simp only; omega)] at hok
        simp only [ngxOk] at hok
        omega

theorem framesSize_le_of_taskEncodeAll
    (hnonneg : forall t, t ∈ ts -> 0 ≤ t.dataLen.toInt)
    {r : Mem × Buffer × List Nat} (h : taskEncodeAll m b ts = some r) :
    ts = [] ∨ framesSize ts ≤ cInt (bufferFreeSize b) := by
  induction ts generalizing m b r with
  | nil => exact Or.inl rfl
  | cons t ts ih =>
      right
      simp only [taskEncodeAll] at h
      by_cases hok : (taskEncode m t b).1 = ngxOk
      · rw [if_pos hok] at h
        have hge := frameSize_ge (hnonneg t (by simp))
        obtain ⟨hle, hbuf⟩ :=
          frameSize_le_of_taskEncode_ok (hnonneg t (by simp)) hok
        have hint := cInt_lt (bufferFreeSize b)
        cases htail : taskEncodeAll (taskEncode m t b).2.1
            (taskEncode m t b).2.2 ts with
        | none =>
            rw [htail] at h
            cases h
        | some r' =>
            have hrec := ih (fun t' ht' => hnonneg t' (by simp [ht'])) htail
            rw [framesSize_cons]
            rcases hrec with hnil | hrest
            · rw [hnil, framesSize_nil]
              omega
            · have hfree : bufferFreeSize (taskEncode m t b).2.2 =
                  bufferFreeSize b - t.frameSize := by
                rw [hbuf]
                simp only [bufferFreeSize]
                omega
              rw [hfree, cInt_sub (by omega) (by omega)] at hrest
              omega
      · rw [if_neg hok] at h
        cases h

end Encoding

/-!
## Decoding
-/

theorem content_advance (m : Mem) (b : Buffer) (n : Nat)
    (hn : n ≤ b.last - b.pos) :
    ({ b with pos := b.pos + n } : Buffer).content m =
      (b.content m).drop n := by
  rw [Buffer.content, Buffer.content, load_drop _ _ _ _ hn]
  simp only
  rw [show b.last - (b.pos + n) = b.last - b.pos - n by omega]

theorem wf_advance {b : Buffer} (hb : b.Wf) {n : Nat}
    (hn : n ≤ b.last - b.pos) :
    ({ b with pos := b.pos + n } : Buffer).Wf where
  memory := hb.memory
  start_le_pos := by
    have := hb.start_le_pos
    simp only
    omega
  pos_le_last := by
    have := hb.pos_le_last
    simp only
    omega
  last_le_end := hb.last_le_end
  end_lt := hb.end_lt

/-- Decoding the frame of a task gives that task, with the payload where the
frame lies. -/
theorem taskDecode_taskFrame {m : Mem} {b : Buffer} {t r : TaskT}
    {payload rest : List Byte} (hb : b.Wf) (ht : t.Sendable)
    (hpayload : (payload.length : Int) = t.dataLen.toInt)
    (hcontent : b.content m = taskFrame t payload ++ rest)
    (hint : bufferSize b < 2 ^ 31) :
    taskDecode m b r =
      (ngxOk, { b with pos := b.pos + t.frameSize.toNat },
        { t with
          opq := r.opq
          data :=
            if 0 < t.dataLen.toInt then BitVec.ofNat 64 (b.pos + headerSize)
            else t.data }) := by
  have hframe : BeginsWithFrame (taskFrame t payload ++ rest) :=
    beginsWithFrame_taskFrame ht hpayload
  have hword : lengthWord (taskFrame t payload ++ rest) = t.frameSize :=
    lengthWord_taskFrame ht
  have hfit : t.frameSize ≤ bufferSize b := by
    rw [← hb.content_length_int m, hcontent, ← hword]
    exact hframe.2.2.1
  have hge := ht.headerSize_le
  rw [taskDecode_frame hb (by rw [hcontent]; exact hframe)
    (by rw [hcontent, hword, cInt_eq_self (by omega) hint]; exact hfit)]
  rw [hcontent, hword, structOf_taskFrame]

theorem load_payload_of_frame {m : Mem} {b : Buffer} {t : TaskT}
    {payload rest : List Byte} (hb : b.Wf)
    (hcontent : b.content m = taskFrame t payload ++ rest) :
    load m (BitVec.ofNat 64 (b.pos + headerSize)).toNat payload.length =
      payload := by
  have hlen := congrArg List.length hcontent
  rw [Buffer.content_length, List.length_append, taskFrame_length] at hlen
  have hlast := hb.last_le_end
  have hend := hb.end_lt
  have hpos := hb.pos_le_last
  have haddr : (BitVec.ofNat 64 (b.pos + headerSize)).toNat =
      b.pos + headerSize := by
    rw [BitVec.toNat_ofNat]
    apply Nat.mod_eq_of_lt
    omega
  have hload : load m b.pos (headerSize + payload.length) =
      taskFrame t payload := by
    have htake := congrArg (List.take (headerSize + payload.length)) hcontent
    rw [Buffer.content, load_take _ _ _ _ (by omega),
      List.take_append_of_le_length (by rw [taskFrame_length]),
      List.take_of_length_le (by rw [taskFrame_length])] at htake
    exact htake
  rw [load_add] at hload
  have hsplit : taskFrame t payload =
      (leBytes 4 (BitVec.ofInt 32 t.frameSize).toNat ++
        (t.image ++ leBytes 4 t.dataLen.toNat)) ++ payload := by
    simp [taskFrame]
  rw [hsplit] at hload
  rw [haddr]
  exact (List.append_inj hload
    (by simp [headerSize, intSize, taskSize])).2

theorem sameTask_of_frame {m m' : Mem} {b : Buffer} {t r : TaskT}
    {rest : List Byte} (hb : b.Wf) (ht : t.Sendable)
    (hcontent : b.content m' = taskFrame t (t.payload m) ++ rest) :
    SameTask m m' t r
      { t with
        opq := r.opq
        data :=
          if 0 < t.dataLen.toInt then BitVec.ofNat 64 (b.pos + headerSize)
          else t.data } where
  cmd := rfl
  ret := rfl
  seq := rfl
  masterNodeid := rfl
  key := rfl
  user := rfl
  group := rfl
  permission := rfl
  dataLen := rfl
  opq := rfl
  payload := by
    have hnonneg := ht.dataLen_nonneg
    by_cases hpos : 0 < t.dataLen.toInt
    · have hload := load_payload_of_frame hb hcontent
      rw [TaskT.payload_length] at hload
      simp only [TaskT.payload, if_pos hpos]
      exact hload
    · have hzero : t.dataLen.toInt = 0 := by omega
      simp [TaskT.payload, hzero]

theorem taskDecodeAll_eq {m m' : Mem} {b : Buffer} {ts rs : List TaskT}
    (hb : b.Wf) (hsend : forall t, t ∈ ts -> t.Sendable)
    (hlen : rs.length = ts.length)
    (hcontent : b.content m' = framesOf m ts) (hint : bufferSize b < 2 ^ 31) :
    exists ds, taskDecodeAll m' b rs = some ds ∧
      Delivered m m' ts rs (ts.map fun t => t.frameSize.toNat) ds := by
  induction ts generalizing b rs with
  | nil =>
      have hrs : rs = [] := List.length_eq_zero_iff.mp hlen
      have hsize : bufferSize b ≤ 0 := by
        rw [← hb.content_length_int m', hcontent]
        simp
      subst hrs
      exact ⟨[], by simp [taskDecodeAll, hsize], trivial⟩
  | cons t ts ih =>
      cases rs with
      | nil => cases hlen
      | cons r rs =>
          have ht := hsend t (by simp)
          have hge := ht.headerSize_le
          have hpayload : ((t.payload m).length : Int) = t.dataLen.toInt := by
            have := ht.dataLen_nonneg
            rw [TaskT.payload_length]
            omega
          have hframe := ht.frame_length m
          rw [framesOf_cons] at hcontent
          have htotal := congrArg List.length hcontent
          rw [Buffer.content_length, List.length_append] at htotal
          have hadv : t.frameSize.toNat ≤ b.last - b.pos := by omega
          have hdec := taskDecode_taskFrame (r := r) hb ht hpayload hcontent
            hint
          have hsize : ¬ bufferSize b ≤ 0 := by
            rw [hb.size_eq]
            simp only [headerSize, intSize, taskSize] at hge
            omega
          have hrest : ({ b with pos := b.pos + t.frameSize.toNat } :
              Buffer).content m' = framesOf m ts := by
            rw [content_advance m' b _ hadv, hcontent]
            exact List.drop_left' (by omega)
          have hsize' : bufferSize
              ({ b with pos := b.pos + t.frameSize.toNat } : Buffer) <
                2 ^ 31 := by
            rw [(wf_advance hb hadv).size_eq]
            rw [hb.size_eq] at hint
            simp only
            omega
          have hlen' : rs.length = ts.length := by simpa using hlen
          obtain ⟨ds, hds, hdel⟩ := ih (wf_advance hb hadv)
            (fun t' ht' => hsend t' (by simp [ht'])) hlen' hrest hsize'
          refine ⟨(_, t.frameSize.toNat) :: ds, ?_,
            sameTask_of_frame (r := r) hb ht hcontent, rfl, hdel⟩
          simp only [taskDecodeAll]
          rw [if_neg hsize, hdec]
          simp only [if_pos]
          rw [hds]
          simp

/-!
## The round trip
-/

/-- Tasks that fit a buffer survive the round trip through it if and only if
there are none or their total size is within the free space as the `int`
parameter of `task_encode2str` receives it. -/
theorem roundTrips_iff (m : Mem) (b : Buffer) (ts rs : List TaskT)
    (hb : b.Wf) (hempty : b.pos = b.last)
    (hnonneg : forall t, t ∈ ts -> 0 ≤ t.dataLen.toInt)
    (hout : forall t, t ∈ ts -> PayloadOutside b t)
    (hfit : framesSize ts ≤ bufferFreeSize b)
    (hlen : rs.length = ts.length) :
    RoundTrips m b ts rs ↔
      ts = [] ∨ framesSize ts ≤ cInt (bufferFreeSize b) := by
  constructor
  · rintro ⟨m', b', ns, ds, henc, _, _⟩
    exact framesSize_le_of_taskEncodeAll hnonneg henc
  · intro hcond
    rcases hcond with hnil | hint
    · subst hnil
      have hrs : rs = [] := List.length_eq_zero_iff.mp hlen
      subst hrs
      refine ⟨m, b, [], [], rfl, ?_, trivial⟩
      have hsize : bufferSize b ≤ 0 := by
        rw [hb.size_eq]
        omega
      simp [taskDecodeAll, hsize]
    · have hsend : forall t, t ∈ ts -> t.Sendable := by
        intro t ht
        refine ⟨hnonneg t ht, ?_⟩
        have hmem := frameSize_le_framesSize hnonneg ht
        have := cInt_lt (bufferFreeSize b)
        omega
      have hframes := framesOf_length (m := m) hsend
      have henc := taskEncodeAll_eq (m := m) hb hnonneg hint hout
      have hb' : ({ b with last := b.last + (framesOf m ts).length } :
          Buffer).Wf := wf_append hb (by omega)
      have hcontent : ({ b with last := b.last + (framesOf m ts).length } :
          Buffer).content (store m b.last (framesOf m ts)) =
            framesOf m ts := by
        simp only [Buffer.content, hempty, Nat.add_sub_cancel_left]
        exact load_store_self _ _ _
      have hsize : bufferSize ({ b with
          last := b.last + (framesOf m ts).length } : Buffer) < 2 ^ 31 := by
        rw [← hb'.content_length_int (store m b.last (framesOf m ts)),
          hcontent, hframes]
        have := cInt_lt (bufferFreeSize b)
        omega
      obtain ⟨ds, hds, hdel⟩ := taskDecodeAll_eq hb' hsend hlen hcontent hsize
      exact ⟨_, _, _, ds, henc, hds, hdel⟩

def threeByteTask : TaskT :=
  { taskNew with cmd := 16, dataLen := 3, data := 64 }

theorem roundTrips_threeByteTask :
    RoundTrips (fun _ => 7) (bufferCreate 4096 1024) [threeByteTask]
        [taskNew] ↔
      [threeByteTask] = [] ∨
        framesSize [threeByteTask] ≤
          cInt (bufferFreeSize (bufferCreate 4096 1024)) := by
  apply roundTrips_iff
  · exact bufferCreate_wf (by decide)
  · rfl
  · intro t ht
    rw [List.mem_singleton.mp ht]
    decide
  · intro t ht
    rw [List.mem_singleton.mp ht]
    exact Or.inr (Or.inr (Or.inl (by decide)))
  · decide
  · rfl

/-- The buffer that a `send_buff_len` of one gigabyte creates: its size is
`2 ^ 31`, which the `int` parameter turns into a negative number. -/
def gigabyteBuffer : Buffer :=
  bufferCreate 4096 (2 * 2 ^ 30)

theorem roundTrips_gigabyteBuffer_fails :
    gigabyteBuffer.Wf ∧ gigabyteBuffer.pos = gigabyteBuffer.last ∧
      0 ≤ taskNew.dataLen.toInt ∧ PayloadOutside gigabyteBuffer taskNew ∧
      framesSize [taskNew] ≤ bufferFreeSize gigabyteBuffer ∧
      ¬ RoundTrips (fun _ => 0) gigabyteBuffer [taskNew] [taskNew] := by
  refine ⟨bufferCreate_wf (by decide), rfl, by decide, Or.inl rfl, by decide,
    ?_⟩
  rintro ⟨m', b', ns, ds, henc, _, _⟩
  have hle := framesSize_le_of_taskEncodeAll
    (by
      intro t ht
      rw [List.mem_singleton.mp ht]
      decide) henc
  rcases hle with hnil | hle
  · cases hnil
  · exact absurd hle (by decide)

end Common
end NgxEpoll
