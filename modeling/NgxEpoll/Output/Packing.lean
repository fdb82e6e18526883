import NgxEpoll.Output.Senders

/-!
# What the senders take from a chain

The content of a chain of memory buffers and file buffers, what
`sysio_pack_chain_to_iovs` packs of it, and what `chain_write_update` leaves.
-/

namespace NgxEpoll
namespace Output

open Foundation
open NgxEpoll.Core

/-- The pointers of a buffer are in order, and it lies where memory or a file can. -/
structure BufferWf (b : Buffer) : Prop where
  mem_le : b.memory = true -> b.pos ≤ b.last
  mem_lt : b.memory = true -> b.last < 2 ^ 63
  mem_pos : b.memory = true -> b.pos ≠ b.last -> b.pos ≠ 0
  file_nonneg : b.memory = false -> 0 ≤ b.filePos
  file_le : b.memory = false -> b.filePos ≤ b.fileLast
  file_lt : b.memory = false -> b.fileLast < 2 ^ 63

def ChainWf (cl : List Buffer) : Prop :=
  forall b, b ∈ cl -> BufferWf b

def bufferBytes (m file : Mem) (b : Buffer) : List Byte :=
  if b.memory then load m b.pos (bufferSize b).toNat
  else load file b.filePos.toNat (bufferSize b).toNat

def content (m file : Mem) (cl : List Buffer) : List Byte :=
  cl.flatMap (bufferBytes m file)

/-- No memory buffer that is empty stands right before a file buffer, unless nothing
is to be sent from there on. -/
def Clean : List Buffer -> Prop
  | [] => True
  | b :: rest =>
      (b.memory = true -> bufferSize b = 0 ->
        (exists f, rest.head? = some f ∧ f.memory = false) -> chainEmpty rest = true) ∧
        Clean rest

def memLen : List Buffer -> Nat
  | [] => 0
  | b :: rest => if b.memory then (bufferSize b).toNat + memLen rest else 0

variable {m file : Mem} {b : Buffer} {cl rest : List Buffer}

@[simp] theorem content_nil : content m file [] = [] := rfl

theorem content_cons : content m file (b :: rest) =
    bufferBytes m file b ++ content m file rest :=
  rfl

theorem content_append (cl cl' : List Buffer) : content m file (cl ++ cl') =
    content m file cl ++ content m file cl' := by
  unfold content
  rw [List.flatMap_append]

@[simp] theorem bufferBytes_length :
    (bufferBytes m file b).length = (bufferSize b).toNat := by
  unfold bufferBytes
  split
  · rw [load_length]
  · rw [load_length]

theorem ChainWf.head (h : ChainWf (b :: rest)) : BufferWf b :=
  h b List.mem_cons_self

theorem ChainWf.tail (h : ChainWf (b :: rest)) : ChainWf rest :=
  fun b' hb' => h b' (List.mem_cons_of_mem _ hb')

theorem ChainWf.cons (hb : BufferWf b) (hrest : ChainWf rest) : ChainWf (b :: rest) := by
  intro b' hb'
  cases List.mem_cons.mp hb' with
  | inl heq =>
      rw [heq]
      exact hb
  | inr hmem => exact hrest b' hmem

theorem ChainWf.append {cl' : List Buffer} (h : ChainWf cl) (h' : ChainWf cl') :
    ChainWf (cl ++ cl') := by
  intro b hb
  cases List.mem_append.mp hb with
  | inl hmem => exact h b hmem
  | inr hmem => exact h' b hmem

theorem BufferWf.size (h : BufferWf b) :
    0 ≤ bufferSize b ∧ bufferSize b < 2 ^ 63 := by
  unfold bufferSize bufferInMemory
  cases hm : b.memory with
  | true =>
      have hle := h.mem_le hm
      have hlt := h.mem_lt hm
      simp only [if_true]
      omega
  | false =>
      have hnonneg := h.file_nonneg hm
      have hle := h.file_le hm
      have hlt := h.file_lt hm
      simp only [Bool.false_eq_true, if_false]
      omega

theorem BufferWf.cSize (h : BufferWf b) : cSize (bufferSize b) = (bufferSize b).toNat := by
  have hsize := h.size
  unfold Core.cSize
  rw [Int.emod_eq_of_lt hsize.1 (by omega)]

theorem bufferBytes_nil (h : bufferSize b ≤ 0) : bufferBytes m file b = [] := by
  apply List.eq_nil_of_length_eq_zero
  rw [bufferBytes_length]
  omega

theorem chainEmpty_iff : chainEmpty cl = true ↔ content m file cl = [] := by
  unfold chainEmpty content
  rw [List.all_eq_true, List.flatMap_eq_nil_iff]
  constructor
  · intro h b hb
    exact bufferBytes_nil (of_decide_eq_true (h b hb))
  · intro h b hb
    have hlen := congrArg List.length (h b hb)
    rw [bufferBytes_length, List.length_nil] at hlen
    exact decide_eq_true (by omega)

/-!
## A buffer that is sent in part
-/

def advance (b : Buffer) (k : Nat) : Buffer :=
  if b.memory then { b with pos := b.pos + k } else { b with filePos := b.filePos + k }

theorem advance_memory (b : Buffer) (k : Nat) : (advance b k).memory = b.memory := by
  unfold advance
  split
  · rfl
  · rfl

theorem advance_size (b : Buffer) (k : Nat) :
    bufferSize (advance b k) = bufferSize b - k := by
  unfold advance bufferSize bufferInMemory
  cases hm : b.memory with
  | true =>
      simp only [if_true]
      omega
  | false =>
      simp only [Bool.false_eq_true, if_false]
      omega

theorem advance_wf {k : Nat} (h : BufferWf b) (hk : (k : Int) ≤ bufferSize b) :
    BufferWf (advance b k) := by
  have hsize : bufferSize b =
      if b.memory then (b.last : Int) - b.pos else b.fileLast - b.filePos := rfl
  rw [hsize] at hk
  unfold advance
  cases hm : b.memory with
  | true =>
      rw [hm, if_pos rfl] at hk
      rw [if_pos rfl]
      have hle := h.mem_le hm
      constructor
      · intro _
        change b.pos + k ≤ b.last
        omega
      · intro _
        exact h.mem_lt hm
      · intro _ hne
        have hne' : b.pos + k ≠ b.last := hne
        change b.pos + k ≠ 0
        have hpos := h.mem_pos hm (by omega)
        omega
      · intro hfile
        cases hfile
      · intro hfile
        cases hfile
      · intro hfile
        cases hfile
  | false =>
      rw [hm, if_neg nofun] at hk
      rw [if_neg nofun]
      have hnonneg := h.file_nonneg hm
      constructor
      · intro hmem
        cases hmem
      · intro hmem
        cases hmem
      · intro hmem
        cases hmem
      · intro _
        change 0 ≤ b.filePos + k
        omega
      · intro _
        change b.filePos + k ≤ b.fileLast
        omega
      · intro _
        exact h.file_lt hm

theorem advance_bytes {k : Nat} (h : BufferWf b) (hk : (k : Int) ≤ bufferSize b) :
    bufferBytes m file b = (bufferBytes m file b).take k ++
      bufferBytes m file (advance b k) := by
  have hdrop : bufferBytes m file (advance b k) = (bufferBytes m file b).drop k := by
    have hsize := advance_size b k
    have hlen : (bufferSize b - k).toNat = (bufferSize b).toNat - k := by omega
    have hle : k ≤ (bufferSize b).toNat := by omega
    unfold bufferBytes
    rw [advance_memory, hsize, hlen]
    cases hm : b.memory with
    | true =>
        rw [if_pos rfl, if_pos rfl, load_drop _ _ _ _ hle]
        simp [advance, hm]
    | false =>
        have hnonneg := h.file_nonneg hm
        rw [if_neg nofun, if_neg nofun, load_drop _ _ _ _ hle]
        simp only [advance, hm, Bool.false_eq_true, if_false]
        rw [show (b.filePos + (k : Int)).toNat = b.filePos.toNat + k by omega]
  rw [hdrop, List.take_append_drop]

/-!
## `chain_write_update`
-/

theorem chainWriteUpdate_cons {k : Nat} (hk : k ≠ 0) (hb : BufferWf b) :
    chainWriteUpdate (b :: rest) k =
      if (k : Int) < bufferSize b then advance b k :: rest
      else chainWriteUpdate rest (k - (bufferSize b).toNat) := by
  have hsize := hb.size
  rw [chainWriteUpdate, if_neg hk, hb.cSize]
  dsimp only
  by_cases hlt : (k : Int) < bufferSize b
  · have hnat : k < (bufferSize b).toNat := by omega
    rw [if_pos hnat, if_pos hlt]
    unfold advance
    split
    · rfl
    · rfl
  · have hnat : ¬ k < (bufferSize b).toNat := by omega
    rw [if_neg hnat, if_neg hlt]

theorem chainWriteUpdate_zero (cl : List Buffer) : chainWriteUpdate cl 0 = cl := by
  cases cl with
  | nil => rfl
  | cons b rest => simp [chainWriteUpdate]

theorem chainWriteUpdate_content (hwf : ChainWf cl) (k : Nat) :
    content m file (chainWriteUpdate cl k) = (content m file cl).drop k := by
  induction cl generalizing k with
  | nil => simp [chainWriteUpdate]
  | cons b rest ih =>
      have hb := hwf.head
      have hsize := hb.size
      by_cases hk : k = 0
      · rw [hk, chainWriteUpdate_zero, List.drop_zero]
      · rw [chainWriteUpdate_cons hk hb, content_cons]
        split
        · next hlt =>
          have hbytes := @advance_bytes m file b k hb (Int.le_of_lt hlt)
          have htake : ((bufferBytes m file b).take k).length = k := by
            rw [List.length_take, bufferBytes_length]
            omega
          rw [content_cons, hbytes, List.append_assoc, List.drop_append_of_le_length
            (Nat.le_of_eq htake.symm), List.drop_of_length_le (Nat.le_of_eq htake),
            List.nil_append]
        · next hge =>
          have hgone : (bufferBytes m file b).drop k = [] := by
            apply List.drop_of_length_le
            rw [bufferBytes_length]
            omega
          rw [ih hwf.tail, List.drop_append, hgone, bufferBytes_length, List.nil_append]

theorem chainWriteUpdate_wf (hwf : ChainWf cl) (k : Nat) :
    ChainWf (chainWriteUpdate cl k) := by
  induction cl generalizing k with
  | nil => exact hwf
  | cons b rest ih =>
      by_cases hk : k = 0
      · rw [hk, chainWriteUpdate_zero]
        exact hwf
      · rw [chainWriteUpdate_cons hk hwf.head]
        split
        · next hlt => exact ChainWf.cons (advance_wf hwf.head (Int.le_of_lt hlt)) hwf.tail
        · exact ih hwf.tail _

theorem chainWriteUpdate_length (cl : List Buffer) (k : Nat) :
    (chainWriteUpdate cl k).length ≤ cl.length := by
  induction cl generalizing k with
  | nil => exact Nat.le_refl _
  | cons b rest ih =>
      unfold chainWriteUpdate
      split
      · exact Nat.le_refl _
      · dsimp only
        split
        · split
          · exact Nat.le_refl _
          · exact Nat.le_refl _
        · exact Nat.le_succ_of_le (ih _)

theorem clean_cons_of_content (h : bufferSize b ≠ 0) : Clean (b :: rest) ↔ Clean rest := by
  constructor
  · exact fun hclean => hclean.2
  · exact fun hclean => ⟨fun _ hzero => absurd hzero h, hclean⟩

theorem clean_cons_of_file (h : b.memory = false) : Clean (b :: rest) ↔ Clean rest := by
  constructor
  · exact fun hclean => hclean.2
  · exact fun hclean => ⟨fun hmem => absurd (h.symm.trans hmem) nofun, hclean⟩

theorem clean_cons_of_memory (h : memLen rest ≠ 0) : Clean (b :: rest) ↔ Clean rest := by
  constructor
  · exact fun hclean => hclean.2
  · intro hclean
    refine ⟨?_, hclean⟩
    intro _ _ hfile
    obtain ⟨f, hhead, hf⟩ := hfile
    cases rest with
    | nil => cases hhead
    | cons f' rest =>
        cases hhead
        unfold memLen at h
        rw [hf] at h
        exact absurd rfl h

/-- What `writev` sends lies in the memory buffers at the front, so that no empty
buffer before a file buffer is passed. -/
theorem chainWriteUpdate_clean (hwf : ChainWf cl) {k : Nat} (hk : k ≤ memLen cl) :
    Clean (chainWriteUpdate cl k) ↔ Clean cl := by
  induction cl generalizing k with
  | nil => exact Iff.rfl
  | cons b rest ih =>
      have hb := hwf.head
      have hsize := hb.size
      by_cases hzero : k = 0
      · rw [hzero, chainWriteUpdate_zero]
      · have hlen : k ≤ (bufferSize b).toNat + memLen rest := by
          unfold memLen at hk
          split at hk
          · exact hk
          · omega
        rw [chainWriteUpdate_cons hzero hb]
        split
        · next hlt =>
          rw [clean_cons_of_content (by rw [advance_size]; omega),
            clean_cons_of_content (by omega)]
        · next hge =>
          rw [ih hwf.tail (by omega)]
          by_cases hempty : bufferSize b = 0
          · exact (clean_cons_of_memory (by omega)).symm
          · exact (clean_cons_of_content hempty).symm

/-- Where the memory buffers at the front are empty and there is content behind
them, the chain is not clean. -/
theorem not_clean_of_memLen (hb : b.memory = true) (hlen : memLen (b :: rest) = 0)
    (hwf : ChainWf (b :: rest)) (hcontent : content m file (b :: rest) ≠ []) :
    ¬ Clean (b :: rest) := by
  induction rest generalizing b with
  | nil =>
      have hsize := hwf.head.size
      unfold memLen at hlen
      rw [hb, if_pos rfl] at hlen
      apply absurd _ hcontent
      rw [content_cons, bufferBytes_nil (by omega), content_nil, List.append_nil]
  | cons b' rest ih =>
      have hsize := hwf.head.size
      unfold memLen at hlen
      rw [hb, if_pos rfl] at hlen
      have hrest : content m file (b' :: rest) ≠ [] := by
        rw [content_cons, bufferBytes_nil (by omega), List.nil_append] at hcontent
        exact hcontent
      intro hclean
      cases hb' : b'.memory with
      | true => exact ih hb' (by omega) hwf.tail hrest hclean.2
      | false =>
          have hempty := hclean.1 hb (by omega) ⟨b', rfl, hb'⟩
          exact hrest (chainEmpty_iff.mp hempty)

theorem memLen_le_content (cl : List Buffer) : memLen cl ≤ (content m file cl).length := by
  induction cl with
  | nil => exact Nat.le_refl _
  | cons b rest ih =>
      rw [content_cons, List.length_append, bufferBytes_length]
      unfold memLen
      split
      · omega
      · omega

theorem clean_of_empty (h : content m file cl = []) : Clean cl := by
  induction cl with
  | nil => trivial
  | cons b rest ih =>
      have hrest : content m file rest = [] := by
        rw [content_cons] at h
        exact (List.append_eq_nil_iff.mp h).2
      exact ⟨fun _ _ _ => chainEmpty_iff.mpr hrest, ih hrest⟩

/-!
## `sysio_pack_chain_to_iovs`
-/

/-- `last_pos` is where the last pair ends, or null. -/
def EndsAt (iovs : List (Nat × Nat)) (lastPos : Nat) : Prop :=
  lastPos ≠ 0 -> exists front base len, iovs = front ++ [(base, len)] ∧ base + len = lastPos

theorem iovBytes_concat (iovs : List (Nat × Nat)) (base len : Nat) :
    iovBytes m (iovs ++ [(base, len)]) = iovBytes m iovs ++ load m base len := by
  simp [iovBytes]

theorem growLast_concat (iovs : List (Nat × Nat)) (base len k : Nat) :
    growLast (iovs ++ [(base, len)]) k = iovs ++ [(base, len + k)] := by
  simp [growLast]

/-- A buffer that begins where the last pair ends makes it longer; another one makes a
new pair. -/
theorem packOne_bytes {iovs : List (Nat × Nat)} {lastPos pos k : Nat}
    (hends : EndsAt iovs lastPos) (hpos : pos ≠ 0) :
    let iovs' := if lastPos ≠ pos then iovs ++ [(pos, k)] else growLast iovs k
    iovBytes m iovs' = iovBytes m iovs ++ load m pos k ∧ EndsAt iovs' (pos + k) ∧
      iovs' ≠ [] := by
  dsimp only
  split
  · refine ⟨iovBytes_concat iovs pos k, ?_, by simp⟩
    intro _
    exact ⟨iovs, pos, k, rfl, rfl⟩
  · next heq =>
    have hlast : lastPos = pos := of_not_not heq
    subst hlast
    obtain ⟨front, base, len, hiovs, hend⟩ := hends hpos
    subst hiovs
    rw [growLast_concat]
    refine ⟨?_, ?_, by simp⟩
    · rw [iovBytes_concat, iovBytes_concat, load_add, ← hend, List.append_assoc]
    · intro _
      exact ⟨front, base, len + k, rfl, by omega⟩

structure Packed (m file : Mem) (limit : Nat) (cl : List Buffer) (iovs : List (Nat × Nat))
    (lastSize : Nat) (r : List (Nat × Nat) × Nat) : Prop where
  le : lastSize ≤ r.2
  memLen_le : r.2 - lastSize ≤ memLen cl
  bytes : iovBytes m r.1 = iovBytes m iovs ++ (content m file cl).take (r.2 - lastSize)
  nonempty : iovs ≠ [] -> r.1 ≠ []
  found : iovs.length < dfsIovsMax -> lastSize < limit -> memLen cl ≠ 0 -> r.1 ≠ []
  grown : iovs = [] -> r.1 ≠ [] -> lastSize < r.2

theorem packed_refl {limit lastSize : Nat} {iovs : List (Nat × Nat)}
    (h : iovs.length < dfsIovsMax -> lastSize < limit -> memLen cl = 0) :
    Packed m file limit cl iovs lastSize (iovs, lastSize) where
  le := Nat.le_refl _
  memLen_le := by
    rw [Nat.sub_self]
    exact Nat.zero_le _
  bytes := by rw [Nat.sub_self, List.take_zero, List.append_nil]
  nonempty := id
  found := fun hlen hlt hmem => absurd (h hlen hlt) hmem
  grown := fun hnil hne => absurd hnil hne

section Buffers

variable {limit lastSize k : Nat} {iovs iovs' : List (Nat × Nat)}
  {r : List (Nat × Nat) × Nat}

theorem memLen_cons_of_memory (hmemory : b.memory = true) :
    memLen (b :: rest) = (bufferSize b).toNat + memLen rest := by
  rw [memLen, if_pos hmemory]

theorem Packed.skip (h : Packed m file limit rest iovs lastSize r)
    (hmemory : b.memory = true) (hempty : bufferSize b ≤ 0) :
    Packed m file limit (b :: rest) iovs lastSize r := by
  have hlen : memLen (b :: rest) = memLen rest := by
    rw [memLen_cons_of_memory hmemory, Int.toNat_of_nonpos hempty, Nat.zero_add]
  have hbytes : content m file (b :: rest) = content m file rest := by
    rw [content_cons, bufferBytes_nil hempty, List.nil_append]
  constructor
  · exact h.le
  · rw [hlen]
    exact h.memLen_le
  · rw [hbytes]
    exact h.bytes
  · exact h.nonempty
  · rw [hlen]
    exact h.found
  · exact h.grown

/-- `k` bytes of a memory buffer are packed: all of them, or the last ones that are
packed at all. -/
theorem Packed.buffer (h : Packed m file limit rest iovs' (lastSize + k) r)
    (hmemory : b.memory = true) (hkpos : 0 < k) (hkle : k ≤ (bufferSize b).toNat)
    (hbytes : iovBytes m iovs' = iovBytes m iovs ++ load m b.pos k) (hne : iovs' ≠ [])
    (hlast : k = (bufferSize b).toNat ∨ r.2 = lastSize + k) :
    Packed m file limit (b :: rest) iovs lastSize r := by
  have hle := h.le
  have hmemLen := h.memLen_le
  have hlen : memLen (b :: rest) = (bufferSize b).toNat + memLen rest :=
    memLen_cons_of_memory hmemory
  have hload : load m b.pos k = (bufferBytes m file b).take k := by
    unfold bufferBytes
    rw [if_pos hmemory, load_take _ _ _ _ hkle]
  constructor
  · omega
  · omega
  · rw [h.bytes, hbytes, List.append_assoc, content_cons, hload]
    congr 1
    cases hlast with
    | inl hall =>
        have hlenb : (bufferBytes m file b).length = k := by
          rw [bufferBytes_length, hall]
        have hsub : r.2 - lastSize = k + (r.2 - (lastSize + k)) := by omega
        rw [List.take_of_length_le (Nat.le_of_eq hlenb), hsub, ← hlenb,
          List.take_length_add_append]
    | inr hstop =>
        rw [hstop, Nat.sub_self, List.take_zero, List.append_nil, Nat.add_sub_cancel_left,
          List.take_append_of_le_length]
        rw [bufferBytes_length]
        exact hkle
  · exact fun _ => h.nonempty hne
  · exact fun _ _ _ => h.nonempty hne
  · intro _ _
    omega

end Buffers

theorem packFrom_full {limit lastSize lastPos : Nat} (cl : List Buffer)
    (iovs : List (Nat × Nat)) (hfull : limit ≤ lastSize) :
    packFrom limit cl iovs lastSize lastPos = (iovs, lastSize) := by
  cases cl with
  | nil => rfl
  | cons b rest =>
      unfold packFrom
      rw [if_neg (by omega)]

theorem packFrom_packed {limit : Nat} (hwf : ChainWf cl) {iovs : List (Nat × Nat)}
    {lastSize lastPos : Nat} (hends : EndsAt iovs lastPos) :
    Packed m file limit cl iovs lastSize (packFrom limit cl iovs lastSize lastPos) := by
  induction cl generalizing iovs lastSize lastPos with
  | nil => exact packed_refl (fun _ _ => rfl)
  | cons b rest ih =>
      have hb := hwf.head
      unfold packFrom
      split
      · next hroom =>
        split
        · next hfile =>
          apply packed_refl
          intro _ _
          unfold memLen
          rw [hfile]
          rfl
        · next hmem =>
          have hmemory : b.memory = true := by
            rw [Bool.not_eq_false] at hmem
            exact hmem
          split
          · next hempty => exact (ih hwf.tail hends).skip hmemory hempty
          · next hfull =>
            dsimp only
            have hpos : b.pos ≠ 0 := by
              apply hb.mem_pos hmemory
              intro heq
              apply hfull
              unfold bufferSize bufferInMemory
              rw [if_pos hmemory, heq]
              omega
            generalize hk : (if limit < lastSize + (bufferSize b).toNat then
              limit - lastSize else (bufferSize b).toNat) = k
            have hkle : 0 < k ∧ k ≤ (bufferSize b).toNat ∧
                (k = (bufferSize b).toNat ∨ limit ≤ lastSize + k) := by
              split at hk
              · omega
              · omega
            have hone := packOne_bytes (m := m) (k := k) hends hpos
            dsimp only at hone
            generalize (if lastPos ≠ b.pos then iovs ++ [(b.pos, k)]
              else growLast iovs k) = iovs' at hone ⊢
            have hrest := @ih hwf.tail iovs' (lastSize + k) (b.pos + k) hone.2.1
            apply hrest.buffer hmemory hkle.1 hkle.2.1 hone.1 hone.2.2
            cases hkle.2.2 with
            | inl hall => exact Or.inl hall
            | inr hcut =>
                right
                rw [packFrom_full rest iovs' hcut]
      · next hroom =>
        apply packed_refl
        intro hcount hlt
        exact absurd ⟨hcount, hlt⟩ hroom

theorem sysioPackChainToIovs_packed (hwf : ChainWf cl) (lastSize limit : Nat) :
    Packed m file limit cl [] lastSize (sysioPackChainToIovs cl lastSize limit) :=
  packFrom_packed hwf (fun h => absurd rfl h)

end Output
end NgxEpoll
