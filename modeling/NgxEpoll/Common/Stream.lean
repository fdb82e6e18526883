import NgxEpoll.Common.Frame
import NgxEpoll.Foundation.Framing

/-!
# Streams of frames

Which byte strings are whole frames, and what the first bytes of a stream
already say about its first frame.
-/

namespace NgxEpoll
namespace Common

open Foundation
open NgxEpoll.Core

def IsFrame (f : List Byte) : Prop :=
  BeginsWithFrame f ∧ lengthWord f = f.length

/-- However the stream goes on, it does not begin with a well-formed frame. -/
def Dead (bs : List Byte) : Prop :=
  forall ext, ¬ BeginsWithFrame (bs ++ ext)

variable {bs ext f g : List Byte}

theorem load_asMem_append (bs ext : List Byte) :
    load (asMem (bs ++ ext)) 0 bs.length = bs := by
  have h := load_asMem (bs ++ ext)
  rw [load_eq_append_iff (by simp)] at h
  exact h.1

theorem lengthWord_append (h : 4 ≤ bs.length) (ext : List Byte) :
    lengthWord (bs ++ ext) = lengthWord bs :=
  lengthWord_of_bytes (load_asMem_append bs ext) h

/-- Once the header is there, the stream begins with a frame as soon as it is
long enough. -/
theorem beginsWithFrame_append_iff (h : headerSize ≤ bs.length)
    (ext : List Byte) :
    BeginsWithFrame (bs ++ ext) ↔
      lengthWord bs = headerSize + (structOf bs).dataLen.toInt ∧
        0 ≤ (structOf bs).dataLen.toInt ∧
        lengthWord bs ≤ (bs.length + ext.length : Nat) ∧
        trailingWord bs = (structOf bs).dataLen.toInt := by
  have hload := load_asMem_append bs ext
  have hfour : 4 ≤ bs.length := by
    simp only [headerSize, intSize, taskSize] at h
    omega
  have hstruct : structOf (bs ++ ext) = structOf bs := by
    have := structOf_of_bytes hload h
    rwa [Nat.zero_add] at this
  have htrail : trailingWord (bs ++ ext) = trailingWord bs := by
    have := trailingWord_of_bytes hload h
    rwa [Nat.zero_add] at this
  unfold BeginsWithFrame
  rw [lengthWord_append hfour, hstruct, htrail, List.length_append]

theorem BeginsWithFrame.append (h : BeginsWithFrame bs) (ext : List Byte) :
    BeginsWithFrame (bs ++ ext) := by
  rw [beginsWithFrame_append_iff h.headerSize_le]
  obtain ⟨hword, hnonneg, hfit, htrail⟩ := h
  exact ⟨hword, hnonneg, by omega, htrail⟩

theorem Dead.append (h : Dead bs) (ext : List Byte) : Dead (bs ++ ext) := by
  intro more
  rw [List.append_assoc]
  exact h (ext ++ more)

theorem BeginsWithFrame.isFrame_take (h : BeginsWithFrame bs) :
    IsFrame (bs.take (lengthWord bs).toNat) ∧
      (bs.take (lengthWord bs).toNat).length = (lengthWord bs).toNat := by
  obtain ⟨hword, hnonneg, hfit, htrail⟩ := id h
  have hlen : (bs.take (lengthWord bs).toNat).length =
      (lengthWord bs).toNat := by
    rw [List.length_take]
    omega
  have hheader : headerSize ≤ (bs.take (lengthWord bs).toNat).length := by
    omega
  have hfour : 4 ≤ (bs.take (lengthWord bs).toNat).length := by
    simp only [headerSize, intSize, taskSize] at hheader
    omega
  have hsame : lengthWord (bs.take (lengthWord bs).toNat) = lengthWord bs := by
    have := lengthWord_append hfour (bs.drop (lengthWord bs).toNat)
    rw [List.take_append_drop] at this
    exact this.symm
  have hbegins := (beginsWithFrame_append_iff hheader
    (bs.drop (lengthWord bs).toNat)).mp (by rwa [List.take_append_drop])
  refine ⟨⟨?_, by rw [hsame, hlen]; omega⟩, hlen⟩
  rw [← List.append_nil (bs.take (lengthWord bs).toNat),
    beginsWithFrame_append_iff hheader]
  obtain ⟨hword', hnonneg', _, htrail'⟩ := hbegins
  exact ⟨hword', hnonneg', by rw [hsame]; omega, htrail'⟩

theorem isFrame_prefixFree : PrefixFree IsFrame := by
  rintro f g ⟨hbegins, hlen⟩ ⟨_, hlen'⟩ ⟨ext, rfl⟩
  have hfour : 4 ≤ f.length := by
    have := hbegins.headerSize_le
    simp only [headerSize, intSize, taskSize] at this
    omega
  rw [lengthWord_append hfour, hlen, List.length_append] at hlen'
  have hnil : ext = [] := List.length_eq_zero_iff.mp (by omega)
  rw [hnil, List.append_nil]

theorem IsFrame.not_prefix (hf : IsFrame f) (h : ¬ BeginsWithFrame bs) :
    ¬ f <+: bs := by
  rintro ⟨ext, rfl⟩
  exact h (hf.1.append ext)

/-- A length word that is not more than the bytes there, in front of no
well-formed frame, spoils the stream for good. -/
theorem dead_of_accepted (hfour : 4 ≤ bs.length)
    (hle : lengthWord bs ≤ bs.length) (h : ¬ BeginsWithFrame bs) :
    Dead bs := by
  intro ext hbegins
  have hheader : headerSize ≤ bs.length := by
    obtain ⟨hword, hnonneg, _, _⟩ := hbegins
    rw [lengthWord_append hfour] at hword
    omega
  obtain ⟨hword, hnonneg, _, htrail⟩ :=
    (beginsWithFrame_append_iff hheader ext).mp hbegins
  exact h ⟨hword, hnonneg, hle, htrail⟩

end Common
end NgxEpoll
