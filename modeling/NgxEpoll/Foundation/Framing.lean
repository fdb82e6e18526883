import Mathlib.Data.List.Infix

/-!
# Cutting a stream into frames

Frames of which none is a proper prefix of another can be concatenated and
cut apart again in one way only.
-/

namespace NgxEpoll
namespace Foundation

variable {α : Type}

def PrefixFree (Frame : List α -> Prop) : Prop :=
  forall f g, Frame f -> Frame g -> f <+: g -> f = g

structure Cut (Frame : List α -> Prop) (fs : List (List α))
    (rest stream : List α) : Prop where
  frames : forall f, f ∈ fs -> Frame f
  stream : stream = fs.flatten ++ rest

variable {Frame : List α -> Prop} {fs gs : List (List α)}
  {rest rest' stream : List α}

theorem Cut.nil (stream : List α) : Cut Frame [] stream stream where
  frames := by simp
  stream := rfl

theorem Cut.append (h : Cut Frame fs rest stream) (ext : List α) :
    Cut Frame fs (rest ++ ext) (stream ++ ext) where
  frames := h.frames
  stream := by rw [h.stream, List.append_assoc]

theorem Cut.snoc {f : List α} (h : Cut Frame fs (f ++ rest) stream)
    (hf : Frame f) : Cut Frame (fs ++ [f]) rest stream where
  frames := by
    intro g hg
    rcases List.mem_append.mp hg with hg | hg
    · exact h.frames g hg
    · rw [List.mem_singleton.mp hg]
      exact hf
  stream := by
    rw [h.stream]
    simp

/-- A way to cut a stream is a front of every other way that leaves a rest
without a frame at its front. -/
theorem Cut.prefix_of_rest (hfree : PrefixFree Frame)
    (hf : Cut Frame fs rest stream) (hg : Cut Frame gs rest' stream)
    (hrest : forall f, Frame f -> ¬ f <+: rest') : fs <+: gs := by
  induction fs generalizing gs stream with
  | nil => exact List.nil_prefix
  | cons f fs ih =>
      have hframe := hf.frames f (by simp)
      have hfront : f <+: stream := by
        rw [hf.stream, List.flatten_cons, List.append_assoc]
        exact List.prefix_append _ _
      cases gs with
      | nil =>
          rw [hg.stream] at hfront
          exact absurd hfront (hrest f hframe)
      | cons g gs =>
          have hgframe := hg.frames g (by simp)
          have hgfront : g <+: stream := by
            rw [hg.stream, List.flatten_cons, List.append_assoc]
            exact List.prefix_append _ _
          have heq : f = g := by
            rcases List.prefix_or_prefix_of_prefix hfront hgfront with h | h
            · exact hfree f g hframe hgframe h
            · exact (hfree g f hgframe hframe h).symm
          subst heq
          have htails : fs.flatten ++ rest = gs.flatten ++ rest' := by
            have hboth := hf.stream.symm.trans hg.stream
            rw [List.flatten_cons, List.flatten_cons, List.append_assoc,
              List.append_assoc] at hboth
            exact List.append_cancel_left hboth
          have hfs : Cut Frame fs rest (gs.flatten ++ rest') :=
            ⟨fun f' hf' => hf.frames f' (by simp [hf']), htails.symm⟩
          have hgs : Cut Frame gs rest' (gs.flatten ++ rest') :=
            ⟨fun g' hg' => hg.frames g' (by simp [hg']), rfl⟩
          exact (List.prefix_cons_inj f).mpr (ih hfs hgs)

end Foundation
end NgxEpoll
