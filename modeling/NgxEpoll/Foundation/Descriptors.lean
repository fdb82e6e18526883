import Mathlib.Algebra.Order.Ring.Int
import Mathlib.Data.List.Perm.Basic

/-!
# Descriptors

What a kernel keeps of the descriptors of a process.  A program owns a list of
descriptors where these are the ones that are open, each once, and nothing was closed
that was not open.

## The kernel
-/

namespace NgxEpoll
namespace Foundation

/-- How a descriptor is picked: it is not open yet. -/
structure Fresh where
  pick : List Int -> Int
  fresh : forall opened, pick opened ∉ opened
  nonneg : forall opened, 0 ≤ pick opened

/-- The descriptors that are open, and those that were closed without being open. -/
structure Descriptors where
  opened : List Int
  strays : List Int
deriving DecidableEq

def noDescriptors : Descriptors where
  opened := []
  strays := []

def Descriptors.give (d : Descriptors) (f : Fresh) : Descriptors :=
  { d with opened := f.pick d.opened :: d.opened }

def Descriptors.close (d : Descriptors) (fd : Int) : Descriptors :=
  if fd ∈ d.opened then { d with opened := d.opened.erase fd }
  else { d with strays := fd :: d.strays }

/-!
## What a program owns
-/

structure Owned (d : Descriptors) (fds : List Int) : Prop where
  perm : d.opened.Perm fds
  nodup : d.opened.Nodup
  nonneg : forall fd, fd ∈ d.opened -> 0 ≤ fd
  strays : d.strays = []

theorem owned_none : Owned noDescriptors [] where
  perm := List.Perm.refl _
  nodup := List.nodup_nil
  nonneg := by
    intro fd hfd
    cases hfd
  strays := rfl

variable {d : Descriptors} {fds fds' : List Int} {fd : Int}

theorem Owned.congr (h : Owned d fds) (hperm : fds.Perm fds') : Owned d fds' :=
  { h with perm := h.perm.trans hperm }

theorem Owned.ne_neg (h : Owned d fds) (hfd : fd ∈ fds) : 0 ≤ fd :=
  h.nonneg fd (h.perm.mem_iff.mpr hfd)

theorem Owned.give (h : Owned d fds) (f : Fresh) :
    Owned (d.give f) (f.pick d.opened :: fds) where
  perm := h.perm.cons _
  nodup := List.nodup_cons.mpr ⟨f.fresh d.opened, h.nodup⟩
  nonneg := by
    intro fd hfd
    rcases List.mem_cons.mp hfd with rfl | hin
    · exact f.nonneg d.opened
    · exact h.nonneg fd hin
  strays := h.strays

theorem Owned.close (h : Owned d (fd :: fds)) : Owned (d.close fd) fds := by
  have hin : fd ∈ d.opened := h.perm.mem_iff.mpr List.mem_cons_self
  rw [Descriptors.close, if_pos hin]
  constructor
  case perm =>
    have herase := h.perm.erase fd
    rw [List.erase_cons_head] at herase
    exact herase
  case nodup => exact h.nodup.erase fd
  case nonneg =>
    intro fd' hfd
    exact h.nonneg fd' (List.mem_of_mem_erase hfd)
  case strays => exact h.strays

/-!
## A kernel that never gives a descriptor twice
-/

theorem le_foldr_max (fds : List Int) : forall fd, fd ∈ fds -> fd ≤ fds.foldr max 2 := by
  induction fds with
  | nil =>
      intro fd hfd
      cases hfd
  | cons x fds ih =>
      intro fd hfd
      rw [List.foldr_cons]
      rcases List.mem_cons.mp hfd with rfl | hin
      · exact le_max_left _ _
      · exact le_trans (ih fd hin) (le_max_right _ _)

theorem two_le_foldr_max (fds : List Int) : 2 ≤ fds.foldr max 2 := by
  induction fds with
  | nil => exact Int.le_refl 2
  | cons x fds ih => exact le_trans ih (le_max_right _ _)

def behindOpened : Fresh where
  pick opened := opened.foldr max 2 + 1
  fresh opened hin := by
    have hle := le_foldr_max opened _ hin
    omega
  nonneg opened := by
    have hle := two_le_foldr_max opened
    omega

end Foundation
end NgxEpoll
