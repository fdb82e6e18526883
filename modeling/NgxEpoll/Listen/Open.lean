import NgxEpoll.Core.Types
import NgxEpoll.Foundation.Descriptors
import Mathlib.Data.List.Nodup

/-!
# Opening the listening sockets

`conn_listening_open` of `dfs_conn_listen.cpp`, called by `conn_listening_init`: at most
five passes over the array of listening sockets, as long as an address is in use.  A result
`none` stands for the message about `conn_nonblocking`, which has `%d` and `%V` and one
argument.

## The function
-/

namespace NgxEpoll
namespace Listening

open Foundation
open NgxEpoll.Core

/-- The fields of `listening_t` that `conn_listening_open` uses; `isListening` and `isOpen`
are `listen` and `open`. -/
structure ListeningT where
  fd : Int
  ignore : Bool
  inherited : Bool
  isListening : Bool
  isOpen : Bool
deriving DecidableEq

/-- What the calls for one socket return, but for `SO_RCVBUF` and `SO_SNDBUF`, whose results
are ignored.  `inUse` tells whether `errno` is `DFS_EADDRINUSE` behind the `close` that
follows a failing `bind`, and `logged` whether the log takes a message of `DFS_LOG_EMERG`. -/
structure Answers where
  socket : Option Fresh
  reuseaddr : Bool
  nonblocking : Bool
  logged : Bool
  bind : Bool
  inUse : Bool
  listen : Bool

abbrev World := Nat -> Nat -> Answers

/-- The array, with what the kernel has; `sleeps` counts the calls of `time_msleep`. -/
structure State where
  ls : List ListeningT
  fds : Descriptors
  sleeps : Nat

/-- How a turn of the inner loop ends: it stores a socket, it sets `failed`, or it leaves
the function. -/
inductive Outcome where
  | stored (ls : ListeningT)
  | failed
  | error

def ListeningT.skipped (ls : ListeningT) : Bool :=
  ls.ignore || ls.fd ≠ ngxInvalidFile || ls.inherited

/-- A turn for a socket that is not skipped. -/
def openSocket (a : Answers) (fds : Descriptors) (ls : ListeningT) :
    Option (Outcome × Descriptors) :=
  match a.socket with
  | none => some (Outcome.error, fds)
  | some kernel =>
      let s := kernel.pick fds.opened
      let fds := fds.give kernel
      if !a.reuseaddr then some (Outcome.error, fds.close s)
      else if !a.nonblocking then
        -- the message is put together before the jump to `error`
        if a.logged then none else some (Outcome.error, fds.close s)
      else if !a.bind then
        some (if a.inUse then Outcome.failed else Outcome.error, fds.close s)
      else if !a.listen then some (Outcome.error, fds.close s)
      else some (Outcome.stored { ls with isListening := true, isOpen := true, fd := s }, fds)

/-- What a pass leaves: the array, the kernel, `failed`, and whether the function goes on. -/
structure Pass where
  ls : List ListeningT
  fds : Descriptors
  failed : Bool
  goesOn : Bool

def openPass (w : Nat -> Answers) : Nat -> Descriptors -> Bool -> List ListeningT -> Option Pass
  | _, fds, failed, [] => some { ls := [], fds := fds, failed := failed, goesOn := true }
  | i, fds, failed, ls :: rest =>
      if ls.skipped then
        (openPass w (i + 1) fds failed rest).map fun r => { r with ls := ls :: r.ls }
      else
        (openSocket (w i) fds ls).bind fun turn =>
          match turn with
          | (Outcome.stored ls', fds) =>
              (openPass w (i + 1) fds failed rest).map fun r => { r with ls := ls' :: r.ls }
          | (Outcome.failed, fds) =>
              (openPass w (i + 1) fds true rest).map fun r => { r with ls := ls :: r.ls }
          | (Outcome.error, fds) =>
              some { ls := ls :: rest, fds := fds, failed := failed, goesOn := false }

def openTries (w : World) : Nat -> State -> Option (Int × State)
  | 0, s => some (ngxError, s)
  | tries + 1, s =>
      (openPass (w (tries + 1)) 0 s.fds false s.ls).bind fun r =>
        let s := { s with ls := r.ls, fds := r.fds }
        if !r.goesOn then some (ngxError, s)
        else if !r.failed then some (ngxOk, s)
        else openTries w tries { s with sleeps := s.sleeps + 1 }

def connListeningOpen (w : World) (ls : List ListeningT) (fds : Descriptors) :
    Option (Int × State) :=
  openTries w 5 { ls := ls, fds := fds, sleeps := 0 }

/-!
## One socket
-/

inductive Kind where
  | opens
  | busy
  | refused
  | mislogged
deriving DecidableEq

def Answers.kind (a : Answers) : Kind :=
  match a.socket with
  | none => Kind.refused
  | some _ =>
      if !a.reuseaddr then Kind.refused
      else if !a.nonblocking then if a.logged then Kind.mislogged else Kind.refused
      else if !a.bind then if a.inUse then Kind.busy else Kind.refused
      else if !a.listen then Kind.refused
      else Kind.opens

/-- The message with too few arguments is asked for only where `conn_nonblocking` fails and
the log takes `DFS_LOG_EMERG`. -/
theorem kind_mislogged {a : Answers} (h : a.kind = Kind.mislogged) :
    a.nonblocking = false ∧ a.logged = true := by
  unfold Answers.kind at h
  split at h
  next => cases h
  next =>
    split at h
    next => cases h
    next =>
      split at h
      next hblock =>
        split at h
        next hlogged =>
          rw [Bool.not_eq_true'] at hblock
          exact ⟨hblock, hlogged⟩
        next => cases h
      next =>
        split at h
        next => split at h <;> cases h
        next => split at h <;> cases h

def fdOf (ls : ListeningT) : List Int :=
  if ls.fd = ngxInvalidFile then [] else [ls.fd]

def fdsOf (ls : List ListeningT) : List Int :=
  ls.flatMap fdOf

/-- A socket is as it was, or it was not skipped and has been opened. -/
def Changed (ls ls' : ListeningT) : Prop :=
  ls' = ls ∨ (ls.skipped = false ∧ 0 ≤ ls'.fd ∧
    ls' = { ls with isListening := true, isOpen := true, fd := ls'.fd })

variable {fds : Descriptors} {others : List Int} {ls : ListeningT} {a : Answers}

theorem fdOf_unskipped (h : ls.skipped = false) : fdOf ls = [] := by
  unfold ListeningT.skipped at h
  simp only [Bool.or_eq_false_iff, decide_eq_false_iff_not, not_not] at h
  exact if_pos h.1.2

theorem fdOf_nonneg {fd : Int} (h : 0 ≤ fd) (ls : ListeningT) :
    fdOf { ls with isListening := true, isOpen := true, fd := fd } = [fd] := by
  refine if_neg ?_
  show fd ≠ ngxInvalidFile
  have hinvalid : ngxInvalidFile = -1 := rfl
  omega

theorem skipped_nonneg {fd : Int} (h : 0 ≤ fd) (ls : ListeningT) :
    ({ ls with isListening := true, isOpen := true, fd := fd } : ListeningT).skipped = true := by
  have hinvalid : ngxInvalidFile = -1 := rfl
  unfold ListeningT.skipped
  have hne : fd ≠ ngxInvalidFile := by omega
  simp [hne]

theorem openSocket_cases (h : Owned fds others) (a : Answers) (ls : ListeningT) :
    (a.kind = Kind.mislogged ∧ openSocket a fds ls = none) ∨
    (exists fd fds', a.kind = Kind.opens ∧ 0 ≤ fd ∧
      openSocket a fds ls =
        some (Outcome.stored { ls with isListening := true, isOpen := true, fd := fd }, fds') ∧
      Owned fds' (fd :: others)) ∨
    (exists fds', a.kind = Kind.busy ∧ openSocket a fds ls = some (Outcome.failed, fds') ∧
      Owned fds' others) ∨
    (exists fds', a.kind = Kind.refused ∧ openSocket a fds ls = some (Outcome.error, fds') ∧
      Owned fds' others) := by
  unfold openSocket Answers.kind
  cases hsocket : a.socket with
  | none => exact Or.inr (Or.inr (Or.inr ⟨fds, rfl, rfl, h⟩))
  | some kernel =>
      have hclosed := (h.give kernel).close
      dsimp only
      cases a.reuseaddr with
      | false => exact Or.inr (Or.inr (Or.inr ⟨_, rfl, rfl, hclosed⟩))
      | true =>
          cases a.nonblocking with
          | false =>
              cases a.logged with
              | false => exact Or.inr (Or.inr (Or.inr ⟨_, rfl, rfl, hclosed⟩))
              | true => exact Or.inl ⟨rfl, rfl⟩
          | true =>
              cases a.bind with
              | false =>
                  cases a.inUse with
                  | false => exact Or.inr (Or.inr (Or.inr ⟨_, rfl, rfl, hclosed⟩))
                  | true => exact Or.inr (Or.inr (Or.inl ⟨_, rfl, rfl, hclosed⟩))
              | true =>
                  cases a.listen with
                  | false => exact Or.inr (Or.inr (Or.inr ⟨_, rfl, rfl, hclosed⟩))
                  | true =>
                      exact Or.inr (Or.inl
                        ⟨_, _, rfl, kernel.nonneg fds.opened, rfl, h.give kernel⟩)

/-!
## One pass
-/

structure Passes (w : Nat -> Answers) (i : Nat) (failed : Bool) (ls : List ListeningT)
    (others : List Int) (r : Pass) : Prop where
  owned : Owned r.fds (fdsOf r.ls ++ others)
  changed : List.Forall₂ Changed ls r.ls
  goesOn : r.goesOn = true -> forall k l, ls[k]? = some l -> l.skipped = false ->
    (w (i + k)).kind = Kind.opens ∨ (w (i + k)).kind = Kind.busy
  leaves : r.goesOn = false -> exists k l, ls[k]? = some l ∧ l.skipped = false ∧
    (w (i + k)).kind = Kind.refused
  failed : r.goesOn = true -> (r.failed = true ↔ failed = true ∨
    exists k l, ls[k]? = some l ∧ l.skipped = false ∧ (w (i + k)).kind = Kind.busy)
  skips : r.goesOn = true -> forall k l l', ls[k]? = some l -> r.ls[k]? = some l' ->
    (l'.skipped = true ↔ l.skipped = true ∨ (w (i + k)).kind = Kind.opens)
  stops : r.goesOn = false -> exists l, l ∈ r.ls ∧ l.skipped = false

variable {w : Nat -> Answers} {i : Nat} {failed failed' : Bool} {rest : List ListeningT}
  {l l' : ListeningT} {r : Pass}

theorem Passes.cons (h : Passes w (i + 1) failed' rest (fdOf l' ++ others) r)
    (hchanged : Changed l l')
    (hgoes : l.skipped = false -> (w i).kind = Kind.opens ∨ (w i).kind = Kind.busy)
    (hskips : l'.skipped = true ↔ l.skipped = true ∨ (w i).kind = Kind.opens)
    (hfailed : failed' = true ↔
      failed = true ∨ (l.skipped = false ∧ (w i).kind = Kind.busy)) :
    Passes w i failed (l :: rest) others { r with ls := l' :: r.ls } := by
  have hindex : forall k, i + 1 + k = i + (k + 1) := fun k => by omega
  constructor
  case owned =>
    refine h.owned.congr ?_
    show (fdsOf r.ls ++ (fdOf l' ++ others)).Perm (fdOf l' ++ fdsOf r.ls ++ others)
    rw [← List.append_assoc]
    exact List.perm_append_comm.append_right others
  case changed => exact List.Forall₂.cons hchanged h.changed
  case goesOn =>
    intro hon k x hx hskipped
    cases k with
    | zero =>
        cases hx
        exact hgoes hskipped
    | succ k =>
        rw [← hindex]
        exact h.goesOn hon k x hx hskipped
  case leaves =>
    intro hoff
    rcases h.leaves hoff with ⟨k, x, hx, hskipped, hrefused⟩
    exact ⟨k + 1, x, hx, hskipped, hindex k ▸ hrefused⟩
  case failed =>
    intro hon
    rw [show ({ r with ls := l' :: r.ls } : Pass).failed = r.failed from rfl, h.failed hon,
      hfailed]
    constructor
    · rintro ((hf | ⟨hl, hbusy⟩) | ⟨k, x, hx, hskipped, hbusy⟩)
      · exact Or.inl hf
      · exact Or.inr ⟨0, l, rfl, hl, hbusy⟩
      · exact Or.inr ⟨k + 1, x, hx, hskipped, hindex k ▸ hbusy⟩
    · rintro (hf | ⟨k, x, hx, hskipped, hbusy⟩)
      · exact Or.inl (Or.inl hf)
      · cases k with
        | zero =>
            cases hx
            exact Or.inl (Or.inr ⟨hskipped, hbusy⟩)
        | succ k => exact Or.inr ⟨k, x, hx, hskipped, hindex k ▸ hbusy⟩
  case skips =>
    intro hon k x x' hx hx'
    cases k with
    | zero =>
        cases hx
        cases hx'
        exact hskips
    | succ k =>
        rw [← hindex]
        exact h.skips hon k x x' hx hx'
  case stops =>
    intro hoff
    rcases h.stops hoff with ⟨x, hx, hskipped⟩
    exact ⟨x, List.mem_cons_of_mem l' hx, hskipped⟩

theorem changed_refl (ls : List ListeningT) : List.Forall₂ Changed ls ls :=
  List.forall₂_same.mpr fun _ _ => Or.inl rfl

theorem Passes.leave (howned : Owned fds (fdsOf rest ++ others)) (hskipped : l.skipped = false)
    (hrefused : (w i).kind = Kind.refused) :
    Passes w i failed (l :: rest) others
      { ls := l :: rest, fds := fds, failed := failed, goesOn := false } := by
  constructor
  case owned =>
    show Owned fds (fdOf l ++ fdsOf rest ++ others)
    rw [fdOf_unskipped hskipped]
    exact howned
  case changed => exact changed_refl (l :: rest)
  case goesOn =>
    intro hon
    cases hon
  case leaves => exact fun _ => ⟨0, l, rfl, hskipped, hrefused⟩
  case failed =>
    intro hon
    cases hon
  case skips =>
    intro hon
    cases hon
  case stops => exact fun _ => ⟨l, List.mem_cons_self, hskipped⟩

/-- The message with too few arguments is asked for in the pass. -/
def Mislogs (w : Nat -> Answers) (i : Nat) (ls : List ListeningT) : Prop :=
  exists k l, ls[k]? = some l ∧ l.skipped = false ∧ (w (i + k)).kind = Kind.mislogged

theorem Mislogs.cons (h : Mislogs w (i + 1) rest) (l : ListeningT) : Mislogs w i (l :: rest) := by
  rcases h with ⟨k, x, hx, hskipped, hkind⟩
  have hindex : i + 1 + k = i + (k + 1) := by omega
  exact ⟨k + 1, x, hx, hskipped, hindex ▸ hkind⟩

theorem passes_nil (w : Nat -> Answers) (i : Nat) (failed : Bool)
    (howned : Owned fds (fdsOf [] ++ others)) :
    Passes w i failed [] others { ls := [], fds := fds, failed := failed, goesOn := true } := by
  constructor
  case owned => exact howned
  case changed => exact List.Forall₂.nil
  case goesOn =>
    intro _ k l hl
    cases hl
  case leaves =>
    intro hoff
    cases hoff
  case failed =>
    intro _
    refine ⟨Or.inl, ?_⟩
    rintro (hf | ⟨k, l, hl, -⟩)
    · exact hf
    · cases hl
  case skips =>
    intro _ k l l' hl
    cases hl
  case stops =>
    intro hoff
    cases hoff

/-- A turn that does not leave the function, and the rest of the pass. -/
theorem passes_rest {o : Option Pass}
    (h : (o = none ∧ Mislogs w (i + 1) rest) ∨
      exists r, o = some r ∧ Passes w (i + 1) failed' rest (fdOf l' ++ others) r)
    (hchanged : Changed l l')
    (hgoes : l.skipped = false -> (w i).kind = Kind.opens ∨ (w i).kind = Kind.busy)
    (hskips : l'.skipped = true ↔ l.skipped = true ∨ (w i).kind = Kind.opens)
    (hfailed : failed' = true ↔
      failed = true ∨ (l.skipped = false ∧ (w i).kind = Kind.busy)) :
    (o.map (fun r => { r with ls := l' :: r.ls }) = none ∧ Mislogs w i (l :: rest)) ∨
      exists r, o.map (fun r => { r with ls := l' :: r.ls }) = some r ∧
        Passes w i failed (l :: rest) others r := by
  rcases h with ⟨hnone, hmis⟩ | ⟨r, hrest, hpasses⟩
  · rw [hnone]
    exact Or.inl ⟨rfl, hmis.cons l⟩
  · rw [hrest]
    exact Or.inr ⟨_, rfl, hpasses.cons hchanged hgoes hskips hfailed⟩

theorem openPass_passes (w : Nat -> Answers) (ls : List ListeningT) :
    forall (i : Nat) {fds : Descriptors} (failed : Bool) {others : List Int},
      Owned fds (fdsOf ls ++ others) ->
        (openPass w i fds failed ls = none ∧ Mislogs w i ls) ∨
          exists r, openPass w i fds failed ls = some r ∧ Passes w i failed ls others r := by
  induction ls with
  | nil => exact fun i _ failed _ howned => Or.inr ⟨_, rfl, passes_nil w i failed howned⟩
  | cons l rest ih =>
      intro i fds failed others howned
      have hsplit : Owned fds (fdsOf rest ++ (fdOf l ++ others)) := by
        refine howned.congr ?_
        show (fdOf l ++ fdsOf rest ++ others).Perm (fdsOf rest ++ (fdOf l ++ others))
        rw [← List.append_assoc]
        exact List.perm_append_comm.append_right others
      unfold openPass
      by_cases hskipped : l.skipped = true
      · rw [if_pos hskipped]
        refine passes_rest (ih (i + 1) failed hsplit) (Or.inl rfl) ?_ ?_ ?_
        · intro hnot
          rw [hskipped] at hnot
          cases hnot
        · exact ⟨Or.inl, fun _ => hskipped⟩
        · refine ⟨Or.inl, ?_⟩
          rintro (hf | ⟨hnot, -⟩)
          · exact hf
          · rw [hskipped] at hnot
            cases hnot
      · rw [if_neg hskipped]
        rw [Bool.not_eq_true] at hskipped
        rw [fdOf_unskipped hskipped, List.nil_append] at hsplit
        rcases openSocket_cases hsplit (w i) l with
          ⟨hkind, hturn⟩ | ⟨fd, fds', hkind, hfd, hturn, hown⟩ | ⟨fds', hkind, hturn, hown⟩ |
          ⟨fds', hkind, hturn, hown⟩
        all_goals rw [hturn]
        · exact Or.inl ⟨rfl, 0, l, rfl, hskipped, hkind⟩
        · rw [Option.bind_some]
          dsimp only
          have hown' : Owned fds' (fdsOf rest ++ (fdOf { l with
              isListening := true, isOpen := true, fd := fd } ++ others)) := by
            rw [fdOf_nonneg hfd]
            exact hown.congr List.perm_middle.symm
          refine passes_rest (ih (i + 1) failed hown') (Or.inr ⟨hskipped, hfd, rfl⟩) ?_ ?_ ?_
          · exact fun _ => Or.inl hkind
          · exact ⟨fun _ => Or.inr hkind, fun _ => skipped_nonneg hfd l⟩
          · refine ⟨Or.inl, ?_⟩
            rintro (hf | ⟨-, hbusy⟩)
            · exact hf
            · rw [hkind] at hbusy
              cases hbusy
        · rw [Option.bind_some]
          dsimp only
          have hown' : Owned fds' (fdsOf rest ++ (fdOf l ++ others)) := by
            rw [fdOf_unskipped hskipped]
            exact hown
          refine passes_rest (ih (i + 1) true hown') (Or.inl rfl) ?_ ?_ ?_
          · exact fun _ => Or.inr hkind
          · refine ⟨Or.inl, ?_⟩
            rintro (hs | hopens)
            · exact hs
            · rw [hkind] at hopens
              cases hopens
          · exact ⟨fun _ => Or.inr ⟨hskipped, hkind⟩, fun _ => rfl⟩
        · exact Or.inr ⟨_, rfl, Passes.leave hown hskipped hkind⟩

/-!
## All passes
-/

/-- One of the last `tries` passes opens socket `i`, and before it its address is in use. -/
def Frees (w : World) (i : Nat) : Nat -> Prop
  | 0 => False
  | tries + 1 => (w (tries + 1) i).kind = Kind.opens ∨
      ((w (tries + 1) i).kind = Kind.busy ∧ Frees w i tries)

theorem Changed.trans {l l' l'' : ListeningT} (h : Changed l l') (h' : Changed l' l'') :
    Changed l l'' := by
  rcases h with rfl | ⟨hskipped, hfd, heq⟩
  · exact h'
  · rcases h' with rfl | ⟨hskipped', -, -⟩
    · exact Or.inr ⟨hskipped, hfd, heq⟩
    · rw [heq, skipped_nonneg hfd l] at hskipped'
      cases hskipped'

theorem changed_trans {ls ls' ls'' : List ListeningT} (h : List.Forall₂ Changed ls ls')
    (h' : List.Forall₂ Changed ls' ls'') : List.Forall₂ Changed ls ls'' := by
  induction h generalizing ls'' with
  | nil => exact h'
  | cons hl _ ih =>
      cases h' with
      | cons hl' hrest' => exact List.Forall₂.cons (hl.trans hl') (ih hrest')

structure Tried (w : World) (tries : Nat) (s : State) (others : List Int) (r : Int × State) :
    Prop where
  owned : Owned r.2.fds (fdsOf r.2.ls ++ others)
  changed : List.Forall₂ Changed s.ls r.2.ls
  code : r.1 = ngxOk ∨ r.1 = ngxError
  ok : r.1 = ngxOk ↔ forall k l, s.ls[k]? = some l -> l.skipped = false -> Frees w k tries
  all : r.1 = ngxOk ↔ forall l, l ∈ r.2.ls -> l.skipped = true
  sleeps : r.2.sleeps ≤ s.sleeps + tries

theorem ngxError_ne_ngxOk : ngxError ≠ ngxOk := by
  decide

section Tries

variable {w : World} {tries : Nat} {s : State} {r : Pass}

theorem Passes.index {w : Nat -> Answers} {ls : List ListeningT}
    (h : Passes w 0 false ls others r) {k : Nat} : k < ls.length ↔ k < r.ls.length := by
  rw [h.changed.length_eq]

theorem Passes.stays {w : Nat -> Answers} {ls : List ListeningT} {k : Nat} {l : ListeningT}
    (h : Passes w 0 false ls others r) (hon : r.goesOn = true) (hl : ls[k]? = some l)
    (hskipped : l.skipped = false) (hbusy : (w k).kind = Kind.busy) :
    exists l', r.ls[k]? = some l' ∧ l'.skipped = false := by
  have hlt := h.index.mp (List.getElem?_eq_some_iff.mp hl).1
  have hk := List.getElem?_eq_getElem hlt
  have hskips := h.skips hon k l _ hl hk
  rw [Nat.zero_add] at hskips
  refine ⟨_, hk, ?_⟩
  rw [← Bool.not_eq_true, hskips, hskipped, hbusy]
  rintro (hs | hopens)
  · cases hs
  · cases hopens

theorem Passes.error (h : Passes (w (tries + 1)) 0 false s.ls others r)
    (hoff : r.goesOn = false) :
    Tried w (tries + 1) s others (ngxError, { s with ls := r.ls, fds := r.fds }) := by
  obtain ⟨k, l, hl, hskipped, hrefused⟩ := h.leaves hoff
  rw [Nat.zero_add] at hrefused
  constructor
  case owned => exact h.owned
  case changed => exact h.changed
  case code => exact Or.inr rfl
  case ok =>
    refine ⟨fun hok => absurd hok ngxError_ne_ngxOk, fun hall => ?_⟩
    rcases hall k l hl hskipped with hopens | ⟨hbusy, -⟩
    · rw [hrefused] at hopens
      cases hopens
    · rw [hrefused] at hbusy
      cases hbusy
  case all =>
    refine ⟨fun hok => absurd hok ngxError_ne_ngxOk, fun hall => ?_⟩
    rcases h.stops hoff with ⟨l', hl', hnot⟩
    have hskipped' := hall l' hl'
    rw [hnot] at hskipped'
    cases hskipped'
  case sleeps => exact Nat.le_add_right _ _

theorem Passes.ok (h : Passes (w (tries + 1)) 0 false s.ls others r) (hon : r.goesOn = true)
    (hf : r.failed = false) :
    Tried w (tries + 1) s others (ngxOk, { s with ls := r.ls, fds := r.fds }) := by
  have hopens : forall k l, s.ls[k]? = some l -> l.skipped = false ->
      (w (tries + 1) k).kind = Kind.opens := by
    intro k l hl hskipped
    rcases h.goesOn hon k l hl hskipped with hkind | hkind
    · exact Nat.zero_add k ▸ hkind
    · have hbusy := (h.failed hon).mpr (Or.inr ⟨k, l, hl, hskipped, hkind⟩)
      rw [hf] at hbusy
      cases hbusy
  constructor
  case owned => exact h.owned
  case changed => exact h.changed
  case code => exact Or.inl rfl
  case ok =>
    exact ⟨fun _ k l hl hskipped => Or.inl (hopens k l hl hskipped), fun _ => rfl⟩
  case all =>
    refine ⟨fun _ l' hl' => ?_, fun _ => rfl⟩
    rcases List.mem_iff_getElem?.mp hl' with ⟨k, hk⟩
    obtain ⟨l, hl⟩ : exists l, s.ls[k]? = some l :=
      ⟨_, List.getElem?_eq_getElem (h.index.mpr (List.getElem?_eq_some_iff.mp hk).1)⟩
    refine (h.skips hon k l l' hl hk).mpr ?_
    rw [Nat.zero_add]
    cases hskipped : l.skipped with
    | true => exact Or.inl rfl
    | false => exact Or.inr (hopens k l hl hskipped)
  case sleeps => exact Nat.le_add_right _ _

theorem Passes.again (h : Passes (w (tries + 1)) 0 false s.ls others r) (hon : r.goesOn = true)
    {u : Int × State}
    (htried : Tried w tries { ls := r.ls, fds := r.fds, sleeps := s.sleeps + 1 } others u) :
    Tried w (tries + 1) s others u := by
  constructor
  case owned => exact htried.owned
  case changed => exact changed_trans h.changed htried.changed
  case code => exact htried.code
  case ok =>
    refine htried.ok.trans ⟨fun hall k l hl hskipped => ?_,
      fun hall k l' hl' hskipped' => ?_⟩
    · have hkinds := h.goesOn hon k l hl hskipped
      rw [Nat.zero_add] at hkinds
      rcases hkinds with hkind | hkind
      · exact Or.inl hkind
      · rcases h.stays hon hl hskipped hkind with ⟨l', hl', hskipped'⟩
        exact Or.inr ⟨hkind, hall k l' hl' hskipped'⟩
    · have hk := List.getElem?_eq_getElem (h.index.mpr (List.getElem?_eq_some_iff.mp hl').1)
      have hnot := mt (h.skips hon k _ l' hk hl').mpr (hskipped' ▸ Bool.false_ne_true)
      rw [not_or, Bool.not_eq_true, Nat.zero_add] at hnot
      rcases hall k _ hk hnot.1 with hopens | ⟨-, hfrees⟩
      · exact absurd hopens hnot.2
      · exact hfrees
  case all => exact htried.all
  case sleeps =>
    have hsleeps := htried.sleeps
    dsimp only at hsleeps
    omega

end Tries

theorem Passes.left {w : Nat -> Answers} {ls : List ListeningT} (h : Passes w 0 false ls others r)
    {k : Nat} {l : ListeningT} (hl : r.ls[k]? = some l) (hskipped : l.skipped = false) :
    ls[k]? = some l := by
  have hlt := (List.getElem?_eq_some_iff.mp hl).1
  have hk := List.getElem?_eq_getElem (h.index.mpr hlt)
  have hchanged := (List.forall₂_iff_get.mp h.changed).2 k (h.index.mpr hlt) hlt
  rw [List.get_eq_getElem, List.get_eq_getElem, (List.getElem?_eq_some_iff.mp hl).2] at hchanged
  rcases hchanged with heq | ⟨-, hfd, heq⟩
  · rw [heq]
    exact hk
  · rw [heq, skipped_nonneg hfd] at hskipped
    cases hskipped

/-- The induction is on the passes that are left; where none is left, a socket has failed. -/
theorem openTries_tried (w : World) (tries : Nat) :
    forall {s : State} {others : List Int}, Owned s.fds (fdsOf s.ls ++ others) ->
      (tries = 0 -> exists l, l ∈ s.ls ∧ l.skipped = false) ->
        (openTries w tries s = none ∧ exists t, 0 < t ∧ t ≤ tries ∧ Mislogs (w t) 0 s.ls) ∨
          exists r, openTries w tries s = some r ∧ Tried w tries s others r := by
  induction tries with
  | zero =>
      intro s others howned hsome
      rcases hsome rfl with ⟨l, hl, hskipped⟩
      refine Or.inr ⟨_, rfl, ?_⟩
      constructor
      case owned => exact howned
      case changed => exact changed_refl s.ls
      case code => exact Or.inr rfl
      case ok =>
        refine ⟨fun hok => absurd hok ngxError_ne_ngxOk, fun hall => ?_⟩
        rcases List.mem_iff_getElem?.mp hl with ⟨k, hk⟩
        exact (hall k l hk hskipped).elim
      case all =>
        refine ⟨fun hok => absurd hok ngxError_ne_ngxOk, fun hall => ?_⟩
        have hnot := hall l hl
        rw [hskipped] at hnot
        cases hnot
      case sleeps => exact Nat.le_refl _
  | succ tries ih =>
      intro s others howned _
      unfold openTries
      rcases openPass_passes (w (tries + 1)) s.ls 0 false howned with ⟨hnone, hmis⟩ |
        ⟨r, hsome, hpass⟩
      · rw [hnone]
        exact Or.inl ⟨rfl, tries + 1, Nat.succ_pos _, Nat.le_refl _, hmis⟩
      rw [hsome, Option.bind_some]
      dsimp only
      cases hon : r.goesOn with
      | false => exact Or.inr ⟨_, rfl, hpass.error hon⟩
      | true =>
          cases hf : r.failed with
          | false => exact Or.inr ⟨_, rfl, hpass.ok hon hf⟩
          | true =>
              have hleft : tries = 0 -> exists l, l ∈ r.ls ∧ l.skipped = false := by
                intro _
                rcases (hpass.failed hon).mp hf with hfalse | ⟨k, l, hl, hskipped, hbusy⟩
                · cases hfalse
                · rw [Nat.zero_add] at hbusy
                  rcases hpass.stays hon hl hskipped hbusy with ⟨l', hl', hskipped'⟩
                  exact ⟨l', List.mem_of_getElem? hl', hskipped'⟩
              have hrest := @ih { ls := r.ls, fds := r.fds, sleeps := s.sleeps + 1 } others
                hpass.owned hleft
              rcases hrest with ⟨hnone, t, ht, hle, k, l, hl, hskipped, hkind⟩ |
                ⟨u, hu, htried⟩
              · exact Or.inl ⟨hnone, t, ht, Nat.le_succ_of_le hle, k, l,
                  hpass.left hl hskipped, hskipped, hkind⟩
              · exact Or.inr ⟨u, hu, hpass.again hon htried⟩

/-!
## The call
-/

/-- Unless the message about `conn_nonblocking` is asked for: the descriptors that
`conn_listening_open` leaves open are those in its array, a socket is as it was or has been
opened, and the result is `NGX_OK` exactly where every socket that was to be opened is opened
in one of the five passes with its address in use before, and that is where none is left. -/
theorem listening_opened (w : World) (ls : List ListeningT) (fds : Descriptors)
    (others : List Int) (h : Owned fds (fdsOf ls ++ others)) :
    (connListeningOpen w ls fds = none -> exists tries k l, 0 < tries ∧ tries ≤ 5 ∧
      ls[k]? = some l ∧ l.skipped = false ∧
      (w tries k).nonblocking = false ∧ (w tries k).logged = true) ∧
    forall r, connListeningOpen w ls fds = some r ->
      Owned r.2.fds (fdsOf r.2.ls ++ others) ∧ List.Forall₂ Changed ls r.2.ls ∧
      (r.1 = ngxOk ∨ r.1 = ngxError) ∧
      (r.1 = ngxOk ↔
        forall k l, ls[k]? = some l -> l.skipped = false -> Frees w k 5) ∧
      (r.1 = ngxOk ↔ forall l, l ∈ r.2.ls -> l.skipped = true) ∧ r.2.sleeps ≤ 5 := by
  rcases @openTries_tried w 5 { ls := ls, fds := fds, sleeps := 0 } others h
    (fun hzero => by cases hzero) with
    ⟨hnone, t, ht, hle, k, l, hl, hskipped, hkind⟩ | ⟨r, hsome, htried⟩
  · rw [Nat.zero_add] at hkind
    constructor
    · exact fun _ => ⟨t, k, l, ht, hle, hl, hskipped, kind_mislogged hkind⟩
    · intro r hr
      rw [connListeningOpen, hnone] at hr
      cases hr
  · constructor
    · intro hnone
      rw [connListeningOpen, hsome] at hnone
      cases hnone
    · intro u hu
      rw [connListeningOpen, hsome] at hu
      cases hu
      exact ⟨htried.owned, htried.changed, htried.code, htried.ok, htried.all,
        (Nat.zero_add 5) ▸ htried.sleeps⟩

def closedSocket : ListeningT where
  fd := ngxInvalidFile
  ignore := false
  inherited := false
  isListening := false
  isOpen := false

def usedOnce : World := fun tries i =>
  { socket := some behindOpened
    reuseaddr := true
    nonblocking := true
    logged := false
    bind := decide (i = 0 ∨ tries < 5)
    inUse := true
    listen := true }

theorem listening_opened_second :
    exists r, connListeningOpen usedOnce [closedSocket, closedSocket] noDescriptors = some r ∧
      r.1 = ngxOk ∧ r.2.ls.map ListeningT.fd = [3, 4] ∧
      Owned r.2.fds (fdsOf r.2.ls ++ []) := by
  have hresult : (connListeningOpen usedOnce [closedSocket, closedSocket] noDescriptors).map
      (fun r => (r.1, r.2.ls.map ListeningT.fd)) = some (ngxOk, [3, 4]) := by
    decide +kernel
  obtain ⟨r, hr, heq⟩ := Option.map_eq_some_iff.mp hresult
  obtain ⟨hcode, hfds⟩ := Prod.ext_iff.mp heq
  exact ⟨r, hr, hcode, hfds,
    ((listening_opened usedOnce [closedSocket, closedSocket] noDescriptors [] owned_none).2
      r hr).1⟩

end Listening
end NgxEpoll
