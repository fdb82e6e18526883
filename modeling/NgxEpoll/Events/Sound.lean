import NgxEpoll.Events.Process
import NgxEpoll.Foundation.Runs

/-!
# Slots, pool and kernel agree

What every call of a handler keeps: the free connections are closed, the
kernel's entries name the slots as they were last set up, and a closed
connection has no active write event.

## The invariant
-/

namespace NgxEpoll
namespace Events

open Foundation
open NgxEpoll.Core
open ConnPool
open Epoll (Kind CtlOp epollin epollout)

structure SlotOk (cn : ConnT) (gen : Nat) : Prop where
  fd : cn.fd = ngxInvalidFile ∨ 0 < cn.fd
  unused : gen = 0 -> cn.fd = ngxInvalidFile
  insts : cn.fd ≠ ngxInvalidFile -> cn.write.inst = cn.read.inst
  quiet : cn.write.active = true -> cn.evBase = true ∧ cn.fd ≠ ngxInvalidFile

/-- The entry of a descriptor is that of the slot which has it. -/
def EntryOk (m : Slots) (gen : Conn -> Nat) (fd : Int) (e : Entry) : Prop :=
  (m e.conn).fd = fd ∧ e.gen = gen e.conn ∧ e.inst = (m e.conn).read.inst

/-- The invariant, for given lists of free connections. -/
structure SoundWith (m : Slots) (pool comm : ConnPoolT)
    (entry : Int -> Option Entry) (isOpen : Int -> Bool) (gen : Conn -> Nat)
    (held xs ys : List Conn) : Prop where
  own : FreeList m pool xs
  common : FreeList m comm ys
  apart : (xs ++ ys ++ held).Nodup
  inPool : forall c, c ∈ xs ++ ys ++ held -> c.1 = 0
  closed : forall c, c ∈ xs ++ ys -> (m c).fd = ngxInvalidFile
  slots : forall c, SlotOk (m c) (gen c)
  stdin : isOpen 0 = true
  natural : forall fd, isOpen fd = true -> 0 ≤ fd
  entries : forall fd e, entry fd = some e ->
    isOpen fd = true ∧ EntryOk m gen fd e

def Sound (w : World) : Prop :=
  exists xs ys,
    SoundWith w.mem w.pool w.comm w.entry w.isOpen w.gen w.held xs ys

theorem Sound.slot {w : World} (h : Sound w) (c : Conn) :
    SlotOk (w.mem c) (w.gen c) := by
  obtain ⟨xs, ys, h⟩ := h
  exact h.slots c

section Calls

variable {w : World}

theorem Sound.touch (h : Sound w) (c : Conn) (v : ConnT)
    (hnext : v.next = (w.mem c).next) (hfd : v.fd = (w.mem c).fd)
    (hinst : v.read.inst = (w.mem c).read.inst) (hslot : SlotOk v (w.gen c)) :
    Sound { w with mem := Function.update w.mem c v } := by
  obtain ⟨xs, ys, h⟩ := h
  have hnexts := nextOf_update (m := w.mem) (c := c) (v := v) hnext
  have hfds : forall d, (Function.update w.mem c v d).fd = (w.mem d).fd := by
    intro d
    by_cases hd : d = c
    · rw [hd, Function.update_self, hfd]
    · rw [Function.update_of_ne hd]
  have hinsts : forall d,
      (Function.update w.mem c v d).read.inst = (w.mem d).read.inst := by
    intro d
    by_cases hd : d = c
    · rw [hd, Function.update_self, hinst]
    · rw [Function.update_of_ne hd]
  refine ⟨xs, ys, ?_⟩
  dsimp only
  refine ⟨?_, ?_, h.apart, h.inPool, ?_, ?_, h.stdin, h.natural, ?_⟩
  · exact ⟨hnexts ▸ h.own.1, h.own.2⟩
  · exact ⟨hnexts ▸ h.common.1, h.common.2⟩
  · intro d hd
    rw [hfds]
    exact h.closed d hd
  · intro d
    by_cases hd : d = c
    · rw [hd, Function.update_self]
      exact hslot
    · rw [Function.update_of_ne hd]
      exact h.slots d
  · intro fd e he
    obtain ⟨hopen, hentry⟩ := h.entries fd e he
    refine ⟨hopen, ?_⟩
    unfold EntryOk at hentry ⊢
    rw [hfds, hinsts]
    exact hentry

theorem setEvent_next (cn : ConnT) (k : Kind) (ev : Event) :
    (setEvent cn k ev).next = cn.next := by
  cases k <;> rfl

theorem setEvent_fd (cn : ConnT) (k : Kind) (ev : Event) :
    (setEvent cn k ev).fd = cn.fd := by
  cases k <;> rfl

theorem setEvent_inst (cn : ConnT) (k : Kind) (ev : Event)
    (h : ev.inst = (eventOf cn k).inst) :
    (setEvent cn k ev).read.inst = cn.read.inst := by
  cases k with
  | read => exact h
  | write => rfl

theorem setEvent_accepted (cn : ConnT) (k : Kind) (ev : Event)
    (h : ev.accepted = (eventOf cn k).accepted) :
    (setEvent cn k ev).read.accepted = cn.read.accepted := by
  cases k with
  | read => exact h
  | write => rfl

theorem Sound.setReady (h : Sound w) (k : Kind) (c : Conn) (b : Bool) :
    Sound (setReady w k c b) := by
  refine h.touch c _ (setEvent_next _ _ _) (setEvent_fd _ _ _)
    (setEvent_inst _ _ _ rfl) ?_
  have hslot := h.slot c
  cases k with
  | read => exact ⟨hslot.fd, hslot.unused, hslot.insts, hslot.quiet⟩
  | write => exact ⟨hslot.fd, hslot.unused, hslot.insts, hslot.quiet⟩

/-- A write event may only become active on an open connection with an
`ev_base`. -/
theorem Sound.setActive (h : Sound w) (k : Kind) (c : Conn) (b : Bool)
    (hb : k = Kind.write -> b = true ->
      (w.mem c).evBase = true ∧ (w.mem c).fd ≠ ngxInvalidFile) :
    Sound (setActive w k c b) := by
  refine h.touch c _ (setEvent_next _ _ _) (setEvent_fd _ _ _)
    (setEvent_inst _ _ _ rfl) ?_
  have hslot := h.slot c
  cases k with
  | read => exact ⟨hslot.fd, hslot.unused, hslot.insts, hslot.quiet⟩
  | write => exact ⟨hslot.fd, hslot.unused, hslot.insts, hb rfl⟩

theorem Sound.initConn (h : Sound w) (c : Conn) : Sound (initConn w c) := by
  refine h.touch c _ rfl rfl rfl ?_
  have hslot := h.slot c
  exact ⟨hslot.fd, hslot.unused, hslot.insts, fun ha => ⟨rfl, (hslot.quiet ha).2⟩⟩

theorem Sound.epollCtl (h : Sound w) (op : CtlOp) (c : Conn) (k : Kind)
    (ok : Bool) : Sound (epollCtl w op (w.mem c).fd (dataPtr w k c) ok).2 := by
  obtain ⟨xs, ys, h⟩ := h
  unfold Events.epollCtl
  split
  · rename_i hok
    refine ⟨xs, ys, h.own, h.common, h.apart, h.inPool, h.closed, h.slots,
      h.stdin, h.natural, ?_⟩
    intro fd e he
    dsimp only at he
    by_cases hfd : fd = (w.mem c).fd
    · subst hfd
      rw [Function.update_self] at he
      split at he
      · cases he
      · cases he
        refine ⟨hok.2.1, rfl, rfl, ?_⟩
        have hopen : (w.mem c).fd ≠ ngxInvalidFile := by
          intro hinv
          have hnat := h.natural _ hok.2.1
          rw [hinv] at hnat
          exact absurd hnat (by decide)
        cases k with
        | read => rfl
        | write => exact (h.slots c).insts hopen
    · rw [Function.update_of_ne hfd] at he
      exact h.entries fd e he
  · exact ⟨xs, ys, h⟩

theorem epollCtl_ok {op : CtlOp} {fd : Int} {data : Entry} {ok : Bool}
    (h : Sound w) (hok : (epollCtl w op fd data ok).1 = true) :
    fd ≠ ngxInvalidFile := by
  obtain ⟨xs, ys, h⟩ := h
  unfold epollCtl at hok
  split at hok
  · rename_i hopen
    intro hinv
    have hnat := h.natural fd hopen.2.1
    rw [hinv] at hnat
    exact absurd hnat (by decide)
  · cases hok

theorem epollCtl_mem (w : World) (op : CtlOp) (fd : Int) (data : Entry)
    (ok : Bool) : (epollCtl w op fd data ok).2.mem = w.mem := by
  unfold epollCtl
  split <;> rfl

theorem epollCtl_setActive (w : World) (k : Kind) (c : Conn) (b : Bool)
    (op : CtlOp) (fd : Int) (data : Entry) (ok : Bool) :
    epollCtl (setActive w k c b) op fd data ok =
      ((epollCtl w op fd data ok).1,
        setActive (epollCtl w op fd data ok).2 k c b) := by
  by_cases h : ok = true ∧ w.isOpen fd = true ∧
      ((w.entry fd).isSome = true ↔ op ≠ CtlOp.add)
  · have h' : ok = true ∧ (setActive w k c b).isOpen fd = true ∧
        (((setActive w k c b).entry fd).isSome = true ↔ op ≠ CtlOp.add) := h
    rw [epollCtl, if_pos h', epollCtl, if_pos h]
    rfl
  · have h' : ¬(ok = true ∧ (setActive w k c b).isOpen fd = true ∧
        (((setActive w k c b).entry fd).isSome = true ↔ op ≠ CtlOp.add)) := h
    rw [epollCtl, if_neg h', epollCtl, if_neg h]

theorem setActive_setActive (w : World) (k : Kind) (c : Conn) (b b' : Bool) :
    setActive (setActive w k c b) k c b' = setActive w k c b' := by
  cases k <;> simp [setActive, setEvent, eventOf]

theorem epollAddEvent_eq (w : World) (k : Kind) (c : Conn) (ok : Bool) :
    exists op, epollAddEvent w k c ok =
      setActive (epollCtl w op (w.mem c).fd (dataPtr w k c) ok).2 k c
        (epollCtl w op (w.mem c).fd (dataPtr w k c) ok).1 := by
  refine ⟨if (eventOf (w.mem c) k.other).active then CtlOp.mod else CtlOp.add, ?_⟩
  simp only [epollAddEvent, epollCtl_setActive, setActive_setActive]

theorem Sound.epollAddEvent (h : Sound w) (k : Kind) (c : Conn) (ok : Bool)
    (hbase : k = Kind.write -> (w.mem c).evBase = true) :
    Sound (epollAddEvent w k c ok) := by
  obtain ⟨op, heq⟩ := epollAddEvent_eq w k c ok
  rw [heq]
  refine (h.epollCtl op c k ok).setActive k c _ ?_
  intro hk hb
  rw [epollCtl_mem]
  exact ⟨hbase hk, epollCtl_ok h hb⟩

theorem Sound.epollDelEvent (h : Sound w) (k : Kind) (c : Conn) (ok : Bool) :
    Sound (epollDelEvent w k c ok) := by
  dsimp only [Events.epollDelEvent]
  generalize (if (eventOf (w.mem c) k.other).active = true then CtlOp.mod
    else CtlOp.del) = op
  split
  · exact (h.epollCtl _ c k ok).setActive k c false (fun _ hb => absurd hb (by decide))
  · exact h.epollCtl _ c k ok

theorem Sound.close (h : Sound w) (c : Conn) : Sound (close w c) := by
  obtain ⟨xs, ys, h⟩ := h
  unfold Events.close
  split
  · rename_i hpos
    have hself : connClose w.mem c c =
        { w.mem c with
          fd := ngxInvalidFile
          read := closeEvent (w.mem c) (w.mem c).read
          write := closeEvent (w.mem c) (w.mem c).write } := by
      rw [connClose, if_pos hpos, Function.update_self]
    have hinst : forall d, (connClose w.mem c d).read.inst = (w.mem d).read.inst := by
      intro d
      by_cases hd : d = c
      · rw [hd, hself]
        rfl
      · rw [connClose_of_ne _ hd]
    refine ⟨xs, ys, ?_⟩
    dsimp only
    refine ⟨?_, ?_, h.apart, h.inPool, ?_, ?_, ?_, ?_, ?_⟩
    · exact ⟨nextOf_connClose w.mem c ▸ h.own.1, h.own.2⟩
    · exact ⟨nextOf_connClose w.mem c ▸ h.common.1, h.common.2⟩
    · intro d hd
      by_cases hdc : d = c
      · rw [hdc, hself]
      · rw [connClose_of_ne _ hdc]
        exact h.closed d hd
    · intro d
      by_cases hdc : d = c
      · rw [hdc, hself]
        refine ⟨Or.inl rfl, fun _ => rfl, fun hne => absurd rfl hne, ?_⟩
        intro hactive
        obtain ⟨hact, hbase⟩ := Bool.and_eq_true_iff.mp hactive
        rw [((h.slots c).quiet hact).1] at hbase
        cases hbase
      · rw [connClose_of_ne _ hdc]
        exact h.slots d
    · rw [Function.update_of_ne (by omega)]
      exact h.stdin
    · intro fd hfd
      by_cases hfdc : fd = (w.mem c).fd
      · omega
      · rw [Function.update_of_ne hfdc] at hfd
        exact h.natural fd hfd
    · intro fd e he
      by_cases hfdc : fd = (w.mem c).fd
      · subst hfdc
        rw [Function.update_self] at he
        cases he
      · rw [Function.update_of_ne hfdc] at he ⊢
        obtain ⟨hopen, hfd, hgen, hin⟩ := h.entries fd e he
        have hne : e.conn ≠ c := fun heq => hfdc (heq ▸ hfd.symm)
        refine ⟨hopen, ?_, hgen, ?_⟩
        · rw [connClose_of_ne _ hne]
          exact hfd
        · rw [hinst]
          exact hin
  · exact ⟨xs, ys, h⟩

theorem close_closed (h : Sound w) (c : Conn) :
    ((close w c).mem c).fd = ngxInvalidFile := by
  unfold Events.close
  split
  · rename_i hpos
    simp [connClose, hpos]
  · rename_i hneg
    rcases (h.slot c).fd with hinv | hpos
    · exact hinv
    · exact absurd hpos hneg

theorem close_held (w : World) (c : Conn) : (close w c).held = w.held := by
  unfold Events.close
  split <;> rfl

theorem connPoolFreeConnection_apply (m : Slots) (pool comm : ConnPoolT)
    (c d : Conn) :
    exists v, (connPoolFreeConnection m pool comm c).1 d =
      { m d with next := v } := by
  unfold connPoolFreeConnection putCommConn setNext
  by_cases hd : d = c
  · subst hd
    split
    · exact ⟨_, Function.update_self _ _ _⟩
    · exact ⟨_, Function.update_self _ _ _⟩
  · split
    · exact ⟨(m d).next, Function.update_of_ne hd _ _⟩
    · exact ⟨(m d).next, Function.update_of_ne hd _ _⟩

theorem SlotOk.next {cn : ConnT} {gen : Nat} (h : SlotOk cn gen)
    (v : Option Conn) : SlotOk { cn with next := v } gen :=
  ⟨h.fd, h.unused, h.insts, h.quiet⟩

section Relinked

variable {m m' : Slots} {pool comm : ConnPoolT} {entry : Int -> Option Entry}
variable {isOpen : Int -> Bool} {gen : Conn -> Nat} {held xs ys : List Conn}

theorem SoundWith.relinked_slots (h : SoundWith m pool comm entry isOpen gen held xs ys)
    (happly : forall d, exists v, m' d = { m d with next := v }) (d : Conn) :
    SlotOk (m' d) (gen d) := by
  obtain ⟨v, hv⟩ := happly d
  rw [hv]
  exact (h.slots d).next v

theorem SoundWith.relinked_entries
    (h : SoundWith m pool comm entry isOpen gen held xs ys)
    (happly : forall d, exists v, m' d = { m d with next := v }) (fd : Int) (e : Entry)
    (he : entry fd = some e) : isOpen fd = true ∧ EntryOk m' gen fd e := by
  obtain ⟨v, hv⟩ := happly e.conn
  obtain ⟨hopen, hentry⟩ := h.entries fd e he
  refine ⟨hopen, ?_⟩
  unfold EntryOk at hentry ⊢
  rw [hv]
  exact hentry

end Relinked

theorem Sound.release (h : Sound w) {c : Conn} (hheld : c ∈ w.held) :
    Sound (release w c) := by
  have hclosed := close_closed h c
  have hheld' : c ∈ (Events.close w c).held := by
    rw [close_held]
    exact hheld
  obtain ⟨xs, ys, h⟩ := h.close c
  unfold Events.release
  generalize Events.close w c = w' at hclosed hheld' h
  obtain ⟨hlists, hheldnd, hdisj⟩ := List.nodup_append.mp h.apart
  have hnot : c ∉ xs ++ ys := fun hin => hdisj c hin c hheld' rfl
  obtain ⟨xs', ys', hxs, hys, hperm, -, -, -⟩ :=
    connPoolFreeConnection_spec h.own h.common
      (fun hin => hnot (List.mem_append_left _ hin))
      (fun hin => hnot (List.mem_append_right _ hin))
  have hall : (xs ++ ys ++ w'.held).Perm (xs' ++ ys' ++ w'.held.erase c) := by
    have hback := (List.perm_cons_erase hheld').append_left (xs ++ ys)
    exact hback.trans (List.perm_middle.trans (hperm.append_right _))
  have happly := connPoolFreeConnection_apply w'.mem w'.pool w'.comm c
  refine ⟨xs', ys', ?_⟩
  dsimp only
  refine ⟨hxs, hys, hall.nodup_iff.mp h.apart, ?_, ?_, ?_, h.stdin,
    h.natural, ?_⟩
  · exact fun d hd => h.inPool d (hall.mem_iff.mpr hd)
  · intro d hd
    obtain ⟨v, hv⟩ := happly d
    rw [hv]
    rcases List.mem_cons.mp (hperm.mem_iff.mpr hd) with hdc | hd
    · rw [hdc]
      exact hclosed
    · exact h.closed d hd
  · exact h.relinked_slots happly
  · exact h.relinked_entries happly

theorem connPoolGetConnection_apply (m : Slots) (pool comm : ConnPoolT)
    (d : Conn) :
    exists v, (connPoolGetConnection m pool comm).2.1 d =
      { m d with next := v } := by
  have hsame : exists v, m d = { m d with next := v } := ⟨(m d).next, rfl⟩
  have hcomm : forall n, exists v, (getCommConn m comm n).2.2.1 d =
      { m d with next := v } := by
    intro n
    unfold getCommConn
    split
    · exact hsame
    · split
      · exact hsame
      · dsimp only
        split
        · exact hsame
        · rename_i plast _
          by_cases hd : d = plast
          · subst hd
            exact ⟨none, Function.update_self _ _ _⟩
          · exact ⟨(m d).next, setNext_of_ne _ _ hd⟩
  unfold connPoolGetConnection
  split
  · exact hsame
  · split
    · exact hsame
    · dsimp only
      split
      · exact hcomm _
      · exact hcomm _

theorem Sound.setDefault (h : Sound w) {c : Conn} {s : Int} {v : ConnT}
    (hclosed : (w.mem c).fd = ngxInvalidFile)
    (hfree : forall xs ys, SoundWith w.mem w.pool w.comm w.entry w.isOpen w.gen
      w.held xs ys -> c ∉ xs ++ ys)
    (hs : 0 ≤ s) (hopen : w.isOpen s = false)
    (hv : v.fd = s ∧ v.write.inst = v.read.inst ∧ v.write.active = false) :
    Sound
      { w with
        mem := Function.update w.mem c v
        isOpen := Function.update w.isOpen s true
        gen := Function.update w.gen c (w.gen c + 1) } := by
  obtain ⟨xs, ys, h⟩ := h
  have hnot := hfree xs ys h
  have hs0 : s ≠ 0 := by
    rintro rfl
    rw [h.stdin] at hopen
    cases hopen
  refine ⟨xs, ys, ?_⟩
  dsimp only
  refine ⟨?_, ?_, h.apart, h.inPool, ?_, ?_, ?_, ?_, ?_⟩
  · exact h.own.update (fun hin => hnot (List.mem_append_left _ hin))
  · exact h.common.update (fun hin => hnot (List.mem_append_right _ hin))
  · intro d hd
    rw [Function.update_of_ne (ne_of_mem_of_not_mem hd hnot)]
    exact h.closed d hd
  · intro d
    by_cases hd : d = c
    · subst hd
      rw [Function.update_self, Function.update_self]
      refine ⟨Or.inr (by omega), fun hg => absurd hg (by omega), fun _ => hv.2.1, ?_⟩
      intro hactive
      rw [hv.2.2] at hactive
      cases hactive
    · rw [Function.update_of_ne hd, Function.update_of_ne hd]
      exact h.slots d
  · rw [Function.update_of_ne (fun heq => hs0 heq.symm)]
    exact h.stdin
  · intro fd hfd
    by_cases hfds : fd = s
    · omega
    · rw [Function.update_of_ne hfds] at hfd
      exact h.natural fd hfd
  · intro fd e he
    obtain ⟨hfd, hentry⟩ := h.entries fd e he
    have hne : e.conn ≠ c := by
      intro heq
      have hinv := hentry.1
      rw [heq, hclosed] at hinv
      have hnat := h.natural fd hfd
      rw [← hinv] at hnat
      exact absurd hnat (by decide)
    have hfds : fd ≠ s := by
      rintro rfl
      rw [hopen] at hfd
      cases hfd
    refine ⟨?_, ?_⟩
    · rw [Function.update_of_ne hfds]
      exact hfd
    · unfold EntryOk at hentry ⊢
      rw [Function.update_of_ne hne, Function.update_of_ne hne]
      exact hentry

theorem Sound.get (h : Sound w) :
    let r := connPoolGetConnection w.mem w.pool w.comm
    (forall c, r.1 = some c ->
      (w.mem c).fd = ngxInvalidFile ∧ c.1 = 0 ∧ c ∉ w.held) ∧
    exists xs ys, SoundWith r.2.1 r.2.2.1 r.2.2.2 w.entry w.isOpen w.gen
      (r.1.toList ++ w.held) xs ys := by
  obtain ⟨xs, ys, h⟩ := h
  have hnodup := (List.nodup_append.mp h.apart).1
  obtain ⟨xs', ys', hxs, hys, hperm, -, -, -⟩ :=
    connPoolGetConnection_spec h.own h.common hnodup
  have happly := connPoolGetConnection_apply w.mem w.pool w.comm
  dsimp only
  generalize connPoolGetConnection w.mem w.pool w.comm = r at hxs hys hperm happly
  have hall : (xs ++ ys ++ w.held).Perm (xs' ++ ys' ++ (r.1.toList ++ w.held)) := by
    refine (hperm.append_right w.held).trans ?_
    rw [List.append_assoc]
    exact List.perm_append_comm_assoc _ _ _
  refine ⟨?_, xs', ys', hxs, hys, hall.nodup_iff.mp h.apart, ?_, ?_, ?_,
    h.stdin, h.natural, ?_⟩
  · intro c hc
    have hin : c ∈ xs ++ ys := by
      rw [hc] at hperm
      exact hperm.mem_iff.mpr (List.mem_cons_self ..)
    refine ⟨h.closed c hin, h.inPool c (List.mem_append_left _ hin), ?_⟩
    exact fun hheld => (List.nodup_append.mp h.apart).2.2 c hin c hheld rfl
  · exact fun d hd => h.inPool d (hall.mem_iff.mpr hd)
  · intro d hd
    obtain ⟨v, hv⟩ := happly d
    rw [hv]
    exact h.closed d (hperm.mem_iff.mpr (List.mem_append_right _ hd))
  · exact h.relinked_slots happly
  · exact h.relinked_entries happly

theorem Sound.accept (h : Sound w) {s : Int} (hs : 0 ≤ s)
    (hopen : w.isOpen s = false) : Sound (accept w s) := by
  obtain ⟨hsome, hwith⟩ := h.get
  have happly := connPoolGetConnection_apply w.mem w.pool w.comm
  dsimp only [Events.accept]
  cases hget : (connPoolGetConnection w.mem w.pool w.comm).1 with
  | none =>
      rw [hget] at hwith
      exact hwith
  | some c =>
      rw [hget] at hwith
      obtain ⟨v, hv⟩ := happly c
      have hbefore : Sound { w with
          mem := (connPoolGetConnection w.mem w.pool w.comm).2.1
          pool := (connPoolGetConnection w.mem w.pool w.comm).2.2.1
          comm := (connPoolGetConnection w.mem w.pool w.comm).2.2.2
          held := c :: w.held } := hwith
      refine hbefore.setDefault (c := c) (s := s) ?_ ?_ hs hopen ⟨rfl, rfl, rfl⟩
      · dsimp only
        rw [hv]
        exact (hsome c hget).1
      · intro xs ys hxy hin
        exact (List.nodup_append.mp hxy.apart).2.2 c hin c
          (List.mem_cons_self ..) rfl

theorem Sound.fromMem (h : Sound w) {c : Conn} {s : Int} {accepted : Bool}
    (hs : 0 ≤ s) (hopen : w.isOpen s = false) (hc : c.1 ≠ 0)
    (hgen : w.gen c = 0) : Sound (fromMem w c s accepted) := by
  have hset := h.setDefault (c := c) (s := s)
    (v := { callocSlot with
      fd := s
      read := { zeroEvent with inst := true, accepted := accepted, handler := true }
      write := { zeroEvent with inst := true, write := true } })
    ((h.slot c).unused hgen)
    (fun xs ys hxy hin => hc (hxy.inPool c (List.mem_append_left _ hin)))
    hs hopen ⟨rfl, rfl, rfl⟩
  have hmem : (Events.fromMem w c s accepted).mem = Function.update w.mem c
      { callocSlot with
        fd := s
        read := { zeroEvent with inst := true, accepted := accepted, handler := true }
        write := { zeroEvent with inst := true, write := true } } := by
    simp [Events.fromMem, Events.setDefault, connSetDefault, callocSlot, zeroEvent]
  obtain ⟨xs, ys, hset⟩ := hset
  refine ⟨xs, ys, ?_⟩
  rw [hmem]
  exact hset

theorem Sound.act (h : Sound w) (a : Action) : Sound (act w a) := by
  unfold Events.act
  split
  · rename_i hpossible
    cases a with
    | accept s =>
        simp only [possible, Bool.and_eq_true, decide_eq_true_eq,
          Bool.not_eq_true'] at hpossible
        exact h.accept hpossible.1 hpossible.2
    | fromMem c s accepted =>
        simp only [possible, Bool.and_eq_true, decide_eq_true_eq,
          Bool.not_eq_true'] at hpossible
        exact h.fromMem hpossible.1.1.1 hpossible.1.1.2 hpossible.1.2 hpossible.2
    | initConn c => exact h.initConn c
    | handleEvent k c ok =>
        dsimp only [perform]
        split
        · exact h.epollAddEvent k c ok (fun _ => hpossible)
        · exact h
    | addRead c ok => exact h.epollAddEvent Kind.read c ok (fun hk => nomatch hk)
    | delEvent k c ok => exact (h.setReady k c false).epollDelEvent k c ok
    | ready k c b => exact h.setReady k c b
    | close c => exact h.close c
    | release c =>
        simp only [possible, decide_eq_true_eq] at hpossible
        exact h.release hpossible
  · exact h

theorem Sound.acts (h : Sound w) (as : List Action) : Sound (acts w as) := by
  induction as generalizing w with
  | nil => exact h
  | cons a as ih => exact ih (h.act a)

/-!
## The event loop keeps it
-/

theorem Sound.runHandler (h : Sound w) (H : Handlers) (k : Kind) (c : Conn)
    (eventGen : Nat) (eventFd : Int) (half : Option Conn) :
    Sound (runHandler H w k c eventGen eventFd half) := by
  have hlogged : Sound { w with
      log := w.log ++ [⟨c, k, eventGen, eventFd, w.gen c, (w.mem c).fd⟩]
      half := half } := h
  exact hlogged.acts _

theorem Sound.lastInst (h : Sound w) (c : Conn) (b : Bool) :
    Sound { w with
      mem := Function.update w.mem c
        { w.mem c with read := { (w.mem c).read with lastInst := b } } } := by
  have hslot := h.slot c
  exact h.touch c _ rfl rfl rfl
    ⟨hslot.fd, hslot.unused, hslot.insts, hslot.quiet⟩

theorem Sound.postEvent (h : Sound w) (k : Kind) (e : EpollEvent)
    (accepted : Bool) : Sound (postEvent w k e accepted) := by
  unfold Events.postEvent
  cases accepted with
  | true => exact h
  | false => exact h

theorem Sound.writePart (h : Sound w) (H : Handlers) (post : Bool)
    (e : EpollEvent) (events : BitVec 32) :
    Sound (writePart H post w e events) := by
  have hready := h.setReady Kind.write e.conn true
  dsimp only [Events.writePart]
  split
  · split
    · exact hready
    · split
      · exact (hready.lastInst e.conn e.inst).postEvent _ _ _
      · exact hready.runHandler H _ _ _ _ _
  · exact h

theorem Sound.processEvent (h : Sound w) (H : Handlers) (post : Bool)
    (e : EpollEvent) : Sound (processEvent H post w e) := by
  have hready := h.setReady Kind.read e.conn true
  dsimp only [Events.processEvent]
  split
  · exact h
  · split
    · split
      · exact hready
      · split
        · exact ((hready.lastInst e.conn e.inst).postEvent _ _ _).writePart _ _ _ _
        · exact (hready.runHandler H _ _ _ _ _).writePart _ _ _ _
    · exact h.writePart _ _ _ _

theorem Sound.processEvents (h : Sound w) (H : Handlers) (post : Bool)
    (es : List EpollEvent) : Sound (processEvents H post w es) := by
  induction es generalizing w with
  | nil => exact h
  | cons e es ih =>
      have hpending : Sound { w with pending := es } := h
      exact ih (hpending.processEvent H post e)

theorem Sound.epollProcessEvents (h : Sound w) (H : Handlers)
    (infinite post : Bool) (r : WaitResult) :
    Sound (epollProcessEvents H infinite post w r).2 := by
  cases r with
  | failed eintr => exact h
  | events es =>
      cases es with
      | nil => exact h
      | cons e es =>
          have hcollected : Sound { w with
              reinits := fun _ => 0
              pending := e :: es } := h
          exact hcollected.processEvents H post (e :: es)

end Calls

end Events
end NgxEpoll
