import NgxEpoll.Server.Replies
import NgxEpoll.Request.Payload

/-!
# Frames received before the peer closes

Whatever the peer sends, the well-formed frames at the front of the stream are
dispatched in order, and what follows them is in the receive buffer until it is
known not to be a frame.  A close finds all of them dispatched as long as it
does not come in the same `nn_conn_recv` call as bytes that complete a frame.
-/

namespace NgxEpoll
namespace Server

open Foundation
open NgxEpoll.Core
open Common
open Request
open Relation

/-- Every whole frame at the front of what was received has been dispatched. -/
def FramesDispatched (w : World) : Prop :=
  forall fs rest, Cut IsFrame fs rest w.trace.received ->
    exists ds, ds <+: w.trace.dispatched ∧ List.Forall₂ Carries ds fs

/-- The `recv` that `nn_conn_recv` makes next returns 0. -/
def ClosesNow (w : World) : Prop :=
  bufferFreeSize (shrinkIn w).mc.inBuf ≠ 0 ∧
    (sysioUnixRecv w.env
      (cSize (bufferFreeSize (shrinkIn w).mc.inBuf))).1 = 0

instance (w : World) : Decidable (ClosesNow w) :=
  inferInstanceAs (Decidable (_ ∧ _))

/-- No close comes while a whole frame waits to be decoded, and length words
are known when they are read. -/
def ClosesDrained (s : State) : Label -> Prop
  | Label.recvIter => ClosesNow s.w -> ¬ BeginsWithFrame s.w.unread
  | Label.decodeIter =>
      bufferSize s.w.mc.inBuf < 2 ^ 31 ∧ WordKnown s.w
  | _ => True

/-!
## The frames of a stream
-/

/-- The frames at the front of the stream were dispatched first.  The rest is
unread, or it does not begin with a frame and never will. -/
def Tracked (w : World) : Prop :=
  exists fs rest ds ds', Cut IsFrame fs rest w.trace.received ∧
    w.trace.dispatched = ds ++ ds' ∧ List.Forall₂ Carries ds fs ∧
    (rest = w.unread ∧ ds' = [] ∨ Dead rest)

section Tracking

variable {w w' : World}

theorem tracked_of_same (h : Tracked w)
    (hreceived : w'.trace.received = w.trace.received)
    (hdispatched : w'.trace.dispatched = w.trace.dispatched)
    (hunread : w'.unread = w.unread) : Tracked w' := by
  unfold Tracked
  rw [hreceived, hdispatched, hunread]
  exact h

theorem tracked_fetched (h : Tracked w) {bs : List Byte}
    (hfetched : Fetched w w' bs) : Tracked w' := by
  obtain ⟨fs, rest, ds, ds', hcut, hds, hcarries, hrest⟩ := h
  refine ⟨fs, rest ++ bs, ds, ds', ?_, ?_, hcarries, ?_⟩
  · rw [hfetched.received]
    exact hcut.append bs
  · rw [hfetched.dispatched]
    exact hds
  · rw [hfetched.unread]
    rcases hrest with ⟨rfl, hnil⟩ | hdead
    · exact Or.inl ⟨rfl, hnil⟩
    · exact Or.inr (hdead.append bs)

theorem tracked_of_dead (h : Tracked w) (hdead : Dead w.unread)
    (more : List Dispatch)
    (hreceived : w'.trace.received = w.trace.received)
    (hdispatched : w'.trace.dispatched = w.trace.dispatched ++ more) :
    Tracked w' := by
  obtain ⟨fs, rest, ds, ds', hcut, hds, hcarries, hrest⟩ := h
  refine ⟨fs, rest, ds, ds' ++ more, ?_, ?_, hcarries, Or.inr ?_⟩
  · rw [hreceived]
    exact hcut
  · rw [hdispatched, hds, List.append_assoc]
  · rcases hrest with ⟨rfl, _⟩ | hrest
    · exact hdead
    · exact hrest

theorem tracked_dispatch (h : Tracked w) (hwf : w.mc.inBuf.Wf) (n : Nat)
    (rest : List Nat) (hframe : BeginsWithFrame w.unread)
    (hint : lengthWord w.unread ≤ cInt (bufferSize w.mc.inBuf)) :
    Tracked (dispatchTask (attempt w n rest) n) := by
  obtain ⟨fs, tail, ds, ds', hcut, hds, hcarries, htail⟩ := h
  have hunread := unread_attempt hwf n rest hframe hint
  have hcarry := carries_attempt hwf n rest hframe hint
  rcases htail with ⟨rfl, rfl⟩ | hdead
  · refine ⟨fs ++ [w.unread.take (lengthWord w.unread).toNat],
      (attempt w n rest).unread, ds ++ [_], [], ?_, ?_,
      List.rel_append hcarries (List.Forall₂.cons hcarry List.Forall₂.nil),
      Or.inl ⟨rfl, rfl⟩⟩
    · rw [hunread]
      refine Cut.snoc ?_ hframe.isFrame_take.1
      rw [List.take_append_drop]
      exact hcut
    · rw [List.append_nil] at hds ⊢
      exact congrArg (· ++ [_]) hds
  · exact ⟨fs, tail, ds, ds' ++ [_], hcut,
      (congrArg (· ++ [_]) hds).trans (List.append_assoc _ _ _), hcarries,
      Or.inr hdead⟩

theorem Tracked.framesDispatched (h : Tracked w)
    (hnot : ¬ BeginsWithFrame w.unread) : FramesDispatched w := by
  obtain ⟨gs, tail, ds, ds', hcut, hds, hcarries, htail⟩ := h
  have hend : ¬ BeginsWithFrame tail := by
    rcases htail with ⟨rfl, _⟩ | hdead
    · exact hnot
    · intro hbegins
      exact hdead [] (by rwa [List.append_nil])
  intro fs rest hfs
  obtain ⟨more, rfl⟩ := hfs.prefix_of_rest isFrame_prefixFree hcut
    (fun f hf => hf.not_prefix hend)
  refine ⟨ds.take fs.length, ?_, List.forall₂_take_append ds fs more hcarries⟩
  rw [hds]
  exact (List.take_prefix _ _).trans (List.prefix_append _ _)

end Tracking

/-!
## The steps
-/

section Steps

variable {w w' : World}

theorem seen_of_move (h : Move w w') :
    w'.trace.received = w.trace.received ∧
      w'.trace.dispatched = w.trace.dispatched := by
  have hbytes : forall {v v' : World}, v'.bytes = v.bytes ->
      v'.trace.received = v.trace.received ∧
        v'.trace.dispatched = v.trace.dispatched := by
    intro v v' heq
    exact ⟨congrArg Bytes.received heq, congrArg Bytes.dispatched heq⟩
  cases h with
  | use => exact hbytes (bytes_useMc w)
  | encode n rest _ _ =>
      exact hbytes (v := popOut (encodeNode w n) rest)
        (bytes_nnConnFreeTask _ n)
  | finalize => exact hbytes (bytes_nnConnFinalize w)
  | event c env timer handler => exact ⟨rfl, rfl⟩
  | shrink => exact ⟨rfl, rfl⟩
  | full n rest _ _ => exact ⟨rfl, rfl⟩
  | hang n rest _ _ _ _ => exact ⟨rfl, rfl⟩
  | send k _ => exact ⟨rfl, rfl⟩
  | reset _ => exact ⟨rfl, rfl⟩

theorem seen_of_moves (h : Moves w w') :
    w'.trace.received = w.trace.received ∧
      w'.trace.dispatched = w.trace.dispatched := by
  induction h with
  | refl => exact ⟨rfl, rfl⟩
  | tail _ hlast ih =>
      have hstep := seen_of_move hlast
      exact ⟨hstep.1.trans ih.1, hstep.2.trans ih.2⟩

/-- The receive side of a world: its buffers, the unread bytes and how they
came about. -/
structure Intake (w : World) : Prop where
  ordered : Ordered w
  shrinks : Shrinks w
  tracked : Tracked w

theorem intake_of_outKept (h : Intake w) (hkept : OutKept w w')
    (hseen : w'.trace.received = w.trace.received ∧
      w'.trace.dispatched = w.trace.dispatched) : Intake w' := by
  have hwf := h.ordered.inWf
  have hsp := hwf.start_le_pos
  have hpl := hwf.pos_le_last
  have hle := hwf.last_le_end
  have hapart : Apart w.mc.inBuf.pos (w.mc.inBuf.last - w.mc.inBuf.pos)
      w.mc.out.start (w.mc.out.endPtr - w.mc.out.start) := by
    have := h.ordered.apart
    unfold BuffersApart Apart at *
    omega
  refine ⟨held_of_outKept h.ordered hkept (fun _ hn => hn.elim), ?_,
    tracked_of_same h.tracked hseen.1 hseen.2 ?_⟩
  · unfold Shrinks
    rw [hkept.inBuf]
    exact h.shrinks
  · unfold World.unread Buffer.content
    rw [hkept.inBuf]
    exact (load_eq_iff_agreeOn _ _ _ _).mpr (hkept.mem _ _ hapart)

theorem intake_of_same (h : Intake w) (hmem : w'.mem = w.mem)
    (hin : w'.mc.inBuf = w.mc.inBuf) (hout : w'.mc.out = w.mc.out)
    (hreceived : w'.trace.received = w.trace.received)
    (hdispatched : w'.trace.dispatched = w.trace.dispatched) : Intake w' := by
  refine ⟨held_of_same h.ordered hmem hin hout (fun _ hn => hn.elim)
    (fun _ hn => hn.elim), ?_, tracked_of_same h.tracked hreceived hdispatched ?_⟩
  · unfold Shrinks
    rw [hin]
    exact h.shrinks
  · unfold World.unread
    rw [hin, hmem]

theorem intake_of_bytes (h : Intake w) (hbytes : w'.bytes = w.bytes) :
    Intake w' :=
  intake_of_same h (congrArg Bytes.mem hbytes) (congrArg Bytes.inBuf hbytes)
    (congrArg Bytes.out hbytes) (congrArg Bytes.received hbytes)
    (congrArg Bytes.dispatched hbytes)

theorem intake_recvTurn (h : Intake w) :
    Intake (afterTurn (nnConnRecvTurn w)) := by
  obtain ⟨bs, hfetched⟩ := fetched_recvTurn h.ordered.inWf h.shrinks
  refine ⟨held_recvTurn h.ordered ?_ (fun _ hn => hn.elim),
    Or.inl hfetched.shrunk, tracked_fetched h.tracked hfetched⟩
  exact h.shrinks.imp_right (fun hsize => ⟨hsize, fun _ hn => hn.elim⟩)

theorem intake_shrinkIn (h : Intake w) : Intake (shrinkIn w) := by
  have hfetched := fetched_shrinkIn h.ordered.inWf h.shrinks
  refine ⟨(held_shrinkIn h.ordered ?_).1, Or.inl hfetched.shrunk,
    tracked_fetched h.tracked hfetched⟩
  exact h.shrinks.imp_right (fun hsize => ⟨hsize, fun _ hn => hn.elim⟩)

theorem ordered_attempt (h : Ordered w) (hsize : bufferSize w.mc.inBuf < 2 ^ 31)
    (n : Nat) (rest : List Nat) :
    Ordered (attempt w n rest) ∧ Shrinks (attempt w n rest) := by
  have hwf := h.inWf
  have hpl := hwf.pos_le_last
  have hadvance : exists k, k ≤ w.mc.inBuf.last - w.mc.inBuf.pos ∧
      (attempt w n rest).mc.inBuf =
        { w.mc.inBuf with pos := w.mc.inBuf.pos + k } := by
    change exists k, _ ∧
      (taskDecode w.mem w.mc.inBuf (w.mc.nodes n)).2.1 = _
    by_cases hempty : bufferSize w.mc.inBuf ≤ 0
    · exact ⟨0, Nat.zero_le _, by rw [taskDecode_empty hempty]; rfl⟩
    · have hle := cInt_le_self (n := bufferSize w.mc.inBuf) (by omega)
      rw [hwf.size_eq] at hle
      rw [taskDecode_eq (by omega), hwf.size_eq]
      by_cases hshort : cInt (w.mc.inBuf.last - w.mc.inBuf.pos : Nat) <
          loadInt w.mem w.mc.inBuf.pos
      · exact ⟨0, Nat.zero_le _, by rw [if_pos hshort]; rfl⟩
      · rw [if_neg hshort]
        by_cases hneg : loadInt w.mem w.mc.inBuf.pos ≤ 0
        · exact ⟨0, Nat.zero_le _, by rw [if_pos hneg]; rfl⟩
        · exact ⟨(loadInt w.mem w.mc.inBuf.pos).toNat, by omega,
            by rw [if_neg hneg]⟩
  obtain ⟨k, hk, hin⟩ := hadvance
  have hwf' := wf_advance hwf hk
  refine ⟨⟨by rwa [hin], h.outWf, h.small, ?_, fun _ hn => hn.elim⟩,
    Or.inr ?_⟩
  · unfold BuffersApart
    rw [hin]
    exact h.apart
  · rw [hin, hwf'.size_eq]
    rw [hwf.size_eq] at hsize
    simp only
    omega

theorem intake_decodeStep {turn : Turn World (Int × World)}
    (hstep : DecodeStep w turn) (h : Intake w)
    (hsize : bufferSize w.mc.inBuf < 2 ^ 31) (hknown : WordKnown w) :
    Intake (afterTurn turn) := by
  have houtcome := attempt_outcome h.ordered.inWf hsize hknown
  have hframe : forall {n}, BeginsWithFrame w.unread ∧
      lengthWord w.unread ≤ cInt (bufferSize w.mc.inBuf) ->
        attemptCode w n = ngxOk := by
    intro n hf
    exact (attempt_frame h.ordered.inWf n [] hf.1 hf.2).1
  have hfailed : forall {n} rest, attemptCode w n ≠ ngxOk ->
      Intake (attempt w n rest) := by
    intro n rest hcode
    exact intake_of_same h rfl (attempt_inBuf rest hcode) rfl rfl rfl
  cases hstep with
  | busy _ => exact intake_of_same h rfl rfl rfl rfl rfl
  | underflow _ _ => exact intake_of_same h rfl rfl rfl rfl rfl
  | ok n rest _ _ hcode =>
      obtain ⟨hordered, hshrinks⟩ := ordered_attempt h.ordered hsize n rest
      refine ⟨held_of_same hordered rfl rfl rfl (fun _ hn => hn.elim)
        (fun _ hn => hn.elim), hshrinks, ?_⟩
      rcases houtcome n with ⟨hf, hint⟩ | ⟨_, hdead⟩ | ⟨_, hunread⟩
      · exact tracked_dispatch h.tracked h.ordered.inWf n rest hf hint
      · exact tracked_of_dead h.tracked hdead _ rfl rfl
      · rw [attemptCode, hunread] at hcode
        exact absurd hcode ngxAgain_ne_ngxOk
  | error n rest _ _ hcode =>
      have hbytes := (bytes_useMc (nnConnFreeTask (attempt w n rest) n)).trans
        (bytes_nnConnFreeTask _ n)
      have hfreed : Ordered (nnConnFreeTask (attempt w n rest) n).useMc :=
        held_useMc (held_freeTask
          (ordered_attempt h.ordered hsize n rest).1 (fun hn => hn.elim))
      refine ⟨held_resetIn hfreed, Or.inl rfl, ?_⟩
      rcases houtcome n with hf | ⟨_, hdead⟩ | ⟨_, hunread⟩
      · rw [hframe hf] at hcode
        exact absurd hcode (by decide)
      · refine tracked_of_dead h.tracked hdead [] ?_ ?_
        · exact congrArg Bytes.received hbytes
        · rw [List.append_nil]
          exact congrArg Bytes.dispatched hbytes
      · rw [attemptCode, hunread] at hcode
        exact absurd hcode (show ngxAgain ≠ ngxError by decide)
  | again n rest _ _ hcode =>
      have hne : attemptCode w n ≠ ngxOk := by
        rw [hcode]
        decide
      exact intake_shrinkIn (intake_of_bytes (hfailed rest hne)
        ((bytes_useMc _).trans (bytes_nnConnFreeTask _ n)))
  | lost n rest _ _ hok _ _ =>
      exact intake_of_same (hfailed rest hok) rfl rfl rfl rfl rfl

variable {busy finished : Multiset Nat} {malloced : List (BitVec 64)}

theorem intake_of_moves (h : Intake w)
    (hreplies : Replies (w.life busy finished malloced))
    (hmoves : Moves w w') : Intake w' :=
  intake_of_outKept h
    (outKept_of_moves
      (outReady_of_replies h.ordered.outWf h.ordered.small hreplies) hmoves)
    (seen_of_moves hmoves)

theorem intake_nnConnOuttask {n : Nat} (h : Intake w)
    (hreplies : Replies (w.life busy (n ::ₘ finished) malloced)) :
    Intake (nnConnOuttask w n).2 := by
  have huse := intake_of_bytes h (bytes_useMc w)
  rw [← life_useMc w] at hreplies
  simp only [nnConnOuttask]
  generalize w.useMc = u at huse hreplies
  split
  · exact intake_of_bytes huse (bytes_nnConnFreeTask u n)
  · have hpushed : Intake (pushOut u n) :=
      intake_of_same huse rfl rfl rfl rfl rfl
    exact intake_of_moves hpushed (replies_pushOut hreplies)
      (nnConnOutput_moves (pushOut u n))

end Steps

structure Reading (s : State) : Prop where
  served : Served s
  intake : Intake s.w

theorem wordKnown_useMc {w : World} (h : WordKnown w) : WordKnown w.useMc := by
  unfold WordKnown
  rw [unread_useMc, useMc_mem, useMc_mc]
  exact h

theorem intake_decodeIter {s : State} (h : Reading s)
    (hdrained : ClosesDrained s Label.decodeIter) :
    Intake (afterTurn (nnConnDecodeTurn s.w)) :=
  intake_decodeStep (nnConnDecodeTurn_step s.w)
    (intake_of_bytes h.intake (bytes_useMc s.w))
    (by rw [useMc_mc]; exact hdrained.1) (wordKnown_useMc hdrained.2)

theorem reading_of_stepped {s s' : State} {a : Label} (h : Reading s)
    (hserves : Serves s a) (hdrained : ClosesDrained s a)
    (hstepped : Stepped s a s') : Reading s' := by
  refine ⟨served_of_stepped h.served hserves hstepped, ?_⟩
  have hreplies := h.served.replies
  cases hstepped with
  | kernel env => exact intake_of_same h.intake rfl rfl rfl rfl rfl
  | poll rd wr _ => exact intake_of_same h.intake rfl rfl rfl rfl rfl
  | readEvent _ _ =>
      obtain ⟨w, pc, heq, _, hmoves⟩ := startRead_moves s
      rw [heq]
      exact intake_of_moves h.intake hreplies hmoves
  | recvIter hpc =>
      obtain ⟨w, pc, heq, _, hmoves⟩ := recvIter_moves hpc
      have hturn := intake_recvTurn h.intake
      rw [State.life, ← life_nnConnRecvTurn s.w] at hreplies
      rw [heq]
      exact intake_of_moves hturn hreplies hmoves
  | decodeIter hpc =>
      obtain ⟨w, pc, heq, _, hmoves⟩ := decodeIter_moves hpc
      have hturn := intake_decodeIter h hdrained
      have hlife : Life.Runs replyPolicy s.life
          ((afterTurn (nnConnDecodeTurn s.w)).life (bagOf s.batch)
            (bagOf s.bque + s.pc.held) s.malloced) :=
        life_nnConnDecodeTurn h.served.shape.tq
          (meets_replyPolicy (a := Label.decodeIter) hserves)
      rw [heq]
      exact intake_of_moves hturn
        (hlife.invariant Replies (fun _ _ hl hstep => replies_of_step hl hstep)
          hreplies)
        hmoves
  | writeEvent _ _ =>
      exact intake_of_moves h.intake hreplies (processWrite_moves s.w)
  | slowTimer hfree _ =>
      obtain ⟨w, pc, heq, _, hmoves⟩ := slowTimer_moves hfree.held
      rw [heq]
      exact intake_of_moves h.intake hreplies hmoves
  | writeTimeout _ _ =>
      exact intake_of_moves h.intake hreplies
        (ReflTransGen.trans (expireWrite_moves s.w) (processWrite_moves _))
  | popBack i _ => exact h.intake
  | outDone _ => exact h.intake
  | outIter n q hpc _ =>
      simp only [State.life, hpc, Pc.held, ← Multiset.cons_coe,
        Multiset.add_cons] at hreplies
      exact intake_nnConnOuttask h.intake hreplies
  | popAll k _ _ _ => exact intake_of_same h.intake rfl rfl rfl rfl rfl
  | handle k block result n rest _ _ =>
      have huse := intake_of_bytes h.intake (bytes_useMc s.w)
      cases result with
      | none => exact intake_of_same huse rfl rfl rfl rfl rfl
      | some t => exact intake_of_same huse rfl rfl rfl rfl rfl
  | wake k _ => exact intake_of_bytes h.intake (bytes_useMc s.w)

theorem Started.reading {s : State} (h : Started s) : Reading s := by
  refine ⟨h.served, ?_⟩
  cases h with
  | up conf allocs mem fd env taskNum threadId w hnum hvalid hinit =>
      obtain ⟨hordered, hunread⟩ := nnConnInit_ordered hvalid hinit
      obtain ⟨inBuf, out, buff, ev, env', hin, _, _, rfl⟩ := nnConnInit_up hinit
      obtain ⟨a, _, rfl⟩ := bufferAt_eq_some hin
      exact ⟨hordered, Or.inl rfl, [], [], [], [], Cut.nil _, rfl,
        List.Forall₂.nil, Or.inl ⟨hunread.symm, rfl⟩⟩

/-- The step in which `nn_conn_recv` sees the close receives and dispatches
nothing. -/
theorem seen_of_close {s : State} (hclose : ClosesNow s.w)
    (hpc : s.pc = Pc.recving) :
    (recvIter s).w.trace.received = s.w.trace.received ∧
      (recvIter s).w.trace.dispatched = s.w.trace.dispatched := by
  have hturn : (afterTurn (nnConnRecvTurn s.w)).trace.received =
        s.w.trace.received ∧
      (afterTurn (nnConnRecvTurn s.w)).trace.dispatched =
        s.w.trace.dispatched := by
    have hbytes := bytes_useMc s.w
    have hsame : s.w.useMc.trace.received = s.w.trace.received ∧
        s.w.useMc.trace.dispatched = s.w.trace.dispatched :=
      ⟨congrArg Bytes.received hbytes, congrArg Bytes.dispatched hbytes⟩
    have hin : (shrinkIn s.w.useMc).mc.inBuf = (shrinkIn s.w).mc.inBuf := by
      simp only [shrinkIn, useMc_mem, useMc_mc]
    have hcases := nnConnRecvTurn_cases s.w
    simp only [hin, show (shrinkIn s.w.useMc).env = s.w.env from useMc_env s.w]
      at hcases
    rcases hcases with heq | ⟨_, heq⟩ | ⟨hpos, _⟩
    · rw [heq]
      exact hsame
    · rw [heq]
      exact hsame
    · rw [hclose.2] at hpos
      exact absurd hpos (by decide)
  obtain ⟨w, pc, heq, _, hmoves⟩ := recvIter_moves hpc
  have hseen := seen_of_moves hmoves
  rw [heq]
  exact ⟨hseen.1.trans hturn.1, hseen.2.trans hturn.2⟩

/-- If no close comes while a whole frame waits in the receive buffer, every
frame received before a close has been dispatched when the connection is
finalized. -/
theorem framesDispatched_of_close (s s' s'' : State) (hstart : Started s)
    (hrun : Reaches step (fun t a => Serves t a ∧ ClosesDrained t a) s s')
    (hclose : ClosesNow s'.w) (hdrained : ClosesDrained s' Label.recvIter)
    (hstep : step s' Label.recvIter = some s'') : FramesDispatched s''.w := by
  have hreading : Reading s' := by
    apply hrun.invariant Reading _ hstart.reading
    rintro t a u ht ⟨hserves, hok⟩ hlast
    exact reading_of_stepped ht hserves hok (stepped_of_step hlast)
  have hbefore := hreading.intake.tracked.framesDispatched (hdrained hclose)
  cases stepped_of_step hstep with
  | recvIter hpc =>
      obtain ⟨hreceived, hdispatched⟩ := seen_of_close hclose hpc
      unfold FramesDispatched
      rw [hreceived, hdispatched]
      exact hbefore

def frameArrived : State :=
  after step smallStart
    [Label.kernel { silentEnv with
        wire := taskFrame testTask [], recvs := [RecvResult.data 343] },
      Label.readEvent]

def frameReceived : State :=
  after step (after step frameArrived [Label.recvIter]) [Label.recvIter]

def closeArrived : State :=
  after step
    (after step (after step frameReceived [Label.decodeIter])
      [Label.decodeIter])
    [Label.kernel { silentEnv with recvs := [RecvResult.closed] },
      Label.readEvent]

theorem framesDispatched_closeArrived :
    ClosesNow closeArrived.w ∧
      FramesDispatched (after step closeArrived [Label.recvIter]).w := by
  let ok : State -> Label -> Prop := fun t a => Serves t a ∧ ClosesDrained t a
  have hopen : forall {t : State}, ¬ ClosesNow t.w -> ok t Label.recvIter := by
    intro t ht
    exact ⟨trivial, fun hclose => absurd hclose ht⟩
  have hlabels : forall env a, a ∈ [Label.kernel env, Label.readEvent] ->
      forall r, ok r a := by
    intro env a ha r
    simp only [List.mem_cons, List.not_mem_nil, or_false] at ha
    rcases ha with rfl | rfl <;> exact ⟨trivial, trivial⟩
  have harrived : Reaches step ok smallStart frameArrived :=
    (Reaches.refl smallStart).labels (hlabels _) (by decide +kernel)
  have hfirst := harrived.oneLabel (hopen (by decide +kernel))
    (by decide +kernel)
  have hreceived : Reaches step ok smallStart frameReceived :=
    hfirst.oneLabel (hopen (by decide +kernel)) (by decide +kernel)
  have hdispatched := hreceived.oneLabel (a := Label.decodeIter)
    ⟨trivial, by decide +kernel, fun h => absurd h (by decide +kernel)⟩
    (by decide +kernel)
  have hagain := hdispatched.oneLabel (a := Label.decodeIter)
    ⟨trivial, by decide +kernel, fun _ h => absurd h (by decide +kernel)⟩
    (by decide +kernel)
  have hclosed : Reaches step ok smallStart closeArrived :=
    hagain.labels (hlabels _) (by decide +kernel)
  have hclose : ClosesNow closeArrived.w := by decide +kernel
  exact ⟨hclose, framesDispatched_of_close smallStart closeArrived _
    smallStart_started hclosed hclose (fun _ => by decide +kernel)
    (step_eq_some_after (by decide +kernel))⟩

def closeBehindFrame : State :=
  after step smallStart
    [Label.kernel { silentEnv with
        wire := taskFrame testTask []
        recvs := [RecvResult.data 343, RecvResult.closed] },
      Label.readEvent, Label.recvIter]

theorem framesDispatched_closeBehindFrame_fails :
    Started smallStart ∧ Reaches step Serves smallStart closeBehindFrame ∧
      ClosesNow closeBehindFrame.w ∧
      closeBehindFrame.w.mc.freeTask = [1, 0] ∧
      (step closeBehindFrame Label.recvIter).isSome = true ∧
      ¬ FramesDispatched (after step closeBehindFrame [Label.recvIter]).w := by
  refine ⟨smallStart_started, ?_, by decide +kernel, by decide +kernel,
    by decide +kernel, ?_⟩
  · apply (Reaches.refl smallStart).labels
    · intro a ha r
      simp only [List.mem_cons, List.not_mem_nil, or_false] at ha
      rcases ha with rfl | rfl | rfl <;> trivial
    · decide +kernel
  · intro h
    have hcut : Cut IsFrame [taskFrame testTask []] []
        (after step closeBehindFrame [Label.recvIter]).w.trace.received := by
      refine ⟨fun f hf => ?_, by decide +kernel⟩
      rw [List.mem_singleton.mp hf]
      exact ⟨by decide +kernel, by decide +kernel⟩
    have hnone : (after step closeBehindFrame
        [Label.recvIter]).w.trace.dispatched.length = 0 := by
      decide +kernel
    obtain ⟨ds, hfront, hcarries⟩ := h _ _ hcut
    have hle := hfront.length_le
    have hone := hcarries.length_eq
    simp only [List.length_singleton] at hone
    omega

end Server
end NgxEpoll
