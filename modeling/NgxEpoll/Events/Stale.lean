import NgxEpoll.Events.Effects

/-!
# Stale events

A slot that is set up again flips its instance bit, and the loop skips an event
whose bit is not that of its slot.  That detects one reuse of the slot within a
batch, but not two: the second one flips the bit back.

## The runs of a thread
-/

namespace NgxEpoll
namespace Events

open Foundation
open NgxEpoll.Core
open ConnPool
open Epoll (Kind CtlOp epollin epollout)

/-- The handler was called for the connection that the event was registered
for, and that connection was open. -/
def Fresh (i : Invocation) : Prop :=
  i.gen = i.eventGen ∧ i.fd = i.eventFd ∧ i.fd ≠ ngxInvalidFile

def reported (w : World) : WaitResult -> Bool
  | WaitResult.failed _ => true
  | WaitResult.events es =>
      es.all fun e => decide (w.entry e.fd = some ⟨e.conn, e.inst, e.gen⟩)

/-- A step of a thread whose handlers run inside `epoll_process_events`: a call
outside of it, or a batch with some behaviour of the handlers. -/
inductive Label where
  | act (a : Action)
  | batch (H : Handlers) (infinite : Bool) (r : WaitResult)

def directStep (w : World) : Label -> Option World
  | Label.act a => some (act w a)
  | Label.batch H infinite r =>
      if reported w r then some (epollProcessEvents H infinite false w r).2
      else none

def unusedSlot : ConnT :=
  { callocSlot with fd := ngxInvalidFile }

/-- A thread with a pool of `n + 1` connections; the standard streams are open. -/
def start (n : Nat) : World :=
  let r := connPoolInit (fun _ => unusedSlot) zeroPool 0 (n + 1) true true true
  { mem := r.2.1
    pool := r.2.2
    comm := connPoolCommonInit
    entry := fun _ => none
    isOpen := fun fd => decide (0 ≤ fd ∧ fd ≤ 2)
    postedAccept := []
    posted := []
    gen := fun _ => 0
    reinits := fun _ => 0
    held := []
    pending := []
    half := none
    log := []
    torn := false }

theorem sound_start (n : Nat) : Sound (start n) := by
  have hok : (connPoolInit (fun _ => unusedSlot) zeroPool 0 (n + 1)
      true true true).1 = ngxOk := rfl
  obtain ⟨hlist, -, -, -⟩ := freeList_connPoolInit hok
  have hslot : forall c, (start n).mem c = unusedSlot ∨
      exists i, (start n).mem c = initialSlot 0 (n + 1) i := by
    intro c
    change initSlots _ 0 (n + 1) (n + 1) c = _ ∨ exists i,
      initSlots _ 0 (n + 1) (n + 1) c = _
    rw [initSlots_apply]
    split
    · exact Or.inr ⟨_, rfl⟩
    · exact Or.inl rfl
  have hclosed : forall c, ((start n).mem c).fd = ngxInvalidFile := by
    intro c
    rcases hslot c with h | ⟨i, h⟩
    · rw [h]
      rfl
    · rw [h]
      rfl
  refine ⟨connArray 0 (n + 1), [], hlist, ⟨rfl, rfl⟩, ?_, ?_, ?_, ?_, rfl, ?_, ?_⟩
  · simpa [start] using nodup_connArray 0 (n + 1)
  · intro c hc
    have hc' : c ∈ connArray 0 (n + 1) := by simpa [start] using hc
    exact (mem_connArray.mp hc').1
  · exact fun c _ => hclosed c
  · intro c
    refine ⟨Or.inl (hclosed c), fun _ => hclosed c,
      fun hne => absurd (hclosed c) hne, ?_⟩
    intro hactive
    rcases hslot c with h | ⟨i, h⟩
    · rw [h] at hactive
      cases hactive
    · rw [h] at hactive
      cases hactive
  · intro fd hfd
    have hfd' : 0 ≤ fd ∧ fd ≤ 2 := by simpa [start] using hfd
    exact hfd'.1
  · intro fd e he
    cases he

/-!
## Handlers that reuse a slot at most once
-/

/-- A slot taken from the pool is not that of an event still to come which has
been set up since the batch was collected, nor that of the event whose write
part comes next. -/
def careful (w : World) : Action -> Bool
  | Action.accept _ =>
      match (connPoolGetConnection w.mem w.pool w.comm).1 with
      | none => true
      | some c =>
          w.half != some c &&
            (w.reinits c == 0 || w.pending.all fun e => e.conn != c)
  | _ => true

def CarefulActs : World -> List Action -> Prop
  | _, [] => True
  | w, a :: as => careful w a = true ∧ CarefulActs (act w a) as

def CarefulHandlers (H : Handlers) : Prop :=
  forall w k c, CarefulActs w (H w k c)

/-- Any handlers, stopped before the first call that is not careful. -/
def carefulPart : World -> List Action -> List Action
  | _, [] => []
  | w, a :: as => if careful w a then a :: carefulPart (act w a) as else []

theorem carefulActs_carefulPart (w : World) (as : List Action) :
    CarefulActs w (carefulPart w as) := by
  induction as generalizing w with
  | nil => trivial
  | cons a as ih =>
      rw [carefulPart]
      split
      · rename_i ha
        exact ⟨ha, ih (act w a)⟩
      · trivial

/-!
## What is known of an event
-/

/-- The slot is still as it was when the event was registered, or closed. -/
def Current (w : World) (e : EpollEvent) : Prop :=
  0 < w.gen e.conn ∧ w.gen e.conn = e.gen ∧
    ((w.mem e.conn).fd = e.fd ∨ (w.mem e.conn).fd = ngxInvalidFile)

/-- An event still to come: its slot has not been set up since the batch was
collected, or once, and then the bit differs. -/
def Tracked (w : World) (e : EpollEvent) : Prop :=
  0 < w.gen e.conn ∧
    ((w.reinits e.conn = 0 ∧ Current w e ∧
        (w.mem e.conn).read.inst = e.inst) ∨
      (w.reinits e.conn = 1 ∧ (w.mem e.conn).read.inst = !e.inst))

section Steps

variable {w w' : World} {e : EpollEvent}

theorem Current.kept {closing : Prop} (h : Current w e)
    (hk : Kept w w' e.conn closing) : Current w' e := by
  obtain ⟨hpos, hgen, hfd⟩ := h
  refine ⟨by rw [hk.gen]; exact hpos, by rw [hk.gen]; exact hgen, ?_⟩
  rcases hk.fd with hsame | ⟨-, hclosed⟩
  · rw [hsame]
    exact hfd
  · exact Or.inr hclosed

theorem Tracked.kept {closing : Prop} (h : Tracked w e)
    (hk : Kept w w' e.conn closing) : Tracked w' e := by
  obtain ⟨hpos, hcase⟩ := h
  refine ⟨by rw [hk.gen]; exact hpos, ?_⟩
  rw [hk.reinits, hk.inst]
  exact hcase.imp (fun h => ⟨h.1, h.2.1.kept hk, h.2.2⟩) id

theorem Current.act (h : Current w e) {a : Action} (ha : careful w a = true)
    (hhalf : w.half = some e.conn) : Current (act w a) e := by
  rcases act_slot w a e.conn with hkept | hzero | hretaken
  · exact h.kept hkept
  · exact absurd hzero (Nat.ne_of_gt h.1)
  · obtain ⟨s, rfl, -, hget⟩ := hretaken.taken
    simp [careful, hget, hhalf] at ha

theorem Tracked.act (h : Tracked w e) {a : Action} (ha : careful w a = true)
    (hpending : e ∈ w.pending) : Tracked (act w a) e := by
  rcases act_slot w a e.conn with hkept | hzero | hretaken
  · exact h.kept hkept
  · exact absurd hzero (Nat.ne_of_gt h.1)
  · obtain ⟨s, rfl, -, hget⟩ := hretaken.taken
    have hreinits : w.reinits e.conn = 0 := by
      simp only [careful, hget, Bool.and_eq_true, Bool.or_eq_true,
        beq_iff_eq, List.all_eq_true, bne_iff_ne, ne_eq] at ha
      rcases ha.2 with hzero | hall
      · exact hzero
      · exact absurd rfl (hall e hpending)
    refine ⟨by rw [hretaken.gen]; omega, Or.inr ⟨?_, ?_⟩⟩
    · rw [hretaken.reinits, hreinits]
    · rcases h.2 with ⟨-, -, hinst⟩ | ⟨hone, -⟩
      · rw [hretaken.inst, hinst]
      · omega

/-- The loop between two events: all that are to come are tracked, and all calls
so far were fresh. -/
structure Stage (w : World) (rest : List EpollEvent) : Prop where
  sound : Sound w
  pending : w.pending = rest
  tracked : forall e, e ∈ rest -> Tracked w e
  fresh : forall i, i ∈ w.log -> Fresh i

variable {rest : List EpollEvent}

theorem Stage.setReady (h : Stage w rest) (k : Kind) (c : Conn) (b : Bool) :
    Stage (setReady w k c b) rest where
  sound := h.sound.setReady k c b
  pending := h.pending
  tracked := fun e he =>
    (h.tracked e he).kept (kept_setEvent w k c e.conn _ False rfl rfl)
  fresh := h.fresh

theorem Current.setReady (h : Current w e) (k : Kind) (c : Conn) (b : Bool) :
    Current (setReady w k c b) e :=
  h.kept (kept_setEvent w k c e.conn _ False rfl rfl)

theorem Stage.act (h : Stage w rest) {a : Action} (ha : careful w a = true) :
    Stage (act w a) rest where
  sound := h.sound.act a
  pending := (congrArg Prod.fst (turn_act w a)).trans h.pending
  tracked := fun e he =>
    (h.tracked e he).act ha (by rw [h.pending]; exact he)
  fresh := by
    have hlog : (Events.act w a).log = w.log :=
      congrArg (fun t => t.2.2.1) (turn_act w a)
    rw [hlog]
    exact h.fresh

theorem Stage.acts (h : Stage w rest) {as : List Action} (has : CarefulActs w as) :
    Stage (acts w as) rest ∧
      (Current w e -> w.half = some e.conn -> Current (acts w as) e) := by
  induction as generalizing w with
  | nil => exact ⟨h, fun hcur _ => hcur⟩
  | cons a as ih =>
      obtain ⟨hstage, hcurrent⟩ := ih (h.act has.1) has.2
      refine ⟨hstage, fun hcur hhalf => hcurrent (hcur.act has.1 hhalf) ?_⟩
      have hsame : (Events.act w a).half = w.half :=
        congrArg (fun t => t.2.1) (turn_act w a)
      rw [hsame]
      exact hhalf

theorem Stage.runHandler (h : Stage w rest) {H : Handlers}
    (hH : CarefulHandlers H) (k : Kind) (half : Option Conn)
    (hcur : Current w e) (hopen : (w.mem e.conn).fd ≠ ngxInvalidFile) :
    Stage (runHandler H w k e.conn e.gen e.fd half) rest ∧
      (half = some e.conn ->
        Current (runHandler H w k e.conn e.gen e.fd half) e) := by
  have hfd : (w.mem e.conn).fd = e.fd := hcur.2.2.resolve_right hopen
  have hlogged : Stage { w with
      log := w.log ++ [⟨e.conn, k, e.gen, e.fd, w.gen e.conn, (w.mem e.conn).fd⟩]
      half := half } rest := by
    refine ⟨h.sound, h.pending, h.tracked, ?_⟩
    intro i hi
    rcases List.mem_append.mp hi with hi | hi
    · exact h.fresh i hi
    · rw [List.mem_singleton.mp hi]
      exact ⟨hcur.2.1, hfd, hopen⟩
  obtain ⟨hstage, hcurrent⟩ := hlogged.acts (hH _ k e.conn) (e := e)
  exact ⟨⟨hstage.sound, hstage.pending, hstage.tracked, hstage.fresh⟩,
    fun hhalf => hcurrent hcur hhalf⟩

theorem Stage.writePart (h : Stage w rest) {H : Handlers}
    (hH : CarefulHandlers H) {events : BitVec 32}
    (hcur : events &&& epollout ≠ 0 -> Current w e) :
    Stage (writePart H false w e events) rest := by
  dsimp only [Events.writePart]
  split
  · rename_i hout
    have hopen : (w.mem e.conn).fd ≠ ngxInvalidFile :=
      ((h.sound.slot e.conn).quiet hout.2).2
    have hready := h.setReady Kind.write e.conn true
    have hfd : ((Events.setReady w Kind.write e.conn true).mem e.conn).fd =
        (w.mem e.conn).fd := by
      simp [Events.setReady, setEvent]
    split
    · exact hready
    · refine (hready.runHandler hH _ none ((hcur hout.1).setReady _ _ _) ?_).1
      rw [hfd]
      exact hopen
  · exact h

theorem current_of_not_stale (h : Tracked w e) (hs : isStale w e = false) :
    Current w e ∧ (w.mem e.conn).fd ≠ ngxInvalidFile := by
  simp only [isStale, Bool.or_eq_false_iff, decide_eq_false_iff_not,
    bne_eq_false_iff_eq] at hs
  obtain ⟨hopen, hinst⟩ := hs
  rcases h.2 with ⟨-, hcur, -⟩ | ⟨-, hflip⟩
  · exact ⟨hcur, hopen⟩
  · rw [hinst] at hflip
    cases hbit : e.inst <;> simp [hbit] at hflip

theorem Stage.processEvent (h : Stage w rest) {H : Handlers}
    (hH : CarefulHandlers H) (he : Tracked w e) :
    Stage (processEvent H false w e) rest := by
  dsimp only [Events.processEvent]
  split
  · exact h
  · rename_i hstale
    obtain ⟨hcur, hopen⟩ := current_of_not_stale he (by simpa using hstale)
    split
    · have hready := h.setReady Kind.read e.conn true
      have hcur' := hcur.setReady Kind.read e.conn true
      have hfd : ((Events.setReady w Kind.read e.conn true).mem e.conn).fd =
          (w.mem e.conn).fd := by
        simp [Events.setReady, setEvent]
      split
      · exact hready
      · rename_i hhandler
        obtain ⟨hstage, hcurrent⟩ := hready.runHandler hH Kind.read
          (if effectiveEvents e.events &&& epollout ≠ 0 then some e.conn else none)
          hcur' (by rw [hfd]; exact hopen)
        refine hstage.writePart hH (fun hout => hcurrent ?_)
        rw [if_pos hout]
    · exact h.writePart hH (fun _ => hcur)

theorem stage_processEvents {H : Handlers} (hH : CarefulHandlers H)
    {es : List EpollEvent} (h : Stage w es) :
    Stage (processEvents H false w es) [] := by
  induction es generalizing w with
  | nil => exact h
  | cons e es ih =>
      have hpopped : Stage { w with pending := es } es :=
        ⟨h.sound, rfl, fun e' he' => h.tracked e' (List.mem_cons_of_mem _ he'),
          h.fresh⟩
      exact ih (hpopped.processEvent hH (h.tracked e (List.mem_cons_self ..)))

theorem tracked_of_entry (h : Sound w)
    (he : w.entry e.fd = some ⟨e.conn, e.inst, e.gen⟩) :
    Tracked { w with reinits := fun _ => 0 } e := by
  obtain ⟨xs, ys, h⟩ := h
  obtain ⟨hopen, hfd, hgen, hinst⟩ := h.entries _ _ he
  have hpos : 0 < w.gen e.conn := by
    rcases Nat.eq_zero_or_pos (w.gen e.conn) with hzero | hpos
    · have hclosed := (h.slots e.conn).unused hzero
      have hnat := h.natural _ hopen
      rw [← hfd] at hnat
      change 0 ≤ (w.mem e.conn).fd at hnat
      rw [hclosed] at hnat
      exact absurd hnat (by decide)
    · exact hpos
  exact ⟨hpos, Or.inl ⟨rfl, ⟨hpos, hgen.symm, Or.inl hfd⟩, hinst.symm⟩⟩

theorem stage_batch {H : Handlers} (hH : CarefulHandlers H) (h : Sound w)
    (hfresh : forall i, i ∈ w.log -> Fresh i) (infinite : Bool) {r : WaitResult}
    (hr : reported w r = true) :
    Sound (epollProcessEvents H infinite false w r).2 ∧
      forall i, i ∈ (epollProcessEvents H infinite false w r).2.log -> Fresh i := by
  refine ⟨h.epollProcessEvents H infinite false r, ?_⟩
  cases r with
  | failed eintr => exact hfresh
  | events es =>
      cases es with
      | nil => exact hfresh
      | cons e es =>
          have hcollected : Stage { w with
              reinits := fun _ => 0
              pending := e :: es } (e :: es) := by
            refine ⟨h, rfl, ?_, hfresh⟩
            intro e' he'
            have hentry := List.all_eq_true.mp hr e' he'
            exact tracked_of_entry h (of_decide_eq_true hentry)
          exact (stage_processEvents hH hcollected).fresh

end Steps

/-!
## Every run
-/

def CarefulStep (_ : World) : Label -> Prop
  | Label.act _ => True
  | Label.batch H _ _ => CarefulHandlers H

theorem fresh_run {n : Nat} {w : World}
    (hrun : Reaches directStep CarefulStep (start n) w) :
    Sound w ∧ forall i, i ∈ w.log -> Fresh i := by
  refine hrun.invariant (fun w => Sound w ∧ forall i, i ∈ w.log -> Fresh i)
    ?_ ⟨sound_start n, fun _ hi => absurd hi List.not_mem_nil⟩
  rintro t a u ⟨hsound, hfresh⟩ hok hstep
  cases a with
  | act a =>
      cases hstep
      refine ⟨hsound.act a, ?_⟩
      have hlog : (act t a).log = t.log :=
        congrArg (fun s => s.2.2.1) (turn_act t a)
      rw [hlog]
      exact hfresh
  | batch H infinite r =>
      simp only [directStep] at hstep
      split at hstep
      · rename_i hr
        cases hstep
        exact stage_batch hok hsound hfresh infinite hr
      · cases hstep

/-- With careful handlers, a handler is only ever called for an event of the
connection that its slot still holds. -/
theorem handlers_fresh (n : Nat) (w : World)
    (hrun : Reaches directStep CarefulStep (start n) w) :
    forall i, i ∈ w.log -> Fresh i :=
  (fresh_run hrun).2

/-!
## Two reuses in one batch
-/

/-- The handler of a listening socket that hands the connection back and takes
it again for each descriptor of `fds`. -/
def reuse (fds : List Int) : Handlers := fun _ _ c =>
  if c = (1, 0) then
    fds.flatMap fun s =>
      [Action.release (0, 0), Action.accept s, Action.initConn (0, 0),
        Action.handleEvent Kind.read (0, 0) true]
  else []

def twoSockets : List Label :=
  [Label.act (Action.fromMem (1, 0) 3 true), Label.act (Action.addRead (1, 0) true),
    Label.act (Action.accept 5), Label.act (Action.initConn (0, 0)),
    Label.act (Action.handleEvent Kind.read (0, 0) true)]

def bothReadable : WaitResult :=
  WaitResult.events [⟨3, (1, 0), true, 1, epollin⟩, ⟨5, (0, 0), false, 1, epollin⟩]

theorem reaches_batch {H : Handlers} {infinite : Bool} {r : WaitResult}
    {w : World}
    (hw : runLabels directStep (start 0)
      (twoSockets ++ [Label.batch H infinite r]) = some w)
    {ok : World -> Label -> Prop} (hact : forall t a, ok t (Label.act a))
    (hbatch : forall t, ok t (Label.batch H infinite r)) :
    Reaches directStep ok (start 0) w := by
  have hafter : after directStep (start 0)
      (twoSockets ++ [Label.batch H infinite r]) = w := by
    rw [after, hw]
    rfl
  rw [← hafter]
  refine (Reaches.refl _).labels ?_ (by rw [hw]; rfl)
  intro a ha t
  cases a with
  | act a => exact hact t a
  | batch H' infinite' r' =>
      simp only [twoSockets, List.cons_append, List.nil_append, List.mem_cons,
        List.not_mem_nil, reduceCtorEq, false_or, or_false,
        Label.batch.injEq] at ha
      obtain ⟨rfl, rfl, rfl⟩ := ha
      exact hbatch t

theorem handlers_fresh_reuse :
    exists w : World, w.log.length = 1 ∧ forall i, i ∈ w.log -> Fresh i := by
  have hlen : (runLabels directStep (start 0) (twoSockets ++
      [Label.batch (fun w k c => carefulPart w (reuse [6] w k c)) true
        bothReadable])).map (fun w => w.log.length) = some 1 := by
    decide +kernel
  obtain ⟨w, hw, hlog⟩ := Option.map_eq_some_iff.mp hlen
  have hrun : Reaches directStep CarefulStep (start 0) w :=
    reaches_batch hw (fun _ _ => trivial)
      (fun _ w _ _ => carefulActs_carefulPart w _)
  exact ⟨w, hlog, handlers_fresh 0 w hrun⟩

/-- When the slot is reused twice before its event, the handler of the new
connection is called for the event of the old one. -/
theorem handlers_fresh_twice :
    ¬ forall n w, Reaches directStep Always (start n) w ->
      forall i, i ∈ w.log -> Fresh i := by
  intro hall
  have hlog : (runLabels directStep (start 0) (twoSockets ++
      [Label.batch (reuse [6, 7]) true bothReadable])).map
        (fun w => w.log.map fun i => (i.eventGen, i.gen)) =
      some [(1, 1), (1, 3)] := by
    decide +kernel
  obtain ⟨w, hw, hlog⟩ := Option.map_eq_some_iff.mp hlog
  have hrun : Reaches directStep Always (start 0) w :=
    reaches_batch hw (fun _ _ => trivial) (fun _ => trivial)
  have hmem : (1, 3) ∈ w.log.map fun i => (i.eventGen, i.gen) := by
    rw [hlog]
    decide
  obtain ⟨i, hi, heq⟩ := List.mem_map.mp hmem
  have hfresh := (hall 0 w hrun i hi).1
  injection heq with h1 h3
  omega

end Events
end NgxEpoll
