import NgxEpoll.Events.Stale

/-!
# Posted events

In the client thread the loop only posts events; the accept events are handled
first, then the others.  `event_process_posted` looks at nothing but the
descriptor, so that what it calls is fresh rests on the kinds of handlers: those
of accept events close only what they took, the others take nothing.

## The kinds of handlers
-/

namespace NgxEpoll
namespace Events

open Foundation
open NgxEpoll.Core
open ConnPool
open Epoll (Kind CtlOp epollin epollout)

def takenBy (w : World) (a : Action) : List Conn :=
  match a with
  | Action.accept _ =>
      if possible w a then
        (connPoolGetConnection w.mem w.pool w.comm).1.toList
      else []
  | _ => []

/-- Calls that close only what they took, with what was taken before. -/
def AcceptActs : List Conn -> World -> List Action -> Prop
  | _, _, [] => True
  | taken, w, a :: as =>
      (forall c, Closes a c -> c ∈ taken) ∧
        AcceptActs (takenBy w a ++ taken) (act w a) as

def OrdinaryActs (as : List Action) : Prop :=
  forall s, Action.accept s ∉ as

def IsAccept (w : World) (k : Kind) (c : Conn) : Prop :=
  k = Kind.read ∧ (w.mem c).read.accepted = true

def HandlerKinds (H : Handlers) : Prop :=
  forall w k c, (IsAccept w k c -> AcceptActs [] w (H w k c)) ∧
    (¬ IsAccept w k c -> OrdinaryActs (H w k c))

/-!
## The links of the queues
-/

theorem torn_epollCtl (w : World) (op : CtlOp) (fd : Int) (data : Entry)
    (ok : Bool) : (epollCtl w op fd data ok).2.torn = w.torn := by
  unfold epollCtl
  split <;> rfl

theorem torn_epollAddEvent (w : World) (k : Kind) (c : Conn) (ok : Bool) :
    (epollAddEvent w k c ok).torn = w.torn := by
  obtain ⟨op, heq⟩ := epollAddEvent_eq w k c ok
  rw [heq]
  exact torn_epollCtl w op _ _ ok

theorem torn_epollDelEvent (w : World) (k : Kind) (c : Conn) (ok : Bool) :
    (epollDelEvent w k c ok).torn = w.torn := by
  dsimp only [epollDelEvent]
  generalize (if (eventOf (w.mem c) k.other).active = true then CtlOp.mod
    else CtlOp.del) = op
  split
  · exact torn_epollCtl w op _ _ ok
  · exact torn_epollCtl w op _ _ ok

theorem torn_close (w : World) (c : Conn) : (close w c).torn = w.torn := by
  unfold close
  split <;> rfl

theorem torn_act {w : World} {a : Action}
    (hgen : forall p, p ∈ w.postedAccept ++ w.posted -> w.gen p.conn ≠ 0)
    (htaken : forall c, c ∈ takenBy w a ->
      forall p, p ∈ w.postedAccept ++ w.posted -> p.conn ≠ c) :
    (act w a).torn = w.torn := by
  by_cases hpossible : possible w a = true
  · have hact : act w a = perform w a := if_pos hpossible
    rw [hact]
    cases a with
    | accept s =>
        simp only [takenBy, hpossible, if_true] at htaken
        dsimp only [perform, accept]
        cases hget : (connPoolGetConnection w.mem w.pool w.comm).1 with
        | none => rfl
        | some c =>
            have hnone : (w.postedAccept ++ w.posted).any (·.conn == c) = false := by
              rw [List.any_eq_false]
              intro p hp
              have hne := htaken c (by rw [hget]; exact List.mem_singleton_self c) p hp
              simpa using hne
            simp [setDefault, hnone]
    | fromMem c s accepted =>
        simp only [possible, Bool.and_eq_true, decide_eq_true_eq] at hpossible
        have hnone : (w.postedAccept ++ w.posted).any (·.conn == c) = false := by
          rw [List.any_eq_false]
          intro p hp
          have hne : p.conn ≠ c := by
            intro heq
            exact hgen p hp (by rw [heq]; exact hpossible.2)
          simpa using hne
        simp [perform, fromMem, setDefault, hnone]
    | initConn c => rfl
    | handleEvent k c ok =>
        dsimp only [perform]
        split
        · exact torn_epollAddEvent w k c ok
        · rfl
    | addRead c ok => exact torn_epollAddEvent w _ c ok
    | delEvent k c ok => exact torn_epollDelEvent (setReady w k c false) k c ok
    | ready k c b => rfl
    | close c => exact torn_close w c
    | release c => exact torn_close w c
  · rw [act, if_neg hpossible]

theorem posted_act (w : World) (a : Action) : (act w a).posted = w.posted :=
  congrArg (fun t => t.2.2.2.2) (turn_act w a)

theorem postedAccept_act (w : World) (a : Action) :
    (act w a).postedAccept = w.postedAccept :=
  congrArg (fun t => t.2.2.2.1) (turn_act w a)

theorem log_acts (w : World) (as : List Action) : (acts w as).log = w.log :=
  congrArg (fun t => t.2.2.1) (turn_acts w as)

theorem Kept.isAccept {w w' : World} {c : Conn} {closing : Prop}
    (h : Kept w w' c closing) (k : Kind) : IsAccept w' k c ↔ IsAccept w k c := by
  unfold IsAccept
  rw [h.accepted]

/-!
## While accept events are handled
-/

/-- The connection is as it was when the event was posted. -/
def Live (w : World) (p : Posted) : Prop :=
  w.gen p.conn = p.gen ∧ (w.mem p.conn).fd = p.fd ∧ p.fd ≠ ngxInvalidFile

/-- All posted events are live, and each is in the right queue. -/
structure AllLive (w : World) : Prop where
  sound : Sound w
  live : forall p, p ∈ w.postedAccept ++ w.posted -> Live w p
  accept : forall p, p ∈ w.postedAccept -> IsAccept w p.kind p.conn
  ordinary : forall p, p ∈ w.posted -> ¬ IsAccept w p.kind p.conn

section Accept

variable {w : World}

theorem AllLive.opened (h : AllLive w) {p : Posted}
    (hp : p ∈ w.postedAccept ++ w.posted) :
    (w.mem p.conn).fd ≠ ngxInvalidFile := by
  obtain ⟨-, hfd, hopen⟩ := h.live p hp
  rw [hfd]
  exact hopen

theorem AllLive.gen_ne (h : AllLive w) {p : Posted}
    (hp : p ∈ w.postedAccept ++ w.posted) : w.gen p.conn ≠ 0 :=
  fun hzero => h.opened hp ((h.sound.slot p.conn).unused hzero)

theorem AllLive.notTaken (h : AllLive w) {a : Action} {c : Conn}
    (hc : c ∈ takenBy w a) {p : Posted}
    (hp : p ∈ w.postedAccept ++ w.posted) : p.conn ≠ c := by
  cases a with
  | accept s =>
      simp only [takenBy] at hc
      split at hc
      · have hget := Option.mem_toList.mp hc
        rintro rfl
        exact h.opened hp (h.sound.get.1 p.conn hget).1
      · cases hc
  | _ => cases hc

theorem AllLive.kept (h : AllLive w) {a : Action} {taken : List Conn}
    (hcloses : forall c, Closes a c -> c ∈ taken)
    (htaken : forall c, c ∈ taken ->
      forall p, p ∈ w.postedAccept ++ w.posted -> p.conn ≠ c)
    {p : Posted} (hp : p ∈ w.postedAccept ++ w.posted) :
    Kept w (act w a) p.conn False := by
  rcases act_slot w a p.conn with hkept | hzero | hretaken
  · refine ⟨hkept.gen, hkept.reinits, hkept.inst, hkept.accepted,
      hkept.fd.imp id ?_⟩
    rintro ⟨hclose, -⟩
    exact absurd rfl (htaken p.conn (hcloses _ hclose) p hp)
  · exact absurd hzero (h.gen_ne hp)
  · obtain ⟨s, rfl, hpossible, hget⟩ := hretaken.taken
    exact absurd (h.sound.get.1 p.conn hget).1 (h.opened hp)

theorem AllLive.of_kept {w' : World} (h : AllLive w) (hsound : Sound w')
    (haccept : w'.postedAccept = w.postedAccept) (hposted : w'.posted = w.posted)
    (hkept : forall p, p ∈ w.postedAccept ++ w.posted ->
      Kept w w' p.conn False) : AllLive w' := by
  refine ⟨hsound, ?_, ?_, ?_⟩
  · intro p hp
    rw [haccept, hposted] at hp
    obtain ⟨hgen, hfd, hopen⟩ := h.live p hp
    have hk := hkept p hp
    exact ⟨hk.gen.trans hgen, (hk.fd.resolve_right (fun hc => hc.1)).trans hfd, hopen⟩
  · intro p hp
    rw [haccept] at hp
    exact ((hkept p (List.mem_append_left _ hp)).isAccept _).mpr (h.accept p hp)
  · intro p hp
    rw [hposted] at hp
    rw [(hkept p (List.mem_append_right _ hp)).isAccept]
    exact h.ordinary p hp

theorem AllLive.acts (h : AllLive w) {taken : List Conn} {as : List Action}
    (has : AcceptActs taken w as)
    (htaken : forall c, c ∈ taken ->
      forall p, p ∈ w.postedAccept ++ w.posted -> p.conn ≠ c) :
    AllLive (acts w as) ∧ (acts w as).torn = w.torn := by
  induction as generalizing w taken with
  | nil => exact ⟨h, rfl⟩
  | cons a as ih =>
      obtain ⟨hcloses, has⟩ := has
      have hlive : AllLive (act w a) :=
        h.of_kept (h.sound.act a) (postedAccept_act w a) (posted_act w a)
          (fun p hp => h.kept hcloses htaken hp)
      have htorn : (act w a).torn = w.torn :=
        torn_act (fun p hp => h.gen_ne hp) (fun c hc p hp => h.notTaken hc hp)
      obtain ⟨hrest, hrestTorn⟩ := ih hlive has (by
        rw [postedAccept_act, posted_act]
        intro c hc p hp
        rcases List.mem_append.mp hc with hc | hc
        · exact h.notTaken hc hp
        · exact htaken c hc p hp)
      exact ⟨hrest, hrestTorn.trans htorn⟩

def handled (p : Posted) : Invocation :=
  ⟨p.conn, p.kind, p.gen, p.fd, p.gen, p.fd⟩

theorem posted_runHandler (H : Handlers) (w : World) (p : Posted) :
    (runHandler H w p.kind p.conn p.gen p.fd none).posted = w.posted ∧
      (runHandler H w p.kind p.conn p.gen p.fd none).postedAccept =
        w.postedAccept :=
  ⟨congrArg (fun t => t.2.2.2.2) (turn_acts _ _),
    congrArg (fun t => t.2.2.2.1) (turn_acts _ _)⟩

theorem AllLive.processAccept {H : Handlers} (hH : HandlerKinds H)
    (h : AllLive w) :
    let w' := processPosted H true w w.postedAccept
    AllLive w' ∧ w'.torn = w.torn ∧ w'.postedAccept = [] ∧
      w'.posted = w.posted ∧ w'.log = w.log ++ w.postedAccept.map handled := by
  generalize hq : w.postedAccept = q
  induction q generalizing w with
  | nil => exact ⟨h, rfl, hq, rfl, by simp [processPosted]⟩
  | cons p q ih =>
      have hp : p ∈ w.postedAccept ++ w.posted := by simp [hq]
      obtain ⟨hgen, hfd, hopen⟩ := h.live p hp
      have hpopped : AllLive { w with postedAccept := q } := by
        refine ⟨h.sound, fun p' hp' => h.live p' ?_, fun p' hp' => h.accept p' ?_,
          h.ordinary⟩
        · rw [hq]
          exact List.mem_cons_of_mem _ hp'
        · rw [hq]
          exact List.mem_cons_of_mem _ hp'
      have hlogged : AllLive { w with
          postedAccept := q
          log := w.log ++ [⟨p.conn, p.kind, p.gen, p.fd, w.gen p.conn,
            (w.mem p.conn).fd⟩]
          half := none } :=
        ⟨hpopped.sound, hpopped.live, hpopped.accept, hpopped.ordinary⟩
      have haccept : IsAccept w p.kind p.conn :=
        h.accept p (by rw [hq]; exact List.mem_cons_self ..)
      obtain ⟨hacts, htorn⟩ := hlogged.acts ((hH _ p.kind p.conn).1 haccept)
        (fun _ hc => absurd hc List.not_mem_nil)
      obtain ⟨hpostedActs, hacceptActs⟩ :=
        posted_runHandler H { w with postedAccept := q } p
      have hrun : AllLive (runHandler H { w with postedAccept := q } p.kind p.conn
          p.gen p.fd none) :=
        ⟨hacts.sound, hacts.live, hacts.accept, hacts.ordinary⟩
      have hdone := ih hrun hacceptActs
      have hcond : (w.mem p.conn).fd ≠ ngxInvalidFile := by
        rw [hfd]
        exact hopen
      have hstep : processPosted H true w (p :: q) = processPosted H true
          (runHandler H { w with postedAccept := q } p.kind p.conn p.gen p.fd none)
          q := by
        rw [processPosted, if_pos rfl]
        exact congrArg (processPosted H true · q) (if_pos hcond)
      rw [hstep]
      refine ⟨hdone.1, hdone.2.1.trans htorn, hdone.2.2.1,
        hdone.2.2.2.1.trans hpostedActs, ?_⟩
      have hlog : (runHandler H { w with postedAccept := q } p.kind p.conn p.gen
          p.fd none).log = w.log ++ [handled p] := by
        refine (log_acts _ _).trans ?_
        dsimp only
        rw [hgen, hfd]
        rfl
      rw [hdone.2.2.2.2, hlog, List.map_cons, List.append_assoc]
      rfl

end Accept

/-!
## While the other events are handled
-/

theorem takenBy_ordinary {w : World} {a : Action}
    (ha : forall s, a ≠ Action.accept s) : takenBy w a = [] := by
  cases a with
  | accept s => exact absurd rfl (ha s)
  | _ => rfl

theorem kept_ordinary {w : World} {as : List Action} (has : OrdinaryActs as)
    {d : Conn} (hgen : w.gen d ≠ 0) : Kept w (acts w as) d True := by
  induction as generalizing w with
  | nil => exact Kept.refl w d True
  | cons a as ih =>
      have hstep : Kept w (act w a) d True := by
        rcases act_slot w a d with hkept | hzero | hretaken
        · exact ⟨hkept.gen, hkept.reinits, hkept.inst, hkept.accepted,
            hkept.fd.imp id fun hfd => ⟨trivial, hfd.2⟩⟩
        · exact absurd hzero hgen
        · obtain ⟨s, rfl, -, -⟩ := hretaken.taken
          exact absurd (List.mem_cons_self ..) (has s)
      refine hstep.trans (ih (fun s hs => has s (List.mem_cons_of_mem _ hs)) ?_)
      rw [hstep.gen]
      exact hgen

theorem torn_ordinary {w : World} {as : List Action} (has : OrdinaryActs as)
    (hgen : forall p, p ∈ w.postedAccept ++ w.posted -> w.gen p.conn ≠ 0) :
    (acts w as).torn = w.torn := by
  induction as generalizing w with
  | nil => rfl
  | cons a as ih =>
      have hone : OrdinaryActs [a] := by
        intro s hs
        exact has s (by rw [List.mem_singleton.mp hs]; exact List.mem_cons_self ..)
      have htorn : (act w a).torn = w.torn := by
        refine torn_act hgen ?_
        rw [takenBy_ordinary
          (fun s hs => hone s (by rw [hs]; exact List.mem_singleton_self _))]
        exact fun c hc => absurd hc List.not_mem_nil
      refine (ih (fun s hs => has s (List.mem_cons_of_mem _ hs)) ?_).trans htorn
      rw [postedAccept_act, posted_act]
      intro p hp
      have hkept : Kept w (act w a) p.conn True := kept_ordinary hone (hgen p hp)
      rw [hkept.gen]
      exact hgen p hp

/-- The connection is the one that the event was posted for, or it was closed
since. -/
def Held (w : World) (p : Posted) : Prop :=
  w.gen p.conn = p.gen ∧ w.gen p.conn ≠ 0 ∧
    ((w.mem p.conn).fd = p.fd ∨ (w.mem p.conn).fd = ngxInvalidFile) ∧
    ¬ IsAccept w p.kind p.conn

theorem Held.kept {w w' : World} {p : Posted} {closing : Prop} (h : Held w p)
    (hk : Kept w w' p.conn closing) : Held w' p := by
  obtain ⟨hgen, hne, hfd, hkind⟩ := h
  refine ⟨hk.gen.trans hgen, by rw [hk.gen]; exact hne, ?_, ?_⟩
  · rcases hk.fd with hsame | ⟨-, hclosed⟩
    · rw [hsame]
      exact hfd
    · exact Or.inr hclosed
  · rw [hk.isAccept]
    exact hkind

theorem processPosted_opened (H : Handlers) {w : World} {p : Posted}
    (q : List Posted) (hopen : (w.mem p.conn).fd ≠ ngxInvalidFile) :
    processPosted H false w (p :: q) = processPosted H false
      (runHandler H { w with posted := q } p.kind p.conn p.gen p.fd none) q := by
  rw [processPosted]
  exact congrArg (processPosted H false · q) (if_pos hopen)

theorem processPosted_closed (H : Handlers) {w : World} {p : Posted}
    (q : List Posted) (hopen : ¬ (w.mem p.conn).fd ≠ ngxInvalidFile) :
    processPosted H false w (p :: q) =
      processPosted H false { w with posted := q } q := by
  rw [processPosted]
  exact congrArg (processPosted H false · q) (if_neg hopen)

/-- The other queue is emptied; its events are handled in order, except those
whose connection was closed in the meantime. -/
theorem processOrdinary {H : Handlers} (hH : HandlerKinds H) {w : World}
    (hsound : Sound w) (hnone : w.postedAccept = [])
    (hheld : forall p, p ∈ w.posted -> Held w p) :
    let w' := processPosted H false w w.posted
    Sound w' ∧ w'.torn = w.torn ∧ w'.postedAccept = [] ∧ w'.posted = [] ∧
      (forall d, w.gen d ≠ 0 -> Kept w w' d True) ∧
      exists calls : List Posted, calls.Sublist w.posted ∧
        w'.log = w.log ++ calls.map handled ∧
        forall p, p ∈ w.posted -> p ∉ calls ->
          (w'.mem p.conn).fd = ngxInvalidFile := by
  generalize hq : w.posted = q
  induction q generalizing w with
  | nil =>
      exact ⟨hsound, rfl, hnone, hq, fun d _ => Kept.refl w d True, [],
        List.Sublist.refl [], by simp [processPosted],
        fun p hp => absurd hp List.not_mem_nil⟩
  | cons p q ih =>
      have hrest : forall p', p' ∈ q -> Held w p' :=
        fun p' hp' => hheld p' (by rw [hq]; exact List.mem_cons_of_mem _ hp')
      obtain ⟨hgen, hne, hfd, hkind⟩ :=
        hheld p (by rw [hq]; exact List.mem_cons_self ..)
      by_cases hopen : (w.mem p.conn).fd ≠ ngxInvalidFile
      · -- the handler is called and closes what it likes
        have hord : OrdinaryActs (H _ p.kind p.conn) :=
          (hH { w with
            posted := q
            log := w.log ++ [⟨p.conn, p.kind, p.gen, p.fd, w.gen p.conn,
              (w.mem p.conn).fd⟩]
            half := none } p.kind p.conn).2 hkind
        have hkept : forall d, w.gen d ≠ 0 -> Kept w
            (runHandler H { w with posted := q } p.kind p.conn p.gen p.fd none)
            d True := by
          intro d hd
          have hacts := kept_ordinary (w := { w with
            posted := q
            log := w.log ++ [⟨p.conn, p.kind, p.gen, p.fd, w.gen p.conn,
              (w.mem p.conn).fd⟩]
            half := none }) hord hd
          exact ⟨hacts.gen, hacts.reinits, hacts.inst, hacts.accepted, hacts.fd⟩
        obtain ⟨hposted, haccept⟩ := posted_runHandler H { w with posted := q } p
        have htorn : (runHandler H { w with posted := q } p.kind p.conn p.gen p.fd
            none).torn = w.torn := by
          refine torn_ordinary (w := { w with
            posted := q
            log := w.log ++ [⟨p.conn, p.kind, p.gen, p.fd, w.gen p.conn,
              (w.mem p.conn).fd⟩]
            half := none }) hord ?_
          intro p' hp'
          dsimp only at hp'
          rw [hnone] at hp'
          exact (hrest p' hp').2.1
        have hsound' : Sound (runHandler H { w with posted := q } p.kind p.conn
            p.gen p.fd none) := Sound.runHandler (w := { w with posted := q })
          hsound H p.kind p.conn p.gen p.fd none
        obtain ⟨hs, ht, ha, hp0, hk, calls, hsub, hlog, hclosed⟩ := ih hsound'
          (haccept.trans hnone)
          (by
            rw [hposted]
            exact fun p' hp' => (hrest p' hp').kept (hkept _ (hrest p' hp').2.1))
          hposted
        rw [processPosted_opened H q hopen]
        refine ⟨hs, ht.trans htorn, ha, hp0, ?_, p :: calls, hsub.cons_cons p, ?_, ?_⟩
        · intro d hd
          refine (hkept d hd).trans (hk d ?_)
          rw [(hkept d hd).gen]
          exact hd
        · have hcall : (runHandler H { w with posted := q } p.kind p.conn p.gen
              p.fd none).log = w.log ++ [handled p] := by
            refine (log_acts _ _).trans ?_
            dsimp only
            rw [hgen, hfd.resolve_right hopen]
            rfl
          rw [hlog, hcall, List.map_cons, List.append_assoc]
          rfl
        · intro p' hp' hnot
          obtain ⟨hne', hnot'⟩ := not_or.mp (fun h => hnot (List.mem_cons.mpr h))
          exact hclosed p' ((List.mem_cons.mp hp').resolve_left hne') hnot'
      · -- the connection was closed by an earlier handler
        have hclosedNow : (w.mem p.conn).fd = ngxInvalidFile := not_not.mp hopen
        obtain ⟨hs, ht, ha, hp0, hk, calls, hsub, hlog, hclosed⟩ :=
          ih (w := { w with posted := q }) hsound hnone hrest rfl
        have hk' : forall d, w.gen d ≠ 0 -> Kept w
            (processPosted H false { w with posted := q } q) d True := by
          intro d hd
          have hkd := hk d hd
          exact ⟨hkd.gen, hkd.reinits, hkd.inst, hkd.accepted, hkd.fd⟩
        rw [processPosted_closed H q hopen]
        refine ⟨hs, ht, ha, hp0, hk', calls, hsub.cons p, hlog, ?_⟩
        intro p' hp' hnot
        rcases List.mem_cons.mp hp' with rfl | hp'
        · rcases (hk' p'.conn hne).fd with hsame | ⟨-, hinv⟩
          · rw [hsame]
            exact hclosedNow
          · exact hinv
        · exact hclosed p' hp' hnot

/-!
## Collecting a batch
-/

def postedKeys (w : World) : List (Conn × Kind) :=
  (w.postedAccept ++ w.posted).map fun p => (p.conn, p.kind)

section Collect

variable {w : World} {e : EpollEvent}

theorem AllLive.setReady (h : AllLive w) (k : Kind) (c : Conn) (b : Bool) :
    AllLive (setReady w k c b) :=
  h.of_kept (h.sound.setReady k c b) rfl rfl
    (fun p _ => kept_setEvent w k c p.conn _ False rfl rfl)

theorem AllLive.lastInst (h : AllLive w) (c : Conn) (b : Bool) :
    AllLive { w with
      mem := Function.update w.mem c
        { w.mem c with read := { (w.mem c).read with lastInst := b } } } :=
  h.of_kept (h.sound.lastInst c b) rfl rfl
    (fun p _ => kept_setEvent w Kind.read c p.conn
      { (w.mem c).read with lastInst := b } False rfl rfl)

theorem AllLive.postEvent (h : AllLive w) (k : Kind) (accepted : Bool)
    (hopen : (w.mem e.conn).fd ≠ ngxInvalidFile)
    (hkind : IsAccept w k e.conn ↔ accepted = true) :
    AllLive (postEvent w k e accepted) ∧
      (postedKeys (postEvent w k e accepted)).Perm
        ((e.conn, k) :: postedKeys w) := by
  have hlive : Live w ⟨e.conn, k, w.gen e.conn, (w.mem e.conn).fd⟩ :=
    ⟨rfl, rfl, hopen⟩
  unfold Events.postEvent
  cases accepted with
  | true =>
      refine ⟨⟨h.sound, ?_, ?_, h.ordinary⟩, ?_⟩
      · intro p hp
        have hp' : p ∈ w.postedAccept ++ w.posted ∨
            p = ⟨e.conn, k, w.gen e.conn, (w.mem e.conn).fd⟩ := by
          simp only [if_true, List.mem_append, List.mem_singleton] at hp ⊢
          tauto
        rcases hp' with hp | rfl
        · exact h.live p hp
        · exact hlive
      · intro p hp
        rcases List.mem_append.mp hp with hp | hp
        · exact h.accept p hp
        · rw [List.mem_singleton.mp hp]
          exact hkind.mpr rfl
      · simp only [postedKeys, if_true, List.append_assoc, List.map_append,
          List.map_cons, List.singleton_append]
        exact List.perm_middle
  | false =>
      refine ⟨⟨h.sound, ?_, h.accept, ?_⟩, ?_⟩
      · intro p hp
        have hp' : p ∈ w.postedAccept ++ w.posted ∨
            p = ⟨e.conn, k, w.gen e.conn, (w.mem e.conn).fd⟩ := by
          simp only [Bool.false_eq_true, if_false, List.mem_append,
            List.mem_singleton] at hp ⊢
          tauto
        rcases hp' with hp | rfl
        · exact h.live p hp
        · exact hlive
      · intro p hp
        rcases List.mem_append.mp hp with hp | hp
        · exact h.ordinary p hp
        · rw [List.mem_singleton.mp hp]
          exact fun hacc => absurd (hkind.mp hacc) (by decide)
      · simp only [postedKeys, Bool.false_eq_true, if_false, ← List.append_assoc,
          List.map_append, List.map_cons, List.map_nil]
        exact List.perm_append_singleton _ _

/-- `w'` has the events `new` in its queues besides those of `w`. -/
structure Posts (w w' : World) (new : List (Conn × Kind)) : Prop where
  live : AllLive w'
  keys : (postedKeys w').Perm (new ++ postedKeys w)
  log : w'.log = w.log
  torn : w'.torn = w.torn

theorem Posts.refl (h : AllLive w) : Posts w w [] :=
  ⟨h, List.Perm.refl _, rfl, rfl⟩

theorem Posts.trans {w' w'' : World} {new new' : List (Conn × Kind)}
    (h : Posts w w' new) (h' : Posts w' w'' new') :
    Posts w w'' (new' ++ new) := by
  refine ⟨h'.live, ?_, h'.log.trans h.log, h'.torn.trans h.torn⟩
  rw [List.append_assoc]
  exact h'.keys.trans (h.keys.append_left new')

theorem log_postEvent (w : World) (k : Kind) (e : EpollEvent) (accepted : Bool) :
    (postEvent w k e accepted).log = w.log ∧
      (postEvent w k e accepted).torn = w.torn := by
  unfold postEvent
  split <;> exact ⟨rfl, rfl⟩

theorem posts_postEvent (h : AllLive w) (k : Kind) (accepted : Bool)
    (hopen : (w.mem e.conn).fd ≠ ngxInvalidFile)
    (hkind : IsAccept w k e.conn ↔ accepted = true) :
    Posts w
      (postEvent
        { setReady w k e.conn true with
          mem := Function.update (setReady w k e.conn true).mem e.conn
            { (setReady w k e.conn true).mem e.conn with
              read :=
                { ((setReady w k e.conn true).mem e.conn).read with
                  lastInst := e.inst } } }
        k e accepted)
      [(e.conn, k)] := by
  have hflags := (h.setReady k e.conn true).lastInst e.conn e.inst
  have hready : Kept w (setReady w k e.conn true) e.conn False :=
    kept_setEvent w k e.conn e.conn _ False rfl rfl
  have hlast := hready.trans (kept_setEvent (setReady w k e.conn true) Kind.read
    e.conn e.conn
    { ((setReady w k e.conn true).mem e.conn).read with lastInst := e.inst }
    False rfl rfl)
  obtain ⟨hlive, hkeys⟩ := hflags.postEvent k accepted (e := e)
    (by
      intro hclosed
      exact hopen ((hlast.fd.resolve_right fun hc => hc.1).symm.trans hclosed))
    ((hlast.isAccept k).trans hkind)
  exact ⟨hlive, hkeys, (log_postEvent _ _ _ _).1, (log_postEvent _ _ _ _).2⟩

theorem posts_setReady (h : AllLive w) (k : Kind) (c : Conn) (b : Bool) :
    Posts w (setReady w k c b) [] :=
  ⟨h.setReady k c b, List.Perm.refl _, rfl, rfl⟩

theorem posts_writePart (H : Handlers) (h : AllLive w) (events : BitVec 32) :
    exists new, (new = [] ∨ new = [(e.conn, Kind.write)]) ∧
      Posts w (writePart H true w e events) new := by
  dsimp only [writePart]
  split
  · rename_i hout
    split
    · exact ⟨[], Or.inl rfl, posts_setReady h _ _ _⟩
    · refine ⟨[(e.conn, Kind.write)], Or.inr rfl, ?_⟩
      refine posts_postEvent h Kind.write false
        ((h.sound.slot e.conn).quiet hout.2).2 ?_
      exact ⟨fun hacc => absurd hacc.1 (by decide), fun hf => absurd hf (by decide)⟩
  · exact ⟨[], Or.inl rfl, Posts.refl h⟩

theorem posts_processEvent (H : Handlers) (h : AllLive w) (e : EpollEvent) :
    exists new : List (Conn × Kind), new.Nodup ∧
      (forall x, x ∈ new -> x.1 = e.conn) ∧
      Posts w (processEvent H true w e) new := by
  have hwrite : forall {new : List (Conn × Kind)},
      new = [] ∨ new = [(e.conn, Kind.write)] ->
        new.Nodup ∧ (forall x, x ∈ new -> x.1 = e.conn) := by
    rintro new (rfl | rfl)
    · exact ⟨List.nodup_nil, fun x hx => absurd hx List.not_mem_nil⟩
    · refine ⟨List.nodup_singleton _, fun x hx => ?_⟩
      rw [List.mem_singleton.mp hx]
  dsimp only [processEvent]
  split
  · exact ⟨[], List.nodup_nil, fun x hx => absurd hx List.not_mem_nil, Posts.refl h⟩
  · rename_i hstale
    have hopen : (w.mem e.conn).fd ≠ ngxInvalidFile := by
      simp only [isStale, Bool.or_eq_true, decide_eq_true_eq, not_or] at hstale
      exact hstale.1
    split
    · split
      · exact ⟨[], List.nodup_nil, fun x hx => absurd hx List.not_mem_nil,
          posts_setReady h _ _ _⟩
      · have hread := posts_postEvent (e := e) h Kind.read
          (w.mem e.conn).read.accepted hopen
          ⟨fun hacc => hacc.2, fun hacc => ⟨rfl, hacc⟩⟩
        obtain ⟨new, hnew, hposts⟩ := posts_writePart (e := e) H hread.live
          (effectiveEvents e.events)
        refine ⟨new ++ [(e.conn, Kind.read)], ?_, ?_, hread.trans hposts⟩
        · rcases hnew with rfl | rfl
          · exact List.nodup_singleton _
          · simp
        · intro x hx
          rcases List.mem_append.mp hx with hx | hx
          · exact (hwrite hnew).2 x hx
          · rw [List.mem_singleton.mp hx]
    · obtain ⟨new, hnew, hposts⟩ := posts_writePart (e := e) H h
        (effectiveEvents e.events)
      exact ⟨new, (hwrite hnew).1, (hwrite hnew).2, hposts⟩

theorem posts_processEvents (H : Handlers) {es : List EpollEvent} (h : AllLive w)
    (hkeys : (postedKeys w).Nodup)
    (hconns : (es.map EpollEvent.conn).Nodup)
    (hapart : forall x, x ∈ postedKeys w -> x.1 ∉ es.map EpollEvent.conn) :
    AllLive (processEvents H true w es) ∧
      (postedKeys (processEvents H true w es)).Nodup ∧
      (processEvents H true w es).log = w.log ∧
      (processEvents H true w es).torn = w.torn := by
  induction es generalizing w with
  | nil => exact ⟨h, hkeys, rfl, rfl⟩
  | cons e es ih =>
      have hpopped : AllLive { w with pending := es } :=
        ⟨h.sound, h.live, h.accept, h.ordinary⟩
      obtain ⟨new, hnodup, hnew, hposts⟩ := posts_processEvent H hpopped e
      rw [List.map_cons, List.nodup_cons] at hconns
      have hkeys' : (postedKeys
          (processEvent H true { w with pending := es } e)).Nodup := by
        refine hposts.keys.nodup_iff.mpr (List.nodup_append.mpr ⟨hnodup, hkeys, ?_⟩)
        rintro x hx y hy rfl
        exact hapart x hy (by rw [hnew x hx]; exact List.mem_cons_self ..)
      obtain ⟨hlive, hrest, hlog, htorn⟩ := ih hposts.live hkeys' hconns.2 (by
        intro x hx
        rcases List.mem_append.mp (hposts.keys.mem_iff.mp hx) with hx | hx
        · rw [hnew x hx]
          exact hconns.1
        · exact fun hin => hapart x hx (List.mem_cons_of_mem _ hin))
      exact ⟨hlive, hrest, hlog.trans hposts.log, htorn.trans hposts.torn⟩

end Collect

/-!
## The client thread
-/

def reportedOnce (w : World) (r : WaitResult) : Bool :=
  reported w r &&
    match r with
    | WaitResult.failed _ => true
    | WaitResult.events es => decide (es.map EpollEvent.fd).Nodup

/-- A step of the client thread: a call outside of `thread_event_process`, such
as a timer's, or one call of it. -/
inductive CliLabel where
  | act (a : Action)
  | turn (H : Handlers) (r : WaitResult)

def cliStep (w : World) : CliLabel -> Option World
  | CliLabel.act a => some (act w a)
  | CliLabel.turn H r =>
      if reportedOnce w r then some (threadEventProcess H true w r) else none

def CliHandlers (_ : World) : CliLabel -> Prop
  | CliLabel.act _ => True
  | CliLabel.turn H _ => HandlerKinds H

structure Idle (w : World) : Prop where
  sound : Sound w
  accept : w.postedAccept = []
  posted : w.posted = []
  torn : w.torn = false

theorem idle_start (n : Nat) : Idle (start n) :=
  ⟨sound_start n, rfl, rfl, rfl⟩

section Turn

variable {w : World} {H : Handlers} {r : WaitResult}

theorem Idle.allLive (h : Idle w) : AllLive w := by
  refine ⟨h.sound, ?_, ?_, ?_⟩
  · rw [h.accept, h.posted]
    exact fun p hp => absurd hp List.not_mem_nil
  · rw [h.accept]
    exact fun p hp => absurd hp List.not_mem_nil
  · rw [h.posted]
    exact fun p hp => absurd hp List.not_mem_nil

theorem Idle.act (h : Idle w) (a : Action) : Idle (act w a) := by
  refine ⟨h.sound.act a, (postedAccept_act w a).trans h.accept,
    (posted_act w a).trans h.posted, ?_⟩
  refine (torn_act ?_ ?_).trans h.torn
  · exact fun p hp => h.allLive.gen_ne hp
  · exact fun c hc p hp => h.allLive.notTaken hc hp

theorem nodup_conns (h : Sound w) {es : List EpollEvent}
    (hentries : forall e, e ∈ es -> w.entry e.fd = some ⟨e.conn, e.inst, e.gen⟩)
    (hfds : (es.map EpollEvent.fd).Nodup) : (es.map EpollEvent.conn).Nodup := by
  obtain ⟨xs, ys, h⟩ := h
  refine List.Nodup.map_on ?_ (List.Nodup.of_map _ hfds)
  intro e he e' he' hconn
  refine List.inj_on_of_nodup_map hfds he he' ?_
  have hfd := (h.entries _ _ (hentries e he)).2.1
  have hfd' := (h.entries _ _ (hentries e' he')).2.1
  dsimp only at hfd hfd'
  rw [← hfd, ← hfd', hconn]

theorem Idle.collect (h : Idle w) (hr : reportedOnce w r = true) :
    let w1 := (epollProcessEvents H false true w r).2
    AllLive w1 ∧ (postedKeys w1).Nodup ∧ w1.log = w.log ∧ w1.torn = false := by
  have hempty : postedKeys w = [] := by
    rw [postedKeys, h.accept, h.posted]
    rfl
  have hnodup : (postedKeys w).Nodup := by
    rw [hempty]
    exact List.nodup_nil
  simp only [reportedOnce, Bool.and_eq_true] at hr
  cases r with
  | failed eintr => exact ⟨h.allLive, hnodup, rfl, h.torn⟩
  | events es =>
      cases es with
      | nil => exact ⟨h.allLive, hnodup, rfl, h.torn⟩
      | cons e es =>
          have hlive := h.allLive
          have hcollected : AllLive { w with
              reinits := fun _ => 0
              pending := e :: es } :=
            ⟨hlive.sound, hlive.live, hlive.accept, hlive.ordinary⟩
          have hconns := nodup_conns h.sound
            (fun e' he' => of_decide_eq_true (List.all_eq_true.mp hr.1 e' he'))
            (of_decide_eq_true hr.2)
          obtain ⟨h1, h2, h3, h4⟩ := posts_processEvents H hcollected hnodup hconns
            (by
              intro x hx
              have hx' : x ∈ postedKeys w := hx
              rw [hempty] at hx'
              exact absurd hx' List.not_mem_nil)
          exact ⟨h1, h2, h3, h4.trans h.torn⟩

theorem threadEventProcess_eq (H : Handlers) (w : World) (r : WaitResult) :
    threadEventProcess H true w r = eventProcessPosted H false
      (eventProcessPosted H true (epollProcessEvents H false true w r).2) := by
  have haccept : forall w1 : World, (if (true && !w1.postedAccept.isEmpty) = true
      then eventProcessPosted H true w1 else w1) = eventProcessPosted H true w1 := by
    intro w1
    cases hq : w1.postedAccept with
    | nil => simp [eventProcessPosted, hq, processPosted]
    | cons p q => simp
  have hposted : forall w2 : World, (if (true && !w2.posted.isEmpty) = true
      then eventProcessPosted H false w2 else w2) = eventProcessPosted H false w2 := by
    intro w2
    cases hq : w2.posted with
    | nil => simp [eventProcessPosted, hq, processPosted]
    | cons p q => simp
  dsimp only [threadEventProcess]
  rw [haccept, hposted]

theorem Idle.turn (h : Idle w) (hH : HandlerKinds H)
    (hr : reportedOnce w r = true) :
    let w1 := (epollProcessEvents H false true w r).2
    let w' := threadEventProcess H true w r
    Idle w' ∧ AllLive w1 ∧ (postedKeys w1).Nodup ∧
      exists calls : List Posted, calls.Sublist w1.posted ∧
        w'.log = w.log ++ (w1.postedAccept ++ calls).map handled ∧
        forall p, p ∈ w1.posted -> p ∉ calls ->
          (w'.mem p.conn).fd = ngxInvalidFile := by
  obtain ⟨hlive, hkeys, hlog, htorn⟩ := h.collect (H := H) hr
  dsimp only at hlive hkeys hlog htorn ⊢
  rw [threadEventProcess_eq]
  generalize (epollProcessEvents H false true w r).2 = w1 at hlive hkeys hlog htorn
  obtain ⟨hlive2, htorn2, haccept2, hposted2, hlog2⟩ := hlive.processAccept hH
  have hsame : eventProcessPosted H true w1 =
      processPosted H true w1 w1.postedAccept := rfl
  rw [hsame]
  generalize processPosted H true w1 w1.postedAccept = w2 at hlive2 htorn2 haccept2 hposted2 hlog2
  obtain ⟨hsound, htorn3, haccept3, hposted3, -, calls, hsub, hlog3, hclosed⟩ :=
    processOrdinary hH hlive2.sound haccept2 (by
      intro p hp
      have hin := List.mem_append_right w2.postedAccept hp
      obtain ⟨hgen, hfd, -⟩ := hlive2.live p hin
      exact ⟨hgen, hlive2.gen_ne hin, Or.inl hfd, hlive2.ordinary p hp⟩)
  have hsame3 : eventProcessPosted H false w2 =
      processPosted H false w2 w2.posted := rfl
  rw [hsame3]
  refine ⟨⟨hsound, haccept3, hposted3, htorn3.trans (htorn2.trans htorn)⟩, hlive,
    hkeys, calls, hposted2 ▸ hsub, ?_, ?_⟩
  · rw [hlog3, hlog2, hlog, List.map_append, List.append_assoc]
  · rw [← hposted2]
    exact hclosed

end Turn

theorem idle_run {n : Nat} {w : World}
    (hrun : Reaches cliStep CliHandlers (start n) w) : Idle w := by
  refine hrun.invariant Idle ?_ (idle_start n)
  intro t a u hidle hok hstep
  cases a with
  | act a =>
      cases hstep
      exact hidle.act a
  | turn H r =>
      simp only [cliStep] at hstep
      split at hstep
      · rename_i hr
        cases hstep
        exact (hidle.turn hok hr).1
      · cases hstep

/-- In every turn of the client thread, a handler is only called for a
connection that is as it was when the batch was collected, and every posted
event is handled once, or its connection was closed before its turn and it is
not handled; nothing stays posted. -/
theorem posted_handled_once (n : Nat) (w : World)
    (hrun : Reaches cliStep CliHandlers (start n) w) (H : Handlers)
    (hH : HandlerKinds H) (r : WaitResult) (hr : reportedOnce w r = true) :
    let w1 := (epollProcessEvents H false true w r).2
    let w' := threadEventProcess H true w r
    exists calls, w'.log = w.log ++ calls ∧
      (forall i, i ∈ calls -> i.gen = w1.gen i.conn ∧
        i.fd = (w1.mem i.conn).fd ∧ i.fd ≠ ngxInvalidFile ∧
        (i.conn, i.kind) ∈ postedKeys w1) ∧
      (forall x, x ∈ postedKeys w1 ->
        (calls.map fun i => (i.conn, i.kind)).count x = 1 ∨
          ((calls.map fun i => (i.conn, i.kind)).count x = 0 ∧
            (w'.mem x.1).fd = ngxInvalidFile)) ∧
      w'.postedAccept = [] ∧ w'.posted = [] ∧ w'.torn = false := by
  obtain ⟨hidle, hlive, hkeys, calls, hsub, hlog, hclosed⟩ :=
    (idle_run hrun).turn hH hr
  dsimp only
  refine ⟨_, hlog, ?_, ?_, hidle.accept, hidle.posted, hidle.torn⟩
  · intro i hi
    obtain ⟨p, hp, rfl⟩ := List.mem_map.mp hi
    have hin : p ∈ (epollProcessEvents H false true w r).2.postedAccept ++
        (epollProcessEvents H false true w r).2.posted :=
      (List.Sublist.append_left hsub _).subset hp
    obtain ⟨hgen, hfd, hopen⟩ := hlive.live p hin
    exact ⟨hgen.symm, hfd.symm, hopen, List.mem_map.mpr ⟨p, hin, rfl⟩⟩
  · have hcalls : ((((epollProcessEvents H false true w r).2.postedAccept ++
        calls).map handled).map fun i => (i.conn, i.kind)) =
        ((epollProcessEvents H false true w r).2.postedAccept ++ calls).map
          fun p => (p.conn, p.kind) := by
      rw [List.map_map]
      rfl
    have hnodup : (((epollProcessEvents H false true w r).2.postedAccept ++
        calls).map fun p => (p.conn, p.kind)).Nodup :=
      ((List.Sublist.append_left hsub _).map _).nodup hkeys
    intro x hx
    rw [hcalls]
    obtain ⟨p, hp, rfl⟩ := List.mem_map.mp hx
    by_cases hin : p ∈ (epollProcessEvents H false true w r).2.postedAccept ++ calls
    · exact Or.inl (List.count_eq_one_of_mem hnodup (List.mem_map.mpr ⟨p, hin, rfl⟩))
    · have hposted : p ∈ (epollProcessEvents H false true w r).2.posted := by
        rcases List.mem_append.mp hp with hacc | hpost
        · exact absurd (List.mem_append_left _ hacc) hin
        · exact hpost
      refine Or.inr ⟨?_, hclosed p hposted
        (fun hc => hin (List.mem_append_right _ hc))⟩
      rw [List.count_eq_zero]
      intro hmem
      obtain ⟨p', hp', heq⟩ := List.mem_map.mp hmem
      -- two posted events of one kind and connection are the same
      have hin' : p' ∈ (epollProcessEvents H false true w r).2.postedAccept ++
          (epollProcessEvents H false true w r).2.posted :=
        (List.Sublist.append_left hsub _).subset hp'
      have hsame : p' = p := List.inj_on_of_nodup_map hkeys hin' hp heq
      exact hin (hsame ▸ hp')

def acceptOrRelease : Handlers := fun w k c =>
  if k = Kind.read ∧ (w.mem c).read.accepted = true then [Action.accept 6]
  else [Action.release c]

theorem handlerKinds_acceptOrRelease : HandlerKinds acceptOrRelease := by
  intro w k c
  constructor
  · rintro ⟨hk, hacc⟩
    rw [acceptOrRelease, if_pos ⟨hk, hacc⟩]
    refine ⟨?_, trivial⟩
    rintro d (hd | hd) <;> cases hd
  · intro h s hs
    have hnot : ¬ (k = Kind.read ∧ (w.mem c).read.accepted = true) := h
    rw [acceptOrRelease, if_neg hnot] at hs
    cases List.mem_singleton.mp hs

theorem posted_handled_once_both :
    exists w : World,
      let w1 := (epollProcessEvents acceptOrRelease false true w bothReadable).2
      let w' := threadEventProcess acceptOrRelease true w bothReadable
      postedKeys w1 = [((1, 0), Kind.read), ((0, 0), Kind.read)] ∧
      exists calls, w'.log = w.log ++ calls ∧
        forall x, x ∈ postedKeys w1 ->
          (calls.map fun i => (i.conn, i.kind)).count x = 1 ∨
            ((calls.map fun i => (i.conn, i.kind)).count x = 0 ∧
              (w'.mem x.1).fd = ngxInvalidFile) := by
  let ls : List CliLabel :=
    [CliLabel.act (Action.fromMem (1, 0) 3 true),
      CliLabel.act (Action.addRead (1, 0) true), CliLabel.act (Action.accept 5),
      CliLabel.act (Action.initConn (0, 0)),
      CliLabel.act (Action.handleEvent Kind.read (0, 0) true)]
  have hfacts : (runLabels cliStep (start 0) ls).map (fun w =>
      (reportedOnce w bothReadable, postedKeys
        (epollProcessEvents acceptOrRelease false true w bothReadable).2)) =
      some (true, [((1, 0), Kind.read), ((0, 0), Kind.read)]) := by
    decide +kernel
  obtain ⟨w, hw, hfacts⟩ := Option.map_eq_some_iff.mp hfacts
  have hafter : after cliStep (start 0) ls = w := by
    rw [after, hw]
    rfl
  have hrun : Reaches cliStep CliHandlers (start 0) w := by
    rw [← hafter]
    refine (Reaches.refl _).labels ?_ (by rw [hw]; rfl)
    intro a ha t
    cases a with
    | act a => trivial
    | turn H r => simp [ls] at ha
  obtain ⟨calls, hlog, -, hcount, -⟩ := posted_handled_once 0 w hrun
    acceptOrRelease handlerKinds_acceptOrRelease bothReadable
    (congrArg Prod.fst hfacts)
  exact ⟨w, congrArg Prod.snd hfacts, calls, hlog, hcount⟩

end Events
end NgxEpoll
