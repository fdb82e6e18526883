import NgxEpoll.Request.Lifetime

/-!
# Draining the output side

`nn_conn_output` packs and sends until there is nothing left to send or the
write event is not ready.  An error of `send` finalizes the connection, and for
that there must be something to send on a ready event.
-/

namespace NgxEpoll
namespace Request

open Foundation
open NgxEpoll.Core
open Common
open Relation

/-!
## Packing and sending

Nodes without data all have frames of one size, so that what is left in
`out_task` after packing does not fit whatever node it is.
-/

def Light (w : World) : Prop :=
  forall n, n ∈ w.mc.outTask -> (w.mc.nodes n).dataLen = 0

def Packed (w : World) : Prop :=
  w.mc.outTask = [] ∨ cInt (bufferFreeSize w.mc.out) < headerSize

structure Drained (w : World) : Prop where
  pos : w.mc.out.pos = w.mc.out.start
  last : w.mc.out.last = w.mc.out.start
  packed : Packed w

/-- A write event that is ready has nothing to do. -/
def Settled (w : World) : Prop :=
  w.c.write.ready = true -> Drained w

theorem Settled.of_same {w v : World} (h : Settled w)
    (hready : v.c.write.ready = w.c.write.ready) (hout : v.mc.out = w.mc.out)
    (htask : v.mc.outTask = w.mc.outTask) : Settled v := by
  intro hon
  rw [hready] at hon
  obtain ⟨hpos, hlast, hpacked⟩ := h hon
  constructor
  · rwa [hout]
  · rwa [hout]
  · unfold Packed
    rwa [hout, htask]

structure Workable (w : World) : Prop where
  ready : OutReady w
  light : Light w
  hung : w.hung = false

theorem workable_of_moves {w v : World} (h : Workable w) (hmoves : Moves w v)
    (hlight : Light v) : Workable v := by
  have hkept := outKept_of_moves h.ready hmoves
  exact ⟨hkept.ready, hlight, hkept.hung.trans h.hung⟩

theorem encodeNode_light {w : World} (h : Workable w) {n : Nat}
    {rest : List Nat} (hout : w.mc.outTask = n :: rest) :
    (encodeCode w n = ngxOk ∧ headerSize ≤ cInt (bufferFreeSize w.mc.out)) ∨
      (encodeCode w n = ngxAgain ∧ encodeNode w n = w ∧
        cInt (bufferFreeSize w.mc.out) < headerSize) := by
  have hn : n ∈ w.mc.outTask := by
    rw [hout]
    exact List.mem_cons_self
  have hsize : (w.mc.nodes n).frameSize = headerSize := by
    rw [TaskT.frameSize, h.light n hn]
    decide
  rw [← hsize]
  exact (encodeNode_cases h.ready hn).imp_left (fun hok => ⟨hok.1, hok.2.1⟩)

structure PackKept (w v : World) : Prop where
  control : v.control = w.control
  env : v.env = w.env
  pos : v.mc.out.pos = w.mc.out.pos
  start : v.mc.out.start = w.mc.out.start
  workable : Workable v

theorem PackKept.trans {w v u : World} (h : PackKept w v)
    (h' : PackKept v u) : PackKept w u where
  control := h'.control.trans h.control
  env := h'.env.trans h.env
  pos := h'.pos.trans h.pos
  start := h'.start.trans h.start
  workable := h'.workable

theorem packKept_encode {w : World} (hlive : Live w) (h : Workable w) {n : Nat}
    {rest : List Nat} (hout : w.mc.outTask = n :: rest)
    (hcode : encodeCode w n = ngxOk) :
    PackKept w (nnConnFreeTask (popOut (encodeNode w n) rest) n) := by
  have hn : n ∈ w.mc.outTask := by
    rw [hout]
    exact List.mem_cons_self
  have hmove := Move.encode w n rest hout (Or.inl hcode)
  let v : World := popOut (encodeNode w n) rest
  have hv : Live v := live_of_control hlive rfl
  have hbytes := bytes_nnConnFreeTask v n
  obtain ⟨hqueue, _, hother⟩ := mc_nnConnFreeTask v n
  have hpos : v.mc.out.pos = w.mc.out.pos ∧ v.mc.out.start = w.mc.out.start := by
    rcases encodeNode_cases h.ready hn with ⟨_, _, henc⟩ | ⟨hagain, _, _⟩
    · exact ⟨by simp only [v, popOut, henc], by simp only [v, popOut, henc]⟩
    · rw [hagain] at hcode
      exact absurd hcode (by decide)
  refine ⟨control_nnConnFreeTask hv n, congrArg Bytes.env hbytes, ?_, ?_,
    workable_of_moves h (Moves.single hmove) ?_⟩
  · exact (congrArg (fun b => b.out.pos) hbytes).trans hpos.1
  · exact (congrArg (fun b => b.out.start) hbytes).trans hpos.2
  · intro m hm
    have hrest : m ∈ rest := by
      rw [hqueue] at hm
      exact hm
    have hnodup := h.ready.nodup
    rw [hout] at hnodup
    have hne : m ≠ n := by
      rintro rfl
      exact (List.nodup_cons.mp hnodup).1 hrest
    rw [hother m hne]
    refine h.light m ?_
    rw [hout]
    exact List.mem_cons_of_mem n hrest

theorem nnConnPackTurn_cases {w : World} (hlive : Live w) (h : Workable w) :
    (nnConnPackTurn w = Turn.done w ∧ Packed w) ∨
      exists v, nnConnPackTurn w = Turn.next v ∧ PackKept w v ∧
        v.mc.outTask.length < w.mc.outTask.length := by
  simp only [nnConnPackTurn, hlive.useMc_eq]
  cases hout : w.mc.outTask with
  | nil => exact Or.inl ⟨rfl, Or.inl hout⟩
  | cons n rest =>
      simp only
      rcases encodeNode_light h hout with ⟨hok, _⟩ | ⟨hagain, hsame, hfull⟩
      · rw [if_pos hok]
        refine Or.inr ⟨_, rfl, packKept_encode hlive h hout hok, ?_⟩
        rw [(mc_nnConnFreeTask _ n).1]
        exact Nat.lt_succ_self _
      · rw [if_neg (by rw [hagain]; decide), if_pos hagain, hsame]
        exact Or.inl ⟨rfl, Or.inr hfull⟩

theorem nnConnPack_spec {w : World} (hlive : Live w) (h : Workable w) :
    PackKept w (nnConnPack w) ∧ Packed (nnConnPack w) := by
  have hlow : Lowers (PackKept w) (fun v => v.mc.outTask.length)
      nnConnPackTurn := by
    intro v v' hv hturn
    rcases nnConnPackTurn_cases (live_of_control hlive hv.control) hv.workable
      with ⟨hdone, _⟩ | ⟨u, hnext, hkept, hlt⟩
    · rw [hdone] at hturn
      cases hturn
    · rw [hnext] at hturn
      cases hturn
      exact ⟨hv.trans hkept, hlt⟩
  refine loop_rule hlow id (fun v => PackKept w v ∧ Packed v) ?_
    ⟨rfl, rfl, rfl, rfl, h⟩
  intro v r hv hturn
  rcases nnConnPackTurn_cases (live_of_control hlive hv.control) hv.workable
    with ⟨hdone, hpacked⟩ | ⟨u, hnext, _, _⟩
  · rw [hdone] at hturn
    cases hturn
    exact ⟨hv, hpacked⟩
  · rw [hnext] at hturn
    cases hturn

theorem repack_spec {w : World} (hlive : Live w) (h : Workable w) :
    let v := nnConnPack (shrinkOut w)
    v.control = w.control ∧ v.env = w.env ∧ v.mc.out.pos = v.mc.out.start ∧
      Workable v ∧ Packed v := by
  have hshrink : Workable (shrinkOut w) :=
    workable_of_moves h (Moves.single (Move.shrink w)) h.light
  obtain ⟨hkept, hpacked⟩ := nnConnPack_spec
    (live_of_control (v := shrinkOut w) hlive rfl) hshrink
  refine ⟨hkept.control, hkept.env, ?_, hkept.workable, hpacked⟩
  rw [hkept.pos, hkept.start]
  simp only [shrinkOut, bufferShrink_eq h.ready.wf h.ready.size_lt]

theorem repack_of_drained {w : World} (hlive : Live w) (h : Workable w)
    (hdrained : Drained w) : nnConnPack (shrinkOut w) = w := by
  have hshrink : shrinkOut w = w := by
    simp only [shrinkOut, bufferShrink_of_start hdrained.pos.symm]
  rw [hshrink]
  apply loop_done
  simp only [nnConnPackTurn, hlive.useMc_eq]
  cases hout : w.mc.outTask with
  | nil => rfl
  | cons n rest =>
      simp only
      rcases encodeNode_light h hout with ⟨_, hfit⟩ | ⟨hagain, hsame, _⟩
      · rcases hdrained.packed with hnil | hfull
        · rw [hout] at hnil
          cases hnil
        · omega
      · rw [if_neg (by rw [hagain]; decide), if_pos hagain, hsame]

/-!
## Sending
-/

structure SendKept (w v : World) : Prop where
  c : v.c = { w.c with write := { w.c.write with ready := v.c.write.ready } }
  mc : v.mc = { w.mc with out := v.mc.out }
  trace : v.trace = { w.trace with sent := v.trace.sent }

theorem SendKept.refl (w : World) : SendKept w w :=
  ⟨rfl, rfl, rfl⟩

theorem SendKept.trans {w v u : World} (h : SendKept w v)
    (h' : SendKept v u) : SendKept w u where
  c := by rw [h'.c, h.c]
  mc := by rw [h'.mc, h.mc]
  trace := by rw [h'.trace, h.trace]

theorem SendKept.open {posted : Bool} {w v : World} (h : SendKept w v)
    (hopen : Open posted w) : Open posted v := by
  refine ⟨⟨?_, ?_, ?_⟩, ?_, ?_, ?_, ?_⟩
  · rw [h.trace]
    exact hopen.destroyed
  · rw [h.trace]
    exact hopen.unused
  · rw [h.mc]
    exact hopen.state
  · rw [h.c]
    exact hopen.fd
  · rw [h.mc]
    exact hopen.connection
  · rw [h.c]
    exact hopen.timedout
  · rw [h.c, h.mc]
    exact hopen.handler

theorem SendKept.light {w v : World} (h : SendKept w v) (hlight : Light w) :
    Light v := by
  unfold Light
  rw [h.mc]
  exact hlight

/-- An answer that is no error takes a result from the script, and `EAGAIN`
clears the flag. -/
theorem sendAnswer_spec (size : Nat) (sends : List SendResult) :
    (0 ≤ (sendAnswer size sends).1 ->
        (sendAnswer size sends).2.2.length < sends.length) ∧
      ((sendAnswer size sends).1 = ngxAgain ->
        (sendAnswer size sends).2.1 = false) := by
  induction sends with
  | nil => exact ⟨fun h => absurd h (by simp [sendAnswer, ngxAgain]),
      fun _ => rfl⟩
  | cons r rest ih =>
      cases r with
      | intr =>
          exact ⟨fun h => Nat.lt_succ_of_lt (ih.1 h), ih.2⟩
      | again => exact ⟨fun _ => Nat.lt_succ_self _, fun _ => rfl⟩
      | error =>
          exact ⟨fun _ => Nat.lt_succ_self _,
            fun h => absurd h (by simp [sendAnswer, ngxAgain, ngxError])⟩
      | sent n =>
          refine ⟨fun _ => Nat.lt_succ_self _, fun h => ?_⟩
          simp only [sendAnswer, ngxAgain] at h
          omega

theorem sendKept_sysioUnixSend (w : World) (buf size : Nat) :
    SendKept w (sysioUnixSend w buf size).2 :=
  ⟨rfl, rfl, rfl⟩

/-- What `nn_conn_out_buffer` answers.  On a ready event it is done and has
used the script, or it has failed; otherwise the event is not ready. -/
def OutBuffered (w : World) (r : Int × World) : Prop :=
  SendKept w r.2 ∧
    ((w.c.write.ready = true ∧ r.1 = ngxOk ∧
        r.2.env.sends.length < w.env.sends.length) ∨
      (w.c.write.ready = true ∧ r.1 = ngxError) ∨
      (r.2.c.write.ready = false ∧ r.1 = ngxAgain))

def OutBuffering (w : World) (s : World × Nat) : Prop :=
  SendKept w s.1 ∧ (s.2 = 0 -> s.1.env.sends.length < w.env.sends.length) ∧
    s.1.env.sends.length ≤ w.env.sends.length

theorem outBuffering_lowers (w : World) :
    Lowers (OutBuffering w) (fun s => s.1.env.sends.length)
      nnConnOutBufferTurn := by
  rintro s s' ⟨hkept, _, hle⟩ hturn
  simp only [nnConnOutBufferTurn] at hturn
  split at hturn
  · cases hturn
  · split at hturn
    · cases hturn
    · next hsent =>
      rw [sysioUnixSend_code] at hsent
      have hlt := (sendAnswer_spec s.2 s.1.env.sends).1 (Int.not_lt.mp hsent)
      cases hturn
      refine ⟨⟨hkept.trans ?_, fun _ => Nat.lt_of_lt_of_le hlt hle,
        Nat.le_of_lt (Nat.lt_of_lt_of_le hlt hle)⟩, hlt⟩
      exact ⟨rfl, rfl, rfl⟩

theorem outBuffering_done {w : World} (hready : w.c.write.ready = true)
    {s : World × Nat} {r : Int × World} (h : OutBuffering w s)
    (hturn : nnConnOutBufferTurn s = Turn.done r) : OutBuffered w r := by
  obtain ⟨hkept, hused, _⟩ := h
  simp only [nnConnOutBufferTurn] at hturn
  split at hturn
  · next hzero =>
    cases hturn
    exact ⟨hkept.trans ⟨rfl, rfl, rfl⟩, Or.inl ⟨hready, rfl, hused hzero⟩⟩
  · split at hturn
    · next hfailed =>
      cases hturn
      refine ⟨hkept.trans (sendKept_sysioUnixSend _ _ _), Or.inr ?_⟩
      rw [sysioUnixSend_code] at hfailed ⊢
      rcases sendAnswer_cases s.2 s.1.env.sends with ⟨k, _, hk⟩ | hagain | herr
      · omega
      · refine Or.inr ⟨?_, hagain⟩
        simp only [sysioUnixSend,
          (sendAnswer_spec s.2 s.1.env.sends).2 hagain, Bool.and_false]
      · exact Or.inl ⟨hready, herr⟩
    · cases hturn

theorem nnConnOutBuffer_spec {w : World}
    (hsize : cSize (bufferSize w.mc.out) ≠ 0) :
    OutBuffered w (nnConnOutBuffer w) := by
  unfold nnConnOutBuffer
  split
  · next hready =>
    exact ⟨SendKept.refl w, Or.inr (Or.inr ⟨by simpa using hready, rfl⟩)⟩
  · next hready =>
    exact loop_rule (outBuffering_lowers w) _ (OutBuffered w)
      (fun s r hs hturn => outBuffering_done (by simpa using hready) hs hturn)
      ⟨SendKept.refl w, fun hzero => absurd hzero hsize, Nat.le_refl _⟩

/-!
## `nn_conn_output`
-/

structure Writing (posted : Bool) (w : World) : Prop extends
    Open posted w, Workable w where
  set : w.mc.writeEventHandler = true

theorem Writing.event {posted : Bool} {w : World} (h : Writing posted w)
    (active timerSet : Bool) (env : Env) :
    Open posted { w with
      c := { w.c with
        write := { w.c.write with active := active, timerSet := timerSet } }
      env := env } :=
  ⟨⟨h.destroyed, h.unused, h.state⟩, h.fd, h.connection, h.timedout,
    fun _ => h.set⟩

theorem eventHandle_eq (env : Env) (ev : Event) :
    exists active, (eventHandle env ev).2.1 = { ev with active := active } := by
  unfold eventHandle epollAddEvent
  split
  · simp only
    split
    · exact ⟨true, rfl⟩
    · exact ⟨false, rfl⟩
  · exact ⟨ev.active, rfl⟩

/-- The connection is left waiting for its write event, with or without a
timer. -/
theorem Writing.wait {posted : Bool} {w : World} (h : Writing posted w)
    (hoff : w.c.write.ready = false) :
    let v := (eventHandleWrite w).2
    (Open posted v ∧ Settled v) ∧
      (Open posted { v with c := { v.c with write := eventTimerAdd v.c.write } } ∧
        Settled { v with c := { v.c with write := eventTimerAdd v.c.write } }) := by
  obtain ⟨active, hev⟩ := eventHandle_eq w.env w.c.write
  have hsettled : forall {v : World}, v.c.write.ready = w.c.write.ready ->
      Settled v := by
    intro v hv hon
    rw [hv, hoff] at hon
    cases hon
  simp only [eventHandleWrite, hev, eventTimerAdd]
  exact ⟨⟨h.event active w.c.write.timerSet _, hsettled rfl⟩,
    h.event active true _, hsettled rfl⟩

/-- What one round of `nn_conn_output` does: it ends with an open connection
that has settled, or it ends with a finalized one or goes on, which needs a
connection that had not settled. -/
theorem nnConnOutputTurn_spec {posted : Bool} {w : World}
    (h : Writing posted w) :
    (exists r, nnConnOutputTurn w = Turn.done r ∧
        (Open posted r.2 ∧ Settled r.2 ∨ Gone r.2 ∧ ¬ Settled w)) ∨
      exists v, nnConnOutputTurn w = Turn.next v ∧ ¬ Settled w ∧
        Writing posted v ∧ v.env.sends.length < w.env.sends.length := by
  have hlive := h.toLive
  obtain ⟨hcontrol, henv, hpos, hworkable, hpacked⟩ :=
    repack_spec hlive h.toWorkable
  have hdrained : Drained w -> nnConnPack (shrinkOut w) = w :=
    repack_of_drained hlive h.toWorkable
  simp only [nnConnOutputTurn, hlive.useMc_eq]
  generalize nnConnPack (shrinkOut w) = p at *
  have hp : Writing posted p :=
    { open_of_control h.toOpen hcontrol, hworkable with
      set := (congrArg Control.writeEventHandler hcontrol).trans h.set }
  have hready : p.c.write.ready = w.c.write.ready :=
    congrArg (fun k => k.c.write.ready) hcontrol
  rw [hp.toLive.useMc_eq, hworkable.hung]
  simp only [Bool.false_eq_true, if_false]
  have hsize := hworkable.ready.wf.size_eq
  by_cases hzero : bufferSize p.mc.out = 0
  · rw [if_pos hzero]
    refine Or.inl ⟨_, rfl, Or.inl ⟨hp.toOpen, fun _ => ⟨hpos, ?_, hpacked⟩⟩⟩
    change p.mc.out.last = p.mc.out.start
    have := hworkable.ready.wf.pos_le_last
    omega
  · rw [if_neg hzero]
    have hsettled : p.c.write.ready = true -> ¬ Settled w := by
      intro hr hs
      have hd := hs (hready ▸ hr)
      apply hzero
      rw [hsize, hdrained hd, hd.pos, hd.last]
      omega
    have hnonempty : cSize (bufferSize p.mc.out) ≠ 0 := by
      rw [hworkable.ready.cSize_eq]
      omega
    obtain ⟨hsent, hcases⟩ := nnConnOutBuffer_spec hnonempty
    have hmoves := nnConnOutBuffer_moves p
    generalize nnConnOutBuffer p = r at *
    have hr : Writing posted r.2 :=
      { hsent.open hp.toOpen,
        workable_of_moves hworkable hmoves (hsent.light hworkable.light) with
        set := by rw [hsent.mc]; exact hp.set }
    rcases hcases with ⟨hon, hok, hlt⟩ | ⟨hon, herr⟩ | ⟨hoff, hagain⟩
    · rw [if_neg (by rw [hok]; decide), if_neg (by rw [hok]; decide)]
      exact Or.inr ⟨_, rfl, hsettled hon, hr, henv ▸ hlt⟩
    · rw [if_pos herr]
      exact Or.inl ⟨_, rfl,
        Or.inr ⟨gone_nnConnFinalize hr.toLive, hsettled hon⟩⟩
    · rw [if_neg (by rw [hagain]; decide), if_pos hagain]
      obtain ⟨hfailed, htimed⟩ := hr.wait hoff
      split
      · exact Or.inl ⟨_, rfl, Or.inl hfailed⟩
      · exact Or.inl ⟨_, rfl, Or.inl htimed⟩

/-- `nn_conn_output` leaves an open connection that has settled, or finalizes
it, which it does only if it had not settled. -/
theorem nnConnOutput_spec {posted : Bool} {w : World} (hopen : Open posted w)
    (h : Workable w) :
    let v := (nnConnOutput w).2
    Open posted v ∧ Settled v ∨ Gone v ∧ ¬ Settled w := by
  simp only [nnConnOutput, hopen.toLive.useMc_eq]
  split
  · next hwait =>
    refine Or.inl ⟨hopen, fun hon => ?_⟩
    rw [hon] at hwait
    cases hwait
  · let u : World := { w with mc := { w.mc with writeEventHandler := true } }
    have hu : Writing posted u :=
      { hopen, h with
        handler := fun _ => rfl
        ready := ⟨h.ready.wf, h.ready.small, h.ready.sendable, h.ready.apart,
          h.ready.nodup⟩
        set := rfl }
    by_cases hsettled : Settled w
    · have hsame : Settled u := hsettled.of_same rfl rfl rfl
      rcases nnConnOutputTurn_spec hu with ⟨r, hdone, hr⟩ | ⟨_, _, hnot, _⟩
      · rw [loop_done _ hdone]
        exact hr.imp_right (fun hgone => absurd hsame hgone.2)
      · exact absurd hsame hnot
    · refine Or.imp_right (fun hgone => ⟨hgone, hsettled⟩) ?_
      have hlow : Lowers (Writing posted) (fun v => v.env.sends.length)
          nnConnOutputTurn := by
        intro v v' hv hturn
        rcases nnConnOutputTurn_spec hv with ⟨r, hdone, _⟩ | ⟨_, hnext, _, hkept⟩
        · rw [hdone] at hturn
          cases hturn
        · rw [hnext] at hturn
          cases hturn
          exact hkept
      refine loop_rule hlow _ (fun r : Int × World =>
        Open posted r.2 ∧ Settled r.2 ∨ Gone r.2) ?_ hu
      intro v r hv hturn
      rcases nnConnOutputTurn_spec hv with ⟨r', hdone, hr⟩ | ⟨_, hnext, _⟩
      · rw [hdone] at hturn
        cases hturn
        exact hr.imp_right And.left
      · rw [hnext] at hturn
        cases hturn

end Request
end NgxEpoll
