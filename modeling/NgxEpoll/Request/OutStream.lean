import NgxEpoll.Request.Init
import NgxEpoll.Common.RoundTrip
import NgxEpoll.Foundation.Runs

/-!
# The response stream

What was sent, what waits in the output buffer and what waits in `out_task`
make up, in this order, the frames of all tasks handed over.  Every move of the
output side keeps the whole, as long as the frame sizes are `int` values.
-/

namespace NgxEpoll
namespace Request

open Foundation
open NgxEpoll.Core
open Common
open Relation

/-- The payload of a task lies outside a buffer. -/
def PayloadApart (b : Buffer) (t : TaskT) : Prop :=
  Apart t.data.toNat t.dataLen.toInt.toNat b.start (b.endPtr - b.start)

/-- The output side is in order.  A buffer of `2 ^ 31` bytes or more stays
empty, because its free space is a negative `int`. -/
structure OutReady (w : World) : Prop where
  wf : w.mc.out.Wf
  small : w.mc.out.endPtr - w.mc.out.start < 2 ^ 31 ∨
    w.mc.out.pos = w.mc.out.start ∧ w.mc.out.last = w.mc.out.start ∧
      w.mc.out.endPtr - w.mc.out.start < 2 ^ 32
  sendable : forall n, n ∈ w.mc.outTask -> (w.mc.nodes n).Sendable
  apart : forall n, n ∈ w.mc.outTask -> PayloadApart w.mc.out (w.mc.nodes n)
  nodup : w.mc.outTask.Nodup

/-- The bytes sent, the bytes in the output buffer, and the frames of the tasks
in `out_task`. -/
def streamOf (w : World) : List Byte :=
  w.trace.sent ++ (w.mc.out.content w.mem ++
    framesOf w.mem (w.mc.outTask.map w.mc.nodes))

/-- What the output side keeps from one world to a later one. -/
structure OutKept (w w' : World) : Prop where
  ready : OutReady w'
  start : w'.mc.out.start = w.mc.out.start
  endPtr : w'.mc.out.endPtr = w.mc.out.endPtr
  mem : forall a n, Apart a n w.mc.out.start (w.mc.out.endPtr - w.mc.out.start) ->
    AgreeOn w'.mem w.mem a n
  inBuf : w'.mc.inBuf = w.mc.inBuf
  tq : w'.tq = w.tq
  carried : w'.trace.carried = w.trace.carried
  nodes : forall n, n ∉ w.mc.outTask -> w'.mc.nodes n = w.mc.nodes n
  queue : forall n, n ∈ w'.mc.outTask -> n ∈ w.mc.outTask
  hung : w'.hung = w.hung
  stream : w'.mc.state = ConnState.connected ->
    w.mc.state = ConnState.connected ∧ streamOf w' = streamOf w

theorem OutKept.refl {w : World} (h : OutReady w) : OutKept w w where
  ready := h
  start := rfl
  endPtr := rfl
  mem := fun _ _ _ _ _ _ => rfl
  inBuf := rfl
  tq := rfl
  carried := rfl
  nodes := fun _ _ => rfl
  queue := fun _ hn => hn
  hung := rfl
  stream := fun h => ⟨h, rfl⟩

theorem OutKept.trans {w v u : World} (h : OutKept w v) (h' : OutKept v u) :
    OutKept w u where
  ready := h'.ready
  start := h'.start.trans h.start
  endPtr := h'.endPtr.trans h.endPtr
  mem := fun a n hapart => AgreeOn.trans
    (h'.mem a n (by rwa [h.start, h.endPtr])) (h.mem a n hapart)
  inBuf := h'.inBuf.trans h.inBuf
  tq := h'.tq.trans h.tq
  carried := h'.carried.trans h.carried
  nodes := fun n hn =>
    (h'.nodes n (fun hm => hn (h.queue n hm))).trans (h.nodes n hn)
  queue := fun n hn => h.queue n (h'.queue n hn)
  hung := h'.hung.trans h.hung
  stream := fun hu =>
    ⟨(h.stream (h'.stream hu).1).1,
      (h'.stream hu).2.trans (h.stream (h'.stream hu).1).2⟩

/-!
## The moves
-/

theorem outKept_of_bytes {w w' : World} (h : OutReady w)
    (hbytes : w'.bytes = w.bytes) (hout : w'.mc.outTask = w.mc.outTask)
    (hnodes : w'.mc.nodes = w.mc.nodes) (hstate : w'.mc.state = w.mc.state) :
    OutKept w w' := by
  have hmem : w'.mem = w.mem := congrArg Bytes.mem hbytes
  have hbuf : w'.mc.out = w.mc.out := congrArg Bytes.out hbytes
  have hsent : w'.trace.sent = w.trace.sent := congrArg Bytes.sent hbytes
  constructor
  · obtain ⟨hwf, hsmall, hsend, hapart, hnodup⟩ := h
    constructor <;> simpa only [hbuf, hout, hnodes]
  · rw [hbuf]
  · rw [hbuf]
  · intro a n _ i _ _
    rw [hmem]
  · exact congrArg Bytes.inBuf hbytes
  · exact congrArg Bytes.tq hbytes
  · exact congrArg Bytes.carried hbytes
  · intro n _
    rw [hnodes]
  · intro n hn
    rwa [hout] at hn
  · exact congrArg Bytes.hung hbytes
  · intro hconn
    rw [hstate] at hconn
    exact ⟨hconn, by simp only [streamOf, hmem, hbuf, hsent, hout, hnodes]⟩

theorem framesOf_of_agree {w : World} (h : OutReady w) {m : Mem}
    (hmem : forall a n,
      Apart a n w.mc.out.start (w.mc.out.endPtr - w.mc.out.start) ->
        AgreeOn m w.mem a n) {ns : List Nat}
    (hsub : forall n, n ∈ ns -> n ∈ w.mc.outTask) :
    framesOf m (ns.map w.mc.nodes) = framesOf w.mem (ns.map w.mc.nodes) := by
  apply framesOf_congr
  intro t ht
  obtain ⟨n, hn, rfl⟩ := List.mem_map.mp ht
  exact (load_eq_iff_agreeOn _ _ _ _).mpr
    (hmem _ _ (h.apart n (hsub n hn)))

theorem outKept_of_buffer {w : World} (h : OutReady w) {m : Mem} {b : Buffer}
    (sent : List Byte) (hwf : b.Wf) (hstart : b.start = w.mc.out.start)
    (hend : b.endPtr = w.mc.out.endPtr)
    (hsmall : b.endPtr - b.start < 2 ^ 31 ∨
      b.pos = b.start ∧ b.last = b.start ∧ b.endPtr - b.start < 2 ^ 32)
    (hmem : forall a n,
      Apart a n w.mc.out.start (w.mc.out.endPtr - w.mc.out.start) ->
        AgreeOn m w.mem a n)
    (hstream : sent ++ b.content m =
      w.trace.sent ++ w.mc.out.content w.mem) :
    OutKept w { w with
      mem := m
      mc := { w.mc with out := b }
      trace := { w.trace with sent := sent } } where
  ready := by
    refine ⟨hwf, hsmall, h.sendable, fun n hn => ?_, h.nodup⟩
    unfold PayloadApart
    rw [hstart, hend]
    exact h.apart n hn
  start := hstart
  endPtr := hend
  mem := hmem
  inBuf := rfl
  tq := rfl
  carried := rfl
  nodes := fun _ _ => rfl
  queue := fun _ hn => hn
  hung := rfl
  stream := by
    intro hconn
    refine ⟨hconn, ?_⟩
    simp only [streamOf]
    rw [framesOf_of_agree h hmem (fun _ hn => hn), ← List.append_assoc,
      ← List.append_assoc, hstream]

theorem OutReady.size_lt {w : World} (h : OutReady w) :
    bufferSize w.mc.out < 2 ^ 31 := by
  have hsp := h.wf.start_le_pos
  have hpl := h.wf.pos_le_last
  have hle := h.wf.last_le_end
  rw [h.wf.size_eq]
  rcases h.small with hsmall | ⟨hpos, hlast, _⟩ <;> omega

theorem OutReady.cSize_eq {w : World} (h : OutReady w) :
    cSize (bufferSize w.mc.out) = w.mc.out.last - w.mc.out.pos := by
  have hlt := h.size_lt
  rw [h.wf.size_eq] at hlt ⊢
  unfold cSize
  omega

theorem outKept_shrink {w : World} (h : OutReady w) :
    OutKept w (shrinkOut w) := by
  have hsize := h.size_lt
  have heq := bufferShrink_eq (m := w.mem) h.wf hsize
  have hwf := bufferShrink_wf (m := w.mem) h.wf hsize
  have hcontent := content_bufferShrink (m := w.mem) h.wf hsize
  have hsp := h.wf.start_le_pos
  have hpl := h.wf.pos_le_last
  have hle := h.wf.last_le_end
  refine outKept_of_buffer h w.trace.sent hwf ?_ ?_ ?_ ?_ ?_
  · rw [heq]
  · rw [heq]
  · rw [heq]
    simp only
    rcases h.small with hsmall | ⟨hpos, hlast, hlt⟩
    · exact Or.inl hsmall
    · exact Or.inr ⟨trivial, by omega, hlt⟩
  · intro a n hapart
    exact agreeOn_bufferShrink h.wf hsize
      (Or.inr (hapart.mono (Nat.le_refl _) (by omega)))
  · rw [hcontent]

theorem outKept_advance {w : World} (h : OutReady w) {k : Nat}
    (hk : k ≤ cSize (bufferSize w.mc.out)) : OutKept w (advanceOut w k) := by
  rw [h.cSize_eq] at hk
  refine outKept_of_buffer h _ (wf_advance h.wf hk) rfl rfl ?_
    (fun _ _ _ _ _ _ => rfl) ?_
  · rcases h.small with hsmall | ⟨hpos, hlast, hlt⟩
    · exact Or.inl hsmall
    · exact Or.inr ⟨by simp only; omega, hlast, hlt⟩
  · rw [content_advance w.mem w.mc.out k hk, List.append_assoc]
    congr 1
    rw [← load_take w.mem w.mc.out.pos _ k hk]
    exact List.take_append_drop k _

theorem outKept_reset {w : World} (h : OutReady w)
    (hzero : cSize (bufferSize w.mc.out) = 0) : OutKept w (resetOut w) := by
  rw [h.cSize_eq] at hzero
  have hempty : w.mc.out.content w.mem = [] := by
    rw [Buffer.content, hzero]
    rfl
  refine outKept_of_buffer h w.trace.sent (bufferReset_wf h.wf) rfl
    rfl ?_ (fun _ _ _ _ _ _ => rfl) ?_
  · rcases h.small with hsmall | ⟨_, _, hlt⟩
    · exact Or.inl hsmall
    · exact Or.inr ⟨rfl, rfl, hlt⟩
  · rw [content_bufferReset, hempty]

theorem encodeNode_cases {w : World} (h : OutReady w) {n : Nat}
    (hn : n ∈ w.mc.outTask) :
    (encodeCode w n = ngxOk ∧
        (w.mc.nodes n).frameSize ≤ cInt (bufferFreeSize w.mc.out) ∧
        encodeNode w n =
          { w with
            mem := store w.mem w.mc.out.last
              (taskFrame (w.mc.nodes n) ((w.mc.nodes n).payload w.mem))
            mc := { w.mc with out := { w.mc.out with
              last := w.mc.out.last + (taskFrame (w.mc.nodes n)
                ((w.mc.nodes n).payload w.mem)).length } } }) ∨
      (encodeCode w n = ngxAgain ∧ encodeNode w n = w ∧
        cInt (bufferFreeSize w.mc.out) < (w.mc.nodes n).frameSize) := by
  have hsend := h.sendable n hn
  have hfree : 0 ≤ bufferFreeSize w.mc.out := by
    rw [h.wf.freeSize_eq]
    omega
  by_cases hfit : (w.mc.nodes n).frameSize ≤ cInt (bufferFreeSize w.mc.out)
  · left
    have hle := cInt_le_self hfree
    have hge := hsend.headerSize_le
    have hstart : w.mc.out.start ≤ w.mc.out.last :=
      Nat.le_trans h.wf.start_le_pos h.wf.pos_le_last
    have hlast := h.wf.last_le_end
    have hapart : Apart (w.mc.nodes n).data.toNat
        (w.mc.nodes n).dataLen.toInt.toNat w.mc.out.last headerSize := by
      have hroom := h.wf.freeSize_eq
      exact (h.apart n hn).mono hstart (by omega)
    have henc := taskEncode_ok (m := w.mem) h.wf hsend hfit hapart
    refine ⟨by rw [encodeCode, henc], hfit, ?_⟩
    simp only [encodeNode, henc]
  · right
    have henc := taskEncode_again (m := w.mem) (b := w.mc.out) hsend
      (by omega)
    exact ⟨by rw [encodeCode, henc], by simp only [encodeNode, henc],
      Int.not_le.mp hfit⟩

theorem outKept_encode {w : World} (h : OutReady w) {n : Nat} {rest : List Nat}
    (hout : w.mc.outTask = n :: rest)
    (hfit : (w.mc.nodes n).frameSize ≤ cInt (bufferFreeSize w.mc.out)) :
    let frame := taskFrame (w.mc.nodes n) ((w.mc.nodes n).payload w.mem)
    OutKept w { w with
      mem := store w.mem w.mc.out.last frame
      mc := { w.mc with
        out := { w.mc.out with last := w.mc.out.last + frame.length }
        outTask := rest } } := by
  have hn : n ∈ w.mc.outTask := by
    rw [hout]
    exact List.mem_cons_self
  have hsub : forall m, m ∈ rest -> m ∈ w.mc.outTask := by
    intro m hm
    rw [hout]
    exact List.mem_cons_of_mem n hm
  have hnodup := h.nodup
  rw [hout] at hnodup
  have hsp := h.wf.start_le_pos
  have hpl := h.wf.pos_le_last
  have hle := h.wf.last_le_end
  have hfree := h.wf.freeSize_eq
  have hint := cInt_le_self (show 0 ≤ bufferFreeSize w.mc.out by omega)
  have hge := (h.sendable n hn).headerSize_le
  have hsmall : w.mc.out.endPtr - w.mc.out.start < 2 ^ 31 := by
    rcases h.small with hsmall | ⟨_, hlast, hlt⟩
    · exact hsmall
    · by_contra hbig
      rw [hfree, hlast, cInt_eq] at hfit
      split at hfit <;> omega
  intro frame
  have hlen : (frame.length : Int) = (w.mc.nodes n).frameSize :=
    (h.sendable n hn).frame_length w.mem
  have hroom : w.mc.out.last + frame.length ≤ w.mc.out.endPtr := by omega
  have hmem : forall a k,
      Apart a k w.mc.out.start (w.mc.out.endPtr - w.mc.out.start) ->
        AgreeOn (store w.mem w.mc.out.last frame) w.mem a k := by
    intro a k hapart
    exact agreeOn_store_of_apart _ _ _ _ _ (hapart.mono (by omega) (by omega))
  constructor
  · refine ⟨wf_append h.wf (by omega), Or.inl hsmall, ?_, ?_, ?_⟩
    · exact fun m hm => h.sendable m (hsub m hm)
    · exact fun m hm => h.apart m (hsub m hm)
    · exact (List.nodup_cons.mp hnodup).2
  · rfl
  · rfl
  · exact hmem
  · rfl
  · rfl
  · rfl
  · exact fun _ _ => rfl
  · exact hsub
  · rfl
  · intro hconn
    refine ⟨hconn, ?_⟩
    simp only [streamOf]
    rw [framesOf_of_agree h hmem hsub, content_append w.mem hpl frame, hout,
      List.map_cons, framesOf_cons, List.append_assoc]

theorem outKept_freeTask {w v : World} {n : Nat} (h : OutKept w v)
    (hn : n ∈ w.mc.outTask) (hgone : n ∉ v.mc.outTask) :
    OutKept w (nnConnFreeTask v n) := by
  have hbytes := bytes_nnConnFreeTask v n
  obtain ⟨hqueue, hstate, hother⟩ := mc_nnConnFreeTask v n
  generalize nnConnFreeTask v n = u at hbytes hqueue hstate hother ⊢
  have hnodes : forall m, m ∈ v.mc.outTask -> u.mc.nodes m = v.mc.nodes m :=
    fun m hm => hother m (fun heq => hgone (heq ▸ hm))
  have hmem : u.mem = v.mem := congrArg Bytes.mem hbytes
  have hbuf : u.mc.out = v.mc.out := congrArg Bytes.out hbytes
  have hsent : u.trace.sent = v.trace.sent := congrArg Bytes.sent hbytes
  obtain ⟨hwf, hsmall, hsend, hapart, hnodup⟩ := h.ready
  constructor
  · refine ⟨by rwa [hbuf], by rwa [hbuf], ?_, ?_, by rwa [hqueue]⟩
    · intro m hm
      rw [hqueue] at hm
      rw [hnodes m hm]
      exact hsend m hm
    · intro m hm
      rw [hqueue] at hm
      rw [hnodes m hm, hbuf]
      exact hapart m hm
  · rw [hbuf]
    exact h.start
  · rw [hbuf]
    exact h.endPtr
  · rw [hmem]
    exact h.mem
  · exact (congrArg Bytes.inBuf hbytes).trans h.inBuf
  · exact (congrArg Bytes.tq hbytes).trans h.tq
  · exact (congrArg Bytes.carried hbytes).trans h.carried
  · intro m hm
    rw [hother m (fun heq => hm (heq ▸ hn))]
    exact h.nodes m hm
  · intro m hm
    rw [hqueue] at hm
    exact h.queue m hm
  · exact (congrArg Bytes.hung hbytes).trans h.hung
  · intro hconn
    rw [hstate] at hconn
    obtain ⟨hconn', hstream⟩ := h.stream hconn
    refine ⟨hconn', ?_⟩
    rw [← hstream]
    simp only [streamOf, hmem, hbuf, hsent, hqueue]
    rw [List.map_congr_left hnodes]

theorem outKept_finalize {w : World} (h : OutReady w) :
    OutKept w (nnConnFinalize w) := by
  have hbytes := bytes_nnConnFinalize w
  obtain ⟨hstate, hcases⟩ := mc_nnConnFinalize w
  generalize nnConnFinalize w = u at hbytes hstate hcases ⊢
  have hbuf : u.mc.out = w.mc.out := congrArg Bytes.out hbytes
  have hqueue : forall m, m ∈ u.mc.outTask -> m ∈ w.mc.outTask := by
    intro m hm
    rcases hcases with ⟨hout, _⟩ | hmc
    · rw [hout] at hm
      cases hm
    · rwa [hmc] at hm
  constructor
  · rcases hcases with ⟨hout, _⟩ | hmc
    · refine ⟨by rw [hbuf]; exact h.wf, by rw [hbuf]; exact h.small, ?_, ?_, ?_⟩
      · intro m hm
        rw [hout] at hm
        cases hm
      · intro m hm
        rw [hout] at hm
        cases hm
      · rw [hout]
        exact List.nodup_nil
    · obtain ⟨hwf, hsmall, hsend, hapart, hnodup⟩ := h
      constructor <;> rwa [hmc]
  · rw [hbuf]
  · rw [hbuf]
  · intro a n _ i _ _
    rw [show u.mem = w.mem from congrArg Bytes.mem hbytes]
  · exact congrArg Bytes.inBuf hbytes
  · exact congrArg Bytes.tq hbytes
  · exact congrArg Bytes.carried hbytes
  · intro m hm
    rcases hcases with ⟨_, hnodes⟩ | hmc
    · exact hnodes m hm
    · rw [hmc]
  · exact hqueue
  · exact congrArg Bytes.hung hbytes
  · intro hconn
    rw [hstate] at hconn
    cases hconn

theorem outKept_of_move {w w' : World} (h : OutReady w) (hmove : Move w w') :
    OutKept w w' := by
  cases hmove with
  | use =>
      exact outKept_of_bytes h (bytes_useMc w) (by rw [useMc_mc])
        (by rw [useMc_mc]) (by rw [useMc_mc])
  | event c env timer handler =>
      exact ⟨⟨h.wf, h.small, h.sendable, h.apart, h.nodup⟩, rfl, rfl,
        fun _ _ _ _ _ _ => rfl, rfl, rfl, rfl, fun _ _ => rfl,
        fun _ hn => hn, rfl, fun hconn => ⟨hconn, rfl⟩⟩
  | shrink => exact outKept_shrink h
  | encode n rest hout hcode =>
      have hn : n ∈ w.mc.outTask := by
        rw [hout]
        exact List.mem_cons_self
      rcases encodeNode_cases h hn with ⟨_, hfit, henc⟩ | ⟨hagain, _⟩
      · rw [henc]
        refine outKept_freeTask (outKept_encode h hout hfit) hn ?_
        have hnodup := h.nodup
        rw [hout] at hnodup
        exact (List.nodup_cons.mp hnodup).1
      · rw [hagain] at hcode
        exact absurd hcode (by decide)
  | full n rest hout hcode =>
      have hn : n ∈ w.mc.outTask := by
        rw [hout]
        exact List.mem_cons_self
      rcases encodeNode_cases h hn with ⟨hok, _, _⟩ | ⟨_, hsame, _⟩
      · rw [hok] at hcode
        exact absurd hcode (by decide)
      · rw [hsame]
        exact OutKept.refl h
  | hang n rest hout hok _ hagain =>
      have hn : n ∈ w.mc.outTask := by
        rw [hout]
        exact List.mem_cons_self
      rcases encodeNode_cases h hn with ⟨hcode, _, _⟩ | ⟨hcode, _⟩
      · exact absurd hcode hok
      · exact absurd hcode hagain
  | send k hk => exact outKept_advance h (hk h.wf.memory)
  | reset hzero => exact outKept_reset h (hzero h.wf.memory)
  | finalize => exact outKept_finalize h

theorem outKept_of_moves {w w' : World} (h : OutReady w) (hmoves : Moves w w') :
    OutKept w w' := by
  induction hmoves with
  | refl => exact OutKept.refl h
  | tail _ hlast ih => exact ih.trans (outKept_of_move ih.ready hlast)

theorem nnConnInit_outReady {conf : ConfServer} {allocs : Allocs} {v : World}
    {mem : Mem} {fd : Int} {tq : List (List Nat)} {env : Env}
    (hvalid : allocs.Valid conf)
    (h : nnConnInit conf allocs (worldNew mem fd tq env) = (true, v)) :
    OutReady v ∧ streamOf v = [] := by
  obtain ⟨inBuf, out, buff, ev, env', _, hout, _, rfl⟩ := nnConnInit_up h
  obtain ⟨a, hstart, rfl⟩ := bufferAt_eq_some hout
  have hlt : outSize conf < 2 ^ 32 := (conf.sendBuffLen * 2).isLt
  refine ⟨⟨bufferCreate_wf (hvalid.outEnd a hstart), Or.inr ⟨rfl, rfl, ?_⟩,
    ?_, ?_, List.nodup_nil⟩, ?_⟩
  · change a + outSize conf - a < 2 ^ 32
    omega
  · intro n hn
    cases hn
  · intro n hn
    cases hn
  · simp [streamOf, worldNew, traceNew, nnConnStarted, nnConnNew, bufferCreate,
      Buffer.content]

end Request
end NgxEpoll
