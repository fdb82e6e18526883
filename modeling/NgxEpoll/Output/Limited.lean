import NgxEpoll.Output.Runs

/-!
# Sending under a limit

`chain_output_with_limit` lowers its limit by what a sender has sent before it calls
the next one.  A sender counts what it has packed, which is never less than what the
kernel took.

## What the kernel has taken
-/

namespace NgxEpoll
namespace Output

open Foundation
open NgxEpoll.Core

/-- From one state to the other the kernel has taken at most `n` bytes, and `c->sent`
has grown by their number. -/
structure Sent (w w' : World) (n : Nat) : Prop where
  grown : w.taken <+: w'.taken
  atMost : w'.taken.length ≤ w.taken.length + n
  counted : w'.cSent + w.taken.length = w.cSent + w'.taken.length

variable {w w' w'' : World} {n k : Nat}

theorem Sent.refl (w : World) (n : Nat) : Sent w w n where
  grown := List.prefix_refl _
  atMost := Nat.le_add_right _ _
  counted := rfl

theorem Sent.trans (h : Sent w w' n) (h' : Sent w' w'' k) : Sent w w'' (n + k) where
  grown := h.grown.trans h'.grown
  atMost := by
    have := h.atMost
    have := h'.atMost
    omega
  counted := by
    have := h.counted
    have := h'.counted
    omega

theorem Sent.mono (h : Sent w w' n) (hle : n ≤ k) : Sent w w' k where
  grown := h.grown
  atMost := Nat.le_trans h.atMost (Nat.add_le_add_left hle _)
  counted := h.counted

theorem Sent.congr (h : Sent w w' n) (htaken : w''.taken = w'.taken)
    (hcSent : w''.cSent = w'.cSent) : Sent w w'' n where
  grown := by
    rw [htaken]
    exact h.grown
  atMost := by
    rw [htaken]
    exact h.atMost
  counted := by
    rw [htaken, hcSent]
    exact h.counted

/-!
## `writev`
-/

theorem growLast_bytes (m : Mem) (iovs : List (Nat × Nat)) (bsize : Nat) :
    (iovBytes m (growLast iovs bsize)).length ≤ (iovBytes m iovs).length + bsize := by
  rcases List.eq_nil_or_concat' iovs with rfl | ⟨front, ⟨base, len⟩, rfl⟩
  · exact Nat.zero_le _
  · rw [growLast_concat, iovBytes_concat, iovBytes_concat, List.length_append,
      List.length_append, load_length, load_length]
    omega

theorem packFrom_room (m : Mem) {limit lastSize lastPos : Nat} (cl : List Buffer)
    (iovs : List (Nat × Nat)) (hroom : lastSize ≤ limit) :
    lastSize ≤ (packFrom limit cl iovs lastSize lastPos).2 ∧
      (packFrom limit cl iovs lastSize lastPos).2 ≤ limit ∧
      (iovBytes m (packFrom limit cl iovs lastSize lastPos).1).length + lastSize ≤
        (iovBytes m iovs).length + (packFrom limit cl iovs lastSize lastPos).2 := by
  induction cl generalizing iovs lastSize lastPos with
  | nil => exact ⟨Nat.le_refl _, hroom, Nat.le_refl _⟩
  | cons b rest ih =>
      unfold packFrom
      split
      · split
        · exact ⟨Nat.le_refl _, hroom, Nat.le_refl _⟩
        split
        · exact ih iovs hroom
        · dsimp only
          generalize hbsize : (if limit < lastSize + (bufferSize b).toNat then limit - lastSize
            else (bufferSize b).toNat) = bsize
          have hfits : lastSize + bsize ≤ limit := by
            rw [← hbsize]
            split <;> omega
          have hbytes : (iovBytes m (if lastPos ≠ b.pos then iovs ++ [(b.pos, bsize)]
              else growLast iovs bsize)).length ≤ (iovBytes m iovs).length + bsize := by
            split
            · rw [iovBytes_concat, List.length_append, load_length]
            · exact growLast_bytes m iovs bsize
          obtain ⟨hle, hlimit, hcount⟩ := ih (if lastPos ≠ b.pos then iovs ++ [(b.pos, bsize)]
            else growLast iovs bsize) hfits
          exact ⟨by omega, hlimit, by omega⟩
      · exact ⟨Nat.le_refl _, hroom, Nat.le_refl _⟩

theorem writevAnswer_le (size : Nat) (results : List SysResult) :
    (writevAnswer size results).1 ≤ size := by
  induction results with
  | nil =>
      unfold writevAnswer ngxAgain
      dsimp only
      omega
  | cons r rest ih =>
      cases r with
      | intr => exact ih
      | again =>
          unfold writevAnswer ngxAgain
          dsimp only
          omega
      | error =>
          unfold writevAnswer ngxError
          dsimp only
          omega
      | sent n =>
          unfold writevAnswer ngxError
          dsimp only
          split
          · dsimp only
            omega
          · dsimp only
            omega

theorem sysioWritevIovs_sent (w : World) (iovs : List (Nat × Nat)) :
    (sysioWritevIovs w iovs).1.toNat ≤ (iovBytes w.mem iovs).length ∧
      Sent w
        { (sysioWritevIovs w iovs).2 with
          cSent := (sysioWritevIovs w iovs).2.cSent + (sysioWritevIovs w iovs).1.toNat }
        (sysioWritevIovs w iovs).1.toNat := by
  have hle : (sysioWritevIovs w iovs).1 ≤ (iovBytes w.mem iovs).length := writevAnswer_le _ _
  have htaken : (sysioWritevIovs w iovs).2.taken =
      w.taken ++ (iovBytes w.mem iovs).take (sysioWritevIovs w iovs).1.toNat := rfl
  have hcSent : (sysioWritevIovs w iovs).2.cSent = w.cSent := rfl
  have hlen : ((iovBytes w.mem iovs).take (sysioWritevIovs w iovs).1.toNat).length =
      (sysioWritevIovs w iovs).1.toNat := by
    rw [List.length_take]
    omega
  refine ⟨by omega, ?_, ?_, ?_⟩
  · exact ⟨_, htaken.symm⟩
  · dsimp only
    rw [htaken, List.length_append, hlen]
  · dsimp only
    rw [htaken, hcSent, List.length_append, hlen]
    omega

theorem writevTurn_sent {limit : Nat} {s : World × List Buffer × Nat} (hs : Sent w s.1 s.2.2)
    (hroom : s.2.2 ≤ limit) :
    (writevTurn limit s).Meets (fun s' => Sent w s'.1 s'.2.2 ∧ s'.2.2 ≤ limit)
      (fun r => Sent w r.1 limit) := by
  have hstay : Sent w s.1 limit := hs.mono hroom
  have hmove := writevTurn_move limit s
  generalize writevTurn limit s = t at hmove ⊢
  cases hmove with
  | nothing chain => exact hstay
  | stays chain stop => exact hstay
  | drops chain go pack empty => exact hstay
  | @waits b rest p chain pack packed code =>
      have hsent := (sysioWritevIovs_sent s.1 p.1).2
      rw [code] at hsent
      have hmore : Sent w (sysioWritevIovs s.1 p.1).2 s.2.2 :=
        (hs.trans (hsent.mono (Nat.le_refl 0))).congr rfl rfl
      exact (hmore.mono hroom).congr rfl rfl
  | @fails b rest p chain pack packed code =>
      have hsent := (sysioWritevIovs_sent s.1 p.1).2
      rw [code] at hsent
      have hmore : Sent w (sysioWritevIovs s.1 p.1).2 s.2.2 :=
        (hs.trans (hsent.mono (Nat.le_refl 0))).congr rfl rfl
      exact hmore.mono hroom
  | @sends b rest p k chain pack packed code pos w1 world =>
      obtain ⟨hle, hsent⟩ := sysioWritevIovs_sent s.1 p.1
      rw [code, Int.toNat_natCast] at hle hsent
      rw [← world] at hsent
      have hcount := @packFrom_room s.1.mem limit s.2.2 0 (b :: rest) [] hroom
      change _ ≤ (sysioPackChainToIovs (b :: rest) s.2.2 limit).2 ∧
        (sysioPackChainToIovs (b :: rest) s.2.2 limit).2 ≤ limit ∧
        (iovBytes s.1.mem (sysioPackChainToIovs (b :: rest) s.2.2 limit).1).length + s.2.2 ≤
          0 + (sysioPackChainToIovs (b :: rest) s.2.2 limit).2 at hcount
      rw [pack] at hcount
      have hmore : Sent w w1 p.2 := (hs.trans hsent).mono (by omega)
      split
      · exact hmore.mono hcount.2.1
      · exact ⟨hmore, hcount.2.1⟩

theorem effectiveLimit_le {limit : Nat} (hpos : 0 < limit) : effectiveLimit limit ≤ limit := by
  unfold effectiveLimit
  split
  · rename_i hlarge
    rcases hlarge with hzero | hlarge
    · omega
    · exact Nat.le_of_lt hlarge
  · exact Nat.le_refl _

theorem sysioWritevChain_sent (w : World) (cl : List Buffer) {limit : Nat} (hpos : 0 < limit) :
    Sent w (sysioWritevChain w cl limit).1 limit := by
  unfold sysioWritevChain
  split
  · exact Sent.refl w limit
  split
  · exact Sent.refl w limit
  · refine Sent.mono ?_ (effectiveLimit_le hpos)
    refine loop_keeps_meets _
      (fun s : World × List Buffer × Nat => Sent w s.1 s.2.2 ∧ s.2.2 ≤ effectiveLimit limit)
      (fun r : World × Option (List Buffer) => Sent w r.1 (effectiveLimit limit))
      ?_ ?_ ⟨Sent.refl w 0, Nat.zero_le _⟩
    · exact fun s hs => writevTurn_sent hs.1 hs.2
    · exact fun s hs => hs.1.mono hs.2

/-!
## `sendfile`
-/

theorem sendfileTurn_sent {limit : Nat} {s : World × List Buffer × Nat}
    (hs : Sent w s.1 s.2.2) (hroom : s.2.2 ≤ limit) :
    (sendfileTurn limit s).Meets (fun s' => Sent w s'.1 s'.2.2 ∧ s'.2.2 ≤ limit)
      (fun r => Sent w r.1 limit) := by
  have hstay : Sent w s.1 limit := hs.mono hroom
  have hmove := sendfileTurn_move limit s
  generalize sendfileTurn limit s = t at hmove ⊢
  cases hmove with
  | nothing chain => exact hstay
  | stays chain stop => exact hstay
  | passes chain file empty => exact ⟨hs, hroom⟩
  | waits chain results => exact hstay.congr rfl rfl
  | retries chain results => exact ⟨hs.congr rfl rfl, hroom⟩
  | fails results answer => exact hstay.congr rfl rfl
  | @sends b b' rest n k rs chain file results pos room within moved w1 world =>
      have hmore : Sent w w1 (s.2.2 + k) := by
        rw [world]
        apply hs.trans
        constructor
        · exact ⟨_, rfl⟩
        · dsimp only
          rw [List.length_append, load_length]
        · dsimp only
          rw [List.length_append, load_length]
          omega
      exact ⟨hmore, room⟩

theorem sysioSendfileChain_sent (w : World) (cl : List Buffer) {limit : Nat}
    (hpos : 0 < limit) : Sent w (sysioSendfileChain w cl limit).1 limit := by
  unfold sysioSendfileChain
  split
  · exact Sent.refl w limit
  split
  · exact Sent.refl w limit
  · refine Sent.mono ?_ (effectiveLimit_le hpos)
    refine loop_keeps_meets _
      (fun s : World × List Buffer × Nat => Sent w s.1 s.2.2 ∧ s.2.2 ≤ effectiveLimit limit)
      (fun r : World × Option (List Buffer) => Sent w r.1 (effectiveLimit limit))
      ?_ ?_ ⟨Sent.refl w 0, Nat.zero_le _⟩
    · exact fun s hs => sendfileTurn_sent hs.1 hs.2
    · exact fun s hs => hs.1.mono hs.2

/-!
## The call
-/

theorem sendChain_sent (w : World) {limit : Nat} (hpos : 0 < limit) :
    Sent w (sendChain w limit).1 limit := by
  unfold sendChain
  split
  · exact Sent.refl w limit
  split
  · exact sysioWritevChain_sent w _ hpos
  · exact sysioSendfileChain_sent w _ hpos

/-- The states of the loop: what has been taken and what is allowed make up the
limit. -/
structure LimitInv (w : World) (limit : Nat) (s : World × Nat × Int) : Prop where
  wf : ChainWf s.1.out
  grown : w.taken <+: s.1.taken
  allowed : s.1.taken.length + cSize s.2.2 ≤ w.taken.length + limit
  positive : 0 < cSize s.2.2
  sent : s.2.1 = s.1.cSent

def Within (w : World) (limit : Nat) (w' : World) : Prop :=
  exists sent, w'.taken = w.taken ++ sent ∧ sent.length ≤ limit

theorem within_of_le {limit : Nat} (hgrown : w.taken <+: w'.taken)
    (hle : w'.taken.length ≤ w.taken.length + limit) : Within w limit w' := by
  obtain ⟨sent, hsent⟩ := hgrown
  refine ⟨sent, hsent.symm, ?_⟩
  rw [← hsent, List.length_append] at hle
  omega

theorem sendChain_progress {cl : List Buffer} {limit : Nat} (hwf : ChainWf w.out)
    (hready : w.ready = true) (hne : w.out ≠ []) (hcl : (sendChain w limit).2 = some cl) :
    ChainWf cl ∧ chainMeasure (sendChain w limit).1 cl < chainMeasure w w.out := by
  cases sendChain_outcome hwf hready hne limit with
  | error eq scarce =>
      rw [hcl] at eq
      cases eq
  | handed cl' eq handed progress =>
      rw [hcl] at eq
      cases eq
      exact ⟨handed.wf, progress⟩
  | dropped rest eq handed lost clean progress =>
      rw [hcl] at eq
      cases eq
      exact ⟨nofun, progress⟩

theorem cSize_bmod (n : Int) : cSize (n.bmod (2 ^ 64)) = cSize n := by
  unfold cSize
  have hmod : n.bmod (2 ^ 64) % 2 ^ 64 = n % 2 ^ 64 := Int.bmod_emod
  rw [hmod]

theorem cSize_sub {cur : Int} {k : Nat} (hk : k ≤ cSize cur) :
    cSize (cur - k) = cSize cur - k := by
  unfold cSize at *
  omega

theorem cSize_pos {n : Int} (hpos : 0 < n) (hlt : n < 2 ^ 64) : 0 < cSize n := by
  unfold cSize
  omega

theorem LimitInv.turn {limit : Nat} (hlimit : limit ≠ 0) {s : World × Nat × Int}
    (h : LimitInv w limit s) :
    (withLimitTurn limit s).Meets
      (fun s' => LimitInv w limit s' ∧ chainMeasure s'.1 s'.1.out < chainMeasure s.1 s.1.out)
      (fun r => Within w limit r.2) := by
  have hallowed := h.allowed
  have hsent := sendChain_sent s.1 h.positive
  have hmost := hsent.atMost
  have hcounted := hsent.counted
  have hgrown : w.taken <+: (sendChain s.1 (cSize s.2.2)).1.taken := h.grown.trans hsent.grown
  have hwithin : Within w limit (sendChain s.1 (cSize s.2.2)).1 :=
    within_of_le hgrown (by omega)
  unfold withLimitTurn
  split
  · rename_i hgo
    have hprogress := fun cl => @sendChain_progress s.1 cl (cSize s.2.2) h.wf hgo.1 hgo.2
    dsimp only
    generalize sendChain s.1 (cSize s.2.2) = r at *
    split
    · exact hwithin
    · rename_i cl hcl
      obtain ⟨hwf, hless⟩ := hprogress cl hcl
      split
      · exact hwithin
      split
      · exact hwithin
      · rename_i hleft
        have hless' := hsent.grown.length_le
        have hk : (r.1.cSent : Int) - s.2.1 =
            ((r.1.taken.length - s.1.taken.length : Nat) : Int) := by
          rw [h.sent]
          omega
        have hrest : cSize ((s.2.2 - ((r.1.cSent : Int) - s.2.1)).bmod (2 ^ 64)) =
            cSize s.2.2 - (r.1.taken.length - s.1.taken.length) := by
          rw [hk]
          rw [cSize_bmod, cSize_sub (by omega)]
        refine ⟨⟨hwf, hgrown, ?_, ?_, rfl⟩, hless⟩
        · dsimp only
          rw [hrest]
          omega
        · apply cSize_pos (Int.not_le.mp hleft)
          exact Int.lt_of_lt_of_le (Int.bmod_lt (by decide)) (by decide)
  · exact within_of_le h.grown (by dsimp only; omega)

/-- One call of `chain_output_with_limit` sends at most `limit` bytes, however the kernel
answers. -/
theorem chainOutputWithLimit_within (w : World) (hwf : ChainWf w.out) {limit : Nat}
    (hpos : 0 < limit) (hlt : limit < 2 ^ 64) :
    Within w limit (chainOutputWithLimit w limit).2 := by
  have hlimit : limit ≠ 0 := Nat.ne_of_gt hpos
  have hcur : cSize ((limit : Int).bmod (2 ^ 64)) = limit := by
    rw [cSize_bmod]
    unfold cSize
    omega
  have hstart : LimitInv w limit (w, w.cSent, (limit : Int).bmod (2 ^ 64)) := by
    refine ⟨hwf, List.prefix_refl _, ?_, ?_, rfl⟩
    · rw [hcur]
    · rw [hcur]
      exact hpos
  exact loop_meets _ (fun r : Int × World => Within w limit r.2)
    (fun s hs => hs.turn hlimit) hstart

/-- Five bytes in memory and seven of a file, with a short write and an interrupted
call. -/
def shortWrites : World :=
  ⟨fun _ => 0, fun _ => 0, [memoryBuffer 5, fileBuffer 7], true, 0,
    [SysResult.sent 3, SysResult.intr, SysResult.sent 9, SysResult.sent 9], []⟩

theorem chainOutputWithLimit_within_short :
    Within shortWrites 10 (chainOutputWithLimit shortWrites 10).2 :=
  chainOutputWithLimit_within shortWrites
    (ChainWf.cons (memoryBuffer_wf (by decide)) (ChainWf.cons (fileBuffer_wf (by decide)) nofun))
    (by decide) (by decide)

example : (chainOutputWithLimit shortWrites 10).2.taken.length = 10 := by decide +kernel

end Output
end NgxEpoll
