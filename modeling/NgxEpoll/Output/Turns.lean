import NgxEpoll.Output.Senders

/-!
# One iteration of a sender

The loops of `sysio_writev_chain` and `sysio_sendfile_chain` turn by the buffer at the
front of the chain, by what is left of the limit, and by the answer of the kernel.
-/

namespace NgxEpoll
namespace Output

open Foundation
open NgxEpoll.Core

variable {limit : Nat} {s : World × List Buffer × Nat}

/-!
## `writev`
-/

theorem sysioWritevIovs_code (w : World) (iovs : List (Nat × Nat)) :
    0 < (sysioWritevIovs w iovs).1 ∨ (sysioWritevIovs w iovs).1 = ngxAgain ∨
      (sysioWritevIovs w iovs).1 = ngxError := by
  change 0 < (writevAnswer (iovBytes w.mem iovs).length w.results).1 ∨
    (writevAnswer (iovBytes w.mem iovs).length w.results).1 = ngxAgain ∨
    (writevAnswer (iovBytes w.mem iovs).length w.results).1 = ngxError
  induction w.results with
  | nil => exact Or.inr (Or.inl rfl)
  | cons r rest ih =>
      cases r with
      | intr => exact ih
      | again => exact Or.inr (Or.inl rfl)
      | error => exact Or.inr (Or.inr rfl)
      | sent n =>
          unfold writevAnswer
          dsimp only
          split
          · exact Or.inr (Or.inr rfl)
          · next hrc =>
            left
            exact Int.natCast_pos.mpr (Nat.pos_of_ne_zero hrc)

/-- What an iteration of `sysio_writev_chain` does; `p` is what it has packed. -/
inductive WritevMove (limit : Nat) (s : World × List Buffer × Nat) :
    Turn (World × List Buffer × Nat) (World × Option (List Buffer)) -> Prop where
  | nothing (chain : s.2.1 = []) : WritevMove limit s (Turn.done (s.1, some []))
  | stays {b : Buffer} {rest : List Buffer} (chain : s.2.1 = b :: rest)
      (stop : ¬ (s.2.2 < limit ∧ b.memory = true)) :
      WritevMove limit s (Turn.done (s.1, some (b :: rest)))
  | drops {b : Buffer} {rest : List Buffer} {p : List (Nat × Nat) × Nat}
      (chain : s.2.1 = b :: rest) (go : s.2.2 < limit ∧ b.memory = true)
      (pack : sysioPackChainToIovs (b :: rest) s.2.2 limit = p) (empty : p.1 = []) :
      WritevMove limit s (Turn.done (s.1, some []))
  | waits {b : Buffer} {rest : List Buffer} {p : List (Nat × Nat) × Nat}
      (chain : s.2.1 = b :: rest)
      (pack : sysioPackChainToIovs (b :: rest) s.2.2 limit = p) (packed : p.1 ≠ [])
      (code : (sysioWritevIovs s.1 p.1).1 = ngxAgain) :
      WritevMove limit s
        (Turn.done ({ (sysioWritevIovs s.1 p.1).2 with ready := false },
          some (b :: rest)))
  | fails {b : Buffer} {rest : List Buffer} {p : List (Nat × Nat) × Nat}
      (chain : s.2.1 = b :: rest)
      (pack : sysioPackChainToIovs (b :: rest) s.2.2 limit = p) (packed : p.1 ≠ [])
      (code : (sysioWritevIovs s.1 p.1).1 = ngxError) :
      WritevMove limit s (Turn.done ((sysioWritevIovs s.1 p.1).2, none))
  | sends {b : Buffer} {rest : List Buffer} {p : List (Nat × Nat) × Nat} {k : Nat}
      (chain : s.2.1 = b :: rest)
      (pack : sysioPackChainToIovs (b :: rest) s.2.2 limit = p) (packed : p.1 ≠ [])
      (code : (sysioWritevIovs s.1 p.1).1 = k) (pos : 0 < k)
      {w : World} (world : w =
        { (sysioWritevIovs s.1 p.1).2 with cSent := (sysioWritevIovs s.1 p.1).2.cSent + k }) :
      WritevMove limit s
        (if limit ≤ p.2 then Turn.done (w, some (chainWriteUpdate (b :: rest) k))
        else Turn.next (w, chainWriteUpdate (b :: rest) k, p.2))

theorem writevTurn_move (limit : Nat) (s : World × List Buffer × Nat) :
    WritevMove limit s (writevTurn limit s) := by
  unfold writevTurn
  split
  · next chain => exact WritevMove.nothing chain
  · next b rest chain =>
    split
    · next go =>
      generalize pack : sysioPackChainToIovs (b :: rest) s.2.2 limit = p
      dsimp only
      split
      · next hzero =>
        exact WritevMove.drops chain go pack (List.eq_nil_of_length_eq_zero hzero)
      · next hsome =>
        have packed : p.1 ≠ [] := fun hnil => hsome (by rw [hnil]; rfl)
        rcases sysioWritevIovs_code s.1 p.1 with hpos | code | code
        · obtain ⟨k, code⟩ : exists k : Nat, (sysioWritevIovs s.1 p.1).1 = k :=
            ⟨_, (Int.toNat_of_nonneg (Int.le_of_lt hpos)).symm⟩
          have pos : 0 < k := by
            rw [code] at hpos
            exact Int.natCast_pos.mp hpos
          rw [if_pos hpos, code, Int.toNat_natCast]
          exact WritevMove.sends chain pack packed code pos rfl
        · rw [if_neg (by rw [code]; decide), if_pos code]
          exact WritevMove.waits chain pack packed code
        · rw [if_neg (by rw [code]; decide), if_neg (by rw [code]; decide), if_pos code]
          exact WritevMove.fails chain pack packed code
    · next stop => exact WritevMove.stays chain stop

/-!
## `sendfile`
-/

/-- What an iteration of `sysio_sendfile_chain` does. -/
inductive SendfileMove (limit : Nat) (s : World × List Buffer × Nat) :
    Turn (World × List Buffer × Nat) (World × Option (List Buffer)) -> Prop where
  | nothing (chain : s.2.1 = []) : SendfileMove limit s (Turn.done (s.1, some []))
  | stays {b : Buffer} {rest : List Buffer} (chain : s.2.1 = b :: rest)
      (stop : ¬ (s.2.2 < limit ∧ b.memory = false)) :
      SendfileMove limit s (Turn.done (s.1, some (b :: rest)))
  | passes {b : Buffer} {rest : List Buffer} (chain : s.2.1 = b :: rest)
      (file : b.memory = false) (empty : cSize (bufferSize b) = 0) :
      SendfileMove limit s (Turn.next (s.1, rest, s.2.2))
  | waits {b : Buffer} {rest : List Buffer} {rs : List SysResult} (chain : s.2.1 = b :: rest)
      (results : s.1.results = [] ∧ rs = [] ∨ s.1.results = SysResult.again :: rs) :
      SendfileMove limit s
        (Turn.done ({ s.1 with results := rs, ready := false }, some (b :: rest)))
  | retries {b : Buffer} {rest : List Buffer} {rs : List SysResult}
      (chain : s.2.1 = b :: rest) (results : s.1.results = SysResult.intr :: rs) :
      SendfileMove limit s (Turn.next ({ s.1 with results := rs }, b :: rest, s.2.2))
  | fails {r : SysResult} {rs : List SysResult} (results : s.1.results = r :: rs)
      (answer : r = SysResult.error ∨ r = SysResult.sent 0) :
      SendfileMove limit s (Turn.done ({ s.1 with results := rs }, none))
  | sends {b b' : Buffer} {rest : List Buffer} {n k : Nat} {rs : List SysResult}
      (chain : s.2.1 = b :: rest) (file : b.memory = false)
      (results : s.1.results = SysResult.sent n :: rs)
      (pos : 0 < k) (room : s.2.2 + k ≤ limit) (within : k ≤ cSize (bufferSize b))
      (moved : b' = { b with filePos := b.filePos + k })
      {w : World} (world : w =
        { s.1 with
          results := rs
          cSent := s.1.cSent + k
          taken := s.1.taken ++ load s.1.file b.filePos.toNat k }) :
      SendfileMove limit s
        (Turn.next (w, if bufferSize b' = 0 then rest else b' :: rest, s.2.2 + k))

theorem sendfileTurn_move (limit : Nat) (s : World × List Buffer × Nat) :
    SendfileMove limit s (sendfileTurn limit s) := by
  unfold sendfileTurn
  split
  · next chain => exact SendfileMove.nothing chain
  · next b rest chain =>
    split
    · next go =>
      dsimp only
      split
      · next empty => exact SendfileMove.passes chain go.2 empty
      · next hfull =>
        generalize hpack : (if limit < s.2.2 + cSize (bufferSize b) then limit - s.2.2
          else cSize (bufferSize b)) = packSize
        have hfits : 0 < packSize ∧ s.2.2 + packSize ≤ limit ∧
            packSize ≤ cSize (bufferSize b) := by
          split at hpack
          · omega
          · omega
        split
        · next results =>
          have hmove := @SendfileMove.waits limit s b rest [] chain (Or.inl ⟨results, rfl⟩)
          rw [← results] at hmove
          exact hmove
        · next rs results => exact SendfileMove.waits chain (Or.inr results)
        · next rs results => exact SendfileMove.retries chain results
        · next rs results => exact SendfileMove.fails results (Or.inl rfl)
        · next n rs results =>
          split
          · next hrc =>
            have hzero : n = 0 := by omega
            apply SendfileMove.fails results
            rw [hzero]
            exact Or.inr rfl
          · next hrc =>
            have hmove := @SendfileMove.sends limit s b _ rest n (min n packSize) rs chain go.2
              results (Nat.pos_of_ne_zero hrc) (by omega) (by omega) rfl _ rfl
            split
            · next hdone =>
              rw [if_pos hdone] at hmove
              exact hmove
            · next hleft =>
              rw [if_neg hleft] at hmove
              exact hmove
    · next stop => exact SendfileMove.stays chain stop

end Output
end NgxEpoll
