import NgxEpoll.Strings.Decimals

/-!
# Output that is cut

What `string_xxvsnprintf` writes to a short buffer is the beginning of what it writes to a
longer one, and a format whose output has room is printed piece by piece.

## Turns with less room
-/

namespace NgxEpoll
namespace Strings

open Foundation
open NgxEpoll.Core

variable {m : Mem} {max max' : Nat} {out : List Byte}

def Print.cut (s : Print) (max : Nat) : Print :=
  { s with out := s.out.take max }

theorem take_append_take (w : List Byte) (hroom : out.length ≤ max) :
    (out ++ w).take max = out ++ w.take (max - out.length) := by
  rw [List.take_append, List.take_of_length_le hroom]

theorem cut_append {w : Nat -> List Byte} (hle : max ≤ max') (hroom : out.length ≤ max)
    (hw : forall room room', room ≤ room' -> (w room').take room = w room) :
    (out ++ w (max' - out.length)).take max = out ++ w (max - out.length) := by
  rw [take_append_take _ hroom, hw _ _ (Nat.sub_le_sub_right hle _)]

theorem copyString_take (m : Mem) (room : Nat) : forall (p : Nat) {room' : Nat}, room ≤ room' ->
    (copyString m p room').take room = copyString m p room := by
  induction room with
  | zero =>
      intro p room' _
      rfl
  | succ room ih =>
      intro p room' hle
      cases room' with
      | zero => cases hle
      | succ room' =>
          unfold copyString
          split
          · rfl
          · rw [List.take_succ_cons, ih _ (Nat.le_of_succ_le_succ hle)]

theorem load_take_min (m : Mem) (p len : Nat) {room room' : Nat} (hle : room ≤ room') :
    (load m p (min len room')).take room = load m p (min len room) := by
  rcases Nat.le_total (min len room') room with hshort | hlong
  · rw [List.take_of_length_le (by rw [load_length]; exact hshort)]
    congr 1
    omega
  · rw [load_take m p _ _ hlong]
    congr 1
    omega

def Number.whole (n : Number) : List Byte :=
  (if n.d.sign ∧ n.i64 < 0 then [byte '-'] else []) ++
    padded n.d.width n.d.zero (digits n.d.hexadecimal n.abs)

theorem Number.put_take (n : Number) (hroom : out.length < max) :
    n.put max out = (out ++ n.whole).take max := by
  have hsign : (if n.d.sign ∧ n.i64 < 0 then out ++ [byte '-'] else out) =
      out ++ if n.d.sign ∧ n.i64 < 0 then [byte '-'] else [] := by
    split
    · rfl
    · rw [List.append_nil]
  unfold Number.put Number.whole padded
  dsimp only
  rw [hsign]
  have hlength : (if n.d.sign ∧ n.i64 < 0 then [byte '-'] else []).length ≤ 1 := by
    split
    · exact Nat.le_refl 1
    · exact Nat.zero_le 1
  generalize (if n.d.sign ∧ n.i64 < 0 then [byte '-'] else []) = sign at hlength ⊢
  generalize digits n.d.hexadecimal n.abs = p
  have hsigned : (out ++ sign).length ≤ max := by
    rw [List.length_append]
    omega
  have hpad : forall z : Byte, (out ++ sign ++
      List.replicate (min (n.d.width - p.length) (max - (out ++ sign).length)) z) =
        (out ++ sign ++ List.replicate (n.d.width - p.length) z).take max := by
    intro z
    rw [take_append_take _ hsigned, List.take_replicate, Nat.min_comm]
  rw [hpad, ← List.append_assoc, ← List.append_assoc]
  generalize out ++ sign ++ List.replicate (n.d.width - p.length) n.d.zero = o
  rw [List.length_take, List.take_append]
  congr 1
  rcases Nat.le_total max o.length with hfull | hfits
  · rw [Nat.min_eq_left hfull, Nat.sub_self, Nat.sub_eq_zero_of_le hfull]
  · rw [Nat.min_eq_right hfits]

theorem Number.put_cut (n : Number) (hle : max ≤ max') (hroom : out.length < max) :
    n.put max out = (n.put max' out).take max := by
  rw [n.put_take hroom, n.put_take (Nat.lt_of_lt_of_le hroom hle), List.take_take,
    Nat.min_eq_left hle]

theorem byte_cut (c : Byte) (hroom : out.length < max) : (out ++ [c]).take max = out ++ [c] := by
  apply List.take_of_length_le
  rw [List.length_append]
  exact hroom

theorem convert_cut (d : Directive) (args : List (BitVec 64)) (fmt : List Byte)
    (hle : max ≤ max') (hroom : out.length < max) :
    convert m max d args out fmt = (convert m max' d args out fmt).map (·.cut max) := by
  have hle' := Nat.le_of_lt hroom
  cases fmt with
  | nil => rfl
  | cons c fmt =>
      unfold convert
      dsimp only
      split_ifs
      · cases args with
        | nil => rfl
        | cons v args =>
            simp only [Option.map_some, Print.cut]
            rw [cut_append (w := fun room => load m _ (min _ room)) hle hle' fun _ _ =>
              load_take_min m _ _]
      · cases args with
        | nil => rfl
        | cons p args =>
            simp only [Option.map_some, Print.cut]
            rw [cut_append (w := copyString m p.toNat) hle hle' fun _ _ =>
              copyString_take m _ _]
      · cases args with
        | nil => rfl
        | cons p args =>
            simp only [Option.map_some, Print.cut]
            rw [cut_append (w := fun room => load m _ (min _ room)) hle hle' fun _ _ =>
              load_take_min m _ _]
      · cases args with
        | nil => rfl
        | cons a args => simp only [Option.map_some, Print.cut, byte_cut _ hroom]
      · simp only [Option.map_some, Print.cut, byte_cut _ hroom]
      · simp only [Option.map_some, Print.cut, byte_cut _ hroom]
      · simp only [Option.map_some, Print.cut, byte_cut _ hroom]
      · cases args with
        | nil => rfl
        | cons a args =>
            dsimp only
            rw [Option.map_map]
            congr 1
            funext n
            simp only [Function.comp_apply, Print.cut, n.put_cut hle hroom]
      · simp only [Option.map_some, Print.cut, byte_cut _ hroom]

theorem directive_cut (args : List (BitVec 64)) (fmt : List Byte) (hle : max ≤ max')
    (hroom : out.length < max) :
    directive m max args out fmt = (directive m max' args out fmt).map (·.cut max) := by
  unfold directive
  cases fmt with
  | nil => rfl
  | cons c fmt =>
      dsimp only
      rw [Option.map_bind]
      congr 1
      funext width
      rw [Function.comp_apply, Option.map_bind]
      congr 1
      funext flags
      exact convert_cut flags.1 flags.2.1 flags.2.2 hle hroom

theorem printBody_extends {s s' : Print} (h : printBody m max s = Turn.next s') :
    s.out <+: s'.out := by
  rcases s with ⟨fmt, args, out⟩
  cases fmt with
  | nil => cases h
  | cons c fmt =>
      unfold printBody at h
      dsimp only at h
      split at h
      next hgo =>
        split at h
        · split at h
          next => cases h
          next t ht =>
            cases h
            rcases (directive_turns ht hgo.2).2 with ⟨w, hw, -⟩
            exact ⟨w, hw.symm⟩
        · cases h
          exact List.prefix_append out [c]
      next => cases h

theorem printLoop_extends {s t : Print} (h : printLoop m max s = some t) : s.out <+: t.out := by
  refine iterate_keeps (fun s' : Print => s.out <+: s'.out) (fun t => s.out <+: t.out)
    (fun _ _ hinv hbody => hinv.trans (printBody_extends hbody)) ?_ (List.prefix_refl _) h
  intro s' r hinv hbody
  rcases s' with ⟨fmt, args, out⟩
  cases fmt with
  | nil => cases hbody
  | cons c fmt =>
      unfold printBody at hbody
      dsimp only at hbody
      split at hbody
      · split at hbody
        · split at hbody
          · cases hbody
          · cases hbody
        · cases hbody
      · cases hbody
        exact hinv

theorem printLoop_ends {s t : Print} (hfull : max ≤ s.out.length)
    (h : printLoop m max' s = some t) :
    printLoop m max (s.cut max) = some (s.cut max) ∧ (s.cut max).out = t.out.take max := by
  rcases s with ⟨fmt, args, out⟩
  constructor
  · cases fmt with
    | nil =>
        rw [printLoop_done rfl] at h
        cases h
    | cons c fmt =>
        refine printLoop_full ?_
        rw [List.length_take]
        exact Nat.le_min.mpr ⟨Nat.le_refl max, hfull⟩
  · rcases printLoop_extends h with ⟨w, hw⟩
    show out.take max = t.out.take max
    rw [← hw, List.take_append_of_le_length hfull]

theorem printLoop_cut (hle : max ≤ max') (n : Nat) : forall {s t : Print}, s.fmt.length = n ->
    s.out.length ≤ max -> printLoop m max' s = some t ->
      exists t', printLoop m max s = some t' ∧ t'.out = t.out.take max := by
  induction n using Nat.strongRecOn with
  | ind n ih =>
      intro s t hn hroom h
      rcases Nat.lt_or_ge s.out.length max with hlt | hge
      case inr =>
        have hcut : s.cut max = s := by
          unfold Print.cut
          rw [List.take_of_length_le hroom]
        have hends := printLoop_ends hge h
        rw [hcut] at hends
        exact ⟨s, hends⟩
      case inl =>
        rcases s with ⟨fmt, args, out⟩
        subst hn
        cases fmt with
        | nil =>
            rw [printLoop_done rfl] at h
            cases h
        | cons c fmt =>
            have hlt' := Nat.lt_of_lt_of_le hlt hle
            by_cases hzero : c = 0
            · subst hzero
              rw [printLoop_zero] at h ⊢
              cases h
              exact ⟨_, rfl, (List.take_of_length_le hroom).symm⟩
            by_cases hpercent : c = byte '%'
            · subst hpercent
              rw [printLoop_directive hlt'] at h
              rw [printLoop_directive hlt, directive_cut args fmt hle hlt]
              rcases Option.bind_eq_some_iff.mp h with ⟨s', hs', h⟩
              have hshort := (directive_turns hs' hlt').1
              rw [hs', Option.map_some, Option.bind_some]
              rcases Nat.le_total s'.out.length max with hfits | hfull
              · have hcut : s'.cut max = s' := by
                  unfold Print.cut
                  rw [List.take_of_length_le hfits]
                rw [hcut]
                exact ih _ (Nat.lt_succ_of_lt hshort) rfl hfits h
              · exact ⟨_, printLoop_ends hfull h⟩
            · rw [printLoop_plain hzero hpercent hlt'] at h
              rw [printLoop_plain hzero hpercent hlt]
              refine ih fmt.length (Nat.lt_succ_self _) rfl ?_ h
              rw [List.length_append]
              exact hlt

/-- Where `string_xxvsnprintf` returns, it does so with less room, too, and has written the
beginning of the same text. -/
theorem xxvsnprintf_cuts (m : Mem) {max max' : Nat} (fmt : List Byte) (args : List (BitVec 64))
    {s : Print} (hle : max ≤ max') (h : stringXxvsnprintf m max' fmt args = some s) :
    exists t, stringXxvsnprintf m max fmt args = some t ∧ t.out = s.out.take max := by
  unfold stringXxvsnprintf at h ⊢
  split
  next hzero =>
    subst hzero
    exact ⟨_, rfl, List.take_zero.symm⟩
  next hpos =>
    rw [if_neg (by omega)] at h
    exact printLoop_cut hle _ rfl (Nat.zero_le max) h

theorem xxvsnprintf_cuts_padding :
    3 ≤ 16 ∧ stringXxvsnprintf (asMem []) 16 (ascii "a%5d\x00") [7] =
        some { fmt := [0], args := [], out := ascii "a    7" } ∧
      exists t, stringXxvsnprintf (asMem []) 3 (ascii "a%5d\x00") [7] = some t ∧
        t.out = (ascii "a    7").take 3 :=
  ⟨by decide, by decide +kernel, xxvsnprintf_cuts (asMem []) (ascii "a%5d\x00") [7] (by decide)
    (show stringXxvsnprintf (asMem []) 16 (ascii "a%5d\x00") [7] =
      some { fmt := [0], args := [], out := ascii "a    7" } by decide +kernel)⟩

end Strings
end NgxEpoll
