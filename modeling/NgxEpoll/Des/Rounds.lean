import NgxEpoll.Des.Cipher

/-!
# Encryption undone

The subkeys for decryption are those for encryption, round by round in reverse order, so
that the same rounds undo each other.

## Rounds as a network
-/

namespace NgxEpoll
namespace Des

open Foundation
open NgxEpoll.Core

def roundFunction (keys : Nat -> Word) (k : Nat) (src : Word) : Word :=
  desRound keys k src 0#32

theorem desRound_eq (keys : Nat -> Word) (k : Nat) (src dst : Word) :
    desRound keys k src dst = dst ^^^ roundFunction keys k src := by
  unfold roundFunction desRound
  simp only [BitVec.zero_xor, BitVec.xor_assoc]

def roundFunctions (keys : Nat -> Word) (k n : Nat) : List (Word -> Word) :=
  (List.range' k n).map (roundFunction keys)

theorem desRounds_eq (keys : Nat -> Word) (n : Nat) : forall (k : Nat) (p : Word × Word),
    desRounds keys k n p = feistel (· ^^^ ·) (roundFunctions keys k (2 * n)) p := by
  induction n with
  | zero =>
      intro k p
      rfl
  | succ n ih =>
      intro k p
      show desRounds keys (k + 2) n _ = feistel _ (roundFunctions keys k (2 * n + 1 + 1)) p
      unfold roundFunctions
      rw [ih, desRound_eq, desRound_eq, List.range'_succ, List.range'_succ]
      rfl

/-- `n` rounds of the subkeys `keys'`, from round `k'` on, have those of `keys` from round
`k` on in reverse order. -/
def Reversed (keys : Nat -> Word) (k : Nat) (keys' : Nat -> Word) (k' n : Nat) : Prop :=
  forall i, i < n -> keys' (2 * (k' + i)) = keys (2 * (k + (n - 1 - i))) ∧
    keys' (2 * (k' + i) + 1) = keys (2 * (k + (n - 1 - i)) + 1)

variable {keys keys' : Nat -> Word} {k k' n : Nat}

theorem Reversed.symm (h : Reversed keys k keys' k' n) : Reversed keys' k' keys k n := by
  intro i hi
  have hback := h (n - 1 - i) (by omega)
  rw [show n - 1 - (n - 1 - i) = i by omega] at hback
  exact ⟨hback.1.symm, hback.2.symm⟩

theorem roundFunction_congr (heven : keys' (2 * k') = keys (2 * k))
    (hodd : keys' (2 * k' + 1) = keys (2 * k + 1)) :
    roundFunction keys' k' = roundFunction keys k := by
  funext src
  unfold roundFunction desRound
  rw [heven, hodd]

theorem Reversed.roundFunctions (h : Reversed keys k keys' k' n) :
    roundFunctions keys' k' n = (roundFunctions keys k n).reverse := by
  unfold Des.roundFunctions
  apply List.ext_getElem
  · simp only [List.length_map, List.length_range', List.length_reverse]
  · intro i hi _
    rw [List.length_map, List.length_range'] at hi
    rw [List.getElem_reverse]
    simp only [List.getElem_map, List.getElem_range', List.length_map, List.length_range',
      Nat.one_mul]
    exact roundFunction_congr (h i hi).1 (h i hi).2

theorem Reversed.undoes (h : Reversed keys k keys' k' (2 * n)) (p : Word × Word) :
    desRounds keys' k' n (desRounds keys k n p).swap = p.swap := by
  rw [desRounds_eq, desRounds_eq, h.roundFunctions]
  exact feistel_reverse (· ^^^ ·) xor_twice _ p

theorem Reversed.crypt (h : Reversed keys k keys' k' (2 * n)) (block : Block) :
    crypt (desRounds keys' k' n) (Des.crypt (desRounds keys k n) block) = block := by
  rw [crypt_crypt]
  refine Eq.trans ?_ (crypt_swap block)
  congr 1
  funext p
  exact h.undoes p

/-!
## The arrays of subkeys
-/

theorem evenLoop_rule {ctx : Type} {turn : ctx -> Nat -> ctx} {c : ctx}
    (Inv : Nat -> ctx -> Prop) (hinit : Inv 0 c)
    (hstep : forall n c, n < 16 -> Inv n c -> Inv (n + 1) (turn c (2 * n))) :
    Inv 16 (evenLoop turn c) := by
  have hrange : forall n, n ≤ 16 ->
      Inv n ((List.range n).foldl (fun c n => turn c (2 * n)) c) := by
    intro n
    induction n with
    | zero => exact fun _ => hinit
    | succ n ih =>
        intro hle
        rw [List.range_succ, List.foldl_append]
        exact hstep n _ hle (ih (Nat.le_of_succ_le hle))
  exact hrange 16 (Nat.le_refl 16)

theorem length_scheduleLoop (rounds : List Nat) :
    forall left right, (scheduleLoop rounds left right).length = 2 * rounds.length := by
  induction rounds with
  | nil =>
      intro left right
      rfl
  | cons n rounds ih =>
      intro left right
      unfold scheduleLoop
      dsimp only
      rw [List.length_cons, List.length_cons, ih, List.length_cons]
      omega

theorem length_desKeySchedule (rawkey : Block) : (desKeySchedule rawkey).length = 32 :=
  length_scheduleLoop encryptRotateTab _ _

theorem storeWords_inside (a : Nat -> Word) {base j : Nat} {ws : List Word}
    (h : j < ws.length) : storeWords a base ws (base + j) = ws.getD j 0 := by
  unfold storeWords
  rw [if_pos ⟨by omega, by omega⟩, Nat.add_sub_cancel_left]

theorem storeWords_outside (a : Nat -> Word) {base j : Nat} {ws : List Word}
    (h : j < base ∨ base + ws.length ≤ j) : storeWords a base ws j = a j := by
  unfold storeWords
  rw [if_neg (by omega)]

/-- The subkeys of `key` lie in an array, from round `k` on. -/
def Holds (keys : Nat -> Word) (k : Nat) (key : Block) : Prop :=
  forall j, j < 32 -> keys (2 * k + j) = (desKeySchedule key).getD j 0

def HoldsBack (keys : Nat -> Word) (k : Nat) (key : Block) : Prop :=
  Reversed (fun j => (desKeySchedule key).getD j 0) 0 keys k 16

theorem holds_storeWords (a : Nat -> Word) (k : Nat) (key : Block) :
    Holds (storeWords a (2 * k) (desKeySchedule key)) k key := by
  intro j hj
  exact storeWords_inside a (by rw [length_desKeySchedule]; exact hj)

theorem Holds.roundFunctions {key : Block} (h : Holds keys k key) (h' : Holds keys' k' key) :
    roundFunctions keys k 16 = roundFunctions keys' k' 16 := by
  unfold Des.roundFunctions
  apply List.ext_getElem
  · simp only [List.length_map, List.length_range']
  · intro i hi _
    rw [List.length_map, List.length_range'] at hi
    simp only [List.getElem_map, List.getElem_range', Nat.one_mul]
    apply roundFunction_congr
    · rw [show 2 * (k + i) = 2 * k + 2 * i by omega,
        show 2 * (k' + i) = 2 * k' + 2 * i by omega, h (2 * i) (by omega), h' (2 * i) (by omega)]
    · rw [show 2 * (k + i) + 1 = 2 * k + (2 * i + 1) by omega,
        show 2 * (k' + i) + 1 = 2 * k' + (2 * i + 1) by omega,
        h (2 * i + 1) (by omega), h' (2 * i + 1) (by omega)]

theorem HoldsBack.reversed {key : Block} (hback : HoldsBack keys' k' key)
    (h : Holds keys k key) : Reversed keys k keys' k' 16 := by
  intro i hi
  rcases hback i hi with ⟨heven, hodd⟩
  rw [heven, hodd, show 2 * (k + (16 - 1 - i)) = 2 * k + 2 * (0 + (16 - 1 - i)) by omega,
    Nat.add_assoc, h _ (by omega), h _ (by omega)]
  exact ⟨rfl, rfl⟩

theorem HoldsBack.roundFunctions {key : Block} (h : HoldsBack keys k key)
    (h' : HoldsBack keys' k' key) : roundFunctions keys k 16 = roundFunctions keys' k' 16 := by
  unfold HoldsBack at h h'
  rw [h.roundFunctions, h'.roundFunctions]

/-- After `n` turns of the loop in `gl_des_setkey`. -/
structure SetkeyTurned (keys : Nat -> Word) (n : Nat) (ctx : GlDesCtx) : Prop where
  encrypt : ctx.encryptSubkeys = keys
  decrypt : forall i, i < n -> ctx.decryptSubkeys (2 * i) = keys (30 - 2 * i) ∧
    ctx.decryptSubkeys (2 * i + 1) = keys (31 - 2 * i)

theorem setkeyTurn_turned {ctx : GlDesCtx} (h : SetkeyTurned keys n ctx) :
    SetkeyTurned keys (n + 1) (setkeyTurn ctx (2 * n)) := by
  constructor
  · exact h.encrypt
  · intro i hi
    unfold setkeyTurn
    dsimp only
    rw [h.encrypt]
    rcases Nat.lt_or_ge i n with hlt | hge
    · rw [Function.update_of_ne (by omega), Function.update_of_ne (by omega),
        Function.update_of_ne (by omega), Function.update_of_ne (by omega)]
      exact h.decrypt i hlt
    · have heq : i = n := by omega
      subst heq
      rw [Function.update_of_ne (by omega), Function.update_self, Function.update_self]
      exact ⟨rfl, rfl⟩

theorem setkey_turned (ctx : GlDesCtx) (key : Block) :
    SetkeyTurned (storeWords ctx.encryptSubkeys 0 (desKeySchedule key)) 16
      (glDesSetkey ctx key) := by
  refine evenLoop_rule (SetkeyTurned (storeWords ctx.encryptSubkeys 0 (desKeySchedule key)))
    ⟨rfl, ?_⟩ fun n c _ h => setkeyTurn_turned h
  intro i hi
  cases hi

theorem setkey_holds (ctx : GlDesCtx) (key : Block) :
    Holds (glDesSetkey ctx key).encryptSubkeys 0 key := by
  rw [(setkey_turned ctx key).encrypt]
  exact holds_storeWords ctx.encryptSubkeys 0 key

theorem setkey_holdsBack (ctx : GlDesCtx) (key : Block) :
    HoldsBack (glDesSetkey ctx key).decryptSubkeys 0 key := by
  have hstored : forall j, j < 32 -> storeWords ctx.encryptSubkeys 0 (desKeySchedule key) j =
      (desKeySchedule key).getD j 0 := by
    intro j hj
    have hholds := holds_storeWords ctx.encryptSubkeys 0 key j hj
    rw [Nat.mul_zero, Nat.zero_add] at hholds
    exact hholds
  intro i hi
  rcases (setkey_turned ctx key).decrypt i hi with ⟨heven, hodd⟩
  rw [Nat.zero_add, Nat.zero_add, heven, hodd, hstored _ (by omega), hstored _ (by omega)]
  constructor
  · exact congrArg (fun j => (desKeySchedule key).getD j 0) (by omega)
  · exact congrArg (fun j => (desKeySchedule key).getD j 0) (by omega)

/-!
## Blocks
-/

def des (key : Block) (mode : Bool) (block : Block) : Block :=
  (glDesEcbCrypt (glDesSetkey ⟨fun _ => 0, fun _ => 0⟩ key) block mode).1

theorem des_encrypt {key : Block} (h : Holds keys k key) (block : Block) :
    crypt (desRounds keys k 8) block = des key false block := by
  refine congrArg (fun rounds => crypt rounds block) (funext fun p => ?_)
  show desRounds keys k 8 p = desRounds _ 0 8 p
  rw [desRounds_eq, desRounds_eq]
  exact congrArg (fun fs => feistel _ fs p) (h.roundFunctions (setkey_holds _ key))

theorem des_decrypt {key : Block} (h : HoldsBack keys k key) (block : Block) :
    crypt (desRounds keys k 8) block = des key true block := by
  refine congrArg (fun rounds => crypt rounds block) (funext fun p => ?_)
  show desRounds keys k 8 p = desRounds _ 0 8 p
  rw [desRounds_eq, desRounds_eq]
  exact congrArg (fun fs => feistel _ fs p) (h.roundFunctions (setkey_holdsBack _ key))

theorem setkey_des (ctx : GlDesCtx) (key block : Block) (mode : Bool) :
    (glDesEcbCrypt (glDesSetkey ctx key) block mode).1 = des key mode block := by
  cases mode with
  | false => exact des_encrypt (setkey_holds ctx key) block
  | true => exact des_decrypt (setkey_holdsBack ctx key) block

theorem des_decrypt_encrypt (key block : Block) :
    des key true (des key false block) = block :=
  Reversed.crypt (n := 8) ((setkey_holdsBack ⟨fun _ => 0, fun _ => 0⟩ key).reversed
    (setkey_holds ⟨fun _ => 0, fun _ => 0⟩ key)) block

theorem des_encrypt_decrypt (key block : Block) :
    des key false (des key true block) = block :=
  Reversed.crypt (n := 8) ((setkey_holdsBack ⟨fun _ => 0, fun _ => 0⟩ key).reversed
    (setkey_holds ⟨fun _ => 0, fun _ => 0⟩ key)).symm block

/-- Two contexts with one key, whatever they held before: what `gl_des_ecb_crypt` writes with
one of them comes back with the other one, in the other mode. -/
theorem ecb_round_trip (ctx ctx' : GlDesCtx) (key block : Block) (mode : Bool) :
    (glDesEcbCrypt (glDesSetkey ctx' key)
      (glDesEcbCrypt (glDesSetkey ctx key) block mode).1 (!mode)).1 = block := by
  rw [setkey_des, setkey_des]
  cases mode with
  | false => exact des_decrypt_encrypt key block
  | true => exact des_encrypt_decrypt key block

end Des
end NgxEpoll
