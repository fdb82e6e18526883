import NgxEpoll.Des.Rounds

/-!
# Triple DES

`gl_3des_set2keys`, `gl_3des_set3keys` and `gl_3des_ecb_crypt` of `dfs_math.cpp`: three
times the rounds of DES, with the macros around them only once.

## The functions
-/

namespace NgxEpoll
namespace Des

open Foundation
open NgxEpoll.Core

structure Gl3desCtx where
  encryptSubkeys : Nat -> Word
  decryptSubkeys : Nat -> Word

def Gl3desCtx.setEncrypt (ctx : Gl3desCtx) (j : Nat) (v : Word) : Gl3desCtx :=
  { ctx with encryptSubkeys := Function.update ctx.encryptSubkeys j v }

def Gl3desCtx.setDecrypt (ctx : Gl3desCtx) (j : Nat) (v : Word) : Gl3desCtx :=
  { ctx with decryptSubkeys := Function.update ctx.decryptSubkeys j v }

def set2keysTurn (ctx : Gl3desCtx) (i : Nat) : Gl3desCtx :=
  let ctx := ctx.setDecrypt i (ctx.encryptSubkeys (30 - i))
  let ctx := ctx.setDecrypt (i + 1) (ctx.encryptSubkeys (31 - i))
  let ctx := ctx.setEncrypt (i + 32) (ctx.decryptSubkeys (62 - i))
  let ctx := ctx.setEncrypt (i + 33) (ctx.decryptSubkeys (63 - i))
  let ctx := ctx.setEncrypt (i + 64) (ctx.encryptSubkeys i)
  let ctx := ctx.setEncrypt (i + 65) (ctx.encryptSubkeys (i + 1))
  let ctx := ctx.setDecrypt (i + 64) (ctx.decryptSubkeys i)
  ctx.setDecrypt (i + 65) (ctx.decryptSubkeys (i + 1))

def gl3desSet2keys (ctx : Gl3desCtx) (key1 key2 : Block) : Gl3desCtx :=
  evenLoop set2keysTurn
    { encryptSubkeys := storeWords ctx.encryptSubkeys 0 (desKeySchedule key1)
      decryptSubkeys := storeWords ctx.decryptSubkeys 32 (desKeySchedule key2) }

def set3keysTurn (ctx : Gl3desCtx) (i : Nat) : Gl3desCtx :=
  let ctx := ctx.setDecrypt i (ctx.encryptSubkeys (94 - i))
  let ctx := ctx.setDecrypt (i + 1) (ctx.encryptSubkeys (95 - i))
  let ctx := ctx.setEncrypt (i + 32) (ctx.decryptSubkeys (62 - i))
  let ctx := ctx.setEncrypt (i + 33) (ctx.decryptSubkeys (63 - i))
  let ctx := ctx.setDecrypt (i + 64) (ctx.encryptSubkeys (30 - i))
  ctx.setDecrypt (i + 65) (ctx.encryptSubkeys (31 - i))

def gl3desSet3keys (ctx : Gl3desCtx) (key1 key2 key3 : Block) : Gl3desCtx :=
  let encrypt := storeWords ctx.encryptSubkeys 0 (desKeySchedule key1)
  evenLoop set3keysTurn
    { encryptSubkeys := storeWords encrypt 64 (desKeySchedule key3)
      decryptSubkeys := storeWords ctx.decryptSubkeys 32 (desKeySchedule key2) }

/-- The rounds of `gl_3des_ecb_crypt`.  The eight lines in the middle begin with
`DES_ROUND (left, right, ..)`. -/
def tripleRounds (keys : Nat -> Word) (p : Word × Word) : Word × Word :=
  let p := desRounds keys 0 8 p
  let p := (desRounds keys 16 8 p.swap).swap
  desRounds keys 32 8 p

def gl3desEcbCrypt (ctx : Gl3desCtx) (block : Block) (mode : Bool) : Block :=
  crypt (tripleRounds (if mode then ctx.decryptSubkeys else ctx.encryptSubkeys)) block

/-!
## The arrays
-/

/-- The first `n` pairs of an array, from `base` on, are the last pairs of `a` backwards. -/
def Back (a : Nat -> Word) (dst : Nat -> Word) (base n : Nat) : Prop :=
  forall i, i < n -> dst (2 * i + base) = a (30 - 2 * i) ∧
    dst (2 * i + (base + 1)) = a (31 - 2 * i)

variable {a b c : Nat -> Word} {keys keys' : Nat -> Word} {n : Nat}

theorem Back.congr {base : Nat} (h : Back a keys base n)
    (hsame : forall j, base ≤ j -> j < base + 2 * n -> keys' j = keys j) :
    Back a keys' base n := by
  intro i hi
  rw [hsame _ (by omega) (by omega), hsame _ (by omega) (by omega)]
  exact h i hi

theorem Back.succ {base : Nat} (h : Back a keys base n)
    (heven : keys (2 * n + base) = a (30 - 2 * n))
    (hodd : keys (2 * n + (base + 1)) = a (31 - 2 * n)) : Back a keys base (n + 1) := by
  intro i hi
  rcases Nat.lt_or_ge i n with hlt | hge
  · exact h i hlt
  · have heq : i = n := by omega
    subst heq
    exact ⟨heven, hodd⟩

theorem Back.holdsBack {key : Block} {k : Nat}
    (h : Back (fun j => (desKeySchedule key).getD j 0) keys (2 * k) 16) :
    HoldsBack keys k key := by
  intro i hi
  rcases h i hi with ⟨heven, hodd⟩
  rw [show 2 * (k + i) = 2 * i + 2 * k by omega, Nat.add_assoc, heven, hodd]
  constructor
  · exact congrArg (fun j => (desKeySchedule key).getD j 0) (by omega)
  · exact congrArg (fun j => (desKeySchedule key).getD j 0) (by omega)

theorem set3keysTurn_encrypt (ctx : Gl3desCtx) (hn : n < 16) (j : Nat) :
    (set3keysTurn ctx (2 * n)).encryptSubkeys j =
      if j = 2 * n + 32 then ctx.decryptSubkeys (32 + (30 - 2 * n))
      else if j = 2 * n + 33 then ctx.decryptSubkeys (32 + (31 - 2 * n))
      else ctx.encryptSubkeys j := by
  have heven : 62 - 2 * n = 32 + (30 - 2 * n) := by omega
  have hodd : 63 - 2 * n = 32 + (31 - 2 * n) := by omega
  unfold set3keysTurn
  dsimp only [Gl3desCtx.setEncrypt, Gl3desCtx.setDecrypt]
  rw [heven, hodd]
  simp (disch := omega) only [Function.update_of_ne]
  by_cases h : j = 2 * n + 33
  · rw [if_neg (by omega), if_pos h, h, Function.update_self]
  · rw [Function.update_of_ne h, if_neg h, Function.update_apply]

theorem set3keysTurn_decrypt (ctx : Gl3desCtx) (hn : n < 16) (j : Nat) :
    (set3keysTurn ctx (2 * n)).decryptSubkeys j =
      if j = 2 * n then ctx.encryptSubkeys (64 + (30 - 2 * n))
      else if j = 2 * n + 1 then ctx.encryptSubkeys (64 + (31 - 2 * n))
      else if j = 2 * n + 64 then ctx.encryptSubkeys (30 - 2 * n)
      else if j = 2 * n + 65 then ctx.encryptSubkeys (31 - 2 * n)
      else ctx.decryptSubkeys j := by
  have heven : 94 - 2 * n = 64 + (30 - 2 * n) := by omega
  have hodd : 95 - 2 * n = 64 + (31 - 2 * n) := by omega
  unfold set3keysTurn
  dsimp only [Gl3desCtx.setEncrypt, Gl3desCtx.setDecrypt]
  rw [heven, hodd]
  simp (disch := omega) only [Function.update_of_ne]
  simp only [Function.update_apply]
  split_ifs <;> first | rfl | omega

theorem set2keysTurn_encrypt (ctx : Gl3desCtx) (hn : n < 16) (j : Nat) :
    (set2keysTurn ctx (2 * n)).encryptSubkeys j =
      if j = 2 * n + 32 then ctx.decryptSubkeys (32 + (30 - 2 * n))
      else if j = 2 * n + 33 then ctx.decryptSubkeys (32 + (31 - 2 * n))
      else if j = 2 * n + 64 then ctx.encryptSubkeys (2 * n)
      else if j = 2 * n + 65 then ctx.encryptSubkeys (2 * n + 1)
      else ctx.encryptSubkeys j := by
  have heven : 62 - 2 * n = 32 + (30 - 2 * n) := by omega
  have hodd : 63 - 2 * n = 32 + (31 - 2 * n) := by omega
  unfold set2keysTurn
  dsimp only [Gl3desCtx.setEncrypt, Gl3desCtx.setDecrypt]
  rw [heven, hodd]
  simp (disch := omega) only [Function.update_of_ne]
  simp only [Function.update_apply]
  split_ifs <;> first | rfl | omega

theorem set2keysTurn_decrypt (ctx : Gl3desCtx) (n j : Nat) :
    (set2keysTurn ctx (2 * n)).decryptSubkeys j =
      if j = 2 * n then ctx.encryptSubkeys (30 - 2 * n)
      else if j = 2 * n + 1 then ctx.encryptSubkeys (31 - 2 * n)
      else if j = 2 * n + 64 then ctx.encryptSubkeys (30 - 2 * n)
      else if j = 2 * n + 65 then ctx.encryptSubkeys (31 - 2 * n)
      else ctx.decryptSubkeys j := by
  unfold set2keysTurn
  dsimp only [Gl3desCtx.setEncrypt, Gl3desCtx.setDecrypt]
  simp (disch := omega) only [Function.update_of_ne, Function.update_self]
  simp only [Function.update_apply]
  split_ifs <;> first | rfl | omega

/-- After `n` turns of the loop in `gl_3des_set3keys`, from arrays with `a`, `b` and `c`. -/
structure Set3Turned (a b c : Nat -> Word) (n : Nat) (ctx : Gl3desCtx) : Prop where
  first : forall j, j < 32 -> ctx.encryptSubkeys j = a j
  second : forall j, j < 32 -> ctx.decryptSubkeys (32 + j) = b j
  third : forall j, j < 32 -> ctx.encryptSubkeys (64 + j) = c j
  decryptFirst : Back c ctx.decryptSubkeys 0 n
  encryptSecond : Back b ctx.encryptSubkeys 32 n
  decryptThird : Back a ctx.decryptSubkeys 64 n

theorem set3keysTurn_turned {ctx : Gl3desCtx} (hn : n < 16) (h : Set3Turned a b c n ctx) :
    Set3Turned a b c (n + 1) (set3keysTurn ctx (2 * n)) := by
  have hencrypt := set3keysTurn_encrypt ctx hn
  have hdecrypt := set3keysTurn_decrypt ctx hn
  constructor
  case first =>
    intro j hj
    rw [hencrypt, if_neg (by omega), if_neg (by omega)]
    exact h.first j hj
  case second =>
    intro j hj
    rw [hdecrypt, if_neg (by omega), if_neg (by omega), if_neg (by omega), if_neg (by omega)]
    exact h.second j hj
  case third =>
    intro j hj
    rw [hencrypt, if_neg (by omega), if_neg (by omega)]
    exact h.third j hj
  case decryptFirst =>
    refine Back.succ (h.decryptFirst.congr fun j hge hlt => ?_) ?_ ?_
    · rw [hdecrypt, if_neg (by omega), if_neg (by omega), if_neg (by omega),
        if_neg (by omega)]
    · rw [hdecrypt, if_pos (by omega)]
      exact h.third _ (by omega)
    · rw [hdecrypt, if_neg (by omega), if_pos (by omega)]
      exact h.third _ (by omega)
  case encryptSecond =>
    refine Back.succ (h.encryptSecond.congr fun j hge hlt => ?_) ?_ ?_
    · rw [hencrypt, if_neg (by omega), if_neg (by omega)]
    · rw [hencrypt, if_pos rfl]
      exact h.second _ (by omega)
    · rw [hencrypt, if_neg (by omega), if_pos rfl]
      exact h.second _ (by omega)
  case decryptThird =>
    refine Back.succ (h.decryptThird.congr fun j hge hlt => ?_) ?_ ?_
    · rw [hdecrypt, if_neg (by omega), if_neg (by omega), if_neg (by omega),
        if_neg (by omega)]
    · rw [hdecrypt, if_neg (by omega), if_neg (by omega), if_pos rfl]
      exact h.first _ (by omega)
    · rw [hdecrypt, if_neg (by omega), if_neg (by omega), if_neg (by omega), if_pos rfl]
      exact h.first _ (by omega)

/-- After `n` turns of the loop in `gl_3des_set2keys`, from arrays with `a` and `b`. -/
structure Set2Turned (a b : Nat -> Word) (n : Nat) (ctx : Gl3desCtx) : Prop where
  first : forall j, j < 32 -> ctx.encryptSubkeys j = a j
  second : forall j, j < 32 -> ctx.decryptSubkeys (32 + j) = b j
  third : forall j, j < 2 * n -> ctx.encryptSubkeys (64 + j) = a j
  decryptFirst : Back a ctx.decryptSubkeys 0 n
  encryptSecond : Back b ctx.encryptSubkeys 32 n
  decryptThird : Back a ctx.decryptSubkeys 64 n

theorem set2keysTurn_turned {ctx : Gl3desCtx} (hn : n < 16) (h : Set2Turned a b n ctx) :
    Set2Turned a b (n + 1) (set2keysTurn ctx (2 * n)) := by
  have hencrypt := set2keysTurn_encrypt ctx hn
  have hdecrypt := set2keysTurn_decrypt ctx n
  constructor
  case first =>
    intro j hj
    rw [hencrypt, if_neg (by omega), if_neg (by omega), if_neg (by omega), if_neg (by omega)]
    exact h.first j hj
  case second =>
    intro j hj
    rw [hdecrypt, if_neg (by omega), if_neg (by omega), if_neg (by omega), if_neg (by omega)]
    exact h.second j hj
  case third =>
    intro j hj
    rw [hencrypt, if_neg (by omega), if_neg (by omega)]
    rcases Nat.lt_or_ge j (2 * n) with hlt | hge
    · rw [if_neg (by omega), if_neg (by omega)]
      exact h.third j hlt
    · rcases Nat.eq_or_lt_of_le hge with rfl | hgt
      · rw [if_pos (by omega)]
        exact h.first _ (by omega)
      · have heq : j = 2 * n + 1 := by omega
        subst heq
        rw [if_neg (by omega), if_pos (by omega)]
        exact h.first _ (by omega)
  case decryptFirst =>
    refine Back.succ (h.decryptFirst.congr fun j hge hlt => ?_) ?_ ?_
    · rw [hdecrypt, if_neg (by omega), if_neg (by omega), if_neg (by omega),
        if_neg (by omega)]
    · rw [hdecrypt, if_pos (by omega)]
      exact h.first _ (by omega)
    · rw [hdecrypt, if_neg (by omega), if_pos (by omega)]
      exact h.first _ (by omega)
  case encryptSecond =>
    refine Back.succ (h.encryptSecond.congr fun j hge hlt => ?_) ?_ ?_
    · rw [hencrypt, if_neg (by omega), if_neg (by omega), if_neg (by omega),
        if_neg (by omega)]
    · rw [hencrypt, if_pos rfl]
      exact h.second _ (by omega)
    · rw [hencrypt, if_neg (by omega), if_pos rfl]
      exact h.second _ (by omega)
  case decryptThird =>
    refine Back.succ (h.decryptThird.congr fun j hge hlt => ?_) ?_ ?_
    · rw [hdecrypt, if_neg (by omega), if_neg (by omega), if_neg (by omega),
        if_neg (by omega)]
    · rw [hdecrypt, if_neg (by omega), if_neg (by omega), if_pos rfl]
      exact h.first _ (by omega)
    · rw [hdecrypt, if_neg (by omega), if_neg (by omega), if_neg (by omega), if_pos rfl]
      exact h.first _ (by omega)

/-- The subkeys of three keys, as encryption and decryption take them. -/
structure Scheduled (ctx : Gl3desCtx) (key1 key2 key3 : Block) : Prop where
  encryptFirst : Holds ctx.encryptSubkeys 0 key1
  encryptSecond : HoldsBack ctx.encryptSubkeys 16 key2
  encryptThird : Holds ctx.encryptSubkeys 32 key3
  decryptFirst : HoldsBack ctx.decryptSubkeys 0 key3
  decryptSecond : Holds ctx.decryptSubkeys 16 key2
  decryptThird : HoldsBack ctx.decryptSubkeys 32 key1

theorem storeWords_key (a : Nat -> Word) (base : Nat) (key : Block) {j : Nat} (hj : j < 32) :
    storeWords a base (desKeySchedule key) (base + j) = (desKeySchedule key).getD j 0 :=
  storeWords_inside a (by rw [length_desKeySchedule]; exact hj)

theorem set3keys_scheduled (ctx : Gl3desCtx) (key1 key2 key3 : Block) :
    Scheduled (gl3desSet3keys ctx key1 key2 key3) key1 key2 key3 := by
  have hturned : Set3Turned (fun j => (desKeySchedule key1).getD j 0)
      (fun j => (desKeySchedule key2).getD j 0) (fun j => (desKeySchedule key3).getD j 0) 16
      (gl3desSet3keys ctx key1 key2 key3) := by
    refine evenLoop_rule (Set3Turned _ _ _) ?_ fun n c hn h => set3keysTurn_turned hn h
    constructor
    case first =>
      intro j hj
      have hstored := storeWords_key ctx.encryptSubkeys 0 key1 hj
      rw [Nat.zero_add] at hstored
      exact (storeWords_outside _ (Or.inl (by omega))).trans hstored
    case second => exact fun j hj => storeWords_key ctx.decryptSubkeys 32 key2 hj
    case third => exact fun j hj => storeWords_key _ 64 key3 hj
    case decryptFirst => exact fun i hi => absurd hi (Nat.not_lt_zero i)
    case encryptSecond => exact fun i hi => absurd hi (Nat.not_lt_zero i)
    case decryptThird => exact fun i hi => absurd hi (Nat.not_lt_zero i)
  constructor
  case encryptFirst =>
    intro j hj
    rw [Nat.mul_zero, Nat.zero_add]
    exact hturned.first j hj
  case encryptSecond => exact Back.holdsBack hturned.encryptSecond
  case encryptThird => exact hturned.third
  case decryptFirst => exact Back.holdsBack hturned.decryptFirst
  case decryptSecond => exact hturned.second
  case decryptThird => exact Back.holdsBack hturned.decryptThird

theorem set2keys_scheduled (ctx : Gl3desCtx) (key1 key2 : Block) :
    Scheduled (gl3desSet2keys ctx key1 key2) key1 key2 key1 := by
  have hturned : Set2Turned (fun j => (desKeySchedule key1).getD j 0)
      (fun j => (desKeySchedule key2).getD j 0) 16 (gl3desSet2keys ctx key1 key2) := by
    refine evenLoop_rule (Set2Turned _ _) ?_ fun n c hn h => set2keysTurn_turned hn h
    constructor
    case first =>
      intro j hj
      have hstored := storeWords_key ctx.encryptSubkeys 0 key1 hj
      rw [Nat.zero_add] at hstored
      exact hstored
    case second => exact fun j hj => storeWords_key ctx.decryptSubkeys 32 key2 hj
    case third => exact fun j hj => absurd hj (Nat.not_lt_zero j)
    case decryptFirst => exact fun i hi => absurd hi (Nat.not_lt_zero i)
    case encryptSecond => exact fun i hi => absurd hi (Nat.not_lt_zero i)
    case decryptThird => exact fun i hi => absurd hi (Nat.not_lt_zero i)
  constructor
  case encryptFirst =>
    intro j hj
    rw [Nat.mul_zero, Nat.zero_add]
    exact hturned.first j hj
  case encryptSecond => exact Back.holdsBack hturned.encryptSecond
  case encryptThird => exact hturned.third
  case decryptFirst => exact Back.holdsBack hturned.decryptFirst
  case decryptSecond => exact hturned.second
  case decryptThird => exact Back.holdsBack hturned.decryptThird

/-!
## Three ciphers in a row
-/

theorem crypt_tripleRounds (keys : Nat -> Word) (block : Block) :
    crypt (tripleRounds keys) block =
      crypt (desRounds keys 32 8)
        (crypt (desRounds keys 16 8) (crypt (desRounds keys 0 8) block)) := by
  rw [crypt_crypt, crypt_crypt]
  rfl

theorem Scheduled.encrypts {ctx : Gl3desCtx} {key1 key2 key3 : Block}
    (h : Scheduled ctx key1 key2 key3) (block : Block) :
    gl3desEcbCrypt ctx block false =
      des key3 false (des key2 true (des key1 false block)) := by
  show crypt (tripleRounds ctx.encryptSubkeys) block = _
  rw [crypt_tripleRounds, des_encrypt h.encryptFirst, des_decrypt h.encryptSecond,
    des_encrypt h.encryptThird]

theorem Scheduled.decrypts {ctx : Gl3desCtx} {key1 key2 key3 : Block}
    (h : Scheduled ctx key1 key2 key3) (block : Block) :
    gl3desEcbCrypt ctx block true =
      des key1 true (des key2 false (des key3 true block)) := by
  show crypt (tripleRounds ctx.decryptSubkeys) block = _
  rw [crypt_tripleRounds, des_decrypt h.decryptFirst, des_encrypt h.decryptSecond,
    des_decrypt h.decryptThird]

theorem Scheduled.undone {ctx : Gl3desCtx} {key1 key2 key3 : Block}
    (h : Scheduled ctx key1 key2 key3) (block : Block) (mode : Bool) :
    gl3desEcbCrypt ctx (gl3desEcbCrypt ctx block mode) (!mode) = block := by
  cases mode with
  | false =>
      show gl3desEcbCrypt ctx (gl3desEcbCrypt ctx block false) true = block
      rw [h.encrypts, h.decrypts, des_decrypt_encrypt, des_encrypt_decrypt,
        des_decrypt_encrypt]
  | true =>
      show gl3desEcbCrypt ctx (gl3desEcbCrypt ctx block true) false = block
      rw [h.decrypts, h.encrypts, des_encrypt_decrypt, des_decrypt_encrypt,
        des_encrypt_decrypt]

/-- With three keys, `gl_3des_ecb_crypt` writes what three calls of `gl_des_ecb_crypt` write,
that encrypt, decrypt and encrypt, and undoes it in the other mode; two keys are three keys
with the first one again, and one key alone gives single DES. -/
theorem triple_is_ede (ctx : Gl3desCtx) (single : GlDesCtx) (key1 key2 key3 block : Block)
    (mode : Bool) :
    let des := fun key mode block => (glDesEcbCrypt (glDesSetkey single key) block mode).1
    gl3desEcbCrypt (gl3desSet3keys ctx key1 key2 key3) block false =
        des key3 false (des key2 true (des key1 false block)) ∧
      gl3desEcbCrypt (gl3desSet3keys ctx key1 key2 key3) block true =
        des key1 true (des key2 false (des key3 true block)) ∧
      gl3desEcbCrypt (gl3desSet3keys ctx key1 key2 key3)
        (gl3desEcbCrypt (gl3desSet3keys ctx key1 key2 key3) block mode) (!mode) = block ∧
      gl3desEcbCrypt (gl3desSet2keys ctx key1 key2) block mode =
        gl3desEcbCrypt (gl3desSet3keys ctx key1 key2 key1) block mode ∧
      gl3desEcbCrypt (gl3desSet3keys ctx key1 key1 key1) block mode = des key1 mode block := by
  have hthree := set3keys_scheduled ctx key1 key2 key3
  have htwo := set2keys_scheduled ctx key1 key2
  have hagain := set3keys_scheduled ctx key1 key2 key1
  have hone := set3keys_scheduled ctx key1 key1 key1
  intro des'
  have hdes : des' = des := by
    funext key mode block
    exact setkey_des single key block mode
  rw [hdes]
  refine ⟨hthree.encrypts block, hthree.decrypts block, hthree.undone block mode, ?_, ?_⟩
  · cases mode with
    | false => rw [htwo.encrypts, hagain.encrypts]
    | true => rw [htwo.decrypts, hagain.decrypts]
  · cases mode with
    | false => rw [hone.encrypts, des_decrypt_encrypt]
    | true => rw [hone.decrypts, des_encrypt_decrypt]

end Des
end NgxEpoll
