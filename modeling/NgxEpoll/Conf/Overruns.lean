import NgxEpoll.Conf.Lexemes

/-!
# Reading and writing out of bounds

When the scanning loop stays within the text and within its scratch buffer.
-/

namespace NgxEpoll
namespace Conf

open Foundation NgxEpoll.Core

/-- In front of lexemes, with a word of `len` bytes and `words` words before it in the
directive: up to the first error no word grows over the scratch buffer, and no byte behind
the text is asked for. -/
def Fits : Nat -> Nat -> List Lexeme -> Prop
  | _, _, [] => True
  | len, words, Lexeme.word bytes :: ls =>
      len + bytes.length ≤ confMaxOptionS + 1 ∧ Fits (len + bytes.length) words ls
  | len, words, Lexeme.lost _ :: ls => Fits len words ls
  | len, words, Lexeme.blank :: ls => Fits len words ls
  | len, words, Lexeme.space :: ls => Fits 0 (if len ≠ 0 then words + 1 else words) ls
  | len, words, Lexeme.hash :: ls => len = 0 -> Fits len words ls
  | _, words, Lexeme.semicolon :: ls => words ≠ 0 -> Fits 0 0 ls
  | _, _, Lexeme.stop :: _ => True
  | _, _, Lexeme.beyond :: _ => False

instance instDecidableFits : forall (len words : Nat) (ls : List Lexeme), Decidable (Fits len words ls)
  | _, _, [] => instDecidableTrue
  | len, words, Lexeme.word bytes :: ls =>
      have := instDecidableFits (len + bytes.length) words ls
      inferInstanceAs (Decidable (_ ∧ Fits (len + bytes.length) words ls))
  | len, words, Lexeme.lost _ :: ls => instDecidableFits len words ls
  | len, words, Lexeme.blank :: ls => instDecidableFits len words ls
  | len, words, Lexeme.space :: ls =>
      instDecidableFits 0 (if len ≠ 0 then words + 1 else words) ls
  | len, words, Lexeme.hash :: ls =>
      have := instDecidableFits len words ls
      inferInstanceAs (Decidable (len = 0 -> Fits len words ls))
  | _, words, Lexeme.semicolon :: ls =>
      have := instDecidableFits 0 0 ls
      inferInstanceAs (Decidable (words ≠ 0 -> Fits 0 0 ls))
  | _, _, Lexeme.stop :: _ => instDecidableTrue
  | _, _, Lexeme.beyond :: _ => instDecidableFalse

variable {buf : Mem} {size : Nat} {s t : Scan} {ls : List Lexeme}

def FitsFrom (s : Scan) (ls : List Lexeme) : Prop :=
  Fits s.word.length s.args.length ls

theorem Holds.fitsFrom {word : List Byte} {args : List (List Byte)}
    {types opts : List (List (List Byte))} (h : Holds s word args types opts) :
    FitsFrom s ls ↔ Fits word.length args.length ls := by
  unfold FitsFrom
  rw [h.word, h.args]

/-- The loop leaves the text or the scratch buffer exactly when the lexemes do not fit. -/
theorem scanFrom_fault_iff (hat : At buf size s ls) :
    scanFrom buf size s ≠ Scanned.fault ↔ FitsFrom s ls := by
  induction ls generalizing s with
  | nil =>
      rw [scanFrom_done hat.ends]
      exact iff_of_true nofun trivial
  | cons l ls ih =>
      have hsteps := hat.steps
      generalize hturn : scanByte buf size s = turn at hsteps
      cases hsteps with
      | word hroom h hat' =>
          rw [scanFrom_next hturn, ih hat', h.fitsFrom, List.length_append]
          exact (and_iff_right hroom).symm
      | overrun hlong =>
          rw [scanFrom_done hturn]
          exact iff_of_false (fun h => h rfl) fun h => absurd h.1 (Nat.not_le_of_lt hlong)
      | lost h hat' =>
          rw [scanFrom_next hturn, ih hat', h.fitsFrom]
          exact Iff.rfl
      | blank h hat' =>
          rw [scanFrom_next hturn, ih hat', h.fitsFrom]
          exact Iff.rfl
      | space h hat' =>
          have hcount : (if s.word ≠ [] then s.args ++ [s.word] else s.args).length =
              if s.word.length ≠ 0 then s.args.length + 1 else s.args.length := by
            by_cases hword : s.word = []
            · rw [if_neg (not_not.mpr hword), hword]
              rfl
            · have hlen : s.word.length ≠ 0 := fun h => hword (List.length_eq_zero_iff.mp h)
              rw [if_pos hword, if_pos hlen, List.length_append]
              rfl
          rw [scanFrom_next hturn, ih hat', h.fitsFrom, hcount]
          exact Iff.rfl
      | hash hword h hat' =>
          have hlen : s.word.length = 0 := List.length_eq_zero_iff.mpr hword
          rw [scanFrom_next hturn, ih hat', h.fitsFrom]
          exact ⟨fun h _ => h, fun h => h hlen⟩
      | hashInWord hword =>
          rw [scanFrom_done hturn]
          refine iff_of_true nofun fun hlen => ?_
          exact absurd (List.length_eq_zero_iff.mp hlen) hword
      | semicolon hargs h hat' =>
          have hwords : s.args.length ≠ 0 := fun h => hargs (List.length_eq_zero_iff.mp h)
          rw [scanFrom_next hturn, ih hat', h.fitsFrom]
          exact ⟨fun h _ => h, fun h => h hwords⟩
      | fewWords hargs =>
          rw [scanFrom_done hturn]
          refine iff_of_true nofun fun hlen => ?_
          exact absurd (List.length_eq_zero_iff.mpr hargs) hlen
      | stop =>
          rw [scanFrom_done hturn]
          exact iff_of_true nofun trivial
      | beyond =>
          rw [scanFrom_done hturn]
          exact iff_of_false (fun h => h rfl) id

theorem scanBuf_fault {text : List Byte} (h : ¬ Fits 0 0 (textLexemes text)) :
    scanBuf scratch (asMem text) text.length = Scanned.fault := by
  by_contra hne
  have hfits := (scanFrom_fault_iff (start_at scratch (asMem text) text.length)).mp hne
  rw [load_asMem] at hfits
  exact h hfits

/-- The scanning loop reads bytes of the text and writes bytes of its scratch buffer only,
exactly when up to the first error of the text no word has more bytes than the scratch
buffer, no backslash outside of comments is the last byte, and the text is not one
newline. -/
theorem scan_in_bounds_iff (option buf : Mem) (size : Nat) :
    scanBuf option buf size ≠ Scanned.fault ↔ Fits 0 0 (textLexemes (load buf 0 size)) :=
  scanFrom_fault_iff (start_at option buf size)

theorem scan_out_of_bounds :
    scanBuf scratch (asMem [chNewline]) [chNewline].length = Scanned.fault ∧
      scanBuf scratch (asMem (ascii "Server s\\")) (ascii "Server s\\").length =
        Scanned.fault := by
  have hnewline : ¬ Fits 0 0 (textLexemes [chNewline]) := by
    decide
  have hbackslash : ¬ Fits 0 0 (textLexemes (ascii "Server s\\")) := by
    decide +kernel
  exact ⟨scanBuf_fault hnewline, scanBuf_fault hbackslash⟩

end Conf
end NgxEpoll
