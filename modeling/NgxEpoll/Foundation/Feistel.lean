import Mathlib.Data.List.Basic

/-!
# Feistel networks

A block has two halves.  A round masks one half with a function of the other half, and
the halves change places.  The rounds in reverse order undo a network, whatever its
functions are.
-/

namespace NgxEpoll
namespace Foundation

variable {half : Type} (xor : half -> half -> half)

def feistel : List (half -> half) -> half × half -> half × half
  | [], p => p
  | f :: fs, p => feistel fs (p.2, xor p.1 (f p.2))

theorem feistel_append (fs gs : List (half -> half)) (p : half × half) :
    feistel xor (fs ++ gs) p = feistel xor gs (feistel xor fs p) := by
  induction fs generalizing p with
  | nil => rfl
  | cons f fs ih => exact ih _

theorem feistel_reverse (hxor : forall a b, xor (xor a b) b = a) (fs : List (half -> half))
    (p : half × half) :
    feistel xor fs.reverse (feistel xor fs p).swap = p.swap := by
  induction fs generalizing p with
  | nil => rfl
  | cons f fs ih =>
      rw [List.reverse_cons, feistel_append]
      show feistel xor [f] (feistel xor fs.reverse
        (feistel xor fs (p.2, xor p.1 (f p.2))).swap) = p.swap
      rw [ih]
      show (p.2, xor (xor p.1 (f p.2)) (f p.2)) = p.swap
      rw [hxor]
      rfl

end Foundation
end NgxEpoll
