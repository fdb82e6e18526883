import NgxEpoll.Output.Runs

/-!
# Where a chain is taken up again

`chain_write_update` empties the buffers that have been sent and returns the node from
which there is something left.  `chainWriteUpdate` is the chain from that node on; here
the nodes in front of it are kept as well.
-/

namespace NgxEpoll
namespace Output

open Foundation
open NgxEpoll.Core

def emptied (b : Buffer) : Buffer :=
  if b.memory then { b with pos := b.last } else { b with filePos := b.fileLast }

/-- `chain_write_update` on all nodes: those before the node that it returns, and those
from there on. -/
def chainWriteUpdateNodes : List Buffer -> Nat -> List Buffer × List Buffer
  | [], _ => ([], [])
  | b :: rest, size =>
      if size = 0 then ([], b :: rest)
      else
        let bsize := cSize (bufferSize b)
        if size < bsize then
          if b.memory then ([], { b with pos := b.pos + size } :: rest)
          else ([], { b with filePos := b.filePos + size } :: rest)
        else
          let r := chainWriteUpdateNodes rest (size - bsize)
          (emptied b :: r.1, r.2)

variable {m file : Mem} {b : Buffer} {cl rest : List Buffer} {size : Nat}

theorem emptied_size (b : Buffer) : bufferSize (emptied b) = 0 := by
  unfold emptied bufferSize bufferInMemory
  cases hm : b.memory with
  | true => exact Int.sub_self _
  | false => exact Int.sub_self _

theorem chainWriteUpdateNodes_snd (cl : List Buffer) (size : Nat) :
    (chainWriteUpdateNodes cl size).2 = chainWriteUpdate cl size := by
  induction cl generalizing size with
  | nil => rfl
  | cons b rest ih =>
      unfold chainWriteUpdateNodes chainWriteUpdate
      by_cases hzero : size = 0
      · rw [if_pos hzero, if_pos hzero]
      · rw [if_neg hzero, if_neg hzero]
        dsimp only
        split
        · split
          · rfl
          · rfl
        · exact ih _

/-- How the nodes of `cl` lie after `size` bytes of it have been sent. -/
structure Resumed (m file : Mem) (cl : List Buffer) (size : Nat)
    (r : List Buffer × List Buffer) : Prop where
  content : content m file r.2 = (content m file cl).drop size
  before : r.1 = (cl.take r.1.length).map emptied
  empty : forall b, b ∈ r.1 -> bufferSize b = 0
  behind : r.2.tail = cl.drop (r.1.length + 1)
  length : r.1.length + r.2.length = cl.length

/-- The nodes before the returned one are emptied, and those behind it are as they
were. -/
theorem chainWriteUpdateNodes_parts (cl : List Buffer) (size : Nat) :
    (chainWriteUpdateNodes cl size).1 =
        (cl.take (chainWriteUpdateNodes cl size).1.length).map emptied ∧
      (chainWriteUpdateNodes cl size).2.tail =
        cl.drop ((chainWriteUpdateNodes cl size).1.length + 1) ∧
      (chainWriteUpdateNodes cl size).1.length + (chainWriteUpdateNodes cl size).2.length =
        cl.length := by
  induction cl generalizing size with
  | nil => exact ⟨rfl, rfl, rfl⟩
  | cons b rest ih =>
      unfold chainWriteUpdateNodes
      split
      · exact ⟨rfl, rfl, Nat.zero_add _⟩
      · dsimp only
        split
        · split
          · exact ⟨rfl, rfl, Nat.zero_add _⟩
          · exact ⟨rfl, rfl, Nat.zero_add _⟩
        · have hrest := ih (size - cSize (bufferSize b))
          generalize chainWriteUpdateNodes rest (size - cSize (bufferSize b)) = r at hrest ⊢
          obtain ⟨hbefore, hbehind, hlength⟩ := hrest
          constructor
          · dsimp only
            rw [List.length_cons, List.take_succ_cons, List.map_cons, ← hbefore]
          constructor
          · exact hbehind
          · dsimp only
            rw [List.length_cons, List.length_cons]
            omega

/-- Whatever the mix of buffers, `chain_write_update` takes exactly the bytes that were
sent from the front of the chain. -/
theorem chainWriteUpdate_resumes (m file : Mem) (cl : List Buffer) (size : Nat)
    (hwf : ChainWf cl) : Resumed m file cl size (chainWriteUpdateNodes cl size) := by
  obtain ⟨hbefore, hbehind, hlength⟩ := chainWriteUpdateNodes_parts cl size
  constructor
  · rw [chainWriteUpdateNodes_snd]
    exact chainWriteUpdate_content hwf size
  · exact hbefore
  · intro b hb
    rw [hbefore] at hb
    obtain ⟨c, _, heq⟩ := List.mem_map.mp hb
    rw [← heq]
    exact emptied_size c
  · exact hbehind
  · exact hlength

def mixedChain : List Buffer :=
  [memoryBuffer 3, memoryBuffer 0, fileBuffer 5]

theorem chainWriteUpdate_resumes_mixed :
    Resumed (fun _ => 0) (fun _ => 0) mixedChain 4 (chainWriteUpdateNodes mixedChain 4) :=
  chainWriteUpdate_resumes _ _ mixedChain 4
    (ChainWf.cons (memoryBuffer_wf (by decide)) (ChainWf.cons (memoryBuffer_wf (by decide))
      (ChainWf.cons (fileBuffer_wf (by decide)) nofun)))

example : (chainWriteUpdateNodes mixedChain 4).1.length = 2 := by decide

end Output
end NgxEpoll
