import NgxEpoll.Conf.Objects
import NgxEpoll.MemPool.Arrays

/-!
# The arrays of the parser

The parser keeps words, directives and addresses in arrays of a memory pool, which are
lists here.  Where `array_push` succeeds, an array keeps up with its list.
-/

namespace NgxEpoll
namespace Conf

open Foundation NgxEpoll.Core
open MemPool (Malloc Contract Held GrowOk readArray elements arrayPush arrayPush_encodes)

section Pushes

variable {M : Malloc} {C : Contract M} {w w' : MemPool.World M} {a p : Nat}
  {owned rest : List (Nat × Nat)} {nodes : List Nat}

theorem endOption_pushed (h : Held C w a owned nodes rest) (hgrow : GrowOk w a nodes)
    (hpush : arrayPush w a = some (some p, w')) {s : Scan} {encode : List Byte -> List Byte}
    (hargs : elements w.mem a = s.args.map encode) (hword : s.optionLen ≠ 0)
    (hsize : (encode s.word).length = (readArray w.mem a).size) :
    elements (store w'.mem p (encode s.word)) a = s.endOption.args.map encode := by
  have hargs' : s.endOption.args = s.args ++ [s.word] := by
    unfold Scan.endOption
    rw [if_pos hword]
    dsimp only
    split <;> rfl
  rw [hargs']
  exact arrayPush_encodes h hgrow hargs hpush hsize

section Directives

variable {s : Scan} {encode : ConfArgs -> List Byte}

theorem pushOpts_pushed (h : Held C w a owned nodes rest) (hgrow : GrowOk w a nodes)
    (hpush : arrayPush w a = some (some p, w'))
    (hopts : elements w.mem a = s.arrOpts.map encode)
    (hsize : (encode ⟨s.args, s.line⟩).length = (readArray w.mem a).size) :
    elements (store w'.mem p (encode ⟨s.args, s.line⟩)) a = s.pushOpts.arrOpts.map encode :=
  arrayPush_encodes h hgrow hopts hpush hsize

theorem pushType_pushed (h : Held C w a owned nodes rest) (hgrow : GrowOk w a nodes)
    (hpush : arrayPush w a = some (some p, w'))
    (htype : elements w.mem a = s.arrType.map encode)
    (hsize : (encode ⟨s.args, s.line⟩).length = (readArray w.mem a).size) :
    elements (store w'.mem p (encode ⟨s.args, s.line⟩)) a = s.pushType.arrType.map encode :=
  arrayPush_encodes h hgrow htype hpush hsize

end Directives

theorem pushBind_pushed (h : Held C w a owned nodes rest) (hgrow : GrowOk w a nodes)
    (hpush : arrayPush w a = some (some p, w')) {conf conf' : ConfServer} {offset : Nat}
    {arg : List Byte} (hok : pushBind conf offset arg = Handled.ok conf')
    {encode : ServerBind -> List Byte}
    (hbinds : elements w.mem a = (conf.binds offset).map encode)
    (hsize : (encode (splitBind arg)).length = (readArray w.mem a).size) :
    elements (store w'.mem p (encode (splitBind arg))) a =
      (conf'.binds offset).map encode := by
  unfold pushBind at hok
  split at hok
  · cases hok
  · dsimp only at hok
    split at hok
    · cases hok
    · cases hok
      dsimp only
      rw [Function.update_self]
      exact arrayPush_encodes h hgrow hbinds hpush hsize

end Pushes

end Conf
end NgxEpoll
