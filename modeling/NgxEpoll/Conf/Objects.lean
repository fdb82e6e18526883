import NgxEpoll.Conf.Scanner
import NgxEpoll.Conf.Handlers

/-!
# From directives to objects

After the loop `conf_parse_buf` reads the two-token directives as declarations of
objects, then the others as options of the objects.  A text that is refused, or
whose reading leaves the memory of a buffer, has no result.

## Objects
-/

namespace NgxEpoll
namespace Conf

open Foundation NgxEpoll.Core

/-- `conf_object_t`.  All objects here have the default pass
`conf_server_make_default`. -/
structure ConfObject where
  name : List Byte
  init : ConfServer
  option : List ConfOption

def dnConfObjects : List ConfObject :=
  [⟨ascii "Server", confServerInit, confServerOption⟩]

structure ConfVariable where
  name : List Byte
  objName : List Byte
  conf : ConfServer
  option : List ConfOption

def confParseObject (vars : List ConfVariable) (var : List Byte) (obj : ConfObject) :
    List ConfVariable :=
  vars ++ [⟨var, obj.name, obj.init, obj.option⟩]

def confParseType (vars : List ConfVariable) (args : List (List Byte)) :
    Option (List ConfVariable) :=
  match args with
  | word0 :: word1 :: _ =>
      (dnConfObjects.find? fun obj => SameName word0 obj.name).map fun obj =>
        confParseObject vars word1 obj
  | _ => none

/-!
## Options
-/

def confGetVobject (names : List (List Byte)) (name : List Byte) : Option Nat :=
  names.findIdx? fun n => SameName name n

def operType (o : ConfOption) (oper : List Byte) : Option Ope :=
  if oper.length ≠ 1 then none
  else if o.type = Ope.equal ∧ oper = ascii "=" then some Ope.equal
  else if o.type = Ope.regex ∧ oper = ascii "~" then some Ope.regex
  else none

def confParseObjectAtt (v : ConfVariable) (att : List Byte) (args : List (List Byte)) :
    Option ConfServer :=
  match v.option.find? fun o => SameName att o.option with
  | none => none
  | some o =>
      match operType o (args.getD 1 []) with
      | none => none
      | some type =>
          match o.handler.run v.conf o.offset type args with
          | Handled.ok conf => some conf
          | _ => none

def confParseAttribute (vars : List ConfVariable) (args : List (List Byte)) :
    Option (List ConfVariable) :=
  let word0 := args.headD []
  match strchr word0 chDot with
  | none => none
  | some dot =>
      match confGetVobject (vars.map ConfVariable.name) (word0.take dot) with
      | none => none
      | some k =>
          match vars[k]? with
          | none => none
          | some v =>
              (confParseObjectAtt v (word0.drop (dot + 1)) args).map fun conf =>
                vars.set k { v with conf := conf }

def confTake2 : Nat := 2
def confTake12 : Nat := 12

def confParseOption (vars : List ConfVariable) (args : List (List Byte)) :
    Option (List ConfVariable) :=
  if confTake12 < args.length ∨ args.length < confTake2 then none
  else if args.length = confTake2 then confParseType vars args
  else confParseAttribute vars args

/-!
## A text
-/

def argsOf (confs : List ConfArgs) : List (List (List Byte)) :=
  confs.map ConfArgs.arr

def parseScanned (s : Scan) : Option (List ConfVariable) :=
  if s.inQuotes then none
  else
    ((argsOf s.arrType).foldlM confParseType []).bind fun vars =>
      (argsOf s.arrOpts).foldlM confParseOption vars

def confParseBuf (option buf : Mem) (size : Nat) : Option (List ConfVariable) :=
  if size = 0 then none
  else
    match scanBuf option buf size with
    | Scanned.complete s => parseScanned s
    | _ => none

/-!
## Texts that are given
-/

def scratch : Mem := fun _ => 0

def scanOf (text : List Byte) : Scan :=
  match scanBuf scratch (asMem text) text.length with
  | Scanned.complete s => s
  | _ => scanStart scratch

def parseText (text : List Byte) : Option (List ConfVariable) :=
  confParseBuf scratch (asMem text) text.length

def IsComplete (r : Scanned) : Bool :=
  match r with
  | Scanned.complete _ => true
  | _ => false

theorem scanBuf_text {text : List Byte}
    (h : IsComplete (scanBuf scratch (asMem text) text.length) = true) :
    scanBuf scratch (asMem text) text.length = Scanned.complete (scanOf text) := by
  unfold scanOf
  cases hscan : scanBuf scratch (asMem text) text.length with
  | complete s => rfl
  | failed line =>
      rw [hscan] at h
      cases h
  | fault =>
      rw [hscan] at h
      cases h

end Conf
end NgxEpoll
