import NgxEpoll.Core.Strings
import Mathlib.Logic.Function.Basic

/-!
# The options of a server object

The handlers of `dfs_conf_base.cpp` and `dn_conf.cpp` write through an offset into a
`conf_server_t`.  Its memory is given by 32-bit words at offsets that are multiples
of four.  What the pointers of a `string_t` or of an `array_t` lead to is kept beside
the words, under the offset of the field.

## Memory
-/

namespace NgxEpoll
namespace Conf

open Foundation NgxEpoll.Core

abbrev Words := Nat -> BitVec 32

def Words.size (m : Words) (a : Nat) : Nat :=
  (m a).toNat + 2 ^ 32 * (m (a + 4)).toNat

def lowWord (v : Nat) : BitVec 32 :=
  BitVec.ofNat 32 v

def highWord (v : Nat) : BitVec 32 :=
  BitVec.ofNat 32 (v / 2 ^ 32)

def Words.setSize (m : Words) (a v : Nat) : Words :=
  Function.update (Function.update m a (lowWord v)) (a + 4) (highWord v)

structure ServerBind where
  addr : List Byte
  port : Nat
deriving DecidableEq, Repr

structure ConfServer where
  words : Words
  data : Nat -> List Byte
  binds : Nat -> List ServerBind

def confServerInit : ConfServer :=
  ⟨fun _ => 0, fun _ => [], fun _ => []⟩

namespace ConfServer

/-!
The offsets of the fields.
-/

def daemon : Nat := 0
def workerN : Nat := 4
def bindForCli : Nat := 8
def nsSrv : Nat := 48
def listenForOtherDn : Nat := 64
def myPaxos : Nat := 80
def connectionN : Nat := 112
def errorLog : Nat := 120
def coredumpDir : Nat := 136
def pidFile : Nat := 152
def logLevel : Nat := 168
def recvBuffLen : Nat := 172
def sendBuffLen : Nat := 176
def maxTqueueLen : Nat := 180
def dataDir : Nat := 184
def heartbeatInterval : Nat := 200
def blockReportInterval : Nat := 204

def setWord (conf : ConfServer) (a : Nat) (v : BitVec 32) : ConfServer :=
  { conf with words := Function.update conf.words a v }

def setSize (conf : ConfServer) (a v : Nat) : ConfServer :=
  { conf with words := conf.words.setSize a v }

end ConfServer

/-!
## Handlers
-/

inductive Ope where
  | regex
  | equal
deriving DecidableEq, Repr

/-- What a handler leaves.  A `fault` is an access outside of a buffer. -/
inductive Handled where
  | ok (conf : ConfServer)
  | error (conf : ConfServer)
  | fault

def takeThree (conf : ConfServer) (type : Ope) (args : List (List Byte))
    (body : List Byte -> Handled) : Handled :=
  match type, args with
  | Ope.equal, [_, _, arg] => body arg
  | _, _ => Handled.error conf

def confMaxLenInt : Nat := 10

def confParseInt (conf : ConfServer) (offset : Nat) (type : Ope)
    (args : List (List Byte)) : Handled :=
  takeThree conf type args fun arg =>
    if confMaxLenInt < arg.length then Handled.error conf
    else
      let value := stringXxstrtoui arg
      let conf := conf.setWord offset value
      if value.toInt = ngxError then Handled.error conf else Handled.ok conf

def confMaxLenTimeT : Nat := 20

def confParseTimeT (conf : ConfServer) (offset : Nat) (type : Ope)
    (args : List (List Byte)) : Handled :=
  takeThree conf type args fun arg =>
    if confMaxLenTimeT < arg.length then Handled.error conf
    else
      let value := stringXxstrtotime arg
      let conf := conf.setSize offset value.toNat
      if value.toInt = ngxError then Handled.error conf else Handled.ok conf

/-- Equal lengths, and equal without regard to case. -/
def SameName (s t : List Byte) : Prop :=
  s.length = t.length ∧ stringXxstrncasecmp s t s.length = 0

instance (s t : List Byte) : Decidable (SameName s t) :=
  inferInstanceAs (Decidable (_ ∧ _))

def confMacro : List (List Byte × BitVec 32) :=
  [ (ascii "ALLOW", 1),
    (ascii "DENY", 2),
    (ascii "ON", 1),
    (ascii "OFF", 0),
    (ascii "LOG_FATAL", 1),
    (ascii "LOG_ERROR", 2),
    (ascii "LOG_ALERT", 3),
    (ascii "LOG_WARN", 4),
    (ascii "LOG_NOTICE", 5),
    (ascii "LOG_INFO", 6),
    (ascii "LOG_DEBUG", 9) ]

def chBar : Byte := 0x7c

def confParseNnMacro (conf : ConfServer) (offset : Nat) (type : Ope)
    (args : List (List Byte)) : Handled :=
  takeThree conf type args fun arg =>
    if arg = [] then Handled.error conf
    else if strchr arg chBar = none then
      match confMacro.find? fun m => SameName arg m.1 with
      | some m => Handled.ok (conf.setWord offset m.2)
      | none => Handled.error conf
    else Handled.error conf

def bytesUnits : List (List Byte × Nat) :=
  [ (ascii "KB", 10), (ascii "MB", 20), (ascii "GB", 30), (ascii "TB", 40),
    (ascii "PB", 50), (ascii "B", 0) ]

def leadingNumber (arg : List Byte) : Nat :=
  (arg.takeWhile isDigit).foldl (fun b c => (b * 10 + digitOf c) % 2 ^ 64) 0

def unitSize : Nat := 20

/-- The number of bytes that an argument stands for. -/
def bytesSize (arg : List Byte) : Option Nat :=
  let unit := (arg.dropWhile isDigit).map toupper
  (bytesUnits.find? fun u => stringXxstrncasecmp unit u.1 u.1.length = 0).map fun u =>
    leadingNumber arg * 2 ^ u.2 % 2 ^ 64

def confParseBytesSize (conf : ConfServer) (offset : Nat) (type : Ope)
    (args : List (List Byte)) : Handled :=
  takeThree conf type args fun arg =>
    if unitSize ≤ (arg.dropWhile isDigit).length then Handled.fault
    else
      match bytesSize arg with
      | some b => Handled.ok (conf.setSize offset b)
      | none => Handled.error conf

def confParseString (conf : ConfServer) (offset : Nat) (type : Ope)
    (args : List (List Byte)) : Handled :=
  takeThree conf type args fun arg =>
    if 0 < conf.words.size offset then Handled.error conf
    else
      Handled.ok { conf.setSize offset arg.length with
        data := Function.update conf.data offset arg }

/-!
## Addresses to bind
-/

inductive BindType where
  | error
  | port
  | ip
  | addr
deriving DecidableEq, Repr

def chDot : Byte := 0x2e
def chColon : Byte := 0x3a

def maxBindSize : Nat := 22

def confParseValidBindIpv4 (bind : List Byte) : BindType :=
  if bind = [] ∨ maxBindSize ≤ bind.length then BindType.error
  else if isalnum (bind.getLastD 0) = false ∨ isalnum (bind.headD 0) = false then
    BindType.error
  else if bind.all (fun c => c = chDot || c = chColon || isalnum c) = false then
    BindType.error
  else
    match strchr bind chDot, strchr bind chColon with
    | some _, some _ => BindType.addr
    | some _, none => BindType.ip
    | none, _ => BindType.port

def confServerDefPort : Nat := 80

def confServerDefIp : List Byte := ascii "0.0.0.0"

def BindIpv4StrCmp (c1 : ServerBind) (str : List Byte) : Prop :=
  let port :=
    match strchr str chColon with
    | some sp => (stringXxstrtoi (str.drop (sp + 1)) % 2 ^ 16).toNat
    | none => confServerDefPort
  ((cString c1.addr = confServerDefIp ∨ strstr str confServerDefIp) ∧ port = c1.port) ∨
    (port = c1.port ∧ c1.addr <+: cString str)

instance (c1 : ServerBind) (str : List Byte) : Decidable (BindIpv4StrCmp c1 str) :=
  inferInstanceAs (Decidable ((_ ∧ _) ∨ (_ ∧ _)))

def splitBind (arg : List Byte) : ServerBind :=
  match strchr arg chColon with
  | some sp => ⟨arg.take sp, (stringXxstrtoi (arg.drop (sp + 1)) % 2 ^ 32).toNat⟩
  | none => ⟨arg, confServerDefPort⟩

def pushBind (conf : ConfServer) (offset : Nat) (arg : List Byte) : Handled :=
  if (conf.binds offset).any fun c1 => BindIpv4StrCmp c1 arg then Handled.error conf
  else
    let bind := splitBind arg
    if bind.port = 0 ∨ 65535 < bind.port then Handled.error conf
    else
      Handled.ok { conf with
        binds := Function.update conf.binds offset (conf.binds offset ++ [bind]) }

def confParseBind (conf : ConfServer) (offset : Nat) (type : Ope)
    (args : List (List Byte)) : Handled :=
  takeThree conf type args fun arg =>
    match confParseValidBindIpv4 arg with
    | BindType.error => Handled.error conf
    | BindType.port =>
        -- the composed string and its end have to fit into the allocated bytes
        let bind := confServerDefIp ++ chColon :: arg
        if maxBindSize ≤ bind.length then Handled.fault else pushBind conf offset bind
    | _ => pushBind conf offset arg

/-!
## The table
-/

inductive Handler where
  | nnMacro
  | int
  | bind
  | string
  | bytesSize
deriving DecidableEq, Repr

def Handler.run : Handler -> ConfServer -> Nat -> Ope -> List (List Byte) -> Handled
  | Handler.nnMacro => confParseNnMacro
  | Handler.int => confParseInt
  | Handler.bind => confParseBind
  | Handler.string => confParseString
  | Handler.bytesSize => confParseBytesSize

structure ConfOption where
  option : List Byte
  handler : Handler
  type : Ope
  offset : Nat
deriving DecidableEq, Repr

open ConfServer in
def confServerOption : List ConfOption :=
  [ ⟨ascii "daemon", Handler.nnMacro, Ope.equal, daemon⟩,
    ⟨ascii "workers", Handler.int, Ope.equal, workerN⟩,
    ⟨ascii "bind_for_cli", Handler.bind, Ope.equal, bindForCli⟩,
    ⟨ascii "ns_srv", Handler.string, Ope.equal, nsSrv⟩,
    ⟨ascii "listen_for_other_dn", Handler.string, Ope.equal, listenForOtherDn⟩,
    ⟨ascii "my_paxos", Handler.string, Ope.equal, myPaxos⟩,
    ⟨ascii "connections", Handler.int, Ope.equal, connectionN⟩,
    ⟨ascii "error_log", Handler.string, Ope.equal, errorLog⟩,
    ⟨ascii "coredump_dir", Handler.string, Ope.equal, coredumpDir⟩,
    ⟨ascii "pid_file", Handler.string, Ope.equal, pidFile⟩,
    ⟨ascii "log_level", Handler.nnMacro, Ope.equal, logLevel⟩,
    ⟨ascii "recv_buff_len", Handler.bytesSize, Ope.equal, recvBuffLen⟩,
    ⟨ascii "send_buff_len", Handler.bytesSize, Ope.equal, sendBuffLen⟩,
    ⟨ascii "max_tqueue_len", Handler.int, Ope.equal, maxTqueueLen⟩,
    ⟨ascii "data_dir", Handler.string, Ope.equal, dataDir⟩,
    ⟨ascii "heartbeat_interval", Handler.int, Ope.equal, heartbeatInterval⟩,
    ⟨ascii "block_report_interval", Handler.int, Ope.equal, blockReportInterval⟩ ]

end Conf
end NgxEpoll
