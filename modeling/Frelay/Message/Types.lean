import Frelay.Lib.Words

/-!
# Message vocabulary

The constants of `message.h`, `statcodes.h` and `auth.h`: size limits, header
field offsets, message classes and types, attribute types, the status codes the
two programs send, and the states of a session. The enumerations are inductive
types with their wire codes; `MsgType.ofCode?` is the `switch` on a 16-bit type
field, whose `none` is the `default` branch.
-/

namespace Frelay

open Lib

/-- Octet strings. -/
abbrev Bytes := List UInt8

/-- The octets of an ASCII text. -/
def ascii (s : String) : Bytes := s.toList.map fun c => UInt8.ofNat c.toNat

/-- `%d`. -/
def decimal : Int → Bytes
  | .ofNat n => ascii (Nat.repr n)
  | .negSucc n => 0x2d :: ascii (Nat.repr (n + 1))

@[simp] theorem length_ascii (s : String) : (ascii s).length = s.length := by
  simp [ascii, String.length_toList]

theorem length_repr_le {n k : Nat} (hk : 0 < k) (h : n < 10 ^ k) : (Nat.repr n).length ≤ k :=
  (Nat.length_repr_le_iff hk).mpr h

theorem length_decimal {n : Int} (h : n.natAbs < 10 ^ 20) : (decimal n).length ≤ 21 := by
  cases n with
  | ofNat n =>
      rw [decimal, length_ascii]
      exact (length_repr_le (by decide) h).trans (by decide)
  | negSucc n =>
      rw [decimal, List.length_cons, length_ascii]
      exact Nat.succ_le_succ (length_repr_le (by decide) h)

/-! ## Sizes and header layout -/

def MSG_HDR_SIZE : Nat := 40
def MSG_MAX_PAY_SIZE : Nat := 65400
def MSG_MAX_SIZE : Nat := MSG_HDR_SIZE + MSG_MAX_PAY_SIZE

def HDR_OFF_TYPE : Nat := 0
def HDR_OFF_PAYLEN : Nat := 2
def HDR_OFF_RFU : Nat := 4
def HDR_OFF_TS : Nat := 8
def HDR_OFF_SRCID : Nat := 16
def HDR_OFF_DSTID : Nat := 24
def HDR_OFF_TRFID : Nat := 32

/-- Round up to the next higher multiple of 8. -/
def roundup8 (n : Nat) : Nat := (n + 7) / 8 * 8

theorem le_roundup8 (n : Nat) : n ≤ roundup8 n := by
  unfold roundup8
  omega

/-! ## Message classes and types -/

def MCLASS_IND : UInt16 := 0x0000
def MCLASS_REQ : UInt16 := 0x0001
def MCLASS_RES : UInt16 := 0x0002
def MCLASS_ERR : UInt16 := 0x000a

def MTYPE_LOGIN : UInt16 := 0x0010
def MTYPE_AUTH : UInt16 := 0x0020
def MTYPE_LOGOUT : UInt16 := 0x0030
def MTYPE_REGISTER : UInt16 := 0x0040
def MTYPE_DROP : UInt16 := 0x0050
def MTYPE_PEERLIST : UInt16 := 0x00a0
def MTYPE_OFFER : UInt16 := 0x0110
def MTYPE_GETFILE : UInt16 := 0x0120
def MTYPE_PING : UInt16 := 0x0200

def mtypeGetClass (t : UInt16) : UInt16 := t &&& 0x000f
def mtypeCutClass (t : UInt16) : UInt16 := t &&& 0xfff0

def mclassIsReq (t : UInt16) : Bool := MCLASS_REQ == mtypeGetClass t
def mclassIsRes (t : UInt16) : Bool := MCLASS_RES == mtypeGetClass t
def mclassIsErr (t : UInt16) : Bool := MCLASS_ERR == mtypeGetClass t

def mclassToRes (t : UInt16) : UInt16 := mtypeCutClass t ||| 0x0002
def mclassToErr (t : UInt16) : UInt16 := mtypeCutClass t ||| 0x000a

/-- The fully qualified message types of `enum MSG_TYPE`. -/
inductive MsgType where
  | loginReq | loginRes | loginErr
  | authReq | authRes | authErr
  | logoutReq | logoutRes | logoutErr
  | registerReq | registerRes | registerErr
  | dropReq | dropRes | dropErr
  | peerlistReq | peerlistRes | peerlistErr
  | offerInd | offerReq | offerRes | offerErr
  | getfileReq | getfileRes | getfileErr
  | pingInd | pingReq | pingRes | pingErr
  deriving DecidableEq, Repr

/-- The wire code of a message type. -/
def MsgType.code : MsgType → UInt16
  | .loginReq => MTYPE_LOGIN ||| MCLASS_REQ
  | .loginRes => MTYPE_LOGIN ||| MCLASS_RES
  | .loginErr => MTYPE_LOGIN ||| MCLASS_ERR
  | .authReq => MTYPE_AUTH ||| MCLASS_REQ
  | .authRes => MTYPE_AUTH ||| MCLASS_RES
  | .authErr => MTYPE_AUTH ||| MCLASS_ERR
  | .logoutReq => MTYPE_LOGOUT ||| MCLASS_REQ
  | .logoutRes => MTYPE_LOGOUT ||| MCLASS_RES
  | .logoutErr => MTYPE_LOGOUT ||| MCLASS_ERR
  | .registerReq => MTYPE_REGISTER ||| MCLASS_REQ
  | .registerRes => MTYPE_REGISTER ||| MCLASS_RES
  | .registerErr => MTYPE_REGISTER ||| MCLASS_ERR
  | .dropReq => MTYPE_DROP ||| MCLASS_REQ
  | .dropRes => MTYPE_DROP ||| MCLASS_RES
  | .dropErr => MTYPE_DROP ||| MCLASS_ERR
  | .peerlistReq => MTYPE_PEERLIST ||| MCLASS_REQ
  | .peerlistRes => MTYPE_PEERLIST ||| MCLASS_RES
  | .peerlistErr => MTYPE_PEERLIST ||| MCLASS_ERR
  | .offerInd => MTYPE_OFFER ||| MCLASS_IND
  | .offerReq => MTYPE_OFFER ||| MCLASS_REQ
  | .offerRes => MTYPE_OFFER ||| MCLASS_RES
  | .offerErr => MTYPE_OFFER ||| MCLASS_ERR
  | .getfileReq => MTYPE_GETFILE ||| MCLASS_REQ
  | .getfileRes => MTYPE_GETFILE ||| MCLASS_RES
  | .getfileErr => MTYPE_GETFILE ||| MCLASS_ERR
  | .pingInd => MTYPE_PING ||| MCLASS_IND
  | .pingReq => MTYPE_PING ||| MCLASS_REQ
  | .pingRes => MTYPE_PING ||| MCLASS_RES
  | .pingErr => MTYPE_PING ||| MCLASS_ERR

/-- Every message type. -/
def MsgType.all : List MsgType :=
  [.loginReq, .loginRes, .loginErr, .authReq, .authRes, .authErr, .logoutReq, .logoutRes,
    .logoutErr, .registerReq, .registerRes, .registerErr, .dropReq, .dropRes, .dropErr,
    .peerlistReq, .peerlistRes, .peerlistErr, .offerInd, .offerReq, .offerRes, .offerErr,
    .getfileReq, .getfileRes, .getfileErr, .pingInd, .pingReq, .pingRes, .pingErr]

/-- The type with a given wire code. -/
def MsgType.ofCode? (c : UInt16) : Option MsgType := MsgType.all.find? fun t => t.code == c

theorem MsgType.mem_all (t : MsgType) : t ∈ MsgType.all := by
  cases t <;> decide

theorem MsgType.code_injective {t u : MsgType} (h : t.code = u.code) : t = u := by
  have hnodup : (MsgType.all.map MsgType.code).Nodup := by decide
  exact List.inj_on_of_nodup_map hnodup t.mem_all u.mem_all h

theorem MsgType.ofCode?_eq_some {c : UInt16} {t : MsgType} :
    MsgType.ofCode? c = some t ↔ c = t.code := by
  constructor
  · intro h
    have hcode := List.find?_some (p := fun t : MsgType => t.code == c) h
    exact (beq_iff_eq.mp hcode).symm
  · rintro rfl
    cases h : MsgType.ofCode? t.code with
    | none =>
        have hall := List.find?_eq_none.mp h t t.mem_all
        exact absurd (beq_self_eq_true _) hall
    | some u =>
        have hcode := List.find?_some (p := fun u : MsgType => u.code == t.code) h
        rw [MsgType.code_injective (beq_iff_eq.mp hcode)]

@[simp] theorem MsgType.ofCode?_code (t : MsgType) : MsgType.ofCode? t.code = some t :=
  MsgType.ofCode?_eq_some.mpr rfl

/-- The types a server forwards from one client to another. -/
def MsgType.forwardable : MsgType → Bool
  | .offerInd | .offerReq | .offerRes | .offerErr => true
  | .getfileReq | .getfileRes | .getfileErr => true
  | .pingInd | .pingReq | .pingRes | .pingErr => true
  | _ => false

/-! ## Attributes -/

/-- The attribute types of `enum MSG_ATTRIB`. -/
inductive MsgAttrib where
  | username | pubkey | challenge | digest | signature
  | peerid | peername
  | offerid | filename | size | offset | data
  | ok | error | notice
  deriving DecidableEq, Repr

/-- The wire code of an attribute type. -/
def MsgAttrib.code : MsgAttrib → UInt16
  | .username => 0x0001
  | .pubkey => 0x0002
  | .challenge => 0x0003
  | .digest => 0x0004
  | .signature => 0x0005
  | .peerid => 0x0010
  | .peername => 0x0011
  | .offerid => 0x0021
  | .filename => 0x0022
  | .size => 0x0023
  | .offset => 0x0025
  | .data => 0x0026
  | .ok => 0x0041
  | .error => 0x0042
  | .notice => 0x0043

/-- How an attribute value is encoded. -/
inductive AvType where
  | none | ui64 | str | blob
  deriving DecidableEq, Repr

/-- The `switch` of `mbuf_addattrib` on the attribute type. -/
def MsgAttrib.avtype : MsgAttrib → AvType
  | .username | .peername | .filename | .notice => .str
  | .pubkey | .challenge | .digest | .signature | .data => .blob
  | .peerid | .offerid | .size | .offset | .error => .ui64
  | .ok => .none

/-! ## Status codes -/

/-- The status codes of `enum SC_ENUM` that the client and the server send. -/
inductive ScEnum where
  | ok | badRequest | unauthorized | forbidden | notFound | methodNotAllowed | conflict
  | rangeNotSatisfiable | iAmATeapot | misdirectedRequest | locked | notImplemented
  deriving DecidableEq, Repr

def ScEnum.code : ScEnum → UInt64
  | .ok => 200
  | .badRequest => 400
  | .unauthorized => 401
  | .forbidden => 403
  | .notFound => 404
  | .methodNotAllowed => 405
  | .conflict => 409
  | .rangeNotSatisfiable => 416
  | .iAmATeapot => 418
  | .misdirectedRequest => 421
  | .locked => 423
  | .notImplemented => 501

/-- `sc_msgstr`. -/
def scMsgstr : ScEnum → Bytes
  | .ok => ascii "OK"
  | .badRequest => ascii "Bad Request"
  | .unauthorized => ascii "Unauthorized"
  | .forbidden => ascii "Forbidden"
  | .notFound => ascii "Not Found"
  | .methodNotAllowed => ascii "Method Not Allowed"
  | .conflict => ascii "Conflict"
  | .rangeNotSatisfiable => ascii "Range Not Satisfiable"
  | .iAmATeapot => ascii "I'm a teapot"
  | .misdirectedRequest => ascii "Misdirected Request"
  | .locked => ascii "Locked"
  | .notImplemented => ascii "Not Implemented"

/-- Every status text is a proper C string of at most 31 characters. -/
theorem scMsgstr_short (ec : ScEnum) : 0 ∉ scMsgstr ec ∧ (scMsgstr ec).length ≤ 31 := by
  cases ec <;> decide

/-! ## Sessions -/

/-- `enum CLT_STATE`, the same in both programs. -/
inductive CltState where
  | invalid | preLogin | loginOk | authOk
  deriving DecidableEq, Repr

/-- `AUTH_KEY_PLAINTEXT`. -/
def AUTH_KEY_PLAINTEXT : Bytes := ascii "plain-text "

end Frelay
