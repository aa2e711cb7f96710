import Frelay.Server.State

/-!
# Message processing in the server (`srvmain.c`)

`process_msg` and the functions below it. A handler takes the server, the slot
the message came from and the message itself, and returns what the C function
leaves in the slot's receive buffer: the reply, or nothing when the message was
freed or moved to another queue. The receive buffer field of the slot is not
looked at in between and is emptied by `processMsg` at the end, as in the
source. `none` is the end of the process, by `die_if` or by a null pointer.
-/

namespace Frelay

open Lib

/-- What a message finds in its environment: the octets behind the receive
buffer, the time stamp of the reply, and the outcome of the file accesses of
the first and of the second call into the user database. -/
structure MsgEnv where
  beyond : Bytes
  ntime : UInt64
  db1 : FileEnv
  db2 : FileEnv
  deriving DecidableEq

def TXT_REGISTERED : Bytes := ascii "Account created / modified."
def TXT_DROPPED : Bytes := ascii "Account registration dropped."
def TXT_BYE : Bytes := ascii "Bye."

/-- What a handler returns: the server and the content of the receive buffer. -/
abbrev Handled := Option (Server × Option Mbuf)

/-! ## Replies -/

/-- Turn the message into an error response. -/
def replyErr (env : MsgEnv) (s : Server) (m : Mbuf) (ec : ScEnum) : Handled :=
  (mbufToErrorResponse env.ntime m ec).map fun r => (s, some r)

/-- Turn the message into a response with one attribute. -/
def reply1 (env : MsgEnv) (s : Server) (m : Mbuf) (at₁ : MsgAttrib) (v₁ : AttrArg) : Handled := do
  let r ← mbufToResponse env.ntime m
  let r ← addattrib r at₁ v₁
  some (s, some r)

/-- Turn the message into a response that says OK and carries a notice. -/
def replyNotice (env : MsgEnv) (s : Server) (m : Mbuf) (txt : Bytes) : Handled := do
  let r ← mbufToResponse env.ntime m
  let r ← addattrib r .ok .null
  let r ← addattrib r .notice (.str txt)
  some (s, some r)

/-! ## Requests to the server -/

/-- The string value of the next attribute, if that is of the given type. -/
def nextStr (env : MsgEnv) (m : Mbuf) (t : MsgAttrib) : Option Bytes :=
  match mbufGetnextattrib m with
  | some (a, m') => if a.at' = t.code then some (cstrAt m' env.beyond a.av) else none
  | none => none

/-- `case MSG_TYPE_REGISTER_REQ`. A null name would be passed to `strcmp`. -/
def processRegister (env : MsgEnv) (s : Server) (i : Nat) (m : Mbuf) : Handled :=
  if (s.clients i).st ≠ .authOk then replyErr env s m .unauthorized
  else
    match nextStr env m .pubkey with
    | none => replyErr env s m .badRequest
    | some pubkey =>
        match (s.clients i).name with
        | none => none
        | some name =>
            let key := AUTH_KEY_PLAINTEXT ++ pubkey
            let d := (udbDropentry env.db1 s.udb name).1
            let r := udbAddentry env.db2 d (s.clients i).id name key
            let s := { s with udb := r.1 }
            match r.2 with
            | some _ => replyNotice env s m TXT_REGISTERED
            | none => replyErr env s m .locked

/-- `case MSG_TYPE_DROP_REQ`. -/
def processDrop (env : MsgEnv) (s : Server) (i : Nat) (m : Mbuf) : Handled :=
  if (s.clients i).st ≠ .authOk then replyErr env s m .unauthorized
  else
    match (s.clients i).name with
    | none => none
    | some name =>
        let r := udbDropentry env.db1 s.udb name
        let s := { s with udb := r.1 }
        if r.2 then replyNotice env s m TXT_DROPPED else replyErr env s m .notFound

/-- The scan for a slot that already uses the name. -/
def nameInUse (s : Server) (name : Bytes) : Bool :=
  s.slots.any fun j =>
    (0 ≤ (s.clients j).fd : Bool) &&
      match (s.clients j).name with
      | some n => stricmp n name == 0
      | none => false

/-- `case MSG_TYPE_LOGIN_REQ`. -/
def processLogin (env : MsgEnv) (s : Server) (i : Nat) (m : Mbuf) : Handled :=
  let c := s.clients i
  if c.st ≠ .preLogin then replyErr env s m .badRequest
  else
    match nextStr env m .username with
    | none => replyErr env s m .badRequest
    | some name =>
        let r := udbLookupname env.db1 s.udb name
        let s := { s with udb := r.1 }
        match r.2 with
        | none =>
            -- Login as unregistered user.
            if nameInUse s name then replyErr env s m .conflict
            else
              let t := udbGettempid env.db2 s.udb
              let s := { s with udb := t.1 }.setClient i
                { c with st := .authOk, id := t.2, name := some name, key := none }
              replyNotice env s m s.motdText
        | some pu =>
            -- Registered user: send challenge.
            let c := { c with st := .loginOk, id := pu.id, name := some pu.name }
            if AUTH_KEY_PLAINTEXT.isPrefixOf pu.key then
              reply1 env (s.setClient i { c with key := some pu.key }) m
                .challenge (.blob (AUTH_KEY_PLAINTEXT ++ [0]))
            else replyErr env (s.setClient i c) m .methodNotAllowed

/-- Close every other live slot that has the id of slot `i`. -/
def kickOthers (i : Nat) : List Nat → Server → Server
  | [], s => s
  | j :: js, s =>
      kickOthers i js
        (if (s.clients i).id = (s.clients j).id ∧ i ≠ j ∧ 0 ≤ (s.clients j).fd then
          closeClient s j
        else s)

/-- An AUTH request that fails throws the slot back to `CLT_PRE_LOGIN`; its id,
name and key stay. -/
def authFailed (env : MsgEnv) (s : Server) (i : Nat) (m : Mbuf) (ec : ScEnum) : Handled :=
  replyErr env (s.setClient i { s.clients i with st := .preLogin }) m ec

/-- `case MSG_TYPE_AUTH_REQ`. A null key would be passed to `strcmp`. -/
def processAuth (env : MsgEnv) (s : Server) (i : Nat) (m : Mbuf) : Handled :=
  if (s.clients i).st ≠ .loginOk then authFailed env s i m .badRequest
  else
    match nextStr env m .digest with
    | none => authFailed env s i m .badRequest
    | some digest =>
        match (s.clients i).key with
        | none => none
        | some key =>
            if digest ≠ key then authFailed env s i m .unauthorized
            else
              let s := kickOthers i s.slots s
              let s := s.setClient i { s.clients i with st := .authOk }
              replyNotice env s m s.motdText

/-- `case MSG_TYPE_LOGOUT_REQ`. -/
def processLogout (env : MsgEnv) (s : Server) (i : Nat) (m : Mbuf) : Handled :=
  let c := s.clients i
  if c.st ≠ .authOk ∧ c.st ≠ .loginOk then replyErr env s m .unauthorized
  else
    replyNotice env
      (s.setClient i { c with st := .preLogin, id := 0, name := none, key := none }) m TXT_BYE

/-- The loop of `case MSG_TYPE_PEERLIST_REQ`. -/
def peerlistFrom (s : Server) : List Nat → Mbuf → Option Mbuf
  | [], m => some m
  | j :: js, m =>
      if 0 ≤ (s.clients j).fd ∧ (s.clients j).st = .authOk then
        match (s.clients j).name with
        | none => none
        | some name => do
            let m ← addattrib m .peerid (.ui64 (s.clients j).id)
            let m ← addattrib m .peername (.str name)
            peerlistFrom s js m
      else peerlistFrom s js m

/-- `case MSG_TYPE_PEERLIST_REQ`. -/
def processPeerlist (env : MsgEnv) (s : Server) (m : Mbuf) : Handled := do
  let r ← mbufToResponse env.ntime m
  let r ← peerlistFrom s s.slots r
  some (s, some r)

/-- What happens to a message of a type that is not handled: a request is
answered with an error, anything else is dropped. -/
def processNonsense (env : MsgEnv) (s : Server) (m : Mbuf) (ec : ScEnum) : Handled :=
  if mclassIsReq (hdrGetType m) then replyErr env s m ec else some (s, none)

/-- `process_server_msg`. -/
def processServerMsg (env : MsgEnv) (s : Server) (i : Nat) (m : Mbuf) : Handled :=
  let mtype := MsgType.ofCode? (hdrGetType m)
  if (s.clients i).st ≠ .authOk ∧ mtype ≠ some .loginReq ∧ mtype ≠ some .authReq ∧
      mtype ≠ some .registerReq then
    replyErr env s m .forbidden
  else
    let m := mbufResetgetattrib m
    match mtype with
    | some .pingInd => some (s, none)
    | some .pingReq => reply1 env s m .ok .null
    | some .registerReq => processRegister env s i m
    | some .dropReq => processDrop env s i m
    | some .loginReq => processLogin env s i m
    | some .authReq => processAuth env s i m
    | some .logoutReq => processLogout env s i m
    | some .peerlistReq => processPeerlist env s m
    | _ => processNonsense env s m .iAmATeapot

/-! ## Broadcasts and forwarding -/

/-- `process_broadcast_msg`. -/
def processBroadcastMsg (env : MsgEnv) (s : Server) (i : Nat) (m : Mbuf) : Handled :=
  if (s.clients i).st ≠ .authOk then replyErr env s m .forbidden
  else processNonsense env s m .notImplemented

/-- The destination scan of `process_forward_msg`. -/
def findDst (s : Server) (dstid : UInt64) : Option Nat :=
  s.slots.find? fun j =>
    (0 ≤ (s.clients j).fd : Bool) && (s.clients j).st == .authOk && dstid == (s.clients j).id

/-- `process_forward_msg`. -/
def processForwardMsg (env : MsgEnv) (s : Server) (i : Nat) (m : Mbuf) : Handled :=
  if (s.clients i).st ≠ .authOk then replyErr env s m .forbidden
  else
    match findDst s (hdrGetDstid m) with
    | none => replyErr env s m .misdirectedRequest
    | some j =>
        match MsgType.ofCode? (hdrGetType m) with
        | some t =>
            if t.forwardable then some (enqueueMsg s j m, none)
            else processNonsense env s m .badRequest
        | none => processNonsense env s m .badRequest

/-! ## Dispatch -/

/-- The source id field is filled in for a slot that has logged in. -/
def fillSrcid (c : Client) (m : Mbuf) : Mbuf :=
  if c.st = .loginOk ∨ c.st = .authOk then hdrSetSrcid m c.id else m

/-- The three-way switch of `process_msg` on the destination id. -/
def dispatchMsg (env : MsgEnv) (s : Server) (i : Nat) (m : Mbuf) : Handled :=
  let dstid := hdrGetDstid m
  if dstid = 0 then processServerMsg env s i m
  else if dstid = 0xffffffffffffffff then processBroadcastMsg env s i m
  else processForwardMsg env s i m

/-- The end of `process_msg`: send back the response, if any. -/
def sendBack (s : Server) (i : Nat) (rbuf : Option Mbuf) : Server :=
  let s := match rbuf with
    | some r => enqueueMsg s i r
    | none => s
  s.setClient i { s.clients i with rbuf := none }

/-- `process_msg` on a complete message `m` of slot `i`. -/
def processMsg (env : MsgEnv) (s : Server) (i : Nat) (m : Mbuf) : Option Server :=
  (dispatchMsg env s i (fillSrcid (s.clients i) m)).map fun r => sendBack r.1 i r.2

end Frelay
