import Frelay.Client.State

/-!
# Message processing in the client (`cltmain.c`)

`process_srvmsg` with one definition for each message type. A handler returns
the client and what is to be sent in answer; the message itself is freed, or
turned into an error response. `none` is the end of the process. What is printed
about a transfer is left to `Clt.srvmsgPrints`.
-/

namespace Frelay

open Lib

namespace Clt

/-- What becomes of a message: nothing more, a message that is sent, or an
error response made from the message itself. -/
inductive Answer where
  | nothing
  | send (m : Mbuf)
  | fail (ec : ScEnum)
  deriving DecidableEq

/-- What a handler returns. -/
abbrev Handled := Option (Clt × Answer)

/-- The attributes `mbuf_getnextattrib` delivers one after the other. -/
def attribRefsFrom : Nat → Mbuf → List AttrRef
  | 0, _ => []
  | n + 1, m =>
      match mbufGetnextattrib m with
      | none => []
      | some (a, m') => a :: attribRefsFrom n m'

/-- All attributes left in the message; each is at least 8 octets long. -/
def attribRefs (m : Mbuf) : List AttrRef := attribRefsFrom m.bsize m

/-- The next attribute, if there is one and it is of the given type. -/
def nextIf (m : Mbuf) (t : MsgAttrib) : Option (AttrRef × Mbuf) :=
  match mbufGetnextattrib m with
  | some (a, m') => if a.at' = t.code then some (a, m') else none
  | none => none

/-- The value of an optional 64-bit attribute, 0 by default. An attribute of
another type is skipped all the same. -/
def nextUi64 (env : CltEnv) (m : Mbuf) (t : MsgAttrib) : UInt64 × Mbuf :=
  match mbufGetnextattrib m with
  | some (a, m') => (if a.at' = t.code then ui64At m' env.beyond a.av else 0, m')
  | none => (0, m)

/-- Reading the next attribute of a message whose attributes are known. -/
theorem nextIf_of_attribs {n : Nat} {m : Mbuf} {t : MsgAttrib} {v : Bytes}
    {l : List (UInt16 × Bytes)} (h : attribsFrom n m = (t.code, v) :: l) :
    ∃ a m', nextIf m t = some (a, m') ∧ blobAt m' a = v ∧ attribsFrom (n - 1) m' = l := by
  obtain ⟨a, m', hnext, ht, hv, hl⟩ := attribsFrom_cons h
  refine ⟨a, m', ?_, hv, hl⟩
  rw [nextIf, hnext]
  exact if_pos ht

/-- Reading an optional 64-bit attribute where the next one is known: of whatever type that
is, it is consumed. -/
theorem nextUi64_of_attribs (env : CltEnv) {n : Nat} {m : Mbuf} (t : MsgAttrib) {u : MsgAttrib}
    {x : UInt64} {l : List (UInt16 × Bytes)} (h : attribsFrom n m = (u.code, be64 x) :: l) :
    (nextUi64 env m t).1 = (if u.code = t.code then x else 0) ∧
      attribsFrom (n - 1) (nextUi64 env m t).2 = l := by
  obtain ⟨a, m', hnext, ht, hv, hl⟩ := attribsFrom_cons h
  rw [nextUi64, hnext, ← ht]
  exact ⟨if_congr Iff.rfl (ui64At_of_blobAt hv env.beyond) rfl, hl⟩

/-- Reading an optional 64-bit attribute where none is left. -/
theorem nextUi64_end (env : CltEnv) {n : Nat} {m : Mbuf} (t : MsgAttrib) (hn : 0 < n)
    (h : attribsFrom n m = []) : nextUi64 env m t = (0, m) := by
  rw [nextUi64, attribsFrom_nil hn h]

/-! ## Indications and requests -/

/-- `case MSG_TYPE_PING_REQ` and `case MSG_TYPE_PING_IND`. -/
def processPing (env : CltEnv) (c : Clt) (m : Mbuf) : Handled :=
  if c.st = .authOk ∧ mclassIsReq (hdrGetType m) then do
    let r ← compose env.ntime .pingRes (hdrGetSrcid m) (hdrGetTrfid m) [(.ok, .null)]
    some (c, .send r)
  else some (c, .nothing)

/-- One turn of the attribute loop of `case MSG_TYPE_OFFER_REQ`. -/
def offerAttrib (env : CltEnv) (noClobber : Bool) (m : Mbuf) (p : Disk × Transfer) (a : AttrRef) :
    Disk × Transfer :=
  let (k, d) := p
  if a.at' = MsgAttrib.code .offerid then (k, { d with oid := ui64At m env.beyond a.av })
  else if a.at' = MsgAttrib.code .filename then
    makeFilenames env.toSysEnv noClobber k d (cstrAt m env.beyond a.av)
  else if a.at' = MsgAttrib.code .size then (k, { d with size := ui64At m env.beyond a.av })
  else (k, d)

/-- `case MSG_TYPE_OFFER_REQ`. -/
def processOfferReq (env : CltEnv) (c : Clt) (m : Mbuf) : Handled :=
  if c.st = .authOk then
    let d := { transferNew env.now c.nextAddr .download with rid := hdrGetSrcid m }
    let (k, d) := (attribRefs m).foldl (offerAttrib env c.cfg.noClobber m) (c.disk, d)
    if d.name.getD [] = [] ∨ d.size = 0 then
      let (k, d) := transferInvalidate k d
      some (c.push k d, .fail .badRequest)
    else do
      let r ← compose env.ntime .offerRes (hdrGetSrcid m) (hdrGetTrfid m)
        [(.offerid, .ui64 d.oid), (.ok, .null)]
      some (c.push k d, .send r)
  else some (c, .nothing)

/-- The end of `case MSG_TYPE_GETFILE_REQ`: the response with the octets read. -/
def getfileResponse (env : CltEnv) (c : Clt) (m : Mbuf) (oid : UInt64) (data : Bytes) : Handled := do
  let r ← compose env.ntime .getfileRes (hdrGetSrcid m) (hdrGetTrfid m)
    [(.offerid, .ui64 oid), (.data, .blob data)]
  some (c, .send r)

/-- `case MSG_TYPE_GETFILE_REQ`. -/
def processGetfileReq (env : CltEnv) (c : Clt) (m : Mbuf) : Handled :=
  match if c.st = .authOk then nextIf m .offerid else none with
  | none => some (c, .nothing)
  | some (a, m') =>
      let oid := ui64At m' env.beyond a.av
      match transferMatch env.now .offer (hdrGetSrcid m) oid c.transfers with
      | none => some (c, .fail .notFound)
      | some o =>
          let (offset, m') := nextUi64 env m' .offset
          let (size, _) := nextUi64 env m' .size
          if size = 0 then
            -- Remote side signaled 'download finished'.
            let (k, o) := transferInvalidate c.disk o
            getfileResponse env (c.put k { o with offset := offset + size }) m oid []
          else
            match offerRead env.toSysEnv c.disk o offset size with
            | none => none
            | some (k, o, none) => some (c.put k o, .fail .rangeNotSatisfiable)
            | some (k, o, some data) =>
                let size := UInt64.ofNat data.length
                getfileResponse env (c.put k { o with offset := offset + size }) m oid data

/-! ## Responses -/

/-- `case MSG_TYPE_OFFER_RES`: the offer counts as active. -/
def processOfferRes (env : CltEnv) (c : Clt) (m : Mbuf) : Handled :=
  match if c.st = .authOk then nextIf m .offerid else none with
  | none => some (c, .nothing)
  | some (a, m') =>
      match transferMatch env.now .offer (hdrGetSrcid m) (ui64At m' env.beyond a.av) c.transfers with
      | none => some (c, .nothing)
      | some o => some (c.put c.disk o, .nothing)

/-- The request for the rest of a download, from its offset on. -/
def getfileRequest (env : CltEnv) (d : Transfer) (oid sz : UInt64) : Option Mbuf :=
  compose env.ntime .getfileReq d.rid env.rnd
    [(.offerid, .ui64 oid), (.offset, .ui64 d.offset),
      (.size, .ui64 (if sz < MAX_DATA_SIZE then sz else MAX_DATA_SIZE))]

/-- `rename` of the part file to its final name. -/
def renamePart (env : CltEnv) (k : Disk) (d : Transfer) : Disk :=
  match d.partname, d.name with
  | some partname, some name =>
      match if env.renameOk then k.fs.rename (k.path partname) (k.path name) else none with
      | some fs => { k with fs := fs }.note (.renamed d.addr (k.path partname) (k.path name))
      | none => k
  | _, _ => k

/-- An empty DATA attribute: the download has ended, one way or the other. -/
def downloadEnd (env : CltEnv) (c : Clt) (d : Transfer) : Clt :=
  let k := c.disk.note (if d.offset = d.size then .finished d.addr else .premature d.addr)
  let (k, t) := transferInvalidate k d
  c.put (renamePart env k d) t

/-- `case MSG_TYPE_GETFILE_RES`. -/
def processGetfileRes (env : CltEnv) (c : Clt) (m : Mbuf) : Handled :=
  match if c.st = .authOk then nextIf m .offerid else none with
  | none => some (c, .nothing)
  | some (a, m') =>
      let oid := ui64At m' env.beyond a.av
      match transferMatch env.now .download (hdrGetSrcid m) oid c.transfers with
      | none => some (c, .nothing)
      | some d =>
          match nextIf m' .data with
          | none => some (c.put c.disk d, .nothing)
          | some (a, m') =>
              let data := blobAt m' a
              if data = [] then some (downloadEnd env c d, .nothing)
              else
                match downloadWrite env.toSysEnv c.disk d data with
                | (k, d, false) =>
                    let (k, d) := transferInvalidate k d
                    some (c.put k d, .nothing)
                | (k, d, true) => do
                    let d := { d with offset := d.offset + UInt64.ofNat data.length }
                    let r ← getfileRequest env d oid (d.size - d.offset)
                    some (c.put k d, .send r)

/-- The digest sent in answer to a challenge. -/
def authDigest (c : Clt) : Bytes := AUTH_KEY_PLAINTEXT ++ c.pubkey.getD []

/-- `case MSG_TYPE_LOGIN_RES`. -/
def processLoginRes (env : CltEnv) (c : Clt) (m : Mbuf) : Handled :=
  if c.st = .preLogin ∧ hdrGetSrcid m = 0 then
    match mbufGetnextattrib m with
    | none => some (c, .nothing)
    | some (a, m') =>
        if a.at' = MsgAttrib.code .ok then some ({ c with st := .authOk }, .nothing)
        else if a.at' = MsgAttrib.code .challenge then
          if AUTH_KEY_PLAINTEXT.isPrefixOf (cstrAt m' env.beyond a.av) then do
            let r ← compose env.ntime .authReq 0 (hdrGetTrfid m) [(.digest, .blob (c.authDigest ++ [0]))]
            some ({ c with st := .loginOk }, .send r)
          else some (c, .nothing)
        else some (c, .nothing)
  else some (c, .nothing)

/-- `case MSG_TYPE_AUTH_RES`. -/
def processAuthRes (c : Clt) (m : Mbuf) : Handled :=
  if c.st = .loginOk ∧ hdrGetSrcid m = 0 ∧ (nextIf m .ok).isSome then
    some ({ c with st := .authOk }, .nothing)
  else some (c, .nothing)

/-- `case MSG_TYPE_LOGOUT_RES`. -/
def processLogoutRes (c : Clt) (m : Mbuf) : Handled :=
  if (c.st = .loginOk ∨ c.st = .authOk) ∧ hdrGetSrcid m = 0 ∧ (nextIf m .ok).isSome then
    some ({ c with st := .preLogin }, .nothing)
  else some (c, .nothing)

/-- `case MSG_TYPE_AUTH_ERR`. -/
def processAuthErr (c : Clt) : Handled :=
  if c.st = .loginOk then some ({ c with st := .preLogin }, .nothing) else some (c, .nothing)

/-! ## Dispatch -/

/-- The `switch` of `process_srvmsg`. The responses to PING, PEERLIST, REGISTER
and DROP, the errors and everything unknown are only printed. -/
def dispatchSrvmsg (env : CltEnv) (c : Clt) (m : Mbuf) : Handled :=
  match MsgType.ofCode? (hdrGetType m) with
  | some .pingReq | some .pingInd => processPing env c m
  | some .offerReq => processOfferReq env c m
  | some .getfileReq => processGetfileReq env c m
  | some .offerRes => processOfferRes env c m
  | some .getfileRes => processGetfileRes env c m
  | some .loginRes => processLoginRes env c m
  | some .authRes => processAuthRes c m
  | some .logoutRes => processLogoutRes c m
  | some .authErr => processAuthErr c
  | _ => some (c, .nothing)

/-- The end of `process_srvmsg`. -/
def sendAnswer (env : CltEnv) (m : Mbuf) : Clt × Answer → Option Clt
  | (c, .nothing) => some c
  | (c, .send r) => some (c.enqueueMsg r)
  | (c, .fail ec) => (mbufToErrorResponse env.ntime m ec).map c.enqueueMsg

/-- A response is taken off the pending list, and dropped if it is not there. -/
def solicited (c : Clt) (m : Mbuf) : Option Clt :=
  if mclassIsRes (hdrGetType m) then (c.matchPendingReq m).map Prod.snd else some c

/-- `process_srvmsg`. -/
def processSrvmsg (env : CltEnv) (c : Clt) (m : Mbuf) : Option Clt :=
  match c.solicited m with
  | none => some c
  | some c => (dispatchSrvmsg env c (mbufResetgetattrib m)).bind (sendAnswer env m)

end Clt

end Frelay
