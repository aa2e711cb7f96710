import Frelay.Message.Assemble
import Frelay.Message.Reply
import Frelay.Client.Transfer

/-!
# The client's state (`cltmain.c`)

The connection to the server with its receive buffer and send queue, the list
of requests that wait for a response, and the transfers. What the client prints
is left out, but for the lines that tell how a download ended
(`TransferAct.finished`, `TransferAct.premature`).
-/

namespace Frelay

open Lib

/-- `MAX_DATA_SIZE`. -/
def MAX_DATA_SIZE : UInt64 := 65376

/-- The settings the client consults while it runs. -/
structure CltCfg where
  respTimeout : Int
  offerTimeout : Int
  noClobber : Bool
  deriving DecidableEq

/-- The state of the client process. A negative descriptor means that there is
no connection. The queue pointers are the list of queued buffers, head first. -/
structure Clt where
  cfg : CltCfg
  pubkey : Option Bytes
  st : CltState
  srvfd : Int
  rbuf : Option Mbuf
  q : List Mbuf
  requests : List Mbuf
  transfers : List Transfer
  nextAddr : Nat
  disk : Disk

/-- What a command or a message finds in its environment: the octets behind the
receive buffer, the time stamp of a composed message, the random numbers drawn,
and the results of the system calls. -/
structure CltEnv extends SysEnv where
  beyond : Bytes
  ntime : UInt64
  rnd : UInt64
  rndOffer : UInt64

namespace Clt

/-- The client before its first command. -/
def initial (cfg : CltCfg) (pubkey : Option Bytes) (fs : Files Bytes UInt8) (cwd : Bytes) : Clt where
  cfg := cfg
  pubkey := pubkey
  st := .invalid
  srvfd := -1
  rbuf := none
  q := []
  requests := []
  transfers := []
  nextAddr := 0
  disk := { fs := fs, cwd := cwd, log := [] }

/-! ## Messages and pending requests -/

/-- `enqueue_msg`. -/
def enqueueMsg (c : Clt) (m : Mbuf) : Clt := { c with q := c.q ++ [{ m with boff := 0 }] }

/-- `dequeue_msg`: a request moves to the pending list. -/
def dequeueMsg (c : Clt) : Clt :=
  match c.q with
  | [] => c
  | m :: q =>
      if mclassIsReq (hdrGetType m) then { c with q := q, requests := m :: c.requests }
      else { c with q := q }

/-- `r` is the request that the response `m` answers. -/
def Answers (m r : Mbuf) : Prop :=
  hdrGetDstid r = hdrGetSrcid m ∧ hdrGetTrfid r = hdrGetTrfid m ∧
    mclassToRes (hdrGetType r) = hdrGetType m

instance (m r : Mbuf) : Decidable (Answers m r) := inferInstanceAs (Decidable (_ ∧ _))

/-- `match_pending_req`: the request answered by `m`, taken off the list. -/
def matchPendingReq (c : Clt) (m : Mbuf) : Option (Mbuf × Clt) :=
  (c.requests.find? fun r => Answers m r).map fun r =>
    (r, { c with requests := c.requests.eraseP fun r => Answers m r })

/-- `upkeep_pending`: time stamps are in nanoseconds. -/
def upkeepPending (now : Int) (c : Clt) : Clt :=
  { c with
    requests := c.requests.filter fun r =>
      !decide (((hdrGetTs r).toNat / 1000000000 : Nat) + c.cfg.respTimeout < now) }

/-! ## Transfers of the client -/

/-- Replace the files and put an entry back. -/
def put (c : Clt) (k : Disk) (t : Transfer) : Clt :=
  { c with disk := k, transfers := putTransfer t c.transfers }

/-- Add an entry at the head of the list. -/
def push (c : Clt) (k : Disk) (t : Transfer) : Clt :=
  { c with disk := k, transfers := t :: c.transfers, nextAddr := c.nextAddr + 1 }

def closeall (c : Clt) : Clt :=
  let (k, ts) := transferCloseall c.disk c.transfers
  { c with disk := k, transfers := ts }

/-! ## Connection -/

/-- `disconnect_srv`. -/
def disconnectSrv (c : Clt) : Clt := { c with srvfd := -1 }

/-- The way out of `handle_srvio` when the connection fails. -/
def disc (c : Clt) : Clt := { c.closeall.disconnectSrv with st := .invalid }

end Clt

end Frelay
