import Frelay.Client.Process
import Frelay.Lib.Lts

/-!
# Commands, server I/O and the main loop of the client (`cltmain.c`)

The commands of `process_stdin` after the line has been split and its numbers
have been read, `handle_srvio` cut into its read and its write half, the upkeep
of the main loop, and the client as a transition system that takes these steps
in any order. Between them other programs may change any file (`outside`): that
covers `cmd` and `sh` as well.
-/

namespace Frelay

open Lib

/-- The commands that change anything. `connect` carries the descriptor of the
new connection if there is one, `cd` the directory that `chdir(2)` has changed to. -/
inductive CltCmd where
  | accept (rid oid : UInt64)
  | offer (dest : UInt64) (filename : Bytes)
  | remove (mask : RemoveMask)
  | connect (fd : Option Nat)
  | disconnect
  | exit
  | login (user : Bytes) (password : Option Bytes)
  | logout
  | register (password : Bytes)
  | drop
  | ping (dest : UInt64) (notice : Option Bytes)
  | peerlist
  | cd (dir : Bytes)
  deriving DecidableEq

namespace Clt

/-! ## Commands -/

/-- `basename(3)`: the last component, without trailing slashes. -/
def basename (path : Bytes) : Bytes :=
  if path = [] then ascii "."
  else
    let stripped := (path.reverse.dropWhile (· == 0x2f)).reverse
    if stripped = [] then ascii "/"
    else (stripped.reverse.takeWhile (· != 0x2f)).reverse

/-- The end of `process_stdin` for a command that has composed a message. -/
def submit (c : Clt) (m : Mbuf) : Clt := if c.srvfd < 0 then c else c.enqueueMsg m

/-- Compose a request to the server, or to a peer, and submit it. -/
def request (env : CltEnv) (c : Clt) (type : MsgType) (dstid : UInt64)
    (attribs : List (MsgAttrib × AttrArg)) : Option Clt :=
  (compose env.ntime type dstid env.rnd attribs).map c.submit

/-- `CMD_OFFER`. -/
def cmdOffer (env : CltEnv) (c : Clt) (dest : UInt64) (filename : Bytes) : Option Clt :=
  if c.st ≠ .authOk then some c
  else
    match offerNew env.toSysEnv c.disk c.nextAddr dest env.rndOffer filename with
    | none => some c
    | some o =>
        request env (c.push c.disk o) .offerReq o.rid
          [(.offerid, .ui64 o.oid), (.filename, .str (basename filename)), (.size, .ui64 o.size)]

/-- The descriptor work of `CMD_ACCEPT`: resume the download or start it. -/
def startDownload (env : CltEnv) (k : Disk) (d : Transfer) : Disk × Transfer × Bool :=
  match downloadResume env.toSysEnv k d with
  | (k, d, true) => (k, d, true)
  | (k, d, false) => downloadWrite env.toSysEnv k d []

/-- `CMD_ACCEPT`. -/
def cmdAccept (env : CltEnv) (c : Clt) (rid oid : UInt64) : Option Clt :=
  match transferMatch env.now .download rid oid c.transfers with
  | none => some c
  | some d =>
      match startDownload env (c.disk.note (.accepted d.addr)) d with
      | (k, d, false) => some (c.put k d)
      | (k, d, true) => (getfileRequest env d oid d.size).map (c.put k d).submit

/-- `CMD_REMOVE`. -/
def cmdRemove (c : Clt) (mask : RemoveMask) : Clt :=
  let (k, ts) := transferRemove mask c.disk c.transfers
  { c with disk := k, transfers := ts }

/-- `CMD_CONNECT`: `connect_srv` closes the old connection first. -/
def cmdConnect (c : Clt) : Option Nat → Clt
  | some fd => { c.disconnectSrv with srvfd := fd, st := .preLogin }
  | none => { c.disconnectSrv with st := .invalid }

/-- `CMD_DISCONNECT`. -/
def cmdDisconnect (c : Clt) : Clt :=
  { if 0 ≤ c.srvfd then c.closeall.disconnectSrv else c with st := .invalid }

/-- `CMD_LOGIN`. -/
def cmdLogin (env : CltEnv) (c : Clt) (user : Bytes) (password : Option Bytes) : Option Clt :=
  let c := match password with
    | some p => { c with pubkey := some p }
    | none => c
  request env c .loginReq 0 [(.username, .str user)]

/-- `CMD_CD`, when `chdir(2)` has found `dir`: later names are looked up from there. -/
def cmdCd (c : Clt) (dir : Bytes) : Clt := { c with disk := { c.disk with cwd := dir } }

/-- The commands of `process_stdin`; `exit` ends the process. -/
def runCmd (env : CltEnv) (c : Clt) : CltCmd → Option Clt
  | .accept rid oid => cmdAccept env c rid oid
  | .offer dest filename => cmdOffer env c dest filename
  | .remove mask => some (cmdRemove c mask)
  | .connect fd => some (cmdConnect c fd)
  | .disconnect => some (cmdDisconnect c)
  | .exit => none
  | .login user password => cmdLogin env c user password
  | .logout => request env c .logoutReq 0 []
  | .register password => request env c .registerReq 0 [(.pubkey, .blob (password ++ [0]))]
  | .drop => request env c .dropReq 0 []
  | .ping dest notice =>
      request env c .pingReq dest (notice.toList.map fun s => (.notice, .str s))
  | .peerlist => request env c .peerlistReq 0 []
  | .cd dir => some (cmdCd c dir)

/-! ## Server I/O -/

/-- The read half of `handle_srvio`. -/
def readSrv (env : CltEnv) (c : Clt) (res : ReadRes) : Option Clt :=
  let rbuf := c.rbuf.getD mbufNew
  let c := { c with rbuf := some rbuf }
  match readOutcome rbuf res with
  | .disconnect => some c.disc
  | .again => some c
  | .exits => none
  | .pending rbuf => some { c with rbuf := rbuf }
  | .complete m => processSrvmsg env { c with rbuf := none } m

/-- The write half of `handle_srvio`. -/
def writeSrv (c : Clt) (res : WriteRes) : Option Clt :=
  match c.q with
  | [] => none
  | m :: q =>
      match writeOutcome m res with
      | .disconnect => some c.disc
      | .again => some c
      | .sent m =>
          let c := { c with q := m :: q }
          some (if m.boff = m.bsize then c.dequeueMsg else c)

/-- The upkeep of the main loop, with a ping to the server that nobody answers. -/
def upkeep (env : CltEnv) (c : Clt) : Clt :=
  let c := if c.st = .authOk then c.enqueueMsg (mbufCompose env.ntime .pingInd 0 0 env.rnd) else c
  let c := c.upkeepPending env.now
  let (k, ts) := transferUpkeep env.now c.cfg.offerTimeout c.disk c.transfers
  { c with disk := k, transfers := ts }

end Clt

/-! ## The transition system -/

/-- What can happen to the client. -/
inductive CltEvent where
  | cmd (cmd : CltCmd) (env : CltEnv)
  | read (res : ReadRes) (env : CltEnv)
  | write (res : WriteRes)
  | upkeep (env : CltEnv)
  | outside (fs : Files Bytes UInt8)

/-- When it can happen. -/
def CltEvent.Enabled (c : Clt) : CltEvent → Prop
  | .cmd _ _ => True
  | .read _ _ => 0 ≤ c.srvfd
  | .write _ => 0 ≤ c.srvfd ∧ c.q ≠ []
  | .upkeep _ => True
  | .outside fs => Files.Outside c.disk.fs fs

/-- What it does; `none` is the end of the process. -/
def cltStep (c : Clt) : CltEvent → Option Clt
  | .cmd cmd env => Clt.runCmd env c cmd
  | .read res env => Clt.readSrv env c res
  | .write res => Clt.writeSrv c res
  | .upkeep env => some (Clt.upkeep env c)
  | .outside fs => some { c with disk := { c.disk with fs := fs } }

/-- The client, started with any settings in any file system. -/
def cltLts : Lts Clt CltEvent where
  init c := ∃ cfg pubkey fs cwd, Files.Ok fs ∧ (∀ n, fs.fds n = none) ∧
    c = Clt.initial cfg pubkey fs cwd
  step c e t := e.Enabled c ∧ cltStep c e = some t

/-- The steps of the client itself as a function: what an execution finds is reachable. -/
def cltTry (c : Clt) (e : CltEvent) : Option Clt :=
  match e with
  | .outside _ => none
  | .read _ _ => if 0 ≤ c.srvfd then cltStep c e else none
  | .write _ => if 0 ≤ c.srvfd ∧ c.q ≠ [] then cltStep c e else none
  | _ => cltStep c e

theorem cltTry_step {c t : Clt} {e : CltEvent} (h : cltTry c e = some t) : cltLts.step c e t := by
  unfold cltTry at h
  split at h
  · cases h
  · split at h
    · rename_i hfd
      exact ⟨hfd, h⟩
    · cases h
  · split at h
    · rename_i hq
      exact ⟨hq, h⟩
    · cases h
  · rename_i hout hread hwrite
    refine ⟨?_, h⟩
    cases e with
    | read res env => exact absurd rfl (hread res env)
    | write res => exact absurd rfl (hwrite res)
    | outside fs => exact absurd rfl (hout fs)
    | _ => trivial

/-! ## A client to try things on -/

/-- A client in an empty directory but for the files given. -/
def demoClient (noClobber : Bool) (files : List (Bytes × Bytes)) : Clt :=
  .initial { respTimeout := 10, offerTimeout := 10, noClobber := noClobber } none
    (Files.ofList (files.map fun f => (ascii "/d/" ++ f.1, f.2))) (ascii "/d")

theorem demoClient_init (noClobber : Bool) (files : List (Bytes × Bytes)) :
    cltLts.init (demoClient noClobber files) :=
  ⟨_, _, _, _, Files.ofList_ok _, fun _ => rfl, rfl⟩

/-- An environment in which every system call does what it is asked to do. -/
def demoEnv : CltEnv where
  now := 1
  resumeFd := some 10
  openFd := some 11
  names := fun _ => (some 12, some 13)
  statOk := true
  seekOk := true
  read := some 100
  write := some 100
  renameOk := true
  memory := 4294967296
  beyond := []
  ntime := 0
  rnd := 1
  rndOffer := 2

/-- A message from `srcid`. -/
def messageOctets (t : MsgType) (srcid trfid : UInt64) (l : List (MsgAttrib × AttrArg)) : Bytes :=
  ((l.foldlM (fun m a => addattrib m a.1 a.2) (mbufCompose 0 t srcid 0 trfid)).map Mbuf.b).getD []

/-- The two reads in which it arrives. -/
def delivery (b : Bytes) : List CltEvent :=
  [.read (.got (b.take MSG_HDR_SIZE)) demoEnv, .read (.got (b.drop MSG_HDR_SIZE)) demoEnv]

/-- The event, with `fd` as the descriptor that `open` returns in a read. -/
def CltEvent.withFd (fd : Int) : CltEvent → CltEvent
  | .read res env => .read res { env with openFd := some fd }
  | e => e

/-- The client connects and logs in without a password. -/
def loginRun : List CltEvent :=
  [.cmd (.connect (some 3)) demoEnv, .cmd (.login (ascii "me") none) demoEnv, .write (.sent 1000)] ++
    delivery (messageOctets .loginRes 0 1 [(.ok, .null)])

/-- The peer 5 offers a file of `size` octets under the number 6. -/
def offerRun (filename : Bytes) (size : UInt64) : List CltEvent :=
  delivery (messageOctets .offerReq 5 1
    [(.offerid, .ui64 6), (.filename, .str filename), (.size, .ui64 size)]) ++
    [.write (.sent 1000)]

/-- The user accepts the offer, and the request goes out. -/
def acceptRun : List CltEvent := [.cmd (.accept 5 6) demoEnv, .write (.sent 1000)]

/-- The peer sends `data` in answer, and the next request goes out, if there is one. -/
def dataRun (data : Bytes) : List CltEvent :=
  delivery (messageOctets .getfileRes 5 1 [(.offerid, .ui64 6), (.data, .blob data)]) ++
    (if data = [] then [] else [.write (.sent 1000)])

end Frelay
