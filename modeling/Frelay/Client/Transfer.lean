import Frelay.Message.Types
import Frelay.Lib.Files
import Frelay.Lib.CStr

/-!
# Offers and downloads (`transfer.c`)

The list of transfers and the operations on one entry, with the files they work
on. An entry carries the number it was created with (`addr`), which stands for
the pointer the source passes around; no operation depends on it otherwise.

`log` collects what was done on behalf of each entry, the latest first.
-/

namespace Frelay

open Lib

/-- `enum transfer_type`. -/
inductive TransferType where
  | offer | download
  deriving DecidableEq, Repr

/-- `transfer_t`. -/
structure Transfer where
  addr : Nat
  type : TransferType
  rid : UInt64
  oid : UInt64
  name : Option Bytes
  partname : Option Bytes
  size : UInt64
  offset : UInt64
  fd : Int
  tstart : Int
  tact : Int
  deriving DecidableEq

/-- What is done on behalf of a transfer. -/
inductive TransferAct where
  /-- `accept` has selected the entry. -/
  | accepted (addr : Nat)
  /-- A file was created, or an existing one opened. -/
  | created (addr : Nat) (path : Bytes) (ino : Nat)
  | opened (addr : Nat) (path : Bytes) (ino : Nat)
  /-- `write(2)` has put `n` octets into the part file. -/
  | wrote (addr : Nat) (n : Nat)
  | renamed (addr : Nat) (src dst : Bytes)
  | invalidated (addr : Nat)
  /-- The user was told that the download is finished, or ended early. -/
  | finished (addr : Nat)
  | premature (addr : Nat)
  deriving DecidableEq

/-- The files as the process sees them, its working directory, and the log. The directory is
as `getcwd(3)` prints it, the root as the empty string, so that there is one text for each. -/
structure Disk where
  fs : Files Bytes UInt8
  cwd : Bytes
  log : List TransferAct

/-- What the system calls of one command or message return: the time, the
descriptors handed out by `open(2)`, the counts of `read(2)` and `write(2)`,
and how much memory `malloc` grants. -/
structure SysEnv where
  now : Int
  resumeFd : Option Int
  openFd : Option Int
  names : Nat → Option Int × Option Int
  statOk : Bool
  seekOk : Bool
  read : Option Nat
  write : Option Nat
  renameOk : Bool
  memory : Nat

/-! ## Paths -/

/-- The path under which a name given by the user or a peer is looked up; the file system
decides where a path with links or `..` leads. -/
def Disk.path (k : Disk) (name : Bytes) : Bytes :=
  if name.head? = some 0x2f then name else k.cwd ++ 0x2f :: name

theorem Disk.path_of_cwd {k k' : Disk} (h : k'.cwd = k.cwd) : k'.path = k.path := by
  funext name
  rw [Disk.path, Disk.path, h]

/-- `open` of an existing file on behalf of entry `addr`. -/
def Disk.openFile (k : Disk) (addr : Nat) (name : Bytes) (fd : Option Int) : Option (Int × Disk) :=
  (k.fs.openFile (k.path name) fd).map fun r =>
    (r.1, { k with
      fs := r.2
      log := .opened addr (k.path name) ((k.fs.dir (k.path name)).getD 0) :: k.log })

/-- `open` with `O_CREAT | O_EXCL` on behalf of entry `addr`. -/
def Disk.create (k : Disk) (addr : Nat) (name : Bytes) (fd : Option Int) : Option (Int × Disk) :=
  (k.fs.create (k.path name) fd).map fun r =>
    (r.1, { k with fs := r.2, log := .created addr (k.path name) k.fs.next :: k.log })

def Disk.close (k : Disk) (fd : Int) : Disk := { k with fs := k.fs.close fd }

def Disk.closeMany (k : Disk) (fds : List Int) : Disk := { k with fs := k.fs.closeMany fds }

def Disk.note (k : Disk) (a : TransferAct) : Disk := { k with log := a :: k.log }

/-! ## File names of a download -/

def INT_MAX : Nat := 2147483647

def TXT_PART : Bytes := ascii ".part"

/-- What precedes the last `c` in `s`, if there is one (`strrchr`). -/
def strrchr (c : UInt8) (s : Bytes) : Option Nat :=
  (s.reverse.idxOf? c).map fun i => s.length - 1 - i

/-- The `i`-th candidate for a name that does not clobber an existing file. -/
def nameCandidate (s : Bytes) (i : Nat) : Bytes :=
  let extpos := (strrchr 0x2e s).getD s.length
  s.take extpos ++ 0x2e :: ascii (Nat.repr i) ++ s.drop extpos

/-- The loop of `make_filenames` that looks for an unused pair of names, with
`n` rounds left and the round `i` to come. -/
def makeFilenamesFrom (env : SysEnv) (s : Bytes) :
    (n i : Nat) → Disk → Transfer → Disk × Transfer
  | 0, i, k, d =>
      -- Out of candidates: the last pair stays, without a descriptor.
      (k, { d with
        fd := -1
        name := some (nameCandidate s (i - 1))
        partname := some (nameCandidate s (i - 1) ++ TXT_PART) })
  | n + 1, i, k, d =>
      let name := nameCandidate s i
      let partname := name ++ TXT_PART
      match k.create d.addr name (env.names i).1 with
      | none => makeFilenamesFrom env s n (i + 1) k d
      | some (fd0, k) =>
          match k.create d.addr partname (env.names i).2 with
          | none =>
              let k := { k with fs := (k.fs.unlink (k.path name)).close fd0 }
              makeFilenamesFrom env s n (i + 1) k d
          | some (fd1, k) =>
              (k.close fd0, { d with fd := fd1, name := some name, partname := some partname })

/-- `make_filenames`. -/
def makeFilenames (env : SysEnv) (noClobber : Bool) (k : Disk) (d : Transfer) (s : Bytes) :
    Disk × Transfer :=
  if noClobber then makeFilenamesFrom env s (INT_MAX - 1) 1 k d
  else (k, { d with name := some s, partname := some (s ++ TXT_PART) })

/-! ## General transfer handling -/

/-- `transfer_new`, with the identity of the new entry. -/
def transferNew (now : Int) (addr : Nat) (type : TransferType) : Transfer :=
  { addr := addr, type := type, rid := 0, oid := 0, name := none, partname := none
    size := 0, offset := 0, fd := -1, tstart := now, tact := now }

/-- The test of `transfer_match`. -/
def Transfer.Matches (t : Transfer) (type : TransferType) (rid oid : UInt64) : Prop :=
  type = t.type ∧ oid = t.oid ∧ rid = t.rid ∧ 0 < t.tact

instance (t : Transfer) (type : TransferType) (rid oid : UInt64) :
    Decidable (t.Matches type rid oid) :=
  inferInstanceAs (Decidable (_ ∧ _))

/-- The entry that is found matches. -/
theorem matches_of_find {ts : List Transfer} {t : Transfer} {type : TransferType}
    {rid oid : UInt64} (h : ts.find? (fun t => t.Matches type rid oid) = some t) :
    t.Matches type rid oid :=
  of_decide_eq_true (List.find?_some (p := fun t : Transfer => decide (t.Matches type rid oid)) h)

/-- Write an entry back into the list. -/
def putTransfer (t : Transfer) (ts : List Transfer) : List Transfer :=
  ts.map fun u => if u.addr = t.addr then t else u

/-- `transfer_match`: the entry found, with its time of last activity renewed. -/
def transferMatch (now : Int) (type : TransferType) (rid oid : UInt64) (ts : List Transfer) :
    Option Transfer :=
  (ts.find? fun t => t.Matches type rid oid).map fun t => { t with tact := now }

/-- `transfer_closeall`. -/
def transferCloseall (k : Disk) (ts : List Transfer) : Disk × List Transfer :=
  (k.closeMany (ts.map Transfer.fd), ts.map fun t => if 0 ≤ t.fd then { t with fd := -1 } else t)

/-- An entry after `transfer_invalidate`. -/
def Transfer.invalid (t : Transfer) : Transfer := { t with rid := 0, oid := 0, tact := 0, fd := -1 }

/-- `transfer_invalidate`. -/
def transferInvalidate (k : Disk) (t : Transfer) : Disk × Transfer :=
  ((k.close t.fd).note (.invalidated t.addr), t.invalid)

/-- `transfer_upkeep`: entries past their best before date go. -/
def transferUpkeep (now timeout : Int) (k : Disk) (ts : List Transfer) : Disk × List Transfer :=
  (k.closeMany ((ts.filter fun t => t.tact + timeout < now).map Transfer.fd),
    ts.filter fun t => !decide (t.tact + timeout < now))

/-- A mask of `transfer_remove`; `none` is the asterisk. -/
structure RemoveMask where
  type : Option TransferType
  rid : Option UInt64
  oid : Option UInt64
  deriving DecidableEq

def RemoveMask.selects (m : RemoveMask) (t : Transfer) : Bool :=
  m.type.all (· == t.type) && m.rid.all (· == t.rid) && m.oid.all (· == t.oid)

/-- `transfer_remove` on a parsed mask: the entries it selects are invalidated. -/
def transferRemove (m : RemoveMask) : Disk → List Transfer → Disk × List Transfer
  | k, [] => (k, [])
  | k, t :: ts =>
      if m.selects t then
        let p := transferInvalidate k t
        let q := transferRemove m p.1 ts
        (q.1, p.2 :: q.2)
      else
        let q := transferRemove m k ts
        (q.1, t :: q.2)

/-! ## Offers -/

/-- `fsize`. -/
def fsize (env : SysEnv) (k : Disk) (name : Bytes) : Option Nat :=
  if env.statOk then k.fs.size (k.path name) else none

/-- `offer_new`: the entry, if the file can be found. `oid` is the random number drawn. -/
def offerNew (env : SysEnv) (k : Disk) (addr : Nat) (dest oid : UInt64) (filename : Bytes) :
    Option Transfer :=
  (fsize env k filename).map fun fsz =>
    { transferNew env.now addr .offer with
      rid := dest, oid := oid, name := some filename, size := UInt64.ofNat fsz }

/-- The first lines of `offer_read`: the file is opened unless it is already. -/
def offerOpen (env : SysEnv) (k : Disk) (o : Transfer) : Disk × Transfer :=
  if 0 ≤ o.fd then (k, o)
  else
    match o.name.bind fun name => k.openFile o.addr name env.openFd with
    | some (fd, k) => (k, { o with fd := fd })
    | none => (k, { o with fd := -1 })

/-- `offer_read`: the octets read, or `none` for a null pointer. An offset from
2^63 on is negative as an `off_t`. The outer `none` is a failing `malloc`. -/
def offerRead (env : SysEnv) (k : Disk) (o : Transfer) (off size : UInt64) :
    Option (Disk × Transfer × Option Bytes) :=
  let (k, o) := offerOpen env k o
  if o.fd < 0 then some (k, o, none)
  else
    match if off.toNat < 2 ^ 63 ∧ env.seekOk then k.fs.seekSet o.fd off.toNat else none with
    | none => some (k, o, none)
    | some fs =>
        let k := { k with fs := fs }
        if env.memory < size.toNat then none
        else
          match env.read.bind fun count => k.fs.read o.fd size.toNat count with
          | none => some (k.close o.fd, { o with fd := -1 }, none)
          | some ([], _) => some (k.close o.fd, { o with fd := -1 }, none)
          | some (data, fs) => some ({ k with fs := fs }, o, some data)

/-! ## Downloads -/

/-- The first lines of `download_write`: the part file is created unless it is open. -/
def downloadOpen (env : SysEnv) (k : Disk) (d : Transfer) : Disk × Transfer :=
  if 0 ≤ d.fd then (k, d)
  else
    match d.partname.bind fun partname => k.create d.addr partname env.openFd with
    | some (fd, k) => (k, { d with fd := fd })
    | none => (k, { d with fd := -1 })

/-- `download_write`, and whether it succeeds. -/
def downloadWrite (env : SysEnv) (k : Disk) (d : Transfer) (data : Bytes) : Disk × Transfer × Bool :=
  let (k, d) := downloadOpen env k d
  if d.fd < 0 then (k, d, false)
  else
    match env.write.bind fun count => k.fs.write d.fd data count with
    | none => (k.close d.fd, { d with fd := -1 }, false)
    | some (n, fs) =>
        let k := { k with fs := fs, log := .wrote d.addr n :: k.log }
        if n < data.length then (k.close d.fd, { d with fd := -1 }, false) else (k, d, true)

/-- `download_resume`, and whether it succeeds. -/
def downloadResume (env : SysEnv) (k : Disk) (d : Transfer) : Disk × Transfer × Bool :=
  if 0 ≤ d.fd then (k, d, false)
  else
    match d.partname.bind fun partname => k.openFile d.addr partname env.resumeFd with
    | none => (k, { d with fd := -1 }, false)
    | some (fd, k) =>
        match if env.seekOk then k.fs.seekEnd fd else none with
        | none => (k.close fd, { d with fd := -1 }, false)
        | some (off, fs) =>
            ({ k with fs := fs }, { d with fd := fd, offset := UInt64.ofNat off }, true)

end Frelay
