import Frelay.Message.Assemble
import Frelay.Userdb.Store
import Mathlib.Logic.Function.Basic

/-!
# The server's client table (`srvmain.c`)

The client array, the master descriptor sets and the operations that move a
slot through its life: `accept_client`, `resync_client`, `close_client`,
`upkeep`, and the send queue of a slot. The remote address of a slot only ever
reaches the log and is left out.

The C array is a function on slot numbers. A number is a slot of the array when
it is below `maxClients`; every loop of the source runs over these.
-/

namespace Frelay

open Lib

/-- `client_t`. A negative descriptor marks an unused slot. The queue pointers
are the list of queued buffers, head first. -/
structure Client where
  fd : Int
  id : UInt64
  name : Option Bytes
  key : Option Bytes
  st : CltState
  act : Int
  rbuf : Option Mbuf
  q : List Mbuf
  deriving DecidableEq

/-- The settings the client table depends on. -/
structure SrvCfg where
  maxClients : Nat
  msgTimeout : Int
  connTimeout : Int
  deriving DecidableEq

/-- The state of the server process. -/
structure Server where
  cfg : SrvCfg
  clients : Nat → Client
  mRfds : Int → Bool
  mWfds : Int → Bool
  maxfd : Int
  listenfd : Int
  udb : Udb
  motd : Bytes

/-- The largest descriptor a set can hold, plus one. -/
def FD_SETSIZE : Int := 1024

/-- The size of the `motd` array. -/
def MOTD_SIZE : Nat := 4000

/-- A slot that `memset` and the two assignments after it leave behind. -/
def closedClient : Client :=
  { fd := -1, id := 0, name := none, key := none, st := .invalid, act := 0, rbuf := none, q := [] }

namespace Server

/-- Slot `i` belongs to the array and holds a connection. -/
def Live (s : Server) (i : Nat) : Prop := i < s.cfg.maxClients ∧ 0 ≤ (s.clients i).fd

instance (s : Server) (i : Nat) : Decidable (s.Live i) := inferInstanceAs (Decidable (_ ∧ _))

/-- The slot numbers, in the order every loop visits them. -/
def slots (s : Server) : List Nat := List.range s.cfg.maxClients

/-- Overwrite slot `i`. -/
def setClient (s : Server) (i : Nat) (c : Client) : Server :=
  { s with clients := Function.update s.clients i c }

/-- The server started with a loaded user database. -/
def initial (cfg : SrvCfg) (listenfd : Int) (udb : Udb) : Server where
  cfg := cfg
  clients _ := closedClient
  mRfds := Function.update (fun _ => false) listenfd true
  mWfds _ := false
  maxfd := -1
  listenfd := listenfd
  udb := udb
  motd := ascii "Welcome!" ++ List.replicate (MOTD_SIZE - 8) 0

end Server

/-! ## Send queues -/

/-- `enqueue_msg`. -/
def enqueueMsg (s : Server) (i : Nat) (m : Mbuf) : Server :=
  let c := s.clients i
  { s.setClient i { c with q := c.q ++ [{ m with boff := 0 }] } with
    mWfds := Function.update s.mWfds c.fd true }

/-- `dequeue_msg`. -/
def dequeueMsg (s : Server) (i : Nat) : Server :=
  let c := s.clients i
  let q := c.q.tail
  { s.setClient i { c with q := q } with
    mWfds := if q = [] then Function.update s.mWfds c.fd false else s.mWfds }

/-! ## Connections -/

/-- `close_client`. -/
def closeClient (s : Server) (i : Nat) : Server :=
  let fd := (s.clients i).fd
  { s.setClient i closedClient with
    mRfds := Function.update s.mRfds fd false
    mWfds := Function.update s.mWfds fd false }

/-- `accept_client`: what `accept(2)` returned, whether `set_nonblocking`
succeeded, and the time. -/
def acceptClient (s : Server) (fd : Int) (nonblocking : Bool) (now : Int) : Server :=
  if fd = -1 then s
  else if FD_SETSIZE ≤ fd then s
  else if !nonblocking then s
  else
    match s.slots.find? fun i => !(0 ≤ (s.clients i).fd : Bool) with
    | none => s
    | some i =>
        { s.setClient i
            { fd := fd, id := 0, name := none, key := none, st := .preLogin, act := now
              rbuf := none, q := [] } with
          mRfds := Function.update s.mRfds fd true
          maxfd := max s.maxfd fd }

/-- `resync_client`: drop the receive buffer on an intra-message gap. -/
def resyncClient (timeout : Int) (c : Client) (now : Int) : Client :=
  if c.rbuf.isSome ∧ timeout < now - c.act then { c with rbuf := none } else c

/-- The first half of a turn of the loop of `upkeep`: time out or resync slot `i`. -/
def upkeepExpire (now : Int) (s : Server) (i : Nat) : Server :=
  let c := s.clients i
  if 0 ≤ c.fd then
    if s.cfg.connTimeout < now - c.act then closeClient s i
    else s.setClient i (resyncClient s.cfg.msgTimeout c now)
  else s

/-- The second half: a client that is still valid budges up to slot `j`. -/
def upkeepBudge (s : Server) (i j : Nat) : Server × Nat :=
  let c := s.clients i
  if 0 ≤ c.fd then
    let s := { s with maxfd := max s.maxfd c.fd }
    if j ≠ i then
      ((s.setClient j c).setClient i { c with fd := -1, st := .invalid }, j + 1)
    else (s, j + 1)
  else (s, j)

/-- The loop of `upkeep` over the slot numbers `is`. -/
def upkeepFrom (now : Int) : List Nat → Server × Nat → Server × Nat
  | [], p => p
  | i :: is, (s, j) => upkeepFrom now is (upkeepBudge (upkeepExpire now s i) i j)

/-- `upkeep`, called with `maxfd` set to the listening descriptor. -/
def upkeep (now : Int) (s : Server) : Server :=
  (upkeepFrom now s.slots ({ s with maxfd := s.listenfd }, 0)).1

/-! ## Message of the day -/

/-- `motd_cb` on one line of the command's output, with the array and
`motd_sz`. The difference is one of `size_t` values: it wraps once the length
exceeds the array. `none` is a write past the end of the array. -/
def motdCb (p : Bytes × Nat) (line : Bytes) : Option (Bytes × Nat) :=
  let (motd, sz) := p
  let room := (MOTD_SIZE + 2 ^ 64 - sz) % 2 ^ 64
  if line.length < room then
    if sz + line.length + 1 ≤ MOTD_SIZE then
      some (poke motd sz (line ++ [0]), sz + line.length)
    else none
  else some (motd, sz + line.length)

/-- `motd_get`, with the lines `pcmd` delivers. -/
def motdGet (s : Server) (lines : List Bytes) : Option Server :=
  (lines.foldlM motdCb (s.motd, 0)).map fun p => { s with motd := p.1 }

/-- `motd` as the string it is used as. -/
def Server.motdText (s : Server) : Bytes := s.motd.takeWhile (· ≠ 0)

/-! ## Frame lemmas -/

namespace Server

@[simp] theorem setClient_self (s : Server) (i : Nat) (c : Client) :
    (s.setClient i c).clients i = c := by
  simp [setClient]

theorem setClient_of_ne (s : Server) {i j : Nat} (c : Client) (h : j ≠ i) :
    (s.setClient i c).clients j = s.clients j := by
  simp [setClient, h]

@[simp] theorem setClient_cfg (s : Server) (i : Nat) (c : Client) :
    (s.setClient i c).cfg = s.cfg := rfl

@[simp] theorem setClient_udb (s : Server) (i : Nat) (c : Client) :
    (s.setClient i c).udb = s.udb := rfl

@[simp] theorem setClient_motd (s : Server) (i : Nat) (c : Client) :
    (s.setClient i c).motd = s.motd := rfl

theorem mem_slots {s : Server} {i : Nat} : i ∈ s.slots ↔ i < s.cfg.maxClients :=
  List.mem_range

/-- The slot that `accept_client` finds is not in use. -/
theorem free_slot {s : Server} {i : Nat}
    (h : s.slots.find? (fun i => !(0 ≤ (s.clients i).fd : Bool)) = some i) :
    i < s.cfg.maxClients ∧ ¬ s.Live i := by
  have hfree := List.find?_some h
  simp only [Bool.not_eq_true', decide_eq_false_iff_not] at hfree
  exact ⟨mem_slots.mp (List.mem_of_find?_eq_some h), fun hl => hfree hl.2⟩

end Server

end Frelay
