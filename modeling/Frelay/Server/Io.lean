import Frelay.Server.Process
import Frelay.Lib.Lts

/-!
# The server's select loop (`srvmain.c`)

`handle_io` cut into the read and the write of one slot, and the server as a
transition system whose steps are these, `accept_client`, `upkeep` and
`motd_get`, in any order.

The results of `accept(2)`, `read(2)` and `write(2)` are part of the events.
-/

namespace Frelay

open Lib

/-! ## One slot -/

/-- The read half of a turn of `handle_io`. -/
def readClient (env : MsgEnv) (s : Server) (i : Nat) (now : Int) (res : ReadRes) :
    Option Server :=
  let c := resyncClient s.cfg.msgTimeout (s.clients i) now
  let rbuf := c.rbuf.getD mbufNew
  let s := s.setClient i { c with rbuf := some rbuf, act := now }
  match readOutcome rbuf res with
  | .disconnect => some (closeClient s i)
  | .again => some s
  | .exits => none
  | .pending rbuf => some (s.setClient i { s.clients i with rbuf := rbuf })
  | .complete m => processMsg env s i m

/-- The write half of a turn of `handle_io`. With an empty queue it would go
through a null pointer. -/
def writeClient (s : Server) (i : Nat) (now : Int) (res : WriteRes) : Option Server :=
  let s := s.setClient i { s.clients i with act := now }
  match (s.clients i).q with
  | [] => none
  | m :: q =>
      match writeOutcome m res with
      | .disconnect => some (closeClient s i)
      | .again => some s
      | .sent m =>
          let s := s.setClient i { s.clients i with q := m :: q }
          some (if m.boff = m.bsize then dequeueMsg s i else s)

/-! ## The transition system -/

/-- What can happen to the server. -/
inductive SrvEvent where
  | accept (fd : Int) (nonblocking : Bool) (now : Int)
  | read (i : Nat) (now : Int) (res : ReadRes) (env : MsgEnv)
  | write (i : Nat) (now : Int) (res : WriteRes)
  | upkeep (now : Int)
  | motd (lines : List Bytes)

/-- When it can happen. `accept(2)` fails or returns a descriptor that is not
open; reads and writes concern live slots, and only a slot with a queue is
polled for writing. -/
def SrvEvent.Enabled (s : Server) : SrvEvent → Prop
  | .accept fd _ _ =>
      fd = -1 ∨ (0 ≤ fd ∧ fd ≠ s.listenfd ∧ ∀ i, s.Live i → (s.clients i).fd ≠ fd)
  | .read i _ _ _ => s.Live i
  | .write i _ _ => s.Live i ∧ (s.clients i).q ≠ []
  | .upkeep _ => True
  | .motd _ => True

/-- What it does; `none` is the end of the process. -/
def srvStep (s : Server) : SrvEvent → Option Server
  | .accept fd nonblocking now => some (acceptClient s fd nonblocking now)
  | .read i now res env => readClient env s i now res
  | .write i now res => writeClient s i now res
  | .upkeep now => some (upkeep now s)
  | .motd lines => motdGet s lines

/-- Every access to the user database file in the event goes as `ok` allows. -/
def SrvEvent.Files (ok : FileEnv → Prop) : SrvEvent → Prop
  | .read _ _ _ env => ok env.db1 ∧ ok env.db2
  | _ => True

instance (s : Server) (e : SrvEvent) : Decidable (e.Enabled s) :=
  match e with
  | .accept fd _ _ =>
      have : Decidable (∀ i, s.Live i → (s.clients i).fd ≠ fd) :=
        decidable_of_iff (∀ i ∈ s.slots, s.Live i → (s.clients i).fd ≠ fd)
          ⟨fun h i hl => h i (Server.mem_slots.mpr hl.1) hl, fun h i _ hl => h i hl⟩
      inferInstanceAs (Decidable (_ ∨ (_ ∧ _ ∧ _)))
  | .read i _ _ _ => inferInstanceAs (Decidable (s.Live i))
  | .write i _ _ => inferInstanceAs (Decidable (s.Live i ∧ _))
  | .upkeep _ => inferInstanceAs (Decidable True)
  | .motd _ => inferInstanceAs (Decidable True)

/-- The server, started with any configuration and any user database file, in an
environment where the accesses to that file go as `ok` allows. -/
def srvLts (ok : FileEnv → Prop) : Lts Server SrvEvent where
  init s := ∃ cfg listenfd e file, 0 ≤ listenfd ∧ ok e ∧
    s = Server.initial cfg listenfd (udbInit e file)
  step s e t := e.Enabled s ∧ e.Files ok ∧ srvStep s e = some t

/-- The steps of the server with a database file that can always be opened, as a
function: what an execution finds is reachable. -/
def srvTry (s : Server) (e : SrvEvent) : Option Server :=
  match e with
  | .read _ _ _ env =>
      if e.Enabled s ∧ env.db1 = .good ∧ env.db2 = .good then srvStep s e else none
  | _ => if e.Enabled s then srvStep s e else none

theorem srvTry_step (ok : FileEnv → Prop) (hok : ok .good) {s t : Server} {e : SrvEvent}
    (h : srvTry s e = some t) : (srvLts ok).step s e t := by
  unfold srvTry at h
  split at h
  · split at h
    · rename_i hc
      refine ⟨hc.1, ⟨?_, ?_⟩, h⟩
      · rw [hc.2.1]
        exact hok
      · rw [hc.2.2]
        exact hok
    · cases h
  · rename_i hne
    split at h
    · rename_i hen
      refine ⟨hen, ?_, h⟩
      cases e with
      | read i now res env => exact absurd rfl (hne i now res env)
      | _ => trivial
    · cases h

/-- A request to the server with one attribute. -/
def requestOctets (t : MsgType) (a : MsgAttrib) (v : AttrArg) : Bytes :=
  ((addattrib (mbufCompose 0 t 0 0 1) a v).map Mbuf.b).getD []

/-- The two reads in which such a message arrives. -/
def arrival (i : Nat) (b : Bytes) : List SrvEvent :=
  let env : MsgEnv := { beyond := [], ntime := 0, db1 := .good, db2 := .good }
  [.read i 1 (.got (b.take MSG_HDR_SIZE)) env, .read i 1 (.got (b.drop MSG_HDR_SIZE)) env]

end Frelay
