import Frelay.Client.Streams
import Frelay.Server.Frames
import Frelay.Session.Agreement

/-!
# The server and its clients

Any number of clients, each on its first connection, and the server, which may have other
connections as well. Between a client and the server there are only octets: those the
client has written and the server has not read yet, and those on the way back. Clients
and server take their steps in any order, and every read and every write takes as many
octets as it likes.

* `netLts` — the clients, the server and the octets between them;
* `NetOk` — what holds of them in every reachable state: both streams of a connection
  are made of complete messages, wherever the octets are.
-/

namespace Frelay

open Lib

/-- The slot of the connection `fd`. -/
def Server.clientAt (s : Server) (fd : Int) : Option Client :=
  (s.slots.find? fun i => decide (At s fd i)).map s.clients

/-- A client with its connection: the descriptor that the server has for it once it is
accepted, and the octets on their way to the server and back, the oldest first. -/
structure Endpoint where
  clt : Clt
  conn : Option Int
  up : Bytes
  down : Bytes

/-- The server and the clients. -/
structure Net (ι : Type) where
  srv : Server
  ends : ι → Endpoint

/-- A step of a client, or of the server, which may be about any of its connections. -/
inductive NetEvent (ι : Type) where
  | client (i : ι) (e : CltEvent)
  | server (e : SrvEvent)

namespace Endpoint

/-- A client that has just been started and connected. -/
structure Started (p : Endpoint) : Prop where
  clt : ∃ c fd env, cltLts.init c ∧ cltStep c (.cmd (.connect (some fd)) env) = some p.clt
  conn : p.conn = none
  up : p.up = []
  down : p.down = []

/-- A step of the client on its connection: it reads what has arrived, and what it writes
is under way. -/
structure Turn (p : Endpoint) (e : CltEvent) (q : Endpoint) : Prop where
  step : cltLts.step p.clt e q.clt
  online : 0 ≤ q.clt.srvfd
  opens : ¬ e.Opens
  conn : q.conn = p.conn
  up : q.up = p.up ++ e.octetsOut p.clt
  down : p.down = e.octetsIn p.clt ++ q.down

/-- What a step of the server from `s` to `t` does to a connection: nothing as long as it is
not accepted; then it stays, without a gap that the server would take for the end of a
message. -/
inductive Served (s : Server) (e : SrvEvent) (t : Server) (p : Endpoint) : Endpoint → Prop
  | waits : p.conn = none → Served s e t p p
  | accepted {fd : Int} : p.conn = none → e.Accepts fd → Connected t fd →
      Served s e t p { p with conn := some fd }
  | carried {fd : Int} {up down : Bytes} : p.conn = some fd → Connected t fd → NoGap s fd e →
      p.up = octetsRead s fd e ++ up → down = p.down ++ octetsWritten s fd e →
      Served s e t p { p with up := up, down := down }

end Endpoint

/-- Every connection of the server belongs to one client. -/
def Net.Apart {ι : Type} (s : Net ι) : Prop :=
  ∀ i j fd, (s.ends i).conn = some fd → (s.ends j).conn = some fd → i = j

/-- The clients, the server and the octets between them, while all goes well: every client is on
its first connection, which nobody loses or closes (`Turn`), and no message comes in with a gap in
it after which the server would drop what it has (`Served`). -/
def netLts (ι : Type) : Lts (Net ι) (NetEvent ι) where
  init s := countingLts.Reachable s.srv ∧ ∀ i, (s.ends i).Started
  step s e t :=
    match e with
    | .client i e => t.srv = s.srv ∧ (s.ends i).Turn e (t.ends i) ∧ ∀ j, j ≠ i → t.ends j = s.ends j
    | .server e => countingLts.step s.srv e t.srv ∧
        (∀ i, (s.ends i).Served s.srv e t.srv (t.ends i)) ∧ t.Apart

/-! ## One step of a client -/

/-- The messages a step of the client puts into its send queue. -/
def CltEvent.queued (c : Clt) (e : CltEvent) : List Bytes :=
  match e with
  | .write _ => []
  | e => ((cltStep c e).elim [] fun t => t.q.drop c.q.length).map Mbuf.b

/-- The message a step of the client hands to `process_srvmsg`. -/
def CltEvent.handed (c : Clt) (e : CltEvent) : List Bytes := ((e.message c).map fun p => p.2.b).toList

section Client

variable {c t : Clt} {e : CltEvent}

/-- A write moves octets from the queue to the connection. -/
theorem writeSrv_unsent {res : WriteRes} (h : Clt.writeSrv c res = some t) :
    (CltEvent.write res).octetsOut c ++ unsent t.q = unsent c.q := by
  unfold Clt.writeSrv at h
  split at h
  · cases h
  · rename_i m q hq
    have hout : (CltEvent.write res).octetsOut c = octetsSent m res := by
      rw [CltEvent.octetsOut, hq]
      rfl
    rw [hout]
    split at h
    · rename_i hdisc
      cases h
      rw [octetsSent_of_not_sent fun m' heq => WriteOutcome.noConfusion (hdisc.symm.trans heq)]
      rfl
    · rename_i hagain
      cases h
      rw [octetsSent_of_not_sent fun m' heq => WriteOutcome.noConfusion (hagain.symm.trans heq)]
      rfl
    · rename_i m' hsent
      obtain ⟨hb, hoctets⟩ := octetsSent_of_sent hsent
      have hall : octetsSent m res ++ (m'.b.drop m'.boff ++ unsent q) = unsent c.q := by
        rw [← List.append_assoc, hoctets, hq]
        rfl
      cases h
      split
      · rename_i hfull
        have hdeq : ({ c with q := m' :: q } : Clt).dequeueMsg.q = q := by
          unfold Clt.dequeueMsg
          simp only
          split <;> rfl
        rw [hdeq, ← hall, show m'.b.drop m'.boff = [] by rw [hfull]; exact List.drop_length]
        rfl
      · exact hall

/-- What a step writes and what it leaves unsent was unsent before, or is queued now. -/
theorem cltStep_unsent (hc : RecvOk c.rbuf) (h : cltStep c e = some t) :
    e.octetsOut c ++ unsent t.q = unsent c.q ++ (e.queued c).flatten ∧
      ∀ b ∈ e.queued c, Whole b := by
  by_cases hwrite : ∃ res, e = .write res
  · obtain ⟨res, rfl⟩ := hwrite
    exact ⟨(writeSrv_unsent h).trans (List.append_nil _).symm, fun b hb => absurd hb List.not_mem_nil⟩
  · have hne : ∀ res, e ≠ .write res := fun res heq => hwrite ⟨res, heq⟩
    obtain ⟨new, hq, hnew⟩ := cltStep_queues hc hne h
    have hout : e.octetsOut c = [] := by
      cases e with
      | write res => exact absurd rfl (hne res)
      | _ => rfl
    have hqueued : e.queued c = new.map Mbuf.b := by
      cases e with
      | write res => exact absurd rfl (hne res)
      | _ =>
          show ((cltStep c _).elim [] fun t => t.q.drop c.q.length).map Mbuf.b = _
          rw [h, Option.elim_some, hq, List.drop_left]
    rw [hout, hqueued, hq, unsent_append, unsent_whole fun m hm => (hnew m hm).2]
    refine ⟨rfl, fun b hb => ?_⟩
    obtain ⟨m, hm, rfl⟩ := List.mem_map.mp hb
    exact (hnew m hm).1

/-- What a step reads completes the message it hands on, or stays pending. -/
theorem cltStep_received (hc : RecvOk c.rbuf) (hopen : ¬ e.Opens) (h : cltStep c e = some t) :
    received c.rbuf ++ e.octetsIn c = (e.handed c).flatten ++ received t.rbuf ∧
      ∀ b ∈ e.handed c, Whole b := by
  have hpend := hc.frames_received
  have hall := msgFormat.flatten_frames_append_rest (received c.rbuf)
  rw [hpend, List.flatten_nil, List.nil_append] at hall
  have hok : (⟨received c.rbuf, []⟩ : Inbound).Ok c :=
    ⟨hpend.symm, hall.symm, fun f hf => absurd hf List.not_mem_nil⟩
  obtain ⟨hframes, hrest, hwhole⟩ := hok.step hc h fun ho => absurd ho hopen
  rw [Inbound.note, if_neg hopen] at hframes hrest hwhole
  refine ⟨?_, hwhole⟩
  rw [hrest, show e.handed c = msgFormat.frames (received c.rbuf ++ e.octetsIn c) from hframes]
  exact (msgFormat.flatten_frames_append_rest _).symm

end Client

/-! ## One step of the server -/

section Server

variable {s t : Server} {e : SrvEvent} {fd : Int} {i j : Nat}

/-- A connection is found by its descriptor. -/
theorem SlotsOk.clientAt (hok : SlotsOk s) (hi : At s fd i) :
    s.clientAt fd = some (s.clients i) := by
  unfold Server.clientAt
  cases hfind : s.slots.find? fun k => decide (At s fd k) with
  | none =>
      have hno := List.find?_eq_none.mp hfind i (Server.mem_slots.mpr hi.1.1)
      exact absurd (decide_eq_true hi) hno
  | some k =>
      have hk : At s fd k := of_decide_eq_true (List.find?_some (p := fun k => decide (At s fd k)) hfind)
      rw [hok.at_unique hk hi]
      rfl

/-- A step queues the message: it has just come in and is passed on, or it answers one that
has. -/
def SrvEvent.Queues (s : Server) (e : SrvEvent) (x : Bytes) : Prop :=
  ∃ k m, incoming s e = some (k, m) ∧ (x = (fillSrcid (s.clients k) m).b ∨
    ∃ r, IsReply (fillSrcid (s.clients k) m) r ∧ x = r.b)

/-- What is written and what is left unsent was unsent before, or is a complete message that
is queued now. -/
theorem srvStep_unsent (hok : SlotsOk s) (hen : e.Enabled s) (h : srvStep s e = some t)
    (hi : At s fd i) (hj : At t fd j) : ∃ ms : List Bytes, (∀ x ∈ ms, Whole x ∧ e.Queues s x) ∧
      octetsWritten s fd e ++ unsent (t.clients j).q = unsent (s.clients i).q ++ ms.flatten := by
  cases hinc : incoming s e with
  | none =>
      refine ⟨[], fun x hx => absurd hx List.not_mem_nil, ?_⟩
      rw [(quiet_step hok hen h hinc hi hj).written]
      exact (List.append_nil _).symm
  | some p =>
      obtain ⟨k, m⟩ := p
      obtain ⟨now, bs, env, u, reply, rfl, hl, hm, hbytes, hin, hmsg⟩ := message_step hok hen h hinc
      obtain ⟨rfl, hheard⟩ := message_follow env hok hl hbytes hin hmsg hi hj
      have hadd : ∀ x ∈ forwarded s k (fillSrcid (s.clients k) m) j ++ (if j = k then reply else []),
          (Whole x.b ∧ x.boff = 0) ∧ (SrvEvent.read k now (.got bs) env).Queues s x.b := by
        intro x hx
        rcases List.mem_append.mp hx with hx | hx
        · refine ⟨whole_forwarded (whole_fillSrcid hm) x hx, k, m, hinc, .inl ?_⟩
          unfold forwarded at hx
          split at hx
          · rw [List.mem_singleton.mp hx]
          · cases hx
        · split at hx
          · obtain ⟨hoff, hreply, -⟩ := hmsg.reply_ok x hx
            exact ⟨⟨hreply.whole, hoff⟩, k, m, hinc, .inr ⟨x, hreply, rfl⟩⟩
          · cases hx
      refine ⟨(forwarded s k (fillSrcid (s.clients k) m) j ++ if j = k then reply else []).map Mbuf.b,
        fun x hx => ?_, ?_⟩
      · obtain ⟨y, hy, rfl⟩ := List.mem_map.mp hx
        exact ⟨(hadd y hy).1.1, (hadd y hy).2⟩
      · rw [hheard.written, hheard.queue, unsent_append, List.nil_append,
          unsent_whole fun x hx => (hadd x hx).1.2]

end Server

/-! ## Streams of complete messages -/

/-- The octets are complete messages. -/
def Aligned (b : Bytes) : Prop := ∃ ms : List Bytes, (∀ x ∈ ms, Whole x) ∧ b = ms.flatten

namespace Aligned

variable {b c : Bytes} {ms : List Bytes}

theorem nil : Aligned [] := ⟨[], fun _ hx => absurd hx List.not_mem_nil, rfl⟩

theorem flatten (h : ∀ x ∈ ms, Whole x) : Aligned ms.flatten := ⟨ms, h, rfl⟩

theorem append (hb : Aligned b) (hc : Aligned c) : Aligned (b ++ c) := by
  obtain ⟨ms, hms, rfl⟩ := hb
  obtain ⟨ns, hns, rfl⟩ := hc
  exact ⟨ms ++ ns, fun x hx => (List.mem_append.mp hx).elim (hms x) (hns x), List.flatten_append.symm⟩

end Aligned

/-- Complete messages in front are the first frames. -/
theorem frames_flatten_append {ms : List Bytes} (h : ∀ x ∈ ms, Whole x) (c : Bytes) :
    msgFormat.frames (ms.flatten ++ c) = ms ++ msgFormat.frames c ∧
      msgFormat.rest (ms.flatten ++ c) = msgFormat.rest c :=
  msgFormat.frames_flatten (fun x hx => ⟨(h x hx).hdr, (h x hx).size⟩) c

theorem frames_flatten_whole {ms : List Bytes} (h : ∀ x ∈ ms, Whole x) :
    msgFormat.frames ms.flatten = ms := by
  have hall := (frames_flatten_append h []).1
  rwa [List.append_nil, FrameFormat.frames_nil, List.append_nil] at hall

namespace Aligned

variable {b c : Bytes} {ms : List Bytes}

theorem frames_append (hb : Aligned b) (c : Bytes) :
    msgFormat.frames (b ++ c) = msgFormat.frames b ++ msgFormat.frames c := by
  obtain ⟨ms, hms, rfl⟩ := hb
  rw [(frames_flatten_append hms c).1, frames_flatten_whole hms]

/-- What is behind complete messages is complete when all of it is. -/
theorem of_append (h : Aligned (ms.flatten ++ c)) (hms : ∀ x ∈ ms, Whole x) : Aligned c := by
  obtain ⟨ns, hns, heq⟩ := h
  obtain ⟨hframes, hrest⟩ := frames_flatten_append hms c
  have hall := frames_flatten_append hns []
  rw [heq, frames_flatten_whole hns] at hframes
  rw [List.append_nil] at hall
  rw [heq, hall.2, FrameFormat.rest_nil] at hrest
  refine ⟨msgFormat.frames c, fun x hx => hns x (hframes ▸ List.mem_append_right _ hx), ?_⟩
  have hcut := msgFormat.flatten_frames_append_rest c
  rw [← hrest, List.append_nil] at hcut
  exact hcut.symm

end Aligned

/-! ## The octets of a connection -/

namespace Endpoint

/-- The slot that the server has for the client. -/
def slot (s : Server) (p : Endpoint) : Option Client := p.conn.bind s.clientAt

/-- What the client has queued and the server has not handed to `process_msg`. -/
def upward (s : Server) (p : Endpoint) : Bytes :=
  ((p.slot s).elim [] fun c => received c.rbuf) ++ (p.up ++ unsent p.clt.q)

/-- What the server has queued and the client has not handed to `process_srvmsg`. -/
def downward (s : Server) (p : Endpoint) : Bytes :=
  received p.clt.rbuf ++ (p.down ++ (p.slot s).elim [] fun c => unsent c.q)

/-- What holds of a client and its connection between two steps. -/
structure Ok (s : Server) (p : Endpoint) : Prop where
  clt : CltOk p.clt
  conn : ∀ fd, p.conn = some fd → Connected s fd
  up : Aligned (p.upward s)
  down : Aligned (p.downward s)

/-- A step of the client adds what it queues to one stream, and takes what it hands on from
the other. -/
theorem Turn.streams {s : Server} {p q : Endpoint} {e : CltEvent} (h : p.Turn e q) (hc : CltOk p.clt) :
    (q.upward s = p.upward s ++ (e.queued p.clt).flatten ∧ ∀ b ∈ e.queued p.clt, Whole b) ∧
      p.downward s = (e.handed p.clt).flatten ++ q.downward s ∧ ∀ b ∈ e.handed p.clt, Whole b := by
  obtain ⟨hout, hqueued⟩ := cltStep_unsent hc.rbuf h.step.2
  obtain ⟨hin, hhanded⟩ := cltStep_received hc.rbuf h.opens h.step.2
  have hslot : q.slot s = p.slot s := by rw [slot, slot, h.conn]
  refine ⟨⟨?_, hqueued⟩, ?_, hhanded⟩
  · rw [upward, upward, hslot, h.up, List.append_assoc p.up, hout]
    simp only [List.append_assoc]
  · rw [downward, downward, hslot, h.down, List.append_assoc, ← List.append_assoc, hin]
    simp only [List.append_assoc]

theorem slot_of_at {s : Server} {p : Endpoint} {fd : Int} {i : Nat} (hok : SlotsOk s)
    (hconn : p.conn = some fd) (hi : At s fd i) : p.slot s = some (s.clients i) := by
  rw [slot, hconn, Option.bind_some, hok.clientAt hi]

/-- The messages of the client that a step of the server hands on. -/
def given (s : Server) (e : SrvEvent) (p : Endpoint) : List Bytes :=
  p.conn.elim [] fun fd => handed s fd e

/-- A step of the server takes complete messages from one stream and adds some to the
other. -/
theorem Served.streams {s t : Server} {e : SrvEvent} {p q : Endpoint} (h : p.Served s e t q)
    (hok : SlotsOk s) (hok' : SlotsOk t) (hen : e.Enabled s) (hstep : srvStep s e = some t)
    (hc : p.Ok s) : (p.upward s = (p.given s e).flatten ++ q.upward t ∧ ∀ x ∈ p.given s e, Whole x) ∧
      ∃ ms : List Bytes, (∀ x ∈ ms, Whole x ∧ e.Queues s x) ∧
        q.downward t = p.downward s ++ ms.flatten := by
  have hnil : ∀ x ∈ ([] : List Bytes), Whole x := fun x hx => absurd hx List.not_mem_nil
  have hnil' : ∀ x ∈ ([] : List Bytes), Whole x ∧ e.Queues s x := fun x hx =>
    absurd hx List.not_mem_nil
  cases h with
  | waits hconn =>
      have hslot : ∀ s, p.slot s = none := fun s => by rw [slot, hconn, Option.bind_none]
      have hgiven : p.given s e = [] := by rw [given, hconn, Option.elim_none]
      rw [hgiven]
      refine ⟨⟨?_, hnil⟩, [], hnil', ?_⟩
      · rw [upward, upward, hslot, hslot]
        rfl
      · rw [downward, downward, hslot, hslot, List.flatten_nil, List.append_nil]
  | @accepted fd hconn hacc hnew =>
      obtain ⟨i, hi⟩ := hnew
      have hslot : p.slot s = none := by rw [slot, hconn, Option.bind_none]
      have hslot' : ({ p with conn := some fd } : Endpoint).slot t = some (t.clients i) :=
        slot_of_at hok' rfl hi
      have hgiven : p.given s e = [] := by rw [given, hconn, Option.elim_none]
      have hfresh : (t.clients i).q = [] ∧ (t.clients i).rbuf = none := by
        cases e with
        | accept fd' nonblocking now =>
            obtain rfl : fd' = fd := hacc
            exact (accepted_fresh hok hen hstep hi).2
        | _ => exact hacc.elim
      rw [hgiven]
      refine ⟨⟨?_, hnil⟩, [], hnil', ?_⟩
      · rw [upward, upward, hslot, hslot', Option.elim_some, hfresh.2]
        rfl
      · rw [downward, downward, hslot, hslot', Option.elim_some, hfresh.1]
        exact (List.append_nil _).symm
  | @carried fd up down hconn hstays hgap hup hdown =>
      obtain ⟨i, hi⟩ := hc.conn fd hconn
      obtain ⟨j, hj⟩ := hstays
      have hslot : p.slot s = some (s.clients i) := slot_of_at hok hconn hi
      have hslot' : ({ p with up := up, down := down } : Endpoint).slot t = some (t.clients j) :=
        slot_of_at hok' hconn hj
      obtain ⟨hpend, hwhole⟩ := pending_step hok hen hstep hgap hi hj
      obtain ⟨ms, hms, hunsent⟩ := srvStep_unsent hok hen hstep hi hj
      have hgiven : p.given s e = handed s fd e := by rw [given, hconn, Option.elim_some]
      rw [hgiven]
      refine ⟨⟨?_, hwhole⟩, ms, hms, ?_⟩
      · rw [upward, upward, hslot, hslot', Option.elim_some, Option.elim_some, hup, List.append_assoc,
          ← List.append_assoc, hpend, List.append_assoc]
      · rw [downward, downward, hslot, hslot', Option.elim_some, Option.elim_some, hdown,
          List.append_assoc p.down, hunsent]
        simp only [List.append_assoc]

end Endpoint

/-! ## Every reachable state -/

/-- What holds of the clients and the server between two steps. -/
structure NetOk {ι : Type} (s : Net ι) : Prop where
  srv : countingLts.Reachable s.srv
  apart : s.Apart
  ends : ∀ i, (s.ends i).Ok s.srv

/-- A client that was just started has sent nothing, and nothing is on its way. -/
theorem Endpoint.Started.idle {p : Endpoint} (h : p.Started) (s : Server) :
    CltOk p.clt ∧ p.upward s = [] ∧ p.downward s = [] := by
  obtain ⟨⟨c, fd, env, hc, hstep⟩, hconn, hup, hdown⟩ := h
  have hclt : CltOk p.clt := (cltOk_inductive.init c hc).step (e := .cmd (.connect (some fd)) env)
    trivial hstep
  have hslot : p.slot s = none := by rw [slot, hconn, Option.bind_none]
  obtain ⟨hq, hr⟩ : p.clt.q = [] ∧ p.clt.rbuf = none := by
    obtain ⟨cfg, pubkey, fs, cwd, -, -, rfl⟩ := hc
    have hclt := Option.some.inj hstep
    rw [← hclt]
    exact ⟨rfl, rfl⟩
  refine ⟨hclt, ?_, ?_⟩
  · rw [upward, hslot, hup, hq]
    rfl
  · rw [downward, hslot, hdown, hr]
    rfl

theorem Endpoint.Started.ok {s : Server} {p : Endpoint} (h : p.Started) : p.Ok s := by
  obtain ⟨hclt, hup, hdown⟩ := h.idle s
  refine ⟨hclt, fun fd hfd => ?_, hup ▸ .nil, hdown ▸ .nil⟩
  rw [h.conn] at hfd
  cases hfd

/-- A connection that the server has stays, or has just been accepted. -/
theorem Endpoint.Served.connected {s t : Server} {e : SrvEvent} {p q : Endpoint}
    (h : p.Served s e t q) : q.clt = p.clt ∧ ∀ fd, q.conn = some fd → Connected t fd := by
  cases h with
  | waits hconn =>
      refine ⟨rfl, fun fd hfd => ?_⟩
      rw [hconn] at hfd
      cases hfd
  | @accepted fd' hconn hacc hnew =>
      refine ⟨rfl, fun fd hfd => ?_⟩
      obtain rfl : fd' = fd := Option.some.inj hfd
      exact hnew
  | @carried fd' up down hconn hstays hgap hup hdown =>
      refine ⟨rfl, fun fd hfd => ?_⟩
      obtain rfl : fd' = fd := Option.some.inj (hconn.symm.trans hfd)
      exact hstays

/-- **Both streams of every connection are complete messages**, in every reachable state. -/
theorem netOk_inductive (ι : Type) : (netLts ι).Inductive NetOk where
  init := by
    rintro s ⟨hsrv, hends⟩
    refine ⟨hsrv, fun i j fd hi hj => ?_, fun i => (hends i).ok⟩
    rw [(hends i).conn] at hi
    cases hi
  step := by
    rintro s e t ⟨hsrv, hapart, hends⟩ hstep
    cases e with
    | client i e =>
        obtain ⟨hts, hturn, hothers⟩ := hstep
        have hconn : ∀ j, (t.ends j).conn = (s.ends j).conn := by
          intro j
          by_cases hj : j = i
          · rw [hj, hturn.conn]
          · rw [hothers j hj]
        refine ⟨hts ▸ hsrv, fun j k fd hj hk => ?_, fun j => ?_⟩
        · rw [hconn] at hj hk
          exact hapart j k fd hj hk
        · rw [hts]
          by_cases hj : j = i
          · obtain ⟨⟨hup, hqueued⟩, hdown, hhanded⟩ := hturn.streams (s := s.srv) (hends i).clt
            rw [hj]
            refine ⟨(hends i).clt.step hturn.step.1 hturn.step.2, fun fd hfd => ?_, ?_, ?_⟩
            · rw [hturn.conn] at hfd
              exact (hends i).conn fd hfd
            · rw [hup]
              exact (hends i).up.append (.flatten hqueued)
            · exact Aligned.of_append (hdown ▸ (hends i).down) hhanded
          · rw [hothers j hj]
            exact hends j
    | server e =>
        obtain ⟨hcount, hserved, hapart'⟩ := hstep
        have hreach := hsrv.step hcount
        obtain ⟨hok, -⟩ := idsOk_inductive.invariant _ hsrv
        obtain ⟨hok', -⟩ := idsOk_inductive.invariant _ hreach
        refine ⟨hreach, hapart', fun i => ?_⟩
        obtain ⟨hclt, hconn⟩ := (hserved i).connected
        obtain ⟨⟨hup, hnew⟩, ms, hms, hdown⟩ :=
          (hserved i).streams hok hok' hcount.1.1 hcount.1.2.2 (hends i)
        refine ⟨hclt ▸ (hends i).clt, hconn, ?_, ?_⟩
        · exact Aligned.of_append (hup ▸ (hends i).up) hnew
        · rw [hdown]
          exact (hends i).down.append (.flatten fun x hx => (hms x hx).1)

/-! ## A network of two clients to try things on -/

/-- A step of a client as a function. -/
def Endpoint.turnTry (p : Endpoint) (e : CltEvent) : Option Endpoint :=
  (cltTry p.clt e).bind fun c =>
    if 0 ≤ c.srvfd ∧ ¬ e.Opens ∧ e.octetsIn p.clt <+: p.down then
      some { p with
        clt := c
        up := p.up ++ e.octetsOut p.clt
        down := p.down.drop (e.octetsIn p.clt).length }
    else none

/-- What a step of the server does to a connection, as a function; a connection that is
accepted becomes this one if it `takes` it. -/
def Endpoint.servedTry (s : Server) (e : SrvEvent) (t : Server) (takes : Bool) (p : Endpoint) :
    Option Endpoint :=
  match p.conn with
  | some fd =>
      if Connected t fd ∧ NoGap s fd e ∧ octetsRead s fd e <+: p.up then
        some { p with
          up := p.up.drop (octetsRead s fd e).length
          down := p.down ++ octetsWritten s fd e }
      else none
  | none =>
      match takes, e with
      | true, .accept fd _ _ => if Connected t fd then some { p with conn := some fd } else none
      | _, _ => some p

/-- The steps of a network of two clients, which are accepted in their order. -/
def netTry (s : Net Bool) : NetEvent Bool → Option (Net Bool)
  | .client i e => ((s.ends i).turnTry e).map fun p => { s with ends := Function.update s.ends i p }
  | .server e => do
      let t ← countingTry s.srv e
      let p ← (s.ends false).servedTry s.srv e t true
      let q ← (s.ends true).servedTry s.srv e t (s.ends false).conn.isSome
      if p.conn.isSome = true → p.conn ≠ q.conn then
        some { srv := t, ends := fun i => if i then q else p }
      else none

theorem Endpoint.turnTry_turn {p q : Endpoint} {e : CltEvent} (h : p.turnTry e = some q) :
    p.Turn e q := by
  obtain ⟨c, hc, h⟩ := Option.bind_eq_some_iff.mp h
  split at h
  · rename_i hcond
    obtain ⟨honline, hopens, hin⟩ := hcond
    cases h
    exact ⟨cltTry_step hc, honline, hopens, rfl, rfl, (List.prefix_iff_eq_append.mp hin).symm⟩
  · cases h

theorem Endpoint.servedTry_served {s t : Server} {e : SrvEvent} {takes : Bool} {p q : Endpoint}
    (h : p.servedTry s e t takes = some q) : p.Served s e t q := by
  unfold Endpoint.servedTry at h
  split at h
  · rename_i fd hconn
    split at h
    · rename_i hcond
      obtain ⟨hstays, hgap, hin⟩ := hcond
      cases h
      exact .carried hconn hstays hgap (List.prefix_iff_eq_append.mp hin).symm rfl
    · cases h
  · rename_i hconn
    split at h
    · split at h
      · rename_i hnew
        cases h
        exact .accepted hconn rfl hnew
      · cases h
    · cases h
      exact .waits hconn

theorem netTry_step (s : Net Bool) (e : NetEvent Bool) (t : Net Bool) (h : netTry s e = some t) :
    (netLts Bool).step s e t := by
  cases e with
  | client i e =>
      obtain ⟨p, hp, rfl⟩ := Option.map_eq_some_iff.mp h
      refine ⟨rfl, ?_, fun j hj => Function.update_of_ne hj p s.ends⟩
      have hself : ({ s with ends := Function.update s.ends i p } : Net Bool).ends i = p :=
        Function.update_self i p s.ends
      rw [hself]
      exact Endpoint.turnTry_turn hp
  | server e =>
      obtain ⟨t', ht, h⟩ := Option.bind_eq_some_iff.mp h
      obtain ⟨p, hp, h⟩ := Option.bind_eq_some_iff.mp h
      obtain ⟨q, hq, h⟩ := Option.bind_eq_some_iff.mp h
      split at h
      · rename_i hne
        cases h
        refine ⟨countingTry_step ht, fun i => ?_, fun i j fd hi hj => ?_⟩
        · cases i with
          | false => exact Endpoint.servedTry_served hp
          | true => exact Endpoint.servedTry_served hq
        · have hdiff : ∀ fd, p.conn = some fd → q.conn ≠ some fd := fun fd hpf hqf =>
            hne (by rw [hpf]; rfl) (hpf.trans hqf.symm)
          cases i with
          | false =>
              cases j with
              | false => rfl
              | true => exact absurd hj (hdiff fd hi)
          | true =>
              cases j with
              | false => exact absurd hi (hdiff fd hj)
              | true => rfl
      · cases h

/-- A client in an empty directory but for the files given, just connected. -/
def demoEndpoint (files : List (Bytes × Bytes)) : Endpoint where
  clt := Clt.cmdConnect (demoClient false files) (some 3)
  conn := none
  up := []
  down := []

/-- A server and two clients; the first one has a file. -/
def demoNet : Net Bool where
  srv := demoServer none
  ends i := demoEndpoint (if i then [] else [(ascii "f", [1, 2])])

theorem demoNet_init : (netLts Bool).init demoNet := by
  refine ⟨.init ⟨_, 3, .good, none, by decide, fun _ _ _ hf => (by cases hf), rfl⟩, fun i => ?_⟩
  exact ⟨⟨_, 3, demoEnv, demoClient_init false _, rfl⟩, rfl, rfl, rfl⟩

/-- A client writes what it has, and the server reads it from the slot in two pieces. -/
def sendUp (i : Bool) (k : Nat) : List (Net Bool → NetEvent Bool) :=
  [fun _ => .client i (.write (.sent 1000)),
    fun s => .server (.read k 1 (.got ((s.ends i).up.take 40)) quietEnv),
    fun s => .server (.read k 1 (.got (s.ends i).up) quietEnv)]

/-- The server writes what it has for the slot, and the client reads it in two pieces. -/
def sendDown (i : Bool) (k : Nat) : List (Net Bool → NetEvent Bool) :=
  [fun _ => .server (.write k 1 (.sent 1000)),
    fun s => .client i (.read (.got ((s.ends i).down.take 40)) demoEnv),
    fun s => .client i (.read (.got (s.ends i).down) demoEnv)]

/-- Both clients are accepted and log in. -/
def loginBoth : List (Net Bool → NetEvent Bool) :=
  [fun _ => .server (.accept 4 true 1), fun _ => .client false (.cmd (.login (ascii "bob") none) demoEnv)] ++
    sendUp false 0 ++ sendDown false 0 ++
    [fun _ => .server (.accept 5 true 1), fun _ => .client true (.cmd (.login (ascii "tom") none) demoEnv)] ++
    sendUp true 1 ++ sendDown true 1

end Frelay
