import Frelay.Network.Net

/-!
# Every client has its dialogue with the server

Between a client and the server there are octets, some of them of a message that is only
partly written. A message counts as sent when its last octet is written, and as received
when its last octet is read; seen that way each client of the network has a `Dialogue` with
the server.

* `write_begun` — a write completes the message that it began, or leaves it begun;
* `Endpoint.Synced` — what is left over of either stream is the beginning of the message
  at the head of the queue it comes from;
* `net_dialogue` — the network, seen from any client, is a dialogue;
* `sessions_agree_everywhere` — so all clients agree with the server at the same time.
-/

namespace Frelay

open Lib

/-! ## Messages that are partly written -/

/-- The octets written of the first message of a queue. -/
def begun : List Mbuf → Bytes
  | [] => []
  | m :: _ => m.b.take m.boff

/-- The queue after a write. -/
def afterWrite : List Mbuf → WriteRes → List Mbuf
  | [], _ => []
  | m :: q, res =>
      match writeOutcome m res with
      | .sent m' => if m'.boff = m'.bsize then q else m' :: q
      | _ => m :: q

theorem afterWrite_cons (m : Mbuf) (q : List Mbuf) (res : WriteRes) :
    afterWrite (m :: q) res =
      match writeOutcome m res with
      | .sent m' => if m'.boff = m'.bsize then q else m' :: q
      | _ => m :: q := rfl

/-- A send queue: complete messages, of which at most the first is partly written. -/
structure QueueOk (q : List Mbuf) : Prop where
  queued : ∀ m ∈ q, Whole m.b ∧ m.boff < m.bsize
  tail : ∀ m ∈ q.tail, m.boff = 0

namespace QueueOk

variable {q new : List Mbuf} {m : Mbuf}

theorem nil : QueueOk [] :=
  ⟨fun _ hm => absurd hm List.not_mem_nil, fun _ hm => absurd hm List.not_mem_nil⟩

theorem of_new (h : ∀ m ∈ new, Whole m.b ∧ m.boff = 0) : QueueOk new where
  queued := fun m hm => ⟨(h m hm).1, by
    have hlen : 40 ≤ m.bsize := (h m hm).1.hdr
    rw [(h m hm).2]
    omega⟩
  tail := fun m hm => (h m (List.mem_of_mem_tail hm)).2

theorem cons (h : QueueOk (m :: q)) : Whole m.b ∧ m.boff < m.bsize ∧ QueueOk q :=
  ⟨(h.queued m List.mem_cons_self).1, (h.queued m List.mem_cons_self).2,
    fun x hx => h.queued x (List.mem_cons_of_mem _ hx),
    fun x hx => h.tail x (List.mem_of_mem_tail hx)⟩

/-- Messages are queued behind what is there. -/
theorem append (h : QueueOk q) (hnew : ∀ m ∈ new, Whole m.b ∧ m.boff = 0) :
    QueueOk (q ++ new) ∧ begun (q ++ new) = begun q := by
  cases q with
  | nil =>
      refine ⟨of_new hnew, ?_⟩
      cases new with
      | nil => rfl
      | cons m new =>
          show m.b.take m.boff = []
          rw [(hnew m List.mem_cons_self).2, List.take_zero]
  | cons m q =>
      refine ⟨⟨fun x hx => ?_, fun x hx => ?_⟩, rfl⟩
      · rcases List.mem_append.mp hx with hx | hx
        · exact h.queued x hx
        · exact (of_new hnew).queued x hx
      · rcases List.mem_append.mp (show x ∈ q ++ new from hx) with hx | hx
        · exact h.tail x hx
        · exact (hnew x hx).2

/-- Nothing of a queue is written whose messages wait. -/
theorem begun_waiting (h : ∀ m ∈ q, m.boff = 0) : begun q = [] := by
  cases q with
  | nil => rfl
  | cons m q =>
      show m.b.take m.boff = []
      rw [h m List.mem_cons_self, List.take_zero]

end QueueOk

/-- A part of a message is no frame yet. -/
theorem frames_part {b : Bytes} (hb : Whole b) {n : Nat} (hn : n < b.length) :
    msgFormat.frames (b.take n) = [] ∧ msgFormat.rest (b.take n) = b.take n := by
  have hnot : ¬ msgFormat.Complete (b.take n) := by
    rintro ⟨hhdr, hsize⟩
    have hlen : (b.take n).length = n := by
      rw [List.length_take]
      omega
    have hsame : msgFormat.size b = msgFormat.size (b.take n) := by
      conv_lhs => rw [← List.take_append_drop n b]
      exact msgFormat.size_append _ hhdr
    have hfull := hb.size
    omega
  exact ⟨msgFormat.frames_of_not_complete hnot, msgFormat.rest_of_not_complete hnot⟩

theorem QueueOk.frames_begun {q : List Mbuf} (h : QueueOk q) :
    msgFormat.frames (begun q) = [] ∧ msgFormat.rest (begun q) = begun q := by
  cases q with
  | nil => exact ⟨msgFormat.frames_nil, msgFormat.rest_nil⟩
  | cons m q =>
      obtain ⟨hw, hlt, -⟩ := h.cons
      exact frames_part hw hlt

/-- **A write completes the message that was begun**, or leaves it begun. -/
theorem write_begun {m : Mbuf} {q : List Mbuf} (h : QueueOk (m :: q)) (res : WriteRes) :
    msgFormat.frames (begun (m :: q) ++ octetsSent m res) = sentWhole (m :: q) res ∧
      msgFormat.rest (begun (m :: q) ++ octetsSent m res) = begun (afterWrite (m :: q) res) ∧
      QueueOk (afterWrite (m :: q) res) := by
  obtain ⟨hw, hlt, hq⟩ := h.cons
  unfold sentWhole
  rw [afterWrite_cons]
  simp only
  by_cases hsent : ∃ m', writeOutcome m res = .sent m'
  · obtain ⟨m', hout⟩ := hsent
    obtain ⟨hb, hoctets⟩ := octetsSent_of_sent hout
    -- What is written by now are the first octets of the message.
    have htaken : begun (m :: q) ++ octetsSent m res = m.b.take m'.boff := by
      have hall : begun (m :: q) ++ octetsSent m res ++ m.b.drop m'.boff =
          m.b.take m'.boff ++ m.b.drop m'.boff := by
        rw [List.append_assoc, ← hb, hoctets, hb, List.take_append_drop]
        exact List.take_append_drop _ _
      exact List.append_cancel_right hall
    rw [hout, htaken]
    simp only
    by_cases hfull : m'.boff = m'.bsize
    · rw [if_pos hfull, if_pos hfull, hfull, Mbuf.bsize, hb, List.take_length]
      obtain ⟨hone, hnone⟩ := msgFormat.frames_of_length_eq hw.hdr hw.size
      exact ⟨hone, hnone.trans (QueueOk.begun_waiting h.tail).symm, hq⟩
    · rw [if_neg hfull, if_neg hfull]
      have hpart : m'.boff < m'.bsize := by
        unfold writeOutcome at hout
        rw [if_pos hlt] at hout
        cases res with
        | failed fatal => cases fatal <;> cases hout
        | sent n =>
            simp only at hout
            split at hout
            · cases hout
            · cases hout
              have hroom : m.room = m.bsize - m.boff := rfl
              have hne : m.boff + min n m.room ≠ m.bsize := hfull
              show m.boff + min n m.room < m.bsize
              omega
      have hpart' : m'.boff < m.b.length := by
        rwa [Mbuf.bsize, hb] at hpart
      obtain ⟨hnone, hrest⟩ := frames_part hw hpart'
      refine ⟨hnone, hrest.trans (by rw [← hb]; rfl), fun x hx => ?_, h.tail⟩
      rcases List.mem_cons.mp hx with rfl | hx
      · exact ⟨hb ▸ hw, hpart⟩
      · exact hq.queued x hx
  · have hno : ∀ m', writeOutcome m res ≠ .sent m' := fun m' heq => hsent ⟨m', heq⟩
    rw [octetsSent_of_not_sent hno, List.append_nil, h.frames_begun.1, h.frames_begun.2]
    cases hout : writeOutcome m res with
    | sent m' => exact absurd hout (hno m')
    | disconnect => exact ⟨rfl, rfl, h⟩
    | again => exact ⟨rfl, rfl, h⟩

/-! ## One step of a client, one event of the server -/

/-- What a step of the client puts on the wire is what it sends and what it leaves begun. -/
theorem cltStep_begun {c t : Clt} {e : CltEvent} (hc : RecvOk c.rbuf) (hq : QueueOk c.q)
    (h : cltStep c e = some t) :
    msgFormat.frames (begun c.q ++ e.octetsOut c) = e.sent c ∧
      msgFormat.rest (begun c.q ++ e.octetsOut c) = begun t.q ∧ QueueOk t.q := by
  by_cases hwrite : ∃ res, e = .write res
  · obtain ⟨res, rfl⟩ := hwrite
    change Clt.writeSrv c res = some t at h
    unfold Clt.writeSrv at h
    cases hcq : c.q with
    | nil =>
        rw [hcq] at h
        cases h
    | cons m q =>
        rw [hcq] at h
        have hout : (CltEvent.write res).octetsOut c = octetsSent m res := by
          rw [CltEvent.octetsOut, hcq]
          rfl
        have hafter : t.q = afterWrite (m :: q) res := by
          simp only at h
          rw [afterWrite_cons]
          cases hres : writeOutcome m res with
          | disconnect =>
              rw [hres] at h
              cases h
              exact hcq
          | again =>
              rw [hres] at h
              cases h
              exact hcq
          | sent m' =>
              rw [hres] at h
              cases h
              simp only
              split
              · unfold Clt.dequeueMsg
                simp only
                split <;> rfl
              · rfl
        have hsent : (CltEvent.write res).sent c = sentWhole (m :: q) res := by
          rw [CltEvent.sent, hcq]
        rw [hout, hsent, hafter]
        exact write_begun (hcq ▸ hq) res
  · have hne : ∀ res, e ≠ .write res := fun res heq => hwrite ⟨res, heq⟩
    obtain ⟨new, hnew, hwhole⟩ := cltStep_queues hc hne h
    obtain ⟨hok, hbegun⟩ := hq.append hwhole
    have hnone : e.octetsOut c = [] ∧ e.sent c = [] := by
      cases e with
      | write res => exact absurd rfl (hne res)
      | _ => exact ⟨rfl, rfl⟩
    rw [hnone.1, hnone.2, hnew, List.append_nil, hbegun]
    exact ⟨hq.frames_begun.1, hq.frames_begun.2, hok⟩

theorem SlotOk.queueOk {c : Client} (h : SlotOk c) : QueueOk c.q := ⟨h.queued, h.unsent⟩

/-- And so for a connection at the server. -/
theorem srvStep_begun {s t : Server} {e : SrvEvent} {fd : Int} {i j : Nat} (hok : SlotsOk s)
    (hen : e.Enabled s) (h : srvStep s e = some t) (hi : At s fd i) (hj : At t fd j) :
    msgFormat.frames (begun (s.clients i).q ++ octetsWritten s fd e) = sentTo s fd e ∧
      msgFormat.rest (begun (s.clients i).q ++ octetsWritten s fd e) = begun (t.clients j).q := by
  have hqueue := (hok.slot i hi.1).queueOk
  have hidle : ∀ {c : Client}, octetsWritten s fd e = [] → sentTo s fd e = [] →
      begun c.q = begun (s.clients i).q →
      msgFormat.frames (begun (s.clients i).q ++ octetsWritten s fd e) = sentTo s fd e ∧
        msgFormat.rest (begun (s.clients i).q ++ octetsWritten s fd e) = begun c.q := by
    intro c hw hs hb
    rw [hw, hs, hb, List.append_nil]
    exact hqueue.frames_begun
  cases hinc : incoming s e with
  | none =>
      have hcase := quiet_cases hok hen h hinc hi hj
      generalize t.clients j = c at hcase
      cases hcase with
      | away hoff => exact hidle (octetsWritten_away hoff) (sentTo_away hoff) rfl
      | @again now env => exact hidle rfl rfl (congrArg begun (opened_same s i now).2.2)
      | @pending now bs env m hrec => exact hidle rfl rfl (congrArg begun (opened_same s i now).2.2)
      | @swept now =>
          exact hidle rfl rfl
            (congrArg begun (resyncClient_same s.cfg.msgTimeout (s.clients i) now).2.2.1)
      | @blocked now m q hq =>
          obtain ⟨hframes, hrest, -⟩ := write_begun (hq ▸ hqueue) (.failed false)
          rw [octetsWritten, if_pos hi.2, sentTo, if_pos hi.2, hq]
          refine ⟨hframes, hrest.trans ?_⟩
          have hlt := (hqueue.queued m (hq ▸ List.mem_cons_self)).2
          rw [afterWrite_cons, writeOutcome, if_pos hlt]
      | @sent now n m q hq hlt hz =>
          obtain ⟨hframes, hrest, -⟩ := write_begun (hq ▸ hqueue) (.sent n)
          rw [octetsWritten, if_pos hi.2, sentTo, if_pos hi.2, hq]
          refine ⟨hframes, hrest.trans ?_⟩
          rw [afterWrite_cons, writeOutcome, if_pos hlt]
          simp only [hz, if_false]
          rfl
  | some p =>
      obtain ⟨k, m⟩ := p
      obtain ⟨now, bs, env, u, reply, rfl, hl, hm, hbytes, hin, hmsg⟩ := message_step hok hen h hinc
      obtain ⟨rfl, hheard⟩ := message_follow env hok hl hbytes hin hmsg hi hj
      refine hidle rfl rfl ?_
      rw [hheard.queue]
      refine (hqueue.append fun x hx => ?_).2
      rcases List.mem_append.mp hx with hx | hx
      · exact whole_forwarded (whole_fillSrcid hm) x hx
      · split at hx
        · exact ⟨(hmsg.reply_ok x hx).2.1.whole, (hmsg.reply_ok x hx).1⟩
        · cases hx

theorem handed_eq_delivered (s : Server) (fd : Int) (e : SrvEvent) :
    handed s fd e = ((delivered s fd e).map Mbuf.b).toList := by
  unfold handed delivered
  cases incoming s e with
  | none => rfl
  | some p =>
      obtain ⟨k, m⟩ := p
      simp only
      split <;> rfl

/-! ## A client of the network as a dialogue -/

namespace Endpoint

/-- What has been written to the server and not been handed to `process_msg`. -/
def arriving (s : Server) (p : Endpoint) : Bytes :=
  ((p.slot s).elim [] fun c => received c.rbuf) ++ p.up

/-- What has been written to the client and not been handed to `process_srvmsg`. -/
def returning (p : Endpoint) : Bytes := received p.clt.rbuf ++ p.down

/-- What is left over of either stream has been begun by its queue. -/
structure Synced (s : Server) (p : Endpoint) : Prop where
  queue : QueueOk p.clt.q
  up : msgFormat.rest (p.arriving s) = begun p.clt.q
  down : msgFormat.rest p.returning = (p.slot s).elim [] fun c => begun c.q

/-- The client, the server and the messages between them that are written completely. -/
def dialogue (s : Server) (p : Endpoint) : Dialogue where
  clt := p.clt
  srv := s
  conn := p.conn
  up := msgFormat.frames (p.arriving s)
  down := msgFormat.frames p.returning

theorem Started.synced {s : Server} {p : Endpoint} (h : p.Started) :
    p.Synced s ∧ msgFormat.frames (p.arriving s) = [] ∧ msgFormat.frames p.returning = [] := by
  obtain ⟨⟨c, fd, env, hc, hstep⟩, hconn, hup, hdown⟩ := h
  have hslot : p.slot s = none := by rw [slot, hconn, Option.bind_none]
  obtain ⟨hq, hr⟩ : p.clt.q = [] ∧ p.clt.rbuf = none := by
    obtain ⟨cfg, pubkey, fs, cwd, -, -, rfl⟩ := hc
    have hclt := Option.some.inj hstep
    rw [← hclt]
    exact ⟨rfl, rfl⟩
  have harr : p.arriving s = [] := by
    rw [arriving, hslot, hup]
    rfl
  have hret : p.returning = [] := by
    rw [returning, hr, hdown]
    rfl
  rw [harr, hret]
  refine ⟨⟨hq ▸ .nil, ?_, ?_⟩, msgFormat.frames_nil, msgFormat.frames_nil⟩
  · rw [harr, hq]
    exact msgFormat.rest_nil
  · rw [hret, hslot]
    exact msgFormat.rest_nil

/-- No request becomes too old while the client waits for its response. -/
def Patient (p : Endpoint) (e : CltEvent) : Prop :=
  ∀ env, e = .upkeep env → (p.clt.upkeepPending env.now).requests = p.clt.requests

/-- A step of the client is one of the dialogue. -/
theorem Turn.dialogue {s : Server} {p q : Endpoint} {e : CltEvent} (h : p.Turn e q)
    (hc : CltOk p.clt) (hsync : p.Synced s) (hpat : p.Patient e) :
    (p.dialogue s).ClientTurn e (q.dialogue s) ∧ q.Synced s := by
  obtain ⟨hframes, hrest, hqueue⟩ := cltStep_begun hc.rbuf hsync.queue h.step.2
  obtain ⟨hin, hhanded⟩ := cltStep_received hc.rbuf h.opens h.step.2
  have hslot : q.slot s = p.slot s := by rw [slot, slot, h.conn]
  have harr : q.arriving s = p.arriving s ++ e.octetsOut p.clt := by
    rw [arriving, arriving, hslot, h.up, List.append_assoc]
  have hret : p.returning = (e.handed p.clt).flatten ++ q.returning := by
    rw [returning, returning, h.down, ← List.append_assoc, hin, List.append_assoc]
  obtain ⟨hup, hupr⟩ := msgFormat.frames_append (p.arriving s) (e.octetsOut p.clt)
  rw [hsync.up, ← harr] at hup hupr
  obtain ⟨hdown, hdownr⟩ := frames_flatten_append hhanded q.returning
  rw [← hret] at hdown hdownr
  have hsteady : e.Steady p.clt q.clt := by
    refine ⟨h.online, ?_⟩
    split
    · rename_i fd env
      cases fd with
      | none => exact absurd h.online (by
          have hdown := Option.some.inj h.step.2
          rw [← hdown]
          exact (by decide : ¬ (0 : Int) ≤ -1))
      | some fd => exact h.opens trivial
    · exact hpat _ rfl
    · trivial
  exact ⟨⟨h.step, hsteady, rfl, h.conn, by rw [Endpoint.dialogue, Endpoint.dialogue, hup, hframes], hdown⟩, hqueue,
    hupr.trans hrest, by rw [← hdownr, hsync.down, hslot]⟩

/-- A step of the server is one of the dialogue. -/
theorem Served.dialogue {s t : Server} {e : SrvEvent} {p q : Endpoint} (h : p.Served s e t q)
    (hok : SlotsOk s) (hok' : SlotsOk t) (hstep : (srvLts fun _ => True).step s e t)
    (hkeys : PlainKeys s.udb) (hp : p.Ok s) (hsync : p.Synced s) :
    (p.dialogue s).ServerTurn e (q.dialogue t) ∧ q.Synced t := by
  obtain ⟨hen, -, hsrv⟩ := hstep
  have hturn : ∀ {q : Endpoint}, q.clt = p.clt → (p.dialogue s).Carries e (q.dialogue t) →
      (p.dialogue s).ServerTurn e (q.dialogue t) :=
    fun hclt hwire => ⟨⟨hen, ?_, hsrv⟩, hkeys, hclt, hwire⟩
  rotate_left
  · cases e with
    | read i now res env => exact ⟨trivial, trivial⟩
    | _ => trivial
  -- As long as the server has no slot for the client, nothing moves.
  have hstill : p.conn = none → ∀ {q : Endpoint} {c : Option Client}, q.slot t = c →
      q = { p with conn := q.conn } → (∀ d, c = some d → d.rbuf = none ∧ d.q = []) →
      q.arriving t = p.arriving s ∧ q.returning = p.returning ∧ q.Synced t := by
    intro hconn q c hc hq hnew
    have hslot : p.slot s = none := by rw [slot, hconn, Option.bind_none]
    have harr : q.arriving t = p.arriving s := by
      rw [arriving, arriving, hslot, hc, hq]
      cases c with
      | none => rfl
      | some d => rw [Option.elim_some, (hnew d rfl).1]; rfl
    have hret : q.returning = p.returning := by rw [returning, returning, hq]
    refine ⟨harr, hret, ?_, ?_, ?_⟩
    · rw [hq]
      exact hsync.queue
    · rw [harr, hq]
      exact hsync.up
    · rw [hret, hsync.down, hslot, hc]
      cases c with
      | none => rfl
      | some d => rw [Option.elim_some, (hnew d rfl).2]; rfl
  cases h with
  | waits hconn =>
      have hslot : p.slot t = none := by rw [slot, hconn, Option.bind_none]
      obtain ⟨harr, hret, hsync'⟩ := hstill hconn hslot rfl fun d hd =>
        absurd hd (Option.some_ne_none d).symm
      refine ⟨hturn rfl ?_, hsync'⟩
      unfold Dialogue.Carries
      rw [show (p.dialogue s).conn = none from hconn]
      refine ⟨congrArg msgFormat.frames harr, rfl, fun fd hfd => ?_⟩
      exact absurd (hconn.symm.trans hfd) (Option.some_ne_none fd).symm
  | @accepted fd hconn hacc hnew =>
      obtain ⟨i, hi⟩ := hnew
      have hslot : ({ p with conn := some fd } : Endpoint).slot t = some (t.clients i) :=
        slot_of_at hok' rfl hi
      have hfresh : (t.clients i).q = [] ∧ (t.clients i).rbuf = none := by
        cases e with
        | accept fd' nonblocking now =>
            obtain rfl : fd' = fd := hacc
            exact (accepted_fresh hok hen hsrv hi).2
        | _ => exact hacc.elim
      obtain ⟨harr, hret, hsync'⟩ := hstill hconn hslot rfl fun d hd => by
        cases hd
        exact ⟨hfresh.2, hfresh.1⟩
      refine ⟨hturn rfl ?_, hsync'⟩
      unfold Dialogue.Carries
      rw [show (p.dialogue s).conn = none from hconn]
      refine ⟨congrArg msgFormat.frames harr, rfl, fun fd' hfd => ?_⟩
      obtain rfl : fd = fd' := Option.some.inj hfd
      exact ⟨hacc, i, hi⟩
  | @carried fd up down hconn hstays hgap hup hdown =>
      obtain ⟨i, hi⟩ := hp.conn fd hconn
      obtain ⟨j, hj⟩ := hstays
      have hslot : p.slot s = some (s.clients i) := slot_of_at hok hconn hi
      have hslot' : ({ p with up := up, down := down } : Endpoint).slot t = some (t.clients j) :=
        slot_of_at hok' hconn hj
      obtain ⟨hpend, hwhole⟩ := pending_step hok hen hsrv hgap hi hj
      obtain ⟨hframes, hrest⟩ := srvStep_begun hok hen hsrv hi hj
      have harr : p.arriving s = (handed s fd e).flatten ++
          ({ p with up := up, down := down } : Endpoint).arriving t := by
        rw [arriving, arriving, hslot, hslot', Option.elim_some, Option.elim_some, hup,
          ← List.append_assoc, hpend, List.append_assoc]
      have hret : ({ p with up := up, down := down } : Endpoint).returning =
          p.returning ++ octetsWritten s fd e := by
        rw [returning, returning, hdown, List.append_assoc]
      obtain ⟨hu, hur⟩ := frames_flatten_append hwhole
        (({ p with up := up, down := down } : Endpoint).arriving t)
      rw [← harr] at hu hur
      obtain ⟨hd, hdr⟩ := msgFormat.frames_append p.returning (octetsWritten s fd e)
      rw [hsync.down, hslot, Option.elim_some, ← hret] at hd hdr
      refine ⟨hturn rfl ?_, ?_⟩
      · unfold Dialogue.Carries
        rw [show (p.dialogue s).conn = some fd from hconn]
        exact ⟨hconn, ⟨j, hj⟩, handed_eq_delivered s fd e ▸ hu, hd.trans (congrArg _ hframes)⟩
      · exact ⟨hsync.queue, hur.symm.trans hsync.up,
          (hdr.trans hrest).trans (by rw [hslot', Option.elim_some])⟩

end Endpoint

/-! ## Every reachable state -/

variable {ι : Type}

/-- No client finds a request too old, and every key the server could find is plain. -/
def NetEvent.Patient (s : Net ι) : NetEvent ι → Prop
  | .client i e => (s.ends i).Patient e
  | .server _ => PlainKeys s.srv.udb

/-- What holds between two such steps. -/
structure NetSynced (s : Net ι) : Prop where
  ok : NetOk s
  synced : ∀ i, (s.ends i).Synced s.srv
  dialogues : ∀ i, dialogueLts.Reachable ((s.ends i).dialogue s.srv)

theorem srvLts_of_counting {s : Server} (hs : countingLts.Reachable s) :
    (srvLts fun _ => True).Reachable s := by
  obtain ⟨s₀, es, ⟨cfg, listenfd, e, file, hfd, -, rfl⟩, hrun⟩ := hs
  exact ⟨_, es, ⟨cfg, listenfd, e, file, hfd, trivial, rfl⟩,
    Lts.Run.mono (M := countingLts) (fun _ _ _ h => h.1) hrun⟩

/-- **Seen from any client the network is a dialogue**, in every reachable state. -/
theorem net_dialogue (ι : Type) : ((netLts ι).guard NetEvent.Patient).Inductive NetSynced where
  init := by
    rintro s ⟨hsrv, hends⟩
    refine ⟨(netOk_inductive ι).init s ⟨hsrv, hends⟩, fun i => (hends i).synced.1, fun i => .init ?_⟩
    obtain ⟨-, hup, hdown⟩ := (hends i).synced (s := s.srv)
    exact ⟨(hends i).clt, srvLts_of_counting hsrv, (hends i).conn, hup, hdown⟩
  step := by
    rintro s e t ⟨hok, hsync, hdial⟩ ⟨hstep, hpat⟩
    have hok' := (netOk_inductive ι).step s e t hok hstep
    cases e with
    | client i e =>
        obtain ⟨hsrv, hturn, hothers⟩ := hstep
        obtain ⟨hclient, hsync'⟩ := hturn.dialogue (s := s.srv) (hok.ends i).clt (hsync i) hpat
        refine ⟨hok', fun j => ?_, fun j => ?_⟩
        · rw [hsrv]
          by_cases hj : j = i
          · rw [hj]
            exact hsync'
          · rw [hothers j hj]
            exact hsync j
        · rw [hsrv]
          by_cases hj : j = i
          · rw [hj]
            exact (hdial i).step (e := .client e) hclient
          · rw [hothers j hj]
            exact hdial j
    | server e =>
        obtain ⟨hcount, hserved, -⟩ := hstep
        obtain ⟨hslots, -⟩ := idsOk_inductive.invariant _ hok.srv
        obtain ⟨hslots', -⟩ := idsOk_inductive.invariant _ hok'.srv
        have hall := fun i =>
          (hserved i).dialogue hslots hslots' hcount.1 hpat (hok.ends i) (hsync i)
        exact ⟨hok', fun i => (hall i).2, fun i => (hdial i).step (e := .server e) (hall i).1⟩

/-- Nothing is queued or on its way between the client and its slot `k`. -/
def Endpoint.Drained (s : Server) (p : Endpoint) (k : Nat) : Prop :=
  p.clt.q = [] ∧ p.up = [] ∧ p.down = [] ∧ (s.clients k).q = []

/-- **All clients agree with the server.** Whenever nothing is queued or on its way between
a client and its slot, the client is in the state of the slot and no challenge is open, in
whatever state the other clients and the octets of their connections are. -/
theorem sessions_agree_everywhere {s : Net ι} (hs : ((netLts ι).guard NetEvent.Patient).Reachable s)
    {i : ι} {fd : Int} (hconn : (s.ends i).conn = some fd) :
    ∃ k, At s.srv fd k ∧ ((s.ends i).Drained s.srv k →
      (s.ends i).clt.st = (s.srv.clients k).st ∧
        ((s.ends i).clt.st = .preLogin ∨ (s.ends i).clt.st = .authOk)) := by
  obtain ⟨hok, hsync, hdial⟩ := (net_dialogue ι).invariant s hs
  obtain ⟨hslots, -⟩ := idsOk_inductive.invariant _ hok.srv
  obtain ⟨k, hk, hagree⟩ := sessions_agree (hdial i) hconn
  refine ⟨k, hk, fun ⟨hcq, hup, hdown, hsq⟩ => hagree ⟨hcq, ?_, ?_, hsq⟩⟩
  · show msgFormat.frames ((s.ends i).arriving s.srv) = []
    rw [Endpoint.arriving, Endpoint.slot_of_at hslots hconn hk, hup, List.append_nil]
    exact (hslots.slot k hk.1).rbuf.frames_received
  · show msgFormat.frames (s.ends i).returning = []
    rw [Endpoint.returning, hdown, List.append_nil]
    exact (hok.ends i).clt.rbuf.frames_received

/-! ## Two sessions -/

instance (p : Endpoint) (e : CltEvent) : Decidable (p.Patient e) :=
  match e with
  | .upkeep env => decidable_of_iff ((p.clt.upkeepPending env.now).requests = p.clt.requests)
      ⟨fun h _ heq => CltEvent.upkeep.inj heq ▸ h, fun h => h env rfl⟩
  | .cmd _ _ | .read _ _ | .write _ | .outside _ => isTrue fun _ heq => CltEvent.noConfusion heq

instance (s : Net ι) (e : NetEvent ι) : Decidable (e.Patient s) :=
  match e with
  | .client i e => inferInstanceAs (Decidable ((s.ends i).Patient e))
  | .server _ => inferInstanceAs (Decidable (PlainKeys s.srv.udb))

/-- The steps in which nobody loses patience. -/
def patientTry (s : Net Bool) (e : NetEvent Bool) : Option (Net Bool) :=
  if e.Patient s then netTry s e else none

theorem patientTry_step (s : Net Bool) (e : NetEvent Bool) (t : Net Bool)
    (h : patientTry s e = some t) : ((netLts Bool).guard NetEvent.Patient).step s e t := by
  unfold patientTry at h
  split at h
  · rename_i hpat
    exact ⟨netTry_step s e t h, hpat⟩
  · cases h

theorem sessions_agree_everywhere_two : ∃ s : Net Bool, (s.ends false).clt.st = .authOk ∧
    ((s.ends false).Drained s.srv 0 ∧ (s.ends false).conn = some 4) ∧ ∃ k, At s.srv 4 k ∧
    ((s.ends false).Drained s.srv k → (s.ends false).clt.st = (s.srv.clients k).st ∧
      ((s.ends false).clt.st = .preLogin ∨ (s.ends false).clt.st = .authOk)) := by
  have hexec : (Lts.script patientTry demoNet loginBoth).any (fun s =>
      (s.ends false).clt.st == .authOk && decide ((s.ends false).conn = some 4) &&
        decide ((s.ends false).clt.q = [] ∧ (s.ends false).up = [] ∧ (s.ends false).down = [] ∧
          (s.srv.clients 0).q = [])) = true := by
    decide +kernel
  obtain ⟨es, s, hrun, hp⟩ := Lts.run_of_script patientTry_step hexec
  simp only [Bool.and_eq_true, beq_iff_eq, decide_eq_true_eq] at hp
  obtain ⟨⟨hst, hconn⟩, hdrained⟩ := hp
  exact ⟨s, hst, ⟨hdrained, hconn⟩, sessions_agree_everywhere
    (.run (M := (netLts Bool).guard NetEvent.Patient) (.init demoNet_init) hrun) hconn⟩

end Frelay
