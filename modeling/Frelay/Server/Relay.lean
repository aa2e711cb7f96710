import Frelay.Server.Ids

/-!
# The relay

What the server is for: messages from one client to another.

* `forwards_authentic` — a message lands in another client's queue only between
  two authenticated clients, under the sender's own id, and otherwise unchanged;
* `relay_reliable` — between two clients that stay connected, every message
  arrives, once, in order and in one piece.

The second is about octet streams. `quiet_cases` and `message_step` say what any
event does to one connection, `relay_step` puts two connections side by side,
and `Carries` is what is kept from step to step.
-/

namespace Frelay

open Lib

/-! ## Who a forwarded message is from -/

/-- The message `x` in the queue of slot `j` is the message `m` that slot `i`
sent to it: both are authenticated, the ids are theirs, and nothing but the
source id field has been touched. -/
structure Authentic (s : Server) (i j : Nat) (m x : Mbuf) : Prop where
  sender : s.Live i ∧ (s.clients i).st = .authOk
  receiver : s.Live j ∧ (s.clients j).st = .authOk
  srcid : hdrGetSrcid x = (s.clients i).id
  dstid : hdrGetDstid x = (s.clients j).id
  dst_ne : hdrGetDstid x ≠ 0 ∧ hdrGetDstid x ≠ 0xffffffffffffffff
  type : ∃ t : MsgType, hdrGetType x = t.code ∧ t ∈ [.offerInd, .offerReq, .offerRes, .offerErr,
    .getfileReq, .getfileRes, .getfileErr, .pingInd, .pingReq, .pingRes, .pingErr]
  length : x.bsize = m.bsize
  same : ∀ k, ¬ (HDR_OFF_SRCID ≤ k ∧ k < HDR_OFF_SRCID + 8) → x.b[k]? = m.b[k]?

theorem forwardable_mem {t : MsgType} (h : t.forwardable = true) :
    t ∈ [MsgType.offerInd, .offerReq, .offerRes, .offerErr, .getfileReq, .getfileRes,
      .getfileErr, .pingInd, .pingReq, .pingRes, .pingErr] := by
  cases t <;> first
    | decide
    | cases h

/-- The source id of a logged-in slot's message. -/
theorem fillSrcid_of_authOk {c : Client} {m : Mbuf} (h : c.st = .authOk) :
    fillSrcid c m = hdrSetSrcid m c.id := if_pos (.inr h)

theorem hdrGetSrcid_fillSrcid {c : Client} {m : Mbuf} (hm : 40 ≤ m.bsize) (h : c.st = .authOk) :
    hdrGetSrcid (fillSrcid c m) = c.id := by
  rw [fillSrcid_of_authOk h]
  obtain ⟨hd, body, boff, rfl⟩ := exists_msg hm
  simp

theorem getElem?_setSrcid {m : Mbuf} (hm : 40 ≤ m.bsize) (v : UInt64) {k : Nat}
    (hk : ¬ (HDR_OFF_SRCID ≤ k ∧ k < HDR_OFF_SRCID + 8)) :
    (hdrSetSrcid m v).b[k]? = m.b[k]? := by
  change (poke m.b HDR_OFF_SRCID (be64 v))[k]? = m.b[k]?
  have hlen : (be64 v).length = 8 := length_be64 v
  have hin : HDR_OFF_SRCID + (be64 v).length ≤ m.b.length := by
    rw [hlen]
    unfold HDR_OFF_SRCID
    unfold Mbuf.bsize at hm
    omega
  by_cases hlt : k < HDR_OFF_SRCID
  · have htake : (poke m.b HDR_OFF_SRCID (be64 v)).take (k + 1) = m.b.take (k + 1) :=
      take_poke (Nat.succ_le_of_lt hlt) (show HDR_OFF_SRCID ≤ m.b.length by omega)
    have := congrArg (·[k]?) htake
    simpa only [List.getElem?_take_of_lt (Nat.lt_succ_self k)] using this
  · have hge : HDR_OFF_SRCID + (be64 v).length ≤ k := by omega
    have := congrArg (·[0]?) (drop_poke (n := k) hge hin)
    simpa only [List.getElem?_drop, Nat.add_zero] using this

/-- Opening a slot for reading changes neither sessions nor queues. -/
theorem InPlace.opened_other {s u : Server} {i : Nat} {now : Int}
    (h : InPlace s i (opened s i now) u) (j : Nat) :
    (u.Live j ↔ s.Live j) ∧ (u.clients j).fd = (s.clients j).fd ∧
      (u.clients j).session = (s.clients j).session ∧ (u.clients j).q = (s.clients j).q := by
  by_cases hj : j = i
  · subst hj
    obtain ⟨hfd, hsess, hq⟩ := opened_same s j now
    rw [Server.Live, Server.Live, h.cfg, h.self, hfd, hsess, hq]
    exact ⟨Iff.rfl, rfl, rfl, rfl⟩
  · rw [h.live_other hj, h.other hj]
    exact ⟨Iff.rfl, rfl, rfl, rfl⟩

theorem Forwards.authentic {s u : Server} {i j : Nat} {now : Int} {m : Mbuf}
    (hu : InPlace s i (opened s i now) u) (hlive : s.Live i) (hm : 40 ≤ m.bsize)
    (h : Forwards u i j (fillSrcid (u.clients i) m)) :
    Authentic s i j m { fillSrcid (u.clients i) m with boff := 0 } := by
  obtain ⟨-, -, hsi, -⟩ := hu.opened_other i
  obtain ⟨hlj, -, hsj, -⟩ := hu.opened_other j
  have hst : (u.clients i).st = .authOk := h.sender
  have hfill : fillSrcid (u.clients i) m = hdrSetSrcid m (u.clients i).id :=
    fillSrcid_of_authOk hst
  obtain ⟨t, ht, hfw⟩ := isForwardable_iff.mp h.type
  refine ⟨⟨hlive, ?_⟩, ⟨hlj.mp h.live, ?_⟩, ?_, ?_, ⟨h.dst_ne_zero, h.dst_ne_ones⟩,
    ⟨t, ht, forwardable_mem hfw⟩, bsize_fillSrcid hm, ?_⟩
  · rw [← hst]
    exact (congrArg Session.st hsi).symm
  · rw [← h.receiver]
    exact (congrArg Session.st hsj).symm
  · exact (hdrGetSrcid_fillSrcid hm hst).trans (congrArg Session.id hsi)
  · exact h.dstid.trans (congrArg Session.id hsj)
  · intro k hk
    rw [hfill]
    exact getElem?_setSrcid hm _ hk

/-- **Sender authenticity and addressing.** When a read completes a message,
whatever its octets, the dispatch puts authentic copies of it in queues and
nothing else; the reply it may leave for the sender is the server's own. -/
theorem forwards_authentic {ok : FileEnv → Prop} {s t : Server} {i : Nat} {now : Int} {bs : Bytes}
    {env : MsgEnv} {m : Mbuf} (hs : (srvLts ok).Reachable s)
    (hstep : (srvLts ok).step s (.read i now (.got bs) env) t)
    (hm : readOutcome (slotBuffer s i now) (.got bs) = .complete m) :
    ∃ u reply, dispatchMsg env (s.setClient i (opened s i now)) i (fillSrcid (s.clients i) m) =
        some (u, reply) ∧ t = sendBack u i reply ∧
      (∀ r, reply = some r → IsReply (fillSrcid (s.clients i) m) r) ∧
      ∀ j, u.Live j → ∃ fw, (u.clients j).q = (s.clients j).q ++ fw ∧
        ∀ x ∈ fw, Authentic s i j m x := by
  have hok := (slotsOk_inductive ok).invariant s hs
  obtain ⟨hlive, -, hstep⟩ := hstep
  have hwhole := whole_of_complete ((hok.slot i hlive).slotBuffer now) hm
  have hin := InPlace.readOpen s i now
  have hproc : processMsg env (s.setClient i (opened s i now)) i m = some t := by
    unfold srvStep readClient at hstep
    simp only at hstep
    rw [show readOutcome ((resyncClient s.cfg.msgTimeout (s.clients i) now).rbuf.getD mbufNew)
      (.got bs) = .complete m from hm] at hstep
    exact hstep
  generalize s.setClient i (opened s i now) = v at hin hproc ⊢
  have hfill := fillSrcid_congr (m := m) (hin.opened_other i).2.2.1
  rcases processMsg_cases hwhole.hdr hproc with ⟨k, hk, rfl⟩ | ⟨u, reply, hno, hd, hserved, rfl⟩
  · refine ⟨_, none, ?_, rfl, fun r hr => (by cases hr), ?_⟩
    · obtain ⟨r, hr, -⟩ := Option.map_eq_some_iff.mp hproc
      rcases dispatchMsg_cases (by rw [bsize_fillSrcid hwhole.hdr]; exact hwhole.hdr) hr with
        ⟨j, hj, heq⟩ | ⟨hno, -⟩
      · rw [hk] at hj
        cases hj
        rw [← hfill, hr, heq]
      · rw [hk] at hno
        cases hno
    · intro j _
      rw [enqueueMsg_clients]
      by_cases hjk : j = k
      · subst hjk
        rw [if_pos rfl]
        refine ⟨_, congrArg (· ++ _) (hin.opened_other j).2.2.2, ?_⟩
        intro x hx
        rw [List.mem_singleton.mp hx]
        exact (route_forwards hk).authentic hin hlive hwhole.hdr
      · rw [if_neg hjk]
        exact ⟨[], by rw [List.append_nil]; exact (hin.opened_other j).2.2.2, by simp⟩
  · rw [hfill] at hd hserved
    refine ⟨u, reply, hd, rfl, hserved.reply, ?_⟩
    intro j hlj
    -- The server answers itself: no queue has changed yet.
    have hq : (u.clients j).q = (v.clients j).q := by
      by_cases hj : j = i
      · rw [hj]
        exact hserved.touches.q
      · rcases hserved.touches.others j hj with heq | ⟨-, hc⟩
        · rw [heq]
        · have hneg := hlj.2
          rw [hc] at hneg
          exact absurd hneg (by decide)
    exact ⟨[], by rw [List.append_nil, hq]; exact (hin.opened_other j).2.2.2, by simp⟩

/-- A PING request of the first unregistered user to the second. -/
def pingOctets : Bytes := (mbufCompose 0 .pingReq 0 2 1).b

theorem forwards_authentic_ping :
    ∃ (s t : Server) (m : Mbuf),
      ((t.clients 1).q.length = (s.clients 1).q.length + 1 ∧ m.b = pingOctets) ∧
      ∃ u reply, dispatchMsg ⟨[], 0, .good, .good⟩ (s.setClient 0 (opened s 0 1)) 0
          (fillSrcid (s.clients 0) m) = some (u, reply) ∧ t = sendBack u 0 reply ∧
        (∀ r, reply = some r → IsReply (fillSrcid (s.clients 0) m) r) ∧
        ∀ j, u.Live j → ∃ fw, (u.clients j).q = (s.clients j).q ++ fw ∧
          ∀ x ∈ fw, Authentic s 0 j m x := by
  have hexec : (Lts.exec srvTry (demoServer none)
      (.accept 4 true 1 :: arrival 0 (requestOctets .loginReq .username (.str (ascii "bob"))) ++
        .accept 5 true 1 :: arrival 1 (requestOctets .loginReq .username (.str (ascii "tom"))))).any
      (fun s =>
        readOutcome (slotBuffer s 0 1) (.got pingOctets) ==
          .complete ⟨pingOctets, pingOctets.length⟩ &&
        (srvTry s (.read 0 1 (.got pingOctets) ⟨[], 0, .good, .good⟩)).any fun t =>
          (t.clients 1).q.length == (s.clients 1).q.length + 1) = true := by
    decide +kernel
  obtain ⟨s, hs, hp⟩ := Lts.reachable_of_exec (fun _ _ _ => srvTry_step (fun _ => True) trivial)
    (demoServer_init (fun _ => True) trivial _) hexec
  simp only [Bool.and_eq_true, beq_iff_eq, Option.any_eq_true] at hp
  obtain ⟨hm, t, ht, hq⟩ := hp
  exact ⟨s, t, ⟨pingOctets, pingOctets.length⟩, ⟨hq, rfl⟩,
    forwards_authentic hs (srvTry_step _ trivial ht) hm⟩

/-! ## Following a connection -/

/-- The connection with descriptor `fd` is in slot `i`. -/
def At (s : Server) (fd : Int) (i : Nat) : Prop := s.Live i ∧ (s.clients i).fd = fd

/-- The octets an event reads from the connection `fd`. -/
def octetsRead (s : Server) (fd : Int) : SrvEvent → Bytes
  | .read i now (.got bs) _ =>
      if (s.clients i).fd = fd then bs.take (slotBuffer s i now).room else []
  | _ => []

/-- The octets an event writes to the connection `fd`. -/
def octetsWritten (s : Server) (fd : Int) : SrvEvent → Bytes
  | .write i _ res =>
      if (s.clients i).fd = fd then
        match (s.clients i).q with
        | [] => []
        | m :: _ => octetsSent m res
      else []
  | _ => []

/-- No receive gap on the connection `fd` is too long when the event looks for one. -/
def NoGap (s : Server) (fd : Int) : SrvEvent → Prop
  | .read i now _ _ => (s.clients i).fd = fd → resyncClient s.cfg.msgTimeout (s.clients i) now =
      s.clients i
  | .upkeep now => ∀ i, At s fd i → resyncClient s.cfg.msgTimeout (s.clients i) now = s.clients i
  | _ => True

/-- The message an event completes, and the slot it came from. -/
def incoming (s : Server) : SrvEvent → Option (Nat × Mbuf)
  | .read i now res _ =>
      match readOutcome (slotBuffer s i now) res with
      | .complete m => some (i, m)
      | _ => none
  | _ => none

theorem SlotsOk.at_unique {s : Server} (h : SlotsOk s) {fd : Int} {i j : Nat} (hi : At s fd i)
    (hj : At s fd j) : i = j := h.fds i j hi.1 hj.1 (hi.2.trans hj.2.symm)

/-- A connection stays in its slot when a slot is changed in place. -/
theorem InPlace.follow {s t : Server} {fd : Int} {i j k : Nat} {c : Client} (hok : SlotsOk s)
    (hin : InPlace s k c t) (hi : At s fd i) (hj : At t fd j)
    (hc : c.fd < 0 ∨ (s.Live k ∧ c.fd = (s.clients k).fd) ∨
      ∀ l, s.Live l → (s.clients l).fd ≠ c.fd) :
    j = i ∧ ((i = k ∧ c.fd = fd ∧ t.clients i = c) ∨ (i ≠ k ∧ t.clients i = s.clients i)) := by
  obtain ⟨hlj, hfj⟩ := hj
  by_cases hjk : j = k
  · subst hjk
    rw [hin.self] at hfj
    have hpos : 0 ≤ c.fd := by
      have := hlj.2
      rwa [hin.self] at this
    rcases hc with hneg | ⟨hlk, hfd⟩ | hnew
    · omega
    · have hij := hok.at_unique hi ⟨hlk, hfd.symm.trans hfj⟩
      exact ⟨hij.symm, .inl ⟨hij, hfj, by rw [hij, hin.self]⟩⟩
    · exact absurd (hi.2.trans hfj.symm) (hnew i hi.1)
  · rw [hin.other hjk] at hfj
    have hij := hok.at_unique hi ⟨(hin.live_other hjk).mp hlj, hfj⟩
    exact ⟨hij.symm, .inr ⟨hij ▸ hjk, by rw [hij]; exact hin.other hjk⟩⟩

/-- The event reads from the connection `fd` or writes to it. -/
def SrvEvent.On (s : Server) (fd : Int) : SrvEvent → Prop
  | .read k _ _ _ | .write k _ _ => (s.clients k).fd = fd
  | _ => False

theorem octetsRead_away {s : Server} {fd : Int} {e : SrvEvent} (h : ¬ e.On s fd) :
    octetsRead s fd e = [] := by
  cases e with
  | read k now res env =>
      cases res with
      | failed fatal => rfl
      | got bs => exact if_neg h
  | _ => rfl

theorem octetsWritten_away {s : Server} {fd : Int} {e : SrvEvent} (h : ¬ e.On s fd) :
    octetsWritten s fd e = [] := by
  cases e with
  | write k now res => exact if_neg h
  | _ => rfl

/-- What becomes of the client in slot `i`, with the descriptor `fd`, in an event that
completes no message. -/
inductive QuietCase (s : Server) (fd : Int) (i : Nat) : SrvEvent → Client → Prop
  | away {e : SrvEvent} : ¬ e.On s fd → QuietCase s fd i e (s.clients i)
  | again {now : Int} {env : MsgEnv} :
      QuietCase s fd i (.read i now (.failed false) env) (opened s i now)
  | pending {now : Int} {bs : Bytes} {env : MsgEnv} {m : Mbuf} :
      m.received = (slotBuffer s i now).received ++ bs.take (slotBuffer s i now).room →
      QuietCase s fd i (.read i now (.got bs) env) { opened s i now with rbuf := some m }
  | blocked {now : Int} {m : Mbuf} {q : List Mbuf} : (s.clients i).q = m :: q →
      QuietCase s fd i (.write i now (.failed false)) { s.clients i with act := now }
  | sent {now : Int} {n : Nat} {m : Mbuf} {q : List Mbuf} :
      (s.clients i).q = m :: q → m.boff < m.bsize → min n m.room ≠ 0 →
      QuietCase s fd i (.write i now (.sent n)) { s.clients i with
        act := now
        q := if m.boff + min n m.room = m.bsize then q
          else { m with boff := m.boff + min n m.room } :: q }
  | swept {now : Int} : QuietCase s fd i (.upkeep now)
      (resyncClient s.cfg.msgTimeout (s.clients i) now)

/-- **A connection that lives on** without a message being completed. -/
theorem quiet_cases {s t : Server} {e : SrvEvent} {fd : Int} {i j : Nat} (hok : SlotsOk s)
    (hen : e.Enabled s) (h : srvStep s e = some t) (hinc : incoming s e = none)
    (hi : At s fd i) (hj : At t fd j) : QuietCase s fd i e (t.clients j) := by
  have hclosed : closedClient.fd < 0 := by decide
  -- The descriptor of another slot is another.
  have haway : ∀ {k}, s.Live k → i ≠ k → (s.clients k).fd ≠ fd :=
    fun hk hik hf => hik (hok.at_unique hi ⟨hk, hf⟩)
  cases srvStep_cases hok hen h with
  | refused =>
      obtain rfl := hok.at_unique hi hj
      exact .away id
  | connect hk hdead hfd hin =>
      obtain ⟨rfl, h | h⟩ := hin.follow hok hi hj (.inr (.inr (by
        rcases hen with hneg | ⟨-, -, hnew⟩
        · rw [hneg] at hfd
          exact absurd hfd (by decide)
        · exact hnew)))
      · exact absurd (h.1 ▸ hi.1) hdead
      · rw [h.2]
        exact .away id
  | readClose hl hout hin =>
      obtain ⟨rfl, h | h⟩ := hin.follow hok hi hj (.inl hclosed)
      · exact absurd (h.2.1 ▸ hi.2 ▸ hi.1.2) (by decide)
      · rw [h.2]
        exact .away (haway hl h.1)
  | readAgain hl hin =>
      obtain ⟨rfl, h | h⟩ := hin.follow hok hi hj (.inr (.inl ⟨hl, (opened_same s _ _).1⟩))
      · obtain ⟨rfl, -, hc⟩ := h
        rw [hc]
        exact .again
      · rw [h.2]
        exact .away (haway hl h.1)
  | readPending hl hout hmok hrec hin =>
      obtain ⟨rfl, h | h⟩ := hin.follow hok hi hj (.inr (.inl ⟨hl, (opened_same s _ _).1⟩))
      · obtain ⟨rfl, -, hc⟩ := h
        rw [hc]
        exact .pending hrec
      · rw [h.2]
        exact .away (haway hl h.1)
  | readComplete hl hout hwhole hb hin hmsg =>
      rw [incoming, hout] at hinc
      cases hinc
  | writeClose hl hq hout hin =>
      obtain ⟨rfl, h | h⟩ := hin.follow hok hi hj (.inl hclosed)
      · exact absurd (h.2.1 ▸ hi.2 ▸ hi.1.2) (by decide)
      · rw [h.2]
        exact .away (haway hl h.1)
  | writeAgain hl hq hin =>
      obtain ⟨rfl, h | h⟩ := hin.follow hok hi hj (.inr (.inl ⟨hl, rfl⟩))
      · obtain ⟨rfl, -, hc⟩ := h
        rw [hc]
        exact .blocked hq
      · rw [h.2]
        exact .away (haway hl h.1)
  | writeSent hl hq hlt hz hin =>
      obtain ⟨rfl, h | h⟩ := hin.follow hok hi hj (.inr (.inl ⟨hl, rfl⟩))
      · obtain ⟨rfl, -, hc⟩ := h
        rw [hc]
        exact .sent hq hlt hz
      · rw [h.2]
        exact .away (haway hl h.1)
  | @upkeep now =>
      obtain ⟨k, hk⟩ := upkeep_live hj.1
      obtain ⟨-, hlk, -, hmv⟩ := upkeep_moved hk
      have hfd := (resyncClient_same s.cfg.msgTimeout (s.clients k) now).1
      obtain rfl : k = i := hok.at_unique ⟨hlk, by rw [← hfd, ← hmv]; exact hj.2⟩ hi
      rw [hmv]
      exact .swept
  | motd hcfg hlfd hudb hcl =>
      have hlive : s.Live j := by
        have hlj := hj.1
        rwa [Server.Live, hcfg, hcl] at hlj
      obtain rfl := hok.at_unique hi ⟨hlive, by rw [← hcl]; exact hj.2⟩
      rw [hcl]
      exact .away id

/-- Without a gap the receive buffer of a read is the pending one. -/
theorem received_slotBuffer {s : Server} {i : Nat} {now : Int} (hok : SlotOk (s.clients i))
    (hgap : resyncClient s.cfg.msgTimeout (s.clients i) now = s.clients i) :
    (slotBuffer s i now).received = received (s.clients i).rbuf := by
  rw [slotBuffer, hgap]
  exact hok.rbuf.getD.2.symm

/-- What an event that completes no message does to a connection: the session
stays, what is written comes off the queue, and what is read is kept. -/
structure Quiet (s : Server) (e : SrvEvent) (t : Server) (fd : Int) (i j : Nat) : Prop where
  session : (t.clients j).session = (s.clients i).session
  written : octetsWritten s fd e ++ unsent (t.clients j).q = unsent (s.clients i).q
  read : NoGap s fd e →
    received (s.clients i).rbuf ++ octetsRead s fd e = received (t.clients j).rbuf

/-- The octets that are sent come off the first message. -/
theorem unsent_sent (m : Mbuf) (q : List Mbuf) (n : Nat) :
    peek m.b m.boff n ++ unsent (if m.boff + n = m.bsize then q
      else { m with boff := m.boff + n } :: q) = m.b.drop m.boff ++ unsent q := by
  have hcut : peek m.b m.boff n ++ m.b.drop (m.boff + n) = m.b.drop m.boff := by
    rw [peek, ← List.drop_drop]
    exact List.take_append_drop _ _
  rw [← hcut, List.append_assoc]
  congr 1
  split
  · rename_i hfull
    rw [List.drop_of_length_le (by rw [hfull]; exact Nat.le_refl _), List.nil_append]
  · rfl

/-- Nothing happens to the connection. -/
theorem Quiet.same {s t : Server} {e : SrvEvent} {fd : Int} {i j : Nat}
    (h : t.clients j = s.clients i) (hw : octetsWritten s fd e = [])
    (hr : octetsRead s fd e = []) : Quiet s e t fd i j :=
  ⟨by rw [h], by rw [h, hw, List.nil_append], fun _ => by rw [h, hr, List.append_nil]⟩

theorem quiet_step {s t : Server} {e : SrvEvent} {fd : Int} {i j : Nat} (hok : SlotsOk s)
    (hen : e.Enabled s) (h : srvStep s e = some t) (hinc : incoming s e = none)
    (hi : At s fd i) (hj : At t fd j) : Quiet s e t fd i j := by
  have hcase := quiet_cases hok hen h hinc hi hj
  generalize hc : t.clients j = c at hcase
  cases hcase with
  | away hoff => exact .same hc (octetsWritten_away hoff) (octetsRead_away hoff)
  | @again now env =>
      obtain ⟨-, hsess, hq⟩ := opened_same s i now
      refine ⟨hc ▸ hsess, by rw [hc, hq]; rfl, fun hgap => ?_⟩
      have hnone : octetsRead s fd (.read i now (.failed false) env) = [] := rfl
      rw [hc, hnone, List.append_nil]
      exact (received_slotBuffer (hok.slot i hi.1) (hgap hi.2)).symm
  | @pending now bs env m hrec =>
      obtain ⟨-, hsess, hq⟩ := opened_same s i now
      refine ⟨hc ▸ hsess, by rw [hc]; exact congrArg unsent hq, fun hgap => ?_⟩
      rw [hc, octetsRead, if_pos hi.2, ← received_slotBuffer (hok.slot i hi.1) (hgap hi.2)]
      exact hrec.symm
  | blocked hq =>
      refine ⟨by rw [hc]; rfl, ?_, fun _ => by rw [hc]; exact List.append_nil _⟩
      rw [hc, octetsWritten, if_pos hi.2, hq]
      rfl
  | @sent now n m q hq hlt hz =>
      refine ⟨by rw [hc]; rfl, ?_, fun _ => by rw [hc]; exact List.append_nil _⟩
      rw [hc, octetsWritten, if_pos hi.2, hq]
      exact unsent_sent m q _
  | @swept now =>
      obtain ⟨-, hsess, hq, -⟩ := resyncClient_same s.cfg.msgTimeout (s.clients i) now
      refine ⟨by rw [hc, hsess], by rw [hc, hq]; rfl, fun hgap => ?_⟩
      rw [hc, hgap i hi]
      exact List.append_nil _

/-! ## A message on its way -/

theorem acctEvent_of_incoming {s : Server} {i k : Nat} {now : Int} {res : ReadRes} {env : MsgEnv}
    {m : Mbuf} (h : incoming s (.read i now res env) = some (k, m)) :
    acctEvent s (.read i now res env) = msgEvent env (s.clients i) i m := by
  rw [incoming] at h
  rw [acctEvent]
  split at h
  · rename_i m' hout
    cases h
    rw [hout]
  · cases h

/-- A message is complete: which slot it came from, and what it did. -/
theorem message_step {s t : Server} {e : SrvEvent} {k : Nat} {m : Mbuf} (hok : SlotsOk s)
    (hen : e.Enabled s) (h : srvStep s e = some t) (hinc : incoming s e = some (k, m)) :
    ∃ now bs env u reply, e = .read k now (.got bs) env ∧ s.Live k ∧ Whole m.b ∧
      m.b = (slotBuffer s k now).received ++ bs.take (slotBuffer s k now).room ∧
      InPlace s k (opened s k now) u ∧ MsgStep u k (fillSrcid (s.clients k) m) reply t := by
  cases srvStep_cases hok hen h with
  | @readComplete i now bs env m' u _ hl hout hwhole hb hin hmsg =>
      rw [incoming, hout] at hinc
      cases hinc
      obtain ⟨reply, hmsg⟩ := processMsg_slots hwhole.hdr hmsg
      rw [fillSrcid_congr (hin.opened_other k).2.2.1] at hmsg
      exact ⟨now, bs, env, u, reply, rfl, hl, hwhole, hb, hin, hmsg⟩
  | readClose hl hout hin =>
      rw [incoming, hout] at hinc
      cases hinc
  | @readAgain i now env _ hl hin =>
      have hout : readOutcome (slotBuffer s i now) (.failed false) = .again := by
        rw [readOutcome, if_pos ((hok.slot i hl).slotBuffer now).lt]
      rw [incoming, hout] at hinc
      cases hinc
  | readPending hl hout hmok hrec hin =>
      rw [incoming, hout] at hinc
      cases hinc
  | refused => cases hinc
  | connect => cases hinc
  | writeClose => cases hinc
  | writeAgain => cases hinc
  | writeSent => cases hinc
  | upkeep => cases hinc
  | motd => cases hinc

/-- What the message `m` of slot `k` does to a connection in slot `i`: the copy
forwarded to it and, for the sender, the reply go to the end of its queue. -/
structure Heard (s : Server) (e : SrvEvent) (t : Server) (k : Nat) (m : Mbuf) (reply : List Mbuf)
    (fd : Int) (i : Nat) : Prop where
  written : octetsWritten s fd e = []
  queue : (t.clients i).q =
    (s.clients i).q ++ (forwarded s k (fillSrcid (s.clients k) m) i ++ if i = k then reply else [])
  read : NoGap s fd e → received (s.clients i).rbuf ++ octetsRead s fd e =
    (if i = k then m.b else []) ++ received (t.clients i).rbuf

theorem message_follow (env : MsgEnv) {s t u : Server} {fd now : Int} {bs : Bytes} {i j k : Nat}
    {m : Mbuf} {reply : List Mbuf} (hok : SlotsOk s) (hl : s.Live k)
    (hb : m.b = (slotBuffer s k now).received ++ bs.take (slotBuffer s k now).room)
    (hin : InPlace s k (opened s k now) u)
    (hmsg : MsgStep u k (fillSrcid (s.clients k) m) reply t) (hi : At s fd i) (hj : At t fd j) :
    j = i ∧ Heard s (.read k now (.got bs) env) t k m reply fd i := by
  have hroute : ∀ x, forwarded u k x i = forwarded s k x i := by
    intro x
    rw [forwarded, forwarded, route_congr hin.cfg fun j =>
      ⟨(hin.opened_other j).2.1, (hin.opened_other j).2.2.1⟩]
  obtain ⟨hlj, hfj⟩ := hmsg.live hj.1
  have hij : i = j := by
    refine hok.at_unique hi ⟨(hin.opened_other j).1.mp hlj, ?_⟩
    rw [← (hin.opened_other j).2.1, ← hfj]
    exact hj.2
  subst hij
  refine ⟨rfl, rfl, ?_, ?_⟩
  · by_cases hik : i = k
    · subst hik
      rw [hmsg.self_q, (hin.opened_other i).2.2.2, hroute, if_pos rfl]
    · rw [if_neg hik, List.append_nil]
      rcases hmsg.others i hik with ⟨-, hc⟩ | hc
      · have hneg := hj.1.2
        rw [hc] at hneg
        exact absurd hneg (by decide)
      · rw [hc, hin.other hik, hroute]
  · intro hgap
    by_cases hik : i = k
    · subst hik
      rw [octetsRead, if_pos hi.2, if_pos rfl, hmsg.self_rbuf, hb,
        received_slotBuffer (hok.slot i hl) (hgap hi.2)]
      exact (List.append_nil _).symm
    · have hfd : (s.clients k).fd ≠ fd := fun hf => hik (hok.at_unique hi ⟨hl, hf⟩)
      rw [octetsRead, if_neg hfd, if_neg hik, List.append_nil, List.nil_append]
      rcases hmsg.others i hik with ⟨-, hc⟩ | hc
      · have hneg := hj.1.2
        rw [hc] at hneg
        exact absurd hneg (by decide)
      · rw [hc, hin.other hik]

/-! ## From one client to another -/

/-- The connection `fd` is in slot `i` and authenticated. -/
def Present (s : Server) (fd : Int) (i : Nat) : Prop := At s fd i ∧ (s.clients i).st = .authOk

/-- The octets are a message that is forwarded to the client with the id. -/
def isTo (id : UInt64) (b : Bytes) : Bool :=
  isForwardable { b := b, boff := 0 } && hdrGetDstid { b := b, boff := 0 } == id

/-- The octets are a message from the client with the id. -/
def isFrom (id : UInt64) (b : Bytes) : Bool := hdrGetSrcid { b := b, boff := 0 } == id

/-- The message with its source id filled in. -/
def withSrcid (id : UInt64) (b : Bytes) : Bytes := (hdrSetSrcid { b := b, boff := 0 } id).b

/-- An authenticated client is found under its id, and that id is one a message
can be sent to. -/
theorem Present.findDst {s : Server} {fd : Int} {i : Nat} (hids : IdsOk s.acct)
    (h : Present s fd i) : findDst s (s.clients i).id = some i ∧ (s.clients i).id ≠ 0 ∧
      (s.clients i).id ≠ 0xffffffffffffffff := by
  obtain ⟨hne, hlt⟩ := hids.range i _ (acct_sess_of_live h.1.1) (.inr h.2)
  refine ⟨hids.findDst h.1.1 h.2, hne, ?_⟩
  · intro hones
    have hid : (s.clients i).session.id = (s.clients i).id := rfl
    rw [UInt64.lt_iff_toNat_lt, hid, hones] at hlt
    have hmax := s.acct.udb.nextId.toNat_lt
    have hval : (0xffffffffffffffff : UInt64).toNat = 2 ^ 64 - 1 := by decide
    omega

/-- From `rx` to `rx'` the messages from one client have been taken in, and those
for the other client have been added to `tx`, in order and under the sender's id. -/
def Carries (idA idB : UInt64) (rx rx' tx tx' : Bytes) : Prop :=
  ∃ new ms : List Bytes, (∀ x ∈ new, Whole x) ∧ (∀ x ∈ ms, Whole x) ∧
    rx = new.flatten ++ rx' ∧ tx' = tx ++ ms.flatten ∧
    ms.filter (fun x => isTo idB x && isFrom idA x) = (new.filter (isTo idB)).map (withSrcid idA)

theorem Carries.refl (idA idB : UInt64) (rx tx : Bytes) : Carries idA idB rx rx tx tx :=
  ⟨[], [], by simp, by simp, rfl, by simp, rfl⟩

theorem Carries.trans {idA idB : UInt64} {rx rx' rx'' more tx tx' tx'' : Bytes}
    (h : Carries idA idB rx rx' tx tx') (h' : Carries idA idB (rx' ++ more) rx'' tx' tx'') :
    Carries idA idB (rx ++ more) rx'' tx tx'' := by
  obtain ⟨new, ms, hnew, hms, rfl, rfl, hf⟩ := h
  obtain ⟨new', ms', hnew', hms', hrx, rfl, hf'⟩ := h'
  refine ⟨new ++ new', ms ++ ms', ?_, ?_, ?_, ?_, ?_⟩
  · exact fun x hx => (List.mem_append.mp hx).elim (hnew x) (hnew' x)
  · exact fun x hx => (List.mem_append.mp hx).elim (hms x) (hms' x)
  · rw [List.append_assoc, hrx, List.flatten_append, List.append_assoc]
  · rw [List.flatten_append, List.append_assoc]
  · rw [List.filter_append, List.filter_append, List.map_append, hf, hf']

/-- What was written before stays in front. -/
theorem Carries.prepend {idA idB : UInt64} {rx rx' tx tx' : Bytes}
    (h : Carries idA idB rx rx' tx tx') (out : Bytes) :
    Carries idA idB rx rx' (out ++ tx) (out ++ tx') := by
  obtain ⟨new, ms, hnew, hms, hrx, rfl, hf⟩ := h
  exact ⟨new, ms, hnew, hms, hrx, (List.append_assoc _ _ _).symm, hf⟩

/-- The source id does not decide for whom a message is. -/
theorem isTo_fillSrcid {id : UInt64} {c : Client} {m : Mbuf} (hm : 40 ≤ m.bsize) :
    isTo id (fillSrcid c m).b = isTo id m.b := by
  have htype : isForwardable (fillSrcid c m) = isForwardable m := by
    unfold isForwardable
    rw [hdrGetType_fillSrcid hm]
  show (isForwardable (fillSrcid c m) && hdrGetDstid (fillSrcid c m) == id) = _
  rw [htype, hdrGetDstid_fillSrcid hm]
  rfl

/-- No reply to `b` looks like a message from `a`. -/
private theorem reply_unheard {s u t : Server} {a b : Nat} {fdA fdB : Int} {now : Int} {m : Mbuf}
    {reply : List Mbuf} (hids : IdsOk s.acct) (hin : InPlace s b (opened s b now) u)
    (hmsg : MsgStep u b (fillSrcid (s.clients b) m) reply t) (ha : Present s fdA a)
    (hb : Present s fdB b) : (reply.map Mbuf.b).filter
      (fun x => isTo (s.clients b).id x && isFrom (s.clients a).id x) = [] := by
  obtain ⟨hfa, ha0, ha1⟩ := ha.findDst hids
  have hview : ∀ j, (u.clients j).fd = (s.clients j).fd ∧
      (u.clients j).session = (s.clients j).session :=
    fun j => ⟨(hin.opened_other j).2.1, (hin.opened_other j).2.2.1⟩
  rw [List.filter_eq_nil_iff]
  intro x hx
  obtain ⟨r, hr, rfl⟩ := List.mem_map.mp hx
  obtain ⟨-, his, himp⟩ := hmsg.reply_ok r hr
  simp only [isTo, isFrom, Bool.and_eq_true, beq_iff_eq, not_and, and_imp]
  intro hfw _ hsrc
  have hdst : hdrGetDstid (fillSrcid (s.clients b) m) = (s.clients a).id :=
    his.srcid.symm.trans hsrc
  have hst : (u.clients b).st = .authOk := (congrArg Session.st (hview b).2).trans hb.2
  rcases himp hst with h | h | h | h
  · exact ha0 (hdst.symm.trans h)
  · exact ha1 (hdst.symm.trans h)
  · rw [hdst, findDst_congr hin.cfg hview, hfa] at h
    cases h
  · rw [show isForwardable r = true from hfw] at h
    cases h

/-- What `a` sends is forwarded to `b` exactly if it is for `b`. -/
theorem Present.route_iff {s : Server} {a b : Nat} {fdA fdB : Int} {m : Mbuf}
    (hids : IdsOk s.acct) (hm : 40 ≤ m.bsize) (ha : Present s fdA a) (hb : Present s fdB b) :
    route s a (fillSrcid (s.clients a) m) = some b ↔ isTo (s.clients b).id m.b = true := by
  obtain ⟨hfb, hb0, hb1⟩ := hb.findDst hids
  rw [← isTo_fillSrcid (c := s.clients a) hm]
  simp only [isTo, Bool.and_eq_true, beq_iff_eq]
  constructor
  · exact fun hr => ⟨(route_forwards hr).type, (route_forwards hr).dstid⟩
  · rintro ⟨htype, hdst⟩
    have hdst : hdrGetDstid (fillSrcid (s.clients a) m) = (s.clients b).id := hdst
    rw [route, if_pos ⟨ha.2, by rw [hdst]; exact hb0, by rw [hdst]; exact hb1, htype⟩, hdst]
    exact hfb

/-- The part of the queue of `b` that the message `m` of slot `k` accounts for. -/
private theorem filter_heard {s u t : Server} {k a b : Nat} {fdA fdB : Int} {now : Int} {m : Mbuf}
    {reply : List Mbuf} (hids : IdsOk s.acct) (hl : s.Live k)
    (hwhole : Whole m.b) (hin : InPlace s k (opened s k now) u)
    (hmsg : MsgStep u k (fillSrcid (s.clients k) m) reply t)
    (ha : Present s fdA a) (hb : Present s fdB b) (hne : fdA ≠ fdB) :
    (((forwarded s k (fillSrcid (s.clients k) m) b ++ if b = k then reply else []).map
      Mbuf.b).filter fun x => isTo (s.clients b).id x && isFrom (s.clients a).id x) =
    ((if a = k then [m.b] else []).filter (isTo (s.clients b).id)).map
      (withSrcid (s.clients a).id) := by
  have hab : a ≠ b := by
    rintro rfl
    exact hne (ha.1.2.symm.trans hb.1.2)
  have hm : 40 ≤ m.bsize := hwhole.hdr
  -- No answer of the server passes for a message of `a`.
  have hreply : ((if b = k then reply else []).map Mbuf.b).filter
      (fun x => isTo (s.clients b).id x && isFrom (s.clients a).id x) = [] := by
    split
    · rename_i hbk
      subst hbk
      exact reply_unheard hids hin hmsg ha hb
    · rfl
  rw [List.map_append, List.filter_append, hreply, List.append_nil]
  by_cases hak : a = k
  · subst hak
    have hroute := ha.route_iff hids hm hb
    rw [forwarded, if_pos rfl]
    by_cases hto : isTo (s.clients b).id m.b = true
    · have hfrom : isFrom (s.clients a).id (fillSrcid (s.clients a) m).b = true :=
        beq_iff_eq.mpr (hdrGetSrcid_fillSrcid hm ha.2)
      have hto' := (isTo_fillSrcid (c := s.clients a) hm).trans hto
      rw [if_pos (hroute.mpr hto)]
      simp only [List.map_cons, List.map_nil, List.filter_cons, hto, hfrom, hto', if_true,
        Bool.and_self, List.filter_nil]
      rw [fillSrcid_of_authOk ha.2]
      rfl
    · rw [if_neg fun hr => hto (hroute.mp hr)]
      simp [hto]
  · rw [if_neg hak, forwarded]
    split
    · -- The message is for `b`, but `a` is not its sender.
      rename_i hr
      have hfw := route_forwards hr
      have hfrom : isFrom (s.clients a).id (fillSrcid (s.clients k) m).b = false := by
        refine beq_eq_false_iff_ne.mpr ?_
        intro hid
        have hkid : (s.clients a).id = (s.clients k).id :=
          hid.symm.trans (hdrGetSrcid_fillSrcid hm hfw.sender)
        exact hak (hids.unique a k _ _ (acct_sess_of_live ha.1.1) (acct_sess_of_live hl) ha.2
          hfw.sender hkid)
      simp [hfrom]
    · rfl

/-- **One step of the relay.** -/
theorem relay_step {s t : Server} {e : SrvEvent} {fdA fdB : Int} {a b a' b' : Nat}
    (hok : SlotsOk s) (hids : IdsOk s.acct) (hen : e.Enabled s) (h : srvStep s e = some t)
    (hgap : NoGap s fdA e) (hne : fdA ≠ fdB) (ha : Present s fdA a) (hb : Present s fdB b)
    (ha' : Present t fdA a') (hb' : Present t fdB b') :
    (t.clients a').id = (s.clients a).id ∧ (t.clients b').id = (s.clients b).id ∧
    Carries (s.clients a).id (s.clients b).id
      (received (s.clients a).rbuf ++ octetsRead s fdA e) (received (t.clients a').rbuf)
      (unsent (s.clients b).q) (octetsWritten s fdB e ++ unsent (t.clients b').q) := by
  cases hinc : incoming s e with
  | none =>
      -- No message completes, and both slots stay as they are but for octets in and out.
      have hqa := quiet_step hok hen h hinc ha.1 ha'.1
      have hqb := quiet_step hok hen h hinc hb.1 hb'.1
      refine ⟨congrArg Session.id hqa.session, congrArg Session.id hqb.session, ?_⟩
      rw [hqa.read hgap, hqb.written]
      exact .refl _ _ _ _
  | some p =>
      obtain ⟨k, m⟩ := p
      have hacct := srvStep_acct hok hen h
      obtain ⟨now, bs, env, u, reply, rfl, hl, hwhole, hbytes, hin, hmsg⟩ :=
        message_step hok hen h hinc
      obtain ⟨rfl, hha⟩ := message_follow env hok hl hbytes hin hmsg ha.1 ha'.1
      obtain ⟨rfl, hhb⟩ := message_follow env hok hl hbytes hin hmsg hb.1 hb'.1
      -- A message does not move the slots.
      have hremap : ∀ f, acctEvent s (.read k now (.got bs) env) ≠ .remap f := by
        intro f hf
        rw [acctEvent_of_incoming hinc] at hf
        exact msgEvent_ne_remap _ _ _ _ _ hf
      have hidA := hacct.id_of_authOk hremap (acct_sess_of_live ha.1.1)
        (acct_sess_of_live ha'.1.1) ha.2 ha'.2
      have hidB := hacct.id_of_authOk hremap (acct_sess_of_live hb.1.1)
        (acct_sess_of_live hb'.1.1) hb.2 hb'.2
      refine ⟨hidA, hidB, if a' = k then [m.b] else [],
        (forwarded s k (fillSrcid (s.clients k) m) b' ++ if b' = k then reply else []).map Mbuf.b,
        ?_, ?_, ?_, ?_, filter_heard hids hl hwhole hin hmsg ha hb hne⟩
      · intro x hx
        split at hx
        · rw [List.mem_singleton.mp hx]
          exact hwhole
        · cases hx
      · intro x hx
        obtain ⟨y, hy, rfl⟩ := List.mem_map.mp hx
        rcases List.mem_append.mp hy with hy | hy
        · exact (whole_forwarded (whole_fillSrcid hwhole) y hy).1
        · split at hy
          · exact (hmsg.reply_ok y hy).2.1.whole
          · cases hy
      · rw [hha.read hgap]
        split <;> simp
      · rw [hhb.written, hhb.queue, unsent_append, List.nil_append]
        congr 1
        refine unsent_whole ?_
        intro y hy
        rcases List.mem_append.mp hy with hy | hy
        · exact (whole_forwarded (whole_fillSrcid hwhole) y hy).2
        · split at hy
          · exact (hmsg.reply_ok y hy).1
          · cases hy

/-! ## Runs of the relay -/

/-- The connection `fd` is there. -/
def Connected (s : Server) (fd : Int) : Prop := ∃ i, At s fd i

/-- The server, with the octets written to the connection `fd` since it was
accepted, as long as it stays connected. -/
def writtenLts (fd : Int) : Lts (Server × Bytes) SrvEvent where
  init p := p.2 = [] ∧ Connected p.1 fd ∧
    ∃ s nonblocking now, countingLts.Reachable s ∧
      countingLts.step s (.accept fd nonblocking now) p.1
  step p e q := countingLts.step p.1 e q.1 ∧ Connected q.1 fd ∧
    q.2 = p.2 ++ octetsWritten p.1 fd e

/-- The state of a relay: the server, the octets read from one client since both
were authenticated, and the octets written to the other since it was accepted. -/
structure Relay where
  srv : Server
  inp : Bytes
  out : Bytes

/-- The relay between two clients that stay connected and authenticated, without
a receive gap of the sending one that is too long. -/
def relayLts (fdA fdB : Int) : Lts Relay SrvEvent where
  init p := p.inp = [] ∧ (writtenLts fdB).Reachable (p.srv, p.out) ∧
    (∃ a, Present p.srv fdA a) ∧ ∃ b, Present p.srv fdB b
  step p e q := countingLts.step p.srv e q.srv ∧ NoGap p.srv fdA e ∧
    (∃ a, Present q.srv fdA a) ∧ (∃ b, Present q.srv fdB b) ∧
    q.inp = p.inp ++ octetsRead p.srv fdA e ∧ q.out = p.out ++ octetsWritten p.srv fdB e

/-- A connection that was just accepted is before its login, with nothing to send and nothing
pending. -/
theorem accepted_fresh {s t : Server} {fd now : Int} {nonblocking : Bool} {i : Nat}
    (hok : SlotsOk s) (hen : SrvEvent.Enabled s (.accept fd nonblocking now))
    (h : srvStep s (.accept fd nonblocking now) = some t) (hi : At t fd i) :
    (t.clients i).st = .preLogin ∧ (t.clients i).q = [] ∧ (t.clients i).rbuf = none := by
  -- The descriptor is new, so the connection is the one accepted.
  have hold : ∀ j, ¬ At s fd j := by
    intro j hj
    rcases hen with hneg | ⟨-, -, hnew⟩
    · have := hj.1.2
      rw [hj.2, hneg] at this
      exact absurd this (by decide)
    · exact hnew j hj.1 hj.2
  cases srvStep_cases hok hen h with
  | refused => exact absurd hi (hold i)
  | @connect k _ _ _ hk hdead hfd hin =>
      by_cases hik : i = k
      · rw [hik, hin.self]
        exact ⟨rfl, rfl, rfl⟩
      · refine absurd ⟨(hin.live_other hik).mp hi.1, ?_⟩ (hold i)
        rw [← hin.other hik]
        exact hi.2

/-- **Whole messages.** What was written to a connection and what is left in its
queue are together complete messages. -/
theorem written_whole {fd : Int} {p : Server × Bytes} (hp : (writtenLts fd).Reachable p) :
    countingLts.Reachable p.1 ∧ ∀ i, At p.1 fd i →
      ∃ ms : List Bytes, (∀ x ∈ ms, Whole x) ∧ p.2 ++ unsent (p.1.clients i).q = ms.flatten := by
  have hind : (writtenLts fd).Inductive fun p => countingLts.Reachable p.1 ∧ Connected p.1 fd ∧
      ∀ i, At p.1 fd i →
        ∃ ms : List Bytes, (∀ x ∈ ms, Whole x) ∧ p.2 ++ unsent (p.1.clients i).q = ms.flatten := by
    constructor
    · rintro ⟨s, out⟩ ⟨rfl, hconn, s₀, nonblocking, now, hs₀, hstep⟩
      refine ⟨hs₀.step hstep, hconn, ?_⟩
      intro i hi
      obtain ⟨hok, -⟩ := idsOk_inductive.invariant s₀ hs₀
      have hq := (accepted_fresh hok hstep.1.1 hstep.1.2.2 hi).2.1
      exact ⟨[], by simp, by rw [hq]; rfl⟩
    · rintro ⟨s, out⟩ e ⟨t, out'⟩ ⟨hs, ⟨i, hi⟩, hms⟩ ⟨hstep, hconn, rfl⟩
      refine ⟨hs.step hstep, hconn, ?_⟩
      intro j hj
      obtain ⟨hok, -⟩ := idsOk_inductive.invariant s hs
      -- So far whole messages; the step may add some at the end.
      obtain ⟨ms, hwhole, heq⟩ := hms i hi
      simp only at heq ⊢
      rw [List.append_assoc]
      cases hinc : incoming s e with
      | none =>
          rw [(quiet_step hok hstep.1.1 hstep.1.2.2 hinc hi hj).written]
          exact ⟨ms, hwhole, heq⟩
      | some p =>
          obtain ⟨k, m⟩ := p
          obtain ⟨now, bs, env, u, reply, rfl, hl, hm, hbytes, hin, hmsg⟩ :=
            message_step hok hstep.1.1 hstep.1.2.2 hinc
          obtain ⟨rfl, hheard⟩ := message_follow env hok hl hbytes hin hmsg hi hj
          have hadd : ∀ x ∈ forwarded s k (fillSrcid (s.clients k) m) j ++
              (if j = k then reply else []), Whole x.b ∧ x.boff = 0 := by
            intro x hx
            rcases List.mem_append.mp hx with hx | hx
            · exact whole_forwarded (whole_fillSrcid hm) x hx
            · split at hx
              · exact ⟨(hmsg.reply_ok x hx).2.1.whole, (hmsg.reply_ok x hx).1⟩
              · cases hx
          refine ⟨ms ++ (forwarded s k (fillSrcid (s.clients k) m) j ++
            if j = k then reply else []).map Mbuf.b, ?_, ?_⟩
          · intro x hx
            rcases List.mem_append.mp hx with hx | hx
            · exact hwhole x hx
            · obtain ⟨y, hy, rfl⟩ := List.mem_map.mp hx
              exact (hadd y hy).1
          · rw [hheard.written, hheard.queue, unsent_append, List.nil_append, ← List.append_assoc,
              heq, List.flatten_append, unsent_whole fun x hx => (hadd x hx).2]
  obtain ⟨hs, -, h⟩ := hind.invariant p hp
  exact ⟨hs, h⟩

/-- The relay over a whole run. -/
theorem relay_run {fdA fdB : Int} {p q : Relay} {es : List SrvEvent} (hne : fdA ≠ fdB)
    (hrun : (relayLts fdA fdB).Run p es q) (hp : countingLts.Reachable p.srv) {a b a' b' : Nat}
    (ha : Present p.srv fdA a) (hb : Present p.srv fdB b) (ha' : Present q.srv fdA a')
    (hb' : Present q.srv fdB b') :
    ∃ inp, q.inp = p.inp ++ inp ∧
      Carries (p.srv.clients a).id (p.srv.clients b).id
        (received (p.srv.clients a).rbuf ++ inp) (received (q.srv.clients a').rbuf)
        (p.out ++ unsent (p.srv.clients b).q) (q.out ++ unsent (q.srv.clients b').q) := by
  induction hrun generalizing a b with
  | nil p =>
      obtain ⟨hok, -⟩ := idsOk_inductive.invariant _ hp
      rw [hok.at_unique ha.1 ha'.1, hok.at_unique hb.1 hb'.1]
      exact ⟨[], (List.append_nil _).symm, by rw [List.append_nil]; exact .refl _ _ _ _⟩
  | @cons p r q e es hstep _ ih =>
      obtain ⟨hcount, hgap, ⟨a₁, ha₁⟩, ⟨b₁, hb₁⟩, hinp, hout⟩ := hstep
      obtain ⟨hok, hids⟩ := idsOk_inductive.invariant _ hp
      obtain ⟨hida, hidb, hcar⟩ := relay_step hok hids hcount.1.1 hcount.1.2.2 hgap hne ha hb
        ha₁ hb₁
      obtain ⟨inp, hq, hrest⟩ := ih (hp.step hcount) ha₁ hb₁ ha' hb'
      refine ⟨octetsRead p.srv fdA e ++ inp, by rw [hq, hinp, List.append_assoc], ?_⟩
      have hcar' := hcar.prepend p.out
      rw [← List.append_assoc p.out, ← hout] at hcar'
      rw [hida, hidb] at hrest
      rw [← List.append_assoc]
      exact hcar'.trans hrest

/-- **Reliable ordered relay.** In the octets written to `B` and those left in
its queue, the messages from `A` added since both were authenticated are those
the server has completely received from `A` for `B`, once each, in order, and
under the id of `A`; and what was written is the beginning of a sequence of
complete messages. -/
theorem relay_reliable {fdA fdB : Int} {p q : Relay} {es : List SrvEvent} (hne : fdA ≠ fdB)
    (hp : (relayLts fdA fdB).init p) (hrun : (relayLts fdA fdB).Run p es q) {a b b' : Nat}
    (ha : Present p.srv fdA a) (hb : Present p.srv fdB b) (hb' : Present q.srv fdB b') :
    ∃ ms, msgFormat.frames (q.out ++ unsent (q.srv.clients b').q) =
        msgFormat.frames (p.out ++ unsent (p.srv.clients b).q) ++ ms ∧
      msgFormat.rest (q.out ++ unsent (q.srv.clients b').q) = [] ∧
      ms.filter (fun x => isTo (p.srv.clients b).id x && isFrom (p.srv.clients a).id x) =
        ((msgFormat.frames (received (p.srv.clients a).rbuf ++ q.inp)).filter
          (isTo (p.srv.clients b).id)).map (withSrcid (p.srv.clients a).id) ∧
      q.out <+: (msgFormat.frames (q.out ++ unsent (q.srv.clients b').q)).flatten := by
  obtain ⟨hnil, hwritten, -, -⟩ := hp
  obtain ⟨hreach, hwhole⟩ := written_whole hwritten
  obtain ⟨ms₀, hms₀, heq⟩ := hwhole b hb.1
  have hkeep : countingLts.Reachable q.srv ∧ ∃ a', Present q.srv fdA a' := by
    refine hrun.preserves (P := fun q => countingLts.Reachable q.srv ∧ ∃ a', Present q.srv fdA a')
      ?_ ⟨hreach, a, ha⟩
    rintro p e q ⟨hreach, -⟩ ⟨hcount, -, ha, -⟩
    exact ⟨hreach.step hcount, ha⟩
  obtain ⟨hreach', a', ha'⟩ := hkeep
  obtain ⟨inp, hinp, new, ms, hnew, hms, hrx, htx, hf⟩ := relay_run hne hrun hreach ha hb ha' hb'
  rw [hnil, List.nil_append] at hinp
  subst hinp
  have hsized : ∀ {l : List Bytes}, (∀ x ∈ l, Whole x) →
      ∀ x ∈ l, msgFormat.hdr ≤ x.length ∧ x.length = msgFormat.size x :=
    fun h x hx => ⟨(h x hx).hdr, (h x hx).size⟩
  have hbefore := msgFormat.frames_flatten (hsized hms₀) []
  have hall : ∀ x ∈ ms₀ ++ ms, Whole x := fun x hx => (List.mem_append.mp hx).elim (hms₀ x) (hms x)
  have hafter := msgFormat.frames_flatten (hsized hall) []
  have htx' : q.out ++ unsent (q.srv.clients b').q = (ms₀ ++ ms).flatten := by
    rw [htx, heq, List.flatten_append]
  rw [List.append_nil, FrameFormat.frames_nil, List.append_nil] at hbefore hafter
  -- What is pending from `A` holds no complete message.
  have hpend := ((idsOk_inductive.invariant _ hreach').1.slot a' ha'.1.1).rbuf.frames_received
  have hin := (msgFormat.frames_flatten (hsized hnew) (received (q.srv.clients a').rbuf)).1
  rw [hpend, List.append_nil] at hin
  refine ⟨ms, ?_, ?_, ?_, ?_⟩
  · rw [htx', heq, hafter.1, hbefore.1]
  · rw [htx', hafter.2, FrameFormat.rest_nil]
  · rw [hf, hrx, hin]
  · rw [htx', hafter.1, ← htx']
    exact List.prefix_append _ _

/-! ## A relay at work -/

instance (s : Server) (fd : Int) (i : Nat) : Decidable (At s fd i) :=
  inferInstanceAs (Decidable (_ ∧ _))

instance (s : Server) (fd : Int) (i : Nat) : Decidable (Present s fd i) :=
  inferInstanceAs (Decidable (_ ∧ _))

instance (s : Server) (fd : Int) : Decidable (Connected s fd) :=
  decidable_of_iff (∃ i ∈ s.slots, At s fd i)
    ⟨fun ⟨i, _, h⟩ => ⟨i, h⟩, fun ⟨i, h⟩ => ⟨i, Server.mem_slots.mpr h.1.1, h⟩⟩

instance (s : Server) (fd : Int) (e : SrvEvent) : Decidable (NoGap s fd e) :=
  match e with
  | .accept .. => inferInstanceAs (Decidable True)
  | .read i now _ _ => inferInstanceAs (Decidable ((s.clients i).fd = fd →
      resyncClient s.cfg.msgTimeout (s.clients i) now = s.clients i))
  | .write .. => inferInstanceAs (Decidable True)
  | .upkeep now => decidable_of_iff (∀ i ∈ s.slots, At s fd i →
      resyncClient s.cfg.msgTimeout (s.clients i) now = s.clients i)
      ⟨fun h i hi => h i (Server.mem_slots.mpr hi.1.1) hi, fun h i _ hi => h i hi⟩
  | .motd _ => inferInstanceAs (Decidable True)

/-- The step of `writtenLts` as a function. -/
def writtenTry (fd : Int) (p : Server × Bytes) (e : SrvEvent) : Option (Server × Bytes) :=
  (countingTry p.1 e).bind fun t =>
    if Connected t fd then some (t, p.2 ++ octetsWritten p.1 fd e) else none

theorem writtenTry_step {fd : Int} {p q : Server × Bytes} {e : SrvEvent}
    (h : writtenTry fd p e = some q) : (writtenLts fd).step p e q := by
  obtain ⟨t, ht, h⟩ := Option.bind_eq_some_iff.mp h
  split at h
  · rename_i hconn
    cases h
    exact ⟨countingTry_step ht, hconn, rfl⟩
  · cases h

/-- The step of `relayLts` as a function, for clients in the first two slots. -/
def relayTry (fdA fdB : Int) (p : Relay) (e : SrvEvent) : Option Relay :=
  (countingTry p.srv e).bind fun t =>
    if NoGap p.srv fdA e ∧ Present t fdA 0 ∧ Present t fdB 1 then
      some ⟨t, p.inp ++ octetsRead p.srv fdA e, p.out ++ octetsWritten p.srv fdB e⟩
    else none

theorem relayTry_step {fdA fdB : Int} {p q : Relay} {e : SrvEvent}
    (h : relayTry fdA fdB p e = some q) : (relayLts fdA fdB).step p e q := by
  obtain ⟨t, ht, h⟩ := Option.bind_eq_some_iff.mp h
  split at h
  · rename_i hc
    cases h
    exact ⟨countingTry_step ht, hc.1, ⟨0, hc.2.1⟩, ⟨1, hc.2.2⟩, rfl, rfl⟩
  · cases h

/-- It arrives in two pieces, and some of the queue is written. -/
def pingRun : List SrvEvent :=
  let env : MsgEnv := { beyond := [], ntime := 0, db1 := .good, db2 := .good }
  [.read 0 1 (.got (pingOctets.take 20)) env, .read 0 1 (.got (pingOctets.drop 20)) env,
    .write 1 1 (.sent 70)]

theorem relay_reliable_ping :
    ∃ (p q : Relay) (ms : List Bytes),
      (msgFormat.frames (q.out ++ unsent (q.srv.clients 1).q) =
        msgFormat.frames (p.out ++ unsent (p.srv.clients 1).q) ++ ms ∧
      msgFormat.rest (q.out ++ unsent (q.srv.clients 1).q) = [] ∧
      ms.filter (fun x => isTo (p.srv.clients 1).id x && isFrom (p.srv.clients 0).id x) =
        ((msgFormat.frames (received (p.srv.clients 0).rbuf ++ q.inp)).filter
          (isTo (p.srv.clients 1).id)).map (withSrcid (p.srv.clients 0).id) ∧
      q.out <+: (msgFormat.frames (q.out ++ unsent (q.srv.clients 1).q)).flatten) ∧
      q.inp = pingOctets ∧ isTo (p.srv.clients 1).id pingOctets = true := by
  -- The second user connects, logs in and is sent part of the answer before the
  -- first one, who is already there, sends the request.
  have hexec : (Lts.exec countingTry (demoServer none)
      (.accept 4 true 1 :: arrival 0 (requestOctets .loginReq .username (.str (ascii "bob"))))).any
      (fun s => (countingTry s (.accept 5 true 1)).any fun t => decide (Connected t 5) &&
        (Lts.exec (writtenTry 5) (t, [])
          (arrival 1 (requestOctets .loginReq .username (.str (ascii "tom"))) ++
            [.write 1 1 (.sent 30)])).any fun w =>
          decide (Present w.1 4 0) && decide (Present w.1 5 1) &&
          isTo (w.1.clients 1).id pingOctets &&
          (Lts.exec (relayTry 4 5) ⟨w.1, [], w.2⟩ pingRun).any fun q =>
            q.inp == pingOctets && decide (Present q.srv 5 1)) = true := by
    decide +kernel
  have hinit : countingLts.init (demoServer none) :=
    ⟨_, 3, .good, none, by decide, fun _ _ _ hf => (by cases hf), rfl⟩
  obtain ⟨s, hs, h₁⟩ := Lts.reachable_of_exec (fun _ _ _ => countingTry_step) hinit hexec
  obtain ⟨t, ht, h₂⟩ := (Option.any_eq_true _ _).mp h₁
  rw [Bool.and_eq_true, decide_eq_true_eq] at h₂
  obtain ⟨w, hw, h₃⟩ := Lts.reachable_of_exec (M := writtenLts 5) (fun _ _ _ => writtenTry_step)
    ⟨rfl, h₂.1, s, true, 1, hs, countingTry_step ht⟩ h₂.2
  simp only [Bool.and_eq_true, decide_eq_true_eq] at h₃
  obtain ⟨⟨⟨ha, hb⟩, hto⟩, h₃⟩ := h₃
  obtain ⟨q, hrun, h₄⟩ := Lts.run_of_exec (M := relayLts 4 5) (fun _ _ _ => relayTry_step) h₃
  simp only [Bool.and_eq_true, decide_eq_true_eq, beq_iff_eq] at h₄
  obtain ⟨ms, h⟩ := relay_reliable (by decide) ⟨rfl, hw, ⟨0, ha⟩, ⟨1, hb⟩⟩ hrun ha hb h₄.2
  exact ⟨_, q, ms, h, h₄.1, hto⟩

end Frelay
