import Frelay.Server.AccountsRefine

/-!
# The invariant of the client table

What holds of every live slot in every reachable state (`SlotsOk`): its receive
buffer is one between two reads, its queue holds complete messages of which only
the first is partly sent, and no other live slot has its descriptor.

Every step is first described slot by slot: `processMsg_slots` for a complete
message and `ReadStep`, `WriteStep` for the two halves of the I/O loop.
-/

namespace Frelay

open Lib

/-! ## Complete messages -/

theorem whole_fillSrcid {c : Client} {m : Mbuf} (h : Whole m.b) : Whole (fillSrcid c m).b := by
  have hm : 40 ≤ m.bsize := h.hdr
  rw [whole_iff] at h ⊢
  rw [bsize_fillSrcid hm]
  obtain ⟨hd, body, boff, rfl⟩ := exists_msg hm
  unfold fillSrcid
  split
  · simpa using h
  · exact h

/-- The error response to a request that is not forwarded is not forwardable
either: it keeps the base type. -/
theorem err_not_forwardable {t : UInt16} (hreq : mclassIsReq t = true)
    (hno : ∀ u : MsgType, t = u.code → u.forwardable = false) :
    ∀ u : MsgType, mclassToErr t = u.code → u.forwardable = false := by
  have hsplit : t = mtypeCutClass t ||| mtypeGetClass t := (mtype_split t).symm
  have hclass : mtypeGetClass t = MCLASS_REQ := (beq_iff_eq.mp hreq).symm
  intro u hu
  by_contra hf
  have hf' : u.forwardable = true := by simpa using hf
  -- The base type of a forwardable error decides the type of the request.
  have hcut : mtypeCutClass t = mtypeCutClass u.code := by
    rw [← hu, mtypeCutClass_mclassToErr]
  have hreqs : ∀ u : MsgType, u.forwardable = true →
      ∃ v : MsgType, mtypeCutClass u.code ||| MCLASS_REQ = v.code ∧ v.forwardable = true := by
    intro u hu
    cases u <;> first
      | exact ⟨.offerReq, by decide, rfl⟩
      | exact ⟨.getfileReq, by decide, rfl⟩
      | exact ⟨.pingReq, by decide, rfl⟩
      | cases hu
  obtain ⟨v, hv, hvf⟩ := hreqs u hf'
  have htv : t = v.code := by rw [hsplit, hcut, hclass, hv]
  rw [hno v htv] at hvf
  cases hvf

/-! ## Whom a reply could be mistaken for -/

/-- A reply the server composes for an authenticated client carries no source
id of another authenticated client unless its type is never forwarded. -/
def NoImpostor (s : Server) (m r : Mbuf) : Prop :=
  hdrGetDstid m = 0 ∨ hdrGetDstid m = 0xffffffffffffffff ∨
    findDst s (hdrGetDstid m) = none ∨ isForwardable r = false

theorem dispatchMsg_noImpostor {env : MsgEnv} {s u : Server} {i : Nat} {m r : Mbuf}
    (hm : 40 ≤ m.bsize) (hst : (s.clients i).st = .authOk)
    (h : dispatchMsg env s i m = some (u, some r)) : NoImpostor s m r := by
  unfold dispatchMsg at h
  simp only at h
  split at h
  · rename_i h0
    exact .inl h0
  · split at h
    · rename_i h1
      exact .inr (.inl h1)
    · unfold processForwardMsg at h
      rw [if_neg (not_not.mpr hst)] at h
      split at h
      · rename_i hnone
        exact .inr (.inr (.inl hnone))
      · -- There is a destination, but the type is not for forwarding.
        have herr : ∀ hno : ∀ v : MsgType, hdrGetType m = v.code → v.forwardable = false,
            processNonsense env s m .badRequest = some (u, some r) →
            isForwardable r = false := by
          intro hno hp
          unfold processNonsense at hp
          split at hp
          · rename_i hreq
            obtain ⟨x, hx, heq⟩ := Option.map_eq_some_iff.mp hp
            cases heq
            -- An error of a type that is not forwarded is not forwarded either.
            have htype := (isReply_error_type hm hx).2
            by_contra hf
            obtain ⟨v, hv, hvf⟩ := isForwardable_iff.mp (by simpa using hf)
            rw [htype] at hv
            rw [err_not_forwardable hreq hno v hv] at hvf
            cases hvf
          · cases hp
        split at h
        · rename_i t ht
          split at h
          · cases h
          · rename_i hnf
            refine .inr (.inr (.inr (herr ?_ h)))
            intro v hv
            rw [hv, MsgType.ofCode?_code] at ht
            cases ht
            simpa using hnf
        · rename_i hnone
          refine .inr (.inr (.inr (herr ?_ h)))
          intro v hv
          rw [hv, MsgType.ofCode?_code] at hnone
          cases hnone

/-- The source id filled in depends on the session only. -/
theorem fillSrcid_congr {c d : Client} {m : Mbuf} (h : c.session = d.session) :
    fillSrcid c m = fillSrcid d m := by
  have hst : c.st = d.st := congrArg Session.st h
  have hid : c.id = d.id := congrArg Session.id h
  rw [fillSrcid, fillSrcid, hst, hid]

theorem findDst_congr {s u : Server} (hcfg : u.cfg = s.cfg)
    (h : ∀ j, (u.clients j).fd = (s.clients j).fd ∧
      (u.clients j).session = (s.clients j).session) (id : UInt64) :
    findDst u id = findDst s id := by
  have hst : ∀ j, (u.clients j).st = (s.clients j).st := fun j => congrArg Session.st (h j).2
  have hid : ∀ j, (u.clients j).id = (s.clients j).id := fun j => congrArg Session.id (h j).2
  have hslots : u.slots = s.slots := by rw [Server.slots, Server.slots, hcfg]
  simp only [findDst, hst, hid, hslots, fun j => (h j).1]

/-- Where a message goes depends on sessions and descriptors only. -/
theorem route_congr {s u : Server} {k : Nat} {m : Mbuf} (hcfg : u.cfg = s.cfg)
    (h : ∀ j, (u.clients j).fd = (s.clients j).fd ∧
      (u.clients j).session = (s.clients j).session) : route u k m = route s k m := by
  have hst : (u.clients k).st = (s.clients k).st := congrArg Session.st (h k).2
  simp only [route, hst, findDst_congr hcfg h]

/-! ## A complete message, slot by slot -/

/-- The copy of a forwarded message that lands in the queue of slot `j`. -/
def forwarded (s : Server) (i : Nat) (m : Mbuf) (j : Nat) : List Mbuf :=
  if route s i m = some j then [{ m with boff := 0 }] else []

/-- What `process_msg` does to the slots: the message goes to the slot `route`
names, or a reply goes to the sender's slot, and slots that are kicked are
closed. -/
structure MsgStep (s : Server) (i : Nat) (m : Mbuf) (reply : List Mbuf) (t : Server) : Prop where
  cfg : t.cfg = s.cfg
  listenfd : t.listenfd = s.listenfd
  reply_ok : ∀ r ∈ reply, r.boff = 0 ∧ IsReply m r ∧
    ((s.clients i).st = .authOk → NoImpostor s m r)
  self_fd : (t.clients i).fd = (s.clients i).fd
  self_act : (t.clients i).act = (s.clients i).act
  self_rbuf : (t.clients i).rbuf = none
  self_q : (t.clients i).q = (s.clients i).q ++ (forwarded s i m i ++ reply)
  others : ∀ j, j ≠ i → (Kicked s i j ∧ t.clients j = closedClient) ∨
    t.clients j = { s.clients j with q := (s.clients j).q ++ forwarded s i m j }

theorem forwarded_none {s : Server} {i : Nat} {m : Mbuf} (h : route s i m = none) (j : Nat) :
    forwarded s i m j = [] := by
  rw [forwarded, h, if_neg (by simp)]

theorem IsReply.rewind {m r : Mbuf} (h : IsReply m r) : IsReply m { r with boff := 0 } :=
  ⟨h.hdr, Nat.zero_le _, h.framed, h.max, h.type, h.srcid, h.dstid, h.trfid⟩

theorem processMsg_slots {env : MsgEnv} {s t : Server} {i : Nat} {m : Mbuf} (hm : 40 ≤ m.bsize)
    (h : processMsg env s i m = some t) :
    ∃ reply, MsgStep s i (fillSrcid (s.clients i) m) reply t := by
  have hm' : 40 ≤ (fillSrcid (s.clients i) m).bsize := by rwa [bsize_fillSrcid hm]
  rcases processMsg_cases hm h with ⟨k, hk, rfl⟩ | ⟨u, rbuf, hno, hd, hserved, rfl⟩
  · refine ⟨[], ?_⟩
    have hq : ∀ j, (enqueueMsg s k (fillSrcid (s.clients i) m)).clients j =
        { s.clients j with
          q := (s.clients j).q ++ forwarded s i (fillSrcid (s.clients i) m) j } := by
      intro j
      rw [enqueueMsg_clients, forwarded, hk]
      by_cases hjk : j = k
      · subst hjk
        rw [if_pos rfl, if_pos rfl]
      · rw [if_neg hjk, if_neg (fun h => hjk (Option.some.inj h).symm), List.append_nil]
    -- Nothing goes back to the sender, only its buffer is given up.
    have hself : (sendBack (enqueueMsg s k (fillSrcid (s.clients i) m)) i none).clients i =
        { (enqueueMsg s k (fillSrcid (s.clients i) m)).clients i with rbuf := none } := by
      rw [sendBack_clients, if_pos rfl]
      simp
    rw [hq] at hself
    refine ⟨by simp, by simp, by simp, ?_, ?_, ?_, ?_, ?_⟩
    · rw [hself]
    · rw [hself]
    · rw [hself]
    · rw [hself, List.append_nil]
    · intro j hj
      rw [sendBack_clients, if_neg hj, hq]
      exact .inr rfl
  · refine ⟨(rbuf.map fun r => ({ r with boff := 0 } : Mbuf)).toList, ?_⟩
    have ht := hserved.touches
    -- The answer, if there is one, goes to the end of the sender's queue.
    have hself : (sendBack u i rbuf).clients i = { u.clients i with
        rbuf := none
        q := (u.clients i).q ++ (rbuf.map fun r => ({ r with boff := 0 } : Mbuf)).toList } := by
      rw [sendBack_clients, if_pos rfl]
    refine ⟨by rw [sendBack_cfg]; exact ht.cfg, by rw [sendBack_listenfd]; exact ht.listenfd,
      ?_, ?_, ?_, ?_, ?_, ?_⟩
    · intro r hr
      rw [Option.mem_toList, Option.map_eq_some_iff] at hr
      obtain ⟨x, rfl, rfl⟩ := hr
      refine ⟨rfl, (hserved.reply x rfl).rewind, fun hst => ?_⟩
      have himp : NoImpostor s (fillSrcid (s.clients i) m) x := dispatchMsg_noImpostor hm' hst hd
      exact himp
    · rw [hself]
      exact ht.fd
    · rw [hself]
      exact ht.act
    · rw [hself]
    · rw [hself, forwarded_none hno, List.nil_append]
      exact congrArg (· ++ _) ht.q
    · intro j hj
      rw [sendBack_clients, if_neg hj, forwarded_none hno, List.append_nil]
      rcases ht.others j hj with heq | hk
      · exact .inr heq
      · exact .inl hk

/-! ## Every step, case by case -/

/-- Slot `i` while a read is under way: resynced and with a receive buffer. -/
def opened (s : Server) (i : Nat) (now : Int) : Client :=
  { resyncClient s.cfg.msgTimeout (s.clients i) now with
    rbuf := some (slotBuffer s i now), act := now }

/-- From `s` to `t` slot `i` has become `c`, and nothing else has changed but the
descriptor sets. -/
structure InPlace (s : Server) (i : Nat) (c : Client) (t : Server) : Prop where
  cfg : t.cfg = s.cfg
  listenfd : t.listenfd = s.listenfd
  udb : t.udb = s.udb
  clients : t.clients = Function.update s.clients i c

/-- Everything an event can do. The octets of a read that was successful are
`bs.take (slotBuffer s i now).room`. -/
inductive StepCase (s : Server) : SrvEvent → Server → Prop
  | refused {fd : Int} {nonblocking : Bool} {now : Int} :
      StepCase s (.accept fd nonblocking now) s
  | connect {i : Nat} {fd now : Int} {t : Server} : i < s.cfg.maxClients → ¬ s.Live i → 0 ≤ fd →
      InPlace s i { closedClient with fd := fd, st := .preLogin, act := now } t →
      StepCase s (.accept fd true now) t
  | readClose {i : Nat} {now : Int} {res : ReadRes} {env : MsgEnv} {t : Server} :
      s.Live i → readOutcome (slotBuffer s i now) res = .disconnect →
      InPlace s i closedClient t → StepCase s (.read i now res env) t
  | readAgain {i : Nat} {now : Int} {env : MsgEnv} {t : Server} :
      s.Live i → InPlace s i (opened s i now) t →
      StepCase s (.read i now (.failed false) env) t
  | readPending {i : Nat} {now : Int} {bs : Bytes} {env : MsgEnv} {m : Mbuf} {t : Server} :
      s.Live i → readOutcome (slotBuffer s i now) (.got bs) = .pending (some m) → RbufOk m →
      m.received = (slotBuffer s i now).received ++ bs.take (slotBuffer s i now).room →
      InPlace s i { opened s i now with rbuf := some m } t →
      StepCase s (.read i now (.got bs) env) t
  | readComplete {i : Nat} {now : Int} {bs : Bytes} {env : MsgEnv} {m : Mbuf} {u t : Server} :
      s.Live i → readOutcome (slotBuffer s i now) (.got bs) = .complete m → Whole m.b →
      m.b = (slotBuffer s i now).received ++ bs.take (slotBuffer s i now).room →
      InPlace s i (opened s i now) u → processMsg env u i m = some t →
      StepCase s (.read i now (.got bs) env) t
  | writeClose {i : Nat} {now : Int} {res : WriteRes} {m : Mbuf} {q : List Mbuf} {t : Server} :
      s.Live i → (s.clients i).q = m :: q → writeOutcome m res = .disconnect →
      InPlace s i closedClient t → StepCase s (.write i now res) t
  | writeAgain {i : Nat} {now : Int} {m : Mbuf} {q : List Mbuf} {t : Server} :
      s.Live i → (s.clients i).q = m :: q →
      InPlace s i { s.clients i with act := now } t →
      StepCase s (.write i now (.failed false)) t
  | writeSent {i : Nat} {now : Int} {n : Nat} {m : Mbuf} {q : List Mbuf} {t : Server} :
      s.Live i → (s.clients i).q = m :: q → m.boff < m.bsize → min n m.room ≠ 0 →
      InPlace s i { s.clients i with
        act := now
        q := if m.boff + min n m.room = m.bsize then q
          else { m with boff := m.boff + min n m.room } :: q } t →
      StepCase s (.write i now (.sent n)) t
  | upkeep {now : Int} : StepCase s (.upkeep now) (upkeep now s)
  | motd {lines : List Bytes} {t : Server} : t.cfg = s.cfg → t.listenfd = s.listenfd →
      t.udb = s.udb → t.clients = s.clients → StepCase s (.motd lines) t

/-! ## The invariant -/

/-- What holds of a slot in use: a receive buffer between two reads, and a queue
of complete messages of which only the first is partly sent. -/
structure SlotOk (c : Client) : Prop where
  rbuf : RecvOk c.rbuf
  queued : ∀ m ∈ c.q, Whole m.b ∧ m.boff < m.bsize
  unsent : ∀ m ∈ c.q.tail, m.boff = 0

/-- What holds of the client table: no two live slots share a descriptor. -/
structure SlotsOk (s : Server) : Prop where
  slot : ∀ i, s.Live i → SlotOk (s.clients i)
  fds : ∀ i j, s.Live i → s.Live j → (s.clients i).fd = (s.clients j).fd → i = j

theorem SlotOk.slotBuffer {s : Server} {i : Nat} (h : SlotOk (s.clients i)) (now : Int) :
    RbufOk (slotBuffer s i now) := by
  have hok : RecvOk (resyncClient s.cfg.msgTimeout (s.clients i) now).rbuf := by
    unfold resyncClient
    split
    · exact fun _ hm => by cases hm
    · exact h.rbuf
  exact hok.getD.1

theorem InPlace.readOpen (s : Server) (i : Nat) (now : Int) :
    InPlace s i (opened s i now) (s.setClient i (opened s i now)) :=
  ⟨rfl, rfl, rfl, rfl⟩

/-- The read half of `handle_io` in terms of the opened slot. -/
theorem readClient_opened (env : MsgEnv) (s : Server) (i : Nat) (now : Int) (res : ReadRes) :
    readClient env s i now res =
      match readOutcome (slotBuffer s i now) res with
      | .disconnect => some (closeClient (s.setClient i (opened s i now)) i)
      | .again => some (s.setClient i (opened s i now))
      | .exits => none
      | .pending rbuf => some (s.setClient i { opened s i now with rbuf := rbuf })
      | .complete m => processMsg env (s.setClient i (opened s i now)) i m := by
  have hpending : ∀ rbuf, (s.setClient i (opened s i now)).setClient i
      { (s.setClient i (opened s i now)).clients i with rbuf := rbuf } =
        s.setClient i { opened s i now with rbuf := rbuf } := by
    intro rbuf
    rw [Server.setClient_self, Server.setClient, Server.setClient, Server.setClient,
      Function.update_idem]
  rw [readClient]
  simp only
  rw [show (resyncClient s.cfg.msgTimeout (s.clients i) now).rbuf.getD mbufNew =
    slotBuffer s i now from rfl]
  cases readOutcome (slotBuffer s i now) res with
  | disconnect => rfl
  | again => rfl
  | exits => rfl
  | pending rbuf => exact congrArg some (hpending rbuf)
  | complete m => rfl

/-- A slot that is opened first and then changed again. -/
theorem InPlace.again {s t : Server} {i : Nat} {c d : Client} (hcfg : t.cfg = s.cfg)
    (hlfd : t.listenfd = s.listenfd) (hudb : t.udb = s.udb)
    (h : t.clients = Function.update (Function.update s.clients i c) i d) : InPlace s i d t :=
  ⟨hcfg, hlfd, hudb, by rw [h, Function.update_idem]⟩

theorem readClient_cases {env : MsgEnv} {s t : Server} {i : Nat} {now : Int} {res : ReadRes}
    (hok : SlotOk (s.clients i)) (hlive : s.Live i)
    (h : readClient env s i now res = some t) : StepCase s (.read i now res env) t := by
  have hspec := readOutcome_spec (hok.slotBuffer now) res
  unfold readClient at h
  simp only at h
  generalize hout : readOutcome (slotBuffer s i now) res = out at hspec
  rw [show readOutcome ((resyncClient s.cfg.msgTimeout (s.clients i) now).rbuf.getD mbufNew) res =
    out from hout] at h
  cases hspec with
  | disconnect =>
      cases h
      exact .readClose hlive hout (.again (c := opened s i now) rfl rfl rfl rfl)
  | again hres =>
      cases h
      subst hres
      exact .readAgain hlive (.readOpen s i now)
  | exits bs hres hne habs => cases h
  | pending bs m hres hne hmok hrec =>
      cases h
      subst hres
      refine .readPending hlive hout hmok hrec (.again (c := opened s i now) rfl rfl rfl ?_)
      simp only [Server.setClient, Function.update_self, opened]
      rfl
  | complete bs m hres hne hwhole hoff hb =>
      subst hres
      exact .readComplete hlive hout hwhole hb (.readOpen s i now) h

/-- A slot that was used just now is not resynced. -/
theorem opened_eq {s : Server} {i : Nat} {c : Client} (now : Int) (hc : s.clients i = c)
    (h : c.rbuf = none ∨ c.act = now ∧ 0 ≤ s.cfg.msgTimeout) :
    opened s i now = { c with rbuf := some (c.rbuf.getD mbufNew), act := now } ∧
      slotBuffer s i now = c.rbuf.getD mbufNew := by
  have hres : resyncClient s.cfg.msgTimeout (s.clients i) now = c := by
    rw [hc, resyncClient, if_neg]
    rintro ⟨hsome, hlate⟩
    rcases h with hnone | ⟨hact, htime⟩
    · rw [hnone] at hsome
      cases hsome
    · rw [hact] at hlate
      omega
  have hbuf : slotBuffer s i now = c.rbuf.getD mbufNew := by rw [slotBuffer, hres]
  rw [opened, hres, hbuf]
  exact ⟨rfl, rfl⟩

/-- A message arrives in two reads: its header, and the rest. -/
theorem srvStep_arrival {s : Server} {i : Nat} (now : Int) (env : MsgEnv) {b : Bytes}
    (hbuf : (s.clients i).rbuf = none) (htime : 0 ≤ s.cfg.msgTimeout) (hb : Whole b)
    (hlong : 40 < b.length) :
    ∃ t c, t = s.setClient i c ∧ c.session = (s.clients i).session ∧ c.fd = (s.clients i).fd ∧
      srvStep s (.read i now (.got (b.take 40)) env) = some t ∧
      srvStep t (.read i now (.got (b.drop 40)) env) =
        processMsg env t i { b := b, boff := b.length } := by
  obtain ⟨m, hout, hok, hrec, hroom⟩ := readOutcome_header hb hlong
  obtain ⟨hopen, hslot⟩ := opened_eq now rfl (.inl hbuf)
  rw [hbuf] at hopen hslot
  let c : Client := { s.clients i with rbuf := some m, act := now }
  have hself : (s.setClient i c).clients i = c := Server.setClient_self s i c
  obtain ⟨hopen', hslot'⟩ := opened_eq (s := s.setClient i c) now hself (.inr ⟨rfl, htime⟩)
  refine ⟨s.setClient i c, c, rfl, rfl, rfl, ?_, ?_⟩
  · rw [srvStep, readClient_opened, hslot, Option.getD_none, hout, hopen]
  · have hrest : readOutcome m (.got (b.drop 40)) = .complete { b := b, boff := b.length } := by
      refine readOutcome_rest hok hb ?_ (by rw [hrec, List.take_append_drop]) (Nat.le_of_eq hroom.symm)
      intro hnil
      have := congrArg List.length hnil
      rw [List.length_drop, List.length_nil] at this
      omega
    have hsame : (s.setClient i c).setClient i c = s.setClient i c := by
      rw [Server.setClient, Server.setClient, Function.update_idem]
    rw [srvStep, readClient_opened, hslot', hopen']
    simp only [c, Option.getD_some] at hsame ⊢
    rw [hrest, hsame]

theorem writeClient_cases {s t : Server} {i : Nat} {now : Int} {res : WriteRes}
    (hok : SlotOk (s.clients i)) (hlive : s.Live i)
    (h : writeClient s i now res = some t) : StepCase s (.write i now res) t := by
  obtain ⟨u, hu⟩ : ∃ u, u = s.setClient i { s.clients i with act := now } := ⟨_, rfl⟩
  have hself : u.clients i = { s.clients i with act := now } := by rw [hu, Server.setClient_self]
  have hin : InPlace s i { s.clients i with act := now } u := hu ▸ ⟨rfl, rfl, rfl, rfl⟩
  rw [writeClient, ← hu] at h
  cases hq : (s.clients i).q with
  | nil =>
      have hqu : (u.clients i).q = [] := by rw [hself, hq]
      simp only [hqu] at h
      cases h
  | cons m q =>
      have hqu : (u.clients i).q = m :: q := by rw [hself, hq]
      have hlt : m.boff < m.bsize := (hok.queued m (hq ▸ List.mem_cons_self)).2
      simp only [hqu, writeOutcome, if_pos hlt] at h
      -- A slot that is closed or whose queue has moved on.
      have hclose : InPlace s i closedClient (closeClient u i) := by
        refine .again (c := { s.clients i with act := now }) hin.cfg hin.listenfd hin.udb ?_
        rw [← hin.clients]
        rfl
      cases res with
      | failed fatal =>
          cases fatal with
          | true =>
              cases h
              refine .writeClose hlive hq ?_ hclose
              rw [writeOutcome, if_pos hlt]
          | false =>
              cases h
              exact .writeAgain hlive hq hin
      | sent n =>
          by_cases hz : min n m.room = 0
          · simp only [hz, if_true] at h
            cases h
            refine .writeClose hlive hq ?_ hclose
            rw [writeOutcome, if_pos hlt]
            simp only [hz, if_true]
          · simp only [hz, if_false] at h
            refine .writeSent hlive hq hlt hz ?_
            split at h
            · rename_i hfull
              have hfull' : m.boff + min n m.room = m.bsize := hfull
              rw [if_pos hfull']
              cases h
              refine ⟨hin.cfg, hin.listenfd, hin.udb, ?_⟩
              simp only [dequeueMsg, Server.setClient, Function.update_idem,
                Function.update_self, List.tail_cons, hself, hin.clients]
            · rename_i hpart
              have hpart' : ¬ m.boff + min n m.room = m.bsize := hpart
              rw [if_neg hpart']
              cases h
              refine ⟨hin.cfg, hin.listenfd, hin.udb, ?_⟩
              simp only [Server.setClient, Function.update_idem, hself, hin.clients]

theorem acceptClient_cases {s : Server} {fd : Int} {nonblocking : Bool} {now : Int}
    (hfd : fd = -1 ∨ 0 ≤ fd) :
    StepCase s (.accept fd nonblocking now) (acceptClient s fd nonblocking now) := by
  unfold acceptClient
  by_cases h1 : fd = -1
  · rw [if_pos h1]
    exact .refused
  · by_cases h2 : FD_SETSIZE ≤ fd
    · rw [if_neg h1, if_pos h2]
      exact .refused
    · rw [if_neg h1, if_neg h2]
      cases nonblocking with
      | false => exact .refused
      | true =>
          rw [if_neg (by simp)]
          cases hfind : s.slots.find? fun i => !(0 ≤ (s.clients i).fd : Bool) with
          | none => exact .refused
          | some i =>
              obtain ⟨hmem, hdead⟩ := Server.free_slot hfind
              exact .connect hmem hdead (hfd.resolve_left h1) ⟨rfl, rfl, rfl, rfl⟩

/-- **Every step is one of the cases.** -/
theorem srvStep_cases {s t : Server} {e : SrvEvent} (hok : SlotsOk s) (hen : e.Enabled s)
    (h : srvStep s e = some t) : StepCase s e t := by
  cases e with
  | accept fd nonblocking now =>
      cases h
      exact acceptClient_cases (hen.imp id fun h => h.1)
  | read i now res env => exact readClient_cases (hok.slot i hen) hen h
  | write i now res => exact writeClient_cases (hok.slot i hen.1) hen.1 h
  | upkeep now =>
      cases h
      exact .upkeep
  | motd lines =>
      obtain ⟨p, -, rfl⟩ := Option.map_eq_some_iff.mp h
      exact .motd rfl rfl rfl rfl

/-! ## The invariant is kept -/

theorem InPlace.self {s t : Server} {i : Nat} {c : Client} (h : InPlace s i c t) :
    t.clients i = c := by
  rw [h.clients, Function.update_self]

theorem InPlace.other {s t : Server} {i j : Nat} {c : Client} (h : InPlace s i c t) (hj : j ≠ i) :
    t.clients j = s.clients j := by
  rw [h.clients, Function.update_of_ne hj]

theorem InPlace.live_other {s t : Server} {i j : Nat} {c : Client} (h : InPlace s i c t)
    (hj : j ≠ i) : t.Live j ↔ s.Live j := by
  rw [Server.Live, Server.Live, h.cfg, h.other hj]

/-- A slot may be replaced by one that is unused, or that is in order and has
its old descriptor or a new one. -/
theorem SlotsOk.inPlace {s t : Server} {i : Nat} {c : Client} (h : SlotsOk s)
    (hin : InPlace s i c t)
    (hc : 0 ≤ c.fd → SlotOk c ∧ ((s.Live i ∧ c.fd = (s.clients i).fd) ∨
      ∀ j, s.Live j → (s.clients j).fd ≠ c.fd)) : SlotsOk t := by
  -- No other slot has the descriptor of the new one.
  have hfresh : t.Live i → ∀ j, j ≠ i → s.Live j → (s.clients j).fd ≠ c.fd := by
    intro hl j hj hlj heq
    rcases (hc (hin.self ▸ hl.2)).2 with ⟨hli, hfd⟩ | hnew
    · exact hj (h.fds j i hlj hli (heq.trans hfd))
    · exact hnew j hlj heq
  constructor
  · intro j hl
    by_cases hj : j = i
    · subst hj
      rw [hin.self]
      exact (hc (hin.self ▸ hl.2)).1
    · rw [hin.other hj]
      exact h.slot j ((hin.live_other hj).mp hl)
  · intro j k hlj hlk heq
    by_cases hj : j = i
    · by_cases hk : k = i
      · exact hj.trans hk.symm
      · subst hj
        rw [hin.self, hin.other hk] at heq
        exact absurd heq.symm (hfresh hlj k hk ((hin.live_other hk).mp hlk))
    · by_cases hk : k = i
      · subst hk
        rw [hin.self, hin.other hj] at heq
        exact absurd heq (hfresh hlk j hj ((hin.live_other hj).mp hlj))
      · rw [hin.other hj, hin.other hk] at heq
        exact h.fds j k ((hin.live_other hj).mp hlj) ((hin.live_other hk).mp hlk) heq

theorem SlotOk.fresh {c : Client} (hrbuf : c.rbuf = none) (hq : c.q = []) : SlotOk c :=
  ⟨fun _ hm => (by rw [hrbuf] at hm; cases hm), by simp [hq], by simp [hq]⟩

/-- Complete messages may be added at the end of a queue. -/
theorem SlotOk.append {c c' : Client} (h : SlotOk c) {l : List Mbuf} (hrbuf : RecvOk c'.rbuf)
    (hq : c'.q = c.q ++ l) (hms : ∀ m ∈ l, Whole m.b ∧ m.boff = 0) : SlotOk c' := by
  refine ⟨hrbuf, ?_, ?_⟩
  · intro m hm
    rw [hq, List.mem_append] at hm
    rcases hm with hm | hm
    · exact h.queued m hm
    · have hwhole : 40 ≤ m.bsize := (hms m hm).1.hdr
      rw [(hms m hm).2]
      exact ⟨(hms m hm).1, by omega⟩
  · intro m hm
    rw [hq] at hm
    cases hcq : c.q with
    | nil =>
        rw [hcq] at hm
        exact (hms m (List.mem_of_mem_tail hm)).2
    | cons x q =>
        rw [hcq, List.cons_append, List.tail_cons, List.mem_append] at hm
        rcases hm with hm | hm
        · exact h.unsent m (by rw [hcq]; exact hm)
        · exact (hms m hm).2

theorem opened_same (s : Server) (i : Nat) (now : Int) :
    (opened s i now).fd = (s.clients i).fd ∧
      (opened s i now).session = (s.clients i).session ∧ (opened s i now).q = (s.clients i).q := by
  obtain ⟨hfd, hse, hq, -⟩ := resyncClient_same s.cfg.msgTimeout (s.clients i) now
  exact ⟨hfd, hse, hq⟩

/-- Opening a slot for a read changes no session and no descriptor. -/
theorem opened_view (s : Server) (i : Nat) (now : Int) (j : Nat) :
    ((s.setClient i (opened s i now)).clients j).fd = (s.clients j).fd ∧
      ((s.setClient i (opened s i now)).clients j).session = (s.clients j).session := by
  by_cases hj : j = i
  · subst hj
    rw [Server.setClient_self]
    exact ⟨(opened_same s j now).1, (opened_same s j now).2.1⟩
  · rw [Server.setClient_of_ne _ _ hj]
    exact ⟨rfl, rfl⟩

theorem SlotOk.opened {s : Server} {i : Nat} (h : SlotOk (s.clients i)) (now : Int) :
    SlotOk (opened s i now) := by
  refine h.append (l := []) ?_ ?_ (by simp)
  · intro m hm
    cases hm
    exact h.slotBuffer now
  · rw [(opened_same s i now).2.2, List.append_nil]

theorem whole_forwarded {s : Server} {i j : Nat} {m : Mbuf} (hm : Whole m.b) :
    ∀ x ∈ forwarded s i m j, Whole x.b ∧ x.boff = 0 := by
  intro x hx
  unfold forwarded at hx
  split at hx
  · rw [List.mem_singleton.mp hx]
    exact ⟨hm, rfl⟩
  · cases hx

/-- The live slots after a message was processed. -/
theorem MsgStep.live {s t : Server} {i j : Nat} {m : Mbuf} {reply : List Mbuf}
    (h : MsgStep s i m reply t) (hl : t.Live j) :
    s.Live j ∧ (t.clients j).fd = (s.clients j).fd := by
  have hlt := hl.1
  rw [h.cfg] at hlt
  by_cases hj : j = i
  · subst hj
    exact ⟨⟨hlt, h.self_fd ▸ hl.2⟩, h.self_fd⟩
  · rcases h.others j hj with ⟨-, hc⟩ | hc
    · have hneg := hl.2
      rw [hc] at hneg
      exact absurd hneg (by decide)
    · have hfd : (t.clients j).fd = (s.clients j).fd := by rw [hc]
      exact ⟨⟨hlt, hfd ▸ hl.2⟩, hfd⟩

theorem SlotsOk.msgStep {s t : Server} {i : Nat} {m : Mbuf} {reply : List Mbuf} (h : SlotsOk s)
    (hm : Whole m.b) (hmsg : MsgStep s i m reply t) : SlotsOk t := by
  constructor
  · intro j hl
    obtain ⟨hls, -⟩ := hmsg.live hl
    by_cases hj : j = i
    · subst hj
      refine (h.slot j hls).append (by rw [hmsg.self_rbuf]; exact fun _ h => by cases h)
        hmsg.self_q ?_
      intro x hx
      rcases List.mem_append.mp hx with hx | hx
      · exact whole_forwarded hm x hx
      · obtain ⟨hoff, hreply, -⟩ := hmsg.reply_ok x hx
        exact ⟨hreply.whole, hoff⟩
    · rcases hmsg.others j hj with ⟨-, hc⟩ | hc
      · have hneg := hl.2
        rw [hc] at hneg
        exact absurd hneg (by decide)
      · rw [hc]
        exact (h.slot j hls).append (h.slot j hls).rbuf rfl (whole_forwarded hm)
  · intro j k hj hk heq
    obtain ⟨hj', hfj⟩ := hmsg.live hj
    obtain ⟨hk', hfk⟩ := hmsg.live hk
    exact h.fds j k hj' hk' (by rw [← hfj, ← hfk, heq])

theorem SlotsOk.upkeep {s : Server} (h : SlotsOk s) (now : Int) : SlotsOk (upkeep now s) := by
  constructor
  · intro j hl
    obtain ⟨i, hi⟩ := upkeep_live hl
    obtain ⟨-, hlive, -, hmv⟩ := upkeep_moved hi
    obtain ⟨-, -, hq, -⟩ := resyncClient_same s.cfg.msgTimeout (s.clients i) now
    rw [hmv]
    refine (h.slot i hlive).append (l := []) ?_ (by rw [hq, List.append_nil]) (by simp)
    unfold resyncClient
    split
    · exact fun _ hm => by cases hm
    · exact (h.slot i hlive).rbuf
  · intro j k hj hk heq
    obtain ⟨i, hi⟩ := upkeep_live hj
    obtain ⟨i', hi'⟩ := upkeep_live hk
    obtain ⟨-, hlive, -, hmv⟩ := upkeep_moved hi
    obtain ⟨-, hlive', -, hmv'⟩ := upkeep_moved hi'
    obtain ⟨hfd, -⟩ := resyncClient_same s.cfg.msgTimeout (s.clients i) now
    obtain ⟨hfd', -⟩ := resyncClient_same s.cfg.msgTimeout (s.clients i') now
    rw [hmv, hmv', hfd, hfd'] at heq
    have hii := h.fds i i' hlive hlive' heq
    rw [hii] at hi
    have hnodup : (survivors now s s.cfg.maxClients).Nodup := List.nodup_range.filter _
    exact (List.getElem?_inj (List.getElem?_eq_some_iff.mp hi).1 hnodup).mp (hi.trans hi'.symm)

/-- **The client table stays in order.** -/
theorem SlotsOk.step {s t : Server} {e : SrvEvent} (h : SlotsOk s) (hen : e.Enabled s)
    (hstep : srvStep s e = some t) : SlotsOk t := by
  have hdead : ∀ {i : Nat} {t : Server}, InPlace s i closedClient t → SlotsOk t :=
    fun hin => h.inPlace hin fun hfd => absurd hfd (by decide)
  cases srvStep_cases h hen hstep with
  | refused => exact h
  | connect hi hdead hfd hin =>
      refine h.inPlace hin fun _ => ⟨.fresh rfl rfl, .inr ?_⟩
      rcases hen with hneg | ⟨-, -, hnew⟩
      · rw [hneg] at hfd
        exact absurd hfd (by decide)
      · exact hnew
  | readClose hl hout hin => exact hdead hin
  | @readAgain i now _ _ hl hin =>
      exact h.inPlace hin fun _ => ⟨(h.slot i hl).opened now, .inl ⟨hl, (opened_same s i now).1⟩⟩
  | @readPending i now bs env m _ hl hout hmok hrec hin =>
      refine h.inPlace hin fun _ => ⟨?_, .inl ⟨hl, (opened_same s i now).1⟩⟩
      exact ((h.slot i hl).opened now).append (l := []) (fun _ hm => by cases hm; exact hmok)
        (List.append_nil _).symm (by simp)
  | @readComplete i now bs env m u _ hl hout hwhole hb hin hmsg =>
      have hu : SlotsOk u :=
        h.inPlace hin fun _ => ⟨(h.slot i hl).opened now, .inl ⟨hl, (opened_same s i now).1⟩⟩
      obtain ⟨reply, hmsg⟩ := processMsg_slots hwhole.hdr hmsg
      exact hu.msgStep (whole_fillSrcid hwhole) hmsg
  | writeClose hl hq hout hin => exact hdead hin
  | @writeAgain i now m q _ hl hq hin =>
      refine h.inPlace hin fun _ => ⟨?_, .inl ⟨hl, rfl⟩⟩
      exact (h.slot i hl).append (l := []) (h.slot i hl).rbuf (List.append_nil _).symm (by simp)
  | @writeSent i now n m q _ hl hq hlt hz hin =>
      refine h.inPlace hin fun _ => ⟨⟨(h.slot i hl).rbuf, ?_, ?_⟩, .inl ⟨hl, rfl⟩⟩
      · intro x hx
        have hqueued := (h.slot i hl).queued
        rw [hq] at hqueued
        simp only at hx
        split at hx
        · exact hqueued x (List.mem_cons_of_mem _ hx)
        · rename_i hpart
          rcases List.mem_cons.mp hx with rfl | hx
          · -- The message at the head is sent in part, and something is left of it.
            refine ⟨(hqueued m List.mem_cons_self).1, ?_⟩
            have hle : min n m.room ≤ m.bsize - m.boff := Nat.min_le_right _ _
            change m.boff + min n m.room < m.bsize
            omega
          · exact hqueued x (List.mem_cons_of_mem _ hx)
      · intro x hx
        have hunsent := (h.slot i hl).unsent
        rw [hq, List.tail_cons] at hunsent
        simp only at hx
        split at hx
        · exact hunsent x (List.mem_of_mem_tail hx)
        · exact hunsent x hx
  | upkeep => exact h.upkeep _
  | motd hcfg hlfd hudb hcl =>
      constructor
      · intro i hl
        rw [hcl]
        exact h.slot i (by rw [Server.Live, ← hcfg, ← hcl]; exact hl)
      · intro i j hi hj heq
        rw [hcl] at heq
        exact h.fds i j (by rw [Server.Live, ← hcfg, ← hcl]; exact hi)
          (by rw [Server.Live, ← hcfg, ← hcl]; exact hj) heq

theorem slotsOk_initial (cfg : SrvCfg) (listenfd : Int) (d : Udb) :
    SlotsOk (.initial cfg listenfd d) := by
  have hdead : ∀ i, ¬ (Server.initial cfg listenfd d).Live i :=
    fun i hl => absurd hl.2 (by exact (by decide : ¬ (0 : Int) ≤ -1))
  exact ⟨fun i hl => absurd hl (hdead i), fun i _ hl => absurd hl (hdead i)⟩

/-- **In every reachable state the client table is in order.** -/
theorem slotsOk_inductive (ok : FileEnv → Prop) : (srvLts ok).Inductive SlotsOk where
  init := by
    rintro s ⟨cfg, listenfd, e, file, -, -, rfl⟩
    exact slotsOk_initial cfg listenfd _
  step := fun _ _ _ h hstep => h.step hstep.1 hstep.2.2

end Frelay
