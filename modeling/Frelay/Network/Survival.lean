import Frelay.Client.Stops
import Frelay.Server.Stops
import Frelay.Network.Carriage

/-!
# Clients among themselves

A message can end a client, and a client is at the mercy of every program that talks to the
server. Where all connections of the server belong to clients of this kind, no message
does, whatever the clients do and however their steps are interleaved.

* `Spoken` — a property of the messages that clients and the server compose and pass on;
  all messages on their way have it (`Spoken.everywhere`);
* `spoken_modest` — every GETFILE request is for no more octets than fit into a message;
* `peers_harmless` — a client is only ended by its own user, or by a name of a file;
* `server_withstands` — no client ends the server with a broken message.
-/

namespace Frelay

open Lib

variable {ι : Type}

/-- Every connection of the server is that of one of the clients. -/
def Net.Closed (s : Net ι) : Prop := ∀ fd, Connected s.srv fd → ∃ i, (s.ends i).conn = some fd

/-- The clients and the server, and nobody else. -/
def closedLts (ι : Type) : Lts (Net ι) (NetEvent ι) := (netLts ι).within Net.Closed

/-! ## What all messages have in common -/

/-- A property that every message has when it is composed, and keeps when it is passed on. -/
structure Spoken (P : Bytes → Prop) : Prop where
  queued : ∀ {c t : Clt} {e : CltEvent}, RecvOk c.rbuf → cltStep c e = some t →
    ∀ b ∈ e.queued c, P b
  relayed : ∀ (c : Client) {m : Mbuf}, Whole m.b → P m.b → P (fillSrcid c m).b
  replied : ∀ {m r : Mbuf}, IsReply m r → P r.b

/-- All messages on their way have the property, wherever they are and however they are cut. -/
def Net.All (P : Bytes → Prop) (s : Net ι) : Prop :=
  ∀ i, (∀ b ∈ msgFormat.frames ((s.ends i).upward s.srv), P b) ∧
    ∀ b ∈ msgFormat.frames ((s.ends i).downward s.srv), P b

namespace Spoken

variable {P : Bytes → Prop} {s t : Net ι}

/-- A client adds what it composes. -/
theorem client (hP : Spoken P) {i : ι} {e : CltEvent} (hs : NetOk s) (hall : s.All P)
    (hstep : (netLts ι).step s (.client i e) t) : t.All P := by
  obtain ⟨hsrv, hturn, hothers⟩ := hstep
  intro j
  rw [hsrv]
  by_cases hj : j = i
  · subst hj
    obtain ⟨⟨hup, hqueued⟩, hdown, hhanded⟩ := hturn.streams (s := s.srv) (hs.ends j).clt
    constructor
    · rw [hup, (hs.ends j).up.frames_append, frames_flatten_whole hqueued]
      intro b hb
      rcases List.mem_append.mp hb with hb | hb
      · exact (hall j).1 b hb
      · exact hP.queued (hs.ends j).clt.rbuf hturn.step.2 b hb
    · intro b hb
      refine (hall j).2 b ?_
      rw [hdown, (frames_flatten_append hhanded _).1]
      exact List.mem_append_right _ hb
  · rw [hothers j hj]
    exact hall j

/-- The server adds what has come from one of the clients, and its replies. -/
theorem server (hP : Spoken P) {e : SrvEvent} (hs : NetOk s) (hclosed : s.Closed)
    (hall : s.All P) (hstep : (netLts ι).step s (.server e) t) : t.All P := by
  obtain ⟨hcount, hserved, -⟩ := hstep
  obtain ⟨hok, -⟩ := idsOk_inductive.invariant _ hs.srv
  obtain ⟨hok', -⟩ := idsOk_inductive.invariant _ (hs.srv.step hcount)
  have hstreams := fun j => (hserved j).streams hok hok' hcount.1.1 hcount.1.2.2 (hs.ends j)
  have hfrom : ∀ k m, incoming s.srv e = some (k, m) → Whole m.b ∧ P m.b := by
    intro k m hinc
    obtain ⟨now, bs, env, u, reply, -, hl, hwhole, -⟩ :=
      message_step hok hcount.1.1 hcount.1.2.2 hinc
    obtain ⟨i, hi⟩ := hclosed _ ⟨k, hl, rfl⟩
    have hgiven : (s.ends i).given s.srv e = [m.b] := by
      rw [Endpoint.given, hi, Option.elim_some, handed, hinc]
      exact if_pos rfl
    refine ⟨hwhole, (hall i).1 m.b ?_⟩
    obtain ⟨⟨hup, hnew⟩, -⟩ := hstreams i
    rw [hup, (frames_flatten_append hnew _).1, hgiven]
    exact List.mem_append_left _ (List.mem_singleton_self _)
  have hqueues : ∀ x, e.Queues s.srv x → P x := by
    rintro x ⟨k, m, hinc, rfl | ⟨r, hr, rfl⟩⟩
    · obtain ⟨hwhole, hm⟩ := hfrom k m hinc
      exact hP.relayed _ hwhole hm
    · exact hP.replied hr
  intro j
  obtain ⟨⟨hup, hnew⟩, ms, hms, hdown⟩ := hstreams j
  constructor
  · intro b hb
    refine (hall j).1 b ?_
    rw [hup, (frames_flatten_append hnew _).1]
    exact List.mem_append_right _ hb
  · rw [hdown, (hs.ends j).down.frames_append, frames_flatten_whole fun x hx => (hms x hx).1]
    intro b hb
    rcases List.mem_append.mp hb with hb | hb
    · exact (hall j).2 b hb
    · exact hqueues b (hms b hb).2

/-- **What is spoken is heard**: where only clients of this kind are connected, all messages on
their way have what all messages have that are composed. -/
theorem everywhere (hP : Spoken P) :
    (closedLts ι).Inductive fun s => (NetOk s ∧ s.Closed) ∧ s.All P where
  init := by
    rintro s ⟨hinit, hclosed⟩
    refine ⟨⟨(netOk_inductive ι).init s hinit, hclosed⟩, fun i => ?_⟩
    obtain ⟨-, hup, hdown⟩ := (hinit.2 i).idle s.srv
    rw [hup, hdown, FrameFormat.frames_nil]
    exact ⟨fun b hb => absurd hb List.not_mem_nil, fun b hb => absurd hb List.not_mem_nil⟩
  step := by
    rintro s e t ⟨⟨hok, hclosed⟩, hall⟩ ⟨hstep, hclosed'⟩
    refine ⟨⟨(netOk_inductive ι).step s e t hok hstep, hclosed'⟩, ?_⟩
    cases e with
    | client i e => exact hP.client hok hall hstep
    | server e => exact hP.server hok hclosed hall hstep

end Spoken

/-! ## GETFILE requests -/

/-- If the message is a GETFILE request, it is for no more octets than fit into a message. -/
def Modest (b : Bytes) : Prop :=
  hdrGetType (msg b) = MsgType.code .getfileReq →
    ∃ (h : Hdr) (oid offset size : UInt64), size ≤ MAX_DATA_SIZE ∧
      b = (mkMsg h (tlvs [(.offerid, .ui64 oid), (.offset, .ui64 offset), (.size, .ui64 size)]) 0).b

section Requests

variable {env : CltEnv} {c c' t : Clt} {m r : Mbuf}

theorem modest_getfileRequest {d : Transfer} {oid sz : UInt64}
    (h : Clt.getfileRequest env d oid sz = some r) : Modest r.b := by
  intro _
  obtain ⟨-, rfl⟩ := compose_eq_some (by simp [AttrArg.avtype, MsgAttrib.avtype]) h
  refine ⟨_, oid, d.offset, _, ?_, rfl⟩
  split
  · exact UInt64.le_of_lt ‹_›
  · exact UInt64.le_refl _

/-- A response that leads on to the next request. -/
theorem processGetfileRes_modest (h : Clt.processGetfileRes env c m = some (c', .send r)) :
    Modest r.b := by
  unfold Clt.processGetfileRes at h
  split at h
  · cases h
  · dsimp only at h
    split at h
    · cases h
    · split at h
      · cases h
      · split at h
        · cases h
        · split at h
          · cases h
          · obtain ⟨r', hr, heq⟩ := Option.bind_eq_some_iff.mp h
            cases heq
            exact modest_getfileRequest hr

/-- The answer to a message is modest. -/
theorem dispatchSrvmsg_modest (h : Clt.dispatchSrvmsg env c m = some (c', .send r)) :
    Modest r.b := by
  intro htype
  obtain ⟨T, U, hm, hu, hr⟩ := (Clt.dispatchSrvmsg_answer h).2 r rfl
  obtain rfl : U = .getfileReq := MsgType.code_injective (hr.symm.trans htype)
  cases T with
  | getfileRes =>
      rw [Clt.dispatchSrvmsg, hm, MsgType.ofCode?_code] at h
      exact processGetfileRes_modest h htype
  | _ => cases hu

/-- The first request for a download. -/
theorem cmdAccept_modest {rid oid : UInt64} (h : Clt.cmdAccept env c rid oid = some t) :
    ∃ new, t.q = c.q ++ new ∧ ∀ x ∈ new, Modest x.b := by
  have hnone : ∀ x ∈ ([] : List Mbuf), Modest x.b := fun x hx => absurd hx List.not_mem_nil
  unfold Clt.cmdAccept at h
  split at h
  · cases h
    exact ⟨[], (List.append_nil _).symm, hnone⟩
  · split at h
    · cases h
      exact ⟨[], (List.append_nil _).symm, hnone⟩
    · obtain ⟨r, hreq, rfl⟩ := Option.map_eq_some_iff.mp h
      obtain ⟨new, ht, rfl | rfl⟩ := Clt.submit_spec (c.put _ _) r
      · exact ⟨[], by rw [ht]; rfl, hnone⟩
      · refine ⟨[{ r with boff := 0 }], by rw [ht]; rfl, fun x hx => ?_⟩
        obtain rfl := List.mem_singleton.mp hx
        exact modest_getfileRequest (r := r) hreq

/-- Whatever makes a client queue a GETFILE request, it queues a modest one. -/
theorem queued_modest {e : CltEvent} (hc : RecvOk c.rbuf) (h : cltStep c e = some t) :
    ∀ b ∈ e.queued c, Modest b := by
  intro b hb htype
  have hutter := queued_utters hc h b hb
  rw [htype] at hutter
  rcases hutter.getfile (by decide) with ⟨rid, oid, env, rfl⟩ | ⟨env, m, hmsg, -⟩
  · -- An offer has been accepted.
    obtain ⟨new, hq, hnew⟩ := cmdAccept_modest h
    rw [queued_eq (by simp) h hq] at hb
    obtain ⟨x, hx, rfl⟩ := List.mem_map.mp hb
    exact hnew x hx htype
  · -- A response leads on to the next request.
    have hne : ∀ res, e ≠ .write res := by
      rintro res rfl
      cases hmsg
    obtain ⟨hm, hproc⟩ := cltStep_message hc hmsg h
    rcases Clt.processSrvmsg_cases hm hproc with rfl | ⟨c₁, c₂, a, new, hsol, hdisp, -, rfl, hsends⟩
    · rw [queued_eq hne h (List.append_nil _).symm] at hb
      cases hb
    · obtain ⟨-, ⟨hq, -, -⟩, -⟩ := Clt.solicited_spec hsol
      have hall : (c₂.q ++ new) = c.q ++ new :=
        congrArg (· ++ new) ((Clt.dispatch_q hdisp).trans hq)
      rw [queued_eq hne h hall] at hb
      obtain ⟨x, hx, rfl⟩ := List.mem_map.mp hb
      cases a with
      | nothing =>
          rw [show new = [] from hsends] at hx
          cases hx
      | send r =>
          rw [show new = [{ r with boff := 0 }] from hsends] at hx
          obtain rfl := List.mem_singleton.mp hx
          exact dispatchSrvmsg_modest (r := r) hdisp htype
      | fail ec =>
          obtain ⟨r, rfl, hr⟩ := hsends
          rw [List.mem_singleton.mp hx] at htype
          have herr := mclassIsErr_mclassToErr (hdrGetType m)
          rw [← hr, show hdrGetType r = _ from htype] at herr
          exact absurd herr (by decide)

/-- The id of the sender is all that the server changes in a message it passes on. -/
theorem fillSrcid_modest (c : Client) (hm : Whole m.b) (h : Modest m.b) :
    Modest (fillSrcid c m).b := by
  intro htype
  have hlong : 40 ≤ m.bsize := hm.hdr
  have htype' : hdrGetType (msg m.b) = MsgType.code .getfileReq :=
    (hdrGetType_fillSrcid (c := c) hlong).symm.trans htype
  obtain ⟨hd, oid, offset, size, hsize, heq⟩ := h htype'
  obtain ⟨hd', body, boff, rfl⟩ := exists_msg hlong
  obtain ⟨-, rfl⟩ := List.append_inj (show hd'.bytes ++ body = hd.bytes ++ _ from heq) (by simp)
  unfold fillSrcid
  split
  · exact ⟨{ hd' with srcid := c.id }, oid, offset, size, hsize, by rw [hdrSetSrcid_mkMsg]; rfl⟩
  · exact ⟨hd', oid, offset, size, hsize, rfl⟩

end Requests

/-- **Every GETFILE request is modest** when a client composes it, and the server leaves it so. -/
theorem spoken_modest : Spoken Modest where
  queued := queued_modest
  relayed := fun c _ => fillSrcid_modest c
  replied := by
    intro m r hr htype
    have hreq := hr.not_req
    rw [isReq, show hdrGetType _ = _ from htype] at hreq
    exact absurd hreq (by decide)

/-! ## What a client can be sent -/

section Clients

variable {env : CltEnv} {c : Clt} {m : Mbuf} {o : Transfer} {x y : UInt64}

/-- The SIZE of a request whose attributes are known. -/
theorem requestFields_size {oid : UInt64} {offset size : Option UInt64}
    (hattr : attribs m = (MsgAttrib.code .offerid, be64 oid) :: rangeAttribs offset size)
    (hm : 40 ≤ m.bsize) (h : requestFields env c m = some (o, x, y)) :
    y = if offset.isSome then size.getD 0 else 0 := by
  obtain ⟨a, m', hoid, -, hl⟩ := Clt.nextIf_of_attribs hattr
  obtain ⟨-, hsize⟩ := nextUi64_of_range env (by omega) hl
  rw [requestFields, hoid, Option.bind_some] at h
  obtain ⟨u, -, heq⟩ := Option.map_eq_some_iff.mp h
  simp only [Prod.mk.injEq] at heq
  rw [← heq.2.2, hsize]

/-- A modest request is served. -/
theorem Modest.servedSafely (h : Modest m.b) (hreq : GetfileReq env c m o x y)
    (hmem : MAX_DATA_SIZE.toNat ≤ env.memory) : ServedSafely env.toSysEnv c.disk o x y := by
  obtain ⟨hd, oid, offset, size, hsize, heq⟩ := h hreq.type
  have hm : m = mkMsg hd (tlvs [(.offerid, .ui64 oid), (.offset, .ui64 offset),
      (.size, .ui64 size)]) m.boff := congrArg (fun b => Mbuf.mk b m.boff) heq
  have hattr : attribs m = (MsgAttrib.code .offerid, be64 oid) ::
      rangeAttribs (some offset) (some size) := by
    rw [hm, attribs_tlvs _ _ _ (by simp [AttrArg.octets])]
    rfl
  have hle : y.toNat ≤ MAX_DATA_SIZE.toNat := by
    rw [requestFields_size hattr hreq.hdr hreq.fields]
    exact UInt64.le_iff_toNat_le.mp hsize
  refine .inr fun content _ _ _ => ⟨Nat.le_trans hle hmem, fun count _ => ?_⟩
  exact Nat.le_trans (length_readAt_le _ _ _ _) hle

end Clients

/-- Complete messages announce no more than a message can carry. -/
theorem Aligned.wellSized {b : Bytes} (h : Aligned b) : msgFormat.WellSized MSG_MAX_PAY_SIZE b := by
  obtain ⟨ms, hms, rfl⟩ := h
  obtain ⟨hframes, hrest⟩ := frames_flatten_append hms []
  rw [List.append_nil] at hframes hrest
  rw [FrameFormat.frames_nil, List.append_nil] at hframes
  rw [FrameFormat.rest_nil] at hrest
  refine ⟨fun f hf => ?_, fun hlong => ?_⟩
  · rw [hframes] at hf
    have hsize := (hms f hf).size
    have hmax := (hms f hf).max
    rw [FrameFormat.size, msgFormat_hdr] at hsize
    rw [msgFormat_hdr]
    unfold MSG_MAX_SIZE MSG_HDR_SIZE at hmax
    omega
  · rw [hrest] at hlong
    exact absurd hlong (by decide)

/-- No stream of complete messages has a header that is too long. -/
theorem not_aligned_of_oversized {rbuf : Mbuf} {res : ReadRes} (h : Oversized rbuf res) :
    ∃ bs, res = .got bs ∧ ∀ rest, ¬ Aligned (rbuf.received ++ (bs.take rbuf.room ++ rest)) := by
  obtain ⟨bs, hres, hlen, hbig⟩ := h
  refine ⟨bs, hres, fun rest hall => ?_⟩
  rw [← List.append_assoc] at hall
  have htake : (rbuf.received ++ bs.take rbuf.room).take msgFormat.hdr =
      rbuf.received ++ bs.take rbuf.room := List.take_of_length_le (Nat.le_of_eq hlen)
  refine FrameFormat.not_wellSized_of_header (F := msgFormat) rest (Nat.le_of_eq hlen.symm) ?_
    hall.wellSized
  rw [htake]
  exact hbig

/-- A message that is complete is the next one of its stream. -/
theorem mem_frames_of_complete {rbuf : Mbuf} {res : ReadRes} {m : Mbuf} (hbuf : RbufOk rbuf)
    (h : readOutcome rbuf res = .complete m) : ∃ bs, res = .got bs ∧
      ∀ rest, m.b ∈ msgFormat.frames (rbuf.received ++ (bs.take rbuf.room ++ rest)) := by
  have hspec := readOutcome_spec hbuf res
  rw [h] at hspec
  cases hspec with
  | complete bs _ hres _ hwhole _ hb =>
      refine ⟨bs, hres, fun rest => ?_⟩
      have hone : ∀ x ∈ [m.b], Whole x := fun x hx => List.mem_singleton.mp hx ▸ hwhole
      have hframes := (frames_flatten_append hone rest).1
      rw [List.flatten_singleton] at hframes
      rw [← List.append_assoc, ← hb, hframes]
      exact List.mem_append_left _ (List.mem_singleton_self _)

/-- What a client reads is the beginning of the stream. -/
theorem Endpoint.downward_read {p : Endpoint} {s : Server} {bs : Bytes} {env : CltEnv}
    (hrbuf : RecvOk p.clt.rbuf)
    (hin : (CltEvent.read (.got bs) env).octetsIn p.clt <+: p.down) :
    ∃ rest, p.downward s = (p.clt.rbuf.getD mbufNew).received ++
      (bs.take (p.clt.rbuf.getD mbufNew).room ++ rest) := by
  obtain ⟨rest, hrest⟩ := hin
  refine ⟨rest ++ (p.slot s).elim [] fun c => unsent c.q, ?_⟩
  rw [Endpoint.downward, hrbuf.getD.2, ← hrest, List.append_assoc]
  rfl

/-- A client has room for what an answer can carry when it reads. -/
def CltEvent.Roomy : CltEvent → Prop
  | .read _ env => MAX_DATA_SIZE.toNat ≤ env.memory
  | _ => True

/-- Nothing that is read ends a client whose incoming requests are all modest. -/
theorem not_stops_read {p : Endpoint} {s : Server} {res : ReadRes} {env : CltEnv}
    (hrbuf : RecvOk p.clt.rbuf) (hdown : Aligned (p.downward s))
    (hall : ∀ b ∈ msgFormat.frames (p.downward s), Modest b)
    (hin : (CltEvent.read res env).octetsIn p.clt <+: p.down)
    (hmem : MAX_DATA_SIZE.toNat ≤ env.memory) (hpw : ¬ Overlong 0 p.clt.authDigest) :
    ¬ (CltEvent.read res env).Stops p.clt := by
  rintro (hbig | ⟨m, hmsg, hstop⟩)
  · obtain ⟨bs, rfl, hno⟩ := not_aligned_of_oversized hbig
    obtain ⟨rest, hrest⟩ := Endpoint.downward_read (s := s) hrbuf hin
    exact hno rest (hrest ▸ hdown)
  · rcases hstop with ⟨o, x, y, hreq, hbad⟩ | ⟨-, hlong⟩
    · refine hbad (Modest.servedSafely (hall m.b ?_) hreq hmem)
      rw [CltEvent.message_read] at hmsg
      split at hmsg
      · rename_i m' hout
        cases hmsg
        obtain ⟨bs, rfl, hframes⟩ := mem_frames_of_complete hrbuf.getD.1 hout
        obtain ⟨rest, hrest⟩ := Endpoint.downward_read (s := s) hrbuf hin
        rw [hrest]
        exact hframes rest
      · cases hmsg
    · exact hpw hlong

/-- **A client is only ended by its own user, or by a name**: where all connections of the server
belong to clients of this kind, a step of one of them ends it exactly if it is a command that ends
it, or prints a line about a transfer that is too long for its buffer, whatever the others have
sent, provided that the password fits into a message and that there is memory for what fits into
one. -/
theorem peers_harmless {s : Net ι} (hs : (closedLts ι).Reachable s) {i : ι} {e : CltEvent}
    (hen : e.Enabled (s.ends i).clt) (hin : e.octetsIn (s.ends i).clt <+: (s.ends i).down)
    (hroom : e.Roomy) (hpw : ¬ Overlong 0 (s.ends i).clt.authDigest)
    (hprint : ∀ p ∈ e.prints (s.ends i).clt, Printable p.env p.entry) :
    cltStepPrinting (s.ends i).clt e = none ↔
      (∃ cmd env, e = .cmd cmd env ∧ cmd.Stops env (s.ends i).clt) ∨
        ∃ p ∈ e.prints (s.ends i).clt, p.TooLong := by
  obtain ⟨⟨hok, -⟩, hall⟩ := spoken_modest.everywhere.invariant s hs
  have hc := (hok.ends i).clt.rbuf
  rw [cltStepPrinting_none_iff hc hen hprint]
  refine or_congr_left ?_
  cases e with
  | cmd cmd env =>
      refine ⟨fun h => ⟨cmd, env, rfl, h⟩, ?_⟩
      rintro ⟨cmd', env', heq, h⟩
      cases heq
      exact h
  | read res env =>
      refine iff_of_false (not_stops_read hc (hok.ends i).down (hall i).2 hin hroom hpw) ?_
      rintro ⟨cmd, env', heq, -⟩
      cases heq
  | write res =>
      refine iff_of_false id ?_
      rintro ⟨cmd, env, heq, -⟩
      cases heq
  | upkeep env =>
      refine iff_of_false id ?_
      rintro ⟨cmd, env', heq, -⟩
      cases heq
  | outside fs =>
      refine iff_of_false id ?_
      rintro ⟨cmd, env, heq, -⟩
      cases heq

/-! ## What the server can be sent -/

/-- **A client of this kind does not end the server with a broken message**: as long as there is
no gap that is too long, a read from its connection ends the server exactly if it completes a
request that the server cannot serve. -/
theorem server_withstands {s : Net ι} (hs : (netLts ι).Reachable s) {i : ι} {fd : Int} {k : Nat}
    {now : Int} {res : ReadRes} {env : MsgEnv} (hconn : (s.ends i).conn = some fd)
    (hk : At s.srv fd k) (hgap : NoGap s.srv fd (.read k now res env))
    (hin : octetsRead s.srv fd (.read k now res env) <+: (s.ends i).up) :
    srvStep s.srv (.read k now res env) = none ↔
      ∃ m, incoming s.srv (.read k now res env) = some (k, m) ∧
        Exits env s.srv k (fillSrcid (s.srv.clients k) m) := by
  have hok := (netOk_inductive ι).invariant s hs
  obtain ⟨hslots, -⟩ := idsOk_inductive.invariant _ hok.srv
  rw [srvStep_read_eq_none_iff (srvLts_of_counting hok.srv) hk.1]
  refine or_iff_right fun hbig => ?_
  obtain ⟨bs, rfl, hno⟩ := not_aligned_of_oversized hbig
  obtain ⟨rest, hrest⟩ := hin
  have hbuf : slotBuffer s.srv k now = (s.srv.clients k).rbuf.getD mbufNew := by
    rw [slotBuffer, hgap hk.2]
  have hread : octetsRead s.srv fd (.read k now (.got bs) env) =
      bs.take (slotBuffer s.srv k now).room := if_pos hk.2
  have hrec : received (s.srv.clients k).rbuf = (slotBuffer s.srv k now).received := by
    rw [hbuf]
    cases (s.srv.clients k).rbuf with
    | none => exact received_new.symm
    | some r => rfl
  refine hno (rest ++ unsent (s.ends i).clt.q) ?_
  have hup := (hok.ends i).up
  rw [Endpoint.upward, Endpoint.slot_of_at hslots hconn hk, Option.elim_some, ← hrest, hread, hrec,
    List.append_assoc] at hup
  exact hup

/-! ## A request between two clients -/

instance (s : Net Bool) : Decidable s.Closed :=
  decidable_of_iff (∀ k ∈ s.srv.slots, s.srv.Live k →
      (s.ends false).conn = some (s.srv.clients k).fd ∨
        (s.ends true).conn = some (s.srv.clients k).fd) <| by
    constructor
    · rintro h fd ⟨k, hl, rfl⟩
      rcases h k (Server.mem_slots.mpr hl.1) hl with hfd | hfd
      · exact ⟨false, hfd⟩
      · exact ⟨true, hfd⟩
    · intro h k _ hl
      obtain ⟨i, hi⟩ := h _ ⟨k, hl, rfl⟩
      cases i with
      | false => exact .inl hi
      | true => exact .inr hi

/-- The steps after which nobody else is connected. -/
def closedTry (s : Net Bool) (e : NetEvent Bool) : Option (Net Bool) :=
  (netTry s e).filter fun t => decide t.Closed

theorem closedTry_step (s : Net Bool) (e : NetEvent Bool) (t : Net Bool)
    (h : closedTry s e = some t) : (closedLts Bool).step s e t := by
  obtain ⟨ht, hclosed⟩ := Option.filter_eq_some_iff.mp h
  exact ⟨netTry_step s e t ht, of_decide_eq_true hclosed⟩

/-- The second client accepts what the first has offered, and its request is almost read. -/
def requested : List (Net Bool → NetEvent Bool) :=
  offered ++ [fun _ => .client true (.cmd (.accept 1 2) demoEnv)] ++ sendUp true 1 ++
    (sendDown false 0).dropLast

theorem peers_harmless_request : ∃ (s : Net Bool) (m : Mbuf), (closedLts Bool).Reachable s ∧
    (CltEvent.read (.got (s.ends false).down) demoEnv).message (s.ends false).clt =
      some (demoEnv, m) ∧ hdrGetType m = MsgType.code .getfileReq ∧
    (cltStepPrinting (s.ends false).clt (.read (.got (s.ends false).down) demoEnv) = none ↔
      (∃ cmd env, CltEvent.read (.got (s.ends false).down) demoEnv = .cmd cmd env ∧
        cmd.Stops env (s.ends false).clt) ∨
        ∃ p ∈ (CltEvent.read (.got (s.ends false).down) demoEnv).prints (s.ends false).clt,
          p.TooLong) := by
  have hexec : (Lts.script closedTry demoNet requested).any (fun s =>
      (((CltEvent.read (.got (s.ends false).down) demoEnv).message (s.ends false).clt).any fun p =>
        hdrGetType p.2 == MsgType.code .getfileReq) && decide (0 ≤ (s.ends false).clt.srvfd ∧
        (CltEvent.read (.got (s.ends false).down) demoEnv).octetsIn (s.ends false).clt <+:
          (s.ends false).down ∧ ¬ Overlong 0 (s.ends false).clt.authDigest ∧
        ∀ p ∈ (CltEvent.read (.got (s.ends false).down) demoEnv).prints (s.ends false).clt,
          Printable p.env p.entry)) = true := by
    decide +kernel
  obtain ⟨es, s, hrun, hp⟩ := Lts.run_of_script closedTry_step hexec
  rw [Bool.and_eq_true, Option.any_eq_true, decide_eq_true_eq] at hp
  obtain ⟨⟨⟨env, m⟩, hm, htype⟩, hup, hin, hpw, hprint⟩ := hp
  have hs : (closedLts Bool).Reachable s :=
    .run (.init ⟨demoNet_init, by decide +kernel⟩) hrun
  have hroom : MAX_DATA_SIZE.toNat ≤ demoEnv.memory := by decide +kernel
  have henv : env = demoEnv := by
    rw [CltEvent.message_read] at hm
    split at hm
    · cases hm
      rfl
    · cases hm
  subst henv
  exact ⟨s, m, hs, hm, beq_iff_eq.mp htype, peers_harmless hs hup hin hroom hpw hprint⟩

/-- The first client asks for the list of peers, and the server reads all of it. -/
theorem server_withstands_peerlist : ∃ s : Net Bool, (netLts Bool).Reachable s ∧
    (s.ends false).conn = some 4 ∧
    (incoming s.srv (.read 0 1 (.got (s.ends false).up) quietEnv)).isSome = true ∧
    (srvStep s.srv (.read 0 1 (.got (s.ends false).up) quietEnv) = none ↔
      ∃ m, incoming s.srv (.read 0 1 (.got (s.ends false).up) quietEnv) = some (0, m) ∧
        Exits quietEnv s.srv 0 (fillSrcid (s.srv.clients 0) m)) := by
  have hexec : (Lts.script netTry demoNet (loginBoth ++
      [fun _ => .client false (.cmd .peerlist demoEnv),
        fun _ => .client false (.write (.sent 1000))])).any (fun s =>
      decide ((s.ends false).conn = some 4 ∧ At s.srv 4 0 ∧
        NoGap s.srv 4 (.read 0 1 (.got (s.ends false).up) quietEnv) ∧
        octetsRead s.srv 4 (.read 0 1 (.got (s.ends false).up) quietEnv) <+: (s.ends false).up) &&
      (incoming s.srv (.read 0 1 (.got (s.ends false).up) quietEnv)).isSome) = true := by
    decide +kernel
  obtain ⟨es, s, hrun, hp⟩ := Lts.run_of_script netTry_step hexec
  rw [Bool.and_eq_true, decide_eq_true_eq] at hp
  obtain ⟨⟨hconn, hk, hgap, hin⟩, hinc⟩ := hp
  have hs : (netLts Bool).Reachable s := (Lts.Reachable.init demoNet_init).run hrun
  exact ⟨s, hs, hconn, hinc, server_withstands hs hconn hk hgap hin⟩

end Frelay
