import Frelay.Client.Effect

/-!
# The streams of one connection

What the client reads from a connection and writes to it, whatever became of the
connections before. The receive buffer and the send queue outlive a connection:

* `receive_framing` — the messages handed to `process_srvmsg` are the frames of
  what came in on the connection, in the runs in which a connection is opened
  while the receive buffer is empty;
* `send_framing` — what goes out on a connection is the beginning of a sequence
  of complete messages, in the runs in which a connection is opened while no
  message of the queue is partly sent.
-/

namespace Frelay

open Lib

/-! ## What a step reads and writes -/

/-- The step opens a connection. -/
def CltEvent.Opens : CltEvent → Prop
  | .cmd (.connect (some _)) _ => True
  | _ => False

instance (e : CltEvent) : Decidable e.Opens := by
  unfold CltEvent.Opens
  split <;> infer_instance

/-- The octets a step takes from the connection. -/
def CltEvent.octetsIn (c : Clt) : CltEvent → Bytes
  | .read (.got bs) _ => bs.take (c.rbuf.getD mbufNew).room
  | _ => []

/-- The octets a step puts on the connection. -/
def CltEvent.octetsOut (c : Clt) : CltEvent → Bytes
  | .write res => (c.q.head?.map fun m => octetsSent m res).getD []
  | _ => []

/-- Only reading changes the receive buffer. -/
theorem cltStep_rbuf {c t : Clt} {e : CltEvent} (hne : ∀ res env, e ≠ .read res env)
    (h : cltStep c e = some t) : t.rbuf = c.rbuf := by
  cases e with
  | cmd cmd env =>
      by_cases hacc : ∃ rid oid, cmd = .accept rid oid
      · obtain ⟨rid, oid, rfl⟩ := hacc
        rcases Clt.cmdAccept_cases h with rfl | ⟨d, k, d', new, -, rfl⟩
        · rfl
        · rfl
      · exact (Clt.runCmd_quiet (fun rid oid heq => hacc ⟨rid, oid, heq⟩) h).rbuf
  | read res env => exact absurd rfl (hne res env)
  | write res => exact (Clt.writeSrv_quiet h).rbuf
  | upkeep env =>
      cases h
      exact (Clt.upkeep_quiet env c).rbuf
  | outside fs =>
      cases h
      rfl

/-! ## What comes in -/

/-- What came in on the connection that was opened last, and the messages handed
to `process_srvmsg` since. -/
structure Inbound where
  stream : Bytes
  frames : List Bytes
  deriving DecidableEq

def Inbound.empty : Inbound := ⟨[], []⟩

def Inbound.note (c : Clt) (e : CltEvent) (i : Inbound) : Inbound :=
  if e.Opens then .empty
  else ⟨i.stream ++ e.octetsIn c, i.frames ++ ((e.message c).map fun p => p.2.b).toList⟩

/-- A connection is opened while the receive buffer is empty. -/
def FreshBuffer (c : Clt) (e : CltEvent) : Prop := e.Opens → received c.rbuf = []

instance (c : Clt) (e : CltEvent) : Decidable (FreshBuffer c e) :=
  inferInstanceAs (Decidable (_ → _))

/-- The frames have been delivered, and the buffer holds what follows them. -/
structure Inbound.Ok (c : Clt) (i : Inbound) : Prop where
  frames : i.frames = msgFormat.frames i.stream
  rest : received c.rbuf = msgFormat.rest i.stream
  whole : ∀ f ∈ i.frames, Whole f

/-- A step that reads nothing, opens nothing and leaves the buffer as it is. -/
theorem Inbound.Ok.idle {c t : Clt} {i : Inbound} {e : CltEvent} (hi : i.Ok c) (hopen : ¬ e.Opens)
    (hin : e.octetsIn c = []) (hmsg : e.message c = none)
    (hrbuf : received t.rbuf = received c.rbuf) : (i.note c e).Ok t := by
  have hnote : i.note c e = i := by
    rw [Inbound.note, if_neg hopen, hin, hmsg, List.append_nil]
    exact congrArg (Inbound.mk i.stream) (List.append_nil _)
  rw [hnote]
  exact ⟨hi.frames, hrbuf.trans hi.rest, hi.whole⟩

/-- One read delivers the frame it completes. -/
theorem Inbound.Ok.read {c t : Clt} {i : Inbound} {res : ReadRes} {env : CltEnv}
    (hc : RecvOk c.rbuf) (hi : i.Ok c) (h : cltStep c (.read res env) = some t) :
    (i.note c (.read res env)).Ok t := by
  obtain ⟨hrb, hrec⟩ := hc.getD
  have hspec := readOutcome_spec hrb res
  have hmsg := CltEvent.message_read c res env
  have hopen : ¬ (CltEvent.read res env).Opens := id
  change Clt.readSrv env c res = some t at h
  unfold Clt.readSrv at h
  simp only at h
  generalize hout : readOutcome (c.rbuf.getD mbufNew) res = out at h hspec hmsg
  cases hspec with
  | disconnect =>
      cases h
      refine hi.idle hopen ?_ hmsg hrec.symm
      cases res with
      | failed fatal => rfl
      | got bs => exact no_octets_of_disconnect hout
  | again hres =>
      cases h
      subst hres
      exact hi.idle hopen rfl hmsg hrec.symm
  | exits => cases h
  | pending bs m hres _ hok hm =>
      cases h
      subst hres
      -- What was pending and what came in make up the rest of the stream.
      obtain ⟨hframes, hrest⟩ := msgFormat.frames_append i.stream (bs.take (c.rbuf.getD mbufNew).room)
      rw [← hi.rest, hrec, ← hm] at hframes hrest
      have hnot := hok.pending.1
      rw [msgFormat.frames_of_not_complete hnot, List.append_nil] at hframes
      rw [msgFormat.rest_of_not_complete hnot] at hrest
      rw [Inbound.note, if_neg hopen, hmsg]
      refine ⟨(List.append_nil _).trans (hi.frames.trans hframes.symm), hrest.symm, ?_⟩
      intro f hf
      exact hi.whole f (by simpa using hf)
  | complete bs m hres _ hwhole _ hm =>
      subst hres
      have hproc : Clt.processSrvmsg env { c with rbuf := none } m = some t := h
      have hrbuf : t.rbuf = none := (Clt.processSrvmsg_conn hwhole.hdr hproc).1
      obtain ⟨hframes, hrest⟩ := msgFormat.frames_append i.stream (bs.take (c.rbuf.getD mbufNew).room)
      rw [← hi.rest, hrec, ← hm] at hframes hrest
      obtain ⟨hone, hnone⟩ := msgFormat.frames_of_length_eq hwhole.hdr hwhole.size
      rw [hone, ← hi.frames] at hframes
      rw [hnone] at hrest
      rw [Inbound.note, if_neg hopen, hmsg]
      refine ⟨hframes.symm, by rw [hrbuf]; exact hrest.symm, ?_⟩
      intro f hf
      rcases List.mem_append.mp hf with hf | hf
      · exact hi.whole f hf
      · rw [List.mem_singleton.mp hf]
        exact hwhole

theorem Inbound.Ok.step {c t : Clt} {i : Inbound} {e : CltEvent} (hc : RecvOk c.rbuf) (hi : i.Ok c)
    (h : cltStep c e = some t) (hfresh : FreshBuffer c e) : (i.note c e).Ok t := by
  by_cases hread : ∃ res env, e = .read res env
  · obtain ⟨res, env, rfl⟩ := hread
    exact hi.read hc h
  · have hrbuf := cltStep_rbuf (fun res env heq => hread ⟨res, env, heq⟩) h
    by_cases hopen : e.Opens
    · rw [Inbound.note, if_pos hopen]
      refine ⟨msgFormat.frames_nil.symm, ?_, fun f hf => absurd hf List.not_mem_nil⟩
      rw [hrbuf, hfresh hopen]
      exact msgFormat.rest_nil.symm
    · have hnone : e.octetsIn c = [] ∧ e.message c = none := by
        cases e with
        | read res env => exact absurd ⟨res, env, rfl⟩ hread
        | _ => exact ⟨rfl, rfl⟩
      exact hi.idle hopen hnone.1 hnone.2 (by rw [hrbuf])

/-- **Receive framing survives reconnects**, in every run in which connections
are opened while the receive buffer is empty. -/
theorem receive_framing {s : Clt × Inbound}
    (hs : ((cltLts.guard FreshBuffer).observe .empty Inbound.note).Reachable s) :
    s.2.frames = msgFormat.frames s.2.stream ∧ ∀ f ∈ s.2.frames, Whole f := by
  have hinv : ((cltLts.guard FreshBuffer).observe .empty Inbound.note).Inductive
      fun s => CltOk s.1 ∧ s.2.Ok s.1 := by
    refine ⟨?_, ?_⟩
    · rintro ⟨c, i⟩ ⟨hinit, rfl⟩
      refine ⟨cltOk_inductive.init c hinit, ?_⟩
      obtain ⟨cfg, pubkey, fs, cwd, -, -, rfl⟩ := hinit
      exact ⟨msgFormat.frames_nil.symm, msgFormat.rest_nil.symm, fun f hf => absurd hf List.not_mem_nil⟩
    · rintro ⟨c, i⟩ e ⟨t, i'⟩ ⟨hok, hi⟩ ⟨⟨⟨hen, hstep⟩, hfresh⟩, rfl⟩
      exact ⟨hok.step hen hstep, hi.step hok.rbuf hstep hfresh⟩
  obtain ⟨-, hi⟩ := hinv.invariant s hs
  exact ⟨hi.frames, hi.whole⟩

/-- A step of the client that opens a connection only while the receive buffer is empty. -/
def freshBufferTry (c : Clt) (e : CltEvent) : Option Clt :=
  if FreshBuffer c e then cltTry c e else none

theorem freshBufferTry_step (c : Clt) (e : CltEvent) (t : Clt) (h : freshBufferTry c e = some t) :
    (cltLts.guard FreshBuffer).step c e t := by
  unfold freshBufferTry at h
  split at h
  · rename_i hfresh
    exact ⟨cltTry_step h, hfresh⟩
  · cases h

/-- A message on a second connection. -/
theorem receive_framing_again : ∃ s : Clt × Inbound, s.2.frames.length = 1 ∧
    s.2.frames = msgFormat.frames s.2.stream ∧ ∀ f ∈ s.2.frames, Whole f := by
  have hexec : (Lts.exec (Lts.observeFun freshBufferTry Inbound.note) (demoClient false [], .empty)
      (loginRun ++ [.read (.failed true) demoEnv, .cmd (.connect (some 3)) demoEnv] ++
        delivery (messageOctets .pingInd 5 1 [(.notice, .str (ascii "x"))]))).any (fun s =>
          s.2.frames.length == 1) = true := by
    decide +kernel
  have hinit : ((cltLts.guard FreshBuffer).observe .empty Inbound.note).init
      (demoClient false [], .empty) := ⟨demoClient_init false [], rfl⟩
  obtain ⟨s, hs, hp⟩ := Lts.reachable_of_exec (Lts.observeFun_step freshBufferTry_step) hinit hexec
  exact ⟨s, beq_iff_eq.mp hp, receive_framing hs⟩

/-- A connection ends after one octet; the first message of the next one is taken
for something else. -/
theorem receive_framing_lost : ∃ s : Clt × Inbound,
    (cltLts.observe .empty Inbound.note).Reachable s ∧ s.2.frames ≠ msgFormat.frames s.2.stream := by
  have hexec : (Lts.exec (Lts.observeFun cltTry Inbound.note) (demoClient false [], .empty)
      [.cmd (.connect (some 3)) demoEnv, .read (.got [0]) demoEnv, .cmd .disconnect demoEnv,
        .cmd (.connect (some 3)) demoEnv,
        .read (.got ((messageOctets .pingInd 0 1 []).take 39)) demoEnv,
        .read (.got ((messageOctets .pingInd 0 1 []).drop 39)) demoEnv]).any (fun s =>
          decide (s.2.frames ≠ msgFormat.frames s.2.stream)) = true := by
    decide +kernel
  have hinit : (cltLts.observe .empty Inbound.note).init (demoClient false [], .empty) :=
    ⟨demoClient_init false [], rfl⟩
  obtain ⟨s, hs, hp⟩ := Lts.reachable_of_exec
    (Lts.observeFun_step fun _ _ _ => cltTry_step) hinit hexec
  exact ⟨s, hs, of_decide_eq_true hp⟩

/-! ## What is sent is complete -/

namespace Clt

section Composed

variable {env : CltEnv} {c c₁ c' : Clt} {m r : Mbuf}

private theorem whole_sent {ts : UInt64} {type : MsgType} {dstid trfid : UInt64}
    {l : List (MsgAttrib × AttrArg)} (hty : ∀ a ∈ l, a.2.avtype = a.1.avtype)
    (h : ((compose ts type dstid trfid l).bind fun r => some (c₁, Answer.send r)) =
      some (c', .send r)) : Whole r.b := by
  obtain ⟨r', hr', heq⟩ := Option.bind_eq_some_iff.mp h
  simp only [Option.some.injEq, Prod.mk.injEq, Answer.send.injEq] at heq
  rw [← heq.2]
  exact whole_compose hty hr'

theorem processPing_whole (h : processPing env c m = some (c', .send r)) : Whole r.b := by
  unfold processPing at h
  split at h
  · exact whole_sent (by simp [AttrArg.avtype, MsgAttrib.avtype]) h
  · cases h

theorem processOfferReq_whole (h : processOfferReq env c m = some (c', .send r)) : Whole r.b := by
  unfold processOfferReq at h
  split at h
  · simp only at h
    split at h
    · cases h
    · exact whole_sent (by simp [AttrArg.avtype, MsgAttrib.avtype]) h
  · cases h

theorem getfileResponse_whole {oid : UInt64} {data : Bytes}
    (h : getfileResponse env c m oid data = some (c', .send r)) : Whole r.b :=
  whole_sent (by simp [AttrArg.avtype, MsgAttrib.avtype]) h

theorem processGetfileReq_whole (h : processGetfileReq env c m = some (c', .send r)) :
    Whole r.b := by
  unfold processGetfileReq at h
  split at h
  · cases h
  · simp only at h
    split at h
    · cases h
    · split at h
      · exact getfileResponse_whole h
      · split at h
        · cases h
        · cases h
        · exact getfileResponse_whole h

theorem processOfferRes_nothing {a : Answer} (h : processOfferRes env c m = some (c', a)) :
    a = .nothing := by
  unfold processOfferRes at h
  split at h
  · cases h
    rfl
  · split at h
    · cases h
      rfl
    · cases h
      rfl

/-- The requests for a download are complete messages. -/
theorem getfileRequest_whole {d : Transfer} {oid sz : UInt64}
    (h : getfileRequest env d oid sz = some r) : Whole r.b :=
  whole_compose (by simp [AttrArg.avtype, MsgAttrib.avtype]) h

theorem processGetfileRes_whole (h : processGetfileRes env c m = some (c', .send r)) :
    Whole r.b := by
  unfold processGetfileRes at h
  split at h
  · cases h
  · simp only at h
    split at h
    · cases h
    · split at h
      · cases h
      · split at h
        · cases h
        · split at h
          · cases h
          · obtain ⟨r', hr', heq⟩ := Option.bind_eq_some_iff.mp h
            simp only [Option.some.injEq, Prod.mk.injEq, Answer.send.injEq] at heq
            rw [← heq.2]
            exact getfileRequest_whole hr'

theorem processLoginRes_whole (h : processLoginRes env c m = some (c', .send r)) : Whole r.b := by
  unfold processLoginRes at h
  split at h
  · split at h
    · cases h
    · split at h
      · cases h
      · split at h
        · split at h
          · exact whole_sent (by simp [AttrArg.avtype, MsgAttrib.avtype]) h
          · cases h
        · cases h
  · cases h

/-- What the handler of a message sends is a complete message. -/
theorem dispatchSrvmsg_whole (h : dispatchSrvmsg env c m = some (c', .send r)) : Whole r.b := by
  have hplain : ∀ {p : Prop} [Decidable p] {st : CltState},
      (if p then some ({ c with st := st }, Answer.nothing) else some (c, .nothing)) ≠
        some (c', .send r) := by
    intro p _ st heq
    split at heq <;> cases heq
  unfold dispatchSrvmsg at h
  split at h
  · exact processPing_whole h
  · exact processPing_whole h
  · exact processOfferReq_whole h
  · exact processGetfileReq_whole h
  · cases processOfferRes_nothing h
  · exact processGetfileRes_whole h
  · exact processLoginRes_whole h
  · exact absurd h hplain
  · exact absurd h hplain
  · exact absurd h hplain
  · cases h

end Composed

end Clt

/-! ## What goes out -/

/-- The step puts complete messages, of which nothing has been sent, into the queue. -/
def Queues (c t : Clt) : Prop :=
  ∃ new, t.q = c.q ++ new ∧ ∀ r ∈ new, Whole r.b ∧ r.boff = 0

theorem Queues.of_eq {c t : Clt} (h : t.q = c.q) : Queues c t :=
  ⟨[], h.trans (List.append_nil _).symm, fun _ hr => absurd hr List.not_mem_nil⟩

namespace Clt

theorem enqueueMsg_queues {c t : Clt} {r : Mbuf} (hr : Whole r.b) (hq : c.q = t.q) :
    Queues t (c.enqueueMsg r) := by
  refine ⟨[{ r with boff := 0 }], by rw [enqueueMsg, hq], ?_⟩
  intro r' hr'
  rw [List.mem_singleton.mp hr']
  exact ⟨hr, rfl⟩

theorem submit_queues {c t : Clt} {r : Mbuf} (hr : Whole r.b) (hq : c.q = t.q) :
    Queues t (c.submit r) := by
  unfold submit
  split
  · exact .of_eq hq
  · exact enqueueMsg_queues hr hq

theorem request_queues {env : CltEnv} {c t u : Clt} {type : MsgType} {dstid : UInt64}
    {l : List (MsgAttrib × AttrArg)} (h : request env c type dstid l = some t) (hq : c.q = u.q)
    (hty : ∀ a ∈ l, a.2.avtype = a.1.avtype) : Queues u t := by
  obtain ⟨r, hr, rfl⟩ := Option.map_eq_some_iff.mp h
  exact submit_queues (whole_compose hty hr) hq

theorem processSrvmsg_queues {env : CltEnv} {c t : Clt} {m : Mbuf} (hm : 40 ≤ m.bsize)
    (h : processSrvmsg env c m = some t) : Queues c t := by
  unfold processSrvmsg at h
  split at h
  · cases h
    exact .of_eq rfl
  · rename_i c₁ hsol
    obtain ⟨⟨c₂, a⟩, hdisp, hsend⟩ := Option.bind_eq_some_iff.mp h
    have hq : c₂.q = c.q := by
      have hq₁ := (solicited_spec hsol).2.1.1
      cases dispatchSrvmsg_cases hdisp with
      | plain hp => exact hp.queues.1.trans hq₁
      | offer _ => exact hq₁
      | serve _ => exact hq₁
      | download _ => exact hq₁
    cases a with
    | nothing =>
        cases hsend
        exact .of_eq hq
    | send r =>
        cases hsend
        exact enqueueMsg_queues (dispatchSrvmsg_whole hdisp) hq
    | fail ec =>
        obtain ⟨r, hr, rfl⟩ := Option.map_eq_some_iff.mp hsend
        exact enqueueMsg_queues (isReply_error hm hr).whole hq

theorem cmdAccept_queues {env : CltEnv} {c t : Clt} {rid oid : UInt64}
    (h : cmdAccept env c rid oid = some t) : Queues c t := by
  unfold cmdAccept at h
  split at h
  · cases h
    exact .of_eq rfl
  · split at h
    · cases h
      exact .of_eq rfl
    · obtain ⟨r, hr, rfl⟩ := Option.map_eq_some_iff.mp h
      exact submit_queues (getfileRequest_whole hr) rfl

theorem cmdOffer_queues {env : CltEnv} {c t : Clt} {dest : UInt64} {filename : Bytes}
    (h : cmdOffer env c dest filename = some t) : Queues c t := by
  unfold cmdOffer at h
  split at h
  · cases h
    exact .of_eq rfl
  · split at h
    · cases h
      exact .of_eq rfl
    · exact request_queues h rfl (by simp [AttrArg.avtype, MsgAttrib.avtype])

theorem cmdLogin_queues {env : CltEnv} {c t : Clt} {user : Bytes} {password : Option Bytes}
    (h : cmdLogin env c user password = some t) : Queues c t := by
  unfold cmdLogin at h
  split at h
  · exact request_queues h rfl (by simp [AttrArg.avtype, MsgAttrib.avtype])
  · exact request_queues h rfl (by simp [AttrArg.avtype, MsgAttrib.avtype])

theorem runCmd_queues {env : CltEnv} {c t : Clt} {cmd : CltCmd}
    (h : runCmd env c cmd = some t) : Queues c t := by
  cases cmd with
  | accept rid oid => exact cmdAccept_queues h
  | offer dest filename => exact cmdOffer_queues h
  | login user password => exact cmdLogin_queues h
  | remove mask =>
      cases h
      exact .of_eq rfl
  | connect fd =>
      cases h
      cases fd <;> exact .of_eq rfl
  | disconnect =>
      cases h
      unfold cmdDisconnect
      split <;> exact .of_eq rfl
  | exit => cases h
  | logout => exact request_queues h rfl (by simp)
  | register password =>
      exact request_queues h rfl (by simp [AttrArg.avtype, MsgAttrib.avtype])
  | drop => exact request_queues h rfl (by simp)
  | ping dest notice =>
      refine request_queues h rfl ?_
      intro a ha
      obtain ⟨s, -, rfl⟩ := List.mem_map.mp ha
      rfl
  | peerlist => exact request_queues h rfl (by simp)
  | cd dir =>
      cases h
      exact .of_eq rfl

theorem upkeep_queues (env : CltEnv) (c : Clt) : Queues c (upkeep env c) := by
  have hping : Whole (mbufCompose env.ntime .pingInd 0 0 env.rnd).b :=
    whole_compose (by simp) (rfl : compose env.ntime .pingInd 0 env.rnd [] = some _)
  by_cases hst : c.st = .authOk
  · obtain ⟨new, hq, hnew⟩ := enqueueMsg_queues (c := c) (t := c) hping rfl
    refine ⟨new, ?_, hnew⟩
    unfold upkeep
    rw [if_pos hst]
    exact hq
  · refine .of_eq ?_
    unfold upkeep
    rw [if_neg hst]
    rfl

theorem readSrv_queues {env : CltEnv} {c t : Clt} {res : ReadRes} (hc : RecvOk c.rbuf)
    (h : readSrv env c res = some t) : Queues c t := by
  unfold readSrv at h
  simp only at h
  split at h
  · cases h
    exact .of_eq rfl
  · cases h
    exact .of_eq rfl
  · cases h
  · cases h
    exact .of_eq rfl
  · rename_i m hout
    have hm := (whole_of_complete hc.getD.1 hout).hdr
    exact processSrvmsg_queues (c := { c with rbuf := none }) hm h

end Clt

/-- A step that is not a write only adds to the queue. -/
theorem cltStep_queues {c t : Clt} {e : CltEvent} (hc : RecvOk c.rbuf)
    (hne : ∀ res, e ≠ .write res) (h : cltStep c e = some t) : Queues c t := by
  cases e with
  | cmd cmd env => exact Clt.runCmd_queues h
  | read res env => exact Clt.readSrv_queues hc h
  | write res => exact absurd rfl (hne res)
  | upkeep env =>
      cases h
      exact Clt.upkeep_queues env c
  | outside fs =>
      cases h
      exact .of_eq rfl

/-- What went out on the connection that was opened last. -/
def noteOutbound (c : Clt) (e : CltEvent) (out : Bytes) : Bytes :=
  if e.Opens then [] else out ++ e.octetsOut c

/-- A connection is opened while the first message of the queue is not partly sent. -/
def FreshQueue (c : Clt) (e : CltEvent) : Prop := e.Opens → ∀ m, c.q.head? = some m → m.boff = 0

instance (c : Clt) (e : CltEvent) : Decidable (FreshQueue c e) :=
  decidable_of_iff (e.Opens → (c.q.head?.all fun m => decide (m.boff = 0)) = true) <| by
    unfold FreshQueue
    cases c.q.head? <;> simp

/-- The queue holds complete messages of which only the first is partly sent, and
together with what went out it makes up complete messages. -/
structure OutboundOk (c : Clt) (out : Bytes) : Prop where
  queued : ∀ m ∈ c.q, Whole m.b
  tail : ∀ m ∈ c.q.tail, m.boff = 0
  whole : ∃ fs : List Bytes, (∀ f ∈ fs, Whole f) ∧ out ++ unsent c.q = fs.flatten

theorem OutboundOk.queues {c t : Clt} {out : Bytes} (h : OutboundOk c out) (hq : Queues c t) :
    OutboundOk t out := by
  obtain ⟨new, hnew, hwhole⟩ := hq
  obtain ⟨fs, hfs, heq⟩ := h.whole
  refine ⟨?_, ?_, fs ++ new.map Mbuf.b, ?_, ?_⟩
  · intro m hm
    rw [hnew] at hm
    rcases List.mem_append.mp hm with hm | hm
    · exact h.queued m hm
    · exact (hwhole m hm).1
  · intro m hm
    rw [hnew] at hm
    cases hcq : c.q with
    | nil =>
        rw [hcq, List.nil_append] at hm
        exact (hwhole m (List.mem_of_mem_tail hm)).2
    | cons a l =>
        rw [hcq, List.cons_append, List.tail_cons] at hm
        rcases List.mem_append.mp hm with hm | hm
        · exact h.tail m (by rw [hcq]; exact hm)
        · exact (hwhole m hm).2
  · intro f hf
    rcases List.mem_append.mp hf with hf | hf
    · exact hfs f hf
    · obtain ⟨m, hm, rfl⟩ := List.mem_map.mp hf
      exact (hwhole m hm).1
  · rw [hnew, unsent_append, ← List.append_assoc, heq, List.flatten_append,
      unsent_whole fun m hm => (hwhole m hm).2]

/-- A write moves octets from the queue to the connection. -/
theorem OutboundOk.write {c t : Clt} {out : Bytes} {res : WriteRes} (h : OutboundOk c out)
    (hstep : cltStep c (.write res) = some t) :
    OutboundOk t (out ++ (CltEvent.write res).octetsOut c) := by
  change Clt.writeSrv c res = some t at hstep
  unfold Clt.writeSrv at hstep
  split at hstep
  · cases hstep
  · rename_i m q hq
    obtain ⟨fs, hfs, heq⟩ := h.whole
    have hout : (CltEvent.write res).octetsOut c = octetsSent m res := by
      rw [CltEvent.octetsOut, hq]
      rfl
    -- A write that fails sends no octets.
    have hfail : (∀ m', writeOutcome m res ≠ .sent m') →
        OutboundOk c (out ++ (CltEvent.write res).octetsOut c) := by
      intro hno
      rw [hout, octetsSent_of_not_sent hno, List.append_nil]
      exact h
    split at hstep
    · rename_i hdisc
      cases hstep
      obtain ⟨hqueued, htail, hwhole⟩ := hfail fun m' heq => by
        rw [hdisc] at heq
        cases heq
      exact ⟨hqueued, htail, hwhole⟩
    · rename_i hagain
      cases hstep
      exact hfail fun m' heq => by
        rw [hagain] at heq
        cases heq
    · rename_i m' hsent
      obtain ⟨hb, hoctets⟩ := octetsSent_of_sent hsent
      have hall : ∀ x ∈ m' :: q, Whole x.b := by
        intro x hx
        rcases List.mem_cons.mp hx with rfl | hx
        · rw [hb]
          exact h.queued m (by rw [hq]; exact List.mem_cons_self)
        · exact h.queued x (by rw [hq]; exact List.mem_cons_of_mem _ hx)
      have htail : ∀ x ∈ q, x.boff = 0 := by
        have := h.tail
        rwa [hq] at this
      -- What is sent and what is left of the message make up the message.
      have hflat : out ++ octetsSent m res ++ (m'.b.drop m'.boff ++ unsent q) = fs.flatten := by
        rw [List.append_assoc, ← List.append_assoc (octetsSent m res), hoctets, ← heq, hq]
        rfl
      rw [hout]
      cases hstep
      split
      · rename_i hfull
        have hnone : m'.b.drop m'.boff = [] := by
          rw [hfull]
          exact List.drop_length
        rw [hnone, List.nil_append] at hflat
        have hdeq : ({ c with q := m' :: q } : Clt).dequeueMsg.q = q := by
          unfold Clt.dequeueMsg
          simp only
          split <;> rfl
        refine ⟨?_, ?_, fs, hfs, ?_⟩
        · rw [hdeq]
          exact fun x hx => hall x (List.mem_cons_of_mem _ hx)
        · rw [hdeq]
          exact fun x hx => htail x (List.mem_of_mem_tail hx)
        · rw [hdeq]
          exact hflat
      · exact ⟨hall, htail, fs, hfs, hflat⟩

/-- On a new connection the whole queue is to be written. -/
theorem OutboundOk.opened {c t : Clt} {out : Bytes} {e : CltEvent} (h : OutboundOk c out)
    (hopen : e.Opens) (hfresh : FreshQueue c e) (hq : t.q = c.q) : OutboundOk t [] := by
  have hzero : ∀ m ∈ c.q, m.boff = 0 := by
    intro m hm
    cases hcq : c.q with
    | nil =>
        rw [hcq] at hm
        cases hm
    | cons a l =>
        rw [hcq] at hm
        rcases List.mem_cons.mp hm with rfl | hm
        · exact hfresh hopen m (by rw [hcq]; rfl)
        · exact h.tail m (by rw [hcq]; exact hm)
  refine ⟨hq ▸ h.queued, hq ▸ h.tail, c.q.map Mbuf.b, ?_, ?_⟩
  · intro f hf
    obtain ⟨m, hm, rfl⟩ := List.mem_map.mp hf
    exact h.queued m hm
  · rw [hq, List.nil_append, unsent_whole hzero]

theorem OutboundOk.step {c t : Clt} {out : Bytes} {e : CltEvent} (hc : RecvOk c.rbuf)
    (h : OutboundOk c out) (hstep : cltStep c e = some t) (hfresh : FreshQueue c e) :
    OutboundOk t (noteOutbound c e out) := by
  by_cases hopen : e.Opens
  · have hq : t.q = c.q := by
      unfold CltEvent.Opens at hopen
      split at hopen
      · cases hstep
        rfl
      · exact hopen.elim
    rw [noteOutbound, if_pos hopen]
    exact h.opened hopen hfresh hq
  · rw [noteOutbound, if_neg hopen]
    by_cases hwrite : ∃ res, e = .write res
    · obtain ⟨res, rfl⟩ := hwrite
      exact h.write hstep
    · have hnone : e.octetsOut c = [] := by
        cases e with
        | write res => exact absurd ⟨res, rfl⟩ hwrite
        | _ => rfl
      rw [hnone, List.append_nil]
      exact h.queues (cltStep_queues hc (fun res heq => hwrite ⟨res, heq⟩) hstep)

/-- **Send framing survives reconnects**, in every run in which connections are
opened while no message of the queue is partly sent. -/
theorem send_framing {s : Clt × Bytes}
    (hs : ((cltLts.guard FreshQueue).observe [] noteOutbound).Reachable s) :
    ∃ fs : List Bytes, (∀ f ∈ fs, Whole f) ∧ s.2 <+: fs.flatten := by
  have hinv : ((cltLts.guard FreshQueue).observe [] noteOutbound).Inductive
      fun s => CltOk s.1 ∧ OutboundOk s.1 s.2 := by
    refine ⟨?_, ?_⟩
    · rintro ⟨c, out⟩ ⟨hinit, rfl⟩
      refine ⟨cltOk_inductive.init c hinit, ?_⟩
      obtain ⟨cfg, pubkey, fs, cwd, -, -, rfl⟩ := hinit
      exact ⟨fun m hm => absurd hm List.not_mem_nil, fun m hm => absurd hm List.not_mem_nil, [],
        fun f hf => absurd hf List.not_mem_nil, rfl⟩
    · rintro ⟨c, out⟩ e ⟨t, out'⟩ ⟨hok, h⟩ ⟨⟨⟨hen, hstep⟩, hfresh⟩, rfl⟩
      exact ⟨hok.step hen hstep, h.step hok.rbuf hstep hfresh⟩
  obtain ⟨fs, hfs, heq⟩ := (hinv.invariant s hs).2.whole
  exact ⟨fs, hfs, heq ▸ List.prefix_append s.2 _⟩

/-- A step of the client that opens a connection only at the beginning of a message. -/
def freshQueueTry (c : Clt) (e : CltEvent) : Option Clt :=
  if FreshQueue c e then cltTry c e else none

theorem freshQueueTry_step (c : Clt) (e : CltEvent) (t : Clt) (h : freshQueueTry c e = some t) :
    (cltLts.guard FreshQueue).step c e t := by
  unfold freshQueueTry at h
  split at h
  · rename_i hfresh
    exact ⟨cltTry_step h, hfresh⟩
  · cases h

/-- A message on a second connection, in two pieces. -/
theorem send_framing_again : ∃ s : Clt × Bytes, s.2.length = 40 ∧
    ∃ fs : List Bytes, (∀ f ∈ fs, Whole f) ∧ s.2 <+: fs.flatten := by
  have hexec : (Lts.exec (Lts.observeFun freshQueueTry noteOutbound) (demoClient false [], [])
      (loginRun ++ [.cmd .disconnect demoEnv, .cmd (.connect (some 3)) demoEnv,
        .cmd .peerlist demoEnv, .write (.sent 7), .write (.sent 1000)])).any (fun s =>
          s.2.length == 40) = true := by
    decide +kernel
  have hinit : ((cltLts.guard FreshQueue).observe [] noteOutbound).init (demoClient false [], []) :=
    ⟨demoClient_init false [], rfl⟩
  obtain ⟨s, hs, hp⟩ := Lts.reachable_of_exec (Lts.observeFun_step freshQueueTry_step) hinit hexec
  exact ⟨s, beq_iff_eq.mp hp, send_framing hs⟩

/-- What announces too long a payload is not the beginning of complete messages. -/
theorem not_prefix_of_whole {out : Bytes} (h40 : 40 ≤ out.length)
    (hlen : MSG_MAX_PAY_SIZE < msgFormat.len (out.take 40)) :
    ¬ ∃ fs : List Bytes, (∀ f ∈ fs, Whole f) ∧ out <+: fs.flatten := by
  rintro ⟨fs, hfs, hpre⟩
  cases fs with
  | nil =>
      rw [List.flatten_nil, List.prefix_nil] at hpre
      rw [hpre] at h40
      exact absurd h40 (by decide)
  | cons f fs =>
      obtain ⟨hhdr, hsize, hmax⟩ := hfs f List.mem_cons_self
      obtain ⟨rest, heq⟩ := hpre
      have htake : out.take 40 = f.take 40 := by
        have hcut : (out ++ rest).take 40 = out.take 40 := List.take_append_of_le_length h40
        rw [← hcut, heq, List.flatten_cons,
          List.take_append_of_le_length hhdr]
      rw [htake] at hlen
      rw [FrameFormat.size, msgFormat_hdr] at hsize
      unfold MSG_MAX_SIZE MSG_HDR_SIZE at hmax
      omega

/-- A connection ends within a message; the next one starts with the rest of it. -/
theorem send_framing_torn : ∃ s : Clt × Bytes, (cltLts.observe [] noteOutbound).Reachable s ∧
    ¬ ∃ fs : List Bytes, (∀ f ∈ fs, Whole f) ∧ s.2 <+: fs.flatten := by
  have hexec : (Lts.exec (Lts.observeFun cltTry noteOutbound) (demoClient false [], [])
      [.cmd (.connect (some 3)) demoEnv,
        .cmd (.login (List.replicate 40 0x61) none) { demoEnv with rnd := 0xffffffffffffffff },
        .write (.sent 30), .cmd .disconnect demoEnv, .cmd (.connect (some 3)) demoEnv,
        .write (.sent 1000)]).any (fun s =>
          decide (40 ≤ s.2.length) && decide (MSG_MAX_PAY_SIZE < msgFormat.len (s.2.take 40))) =
        true := by
    decide +kernel
  have hinit : (cltLts.observe [] noteOutbound).init (demoClient false [], []) :=
    ⟨demoClient_init false [], rfl⟩
  obtain ⟨s, hs, hp⟩ := Lts.reachable_of_exec
    (Lts.observeFun_step fun _ _ _ => cltTry_step) hinit hexec
  simp only [Bool.and_eq_true, decide_eq_true_eq] at hp
  exact ⟨s, hs, not_prefix_of_whole hp.1 hp.2⟩

end Frelay
