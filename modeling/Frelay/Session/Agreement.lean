import Frelay.Client.Pending
import Frelay.Session.Serving

/-!
# Client and server agree on the session

A client on its connection, the server with all its other clients, and the messages in
flight between them (`Dialogue`). The wire carries whole messages in order; a message is
in flight from the write that completes it to the read that completes it.

* `Agree` — the messages on their way take the client to the state of its slot;
* `Agree.steady`, `Agree.received`, `Agree.served` — every step keeps it so;
* `sessions_agree` — with nothing on the way the two states are the same.
-/

namespace Frelay

open Lib

/-! ## The client between two messages -/

/-- What a step of the client puts on the wire. -/
def CltEvent.sent (c : Clt) : CltEvent → List Bytes
  | .write res => sentWhole c.q res
  | _ => []

/-- The step leaves the connection up, opens no other, and finds no request too old. -/
def CltEvent.Steady (c : Clt) (e : CltEvent) (t : Clt) : Prop :=
  0 ≤ t.srvfd ∧
    match e with
    | .cmd (.connect _) _ => False
    | .upkeep env => (c.upkeepPending env.now).requests = c.requests
    | _ => True

namespace Clt

/-- The client stays in its state; what it queues is plain, and a request that is sent
becomes pending. -/
structure Calls (c : Clt) (sent : List Bytes) (t : Clt) : Prop where
  st : t.st = c.st
  queue : ∃ new, sent ++ t.q.map Mbuf.b = c.q.map Mbuf.b ++ new ∧ ∀ b ∈ new, Plain b
  requests : ∀ u ∈ sessionReqs, ∀ x, sent.countP (asks u x) +
    (c.requests.map Mbuf.b).countP (asks u x) ≤ (t.requests.map Mbuf.b).countP (asks u x)

/-- Nothing is sent, and messages may be queued. -/
theorem Calls.queued {c t : Clt} (new : List Mbuf) (hst : t.st = c.st) (hq : t.q = c.q ++ new)
    (hnew : ∀ r ∈ new, Plain r.b) (hreq : t.requests = c.requests) : Calls c [] t where
  st := hst
  queue := by
    refine ⟨new.map Mbuf.b, ?_, fun b hb => ?_⟩
    · rw [List.nil_append, hq, List.map_append]
    · obtain ⟨r, hr, rfl⟩ := List.mem_map.mp hb
      exact hnew r hr
  requests := fun u _ x => by rw [hreq, List.countP_nil, Nat.zero_add]

theorem Calls.still {c t : Clt} (hst : t.st = c.st) (hq : t.q = c.q)
    (hreq : t.requests = c.requests) : Calls c [] t :=
  .queued [] hst (hq.trans (List.append_nil _).symm)
    (fun _ hr => absurd hr List.not_mem_nil) hreq

/-- A request of a plain type. -/
theorem calls_request (type : MsgType) {env : CltEnv} {c u t : Clt} {dstid : UInt64}
    {l : List (MsgAttrib × AttrArg)} (hplain : type ∈ plainTypes) (hst : u.st = c.st)
    (hq : u.q = c.q) (hreq : u.requests = c.requests) (hty : ∀ a ∈ l, a.2.avtype = a.1.avtype)
    (h : request env u type dstid l = some t) : Calls c [] t := by
  obtain ⟨new, rfl, hnew⟩ := request_spec hty h
  exact .queued new hst (congrArg (· ++ new) hq) (fun r hr => ⟨type, hplain, hnew r hr⟩)
    hreq

/-- A command on the connection. -/
theorem runCmd_calls {env : CltEnv} {c t : Clt} {cmd : CltCmd} (h : runCmd env c cmd = some t)
    (hup : 0 ≤ t.srvfd) (hne : ∀ fd, cmd ≠ .connect fd) : Calls c [] t := by
  cases cmd with
  | accept rid oid =>
      rcases cmdAccept_cases h with rfl | ⟨d, k, d', new, hcase, rfl⟩
      · exact .still rfl rfl rfl
      · exact .queued new rfl rfl
          (fun r hr => ⟨.getfileReq, by decide, (hcase.send r hr).1⟩) rfl
  | offer dest filename =>
      change cmdOffer env c dest filename = some t at h
      unfold cmdOffer at h
      split at h
      · cases h
        exact .still rfl rfl rfl
      · split at h
        · cases h
          exact .still rfl rfl rfl
        · rename_i o ho
          exact calls_request .offerReq (u := c.push c.disk o) (by decide) rfl rfl rfl
            (by simp [AttrArg.avtype, MsgAttrib.avtype]) h
  | remove mask =>
      cases h
      exact .still rfl rfl rfl
  | connect fd => exact absurd rfl (hne fd)
  | disconnect =>
      cases h
      -- After `disconnect` there is no connection.
      have hdown : (cmdDisconnect c).srvfd < 0 := by
        unfold cmdDisconnect
        simp only
        split
        · exact show (-1 : Int) < 0 by decide
        · rename_i hneg
          exact Int.not_le.mp hneg
      omega
  | exit => cases h
  | login user password =>
      change cmdLogin env c user password = some t at h
      unfold cmdLogin at h
      cases password with
      | none =>
          exact calls_request .loginReq (by decide) rfl rfl rfl
            (by simp [AttrArg.avtype, MsgAttrib.avtype]) h
      | some p =>
          exact calls_request .loginReq (u := { c with pubkey := some p }) (by decide)
            rfl rfl rfl (by simp [AttrArg.avtype, MsgAttrib.avtype]) h
  | logout => exact calls_request .logoutReq (by decide) rfl rfl rfl (by simp) h
  | register password =>
      exact calls_request .registerReq (by decide) rfl rfl rfl
        (by simp [AttrArg.avtype, MsgAttrib.avtype]) h
  | drop => exact calls_request .dropReq (by decide) rfl rfl rfl (by simp) h
  | ping dest notice =>
      refine calls_request .pingReq (by decide) rfl rfl rfl ?_ h
      intro a ha
      obtain ⟨s, -, rfl⟩ := List.mem_map.mp ha
      rfl
  | peerlist => exact calls_request .peerlistReq (by decide) rfl rfl rfl (by simp) h
  | cd dir =>
      cases h
      exact .still rfl rfl rfl

/-- A write on the connection: a request whose last octet is out becomes pending. -/
theorem writeSrv_calls {c t : Clt} {res : WriteRes} (h : writeSrv c res = some t)
    (hup : 0 ≤ t.srvfd) : Calls c (sentWhole c.q res) t := by
  unfold writeSrv at h
  cases hq : c.q with
  | nil =>
      rw [hq] at h
      cases h
  | cons m q =>
      rw [hq] at h
      simp only at h
      unfold sentWhole
      simp only
      cases hout : writeOutcome m res with
      | disconnect =>
          rw [hout] at h
          cases h
          exact absurd (show (0 : Int) ≤ -1 from hup) (by decide)
      | again =>
          rw [hout] at h
          cases h
          exact .still rfl rfl rfl
      | sent m' =>
          rw [hout] at h
          cases h
          simp only
          have hb : m'.b = m.b := (octetsSent_of_sent hout).1
          have hcq : c.q.map Mbuf.b = m'.b :: q.map Mbuf.b := by rw [hq, hb, List.map_cons]
          have hnone : ∀ b ∈ ([] : List Bytes), Plain b := fun b hb => absurd hb List.not_mem_nil
          by_cases hfull : m'.boff = m'.bsize
          · rw [if_pos hfull, if_pos hfull]
            by_cases hreq : mclassIsReq (hdrGetType m') = true
            · have hdeq : ({ c with q := m' :: q } : Clt).dequeueMsg =
                  { c with q := q, requests := m' :: c.requests } := if_pos hreq
              rw [hdeq]
              refine ⟨rfl, ⟨[], by rw [hcq, List.append_nil]; rfl, hnone⟩, fun u _ x => ?_⟩
              rw [List.map_cons, List.countP_cons, List.countP_nil, List.countP_cons]
              omega
            · have hdeq : ({ c with q := m' :: q } : Clt).dequeueMsg = { c with q := q } :=
                if_neg hreq
              rw [hdeq]
              refine ⟨rfl, ⟨[], by rw [hcq, List.append_nil]; rfl, hnone⟩, fun u hu x => ?_⟩
              -- What is no request asks for nothing.
              have hreqs : ∀ u ∈ sessionReqs, mclassIsReq u.code = true := by decide
              have hasks : ¬ asks u x m'.b = true := by
                intro hasks
                have hcode : hdrGetType m' = u.code := (of_decide_eq_true hasks).1
                exact hreq (hcode ▸ hreqs u hu)
              rw [List.countP_singleton, if_neg hasks, Nat.zero_add]
          · rw [if_neg hfull, if_neg hfull]
            refine ⟨rfl, ⟨[], by rw [hcq, List.append_nil]; rfl, hnone⟩, fun u _ x => ?_⟩
            rw [List.countP_nil, Nat.zero_add]

/-- The upkeep, which finds no request too old. -/
theorem upkeep_calls {env : CltEnv} {c : Clt}
    (hold : (c.upkeepPending env.now).requests = c.requests) : Calls c [] (upkeep env c) := by
  have hreq : (upkeep env c).requests = (c.upkeepPending env.now).requests := by
    unfold upkeep
    split
    · rfl
    · rfl
  by_cases hst : c.st = .authOk
  · refine .queued [{ mbufCompose env.ntime .pingInd 0 0 env.rnd with boff := 0 }]
      ?_ ?_ ?_ (hreq.trans hold)
    · unfold upkeep
      rw [if_pos hst]
      rfl
    · unfold upkeep
      rw [if_pos hst]
      rfl
    · intro r hr
      rw [List.mem_singleton.mp hr]
      refine ⟨.pingInd, by decide, ?_⟩
      show hdrGetType (mbufCompose env.ntime .pingInd 0 0 env.rnd) = _
      rw [mbufCompose_eq, hdrGetType_mkMsg]
  · refine .still ?_ ?_ (hreq.trans hold)
    · unfold upkeep
      rw [if_neg hst]
      rfl
    · unfold upkeep
      rw [if_neg hst]
      rfl

/-- A read on the connection that completes no message. -/
theorem readSrv_calls {env : CltEnv} {c t : Clt} {res : ReadRes} (h : readSrv env c res = some t)
    (hup : 0 ≤ t.srvfd) (hnone : (CltEvent.read res env).message c = none) : Calls c [] t := by
  unfold readSrv at h
  simp only at h
  unfold CltEvent.message at hnone
  simp only at hnone
  cases hout : readOutcome (c.rbuf.getD mbufNew) res with
  | complete m =>
      rw [hout] at hnone
      cases hnone
  | disconnect =>
      rw [hout] at h
      cases h
      exact absurd (show (0 : Int) ≤ -1 from hup) (by decide)
  | again =>
      rw [hout] at h
      cases h
      exact .still rfl rfl rfl
  | exits =>
      rw [hout] at h
      cases h
  | pending rbuf =>
      rw [hout] at h
      cases h
      exact .still rfl rfl rfl

/-- **Every step between two messages.** -/
theorem cltStep_calls {c t : Clt} {e : CltEvent} (h : cltStep c e = some t)
    (hsteady : e.Steady c t) (hnone : e.message c = none) : Calls c (e.sent c) t := by
  cases e with
  | cmd cmd env =>
      refine runCmd_calls h hsteady.1 fun fd heq => ?_
      rw [heq] at hsteady
      exact hsteady.2
  | read res env => exact readSrv_calls h hsteady.1 hnone
  | write res => exact writeSrv_calls h hsteady.1
  | upkeep env =>
      cases h
      exact upkeep_calls hsteady.2
  | outside fs =>
      cases h
      exact .still rfl rfl rfl

end Clt

/-! ## The messages on their way -/

/-- The messages on their way back take the client to the state `st`. AUTH requests are on
their way, or the challenge for one is, as long as that is the state that waits for one;
and a response on its way has its request. -/
structure Agree (c : Clt) (up back : List Bytes) (st : CltState) : Prop where
  connected : c.st ≠ .invalid
  run : turnLts.Run c.st back st
  proper : ∀ b ∈ c.q.map Mbuf.b ++ up, Proper b
  auths : (c.q.map Mbuf.b).countP isAuth + up.countP isAuth + back.countP isChallenge =
    if st = .loginOk then 1 else 0
  tickets : ∀ u ∈ sessionReqs, ∀ x, up.countP (asks u x) + back.countP (answersTo u x) ≤
    (c.requests.map Mbuf.b).countP (asks u x)

section Agree

variable {c t : Clt} {up back out : List Bytes} {st st' : CltState} {b : Bytes}

theorem Turn.connected (h : Turn st b st') (hst : st ≠ .invalid) : st' ≠ .invalid := by
  cases h with
  | other _ => exact hst
  | _ => decide

/-- With nothing on the way. -/
theorem Agree.idle (h : Agree c [] [] st) (hq : c.q = []) : c.st = st ∧ st ≠ .loginOk := by
  refine ⟨?_, fun hst => ?_⟩
  · cases h.run
    rfl
  · have hauths := h.auths
    rw [hq, if_pos hst] at hauths
    exact absurd hauths (by decide)

theorem Agree.start (hst : c.st = .preLogin) (hq : c.q = []) : Agree c [] [] .preLogin where
  connected := by
    rw [hst]
    decide
  run := hst ▸ .nil _
  proper := by
    rw [hq]
    exact fun b hb => absurd hb List.not_mem_nil
  auths := by
    rw [hq]
    rfl
  tickets := fun u _ x => Nat.zero_le _

/-- A step of the client between two messages. -/
theorem Agree.calls {sent : List Bytes} (h : Agree c up back st) (hcalls : c.Calls sent t) :
    Agree t (up ++ sent) back st := by
  obtain ⟨new, hq, hplain⟩ := hcalls.queue
  refine ⟨hcalls.st ▸ h.connected, hcalls.st ▸ h.run, fun b hb => ?_, ?_, fun u hu x => ?_⟩
  · have hmem : b ∈ up ∨ b ∈ sent ++ t.q.map Mbuf.b := by
      simp only [List.mem_append] at hb ⊢
      tauto
    rcases hmem with hb | hb
    · exact h.proper b (List.mem_append_right _ hb)
    · rw [hq] at hb
      rcases List.mem_append.mp hb with hb | hb
      · exact h.proper b (List.mem_append_left _ hb)
      · exact (hplain b hb).proper
  · have hnew : new.countP isAuth = 0 := by
      rw [List.countP_eq_zero]
      exact fun b hb => Bool.eq_false_iff.mp (hplain b hb).not_auth
    have hcount := congrArg (List.countP isAuth) hq
    rw [List.countP_append, List.countP_append, hnew] at hcount
    rw [List.countP_append, ← h.auths]
    omega
  · have hle := h.tickets u hu x
    have hsent := hcalls.requests u hu x
    rw [List.countP_append]
    omega

/-- What a pending request is taken off for is a response to it. -/
theorem solicited_tickets {m : Mbuf} {u : MsgType} {x : UInt64} (hsol : c.solicited m = some t) :
    (c.requests.map Mbuf.b).countP (asks u x) ≤
      (t.requests.map Mbuf.b).countP (asks u x) + if answersTo u x m.b = true then 1 else 0 := by
  unfold Clt.solicited at hsol
  split at hsol
  · obtain ⟨p, hp, rfl⟩ := Option.map_eq_some_iff.mp hsol
    obtain ⟨r, hr, rfl⟩ := Option.map_eq_some_iff.mp hp
    have hans : Clt.Answers m r :=
      of_decide_eq_true (List.find?_some (p := fun r => decide (Clt.Answers m r)) hr)
    obtain ⟨r', l₁, l₂, hfirst, hp', hreq, herase⟩ :=
      List.exists_of_eraseP (List.mem_of_find?_eq_some hr)
        (p := fun r => decide (Clt.Answers m r)) (decide_eq_true hans)
    have hans' : Clt.Answers m r' := of_decide_eq_true hp'
    show _ ≤ ((c.requests.eraseP _).map Mbuf.b).countP _ + _
    rw [herase, hreq]
    simp only [List.map_append, List.map_cons, List.countP_append, List.countP_cons]
    by_cases hasks : asks u x r'.b = true
    · obtain ⟨htype, hdst, htrf⟩ := of_decide_eq_true hasks
      have hto : answersTo u x m.b = true := by
        refine decide_eq_true ⟨?_, ?_, ?_⟩
        · exact hans'.2.2.symm.trans (congrArg mclassToRes htype)
        · exact hans'.1.symm.trans hdst
        · exact hans'.2.1.symm.trans htrf
      rw [if_pos hasks, if_pos hto]
      omega
    · rw [if_neg hasks]
      omega
  · cases hsol
    exact Nat.le_add_right _ _

/-- The next message moves the client the way it moves the session. -/
theorem Agree.told {env : CltEnv} {m : Mbuf} (h : Agree c up (m.b :: back) st)
    (hm : 40 ≤ m.bsize) (hproc : Clt.processSrvmsg env c m = some t) :
    ∃ st₁, Turn c.st m.b st₁ ∧ turnLts.Run st₁ back st ∧ Clt.Told c m.b st₁ t := by
  obtain ⟨st₁, hturn, hrun⟩ : ∃ st₁, Turn c.st m.b st₁ ∧ turnLts.Run st₁ back st := by
    cases h.run with
    | cons hturn hrun => exact ⟨_, hturn, hrun⟩
  -- A response by which the session moves has its request among those that wait.
  have hwaits : Moves m.b → mclassIsRes (hdrGetType m) = true →
      ∃ r ∈ c.requests, Clt.Answers m r := by
    intro hmoves hres
    obtain ⟨hsrc, u, hu, htype⟩ : hdrGetSrcid (msg m.b) = 0 ∧
        ∃ u ∈ sessionReqs, hdrGetType (msg m.b) = mclassToRes u.code := by
      generalize c.st = st at hturn
      cases hturn with
      | welcome hresp _ => exact ⟨hresp.2, .loginReq, by decide, hresp.1.trans (by decide)⟩
      | challenge hresp _ => exact ⟨hresp.2, .loginReq, by decide, hresp.1.trans (by decide)⟩
      | authenticated hresp _ => exact ⟨hresp.2, .authReq, by decide, hresp.1.trans (by decide)⟩
      | denied htype =>
          rw [show hdrGetType m = _ from htype] at hres
          exact absurd hres (by decide)
      | bye hresp _ => exact ⟨hresp.2, .logoutReq, by decide, hresp.1.trans (by decide)⟩
      | other hno => exact absurd hmoves hno
    have hto : answersTo u (hdrGetTrfid m) m.b = true := decide_eq_true ⟨htype, hsrc, rfl⟩
    have hle := h.tickets u hu (hdrGetTrfid m)
    rw [List.countP_cons, if_pos hto] at hle
    obtain ⟨b, hb, hasks⟩ := List.countP_pos_iff.mp
      (show 0 < (c.requests.map Mbuf.b).countP (asks u (hdrGetTrfid m)) by omega)
    obtain ⟨r, hr, rfl⟩ := List.mem_map.mp hb
    obtain ⟨hrtype, hdst, htrf⟩ := of_decide_eq_true hasks
    exact ⟨r, hr, hdst.trans hsrc.symm, htrf, (congrArg mclassToRes hrtype).trans htype.symm⟩
  exact ⟨st₁, hturn, hrun, Clt.told_of_turn hm hturn hwaits hproc⟩

/-- **The client hears the next message.** -/
theorem Agree.received {env : CltEnv} {m : Mbuf} (h : Agree c up (m.b :: back) st)
    (hm : 40 ≤ m.bsize) (hproc : Clt.processSrvmsg env c m = some t) : Agree t up back st := by
  obtain ⟨st₁, hturn, hrun, hst, new, hq, hproper, hauth⟩ := h.told hm hproc
  refine ⟨hst ▸ hturn.connected h.connected, hst ▸ hrun, fun b hb => ?_, ?_, fun u hu x => ?_⟩
  · rw [hq, List.map_append, List.append_assoc] at hb
    rcases List.mem_append.mp hb with hb | hb
    · exact h.proper b (List.mem_append_left _ hb)
    · rcases List.mem_append.mp hb with hb | hb
      · obtain ⟨r, hr, rfl⟩ := List.mem_map.mp hb
        exact hproper r hr
      · exact h.proper b (List.mem_append_right _ hb)
  · have hauths := h.auths
    rw [List.countP_cons] at hauths
    rw [hq, List.map_append, List.countP_append, hauth]
    omega
  · have hle := h.tickets u hu x
    rw [List.countP_cons] at hle
    have htaken : (c.requests.map Mbuf.b).countP (asks u x) ≤
        (t.requests.map Mbuf.b).countP (asks u x) + if answersTo u x m.b = true then 1 else 0 := by
      rcases Clt.processSrvmsg_matched hm hproc with ⟨-, rfl⟩ | ⟨c', hsol, hreq⟩
      · exact Nat.le_add_right _ _
      · rw [hreq]
        exact solicited_tickets hsol
    omega

/-- **The server serves the next message.** -/
theorem Agree.served (h : Agree c (b :: up) back st) (hserving : Serving st b out st') :
    Agree c up (back ++ out) st' where
  connected := h.connected
  run := h.run.trans hserving.run
  proper := fun b' hb' => h.proper b' <| by
    rcases List.mem_append.mp hb' with hb' | hb'
    · exact List.mem_append_left _ hb'
    · exact List.mem_append_right _ (List.mem_cons_of_mem _ hb')
  auths := by
    have hauths := h.auths
    have hch := hserving.challenges
    rw [List.countP_cons] at hauths
    rw [List.countP_append]
    omega
  tickets := fun u hu x => by
    have hle := h.tickets u hu x
    have hans := hserving.answers u hu x
    rw [List.countP_cons] at hle
    rw [List.countP_append]
    omega

/-- What other clients have forwarded to the client. -/
theorem Agree.passed (h : Agree c up back st) (hcalm : Calm out) : Agree c up (back ++ out) st where
  connected := h.connected
  run := h.run.trans (hcalm.run st)
  proper := h.proper
  auths := by
    rw [List.countP_append, hcalm.challenges, Nat.add_zero]
    exact h.auths
  tickets := fun u hu x => by
    rw [List.countP_append, hcalm.answers hu x, Nat.add_zero]
    exact h.tickets u hu x

/-- An AUTH request that the server reads next comes when it waits for one. -/
theorem Agree.waits (h : Agree c (b :: up) back st) (hb : isAuth b = true) : st = .loginOk := by
  have hauths := h.auths
  rw [List.countP_cons, if_pos hb] at hauths
  by_contra hst
  rw [if_neg hst] at hauths
  omega

end Agree

/-! ## The client, the server and the wire between them -/

/-- A client and the server. `conn` is the descriptor of the client's connection once the
server has accepted it; `up` and `down` are the messages in flight, the oldest first. -/
structure Dialogue where
  clt : Clt
  srv : Server
  conn : Option Int
  up : List Bytes
  down : List Bytes

/-- A step of the client, or of the server, which may be about any of its clients. -/
inductive DialogueEvent where
  | client (e : CltEvent)
  | server (e : SrvEvent)

/-- Every key in the database, and every key that could be loaded into it, begins with
`AUTH_KEY_PLAINTEXT`. -/
def PlainKeys (d : Udb) : Prop :=
  ∀ e, ∀ u ∈ (udbLoad e d).userdb, AUTH_KEY_PLAINTEXT.isPrefixOf u.key = true

/-- The event accepts a connection with the descriptor `fd`. -/
def SrvEvent.Accepts (fd : Int) : SrvEvent → Prop
  | .accept fd' _ _ => fd' = fd
  | _ => False

namespace Dialogue

/-- A step of the client: what it sends is in flight, and what it completes was. -/
structure ClientTurn (s : Dialogue) (e : CltEvent) (t : Dialogue) : Prop where
  step : cltLts.step s.clt e t.clt
  steady : e.Steady s.clt t.clt
  srv : t.srv = s.srv
  conn : t.conn = s.conn
  up : t.up = s.up ++ e.sent s.clt
  down : s.down = ((e.message s.clt).map fun p => p.2.b).toList ++ t.down

/-- What the server does on the wire: nothing before it has accepted the connection, which
then stays. -/
def Carries (s : Dialogue) (e : SrvEvent) (t : Dialogue) : Prop :=
  match s.conn with
  | none => t.up = s.up ∧ t.down = s.down ∧
      ∀ fd, t.conn = some fd → e.Accepts fd ∧ ∃ i, At t.srv fd i
  | some fd => t.conn = some fd ∧ (∃ i, At t.srv fd i) ∧
      s.up = ((delivered s.srv fd e).map Mbuf.b).toList ++ t.up ∧ t.down = s.down ++ sentTo s.srv fd e

/-- A step of the server. -/
structure ServerTurn (s : Dialogue) (e : SrvEvent) (t : Dialogue) : Prop where
  step : (srvLts fun _ => True).step s.srv e t.srv
  keys : PlainKeys s.srv.udb
  clt : t.clt = s.clt
  wire : s.Carries e t

/-- Nothing is queued or in flight. -/
def Drained (s : Dialogue) (i : Nat) : Prop :=
  s.clt.q = [] ∧ s.up = [] ∧ s.down = [] ∧ (s.srv.clients i).q = []

end Dialogue

/-- A client that has just been started and connected, and a server in any state. -/
def dialogueLts : Lts Dialogue DialogueEvent where
  init s := (∃ c fd env, cltLts.init c ∧ cltStep c (.cmd (.connect (some fd)) env) = some s.clt) ∧
    (srvLts fun _ => True).Reachable s.srv ∧ s.conn = none ∧ s.up = [] ∧ s.down = []
  step s e t :=
    match e with
    | .client e => s.ClientTurn e t
    | .server e => s.ServerTurn e t

/-! ## Agreement -/

/-- What holds between two steps. -/
structure DialogueOk (s : Dialogue) : Prop where
  clt : CltOk s.clt
  srv : (srvLts fun _ => True).Reachable s.srv
  agree : match s.conn with
    | none => s.down = [] ∧ Agree s.clt s.up [] .preLogin
    | some fd => ∃ i, At s.srv fd i ∧
        Agree s.clt s.up (s.down ++ (s.srv.clients i).q.map Mbuf.b) (s.srv.clients i).st

section Steps

variable {s t : Dialogue}

/-- A step of the client keeps the agreement with what is on its way back. -/
theorem Dialogue.ClientTurn.agree {e : CltEvent} {back : List Bytes} {st : CltState}
    (hturn : s.ClientTurn e t) (hok : CltOk s.clt)
    (h : Agree s.clt s.up (s.down ++ back) st) : Agree t.clt t.up (t.down ++ back) st := by
  have hdown := hturn.down
  cases hmsg : e.message s.clt with
  | none =>
      rw [hmsg] at hdown
      rw [hturn.up, show t.down = s.down from hdown.symm]
      exact h.calls (Clt.cltStep_calls hturn.step.2 hturn.steady hmsg)
  | some p =>
      obtain ⟨env, m⟩ := p
      rw [hmsg] at hdown
      -- Only a read completes a message.
      cases e with
      | read res env' =>
          have hstep : Clt.readSrv env' s.clt res = some t.clt := hturn.step.2
          unfold Clt.readSrv at hstep
          unfold CltEvent.message at hmsg
          simp only at hstep hmsg
          cases hout : readOutcome (s.clt.rbuf.getD mbufNew) res with
          | complete m' =>
              rw [hout] at hstep hmsg
              cases hmsg
              have hm := (whole_of_complete hok.rbuf.getD.1 hout).hdr
              have h' : Agree { s.clt with rbuf := none } s.up (m.b :: (t.down ++ back)) st := by
                rw [hdown] at h
                exact ⟨h.connected, h.run, h.proper, h.auths, h.tickets⟩
              rw [hturn.up]
              exact (List.append_nil s.up).symm ▸ h'.received hm hstep
          | _ =>
              rw [hout] at hmsg
              cases hmsg
      | _ => cases hmsg

/-- The slot of a connection that the server has just accepted. -/
theorem accepted_slot {u v : Server} {e : SrvEvent} {fd : Int} {i : Nat} (hok : SlotsOk u)
    (hen : e.Enabled u) (h : srvStep u e = some v) (hacc : e.Accepts fd) (hi : At v fd i) :
    (v.clients i).st = .preLogin ∧ (v.clients i).q = [] := by
  cases e with
  | accept fd' nonblocking now =>
      cases hacc
      obtain ⟨hst, hq, -⟩ := accepted_fresh hok hen h hi
      exact ⟨hst, hq⟩
  | _ => exact hacc.elim

/-- A step of the server keeps the agreement with the slot of the connection. -/
theorem Dialogue.ServerTurn.agree {e : SrvEvent} {fd : Int} {i j : Nat}
    (hturn : s.ServerTurn e t) (hsrv : (srvLts fun _ => True).Reachable s.srv)
    (hup : s.up = ((delivered s.srv fd e).map Mbuf.b).toList ++ t.up)
    (hdown : t.down = s.down ++ sentTo s.srv fd e) (hi : At s.srv fd i) (hj : At t.srv fd j)
    (h : Agree s.clt s.up (s.down ++ (s.srv.clients i).q.map Mbuf.b) (s.srv.clients i).st) :
    Agree t.clt t.up (t.down ++ (t.srv.clients j).q.map Mbuf.b) (t.srv.clients j).st := by
  have hok := (slotsOk_inductive _).invariant s.srv hsrv
  obtain ⟨hen, -, hstep⟩ := hturn.step
  have hkeys : ∀ e n u, (udbLookupname e s.srv.udb n).2 = some u →
      AUTH_KEY_PLAINTEXT.isPrefixOf u.key = true :=
    fun e n u hlookup => hturn.keys e u (lookupname_mem hlookup).1
  rw [hturn.clt, hdown, List.append_assoc]
  unfold delivered at hup
  cases hinc : incoming s.srv e with
  | none =>
      rw [hinc] at hup
      obtain ⟨hsess, hq⟩ := slot_kept hok hen hstep hinc hi hj
      rw [hq, show (t.srv.clients j).st = _ from congrArg Session.st hsess,
        show t.up = s.up from hup.symm]
      exact h
  | some p =>
      obtain ⟨k, m⟩ := p
      rw [hinc] at hup
      simp only at hup
      by_cases hk : (s.srv.clients k).fd = fd
      · rw [if_pos hk] at hup
        obtain ⟨now, bs, env, u, reply, rfl, hlk, -⟩ := message_step hok hen hstep hinc
        obtain rfl := hok.at_unique ⟨hlk, hk⟩ hi
        have hup' : s.up = m.b :: t.up := hup
        have hb : Agree s.clt (m.b :: t.up) (s.down ++ (s.srv.clients k).q.map Mbuf.b)
            (s.srv.clients k).st := hup' ▸ h
        obtain ⟨hsent, out, hq, hserving⟩ := slot_message hsrv hen hstep hinc hi hj
          (h.proper m.b (List.mem_append_right _ (hup ▸ List.mem_cons_self))) hb.waits hkeys
        rw [hsent, List.nil_append, hq, ← List.append_assoc]
        exact hb.served hserving
      · rw [if_neg hk] at hup
        obtain ⟨hsent, hst, out, hq, hcalm⟩ := slot_passed hok hen hstep hinc hk hi hj
        rw [hsent, List.nil_append, hq, ← List.append_assoc, hst, show t.up = s.up from hup.symm]
        exact h.passed hcalm

end Steps

/-- **The agreement holds in every reachable state.** -/
theorem dialogueOk_inductive : dialogueLts.Inductive DialogueOk where
  init := by
    rintro ⟨c, srv, conn, up, down⟩ ⟨⟨c₀, fd, env, hc₀, hstep⟩, hsrv, rfl, rfl, rfl⟩
    refine ⟨(cltOk_inductive.init c₀ hc₀).step (e := .cmd (.connect (some fd)) env) trivial hstep,
      hsrv, rfl, ?_⟩
    obtain ⟨cfg, pubkey, fs, cwd, -, -, rfl⟩ := hc₀
    cases hstep
    exact .start rfl rfl
  step := by
    intro s e t hs hstep
    have hagree := hs.agree
    cases e with
    | client e =>
        have hturn : s.ClientTurn e t := hstep
        have hsrv : (srvLts fun _ => True).Reachable t.srv := hturn.srv ▸ hs.srv
        refine ⟨hs.clt.step hturn.step.1 hturn.step.2, hsrv, ?_⟩
        rw [hturn.conn]
        cases hconn : s.conn with
        | none =>
            rw [hconn] at hagree
            obtain ⟨hdown, h⟩ := hagree
            have hnil := hturn.down
            rw [hdown] at hnil
            have ht : t.down = [] := (List.append_eq_nil_iff.mp hnil.symm).2
            -- As long as the connection waits to be accepted, the server is as before a login.
            have hback : Agree s.clt s.up (s.down ++ []) .preLogin := by
              rw [hdown]
              exact h
            have h' := hturn.agree hs.clt hback
            rw [ht] at h'
            exact ⟨ht, h'⟩
        | some fd =>
            rw [hconn] at hagree
            obtain ⟨i, hi, h⟩ := hagree
            refine ⟨i, hturn.srv ▸ hi, ?_⟩
            rw [hturn.srv]
            exact hturn.agree hs.clt h
    | server e =>
        have hturn : s.ServerTurn e t := hstep
        have hwire := hturn.wire
        unfold Dialogue.Carries at hwire
        refine ⟨hturn.clt ▸ hs.clt, hs.srv.step hturn.step, ?_⟩
        cases hconn : s.conn with
        | none =>
            rw [hconn] at hagree hwire
            obtain ⟨hdown, h⟩ := hagree
            obtain ⟨hup', hdown', hacc⟩ := hwire
            rw [hdown] at hdown'
            cases hconn' : t.conn with
            | none => exact ⟨hdown', by rw [hturn.clt, hup']; exact h⟩
            | some fd =>
                -- The connection has just been accepted, into a slot that is new.
                obtain ⟨hacc, i, hi⟩ := hacc fd hconn'
                have hok := (slotsOk_inductive _).invariant s.srv hs.srv
                obtain ⟨hst, hq⟩ := accepted_slot hok hturn.step.1 hturn.step.2.2 hacc hi
                refine ⟨i, hi, ?_⟩
                rw [hst, hq, hdown', hturn.clt, hup']
                exact h
        | some fd =>
            rw [hconn] at hagree hwire
            obtain ⟨i, hi, h⟩ := hagree
            obtain ⟨hconn', ⟨j, hj⟩, hup, hdown⟩ := hwire
            rw [hconn']
            exact ⟨j, hj, hturn.agree hs.srv hup hdown hi hj h⟩

/-- **Client and server agree.** Once the server has accepted the connection and nothing is
queued or in flight, the client is in the state of its slot, and the challenge is over. -/
theorem sessions_agree {s : Dialogue} {fd : Int} (hs : dialogueLts.Reachable s)
    (hconn : s.conn = some fd) :
    ∃ i, At s.srv fd i ∧ (s.Drained i → s.clt.st = (s.srv.clients i).st ∧
      (s.clt.st = .preLogin ∨ s.clt.st = .authOk)) := by
  have hagree := (dialogueOk_inductive.invariant s hs).agree
  rw [hconn] at hagree
  obtain ⟨i, hi, h⟩ := hagree
  refine ⟨i, hi, fun ⟨hcq, hup, hdown, hsq⟩ => ?_⟩
  rw [hup, hdown, hsq] at h
  obtain ⟨heq, hne⟩ := h.idle hcq
  refine ⟨heq, ?_⟩
  have hopen := h.connected
  rw [← heq] at hne
  cases hst : s.clt.st with
  | invalid => exact absurd hst hopen
  | loginOk => exact absurd hst hne
  | preLogin => exact .inl rfl
  | authOk => exact .inr rfl

/-! ## A dialogue that can be run -/

instance (s : Server) (fd : Int) : Decidable (∃ i, At s fd i) :=
  decidable_of_iff (∃ i ∈ s.slots, At s fd i)
    ⟨fun ⟨i, _, hi⟩ => ⟨i, hi⟩, fun ⟨i, hi⟩ => ⟨i, Server.mem_slots.mpr hi.1.1, hi⟩⟩

instance (d : Udb) : Decidable (PlainKeys d) :=
  decidable_of_iff (∀ rd wr, ∀ u ∈ (udbLoad ⟨rd, wr⟩ d).userdb,
    AUTH_KEY_PLAINTEXT.isPrefixOf u.key = true) ⟨fun h e => h e.rd e.wr, fun h rd wr => h ⟨rd, wr⟩⟩

instance (c : Clt) (e : CltEvent) (t : Clt) : Decidable (e.Steady c t) :=
  match e with
  | .cmd (.connect _) _ => inferInstanceAs (Decidable (_ ∧ False))
  | .upkeep _ => inferInstanceAs (Decidable (_ ∧ _ = _))
  | .read _ _ | .write _ | .outside _ => inferInstanceAs (Decidable (_ ∧ True))
  | .cmd (.accept _ _) _ | .cmd (.offer _ _) _ | .cmd (.remove _) _ | .cmd .disconnect _
  | .cmd .exit _ | .cmd (.login _ _) _ | .cmd .logout _ | .cmd (.register _) _ | .cmd .drop _
  | .cmd (.ping _ _) _ | .cmd .peerlist _ | .cmd (.cd _) _ => inferInstanceAs (Decidable (_ ∧ True))

/-- Take the message that was completed off the wire. -/
def takeOff (o : Option Bytes) (l : List Bytes) : Option (List Bytes) :=
  match o, l with
  | none, l => some l
  | some _, [] => none
  | some b, b' :: l => if b = b' then some l else none

theorem takeOff_eq_some {o : Option Bytes} {l l' : List Bytes} (h : takeOff o l = some l') :
    l = o.toList ++ l' := by
  unfold takeOff at h
  split at h
  · cases h
    rfl
  · cases h
  · split at h
    · rename_i heq
      cases h
      rw [heq]
      rfl
    · cases h

/-- The steps of the dialogue as a function. -/
def dialogueTry (s : Dialogue) : DialogueEvent → Option Dialogue
  | .client e => do
      let c ← cltTry s.clt e
      let down ← takeOff ((e.message s.clt).map fun p => p.2.b) s.down
      if e.Steady s.clt c then some { s with clt := c, up := s.up ++ e.sent s.clt, down := down }
      else none
  | .server e => do
      let v ← srvTry s.srv e
      if PlainKeys s.srv.udb then
        match s.conn, e with
        | none, .accept fd _ _ =>
            if ∃ i, At v fd i then some { s with srv := v, conn := some fd } else none
        | none, _ => some { s with srv := v }
        | some fd, _ => do
            let up ← takeOff ((delivered s.srv fd e).map Mbuf.b) s.up
            if ∃ i, At v fd i then
              some { s with srv := v, up := up, down := s.down ++ sentTo s.srv fd e }
            else none
      else none

theorem dialogueTry_step (s : Dialogue) (e : DialogueEvent) (t : Dialogue)
    (h : dialogueTry s e = some t) : dialogueLts.step s e t := by
  cases e with
  | client e =>
      obtain ⟨c, hc, h⟩ := Option.bind_eq_some_iff.mp h
      obtain ⟨down, hdown, h⟩ := Option.bind_eq_some_iff.mp h
      split at h
      · rename_i hsteady
        cases h
        exact ⟨cltTry_step hc, hsteady, rfl, rfl, rfl, takeOff_eq_some hdown⟩
      · cases h
  | server e =>
      obtain ⟨v, hv, h⟩ := Option.bind_eq_some_iff.mp h
      have hstep := srvTry_step (fun _ => True) trivial hv
      split at h
      · rename_i hkeys
        cases hconn : s.conn with
        | none =>
            rw [hconn] at h
            -- Unless it accepts, the server goes on and the connection waits.
            have hwait : some { s with srv := v, conn := none } = some t → dialogueLts.step s (.server e) t := by
              intro heq
              cases heq
              refine ⟨hstep, hkeys, rfl, ?_⟩
              unfold Dialogue.Carries
              rw [hconn]
              exact ⟨rfl, rfl, nofun⟩
            cases e with
            | accept fd nonblocking now =>
                simp only at h
                split at h
                · rename_i hat
                  cases h
                  refine ⟨hstep, hkeys, rfl, ?_⟩
                  unfold Dialogue.Carries
                  rw [hconn]
                  refine ⟨rfl, rfl, fun fd' heq => ?_⟩
                  cases heq
                  exact ⟨rfl, hat⟩
                · cases h
            | _ => exact hwait h
        | some fd =>
            rw [hconn] at h
            obtain ⟨up, hup, h⟩ := Option.bind_eq_some_iff.mp h
            split at h
            · rename_i hat
              cases h
              refine ⟨hstep, hkeys, rfl, ?_⟩
              unfold Dialogue.Carries
              rw [hconn]
              exact ⟨rfl, hat, takeOff_eq_some hup, rfl⟩
            · cases h
      · cases h

/-- The client of `ann`, and a server that has her key. -/
def annDialogue : Dialogue where
  clt := Clt.cmdConnect (demoClient false []) (some 3)
  srv := demoServer (some (ascii "5|ann|plain-text pw\n"))
  conn := none
  up := []
  down := []

theorem annDialogue_init : dialogueLts.init annDialogue :=
  ⟨⟨_, 3, demoEnv, demoClient_init false [], rfl⟩,
    .init (demoServer_init (fun _ => True) trivial _), rfl, rfl, rfl⟩

/-- She logs in and answers the challenge. -/
def annRun : List DialogueEvent :=
  let ask := messageOctets .loginReq 0 1 [(.username, .str (ascii "ann"))]
  let challenge := messageOctets .loginRes 0 1 [(.challenge, .blob (AUTH_KEY_PLAINTEXT ++ [0]))]
  let digest := messageOctets .authReq 0 1 [(.digest, .blob (ascii "plain-text pw" ++ [0]))]
  let welcome := (((addattrib (mbufCompose 0 .authRes 0 5 1) .ok .null).bind fun m =>
    addattrib m .notice (.str (ascii "Welcome!"))).map Mbuf.b).getD []
  [.client (.cmd (.login (ascii "ann") (some (ascii "pw"))) demoEnv), .client (.write (.sent 1000)),
    .server (.accept 4 true 1)] ++ (arrival 0 ask).map .server ++ [.server (.write 0 1 (.sent 1000))] ++
    (delivery challenge).map .client ++ [.client (.write (.sent 1000))] ++
    (arrival 0 digest).map .server ++ [.server (.write 0 1 (.sent 1000))] ++
    (delivery welcome).map .client

theorem sessions_agree_authenticated : ∃ (s : Dialogue) (fd : Int), dialogueLts.Reachable s ∧
    s.conn = some fd ∧ s.clt.st = .authOk ∧
    ∃ i, At s.srv fd i ∧ s.Drained i ∧ s.clt.st = (s.srv.clients i).st ∧
      (s.clt.st = .preLogin ∨ s.clt.st = .authOk) := by
  have hexec : (Lts.exec dialogueTry annDialogue annRun).any (fun s =>
      (decide (s.conn = some 4) && decide (s.clt.st = .authOk)) &&
        (s.clt.q.isEmpty && s.up.isEmpty && s.down.isEmpty &&
          s.srv.slots.all fun i => (s.srv.clients i).q.isEmpty)) = true := by
    decide +kernel
  obtain ⟨s, hs, hp⟩ := Lts.reachable_of_exec dialogueTry_step annDialogue_init hexec
  simp only [Bool.and_eq_true, decide_eq_true_eq, List.isEmpty_iff, List.all_eq_true] at hp
  obtain ⟨⟨hconn, hst⟩, ⟨⟨hq, hup⟩, hdown⟩, hslots⟩ := hp
  obtain ⟨i, hat, hagree⟩ := sessions_agree hs hconn
  have hdrained : s.Drained i := ⟨hq, hup, hdown, hslots i (List.mem_range.mpr hat.1.1)⟩
  exact ⟨s, 4, hs, hconn, hst, i, hat, hdrained, hagree hdrained⟩

end Frelay
