import Frelay.Client.Effect

/-!
# Turns of a session

The client is told of its session by messages of the server. `Turn` says how each of
them moves it, `turnLts` how a sequence of them does, and `Turn.heard` that the client
moves that way when it still waits for the answer.
-/

namespace Frelay

open Lib

/-! ## Messages in flight -/

/-- The octets of a message, with the attributes still to be read. -/
def msg (b : Bytes) : Mbuf := ⟨b, MSG_HDR_SIZE⟩

/-- A message of the server with the type. -/
def Says (t : MsgType) (b : Bytes) : Prop :=
  hdrGetType (msg b) = t.code ∧ hdrGetSrcid (msg b) = 0

/-- The first attribute is of the type. -/
def Opens (a : MsgAttrib) (b : Bytes) : Prop := (Clt.nextIf (msg b) a).isSome = true

/-- The first attribute is a challenge, whatever lies behind the message. -/
def Challenges (b : Bytes) : Prop :=
  ∃ a m, Clt.nextIf (msg b) .challenge = some (a, m) ∧
    ∀ beyond, AUTH_KEY_PLAINTEXT.isPrefixOf (cstrAt m beyond a.av) = true

/-- A challenge, by its type and its first attribute. -/
def isChallenge (b : Bytes) : Bool :=
  decide (hdrGetType (msg b) = MsgType.code .loginRes) && (Clt.nextIf (msg b) .challenge).isSome

/-- The types of the messages that a session moves by. -/
def sessionTypes : List MsgType := [.loginRes, .authRes, .logoutRes, .authErr]

/-- The session moves by the message. -/
def Moves (b : Bytes) : Prop := ∃ t ∈ sessionTypes, hdrGetType (msg b) = t.code

/-- From one state of the session to the next by a message of the server. -/
inductive Turn : CltState → Bytes → CltState → Prop
  | welcome {b : Bytes} : Says .loginRes b → Opens .ok b → Turn .preLogin b .authOk
  | challenge {b : Bytes} : Says .loginRes b → Challenges b → Turn .preLogin b .loginOk
  | authenticated {b : Bytes} : Says .authRes b → Opens .ok b → Turn .loginOk b .authOk
  | denied {b : Bytes} : hdrGetType (msg b) = MsgType.code .authErr → Turn .loginOk b .preLogin
  | bye {b : Bytes} : Says .logoutRes b → Opens .ok b → Turn .authOk b .preLogin
  | other {st : CltState} {b : Bytes} : ¬ Moves b → Turn st b st

/-- The states that messages lead a session through. -/
def turnLts : Lts CltState Bytes where
  init st := st = .preLogin
  step := Turn

theorem Opens.not_challenge {b : Bytes} (h : Opens .ok b) : Clt.nextIf (msg b) .challenge = none := by
  unfold Opens at h
  unfold Clt.nextIf at h ⊢
  split at h
  · split at h
    · rename_i hok
      exact if_neg fun hc => absurd (hok.symm.trans hc) (by decide)
    · cases h
  · cases h

theorem isChallenge_of_type {b : Bytes} (h : hdrGetType (msg b) ≠ MsgType.code .loginRes) :
    isChallenge b = false := by
  rw [isChallenge, decide_eq_false h, Bool.false_and]

theorem isChallenge_of_opens {b : Bytes} (h : Opens .ok b) : isChallenge b = false := by
  rw [isChallenge, h.not_challenge, Option.isSome_none, Bool.and_false]

/-! ## What the client says -/

/-- The error response to the message is no AUTH error, unless the message is an AUTH
request to the server. -/
def Proper (b : Bytes) : Prop :=
  mclassToErr (hdrGetType (msg b)) = MsgType.code .authErr →
    hdrGetDstid (msg b) = 0 ∧ hdrGetType (msg b) = MsgType.code .authReq

/-- An AUTH request. -/
def isAuth (b : Bytes) : Bool := decide (hdrGetType (msg b) = MsgType.code .authReq)

/-- The types of the messages that the client sends unless it is challenged. -/
def plainTypes : List MsgType :=
  [.loginReq, .logoutReq, .registerReq, .dropReq, .peerlistReq, .pingReq, .pingInd, .pingRes,
    .offerReq, .offerRes, .offerErr, .getfileReq, .getfileRes, .getfileErr]

/-- The message has one of them. -/
def Plain (b : Bytes) : Prop := ∃ t ∈ plainTypes, hdrGetType (msg b) = t.code

theorem Plain.proper {b : Bytes} (h : Plain b) : Proper b := by
  obtain ⟨t, ht, htype⟩ := h
  have hall : ∀ t ∈ plainTypes, mclassToErr t.code ≠ MsgType.code .authErr := by decide
  intro herr
  rw [htype] at herr
  exact absurd herr (hall t ht)

theorem Plain.not_auth {b : Bytes} (h : Plain b) : isAuth b = false := by
  obtain ⟨t, ht, htype⟩ := h
  have hall : ∀ t ∈ plainTypes, t.code ≠ MsgType.code .authReq := by decide
  rw [isAuth, htype]
  exact decide_eq_false (hall t ht)

/-! ## Handlers -/

namespace Clt

variable {env : CltEnv} {c c' : Clt} {m : Mbuf} {a : Answer}

/-- The handler leaves the session alone, and what it answers is plain. -/
structure Aside (c : Clt) (m : Mbuf) (c' : Clt) (a : Answer) : Prop where
  st : c'.st = c.st
  send : ∀ r, a = .send r → Plain r.b
  fail : ∀ ec, a = .fail ec → ∃ t ∈ [MsgType.offerReq, .getfileReq], hdrGetType m = t.code

theorem Aside.nothing (c : Clt) (m : Mbuf) {c' : Clt} (hst : c'.st = c.st) :
    Aside c m c' .nothing := ⟨hst, nofun, nofun⟩

theorem Aside.sends {t : MsgType} {r : Mbuf} (hst : c'.st = c.st) (ht : t ∈ plainTypes)
    (htype : hdrGetType r = t.code) : Aside c m c' (.send r) := by
  refine ⟨hst, fun r' heq => ?_, nofun⟩
  cases heq
  exact ⟨t, ht, htype⟩

theorem processPing_aside (h : processPing env c m = some (c', a)) : Aside c m c' a := by
  unfold processPing at h
  split at h
  · obtain ⟨r, hr, heq⟩ := Option.bind_eq_some_iff.mp h
    cases heq
    exact .sends rfl (t := .pingRes) (by decide)
      (hdrGetType_compose (by simp [AttrArg.avtype, MsgAttrib.avtype]) hr)
  · cases h
    exact .nothing c m rfl

theorem processOfferReq_aside (htype : hdrGetType m = MsgType.code .offerReq)
    (h : processOfferReq env c m = some (c', a)) : Aside c m c' a := by
  unfold processOfferReq at h
  split at h
  · simp only at h
    split at h
    · cases h
      exact ⟨rfl, nofun, fun _ _ => ⟨.offerReq, by decide, htype⟩⟩
    · obtain ⟨r, hr, heq⟩ := Option.bind_eq_some_iff.mp h
      cases heq
      exact .sends rfl (t := .offerRes) (by decide)
        (hdrGetType_compose (by simp [AttrArg.avtype, MsgAttrib.avtype]) hr)
  · cases h
    exact .nothing c m rfl

theorem processGetfileReq_aside (htype : hdrGetType m = MsgType.code .getfileReq)
    (h : processGetfileReq env c m = some (c', a)) : Aside c m c' a := by
  have hfail : ∀ {c' : Clt} (ec : ScEnum), c'.st = c.st → Aside c m c' (.fail ec) :=
    fun ec hst => ⟨hst, nofun, fun _ _ => ⟨.getfileReq, by decide, htype⟩⟩
  have hresponse : ∀ {c₁ : Clt} {oid : UInt64} {data : Bytes},
      getfileResponse env c₁ m oid data = some (c', a) → c₁.st = c.st → Aside c m c' a := by
    intro c₁ oid data h hst
    obtain ⟨rfl, r, rfl, hrtype, -⟩ := getfileResponse_spec h
    exact .sends hst (t := .getfileRes) (by decide) hrtype
  unfold processGetfileReq at h
  split at h
  · cases h
    exact .nothing c m rfl
  · simp only at h
    split at h
    · cases h
      exact hfail _ rfl
    · split at h
      · exact hresponse h rfl
      · split at h
        · cases h
        · cases h
          exact hfail _ rfl
        · exact hresponse h rfl

theorem processOfferRes_aside (h : processOfferRes env c m = some (c', a)) : Aside c m c' a := by
  unfold processOfferRes at h
  split at h
  · cases h
    exact .nothing c m rfl
  · split at h
    · cases h
      exact .nothing c m rfl
    · cases h
      exact .nothing c m rfl

theorem processGetfileRes_aside (h : processGetfileRes env c m = some (c', a)) :
    Aside c m c' a := by
  unfold processGetfileRes at h
  split at h
  · cases h
    exact .nothing c m rfl
  · simp only at h
    split at h
    · cases h
      exact .nothing c m rfl
    · split at h
      · cases h
        exact .nothing c m rfl
      · split at h
        · cases h
          exact .nothing c m rfl
        · split at h
          · cases h
            exact .nothing c m rfl
          · obtain ⟨r, hr, heq⟩ := Option.bind_eq_some_iff.mp h
            cases heq
            exact .sends rfl (t := .getfileReq) (by decide) (getfileRequest_spec hr).1

/-- A message that the session does not move by. -/
theorem dispatchSrvmsg_aside (hmoves : ¬ Moves m.b) (h : dispatchSrvmsg env c m = some (c', a)) :
    Aside c m c' a := by
  have hno : ∀ t ∈ sessionTypes, MsgType.ofCode? (hdrGetType m) ≠ some t :=
    fun t ht htype => hmoves ⟨t, ht, MsgType.ofCode?_eq_some.mp htype⟩
  unfold dispatchSrvmsg at h
  split at h
  · exact processPing_aside h
  · exact processPing_aside h
  · exact processOfferReq_aside (MsgType.ofCode?_eq_some.mp ‹_›) h
  · exact processGetfileReq_aside (MsgType.ofCode?_eq_some.mp ‹_›) h
  · exact processOfferRes_aside h
  · exact processGetfileRes_aside h
  · exact absurd ‹_› (hno .loginRes (by decide))
  · exact absurd ‹_› (hno .authRes (by decide))
  · exact absurd ‹_› (hno .logoutRes (by decide))
  · exact absurd ‹_› (hno .authErr (by decide))
  · cases h
    exact .nothing c m rfl

/-! ## Hearing a message -/

/-- The client moves to the state, and sends an AUTH request if it is challenged. -/
structure Told (c : Clt) (b : Bytes) (st : CltState) (t : Clt) : Prop where
  st : t.st = st
  sends : ∃ new, t.q = c.q ++ new ∧ (∀ x ∈ new, Proper x.b) ∧
    (new.map Mbuf.b).countP isAuth = if isChallenge b = true then 1 else 0

/-- Nothing is sent. -/
theorem Told.quiet {b : Bytes} {st : CltState} {t : Clt} (hst : t.st = st) (hq : t.q = c.q)
    (hb : isChallenge b = false) : Told c b st t := by
  refine ⟨hst, [], by rw [hq, List.append_nil], fun x hx => absurd hx List.not_mem_nil, ?_⟩
  rw [hb]
  rfl

/-- A response that is waited for is not dropped. -/
theorem solicited_of_waits (h : mclassIsRes (hdrGetType m) = true → ∃ r ∈ c.requests, Answers m r) :
    ∃ c₁, c.solicited m = some c₁ := by
  unfold solicited
  split
  · rename_i hres
    obtain ⟨r, hr, hans⟩ := h hres
    cases hfind : c.requests.find? fun r => decide (Answers m r) with
    | none => exact absurd (decide_eq_true hans) (List.find?_eq_none.mp hfind r hr)
    | some r => exact ⟨_, by rw [matchPendingReq, hfind]; rfl⟩
  · exact ⟨c, rfl⟩

theorem nextIf_of_opens {t : MsgAttrib} {b : Bytes} (h : Opens t b) :
    ∃ a m', mbufGetnextattrib (msg b) = some (a, m') ∧ a.at' = t.code := by
  obtain ⟨⟨a, m'⟩, hnext⟩ := Option.isSome_iff_exists.mp h
  unfold nextIf at hnext
  split at hnext
  · split at hnext
    · cases hnext
      exact ⟨a, m', ‹_›, ‹_›⟩
    · cases hnext
  · cases hnext

theorem dispatch_welcome {b : Bytes} (hresp : Says .loginRes b) (hok : Opens .ok b)
    (hst : c.st = .preLogin) :
    dispatchSrvmsg env c (msg b) = some ({ c with st := .authOk }, .nothing) := by
  obtain ⟨a, m', hnext, hat⟩ := nextIf_of_opens hok
  unfold dispatchSrvmsg
  rw [hresp.1, MsgType.ofCode?_code]
  simp only [processLoginRes, hst, hresp.2, hnext, hat, and_self, if_true]

theorem dispatch_challenge {b : Bytes} (hresp : Says .loginRes b) (hch : Challenges b)
    (hst : c.st = .preLogin) (h : dispatchSrvmsg env c (msg b) = some (c', a)) :
    c' = { c with st := .loginOk } ∧ ∃ r, a = .send r ∧ hdrGetType r = MsgType.code .authReq ∧
      hdrGetDstid r = 0 := by
  obtain ⟨ref, m', hnext, hkey⟩ := hch
  unfold nextIf at hnext
  split at hnext
  · rename_i a₀ m₀ hget
    split at hnext
    · rename_i hat
      cases hnext
      have hno : MsgAttrib.code .challenge ≠ MsgAttrib.code .ok := by decide
      unfold dispatchSrvmsg at h
      rw [hresp.1, MsgType.ofCode?_code] at h
      simp only [processLoginRes, hst, hresp.2, hget, hat, hno, hkey, and_self, if_true,
        if_false] at h
      obtain ⟨r, hr, heq⟩ := Option.bind_eq_some_iff.mp h
      cases heq
      obtain ⟨-, hr⟩ := compose_eq_some (by simp [AttrArg.avtype, MsgAttrib.avtype]) hr
      refine ⟨rfl, r, rfl, ?_, ?_⟩
      · rw [hr, hdrGetType_mkMsg]
      · rw [hr, hdrGetDstid_mkMsg]
    · cases hnext
  · cases hnext

/-- The three handlers that only move the session. -/
theorem dispatch_authenticated {b : Bytes} (hresp : Says .authRes b) (hok : Opens .ok b)
    (hst : c.st = .loginOk) :
    dispatchSrvmsg env c (msg b) = some ({ c with st := .authOk }, .nothing) := by
  have hok' : (nextIf (msg b) .ok).isSome = true := hok
  unfold dispatchSrvmsg
  rw [hresp.1, MsgType.ofCode?_code]
  simp only [processAuthRes, hst, hresp.2, hok', and_self, if_true]

theorem dispatch_bye {b : Bytes} (hresp : Says .logoutRes b) (hok : Opens .ok b)
    (hst : c.st = .authOk) :
    dispatchSrvmsg env c (msg b) = some ({ c with st := .preLogin }, .nothing) := by
  have hok' : (nextIf (msg b) .ok).isSome = true := hok
  unfold dispatchSrvmsg
  rw [hresp.1, MsgType.ofCode?_code]
  simp only [processLogoutRes, hst, hresp.2, hok', or_true, and_self, if_true]

theorem dispatch_denied {b : Bytes} (htype : hdrGetType (msg b) = MsgType.code .authErr)
    (hst : c.st = .loginOk) :
    dispatchSrvmsg env c (msg b) = some ({ c with st := .preLogin }, .nothing) := by
  unfold dispatchSrvmsg
  rw [htype, MsgType.ofCode?_code]
  simp only [processAuthErr, hst, if_true]

/-- Handlers leave the send queue to `process_srvmsg`. -/
theorem dispatch_q (h : dispatchSrvmsg env c m = some (c', a)) : c'.q = c.q := by
  cases dispatchSrvmsg_cases h with
  | plain hp => exact hp.queues.1
  | offer _ => rfl
  | serve _ => rfl
  | download _ => rfl

/-- What is sent in answer is plain as well. -/
theorem Aside.plain {new : List Mbuf} (h : Aside c (msg m.b) c' a) (hsends : Sends m a new) :
    ∀ x ∈ new, Plain x.b := by
  intro x hx
  cases a with
  | nothing =>
      rw [show new = [] from hsends] at hx
      exact absurd hx List.not_mem_nil
  | send r =>
      rw [show new = [{ r with boff := 0 }] from hsends] at hx
      rw [List.mem_singleton.mp hx]
      exact h.send r rfl
  | fail ec =>
      obtain ⟨r, rfl, htype⟩ := hsends
      obtain ⟨t, ht, hmt⟩ := h.fail ec rfl
      have hall : ∀ t ∈ [MsgType.offerReq, .getfileReq], ∃ u ∈ plainTypes,
          mclassToErr t.code = u.code := by decide
      obtain ⟨u, hu, hcode⟩ := hall t ht
      rw [List.mem_singleton.mp hx]
      refine ⟨u, hu, ?_⟩
      rw [← hcode, ← hmt]
      exact htype

/-- The handler of a message is called, and its answer is sent. -/
theorem processSrvmsg_dispatch {t c₁ : Clt} (hsol : c.solicited m = some c₁)
    (h : processSrvmsg env c m = some t) :
    ∃ c₂ a, dispatchSrvmsg env c₁ (msg m.b) = some (c₂, a) ∧ sendAnswer env m (c₂, a) = some t := by
  unfold processSrvmsg at h
  rw [hsol] at h
  obtain ⟨⟨c₂, a⟩, hdisp, hsend⟩ := Option.bind_eq_some_iff.mp h
  exact ⟨c₂, a, hdisp, hsend⟩

/-- **The client makes the turn**, if it still waits for the response. -/
theorem told_of_turn {t : Clt} {st : CltState} (hm : 40 ≤ m.bsize) (hturn : Turn c.st m.b st)
    (hwaits : Moves m.b → mclassIsRes (hdrGetType m) = true → ∃ r ∈ c.requests, Answers m r)
    (h : processSrvmsg env c m = some t) : Told c m.b st t := by
  -- A message that moves the session finds its handler.
  have hmoves : Moves m.b → ∃ c₁ c₂ a, c₁.st = c.st ∧ c₁.q = c.q ∧
      dispatchSrvmsg env c₁ (msg m.b) = some (c₂, a) ∧ sendAnswer env m (c₂, a) = some t := by
    intro hb
    obtain ⟨c₁, hsol⟩ := solicited_of_waits (hwaits hb)
    obtain ⟨-, ⟨hq, -, -⟩, hst, -⟩ := solicited_spec hsol
    obtain ⟨c₂, a, hdisp, hsend⟩ := processSrvmsg_dispatch hsol h
    exact ⟨c₁, c₂, a, hst, hq, hdisp, hsend⟩
  have hquiet : ∀ {c₁ c₂ : Clt} {a : Answer} {st : CltState}, c₁.q = c.q →
      isChallenge m.b = false → some (c₂, a) = some ({ c₁ with st := st }, .nothing) →
      sendAnswer env m (c₂, a) = some t → Told c m.b st t := by
    intro c₁ c₂ a st hq hb heq hsend
    cases heq
    cases hsend
    exact .quiet rfl hq hb
  generalize hcst : c.st = x at hturn
  cases hturn with
  | welcome hresp hok =>
      obtain ⟨c₁, c₂, a, hst, hq, hdisp, hsend⟩ := hmoves ⟨.loginRes, by decide, hresp.1⟩
      exact hquiet hq (isChallenge_of_opens hok)
        (hdisp.symm.trans (dispatch_welcome hresp hok (hst.trans hcst))) hsend
  | challenge hresp hch =>
      obtain ⟨c₁, c₂, a, hst, hq, hdisp, hsend⟩ := hmoves ⟨.loginRes, by decide, hresp.1⟩
      obtain ⟨rfl, r, rfl, htype, hdst⟩ := dispatch_challenge hresp hch (hst.trans hcst) hdisp
      have hb : isChallenge m.b = true := by
        obtain ⟨ref, m', hnext, -⟩ := hch
        rw [isChallenge, decide_eq_true hresp.1, hnext]
        rfl
      have hauth : isAuth r.b = true := decide_eq_true htype
      cases hsend
      refine ⟨rfl, [{ r with boff := 0 }], congrArg (· ++ _) hq, ?_, ?_⟩
      · intro x hx
        rw [List.mem_singleton.mp hx]
        exact fun _ => ⟨hdst, htype⟩
      · rw [if_pos hb, List.map_singleton, List.countP_singleton, if_pos hauth]
  | authenticated hresp hok =>
      obtain ⟨c₁, c₂, a, hst, hq, hdisp, hsend⟩ := hmoves ⟨.authRes, by decide, hresp.1⟩
      exact hquiet hq (isChallenge_of_opens hok)
        (hdisp.symm.trans (dispatch_authenticated hresp hok (hst.trans hcst))) hsend
  | denied htype =>
      obtain ⟨c₁, c₂, a, hst, hq, hdisp, hsend⟩ := hmoves ⟨.authErr, by decide, htype⟩
      refine hquiet hq (isChallenge_of_type ?_)
        (hdisp.symm.trans (dispatch_denied htype (hst.trans hcst))) hsend
      rw [htype]
      decide
  | bye hresp hok =>
      obtain ⟨c₁, c₂, a, hst, hq, hdisp, hsend⟩ := hmoves ⟨.logoutRes, by decide, hresp.1⟩
      exact hquiet hq (isChallenge_of_opens hok)
        (hdisp.symm.trans (dispatch_bye hresp hok (hst.trans hcst))) hsend
  | other hno =>
      have hb : isChallenge m.b = false :=
        isChallenge_of_type fun htype => hno ⟨.loginRes, by decide, htype⟩
      cases hsol : c.solicited m with
      | none =>
          unfold processSrvmsg at h
          rw [hsol] at h
          cases h
          exact .quiet hcst rfl hb
      | some c₁ =>
          obtain ⟨-, ⟨hq, -, -⟩, hst, -⟩ := solicited_spec hsol
          obtain ⟨c₂, a, hdisp, hsend⟩ := processSrvmsg_dispatch hsol h
          have haside := dispatchSrvmsg_aside (m := msg m.b) hno hdisp
          obtain ⟨new, rfl, hsends⟩ := sendAnswer_spec hm hsend
          have hplain := haside.plain hsends
          refine ⟨haside.st.trans (hst.trans hcst), new, ?_, fun x hx => (hplain x hx).proper, ?_⟩
          · exact congrArg (· ++ new) ((dispatch_q hdisp).trans hq)
          · rw [hb, if_neg Bool.false_ne_true, List.countP_eq_zero]
            intro b hmem
            obtain ⟨x, hx, rfl⟩ := List.mem_map.mp hmem
            exact Bool.eq_false_iff.mp (hplain x hx).not_auth

end Clt

end Frelay
