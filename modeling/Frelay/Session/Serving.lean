import Frelay.Server.Requests
import Frelay.Server.Relay
import Frelay.Userdb.Reload
import Frelay.Session.Turns

/-!
# Turns of a session at the server

The slot of a session on the server changes its state when a message of its client is
served, and every change goes with a message that tells the client (`Serving`).

* `Serves.serving` — serving a message, when every key that can be found is plain;
* `slot_quiet`, `slot_message` — what any event does to the slot of a connection.
-/

namespace Frelay

open Lib

/-- The requests that a session moves by. -/
def sessionReqs : List MsgType := [.loginReq, .authReq, .logoutReq]

/-- A request to the server of the type with the transaction id. -/
def asks (t : MsgType) (x : UInt64) (b : Bytes) : Bool :=
  decide (hdrGetType (msg b) = t.code ∧ hdrGetDstid (msg b) = 0 ∧ hdrGetTrfid (msg b) = x)

/-- The response of the server to such a request. -/
def answersTo (t : MsgType) (x : UInt64) (b : Bytes) : Bool :=
  decide (hdrGetType (msg b) = mclassToRes t.code ∧ hdrGetSrcid (msg b) = 0 ∧
    hdrGetTrfid (msg b) = x)

/-- The message `b` of a client leads its session on the server from `st` to `st'`, and
`out` is what the client is sent: messages that take the client the same way. A
challenge comes with the state that waits for an AUTH request, which ends it; and every
response has its request. -/
structure Serving (st : CltState) (b : Bytes) (out : List Bytes) (st' : CltState) : Prop where
  run : turnLts.Run st out st'
  challenges : out.countP isChallenge + (if st = .loginOk then 1 else 0) =
    (if st' = .loginOk then 1 else 0) + if isAuth b = true then 1 else 0
  answers : ∀ t ∈ sessionReqs, ∀ x, out.countP (answersTo t x) ≤ if asks t x b = true then 1 else 0

/-- Only type, destination and transaction id of the message matter. -/
theorem Serving.congr {st st' : CltState} {b b' : Bytes} {out : List Bytes}
    (h : Serving st b out st') (hauth : isAuth b = isAuth b')
    (hasks : ∀ t x, asks t x b = asks t x b') : Serving st b' out st' where
  run := h.run
  challenges := hauth ▸ h.challenges
  answers := fun t ht x => hasks t x ▸ h.answers t ht x

/-! ## Messages that move no session -/

/-- Messages by which no session moves. -/
def Calm (out : List Bytes) : Prop := ∀ b ∈ out, ¬ Moves b

theorem Calm.run {out : List Bytes} (h : Calm out) (st : CltState) : turnLts.Run st out st := by
  induction out with
  | nil => exact .nil st
  | cons b out ih =>
      exact .cons (.other (h b List.mem_cons_self))
        (ih fun b' hb' => h b' (List.mem_cons_of_mem _ hb'))

theorem Calm.challenges {out : List Bytes} (h : Calm out) : out.countP isChallenge = 0 := by
  rw [List.countP_eq_zero]
  intro b hb hch
  rw [isChallenge, Bool.and_eq_true, decide_eq_true_eq] at hch
  exact h b hb ⟨.loginRes, by decide, hch.1⟩

theorem Calm.answers {out : List Bytes} (h : Calm out) {t : MsgType} (ht : t ∈ sessionReqs)
    (x : UInt64) : out.countP (answersTo t x) = 0 := by
  have hall : ∀ t ∈ sessionReqs, ∃ u ∈ sessionTypes, mclassToRes t.code = u.code := by decide
  obtain ⟨u, hu, hcode⟩ := hall t ht
  rw [List.countP_eq_zero]
  intro b hb hans
  rw [answersTo, decide_eq_true_eq] at hans
  exact h b hb ⟨u, hu, hans.1.trans hcode⟩

theorem Calm.serving {out : List Bytes} (h : Calm out) (st : CltState) {b : Bytes}
    (hb : isAuth b = false) : Serving st b out st where
  run := h.run st
  challenges := by rw [h.challenges, hb]; simp
  answers := fun t ht x => by rw [h.answers ht x]; exact Nat.zero_le _

theorem calm_forwardable {b : Bytes} {t : MsgType} (htype : hdrGetType (msg b) = t.code)
    (hf : t.forwardable = true) : ¬ Moves b := by
  rintro ⟨u, hu, hcode⟩
  have hall : ∀ u ∈ sessionTypes, u.forwardable = false := by decide
  rw [MsgType.code_injective (htype.symm.trans hcode), hall u hu] at hf
  cases hf

/-! ## Responses and errors -/

theorem nextIf_response (h : Hdr) (t : MsgAttrib) (v : Bytes) (z : Bytes) (hv : v.length < 65536) :
    Clt.nextIf (msg (mkMsg h (tlv t v ++ z) 0).b) t =
      some ({ at' := t.code, al := v.length, av := 48 },
        mkMsg h (tlv t v ++ z) (40 + (tlv t v).length)) := by
  have hget : mbufGetnextattrib (msg (mkMsg h (tlv t v ++ z) 0).b) =
      some ({ at' := t.code, al := v.length, av := 48 },
        mkMsg h (tlv t v ++ z) (40 + (tlv t v).length)) := mbufGetnextattrib_tlv h [] z t v hv
  rw [Clt.nextIf, hget]
  exact if_pos rfl

/-- A response that says OK. -/
theorem opens_response (h : Hdr) (l : List (MsgAttrib × AttrArg)) :
    Opens .ok (mkMsg h (tlvs ((.ok, .null) :: l)) 0).b := by
  have hnext := nextIf_response h .ok [] (tlvs l) (by decide)
  exact Option.isSome_iff_exists.mpr ⟨_, hnext⟩

/-- The challenge of a user with a plain key. -/
theorem challenges_response (h : Hdr) :
    Challenges (mkMsg h (tlvs [(.challenge, .blob (AUTH_KEY_PLAINTEXT ++ [0]))]) 0).b := by
  have hnext := nextIf_response h .challenge (AUTH_KEY_PLAINTEXT ++ [0]) [] (by decide)
  refine ⟨_, _, hnext, fun beyond => ?_⟩
  have hstr := cstrAt_tlv h [] [] .challenge AUTH_KEY_PLAINTEXT
    (40 + (tlv .challenge (AUTH_KEY_PLAINTEXT ++ [0])).length) beyond (by decide)
  have hkey : AUTH_KEY_PLAINTEXT.isPrefixOf AUTH_KEY_PLAINTEXT = true := by decide
  exact (congrArg (AUTH_KEY_PLAINTEXT.isPrefixOf ·) hstr).trans hkey

section Serves

variable {env : MsgEnv} {s t : Server} {i : Nat} {m r : Mbuf} {v : Verdict} {rbuf : Option Mbuf}

/-- A response has its request. -/
theorem answers_le {u : MsgType} (hask : IsRequest m u) (hu : mclassIsReq u.code = true)
    (htype : hdrGetType r = mclassToRes (hdrGetType m)) (htrf : hdrGetTrfid r = hdrGetTrfid m)
    {t : MsgType} (ht : t ∈ sessionReqs) (x : UInt64) :
    [r.b].countP (answersTo t x) ≤ if asks t x m.b = true then 1 else 0 := by
  by_cases hans : answersTo t x r.b = true
  · have hreqs : ∀ t ∈ sessionReqs, mclassIsReq t.code = true := by decide
    have hdec := hans
    rw [answersTo, decide_eq_true_eq] at hdec
    have hcode : hdrGetType m = t.code := by
      have hsame : mclassToRes (hdrGetType m) = mclassToRes t.code := htype.symm.trans hdec.1
      rw [req_of_res (hask.isReq hu) rfl, req_of_res (hreqs t ht) rfl, hsame]
    have hasks : asks t x m.b = true := decide_eq_true ⟨hcode, hask.1, htrf.symm.trans hdec.2.2⟩
    rw [List.countP_singleton, if_pos hans, if_pos hasks]
  · rw [List.countP_singleton, if_neg hans]
    exact Nat.zero_le _

/-- The error in answer to a message that is no AUTH request moves no session. -/
theorem calm_error (hproper : Proper m.b) (hauth : isAuth m.b = false)
    (htype : hdrGetType r = mclassToErr (hdrGetType m)) : ¬ Moves r.b := by
  have hres : ∀ t ∈ sessionTypes, t ≠ .authErr → mclassIsErr t.code = false := by decide
  rintro ⟨t, ht, hcode⟩
  have hcode' : hdrGetType r = t.code := hcode
  by_cases herr : t = .authErr
  · have hmt := (hproper (htype.symm.trans (herr ▸ hcode'))).2
    rw [isAuth, decide_eq_false_iff_not] at hauth
    exact hauth hmt
  · have hcls := mclassIsErr_mclassToErr (hdrGetType m)
    rw [← htype, hcode', hres t ht herr] at hcls
    cases hcls

/-- The response to a request of another type moves none either. -/
theorem calm_response {u : MsgType} (hask : IsRequest m u)
    (hu : ∀ t ∈ sessionTypes, mclassToRes u.code ≠ t.code)
    (htype : hdrGetType r = mclassToRes (hdrGetType m)) : ¬ Moves r.b := by
  rintro ⟨t, ht, hcode⟩
  have hcode' : hdrGetType r = t.code := hcode
  rw [hask.2] at htype
  exact hu t ht (htype.symm.trans hcode')

/-- The message is answered by one message that makes the turn. -/
theorem Serving.one {st st' : CltState} (hturn : Turn st r.b st')
    (hch : (if isChallenge r.b = true then 1 else 0) + (if st = .loginOk then 1 else 0) =
      (if st' = .loginOk then 1 else 0) + if isAuth m.b = true then 1 else 0)
    (hans : ∀ t ∈ sessionReqs, ∀ x, [r.b].countP (answersTo t x) ≤ if asks t x m.b = true then 1 else 0) :
    Serving st m.b [r.b] st' where
  run := .cons hturn (.nil _)
  challenges := by rw [List.countP_singleton]; exact hch
  answers := hans

/-- An error of a base type that is not AUTH. -/
theorem Serving.error {st : CltState} (hproper : Proper m.b) (hauth : isAuth m.b = false)
    (hfits : Verdict.error.Fits env m rbuf) :
    Serving st m.b (rbuf.map Mbuf.b).toList st := by
  obtain ⟨r, rfl, -, htype⟩ := hfits
  refine Calm.serving (fun b hb => ?_) st hauth
  rw [List.mem_singleton.mp hb]
  exact calm_error hproper hauth htype

theorem isAuth_of_request {u : MsgType} (hask : IsRequest m u) :
    isAuth m.b = decide (u = .authReq) := by
  rw [isAuth, decide_eq_decide]
  have htype : hdrGetType (msg m.b) = u.code := hask.2
  rw [htype]
  exact ⟨MsgType.code_injective, fun h => by rw [h]⟩

/-- The response with the attributes. -/
theorem response_type (env : MsgEnv) (m : Mbuf) (l : List (MsgAttrib × AttrArg)) :
    hdrGetType (mkMsg (responseHdr env m l) (tlvs l) 0) = mclassToRes (hdrGetType m) ∧
      hdrGetSrcid (mkMsg (responseHdr env m l) (tlvs l) 0) = hdrGetDstid m ∧
      hdrGetTrfid (mkMsg (responseHdr env m l) (tlvs l) 0) = hdrGetTrfid m :=
  ⟨hdrGetType_mkMsg _ _ _, hdrGetSrcid_mkMsg _ _ _, hdrGetTrfid_mkMsg _ _ _⟩

/-- A request that moves no session. -/
theorem Serving.aside {st : CltState} {u : MsgType} {l : List (MsgAttrib × AttrArg)}
    (hask : IsRequest m u) (hu : ∀ t ∈ sessionTypes, mclassToRes u.code ≠ t.code)
    (hauth : u ≠ .authReq) (hfits : (Verdict.response l).Fits env m rbuf) :
    Serving st m.b (rbuf.map Mbuf.b).toList st := by
  rw [show rbuf = _ from hfits]
  refine Calm.serving (fun b hb => ?_) st ?_
  · rw [List.mem_singleton.mp hb]
    exact calm_response hask hu (response_type env m l).1
  · rw [isAuth_of_request hask]
    exact decide_eq_false hauth

/-- A request that moves it by its response. -/
theorem Serving.moves {st st' : CltState} {u w : MsgType} {l : List (MsgAttrib × AttrArg)}
    (hask : IsRequest m u) (hu : mclassIsReq u.code = true) (hres : mclassToRes u.code = w.code)
    (hturn : ∀ r, Says w r.b → r = mkMsg (responseHdr env m l) (tlvs l) 0 → Turn st r.b st')
    (hch : ∀ r, r = mkMsg (responseHdr env m l) (tlvs l) 0 →
      (if isChallenge r.b = true then 1 else 0) + (if st = .loginOk then 1 else 0) =
      (if st' = .loginOk then 1 else 0) + if u = .authReq then 1 else 0)
    (hfits : (Verdict.response l).Fits env m rbuf) :
    Serving st m.b (rbuf.map Mbuf.b).toList st' := by
  obtain ⟨htype, hsrc, htrf⟩ := response_type env m l
  rw [show rbuf = _ from hfits]
  refine .one (hturn _ ⟨?_, ?_⟩ rfl) ?_ fun t ht x => answers_le hask hu htype htrf ht x
  · exact htype.trans (hask.2 ▸ hres)
  · exact hsrc.trans hask.1
  · rw [hch _ rfl, isAuth_of_request hask]
    simp

/-- A LOGIN request that is answered by a challenge. -/
theorem Serving.challenged (hask : IsRequest m .loginReq)
    (hfits : (Verdict.response [(.challenge, .blob (AUTH_KEY_PLAINTEXT ++ [0]))]).Fits env m rbuf) :
    Serving .preLogin m.b (rbuf.map Mbuf.b).toList .loginOk := by
  refine .moves (w := .loginRes) hask (by decide) (by decide)
    (fun r hresp hr => .challenge hresp (hr ▸ challenges_response _)) (fun r hr => ?_) hfits
  have htype : hdrGetType (msg r.b) = MsgType.code .loginRes := by
    rw [show hdrGetType (msg r.b) = _ from (hr ▸ (response_type env m _).1), hask.2]
    decide
  obtain ⟨a, m', hnext, -⟩ : Challenges r.b := hr ▸ challenges_response _
  rw [isChallenge, decide_eq_true htype, hnext, Option.isSome_some]
  decide

/-- An AUTH request that is turned down. -/
theorem Serving.denied (hask : IsRequest m .authReq) (hfits : Verdict.error.Fits env m rbuf) :
    Serving .loginOk m.b (rbuf.map Mbuf.b).toList .preLogin := by
  have hb : isAuth m.b = true := by
    rw [isAuth_of_request hask]
    decide
  obtain ⟨r, rfl, hreply, htype⟩ := hfits
  have hcode : hdrGetType (msg r.b) = MsgType.code .authErr := by
    rw [show hdrGetType (msg r.b) = _ from htype, hask.2]
    decide
  refine .one (.denied hcode) ?_ fun t ht x => ?_
  · have hne : hdrGetType (msg r.b) ≠ MsgType.code .loginRes := by
      rw [hcode]
      decide
    rw [isChallenge_of_type hne, hb]
    decide
  · have hall : ∀ t ∈ sessionReqs, MsgType.code .authErr ≠ mclassToRes t.code := by decide
    have hans : ¬ answersTo t x r.b = true := fun hans =>
      hall t ht (hcode.symm.trans (of_decide_eq_true hans).1)
    rw [List.countP_singleton, if_neg hans]
    exact Nat.zero_le _

/-- **Serving moves the session by what is answered.** -/
theorem Serves.serving (hproper : Proper m.b)
    (hauth : isAuth m.b = true → (s.clients i).st = .loginOk)
    (hkeys : ∀ n u, (udbLookupname env.db1 s.udb n).2 = some u →
      AUTH_KEY_PLAINTEXT.isPrefixOf u.key = true)
    (h : Serves env s i m v t) (hfits : v.Fits env m rbuf) :
    Serving (s.clients i).st m.b (rbuf.map Mbuf.b).toList (t.clients i).st := by
  -- An AUTH request is acted upon.
  have hacts : ¬ Acts env s i m → isAuth m.b = false := by
    intro hno
    refine decide_eq_false fun htype => hno ?_
    have herr : mclassToErr (hdrGetType (msg m.b)) = MsgType.code .authErr := by
      rw [htype]
      decide
    refine ⟨(hproper herr).1, ?_⟩
    rw [show hdrGetType m = _ from htype, MsgType.ofCode?_code]
    trivial
  have hother : ∀ {u : MsgType}, IsRequest m u → u ≠ .authReq → isAuth m.b = false := by
    intro u hask hne
    rw [isAuth_of_request hask]
    exact decide_eq_false hne
  have hopens : ∀ {l : List (MsgAttrib × AttrArg)} {r : Mbuf},
      r = mkMsg (responseHdr env m ((.ok, .null) :: l)) (tlvs ((.ok, .null) :: l)) 0 →
      Opens .ok r.b := by
    intro l r hr
    rw [hr]
    exact opens_response _ l
  cases h with
  | gated _ hno => exact .error hproper (hacts hno) hfits
  | refused _ hno => exact .error hproper (hacts hno) hfits
  | ignored hreq _ =>
      rw [show rbuf = none from hfits]
      refine Calm.serving (fun b hb => absurd hb List.not_mem_nil) _ (decide_eq_false fun htype => ?_)
      rw [show hdrGetType m = _ from htype] at hreq
      exact absurd hreq (by decide)
  | ping hask => exact .aside hask (by decide) (by decide) hfits
  | peerlist hask => exact .aside hask (by decide) (by decide) hfits
  | register hask =>
      split at hfits
      · exact .aside hask (by decide) (by decide) hfits
      · exact .error hproper (hother hask (by decide)) hfits
  | drop hask =>
      split at hfits
      · exact .aside hask (by decide) (by decide) hfits
      · exact .error hproper (hother hask (by decide)) hfits
  | conflict hask => exact .error hproper (hother hask (by decide)) hfits
  | temp hask hst =>
      rw [Server.setClient_self, hst]
      show Serving .preLogin m.b _ .authOk
      refine .moves (w := .loginRes) hask (by decide) (by decide)
        (fun r hresp hr => .welcome hresp (hopens hr)) (fun r hr => ?_) hfits
      rw [isChallenge_of_opens (hopens hr)]
      decide
  | challenge hask hst =>
      rw [Server.setClient_self, hst]
      show Serving .preLogin m.b _ .loginOk
      exact .challenged hask hfits
  | unsupported _ _ _ hlookup hkey =>
      rw [hkeys _ _ hlookup] at hkey
      cases hkey
  | authFailed hask _ =>
      have hb : isAuth m.b = true := by
        rw [isAuth_of_request hask]
        decide
      rw [Server.setClient_self, hauth hb]
      show Serving .loginOk m.b _ .preLogin
      exact .denied hask hfits
  | auth hask hst =>
      rw [Server.setClient_self, hst]
      show Serving .loginOk m.b _ .authOk
      refine .moves (w := .authRes) hask (by decide) (by decide)
        (fun r hresp hr => .authenticated hresp (hopens hr)) (fun r hr => ?_) hfits
      rw [isChallenge_of_opens (hopens hr)]
      decide
  | logout hask hst =>
      rw [Server.setClient_self, hst]
      show Serving .authOk m.b _ .preLogin
      refine .moves (w := .logoutRes) hask (by decide) (by decide)
        (fun r hresp hr => .bye hresp (hopens hr)) (fun r hr => ?_) hfits
      rw [isChallenge_of_opens (hopens hr)]
      decide

end Serves

/-! ## The slot of a connection -/

/-- The message that an event completes on the connection `fd`. -/
def delivered (s : Server) (fd : Int) (e : SrvEvent) : Option Mbuf :=
  match incoming s e with
  | some (k, m) => if (s.clients k).fd = fd then some m else none
  | none => none

/-- The message that a write completes. -/
def sentWhole (q : List Mbuf) (res : WriteRes) : List Bytes :=
  match q with
  | [] => []
  | m :: _ =>
      match writeOutcome m res with
      | .sent m' => if m'.boff = m'.bsize then [m'.b] else []
      | _ => []

/-- The message that an event has sent to the connection `fd`. -/
def sentTo (s : Server) (fd : Int) : SrvEvent → List Bytes
  | .write i _ res => if (s.clients i).fd = fd then sentWhole (s.clients i).q res else []
  | _ => []

section Slot

variable {s t : Server} {e : SrvEvent} {fd : Int} {i j : Nat}

/-- The slot `i` has become `j`, with its session; its queue has lost what was sent. -/
structure SlotKept (s : Server) (e : SrvEvent) (t : Server) (fd : Int) (i j : Nat) : Prop where
  session : (t.clients j).session = (s.clients i).session
  queue : sentTo s fd e ++ (t.clients j).q.map Mbuf.b = (s.clients i).q.map Mbuf.b

theorem SlotKept.same (hsess : (t.clients j).session = (s.clients i).session)
    (hq : (t.clients j).q = (s.clients i).q) (hsent : sentTo s fd e = []) : SlotKept s e t fd i j :=
  ⟨hsess, by rw [hsent, hq, List.nil_append]⟩

theorem sentTo_away (h : ¬ e.On s fd) : sentTo s fd e = [] := by
  cases e with
  | write k now res => exact if_neg h
  | _ => rfl

/-- An event that completes no message. -/
theorem slot_kept (hok : SlotsOk s) (hen : e.Enabled s) (h : srvStep s e = some t)
    (hinc : incoming s e = none) (hi : At s fd i) (hj : At t fd j) : SlotKept s e t fd i j := by
  have hcase := quiet_cases hok hen h hinc hi hj
  generalize hc : t.clients j = c at hcase
  cases hcase with
  | away hoff => exact .same (by rw [hc]) (by rw [hc]) (sentTo_away hoff)
  | @again now env =>
      obtain ⟨-, hsess, hq⟩ := opened_same s i now
      exact .same (by rw [hc, hsess]) (by rw [hc, hq]) rfl
  | @pending now bs env m hrec =>
      obtain ⟨-, hsess, hq⟩ := opened_same s i now
      exact .same (hc ▸ hsess) (hc ▸ hq) rfl
  | @blocked now m q hq =>
      refine .same (by rw [hc]; rfl) (by rw [hc]) ?_
      have hlt : m.boff < m.bsize := ((hok.slot i hi.1).queued m (hq ▸ List.mem_cons_self)).2
      rw [sentTo, if_pos hi.2, hq, sentWhole, writeOutcome, if_pos hlt]
  | @sent now n m q hq hlt hz =>
      refine ⟨by rw [hc]; rfl, ?_⟩
      rw [hc, sentTo, if_pos hi.2, hq, sentWhole, writeOutcome, if_pos hlt]
      simp only [hz, if_false]
      show (if m.boff + min n m.room = m.bsize then [m.b] else []) ++
        (if m.boff + min n m.room = m.bsize then q else _).map Mbuf.b = m.b :: q.map Mbuf.b
      split
      · rfl
      · rfl
  | @swept now =>
      obtain ⟨-, hsess, hq, -⟩ := resyncClient_same s.cfg.msgTimeout (s.clients i) now
      exact .same (by rw [hc, hsess]) (by rw [hc, hq]) rfl

/-- What is forwarded moves no session. -/
theorem calm_forwarded (m : Mbuf) (k i : Nat) :
    Calm ((forwarded s k m i).map Mbuf.b) := by
  intro b hb
  rw [forwarded] at hb
  split at hb
  · rename_i hroute
    rw [List.mem_singleton.mp hb]
    obtain ⟨t, htype, hf⟩ := isForwardable_iff.mp (route_forwards hroute).type
    exact calm_forwardable htype hf
  · exact absurd hb List.not_mem_nil

/-- A message of another connection: a copy may be forwarded to this one. -/
theorem slot_passed {k : Nat} {m : Mbuf} (hok : SlotsOk s) (hen : e.Enabled s)
    (h : srvStep s e = some t) (hinc : incoming s e = some (k, m)) (hk : (s.clients k).fd ≠ fd)
    (hi : At s fd i) (hj : At t fd j) :
    sentTo s fd e = [] ∧ (t.clients j).st = (s.clients i).st ∧
      ∃ out, (t.clients j).q.map Mbuf.b = (s.clients i).q.map Mbuf.b ++ out ∧ Calm out := by
  obtain ⟨now, bs, env, u, reply, rfl, hl, hwhole, hb, hin, hmsg⟩ := message_step hok hen h hinc
  obtain ⟨rfl, hheard⟩ := message_follow env hok hl hb hin hmsg hi hj
  have hne : j ≠ k := fun hjk => hk (hjk ▸ hi.2)
  refine ⟨rfl, ?_, (forwarded s k (fillSrcid (s.clients k) m) j).map Mbuf.b, ?_,
    calm_forwarded _ _ _⟩
  · rcases hmsg.others j hne with ⟨-, hc⟩ | hc
    · have hneg := hj.1.2
      rw [hc] at hneg
      exact absurd hneg (by decide)
    · rw [hc, hin.other hne]
  · rw [hheard.queue, if_neg hne, List.append_nil, List.map_append]

/-- A message of the connection itself. -/
theorem slot_message {m : Mbuf} (hs : (srvLts fun _ => True).Reachable s) (hen : e.Enabled s)
    (h : srvStep s e = some t) (hinc : incoming s e = some (i, m)) (hi : At s fd i) (hj : At t fd j)
    (hproper : Proper m.b) (hauth : isAuth m.b = true → (s.clients i).st = .loginOk)
    (hkeys : ∀ e n u, (udbLookupname e s.udb n).2 = some u →
      AUTH_KEY_PLAINTEXT.isPrefixOf u.key = true) :
    sentTo s fd e = [] ∧
      ∃ out, (t.clients j).q.map Mbuf.b = (s.clients i).q.map Mbuf.b ++ out ∧
        Serving (s.clients i).st m.b out (t.clients j).st := by
  have hok := (slotsOk_inductive _).invariant s hs
  obtain ⟨now, bs, env, u, reply, rfl, hl, hwhole, hb, hin, hmsg⟩ := message_step hok hen h hinc
  obtain ⟨rfl, hheard⟩ := message_follow env hok hl hb hin hmsg hi hj
  have hout : readOutcome (slotBuffer s j now) (.got bs) = .complete m := by
    rw [incoming] at hinc
    split at hinc
    · cases hinc
      assumption
    · cases hinc
  obtain ⟨hm40, hforward, hexit, hserve⟩ := srvStep_serves env hs hl hout
  refine ⟨rfl, ?_⟩
  have hopened := opened_same s j now
  have hst : (opened s j now).st = (s.clients j).st := congrArg Session.st hopened.2.1
  cases hroute : route s j (fillSrcid (s.clients j) m) with
  | some k =>
      cases h.symm.trans (hforward k hroute)
      refine ⟨(forwarded s j (fillSrcid (s.clients j) m) j).map Mbuf.b, ?_, ?_⟩
      · rw [← List.map_append, sendBack_clients, if_pos rfl, enqueueMsg_clients, forwarded, hroute]
        by_cases hjk : j = k
        · rw [if_pos hjk, if_pos (congrArg some hjk.symm), ← hjk, Server.setClient_self, hopened.2.2]
          exact congrArg _ (List.append_nil _)
        · rw [if_neg hjk, if_neg fun heq => hjk (Option.some.inj heq).symm, Server.setClient_self,
            hopened.2.2]
          rfl
      · have hcalm := calm_forwarded (s := s) (fillSrcid (s.clients j) m) j j
        have hsame : ((sendBack (enqueueMsg (s.setClient j (opened s j now)) k
            (fillSrcid (s.clients j) m)) j none).clients j).st = (s.clients j).st := by
          rw [sendBack_clients, if_pos rfl, enqueueMsg_clients]
          split
          · rename_i hjk
            rw [← hjk, Server.setClient_self]
            exact hst
          · rw [Server.setClient_self]
            exact hst
        rw [hsame]
        refine hcalm.serving _ (decide_eq_false fun htype => ?_)
        -- AUTH requests are not forwarded.
        obtain ⟨u, hu, hf⟩ := isForwardable_iff.mp (route_forwards hroute).type
        rw [hdrGetType_fillSrcid hm40] at hu
        have htype' : hdrGetType m = MsgType.code .authReq := htype
        rw [MsgType.code_injective (hu.symm.trans htype')] at hf
        cases hf
  | none =>
      by_cases hex : Exits env s j (fillSrcid (s.clients j) m)
      · rw [hexit hroute hex] at h
        cases h
      · obtain ⟨v, w, rbuf, hstep, hserves, hfits⟩ := hserve hroute hex
        cases h.symm.trans hstep
        refine ⟨(rbuf.map Mbuf.b).toList, ?_, ?_⟩
        · rw [(served_slot rbuf hserves).2, List.map_append]
          cases rbuf <;> rfl
        · have hself : ((s.setClient j (opened s j now)).clients j).st = (s.clients j).st := by
            rw [Server.setClient_self]
            exact hst
          have htype : hdrGetType (msg (fillSrcid (s.clients j) m).b) = hdrGetType (msg m.b) :=
            hdrGetType_fillSrcid hm40
          have hdst : hdrGetDstid (msg (fillSrcid (s.clients j) m).b) = hdrGetDstid (msg m.b) :=
            hdrGetDstid_fillSrcid hm40
          have htrf : hdrGetTrfid (msg (fillSrcid (s.clients j) m).b) = hdrGetTrfid (msg m.b) :=
            hdrGetTrfid_fillSrcid hm40
          have hproper' : Proper (fillSrcid (s.clients j) m).b := by
            rw [Proper, htype, hdst]
            exact hproper
          have hauth' : isAuth (fillSrcid (s.clients j) m).b = true →
              ((s.setClient j (opened s j now)).clients j).st = .loginOk := by
            rw [isAuth, htype, hself]
            exact hauth
          have hserving := hserves.serving hproper' hauth' (hkeys env.db1) hfits
          have hend : ((sendBack w j rbuf).clients j).st = (w.clients j).st := by
            rw [sendBack_clients, if_pos rfl]
          rw [hself] at hserving
          rw [hend]
          refine hserving.congr ?_ fun t x => ?_
          · rw [isAuth, isAuth, htype]
          · rw [asks, asks, htype, hdst, htrf]

end Slot

end Frelay
