import Frelay.Server.Requests

/-!
# LOGOUT

`process_server_msg` has two checks on the way to `case MSG_TYPE_LOGOUT_REQ`. The one of
the handler asks for a client past its LOGIN request; the gate in front of the switch
asks for one past its AUTH request, and LOGOUT is not among its exceptions.

* `logout_ends_iff` — LOGOUT ends the session exactly if the client has authenticated.
-/

namespace Frelay

open Lib

/-- From `s` to `t` the request `m` of slot `i` has ended the session: the slot is that of
a fresh connection, and the response says OK. -/
structure LoggedOut (s t : Server) (i : Nat) (m : Mbuf) : Prop where
  live : t.Live i
  session : (t.clients i).session = .fresh
  answer : ∃ r, (t.clients i).q = (s.clients i).q ++ [r] ∧ hdrGetType r = MsgType.logoutRes.code ∧
    hdrGetTrfid r = hdrGetTrfid m ∧ ∃ v, (MsgAttrib.ok.code, v) ∈ attribs r

/-- A LOGOUT request is granted behind the gate, and an error otherwise. -/
theorem Serves.logout_cases {env : MsgEnv} {s t : Server} {i : Nat} {m : Mbuf} {v : Verdict}
    (h : Serves env s i m v t) (hask : IsRequest m .logoutReq) :
    ((s.clients i).st = .authOk ∧ v = .response (noticeAttribs TXT_BYE) ∧
        t = s.setClient i { s.clients i with st := .preLogin, id := 0, name := none, key := none }) ∨
      ((s.clients i).st ≠ .authOk ∧ v = .error ∧ t = s) := by
  have hno : ∀ {u : MsgType}, IsRequest m u → u ≠ .logoutReq → False :=
    fun hu hne => hne (hu.unique hask)
  have hna : ¬ Acts env s i m → (s.clients i).st ≠ .authOk := by
    intro hna hst
    refine hna ⟨hask.1, ?_⟩
    rw [hask.type]
    exact hst
  cases h with
  | gated hg hna' => exact .inr ⟨hna hna', rfl, rfl⟩
  | refused hreq hna' => exact .inr ⟨hna hna', rfl, rfl⟩
  | ignored hreq hg =>
      rw [hask.isReq (by decide)] at hreq
      cases hreq
  | ping hu => exact (hno hu (by decide)).elim
  | peerlist hu => exact (hno hu (by decide)).elim
  | register hu => exact (hno hu (by decide)).elim
  | drop hu => exact (hno hu (by decide)).elim
  | conflict hu => exact (hno hu (by decide)).elim
  | temp hu => exact (hno hu (by decide)).elim
  | challenge hu => exact (hno hu (by decide)).elim
  | unsupported hu => exact (hno hu (by decide)).elim
  | authFailed hu => exact (hno hu (by decide)).elim
  | auth hu => exact (hno hu (by decide)).elim
  | logout hu hst => exact .inl ⟨hst, rfl, rfl⟩

section Logout

variable {s : Server} {i : Nat} {now : Int} {res : ReadRes} {env : MsgEnv} {m : Mbuf}

/-- **LOGOUT ends the session** of a client that is past its LOGIN request exactly if it is
past its AUTH request, too. -/
theorem logout_ends_iff (hs : (srvLts fun _ => True).Reachable s) (hlive : s.Live i)
    (hm : readOutcome (slotBuffer s i now) res = .complete m) (hask : IsRequest m .logoutReq)
    (hlog : (s.clients i).st = .loginOk ∨ (s.clients i).st = .authOk) :
    (∃ t, srvStep s (.read i now res env) = some t ∧ LoggedOut s t i m) ↔
      (s.clients i).st = .authOk := by
  obtain ⟨hm40, -, -, hserve⟩ := srvStep_serves env hs hlive hm
  have hask' : IsRequest (fillSrcid (s.clients i) m) .logoutReq :=
    ⟨(hdrGetDstid_fillSrcid hm40).trans hask.1, (hdrGetType_fillSrcid hm40).trans hask.2⟩
  -- The request is served: it is not for another client, and it makes nothing exit.
  have hroute : route s i (fillSrcid (s.clients i) m) = none := by
    rw [route, if_neg fun h => h.2.1 hask'.1]
  have hex : ¬ Exits env s i (fillSrcid (s.clients i) m) := by
    rintro (⟨hu, -⟩ | ⟨hu, -⟩)
    · exact absurd (hu.unique hask') (by decide)
    · exact absurd (hu.unique hask') (by decide)
  obtain ⟨v, t, rbuf, hstep, hserves, hfits⟩ := hserve hroute hex
  have hview := (opened_view s i now i).2
  have hst : ((s.setClient i (opened s i now)).clients i).st = (s.clients i).st :=
    congrArg Session.st hview
  rw [hstep]
  rcases hserves.logout_cases hask' with ⟨hauth, rfl, rfl⟩ | ⟨hnot, rfl, rfl⟩
  · -- Behind the gate: the slot is reset and the response composed.
    rw [hst] at hauth
    refine iff_of_true ⟨_, rfl, ?_, ?_, ?_⟩ hauth
    · refine ⟨by rw [sendBack_cfg]; exact hlive.1, ?_⟩
      rw [sendBack_clients, if_pos rfl, Server.setClient_self]
      exact (opened_view s i now i).1 ▸ hlive.2
    · rw [sendBack_clients, if_pos rfl, Server.setClient_self]
      rfl
    · have hq := (served_slot rbuf hserves).2
      obtain rfl := hfits
      refine ⟨_, hq, ?_, ?_, [], ?_⟩
      · show hdrGetType (mkMsg _ _ 0) = _
        rw [hdrGetType_mkMsg]
        show mclassToRes (hdrGetType _) = _
        rw [hask'.2]
        decide
      · show hdrGetTrfid (mkMsg _ _ 0) = _
        rw [hdrGetTrfid_mkMsg]
        exact hdrGetTrfid_fillSrcid hm40
      · show _ ∈ attribs (mkMsg _ _ 0)
        rw [attribs_tlvs _ _ _ (by decide)]
        exact List.mem_cons_self
  · -- Before the gate nothing has happened to the session.
    rw [hst] at hnot
    refine iff_of_false ?_ hnot
    rintro ⟨t, ht, hout⟩
    obtain rfl := Option.some.inj ht
    have hsession := congrArg Session.st hout.session
    rw [sendBack_clients, if_pos rfl] at hsession
    have hpre : (s.clients i).st = .preLogin := hst.symm.trans hsession
    rcases hlog with hlog | hlog
    · rw [hpre] at hlog
      cases hlog
    · exact hnot hlog

end Logout

/-- A LOGOUT request to the server. -/
def logoutOctets : Bytes := (mbufCompose 0 .logoutReq 0 0 1).b

/-- A client that has logged in without an account. -/
theorem logout_ends_iff_tom :
    ∃ s m, (IsRequest m .logoutReq ∧ (s.clients 0).st = .authOk) ∧
      ((∃ t, srvStep s (.read 0 1 (.got logoutOctets) ⟨[], 0, .good, .good⟩) = some t ∧
        LoggedOut s t 0 m) ↔ (s.clients 0).st = .authOk) := by
  have hexec : (Lts.exec srvTry (demoServer (some bobFile)) (mixedRun (ascii "tom"))).any (fun s =>
      decide (s.Live 0) && (s.clients 0).st == .authOk &&
        readOutcome (slotBuffer s 0 1) (.got logoutOctets) == .complete ⟨logoutOctets, 40⟩) =
      true := by
    decide +kernel
  obtain ⟨s, hs, hp⟩ := Lts.reachable_of_exec (fun _ _ _ => srvTry_step (fun _ => True) trivial)
    (demoServer_init (fun _ => True) trivial _) hexec
  simp only [Bool.and_eq_true, decide_eq_true_eq, beq_iff_eq] at hp
  obtain ⟨⟨hlive, hst⟩, hm⟩ := hp
  have hask : IsRequest ⟨logoutOctets, 40⟩ .logoutReq := by decide
  exact ⟨s, _, ⟨hask, hst⟩, logout_ends_iff hs hlive hm hask (.inr hst)⟩

/-- A client that has been sent a challenge cannot leave: its LOGOUT request changes
nothing. -/
theorem logout_challenged :
    ¬ ∀ s, (srvLts fun _ => True).Reachable s → ∀ i, s.Live i →
      (s.clients i).st = .loginOk ∨ (s.clients i).st = .authOk →
      ∀ now res env m, readOutcome (slotBuffer s i now) res = .complete m →
        IsRequest m .logoutReq →
        ∃ t, srvStep s (.read i now res env) = some t ∧ LoggedOut s t i m := by
  have hexec : (Lts.exec srvTry (demoServer (some bobFile))
      (.accept 4 true 1 :: arrival 0 (requestOctets .loginReq .username (.str (ascii "bob"))))).any
      (fun s => decide (s.Live 0) && (s.clients 0).st == .loginOk &&
        readOutcome (slotBuffer s 0 1) (.got logoutOctets) == .complete ⟨logoutOctets, 40⟩ &&
        (srvStep s (.read 0 1 (.got logoutOctets) ⟨[], 0, .good, .good⟩)).any fun t =>
          (t.clients 0).session == (s.clients 0).session) = true := by
    decide +kernel
  obtain ⟨s, hs, hp⟩ := Lts.reachable_of_exec (fun _ _ _ => srvTry_step (fun _ => True) trivial)
    (demoServer_init (fun _ => True) trivial _) hexec
  simp only [Bool.and_eq_true, decide_eq_true_eq, beq_iff_eq, Option.any_eq_true] at hp
  obtain ⟨⟨⟨hlive, hst⟩, hm⟩, u, hu, hsame⟩ := hp
  intro h
  obtain ⟨t, ht, hout⟩ := h s hs 0 hlive (.inl hst) 1 _ ⟨[], 0, .good, .good⟩ _ hm (by decide)
  obtain rfl := Option.some.inj (hu.symm.trans ht)
  have hfresh := congrArg Session.st (hsame.symm.trans hout.session)
  have hpre : (s.clients 0).st = .preLogin := hfresh
  rw [hst] at hpre
  cases hpre

end Frelay
