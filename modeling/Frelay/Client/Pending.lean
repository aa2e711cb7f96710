import Frelay.Lib.Ledger
import Frelay.Client.Downloads

/-!
# Pending requests

A request moves to the pending list when its last octet is written, and leaves it when a
response comes for it or when it is too old. `CltEvent.noteRequests` keeps a ledger of the
requests of a run; it looks at what is sent and received, never at the pending list.

* `requestsOk_step` — the pending list is what is active in the ledger;
* `responses_once` — a response uses up one such request, or nothing happens.
-/

namespace Frelay

open Lib

/-- `r` is a request to the sender of `m`, with its transaction id and base type. -/
def Clt.Fits (m r : Mbuf) : Prop :=
  hdrGetDstid r = hdrGetSrcid m ∧ hdrGetTrfid r = hdrGetTrfid m ∧
    mtypeCutClass (hdrGetType r) = mtypeCutClass (hdrGetType m)

instance (m r : Mbuf) : Decidable (Clt.Fits m r) := inferInstanceAs (Decidable (_ ∧ _))

/-- The request a write completes. -/
def CltEvent.completed (c : Clt) : CltEvent → Option Mbuf
  | .write res =>
      match c.q.head?.map fun m => writeOutcome m res with
      | some (.sent m) => if m.boff = m.bsize ∧ mclassIsReq (hdrGetType m) then some m else none
      | _ => none
  | _ => none

/-- What a step says of the requests: one was sent completely, those past their time are
discarded, or the latest that a response fits is used. -/
def CltEvent.noteRequests (c : Clt) (e : CltEvent) (L : Ledger Mbuf) : Ledger Mbuf :=
  match e with
  | .write _ => ((e.completed c).map fun m => L.issue m).getD L
  | .upkeep env => L.expire fun r =>
      decide (((hdrGetTs r).toNat / 1000000000 : Nat) + c.cfg.respTimeout < env.now)
  | .read _ _ =>
      match e.message c with
      | some (_, m) =>
          if mclassIsRes (hdrGetType m) then L.use fun r => decide (Clt.Fits m r) else L
      | none => L
  | _ => L

/-! ## One step -/

namespace Clt

theorem answers_iff {m r : Mbuf} (hres : mclassIsRes (hdrGetType m) = true) :
    Answers m r ↔ Fits m r := by
  rw [Answers, Fits, mclassToRes_eq_iff hres]

theorem submit_requests (c : Clt) (m : Mbuf) : (c.submit m).requests = c.requests := by
  unfold submit
  split
  · rfl
  · rfl

theorem request_requests {env : CltEnv} {c t : Clt} {type : MsgType} {dstid : UInt64}
    {l : List (MsgAttrib × AttrArg)} (h : request env c type dstid l = some t) :
    t.requests = c.requests := by
  obtain ⟨m, -, rfl⟩ := Option.map_eq_some_iff.mp h
  exact submit_requests c m

/-- No command touches the pending list. -/
theorem runCmd_requests {env : CltEnv} {c t : Clt} {cmd : CltCmd} (h : runCmd env c cmd = some t) :
    t.requests = c.requests := by
  cases cmd with
  | accept rid oid =>
      rcases cmdAccept_cases h with rfl | ⟨d, k, d', new, -, rfl⟩
      · rfl
      · rfl
  | offer dest filename =>
      change cmdOffer env c dest filename = some t at h
      unfold cmdOffer at h
      split at h
      · cases h
        rfl
      · split at h
        · cases h
          rfl
        · exact (request_requests h).trans rfl
  | remove mask =>
      cases h
      rfl
  | connect fd =>
      cases h
      cases fd with
      | none => rfl
      | some fd => rfl
  | disconnect =>
      cases h
      unfold cmdDisconnect
      simp only
      split
      · rfl
      · rfl
  | exit => cases h
  | login user password =>
      change cmdLogin env c user password = some t at h
      unfold cmdLogin at h
      cases password with
      | none => exact (request_requests (c := c) h).trans rfl
      | some p => exact (request_requests (c := { c with pubkey := some p }) h).trans rfl
  | logout => exact request_requests h
  | register password => exact request_requests h
  | drop => exact request_requests h
  | ping dest notice => exact request_requests h
  | peerlist => exact request_requests h
  | cd dir =>
      cases h
      rfl

/-- What a message does to the pending list, its handler does not change. -/
theorem processSrvmsg_matched {env : CltEnv} {c t : Clt} {m : Mbuf} (hm : 40 ≤ m.bsize)
    (h : processSrvmsg env c m = some t) :
    (c.solicited m = none ∧ t = c) ∨ ∃ c', c.solicited m = some c' ∧ t.requests = c'.requests := by
  cases hsol : c.solicited m with
  | none =>
      unfold processSrvmsg at h
      rw [hsol] at h
      cases h
      exact .inl ⟨rfl, rfl⟩
  | some c' =>
      refine .inr ⟨c', rfl, ?_⟩
      unfold processSrvmsg at h
      rw [hsol] at h
      obtain ⟨⟨c₂, a⟩, hdisp, hsend⟩ := Option.bind_eq_some_iff.mp h
      obtain ⟨new, rfl, -⟩ := sendAnswer_spec hm hsend
      cases dispatchSrvmsg_cases hdisp with
      | plain hp => exact hp.queues.2
      | offer _ => rfl
      | serve _ => rfl
      | download _ => rfl

end Clt

/-- The pending list is what is active in the ledger, the latest first. -/
def Tallies (c : Clt) (L : Ledger Mbuf) : Prop := c.requests = L.active.map Prod.snd

/-- `upkeep_pending` discards what expires in the ledger. -/
theorem Tallies.upkeep {c : Clt} {L : Ledger Mbuf} (h : Tallies c L) (env : CltEnv) :
    Tallies (Clt.upkeep env c) ((CltEvent.upkeep env).noteRequests c L) := by
  have hreq : (Clt.upkeep env c).requests = (c.upkeepPending env.now).requests := by
    unfold Clt.upkeep
    split
    · rfl
    · rfl
  rw [Tallies, hreq]
  change c.requests.filter _ = List.map Prod.snd (L.expire _).active
  rw [Ledger.active_expire, h, List.filter_map]
  rfl

/-- A response takes what it uses in the ledger off the list. -/
theorem Tallies.matched {c c' : Clt} {L : Ledger Mbuf} {m : Mbuf} (h : Tallies c L)
    (hres : mclassIsRes (hdrGetType m) = true) (hsol : c.solicited m = some c') :
    Tallies c' (L.use fun r => decide (Clt.Fits m r)) := by
  have hfits : (fun r => decide (Clt.Fits m r)) = fun r => decide (Clt.Answers m r) :=
    funext fun r => decide_eq_decide.mpr (Clt.answers_iff hres).symm
  unfold Clt.solicited at hsol
  rw [if_pos hres] at hsol
  obtain ⟨p, hp, rfl⟩ := Option.map_eq_some_iff.mp hsol
  obtain ⟨r, -, rfl⟩ := Option.map_eq_some_iff.mp hp
  change c.requests.eraseP _ = _
  rw [hfits, Ledger.active_use, h, List.eraseP_map]
  rfl

/-- A response is dropped when no active request fits it. -/
theorem Tallies.unmatched {c : Clt} {L : Ledger Mbuf} {m : Mbuf} (h : Tallies c L)
    (hsol : c.solicited m = none) :
    mclassIsRes (hdrGetType m) = true ∧ ∀ q ∈ L.active, ¬ Clt.Fits m q.2 := by
  unfold Clt.solicited at hsol
  split at hsol
  · rename_i hres
    refine ⟨hres, fun q hq hfits => ?_⟩
    rw [Option.map_eq_none_iff, Clt.matchPendingReq, Option.map_eq_none_iff,
      List.find?_eq_none, h] at hsol
    exact hsol q.2 (List.mem_map_of_mem hq) (decide_eq_true ((Clt.answers_iff hres).mpr hfits))
  · cases hsol

/-- A message that was received. -/
theorem Tallies.received {env : CltEnv} {c t : Clt} {L : Ledger Mbuf} {m : Mbuf} (h : Tallies c L)
    (hm : 40 ≤ m.bsize) (hproc : Clt.processSrvmsg env c m = some t) :
    Tallies t (if mclassIsRes (hdrGetType m) then L.use fun r => decide (Clt.Fits m r) else L) := by
  rcases Clt.processSrvmsg_matched hm hproc with ⟨hsol, rfl⟩ | ⟨c', hsol, hreq⟩
  · obtain ⟨hres, hnone⟩ := h.unmatched hsol
    rw [if_pos hres, Ledger.use_none fun q hq hp => hnone q hq (of_decide_eq_true hp)]
    exact h
  · rw [Tallies, hreq]
    split
    · rename_i hres
      exact h.matched hres hsol
    · rename_i hres
      unfold Clt.solicited at hsol
      rw [if_neg hres] at hsol
      cases hsol
      exact h

/-- **One step** keeps the ledger in order, and the pending list in step with it. -/
theorem requestsOk_step {c t : Clt} {e : CltEvent} {L : Ledger Mbuf} (hc : CltOk c) (hL : L.Ok)
    (htally : Tallies c L) (hen : e.Enabled c) (h : cltStep c e = some t) :
    (e.noteRequests c L).Ok ∧ Tallies t (e.noteRequests c L) := by
  cases e with
  | cmd cmd env => exact ⟨hL, (Clt.runCmd_requests h).trans htally⟩
  | outside fs =>
      cases h
      exact ⟨hL, htally⟩
  | upkeep env =>
      cases h
      have hok := hL.expire fun r =>
        decide (((hdrGetTs r).toNat / 1000000000 : Nat) + c.cfg.respTimeout < env.now)
      exact ⟨hok, htally.upkeep env⟩
  | write res =>
      change Clt.writeSrv c res = some t at h
      unfold Clt.writeSrv at h
      unfold CltEvent.noteRequests CltEvent.completed
      cases hq : c.q with
      | nil =>
          rw [hq] at h
          cases h
      | cons m q =>
          rw [hq] at h
          simp only at h
          simp only [List.head?_cons, Option.map_some]
          -- Only a request that is out completely becomes pending.
          cases hout : writeOutcome m res with
          | disconnect =>
              rw [hout] at h
              cases h
              exact ⟨hL, htally⟩
          | again =>
              rw [hout] at h
              cases h
              exact ⟨hL, htally⟩
          | sent m' =>
              rw [hout] at h
              cases h
              simp only
              by_cases hfull : m'.boff = m'.bsize
              · rw [if_pos hfull]
                by_cases hreq : mclassIsReq (hdrGetType m') = true
                · rw [if_pos ⟨hfull, hreq⟩]
                  refine ⟨hL.issue m', ?_⟩
                  rw [Tallies, Clt.dequeueMsg]
                  simp only
                  rw [if_pos hreq]
                  change m' :: c.requests = List.map Prod.snd (L.issue m').active
                  rw [Ledger.active_issue hL, List.map_cons, htally]
                · rw [if_neg fun h => hreq h.2]
                  refine ⟨hL, ?_⟩
                  rw [Tallies, Clt.dequeueMsg]
                  simp only
                  rw [if_neg hreq]
                  exact htally
              · rw [if_neg hfull, if_neg fun h => hfull h.1]
                exact ⟨hL, htally⟩
  | read res env =>
      change Clt.readSrv env c res = some t at h
      unfold Clt.readSrv at h
      unfold CltEvent.noteRequests CltEvent.message
      have hrb := hc.rbuf.getD.1
      simp only at h ⊢
      -- Only a message that is complete can take a request off the list.
      cases hout : readOutcome (c.rbuf.getD mbufNew) res with
      | complete m =>
          rw [hout] at h
          have hm := (whole_of_complete hrb hout).hdr
          refine ⟨?_, Tallies.received (c := { c with rbuf := none }) htally hm h⟩
          simp only
          split
          · exact hL.use _
          · exact hL
      | disconnect =>
          rw [hout] at h
          cases h
          exact ⟨hL, htally⟩
      | again =>
          rw [hout] at h
          cases h
          exact ⟨hL, htally⟩
      | exits =>
          rw [hout] at h
          cases h
      | pending rbuf =>
          rw [hout] at h
          cases h
          exact ⟨hL, htally⟩

/-! ## Runs -/

/-- The client with the ledger of its requests. -/
def requestLts : Lts (Clt × Ledger Mbuf) CltEvent :=
  cltLts.observe .empty CltEvent.noteRequests

/-- What holds of the requests between two steps. -/
structure RequestsOk (s : Clt × Ledger Mbuf) : Prop where
  clt : CltOk s.1
  ledger : s.2.Ok
  tallies : Tallies s.1 s.2

theorem requestsOk_inductive : requestLts.Inductive RequestsOk where
  init := by
    rintro ⟨c, L⟩ ⟨hc, rfl⟩
    refine ⟨cltOk_inductive.init c hc, .empty, ?_⟩
    obtain ⟨cfg, pubkey, fs, cwd, -, -, rfl⟩ := hc
    rfl
  step := by
    rintro ⟨c, L⟩ e ⟨t, L'⟩ hs ⟨hstep, rfl⟩
    obtain ⟨hok, htally⟩ := requestsOk_step hs.clt hs.ledger hs.tallies hstep.1 hstep.2
    exact ⟨hs.clt.step hstep.1 hstep.2, hok, htally⟩

theorem noteRequests_of_message {c : Clt} {e : CltEvent} {env : CltEnv} {m : Mbuf}
    (h : e.message c = some (env, m)) (hres : mclassIsRes (hdrGetType m) = true)
    (L : Ledger Mbuf) : e.noteRequests c L = L.use fun r => decide (Clt.Fits m r) := by
  cases e with
  | read res env' =>
      unfold CltEvent.noteRequests
      rw [h]
      exact if_pos hres
  | _ => cases h

/-- **Responses are consumed at most once.** In every run no request is used twice or
after it was discarded; a response uses up one request that was sent, is neither used nor
discarded and fits it, and leaves the others in order; without one it changes nothing. -/
theorem responses_once {s : Clt × Ledger Mbuf} (hs : requestLts.Reachable s) :
    s.2.used.Nodup ∧ (∀ n ∈ s.2.used, n ∉ s.2.expired) ∧
    s.1.requests = s.2.active.map Prod.snd ∧
    ∀ e t env m, requestLts.step s e t → e.message s.1 = some (env, m) →
      mclassIsRes (hdrGetType m) = true →
      ((∀ q ∈ s.2.active, ¬ Clt.Fits m q.2) ∧ t = ({ s.1 with rbuf := none }, s.2)) ∨
      ∃ n r l₁ l₂, (n, r) ∈ numbered s.2.issued ∧ n ∉ s.2.expired ∧ n ∉ s.2.used ∧
        Clt.Fits m r ∧ t.2.used = n :: s.2.used ∧ s.1.requests = l₁ ++ r :: l₂ ∧
        t.1.requests = l₁ ++ l₂ := by
  have hok := requestsOk_inductive.invariant s hs
  refine ⟨hok.ledger.once, hok.ledger.apart, hok.tallies, fun e t env m hstep hm hres => ?_⟩
  obtain ⟨c, L⟩ := s
  obtain ⟨t, L'⟩ := t
  have hok' := requestsOk_inductive.step _ e _ hok hstep
  obtain ⟨⟨hen, hclt⟩, hnote⟩ := hstep
  change L' = e.noteRequests c L at hnote
  rw [noteRequests_of_message hm hres] at hnote
  subst hnote
  obtain ⟨hw, hclt⟩ := cltStep_message hok.clt.rbuf hm hclt
  rcases Clt.processSrvmsg_matched hw hclt with ⟨hsol, rfl⟩ | ⟨c', hsol, hreq⟩
  · obtain ⟨-, hnone⟩ := Tallies.unmatched (c := { c with rbuf := none }) hok.tallies hsol
    rw [Ledger.use_none fun q hq hp => hnone q hq (of_decide_eq_true hp)]
    exact .inl ⟨hnone, rfl⟩
  · right
    rcases Ledger.use_cases (L := L) fun r => decide (Clt.Fits m r) with
      ⟨-, hnone⟩ | ⟨⟨n, r⟩, l₁, l₂, hsplit, -, hp, huse, hactive⟩
    · obtain ⟨r, hr, hans, -⟩ := (Clt.solicited_spec hsol).2.2.2.2 hres
      have hr : r ∈ c.requests := hr
      rw [show c.requests = _ from hok.tallies] at hr
      obtain ⟨q, hq, rfl⟩ := List.mem_map.mp hr
      exact absurd (decide_eq_true ((Clt.answers_iff hres).mp hans)) (hnone q hq)
    · obtain ⟨hissued, hexp, hused⟩ := Ledger.mem_active.mp
        (hsplit ▸ List.mem_append_right l₁ List.mem_cons_self : (n, r) ∈ L.active)
      refine ⟨n, r, l₁.map Prod.snd, l₂.map Prod.snd, hissued, hexp, hused, of_decide_eq_true hp,
        ?_, ?_, ?_⟩
      · rw [huse]
      · have htally : c.requests = L.active.map Prod.snd := hok.tallies
        rw [hsplit, List.map_append, List.map_cons] at htally
        exact htally
      · have htally : t.requests = _ := hok'.tallies
        rw [htally, hactive, List.map_append]

/-- The octets behind the header of the answer to a login. -/
def loginAnswer : CltEvent :=
  .read (.got ((messageOctets .loginRes 0 1 [(.ok, .null)]).drop MSG_HDR_SIZE)) demoEnv

theorem responses_once_login : ∃ (s t : Clt × Ledger Mbuf) (n : Nat) (r : Mbuf) (l₁ l₂ : List Mbuf),
    t.1.st = .authOk ∧ (n, r) ∈ numbered s.2.issued ∧ n ∉ s.2.used ∧ t.2.used = n :: s.2.used ∧
      s.1.requests = l₁ ++ r :: l₂ ∧ t.1.requests = l₁ ++ l₂ := by
  have hexec : (Lts.exec (Lts.observeFun cltTry CltEvent.noteRequests) (demoClient false [], .empty)
      (loginRun.take 4)).any (fun s => ((loginAnswer.message s.1).any fun p =>
        mclassIsRes (hdrGetType p.2) && !decide (∀ q ∈ s.2.active, ¬ Clt.Fits p.2 q.2)) &&
        (Lts.observeFun cltTry CltEvent.noteRequests s loginAnswer).any fun t =>
          t.1.st == .authOk) = true := by
    decide +kernel
  have hinit : requestLts.init (demoClient false [], .empty) := ⟨demoClient_init false [], rfl⟩
  obtain ⟨s, hs, hp⟩ := Lts.reachable_of_exec (M := requestLts)
    (Lts.observeFun_step fun _ _ _ => cltTry_step) hinit hexec
  obtain ⟨hmsg, hnext⟩ := Bool.and_eq_true_iff.mp hp
  obtain ⟨⟨env, m⟩, hm, hfits⟩ := (Option.any_eq_true _ _).mp hmsg
  rw [Bool.and_eq_true, Bool.not_eq_true', decide_eq_false_iff_not] at hfits
  obtain ⟨t, ht, hst⟩ := (Option.any_eq_true _ _).mp hnext
  have hstep : requestLts.step s loginAnswer t :=
    Lts.observeFun_step (fun _ _ _ => cltTry_step) s loginAnswer t ht
  obtain ⟨-, -, -, honce⟩ := responses_once hs
  rcases honce loginAnswer t env m hstep hm hfits.1 with
    ⟨hnone, -⟩ | ⟨n, r, l₁, l₂, hissued, -, hfresh, -, hused, hbefore, hafter⟩
  · exact absurd hnone hfits.2
  · exact ⟨s, t, n, r, l₁, l₂, beq_iff_eq.mp hst, hissued, hfresh, hused, hbefore, hafter⟩

end Frelay
