import Frelay.Client.Offers
import Frelay.Client.Speech
import Frelay.Network.Fifo
import Frelay.Network.Sessions
import Frelay.Session.Attention

/-!
# Offers from one client to another

Requests between clients find the receiver logged in, in every reachable state
(`requests_find_client`). So none of the offers that one client places for another is
passed over, and as their messages come through in order the other enters just these.

* `Net.places`, `Net.enters` — the offers placed, and the downloads entered for them;
* `offers_entered` — over a whole run the one list is the other, up to what is on its way.
-/

namespace Frelay

open Lib

variable {ι : Type}

/-- **No client is asked for anything before it is logged in**: in every reachable state a
client that hears a request is in the state that it answers requests in. -/
theorem requests_find_client {s t : Net ι} {i : ι} {e : CltEvent} {env : CltEnv} {m : Mbuf}
    (hs : ((netLts ι).guard NetEvent.Patient).Reachable s)
    (hstep : ((netLts ι).guard NetEvent.Patient).step s (.client i e) t)
    (hmsg : e.message (s.ends i).clt = some (env, m)) (hreq : mclassIsReq (hdrGetType m) = true) :
    (s.ends i).clt.st = .authOk := by
  obtain ⟨hok, hsync, hdial⟩ := (net_dialogue ι).invariant s hs
  obtain ⟨⟨hsrv, hturn, -⟩, hpat⟩ := hstep
  obtain ⟨hclient, -⟩ := hturn.dialogue (s := s.srv) (hok.ends i).clt (hsync i) hpat
  exact request_heard (hdial i) (t := (t.ends i).dialogue s.srv) (e := e) hclient hmsg hreq

/-- The second client has read the first half of a ping, and the other is there. -/
theorem requests_find_client_ping : ∃ (s t : Net Bool) (e : CltEvent) (env : CltEnv) (m : Mbuf),
    ((netLts Bool).guard NetEvent.Patient).step s (.client true e) t ∧
      e.message (s.ends true).clt = some (env, m) ∧ hdrGetType m = MsgType.code .pingReq ∧
      (s.ends true).clt.st = .authOk := by
  have hexec : (Lts.script patientTry demoNet (loginBoth ++ pingBoth.dropLast)).any (fun s =>
      (((CltEvent.read (.got (s.ends true).down) demoEnv).message (s.ends true).clt).any fun p =>
        hdrGetType p.2 == MsgType.code .pingReq) &&
      (patientTry s (.client true (.read (.got (s.ends true).down) demoEnv))).isSome) = true := by
    decide +kernel
  obtain ⟨es, s, hrun, hp⟩ := Lts.run_of_script patientTry_step hexec
  obtain ⟨hmsg, hstep⟩ := Bool.and_eq_true_iff.mp hp
  obtain ⟨⟨env, m⟩, hm, htype⟩ := (Option.any_eq_true _ _).mp hmsg
  obtain ⟨t, ht⟩ := Option.isSome_iff_exists.mp hstep
  have hcode : hdrGetType m = MsgType.code .pingReq := beq_iff_eq.mp htype
  refine ⟨s, t, _, env, m, patientTry_step _ _ _ ht, hm, hcode, ?_⟩
  exact requests_find_client
    (.run (M := (netLts Bool).guard NetEvent.Patient) (.init demoNet_init) hrun)
    (patientTry_step _ _ _ ht) hm (by rw [hcode]; decide)

/-! ## One step of a client -/

/-- The entries that a step adds to the list of transfers. -/
def CltEvent.added (c : Clt) (e : CltEvent) : List Transfer :=
  (cltStep c e).elim [] fun t => t.transfers.filter fun d => decide (d.addr = c.nextAddr)

section Client

variable {c t : Clt} {e : CltEvent}

/-- A step that hands out no new address adds nothing. -/
theorem added_nil (hc : CltOk c) (hen : e.Enabled c) (h : cltStep c e = some t)
    (hnext : t.nextAddr = c.nextAddr) : e.added c = [] := by
  have hbelow := (hc.step hen h).inOrder.below
  rw [CltEvent.added, h, Option.elim_some, List.filter_eq_nil_iff]
  intro d hd haddr
  have hlt := hbelow d hd
  rw [of_decide_eq_true haddr, hnext] at hlt
  exact Nat.lt_irrefl _ hlt

/-- A step that puts an entry in front adds this one. -/
theorem added_cons {d : Transfer} (hc : CltOk c) (h : cltStep c e = some t)
    (hts : t.transfers = d :: c.transfers) (haddr : d.addr = c.nextAddr) : e.added c = [d] := by
  rw [CltEvent.added, h, Option.elim_some, hts, List.filter_cons_of_pos (by simpa using haddr)]
  have hnil : c.transfers.filter (fun d => decide (d.addr = c.nextAddr)) = [] := by
    rw [List.filter_eq_nil_iff]
    intro u hu hnew
    exact absurd (hc.inOrder.below u hu) (by rw [of_decide_eq_true hnew]; exact Nat.lt_irrefl _)
  rw [hnil]

/-- What is appended to the queue is what a step queues. -/
theorem queued_eq {new : List Mbuf} (hne : ∀ res, e ≠ .write res) (h : cltStep c e = some t)
    (hq : t.q = c.q ++ new) : e.queued c = new.map Mbuf.b := by
  cases e with
  | write res => exact absurd rfl (hne res)
  | _ =>
      show ((cltStep c _).elim [] fun t => t.q.drop c.q.length).map Mbuf.b = _
      rw [h, Option.elim_some, hq, List.drop_left]

/-- What a step queues, its cause calls for. -/
theorem queued_utters (hc : RecvOk c.rbuf) (h : cltStep c e = some t) :
    ∀ b ∈ e.queued c, e.Utters c (hdrGetType (msg b)) := by
  by_cases hwrite : ∃ res, e = .write res
  · obtain ⟨res, rfl⟩ := hwrite
    exact fun b hb => absurd hb List.not_mem_nil
  · have hne : ∀ res, e ≠ .write res := fun res heq => hwrite ⟨res, heq⟩
    obtain ⟨-, new, hq, hnew⟩ := cltStep_utters hc hne h
    rw [queued_eq hne h hq]
    intro b hb
    obtain ⟨r, hr, rfl⟩ := List.mem_map.mp hb
    exact hnew r hr

/-- The command that places offers. -/
def CltEvent.IsOffer : CltEvent → Prop
  | .cmd (.offer _ _) _ => True
  | _ => False

theorem CltEvent.IsOffer.exists (h : e.IsOffer) :
    ∃ dest filename env, e = .cmd (.offer dest filename) env := by
  unfold CltEvent.IsOffer at h
  split at h
  · exact ⟨_, _, _, rfl⟩
  · exact h.elim

/-- Every step but `offer` announces nothing; and it adds nothing, unless it completes a
message. -/
theorem cltStep_mute (hc : RecvOk c.rbuf) (hoffer : ¬ e.IsOffer) (h : cltStep c e = some t) :
    (∀ b ∈ e.queued c, hdrGetType (msg b) ≠ MsgType.code .offerReq) ∧
      (e.message c = none → t.nextAddr = c.nextAddr) := by
  have hne : ∀ dest filename env, e ≠ .cmd (.offer dest filename) env := by
    rintro dest filename env rfl
    exact hoffer trivial
  refine ⟨fun b hb htype => ?_, fun hmsg => cltStep_nextAddr hne hmsg h⟩
  obtain ⟨dest, filename, env, rfl⟩ := (htype ▸ queued_utters hc h b hb).offer
  exact hoffer trivial

/-- An offer adds its entry and queues its message, or does nothing. -/
theorem cmdOffer_cases {env : CltEnv} {dest : UInt64} {filename : Bytes} (hc : CltOk c)
    (hname : 0 ∉ filename) (hup : 0 ≤ t.srvfd) (he : e = .cmd (.offer dest filename) env)
    (h : cltStep c e = some t) :
    (e.added c = [] ∧ e.queued c = []) ∨
      ∃ (o : Transfer) (r : Mbuf), e.added c = [o] ∧ e.queued c = [r.b] ∧ o.type = .offer ∧
        r.boff = 0 ∧ hdrGetDstid r = o.rid ∧ ∀ id, Announces (hdrSetSrcid r id).b o.bid := by
  subst he
  have hstep := h
  change Clt.cmdOffer env c dest filename = some t at hstep
  have hidle : t = c → (CltEvent.cmd (.offer dest filename) env).added c = [] ∧
      (CltEvent.cmd (.offer dest filename) env).queued c = [] := by
    rintro rfl
    exact ⟨added_nil hc trivial h rfl, queued_eq (by simp) h (List.append_nil _).symm⟩
  unfold Clt.cmdOffer at hstep
  split at hstep
  · exact .inl (hidle (Option.some.inj hstep).symm)
  · split at hstep
    · exact .inl (hidle (Option.some.inj hstep).symm)
    · rename_i o ho
      have hup' : 0 ≤ c.srvfd := by
        obtain ⟨new, rfl, -⟩ := Clt.request_spec (by simp [AttrArg.avtype, MsgAttrib.avtype]) hstep
        exact hup
      obtain ⟨haddr, htype, r, rfl, hoff, hdst, hann⟩ := offer_announced ho hname hup' hstep
      exact .inr ⟨o, r, added_cons hc h rfl haddr, queued_eq (by simp) h rfl, htype, hoff, hdst, hann⟩

/-- An OFFER request that is heard by a client that is logged in adds a download, and no other
message adds anything. -/
theorem message_added {env : CltEnv} {m : Mbuf} (hc : CltOk c) (hen : e.Enabled c)
    (hmsg : e.message c = some (env, m)) (h : cltStep c e = some t) :
    (hdrGetType m = MsgType.code .offerReq ∧ c.st = .authOk ∧
      e.added c = [(Clt.enterOffer (Clt.offeredEntry env c m)).2] ∧
      (Clt.enterOffer (Clt.offeredEntry env c m)).2.type = .download) ∨
      (e.added c = [] ∧ ¬ (hdrGetType m = MsgType.code .offerReq ∧ c.st = .authOk)) := by
  obtain ⟨hm, hproc⟩ := cltStep_message hc.rbuf hmsg h
  by_cases hoffer : hdrGetType m = MsgType.code .offerReq ∧ c.st = .authOk
  · obtain ⟨⟨-, hts⟩, -⟩ := Clt.processSrvmsg_offered hm hoffer.1 hoffer.2 hproc
    have hon := Clt.enterOffer_onEntry env c m
    exact .inl ⟨hoffer.1, hoffer.2, added_cons hc h hts hon.addr, hon.type⟩
  · refine .inr ⟨added_nil hc hen h ?_, hoffer⟩
    rcases Clt.processSrvmsg_cases hm hproc with rfl | ⟨c₁, c₂, a, new, hsol, -, hcase, rfl, -⟩
    · rfl
    · obtain ⟨⟨-, -, hnext⟩, -, hst, -⟩ := Clt.solicited_spec hsol
      cases hcase with
      | plain hp => exact hp.table.2.2.trans hnext
      | offer hp => exact absurd ⟨hp.type, hst.symm.trans hp.st⟩ hoffer
      | serve _ => exact hnext
      | download _ => exact hnext

end Client

/-- The server fills in the sender, and leaves the rest of what is read. -/
theorem withSrcid_reads {b : Bytes} (hb : Whole b) (id : UInt64) :
    hdrGetType (msg (withSrcid id b)) = hdrGetType (msg b) ∧
      hdrGetDstid (msg (withSrcid id b)) = hdrGetDstid (msg b) ∧
      Clt.getOid (msg (withSrcid id b)) = Clt.getOid (msg b) := by
  have hlong : 40 ≤ (⟨b, 0⟩ : Mbuf).bsize := hb.hdr
  obtain ⟨hd, hm⟩ := exists_mkMsg hlong
  have hoid : ∀ (h : Hdr) (body : Bytes) (n : Nat),
      Clt.getOid (mkMsg h body n) = rd64 ((body.drop 8 ++ [] ++ List.replicate 8 0).take 8) := by
    intro h body n
    have hlen : h.bytes.length = 40 := h.length_bytes
    have hdrop : (mkMsg h body n).b.drop 48 = body.drop 8 := by
      rw [mkMsg, List.drop_append, hlen, List.drop_eq_nil_of_le (by omega), List.nil_append]
    rw [Clt.getOid, ui64At, hdrop]
  show hdrGetType (hdrSetSrcid ⟨b, 0⟩ id) = hdrGetType ⟨b, 0⟩ ∧
    hdrGetDstid (hdrSetSrcid ⟨b, 0⟩ id) = hdrGetDstid ⟨b, 0⟩ ∧
    Clt.getOid (hdrSetSrcid ⟨b, 0⟩ id) = Clt.getOid ⟨b, 0⟩
  generalize (⟨b, 0⟩ : Mbuf) = m at hm ⊢
  rw [hm, hdrSetSrcid_mkMsg]
  refine ⟨?_, ?_, ?_⟩
  · rw [hdrGetType_mkMsg, hdrGetType_mkMsg]
  · rw [hdrGetDstid_mkMsg, hdrGetDstid_mkMsg]
  · rw [hoid, hoid]

/-! ## One step of the network -/

namespace Net

section Events

variable [DecidableEq ι]

/-- The offers that `i` places for `j` in a step, but for empty files. -/
def places (i j : ι) (s : Net ι) : NetEvent ι → List Bid
  | .client k e =>
      if k = i then
        ((e.added (s.ends i).clt).filter fun o =>
          decide (o.type = .offer ∧ o.rid = s.idOf j ∧ o.size ≠ 0)).map Transfer.bid
      else []
  | .server _ => []

/-- The downloads that `j` enters for what it hears from `i` in a step. -/
def enters (i j : ι) (s : Net ι) (e : NetEvent ι) : List Transfer :=
  match e with
  | .client k e' =>
      if s.gets i j e = [] then []
      else (e'.added (s.ends k).clt).filter fun d => decide (d.type = .download ∧ d.rid = s.idOf i)
  | .server _ => []

end Events

/-- Every offer among the messages is announced properly. -/
def Sound (l : List Bytes) : Prop :=
  ∀ b ∈ l, hdrGetType (msg b) = MsgType.code .offerReq → ∃ o, Announces b o

end Net

/-- The name of a file that is offered is a C string. -/
def NetEvent.Typed : NetEvent ι → Prop
  | .client _ (.cmd (.offer _ filename) _) => 0 ∉ filename
  | _ => True

section Steps

variable [DecidableEq ι] {s t : Net ι} {i j k : ι} {e : CltEvent}

/-- The messages that `i` composes for `j` announce the offers that it places. -/
theorem sends_places (hs : NetOk s) (hstep : (netLts ι).step s (.client k e) t)
    (htyped : (NetEvent.client k e).Typed) :
    (s.sends i j (.client k e)).filterMap bidOf = s.places i j (.client k e) ∧
      Net.Sound (s.sends i j (.client k e)) := by
  obtain ⟨hsrv, hturn, -⟩ := hstep
  have hc := (hs.ends k).clt
  have hen := hturn.step.1
  have hcs := hturn.step.2
  have hsound : Net.Sound [] := fun b hb => absurd hb List.not_mem_nil
  by_cases hk : k = i
  · subst hk
    rw [Net.sends, if_pos rfl, Net.places, if_pos rfl]
    -- Nothing is placed when nothing is announced.
    have hidle : (∀ b ∈ e.queued (s.ends k).clt, hdrGetType (msg b) ≠ MsgType.code .offerReq) →
        (∀ o ∈ e.added (s.ends k).clt, o.type ≠ .offer) →
        (s.addressed k j (e.queued (s.ends k).clt)).filterMap bidOf =
          ((e.added (s.ends k).clt).filter fun o =>
            decide (o.type = .offer ∧ o.rid = s.idOf j ∧ o.size ≠ 0)).map Transfer.bid ∧
          Net.Sound (s.addressed k j (e.queued (s.ends k).clt)) := by
      intro hqueued hadded
      have hwhole := (hturn.streams (s := s.srv) hc).1.2
      have htype : ∀ b ∈ s.addressed k j (e.queued (s.ends k).clt),
          hdrGetType (msg b) ≠ MsgType.code .offerReq := by
        intro b hb
        obtain ⟨x, hx, rfl⟩ := List.mem_map.mp hb
        have hx' := List.mem_of_mem_filter hx
        rw [(withSrcid_reads (hwhole x hx') _).1]
        exact hqueued x hx'
      have hnone : (e.added (s.ends k).clt).filter (fun o =>
          decide (o.type = .offer ∧ o.rid = s.idOf j ∧ o.size ≠ 0)) = [] := by
        rw [List.filter_eq_nil_iff]
        intro o ho hp
        exact hadded o ho (of_decide_eq_true hp).1
      refine ⟨?_, fun b hb hoffer => absurd hoffer (htype b hb)⟩
      rw [hnone, List.map_nil, List.filterMap_eq_nil_iff]
      intro b hb
      exact if_neg (htype b hb)
    have hnil : ∀ {P : Transfer → Prop}, e.added (s.ends k).clt = [] →
        ∀ o ∈ e.added (s.ends k).clt, P o := by
      intro P hadd o ho
      rw [hadd] at ho
      exact absurd ho List.not_mem_nil
    by_cases hoffer : e.IsOffer
    · obtain ⟨dest, filename, env, rfl⟩ := hoffer.exists
      obtain ⟨hadd, hq⟩ | ⟨o, r, hadd, hq, htype, hoff, hdst, hann⟩ :=
        cmdOffer_cases hc htyped hturn.online rfl hcs
      · refine hidle (fun b hb => ?_) (hnil hadd)
        rw [hq] at hb
        exact absurd hb List.not_mem_nil
      · obtain ⟨b, boff⟩ := r
        obtain rfl : boff = 0 := hoff
        have hwhole : Whole b := (hturn.streams (s := s.srv) hc).1.2 b (by rw [hq]; exact List.mem_cons_self)
        have hann' : Announces (withSrcid (s.idOf k) b) o.bid := hann _
        have hbtype : hdrGetType ⟨b, 0⟩ = MsgType.code .offerReq :=
          (withSrcid_reads hwhole (s.idOf k)).1.symm.trans hann'.type
        have hto : isTo (s.idOf j) b = decide (o.rid = s.idOf j) := by
          have hfw : isForwardable ⟨b, 0⟩ = true :=
            isForwardable_iff.mpr ⟨.offerReq, hbtype, by decide⟩
          rw [isTo, hfw, Bool.true_and, show hdrGetDstid ⟨b, 0⟩ = o.rid from hdst]
          rfl
        rw [hq, hadd, Net.addressed]
        by_cases hrid : o.rid = s.idOf j
        · rw [List.filter_cons_of_pos (by rw [hto, decide_eq_true hrid]), List.filter_nil, List.map_singleton]
          refine ⟨?_, fun x hx _ => ⟨o.bid, List.mem_singleton.mp hx ▸ hann'⟩⟩
          rw [List.filterMap_cons, hann'.bidOf, Option.filter_some]
          by_cases hsize : o.size = 0
          · have hbid : o.bid.size = 0 := hsize
            simp [hbid, hsize]
          · have hbid : o.bid.size ≠ 0 := hsize
            simp [hbid, hsize, htype, hrid]
        · rw [List.filter_cons_of_neg (by rw [hto, decide_eq_false hrid]; exact Bool.false_ne_true)]
          refine ⟨?_, hsound⟩
          simp [hrid]
    · obtain ⟨hqueued, hnext⟩ := cltStep_mute hc.rbuf hoffer hcs
      cases hmsg : e.message (s.ends k).clt with
      | none => exact hidle hqueued (hnil (added_nil hc hen hcs (hnext hmsg)))
      | some p =>
          obtain ⟨env, m⟩ := p
          rcases message_added hc hen hmsg hcs with ⟨-, -, hadd, htype⟩ | ⟨hadd, -⟩
          · refine hidle hqueued fun o ho => ?_
            rw [hadd, List.mem_singleton] at ho
            rw [ho, htype]
            decide
          · exact hidle hqueued (hnil hadd)
  · rw [Net.sends, if_neg hk, Net.places, if_neg hk]
    exact ⟨rfl, hsound⟩

/-- The downloads that `j` enters are made of the offers that it hears from `i`. -/
theorem enters_gets (hs : ((netLts ι).guard NetEvent.Patient).Reachable s)
    (hstep : ((netLts ι).guard NetEvent.Patient).step s (.client k e) t) (hid : s.idOf i ≠ 0)
    (hsound : Net.Sound (s.gets i j (.client k e))) :
    List.Forall₂ (fun d o => o.Enters (s.ends j).clt.cfg.noClobber (s.idOf i) d)
      (s.enters i j (.client k e)) ((s.gets i j (.client k e)).filterMap bidOf) := by
  have hok := ((net_dialogue ι).invariant s hs).ok
  have hturn := hstep.1.2.1
  have hnil : s.gets i j (.client k e) = [] →
      List.Forall₂ (fun d o => o.Enters (s.ends j).clt.cfg.noClobber (s.idOf i) d)
        (s.enters i j (.client k e)) ((s.gets i j (.client k e)).filterMap bidOf) := by
    intro hgets
    rw [show s.enters i j (.client k e) = [] from if_pos hgets, hgets]
    exact .nil
  by_cases hk : k = j
  · subst hk
    have hgets : s.gets i k (.client k e) = (e.handed (s.ends k).clt).filter (s.between i k) := if_pos rfl
    cases hmsg : e.message (s.ends k).clt with
    | none =>
        refine hnil ?_
        rw [hgets, CltEvent.handed, hmsg]
        rfl
    | some p =>
        obtain ⟨env, m⟩ := p
        by_cases hbetween : s.between i k m.b = true
        · have hone : s.gets i k (.client k e) = [m.b] := by
            rw [hgets, CltEvent.handed, hmsg]
            exact List.filter_cons_of_pos hbetween
          have henters : s.enters i k (.client k e) = (e.added (s.ends k).clt).filter fun d =>
              decide (d.type = .download ∧ d.rid = s.idOf i) := by
            refine if_neg ?_
            rw [hone]
            exact List.cons_ne_nil _ _
          have hsrc : hdrGetSrcid m = s.idOf i := by
            have hfrom := (Bool.and_eq_true_iff.mp hbetween).2
            exact beq_iff_eq.mp hfrom
          rw [henters, hone, List.filterMap_cons, List.filterMap_nil]
          rcases message_added (hok.ends k).clt hturn.step.1 hmsg hturn.step.2 with
            ⟨htype, -, hadd, hdown⟩ | ⟨hadd, hno⟩
          · obtain ⟨o, ho⟩ := hsound m.b (by rw [hone]; exact List.mem_cons_self) htype
            have hentry := enterOffer_announced env (s.ends k).clt ho
            obtain ⟨henter, -⟩ := announced_entered env (s.ends k).clt ho
            rw [hadd, hentry, ho.bidOf, Option.filter_some]
            by_cases hsize : o.size = 0
            · rw [if_pos hsize, List.filter_cons_of_neg]
              · simp [hsize]
              · simp only [decide_eq_true_eq, not_and]
                exact fun _ hrid => hid hrid.symm
            · rw [if_neg hsize, List.filter_cons_of_pos]
              · simp only [hsize, ne_eq, not_false_eq_true, decide_true, if_true, List.filter_nil]
                exact .cons (hsrc ▸ henter) .nil
              · exact decide_eq_true ⟨henter.type, henter.rid.trans hsrc⟩
          · -- A client that hears an offer is logged in.
            have htype : hdrGetType m ≠ MsgType.code .offerReq := fun htype =>
              hno ⟨htype, requests_find_client hs hstep hmsg (by rw [htype]; decide)⟩
            rw [hadd, show bidOf m.b = none from if_neg htype]
            exact .nil
        · refine hnil ?_
          rw [hgets, CltEvent.handed, hmsg]
          exact List.filter_cons_of_neg hbetween
  · exact hnil (if_neg hk)

/-- The configuration of a client is read once. -/
theorem cfg_client (hs : NetOk s) (hstep : (netLts ι).step s (.client k e) t) :
    (t.ends j).clt.cfg = (s.ends j).clt.cfg := by
  obtain ⟨-, hturn, hothers⟩ := hstep
  by_cases hj : j = k
  · rw [hj]
    exact cltStep_cfg (hs.ends k).clt.rbuf hturn.step.2
  · rw [hothers j hj]

end Steps

/-! ## Runs -/

/-- What was placed in a run, and what was entered. -/
structure Trade where
  placed : List Bid
  entered : List Transfer

/-- The record after a step. -/
def Net.noteTrade [DecidableEq ι] (i j : ι) (s : Net ι) (e : NetEvent ι) (o : Trade) : Trade :=
  ⟨o.placed ++ s.places i j e, o.entered ++ s.enters i j e⟩

/-- The network while `i` and `j` are logged in and nobody loses patience. -/
def tradeLts (i j : ι) : Lts (Net ι) (NetEvent ι) :=
  ((netLts ι).guard fun s e => e.Patient s ∧ e.Typed).within (Net.Both i j)

/-- An authenticated client has an id of its own. -/
theorem Net.LoggedIn.id_ne_zero {s : Net ι} {i : ι} (hs : NetOk s) (h : s.LoggedIn i) : s.idOf i ≠ 0 := by
  obtain ⟨fd, k, hconn, hk⟩ := h
  obtain ⟨hok, hids⟩ := idsOk_inductive.invariant _ hs.srv
  rw [Net.idOf, Endpoint.slot_of_at hok hconn hk.1]
  exact (hk.findDst hids).2.1

/-- What holds between two steps: each download entered was made of an offer, and with those
on their way these offers are the ones placed. -/
structure Traded (i j : ι) (noClobber : Bool) (id : UInt64) (s : Net ι) (o : Trade) : Prop where
  reachable : ((netLts ι).guard NetEvent.Patient).Reachable s
  both : s.Both i j
  sender : s.idOf i = id
  cfg : (s.ends j).clt.cfg.noClobber = noClobber
  sound : Net.Sound (s.inTransit i j)
  bids : ∃ bids, List.Forall₂ (fun d x => x.Enters noClobber id d) o.entered bids ∧
    Passes [] o.placed bids ((s.inTransit i j).filterMap bidOf)

theorem Traded.step [DecidableEq ι] {i j : ι} {noClobber : Bool} {id : UInt64} {s t : Net ι}
    {e : NetEvent ι} {o : Trade} (hij : i ≠ j) (h : Traded i j noClobber id s o)
    (hstep : (tradeLts i j).step s e t) : Traded i j noClobber id t (Net.noteTrade i j s e o) := by
  obtain ⟨⟨hnet, hpat, htyped⟩, hboth⟩ := hstep
  have hok := ((net_dialogue ι).invariant s h.reachable).ok
  have hguard : ((netLts ι).guard NetEvent.Patient).step s e t := ⟨hnet, hpat⟩
  have hpass := (conveys hij).step s e t ⟨hok, h.both⟩ ⟨hnet, hboth⟩
  -- What the step places is announced, and what it enters was announced.
  obtain ⟨hid, hcfg, hsends, hsound, henters⟩ : t.idOf i = s.idOf i ∧
      (t.ends j).clt.cfg = (s.ends j).clt.cfg ∧
      (s.sends i j e).filterMap bidOf = s.places i j e ∧ Net.Sound (s.sends i j e) ∧
      (Net.Sound (s.gets i j e) →
        List.Forall₂ (fun d x => x.Enters noClobber id d) (s.enters i j e)
          ((s.gets i j e).filterMap bidOf)) := by
    cases e with
    | client k e =>
        obtain ⟨hsends, hsound⟩ := sends_places (i := i) (j := j) hok hnet htyped
        refine ⟨(conveys_client hij hok hnet).1.1, cfg_client hok hnet, hsends, hsound,
          fun hgets => ?_⟩
        have henters := enters_gets (i := i) (j := j) h.reachable hguard (h.both.1.id_ne_zero hok) hgets
        rw [h.cfg, h.sender] at henters
        exact henters
    | server e =>
        refine ⟨(conveys_server hij hok hnet h.both hboth).1.1, ?_, rfl,
          fun b hb => absurd hb List.not_mem_nil, fun _ => .nil⟩
        rw [(hnet.2.1 j).connected.1]
  obtain ⟨hgets, hleft⟩ := hpass.forall_mem h.sound hsound
  obtain ⟨bids, hall, hbids⟩ := h.bids
  have hpass' := hpass.filterMap bidOf
  rw [hsends] at hpass'
  exact ⟨h.reachable.step hguard, hboth, hid.trans h.sender, by rw [hcfg, h.cfg], hleft, _,
    List.rel_append hall (henters hgets), hbids.trans hpass'⟩

/-- **Every offer arrives.** While both are logged in, the downloads that one client enters for
what it hears from the other are the offers that the other has placed for it, one for each
and in the same order, up to the offers that are still on their way. -/
theorem offers_entered [DecidableEq ι] {i j : ι} (hij : i ≠ j) {s t : Net ι} {es : List (NetEvent ι)}
    {o : Trade} (hs : ((netLts ι).guard NetEvent.Patient).Reachable s) (hlog : s.Both i j)
    (hnone : ∀ b ∈ s.inTransit i j, hdrGetType (msg b) ≠ MsgType.code .offerReq)
    (hrun : ((tradeLts i j).observe ⟨[], []⟩ (Net.noteTrade i j)).Run (s, ⟨[], []⟩) es (t, o)) :
    ∃ bids, List.Forall₂ (fun d x => x.Enters (s.ends j).clt.cfg.noClobber (s.idOf i) d)
      o.entered bids ∧ bids ++ (t.inTransit i j).filterMap bidOf = o.placed := by
  have hstart : Traded i j (s.ends j).clt.cfg.noClobber (s.idOf i) s ⟨[], []⟩ := by
    refine ⟨hs, hlog, rfl, rfl, fun b hb htype => absurd htype (hnone b hb), [], .nil, ?_⟩
    have hnil : (s.inTransit i j).filterMap bidOf = [] :=
      List.filterMap_eq_nil_iff.mpr fun b hb => if_neg (hnone b hb)
    rw [hnil]
    exact .refl []
  have hend := hrun.preserves (P := fun u => Traded i j (s.ends j).clt.cfg.noClobber (s.idOf i) u.1 u.2)
    (fun u e v hu hstep => hstep.2 ▸ hu.step hij hstep.1) hstart
  exact hend.bids

/-! ## Two offers between two clients -/

instance (e : NetEvent ι) : Decidable e.Typed :=
  match e with
  | .client _ (.cmd (.offer _ filename) _) => inferInstanceAs (Decidable (0 ∉ filename))
  | .client _ (.cmd (.accept _ _) _) | .client _ (.cmd (.remove _) _) | .client _ (.cmd (.connect _) _)
  | .client _ (.cmd .disconnect _) | .client _ (.cmd .exit _) | .client _ (.cmd (.login _ _) _)
  | .client _ (.cmd .logout _) | .client _ (.cmd (.register _) _) | .client _ (.cmd .drop _)
  | .client _ (.cmd (.ping _ _) _) | .client _ (.cmd .peerlist _) | .client _ (.cmd (.cd _) _)
  | .client _ (.read _ _) | .client _ (.write _) | .client _ (.upkeep _) | .client _ (.outside _)
  | .server _ => .isTrue trivial

/-- The steps of the trade as a function. -/
def tradeTry (i j : Bool) (s : Net Bool) (e : NetEvent Bool) : Option (Net Bool) :=
  if e.Patient s ∧ e.Typed then bothTry i j s e else none

theorem tradeTry_step {i j : Bool} (s : Net Bool) (e : NetEvent Bool) (t : Net Bool)
    (h : tradeTry i j s e = some t) : (tradeLts i j).step s e t := by
  unfold tradeTry at h
  split at h
  · rename_i hcond
    obtain ⟨hstep, hboth⟩ := bothTry_step s e t h
    exact ⟨⟨hstep, hcond⟩, hboth⟩
  · cases h

/-- The first client offers its file to the second one twice, and the second offer is still on
its way when the first has been entered. -/
def offerBoth : List (Net Bool → NetEvent Bool) :=
  [fun _ => .client false (.cmd (.offer 2 (ascii "f")) demoEnv),
    fun _ => .client false (.cmd (.offer 2 (ascii "f")) demoEnv),
    fun _ => .client false (.write (.sent 7))] ++ sendUp false 0 ++ sendDown true 1

theorem offers_entered_one : ∃ (s t : Net Bool) (o : Trade),
    o.placed.length = 2 ∧ o.entered.length = 1 ∧ ∃ bids,
      List.Forall₂ (fun d x => x.Enters (s.ends true).clt.cfg.noClobber (s.idOf false) d) o.entered bids ∧
        bids ++ (t.inTransit false true).filterMap bidOf = o.placed := by
  have hexec : ((Lts.script patientTry demoNet loginBoth).any fun s =>
      decide (s.Both false true) && decide (s.inTransit false true = []) &&
        (Lts.script (Lts.observeFun (tradeTry false true) (Net.noteTrade false true)) (s, ⟨[], []⟩)
          (offerBoth.map fun g s => g s.1)).any fun t =>
            t.2.placed.length == 2 && t.2.entered.length == 1) = true := by
    decide +kernel
  obtain ⟨es, s, hrun, hp⟩ := Lts.run_of_script patientTry_step hexec
  simp only [Bool.and_eq_true, decide_eq_true_eq] at hp
  obtain ⟨⟨hboth, hnil⟩, hp⟩ := hp
  obtain ⟨es', ⟨t, o⟩, hrun', hq⟩ := Lts.run_of_script (Lts.observeFun_step tradeTry_step) hp
  simp only [Bool.and_eq_true, beq_iff_eq] at hq
  refine ⟨s, t, o, hq.1, hq.2, offers_entered (by decide)
    (.run (M := (netLts Bool).guard NetEvent.Patient) (.init demoNet_init) hrun) hboth ?_ hrun'⟩
  rw [hnil]
  exact fun b hb => absurd hb List.not_mem_nil

end Frelay
