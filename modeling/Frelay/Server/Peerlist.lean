import Mathlib.Algebra.Order.BigOperators.Group.List
import Frelay.Server.Sessions

/-!
# The peer list

The response to a PEERLIST request names every authenticated client, with id and
name, in the order of the slots. It has to fit into one message, and nothing
bounds the names, so

* `peerlist_complete_iff` — the response is complete exactly when the attributes
  of all authenticated clients fit into a message; otherwise the server exits;
* `peerlist_exits` — one client with a name of 65391 octets is enough for that.
-/

namespace Frelay

open Lib

/-! ## What the list should say -/

/-- Slot `j` is in the list. -/
def isPeer (s : Server) (j : Nat) : Bool :=
  (0 ≤ (s.clients j).fd : Bool) && (s.clients j).st == .authOk

/-- The slots in the list. -/
def peers (s : Server) : List Nat := s.slots.filter (isPeer s)

/-- The name in slot `j`. -/
def peerName (s : Server) (j : Nat) : Bytes := (s.clients j).name.getD []

/-- The two attributes that stand for slot `j`. -/
def peerAttribs (s : Server) (j : Nat) : List (MsgAttrib × AttrArg) :=
  [(.peerid, .ui64 (s.clients j).id), (.peername, .str (peerName s j))]

/-- The octets of the payload that names all peers. -/
def peerlistSize (s : Server) : Nat :=
  ((peers s).map fun j => 24 + roundup8 ((peerName s j).length + 1)).sum

/-- The response of slot `i` to the request `m`, if it can be composed. -/
def peerlistRes (env : MsgEnv) (s : Server) (i : Nat) (m : Mbuf) : Mbuf :=
  mkMsg ⟨MsgType.peerlistRes.code, UInt16.ofNat (peerlistSize s), 0, env.ntime, 0,
    (s.clients i).id, hdrGetTrfid m⟩ (tlvs ((peers s).flatMap (peerAttribs s))) 0

theorem mem_peers {s : Server} {j : Nat} : j ∈ peers s ↔ s.Live j ∧ (s.clients j).st = .authOk := by
  simp only [peers, isPeer, List.mem_filter, Server.mem_slots, Bool.and_eq_true, decide_eq_true_eq,
    beq_iff_eq, Server.Live, and_assoc]

theorem length_peerlist (s : Server) :
    (tlvs ((peers s).flatMap (peerAttribs s))).length = peerlistSize s := by
  have hall : ∀ l : List Nat, (tlvs (l.flatMap (peerAttribs s))).length =
      (l.map fun j => 24 + roundup8 ((peerName s j).length + 1)).sum := by
    intro l
    induction l with
    | nil => rfl
    | cons j l ih =>
        have h8 : roundup8 8 = 8 := by decide
        rw [List.flatMap_cons, peerAttribs, List.cons_append, List.cons_append, List.nil_append,
          tlvs_cons, tlvs_cons, List.length_append, List.length_append, ih, length_tlv, length_tlv,
          List.map_cons, List.sum_cons, AttrArg.octets, AttrArg.octets, length_be64, h8,
          List.length_append, List.length_singleton]
        omega
  exact hall (peers s)

/-- The list is decided by the descriptors and sessions of the slots. -/
theorem peers_congr {s t : Server} (hcfg : t.cfg = s.cfg) (h : ∀ j,
    (t.clients j).fd = (s.clients j).fd ∧ (t.clients j).session = (s.clients j).session) :
    peers t = peers s ∧ (∀ j, peerAttribs t j = peerAttribs s j) ∧
      peerlistSize t = peerlistSize s := by
  have hname : ∀ j, peerName t j = peerName s j := fun j =>
    congrArg (Option.getD · []) (congrArg Session.name (h j).2)
  have hpeer : isPeer t = isPeer s := by
    funext j
    have hst : (t.clients j).st = (s.clients j).st := congrArg Session.st (h j).2
    rw [isPeer, isPeer, (h j).1, hst]
  have hpeers : peers t = peers s := by rw [peers, peers, Server.slots, Server.slots, hcfg, hpeer]
  refine ⟨hpeers, ?_, ?_⟩
  · intro j
    have hid : (t.clients j).id = (s.clients j).id := congrArg Session.id (h j).2
    rw [peerAttribs, peerAttribs, hid, hname]
  · simp only [peerlistSize, hpeers, hname]

/-! ## What the server composes -/

/-- The loop adds the attributes of the peers one after the other. -/
theorem peerlistFrom_eq {s : Server} {js : List Nat}
    (hnamed : ∀ j ∈ js, isPeer s j = true → ∃ n, (s.clients j).name = some n) (m : Mbuf) :
    peerlistFrom s js m = ((js.filter (isPeer s)).flatMap (peerAttribs s)).foldlM
      (fun m a => addattrib m a.1 a.2) m := by
  induction js generalizing m with
  | nil => rfl
  | cons j js ih =>
      have hrest := ih fun k hk => hnamed k (List.mem_cons_of_mem _ hk)
      rw [peerlistFrom]
      by_cases hpeer : isPeer s j = true
      · obtain ⟨n, hn⟩ := hnamed j List.mem_cons_self hpeer
        have hcond : 0 ≤ (s.clients j).fd ∧ (s.clients j).st = .authOk := by
          simpa [isPeer] using hpeer
        rw [if_pos hcond, hn, List.filter_cons_of_pos hpeer, List.flatMap_cons, peerAttribs,
          peerName, hn]
        simp only [Option.getD_some, List.cons_append, List.nil_append, List.foldlM_cons,
          Option.bind_eq_bind]
        refine congrArg (Option.bind _) (funext fun x => congrArg (Option.bind _) (funext fun y => ?_))
        exact hrest y
      · have hcond : ¬ (0 ≤ (s.clients j).fd ∧ (s.clients j).st = .authOk) := by
          simpa [isPeer] using hpeer
        rw [if_neg hcond, List.filter_cons_of_neg hpeer, hrest]

/-- `process_msg` on a PEERLIST request. -/
theorem processMsg_peerlist {env : MsgEnv} {s : Server} {i : Nat} {m : Mbuf} (hm : 40 ≤ m.bsize)
    (hnamed : ∀ j, s.Live j → (s.clients j).st = .authOk → ∃ n, (s.clients j).name = some n)
    (hst : (s.clients i).st = .authOk) (htype : hdrGetType m = MsgType.peerlistReq.code)
    (hdst : hdrGetDstid m = 0) :
    processMsg env s i m = if peerlistSize s ≤ MSG_MAX_PAY_SIZE then
      some (sendBack s i (some (peerlistRes env s i m))) else none := by
  have hall : ∀ j ∈ s.slots, isPeer s j = true → ∃ n, (s.clients j).name = some n := by
    intro j hj hpeer
    obtain ⟨hlive, hauth⟩ := mem_peers.mp (List.mem_filter.mpr ⟨hj, hpeer⟩)
    exact hnamed j hlive hauth
  obtain ⟨⟨type, paylen, rfu, ts, srcid, dstid, trfid⟩, body, boff, rfl⟩ := exists_msg hm
  rw [hdrGetType_mkMsg] at htype
  rw [hdrGetDstid_mkMsg] at hdst
  subst htype hdst
  let x : Hdr := ⟨MsgType.peerlistReq.code, paylen, rfu, ts, (s.clients i).id, 0, trfid⟩
  have hfill : fillSrcid (s.clients i)
      (mkMsg ⟨MsgType.peerlistReq.code, paylen, rfu, ts, srcid, 0, trfid⟩ body boff) =
      mkMsg x body boff := by
    rw [fillSrcid, if_pos (.inr hst), hdrSetSrcid_mkMsg]
  have hserver : processServerMsg env s i (mkMsg x body boff) =
      processPeerlist env s (mkMsg x body MSG_HDR_SIZE) := by
    unfold processServerMsg
    rw [if_neg (by simp [hst])]
    simp only [hdrGetType_mkMsg, x, MsgType.ofCode?_code]
    rfl
  have hres : mclassToRes MsgType.peerlistReq.code = MsgType.peerlistRes.code := by decide
  have hty : ∀ a ∈ (peers s).flatMap (peerAttribs s), a.2.avtype = a.1.avtype := by
    intro a ha
    obtain ⟨j, -, hj⟩ := List.mem_flatMap.mp ha
    simp only [peerAttribs, List.mem_cons, List.not_mem_nil, or_false] at hj
    rcases hj with rfl | rfl <;> rfl
  -- The loop over the slots is a fold over the attributes of the peers.
  have hlist : peerlistFrom s s.slots
      (mkMsg ⟨MsgType.peerlistRes.code, 0, 0, env.ntime, 0, (s.clients i).id, trfid⟩ [] 0) =
      if peerlistSize s ≤ MSG_MAX_PAY_SIZE then some (mkMsg ⟨MsgType.peerlistRes.code,
        UInt16.ofNat (peerlistSize s), 0, env.ntime, 0, (s.clients i).id, trfid⟩
        (tlvs ((peers s).flatMap (peerAttribs s))) 0) else none := by
    have hfold := foldlM_addattrib
      ⟨MsgType.peerlistRes.code, 0, 0, env.ntime, 0, (s.clients i).id, trfid⟩ [] _ hty rfl (by decide)
    rw [List.nil_append, length_peerlist] at hfold
    rw [peerlistFrom_eq hall]
    exact hfold
  rw [processMsg, hfill, dispatchMsg, hdrGetDstid_mkMsg]
  simp only [x, if_true] at hserver ⊢
  rw [hserver, processPeerlist, mbufToResponse_eq]
  simp only [hres, Option.bind_eq_bind, Option.bind_some, hlist, peerlistRes, hdrGetTrfid_mkMsg]
  split <;> rfl

/-- A read that completes a PEERLIST request of an authenticated client. -/
theorem srvStep_peerlist {s : Server} {i : Nat} {now : Int} {res : ReadRes} (env : MsgEnv)
    {m : Mbuf} (hs : (srvLts fun _ => True).Reachable s) (hlive : s.Live i)
    (hst : (s.clients i).st = .authOk)
    (hm : readOutcome (slotBuffer s i now) res = .complete m)
    (htype : hdrGetType m = MsgType.peerlistReq.code) (hdst : hdrGetDstid m = 0) :
    srvStep s (.read i now res env) = if peerlistSize s ≤ MSG_MAX_PAY_SIZE then
      some (sendBack (s.setClient i (opened s i now)) i (some (peerlistRes env s i m)))
      else none := by
  have hslot := ((slotsOk_inductive _).invariant s hs).slot i hlive
  have hwhole := whole_of_complete (hslot.slotBuffer now) hm
  -- Opening the slot for the read changes no session.
  obtain ⟨u, hu⟩ : ∃ u, u = s.setClient i (opened s i now) := ⟨_, rfl⟩
  have hsame : ∀ j, (u.clients j).fd = (s.clients j).fd ∧
      (u.clients j).session = (s.clients j).session := hu ▸ opened_view s i now
  have hcfg : u.cfg = s.cfg := by rw [hu, Server.setClient_cfg]
  obtain ⟨hpeers, hattribs, hsize⟩ := peers_congr hcfg hsame
  have hnamed : ∀ j, u.Live j → (u.clients j).st = .authOk →
      ∃ n, (u.clients j).name = some n := by
    intro j hj hstj
    have hjs : s.Live j := ⟨hcfg ▸ hj.1, (hsame j).1 ▸ hj.2⟩
    obtain ⟨n, hn⟩ := name_of_authOk hs hjs ((congrArg Session.st (hsame j).2).symm.trans hstj)
    exact ⟨n, (congrArg Session.name (hsame j).2).trans hn⟩
  have hid : (u.clients i).id = (s.clients i).id := congrArg Session.id (hsame i).2
  have hread : srvStep s (.read i now res env) = processMsg env u i m := by
    rw [hu, srvStep, readClient]
    simp only
    rw [show readOutcome ((resyncClient s.cfg.msgTimeout (s.clients i) now).rbuf.getD mbufNew) res =
      .complete m from hm]
    rfl
  have hres : peerlistRes env u i m = peerlistRes env s i m := by
    simp only [peerlistRes, hsize, hid, hpeers, funext hattribs]
  rw [hread, processMsg_peerlist hwhole.hdr hnamed
    ((congrArg Session.st (hsame i).2).trans hst) htype hdst, hsize, hres, hu]

/-- **The peer list is complete exactly when it fits.** A PEERLIST request of an
authenticated client is answered by one response that names all authenticated
clients, in the order of the slots and the client itself among them, if and only
if their attributes fit into a message; if not, the server exits. -/
theorem peerlist_complete_iff {s : Server} {i : Nat} {now : Int} {res : ReadRes} {env : MsgEnv}
    {m : Mbuf} (hs : (srvLts fun _ => True).Reachable s) (hlive : s.Live i)
    (hst : (s.clients i).st = .authOk)
    (hm : readOutcome (slotBuffer s i now) res = .complete m)
    (htype : hdrGetType m = MsgType.peerlistReq.code) (hdst : hdrGetDstid m = 0) :
    (∃ t r, srvStep s (.read i now res env) = some t ∧
      (t.clients i).q = (s.clients i).q ++ [r] ∧ hdrGetType r = MsgType.peerlistRes.code ∧
      hdrGetTrfid r = hdrGetTrfid m ∧ hdrGetPaylen r ≤ MSG_MAX_PAY_SIZE ∧ i ∈ peers s ∧
      attribs r = (peers s).flatMap fun j =>
        [(MsgAttrib.peerid.code, be64 (s.clients j).id),
          (MsgAttrib.peername.code, peerName s j ++ [0])]) ↔
      peerlistSize s ≤ MSG_MAX_PAY_SIZE := by
  have hstep := srvStep_peerlist env hs hlive hst hm htype hdst
  constructor
  · rintro ⟨t, r, ht, -⟩
    by_contra hbig
    rw [hstep, if_neg hbig] at ht
    cases ht
  · intro hfits
    rw [if_pos hfits] at hstep
    refine ⟨_, peerlistRes env s i m, hstep, ?_, ?_, ?_, ?_, mem_peers.mpr ⟨hlive, hst⟩, ?_⟩
    · rw [sendBack_clients, if_pos rfl, Server.setClient_self]
      exact congrArg (· ++ _) (opened_same s i now).2.2
    · exact hdrGetType_mkMsg _ _ _
    · exact hdrGetTrfid_mkMsg _ _ _
    · rw [peerlistRes, hdrGetPaylen_mkMsg]
      unfold MSG_MAX_PAY_SIZE at hfits ⊢
      rw [UInt16.toNat_ofNat', Nat.mod_eq_of_lt (by omega)]
      exact hfits
    · -- No name is too long for its length field.
      have hshort : ∀ j ∈ peers s, (peerName s j).length + 1 < 65536 := by
        intro j hj
        have hle := List.le_sum_of_mem (List.mem_map_of_mem
          (f := fun j => 24 + roundup8 ((peerName s j).length + 1)) hj)
        have hround := le_roundup8 ((peerName s j).length + 1)
        have hsize : ((peers s).map fun j => 24 + roundup8 ((peerName s j).length + 1)).sum ≤
          MSG_MAX_PAY_SIZE := hfits
        unfold MSG_MAX_PAY_SIZE at hsize
        omega
      rw [peerlistRes, attribs_tlvs, List.map_flatMap]
      · rfl
      · intro a ha
        obtain ⟨j, hjp, hj⟩ := List.mem_flatMap.mp ha
        simp only [peerAttribs, List.mem_cons, List.not_mem_nil, or_false] at hj
        rcases hj with rfl | rfl
        · rw [AttrArg.octets, length_be64]
          decide
        · rw [AttrArg.octets, List.length_append, List.length_singleton]
          exact hshort j hjp

/-- A PEERLIST request. -/
def peerlistOctets : Bytes := (mbufCompose 0 .peerlistReq 0 0 1).b

/-- Two clients are in the list that one of them asks for. -/
theorem peerlist_complete_iff_two :
    ∃ s m, (peers s = [0, 1] ∧ peerlistSize s = 64) ∧
      ((∃ t r, srvStep s (.read 0 1 (.got peerlistOctets) ⟨[], 0, .good, .good⟩) = some t ∧
        (t.clients 0).q = (s.clients 0).q ++ [r] ∧ hdrGetType r = MsgType.peerlistRes.code ∧
        hdrGetTrfid r = hdrGetTrfid m ∧ hdrGetPaylen r ≤ MSG_MAX_PAY_SIZE ∧ 0 ∈ peers s ∧
        attribs r = (peers s).flatMap fun j =>
          [(MsgAttrib.peerid.code, be64 (s.clients j).id),
            (MsgAttrib.peername.code, peerName s j ++ [0])]) ↔
        peerlistSize s ≤ MSG_MAX_PAY_SIZE) := by
  have hexec : (Lts.exec srvTry (demoServer none) twoUsersRun).any (fun s =>
      (peers s == [0, 1] && peerlistSize s == 64) &&
        (decide (s.Live 0) && (s.clients 0).st == .authOk &&
          readOutcome (slotBuffer s 0 1) (.got peerlistOctets) ==
            .complete { b := peerlistOctets, boff := 40 })) = true := by
    decide +kernel
  obtain ⟨s, hs, hp⟩ := Lts.reachable_of_exec (fun _ _ _ => srvTry_step (fun _ => True) trivial)
    (demoServer_init (fun _ => True) trivial _) hexec
  simp only [Bool.and_eq_true, decide_eq_true_eq, beq_iff_eq] at hp
  exact ⟨s, _, hp.1, peerlist_complete_iff hs hp.2.1.1 hp.2.1.2 hp.2.2 (by decide) (by decide)⟩

/-! ## One long name -/

/-- The login of an unregistered user under a name that nobody has. -/
theorem processLogin_temp {env : MsgEnv} {s : Server} {i : Nat} {m : Mbuf} {name : Bytes}
    (hst : (s.clients i).st = .preLogin) (hstr : nextStr env m .username = some name)
    (hnone : (udbLookupname env.db1 s.udb name).2 = none) (hfree : nameInUse s name = false) :
    ∃ d id, processLogin env s i m = replyNotice env (({ s with udb := d }).setClient i
      { s.clients i with st := .authOk, id := id, name := some name, key := none }) m
      s.motdText := by
  have hfree' : nameInUse { s with udb := (udbLookupname env.db1 s.udb name).1 } name = false :=
    hfree
  refine ⟨(udbGettempid env.db2 (udbLookupname env.db1 s.udb name).1).1,
    (udbGettempid env.db2 (udbLookupname env.db1 s.udb name).1).2, ?_⟩
  rw [processLogin, if_neg (not_not.mpr hst), hstr]
  simp only [hnone, hfree', Bool.false_eq_true, if_false]
  rfl

/-- A notice that is not too long can be sent. -/
theorem replyNotice_some (env : MsgEnv) (s : Server) {m : Mbuf} {txt : Bytes} (hm : 40 ≤ m.bsize)
    (hshort : txt.length ≤ MOTD_SIZE) : ∃ r, replyNotice env s m txt = some (s, some r) := by
  have hround := roundup8_lt (txt.length + 1)
  have h0 : roundup8 0 = 0 := by decide
  obtain ⟨hd, body, boff, rfl⟩ := exists_msg hm
  rw [replyNotice, mbufToResponse_eq]
  simp only [Option.bind_eq_bind, Option.bind_some]
  rw [addattrib_eq _ _ _ _ _ rfl (by simp), if_pos (by decide), Option.bind_some,
    addattrib_eq _ _ _ _ _ rfl (by simp), if_pos]
  · exact ⟨_, rfl⟩
  · rw [List.nil_append, length_tlv, length_tlv, AttrArg.octets, AttrArg.octets, List.length_nil,
      List.length_append, List.length_singleton]
    unfold MOTD_SIZE at hshort
    unfold MSG_MAX_PAY_SIZE
    omega

/-- A name that fills a LOGIN request. -/
def longName : Bytes := List.replicate 65391 97

/-- That request. -/
def longLogin : Mbuf :=
  mkMsg ⟨MsgType.loginReq.code, 65400, 0, 0, 0, 0, 1⟩ (tlv .username (longName ++ [0])) 0

theorem length_longLogin : (tlv .username (longName ++ [0])).length = 65400 := by
  have hround : roundup8 65392 = 65392 := by decide
  rw [length_tlv, List.length_append, longName, List.length_replicate, List.length_singleton,
    hround]

theorem whole_longLogin : Whole longLogin.b := by
  rw [whole_iff, longLogin, bsize_mkMsg, hdrGetPaylen_mkMsg, length_longLogin]
  decide

/-- The server with one client that has just connected. -/
def oneClient : Server := acceptClient (demoServer none) 4 true 1

theorem oneClient_clients : oneClient.clients = Function.update (fun _ => closedClient) 0
    { closedClient with fd := 4, st := .preLogin, act := 1 } := rfl

/-- The name is read from the request. -/
theorem nextStr_longLogin (env : MsgEnv) (boff : Nat) :
    nextStr env (mbufResetgetattrib { longLogin with boff := boff }) .username =
      some longName := by
  have hv : (longName ++ [0]).length < 65536 := by
    rw [List.length_append, longName, List.length_replicate]
    decide
  have hzero : (0 : UInt8) ∉ longName := by
    intro h
    exact absurd (List.eq_of_mem_replicate h) (by decide)
  have hnext := mbufGetnextattrib_tlv ⟨MsgType.loginReq.code, 65400, 0, 0, 0, 0, 1⟩ [] []
    .username (longName ++ [0]) hv
  have hstr := cstrAt_tlv ⟨MsgType.loginReq.code, 65400, 0, 0, 0, 0, 1⟩ [] [] .username longName
    (40 + ([] : Bytes).length + (tlv .username (longName ++ [0])).length) env.beyond hzero
  rw [List.nil_append, List.append_nil] at hnext hstr
  have hreset : mbufResetgetattrib { longLogin with boff := boff } =
      mkMsg ⟨MsgType.loginReq.code, 65400, 0, 0, 0, 0, 1⟩ (tlv .username (longName ++ [0]))
        (40 + ([] : Bytes).length) := rfl
  rw [nextStr, hreset, hnext]
  simp only [if_true]
  exact congrArg some hstr

/-- A client can log in under such a name. -/
theorem longName_reachable : ∃ s, (srvLts fun _ => True).Reachable s ∧ s.Live 0 ∧
    (s.clients 0).st = .authOk ∧ (s.clients 0).name = some longName ∧
    (s.clients 0).rbuf = none := by
  let env : MsgEnv := ⟨[], 0, .good, .good⟩
  have hlong : 40 < longLogin.bsize := by
    rw [longLogin, bsize_mkMsg, length_longLogin]
    decide
  have hself : oneClient.clients 0 = { closedClient with fd := 4, st := .preLogin, act := 1 } := rfl
  obtain ⟨t, c, ht, hsess, hfd, hhead, htail⟩ := srvStep_arrival (s := oneClient) (i := 0) 1
    env rfl (by decide) whole_longLogin hlong
  rw [hself] at hsess hfd
  have hc : t.clients 0 = c := by rw [ht, Server.setClient_self]
  have hst : (t.clients 0).st = .preLogin := by rw [hc]; exact congrArg Session.st hsess
  have hudb : t.udb = { userdb := [], nextId := 1, file := none } := by rw [ht]; rfl
  have hmotd : t.motdText = ascii "Welcome!" := by
    have : oneClient.motdText = ascii "Welcome!" := by decide +kernel
    rw [ht]
    exact this
  -- Nobody else is there, and the client itself has no name yet.
  have hfree : nameInUse t longName = false := by
    rw [nameInUse, List.any_eq_false]
    intro j _ hj
    simp only [Bool.and_eq_true, decide_eq_true_eq] at hj
    by_cases hj0 : j = 0
    · subst hj0
      have hname : (t.clients 0).name = none := by rw [hc]; exact congrArg Session.name hsess
      rw [hname] at hj
      cases hj.2
    · have hclosed : t.clients j = closedClient := by
        rw [ht, Server.setClient_of_ne _ _ hj0, oneClient_clients, Function.update_of_ne hj0]
      rw [hclosed] at hj
      exact absurd hj.1 (by decide)
  have hnone : (udbLookupname env.db1 t.udb longName).2 = none := by rw [hudb]; rfl
  obtain ⟨d, id, hlogin⟩ := processLogin_temp hst (nextStr_longLogin env longLogin.b.length)
    hnone hfree
  obtain ⟨r, hr⟩ := replyNotice_some env (({ t with udb := d }).setClient 0
    { t.clients 0 with st := .authOk, id := id, name := some longName, key := none })
    (m := mbufResetgetattrib { longLogin with boff := longLogin.b.length }) (Nat.le_of_lt hlong)
    (by rw [hmotd]; decide : t.motdText.length ≤ MOTD_SIZE)
  rw [hr] at hlogin
  have hproc : processMsg env t 0 { longLogin with boff := longLogin.b.length } =
      some (sendBack (({ t with udb := d }).setClient 0
        { t.clients 0 with st := .authOk, id := id, name := some longName, key := none }) 0
        (some r)) := by
    have hfill : fillSrcid (t.clients 0) { longLogin with boff := longLogin.b.length } =
        { longLogin with boff := longLogin.b.length } := by
      rw [fillSrcid, hst, if_neg (by decide)]
    have hdst : hdrGetDstid { longLogin with boff := longLogin.b.length } = 0 :=
      hdrGetDstid_mkMsg _ _ _
    have htype : hdrGetType { longLogin with boff := longLogin.b.length } =
        MsgType.loginReq.code := hdrGetType_mkMsg _ _ _
    rw [processMsg, hfill, dispatchMsg, hdst]
    simp only [if_true]
    rw [processServerMsg, htype, MsgType.ofCode?_code]
    simp only [ne_eq, not_true_eq_false, false_and, and_false, if_false, hlogin]
    rfl
  have hone : oneClient.Live 0 := by decide
  have hlive : t.Live 0 := by
    rw [ht]
    exact ⟨hone.1, by rw [Server.setClient_self, hfd]; decide⟩
  have hstart : (srvLts fun _ => True).Reachable oneClient :=
    (Lts.Reachable.init (demoServer_init (fun _ => True) trivial none)).step
      (e := .accept 4 true 1) ⟨by decide, trivial, rfl⟩
  have hfirst : (srvLts fun _ => True).step oneClient
      (.read 0 1 (.got (longLogin.b.take 40)) env) t := ⟨hone, ⟨trivial, trivial⟩, hhead⟩
  have hsecond : (srvLts fun _ => True).step t (.read 0 1 (.got (longLogin.b.drop 40)) env) _ :=
    ⟨hlive, ⟨trivial, trivial⟩, htail.trans hproc⟩
  refine ⟨_, (hstart.step hfirst).step hsecond, ⟨hlive.1, ?_⟩, ?_, ?_, ?_⟩ <;>
    rw [sendBack_clients, if_pos rfl, Server.setClient_self]
  exact hlive.2

/-- A client with a name of 65391 octets asks for the peer list, and the server exits. -/
theorem peerlist_exits :
    ∃ s m, (srvLts fun _ => True).Reachable s ∧ s.Live 0 ∧ (s.clients 0).st = .authOk ∧
      readOutcome (slotBuffer s 0 1) (.got peerlistOctets) = .complete m ∧
      hdrGetType m = MsgType.peerlistReq.code ∧ hdrGetDstid m = 0 ∧
      srvStep s (.read 0 1 (.got peerlistOctets) ⟨[], 0, .good, .good⟩) = none := by
  obtain ⟨s, hs, hlive, hst, hname, hbuf⟩ := longName_reachable
  have hslot : slotBuffer s 0 1 = mbufNew := by
    rw [(opened_eq 1 rfl (.inl hbuf)).2, hbuf, Option.getD_none]
  have hout : readOutcome (slotBuffer s 0 1) (.got peerlistOctets) =
      .complete { b := peerlistOctets, boff := 40 } := by
    rw [hslot]
    decide
  have hbig : ¬ peerlistSize s ≤ MSG_MAX_PAY_SIZE := by
    have hmem := List.mem_map_of_mem (f := fun j => 24 + roundup8 ((peerName s j).length + 1))
      (mem_peers.mpr ⟨hlive, hst⟩)
    have hle : 24 + roundup8 ((peerName s 0).length + 1) ≤ peerlistSize s := List.le_sum_of_mem hmem
    have hround := le_roundup8 ((peerName s 0).length + 1)
    rw [peerName, hname, Option.getD_some, longName, List.length_replicate] at hle hround
    unfold MSG_MAX_PAY_SIZE
    omega
  refine ⟨s, _, hs, hlive, hst, hout, by decide, by decide, ?_⟩
  rw [srvStep_peerlist _ hs hlive hst hout (by decide) (by decide), if_neg hbig]

end Frelay
