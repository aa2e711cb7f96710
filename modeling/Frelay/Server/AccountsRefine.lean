import Frelay.Server.Accounts
import Frelay.Server.Effect

/-!
# The server refines the account system

`Server.acct` forgets everything about a server but the sessions of its live
slots and the user database, and `acctEvent` reads off what an event of the
server asks of them. Every step of the server is the corresponding step of the
account system (`srvStep_acct`).

The one step that moves slots is `upkeep`; `upkeep_compacted` says what it
leaves behind: the surviving slots, in order, at the front of the table.
-/

namespace Frelay

open Lib

/-- The account view of a server. -/
def Server.acct (s : Server) : Accounts where
  sess i := if s.Live i then some (s.clients i).session else none
  udb := s.udb

/-- What a complete message of a slot asks for, after its source id was filled
in. Messages to other clients ask nothing of the accounts. -/
def msgEvent (env : MsgEnv) (c : Client) (i : Nat) (m : Mbuf) : AcctEvent :=
  let m := mbufResetgetattrib (fillSrcid c m)
  if hdrGetDstid m ≠ 0 then .idle
  else
    match MsgType.ofCode? (hdrGetType m) with
    | some .loginReq =>
        if c.st = .preLogin then
          match nextStr env m .username with
          | some name => .login i name env.db1 env.db2
          | none => .idle
        else .idle
    | some .authReq => .auth i (nextStr env m .digest)
    | some .logoutReq => if c.st = .authOk then .logout i else .idle
    | some .registerReq =>
        if c.st = .authOk then
          match nextStr env m .pubkey with
          | some pubkey => .register i pubkey env.db1 env.db2
          | none => .idle
        else .idle
    | some .dropReq => if c.st = .authOk then .drop i env.db1 else .idle
    | _ => .idle

/-- The receive buffer a read of slot `i` goes into. -/
def slotBuffer (s : Server) (i : Nat) (now : Int) : Mbuf :=
  (resyncClient s.cfg.msgTimeout (s.clients i) now).rbuf.getD mbufNew

/-- The connection of slot `i` goes away. -/
def AcctEvent.close (i : Nat) : AcctEvent := .remap fun j => if j = i then none else some j

/-- The slots below `n` that outlive an upkeep pass. -/
def survivors (now : Int) (s : Server) (n : Nat) : List Nat :=
  (List.range n).filter fun i =>
    0 ≤ (s.clients i).fd ∧ ¬ s.cfg.connTimeout < now - (s.clients i).act

/-- What an event of the server means for the accounts. -/
def acctEvent (s : Server) : SrvEvent → AcctEvent
  | .accept fd nonblocking _ =>
      if fd = -1 ∨ FD_SETSIZE ≤ fd ∨ nonblocking = false then .idle
      else
        match s.slots.find? fun i => !(0 ≤ (s.clients i).fd : Bool) with
        | none => .idle
        | some i => .connect i
  | .read i now res env =>
      match readOutcome (slotBuffer s i now) res with
      | .disconnect => .close i
      | .complete m => msgEvent env (s.clients i) i m
      | _ => .idle
  | .write i _ res =>
      match (s.clients i).q with
      | [] => .idle
      | m :: _ =>
          match writeOutcome m res with
          | .disconnect => .close i
          | _ => .idle
  | .upkeep now => .remap fun j => (survivors now s s.cfg.maxClients)[j]?
  | .motd _ => .idle

/-! ## The view of one slot -/

theorem acct_sess_of_live {s : Server} {i : Nat} (h : s.Live i) :
    s.acct.sess i = some (s.clients i).session := if_pos h

theorem acct_sess_of_not_live {s : Server} {i : Nat} (h : ¬ s.Live i) :
    s.acct.sess i = none := if_neg h

theorem acct_sess_eq_some {s : Server} {i : Nat} {x : Session} (h : s.acct.sess i = some x) :
    s.Live i ∧ (s.clients i).session = x := by
  simp only [Server.acct] at h
  split at h
  · rename_i hlive
    exact ⟨hlive, Option.some.inj h⟩
  · cases h

/-- The view of a slot depends on its descriptor and session only. -/
theorem acct_sess_congr {s t : Server} {i : Nat} (hcfg : t.cfg = s.cfg)
    (hfd : (t.clients i).fd = (s.clients i).fd)
    (hsess : (t.clients i).session = (s.clients i).session) : t.acct.sess i = s.acct.sess i := by
  have hiff : t.Live i ↔ s.Live i := by rw [Server.Live, Server.Live, hcfg, hfd]
  by_cases hl : s.Live i
  · rw [acct_sess_of_live hl, acct_sess_of_live (hiff.mpr hl), hsess]
  · rw [acct_sess_of_not_live hl, acct_sess_of_not_live (fun h => hl (hiff.mp h))]

/-! ## What the view does not see -/

theorem acct_congr {s t : Server} (hcfg : t.cfg = s.cfg) (hudb : t.udb = s.udb)
    (h : ∀ i, (t.clients i).fd = (s.clients i).fd ∧
      (t.clients i).session = (s.clients i).session) : t.acct = s.acct := by
  have hsess : t.acct.sess = s.acct.sess := by
    funext i
    exact acct_sess_congr hcfg (h i).1 (h i).2
  have hudb' : t.acct.udb = s.acct.udb := hudb
  cases ht : t.acct
  cases hs : s.acct
  simp_all

theorem acct_enqueueMsg (s : Server) (i : Nat) (m : Mbuf) : (enqueueMsg s i m).acct = s.acct := by
  refine acct_congr rfl rfl ?_
  intro j
  rw [enqueueMsg_clients]
  split
  · rename_i h
    subst h
    exact ⟨rfl, rfl⟩
  · exact ⟨rfl, rfl⟩

theorem acct_sendBack (s : Server) (i : Nat) (rbuf : Option Mbuf) :
    (sendBack s i rbuf).acct = s.acct := by
  refine acct_congr (sendBack_cfg s i rbuf) (sendBack_udb s i rbuf) ?_
  intro j
  rw [sendBack_clients]
  split
  · rename_i h
    subst h
    exact ⟨rfl, rfl⟩
  · exact ⟨rfl, rfl⟩

/-! ## What the view does see -/

/-- Changing the session of a live slot and the database. -/
theorem acct_set {s : Server} {i : Nat} {c : Client} {d : Udb} (hlive : s.Live i)
    (hfd : c.fd = (s.clients i).fd) :
    (({ s with udb := d } : Server).setClient i c).acct =
      ({ s.acct with udb := d } : Accounts).set i c.session := by
  have hsess : (({ s with udb := d } : Server).setClient i c).acct.sess =
      Function.update s.acct.sess i (some c.session) := by
    funext j
    by_cases hj : j = i
    · subst hj
      have hlive' : (({ s with udb := d } : Server).setClient j c).Live j := by
        refine ⟨hlive.1, ?_⟩
        rw [Server.setClient_self, hfd]
        exact hlive.2
      rw [acct_sess_of_live hlive', Server.setClient_self, Function.update_self]
    · have hkeep := Server.setClient_of_ne { s with udb := d } c hj
      rw [Function.update_of_ne hj]
      exact acct_sess_congr rfl (congrArg Client.fd hkeep) (congrArg Client.session hkeep)
  simp only [Accounts.set, ← hsess]
  rfl

theorem acct_set_same_udb {s : Server} {i : Nat} {c : Client} (hlive : s.Live i)
    (hfd : c.fd = (s.clients i).fd) : (s.setClient i c).acct = s.acct.set i c.session :=
  acct_set (d := s.udb) hlive hfd

theorem acct_closeClient (s : Server) (i : Nat) :
    AcctStep s.acct (.close i) (closeClient s i).acct := by
  have hsess : (closeClient s i).acct.sess =
      fun j => (if j = i then none else some j).bind s.acct.sess := by
    funext j
    by_cases hj : j = i
    · subst hj
      have hdead : ¬ (closeClient s j).Live j := by
        rintro ⟨-, h⟩
        have hcl : (closeClient s j).clients j = closedClient :=
          Server.setClient_self s j closedClient
        rw [hcl] at h
        exact absurd h (by decide)
      rw [if_pos rfl]
      exact if_neg hdead
    · have hcl : (closeClient s i).clients j = s.clients j :=
        Server.setClient_of_ne s closedClient hj
      rw [if_neg hj, Option.bind_some]
      exact acct_sess_congr rfl (congrArg Client.fd hcl) (congrArg Client.session hcl)
  have hacct : (closeClient s i).acct =
      { s.acct with sess := fun j => (if j = i then none else some j).bind s.acct.sess } := by
    rw [← hsess]
    rfl
  rw [hacct]
  exact .remap _ _

/-! ## Requests -/

theorem replyErr_fst {env : MsgEnv} {s : Server} {m : Mbuf} {ec : ScEnum}
    {r : Server × Option Mbuf} (h : replyErr env s m ec = some r) : r.1 = s := by
  obtain ⟨x, -, rfl⟩ := Option.map_eq_some_iff.mp h
  rfl

theorem reply1_fst {env : MsgEnv} {s : Server} {m : Mbuf} {at₁ : MsgAttrib} {v₁ : AttrArg}
    {r : Server × Option Mbuf} (h : reply1 env s m at₁ v₁ = some r) : r.1 = s := by
  simp only [reply1, Option.bind_eq_bind] at h
  obtain ⟨x, -, h⟩ := Option.bind_eq_some_iff.mp h
  obtain ⟨y, -, h⟩ := Option.bind_eq_some_iff.mp h
  cases h
  rfl

theorem replyNotice_fst {env : MsgEnv} {s : Server} {m : Mbuf} {txt : Bytes}
    {r : Server × Option Mbuf} (h : replyNotice env s m txt = some r) : r.1 = s := by
  simp only [replyNotice, Option.bind_eq_bind] at h
  obtain ⟨x, -, h⟩ := Option.bind_eq_some_iff.mp h
  obtain ⟨y, -, h⟩ := Option.bind_eq_some_iff.mp h
  obtain ⟨z, -, h⟩ := Option.bind_eq_some_iff.mp h
  cases h
  rfl

theorem processNonsense_fst {env : MsgEnv} {s : Server} {m : Mbuf} {ec : ScEnum}
    {r : Server × Option Mbuf} (h : processNonsense env s m ec = some r) : r.1 = s := by
  unfold processNonsense at h
  split at h
  · exact replyErr_fst h
  · cases h
    rfl

theorem processRegister_acct {env : MsgEnv} {s : Server} {i : Nat} {m : Mbuf}
    {r : Server × Option Mbuf} (hlive : s.Live i) (h : processRegister env s i m = some r) :
    AcctStep s.acct (if (s.clients i).st = .authOk then
      match nextStr env m .pubkey with
      | some pubkey => .register i pubkey env.db1 env.db2
      | none => .idle
      else .idle) r.1.acct := by
  unfold processRegister at h
  split at h
  · rename_i hst
    rw [if_neg hst, replyErr_fst h]
    exact .idle _
  · rename_i hst
    rw [if_pos (not_not.mp hst)]
    cases hkey : nextStr env m .pubkey with
    | none =>
        rw [hkey] at h
        rw [replyErr_fst h]
        exact .idle _
    | some pubkey =>
        rw [hkey] at h
        simp only at h
        split at h
        · cases h
        · rename_i n hn
          have hreg : AcctStep s.acct (.register i pubkey env.db1 env.db2) _ :=
            .register (acct_sess_of_live hlive) (not_not.mp hst) hn
          split at h
          · rw [replyNotice_fst h]
            exact hreg
          · rw [replyErr_fst h]
            exact hreg

theorem processDrop_acct {env : MsgEnv} {s : Server} {i : Nat} {m : Mbuf}
    {r : Server × Option Mbuf} (hlive : s.Live i) (h : processDrop env s i m = some r) :
    AcctStep s.acct (if (s.clients i).st = .authOk then .drop i env.db1 else .idle) r.1.acct := by
  unfold processDrop at h
  split at h
  · rename_i hst
    rw [if_neg hst, replyErr_fst h]
    exact .idle _
  · rename_i hst
    rw [if_pos (not_not.mp hst)]
    split at h
    · cases h
    · rename_i n hn
      have hdrop : AcctStep s.acct (.drop i env.db1) _ :=
        .drop (acct_sess_of_live hlive) (not_not.mp hst) hn
      simp only at h
      split at h
      · rw [replyNotice_fst h]
        exact hdrop
      · rw [replyErr_fst h]
        exact hdrop

theorem nameInUse_iff {s : Server} {name : Bytes} :
    nameInUse s name = true ↔ s.acct.NameUsed name := by
  simp only [nameInUse, List.any_eq_true, Server.mem_slots, Bool.and_eq_true, decide_eq_true_eq]
  constructor
  · rintro ⟨j, hj, hfd, hname⟩
    cases hn : (s.clients j).name with
    | none =>
        rw [hn] at hname
        cases hname
    | some n =>
        rw [hn] at hname
        exact ⟨j, _, n, acct_sess_of_live ⟨hj, hfd⟩, hn, beq_iff_eq.mp hname⟩
  · rintro ⟨j, y, n, hy, hn, hcmp⟩
    obtain ⟨hlive, rfl⟩ := acct_sess_eq_some hy
    refine ⟨j, hlive.1, hlive.2, ?_⟩
    have hn' : (s.clients j).name = some n := hn
    rw [hn']
    exact beq_iff_eq.mpr hcmp

theorem processLogin_acct {env : MsgEnv} {s : Server} {i : Nat} {m : Mbuf}
    {r : Server × Option Mbuf} (hlive : s.Live i) (h : processLogin env s i m = some r) :
    AcctStep s.acct (if (s.clients i).st = .preLogin then
      match nextStr env m .username with
      | some name => .login i name env.db1 env.db2
      | none => .idle
      else .idle) r.1.acct := by
  unfold processLogin at h
  simp only at h
  split at h
  · rename_i hst
    rw [if_neg hst, replyErr_fst h]
    exact .idle _
  · rename_i hst
    rw [if_pos (not_not.mp hst)]
    cases hname : nextStr env m .username with
    | none =>
        rw [hname] at h
        rw [replyErr_fst h]
        exact .idle _
    | some name =>
        rw [hname] at h
        simp only at h
        -- The scan for the name does not look at the database.
        have hscan : nameInUse { s with udb := (udbLookupname env.db1 s.udb name).1 } name =
            nameInUse s name := rfl
        split at h
        · rename_i hnone
          rw [hscan] at h
          split at h
          · rename_i hused
            rw [replyErr_fst h]
            exact .loginTaken (acct_sess_of_live hlive) (not_not.mp hst) hnone
              (nameInUse_iff.mp hused)
          · rename_i hfree
            rw [replyNotice_fst h]
            have hset := acct_set (d := (udbGettempid env.db2
                (udbLookupname env.db1 s.udb name).1).1)
              (c := { s.clients i with
                st := .authOk
                id := (udbGettempid env.db2 (udbLookupname env.db1 s.udb name).1).2
                name := some name
                key := none }) hlive rfl
            exact hset ▸ .loginTemp (acct_sess_of_live hlive) (not_not.mp hst) hnone
              fun hused => hfree (nameInUse_iff.mpr hused)
        · rename_i pu hpu
          have huser : AcctStep s.acct (.login i name env.db1 env.db2) _ :=
            .loginUser (acct_sess_of_live hlive) (not_not.mp hst) hpu
          split at h
          · rename_i hkey
            rw [reply1_fst h, acct_set hlive (by rfl)]
            simp only [Session.challenge, hkey, if_true] at huser
            exact huser
          · rename_i hkey
            rw [replyErr_fst h, acct_set hlive (by rfl)]
            simp only [Session.challenge, hkey] at huser
            exact huser

theorem authFailed_acct {env : MsgEnv} {s : Server} {i : Nat} {m : Mbuf} {ec : ScEnum}
    {r : Server × Option Mbuf} {digest : Option Bytes} (hlive : s.Live i)
    (hbad : (s.clients i).st = .loginOk → ∀ key, digest = some key → (s.clients i).key ≠ some key)
    (h : authFailed env s i m ec = some r) : AcctStep s.acct (.auth i digest) r.1.acct := by
  rw [replyErr_fst h, acct_set_same_udb hlive (by rfl)]
  exact .authFailed (acct_sess_of_live hlive) hbad

theorem processAuth_acct {env : MsgEnv} {s : Server} {i : Nat} {m : Mbuf}
    {r : Server × Option Mbuf} (hlive : s.Live i) (h : processAuth env s i m = some r) :
    AcctStep s.acct (.auth i (nextStr env m .digest)) r.1.acct := by
  unfold processAuth at h
  split at h
  · rename_i hst
    exact authFailed_acct hlive (fun hlog => absurd hlog hst) h
  · rename_i hst
    split at h
    · rename_i hnone
      refine authFailed_acct hlive (fun _ key hdig => ?_) h
      rw [hnone] at hdig
      cases hdig
    · rename_i digest hdig
      split at h
      · cases h
      · rename_i key hkey
        split at h
        · rename_i hne
          refine authFailed_acct hlive (fun _ key' hdig' hkey' => ?_) h
          rw [hdig, Option.some.injEq] at hdig'
          rw [hkey, Option.some.injEq] at hkey'
          exact hne (hdig'.trans hkey'.symm)
        · rename_i heq
          rw [hdig, not_not.mp heq, replyNotice_fst h]
          obtain ⟨hcfg, -, hudb, hself, hothers⟩ := kickOthers_spec i s.slots s
          have hlive' : (kickOthers i s.slots s).Live i := by
            refine ⟨by rw [hcfg]; exact hlive.1, ?_⟩
            rw [hself]
            exact hlive.2
          have hok := AcctStep.authOk (acct_sess_of_live hlive) (not_not.mp hst) hkey
          rw [acct_set_same_udb hlive' (by rfl), hself]
          -- Outside slot `i` the loop has closed exactly the slots of the same id.
          have hsame : (kickOthers i s.slots s).acct.set i
              { s.clients i with st := CltState.authOk : Client }.session =
              ({ s.acct with
                  sess := fun j => (s.acct.sess j).filter fun y => y.id ≠ (s.clients i).id }
                : Accounts).set i { (s.clients i).session with st := .authOk } := by
            have hsess : Function.update (kickOthers i s.slots s).acct.sess i
                  (some { s.clients i with st := CltState.authOk : Client }.session) =
                Function.update (fun j => (s.acct.sess j).filter fun y => y.id ≠ (s.clients i).id) i
                  (some { (s.clients i).session with st := .authOk }) := by
              funext j
              by_cases hj : j = i
              · subst hj
                rw [Function.update_self, Function.update_self]
                rfl
              · rw [Function.update_of_ne hj, Function.update_of_ne hj]
                have hj' := hothers j hj
                by_cases hl : s.Live j
                · rw [acct_sess_of_live hl]
                  by_cases hid : (s.clients j).id = (s.clients i).id
                  · rw [if_pos ⟨Server.mem_slots.mpr hl.1, hid.symm, hl.2⟩] at hj'
                    rw [acct_sess_of_not_live fun h => absurd h.2 (by rw [hj']; decide)]
                    simp [Client.session, hid, Option.filter]
                  · rw [if_neg fun h => hid h.2.1.symm] at hj'
                    rw [acct_sess_congr hcfg (congrArg Client.fd hj')
                      (congrArg Client.session hj'), acct_sess_of_live hl]
                    simp [Client.session, hid, Option.filter]
                · rw [if_neg fun h => hl ⟨Server.mem_slots.mp h.1, h.2.2⟩] at hj'
                  rw [acct_sess_congr hcfg (congrArg Client.fd hj') (congrArg Client.session hj'),
                    acct_sess_of_not_live hl]
                  rfl
            simp only [Accounts.set, hsess]
            simp only [Server.acct, hudb]
          rw [hsame]
          exact hok

theorem processLogout_acct {env : MsgEnv} {s : Server} {i : Nat} {m : Mbuf}
    {r : Server × Option Mbuf} (hlive : s.Live i) (hst : (s.clients i).st = .authOk)
    (h : processLogout env s i m = some r) : AcctStep s.acct (.logout i) r.1.acct := by
  unfold processLogout at h
  simp only at h
  rw [if_neg (fun hn => hn.1 hst)] at h
  rw [replyNotice_fst h, acct_set_same_udb hlive (by rfl)]
  exact .logout (acct_sess_of_live hlive) hst

/-- Resetting the read offset does not change the header. -/
private theorem msgEvent_eq {c : Client} {m : Mbuf} (hm : 40 ≤ m.bsize) :
    hdrGetDstid (mbufResetgetattrib (fillSrcid c m)) = hdrGetDstid m ∧
      hdrGetType (mbufResetgetattrib (fillSrcid c m)) = hdrGetType m :=
  ⟨hdrGetDstid_fillSrcid hm, hdrGetType_fillSrcid hm⟩

theorem processServerMsg_acct {env : MsgEnv} {s : Server} {i : Nat} {m : Mbuf}
    {r : Server × Option Mbuf} (hlive : s.Live i) (hm : 40 ≤ m.bsize) (hdst : hdrGetDstid m = 0)
    (h : processServerMsg env s i (fillSrcid (s.clients i) m) = some r) :
    AcctStep s.acct (msgEvent env (s.clients i) i m) r.1.acct := by
  obtain ⟨hd, ht⟩ := msgEvent_eq (c := s.clients i) hm
  have ht' : hdrGetType (fillSrcid (s.clients i) m) = hdrGetType m := ht
  unfold processServerMsg at h
  unfold msgEvent
  simp only [hd, hdst, ht, ht', ne_eq, not_true_eq_false, if_false] at h ⊢
  split at h
  · -- Without authentication only three types get past the gate.
    rename_i hgate
    obtain ⟨hst, hlogin, hauth, hreg⟩ := hgate
    rw [replyErr_fst h]
    split
    · rename_i heq
      exact absurd heq hlogin
    · rename_i heq
      exact absurd heq hauth
    · rw [if_neg hst]
      exact .idle _
    · rename_i heq
      exact absurd heq hreg
    · rw [if_neg hst]
      exact .idle _
    · exact .idle _
  · rename_i hgate
    split at h
    · rename_i heq
      cases h
      simp only [heq]
      exact .idle _
    · rename_i heq
      simp only [heq]
      rw [reply1_fst h]
      exact .idle _
    · rename_i heq
      simp only [heq]
      exact processRegister_acct hlive h
    · rename_i heq
      simp only [heq]
      exact processDrop_acct hlive h
    · rename_i heq
      simp only [heq]
      exact processLogin_acct hlive h
    · rename_i heq
      simp only [heq]
      exact processAuth_acct hlive h
    · rename_i heq
      -- LOGOUT is no exception of the gate, so the client is authenticated.
      have hst : (s.clients i).st = .authOk := by
        by_contra hst
        exact hgate ⟨hst, by rw [heq]; decide, by rw [heq]; decide, by rw [heq]; decide⟩
      simp only [heq]
      rw [if_pos hst]
      exact processLogout_acct hlive hst h
    · rename_i heq
      simp only [heq]
      unfold processPeerlist at h
      simp only [Option.bind_eq_bind] at h
      obtain ⟨x, -, h⟩ := Option.bind_eq_some_iff.mp h
      obtain ⟨y, -, h⟩ := Option.bind_eq_some_iff.mp h
      cases h
      exact .idle _
    · rename_i hping hpreq hreg hdrop hlogin hauth hlogout hpeer
      rw [processNonsense_fst h]
      split
      · exact absurd ‹_› hlogin
      · exact absurd ‹_› hauth
      · exact absurd ‹_› hlogout
      · exact absurd ‹_› hreg
      · exact absurd ‹_› hdrop
      · exact .idle _

/-- A complete message is the step it asks for. -/
theorem processMsg_acct {env : MsgEnv} {s t : Server} {i : Nat} {m : Mbuf} (hlive : s.Live i)
    (hm : 40 ≤ m.bsize) (h : processMsg env s i m = some t) :
    AcctStep s.acct (msgEvent env (s.clients i) i m) t.acct := by
  obtain ⟨⟨u, rbuf⟩, hdisp, rfl⟩ := Option.map_eq_some_iff.mp h
  obtain ⟨hd, ht⟩ := msgEvent_eq (c := s.clients i) hm
  have hd' : hdrGetDstid (fillSrcid (s.clients i) m) = hdrGetDstid m := hd
  rw [acct_sendBack]
  unfold dispatchMsg at hdisp
  simp only [hd'] at hdisp
  split at hdisp
  · rename_i h0
    exact processServerMsg_acct hlive hm h0 hdisp
  · rename_i h0
    -- A message for somebody else leaves the accounts alone.
    have hidle : msgEvent env (s.clients i) i m = .idle := by
      unfold msgEvent
      simp only [hd, ne_eq, h0, not_false_eq_true, if_true]
    have hacct : u.acct = s.acct := by
      split at hdisp
      · unfold processBroadcastMsg at hdisp
        split at hdisp
        · exact congrArg Server.acct (replyErr_fst hdisp)
        · exact congrArg Server.acct (processNonsense_fst hdisp)
      · unfold processForwardMsg at hdisp
        split at hdisp
        · exact congrArg Server.acct (replyErr_fst hdisp)
        · split at hdisp
          · exact congrArg Server.acct (replyErr_fst hdisp)
          · split at hdisp
            · split at hdisp
              · cases hdisp
                exact acct_enqueueMsg _ _ _
              · exact congrArg Server.acct (processNonsense_fst hdisp)
            · exact congrArg Server.acct (processNonsense_fst hdisp)
    rw [hidle, hacct]
    exact .idle _

/-! ## Upkeep -/

/-- The state of the upkeep loop before slot `n`: the survivors among the slots
below `n` are in front, in order and resynced, the slots between them and `n`
are unused, and nothing has happened to the slots from `n` on. -/
structure Compacted (now : Int) (s : Server) (n : Nat) (p : Server × Nat) : Prop where
  cfg : p.1.cfg = s.cfg
  listenfd : p.1.listenfd = s.listenfd
  udb : p.1.udb = s.udb
  count : p.2 = (survivors now s n).length
  moved : ∀ k i, (survivors now s n)[k]? = some i →
    p.1.clients k = resyncClient s.cfg.msgTimeout (s.clients i) now
  freed : ∀ k, p.2 ≤ k → k < n → (p.1.clients k).fd < 0
  ahead : ∀ k, n ≤ k → p.1.clients k = s.clients k

theorem survivors_length_le (now : Int) (s : Server) (n : Nat) :
    (survivors now s n).length ≤ n := by
  have := List.length_filter_le (fun i => decide (0 ≤ (s.clients i).fd ∧
    ¬ s.cfg.connTimeout < now - (s.clients i).act)) (List.range n)
  rwa [List.length_range] at this

theorem survivors_succ (now : Int) (s : Server) (n : Nat) :
    survivors now s (n + 1) = survivors now s n ++
      if 0 ≤ (s.clients n).fd ∧ ¬ s.cfg.connTimeout < now - (s.clients n).act then [n] else [] := by
  rw [survivors, List.range_succ, List.filter_append]
  congr 1
  by_cases h : 0 ≤ (s.clients n).fd ∧ ¬ s.cfg.connTimeout < now - (s.clients n).act
  · rw [if_pos h, List.filter_cons_of_pos (by simpa using h), List.filter_nil]
  · rw [if_neg h, List.filter_cons_of_neg (by simpa using h), List.filter_nil]

theorem resyncClient_same (timeout : Int) (c : Client) (now : Int) :
    (resyncClient timeout c now).fd = c.fd ∧ (resyncClient timeout c now).session = c.session ∧
      (resyncClient timeout c now).q = c.q ∧ (resyncClient timeout c now).act = c.act := by
  unfold resyncClient
  split <;> exact ⟨rfl, rfl, rfl, rfl⟩

/-- Slot `n` is not a survivor: nothing moves and it ends up unused. -/
private theorem Compacted.skip {now : Int} {s t : Server} {n j : Nat} {p : Server × Nat}
    (h : Compacted now s n p) (hj : p.2 = j)
    (hns : ¬ (0 ≤ (s.clients n).fd ∧ ¬ s.cfg.connTimeout < now - (s.clients n).act))
    (hcfg : t.cfg = p.1.cfg) (hlfd : t.listenfd = p.1.listenfd) (hudb : t.udb = p.1.udb)
    (hn : (t.clients n).fd < 0) (hkeep : ∀ k, k ≠ n → t.clients k = p.1.clients k) :
    Compacted now s (n + 1) (t, j) := by
  have hsame : survivors now s (n + 1) = survivors now s n := by
    rw [survivors_succ, if_neg hns, List.append_nil]
  have hlen := survivors_length_le now s n
  refine ⟨hcfg.trans h.cfg, hlfd.trans h.listenfd, hudb.trans h.udb, ?_, ?_, ?_, ?_⟩
  · rw [hsame, ← hj]
    exact h.count
  · intro k i hki
    rw [hsame] at hki
    have hk := (List.getElem?_eq_some_iff.mp hki).1
    rw [hkeep k (by omega)]
    exact h.moved k i hki
  · intro k hjk hkn
    by_cases hk : k = n
    · rw [hk]
      exact hn
    · rw [hkeep k hk]
      exact h.freed k (by omega) (by omega)
  · intro k hk
    rw [hkeep k (by omega)]
    exact h.ahead k (by omega)

/-- One turn of the upkeep loop. -/
private theorem Compacted.turn {now : Int} {s : Server} {n : Nat} {p : Server × Nat}
    (h : Compacted now s n p) :
    Compacted now s (n + 1) (upkeepBudge (upkeepExpire now p.1 n) n p.2) := by
  obtain ⟨t, j⟩ := p
  have hc : t.clients n = s.clients n := h.ahead n (Nat.le_refl n)
  have hcfg : t.cfg = s.cfg := h.cfg
  have hcount : j = (survivors now s n).length := h.count
  have hlen := survivors_length_le now s n
  obtain ⟨hrfd, -, -, -⟩ := resyncClient_same s.cfg.msgTimeout (s.clients n) now
  by_cases hfd : 0 ≤ (s.clients n).fd
  · by_cases hexp : s.cfg.connTimeout < now - (s.clients n).act
    · -- The client has expired: its slot is freed, and nobody moves.
      have hclosed : (closeClient t n).clients n = closedClient :=
        Server.setClient_self t n closedClient
      have hexpire : upkeepExpire now t n = closeClient t n := by
        simp only [upkeepExpire, hc, hcfg]
        rw [if_pos hfd, if_pos hexp]
      have hbudge : upkeepBudge (closeClient t n) n j = (closeClient t n, j) := by
        simp only [upkeepBudge, hclosed]
        rw [if_neg (by decide)]
      simp only [hexpire, hbudge]
      refine h.skip rfl (fun hs => hs.2 hexp) rfl rfl rfl ?_ ?_
      · rw [hclosed]
        decide
      · exact fun k hk => Server.setClient_of_ne t closedClient hk
    · -- The client survives and moves to slot `j`.
      have hsucc : survivors now s (n + 1) = survivors now s n ++ [n] := by
        rw [survivors_succ, if_pos ⟨hfd, hexp⟩]
      have hexpire : upkeepExpire now t n =
          t.setClient n (resyncClient s.cfg.msgTimeout (s.clients n) now) := by
        simp only [upkeepExpire, hc, hcfg]
        rw [if_pos hfd, if_neg hexp]
      simp only [hexpire, upkeepBudge, Server.setClient_self, hrfd]
      rw [if_pos hfd]
      -- What is at `k` now was there before, or it is the client that moves.
      have hmoved : ∀ k i, (survivors now s (n + 1))[k]? = some i →
          (k < j ∧ (survivors now s n)[k]? = some i) ∨ (k = j ∧ i = n) := by
        intro k i hki
        rw [hsucc] at hki
        by_cases hk : k < j
        · rw [List.getElem?_append_left (by omega)] at hki
          exact .inl ⟨hk, hki⟩
        · rw [List.getElem?_append_right (by omega), ← hcount] at hki
          have hz : k - j = 0 := by
            have := (List.getElem?_eq_some_iff.mp hki).1
            rw [List.length_singleton] at this
            omega
          rw [hz] at hki
          exact .inr ⟨by omega, (Option.some.inj hki).symm⟩
      by_cases hjn : j ≠ n
      · rw [if_pos hjn]
        have hjlt : j < n := by omega
        refine ⟨hcfg, h.listenfd, h.udb, ?_, ?_, ?_, ?_⟩
        · rw [hsucc, List.length_append, ← hcount]
          rfl
        · intro k i hki
          rcases hmoved k i hki with ⟨hk, hki⟩ | ⟨rfl, rfl⟩
          · rw [Server.setClient_of_ne _ _ (by omega), Server.setClient_of_ne _ _ (by omega)]
            exact (Server.setClient_of_ne t _ (by omega)).trans (h.moved k i hki)
          · rw [Server.setClient_of_ne _ _ (by omega), Server.setClient_self]
        · intro k hjk hkn
          by_cases hk : k = n
          · rw [hk, Server.setClient_self]
            exact (by decide : (-1 : Int) < 0)
          · have hjk' : j + 1 ≤ k := hjk
            rw [Server.setClient_of_ne _ _ hk, Server.setClient_of_ne _ _ (by omega)]
            have := Server.setClient_of_ne t
              (resyncClient s.cfg.msgTimeout (s.clients n) now) hk
            exact (congrArg (fun c => c.fd < 0) this).mpr (h.freed k (by omega) (by omega))
        · intro k hk
          rw [Server.setClient_of_ne _ _ (by omega), Server.setClient_of_ne _ _ (by omega)]
          exact (Server.setClient_of_ne t _ (by omega)).trans (h.ahead k (by omega))
      · rw [if_neg hjn]
        -- No slot has been free so far: the client stays where it is.
        have hjeq : j = n := not_not.mp hjn
        refine ⟨hcfg, h.listenfd, h.udb, ?_, ?_, ?_, ?_⟩
        · rw [hsucc, List.length_append, ← hcount]
          rfl
        · intro k i hki
          rcases hmoved k i hki with ⟨hk, hki⟩ | ⟨rfl, rfl⟩
          · exact (Server.setClient_of_ne t _ (by omega)).trans (h.moved k i hki)
          · rw [hjeq]
            exact Server.setClient_self t _ _
        · intro k hjk hkn
          have hjk' : j + 1 ≤ k := hjk
          omega
        · intro k hk
          exact (Server.setClient_of_ne t _ (by omega)).trans (h.ahead k (by omega))
  · have hexpire : upkeepExpire now t n = t := by
      simp only [upkeepExpire, hc]
      rw [if_neg hfd]
    have hbudge : upkeepBudge t n j = (t, j) := by
      simp only [upkeepBudge, hc]
      rw [if_neg hfd]
    simp only [hexpire, hbudge]
    refine h.skip rfl (fun hs => hfd hs.1) rfl rfl rfl ?_ (fun _ _ => rfl)
    rw [hc]
    omega

theorem upkeepFrom_append (now : Int) (is js : List Nat) (p : Server × Nat) :
    upkeepFrom now (is ++ js) p = upkeepFrom now js (upkeepFrom now is p) := by
  induction is generalizing p with
  | nil => rfl
  | cons i is ih =>
      obtain ⟨s, j⟩ := p
      exact ih _

/-- **Upkeep compacts.** -/
theorem upkeep_compacted (now : Int) (s : Server) (n : Nat) :
    Compacted now s n (upkeepFrom now (List.range n) ({ s with maxfd := s.listenfd }, 0)) := by
  induction n with
  | zero =>
      refine ⟨rfl, rfl, rfl, rfl, ?_, ?_, fun _ _ => rfl⟩
      · intro k i hki
        cases hki
      · intro k _ hk
        omega
  | succ n ih =>
      rw [List.range_succ, upkeepFrom_append]
      exact ih.turn

/-- After upkeep slot `j` holds the `j`-th survivor. -/
theorem upkeep_moved {now : Int} {s : Server} {i j : Nat}
    (h : (survivors now s s.cfg.maxClients)[j]? = some i) :
    (upkeep now s).Live j ∧ s.Live i ∧ ¬ s.cfg.connTimeout < now - (s.clients i).act ∧
      (upkeep now s).clients j = resyncClient s.cfg.msgTimeout (s.clients i) now := by
  have hc := upkeep_compacted now s s.cfg.maxClients
  have hlen := survivors_length_le now s s.cfg.maxClients
  have hcfg : (upkeep now s).cfg = s.cfg := hc.cfg
  have hmem := List.mem_of_getElem? h
  have hjlt := (List.getElem?_eq_some_iff.mp h).1
  simp only [survivors, List.mem_filter, List.mem_range, decide_eq_true_eq] at hmem
  have hmv : (upkeep now s).clients j = resyncClient s.cfg.msgTimeout (s.clients i) now :=
    hc.moved j i h
  obtain ⟨hfd, -, -, -⟩ := resyncClient_same s.cfg.msgTimeout (s.clients i) now
  refine ⟨⟨by rw [hcfg]; omega, ?_⟩, ⟨hmem.1, hmem.2.1⟩, hmem.2.2, hmv⟩
  rw [hmv, hfd]
  exact hmem.2.1

/-- After upkeep no slot but those of survivors is in use. -/
theorem upkeep_live {now : Int} {s : Server} {j : Nat} (h : (upkeep now s).Live j) :
    ∃ i, (survivors now s s.cfg.maxClients)[j]? = some i := by
  have hc := upkeep_compacted now s s.cfg.maxClients
  have hcfg : (upkeep now s).cfg = s.cfg := hc.cfg
  cases hj : (survivors now s s.cfg.maxClients)[j]? with
  | some i => exact ⟨i, rfl⟩
  | none =>
      rw [List.getElem?_eq_none_iff] at hj
      have hlt := h.1
      rw [hcfg] at hlt
      have hneg : ((upkeep now s).clients j).fd < 0 := hc.freed j (by rw [hc.count]; exact hj) hlt
      have hpos := h.2
      omega

theorem upkeep_acct (now : Int) (s : Server) :
    AcctStep s.acct (.remap fun j => (survivors now s s.cfg.maxClients)[j]?)
      (upkeep now s).acct := by
  have h := upkeep_compacted now s s.cfg.maxClients
  have hsess : (upkeep now s).acct.sess =
      fun j => (survivors now s s.cfg.maxClients)[j]?.bind s.acct.sess := by
    funext j
    cases hj : (survivors now s s.cfg.maxClients)[j]? with
    | none =>
        apply acct_sess_of_not_live
        intro hlive
        obtain ⟨i, hi⟩ := upkeep_live hlive
        rw [hj] at hi
        cases hi
    | some i =>
        obtain ⟨hlive, hlive', -, hmv⟩ := upkeep_moved hj
        obtain ⟨-, hse, -, -⟩ := resyncClient_same s.cfg.msgTimeout (s.clients i) now
        rw [acct_sess_of_live hlive, hmv, hse, Option.bind_some, acct_sess_of_live hlive']
  have hacct : (upkeep now s).acct =
      { s.acct with sess := fun j => (survivors now s s.cfg.maxClients)[j]?.bind s.acct.sess } := by
    rw [← hsess]
    have hudb : (upkeep now s).udb = s.udb := h.udb
    simp only [Server.acct, hudb]
  rw [hacct]
  exact .remap _ _

/-! ## Every step -/

theorem acceptClient_acct (s : Server) (fd : Int) (nonblocking : Bool) (now : Int)
    (hfd : fd = -1 ∨ 0 ≤ fd) :
    AcctStep s.acct (acctEvent s (.accept fd nonblocking now))
      (acceptClient s fd nonblocking now).acct := by
  simp only [acctEvent, acceptClient]
  by_cases h1 : fd = -1
  · rw [if_pos h1, if_pos (.inl h1)]
    exact .idle _
  · rw [if_neg h1]
    by_cases h2 : FD_SETSIZE ≤ fd
    · rw [if_pos h2, if_pos (.inr (.inl h2))]
      exact .idle _
    · rw [if_neg h2]
      cases nonblocking with
      | false =>
          rw [if_pos (.inr (.inr rfl))]
          exact .idle _
      | true =>
        rw [if_neg (by rintro (h | h | h); exact h1 h; exact h2 h; cases h)]
        cases hfind : s.slots.find? fun i => !(0 ≤ (s.clients i).fd : Bool) with
        | none => exact .idle _
        | some i =>
            obtain ⟨hmem, hfree⟩ := Server.free_slot hfind
            simp only
            have hdead : s.acct.sess i = none := acct_sess_of_not_live hfree
            -- To the accounts only the session of the slot is new.
            have hnew : ∀ c : Client, 0 ≤ c.fd → ∀ t : Server, t.cfg = s.cfg → t.udb = s.udb →
                t.clients = Function.update s.clients i c →
                t.acct = s.acct.set i c.session := by
              intro c hc t hcfg hudb hcl
              have hsess : t.acct.sess = Function.update s.acct.sess i (some c.session) := by
                funext j
                by_cases hj : j = i
                · subst hj
                  have hself : t.clients j = c := by rw [hcl, Function.update_self]
                  have hlive : t.Live j := ⟨by rw [hcfg]; exact hmem, by rw [hself]; exact hc⟩
                  rw [acct_sess_of_live hlive, hself, Function.update_self]
                · have hkeep : t.clients j = s.clients j := by
                    rw [hcl, Function.update_of_ne hj]
                  rw [Function.update_of_ne hj]
                  exact acct_sess_congr hcfg (congrArg Client.fd hkeep)
                    (congrArg Client.session hkeep)
              simp only [Accounts.set, ← hsess]
              simp only [Server.acct, hudb]
            let c : Client :=
              { fd := fd, id := 0, name := none, key := none, st := .preLogin, act := now
                rbuf := none, q := [] }
            have hacct := hnew c (hfd.resolve_left h1)
              { s.setClient i c with
                mRfds := Function.update s.mRfds fd true
                maxfd := max s.maxfd fd } rfl rfl rfl
            exact hacct ▸ .connect hdead

end Frelay
