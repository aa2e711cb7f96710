import Frelay.Server.Slots

/-!
# Accounts over whole runs

Every step of the server is the step `acctEvent` names (`srvStep_acct`), so what
the account system keeps, the server keeps:

* `session_owns_account` — in every run that never hands out the id 0, a slot
  that has logged in agrees with the account of its name, and no request changes
  an entry of another id;
* `auth_checks_current_key` — in every run in which no account is changed under
  a session that waits for its AUTH request, authentication means knowing the
  key that is stored at that moment.

Both conditions are needed: `temp_id_wraps` and `stale_key_authenticates` are
runs that break them and the conclusion.
-/

namespace Frelay

open Lib

/-! ## Every step -/

theorem acct_inPlace_same {s t : Server} {i : Nat} {c : Client} (hin : InPlace s i c t)
    (hfd : c.fd = (s.clients i).fd) (hsess : c.session = (s.clients i).session) :
    t.acct = s.acct := by
  refine acct_congr hin.cfg hin.udb fun j => ?_
  by_cases hj : j = i
  · subst hj
    rw [hin.self]
    exact ⟨hfd, hsess⟩
  · rw [hin.other hj]
    exact ⟨rfl, rfl⟩

theorem acct_inPlace_closed {s t : Server} {i : Nat} (hin : InPlace s i closedClient t) :
    AcctStep s.acct (.close i) t.acct := by
  have hsame : t.acct = (closeClient s i).acct := by
    refine acct_congr hin.cfg hin.udb fun j => ?_
    have hcl : t.clients = (closeClient s i).clients := hin.clients
    rw [hcl]
    exact ⟨rfl, rfl⟩
  rw [hsame]
  exact acct_closeClient s i

/-- A message asks the same of two slots in the same session. -/
theorem msgEvent_congr {env : MsgEnv} {c d : Client} {i : Nat} {m : Mbuf}
    (h : c.session = d.session) : msgEvent env c i m = msgEvent env d i m := by
  have hst : c.st = d.st := congrArg Session.st h
  have hid : c.id = d.id := congrArg Session.id h
  have hfill : fillSrcid c m = fillSrcid d m := by rw [fillSrcid, fillSrcid, hst, hid]
  rw [msgEvent, msgEvent, hfill, hst]

/-- **The server refines the account system.** -/
theorem srvStep_acct {s t : Server} {e : SrvEvent} (hok : SlotsOk s) (hen : e.Enabled s)
    (h : srvStep s e = some t) : AcctStep s.acct (acctEvent s e) t.acct := by
  cases e with
  | accept fd nonblocking now =>
      cases h
      exact acceptClient_acct s fd nonblocking now (hen.imp id fun h => h.1)
  | upkeep now =>
      cases h
      exact upkeep_acct now s
  | motd lines =>
      obtain ⟨p, -, rfl⟩ := Option.map_eq_some_iff.mp h
      exact .idle _
  | read i now res env =>
      cases srvStep_cases hok hen h with
      | readClose hl hout hin =>
          simp only [acctEvent, hout]
          exact acct_inPlace_closed hin
      | readAgain hl hin =>
          have hout : readOutcome (slotBuffer s i now) (.failed false) = .again := by
            rw [readOutcome, if_pos ((hok.slot i hl).slotBuffer now).lt]
          simp only [acctEvent, hout]
          rw [acct_inPlace_same hin (opened_same s i now).1 (opened_same s i now).2.1]
          exact .idle _
      | readPending hl hout hmok hrec hin =>
          simp only [acctEvent, hout]
          rw [acct_inPlace_same hin (opened_same s i now).1 (opened_same s i now).2.1]
          exact .idle _
      | @readComplete _ _ bs _ m u _ hl hout hwhole hb hin hmsg =>
          have hu := acct_inPlace_same hin (opened_same s i now).1 (opened_same s i now).2.1
          -- The slot has only been opened for the read.
          have hself : (u.clients i).session = (s.clients i).session := by
            rw [hin.self]
            exact (opened_same s i now).2.1
          have hlive : u.Live i := by
            refine ⟨by rw [hin.cfg]; exact hl.1, ?_⟩
            rw [hin.self, (opened_same s i now).1]
            exact hl.2
          have hacct := processMsg_acct hlive hwhole.hdr hmsg
          simp only [acctEvent, hout]
          rwa [hu, msgEvent_congr hself] at hacct
  | write i now res =>
      cases srvStep_cases hok hen h with
      | writeClose hl hq hout hin =>
          simp only [acctEvent, hq, hout]
          exact acct_inPlace_closed hin
      | @writeAgain _ _ m _ _ hl hq hin =>
          have hlt := ((hok.slot i hl).queued m (hq ▸ List.mem_cons_self)).2
          have hout : writeOutcome m (.failed false) = .again := by
            rw [writeOutcome, if_pos hlt]
          simp only [acctEvent, hq, hout]
          rw [acct_inPlace_same hin rfl rfl]
          exact .idle _
      | @writeSent _ _ n m _ _ hl hq hlt hz hin =>
          have hout : writeOutcome m (.sent n) =
              .sent { m with boff := m.boff + min n m.room } := by
            rw [writeOutcome, if_pos hlt]
            simp only [hz, if_false]
          simp only [acctEvent, hq, hout]
          rw [acct_inPlace_same hin rfl rfl]
          exact .idle _

theorem acctEvent_filesGood {s : Server} {e : SrvEvent} (h : e.Files (· = .good)) :
    (acctEvent s e).FilesGood := by
  have hmsg : ∀ {env : MsgEnv} {c : Client} {i : Nat} {m : Mbuf}, env.db1 = .good →
      env.db2 = .good → (msgEvent env c i m).FilesGood := by
    intro env c i m h1 h2
    unfold msgEvent
    simp only
    split
    · trivial
    · split
      · split
        · split
          · exact ⟨h1, h2⟩
          · trivial
        · trivial
      · trivial
      · split <;> trivial
      · split
        · split
          · exact ⟨h1, h2⟩
          · trivial
        · trivial
      · split
        · exact h1
        · trivial
      · trivial
  cases e with
  | read i now res env =>
      simp only [acctEvent]
      split
      · trivial
      · exact hmsg h.1 h.2
      · trivial
  | accept fd nonblocking now =>
      simp only [acctEvent]
      split
      · trivial
      · split <;> trivial
  | write i now res =>
      simp only [acctEvent]
      split
      · trivial
      · split <;> trivial
  | upkeep now => trivial
  | motd lines => trivial

/-! ## No account takeover -/

/-- The server with a working database file, in the runs in which no event hands
out the id 0. -/
def idGivingLts : Lts Server SrvEvent :=
  (srvLts (· = .good)).guard fun s e => s.acct.GivesId (acctEvent s e)

theorem owned_inductive :
    idGivingLts.Inductive fun s => SlotsOk s ∧ Owned s.acct where
  init := by
    rintro s ⟨cfg, listenfd, e, file, -, he, rfl⟩
    refine ⟨slotsOk_initial cfg listenfd _, ?_⟩
    have hdead : ∀ i, (Server.initial cfg listenfd (udbInit e file)).acct.sess i = none :=
      fun i => acct_sess_of_not_live fun hl =>
        absurd hl.2 (by exact (by decide : ¬ (0 : Int) ≤ -1))
    refine ⟨wellFormed_init e file, loaded_of_load (by rw [he]; rfl),
      udbLoad_ids (by simp) e, ?_, ?_, ?_⟩
    · intro i x hx
      rw [hdead i] at hx
      cases hx
    · intro i x n u hx
      rw [hdead i] at hx
      cases hx
    · intro i j x y n hx
      rw [hdead i] at hx
      cases hx
  step := by
    rintro s e t ⟨hok, hown⟩ ⟨⟨hen, hfiles, hstep⟩, hg⟩
    exact ⟨hok.step hen hstep,
      hown.step (acctEvent_filesGood hfiles) hg (srvStep_acct hok hen hstep)⟩

/-- **No account takeover.** A slot that has logged in has the id of the account
of its name, if there is one; and a step changes no entry but that of the name
and id of the session it is a REGISTER or DROP request of. -/
theorem session_owns_account {s : Server} (hs : idGivingLts.Reachable s) :
    (∀ i n u, s.Live i → (s.clients i).session.LoggedIn → (s.clients i).name = some n →
      (udbLookupname .good s.udb n).2 = some u → u.id = (s.clients i).id) ∧
    ∀ e t, (srvLts (· = .good)).step s e t → ∀ u, (u ∈ t.udb.userdb ↔ u ∈ s.udb.userdb) ∨
      ∃ i, (acctEvent s e).Changes i ∧ s.Live i ∧ (s.clients i).st = .authOk ∧
        (s.clients i).id = u.id ∧ (s.clients i).name = some u.name := by
  obtain ⟨hok, hown⟩ := owned_inductive.invariant s hs
  constructor
  · intro i n u hlive hlog hn hu
    have hload : udbLoad .good s.udb = s.udb := hown.loaded.load .good
    rw [udbLookupname, hload] at hu
    obtain ⟨hmem, hun⟩ := lookupname_mem hu
    exact hown.own i _ n u (acct_sess_of_live hlive) hlog hn hmem hun
  · rintro e t ⟨hen, hfiles, hstep⟩ u
    have hacct := srvStep_acct hok hen hstep
    rcases hown.entries (acctEvent_filesGood hfiles) hacct u with h | ⟨i, x, hc, hx, hst, hid, hn⟩
    · exact .inl h
    · obtain ⟨hlive, rfl⟩ := acct_sess_eq_some hx
      exact .inr ⟨i, hc, hlive, hst, hid.symm, hn⟩

/-- A server with four slots, started with a database file. -/
def demoServer (file : Option Bytes) : Server :=
  .initial { maxClients := 4, msgTimeout := 10, connTimeout := 10 } 3 (udbInit .good file)

theorem demoServer_init (ok : FileEnv → Prop) (hok : ok .good) (file : Option Bytes) :
    (srvLts ok).init (demoServer file) :=
  ⟨_, 3, .good, file, by decide, hok, rfl⟩

/-- One client connects, logs in without a password and registers. -/
def registerRun : List SrvEvent :=
  .accept 4 true 1 :: arrival 0 (requestOctets .loginReq .username (.str (ascii "bob"))) ++
    arrival 0 (requestOctets .registerReq .pubkey (.blob (ascii "k" ++ [0])))

/-- As long as the counter is not 0 no event hands out the id 0. -/
theorem idGivingLts_step {s t : Server} {e : SrvEvent}
    (h : (if s.udb.nextId ≠ 0 then srvTry s e else none) = some t) : idGivingLts.step s e t := by
  split at h
  · rename_i hid
    refine ⟨srvTry_step (· = .good) rfl h, ?_⟩
    simp only
    generalize acctEvent s e = a
    cases a with
    | login i name e₁ e₂ => exact fun _ _ => hid
    | _ => trivial
  · cases h

theorem session_owns_account_registered :
    ∃ s, ((s.clients 0).st = .authOk ∧ (udbLookupname .good s.udb (ascii "bob")).2.isSome) ∧
      (∀ i n u, s.Live i → (s.clients i).session.LoggedIn → (s.clients i).name = some n →
        (udbLookupname .good s.udb n).2 = some u → u.id = (s.clients i).id) ∧
      ∀ e t, (srvLts (· = .good)).step s e t → ∀ u, (u ∈ t.udb.userdb ↔ u ∈ s.udb.userdb) ∨
        ∃ i, (acctEvent s e).Changes i ∧ s.Live i ∧ (s.clients i).st = .authOk ∧
          (s.clients i).id = u.id ∧ (s.clients i).name = some u.name := by
  have hexec : (Lts.exec (fun s e => if s.udb.nextId ≠ 0 then srvTry s e else none)
      (demoServer (some (ascii "0000000000000007|root|plain-text x\n"))) registerRun).any (fun s =>
        (s.clients 0).st == .authOk &&
          (udbLookupname .good s.udb (ascii "bob")).2.isSome) = true := by
    decide +kernel
  obtain ⟨s, hs, hp⟩ := Lts.reachable_of_exec (M := idGivingLts) (fun _ _ _ => idGivingLts_step)
    (demoServer_init (· = .good) rfl _) hexec
  rw [Bool.and_eq_true, beq_iff_eq] at hp
  exact ⟨s, hp, session_owns_account hs⟩

/-- The entry with the largest id makes the counter wrap: the next unregistered
user gets the id 0, and registering gives the account the id 1. -/
theorem temp_id_wraps :
    ∃ s, (srvLts (· = .good)).Reachable s ∧ ∃ u, s.Live 0 ∧ (s.clients 0).session.LoggedIn ∧
      (s.clients 0).name = some (ascii "bob") ∧
      (udbLookupname .good s.udb (ascii "bob")).2 = some u ∧ u.id ≠ (s.clients 0).id := by
  have hexec : (Lts.exec srvTry (demoServer (some (ascii "ffffffffffffffff|root|plain-text x\n")))
      registerRun).any (fun s => decide (s.Live 0) && (s.clients 0).st == .authOk &&
        (s.clients 0).name == some (ascii "bob") &&
        (udbLookupname .good s.udb (ascii "bob")).2.any (·.id != (s.clients 0).id)) = true := by
    decide +kernel
  obtain ⟨s, hs, hp⟩ := Lts.reachable_of_exec (fun _ _ _ => srvTry_step (· = .good) rfl)
    (demoServer_init (· = .good) rfl _) hexec
  simp only [Bool.and_eq_true, decide_eq_true_eq, beq_iff_eq] at hp
  obtain ⟨u, hu, hid⟩ := (Option.any_eq_true _ _).mp hp.2
  exact ⟨s, hs, u, hp.1.1.1, .inr hp.1.1.2, hp.1.2, hu, bne_iff_ne.mp hid⟩

/-! ## Passwords -/

/-- The server, with any accesses to the database file, in the runs in which no
account is changed under a session that waits for its AUTH request. -/
def keyKeepingLts : Lts Server SrvEvent :=
  (srvLts fun _ => True).guard fun s e => s.acct.KeepsKeys (acctEvent s e)

theorem challenged_inductive :
    keyKeepingLts.Inductive fun s => SlotsOk s ∧ Challenged s.acct where
  init := by
    rintro s ⟨cfg, listenfd, e, file, -, -, rfl⟩
    refine ⟨slotsOk_initial cfg listenfd _, wellFormed_init e file, ?_⟩
    intro i x hx
    have hlive := (acct_sess_eq_some hx).1
    exact absurd hlive.2 (by exact (by decide : ¬ (0 : Int) ≤ -1))
  step := by
    rintro s e t ⟨hok, hch⟩ ⟨⟨hen, -, hstep⟩, hg⟩
    exact ⟨hok.step hen hstep, hch.step hg (srvStep_acct hok hen hstep)⟩

/-- **Authentication means knowing the password.** When an AUTH request moves a
slot to `CLT_AUTH_OK`, the database holds an entry with the name and the id of
the slot, and the digest presented is the key of that entry. -/
theorem auth_checks_current_key {s t : Server} {i : Nat} {now : Int} {res : ReadRes}
    {env : MsgEnv} {m : Mbuf} (hs : keyKeepingLts.Reachable s)
    (hstep : (srvLts fun _ => True).step s (.read i now res env) t)
    (hm : readOutcome (slotBuffer s i now) res = .complete m)
    (hauth : hdrGetType m = MsgType.authReq.code) (hbefore : (s.clients i).st ≠ .authOk)
    (hafter : (t.clients i).st = .authOk) :
    ∃ u ∈ t.udb.userdb, (t.clients i).name = some u.name ∧ (t.clients i).id = u.id ∧
      nextStr env (mbufResetgetattrib (fillSrcid (s.clients i) m)) .digest = some u.key := by
  obtain ⟨hok, hch⟩ := challenged_inductive.invariant s hs
  obtain ⟨hlive, -, hstep⟩ := hstep
  have hacct := srvStep_acct hok hlive hstep
  simp only [acctEvent, hm] at hacct
  have hwhole := whole_of_complete ((hok.slot i hlive).slotBuffer now) hm
  -- The event of the message is an AUTH request, or nothing.
  have hev : msgEvent env (s.clients i) i m = .idle ∨ msgEvent env (s.clients i) i m =
      .auth i (nextStr env (mbufResetgetattrib (fillSrcid (s.clients i) m)) .digest) := by
    have htype : hdrGetType (mbufResetgetattrib (fillSrcid (s.clients i) m)) =
        MsgType.authReq.code := by
      exact (hdrGetType_fillSrcid hwhole.hdr).trans hauth
    unfold msgEvent
    simp only [htype, MsgType.ofCode?_code]
    split
    · exact .inl rfl
    · exact .inr rfl
  generalize hb : t.acct = b at hacct
  rcases hev with hev | hev
  · rw [hev] at hacct
    cases hacct
    -- Nothing has happened to the session, so it is not authenticated.
    have hsess : t.acct.sess i = some (s.clients i).session := by
      rw [hb, acct_sess_of_live hlive]
    have hst := congrArg Session.st (acct_sess_eq_some hsess).2
    exact absurd (hst.symm.trans hafter) hbefore
  · rw [hev] at hacct
    generalize nextStr env (mbufResetgetattrib (fillSrcid (s.clients i) m)) .digest = digest
      at hacct ⊢
    cases hacct with
    | @authFailed _ x _ hi hbad =>
        have hsess : t.acct.sess i = some { x with st := .preLogin } := by
          rw [hb, Accounts.set]
          exact Function.update_self ..
        have hst := congrArg Session.st (acct_sess_eq_some hsess).2
        rw [show (t.clients i).session.st = .authOk from hafter] at hst
        cases hst
    | @authOk _ x key hi hst hkey =>
        have hsess : t.acct.sess i = some { x with st := .authOk } := by
          rw [hb, Accounts.set]
          exact Function.update_self ..
        have hudb : t.udb = s.udb := congrArg Accounts.udb hb
        have hself := (acct_sess_eq_some hsess).2
        obtain ⟨n, k, hn, hk, hmem⟩ := hch.entry i x hi hst
        refine ⟨⟨x.id, n, k⟩, by rw [hudb]; exact hmem, ?_, ?_, ?_⟩
        · exact (congrArg Session.name hself).trans hn
        · exact congrArg Session.id hself
        · rw [← hkey, hk]

/-- Events that change no account and challenge only for supported keys. -/
def leavesKeys (d : Udb) : AcctEvent → Bool
  | .login _ name e₁ _ => (udbLookupname e₁ d name).2.all fun u => AUTH_KEY_PLAINTEXT.isPrefixOf u.key
  | .register .. => false
  | .drop .. => false
  | _ => true

theorem keyKeepingLts_step {s t : Server} {e : SrvEvent}
    (h : (if leavesKeys s.udb (acctEvent s e) then srvTry s e else none) = some t) :
    keyKeepingLts.step s e t := by
  split at h
  · rename_i hkeys
    refine ⟨srvTry_step _ trivial h, ?_⟩
    simp only
    generalize acctEvent s e = a at hkeys
    cases a with
    | login i name e₁ e₂ =>
        intro u hu
        have hall : ((udbLookupname e₁ s.udb name).2.all fun u =>
          AUTH_KEY_PLAINTEXT.isPrefixOf u.key) = true := hkeys
        rw [show (udbLookupname e₁ s.udb name).2 = some u from hu] at hall
        exact hall
    | register => cases hkeys
    | drop => cases hkeys
    | _ => trivial
  · cases h

/-- The AUTH request of a user with the password `pw`. -/
def authOctets : Bytes := requestOctets .authReq .digest (.blob (ascii "plain-text pw" ++ [0]))

/-- The reads in which that request arrives. -/
def authHead (i : Nat) : SrvEvent :=
  .read i 1 (.got (authOctets.take MSG_HDR_SIZE)) ⟨[], 0, .good, .good⟩

def authTail (i : Nat) : SrvEvent :=
  .read i 1 (.got (authOctets.drop MSG_HDR_SIZE)) ⟨[], 0, .good, .good⟩

/-- The second of them completes the request, and the answer authenticates the
slot. -/
def authenticates (i : Nat) (s : Server) : Bool :=
  readOutcome (slotBuffer s i 1) (.got (authOctets.drop MSG_HDR_SIZE)) ==
      .complete ⟨authOctets, authOctets.length⟩ &&
    (s.clients i).st == .loginOk &&
    (srvTry s (authTail i)).any fun t => (t.clients i).st == .authOk

theorem auth_checks_current_key_bob :
    ∃ s t m, (srvLts fun _ => True).step s (authTail 0) t ∧
      readOutcome (slotBuffer s 0 1) (.got (authOctets.drop MSG_HDR_SIZE)) = .complete m ∧
      (t.clients 0).st = .authOk ∧
      ∃ u ∈ t.udb.userdb, (t.clients 0).name = some u.name ∧ (t.clients 0).id = u.id ∧
        nextStr ⟨[], 0, .good, .good⟩ (mbufResetgetattrib (fillSrcid (s.clients 0) m)) .digest =
          some u.key := by
  have hexec : (Lts.exec (fun s e => if leavesKeys s.udb (acctEvent s e) then srvTry s e else none)
      (demoServer (some (ascii "0000000000000007|bob|plain-text pw\n")))
      (.accept 4 true 1 :: arrival 0 (requestOctets .loginReq .username (.str (ascii "bob"))) ++
        [authHead 0])).any (authenticates 0) = true := by
    decide +kernel
  obtain ⟨s, hs, hp⟩ := Lts.reachable_of_exec (M := keyKeepingLts)
    (fun _ _ _ => keyKeepingLts_step) (demoServer_init (fun _ => True) trivial _) hexec
  simp only [authenticates, Bool.and_eq_true, beq_iff_eq, Option.any_eq_true] at hp
  obtain ⟨⟨hm, hst⟩, t, ht, hafter⟩ := hp
  have hstep := srvTry_step (fun _ => True) trivial ht
  exact ⟨s, t, _, hstep, hm, hafter, auth_checks_current_key hs hstep hm (by decide +kernel)
    (by rw [hst]; decide) hafter⟩

/-- A second session asks for a challenge, the first one changes the password,
and the second one authenticates with the old password. -/
theorem stale_key_authenticates :
    ∃ s t m, (srvLts fun _ => True).Reachable s ∧ (srvLts fun _ => True).step s (authTail 1) t ∧
      readOutcome (slotBuffer s 1 1) (.got (authOctets.drop MSG_HDR_SIZE)) = .complete m ∧
      hdrGetType m = MsgType.authReq.code ∧ (s.clients 1).st ≠ .authOk ∧
      (t.clients 1).st = .authOk ∧
      ¬ ∃ u ∈ t.udb.userdb, (t.clients 1).name = some u.name ∧ (t.clients 1).id = u.id ∧
        nextStr ⟨[], 0, .good, .good⟩ (mbufResetgetattrib (fillSrcid (s.clients 1) m)) .digest =
          some u.key := by
  have hexec : (Lts.exec srvTry (demoServer (some (ascii "0000000000000007|bob|plain-text pw\n")))
      (.accept 4 true 1 :: arrival 0 (requestOctets .loginReq .username (.str (ascii "bob"))) ++
        arrival 0 authOctets ++
        .accept 5 true 1 :: arrival 1 (requestOctets .loginReq .username (.str (ascii "bob"))) ++
        arrival 0 (requestOctets .registerReq .pubkey (.blob (ascii "new" ++ [0]))) ++
        [authHead 1])).any (fun s => authenticates 1 s &&
          (nextStr ⟨[], 0, .good, .good⟩ (mbufResetgetattrib
            (fillSrcid (s.clients 1) ⟨authOctets, authOctets.length⟩)) .digest ==
              some (ascii "plain-text pw")) &&
          (srvTry s (authTail 1)).all fun t =>
            t.udb.userdb.all fun u => u.key != ascii "plain-text pw") = true := by
    decide +kernel
  obtain ⟨s, hs, hp⟩ := Lts.reachable_of_exec (fun _ _ _ => srvTry_step (fun _ => True) trivial)
    (demoServer_init (fun _ => True) trivial _) hexec
  simp only [authenticates, Bool.and_eq_true, beq_iff_eq, Option.any_eq_true] at hp
  obtain ⟨⟨⟨⟨hm, hst⟩, t, ht, hafter⟩, hdig⟩, hall⟩ := hp
  refine ⟨s, t, _, hs, srvTry_step _ trivial ht, hm, by decide +kernel, by rw [hst]; decide, hafter, ?_⟩
  rintro ⟨u, hu, -, -, hkey⟩
  rw [hdig, Option.some.injEq] at hkey
  rw [ht, Option.all_some, List.all_eq_true] at hall
  exact absurd hkey.symm (bne_iff_ne.mp (hall u hu))

end Frelay
