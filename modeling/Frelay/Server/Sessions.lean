import Frelay.Server.Ids

/-!
# What the slots of the clients hold

A session changes in five ways only (`SessFrom`), so what is true of every
session is decided by these:

* `named_inductive` — a session past the LOGIN request has a name, in every run;
* `login_names_unique` — names of authenticated clients differ by more than case,
  in every run in which no AUTH request succeeds beside another user of the name;
* `slot_fields` — id, name and key fit the login state, in every run in which no
  AUTH request fails after a LOGIN request, no account has a key of an unknown
  method, and the id counter does not reach 0.

What the conditions exclude does happen (`login_names_collide`,
`slot_fields_left`): the registered path does not look for other users of the
name, and a failed AUTH request leaves id, name and key behind.
-/

namespace Frelay

open Lib

/-! ## Where a session comes from -/

/-- The session of slot `i` after an event: one from before the event, a fresh
one, or what LOGIN and AUTH make of the session of the slot. -/
inductive SessFrom (a : Accounts) : AcctEvent → Nat → Session → Prop
  | kept {e : AcctEvent} {i k : Nat} {x : Session} : a.sess k = some x → SessFrom a e i x
  | fresh {e : AcctEvent} {i : Nat} : SessFrom a e i .fresh
  | temp {i : Nat} {x : Session} {name : Bytes} {e₁ e₂ : FileEnv} :
      a.sess i = some x → x.st = .preLogin → (udbLookupname e₁ a.udb name).2 = none →
      ¬ a.NameUsed name → SessFrom a (.login i name e₁ e₂) i
        { st := .authOk, id := (udbGettempid e₂ (udbLookupname e₁ a.udb name).1).2
          name := some name, key := none }
  | challenged {i : Nat} {x : Session} {name : Bytes} {e₁ e₂ : FileEnv} {u : User} :
      a.sess i = some x → x.st = .preLogin → (udbLookupname e₁ a.udb name).2 = some u →
      SessFrom a (.login i name e₁ e₂) i (x.challenge u)
  | rejected {i : Nat} {x : Session} {digest : Option Bytes} : a.sess i = some x →
      (x.st = .loginOk → ∀ key, digest = some key → x.key ≠ some key) →
      SessFrom a (.auth i digest) i { x with st := .preLogin }
  | accepted {i : Nat} {x : Session} {key : Bytes} : a.sess i = some x → x.st = .loginOk →
      x.key = some key → SessFrom a (.auth i (some key)) i { x with st := .authOk }

/-- Every session after a step is one of these. -/
theorem AcctStep.sessFrom {a b : Accounts} {e : AcctEvent} (hstep : AcctStep a e b) {i : Nat}
    {y : Session} (hy : b.sess i = some y) : SessFrom a e i y := by
  cases hstep with
  | idle => exact .kept hy
  | connect hi =>
      rcases Accounts.set_sess hy with ⟨-, rfl⟩ | ⟨-, hy⟩
      · exact .fresh
      · exact .kept hy
  | remap f =>
      obtain ⟨k, -, hk⟩ := Option.bind_eq_some_iff.mp hy
      exact .kept hk
  | loginTaken hi hst hnone hused => exact .kept hy
  | loginTemp hi hst hnone hfree =>
      rcases Accounts.set_sess hy with ⟨rfl, rfl⟩ | ⟨-, hy⟩
      · exact .temp hi hst hnone hfree
      · exact .kept hy
  | loginUser hi hst hu =>
      rcases Accounts.set_sess hy with ⟨rfl, rfl⟩ | ⟨-, hy⟩
      · exact .challenged hi hst hu
      · exact .kept hy
  | authFailed hi hbad =>
      rcases Accounts.set_sess hy with ⟨rfl, rfl⟩ | ⟨-, hy⟩
      · exact .rejected hi hbad
      · exact .kept hy
  | authOk hi hst hkey =>
      rcases Accounts.set_sess hy with ⟨rfl, rfl⟩ | ⟨-, hy⟩
      · exact .accepted hi hst hkey
      · exact .kept (Option.filter_eq_some_iff.mp hy).1
  | logout hi hst =>
      rcases Accounts.set_sess hy with ⟨-, rfl⟩ | ⟨-, hy⟩
      · exact .fresh
      · exact .kept hy
  | register hi hst hn => exact .kept hy
  | drop hi hst hn => exact .kept hy

/-- No connection is open when the server starts. -/
theorem initial_sess (cfg : SrvCfg) (listenfd : Int) (d : Udb) (i : Nat) :
    (Server.initial cfg listenfd d).acct.sess i = none :=
  acct_sess_of_not_live fun hl => absurd hl.2 (by exact (by decide : ¬ (0 : Int) ≤ -1))

/-! ## Names -/

/-- A session past the LOGIN request has a name. -/
def Session.Named (x : Session) : Prop := x.LoggedIn → ∃ n, x.name = some n

theorem SessFrom.named {a : Accounts} {e : AcctEvent} {i : Nat} {y : Session}
    (h : SessFrom a e i y) (hnamed : ∀ j x, a.sess j = some x → x.Named) : y.Named := by
  intro hlog
  cases h with
  | kept hx => exact hnamed _ _ hx hlog
  | fresh => rcases hlog with hlog | hlog <;> cases hlog
  | temp hi hst hnone hfree => exact ⟨_, rfl⟩
  | challenged hi hst hu => exact ⟨_, rfl⟩
  | rejected hi hbad => rcases hlog with hlog | hlog <;> cases hlog
  | accepted hi hst hkey =>
      obtain ⟨n, hn⟩ := hnamed _ _ hi (.inl hst)
      exact ⟨n, hn⟩

theorem named_inductive : (srvLts fun _ => True).Inductive fun s =>
    SlotsOk s ∧ ∀ i x, s.acct.sess i = some x → x.Named where
  init := by
    rintro s ⟨cfg, listenfd, e, file, -, -, rfl⟩
    refine ⟨slotsOk_initial cfg listenfd _, ?_⟩
    intro i x hx
    rw [initial_sess] at hx
    cases hx
  step := by
    rintro s e t ⟨hok, hnamed⟩ ⟨hen, -, hstep⟩
    exact ⟨hok.step hen hstep,
      fun i x hx => ((srvStep_acct hok hen hstep).sessFrom hx).named hnamed⟩

/-- An authenticated client has a name, whatever happened before. -/
theorem name_of_authOk {s : Server} (hs : (srvLts fun _ => True).Reachable s) {i : Nat}
    (hlive : s.Live i) (hst : (s.clients i).st = .authOk) : ∃ n, (s.clients i).name = some n :=
  (named_inductive.invariant s hs).2 i _ (acct_sess_of_live hlive) (.inr hst)

/-! ## One client for a name -/

/-- Names of authenticated sessions differ by more than case. -/
def NamesApart (a : Accounts) : Prop :=
  ∀ i j x y n m, a.sess i = some x → a.sess j = some y → x.st = .authOk → y.st = .authOk →
    x.name = some n → y.name = some m → stricmp n m = 0 → i = j

/-- The event lets nobody in beside another user of the name: when an AUTH
request succeeds, the authenticated sessions with the name, up to case, are
those of the same id, which are closed. -/
def Accounts.NameFree (a : Accounts) : AcctEvent → Prop
  | .auth i (some key) => ∀ x n, a.sess i = some x → x.st = .loginOk → x.key = some key →
      x.name = some n → ∀ j y m, a.sess j = some y → y.st = .authOk → y.name = some m →
      stricmp n m = 0 → y.id = x.id
  | _ => True

/-- A session may be replaced by one whose name no other authenticated session has. -/
theorem NamesApart.set {a : Accounts} (h : NamesApart a) {i : Nat} {x : Session}
    (hx : x.st = .authOk → ∀ n, x.name = some n → ∀ j y m, j ≠ i → a.sess j = some y →
      y.st = .authOk → y.name = some m → stricmp n m ≠ 0) : NamesApart (a.set i x) := by
  intro j k y z n m hy hz hsty hstz hyn hzm hcmp
  rcases Accounts.set_sess hy with ⟨rfl, rfl⟩ | ⟨hj, hy'⟩
  · rcases Accounts.set_sess hz with ⟨rfl, -⟩ | ⟨hk, hz'⟩
    · rfl
    · exact absurd hcmp (hx hsty n hyn k z m hk hz' hstz hzm)
  · rcases Accounts.set_sess hz with ⟨rfl, rfl⟩ | ⟨hk, hz'⟩
    · exact absurd (stricmp_comm.mp hcmp) (hx hstz m hzm j y n hj hy' hsty hyn)
    · exact h j k y z n m hy' hz' hsty hstz hyn hzm hcmp

theorem NamesApart.setUdb {a : Accounts} (h : NamesApart a) (d : Udb) :
    NamesApart { a with udb := d } := h

/-- **Names stay apart** across every step that lets nobody in beside another
user of the name. -/
theorem NamesApart.step {a b : Accounts} {e : AcctEvent} (h : NamesApart a) (hf : a.NameFree e)
    (hm : e.MovesApart) (hstep : AcctStep a e b) : NamesApart b := by
  cases hstep with
  | idle => exact h
  | connect hi => exact h.set fun hst => by cases hst
  | remap f =>
      intro i j x y n m hx hy hstx hsty hn hm' hcmp
      obtain ⟨k, hfk, hk⟩ := Option.bind_eq_some_iff.mp hx
      obtain ⟨k', hfk', hk'⟩ := Option.bind_eq_some_iff.mp hy
      have hkk := h k k' x y n m hk hk' hstx hsty hn hm' hcmp
      exact hm i j k hfk (hkk ▸ hfk')
  | loginTaken hi hst hnone hused => exact h
  | loginTemp hi hst hnone hfree =>
      refine (h.setUdb _).set ?_
      -- The check of this path ignores case and looks at every connection.
      intro _ n hn j y m _ hy _ hym hcmp
      cases hn
      exact hfree ⟨j, y, m, hy, hym, stricmp_comm.mp hcmp⟩
  | loginUser hi hst hu =>
      exact (h.setUdb _).set fun hst => by cases hst
  | authFailed hi hbad => exact h.set fun hst => by cases hst
  | @authOk i x key hi hst hkey =>
      have hbase : NamesApart { a with sess := fun j => (a.sess j).filter fun y => y.id ≠ x.id } :=
        fun j k y z n m hy hz => h j k y z n m (Option.filter_eq_some_iff.mp hy).1
          (Option.filter_eq_some_iff.mp hz).1
      refine hbase.set ?_
      intro _ n hn j y m _ hy hsty hym hcmp
      obtain ⟨hy, hid⟩ := Option.filter_eq_some_iff.mp hy
      exact of_decide_eq_true hid (hf x n hi hst hkey hn j y m hy hsty hym hcmp)
  | logout hi hst => exact h.set fun hst => by cases hst
  | register hi hst hn => exact h
  | drop hi hst hn => exact h

/-- The server, with any accesses to the database file, in the runs in which
nobody is let in beside another user of the name. -/
def nameFreeLts : Lts Server SrvEvent :=
  (srvLts fun _ => True).guard fun s e => s.acct.NameFree (acctEvent s e)

theorem namesApart_inductive : nameFreeLts.Inductive fun s => SlotsOk s ∧ NamesApart s.acct where
  init := by
    rintro s ⟨cfg, listenfd, e, file, -, -, rfl⟩
    refine ⟨slotsOk_initial cfg listenfd _, ?_⟩
    intro i j x y n m hx
    rw [initial_sess] at hx
    cases hx
  step := by
    rintro s e t ⟨hok, hnames⟩ ⟨⟨hen, -, hstep⟩, hf⟩
    exact ⟨hok.step hen hstep,
      hnames.step hf (acctEvent_movesApart s e) (srvStep_acct hok hen hstep)⟩

/-- **Login names are unique up to case** in these runs. -/
theorem login_names_unique {s : Server} (hs : nameFreeLts.Reachable s) {i j : Nat} {n m : Bytes}
    (hi : s.Live i) (hj : s.Live j) (hsti : (s.clients i).st = .authOk)
    (hstj : (s.clients j).st = .authOk) (hn : (s.clients i).name = some n)
    (hm : (s.clients j).name = some m) (hcmp : stricmp n m = 0) : i = j :=
  (namesApart_inductive.invariant s hs).2 i j _ _ n m (acct_sess_of_live hi)
    (acct_sess_of_live hj) hsti hstj hn hm hcmp

/-- Another slot has the name of slot `i`, up to case. -/
def nameClashes (s : Server) (i : Nat) : Bool :=
  s.slots.any fun j => j != i &&
    match (s.clients i).name, (s.clients j).name with
    | some n, some m => stricmp n m == 0
    | _, _ => false

/-- The steps of the server, AUTH requests only where the name is free. -/
def nameFreeTry (s : Server) (e : SrvEvent) : Option Server :=
  match acctEvent s e with
  | .auth i _ => if nameClashes s i then none else srvTry s e
  | _ => srvTry s e

theorem nameFreeTry_step {s t : Server} {e : SrvEvent} (h : nameFreeTry s e = some t) :
    nameFreeLts.step s e t := by
  unfold nameFreeTry at h
  split at h
  · rename_i i digest hev
    split at h
    · cases h
    · rename_i hclash
      refine ⟨srvTry_step _ trivial h, ?_⟩
      simp only [hev]
      cases digest with
      | none => trivial
      | some key =>
          intro x n hx hst hkey hn j y m hy hsty hm hcmp
          obtain ⟨-, rfl⟩ := acct_sess_eq_some hx
          obtain ⟨hj, rfl⟩ := acct_sess_eq_some hy
          by_contra hid
          have hji : j ≠ i := fun hji => hid (hji ▸ rfl)
          have hni : (s.clients i).name = some n := hn
          have hmj : (s.clients j).name = some m := hm
          refine hclash (List.any_eq_true.mpr ⟨j, Server.mem_slots.mpr hj.1, ?_⟩)
          rw [hni, hmj]
          simp [hji, hcmp]
  · rename_i hev
    refine ⟨srvTry_step _ trivial h, ?_⟩
    simp only
    generalize acctEvent s e = a at hev ⊢
    cases a with
    | auth i digest => exact absurd rfl (hev i digest)
    | _ => trivial

/-- An unregistered client logs in, and a registered one gives its password. -/
def mixedRun (name : Bytes) : List SrvEvent :=
  .accept 4 true 1 :: arrival 0 (requestOctets .loginReq .username (.str name)) ++
    .accept 5 true 1 :: arrival 1 (requestOctets .loginReq .username (.str (ascii "bob"))) ++
    arrival 1 authOctets

/-- The database with one account, of "bob". -/
def bobFile : Bytes := ascii "0000000000000007|bob|plain-text pw\n"

theorem login_names_unique_two :
    ∃ (s : Server) (n m : Bytes), ((s.Live 0 ∧ (s.clients 0).st = .authOk ∧ (s.clients 0).name = some n) ∧
        s.Live 1 ∧ (s.clients 1).st = .authOk ∧ (s.clients 1).name = some m) ∧
      (stricmp n m = 0 → 0 = 1) := by
  have hexec : (Lts.exec nameFreeTry (demoServer (some bobFile)) (mixedRun (ascii "tom"))).any
      (fun s => (decide (s.Live 0) && (s.clients 0).st == .authOk &&
          (s.clients 0).name == some (ascii "tom")) &&
        (decide (s.Live 1) && (s.clients 1).st == .authOk &&
          (s.clients 1).name == some (ascii "bob"))) = true := by
    decide +kernel
  obtain ⟨s, hs, hp⟩ := Lts.reachable_of_exec (M := nameFreeLts) (fun _ _ _ => nameFreeTry_step)
    (demoServer_init (fun _ => True) trivial _) hexec
  simp only [Bool.and_eq_true, decide_eq_true_eq, beq_iff_eq, and_assoc] at hp
  obtain ⟨h0, hst0, hn0, h1, hst1, hn1⟩ := hp
  exact ⟨s, _, _, ⟨⟨h0, hst0, hn0⟩, h1, hst1, hn1⟩,
    login_names_unique hs h0 h1 hst0 hst1 hn0 hn1⟩

/-- The registered path does not look for the name: "Bob" is logged in without an
account when "bob" gives the password. -/
theorem login_names_collide :
    ∃ s n m, (srvLts fun _ => True).Reachable s ∧
      (s.Live 0 ∧ (s.clients 0).st = .authOk ∧ (s.clients 0).name = some n) ∧
      (s.Live 1 ∧ (s.clients 1).st = .authOk ∧ (s.clients 1).name = some m) ∧
      stricmp n m = 0 := by
  have hexec : (Lts.exec srvTry (demoServer (some bobFile)) (mixedRun (ascii "Bob"))).any
      (fun s => (decide (s.Live 0) && (s.clients 0).st == .authOk &&
          (s.clients 0).name == some (ascii "Bob")) &&
        (decide (s.Live 1) && (s.clients 1).st == .authOk &&
          (s.clients 1).name == some (ascii "bob"))) = true := by
    decide +kernel
  obtain ⟨s, hs, hp⟩ := Lts.reachable_of_exec (fun _ _ _ => srvTry_step (fun _ => True) trivial)
    (demoServer_init (fun _ => True) trivial _) hexec
  simp only [Bool.and_eq_true, decide_eq_true_eq, beq_iff_eq, and_assoc] at hp
  obtain ⟨h0, hst0, hn0, h1, hst1, hn1⟩ := hp
  exact ⟨s, _, _, hs, ⟨h0, hst0, hn0⟩, ⟨h1, hst1, hn1⟩, by decide⟩

/-! ## Id, name and key -/

/-- Id, name and key fit the login state. -/
structure Session.Ok (x : Session) : Prop where
  preLogin : x.st = .preLogin → x.id = 0 ∧ x.name = none ∧ x.key = none
  loginOk : x.st = .loginOk → x.id ≠ 0 ∧ (∃ n, x.name = some n) ∧ ∃ k, x.key = some k
  authOk : x.st = .authOk → x.id ≠ 0 ∧ ∃ n, x.name = some n
  valid : x.st ≠ .invalid

/-- The event leaves no field behind: an AUTH request after a LOGIN request
presents the key, a LOGIN request meets no key of an unknown method, and an
unregistered user logs in only while the counter is not 0. -/
def Accounts.KeepsFields (a : Accounts) : AcctEvent → Prop
  | .auth i digest => ∀ x, a.sess i = some x → x.st ≠ .preLogin →
      x.st = .loginOk ∧ ∃ key, digest = some key ∧ x.key = some key
  | .login _ name e₁ e₂ =>
      (∀ u, (udbLookupname e₁ a.udb name).2 = some u →
        AUTH_KEY_PLAINTEXT.isPrefixOf u.key = true) ∧
      ((udbLookupname e₁ a.udb name).2 = none → ¬ a.NameUsed name →
        (udbLoad e₂ (udbLoad e₁ a.udb)).nextId ≠ 0)
  | _ => True

/-- Every session is in order, and no account has the id 0. -/
structure FieldsOk (a : Accounts) : Prop where
  sess : ∀ i x, a.sess i = some x → x.Ok
  ids : ∀ u ∈ a.udb.userdb, u.id ≠ 0

theorem Session.ok_of_preLogin {x : Session} (hst : x.st = .preLogin)
    (h : x.id = 0 ∧ x.name = none ∧ x.key = none) : x.Ok where
  preLogin _ := h
  loginOk hlog := by rw [hst] at hlog; cases hlog
  authOk hlog := by rw [hst] at hlog; cases hlog
  valid hinv := by rw [hst] at hinv; cases hinv

/-- A session that has just become logged in. -/
theorem Session.ok_of_loggedIn {x : Session} {n : Bytes} (hlog : x.LoggedIn) (hid : x.id ≠ 0)
    (hn : x.name = some n) (hkey : x.st = .loginOk → ∃ k, x.key = some k) : x.Ok where
  preLogin hst := by
    rcases hlog with hlog | hlog <;> rw [hst] at hlog <;> cases hlog
  loginOk hst := ⟨hid, ⟨n, hn⟩, hkey hst⟩
  authOk _ := ⟨hid, n, hn⟩
  valid hst := by
    rcases hlog with hlog | hlog <;> rw [hst] at hlog <;> cases hlog

theorem SessFrom.ok {a : Accounts} {e : AcctEvent} {i : Nat} {y : Session}
    (h : SessFrom a e i y) (hok : FieldsOk a) (hk : a.KeepsFields e) : y.Ok := by
  cases h with
  | kept hx => exact hok.sess _ _ hx
  | fresh => exact Session.ok_of_preLogin rfl ⟨rfl, rfl, rfl⟩
  | temp hi hst hnone hfree =>
      exact Session.ok_of_loggedIn (.inr rfl) (hk.2 hnone hfree) rfl fun hst => by cases hst
  | @challenged i x name e₁ e₂ u hi hst hu =>
      have hid := udbLoad_ids hok.ids e₁ u (lookupname_mem hu).1
      refine Session.ok_of_loggedIn (.inl rfl) hid rfl fun _ => ⟨u.key, ?_⟩
      simp only [Session.challenge, hk.1 u hu, if_true]
  | @rejected i x digest hi hbad =>
      -- The only request that may fail is one before LOGIN, which changes nothing.
      by_cases hst : x.st = .preLogin
      · exact Session.ok_of_preLogin rfl ((hok.sess i x hi).preLogin hst)
      · obtain ⟨hlog, key, hdig, hkey⟩ := hk x hi hst
        exact absurd hkey (hbad hlog key hdig)
  | @accepted i x key hi hst hkey =>
      obtain ⟨hid, ⟨n, hn⟩, -⟩ := (hok.sess i x hi).loginOk hst
      exact Session.ok_of_loggedIn (.inr rfl) hid hn fun hst => by cases hst

/-- No entry gets the id 0. -/
theorem AcctStep.udb_ids {a b : Accounts} {e : AcctEvent} (hstep : AcctStep a e b)
    (h : FieldsOk a) : ∀ u ∈ b.udb.userdb, u.id ≠ 0 := by
  have hdrop : ∀ (e₁ : FileEnv) (n : Bytes), ∀ u ∈ (udbDropentry e₁ a.udb n).1.userdb, u.id ≠ 0 :=
    fun e₁ n u hu => udbLoad_ids h.ids e₁ u ((udbDropentry_sublist e₁ a.udb n).subset hu)
  cases hstep with
  | idle => exact h.ids
  | connect hi => exact h.ids
  | remap f => exact h.ids
  | loginTaken hi hst hnone hused => exact udbLoad_ids h.ids _
  | loginTemp hi hst hnone hfree => exact udbLoad_ids (udbLoad_ids h.ids _) _
  | loginUser hi hst hu => exact udbLoad_ids h.ids _
  | authFailed hi hbad => exact h.ids
  | authOk hi hst hkey => exact h.ids
  | logout hi hst => exact h.ids
  | @register i x n pubkey e₁ e₂ hi hst hn =>
      have hid := ((h.sess i x hi).authOk hst).1
      have hload := udbLoad_ids (hdrop e₁ n) e₂
      intro u hu
      rcases udbAddentry_cases e₂ (udbDropentry e₁ a.udb n).1 x.id n
        (AUTH_KEY_PLAINTEXT ++ pubkey) with heq | ⟨p, hpid, -, -, -, -, hlist, -⟩
      · simp only [heq, udbSave_userdb] at hu
        exact hload u hu
      · simp only [hlist] at hu
        rcases List.mem_cons.mp hu with rfl | hu
        · rw [hpid, if_pos hid]
          exact hid
        · exact hload u hu
  | @drop i x n e₁ hi hst hn => exact hdrop e₁ n

/-- **Fields stay in order** across every step that leaves none behind. -/
theorem FieldsOk.step {a b : Accounts} {e : AcctEvent} (h : FieldsOk a) (hk : a.KeepsFields e)
    (hstep : AcctStep a e b) : FieldsOk b :=
  ⟨fun _ _ hy => (hstep.sessFrom hy).ok h hk, hstep.udb_ids h⟩

/-- The server, with any accesses to the database file, in the runs in which no
field is left behind. -/
def fieldsLts : Lts Server SrvEvent :=
  (srvLts fun _ => True).guard fun s e => s.acct.KeepsFields (acctEvent s e)

theorem fieldsOk_inductive : fieldsLts.Inductive fun s => SlotsOk s ∧ FieldsOk s.acct where
  init := by
    rintro s ⟨cfg, listenfd, e, file, -, -, rfl⟩
    refine ⟨slotsOk_initial cfg listenfd _, ?_, udbLoad_ids (by simp) e⟩
    intro i x hx
    rw [initial_sess] at hx
    cases hx
  step := by
    rintro s e t ⟨hok, hf⟩ ⟨⟨hen, -, hstep⟩, hk⟩
    exact ⟨hok.step hen hstep, hf.step hk (srvStep_acct hok hen hstep)⟩

/-- **Every slot is in order** in these runs. So an AUTH request always finds a
key to compare with, and only slots that have logged in block a name. -/
theorem slot_fields {s : Server} (hs : fieldsLts.Reachable s) :
    (∀ i, s.Live i → (s.clients i).session.Ok) ∧
    (∀ i, s.Live i → (s.clients i).st = .loginOk → (s.clients i).key ≠ none) ∧
    ∀ name, nameInUse s name = true → ∃ i n, s.Live i ∧ (s.clients i).session.LoggedIn ∧
      (s.clients i).name = some n ∧ stricmp n name = 0 := by
  obtain ⟨-, hf⟩ := fieldsOk_inductive.invariant s hs
  have hok : ∀ i, s.Live i → (s.clients i).session.Ok :=
    fun i hi => hf.sess i _ (acct_sess_of_live hi)
  refine ⟨hok, ?_, ?_⟩
  · intro i hi hst hnone
    obtain ⟨-, -, k, hk⟩ := (hok i hi).loginOk hst
    cases hk.symm.trans hnone
  · intro name hused
    obtain ⟨i, x, n, hx, hn, hcmp⟩ := nameInUse_iff.mp hused
    obtain ⟨hi, rfl⟩ := acct_sess_eq_some hx
    refine ⟨i, n, hi, ?_, hn, hcmp⟩
    cases hst : (s.clients i).st with
    | invalid => exact absurd hst (hok i hi).valid
    | preLogin =>
        obtain ⟨-, hnone, -⟩ := (hok i hi).preLogin hst
        cases hnone.symm.trans hn
    | loginOk => exact .inl hst
    | authOk => exact .inr hst

/-- `Accounts.KeepsFields`, with the counter not 0 at any LOGIN request, as a test. -/
def keepsFields (s : Server) : AcctEvent → Bool
  | .auth i digest => (s.clients i).st == .preLogin ||
      ((s.clients i).st == .loginOk && digest.isSome && (s.clients i).key == digest)
  | .login _ name e₁ e₂ =>
      ((udbLookupname e₁ s.udb name).2.all fun u => AUTH_KEY_PLAINTEXT.isPrefixOf u.key) &&
        (udbLoad e₂ (udbLoad e₁ s.udb)).nextId != 0
  | _ => true

theorem fieldsLts_step {s t : Server} {e : SrvEvent}
    (h : (if keepsFields s (acctEvent s e) then srvTry s e else none) = some t) :
    fieldsLts.step s e t := by
  split at h
  · rename_i hkeeps
    refine ⟨srvTry_step _ trivial h, ?_⟩
    simp only
    generalize acctEvent s e = a at hkeeps
    cases a with
    | auth i digest =>
        intro x hx hst
        obtain ⟨-, rfl⟩ := acct_sess_eq_some hx
        simp only [keepsFields, Bool.or_eq_true, Bool.and_eq_true, beq_iff_eq] at hkeeps
        rcases hkeeps with hpre | ⟨⟨hlog, hsome⟩, hkey⟩
        · exact absurd hpre hst
        · obtain ⟨key, hdig⟩ := Option.isSome_iff_exists.mp hsome
          exact ⟨hlog, key, hdig, hkey.trans hdig⟩
    | login i name e₁ e₂ =>
        simp only [keepsFields, Bool.and_eq_true, bne_iff_ne] at hkeeps
        refine ⟨fun u hu => ?_, fun _ _ => hkeeps.2⟩
        have hall := hkeeps.1
        rwa [show (udbLookupname e₁ s.udb name).2 = some u from hu] at hall
    | _ => trivial
  · cases h

theorem slot_fields_two :
    ∃ s, ((s.Live 0 ∧ (s.clients 0).st = .authOk) ∧ s.Live 1 ∧ (s.clients 1).st = .authOk) ∧
      (∀ i, s.Live i → (s.clients i).session.Ok) ∧
      (∀ i, s.Live i → (s.clients i).st = .loginOk → (s.clients i).key ≠ none) ∧
      ∀ name, nameInUse s name = true → ∃ i n, s.Live i ∧ (s.clients i).session.LoggedIn ∧
        (s.clients i).name = some n ∧ stricmp n name = 0 := by
  have hexec : (Lts.exec (fun s e => if keepsFields s (acctEvent s e) then srvTry s e else none)
      (demoServer (some bobFile)) (mixedRun (ascii "tom"))).any (fun s =>
        (decide (s.Live 0) && (s.clients 0).st == .authOk) &&
          (decide (s.Live 1) && (s.clients 1).st == .authOk)) = true := by
    decide +kernel
  obtain ⟨s, hs, hp⟩ := Lts.reachable_of_exec (M := fieldsLts) (fun _ _ _ => fieldsLts_step)
    (demoServer_init (fun _ => True) trivial _) hexec
  simp only [Bool.and_eq_true, decide_eq_true_eq, beq_iff_eq] at hp
  exact ⟨s, hp, slot_fields hs⟩

/-- A wrong password leaves the first client with the name it asked for, and no
other client can use it; a LOGIN request for an account with a key of another
method leaves the second one without a key, and its AUTH request ends the server. -/
theorem slot_fields_left :
    ∃ s, (srvLts fun _ => True).Reachable s ∧
      (s.Live 0 ∧ (s.clients 0).st = .preLogin ∧ ¬ (s.clients 0).session.Ok ∧
        nameInUse s (ascii "BOB") = true) ∧
      (s.Live 1 ∧ (s.clients 1).st = .loginOk ∧ (s.clients 1).key = none ∧
        (authTail 1).Enabled s ∧ srvStep s (authTail 1) = none) := by
  have hexec : (Lts.exec srvTry
      (demoServer (some (bobFile ++ ascii "0000000000000008|eve|md5 x\n")))
      (.accept 4 true 1 :: arrival 0 (requestOctets .loginReq .username (.str (ascii "bob"))) ++
        arrival 0 (requestOctets .authReq .digest (.blob (ascii "plain-text no" ++ [0]))) ++
        .accept 5 true 1 :: arrival 1 (requestOctets .loginReq .username (.str (ascii "eve"))) ++
        [authHead 1])).any (fun s =>
        (decide (s.Live 0) && (s.clients 0).st == .preLogin &&
          (s.clients 0).name == some (ascii "bob") && nameInUse s (ascii "BOB")) &&
        (decide (s.Live 1) && (s.clients 1).st == .loginOk && (s.clients 1).key == none &&
          (srvStep s (authTail 1)).isNone)) = true := by
    decide +kernel
  obtain ⟨s, hs, hp⟩ := Lts.reachable_of_exec (fun _ _ _ => srvTry_step (fun _ => True) trivial)
    (demoServer_init (fun _ => True) trivial _) hexec
  simp only [Bool.and_eq_true, decide_eq_true_eq, beq_iff_eq, and_assoc,
    Option.isNone_iff_eq_none] at hp
  obtain ⟨h0, hst0, hn0, hused, h1, hst1, hkey1, hend⟩ := hp
  refine ⟨s, hs, ⟨h0, hst0, ?_, hused⟩, h1, hst1, hkey1, h1, hend⟩
  intro hok
  obtain ⟨-, hnone, -⟩ := hok.preLogin hst0
  cases hnone.symm.trans hn0

end Frelay
