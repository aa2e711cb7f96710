import Frelay.Server.State
import Frelay.Server.Process

/-!
# Sessions and accounts, abstractly

The server is for two things; this module is about the first, who is who. Its
state is a table of sessions, one per connection, and the user database; its
events are what the clients ask for, with the password checks and the file
accesses but without messages, buffers and queues.

* `Owned` — every logged-in session owns the account of its name, and is kept by
  every step that does not hand out the id 0 (`Owned.step`);
* `Challenged` — every session that was sent a challenge holds the current key
  of its account, and is kept by every step that does not change that account
  under it (`Challenged.step`).
-/

namespace Frelay

open Lib

/-- What the server knows about the user behind a connection. -/
structure Session where
  st : CltState
  id : UInt64
  name : Option Bytes
  key : Option Bytes
  deriving DecidableEq

/-- The session of a slot. -/
def Client.session (c : Client) : Session :=
  { st := c.st, id := c.id, name := c.name, key := c.key }

/-- The session of a fresh connection. -/
def Session.fresh : Session := { st := .preLogin, id := 0, name := none, key := none }

/-- A session past the LOGIN request. -/
def Session.LoggedIn (x : Session) : Prop := x.st = .loginOk ∨ x.st = .authOk

/-- Sessions by slot number, and the user database. -/
structure Accounts where
  sess : Nat → Option Session
  udb : Udb

/-- Replace the session of slot `i`. -/
def Accounts.set (a : Accounts) (i : Nat) (x : Session) : Accounts :=
  { a with sess := Function.update a.sess i (some x) }

/-- What can happen to the accounts. `remap f` closes connections and moves the
others: slot `j` gets the session of slot `f j`. -/
inductive AcctEvent where
  | idle
  | connect (i : Nat)
  | remap (f : Nat → Option Nat)
  | login (i : Nat) (name : Bytes) (e₁ e₂ : FileEnv)
  | auth (i : Nat) (digest : Option Bytes)
  | logout (i : Nat)
  | register (i : Nat) (pubkey : Bytes) (e₁ e₂ : FileEnv)
  | drop (i : Nat) (e₁ : FileEnv)

/-- Some session has the name, up to case. -/
def Accounts.NameUsed (a : Accounts) (name : Bytes) : Prop :=
  ∃ j y n, a.sess j = some y ∧ y.name = some n ∧ stricmp n name = 0

/-- The session after the LOGIN request of a registered user. Only a key of the
supported method is copied. -/
def Session.challenge (x : Session) (u : User) : Session :=
  { x with
    st := .loginOk
    id := u.id
    name := some u.name
    key := if AUTH_KEY_PLAINTEXT.isPrefixOf u.key then some u.key else x.key }

/-- The meaning of the events. -/
inductive AcctStep : Accounts → AcctEvent → Accounts → Prop
  | idle (a : Accounts) : AcctStep a .idle a
  | connect {a : Accounts} {i : Nat} : a.sess i = none →
      AcctStep a (.connect i) (a.set i .fresh)
  | remap (a : Accounts) (f : Nat → Option Nat) :
      AcctStep a (.remap f) { a with sess := fun j => (f j).bind a.sess }
  | loginTaken {a : Accounts} {i : Nat} {x : Session} {name : Bytes} {e₁ e₂ : FileEnv} :
      a.sess i = some x → x.st = .preLogin →
      (udbLookupname e₁ a.udb name).2 = none → a.NameUsed name →
      AcctStep a (.login i name e₁ e₂) { a with udb := (udbLookupname e₁ a.udb name).1 }
  | loginTemp {a : Accounts} {i : Nat} {x : Session} {name : Bytes} {e₁ e₂ : FileEnv} :
      a.sess i = some x → x.st = .preLogin →
      (udbLookupname e₁ a.udb name).2 = none → ¬ a.NameUsed name →
      AcctStep a (.login i name e₁ e₂)
        ({ a with udb := (udbGettempid e₂ (udbLookupname e₁ a.udb name).1).1 }.set i
          { st := .authOk, id := (udbGettempid e₂ (udbLookupname e₁ a.udb name).1).2
            name := some name, key := none })
  | loginUser {a : Accounts} {i : Nat} {x : Session} {name : Bytes} {e₁ e₂ : FileEnv}
      {u : User} :
      a.sess i = some x → x.st = .preLogin → (udbLookupname e₁ a.udb name).2 = some u →
      AcctStep a (.login i name e₁ e₂)
        ({ a with udb := (udbLookupname e₁ a.udb name).1 }.set i (x.challenge u))
  | authFailed {a : Accounts} {i : Nat} {x : Session} {digest : Option Bytes} :
      a.sess i = some x → (x.st = .loginOk → ∀ key, digest = some key → x.key ≠ some key) →
      AcctStep a (.auth i digest) (a.set i { x with st := .preLogin })
  | authOk {a : Accounts} {i : Nat} {x : Session} {key : Bytes} :
      a.sess i = some x → x.st = .loginOk → x.key = some key →
      AcctStep a (.auth i (some key))
        ({ a with sess := fun j => (a.sess j).filter fun y => y.id ≠ x.id }.set i
          { x with st := .authOk })
  | logout {a : Accounts} {i : Nat} {x : Session} : a.sess i = some x → x.st = .authOk →
      AcctStep a (.logout i) (a.set i .fresh)
  | register {a : Accounts} {i : Nat} {x : Session} {n pubkey : Bytes} {e₁ e₂ : FileEnv} :
      a.sess i = some x → x.st = .authOk → x.name = some n →
      AcctStep a (.register i pubkey e₁ e₂)
        { a with udb := (udbAddentry e₂ (udbDropentry e₁ a.udb n).1 x.id n
            (AUTH_KEY_PLAINTEXT ++ pubkey)).1 }
  | drop {a : Accounts} {i : Nat} {x : Session} {n : Bytes} {e₁ : FileEnv} :
      a.sess i = some x → x.st = .authOk → x.name = some n →
      AcctStep a (.drop i e₁) { a with udb := (udbDropentry e₁ a.udb n).1 }

/-! ## Sessions after an update -/

theorem Accounts.set_sess {a : Accounts} {i j : Nat} {x y : Session}
    (h : (a.set i x).sess j = some y) : (j = i ∧ y = x) ∨ (j ≠ i ∧ a.sess j = some y) := by
  by_cases hj : j = i
  · subst hj
    rw [Accounts.set] at h
    simp only [Function.update_self, Option.some.injEq] at h
    exact .inl ⟨rfl, h.symm⟩
  · rw [Accounts.set] at h
    simp only [Function.update_of_ne hj] at h
    exact .inr ⟨hj, h⟩

/-! ## Who owns an account -/

/-- Both file accesses of the event succeed. -/
def AcctEvent.FilesGood : AcctEvent → Prop
  | .login _ _ e₁ e₂ => e₁ = .good ∧ e₂ = .good
  | .register _ _ e₁ e₂ => e₁ = .good ∧ e₂ = .good
  | .drop _ e₁ => e₁ = .good
  | _ => True

/-- The event does not hand out the id 0: no unregistered user logs in under an
unused name while the id counter is 0. -/
def Accounts.GivesId (a : Accounts) : AcctEvent → Prop
  | .login _ name _ _ =>
      udbLookupname_ a.udb name = none → ¬ a.NameUsed name → a.udb.nextId ≠ 0
  | _ => True

/-- Every logged-in session owns the account of its name, if there is one, and
sessions of one name have one id. -/
structure Owned (a : Accounts) : Prop where
  wf : a.udb.WellFormed
  loaded : a.udb.Loaded
  ids : ∀ u ∈ a.udb.userdb, u.id ≠ 0
  nonzero : ∀ i x, a.sess i = some x → x.LoggedIn → x.id ≠ 0
  own : ∀ i x n u, a.sess i = some x → x.LoggedIn → x.name = some n → u ∈ a.udb.userdb →
    u.name = n → u.id = x.id
  same : ∀ i j x y n, a.sess i = some x → a.sess j = some y → x.LoggedIn → y.LoggedIn →
    x.name = some n → y.name = some n → x.id = y.id

/-- The entries after a REGISTER request with working files. -/
theorem mem_register {d : Udb} (hwf : d.WellFormed) (hl : d.Loaded) {id : UInt64}
    (hid : id ≠ 0) (n key : Bytes) :
    (udbAddentry .good (udbDropentry .good d n).1 id n key).1.WellFormed ∧
    (udbAddentry .good (udbDropentry .good d n).1 id n key).1.Loaded ∧
    ∀ u, u ∈ (udbAddentry .good (udbDropentry .good d n).1 id n key).1.userdb →
      (u ∈ d.userdb ∧ u.name ≠ n) ∨ (u.id = id ∧ u.name = n) := by
  have hdwf := hwf.dropentry .good n
  have hmem : ∀ u, u ∈ (udbDropentry .good d n).1.userdb ↔ u ∈ d.userdb ∧ u.name ≠ n := by
    intro u
    rw [hwf.mem_dropentry, hl.load]
  have hdl := hl.dropentry (e := .good) rfl n
  refine ⟨hdwf.addentry .good id n key, ?_, ?_⟩
  · exact loaded_save rfl
  · intro u hu
    rcases udbAddentry_cases .good (udbDropentry .good d n).1 id n key with
      heq | ⟨p, hpid, hpn, -, -, -, hlist, -⟩
    · rw [heq, udbSave_userdb, hdl.load, hmem] at hu
      exact .inl hu
    · rw [hlist, hdl.load] at hu
      rcases List.mem_cons.mp hu with rfl | hu
      · rw [if_pos hid] at hpid
        exact .inr ⟨hpid, hpn⟩
      · exact .inl ((hmem u).mp hu)

/-- Nobody else's entry is lost in a REGISTER request. -/
theorem mem_register_of_ne {d : Udb} (hwf : d.WellFormed) (hl : d.Loaded) {id : UInt64}
    {n key : Bytes} {u : User} (hu : u ∈ d.userdb) (hn : u.name ≠ n) :
    u ∈ (udbAddentry .good (udbDropentry .good d n).1 id n key).1.userdb := by
  have hmem : u ∈ (udbDropentry .good d n).1.userdb := by
    rw [hwf.mem_dropentry, hl.load]
    exact ⟨hu, hn⟩
  exact mem_udbAddentry_of_mem hmem

theorem Owned.of_sublist {a : Accounts} (h : Owned a) {d : Udb}
    (hsub : d.userdb.Sublist a.udb.userdb) (hl : d.Loaded) : Owned { a with udb := d } :=
  { wf := h.wf.of_sublist hsub
    loaded := hl
    ids := fun u hu => h.ids u (hsub.subset hu)
    nonzero := h.nonzero
    own := fun i x n u hx hlog hn hu => h.own i x n u hx hlog hn (hsub.subset hu)
    same := h.same }

/-- A session may be replaced by one that is not logged in, or by one that owns
the account of its name and agrees with the other sessions of that name. -/
theorem Owned.set {a : Accounts} (h : Owned a) {i : Nat} {x : Session}
    (hx : x.LoggedIn → x.id ≠ 0 ∧ ∀ n, x.name = some n →
      (∀ u ∈ a.udb.userdb, u.name = n → u.id = x.id) ∧
      ∀ j y, a.sess j = some y → y.LoggedIn → y.name = some n → x.id = y.id) :
    Owned (a.set i x) := by
  refine ⟨h.wf, h.loaded, h.ids, ?_, ?_, ?_⟩
  · intro j y hy hlog
    rcases Accounts.set_sess hy with ⟨-, rfl⟩ | ⟨-, hy⟩
    · exact (hx hlog).1
    · exact h.nonzero j y hy hlog
  · intro j y n u hy hlog hn hu hun
    rcases Accounts.set_sess hy with ⟨-, rfl⟩ | ⟨-, hy⟩
    · exact ((hx hlog).2 n hn).1 u hu hun
    · exact h.own j y n u hy hlog hn hu hun
  · intro j k y z n hy hz hly hlz hyn hzn
    rcases Accounts.set_sess hy with ⟨-, rfl⟩ | ⟨-, hy'⟩
    · rcases Accounts.set_sess hz with ⟨-, rfl⟩ | ⟨-, hz'⟩
      · rfl
      · exact ((hx hly).2 n hyn).2 k z hz' hlz hzn
    · rcases Accounts.set_sess hz with ⟨-, rfl⟩ | ⟨-, hz'⟩
      · exact (((hx hlz).2 n hzn).2 j y hy' hly hyn).symm
      · exact h.same j k y z n hy' hz' hly hlz hyn hzn

/-- Sessions may be moved and closed. -/
theorem Owned.remap {a : Accounts} (h : Owned a) {g : Nat → Option Session}
    (hg : ∀ j x, g j = some x → ∃ k, a.sess k = some x) : Owned { a with sess := g } := by
  refine ⟨h.wf, h.loaded, h.ids, ?_, ?_, ?_⟩
  · intro j x hx hlog
    obtain ⟨k, hk⟩ := hg j x hx
    exact h.nonzero k x hk hlog
  · intro j x n u hx hlog
    obtain ⟨k, hk⟩ := hg j x hx
    exact h.own k x n u hk hlog
  · intro j j' x y n hx hy
    obtain ⟨k, hk⟩ := hg j x hx
    obtain ⟨k', hk'⟩ := hg j' y hy
    exact h.same k k' x y n hk hk'

/-- A LOGIN under a new name. -/
theorem Owned.loginTemp {a : Accounts} (h : Owned a) {i : Nat} {name : Bytes}
    (hnone : (udbLookupname .good a.udb name).2 = none) (hfree : ¬ a.NameUsed name)
    (hgives : udbLookupname_ a.udb name = none → a.udb.nextId ≠ 0) :
    Owned ({ a with udb := (udbGettempid .good (udbLookupname .good a.udb name).1).1 }.set i
      { st := .authOk, id := (udbGettempid .good (udbLookupname .good a.udb name).1).2
        name := some name, key := none }) := by
  simp only [udbLookupname, udbGettempid, h.loaded.load] at hnone ⊢
  have hbase : Owned { a with udb := { a.udb with nextId := a.udb.nextId + 1 } } :=
    h.of_sublist (List.Sublist.refl _) h.loaded
  apply hbase.set
  intro _
  refine ⟨hgives hnone, ?_⟩
  intro n hn
  cases hn
  refine ⟨?_, ?_⟩
  · intro u hu hun
    exact absurd hun (lookupname_eq_none.mp hnone u hu)
  · -- A session of the same name would have made the login fail.
    intro j y hy _ hyn
    exact absurd ⟨j, y, name, hy, hyn, stricmp_self name⟩ hfree

/-- A LOGIN of a registered user. -/
theorem Owned.loginUser {a : Accounts} (h : Owned a) {i : Nat} {x : Session} {name : Bytes} {u : User}
    (hu : (udbLookupname .good a.udb name).2 = some u) :
    Owned ({ a with udb := (udbLookupname .good a.udb name).1 }.set i (x.challenge u)) := by
  simp only [udbLookupname, h.loaded.load] at hu ⊢
  obtain ⟨hmem, -⟩ := lookupname_mem hu
  apply h.set
  intro _
  refine ⟨h.ids u hmem, ?_⟩
  intro n hn
  cases hn
  refine ⟨?_, ?_⟩
  · -- The name and the id are those of one entry, and names identify entries.
    intro v hv hvn
    rw [h.wf.eq_of_name hv hmem hvn]
    rfl
  · intro j y hy hlog hyn
    exact h.own j y u.name u hy hlog hyn hmem rfl

/-- A REGISTER. -/
theorem Owned.register {a : Accounts} (h : Owned a) {i : Nat} {x : Session} {n pubkey : Bytes}
    (hi : a.sess i = some x) (hst : x.st = .authOk) (hn : x.name = some n) :
    Owned { a with udb := (udbAddentry .good (udbDropentry .good a.udb n).1 x.id n
      (AUTH_KEY_PLAINTEXT ++ pubkey)).1 } := by
  have hid := h.nonzero i x hi (.inr hst)
  obtain ⟨hwf, hl, hmem⟩ := mem_register h.wf h.loaded hid n (AUTH_KEY_PLAINTEXT ++ pubkey)
  refine ⟨hwf, hl, ?_, h.nonzero, ?_, h.same⟩
  · intro u hu
    rcases hmem u hu with ⟨hu, -⟩ | ⟨hid', -⟩
    · exact h.ids u hu
    · rw [hid']
      exact hid
  · intro j y n' u hy hlog hyn hu hun
    rcases hmem u hu with ⟨hu, -⟩ | ⟨hid', hname⟩
    · exact h.own j y n' u hy hlog hyn hu hun
    · -- Any other session of the registered name has the same id.
      rw [hid']
      have hnn : n' = n := hun.symm.trans hname
      exact h.same i j x y n hi hy (.inr hst) hlog hn (hnn ▸ hyn)

/-- A DROP. -/
theorem Owned.drop {a : Accounts} (h : Owned a) (n : Bytes) :
    Owned { a with udb := (udbDropentry .good a.udb n).1 } := by
  have hmem : ∀ u, u ∈ (udbDropentry .good a.udb n).1.userdb → u ∈ a.udb.userdb := by
    intro u hu
    rw [h.wf.mem_dropentry, h.loaded.load] at hu
    exact hu.1
  refine ⟨h.wf.dropentry .good n, ?_, fun u hu => h.ids u (hmem u hu), h.nonzero,
    fun j y n' u hy hlog hyn hu => h.own j y n' u hy hlog hyn (hmem u hu), h.same⟩
  simp only [udbDropentry, h.loaded.load]
  split
  · exact loaded_save rfl
  · rename_i hnf
    rw [dropentry_not_found (eq_false_of_ne_true hnf)]
    exact h.loaded

/-- **Ownership is kept** by every step with working files that does not hand
out the id 0. -/
theorem Owned.step {a b : Accounts} {e : AcctEvent} (h : Owned a) (hf : e.FilesGood)
    (hg : a.GivesId e) (hstep : AcctStep a e b) : Owned b := by
  cases hstep with
  | idle => exact h
  | connect hi =>
      apply h.set
      rintro (hlog | hlog) <;> cases hlog
  | remap f =>
      -- Moving and closing slots brings in no session that was not there.
      apply h.remap
      intro j x hx
      obtain ⟨k, -, hk⟩ := Option.bind_eq_some_iff.mp hx
      exact ⟨k, hk⟩
  | loginTaken hi hst hnone hused =>
      obtain ⟨rfl, rfl⟩ := hf
      rw [udbLookupname, h.loaded.load]
      exact h
  | loginTemp hi hst hnone hfree =>
      obtain ⟨rfl, rfl⟩ := hf
      exact h.loginTemp hnone hfree fun hno => hg hno hfree
  | loginUser hi hst hu =>
      obtain ⟨rfl, rfl⟩ := hf
      exact h.loginUser hu
  | authFailed hi hbad =>
      apply h.set
      rintro (hlog | hlog) <;> cases hlog
  | @authOk i x key hi hst hkey =>
      have hlog : x.LoggedIn := .inl hst
      -- First the other sessions of the user go, then this one is let in.
      have hbase : Owned { a with sess := fun j => (a.sess j).filter fun y => y.id ≠ x.id } := by
        apply h.remap
        intro j y hy
        exact ⟨j, (Option.filter_eq_some_iff.mp hy).1⟩
      apply hbase.set
      intro _
      refine ⟨h.nonzero i x hi hlog, ?_⟩
      intro n hn
      refine ⟨fun u hu hun => h.own i x n u hi hlog hn hu hun, ?_⟩
      intro j y hy hlogy hyn
      exact h.same i j x y n hi (Option.filter_eq_some_iff.mp hy).1 hlog hlogy hn hyn
  | logout hi hst =>
      apply h.set
      rintro (hlog | hlog) <;> cases hlog
  | register hi hst hn =>
      obtain ⟨rfl, rfl⟩ := hf
      exact h.register hi hst hn
  | drop hi hst hn =>
      cases hf
      exact h.drop _

/-- The event asks to change the account of the user of slot `i`. -/
def AcctEvent.Changes (i : Nat) : AcctEvent → Prop
  | .register k _ _ _ => k = i
  | .drop k _ => k = i
  | _ => False

/-- In an owned state an event changes at most the entry with the name and the
id of the session that asks for it. -/
theorem Owned.entries {a b : Accounts} {e : AcctEvent} (h : Owned a) (hf : e.FilesGood)
    (hstep : AcctStep a e b) (u : User) :
    (u ∈ b.udb.userdb ↔ u ∈ a.udb.userdb) ∨
      ∃ i x, e.Changes i ∧ a.sess i = some x ∧ x.st = .authOk ∧ u.id = x.id ∧
        x.name = some u.name := by
  cases hstep with
  | idle => exact .inl Iff.rfl
  | connect hi => exact .inl Iff.rfl
  | remap f => exact .inl Iff.rfl
  | loginTaken hi hst hnone hused =>
      obtain ⟨rfl, rfl⟩ := hf
      simp only [udbLookupname, h.loaded.load, true_or]
  | loginTemp hi hst hnone hfree =>
      obtain ⟨rfl, rfl⟩ := hf
      simp only [udbLookupname, udbGettempid, h.loaded.load, Accounts.set, true_or]
  | loginUser hi hst hu =>
      obtain ⟨rfl, rfl⟩ := hf
      simp only [udbLookupname, h.loaded.load, Accounts.set, true_or]
  | authFailed hi hbad => exact .inl Iff.rfl
  | authOk hi hst hkey => exact .inl Iff.rfl
  | logout hi hst => exact .inl Iff.rfl
  | @register i x n pubkey e₁ e₂ hi hst hn =>
      obtain ⟨rfl, rfl⟩ := hf
      have hmem := (mem_register h.wf h.loaded (h.nonzero i x hi (.inr hst)) n
        (AUTH_KEY_PLAINTEXT ++ pubkey)).2.2 u
      -- Only an entry of the name that is registered can come or go.
      by_cases hun : u.name = n
      · by_cases huid : u.id = x.id
        · exact .inr ⟨i, x, rfl, hi, hst, huid, by rw [hun]; exact hn⟩
        · -- Neither the old entry of that name nor the new one has another id.
          refine .inl ⟨fun hu => ?_, fun hu => ?_⟩
          · rcases hmem hu with ⟨-, hne⟩ | ⟨hid, -⟩
            · exact absurd hun hne
            · exact absurd hid huid
          · exact absurd (h.own i x n u hi (.inr hst) hn hu hun) huid
      · refine .inl ⟨fun hu => ?_, fun hu => mem_register_of_ne h.wf h.loaded hu hun⟩
        rcases hmem hu with ⟨hu, -⟩ | ⟨-, hname⟩
        · exact hu
        · exact absurd hname hun
  | @drop i x n e₁ hi hst hn =>
      cases hf
      by_cases hun : u.name = n
      · -- A dropped entry is the one the session logged in with.
        by_cases hu : u ∈ a.udb.userdb
        · exact .inr ⟨i, x, rfl, hi, hst, h.own i x n u hi (.inr hst) hn hu hun,
            by rw [hun]; exact hn⟩
        · left
          simp only [h.wf.mem_dropentry, h.loaded.load]
          exact ⟨fun hb => absurd hb.1 hu, fun ha => absurd ha hu⟩
      · left
        simp only [h.wf.mem_dropentry, h.loaded.load]
        exact ⟨fun hu => hu.1, fun hu => ⟨hu, hun⟩⟩

/-! ## Who knows a password -/

/-- The event does not change an account that some session waits to
authenticate for, and starts no wait without a key: a LOGIN request meets a key
of the supported method; a DROP request meets no waiting session of the name; a
REGISTER request meets only waiting sessions of its own id that hold the very
key it stores, and its first write succeeds. -/
def Accounts.KeepsKeys (a : Accounts) : AcctEvent → Prop
  | .login _ name e₁ _ => ∀ u, (udbLookupname e₁ a.udb name).2 = some u →
      AUTH_KEY_PLAINTEXT.isPrefixOf u.key = true
  | .drop i _ => ∀ x j y, a.sess i = some x → a.sess j = some y → y.st = .loginOk →
      y.name ≠ x.name
  | .register i pubkey e₁ _ => ∀ x j y, a.sess i = some x → a.sess j = some y →
      y.st = .loginOk → y.name = x.name →
      y.key = some (AUTH_KEY_PLAINTEXT ++ pubkey) ∧ y.id = x.id ∧ x.id ≠ 0 ∧ e₁.wr = true
  | _ => True

/-- Every session that waits to authenticate holds the key of an entry with its
name and id. -/
structure Challenged (a : Accounts) : Prop where
  wf : a.udb.WellFormed
  entry : ∀ i x, a.sess i = some x → x.st = .loginOk →
    ∃ n k, x.name = some n ∧ x.key = some k ∧ { id := x.id, name := n, key := k } ∈ a.udb.userdb

/-- More entries do no harm. -/
theorem Challenged.mono {a : Accounts} (h : Challenged a) {d : Udb} (hwf : d.WellFormed)
    (hsub : ∀ u ∈ a.udb.userdb, u ∈ d.userdb) : Challenged { a with udb := d } := by
  refine ⟨hwf, ?_⟩
  intro i x hx hst
  obtain ⟨n, k, hn, hk, hmem⟩ := h.entry i x hx hst
  exact ⟨n, k, hn, hk, hsub _ hmem⟩

theorem Challenged.set {a : Accounts} (h : Challenged a) {i : Nat} {x : Session}
    (hx : x.st = .loginOk → ∃ n k, x.name = some n ∧ x.key = some k ∧
      { id := x.id, name := n, key := k } ∈ a.udb.userdb) : Challenged (a.set i x) := by
  refine ⟨h.wf, ?_⟩
  intro j y hy hst
  rcases Accounts.set_sess hy with ⟨-, rfl⟩ | ⟨-, hy⟩
  · exact hx hst
  · exact h.entry j y hy hst

theorem Challenged.remap {a : Accounts} (h : Challenged a) {g : Nat → Option Session}
    (hg : ∀ j x, g j = some x → ∃ k, a.sess k = some x) : Challenged { a with sess := g } := by
  refine ⟨h.wf, ?_⟩
  intro j x hx hst
  obtain ⟨k, hk⟩ := hg j x hx
  exact h.entry k x hk hst

/-- The entry of a waiting session survives a REGISTER request of another
session that stores the same key again. -/
private theorem mem_register_same (e₂ : FileEnv) {d : Udb} (hwf : d.WellFormed) {e₁ : FileEnv}
    {w : User}
    (hw : w ∈ d.userdb) (hid : w.id ≠ 0) (hwr : e₁.wr = true) :
    w ∈ (udbAddentry e₂ (udbDropentry e₁ d w.name).1 w.id w.name w.key).1.userdb := by
  have hload := udbLoad_of_ne_nil (e := e₁) (List.ne_nil_of_mem hw)
  have hfound : (udbDropentry_ d w.name).2 = true := dropentry_found.mpr ⟨w, hw, rfl⟩
  have hdrop : (udbDropentry e₁ d w.name).1 = udbSave e₁ (udbDropentry_ d w.name).1 := by
    simp only [udbDropentry, hload, hfound, if_true]
  -- The file has just been written, so loading it again brings nothing back.
  have hl : (udbDropentry e₁ d w.name).1.Loaded := by
    rw [hdrop]
    exact loaded_save hwr
  have hfree : ∀ u ∈ (udbLoad e₂ (udbDropentry e₁ d w.name).1).userdb, u.name ≠ w.name := by
    intro u hu
    rw [hl.load, hwf.mem_dropentry] at hu
    exact hu.2
  rw [udbAddentry_of_free hid (hwf.valid w hw) hfree]
  exact List.mem_cons_self

/-- **The challenge stays current** across every step that keeps the keys. -/
theorem Challenged.step {a b : Accounts} {e : AcctEvent} (h : Challenged a)
    (hg : a.KeepsKeys e) (hstep : AcctStep a e b) : Challenged b := by
  cases hstep with
  | idle => exact h
  | connect hi =>
      apply h.set
      intro hst
      cases hst
  | remap f =>
      apply h.remap
      intro j x hx
      obtain ⟨k, -, hk⟩ := Option.bind_eq_some_iff.mp hx
      exact ⟨k, hk⟩
  | @loginTaken i x name e₁ e₂ hi hst hnone hused =>
      exact h.mono (h.wf.load e₁) fun u hu => mem_udbLoad_of_mem hu
  | @loginTemp i x name e₁ e₂ hi hst hnone hfree =>
      have hbase := h.mono (h.wf.load e₁) fun u hu => mem_udbLoad_of_mem hu
      have hbase' := hbase.mono (hbase.wf.gettempid e₂) fun u hu => mem_udbLoad_of_mem hu
      apply hbase'.set
      intro hst
      cases hst
  | @loginUser i x name e₁ e₂ u hi hst hu =>
      have hbase := h.mono (h.wf.load e₁) fun u hu => mem_udbLoad_of_mem hu
      apply hbase.set
      intro _
      refine ⟨u.name, u.key, rfl, ?_, (lookupname_mem hu).1⟩
      simp only [Session.challenge, hg u hu, if_true]
  | authFailed hi hbad =>
      apply h.set
      intro hst
      cases hst
  | @authOk i x key hi hst hkey =>
      have hbase : Challenged { a with sess := fun j => (a.sess j).filter fun y => y.id ≠ x.id } := by
        apply h.remap
        intro j y hy
        exact ⟨j, (Option.filter_eq_some_iff.mp hy).1⟩
      apply hbase.set
      intro hst
      cases hst
  | logout hi hst =>
      apply h.set
      intro hst
      cases hst
  | @register i x n pubkey e₁ e₂ hi hst hn =>
      refine ⟨(h.wf.dropentry e₁ n).addentry e₂ _ _ _, ?_⟩
      intro j y hy hyst
      obtain ⟨m, k, hym, hyk, hmem⟩ := h.entry j y hy hyst
      refine ⟨m, k, hym, hyk, ?_⟩
      by_cases hname : m = n
      · subst hname
        -- The name is registered anew: with the key the session was challenged with.
        obtain ⟨hkey, hid, hid0, hwr⟩ := hg x j y hi hy hyst (hym.trans hn.symm)
        rw [hyk, Option.some.injEq] at hkey
        subst hkey
        have := mem_register_same e₂ h.wf hmem (by rw [hid]; exact hid0) hwr
        rwa [hid] at this ⊢
      · apply mem_udbAddentry_of_mem
        rw [h.wf.mem_dropentry]
        exact ⟨mem_udbLoad_of_mem hmem, hname⟩
  | @drop i x n e₁ hi hst hn =>
      refine ⟨h.wf.dropentry e₁ n, ?_⟩
      intro j y hy hyst
      obtain ⟨m, k, hym, hyk, hmem⟩ := h.entry j y hy hyst
      refine ⟨m, k, hym, hyk, ?_⟩
      rw [h.wf.mem_dropentry]
      refine ⟨mem_udbLoad_of_mem hmem, ?_⟩
      intro hmn
      -- No account is dropped while a session is challenged for it.
      exact hg x j y hi hy hyst (by rw [hym, hn]; exact congrArg some hmn)

end Frelay
