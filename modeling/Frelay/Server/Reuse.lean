import Frelay.Server.Ids
import Frelay.Userdb.Reload

/-!
# Ids over many runs

A server installation is run, stopped and started again on one database file. The
id counter is not stored: a start takes it from the entries it reads, so it forgets
ids of accounts that were dropped.

* `Apart.step` — within one run the sessions and the list never use an id under two
  names, given that whatever is read from the file is known;
* `ids_not_reused` — over many runs no id is reused for another name, as long as no
  start forgets the highest id.
-/

namespace Frelay

open Lib

/-! ## What has been stored -/

/-- The id and the name of an entry. -/
def User.tag (u : User) : UInt64 × Bytes := (u.id, u.name)

/-- What the list stores now. -/
def Udb.tags (d : Udb) : Set (UInt64 × Bytes) := { p | ∃ u ∈ d.userdb, u.tag = p }

/-- The file holds nothing but what has been stored before. -/
def Udb.Known (h : Set (UInt64 × Bytes)) (d : Udb) : Prop := ∀ u ∈ d.onFile, u.tag ∈ h

/-- The list, the counter and the history fit together: every entry is in the
history, no id there has two names, and the counter is above all of them. -/
structure Udb.Recorded (h : Set (UInt64 × Bytes)) (d : Udb) : Prop where
  entries : ∀ u ∈ d.userdb, u.tag ∈ h
  one : ∀ p ∈ h, ∀ q ∈ h, p.1 = q.1 → p.2 = q.2
  range : ∀ p ∈ h, p.1 ≠ 0 ∧ p.1 < d.nextId
  next : d.nextId ≠ 0

/-- Loading brings nothing or what is on file. -/
theorem udbLoad_userdb_cases (e : FileEnv) (d : Udb) :
    (udbLoad e d).userdb = d.userdb ∨ (d.Rereads e ∧ (udbLoad e d).userdb = d.onFile) := by
  by_cases hnil : d.userdb = []
  · rw [udbLoad_userdb_nil e hnil]
    by_cases hrd : e.rd = true
    · rw [if_pos hrd]
      by_cases hfile : d.onFile = []
      · exact .inl (hfile.trans hnil.symm)
      · exact .inr ⟨⟨hnil, hrd, hfile⟩, rfl⟩
    · rw [if_neg hrd]
      exact .inl hnil.symm
  · rw [udbLoad_of_ne_nil hnil]
    exact .inl rfl

section Database

variable {h : Set (UInt64 × Bytes)} {d : Udb}

/-- Entries may go, as long as the counter stays. -/
theorem Udb.Recorded.of_sublist (hd : d.Recorded h) {d' : Udb} (hsub : d'.userdb.Sublist d.userdb)
    (hnext : d'.nextId = d.nextId) : d'.Recorded h :=
  ⟨fun u hu => hd.entries u (hsub.subset hu), hd.one, by rw [hnext]; exact hd.range,
    by rw [hnext]; exact hd.next⟩

/-- Loading known entries leaves the counter where it is. -/
theorem Udb.Recorded.load (hd : d.Recorded h) {e : FileEnv} (hknown : d.Rereads e → d.Known h) :
    (udbLoad e d).Recorded h ∧ (udbLoad e d).nextId = d.nextId := by
  have hentries : ∀ u ∈ (udbLoad e d).userdb, u.tag ∈ h := by
    intro u hu
    rcases udbLoad_userdb_cases e d with heq | ⟨hre, heq⟩
    · rw [heq] at hu
      exact hd.entries u hu
    · rw [heq] at hu
      exact hknown hre u hu
  have hin : d.InRange := ⟨hd.next, fun u hu => hd.range u.tag (hd.entries u hu)⟩
  obtain ⟨-, hle, hge⟩ := hin.load_of_lt d.nextId.toNat_lt (Nat.le_refl _)
    fun _ u hu => UInt64.lt_iff_toNat_lt.mp (hd.range u.tag (hentries u hu)).2
  have hnext : (udbLoad e d).nextId = d.nextId :=
    UInt64.le_antisymm (UInt64.le_iff_toNat_le.mpr hge) hle
  exact ⟨⟨hentries, hd.one, by rw [hnext]; exact hd.range, by rw [hnext]; exact hd.next⟩, hnext⟩

/-- A dropped entry does not free its id. -/
theorem Udb.Recorded.dropentry (hd : d.Recorded h) {e : FileEnv}
    (hknown : d.Rereads e → d.Known h) (n : Bytes) :
    (udbDropentry e d n).1.Recorded h ∧ (udbDropentry e d n).1.nextId = d.nextId := by
  obtain ⟨hload, hnext⟩ := hd.load hknown
  have hdrop : (udbDropentry e d n).1.nextId = (udbLoad e d).nextId := by
    unfold udbDropentry
    simp only
    split
    · exact udbSave_nextId _ _
    · rfl
  exact ⟨hload.of_sublist (udbDropentry_sublist e d n) hdrop, hdrop.trans hnext⟩

/-- A start records what it reads, as long as the highest id stored is still there. -/
theorem recorded_start {e : FileEnv} {file : Option Bytes}
    (hone : ∀ p ∈ h, ∀ q ∈ h, p.1 = q.1 → p.2 = q.2) (hzero : ∀ p ∈ h, p.1 ≠ 0)
    (hread : ∀ u ∈ (udbInit e file).userdb, u.tag ∈ h ∧ u.id ≠ 0xffffffffffffffff)
    (htop : ∀ p ∈ h, ∃ u ∈ (udbInit e file).userdb, p.1 ≤ u.id) :
    (udbInit e file).Recorded h := by
  have hempty : Udb.InRange { userdb := [], nextId := 1, file := file } :=
    ⟨show (1 : UInt64) ≠ 0 by decide, by simp⟩
  have hbound : ∀ u ∈ (udbInit e file).userdb, u.id.toNat < 2 ^ 64 - 1 := by
    intro u hu
    have hlt := u.id.toNat_lt
    have hne : u.id.toNat ≠ 2 ^ 64 - 1 := fun heq => (hread u hu).2 (UInt64.toNat_inj.mp heq)
    omega
  obtain ⟨hin, -, -⟩ := hempty.load_of_lt (by omega) (show 1 ≤ 2 ^ 64 - 1 by decide) fun _ => hbound
  refine ⟨fun u hu => (hread u hu).1, hone, ?_, hin.next⟩
  intro p hp
  obtain ⟨u, hu, hle⟩ := htop p hp
  exact ⟨hzero p hp, UInt64.lt_of_le_of_lt hle (hin.ids u hu).2⟩

/-- If the list is read again after a drop, the file is the one from before. -/
theorem onFile_dropentry {e e' : FileEnv} {n : Bytes} (hre : (udbDropentry e d n).1.Rereads e') :
    (udbDropentry e d n).1.onFile = d.onFile := by
  obtain ⟨hnil, -, hne⟩ := hre
  apply onFile_congr
  unfold udbDropentry at hnil hne ⊢
  simp only at hnil hne ⊢
  split
  · rename_i hfound
    rw [if_pos hfound, udbSave_userdb] at hnil
    rw [if_pos hfound] at hne
    unfold udbSave at hne ⊢
    split
    · rename_i hwr
      rw [if_pos hwr, hnil] at hne
      exact absurd rfl hne
    · exact udbLoad_file e d
  · exact udbLoad_file e d

/-- As long as nothing new enters the list, the history is complete. -/
theorem Udb.Recorded.union_tags (hd : d.Recorded h) : h ∪ d.tags = h := by
  apply Set.union_eq_self_of_subset_right
  rintro p ⟨u, hu, rfl⟩
  exact hd.entries u hu

/-- A new entry whose id has been stored under its name only. -/
theorem Udb.Recorded.addentry (hd : d.Recorded h) {id : UInt64} {n : Bytes} (key : Bytes)
    (hid : id ≠ 0) (hlt : id < d.nextId) (hold : ∀ p ∈ h, p.1 = id → p.2 = n) :
    (udbAddentry_ d id n key).1.Recorded (h ∪ (udbAddentry_ d id n key).1.tags) ∧
      (udbAddentry_ d id n key).1.nextId = d.nextId ∧
      ∀ p ∈ (udbAddentry_ d id n key).1.tags, p ∈ h ∨ p = (id, n) := by
  rcases addentry_cases d id n key with heq | ⟨w, hwid, hwn, -, -, -, heq⟩
  · rw [heq, hd.union_tags]
    exact ⟨hd, rfl, fun p ⟨u, hu, hp⟩ => .inl (hp ▸ hd.entries u hu)⟩
  · rw [if_pos hid] at hwid
    have hnext : (udbAddentry_ d id n key).1.nextId = d.nextId := by
      rw [heq]
      exact if_neg (by rw [hwid]; exact UInt64.not_le.mpr hlt)
    have hlist : (udbAddentry_ d id n key).1.userdb = w :: d.userdb := by rw [heq]
    have htag : w.tag = (id, n) := by rw [User.tag, hwid, hwn]
    have hnew : ∀ p ∈ (udbAddentry_ d id n key).1.tags, p ∈ h ∨ p = (id, n) := by
      rintro p ⟨u, hu, rfl⟩
      rw [hlist] at hu
      rcases List.mem_cons.mp hu with rfl | hu
      · exact .inr htag
      · exact .inl (hd.entries u hu)
    have hall : ∀ p ∈ h ∪ (udbAddentry_ d id n key).1.tags, p ∈ h ∨ p = (id, n) :=
      fun p hp => hp.elim .inl (hnew p)
    refine ⟨⟨fun u hu => .inr ⟨u, hu, rfl⟩, ?_, ?_, by rw [hnext]; exact hd.next⟩, hnext, hnew⟩
    · intro p hp q hq hpq
      rcases hall p hp with hp | rfl <;> rcases hall q hq with hq | rfl
      · exact hd.one p hp q hq hpq
      · exact hold p hp hpq
      · exact (hold q hq hpq.symm).symm
      · rfl
    · intro p hp
      rw [hnext]
      rcases hall p hp with hp | rfl
      · exact hd.range p hp
      · exact ⟨hid, hlt⟩

/-- A new id is above the recorded ones. -/
theorem Udb.Recorded.gettempid (hd : d.Recorded h) (hroom : d.nextId + 1 ≠ 0) :
    Udb.Recorded h { d with nextId := d.nextId + 1 } :=
  ⟨hd.entries, hd.one, fun p hp => ⟨(hd.range p hp).1,
    UInt64.lt_trans (hd.range p hp).2 (lt_succ_of_ne hroom)⟩, hroom⟩

end Database

/-! ## Sessions -/

/-- Handling the event reads nothing from the file that has not been stored before,
and the counter has room for the id that a new name gets. -/
def Accounts.KeepsIds (h : Set (UInt64 × Bytes)) (a : Accounts) : AcctEvent → Prop
  | .login _ n e₁ e₂ =>
      ((udbLookupname e₁ a.udb n).2 = none → ¬ a.NameUsed n → a.udb.nextId + 1 ≠ 0) ∧
      (a.udb.Rereads e₁ ∨ (udbLoad e₁ a.udb).Rereads e₂ → a.udb.Known h)
  | .register i _ e₁ e₂ => ∀ x n, a.sess i = some x → x.name = some n →
      a.udb.Rereads e₁ ∨ (udbDropentry e₁ a.udb n).1.Rereads e₂ → a.udb.Known h
  | .drop _ e₁ => a.udb.Rereads e₁ → a.udb.Known h
  | _ => True

/-- No id is in use under two names: in the history, in the list, or in a session. -/
structure Apart (h : Set (UInt64 × Bytes)) (a : Accounts) : Prop where
  udb : a.udb.Recorded h
  range : ∀ i x, a.sess i = some x → x.LoggedIn → x.id ≠ 0 ∧ x.id < a.udb.nextId
  named : ∀ i x, a.sess i = some x → x.LoggedIn →
    ∃ n, x.name = some n ∧ ∀ p ∈ h, p.1 = x.id → p.2 = n
  same : ∀ i j x y, a.sess i = some x → a.sess j = some y → x.LoggedIn → y.LoggedIn →
    x.id = y.id → x.name = y.name

theorem Apart.mono {h : Set (UInt64 × Bytes)} {a : Accounts} (ha : Apart h a) {d : Udb}
    (hd : d.Recorded h) (hle : a.udb.nextId ≤ d.nextId) : Apart h { a with udb := d } :=
  ⟨hd, fun i x hx hlog => ⟨(ha.range i x hx hlog).1,
    UInt64.lt_of_lt_of_le (ha.range i x hx hlog).2 hle⟩, ha.named, ha.same⟩

theorem Apart.remap {h : Set (UInt64 × Bytes)} {a : Accounts} (ha : Apart h a)
    {g : Nat → Option Session} (hg : ∀ j x, g j = some x → ∃ k, a.sess k = some x) :
    Apart h { a with sess := g } := by
  refine ⟨ha.udb, ?_, ?_, ?_⟩
  · intro j x hx
    obtain ⟨k, hk⟩ := hg j x hx
    exact ha.range k x hk
  · intro j x hx
    obtain ⟨k, hk⟩ := hg j x hx
    exact ha.named k x hk
  · intro j j' x y hx hy
    obtain ⟨k, hk⟩ := hg j x hx
    obtain ⟨k', hk'⟩ := hg j' y hy
    exact ha.same k k' x y hk hk'

/-- A session may become one whose id nobody uses under another name. -/
theorem Apart.set {h : Set (UInt64 × Bytes)} {a : Accounts} (ha : Apart h a) {i : Nat}
    {x : Session} (hrange : x.LoggedIn → x.id ≠ 0 ∧ x.id < a.udb.nextId)
    (hnamed : x.LoggedIn → ∃ n, x.name = some n ∧ ∀ p ∈ h, p.1 = x.id → p.2 = n)
    (hsame : x.LoggedIn → ∀ j y, a.sess j = some y → y.LoggedIn → x.id = y.id → x.name = y.name) :
    Apart h (a.set i x) := by
  refine ⟨ha.udb, ?_, ?_, ?_⟩
  · intro j y hy hlog
    rcases Accounts.set_sess hy with ⟨-, rfl⟩ | ⟨-, hy⟩
    · exact hrange hlog
    · exact ha.range j y hy hlog
  · intro j y hy hlog
    rcases Accounts.set_sess hy with ⟨-, rfl⟩ | ⟨-, hy⟩
    · exact hnamed hlog
    · exact ha.named j y hy hlog
  · intro j k y z hy hz hylog hzlog hid
    rcases Accounts.set_sess hy with ⟨-, rfl⟩ | ⟨-, hy'⟩
    · rcases Accounts.set_sess hz with ⟨-, rfl⟩ | ⟨-, hz'⟩
      · rfl
      · exact hsame hylog k z hz' hzlog hid
    · rcases Accounts.set_sess hz with ⟨-, rfl⟩ | ⟨-, hz'⟩
      · exact (hsame hzlog j y hy' hylog hid.symm).symm
      · exact ha.same j k y z hy' hz' hylog hzlog hid

/-- A session that is not logged in uses no id. -/
theorem Apart.set_out {h : Set (UInt64 × Bytes)} {a : Accounts} (ha : Apart h a) (i : Nat)
    {x : Session} (hx : x.st = .preLogin) : Apart h (a.set i x) := by
  have hout : ¬ x.LoggedIn := by
    rintro (hlog | hlog) <;> rw [hx] at hlog <;> cases hlog
  exact ha.set (fun hlog => absurd hlog hout) (fun hlog => absurd hlog hout)
    fun hlog => absurd hlog hout

/-- A LOGIN under a new name. -/
theorem Apart.loginTemp {h : Set (UInt64 × Bytes)} {a : Accounts} (ha : Apart h a) {i : Nat}
    {name : Bytes} {e₁ e₂ : FileEnv} (hroom : a.udb.nextId + 1 ≠ 0)
    (hknown : a.udb.Rereads e₁ ∨ (udbLoad e₁ a.udb).Rereads e₂ → a.udb.Known h) :
    Apart h ({ a with udb := (udbGettempid e₂ (udbLookupname e₁ a.udb name).1).1 }.set i
      { st := .authOk, id := (udbGettempid e₂ (udbLookupname e₁ a.udb name).1).2
        name := some name, key := none }) := by
  obtain ⟨hd, hnext⟩ := ha.udb.load fun hre => hknown (.inl hre)
  obtain ⟨hd', hnext'⟩ := hd.load fun hre => by
    rw [Udb.Known, onFile_congr (udbLoad_file e₁ a.udb)]
    exact hknown (.inr hre)
  have hn : (udbLoad e₂ (udbLoad e₁ a.udb)).nextId = a.udb.nextId := hnext'.trans hnext
  have hroom' : (udbLoad e₂ (udbLoad e₁ a.udb)).nextId + 1 ≠ 0 := by rw [hn]; exact hroom
  have hlt := lt_succ_of_ne hroom'
  have hbase : Apart h { a with udb := (udbGettempid e₂ (udbLoad e₁ a.udb)).1 } :=
    ha.mono (hd'.gettempid hroom') (by
      rw [← hn]
      exact UInt64.le_of_lt hlt)
  -- The new id is above everything stored and every id of a session.
  refine hbase.set (fun _ => ⟨hd'.next, hlt⟩) (fun _ => ⟨name, rfl, ?_⟩) ?_
  · intro p hp hid
    have habove := (hd'.range p hp).2
    rw [hid] at habove
    exact absurd habove (UInt64.lt_irrefl _)
  · intro _ j y hy hlog hid
    have habove := (ha.range j y hy hlog).2
    rw [← hid, ← hn] at habove
    exact absurd habove (UInt64.lt_irrefl _)

/-- A LOGIN of a registered user. -/
theorem Apart.loginUser {h : Set (UInt64 × Bytes)} {a : Accounts} (ha : Apart h a) {i : Nat}
    {x : Session} {name : Bytes} {e₁ : FileEnv} {u : User}
    (hknown : a.udb.Rereads e₁ → a.udb.Known h)
    (hu : (udbLookupname e₁ a.udb name).2 = some u) :
    Apart h ({ a with udb := (udbLookupname e₁ a.udb name).1 }.set i (x.challenge u)) := by
  obtain ⟨hd, hnext⟩ := ha.udb.load hknown
  have htag := hd.entries u (lookupname_mem hu).1
  have hbase : Apart h { a with udb := (udbLookupname e₁ a.udb name).1 } :=
    ha.mono hd (by rw [udbLookupname, hnext]; exact UInt64.le_refl _)
  refine hbase.set (fun _ => hd.range _ htag) (fun _ => ⟨u.name, rfl, ?_⟩) ?_
  · intro p hp hid
    exact hd.one p hp u.tag htag hid
  · intro _ j y hy hlog hid
    obtain ⟨m, hm, hall⟩ := ha.named j y hy hlog
    have hname : u.name = m := hall u.tag htag hid
    rw [hm, ← hname]
    rfl

/-- A REGISTER, which is the only step that stores anything that is not in the history. -/
theorem Apart.register {h : Set (UInt64 × Bytes)} {a : Accounts} (ha : Apart h a) {i : Nat}
    {x : Session} {n pubkey : Bytes} {e₁ e₂ : FileEnv} (hi : a.sess i = some x)
    (hst : x.st = .authOk) (hn : x.name = some n)
    (hknown : a.udb.Rereads e₁ ∨ (udbDropentry e₁ a.udb n).1.Rereads e₂ → a.udb.Known h) :
    Apart (h ∪ (udbAddentry e₂ (udbDropentry e₁ a.udb n).1 x.id n
        (AUTH_KEY_PLAINTEXT ++ pubkey)).1.tags)
      { a with udb := (udbAddentry e₂ (udbDropentry e₁ a.udb n).1 x.id n
          (AUTH_KEY_PLAINTEXT ++ pubkey)).1 } := by
  have hlog : x.LoggedIn := .inr hst
  obtain ⟨hid, hlt⟩ := ha.range i x hi hlog
  obtain ⟨m, hm, hall⟩ := ha.named i x hi hlog
  cases hn.symm.trans hm
  obtain ⟨hd, hnext⟩ := ha.udb.dropentry (fun hre => hknown (.inl hre)) n
  obtain ⟨hd', hnext'⟩ := hd.load fun hre => by
    rw [Udb.Known, onFile_dropentry hre]
    exact hknown (.inr hre)
  obtain ⟨hadd, hsame, hnew⟩ := hd'.addentry (AUTH_KEY_PLAINTEXT ++ pubkey) hid
    (by rw [hnext', hnext]; exact hlt) hall
  have htags : (udbAddentry e₂ (udbDropentry e₁ a.udb n).1 x.id n
      (AUTH_KEY_PLAINTEXT ++ pubkey)).1.tags =
      (udbAddentry_ (udbLoad e₂ (udbDropentry e₁ a.udb n).1) x.id n
        (AUTH_KEY_PLAINTEXT ++ pubkey)).1.tags := by
    rw [udbAddentry, Udb.tags, Udb.tags, udbSave_userdb]
  have hcount : (udbAddentry e₂ (udbDropentry e₁ a.udb n).1 x.id n
      (AUTH_KEY_PLAINTEXT ++ pubkey)).1.nextId = a.udb.nextId := by
    rw [udbAddentry, udbSave_nextId, hsame, hnext', hnext]
  rw [htags]
  refine ⟨?_, ?_, ?_, ha.same⟩
  · refine hadd.of_sublist (by rw [udbAddentry, udbSave_userdb]) ?_
    rw [udbAddentry, udbSave_nextId]
  · intro j y hy hy'
    rw [hcount]
    exact ha.range j y hy hy'
  · intro j y hy hy'
    obtain ⟨k, hk, hold⟩ := ha.named j y hy hy'
    refine ⟨k, hk, ?_⟩
    intro p hp hpid
    rcases hp.elim .inl (hnew p) with hp | rfl
    · exact hold p hp hpid
    · have hsn := ha.same i j x y hi hy hlog hy' hpid
      rw [hn, hk] at hsn
      exact Option.some.inj hsn

/-- **Ids stay apart** across every step that reads nothing unknown. -/
theorem Apart.step {h : Set (UInt64 × Bytes)} {a b : Accounts} {e : AcctEvent} (ha : Apart h a)
    (hk : a.KeepsIds h e) (hstep : AcctStep a e b) : Apart (h ∪ b.udb.tags) b := by
  have hold : ∀ {b : Accounts}, Apart h b → Apart (h ∪ b.udb.tags) b := by
    intro b hb
    rw [hb.udb.union_tags]
    exact hb
  cases hstep with
  | idle => exact hold ha
  | connect hi => exact hold (ha.set_out _ rfl)
  | remap f =>
      refine hold (ha.remap ?_)
      intro j x hx
      obtain ⟨k, -, hk⟩ := Option.bind_eq_some_iff.mp hx
      exact ⟨k, hk⟩
  | loginTaken hi hst hnone hused =>
      obtain ⟨hd, hnext⟩ := ha.udb.load fun hre => hk.2 (.inl hre)
      exact hold (ha.mono hd (by rw [udbLookupname, hnext]; exact UInt64.le_refl _))
  | loginTemp hi hst hnone hfree => exact hold (ha.loginTemp (hk.1 hnone hfree) hk.2)
  | loginUser hi hst hu => exact hold (ha.loginUser (fun hre => hk.2 (.inl hre)) hu)
  | authFailed hi hbad => exact hold (ha.set_out _ rfl)
  | @authOk i x key hi hst hkey =>
      have hbase : Apart h { a with sess := fun j => (a.sess j).filter fun y => y.id ≠ x.id } :=
        ha.remap fun j y hy => ⟨j, (Option.filter_eq_some_iff.mp hy).1⟩
      refine hold (hbase.set (fun _ => ha.range i x hi (.inl hst))
        (fun _ => ha.named i x hi (.inl hst)) ?_)
      intro _ j y hy hlog hid
      exact ha.same i j x y hi (Option.filter_eq_some_iff.mp hy).1 (.inl hst) hlog hid
  | logout hi hst => exact hold (ha.set_out _ rfl)
  | register hi hst hn => exact ha.register hi hst hn (hk _ _ hi hn)
  | @drop i x n e₁ hi hst hn =>
      obtain ⟨hd, hnext⟩ := ha.udb.dropentry hk n
      exact hold (ha.mono hd (by rw [hnext]; exact UInt64.le_refl _))

/-! ## Installations -/

/-- A server installation: the process, and every id that has been stored so far with
the name of its account. -/
structure Installation where
  server : Server
  stored : List (UInt64 × Bytes)

/-- What happens to an installation: an event of the running server, or a stop and a
start with some configuration, which finds the database file as it was left. -/
inductive InstallEvent where
  | run (e : SrvEvent)
  | restart (cfg : SrvCfg) (listenfd : Int) (e : FileEnv)

/-- The installation after the server became `t`. -/
def Installation.now (i : Installation) (t : Server) : Installation :=
  { server := t, stored := t.udb.userdb.map User.tag ++ i.stored }

/-- An installation that is run and restarted. The first start finds any file. -/
def installLts : Lts Installation InstallEvent where
  init i := ∃ cfg listenfd e file, 0 ≤ listenfd ∧
    i = { server := Server.initial cfg listenfd (udbInit e file)
          stored := (udbInit e file).userdb.map User.tag }
  step i e j :=
    match e with
    | .run e => ∃ t, (srvLts fun _ => True).step i.server e t ∧ j = i.now t
    | .restart cfg listenfd e => 0 ≤ listenfd ∧
        j = i.now (Server.initial cfg listenfd (udbInit e i.server.udb.file))

/-- What has been stored. -/
def Installation.tags (i : Installation) : Set (UInt64 × Bytes) := { p | p ∈ i.stored }

/-- No id has been stored for accounts of different names. -/
def Installation.NoReuse (i : Installation) : Prop :=
  ∀ p ∈ i.stored, ∀ q ∈ i.stored, p.1 = q.1 → p.2 = q.2

/-- The event reads nothing from the file that has not been stored before, uses up
no counter, and, if it is a start, finds the highest stored id in the file. -/
def Installation.KeepsIds (i : Installation) : InstallEvent → Prop
  | .run e => i.server.acct.KeepsIds i.tags (acctEvent i.server e)
  | .restart _ _ e =>
      (∀ u ∈ (udbInit e i.server.udb.file).userdb, u.tag ∈ i.tags ∧ u.id ≠ 0xffffffffffffffff) ∧
        ∀ p ∈ i.stored, ∃ u ∈ (udbInit e i.server.udb.file).userdb, p.1 ≤ u.id

/-- A first start with a file in which no id has two names, and none is the last. -/
def Installation.Clean (i : Installation) : Prop :=
  i.NoReuse ∧ ∀ p ∈ i.stored, p.1 ≠ 0xffffffffffffffff

/-- The invariant of an installation. -/
structure Installation.Ok (i : Installation) : Prop where
  slots : SlotsOk i.server
  apart : Apart i.tags i.server.acct

theorem Installation.tags_now (i : Installation) (t : Server) :
    (i.now t).tags = i.tags ∪ t.udb.tags := by
  ext p
  simp only [Installation.tags, Installation.now, Udb.tags, Set.mem_union, Set.mem_ofPred_eq,
    List.mem_append, List.mem_map]
  exact or_comm

/-- A start has no sessions. -/
theorem apart_start {h : Set (UInt64 × Bytes)} {d : Udb} (hd : d.Recorded h) (cfg : SrvCfg)
    (listenfd : Int) : Apart h (Server.initial cfg listenfd d).acct := by
  have hdead : ∀ j x, (Server.initial cfg listenfd d).acct.sess j ≠ some x :=
    fun j x hx => absurd (acct_sess_eq_some hx).1.2 (show ¬ (0 : Int) ≤ -1 by decide)
  exact ⟨hd, fun j x hx => absurd hx (hdead j x), fun j x hx => absurd hx (hdead j x),
    fun j _ x _ hx => absurd hx (hdead j x)⟩

/-- One event that keeps the ids. -/
theorem Installation.Ok.step {i j : Installation} {e : InstallEvent} (h : i.Ok)
    (hk : i.KeepsIds e) (hstep : installLts.step i e j) : j.Ok := by
  cases e with
  | run e =>
      obtain ⟨t, ⟨hen, -, ht⟩, rfl⟩ := hstep
      refine ⟨h.slots.step hen ht, ?_⟩
      rw [Installation.tags_now]
      exact h.apart.step hk (srvStep_acct h.slots hen ht)
  | restart cfg listenfd e =>
      obtain ⟨-, rfl⟩ := hstep
      obtain ⟨hread, htop⟩ := hk
      have hd := recorded_start h.apart.udb.one (fun p hp => (h.apart.udb.range p hp).1) hread htop
      refine ⟨slotsOk_initial cfg listenfd _, ?_⟩
      rw [Installation.tags_now, show (Server.initial cfg listenfd
        (udbInit e i.server.udb.file)).udb.tags = (udbInit e i.server.udb.file).tags from rfl,
        hd.union_tags]
      exact apart_start hd cfg listenfd

/-- The first start. -/
theorem Installation.Clean.ok {i : Installation} (hi : installLts.init i) (hclean : i.Clean) :
    i.Ok := by
  obtain ⟨cfg, listenfd, e, file, -, rfl⟩ := hi
  obtain ⟨hone, hlast⟩ := hclean
  refine ⟨slotsOk_initial cfg listenfd _, apart_start ?_ cfg listenfd⟩
  have hmem : ∀ u ∈ (udbInit e file).userdb, u.tag ∈ (udbInit e file).userdb.map User.tag :=
    fun u hu => List.mem_map_of_mem hu
  refine recorded_start hone ?_ (fun u hu => ⟨hmem u hu, hlast _ (hmem u hu)⟩) ?_
  · intro p hp
    obtain ⟨u, hu, rfl⟩ := List.mem_map.mp hp
    exact (mem_udbInit hu).1
  · intro p hp
    obtain ⟨u, hu, rfl⟩ := List.mem_map.mp hp
    exact ⟨u, hu, UInt64.le_refl _⟩

/-- **Ids are never reused for another account** in a history that starts with a clean
file and whose events all keep the ids. -/
theorem ids_not_reused {i j : Installation} {es : List InstallEvent} (hi : installLts.init i)
    (hclean : i.Clean) (hrun : (installLts.guard Installation.KeepsIds).Run i es j) : j.NoReuse := by
  have hok : j.Ok := hrun.preserves (fun s e t hs h => hs.step h.2 h.1) (hclean.ok hi)
  exact hok.apart.udb.one

/-! ## Two histories -/

/-- The events of an installation, as a function. -/
def installTry (i : Installation) : InstallEvent → Option Installation
  | .run e => (srvTry i.server e).map i.now
  | .restart cfg listenfd e =>
      if 0 ≤ listenfd then
        some (i.now (Server.initial cfg listenfd (udbInit e i.server.udb.file)))
      else none

theorem installTry_step {i j : Installation} {e : InstallEvent} (h : installTry i e = some j) :
    installLts.step i e j := by
  cases e with
  | run e =>
      obtain ⟨t, ht, rfl⟩ := Option.map_eq_some_iff.mp h
      exact ⟨t, srvTry_step _ trivial ht, rfl⟩
  | restart cfg listenfd e =>
      simp only [installTry] at h
      split at h
      · rename_i hfd
        cases h
        exact ⟨hfd, rfl⟩
      · cases h

/-- What makes an event keep the ids, as a test: everything on file is known. -/
def Installation.checks (i : Installation) (e : InstallEvent) : Bool :=
  i.server.udb.nextId + 1 != 0 && (i.server.udb.onFile.all fun u => i.stored.contains u.tag) &&
    match e with
    | .run _ => true
    | .restart _ _ e =>
        ((udbInit e i.server.udb.file).userdb.all fun u =>
          i.stored.contains u.tag && u.id != 0xffffffffffffffff) &&
        i.stored.all fun p => (udbInit e i.server.udb.file).userdb.any fun u => decide (p.1 ≤ u.id)

theorem keepsIds_of_checks {i : Installation} {e : InstallEvent} (h : i.checks e = true) :
    i.KeepsIds e := by
  unfold Installation.checks at h
  rw [Bool.and_eq_true, Bool.and_eq_true, bne_iff_ne, List.all_eq_true] at h
  obtain ⟨⟨hroom, hall⟩, h⟩ := h
  have hknown : i.server.udb.Known i.tags := fun u hu => List.contains_iff_mem.mp (hall u hu)
  cases e with
  | run e =>
      show i.server.acct.KeepsIds i.tags (acctEvent i.server e)
      generalize acctEvent i.server e = a
      cases a with
      | login j n e₁ e₂ => exact ⟨fun _ _ => hroom, fun _ => hknown⟩
      | register j k e₁ e₂ => exact fun _ _ _ _ _ => hknown
      | drop j e₁ => exact fun _ => hknown
      | _ => trivial
  | restart cfg listenfd e =>
      simp only [Bool.and_eq_true, List.all_eq_true, List.any_eq_true, bne_iff_ne,
        decide_eq_true_eq] at h
      exact ⟨fun u hu => ⟨List.contains_iff_mem.mp (h.1 u hu).1, (h.1 u hu).2⟩, h.2⟩

/-- A client connects, logs in under a free name and registers. -/
def newAccount (name : Bytes) : List InstallEvent :=
  (SrvEvent.accept 4 true 1 :: arrival 0 (requestOctets .loginReq .username (.str name)) ++
    arrival 0 (requestOctets .registerReq .pubkey (.blob (ascii "k" ++ [0])))).map .run

/-- The server is stopped and started again. -/
def cleanRestart : InstallEvent := .restart ⟨4, 10, 10⟩ 3 .good

/-- An installation that starts without a database file. -/
def freshInstall : Installation := { server := demoServer none, stored := [] }

theorem freshInstall_init : installLts.init freshInstall :=
  ⟨_, 3, .good, none, by decide, rfl⟩

/-- One account before a restart, and one after it. -/
theorem ids_not_reused_two :
    ∃ j : Installation, ((1, ascii "alice") ∈ j.stored ∧ (2, ascii "bob") ∈ j.stored) ∧
      j.NoReuse := by
  have hexec : (Lts.exec (fun i e => if i.checks e then installTry i e else none) freshInstall
      (newAccount (ascii "alice") ++ cleanRestart :: newAccount (ascii "bob"))).any (fun j =>
        j.stored.contains (1, ascii "alice") && j.stored.contains (2, ascii "bob")) = true := by
    decide +kernel
  obtain ⟨j, hrun, hj⟩ := Lts.run_of_exec
    (M := installLts.guard Installation.KeepsIds) (fun i e j h => by
      split at h
      · rename_i hc
        exact ⟨installTry_step h, keepsIds_of_checks hc⟩
      · cases h) hexec
  rw [Bool.and_eq_true] at hj
  have hclean : freshInstall.Clean :=
    ⟨fun p hp => absurd hp List.not_mem_nil, fun p hp => absurd hp List.not_mem_nil⟩
  exact ⟨j, And.imp List.contains_iff_mem.mp List.contains_iff_mem.mp hj,
    ids_not_reused freshInstall_init hclean hrun⟩

/-- The account with the highest id is dropped before a restart: its id goes to the
next account. -/
theorem id_reused :
    ∃ es j, installLts.Run freshInstall es j ∧ (1, ascii "alice") ∈ j.stored ∧
      (1, ascii "bob") ∈ j.stored ∧ ¬ j.NoReuse := by
  have hexec : (Lts.exec installTry freshInstall
      (newAccount (ascii "alice") ++ .run (.read 0 1 (.got (mbufCompose 0 .dropReq 0 0 1).b)
        ⟨[], 0, .good, .good⟩) :: cleanRestart :: newAccount (ascii "bob"))).any (fun j =>
        j.stored.contains (1, ascii "alice") && j.stored.contains (1, ascii "bob")) = true := by
    decide +kernel
  obtain ⟨j, hrun, hj⟩ := Lts.run_of_exec (fun _ _ _ => installTry_step) hexec
  rw [Bool.and_eq_true] at hj
  obtain ⟨halice, hbob⟩ := And.imp List.contains_iff_mem.mp List.contains_iff_mem.mp hj
  refine ⟨_, j, hrun, halice, hbob, ?_⟩
  intro hno
  exact absurd (hno _ halice _ hbob rfl) (by decide)

end Frelay
