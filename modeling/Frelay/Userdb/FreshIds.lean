import Frelay.Userdb.Map

/-!
# The id counter

`next_id` is raised above every id that enters the list, in 64-bit arithmetic.
As long as it does not wrap, all ids in the list lie between 0 and the counter
(`Udb.InRange`), and what `udb_gettempid` hands out is new.

* `Udb.InRange.load` — the counter while the file is read;
* `tempid_fresh_iff` — 2^32 calls have room exactly when no id in the file is
  within 2^32 of the top of the range.
-/

namespace Frelay

open Lib

/-! ## Counting -/

theorem toNat_succ_of_ne {x : UInt64} (h : x + 1 ≠ 0) : (x + 1).toNat = x.toNat + 1 := by
  have hlt := x.toNat_lt
  rw [UInt64.toNat_add, show (1 : UInt64).toNat = 1 from rfl]
  by_cases hmax : x.toNat + 1 = 2 ^ 64
  · refine absurd (UInt64.toNat_inj.mp ?_) h
    rw [UInt64.toNat_add, show (1 : UInt64).toNat = 1 from rfl, hmax]
    rfl
  · exact Nat.mod_eq_of_lt (by omega)

theorem lt_succ_of_ne {x : UInt64} (h : x + 1 ≠ 0) : x < x + 1 := by
  rw [UInt64.lt_iff_toNat_lt, toNat_succ_of_ne h]
  omega

/-- The ids of all entries lie between 0 and the counter. -/
structure Udb.InRange (d : Udb) : Prop where
  next : d.nextId ≠ 0
  ids : ∀ u ∈ d.userdb, u.id ≠ 0 ∧ u.id < d.nextId

/-- Reading the file, if that is what `udb_load` does, never takes the counter
through 0. -/
def LoadCounts (e : FileEnv) (d : Udb) : Prop :=
  d.userdb = [] → e.rd = true → ∀ f, d.file = some f → ∀ n,
    (((fgetsAll LINE_CHARS f).take n).foldl loadLine d).nextId ≠ 0

theorem Udb.InRange.addentry_ {d : Udb} (h : d.InRange) {id : UInt64} (name key : Bytes)
    (hid : id ≠ 0) (hne : (udbAddentry_ d id name key).1.nextId ≠ 0) :
    (udbAddentry_ d id name key).1.InRange ∧
      d.nextId ≤ (udbAddentry_ d id name key).1.nextId := by
  rcases addentry_cases d id name key with heq | ⟨p, hpid, -, -, -, -, heq⟩
  · rw [heq]
    exact ⟨h, UInt64.le_refl _⟩
  · rw [if_pos hid] at hpid
    rw [heq] at hne ⊢
    simp only at hne ⊢
    by_cases hle : d.nextId ≤ p.id
    · rw [if_pos hle] at hne ⊢
      have hlt := lt_succ_of_ne hne
      refine ⟨⟨hne, ?_⟩, UInt64.le_trans hle (UInt64.le_of_lt hlt)⟩
      intro u hu
      rcases List.mem_cons.mp hu with rfl | hu
      · exact ⟨by rw [hpid]; exact hid, hlt⟩
      · obtain ⟨h0, hu⟩ := h.ids u hu
        exact ⟨h0, UInt64.lt_trans (UInt64.lt_of_lt_of_le hu hle) hlt⟩
    · rw [if_neg hle]
      refine ⟨⟨h.next, ?_⟩, UInt64.le_refl _⟩
      intro u hu
      rcases List.mem_cons.mp hu with rfl | hu
      · exact ⟨by rw [hpid]; exact hid, UInt64.not_le.mp hle⟩
      · exact h.ids u hu

theorem inRange_foldl {ls : List Bytes} {d : Udb} (h : d.InRange)
    (hne : ∀ n, ((ls.take n).foldl loadLine d).nextId ≠ 0) :
    (ls.foldl loadLine d).InRange ∧ d.nextId ≤ (ls.foldl loadLine d).nextId := by
  induction ls generalizing d with
  | nil => exact ⟨h, UInt64.le_refl _⟩
  | cons l ls ih =>
      have hone : (loadLine d l).InRange ∧ d.nextId ≤ (loadLine d l).nextId := by
        have hl : (loadLine d l).nextId ≠ 0 := hne 1
        rcases loadLine_cases d l with heq | ⟨u, hu, heq⟩
        · rw [heq]
          exact ⟨h, UInt64.le_refl _⟩
        · rw [heq] at hl ⊢
          exact h.addentry_ _ _ (parseLine_id hu) hl
      obtain ⟨hr, hle⟩ := ih hone.1 fun n => hne (n + 1)
      exact ⟨hr, UInt64.le_trans hone.2 hle⟩

/-- Loading a file that does not make the counter wrap. -/
theorem Udb.InRange.load {e : FileEnv} {d : Udb} (h : d.InRange) (hc : LoadCounts e d) :
    (udbLoad e d).InRange ∧ d.nextId ≤ (udbLoad e d).nextId := by
  unfold udbLoad
  split
  · exact ⟨h, UInt64.le_refl _⟩
  · rename_i hnil
    split
    · rename_i f hf
      split
      · rename_i hrd
        exact inRange_foldl h (hc (not_not.mp hnil) hrd f hf)
      · exact ⟨h, UInt64.le_refl _⟩
    · exact ⟨h, UInt64.le_refl _⟩

theorem Udb.InRange.of_sublist {d d' : Udb} (h : d.InRange) (hsub : d'.userdb.Sublist d.userdb)
    (hnext : d'.nextId = d.nextId) : d'.InRange :=
  ⟨by rw [hnext]; exact h.next, fun u hu => by rw [hnext]; exact h.ids u (hsub.subset hu)⟩

theorem Udb.InRange.dropentry {e : FileEnv} {d : Udb} (h : d.InRange) (hc : LoadCounts e d)
    (name : Bytes) :
    (udbDropentry e d name).1.InRange ∧ d.nextId ≤ (udbDropentry e d name).1.nextId := by
  obtain ⟨hr, hle⟩ := h.load hc
  have hnext : (udbDropentry e d name).1.nextId = (udbLoad e d).nextId := by
    unfold udbDropentry
    simp only
    split
    · exact udbSave_nextId _ _
    · rfl
  exact ⟨hr.of_sublist (udbDropentry_sublist e d name) hnext, hnext ▸ hle⟩

/-! ## Ids handed out in one run -/

/-- The database of a process, and the ids it has handed out. -/
structure IdRun where
  db : Udb
  issued : List UInt64

/-- The ids a call may add an entry under: one issued before, or one that is in the
database already. -/
def IdRun.Legal (s : IdRun) : UdbOp → Prop
  | .addentry e id _ _ => id ∈ s.issued ∨ ∃ u ∈ (udbLoad e s.db).userdb, u.id = id
  | _ => True

/-- The state after a call. -/
def IdRun.after (s : IdRun) (op : UdbOp) : IdRun where
  db := op.after s.db
  issued :=
    match op with
    | .gettempid e => (udbGettempid e s.db).2 :: s.issued
    | _ => s.issued

/-- A process that has read its database file. -/
def idLts : Lts IdRun UdbOp where
  init s := ∃ e file, s = ⟨udbInit e file, []⟩
  step s op t := s.Legal op ∧ t = s.after op

/-- The id that `udb_gettempid` would return now is no reserved one, not in the
database, and not issued before. -/
def IdRun.Fresh (s : IdRun) (e : FileEnv) : Prop :=
  let x := (udbGettempid e s.db).2
  x ≠ 0 ∧ x ≠ 0xffffffffffffffff ∧ (∀ u ∈ (udbLoad e s.db).userdb, u.id ≠ x) ∧ x ∉ s.issued

/-- An id that leaves room for 2^32 others above it. -/
def Low (id : UInt64) : Prop := id < 0xffffffff00000000

instance (id : UInt64) : Decidable (Low id) := inferInstanceAs (Decidable (_ < _))

/-- If the call reads the file, the ids it reads are low. -/
def Udb.LoadsLow (d : Udb) (op : UdbOp) : Prop :=
  d.userdb = [] → ∀ u ∈ (udbLoad op.env d).userdb, Low u.id

/-- After `n` calls the counter is at most `n` above the low ids. -/
structure IdRun.Counted (s : IdRun) (n : Nat) : Prop where
  range : s.db.InRange
  next : s.db.nextId.toNat ≤ 2 ^ 64 - 2 ^ 32 + n
  issued : ∀ x ∈ s.issued, x ≠ 0 ∧ x < s.db.nextId

theorem Low.toNat {id : UInt64} (h : Low id) : id.toNat < 2 ^ 64 - 2 ^ 32 := by
  have hlt := UInt64.lt_iff_toNat_lt.mp h
  exact hlt

/-! ## Reading ids below a bound -/

theorem succ_ne_of_lt {x : UInt64} {B : Nat} (hB : B < 2 ^ 64) (h : x.toNat < B) : x + 1 ≠ 0 := by
  intro h0
  have hzero := congrArg UInt64.toNat h0
  rw [UInt64.toNat_add, show (1 : UInt64).toNat = 1 from rfl, show (0 : UInt64).toNat = 0 from rfl,
    Nat.mod_eq_of_lt (by omega)] at hzero
  omega

/-- The counter stays at or below a bound that all ids read are below. -/
theorem inRange_foldl_of_lt {B : Nat} (hB : B < 2 ^ 64) {ls : List Bytes} {d : Udb}
    (h : d.InRange) (hn : d.nextId.toNat ≤ B)
    (hids : ∀ u ∈ (ls.foldl loadLine d).userdb, u.id.toNat < B) :
    (ls.foldl loadLine d).InRange ∧ d.nextId ≤ (ls.foldl loadLine d).nextId ∧
      (ls.foldl loadLine d).nextId.toNat ≤ B := by
  induction ls generalizing d with
  | nil => exact ⟨h, UInt64.le_refl _, hn⟩
  | cons l ls ih =>
      rw [List.foldl_cons] at hids ⊢
      have hone : (loadLine d l).InRange ∧ d.nextId ≤ (loadLine d l).nextId ∧
          (loadLine d l).nextId.toNat ≤ B := by
        rcases loadLine_cases d l with heq | ⟨v, hv, heq⟩
        · rw [heq]
          exact ⟨h, UInt64.le_refl _, hn⟩
        · rcases addentry_cases d v.id v.name v.key with heq' | ⟨p, -, -, -, -, -, heq'⟩
          · rw [heq, heq']
            exact ⟨h, UInt64.le_refl _, hn⟩
          · -- The new entry is still there in the end, so its id is below the bound.
            have hp : p.id.toNat < B := hids p (mem_foldl_loadLine (by
              rw [heq, heq']
              exact List.mem_cons_self))
            have hsucc := succ_ne_of_lt hB hp
            have hne : (udbAddentry_ d v.id v.name v.key).1.nextId ≠ 0 := by
              rw [heq']
              simp only
              split
              · exact hsucc
              · exact h.next
            obtain ⟨hr, hle⟩ := h.addentry_ v.name v.key (parseLine_id hv) hne
            refine ⟨heq ▸ hr, heq ▸ hle, ?_⟩
            rw [heq, heq']
            simp only
            split
            · rw [toNat_succ_of_ne hsucc]
              omega
            · exact hn
      obtain ⟨hr, hle, hb⟩ := ih hone.1 hone.2.2 hids
      exact ⟨hr, UInt64.le_trans hone.2.1 hle, hb⟩

theorem Udb.InRange.load_of_lt {B : Nat} (hB : B < 2 ^ 64) {e : FileEnv} {d : Udb}
    (h : d.InRange) (hn : d.nextId.toNat ≤ B)
    (hids : d.userdb = [] → ∀ u ∈ (udbLoad e d).userdb, u.id.toNat < B) :
    (udbLoad e d).InRange ∧ d.nextId ≤ (udbLoad e d).nextId ∧ (udbLoad e d).nextId.toNat ≤ B := by
  by_cases hnil : d.userdb = []
  · have hids' := hids hnil
    unfold udbLoad at hids' ⊢
    rw [if_neg (not_not.mpr hnil)] at hids' ⊢
    cases hf : d.file with
    | none => exact ⟨h, UInt64.le_refl _, hn⟩
    | some f =>
        rw [hf] at hids'
        by_cases hrd : e.rd = true
        · simp only [if_pos hrd] at hids' ⊢
          exact inRange_foldl_of_lt hB h hn hids'
        · simp only [if_neg hrd]
          exact ⟨h, UInt64.le_refl _, hn⟩
  · rw [udbLoad_of_ne_nil hnil]
    exact ⟨h, UInt64.le_refl _, hn⟩

/-! ## Counting the calls -/

theorem IdRun.Counted.load {s : IdRun} {n : Nat} (h : s.Counted n) (hn : n < 2 ^ 32) {e : FileEnv}
    (hlow : s.db.userdb = [] → ∀ u ∈ (udbLoad e s.db).userdb, Low u.id) :
    IdRun.Counted ⟨udbLoad e s.db, s.issued⟩ n := by
  obtain ⟨hr, hle, hb⟩ := h.range.load_of_lt (B := 2 ^ 64 - 2 ^ 32 + n) (by omega) h.next
    fun hnil u hu => Nat.lt_of_lt_of_le (hlow hnil u hu).toNat (Nat.le_add_right _ _)
  exact ⟨hr, hb, fun x hx => ⟨(h.issued x hx).1, UInt64.lt_of_lt_of_le (h.issued x hx).2 hle⟩⟩

/-- The counter and the ids do not change, and entries may go. -/
theorem IdRun.Counted.of_sublist {s t : IdRun} {n : Nat} (h : s.Counted n)
    (hsub : t.db.userdb.Sublist s.db.userdb) (hnext : t.db.nextId = s.db.nextId)
    (hissued : t.issued = s.issued) : t.Counted n :=
  ⟨h.range.of_sublist hsub hnext, hnext ▸ h.next, by rw [hissued, hnext]; exact h.issued⟩

theorem IdRun.Counted.succ {s : IdRun} {n : Nat} (h : s.Counted n) : s.Counted (n + 1) :=
  ⟨h.range, Nat.le_succ_of_le h.next, h.issued⟩

/-- One call. -/
theorem IdRun.Counted.after {s : IdRun} {n : Nat} (h : s.Counted n) (hn : n + 1 < 2 ^ 32)
    {op : UdbOp} (hlegal : s.Legal op) (hlow : s.db.LoadsLow op) :
    (s.after op).Counted (n + 1) := by
  have hload := h.load (by omega) (e := op.env) hlow
  cases op with
  | lookupname e name => exact hload.succ
  | addentry e id name key =>
      -- A legal id is below the counter, so the counter stays where it is.
      have hid : id ≠ 0 ∧ id < (udbLoad e s.db).nextId := by
        rcases hlegal with hid | ⟨u, hu, rfl⟩
        · exact hload.issued id hid
        · exact hload.range.ids u hu
      have hnext : (udbAddentry_ (udbLoad e s.db) id name.1 key.1).1.nextId =
          (udbLoad e s.db).nextId := by
        rcases addentry_cases (udbLoad e s.db) id name.1 key.1 with heq | ⟨p, hp, -, -, -, -, heq⟩
        · rw [heq]
        · rw [if_pos hid.1] at hp
          rw [heq]
          exact if_neg (by rw [hp]; exact UInt64.not_le.mpr hid.2)
      have hadd : IdRun.Counted ⟨(udbAddentry_ (udbLoad e s.db) id name.1 key.1).1, s.issued⟩ n := by
        refine ⟨?_, ?_, ?_⟩
        · exact (hload.range.addentry_ name.1 key.1 hid.1 (hnext ▸ hload.range.next)).1
        · change (udbAddentry_ _ _ _ _).1.nextId.toNat ≤ _
          rw [hnext]
          exact hload.next
        · change ∀ x ∈ s.issued, x ≠ 0 ∧ x < (udbAddentry_ _ _ _ _).1.nextId
          rw [hnext]
          exact hload.issued
      refine IdRun.Counted.succ (hadd.of_sublist ?_ (udbSave_nextId e _) rfl)
      change (udbSave e _).userdb.Sublist _
      rw [udbSave_userdb]
  | dropentry e name =>
      refine IdRun.Counted.succ (hload.of_sublist (udbDropentry_sublist e s.db name.1) ?_ rfl)
      simp only [IdRun.after, UdbOp.after, udbDropentry]
      split
      · exact udbSave_nextId _ _
      · rfl
  | gettempid e =>
      have hlt : (udbLoad e s.db).nextId.toNat < 2 ^ 64 - 2 ^ 32 + n + 1 :=
        Nat.lt_succ_of_le hload.next
      have hne := succ_ne_of_lt (by omega) hlt
      have hsucc := lt_succ_of_ne hne
      refine ⟨⟨hne, ?_⟩, ?_, ?_⟩
      · intro u hu
        have hu' := hload.range.ids u hu
        exact ⟨hu'.1, UInt64.lt_trans hu'.2 hsucc⟩
      · change ((udbLoad e s.db).nextId + 1).toNat ≤ _
        rw [toNat_succ_of_ne hne]
        omega
      · intro x hx
        rcases List.mem_cons.mp hx with rfl | hx
        · exact ⟨hload.range.next, hsucc⟩
        · exact ⟨(hload.issued x hx).1, UInt64.lt_trans (hload.issued x hx).2 hsucc⟩

/-- With fewer than 2^32 - 1 calls behind it, the counter is at no reserved id. -/
theorem IdRun.Counted.fresh {s : IdRun} {n : Nat} (h : s.Counted n) (hn : n + 1 < 2 ^ 32)
    {e : FileEnv} (hlow : s.db.LoadsLow (.gettempid e)) : s.Fresh e := by
  have hload := h.load (by omega) (e := e) hlow
  refine ⟨hload.range.next, ?_, ?_, ?_⟩
  · intro hones
    have hle := hload.next
    change (udbGettempid e s.db).2.toNat ≤ _ at hle
    rw [hones, show (0xffffffffffffffff : UInt64).toNat = 2 ^ 64 - 1 from rfl] at hle
    omega
  · intro u hu heq
    exact absurd (hload.range.ids u hu).2 (by rw [heq]; exact UInt64.lt_irrefl _)
  · intro hmem
    exact absurd (hload.issued _ hmem).2 (UInt64.lt_irrefl _)

theorem counted_init {e : FileEnv} {file : Option Bytes}
    (hlow : ∀ u ∈ (udbInit e file).userdb, Low u.id) :
    IdRun.Counted ⟨udbInit e file, []⟩ 0 := by
  have hempty : IdRun.Counted ⟨{ userdb := [], nextId := 1, file := file }, []⟩ 0 :=
    ⟨⟨by exact (by decide : (1 : UInt64) ≠ 0), by simp⟩, by exact (by decide : 1 ≤ 2 ^ 64 - 2 ^ 32),
      by simp⟩
  exact hempty.load (by decide) fun _ => hlow

/-- As long as all ids that are read are low, 2^32 calls have room. -/
theorem fresh_of_low {e e' : FileEnv} {file : Option Bytes} {ops : List UdbOp} {s : IdRun}
    (hlow : ∀ u ∈ (udbInit e file).userdb, Low u.id) (hlen : ops.length + 1 < 2 ^ 32)
    (hrun : (idLts.guard fun s op => s.db.LoadsLow op).Run ⟨udbInit e file, []⟩ ops s)
    (hlast : s.db.LoadsLow (.gettempid e')) : s.Fresh e' := by
  have hcount := hrun.counts (P := fun s n => n < 2 ^ 32 → s.Counted n) (n := 0) ?_
    fun _ => counted_init hlow
  · rw [Nat.zero_add] at hcount
    exact (hcount (by omega)).fresh hlen hlast
  · rintro s op t n hs ⟨⟨hlegal, rfl⟩, hloads⟩ hn
    exact (hs (by omega)).after hn hlegal hloads

/-! ## Successful accesses -/

/-- A loaded database reads nothing. -/
theorem Udb.Loaded.loadsLow {d : Udb} (h : d.Loaded) (op : UdbOp) : d.LoadsLow op := by
  intro hnil u hu
  rw [h.load op.env, hnil] at hu
  cases hu

/-- The database after successful accesses is loaded. -/
theorem loaded_of_good {ops : List UdbOp} {s t : IdRun}
    (hrun : (idLts.guard fun _ op => op.env = .good).Run s ops t) (hs : s.db.Loaded) :
    t.db.Loaded := by
  refine hrun.preserves (P := fun s => s.db.Loaded) ?_ hs
  rintro s op t hl ⟨⟨-, rfl⟩, hgood⟩
  refine hl.after ?_
  cases op with
  | dropentry e name => exact fun _ => .inl (by rw [show e = .good from hgood]; rfl)
  | _ => trivial

/-- A run in which all accesses succeed reads the file once. -/
theorem run_loadsLow {ops : List UdbOp} {s t : IdRun}
    (hrun : (idLts.guard fun _ op => op.env = .good).Run s ops t) (hs : s.db.Loaded) :
    (idLts.guard fun s op => s.db.LoadsLow op).Run s ops t := by
  have hstep : ∀ s op t, s.db.Loaded → (idLts.guard fun _ op => op.env = .good).step s op t →
      t.db.Loaded ∧ (idLts.guard fun s op => s.db.LoadsLow op).step (id s) op (id t) :=
    fun s op t hl h => ⟨loaded_of_good (.cons h (.nil t)) hl, h.1, hl.loadsLow op⟩
  exact hrun.refine hstep hs

/-! ## Ids at the top of the range -/

/-- Ids handed out one after the other. -/
theorem run_gettempid {d : Udb} (hne : d.userdb ≠ []) (l : List UInt64) {k : Nat}
    (hk : d.nextId.toNat + k < 2 ^ 64) :
    ∃ s, (idLts.guard fun _ op => op.env = .good).Run ⟨d, l⟩
        (List.replicate k (.gettempid .good)) s ∧
      s.db.userdb ≠ [] ∧ s.db.nextId.toNat = d.nextId.toNat + k := by
  induction k generalizing d l with
  | zero => exact ⟨_, .nil _, hne, rfl⟩
  | succ k ih =>
      have hnext : (d.nextId + 1).toNat = d.nextId.toNat + 1 := by
        rw [UInt64.toNat_add, show (1 : UInt64).toNat = 1 from rfl, Nat.mod_eq_of_lt (by omega)]
      obtain ⟨s, hrun, hs, heq⟩ := ih (d := { d with nextId := d.nextId + 1 }) hne
        (d.nextId :: l) (by rw [hnext]; omega)
      refine ⟨s, .cons ⟨⟨trivial, ?_⟩, rfl⟩ hrun, hs, by rw [heq, hnext]; omega⟩
      rw [IdRun.after]
      simp only [UdbOp.after, udbGettempid, udbLoad_of_ne_nil hne]

/-- A valid name that is longer than all names in use. -/
theorem exists_free_name (d : Udb) : ∃ name : CStr, udbNameisvalid name.1 = true ∧
    ∀ u ∈ d.userdb, u.name ≠ name.1 := by
  let n := (d.userdb.map User.name).flatten.length
  refine ⟨⟨ascii "aaa" ++ chLF :: List.replicate n 97, ?_⟩, ?_, ?_⟩
  · intro h0
    rcases List.mem_append.mp h0 with h | h
    · exact absurd h (by decide)
    · rcases List.mem_cons.mp h with h | h
      · exact absurd h (by decide)
      · exact absurd (List.eq_of_mem_replicate h) (by decide)
  · rw [udbNameisvalid, List.splitOn_append_cons_self, List.any_append,
      show ((ascii "aaa").splitOn chLF).any unameRe = true by decide, Bool.true_or]
  · intro u hu hname
    have hmem : u.name ∈ d.userdb.map User.name := List.mem_map.mpr ⟨u, hu, rfl⟩
    have hlen := (List.sublist_flatten_of_mem hmem).length_le
    rw [hname, List.length_append, List.length_cons, List.length_replicate] at hlen
    exact absurd hlen (by omega)

/-- Adding an entry under the highest id takes the counter to 0. -/
theorem addentry_highest {d : Udb} (hne : d.userdb ≠ []) {name : CStr}
    (hvalid : udbNameisvalid name.1 = true) (hfree : ∀ u ∈ d.userdb, u.name ≠ name.1) :
    ((UdbOp.addentry .good 0xffffffffffffffff name name).after d).nextId = 0 ∧
      ((UdbOp.addentry .good 0xffffffffffffffff name name).after d).userdb ≠ [] := by
  simp only [UdbOp.after, udbAddentry, udbSave_nextId, udbSave_userdb, udbLoad_of_ne_nil hne]
  rcases addentry_cases d 0xffffffffffffffff name.1 name.1 with
    heq | ⟨p, hp, -, -, -, -, heq⟩
  · have hadded := (addentry_isSome (d := d) 0xffffffffffffffff name.1).mpr ⟨hvalid, hfree⟩
    rw [heq] at hadded
    cases hadded
  · rw [if_pos (by decide)] at hp
    rw [heq, hp]
    refine ⟨if_pos ?_, List.cons_ne_nil _ _⟩
    rw [UInt64.le_iff_toNat_le]
    exact Nat.le_of_lt_succ (UInt64.toNat_lt _)

/-- An entry whose id leaves too little room: some sequence of calls ends before a
call that returns an id it must not. -/
theorem not_fresh_of_high {file : Option Bytes} {u : User}
    (hu : u ∈ (udbInit .good file).userdb) (hhigh : ¬ Low u.id) :
    ∃ ops s, ops.length + 1 < 2 ^ 32 ∧
      (idLts.guard fun _ op => op.env = .good).Run ⟨udbInit .good file, []⟩ ops s ∧
      ¬ s.Fresh .good := by
  have hne := List.ne_nil_of_mem hu
  by_cases hones : ∃ v ∈ (udbInit .good file).userdb, v.id = 0xffffffffffffffff
  · obtain ⟨v, hv, hid⟩ := hones
    -- With the highest id stored once more the counter wraps.
    obtain ⟨name, hvalid, hfree⟩ := exists_free_name (udbInit .good file)
    obtain ⟨hnext, hlist⟩ := addentry_highest hne hvalid hfree
    refine ⟨[.addentry .good 0xffffffffffffffff name name],
      ⟨(UdbOp.addentry .good 0xffffffffffffffff name name).after (udbInit .good file), []⟩,
      Nat.lt_of_sub_pos (by exact (by decide : 0 < 2 ^ 32 - 2)),
      .cons ⟨⟨.inr ⟨v, ?_, hid⟩, rfl⟩, rfl⟩ (.nil _), ?_⟩
    · change v ∈ (udbLoad .good (udbInit .good file)).userdb
      rwa [udbLoad_of_ne_nil hne]
    · intro hfresh
      refine hfresh.1 ?_
      rw [udbGettempid, udbLoad_of_ne_nil hlist]
      exact hnext
  · have hbelow : ∀ v ∈ (udbInit .good file).userdb, v.id.toNat < 2 ^ 64 - 1 := by
      intro v hv
      have hlt := v.id.toNat_lt
      have hne : v.id.toNat ≠ 2 ^ 64 - 1 := fun h => hones ⟨v, hv, UInt64.toNat_inj.mp h⟩
      omega
    have hempty : Udb.InRange { userdb := [], nextId := 1, file := file } :=
      ⟨by exact (by decide : (1 : UInt64) ≠ 0), by simp⟩
    obtain ⟨hr, -, hb⟩ := hempty.load_of_lt (e := .good) (B := 2 ^ 64 - 1) (by omega)
      (by exact (by decide : 1 ≤ 2 ^ 64 - 1)) fun _ => hbelow
    change (udbInit .good file).InRange at hr
    change (udbInit .good file).nextId.toNat ≤ 2 ^ 64 - 1 at hb
    have hlt := UInt64.lt_iff_toNat_lt.mp (hr.ids u hu).2
    have hhigh' := UInt64.le_iff_toNat_le.mp (UInt64.not_lt.mp hhigh)
    rw [show (0xffffffff00000000 : UInt64).toNat = 2 ^ 64 - 2 ^ 32 from rfl] at hhigh'
    -- So many temporary users lead to the top of the range.
    obtain ⟨s, hrun, hs, hnext⟩ := run_gettempid hne []
      (k := 2 ^ 64 - 1 - (udbInit .good file).nextId.toNat) (by omega)
    refine ⟨_, s, by rw [List.length_replicate]; omega, hrun, ?_⟩
    intro hfresh
    refine hfresh.2.1 ?_
    rw [udbGettempid, udbLoad_of_ne_nil hs]
    apply UInt64.toNat_inj.mp
    change s.db.nextId.toNat = 2 ^ 64 - 1
    omega

/-! ## The result -/

/-- The ids handed out in a run of fewer than 2^32 calls on the file `file`, with all
file accesses successful, are fresh. -/
def FreshRuns (file : Option Bytes) : Prop :=
  ∀ ops s, ops.length + 1 < 2 ^ 32 →
    (idLts.guard fun _ op => op.env = .good).Run ⟨udbInit .good file, []⟩ ops s → s.Fresh .good

/-- **Fresh temporary ids.** When all file accesses succeed, the ids handed out in
every run of fewer than 2^32 calls are fresh exactly if no id that was read leaves
less room than that above it. Whatever accesses fail, they are fresh as long as the
file is never read with an id that high. -/
theorem tempid_fresh_iff (file : Option Bytes) :
    (FreshRuns file ↔ ∀ u ∈ (udbInit .good file).userdb, Low u.id) ∧
    ∀ e e' ops s, (∀ u ∈ (udbInit e file).userdb, Low u.id) → ops.length + 1 < 2 ^ 32 →
      (idLts.guard fun s op => s.db.LoadsLow op).Run ⟨udbInit e file, []⟩ ops s →
      s.db.LoadsLow (.gettempid e') → s.Fresh e' := by
  refine ⟨⟨?_, ?_⟩, fun e e' ops s => fresh_of_low⟩
  · intro h u hu
    by_contra hhigh
    obtain ⟨ops, s, hlen, hrun, hnot⟩ := not_fresh_of_high hu hhigh
    exact hnot (h ops s hlen hrun)
  · intro hlow ops s hlen hrun
    have hl : (udbInit .good file).Loaded := loaded_of_load rfl
    exact fresh_of_low hlow hlen (run_loadsLow hrun hl)
      ((loaded_of_good hrun hl).loadsLow _)

/-- The ids 0 and all-ones are handed out right after files with an entry at the top
of the range. -/
theorem tempid_not_fresh :
    ¬ FreshRuns (some (ascii "ffffffffffffffff|bob|x\n")) ∧
      ¬ FreshRuns (some (ascii "fffffffffffffffe|bob|x\n")) := by
  refine ⟨fun h => ?_, fun h => ?_⟩
  · exact (h [] _ (by decide) (.nil _)).1 (by decide +kernel)
  · exact (h [] _ (by decide) (.nil _)).2.1 (by decide +kernel)

end Frelay
