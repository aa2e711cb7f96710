import Frelay.Message.Types
import Frelay.Lib.CStr

/-!
# The user database (`srvuserdb.c`)

The linked list `userdb` with its head first, the counter `next_id` and the
text file behind them. Every public function starts with `udb_load`, which does
nothing unless the list is empty; the ones that change the list write the whole
file back.

A failing `fopen` is the only file error the code looks at. Which of the two
opens succeeds is the environment's choice (`FileEnv`), made anew at every call.
-/

namespace Frelay

open Lib

/-- `udb_t`: one registered user. -/
structure User where
  id : UInt64
  name : Bytes
  key : Bytes
  deriving DecidableEq, Repr

/-- The statics of `srvuserdb.c` and the file at `userdb_path`, if there is one. -/
structure Udb where
  userdb : List User
  nextId : UInt64
  file : Option Bytes
  deriving DecidableEq, Repr

/-- Whether the database file can be opened for reading and for writing. -/
structure FileEnv where
  rd : Bool
  wr : Bool
  deriving DecidableEq, Repr

/-- Both opens succeed. -/
def FileEnv.good : FileEnv := { rd := true, wr := true }

/-- The field delimiter. -/
def DELIM : UInt8 := 124

/-- The size of the line buffer of `udb_load`, less the terminating null. -/
def LINE_CHARS : Nat := 15999

/-! ## Names -/

/-- The character class of `UNAME_RE`. -/
def isUnameChar (c : UInt8) : Bool :=
  (97 ≤ c && c ≤ 122) || (65 ≤ c && c ≤ 90) || c == 95 || (48 ≤ c && c ≤ 57)

/-- One line that `UNAME_RE` matches from end to end. -/
def unameRe (l : Bytes) : Bool := 3 ≤ l.length && l.length ≤ 31 && l.all isUnameChar

/-- `udb_nameisvalid`. The pattern is compiled with `REG_NEWLINE`, so its anchors
match at the newlines inside the string as well. -/
def udbNameisvalid (s : Bytes) : Bool := (s.splitOn chLF).any unameRe

/-! ## The list -/

/-- `udb_lookupname_`. -/
def udbLookupname_ (d : Udb) (s : Bytes) : Option User := d.userdb.find? fun p => s == p.name

/-- `udb_addentry_`: the entry, if it was added. -/
def udbAddentry_ (d : Udb) (id : UInt64) (name key : Bytes) : Udb × Option User :=
  if !udbNameisvalid name then (d, none)
  else if (udbLookupname_ d name).isSome then (d, none)
  else
    let p : User := { id := if id ≠ 0 then id else d.nextId, name := name, key := key }
    ({ d with
        userdb := p :: d.userdb
        nextId := if d.nextId ≤ p.id then p.id + 1 else d.nextId }, some p)

/-- `udb_dropentry_`: unlink the first entry of the name. -/
def udbDropentry_ (d : Udb) (name : Bytes) : Udb × Bool :=
  ({ d with userdb := d.userdb.eraseP fun p => name == p.name },
    d.userdb.any fun p => name == p.name)

/-! ## The file -/

/-- Cut the key field at the first carriage return or else at the first newline. -/
def cutKey (key : Bytes) : Bytes :=
  if chCR ∈ key then key.takeWhile (· ≠ chCR) else key.takeWhile (· ≠ chLF)

/-- The fields of a line, unless it is invalid. -/
def parseLine (line : Bytes) : Option User :=
  let line := line.takeWhile (· ≠ 0)
  match strtoull16 line with
  | (id, c :: rest) =>
      if id = 0 ∨ c ≠ DELIM then none
      else (strchr DELIM rest).map fun p => { id := id, name := p.1, key := cutKey p.2 }
  | (_, []) => none

/-- One turn of the loop of `udb_load`. -/
def loadLine (d : Udb) (line : Bytes) : Udb :=
  match parseLine line with
  | some u => (udbAddentry_ d u.id u.name u.key).1
  | none => d

/-- `udb_load`. -/
def udbLoad (e : FileEnv) (d : Udb) : Udb :=
  if d.userdb ≠ [] then d
  else
    match d.file with
    | some f => if e.rd then (fgetsAll LINE_CHARS f).foldl loadLine d else d
    | none => d

/-- What `udb_save` prints for one entry. -/
def printLine (p : User) : Bytes :=
  hexPad 16 p.id.toNat ++ DELIM :: (p.name ++ DELIM :: (p.key ++ [chLF]))

/-- `udb_save`. -/
def udbSave (e : FileEnv) (d : Udb) : Udb :=
  if e.wr then { d with file := some (d.userdb.flatMap printLine) } else d

/-! ## The public functions -/

/-- `udb_init` in a fresh process. -/
def udbInit (e : FileEnv) (file : Option Bytes) : Udb :=
  udbLoad e { userdb := [], nextId := 1, file := file }

/-- `udb_lookupname`. -/
def udbLookupname (e : FileEnv) (d : Udb) (s : Bytes) : Udb × Option User :=
  let d := udbLoad e d
  (d, udbLookupname_ d s)

/-- `udb_addentry`. The file is written whether or not an entry was added. -/
def udbAddentry (e : FileEnv) (d : Udb) (id : UInt64) (name key : Bytes) : Udb × Option User :=
  let r := udbAddentry_ (udbLoad e d) id name key
  (udbSave e r.1, r.2)

/-- `udb_dropentry`. -/
def udbDropentry (e : FileEnv) (d : Udb) (name : Bytes) : Udb × Bool :=
  let r := udbDropentry_ (udbLoad e d) name
  if r.2 then (udbSave e r.1, true) else (r.1, false)

/-- `udb_gettempid`. -/
def udbGettempid (e : FileEnv) (d : Udb) : Udb × UInt64 :=
  let d := udbLoad e d
  ({ d with nextId := d.nextId + 1 }, d.nextId)

/-! ## What the list functions do -/

/-- No two entries have the same name, and every name is valid. -/
structure Udb.WellFormed (d : Udb) : Prop where
  names : (d.userdb.map User.name).Nodup
  valid : ∀ u ∈ d.userdb, udbNameisvalid u.name = true

theorem lookupname_eq_none {d : Udb} {s : Bytes} :
    udbLookupname_ d s = none ↔ ∀ u ∈ d.userdb, u.name ≠ s := by
  simp only [udbLookupname_, List.find?_eq_none, beq_iff_eq, ne_eq]
  exact ⟨fun h u hu he => h u hu he.symm, fun h u hu he => h u hu he.symm⟩

theorem lookupname_mem {d : Udb} {s : Bytes} {u : User} (h : udbLookupname_ d s = some u) :
    u ∈ d.userdb ∧ u.name = s := by
  have hname := List.find?_some h
  exact ⟨List.mem_of_find?_eq_some h, (beq_iff_eq.mp hname).symm⟩

/-- Names identify entries. -/
theorem Udb.WellFormed.eq_of_name {d : Udb} (h : d.WellFormed) {u v : User}
    (hu : u ∈ d.userdb) (hv : v ∈ d.userdb) (hname : u.name = v.name) : u = v :=
  List.inj_on_of_nodup_map h.names hu hv hname

theorem Udb.WellFormed.lookup_eq_some {d : Udb} (h : d.WellFormed) {s : Bytes} {u : User} :
    udbLookupname_ d s = some u ↔ u ∈ d.userdb ∧ u.name = s := by
  constructor
  · exact lookupname_mem
  · rintro ⟨hu, hname⟩
    cases hl : udbLookupname_ d s with
    | none => exact absurd hname (lookupname_eq_none.mp hl u hu)
    | some v =>
        obtain ⟨hv, hvn⟩ := lookupname_mem hl
        rw [h.eq_of_name hv hu (hvn.trans hname.symm)]

/-- Everything `udb_addentry_` can do. -/
theorem addentry_cases (d : Udb) (id : UInt64) (name key : Bytes) :
    udbAddentry_ d id name key = (d, none) ∨
    ∃ p : User, p.id = (if id ≠ 0 then id else d.nextId) ∧ p.name = name ∧ p.key = key ∧
      udbNameisvalid name = true ∧ (∀ u ∈ d.userdb, u.name ≠ name) ∧
      udbAddentry_ d id name key =
        ({ d with
            userdb := p :: d.userdb
            nextId := if d.nextId ≤ p.id then p.id + 1 else d.nextId }, some p) := by
  unfold udbAddentry_
  split
  · exact .inl rfl
  · rename_i hvalid
    split
    · exact .inl rfl
    · rename_i hlook
      refine .inr ⟨⟨if id ≠ 0 then id else d.nextId, name, key⟩, rfl, rfl, rfl, ?_, ?_, rfl⟩
      · simpa using hvalid
      · exact lookupname_eq_none.mp (by simpa using hlook)

/-- `udb_addentry_` succeeds exactly for a valid name that is not taken. -/
theorem addentry_isSome {d : Udb} (id : UInt64) {name : Bytes} (key : Bytes) :
    (udbAddentry_ d id name key).2.isSome ↔
      udbNameisvalid name = true ∧ ∀ u ∈ d.userdb, u.name ≠ name := by
  constructor
  · intro h
    rcases addentry_cases d id name key with heq | ⟨p, -, -, -, hvalid, hfree, -⟩
    · rw [heq] at h
      cases h
    · exact ⟨hvalid, hfree⟩
  · rintro ⟨hvalid, hfree⟩
    rw [udbAddentry_, if_neg (by simp [hvalid]),
      if_neg (by simp [lookupname_eq_none.mpr hfree])]
    rfl

theorem Udb.WellFormed.addentry_ {d : Udb} (h : d.WellFormed) (id : UInt64) (name key : Bytes) :
    (udbAddentry_ d id name key).1.WellFormed := by
  rcases addentry_cases d id name key with heq | ⟨p, -, hname, -, hvalid, hfree, heq⟩
  · rw [heq]
    exact h
  · rw [heq]
    refine ⟨?_, ?_⟩
    · rw [List.map_cons, List.nodup_cons, hname]
      refine ⟨?_, h.names⟩
      intro hmem
      obtain ⟨u, hu, hun⟩ := List.mem_map.mp hmem
      exact hfree u hu hun
    · intro u hu
      rcases List.mem_cons.mp hu with rfl | hu
      · rw [hname]
        exact hvalid
      · exact h.valid u hu

theorem dropentry_sublist (d : Udb) (name : Bytes) :
    (udbDropentry_ d name).1.userdb.Sublist d.userdb :=
  List.eraseP_sublist

/-- Dropping a name leaves the entries of all other names, and no other. -/
theorem Udb.WellFormed.mem_dropentry_ {d : Udb} (h : d.WellFormed) (name : Bytes) (u : User) :
    u ∈ (udbDropentry_ d name).1.userdb ↔ u ∈ d.userdb ∧ u.name ≠ name := by
  obtain ⟨l, nextId, file⟩ := d
  have hnames := h.names
  simp only [udbDropentry_] at hnames ⊢
  induction l with
  | nil => simp
  | cons p l ih =>
      have htail : Udb.WellFormed ⟨l, nextId, file⟩ :=
        ⟨(List.nodup_cons.mp hnames).2, fun u hu => h.valid u (List.mem_cons_of_mem _ hu)⟩
      rw [List.eraseP_cons]
      by_cases hp : name == p.name
      · have hpn := (beq_iff_eq.mp hp).symm
        rw [hp, cond_true, List.mem_cons]
        constructor
        · intro hu
          refine ⟨.inr hu, ?_⟩
          intro hun
          -- Another entry of that name would be a duplicate of the one dropped.
          apply (List.nodup_cons.mp hnames).1
          rw [hpn, ← hun]
          exact List.mem_map.mpr ⟨u, hu, rfl⟩
        · rintro ⟨rfl | hu, hun⟩
          · exact absurd hpn hun
          · exact hu
      · have hpn : p.name ≠ name := fun he => hp (beq_iff_eq.mpr he.symm)
        have hih : u ∈ l.eraseP (fun p => name == p.name) ↔ u ∈ l ∧ u.name ≠ name :=
          ih htail (List.nodup_cons.mp hnames).2
        rw [eq_false_of_ne_true hp, cond_false, List.mem_cons, List.mem_cons, hih]
        constructor
        · rintro (rfl | ⟨hu, hun⟩)
          · exact ⟨.inl rfl, hpn⟩
          · exact ⟨.inr hu, hun⟩
        · rintro ⟨rfl | hu, hun⟩
          · exact .inl rfl
          · exact .inr ⟨hu, hun⟩

theorem Udb.WellFormed.of_sublist {d d' : Udb} (h : d.WellFormed)
    (hsub : d'.userdb.Sublist d.userdb) : d'.WellFormed :=
  ⟨h.names.sublist (hsub.map User.name), fun u hu => h.valid u (hsub.subset hu)⟩

/-- The second component says whether the name was there. -/
theorem dropentry_found {d : Udb} {name : Bytes} :
    (udbDropentry_ d name).2 = true ↔ ∃ u ∈ d.userdb, u.name = name := by
  simp only [udbDropentry_, List.any_eq_true, beq_iff_eq]
  exact ⟨fun ⟨u, hu, h⟩ => ⟨u, hu, h.symm⟩, fun ⟨u, hu, h⟩ => ⟨u, hu, h.symm⟩⟩

theorem dropentry_not_found {d : Udb} {name : Bytes} (h : (udbDropentry_ d name).2 = false) :
    (udbDropentry_ d name).1 = d := by
  have hnone : ∀ u ∈ d.userdb, u.name ≠ name := by
    intro u hu hun
    have := dropentry_found.mpr ⟨u, hu, hun⟩
    rw [h] at this
    cases this
  have herase : d.userdb.eraseP (fun p => name == p.name) = d.userdb := by
    apply List.eraseP_of_forall_not
    intro u hu
    simp only [beq_iff_eq]
    exact fun he => hnone u hu he.symm
  simp only [udbDropentry_, herase]

/-- A drop that empties the list drops its only entry. -/
theorem dropentry_eq_nil {d : Udb} {name : Bytes} (hfound : (udbDropentry_ d name).2 = true)
    (hnil : (udbDropentry_ d name).1.userdb = []) : ∃ u, d.userdb = [u] ∧ u.name = name := by
  obtain ⟨u, hu, hname⟩ := dropentry_found.mp hfound
  have hlen : (d.userdb.eraseP fun p => name == p.name).length = d.userdb.length - 1 :=
    List.length_eraseP_of_mem hu (by simp [hname])
  have hzero : (d.userdb.eraseP fun p => name == p.name) = [] := hnil
  rw [hzero, List.length_nil] at hlen
  have hone : d.userdb.length = 1 := by
    have := List.length_pos_of_mem hu
    omega
  obtain ⟨v, hv⟩ := List.length_eq_one_iff.mp hone
  rw [hv, List.mem_singleton] at hu
  exact ⟨v, hv, hu ▸ hname⟩

/-! ## Loading -/

theorem loadLine_cases (d : Udb) (line : Bytes) :
    loadLine d line = d ∨
      ∃ u : User, parseLine line = some u ∧ loadLine d line = (udbAddentry_ d u.id u.name u.key).1 := by
  unfold loadLine
  cases parseLine line with
  | none => exact .inl rfl
  | some u => exact .inr ⟨u, rfl, rfl⟩

/-- The id 0 makes a line invalid. -/
theorem parseLine_id {line : Bytes} {u : User} (h : parseLine line = some u) : u.id ≠ 0 := by
  unfold parseLine at h
  simp only at h
  split at h
  · split at h
    · cases h
    · rename_i hc
      obtain ⟨p, -, rfl⟩ := Option.map_eq_some_iff.mp h
      exact fun h0 => hc (.inl h0)
  · cases h

/-- A property every `udb_addentry_` of an id but 0 keeps is kept by loading. -/
theorem udbLoad_induction {P : Udb → Prop} (e : FileEnv) {d : Udb} (hd : P d)
    (hadd : ∀ d id name key, id ≠ 0 → P d → P (udbAddentry_ d id name key).1) :
    P (udbLoad e d) := by
  have hfold : ∀ (ls : List Bytes) (d : Udb), P d → P (ls.foldl loadLine d) := by
    intro ls
    induction ls with
    | nil => exact fun d h => h
    | cons l ls ih =>
        intro d h
        apply ih
        rcases loadLine_cases d l with heq | ⟨u, hu, heq⟩
        · rw [heq]
          exact h
        · rw [heq]
          exact hadd d u.id u.name u.key (parseLine_id hu) h
  unfold udbLoad
  split
  · exact hd
  · split
    · split
      · exact hfold _ d hd
      · exact hd
    · exact hd

@[simp] theorem udbLoad_file (e : FileEnv) (d : Udb) : (udbLoad e d).file = d.file := by
  apply udbLoad_induction (P := fun d' => d'.file = d.file) e rfl
  intro d' id name key _ h
  rcases addentry_cases d' id name key with heq | ⟨p, -, -, -, -, -, heq⟩
  · rw [heq]
    exact h
  · rw [heq]
    exact h

theorem udbLoad_of_ne_nil {e : FileEnv} {d : Udb} (h : d.userdb ≠ []) : udbLoad e d = d := by
  rw [udbLoad, if_pos h]

theorem Udb.WellFormed.load {d : Udb} (h : d.WellFormed) (e : FileEnv) :
    (udbLoad e d).WellFormed :=
  udbLoad_induction e h fun _ id name key _ hd => hd.addentry_ id name key

theorem wellFormed_init (e : FileEnv) (file : Option Bytes) : (udbInit e file).WellFormed :=
  Udb.WellFormed.load ⟨by simp, by simp⟩ e

/-- No entry gets the id 0 from the file. -/
theorem udbLoad_ids {d : Udb} (h : ∀ u ∈ d.userdb, u.id ≠ 0) (e : FileEnv) :
    ∀ u ∈ (udbLoad e d).userdb, u.id ≠ 0 := by
  apply udbLoad_induction (P := fun d => ∀ u ∈ d.userdb, u.id ≠ 0) e h
  intro d id name key hid hd u hu
  rcases addentry_cases d id name key with heq | ⟨p, hpid, -, -, -, -, heq⟩
  · rw [heq] at hu
    exact hd u hu
  · rw [heq] at hu
    rcases List.mem_cons.mp hu with rfl | hu
    · rw [hpid, if_pos hid]
      exact hid
    · exact hd u hu

/-! ## Saving -/

@[simp] theorem udbSave_userdb (e : FileEnv) (d : Udb) : (udbSave e d).userdb = d.userdb := by
  unfold udbSave
  split <;> rfl

@[simp] theorem udbSave_nextId (e : FileEnv) (d : Udb) : (udbSave e d).nextId = d.nextId := by
  unfold udbSave
  split <;> rfl

theorem Udb.WellFormed.save {d : Udb} (h : d.WellFormed) (e : FileEnv) :
    (udbSave e d).WellFormed :=
  h.of_sublist (by rw [udbSave_userdb])

/-! ## What the public functions do -/

theorem Udb.WellFormed.mem_dropentry {d : Udb} {e : FileEnv} (h : d.WellFormed) (name : Bytes)
    (u : User) : u ∈ (udbDropentry e d name).1.userdb ↔
      u ∈ (udbLoad e d).userdb ∧ u.name ≠ name := by
  have hdrop := (h.load e).mem_dropentry_ name u
  unfold udbDropentry
  simp only
  split
  · rw [udbSave_userdb]
    exact hdrop
  · exact hdrop

theorem udbDropentry_sublist (e : FileEnv) (d : Udb) (name : Bytes) :
    (udbDropentry e d name).1.userdb.Sublist (udbLoad e d).userdb := by
  unfold udbDropentry
  simp only
  split
  · rw [udbSave_userdb]
    exact dropentry_sublist _ _
  · exact dropentry_sublist _ _

theorem udbAddentry_cases (e : FileEnv) (d : Udb) (id : UInt64) (name key : Bytes) :
    udbAddentry e d id name key = (udbSave e (udbLoad e d), none) ∨
    ∃ p : User, p.id = (if id ≠ 0 then id else (udbLoad e d).nextId) ∧ p.name = name ∧
      p.key = key ∧ udbNameisvalid name = true ∧ (∀ u ∈ (udbLoad e d).userdb, u.name ≠ name) ∧
      (udbAddentry e d id name key).1.userdb = p :: (udbLoad e d).userdb ∧
      (udbAddentry e d id name key).2 = some p := by
  unfold udbAddentry
  rcases addentry_cases (udbLoad e d) id name key with heq | ⟨p, hid, hn, hk, hv, hfree, heq⟩
  · rw [heq]
    exact .inl rfl
  · refine .inr ⟨p, hid, hn, hk, hv, hfree, ?_, ?_⟩
    · rw [heq, udbSave_userdb]
    · rw [heq]

theorem udbAddentry_of_free {e : FileEnv} {d : Udb} {id : UInt64} {name key : Bytes} (hid : id ≠ 0)
    (hv : udbNameisvalid name = true) (hfree : ∀ u ∈ (udbLoad e d).userdb, u.name ≠ name) :
    (udbAddentry e d id name key).1.userdb =
      { id := id, name := name, key := key } :: (udbLoad e d).userdb := by
  have hsome := (addentry_isSome id key).mpr ⟨hv, hfree⟩
  rcases addentry_cases (udbLoad e d) id name key with heq | ⟨p, hpid, hn, hk, -, -, heq⟩
  · rw [heq] at hsome
    cases hsome
  · rw [if_pos hid] at hpid
    subst hpid hn hk
    rw [udbAddentry, heq, udbSave_userdb]

theorem mem_udbLoad_of_mem {e : FileEnv} {d : Udb} {u : User} (h : u ∈ d.userdb) :
    u ∈ (udbLoad e d).userdb := by
  rw [udbLoad_of_ne_nil (List.ne_nil_of_mem h)]
  exact h

theorem mem_udbAddentry_of_mem {e : FileEnv} {d : Udb} {id : UInt64} {name key : Bytes} {u : User}
    (h : u ∈ d.userdb) : u ∈ (udbAddentry e d id name key).1.userdb := by
  have hload := mem_udbLoad_of_mem (e := e) h
  rcases udbAddentry_cases e d id name key with heq | ⟨p, -, -, -, -, -, hlist, -⟩
  · rw [heq, udbSave_userdb]
    exact hload
  · rw [hlist]
    exact List.mem_cons_of_mem _ hload

/-- The public functions keep the database well formed. -/
theorem Udb.WellFormed.lookupname {d : Udb} (h : d.WellFormed) (e : FileEnv) (s : Bytes) :
    (udbLookupname e d s).1.WellFormed :=
  h.load e

theorem Udb.WellFormed.addentry {d : Udb} (h : d.WellFormed) (e : FileEnv) (id : UInt64)
    (name key : Bytes) : (udbAddentry e d id name key).1.WellFormed :=
  ((h.load e).addentry_ id name key).save e

theorem Udb.WellFormed.dropentry {d : Udb} (h : d.WellFormed) (e : FileEnv) (name : Bytes) :
    (udbDropentry e d name).1.WellFormed := by
  have hdrop := (h.load e).of_sublist (dropentry_sublist _ name)
  unfold udbDropentry
  simp only
  split
  · exact hdrop.save e
  · exact hdrop

theorem Udb.WellFormed.gettempid {d : Udb} (h : d.WellFormed) (e : FileEnv) :
    (udbGettempid e d).1.WellFormed :=
  (h.load e).of_sublist (List.Sublist.refl _)

/-! ## The database once it has been loaded -/

/-- No line of the file would be accepted into an empty list: loading again
changes nothing. -/
def Udb.Loaded (d : Udb) : Prop :=
  d.userdb = [] → ∀ f, d.file = some f → ∀ l ∈ fgetsAll LINE_CHARS f, ∀ u, parseLine l = some u →
    udbNameisvalid u.name = false

theorem loadLine_of_invalid {d : Udb} {l : Bytes}
    (h : ∀ u, parseLine l = some u → udbNameisvalid u.name = false) : loadLine d l = d := by
  rcases loadLine_cases d l with heq | ⟨u, hu, heq⟩
  · exact heq
  · rw [heq, udbAddentry_, if_pos (by simp [h u hu])]

theorem Udb.Loaded.load {d : Udb} (h : d.Loaded) (e : FileEnv) : udbLoad e d = d := by
  unfold udbLoad
  split
  · rfl
  · rename_i hnil
    split
    · rename_i f hf
      split
      · have hall := h (not_not.mp hnil) f hf
        generalize fgetsAll LINE_CHARS f = ls at hall
        induction ls with
        | nil => rfl
        | cons l ls ih =>
            rw [List.foldl_cons, loadLine_of_invalid (hall l List.mem_cons_self)]
            exact ih fun l' hl' => hall l' (List.mem_cons_of_mem _ hl')
      · rfl
    · rfl

/-- A list that is empty after loading met no line it would accept. -/
theorem foldl_loadLine_eq_nil {ls : List Bytes} {d : Udb}
    (h : (ls.foldl loadLine d).userdb = []) :
    ∀ l ∈ ls, ∀ u, parseLine l = some u → udbNameisvalid u.name = false := by
  induction ls generalizing d with
  | nil => exact fun l hl => absurd hl List.not_mem_nil
  | cons l ls ih =>
      -- Entries are never removed, so the list was empty after the first line too.
      have hkeep : ∀ (ls : List Bytes) (d : Udb), (ls.foldl loadLine d).userdb = [] →
          d.userdb = [] := by
        intro ls
        induction ls with
        | nil => exact fun d hd => hd
        | cons l ls ih =>
            intro d hd
            have hl := ih (loadLine d l) hd
            rcases loadLine_cases d l with heq | ⟨u, -, heq⟩
            · rwa [heq] at hl
            · rw [heq] at hl
              rcases addentry_cases d u.id u.name u.key with heq' | ⟨p, -, -, -, -, -, heq'⟩
              · rwa [heq'] at hl
              · rw [heq'] at hl
                exact absurd hl (List.cons_ne_nil _ _)
      have hl := hkeep ls (loadLine d l) h
      have hd : d.userdb = [] := hkeep (l :: ls) d h
      intro l' hl' u hu
      rcases List.mem_cons.mp hl' with rfl | hl'
      · by_contra hvalid
        have hadd := (addentry_isSome (d := d) u.id u.key).mpr
          ⟨by simpa using hvalid, by simp [hd]⟩
        rcases addentry_cases d u.id u.name u.key with heq | ⟨p, -, -, -, -, -, heq⟩
        · rw [heq] at hadd
          cases hadd
        · rw [loadLine, hu] at hl
          simp only [heq] at hl
          exact absurd hl (List.cons_ne_nil _ _)
      · exact ih h l' hl' u hu

theorem loaded_of_load {e : FileEnv} {d : Udb} (hrd : e.rd = true) : (udbLoad e d).Loaded := by
  intro hnil f hf l hl u hu
  unfold udbLoad at hnil hf
  split at hnil
  · rename_i hne
    exact absurd hnil hne
  · rename_i hd
    rw [if_neg hd] at hf
    cases hdf : d.file with
    | none =>
        rw [hdf] at hf
        cases hf.symm.trans hdf
    | some g =>
        rw [hdf] at hnil hf
        simp only [hrd, if_true] at hnil hf
        have hfile : (udbLoad e d).file = d.file := udbLoad_file e d
        unfold udbLoad at hfile
        rw [if_neg hd, hdf] at hfile
        simp only [hrd, if_true] at hfile
        cases hf.symm.trans hfile
        exact foldl_loadLine_eq_nil hnil l hl u hu

theorem loaded_of_ne_nil {d : Udb} (h : d.userdb ≠ []) : d.Loaded :=
  fun hnil => absurd hnil h

theorem loaded_save {e : FileEnv} {d : Udb} (hwr : e.wr = true) : (udbSave e d).Loaded := by
  intro hnil f hf l hl
  rw [udbSave_userdb] at hnil
  rw [udbSave, if_pos hwr, hnil] at hf
  cases hf
  exact absurd hl List.not_mem_nil

/-- Dropping an entry leaves a loaded database loaded when the file can be written. -/
theorem Udb.Loaded.dropentry {d : Udb} (h : d.Loaded) {e : FileEnv} (hwr : e.wr = true)
    (name : Bytes) : (udbDropentry e d name).1.Loaded := by
  unfold udbDropentry
  simp only [h.load]
  split
  · exact loaded_save hwr
  · rename_i hf
    rw [dropentry_not_found (eq_false_of_ne_true hf)]
    exact h

end Frelay
