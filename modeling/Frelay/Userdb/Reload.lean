import Frelay.Userdb.Store

/-!
# Reading the file again

A call that finds the list empty reads the file, so a call that fails may all the
same change the list. When that happens is decided by the list before the call, by
what the file holds (`Udb.onFile`) and by the outcome of the file accesses.

* `load_entries_iff` — for a call that only loads the database;
* `drop_entries_iff` — for the call of a DROP request;
* `register_entries_iff` — for the two calls of a REGISTER request.
-/

namespace Frelay

open Lib

/-- The entries the database file holds. -/
def Udb.onFile (d : Udb) : List User := (udbInit .good d.file).userdb

theorem onFile_congr {d d' : Udb} (h : d'.file = d.file) : d'.onFile = d.onFile := by
  rw [Udb.onFile, Udb.onFile, h]

/-- Reading lines into two lists that are equal. -/
theorem foldl_loadLine_userdb {ls : List Bytes} {d d' : Udb} (h : d.userdb = d'.userdb) :
    (ls.foldl loadLine d).userdb = (ls.foldl loadLine d').userdb := by
  induction ls generalizing d d' with
  | nil => exact h
  | cons l ls ih =>
      refine ih ?_
      unfold loadLine
      cases hu : parseLine l with
      | none => exact h
      | some u =>
          have hid := parseLine_id hu
          simp only [udbAddentry_, udbLookupname_, h, if_pos hid]
          split
          · exact h
          · split
            · exact h
            · rfl

theorem udbLoad_userdb_nil (e : FileEnv) {d : Udb} (hnil : d.userdb = []) :
    (udbLoad e d).userdb = if e.rd = true then d.onFile else [] := by
  rw [Udb.onFile, udbInit, udbLoad, udbLoad, if_neg (not_not.mpr hnil), if_neg (not_not.mpr rfl)]
  cases d.file with
  | none =>
      simp only [hnil]
      split <;> rfl
  | some f =>
      simp only [FileEnv.good, if_true]
      split
      · exact foldl_loadLine_userdb hnil
      · exact hnil

/-- Loading brings entries: the list is empty, and the file can be read and holds
some. -/
def Udb.Rereads (e : FileEnv) (d : Udb) : Prop := d.userdb = [] ∧ e.rd = true ∧ d.onFile ≠ []

/-- Loading changes the list exactly if it brings entries. -/
theorem load_entries_iff {e : FileEnv} {d : Udb} :
    (∀ u, u ∈ (udbLoad e d).userdb ↔ u ∈ d.userdb) ↔ ¬ d.Rereads e := by
  unfold Udb.Rereads
  by_cases hnil : d.userdb = []
  · rw [udbLoad_userdb_nil e hnil, hnil]
    by_cases hrd : e.rd = true
    · rw [if_pos hrd]
      simp only [hrd, true_and, not_not, List.not_mem_nil, iff_false]
      exact List.eq_nil_iff_forall_not_mem.symm
    · simp [hrd]
  · rw [udbLoad_of_ne_nil hnil]
    simp [hnil]

/-! ## The calls of a REGISTER request -/

/-- A REGISTER request under the name `n` that fails and changes the list: it is read
from the file, because it was empty, or because the one entry in it was dropped and
the file could not be written. -/
inductive RegisterTrace (e₁ e₂ : FileEnv) (d : Udb) (n : Bytes) : Prop
  | invalid : udbNameisvalid n = false → d.userdb = [] → d.onFile ≠ [] →
      e₁.rd = true ∨ e₂.rd = true → RegisterTrace e₁ e₂ d n
  | late : udbNameisvalid n = true → d.userdb = [] → e₁.rd = false → e₂.rd = true →
      (∃ v ∈ d.onFile, v.name = n) → RegisterTrace e₁ e₂ d n
  | again {u : User} : udbNameisvalid n = true → d.userdb = [] → e₁.rd = true →
      d.onFile = [u] → u.name = n → e₁.wr = false → e₂.rd = true → RegisterTrace e₁ e₂ d n
  | back {u : User} : udbNameisvalid n = true → d.userdb = [u] → u.name = n → e₁.wr = false →
      e₂.rd = true → (∃ v ∈ d.onFile, v.name = n) → (∃ v ∈ d.onFile, v ≠ u) →
      RegisterTrace e₁ e₂ d n

/-- A failed `udb_addentry` only loads. -/
theorem udbAddentry_failed {e : FileEnv} {d : Udb} {id : UInt64} {n key : Bytes}
    (h : (udbAddentry e d id n key).2 = none) :
    (udbAddentry e d id n key).1.userdb = (udbLoad e d).userdb := by
  rcases udbAddentry_cases e d id n key with heq | ⟨p, -, -, -, -, -, -, hsome⟩
  · rw [heq, udbSave_userdb]
  · rw [hsome] at h
    cases h

theorem udbAddentry_eq_none {e : FileEnv} {d : Udb} {id : UInt64} {n key : Bytes} :
    (udbAddentry e d id n key).2 = none ↔
      udbNameisvalid n = false ∨ ∃ u ∈ (udbLoad e d).userdb, u.name = n := by
  have hsome : (udbAddentry_ (udbLoad e d) id n key).2.isSome ↔
      udbNameisvalid n = true ∧ ∀ u ∈ (udbLoad e d).userdb, u.name ≠ n := addentry_isSome id key
  have hsame : (udbAddentry e d id n key).2 = (udbAddentry_ (udbLoad e d) id n key).2 := rfl
  rw [hsame, ← Option.not_isSome_iff_eq_none, hsome, not_and_or, Bool.not_eq_true]
  simp

/-- What a REGISTER request drops, by what the list is after loading. -/
theorem udbDropentry_missing {e : FileEnv} {d : Udb} {n : Bytes}
    (h : ¬ ∃ u ∈ (udbLoad e d).userdb, u.name = n) : udbDropentry e d n = (udbLoad e d, false) := by
  have hno : (udbDropentry_ (udbLoad e d) n).2 = false :=
    eq_false_of_ne_true fun hf => h (dropentry_found.mp hf)
  rw [udbDropentry, hno, if_neg Bool.false_ne_true, dropentry_not_found hno]

theorem udbDropentry_eq_false {e : FileEnv} {d : Udb} {n : Bytes} :
    (udbDropentry e d n).2 = false ↔ (udbLookupname e d n).2 = none := by
  have hnone : (udbLookupname e d n).2 = none ↔ ¬ ∃ u ∈ (udbLoad e d).userdb, u.name = n := by
    rw [udbLookupname, lookupname_eq_none]
    exact ⟨fun h ⟨u, hu, hname⟩ => h u hu hname, fun h u hu hname => h ⟨u, hu, hname⟩⟩
  rw [hnone]
  constructor
  · intro h hfound
    rw [udbDropentry, dropentry_found.mpr hfound] at h
    cases h
  · intro h
    rw [udbDropentry_missing h]

/-- A DROP request that fails leaves the entries as they were, unless loading brought
some. -/
theorem drop_entries_iff {e : FileEnv} {d : Udb} {n : Bytes} :
    ((udbDropentry e d n).2 = false →
      ∀ u, u ∈ (udbDropentry e d n).1.userdb ↔ u ∈ d.userdb) ↔
      ¬ ((udbLookupname e d n).2 = none ∧ d.Rereads e) := by
  rw [udbDropentry_eq_false, not_and]
  refine imp_congr_right fun hnone => ?_
  have hmissing : ¬ ∃ u ∈ (udbLoad e d).userdb, u.name = n := by
    rintro ⟨u, hu, hname⟩
    exact lookupname_eq_none.mp hnone u hu hname
  rw [udbDropentry_missing hmissing]
  exact load_entries_iff

/-- The list in which `udb_addentry` looks for the name. -/
def registerList (e₁ e₂ : FileEnv) (d : Udb) (n : Bytes) : List User :=
  (udbLoad e₂ (udbDropentry e₁ d n).1).userdb

/-- The name is not in the list: nothing is dropped. -/
theorem registerList_missing {e₁ e₂ : FileEnv} {d : Udb} {n : Bytes}
    (h : ¬ ∃ u ∈ (udbLoad e₁ d).userdb, u.name = n) : registerList e₁ e₂ d n =
      if d.userdb ≠ [] then d.userdb
      else if e₁.rd = true ∨ e₂.rd = true then d.onFile else [] := by
  rw [registerList, udbDropentry_missing h]
  by_cases hnil : d.userdb = []
  · have hload := udbLoad_userdb_nil e₁ hnil
    rw [if_neg (not_not.mpr hnil)]
    by_cases hload' : (udbLoad e₁ d).userdb = []
    · rw [udbLoad_userdb_nil e₂ hload', onFile_congr (udbLoad_file e₁ d)]
      by_cases hrd : e₁.rd = true
      · rw [hload', if_pos hrd] at hload
        rw [← hload, ite_self, ite_self]
      · simp only [eq_false_of_ne_true hrd, Bool.false_eq_true, false_or]
    · rw [udbLoad_of_ne_nil hload', hload]
      by_cases hrd : e₁.rd = true
      · rw [if_pos hrd, if_pos (.inl hrd)]
      · rw [hload, if_neg hrd] at hload'
        exact absurd rfl hload'
  · rw [if_pos hnil, udbLoad_of_ne_nil hnil, udbLoad_of_ne_nil hnil]

/-- The name is in the list and its entry is not the only one: it is gone. -/
theorem registerList_more {e₁ e₂ : FileEnv} {d : Udb} {n : Bytes} (hwf : d.WellFormed)
    (hfound : ∃ u ∈ (udbLoad e₁ d).userdb, u.name = n)
    (hmore : ∀ u, (udbLoad e₁ d).userdb = [u] → u.name ≠ n) :
    ∀ u ∈ registerList e₁ e₂ d n, u.name ≠ n := by
  have hdrop : (udbDropentry_ (udbLoad e₁ d) n).2 = true := dropentry_found.mpr hfound
  have hne : (udbDropentry e₁ d n).1.userdb ≠ [] := by
    intro hnil
    rw [udbDropentry, hdrop, if_pos rfl, udbSave_userdb] at hnil
    obtain ⟨u, hu, hname⟩ := dropentry_eq_nil hdrop hnil
    exact hmore u hu hname
  rw [registerList, udbLoad_of_ne_nil hne]
  exact fun u hu => ((hwf.mem_dropentry n u).mp hu).2

/-- The only entry is dropped: the file is read again, as far as it was not written. -/
theorem registerList_only {e₁ e₂ : FileEnv} {d : Udb} {u : User}
    (hu : (udbLoad e₁ d).userdb = [u]) : registerList e₁ e₂ d u.name =
      if e₁.wr = false ∧ e₂.rd = true then d.onFile else [] := by
  have hdrop : (udbDropentry_ (udbLoad e₁ d) u.name).2 = true :=
    dropentry_found.mpr ⟨u, by rw [hu]; exact List.mem_singleton.mpr rfl, rfl⟩
  have hnil : (udbDropentry_ (udbLoad e₁ d) u.name).1.userdb = [] := by
    simp [udbDropentry_, hu]
  have heq : (udbDropentry e₁ d u.name).1 = udbSave e₁ (udbDropentry_ (udbLoad e₁ d) u.name).1 := by
    rw [udbDropentry, hdrop, if_pos rfl]
  have hempty : (udbSave e₁ (udbDropentry_ (udbLoad e₁ d) u.name).1).userdb = [] := by
    rw [udbSave_userdb, hnil]
  rw [registerList, heq, udbLoad_userdb_nil e₂ hempty]
  by_cases hwr : e₁.wr = true
  · have hfile : (udbSave e₁ (udbDropentry_ (udbLoad e₁ d) u.name).1).onFile = [] := by
      rw [Udb.onFile, udbSave, if_pos hwr, hnil]
      rfl
    rw [hfile, ite_self, if_neg fun h => by rw [h.1] at hwr; cases hwr]
  · have hfile : (udbSave e₁ (udbDropentry_ (udbLoad e₁ d) u.name).1).onFile = d.onFile := by
      apply onFile_congr
      rw [udbSave, if_neg hwr]
      exact udbLoad_file e₁ d
    rw [hfile]
    simp only [eq_false_of_ne_true hwr, true_and]

/-- When the name is valid and not in the list, the list may have been empty and the
file read too late. -/
private theorem trace_missing {e₁ e₂ : FileEnv} {d : Udb} {n : Bytes}
    (hvalid : udbNameisvalid n = true) (h : ¬ ∃ u ∈ (udbLoad e₁ d).userdb, u.name = n) :
    ((∃ u ∈ registerList e₁ e₂ d n, u.name = n) →
      ∀ u, u ∈ registerList e₁ e₂ d n ↔ u ∈ d.userdb) ↔ ¬ RegisterTrace e₁ e₂ d n := by
  rw [registerList_missing h]
  by_cases hnil : d.userdb = []
  · have hload := udbLoad_userdb_nil e₁ hnil
    rw [if_neg (not_not.mpr hnil), hnil]
    constructor
    · intro hsame htrace
      cases htrace with
      | invalid hv => exact Bool.false_ne_true (hv.symm.trans hvalid)
      | late _ _ _ hrd₂ hon =>
          rw [if_pos (.inr hrd₂)] at hsame
          obtain ⟨v, hmem, -⟩ := id hon
          exact List.not_mem_nil ((hsame hon v).mp hmem)
      | again _ _ hrd₁ hfile hname =>
          rw [if_pos hrd₁, hfile] at hload
          exact h ⟨_, by rw [hload]; exact List.mem_singleton.mpr rfl, hname⟩
      | back _ hu => rw [hnil] at hu; cases hu
    · rintro hno ⟨v, hv, hname⟩
      by_cases hrd₁ : e₁.rd = true
      · rw [if_pos hrd₁] at hload
        rw [if_pos (.inl hrd₁), ← hload] at hv
        exact absurd ⟨v, hv, hname⟩ h
      · by_cases hrd₂ : e₂.rd = true
        · rw [if_pos (.inr hrd₂)] at hv
          exact absurd (.late hvalid hnil (eq_false_of_ne_true hrd₁) hrd₂ ⟨v, hv, hname⟩) hno
        · rw [if_neg (not_or.mpr ⟨hrd₁, hrd₂⟩)] at hv
          cases hv
  · rw [udbLoad_of_ne_nil hnil] at h
    rw [if_pos hnil]
    refine iff_of_true (fun _ _ => Iff.rfl) ?_
    intro htrace
    cases htrace with
    | invalid _ hd | late _ hd | again _ hd => exact hnil hd
    | back _ hu hname => exact h ⟨_, by rw [hu]; exact List.mem_singleton.mpr rfl, hname⟩

/-- When the entry is not the only one in the list, the request does not fail. -/
private theorem trace_more {e₁ e₂ : FileEnv} {d : Udb} {n : Bytes} (hwf : d.WellFormed)
    (hvalid : udbNameisvalid n = true) (hfound : ∃ u ∈ (udbLoad e₁ d).userdb, u.name = n)
    (hmore : ∀ u, (udbLoad e₁ d).userdb = [u] → u.name ≠ n) :
    ((∃ u ∈ registerList e₁ e₂ d n, u.name = n) →
      ∀ u, u ∈ registerList e₁ e₂ d n ↔ u ∈ d.userdb) ↔ ¬ RegisterTrace e₁ e₂ d n := by
  refine iff_of_true ?_ ?_
  · rintro ⟨u, hu, hname⟩
    exact absurd hname (registerList_more hwf hfound hmore u hu)
  · intro htrace
    cases htrace with
    | invalid hv => exact Bool.false_ne_true (hv.symm.trans hvalid)
    | late _ hd hrd₁ =>
        obtain ⟨u, hu, -⟩ := hfound
        rw [udbLoad_userdb_nil e₁ hd, hrd₁, if_neg Bool.false_ne_true] at hu
        cases hu
    | again _ hd hrd₁ hfile hname =>
        exact hmore _ (by rw [udbLoad_userdb_nil e₁ hd, if_pos hrd₁, hfile]) hname
    | back _ hu hname =>
        exact hmore _ (by rw [udbLoad_of_ne_nil (by rw [hu]; exact List.cons_ne_nil _ _), hu]) hname

/-- When it is, the entry may come back from the file, and bring others along. -/
private theorem trace_only {e₁ e₂ : FileEnv} {d : Udb} {u : User}
    (hvalid : udbNameisvalid u.name = true) (hu : (udbLoad e₁ d).userdb = [u]) :
    ((∃ v ∈ registerList e₁ e₂ d u.name, v.name = u.name) →
      ∀ v, v ∈ registerList e₁ e₂ d u.name ↔ v ∈ d.userdb) ↔
      ¬ RegisterTrace e₁ e₂ d u.name := by
  rw [registerList_only hu]
  by_cases hnil : d.userdb = []
  · have hload := udbLoad_userdb_nil e₁ hnil
    rw [hu] at hload
    by_cases hrd₁ : e₁.rd = true
    · rw [if_pos hrd₁] at hload
      rw [hnil, ← hload]
      constructor
      · intro hsame htrace
        cases htrace with
        | invalid hv => exact Bool.false_ne_true (hv.symm.trans hvalid)
        | late _ _ hrd => exact Bool.false_ne_true (hrd.symm.trans hrd₁)
        | again _ _ _ _ _ hwr hrd₂ =>
            rw [if_pos ⟨hwr, hrd₂⟩] at hsame
            exact List.not_mem_nil ((hsame ⟨u, List.mem_singleton.mpr rfl, rfl⟩ u).mp
              (List.mem_singleton.mpr rfl))
        | back _ hd => rw [hnil] at hd; cases hd
      · rintro hno ⟨v, hv, -⟩
        split at hv
        · rename_i hc
          exact absurd (.again hvalid hnil hrd₁ hload.symm rfl hc.1 hc.2) hno
        · cases hv
    · rw [if_neg hrd₁] at hload
      cases hload
  · have hd : d.userdb = [u] := by rwa [udbLoad_of_ne_nil hnil] at hu
    constructor
    · intro hsame htrace
      cases htrace with
      | invalid hv => exact Bool.false_ne_true (hv.symm.trans hvalid)
      | late _ hd' | again _ hd' => exact hnil hd'
      | back _ hd' _ hwr hrd₂ hback hmore =>
          obtain ⟨v, hv, hne⟩ := hmore
          rw [if_pos ⟨hwr, hrd₂⟩] at hsame
          have hmem := (hsame hback v).mp hv
          rw [hd] at hmem hd'
          rw [← (List.cons.inj hd').1] at hne
          exact hne (List.mem_singleton.mp hmem)
    · rintro hno ⟨v, hv, hname⟩ w
      split at hv
      · rename_i hc
        -- Whatever else were on file would be a trace.
        have honly : ∀ x ∈ d.onFile, x = u := by
          intro x hx
          by_contra hne
          exact hno (.back hvalid hd rfl hc.1 hc.2 ⟨v, hv, hname⟩ ⟨x, hx, hne⟩)
        rw [if_pos hc, hd, List.mem_singleton]
        exact ⟨honly w, fun hw => by rw [hw, ← honly v hv]; exact hv⟩
      · cases hv

/-- **A REGISTER request that fails** leaves the entries as they were, but for the
cases of `RegisterTrace`. -/
theorem register_entries_iff {e₁ e₂ : FileEnv} {d : Udb} {id : UInt64} {n key : Bytes}
    (hwf : d.WellFormed) :
    ((udbAddentry e₂ (udbDropentry e₁ d n).1 id n key).2 = none →
      ∀ u, u ∈ (udbAddentry e₂ (udbDropentry e₁ d n).1 id n key).1.userdb ↔ u ∈ d.userdb) ↔
      ¬ RegisterTrace e₁ e₂ d n := by
  have hreduce : ((udbAddentry e₂ (udbDropentry e₁ d n).1 id n key).2 = none →
      ∀ u, u ∈ (udbAddentry e₂ (udbDropentry e₁ d n).1 id n key).1.userdb ↔ u ∈ d.userdb) ↔
      (udbNameisvalid n = false ∨ (∃ u ∈ registerList e₁ e₂ d n, u.name = n) →
        ∀ u, u ∈ registerList e₁ e₂ d n ↔ u ∈ d.userdb) := by
    constructor
    · intro h hfail
      have hnone : (udbAddentry e₂ (udbDropentry e₁ d n).1 id n key).2 = none :=
        udbAddentry_eq_none.mpr hfail
      have hsame := h hnone
      rwa [udbAddentry_failed hnone] at hsame
    · intro h hnone
      rw [udbAddentry_failed hnone]
      exact h (udbAddentry_eq_none.mp hnone)
  rw [hreduce]
  cases hvalid : udbNameisvalid n with
  | false =>
      -- Only valid names are stored, so the name is not among them.
      have hmissing : ¬ ∃ u ∈ (udbLoad e₁ d).userdb, u.name = n := by
        rintro ⟨u, hu, rfl⟩
        rw [(hwf.load e₁).valid u hu] at hvalid
        cases hvalid
      rw [registerList_missing hmissing]
      constructor
      · intro h htrace
        cases htrace with
        | invalid _ hnil hfile hrd =>
            have hsame := h (.inl rfl)
            rw [if_neg (not_not.mpr hnil), if_pos hrd, hnil] at hsame
            exact hfile (List.eq_nil_iff_forall_not_mem.mpr fun u hu =>
              List.not_mem_nil ((hsame u).mp hu))
        | late hv | again hv | back hv => exact Bool.false_ne_true (hvalid.symm.trans hv)
      · intro hno _ u
        by_cases hnil : d.userdb = []
        · rw [if_neg (not_not.mpr hnil), hnil]
          split
          · rename_i hrd
            have hfile : d.onFile = [] := by
              by_contra hne
              exact hno (.invalid hvalid hnil hne hrd)
            rw [hfile]
          · exact Iff.rfl
        · rw [if_pos hnil]
  | true =>
      have hred : (true = false ∨ (∃ u ∈ registerList e₁ e₂ d n, u.name = n)) ↔
          ∃ u ∈ registerList e₁ e₂ d n, u.name = n := by simp
      rw [hred]
      -- The old entry of the name is dropped first; what is read then decides.
      by_cases hfound : ∃ u ∈ (udbLoad e₁ d).userdb, u.name = n
      · by_cases hmore : ∀ u, (udbLoad e₁ d).userdb = [u] → u.name ≠ n
        · exact trace_more hwf hvalid hfound hmore
        · push Not at hmore
          obtain ⟨u, hu, rfl⟩ := hmore
          exact trace_only hvalid hu
      · exact trace_missing hvalid hfound

end Frelay
