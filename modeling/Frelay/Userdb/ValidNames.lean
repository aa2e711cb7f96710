import Frelay.Userdb.Persist

/-!
# Which names the database takes

The pattern for user names is anchored at both ends, but it is compiled with
`REG_NEWLINE`: the anchors also match beside a line break, so one good line makes
the whole string valid.

* `addentry_whole_iff` — when an entry is stored only under a whole good name;
* `Udb.WholeNames` — all names of a database are whole, which is so for whatever is
  read from a file, and kept by every function that is given whole names only.
-/

namespace Frelay

open Lib

/-! ## Whole names -/

/-- A whole name has neither a line break nor a delimiter. -/
theorem unameRe_plain {s : Bytes} (h : unameRe s = true) : chLF ∉ s ∧ DELIM ∉ s := by
  simp only [unameRe, Bool.and_eq_true, List.all_eq_true] at h
  refine ⟨?_, ?_⟩
  · intro hmem
    exact absurd (h.2 _ hmem) (by decide)
  · intro hmem
    exact absurd (h.2 _ hmem) (by decide)

/-! ## What is stored -/

/-- **When only whole names are stored**: the name has no line break, or is taken, or
none of its lines is a good name. -/
theorem addentry_whole_iff (e : FileEnv) (d : Udb) (id : UInt64) (s key : Bytes) :
    ((udbAddentry e d id s key).2.isSome = true → unameRe s = true ∧ chLF ∉ s ∧ DELIM ∉ s) ↔
      (chLF ∈ s → (∃ u ∈ (udbLoad e d).userdb, u.name = s) ∨
        ∀ l ∈ s.splitOn chLF, unameRe l = false) := by
  have hstored : (udbAddentry e d id s key).2.isSome = true ↔
      udbNameisvalid s = true ∧ ∀ u ∈ (udbLoad e d).userdb, u.name ≠ s := addentry_isSome id key
  rw [hstored]
  constructor
  · intro h hlf
    by_cases htaken : ∃ u ∈ (udbLoad e d).userdb, u.name = s
    · exact .inl htaken
    · refine .inr fun l hl => ?_
      by_contra hgood
      have hvalid : udbNameisvalid s = true :=
        List.any_eq_true.mpr ⟨l, hl, eq_true_of_ne_false hgood⟩
      have hfree : ∀ u ∈ (udbLoad e d).userdb, u.name ≠ s := fun u hu hn => htaken ⟨u, hu, hn⟩
      exact (h ⟨hvalid, hfree⟩).2.1 hlf
  · rintro h ⟨hvalid, hfree⟩
    by_cases hlf : chLF ∈ s
    · rcases h hlf with ⟨u, hu, hn⟩ | hbad
      · exact absurd hn (hfree u hu)
      · obtain ⟨l, hl, hgood⟩ := List.any_eq_true.mp hvalid
        rw [hbad l hl] at hgood
        cases hgood
    · rw [nameisvalid_of_not_mem hlf] at hvalid
      exact ⟨hvalid, unameRe_plain hvalid⟩

/-- A name of two lines, the second of which is the line of another account. -/
def twoLines : Bytes := ascii "bob\n0000000000000001|root|plain-text x"

/-- It is stored as it is. -/
theorem addentry_two_lines :
    ∃ (e : FileEnv) (d : Udb) (id : UInt64) (key : Bytes), 0 ∉ twoLines ∧
      ¬ ((udbAddentry e d id twoLines key).2.isSome = true →
        unameRe twoLines = true ∧ chLF ∉ twoLines ∧ DELIM ∉ twoLines) := by
  refine ⟨.good, { userdb := [], nextId := 1, file := none }, 7, ascii "plain-text y",
    by decide, ?_⟩
  intro h
  have hstored : (udbAddentry .good { userdb := [], nextId := 1, file := none } 7 twoLines
      (ascii "plain-text y")).2.isSome = true := by
    decide +kernel
  exact absurd (h hstored).1 (by decide +kernel)

/-! ## Databases of whole names -/

/-- All names of the database are whole. -/
def Udb.WholeNames (d : Udb) : Prop := ∀ u ∈ d.userdb, unameRe u.name = true

theorem Udb.WholeNames.of_subset {d d' : Udb} (h : d.WholeNames)
    (hsub : d'.userdb ⊆ d.userdb) : d'.WholeNames := fun u hu => h u (hsub hu)

/-- No line of a file makes a name of several lines. -/
theorem Udb.WholeNames.load {d : Udb} (h : d.WholeNames) (hwf : d.WellFormed) (e : FileEnv) :
    (udbLoad e d).WholeNames := by
  intro u hu
  have hvalid := (hwf.load e).valid u hu
  rcases mem_udbLoad hu with hu | ⟨s, hs⟩
  · exact h u hu
  · rwa [nameisvalid_of_not_mem (parseLine_clean hs).2.1] at hvalid

theorem Udb.WholeNames.dropentry {d : Udb} (h : d.WholeNames) (hwf : d.WellFormed) (e : FileEnv)
    (n : Bytes) : (udbDropentry e d n).1.WholeNames :=
  (h.load hwf e).of_subset (udbDropentry_sublist e d n).subset

theorem Udb.WholeNames.addentry {d : Udb} (h : d.WholeNames) (hwf : d.WellFormed) (e : FileEnv)
    (id : UInt64) {n : Bytes} (key : Bytes) (hn : unameRe n = true) :
    (udbAddentry e d id n key).1.WholeNames := by
  have hload := h.load hwf e
  rcases udbAddentry_cases e d id n key with heq | ⟨p, -, hpn, -, -, -, hlist, -⟩
  · rw [heq]
    exact hload.of_subset (by rw [udbSave_userdb]; exact List.Subset.refl _)
  · intro u hu
    rw [hlist] at hu
    rcases List.mem_cons.mp hu with rfl | hu
    · rw [hpn]
      exact hn
    · exact hload u hu

end Frelay
