import Mathlib.Data.Set.Finite.List
import Frelay.Userdb.Persist
import Frelay.Lib.Lts

/-!
# The user database as a finite map

What `srvuserdb.c` is for: a map from names to ids and keys. The list in memory
is that map as long as nothing empties it behind its own back, and the one thing
that does is dropping the last entry while the file cannot be written: the next
call finds the list empty and takes the entry back from the file.

* `udb_refines_map` — in every run without such a drop every call does what it
  does to the map, and returns what it returns there;
* `dropped_comes_back`, `id_zero_is_replaced` — what happens otherwise, and to
  an entry that is added under the id 0.
-/

namespace Frelay

open Lib

/-! ## Calls and results -/

/-- What a call into `srvuserdb.c` returns. -/
inductive UdbRes where
  | entry (u : Option User)
  | done (found : Bool)
  | id (x : UInt64)
  deriving DecidableEq

/-- The value a call returns. -/
def UdbOp.result (d : Udb) : UdbOp → UdbRes
  | .lookupname e s => .entry (udbLookupname e d s.1).2
  | .addentry e id name key => .entry (udbAddentry e d id name.1 key.1).2
  | .dropentry e name => .done (udbDropentry e d name.1).2
  | .gettempid e => .id (udbGettempid e d).2

/-- What the file accesses of a call meet. -/
def UdbOp.env : UdbOp → FileEnv
  | .lookupname e _ | .addentry e _ _ _ | .dropentry e _ | .gettempid e => e

/-- The calls of a sequence with the values they return one after the other. -/
def udbCalls : Udb → List UdbOp → List (UdbOp × UdbRes)
  | _, [] => []
  | d, op :: ops => (op, op.result d) :: udbCalls (op.after d) ops

/-- The database in one process whose file can always be read, started on any file. -/
def udbLts : Lts Udb (UdbOp × UdbRes) where
  init d := ∃ e file, e.rd = true ∧ d = udbInit e file
  step d c d' := c.1.env.rd = true ∧ d' = c.1.after d ∧ c.2 = c.1.result d

/-! ## The map -/

/-- Names with their ids and keys. -/
abbrev UserMap := Bytes → Option (UInt64 × Bytes)

/-- What the calls do to a map, and what they return. An entry added under the id 0
gets some other id. -/
inductive MapStep : UserMap → UdbOp × UdbRes → UserMap → Prop
  | lookup {m : UserMap} {e : FileEnv} {s : CStr} :
      MapStep m (.lookupname e s, .entry ((m s.1).map fun p => ⟨p.1, s.1, p.2⟩)) m
  | added {m : UserMap} {e : FileEnv} {id id' : UInt64} {name key : CStr} :
      udbNameisvalid name.1 = true → m name.1 = none → (id ≠ 0 → id' = id) →
      MapStep m (.addentry e id name key, .entry (some ⟨id', name.1, key.1⟩))
        (Function.update m name.1 (some (id', key.1)))
  | refused {m : UserMap} {e : FileEnv} {id : UInt64} {name key : CStr} :
      ¬ (udbNameisvalid name.1 = true ∧ m name.1 = none) →
      MapStep m (.addentry e id name key, .entry none) m
  | dropped {m : UserMap} {e : FileEnv} {name : CStr} : m name.1 ≠ none →
      MapStep m (.dropentry e name, .done true) (Function.update m name.1 none)
  | missing {m : UserMap} {e : FileEnv} {name : CStr} : m name.1 = none →
      MapStep m (.dropentry e name, .done false) m
  | tempid {m : UserMap} {e : FileEnv} {x : UInt64} : MapStep m (.gettempid e, .id x) m

/-- The map as a system of its own. -/
def mapLts : Lts UserMap (UdbOp × UdbRes) where
  init m := { s | m s ≠ none }.Finite
  step := MapStep

/-- The map in memory. -/
def Udb.map (d : Udb) : UserMap := fun s => (udbLookupname_ d s).map fun u => (u.id, u.key)

theorem Udb.finite_map (d : Udb) : { s | d.map s ≠ none }.Finite := by
  refine (d.userdb.map User.name).finite_toSet.subset ?_
  intro s hs
  rw [Set.mem_ofPred_eq, Udb.map, ne_eq, Option.map_eq_none_iff] at hs
  obtain ⟨u, hu⟩ := Option.ne_none_iff_exists'.mp hs
  obtain ⟨hmem, hname⟩ := lookupname_mem hu
  exact List.mem_map.mpr ⟨u, hmem, hname⟩

theorem Udb.map_eq_none {d : Udb} {s : Bytes} :
    d.map s = none ↔ ∀ u ∈ d.userdb, u.name ≠ s := by
  rw [Udb.map, Option.map_eq_none_iff, lookupname_eq_none]

/-- The map depends on the list only. -/
theorem Udb.map_congr {d d' : Udb} (h : d'.userdb = d.userdb) : d'.map = d.map := by
  funext s
  rw [Udb.map, Udb.map, udbLookupname_, udbLookupname_, h]

/-- An entry at the head of the list is a binding. -/
theorem Udb.map_cons {d d' : Udb} {p : User} (h : d'.userdb = p :: d.userdb) :
    d'.map = Function.update d.map p.name (some (p.id, p.key)) := by
  funext s
  rw [Udb.map, udbLookupname_, h, List.find?_cons]
  by_cases hs : s = p.name
  · subst hs
    rw [beq_self_eq_true, Function.update_self]
    rfl
  · rw [beq_eq_false_iff_ne.mpr hs, Function.update_of_ne hs]
    rfl

/-- Dropping an entry removes its binding and no other. -/
theorem Udb.WellFormed.map_drop {d : Udb} (h : d.WellFormed) (name : Bytes) :
    (udbDropentry_ d name).1.map = Function.update d.map name none := by
  have hdrop := h.of_sublist (dropentry_sublist d name)
  funext s
  by_cases hs : s = name
  · subst hs
    rw [Function.update_self, Udb.map_eq_none]
    exact fun u hu => ((h.mem_dropentry_ s u).mp hu).2
  · have hlook : udbLookupname_ (udbDropentry_ d name).1 s = udbLookupname_ d s := by
      cases hl : udbLookupname_ d s with
      | none =>
          rw [lookupname_eq_none] at hl ⊢
          exact fun u hu => hl u ((h.mem_dropentry_ name u).mp hu).1
      | some u =>
          rw [h.lookup_eq_some] at hl
          rw [hdrop.lookup_eq_some, h.mem_dropentry_ name u]
          exact ⟨⟨hl.1, fun hn => hs (hl.2.symm.trans hn)⟩, hl.2⟩
    rw [Function.update_of_ne hs, Udb.map, Udb.map, hlook]

/-! ## The condition -/

/-- The call does not drop the only entry without writing that to the file, unless
the file has nothing that could be read back. -/
def Udb.Lasting (d : Udb) : UdbOp → Prop
  | .dropentry e name => (∃ u, d.userdb = [u] ∧ u.name = name.1) →
      e.wr = true ∨ ({ d with userdb := [] } : Udb).Loaded
  | _ => True

/-- Nothing but such a drop leaves an empty list before a file with entries. -/
theorem Udb.Loaded.after {d : Udb} (h : d.Loaded) {op : UdbOp} (hop : d.Lasting op) :
    (op.after d).Loaded := by
  cases op with
  | lookupname e s =>
      simp only [UdbOp.after, udbLookupname, h.load e]
      exact h
  | addentry e id name key =>
      by_cases hwr : e.wr = true
      · exact loaded_save hwr
      · simp only [UdbOp.after, udbAddentry, h.load e]
        rw [udbSave, if_neg hwr]
        rcases addentry_cases d id name.1 key.1 with heq | ⟨p, -, -, -, -, -, heq⟩
        · rw [heq]
          exact h
        · rw [heq]
          exact loaded_of_ne_nil (List.cons_ne_nil _ _)
  | dropentry e name =>
      simp only [UdbOp.after, udbDropentry, h.load e]
      cases hfound : (udbDropentry_ d name.1).2 with
      | false =>
          rw [if_neg Bool.false_ne_true, dropentry_not_found hfound]
          exact h
      | true =>
          rw [if_pos rfl]
          by_cases hnil : (udbDropentry_ d name.1).1.userdb = []
          · rcases hop (dropentry_eq_nil hfound hnil) with hwr | hfile
            · exact loaded_save hwr
            · by_cases hwr : e.wr = true
              · exact loaded_save hwr
              · rw [udbSave, if_neg hwr]
                exact fun _ => hfile rfl
          · exact loaded_of_ne_nil (by rwa [udbSave_userdb])
  | gettempid e =>
      simp only [UdbOp.after, udbGettempid, h.load e]
      exact h

/-! ## Refinement -/

/-- Every call does to the list in memory what it does to the map. -/
theorem mapStep_after {d : Udb} (hwf : d.WellFormed) (h : d.Loaded) (op : UdbOp) :
    MapStep d.map (op, op.result d) (op.after d).map := by
  cases op with
  | lookupname e s =>
      -- The entry found is the one of that name.
      have hres : (udbLookupname_ d s.1) = (d.map s.1).map fun p => ⟨p.1, s.1, p.2⟩ := by
        rw [Udb.map]
        cases hl : udbLookupname_ d s.1 with
        | none => rfl
        | some u =>
            rw [Option.map_some, Option.map_some, ← (lookupname_mem hl).2]
      simp only [UdbOp.after, UdbOp.result, udbLookupname, h.load e, hres]
      exact .lookup
  | addentry e id name key =>
      simp only [UdbOp.after, UdbOp.result, udbAddentry, h.load e]
      rw [Udb.map_congr (udbSave_userdb e _)]
      rcases addentry_cases d id name.1 key.1 with heq | ⟨p, hid, hn, hk, hv, hfree, heq⟩
      · -- The entry is refused for its name.
        have hno : ¬ (udbNameisvalid name.1 = true ∧ d.map name.1 = none) := by
          rw [Udb.map_eq_none, ← addentry_isSome id key.1, heq]
          exact Bool.false_ne_true
        rw [heq]
        exact .refused hno
      · have hp : p = ⟨p.id, name.1, key.1⟩ := by rw [← hn, ← hk]
        rw [heq]
        simp only
        rw [Udb.map_cons (show ({ d with
            userdb := p :: d.userdb
            nextId := if d.nextId ≤ p.id then p.id + 1 else d.nextId } : Udb).userdb =
          p :: d.userdb from rfl), hn, hk, hp]
        exact .added hv (Udb.map_eq_none.mpr hfree) fun hne => by rw [hid, if_pos hne]
  | dropentry e name =>
      have hdrop := hwf.map_drop name.1
      simp only [UdbOp.after, UdbOp.result, udbDropentry, h.load e]
      cases hfound : (udbDropentry_ d name.1).2 with
      | false =>
          have hnone : d.map name.1 = none := by
            rw [Udb.map_eq_none]
            intro u hu hname
            rw [dropentry_found.mpr ⟨u, hu, hname⟩] at hfound
            cases hfound
          simp only [Bool.false_eq_true, if_false]
          rw [dropentry_not_found hfound]
          exact .missing hnone
      | true =>
          have hsome : d.map name.1 ≠ none := by
            rw [ne_eq, Udb.map_eq_none]
            obtain ⟨u, hu, hname⟩ := dropentry_found.mp hfound
            exact fun hno => hno u hu hname
          simp only [if_true]
          rw [Udb.map_congr (udbSave_userdb e _), hdrop]
          exact .dropped hsome
  | gettempid e =>
      simp only [UdbOp.after, UdbOp.result, udbGettempid, h.load e]
      exact .tempid

theorem Udb.WellFormed.after {d : Udb} (h : d.WellFormed) (op : UdbOp) :
    (op.after d).WellFormed := by
  cases op with
  | lookupname e s => exact h.lookupname e s.1
  | addentry e id name key => exact h.addentry e id name.1 key.1
  | dropentry e name => exact h.dropentry e name.1
  | gettempid e => exact h.gettempid e

/-- **The user store is a finite map.** Whatever the file contains and whichever
writes fail, as long as no drop empties the list without emptying the file, the
calls of a run do and return what they do and return on the map of the entries
read at the start. -/
theorem udb_refines_map {d d' : Udb} {cs : List (UdbOp × UdbRes)} (hd : udbLts.init d)
    (hrun : (udbLts.guard fun d c => d.Lasting c.1).Run d cs d') :
    mapLts.init d.map ∧ mapLts.Run d.map cs d'.map := by
  obtain ⟨e, file, hrd, rfl⟩ := hd
  refine ⟨Udb.finite_map _, hrun.refine (P := fun d => d.WellFormed ∧ d.Loaded) ?_
    ⟨wellFormed_init e file, loaded_of_load hrd⟩⟩
  rintro d ⟨op, r⟩ d' ⟨hwf, hl⟩ ⟨⟨-, hd', hr⟩, hlast⟩
  change d' = op.after d at hd'
  change r = op.result d at hr
  subst hd' hr
  exact ⟨⟨hwf.after op, hl.after hlast⟩, mapStep_after hwf hl op⟩

/-! ## Runs -/

/-- Every sequence of calls that can read the file is a run. -/
theorem udbCalls_run {d : Udb} {ops : List UdbOp} (h : ∀ op ∈ ops, op.env.rd = true) :
    udbLts.Run d (udbCalls d ops) (udbRun d ops) := by
  induction ops generalizing d with
  | nil => exact .nil d
  | cons op ops ih =>
      exact .cons ⟨h op List.mem_cons_self, rfl, rfl⟩ (ih fun o ho => h o (List.mem_cons_of_mem _ ho))

/-- A file with one account. -/
def bobLine : Bytes := ascii "0000000000000007|bob|plain-text pw\n"

theorem zero_notMem_bob : 0 ∉ ascii "bob" := by
  decide

/-- The names and the key of the runs below. -/
def bobName : CStr := ⟨ascii "bob", zero_notMem_bob⟩
def tomName : CStr := ⟨ascii "tom", by decide⟩
def demoKey : CStr := ⟨ascii "plain-text x", by decide⟩

/-- Two writes fail, but the list is never empty before it is written. -/
theorem udb_refines_map_four :
    let ops : List UdbOp := [.addentry ⟨true, false⟩ 9 tomName demoKey,
      .dropentry ⟨true, false⟩ bobName, .lookupname .good bobName, .dropentry .good tomName]
    mapLts.init (udbInit .good (some bobLine)).map ∧
      mapLts.Run (udbInit .good (some bobLine)).map (udbCalls (udbInit .good (some bobLine)) ops)
        (udbRun (udbInit .good (some bobLine)) ops).map := by
  refine udb_refines_map ⟨.good, some bobLine, rfl, rfl⟩ ?_
  refine .cons ⟨⟨rfl, rfl, rfl⟩, trivial⟩ (.cons ⟨⟨rfl, rfl, rfl⟩, ?_⟩
    (.cons ⟨⟨rfl, rfl, rfl⟩, trivial⟩ (.cons ⟨⟨rfl, rfl, rfl⟩, fun _ => .inl rfl⟩ (.nil _))))
  rintro ⟨u, hu, -⟩
  have htwo : (UdbOp.after (udbInit .good (some bobLine))
      (.addentry ⟨true, false⟩ 9 tomName demoKey)).userdb.length = 2 := by decide +kernel
  have hone : 2 = 1 := htwo.symm.trans (congrArg List.length hu)
  cases hone

/-- After the drop the map has no binding for the name. -/
private theorem no_lookup_after_drop {m m₁ m₂ : UserMap} {e e' : FileEnv} {name : CStr} {u : User}
    (hdrop : MapStep m (.dropentry e name, .done true) m₁)
    (hlook : MapStep m₁ (.lookupname e' name, .entry (some u)) m₂) : False := by
  cases hdrop with
  | dropped hne =>
      generalize hr : UdbRes.entry (some u) = r at hlook
      cases hlook with
      | lookup =>
          rw [Function.update_self] at hr
          cases hr

/-- **The store is not a finite map.** The only entry is dropped while the file
cannot be written, and the next lookup finds it again; and an entry that is added
under the id 0 is stored under another one. -/
theorem udb_is_not_map :
    (∃ d cs d', udbLts.init d ∧ udbLts.Run d cs d' ∧ ∀ m, ¬ mapLts.Run d.map cs m) ∧
      (UdbOp.addentry .good 0 bobName demoKey).result (udbInit .good none) =
        .entry (some ⟨1, ascii "bob", ascii "plain-text x"⟩) := by
  refine ⟨?_, by decide +kernel⟩
  let ops : List UdbOp := [.dropentry ⟨true, false⟩ bobName, .lookupname .good bobName]
  have hreads : ∀ op ∈ ops, op.env.rd = true := by simp [ops, UdbOp.env, FileEnv.good]
  refine ⟨udbInit .good (some bobLine), _, _, ⟨.good, some bobLine, rfl, rfl⟩,
    udbCalls_run hreads, ?_⟩
  have hdone : (UdbOp.dropentry ⟨true, false⟩ bobName).result (udbInit .good (some bobLine)) =
      .done true := by decide +kernel
  have hback : (UdbOp.lookupname .good bobName).result
      (UdbOp.after (udbInit .good (some bobLine)) (.dropentry ⟨true, false⟩ bobName)) =
      .entry (some ⟨7, ascii "bob", ascii "plain-text pw"⟩) := by decide +kernel
  intro m hrun
  simp only [ops, udbCalls, hdone, hback] at hrun
  cases hrun with
  | cons hdrop hrest =>
      cases hrest with
      | cons hlook _ => exact no_lookup_after_drop hdrop hlook

end Frelay
