import Frelay.Lib.Files

/-!
# What a call leaves alone

`Frame D W` says that only the names of files in `D` and the contents of files in `W` may
have changed. The sets are about files that were there before: what a process does to files
it has created in between needs no mention, so that frames compose although the sets they
are about grow (`Frame.trans`).

* `Frame.create`, `Frame.unlink`, `Frame.write`, `Frame.rename` — one rule for each call.
-/

namespace Lib

namespace Files

variable {π α : Type}

/-- Every file that has a name has a number in use. -/
def Bounded (fs : Files π α) : Prop := ∀ p i, fs.dir p = some i → i < fs.next

/-- From `fs` to `fs'` the files that were there keep their names, but for those in `D`,
and their contents, but for those in `W`. -/
structure Frame (D W : Nat → Prop) (fs fs' : Files π α) : Prop where
  next : fs.next ≤ fs'.next
  dir : ∀ p i, i < fs.next → ¬ D i → fs.dir p = some i → fs'.dir p = some i
  data : ∀ i, i < fs.next → ¬ W i → fs'.data i = fs.data i

/-- No file is left out. -/
def noFile : Nat → Prop := fun _ => False

namespace Frame

variable {D W D' W' : Nat → Prop} {fs fs' fs'' : Files π α}

theorem of_same (hdir : fs'.dir = fs.dir) (hdata : fs'.data = fs.data)
    (hnext : fs'.next = fs.next) : Frame D W fs fs' where
  next := Nat.le_of_eq hnext.symm
  dir := fun p i _ _ h => by rw [hdir, h]
  data := fun i _ _ => by rw [hdata]

theorem refl (D W : Nat → Prop) (fs : Files π α) : Frame D W fs fs := .of_same rfl rfl rfl

theorem mono (h : Frame D W fs fs') (hD : ∀ i < fs.next, D i → D' i)
    (hW : ∀ i < fs.next, W i → W' i) : Frame D' W' fs fs' where
  next := h.next
  dir := fun p i hi hout => h.dir p i hi fun hin => hout (hD i hi hin)
  data := fun i hi hout => h.data i hi fun hin => hout (hW i hi hin)

/-- The second part may do to new files what it likes. -/
theorem trans (h₁ : Frame D W fs fs') (h₂ : Frame D' W' fs' fs'')
    (hD : ∀ i < fs.next, D' i → D i) (hW : ∀ i < fs.next, W' i → W i) : Frame D W fs fs'' where
  next := Nat.le_trans h₁.next h₂.next
  dir := by
    intro p i hi hout h
    exact h₂.dir p i (Nat.lt_of_lt_of_le hi h₁.next) (fun hin => hout (hD i hi hin))
      (h₁.dir p i hi hout h)
  data := by
    intro i hi hout
    exact (h₂.data i (Nat.lt_of_lt_of_le hi h₁.next) fun hin => hout (hW i hi hin)).trans
      (h₁.data i hi hout)

theorem attach (n : Int) (f : OpenFile π) : Frame D W fs (fs.attach n f) := .of_same rfl rfl rfl

theorem close (n : Int) : Frame D W fs (fs.close n) :=
  .of_same (close_dir fs n) (close_data fs n) (close_next fs n)

theorem openFile {p : π} {fd : Option Int} {n : Int} (h : fs.openFile p fd = some (n, fs')) :
    Frame D W fs fs' := by
  obtain ⟨-, -, i, -, rfl⟩ := openFile_eq_some h
  exact .attach _ _

theorem seekEnd {n : Int} {off : Nat} (h : fs.seekEnd n = some (off, fs')) : Frame D W fs fs' := by
  obtain ⟨f, -, -, rfl⟩ := seekEnd_eq h
  exact .attach _ _

/-- A file is created under a name that was not in use. -/
theorem create [DecidableEq π] {p : π} {fd : Option Int} {n : Int}
    (h : fs.create p fd = some (n, fs')) : Frame D W fs fs' := by
  obtain ⟨-, -, hfree, rfl⟩ := create_eq_some h
  refine ⟨Nat.le_succ _, ?_, ?_⟩
  · intro q i _ _ hq
    have hne : q ≠ p := by
      rintro rfl
      rw [hfree] at hq
      cases hq
    exact (Function.update_of_ne hne _ _).trans hq
  · intro i hi _
    exact Function.update_of_ne (Nat.ne_of_lt hi) _ _

/-- Only the file that has the name loses it. -/
theorem unlink [DecidableEq π] {p : π} (h : ∀ i, fs.dir p = some i → D i) :
    Frame D W fs (fs.unlink p) := by
  refine ⟨Nat.le_refl _, ?_, fun _ _ _ => rfl⟩
  intro q i _ hout hq
  have hne : q ≠ p := by
    rintro rfl
    exact hout (h i hq)
  exact (Function.update_of_ne hne _ _).trans hq

/-- A write changes the file the descriptor is open on. -/
theorem write [Inhabited α] {n : Int} {bs : List α} {count k : Nat}
    (h : fs.write n bs count = some (k, fs')) (hW : ∀ f, fs.fds n = some f → W f.ino) :
    Frame D W fs fs' := by
  obtain ⟨f, hf, -, rfl⟩ := write_eq h
  refine ⟨Nat.le_refl _, fun _ _ _ _ hp => hp, ?_⟩
  intro i _ hout
  have hne : i ≠ f.ino := by
    rintro rfl
    exact hout (hW f hf)
  exact Function.update_of_ne hne _ _

/-- `rename` takes away the name of the file that is renamed, and the name it takes from
the file that has it. -/
theorem rename [DecidableEq π] {p q : π} (h : fs.rename p q = some fs')
    (hp : ∀ i, fs.dir p = some i → D i) (hq : ∀ i, fs.dir q = some i → D i) :
    Frame D W fs fs' := by
  obtain ⟨i, hi, rfl⟩ := Option.map_eq_some_iff.mp h
  split
  · exact .refl _ _ _
  · refine ⟨Nat.le_refl _, ?_, fun _ _ _ => rfl⟩
    intro r j _ hout hr
    have hrp : r ≠ p := by
      rintro rfl
      exact hout (hp j hr)
    have hrq : r ≠ q := by
      rintro rfl
      exact hout (hq j hr)
    exact (Function.update_of_ne hrp _ _).trans ((Function.update_of_ne hrq _ _).trans hr)

end Frame

/-! ## Numbers in use -/

namespace Bounded

variable {fs fs' : Files π α}

theorem of_same (h : Bounded fs) (hdir : fs'.dir = fs.dir) (hnext : fs'.next = fs.next) :
    Bounded fs' := by
  intro p i hp
  rw [hdir] at hp
  rw [hnext]
  exact h p i hp

theorem create [DecidableEq π] (h : Bounded fs) {p : π} {fd : Option Int} {n : Int}
    (hc : fs.create p fd = some (n, fs')) : Bounded fs' := by
  obtain ⟨-, -, -, rfl⟩ := create_eq_some hc
  intro q i hq
  change Function.update fs.dir p (some fs.next) q = some i at hq
  by_cases hqp : q = p
  · rw [hqp, Function.update_self, Option.some.injEq] at hq
    exact hq ▸ Nat.lt_succ_self _
  · rw [Function.update_of_ne hqp] at hq
    exact Nat.lt_succ_of_lt (h q i hq)

theorem unlink [DecidableEq π] (h : Bounded fs) (p : π) : Bounded (fs.unlink p) := by
  intro q i hq
  change Function.update fs.dir p none q = some i at hq
  by_cases hqp : q = p
  · rw [hqp, Function.update_self] at hq
    cases hq
  · rw [Function.update_of_ne hqp] at hq
    exact h q i hq

theorem rename [DecidableEq π] (h : Bounded fs) {p q : π} (hr : fs.rename p q = some fs') :
    Bounded fs' := by
  obtain ⟨i, hi, rfl⟩ := Option.map_eq_some_iff.mp hr
  split
  · exact h
  · intro r j hrj
    change Function.update (Function.update fs.dir q (some i)) p none r = some j at hrj
    by_cases hrp : r = p
    · rw [hrp, Function.update_self] at hrj
      cases hrj
    · rw [Function.update_of_ne hrp] at hrj
      by_cases hrq : r = q
      · rw [hrq, Function.update_self, Option.some.injEq] at hrj
        exact hrj ▸ h p i hi
      · rw [Function.update_of_ne hrq] at hrj
        exact h r j hrj

end Bounded

end Files

end Lib
