import Mathlib.Logic.Function.Basic
import Mathlib.Tactic.Common

/-!
# Files and descriptors

A small model of what POSIX promises about regular files: names are bound to
files, files hold data, a descriptor refers to an open file description with a
position of its own, and a file lives on under a descriptor when its name is
gone. Over an arbitrary type `π` of path names and an arbitrary element type.

Every call that can fail for reasons outside the model takes its outcome as an
argument: the descriptor `open` hands out, the count `read` and `write` return.
The model then says what may be observed under any such choice.

* `read_eq` — a read returns a non-empty piece of the file at the position, or
  nothing at its end;
* `splice_end` — a write at the end of a file appends;
* `Outside` — what other processes can do.
-/

namespace Lib

/-- An open file description. -/
structure OpenFile (π : Type) where
  path : π
  ino : Nat
  pos : Nat
  deriving DecidableEq

/-- Files, the names they are known by, and one process's descriptors. `next` is
above the number of every file there is. -/
structure Files (π α : Type) where
  dir : π → Option Nat
  data : Nat → List α
  fds : Int → Option (OpenFile π)
  next : Nat

/-- `old` with `bs` written at `pos`; a gap is filled, and writing nothing does
not extend the file. -/
def splice {α : Type} [Inhabited α] (old : List α) (pos : Nat) (bs : List α) : List α :=
  if bs.isEmpty then old
  else old.take pos ++ List.replicate (pos - old.length) default ++ bs ++ old.drop (pos + bs.length)

namespace Files

variable {π α : Type}

/-- No file and no descriptor. -/
def empty : Files π α := { dir _ := none, data _ := [], fds _ := none, next := 0 }

/-- The size `stat` reports. -/
def size (fs : Files π α) (p : π) : Option Nat := (fs.dir p).map fun i => (fs.data i).length

/-- Bind descriptor `n`. -/
def attach (fs : Files π α) (n : Int) (f : OpenFile π) : Files π α :=
  { fs with fds := Function.update fs.fds n (some f) }

/-- `open` of an existing file; `fd` is the descriptor handed out, if the call succeeds. -/
def openFile (fs : Files π α) (p : π) (fd : Option Int) : Option (Int × Files π α) :=
  match fd, fs.dir p with
  | some n, some i =>
      if 0 ≤ n ∧ fs.fds n = none then some (n, fs.attach n ⟨p, i, 0⟩) else none
  | _, _ => none

/-- `open` with `O_CREAT | O_EXCL`: the file must not exist. -/
def create [DecidableEq π] (fs : Files π α) (p : π) (fd : Option Int) : Option (Int × Files π α) :=
  match fd, fs.dir p with
  | some n, none =>
      if 0 ≤ n ∧ fs.fds n = none then
        some (n,
          { dir := Function.update fs.dir p (some fs.next)
            data := Function.update fs.data fs.next []
            fds := Function.update fs.fds n (some ⟨p, fs.next, 0⟩)
            next := fs.next + 1 })
      else none
  | _, _ => none

/-- `close`; a negative descriptor is an error without consequences. -/
def close (fs : Files π α) (n : Int) : Files π α :=
  if 0 ≤ n then { fs with fds := Function.update fs.fds n none } else fs

/-- Close each of the descriptors `ns`. -/
def closeMany (fs : Files π α) (ns : List Int) : Files π α := ns.foldl close fs

/-- `lseek` with `SEEK_SET`. -/
def seekSet (fs : Files π α) (n : Int) (off : Nat) : Option (Files π α) :=
  (fs.fds n).map fun f => fs.attach n { f with pos := off }

/-- `lseek` to `SEEK_END` with offset 0. -/
def seekEnd (fs : Files π α) (n : Int) : Option (Nat × Files π α) :=
  (fs.fds n).map fun f =>
    ((fs.data f.ino).length, fs.attach n { f with pos := (fs.data f.ino).length })

/-- `read` of at most `size` elements. The call returns what it likes between
one and all it may, and nothing only where nothing is left. -/
def read (fs : Files π α) (n : Int) (size count : Nat) : Option (List α × Files π α) :=
  (fs.fds n).map fun f =>
    let bs := ((fs.data f.ino).drop f.pos).take (min size (max 1 count))
    (bs, fs.attach n { f with pos := f.pos + bs.length })

/-- `write` of `bs`, of which at most `count` elements are taken. -/
def write [Inhabited α] (fs : Files π α) (n : Int) (bs : List α) (count : Nat) : Option (Nat × Files π α) :=
  (fs.fds n).map fun f =>
    let bs := bs.take count
    (bs.length,
      { fs.attach n { f with pos := f.pos + bs.length } with
        data := Function.update fs.data f.ino (splice (fs.data f.ino) f.pos bs) })

/-- `rename`; nothing happens when both names belong to the same file. -/
def rename [DecidableEq π] (fs : Files π α) (p q : π) : Option (Files π α) :=
  (fs.dir p).map fun i =>
    if fs.dir q = some i then fs
    else { fs with dir := Function.update (Function.update fs.dir q (some i)) p none }

/-- `unlink`. -/
def unlink [DecidableEq π] (fs : Files π α) (p : π) : Files π α :=
  { fs with dir := Function.update fs.dir p none }

/-- What other processes can do: change any name and any content, but not this
process's descriptors. -/
structure Outside (fs fs' : Files π α) : Prop where
  fds : fs'.fds = fs.fds
  next : fs.next ≤ fs'.next
  dir : ∀ p i, fs'.dir p = some i → i < fs'.next

/-- The numbers in use are below `next`, and descriptors are not negative. -/
structure Ok (fs : Files π α) : Prop where
  dir : ∀ p i, fs.dir p = some i → i < fs.next
  ino : ∀ n f, fs.fds n = some f → f.ino < fs.next
  fd : ∀ n f, fs.fds n = some f → 0 ≤ n

/-- The files of a list of names and contents. -/
def ofList [DecidableEq π] (l : List (π × List α)) : Files π α where
  dir p := (l.map Prod.fst).idxOf? p
  data i := (l[i]?.map Prod.snd).getD []
  fds _ := none
  next := l.length

theorem ofList_ok [DecidableEq π] (l : List (π × List α)) : Ok (ofList l) where
  dir := by
    intro p i h
    have := (List.findIdx?_eq_some_iff_findIdx_eq.mp h).1
    rwa [List.length_map] at this
  ino := fun _ _ h => by cases h
  fd := fun _ _ h => by cases h

/-! ## Contents -/

/-- Writing at the end of a file appends. -/
theorem splice_end [Inhabited α] (old bs : List α) : splice old old.length bs = old ++ bs := by
  unfold splice
  split
  · rename_i h
    rw [List.isEmpty_iff.mp h, List.append_nil]
  · rw [Nat.sub_self, List.take_length, List.drop_eq_nil_of_le (by omega)]
    simp

/-! ## What the calls return -/

theorem openFile_eq_some {fs fs' : Files π α} {p : π} {fd : Option Int} {n : Int}
    (h : fs.openFile p fd = some (n, fs')) :
    0 ≤ n ∧ fs.fds n = none ∧ ∃ i, fs.dir p = some i ∧ fs' = fs.attach n ⟨p, i, 0⟩ := by
  unfold openFile at h
  split at h
  · rename_i k i hdir
    split at h
    · rename_i hn
      simp only [Option.some.injEq, Prod.mk.injEq] at h
      obtain ⟨rfl, rfl⟩ := h
      exact ⟨hn.1, hn.2, i, hdir, rfl⟩
    · cases h
  · cases h

theorem create_eq_some [DecidableEq π] {fs fs' : Files π α} {p : π} {fd : Option Int} {n : Int}
    (h : fs.create p fd = some (n, fs')) :
    0 ≤ n ∧ fs.fds n = none ∧ fs.dir p = none ∧
      fs' =
        { dir := Function.update fs.dir p (some fs.next)
          data := Function.update fs.data fs.next []
          fds := Function.update fs.fds n (some ⟨p, fs.next, 0⟩)
          next := fs.next + 1 } := by
  unfold create at h
  split at h
  · rename_i k hdir
    split at h
    · rename_i hn
      simp only [Option.some.injEq, Prod.mk.injEq] at h
      obtain ⟨rfl, rfl⟩ := h
      exact ⟨hn.1, hn.2, hdir, rfl⟩
    · cases h
  · cases h

/-- A file that is there can be opened, if a descriptor can be had. -/
theorem openFile_of_dir {fs : Files π α} {p : π} {n : Int} {i : Nat} (hdir : fs.dir p = some i)
    (h0 : 0 ≤ n) (hfree : fs.fds n = none) :
    fs.openFile p (some n) = some (n, fs.attach n ⟨p, i, 0⟩) := by
  unfold openFile
  rw [hdir]
  exact if_pos ⟨h0, hfree⟩

theorem openFile_absent {fs : Files π α} {p : π} (fd : Option Int) (hdir : fs.dir p = none) :
    fs.openFile p fd = none := by
  unfold openFile
  rw [hdir]
  cases fd <;> rfl

/-- A file that is not there can be created, if a descriptor can be had. -/
theorem create_of_absent [DecidableEq π] {fs : Files π α} {p : π} {n : Int} (hdir : fs.dir p = none)
    (h0 : 0 ≤ n) (hfree : fs.fds n = none) :
    ∃ fs', fs.create p (some n) = some (n, fs') ∧ fs'.fds n = some ⟨p, fs.next, 0⟩ := by
  unfold create
  rw [hdir]
  exact ⟨_, if_pos ⟨h0, hfree⟩, Function.update_self _ _ _⟩

/-- A read returns a piece of the file at the position of the descriptor. -/
theorem read_eq {fs fs' : Files π α} {n : Int} {size count : Nat} {bs : List α}
    (h : fs.read n size count = some (bs, fs')) :
    ∃ f, fs.fds n = some f ∧ bs.length ≤ size ∧
      bs = ((fs.data f.ino).drop f.pos).take bs.length ∧
      (bs = [] → size = 0 ∨ (fs.data f.ino).length ≤ f.pos) ∧
      fs' = fs.attach n { f with pos := f.pos + bs.length } := by
  unfold read at h
  obtain ⟨f, hf, heq⟩ := Option.map_eq_some_iff.mp h
  simp only [Prod.mk.injEq] at heq
  obtain ⟨hbs, hfs⟩ := heq
  have hlen := congrArg List.length hbs
  rw [List.length_take, List.length_drop] at hlen
  refine ⟨f, hf, by omega, ?_, ?_, ?_⟩
  · conv_lhs => rw [← hbs]
    rw [List.take_eq_take_iff, List.length_drop]
    omega
  · rintro rfl
    rw [List.length_nil] at hlen
    omega
  · rw [← hfs, hbs]

/-- A write puts as much of `bs` as it is worth at the position of the descriptor. -/
theorem write_eq [Inhabited α] {fs fs' : Files π α} {n : Int} {bs : List α} {count k : Nat}
    (h : fs.write n bs count = some (k, fs')) :
    ∃ f, fs.fds n = some f ∧ k ≤ bs.length ∧
      fs' = { fs.attach n { f with pos := f.pos + k } with
        data := Function.update fs.data f.ino (splice (fs.data f.ino) f.pos (bs.take k)) } := by
  unfold write at h
  obtain ⟨f, hf, heq⟩ := Option.map_eq_some_iff.mp h
  simp only [Prod.mk.injEq] at heq
  obtain ⟨hk, hfs⟩ := heq
  have htake : bs.take k = bs.take count := by
    rw [← hk, List.length_take, List.take_eq_take_iff]
    omega
  refine ⟨f, hf, ?_, ?_⟩
  · rw [← hk, List.length_take]
    omega
  · rw [← hfs, hk, htake]

/-- A file that is renamed is there under its new name, with what is in it. -/
theorem rename_of_dir [DecidableEq π] {fs : Files π α} {p q : π} {i : Nat} (hdir : fs.dir p = some i)
    (hne : q ≠ p) :
    ∃ fs', fs.rename p q = some fs' ∧ fs'.dir q = some i ∧ fs'.data = fs.data := by
  rw [rename, hdir, Option.map_some]
  refine ⟨_, rfl, ?_⟩
  split
  · exact ⟨‹_›, rfl⟩
  · exact ⟨(Function.update_of_ne hne _ _).trans (Function.update_self _ _ _), rfl⟩

theorem seekEnd_eq {fs fs' : Files π α} {n : Int} {off : Nat}
    (h : fs.seekEnd n = some (off, fs')) :
    ∃ f, fs.fds n = some f ∧ off = (fs.data f.ino).length ∧
      fs' = fs.attach n { f with pos := off } := by
  obtain ⟨f, hf, heq⟩ := Option.map_eq_some_iff.mp h
  simp only [Prod.mk.injEq] at heq
  exact ⟨f, hf, heq.1.symm, by rw [← heq.2, heq.1]⟩

/-! ## Descriptors -/

@[simp] theorem attach_self (fs : Files π α) (n : Int) (f : OpenFile π) :
    (fs.attach n f).fds n = some f := by
  simp [attach]

theorem attach_of_ne (fs : Files π α) {n k : Int} (f : OpenFile π) (h : k ≠ n) :
    (fs.attach n f).fds k = fs.fds k := by
  simp [attach, h]

@[simp] theorem attach_dir (fs : Files π α) (n : Int) (f : OpenFile π) :
    (fs.attach n f).dir = fs.dir := rfl

@[simp] theorem attach_data (fs : Files π α) (n : Int) (f : OpenFile π) :
    (fs.attach n f).data = fs.data := rfl

@[simp] theorem attach_next (fs : Files π α) (n : Int) (f : OpenFile π) :
    (fs.attach n f).next = fs.next := rfl

theorem close_of_ne (fs : Files π α) {n k : Int} (h : k ≠ n) :
    (fs.close n).fds k = fs.fds k := by
  unfold close
  split
  · simp [h]
  · rfl

@[simp] theorem close_dir (fs : Files π α) (n : Int) : (fs.close n).dir = fs.dir := by
  unfold close
  split <;> rfl

@[simp] theorem close_data (fs : Files π α) (n : Int) : (fs.close n).data = fs.data := by
  unfold close
  split <;> rfl

@[simp] theorem close_next (fs : Files π α) (n : Int) : (fs.close n).next = fs.next := by
  unfold close
  split <;> rfl

theorem closeMany_of_not_mem (fs : Files π α) {ns : List Int} {k : Int} (h : k ∉ ns) :
    (fs.closeMany ns).fds k = fs.fds k := by
  induction ns generalizing fs with
  | nil => rfl
  | cons n ns ih =>
      rw [List.mem_cons, not_or] at h
      have hcons : fs.closeMany (n :: ns) = (fs.close n).closeMany ns := rfl
      rw [hcons, ih (fs.close n) h.2, close_of_ne fs h.1]

end Files

end Lib
