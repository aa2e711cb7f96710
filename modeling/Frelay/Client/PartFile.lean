import Frelay.Client.Process
import Frelay.Client.Io
import Frelay.Client.Entries
import Frelay.Lib.History

/-!
# The part file of a download

What `download_write`, `download_resume` and the start of a download can do,
case by case: the part file is open or is created (`PartOpen`), and then a write
or a seek goes one way or the other.
-/

namespace Frelay

open Lib

/-- The part file of `d` is open: it was already, or has just been created. -/
inductive PartOpen (k : Disk) (d : Transfer) : Disk → Int → Prop
  | held : 0 ≤ d.fd → PartOpen k d k d.fd
  | created {partname : Bytes} {newFd : Option Int} {fd : Int} {k' : Disk} : d.fd < 0 →
      d.partname = some partname → k.create d.addr partname newFd = some (fd, k') →
      PartOpen k d k' fd

/-- What `download_write` can do. -/
inductive WriteCase (k : Disk) (d : Transfer) (data : Bytes) : Disk × Transfer × Bool → Prop
  | shut : d.fd < 0 → WriteCase k d data (k, { d with fd := -1 }, false)
  | failed {k₁ : Disk} {fd : Int} : PartOpen k d k₁ fd →
      WriteCase k d data (k₁.close fd, { d with fd := -1 }, false)
  | short {k₁ : Disk} {fd : Int} {count n : Nat} {fs : Files Bytes UInt8} : PartOpen k d k₁ fd →
      k₁.fs.write fd data count = some (n, fs) → n < data.length →
      WriteCase k d data
        ({ k₁ with fs := fs, log := .wrote d.addr n :: k₁.log }.close fd, { d with fd := -1 }, false)
  | full {k₁ : Disk} {fd : Int} {count n : Nat} {fs : Files Bytes UInt8} : PartOpen k d k₁ fd →
      k₁.fs.write fd data count = some (n, fs) → n = data.length →
      WriteCase k d data
        ({ k₁ with fs := fs, log := .wrote d.addr n :: k₁.log }, { d with fd := fd }, true)

/-- What `download_resume` can do. -/
inductive ResumeCase (k : Disk) (d : Transfer) : Disk × Transfer × Bool → Prop
  | held : 0 ≤ d.fd → ResumeCase k d (k, d, false)
  | absent : d.fd < 0 → ResumeCase k d (k, { d with fd := -1 }, false)
  | stuck {partname : Bytes} {newFd : Option Int} {fd : Int} {k₁ : Disk} : d.fd < 0 →
      d.partname = some partname → k.openFile d.addr partname newFd = some (fd, k₁) →
      ResumeCase k d (k₁.close fd, { d with fd := -1 }, false)
  | resumed {partname : Bytes} {newFd : Option Int} {fd : Int} {k₁ : Disk} {off : Nat}
      {fs : Files Bytes UInt8} : d.fd < 0 → d.partname = some partname →
      k.openFile d.addr partname newFd = some (fd, k₁) → k₁.fs.seekEnd fd = some (off, fs) →
      ResumeCase k d
        ({ k₁ with fs := fs }, { d with fd := fd, offset := UInt64.ofNat off }, true)

theorem downloadOpen_cases (env : SysEnv) (k : Disk) (d : Transfer) :
    (∃ k₁ fd, downloadOpen env k d = (k₁, { d with fd := fd }) ∧ PartOpen k d k₁ fd ∧ 0 ≤ fd) ∨
      (downloadOpen env k d = (k, { d with fd := -1 }) ∧ d.fd < 0) := by
  unfold downloadOpen
  split
  · rename_i h0
    exact .inl ⟨k, d.fd, rfl, .held h0, h0⟩
  · rename_i hneg
    split
    · rename_i fd k' hopen
      obtain ⟨partname, hp, hcreate⟩ := Option.bind_eq_some_iff.mp hopen
      refine .inl ⟨k', fd, rfl, .created (by omega) hp hcreate, ?_⟩
      obtain ⟨r, hr, heq⟩ := Option.map_eq_some_iff.mp hcreate
      simp only [Prod.mk.injEq] at heq
      rw [← heq.1]
      exact (Files.create_eq_some hr).1
    · exact .inr ⟨rfl, by omega⟩

theorem downloadWrite_cases (env : SysEnv) (k : Disk) (d : Transfer) (data : Bytes) :
    WriteCase k d data (downloadWrite env k d data) := by
  unfold downloadWrite
  rcases downloadOpen_cases env k d with ⟨k₁, fd, heq, hopen, h0⟩ | ⟨heq, hneg⟩
  · rw [heq]
    simp only
    rw [if_neg (by omega)]
    split
    · exact .failed hopen
    · rename_i n fs hwrite
      obtain ⟨count, -, hwrite⟩ := Option.bind_eq_some_iff.mp hwrite
      split
      · exact .short hopen hwrite ‹_›
      · rename_i hle
        have hn := (Files.write_eq hwrite).choose_spec.2.1
        exact .full hopen hwrite (by omega)
  · rw [heq]
    exact .shut hneg

theorem downloadResume_cases (env : SysEnv) (k : Disk) (d : Transfer) :
    ResumeCase k d (downloadResume env k d) := by
  unfold downloadResume
  split
  · exact .held ‹_›
  · rename_i hneg
    split
    · exact .absent (by omega)
    · rename_i fd k₁ hopen
      obtain ⟨partname, hp, hopen⟩ := Option.bind_eq_some_iff.mp hopen
      split
      · exact .stuck (by omega) hp hopen
      · rename_i off fs hseek
        split at hseek
        · exact .resumed (by omega) hp hopen hseek
        · cases hseek

/-- A descriptor can be had. -/
def FreshFd (env : SysEnv) (k : Disk) : Prop :=
  ∃ n, env.openFd = some n ∧ 0 ≤ n ∧ k.fs.fds n = none

/-! ## What it leaves in the log -/

/-- What may be done on behalf of `d` while its name is what it is on `k`. -/
inductive PartAct (k : Disk) (d : Transfer) : TransferAct → Prop
  | created {partname : Bytes} {ino : Nat} : d.partname = some partname →
      PartAct k d (.created d.addr (k.path partname) ino)
  | opened {partname : Bytes} {ino : Nat} : d.partname = some partname →
      PartAct k d (.opened d.addr (k.path partname) ino)
  | wrote (n : Nat) : PartAct k d (.wrote d.addr n)

theorem PartOpen.acts {k k' : Disk} {d : Transfer} {fd : Int} (h : PartOpen k d k' fd) :
    Grown (PartAct k d) k.log k'.log ∧ k'.cwd = k.cwd := by
  cases h with
  | held _ => exact ⟨.refl _ _, rfl⟩
  | created _ hp hcreate =>
      obtain ⟨r, -, heq⟩ := Option.map_eq_some_iff.mp hcreate
      simp only [Prod.mk.injEq] at heq
      rw [← heq.2]
      exact ⟨(Grown.refl _ _).cons (.created hp), rfl⟩

theorem openFile_acts {k k₁ : Disk} {d : Transfer} {partname : Bytes} {newFd : Option Int} {fd : Int}
    (hp : d.partname = some partname) (h : k.openFile d.addr partname newFd = some (fd, k₁)) :
    Grown (PartAct k d) k.log k₁.log ∧ k₁.cwd = k.cwd := by
  obtain ⟨r, -, heq⟩ := Option.map_eq_some_iff.mp h
  simp only [Prod.mk.injEq] at heq
  rw [← heq.2]
  exact ⟨(Grown.refl _ _).cons (.opened hp), rfl⟩

theorem downloadWrite_acts (env : SysEnv) (k : Disk) (d : Transfer) (data : Bytes) :
    Grown (PartAct k d) k.log (downloadWrite env k d data).1.log := by
  generalize hr : downloadWrite env k d data = r
  have hcase := hr ▸ downloadWrite_cases env k d data
  cases hcase with
  | shut _ => exact .refl _ _
  | failed hopen => exact hopen.acts.1
  | short hopen _ _ => exact hopen.acts.1.cons (.wrote _)
  | full hopen _ _ => exact hopen.acts.1.cons (.wrote _)

/-- The same acts seen from an earlier state of the entry. -/
theorem PartAct.of_same {k k₁ : Disk} {d d₁ : Transfer} (hcwd : k₁.cwd = k.cwd)
    (haddr : d₁.addr = d.addr) (hpart : d₁.partname = d.partname) {a : TransferAct}
    (h : PartAct k₁ d₁ a) : PartAct k d a := by
  have hpath : k₁.path = k.path := Disk.path_of_cwd hcwd
  cases h with
  | created hp =>
      rw [haddr, hpath]
      exact .created (hpart ▸ hp)
  | opened hp =>
      rw [haddr, hpath]
      exact .opened (hpart ▸ hp)
  | wrote n =>
      rw [haddr]
      exact .wrote n

theorem startDownload_acts (env : CltEnv) (k : Disk) (d : Transfer) :
    Grown (PartAct k d) k.log (Clt.startDownload env k d).1.log := by
  have hwrite : ∀ {k₁ : Disk} {d₁ : Transfer}, Grown (PartAct k d) k.log k₁.log →
      k₁.cwd = k.cwd → d₁.addr = d.addr → d₁.partname = d.partname →
      Grown (PartAct k d) k.log (downloadWrite env.toSysEnv k₁ d₁ []).1.log :=
    fun h hcwd haddr hpart =>
      h.trans ((downloadWrite_acts _ _ _ _).mono fun _ => .of_same hcwd haddr hpart)
  unfold Clt.startDownload
  generalize hr : downloadResume env.toSysEnv k d = r
  have hcase := hr ▸ downloadResume_cases env.toSysEnv k d
  cases hcase with
  | held _ => exact hwrite (.refl _ _) rfl rfl rfl
  | absent _ => exact hwrite (.refl _ _) rfl rfl rfl
  | @stuck _ _ fd k₁ _ hp hopen =>
      obtain ⟨hacts, hcwd⟩ := openFile_acts hp hopen
      have hclosed : Grown (PartAct k d) k.log (k₁.close fd).log := hacts
      exact hwrite hclosed hcwd rfl rfl
  | resumed _ hp hopen _ => exact (openFile_acts hp hopen).1

/-! ## Renaming -/

/-- The part file of `d` can be renamed to the final name. -/
def Renamable (env : SysEnv) (k : Disk) (d : Transfer) : Prop :=
  env.renameOk = true ∧ ∃ partname name, d.partname = some partname ∧ d.name = some name ∧
    k.fs.dir (k.path partname) ≠ none

theorem renamePart_cases (env : CltEnv) (k : Disk) (d : Transfer) :
    (Renamable env.toSysEnv k d ∧ ∃ partname name fs, d.partname = some partname ∧
      d.name = some name ∧ k.fs.rename (k.path partname) (k.path name) = some fs ∧
      Clt.renamePart env k d =
        ({ k with fs := fs } : Disk).note (.renamed d.addr (k.path partname) (k.path name))) ∨
      (¬ Renamable env.toSysEnv k d ∧ Clt.renamePart env k d = k) := by
  unfold Clt.renamePart
  split
  · rename_i partname name hp hn
    by_cases hok : env.renameOk = true
    · rw [if_pos hok]
      cases hdir : k.fs.dir (k.path partname) with
      | none =>
          have hren : k.fs.rename (k.path partname) (k.path name) = none := by
            rw [Files.rename, hdir, Option.map_none]
          rw [hren]
          refine .inr ⟨?_, rfl⟩
          rintro ⟨-, partname', name', hp', -, hne⟩
          rw [hp, Option.some.injEq] at hp'
          exact hne (hp' ▸ hdir)
      | some i =>
          obtain ⟨fs, hfs⟩ : ∃ fs, k.fs.rename (k.path partname) (k.path name) = some fs := by
            rw [Files.rename, hdir]
            exact ⟨_, rfl⟩
          rw [hfs]
          exact .inl ⟨⟨hok, partname, name, hp, hn, by rw [hdir]; exact Option.some_ne_none i⟩,
            partname, name, fs, hp, hn, hfs, rfl⟩
    · rw [if_neg hok]
      exact .inr ⟨fun h => hok h.1, rfl⟩
  · rename_i hnone
    refine .inr ⟨?_, rfl⟩
    rintro ⟨-, partname, name, hp, hn, -⟩
    exact hnone partname name hp hn

/-- The two names of a download stand for different files. -/
theorem path_part_ne (k : Disk) (name : Bytes) : k.path name ≠ k.path (name ++ TXT_PART) := by
  have hlen : TXT_PART.length = 5 := rfl
  have hhead : (name ++ TXT_PART).head? = some 0x2f ↔ name.head? = some 0x2f := by
    cases name with
    | nil => decide
    | cons b bs => exact Iff.rfl
  intro heq
  have := congrArg List.length heq
  unfold Disk.path at this
  by_cases habs : name.head? = some 0x2f
  · rw [if_pos habs, if_pos (hhead.mpr habs), List.length_append] at this
    omega
  · rw [if_neg habs, if_neg fun h => habs (hhead.mp h), List.length_append, List.length_append,
      List.length_cons, List.length_cons, List.length_append] at this
    omega

/-- A part file that is there takes the final name. -/
theorem renamePart_renames {env : CltEnv} {k : Disk} {d : Transfer} {name : Bytes} {i : Nat}
    (hok : env.renameOk = true) (hname : d.name = some name)
    (hpart : d.partname = some (name ++ TXT_PART))
    (hdir : k.fs.dir (k.path (name ++ TXT_PART)) = some i) :
    (Clt.renamePart env k d).fs.dir (k.path name) = some i ∧
      (Clt.renamePart env k d).fs.data = k.fs.data ∧ (Clt.renamePart env k d).cwd = k.cwd ∧
      (Clt.renamePart env k d).log =
        .renamed d.addr (k.path (name ++ TXT_PART)) (k.path name) :: k.log := by
  obtain ⟨fs, hren, hdir', hdata⟩ := Files.rename_of_dir hdir (path_part_ne k name)
  have heq : Clt.renamePart env k d = ({ k with fs := fs } : Disk).note
      (.renamed d.addr (k.path (name ++ TXT_PART)) (k.path name)) := by
    unfold Clt.renamePart
    rw [hpart, hname]
    simp only [if_pos hok, hren]
  rw [heq]
  exact ⟨hdir', hdata, rfl, rfl⟩

end Frelay
