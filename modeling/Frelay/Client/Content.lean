import Frelay.Client.PartFile
import Frelay.Client.Effect

/-!
# The content of a part file

`PartSynced` says that the offset of a download is the length of its part file,
and that its descriptor, if it is open, is at the end of this file. Starting the
download keeps it and the content (`startDownload_synced`); a write that
succeeds appends its octets (`downloadWrite_appends`).
-/

namespace Frelay

open Lib

/-- The part file of `d`, if there is one. -/
def partFile (k : Disk) (d : Transfer) : Option Nat :=
  d.partname.bind fun partname => k.fs.dir (k.path partname)

/-- What is in it. -/
def partContent (k : Disk) (d : Transfer) : Bytes := ((partFile k d).map k.fs.data).getD []

/-- The descriptor of `d`, if it is open, is at the end of its part file. -/
def HeldAtEnd (k : Disk) (d : Transfer) : Prop :=
  0 ≤ d.fd → ∃ f, k.fs.fds d.fd = some f ∧ partFile k d = some f.ino ∧
    f.pos = (k.fs.data f.ino).length

/-- So is the offset of `d`. -/
structure PartSynced (k : Disk) (d : Transfer) : Prop where
  held : HeldAtEnd k d
  offset : d.offset.toNat = (partContent k d).length

/-! ## What the content depends on -/

theorem partFile_congr {k k' : Disk} {d d' : Transfer} (hdir : k'.fs.dir = k.fs.dir)
    (hcwd : k'.cwd = k.cwd) (hpart : d'.partname = d.partname) : partFile k' d' = partFile k d := by
  unfold partFile Disk.path
  rw [hdir, hcwd, hpart]

theorem partContent_congr {k k' : Disk} {d d' : Transfer} (hdir : k'.fs.dir = k.fs.dir)
    (hdata : k'.fs.data = k.fs.data) (hcwd : k'.cwd = k.cwd) (hpart : d'.partname = d.partname) :
    partContent k' d' = partContent k d := by
  rw [partContent, partContent, partFile_congr hdir hcwd hpart, hdata]

theorem partContent_of_file {k : Disk} {d : Transfer} {i : Nat} (h : partFile k d = some i) :
    partContent k d = k.fs.data i := by
  rw [partContent, h]
  rfl

theorem heldAtEnd_closed (k : Disk) {d : Transfer} (h : d.fd = -1) : HeldAtEnd k d := by
  intro h0
  rw [h] at h0
  exact absurd h0 (by decide)

namespace PartSynced

variable {k k' : Disk} {d d' : Transfer}

/-- The log and the fields that say nothing about the file do not matter. -/
theorem congr (h : PartSynced k d) (hfs : k'.fs = k.fs) (hcwd : k'.cwd = k.cwd)
    (hpart : d'.partname = d.partname) (hfd : d'.fd = d.fd) (hoff : d'.offset = d.offset) :
    PartSynced k' d' where
  held := by
    unfold HeldAtEnd
    rw [partFile_congr (congrArg Files.dir hfs) hcwd hpart, hfd, hfs]
    exact h.held
  offset := by
    rw [partContent_congr (congrArg Files.dir hfs) (congrArg Files.data hfs) hcwd hpart, hoff]
    exact h.offset

/-- Without a descriptor, only the content counts. -/
theorem closed (h : PartSynced k d) (hdir : k'.fs.dir = k.fs.dir)
    (hdata : k'.fs.data = k.fs.data) (hcwd : k'.cwd = k.cwd) :
    PartSynced k' { d with fd := -1 } where
  held := heldAtEnd_closed k' rfl
  offset := by
    have hcontent : partContent k' { d with fd := -1 } = partContent k d :=
      partContent_congr hdir hdata hcwd rfl
    rw [hcontent]
    exact h.offset

/-- Opening the part file, or finding it open. -/
theorem partOpen {fd : Int} (h : PartSynced k d) (hopen : PartOpen k d k' fd) :
    PartSynced k' { d with fd := fd } ∧ partContent k' { d with fd := fd } = partContent k d ∧
      k'.cwd = k.cwd ∧ 0 ≤ fd := by
  cases hopen with
  | held h0 => exact ⟨h, rfl, rfl, h0⟩
  | @created partname newFd _ _ hneg hp hcreate =>
      obtain ⟨⟨n, fs⟩, hr, heq⟩ := Option.map_eq_some_iff.mp hcreate
      simp only [Prod.mk.injEq] at heq
      obtain ⟨rfl, rfl⟩ := heq
      obtain ⟨h0, -, hdir, rfl⟩ := Files.create_eq_some hr
      have hold : partContent k d = [] := by
        rw [partContent, partFile, hp, Option.bind_some, hdir]
        rfl
      have hfile : ∀ k' : Disk, k'.fs.dir (k'.path partname) = some k.fs.next →
          partFile k' { d with fd := n } = some k.fs.next := by
        intro k' hdir'
        rw [partFile, show ({ d with fd := n } : Transfer).partname = some partname from hp]
        exact hdir'
      have hnew := hfile { k with
        fs :=
          { dir := Function.update k.fs.dir (k.path partname) (some k.fs.next)
            data := Function.update k.fs.data k.fs.next []
            fds := Function.update k.fs.fds n (some ⟨k.path partname, k.fs.next, 0⟩)
            next := k.fs.next + 1 }
        log := .created d.addr (k.path partname) k.fs.next :: k.log } (Function.update_self _ _ _)
      have hempty := (partContent_of_file hnew).trans (Function.update_self _ _ _)
      refine ⟨⟨fun _ => ⟨⟨k.path partname, k.fs.next, 0⟩, ?_, hnew, ?_⟩, ?_⟩, ?_, rfl, h0⟩
      · exact Function.update_self _ _ _
      · exact (congrArg List.length (Function.update_self k.fs.next [] k.fs.data)).symm
      · rw [hempty, ← hold]
        exact h.offset
      · rw [hempty, hold]

end PartSynced

/-! ## Writing and opening -/

/-- A write that succeeds appends its octets; the offset is left to the caller. -/
theorem downloadWrite_appends {env : SysEnv} {k k' : Disk} {d d' : Transfer} {data : Bytes}
    (h : PartSynced k d) (hw : downloadWrite env k d data = (k', d', true)) :
    (∃ fd, 0 ≤ fd ∧ d' = { d with fd := fd }) ∧ k'.cwd = k.cwd ∧
      partContent k' d' = partContent k d ++ data ∧ HeldAtEnd k' d' := by
  have hcase := hw ▸ downloadWrite_cases env k d data
  cases hcase with
  | @full k₁ fd count n fs hopen hwrite hn =>
      obtain ⟨hsync, hcontent, hcwd, h0⟩ := h.partOpen hopen
      obtain ⟨f, hf, hfile, hpos⟩ := hsync.held h0
      obtain ⟨f', hf', -, rfl⟩ := Files.write_eq hwrite
      have hsame : f' = f := Option.some.inj (hf'.symm.trans hf)
      subst hsame
      have hdata : splice (k₁.fs.data f'.ino) f'.pos (data.take n) =
          k₁.fs.data f'.ino ++ data := by
        rw [hpos, Files.splice_end, hn, List.take_length]
      -- The octets go to the end of the file the part name stands for.
      obtain ⟨k₂, hk₂⟩ : ∃ k₂ : Disk, { k₁ with
          fs := { k₁.fs.attach fd { f' with pos := f'.pos + n } with
            data := Function.update k₁.fs.data f'.ino
              (splice (k₁.fs.data f'.ino) f'.pos (data.take n)) }
          log := .wrote d.addr n :: k₁.log } = k₂ := ⟨_, rfl⟩
      have hdir₂ : k₂.fs.dir = k₁.fs.dir := by rw [← hk₂]; rfl
      have hcwd₂ : k₂.cwd = k₁.cwd := by rw [← hk₂]
      have hdata₂ : k₂.fs.data f'.ino = k₁.fs.data f'.ino ++ data := by
        rw [← hk₂, ← hdata]
        exact Function.update_self _ _ _
      have hfd₂ : k₂.fs.fds fd = some { f' with pos := f'.pos + n } := by
        rw [← hk₂]
        exact Files.attach_self _ _ _
      rw [hk₂]
      have hfile₂ : partFile k₂ { d with fd := fd } = some f'.ino := by
        rw [partFile_congr (d := { d with fd := fd }) hdir₂ hcwd₂ rfl]
        exact hfile
      refine ⟨⟨fd, h0, rfl⟩, hcwd₂.trans hcwd, ?_, fun _ => ⟨_, hfd₂, hfile₂, ?_⟩⟩
      · rw [partContent_of_file hfile₂, hdata₂, ← hcontent, partContent_of_file hfile]
      · rw [hdata₂, List.length_append, ← hpos, hn]

/-- A write of nothing changes nothing, whether it succeeds or not. -/
theorem downloadWrite_nil (env : SysEnv) {k : Disk} {d : Transfer} (h : PartSynced k d) :
    PartSynced (downloadWrite env k d []).1 (downloadWrite env k d []).2.1 ∧
      partContent (downloadWrite env k d []).1 (downloadWrite env k d []).2.1 =
        partContent k d := by
  generalize hr : downloadWrite env k d [] = r
  have hcase := hr ▸ downloadWrite_cases env k d []
  cases hcase with
  | shut hneg => exact ⟨h.closed rfl rfl rfl, partContent_congr rfl rfl rfl rfl⟩
  | @failed k₁ fd hopen =>
      obtain ⟨hsync, hcontent, -, -⟩ := h.partOpen hopen
      have hdir : (k₁.close fd).fs.dir = k₁.fs.dir := Files.close_dir k₁.fs fd
      have hdata : (k₁.close fd).fs.data = k₁.fs.data := Files.close_data k₁.fs fd
      refine ⟨hsync.closed hdir hdata rfl, ?_⟩
      rw [← hcontent]
      exact partContent_congr hdir hdata rfl rfl
  | short hopen hwrite hn => exact absurd hn (Nat.not_lt_zero _)
  | full hopen hwrite hn =>
      obtain ⟨-, -, hcontent, hheld⟩ := downloadWrite_appends h hr
      rw [List.append_nil] at hcontent
      refine ⟨⟨hheld, ?_⟩, hcontent⟩
      rw [hcontent]
      exact h.offset

/-- Opening the part file that is there: only the descriptor is new. -/
theorem openFile_partFile {k k₁ : Disk} {d : Transfer} {partname : Bytes} {newFd : Option Int}
    {fd : Int} (hp : d.partname = some partname)
    (h : k.openFile d.addr partname newFd = some (fd, k₁)) :
    ∃ i, partFile k d = some i ∧ k₁.fs.fds fd = some ⟨k.path partname, i, 0⟩ ∧
      k₁.fs.dir = k.fs.dir ∧ k₁.fs.data = k.fs.data ∧ k₁.cwd = k.cwd := by
  obtain ⟨⟨n, fs⟩, hr, heq⟩ := Option.map_eq_some_iff.mp h
  simp only [Prod.mk.injEq] at heq
  obtain ⟨rfl, rfl⟩ := heq
  obtain ⟨-, -, i, hdir, rfl⟩ := Files.openFile_eq_some hr
  refine ⟨i, ?_, Files.attach_self _ _ _, rfl, rfl, rfl⟩
  rw [partFile, hp]
  exact hdir

/-- Resuming a download finds the offset where it was. -/
theorem downloadResume_synced (env : SysEnv) {k : Disk} {d : Transfer} (h : PartSynced k d) :
    PartSynced (downloadResume env k d).1 (downloadResume env k d).2.1 ∧
      partContent (downloadResume env k d).1 (downloadResume env k d).2.1 = partContent k d ∧
      (downloadResume env k d).2.1.offset = d.offset := by
  generalize hr : downloadResume env k d = r
  have hcase := hr ▸ downloadResume_cases env k d
  cases hcase with
  | held h0 => exact ⟨h, rfl, rfl⟩
  | absent hneg => exact ⟨h.closed rfl rfl rfl, partContent_congr rfl rfl rfl rfl, rfl⟩
  | @stuck partname newFd fd k₁ hneg hp hopen =>
      obtain ⟨i, -, -, hdir, hdata, hcwd⟩ := openFile_partFile hp hopen
      have hdir' : (k₁.close fd).fs.dir = k.fs.dir := (Files.close_dir k₁.fs fd).trans hdir
      have hdata' : (k₁.close fd).fs.data = k.fs.data := (Files.close_data k₁.fs fd).trans hdata
      exact ⟨h.closed hdir' hdata' hcwd, partContent_congr hdir' hdata' hcwd rfl, rfl⟩
  | @resumed partname newFd fd k₁ off fs hneg hp hopen hseek =>
      obtain ⟨i, hfile, hfd, hdir, hdata, hcwd⟩ := openFile_partFile hp hopen
      obtain ⟨f, hf, hoff, rfl⟩ := Files.seekEnd_eq hseek
      have hfi : f = ⟨k.path partname, i, 0⟩ := Option.some.inj (hf.symm.trans hfd)
      subst hfi
      have hlen : off = (partContent k d).length := by
        rw [hoff, hdata, partContent_of_file hfile]
      have hsame : UInt64.ofNat off = d.offset := by
        rw [hlen, ← h.offset, UInt64.ofNat_toNat]
      have hcontent : partContent
          { k₁ with fs := k₁.fs.attach fd ⟨k.path partname, i, off⟩ }
          { d with fd := fd, offset := UInt64.ofNat off } = partContent k d :=
        partContent_congr hdir hdata hcwd rfl
      refine ⟨⟨fun _ => ⟨_, Files.attach_self _ _ _, ?_, ?_⟩, ?_⟩, hcontent, hsame⟩
      · exact (partFile_congr hdir hcwd rfl).trans hfile
      · exact hoff
      · rw [hcontent, ← h.offset]
        exact congrArg UInt64.toNat hsame

/-- The start of a download keeps its part file, and finds the offset where it was. -/
theorem startDownload_synced (env : CltEnv) {k : Disk} {d : Transfer} (h : PartSynced k d) :
    PartSynced (Clt.startDownload env k d).1 (Clt.startDownload env k d).2.1 ∧
      partContent (Clt.startDownload env k d).1 (Clt.startDownload env k d).2.1 =
        partContent k d ∧
      (Clt.startDownload env k d).2.1.offset = d.offset := by
  have hres := downloadResume_synced env.toSysEnv h
  unfold Clt.startDownload
  revert hres
  generalize downloadResume env.toSysEnv k d = r
  obtain ⟨k₁, d₁, ok⟩ := r
  rintro ⟨hsync, hcontent, hoff⟩
  cases ok with
  | true => exact ⟨hsync, hcontent, hoff⟩
  | false =>
      have hw := downloadWrite_nil env.toSysEnv hsync
      obtain ⟨fd, hfd⟩ := Clt.downloadWrite_fields env.toSysEnv k₁ d₁ []
      refine ⟨hw.1, hw.2.trans hcontent, ?_⟩
      change (downloadWrite env.toSysEnv k₁ d₁ []).2.1.offset = _
      rw [hfd]
      exact hoff

/-! ## When the system calls succeed -/

/-- A write to an open file that takes all the octets. -/
theorem downloadWrite_all {env : SysEnv} {k k₁ : Disk} {d d₁ : Transfer} (data : Bytes)
    {f : OpenFile Bytes} {count : Nat} (hopen : downloadOpen env k d = (k₁, d₁)) (h0 : 0 ≤ d₁.fd)
    (hf : k₁.fs.fds d₁.fd = some f) (hwrite : env.write = some count) (hlen : data.length ≤ count) :
    ∃ k', downloadWrite env k d data = (k', d₁, true) := by
  have hall : (k₁.fs.write d₁.fd data count).isSome ∧
      ∀ r, k₁.fs.write d₁.fd data count = some r → r.1 = data.length := by
    rw [Files.write, hf]
    refine ⟨rfl, ?_⟩
    rintro r ⟨rfl⟩
    change (data.take count).length = _
    rw [List.length_take]
    omega
  obtain ⟨hsome, hn⟩ := hall
  obtain ⟨⟨n, fs⟩, hr⟩ := Option.isSome_iff_exists.mp hsome
  unfold downloadWrite
  rw [hopen, hwrite]
  simp only [Option.bind_some, hr]
  rw [if_neg (by omega), if_neg (by rw [← hn _ hr]; exact Nat.lt_irrefl _)]
  exact ⟨_, rfl⟩

/-- A new download gets its part file. -/
theorem startDownload_new (env : CltEnv) {k : Disk} {d : Transfer} {partname : Bytes}
    (hshut : d.fd < 0) (hpart : d.partname = some partname) (habsent : partFile k d = none)
    (hfresh : FreshFd env.toSysEnv k) (hwrite : ∃ count, env.write = some count) :
    ∃ k' fd, Clt.startDownload env k d = (k', { d with fd := fd }, true) ∧ 0 ≤ fd := by
  obtain ⟨n, hn, h0, hfree⟩ := hfresh
  obtain ⟨count, hcount⟩ := hwrite
  have hdir : k.fs.dir (k.path partname) = none := by
    rw [partFile, hpart] at habsent
    exact habsent
  have hresume : downloadResume env.toSysEnv k d = (k, { d with fd := -1 }, false) := by
    unfold downloadResume
    rw [if_neg (by omega), hpart, Option.bind_some, Disk.openFile, Files.openFile_absent _ hdir]
    rfl
  obtain ⟨fs, hcreate, hfd⟩ := Files.create_of_absent hdir h0 hfree
  have hopen : downloadOpen env.toSysEnv k { d with fd := -1 } =
      ({ k with fs := fs, log := .created d.addr (k.path partname) k.fs.next :: k.log },
        { d with fd := n }) := by
    unfold downloadOpen
    rw [if_neg (show ¬ (0 : Int) ≤ -1 by decide)]
    simp only [hpart, Option.bind_some, Disk.create, hn, hcreate, Option.map_some]
  obtain ⟨k', hw⟩ := downloadWrite_all [] hopen h0 hfd hcount (Nat.zero_le _)
  refine ⟨k', n, ?_, h0⟩
  rw [Clt.startDownload, hresume]
  exact hw

end Frelay
