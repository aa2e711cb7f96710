import Frelay.Client.Downloads
import Frelay.Client.PartFile
import Frelay.Lib.FileFrame

/-!
# Which files an operation touches

The log says which files were created on behalf of which entry. `EntryFrame` is what an
operation on one entry leaves alone: the search for unused names touches no file that was
there before, a write touches the file the descriptor of the entry is open on, and the
rename at the end the two files that have the names of the entry.

* `enterOffer_frame`, `startDownload_own`, `receiveData_own` — entering a download, selecting
  it, and handing DATA to it;
* `cltStep_sameFiles` — every other step touches no file.
-/

namespace Frelay

open Lib

/-- The file `i` was created for the entry `addr`. -/
def MadeFor (k : Disk) (addr i : Nat) : Prop := ∃ p, .created addr p i ∈ k.log

/-- `name` is the name of a file that was created for the entry `addr`, under this name. -/
def Bound (k : Disk) (addr : Nat) (name : Bytes) : Prop :=
  ∃ i, k.fs.dir (k.path name) = some i ∧ .created addr (k.path name) i ∈ k.log

/-- Numbers of files are in use, and a file is created once. -/
structure DiskOk (k : Disk) : Prop where
  bounded : k.fs.Bounded
  made : ∀ a p i, .created a p i ∈ k.log → i < k.fs.next
  once : ∀ a b p q i, .created a p i ∈ k.log → .created b q i ∈ k.log → a = b ∧ p = q

/-- The operations from `k` to `k'` concern the entry `addr` only, and leave the names of
files outside `D` and the contents of files outside `W` alone. A file that was there is not
created again. -/
structure EntryFrame (addr : Nat) (D W : Nat → Prop) (k k' : Disk) : Prop where
  files : Files.Frame D W k.fs k'.fs
  cwd : k'.cwd = k.cwd
  ok : DiskOk k → DiskOk k'
  old : ∀ a p i, i < k.fs.next → .created a p i ∈ k'.log → .created a p i ∈ k.log
  log : Grown (fun a => a.addr = addr ∧ ∀ i, a.opens = some i → MadeFor k' addr i) k.log k'.log

/-- Both names of `d` are those of files that were created for it. -/
def NamesBound (k : Disk) (d : Transfer) : Prop :=
  ∃ name, d.name = some name ∧ d.partname = some (name ++ TXT_PART) ∧ Bound k d.addr name ∧
    Bound k d.addr (name ++ TXT_PART)

/-- An open descriptor of `d` leads to a file that was created for it. -/
def HeldMade (k : Disk) (d : Transfer) : Prop :=
  ∀ f, 0 ≤ d.fd → k.fs.fds d.fd = some f → MadeFor k d.addr f.ino

theorem MadeFor.mono {k k' : Disk} {addr i : Nat} (hlog : k.log ⊆ k'.log) (h : MadeFor k addr i) :
    MadeFor k' addr i := h.imp fun _ hp => hlog hp

namespace EntryFrame

variable {addr : Nat} {D W D' W' : Nat → Prop} {k k' k'' : Disk}

/-- What changes neither files nor log. -/
theorem of_files (hfiles : Files.Frame D W k.fs k'.fs) (hcwd : k'.cwd = k.cwd)
    (hbounded : k.fs.Bounded → k'.fs.Bounded) (hlog : k'.log = k.log) :
    EntryFrame addr D W k k' where
  files := hfiles
  cwd := hcwd
  ok := by
    intro h
    refine ⟨hbounded h.bounded, ?_, ?_⟩
    · rw [hlog]
      exact fun a p i hmem => Nat.lt_of_lt_of_le (h.made a p i hmem) hfiles.next
    · rw [hlog]
      exact h.once
  old := fun a p i _ hmem => hlog ▸ hmem
  log := by
    rw [hlog]
    exact .refl _ _

theorem refl (addr : Nat) (D W : Nat → Prop) (k : Disk) : EntryFrame addr D W k k :=
  .of_files (.refl _ _ _) rfl id rfl

theorem trans (h₁ : EntryFrame addr D W k k') (h₂ : EntryFrame addr D' W' k' k'')
    (hD : ∀ i < k.fs.next, D' i → D i) (hW : ∀ i < k.fs.next, W' i → W i) :
    EntryFrame addr D W k k'' where
  files := h₁.files.trans h₂.files hD hW
  cwd := h₂.cwd.trans h₁.cwd
  ok := fun h => h₂.ok (h₁.ok h)
  old := fun a p i hi hmem =>
    h₁.old a p i hi (h₂.old a p i (Nat.lt_of_lt_of_le hi h₁.files.next) hmem)
  log := (h₁.log.mono fun _ ha => ⟨ha.1, fun i hi => (ha.2 i hi).mono h₂.log.subset⟩).trans h₂.log

theorem seq (h₁ : EntryFrame addr D W k k') (h₂ : EntryFrame addr D W k' k'') :
    EntryFrame addr D W k k'' := h₁.trans h₂ (fun _ _ => id) fun _ _ => id

theorem mono (h : EntryFrame addr D W k k') (hD : ∀ i < k.fs.next, D i → D' i)
    (hW : ∀ i < k.fs.next, W i → W' i) : EntryFrame addr D' W' k k' where
  files := h.files.mono hD hW
  cwd := h.cwd
  ok := h.ok
  old := h.old
  log := h.log

theorem close (n : Int) : EntryFrame addr D W k (k.close n) :=
  .of_files (.close n) rfl (fun h => h.of_same (Files.close_dir _ _) (Files.close_next _ _)) rfl

/-- One act that creates no file, and opens at most one that was made for the entry. -/
theorem act {a : TransferAct} (hfiles : Files.Frame D W k.fs k'.fs) (hcwd : k'.cwd = k.cwd)
    (hbounded : k.fs.Bounded → k'.fs.Bounded) (hlog : k'.log = a :: k.log) (haddr : a.addr = addr)
    (hnew : ∀ b p i, a ≠ .created b p i) (hopens : ∀ i, a.opens = some i → MadeFor k addr i) :
    EntryFrame addr D W k k' := by
  have hold : ∀ {b p i}, TransferAct.created b p i ∈ k'.log →
      TransferAct.created b p i ∈ k.log := by
    intro b p i hmem
    rw [hlog] at hmem
    exact (List.mem_cons.mp hmem).resolve_left fun heq => hnew b p i heq.symm
  refine ⟨hfiles, hcwd, ?_, fun b p i _ hmem => hold hmem, ?_⟩
  · intro h
    exact ⟨hbounded h.bounded,
      fun b p i hmem => Nat.lt_of_lt_of_le (h.made b p i (hold hmem)) hfiles.next,
      fun b c p q i hb hc => h.once b c p q i (hold hb) (hold hc)⟩
  · rw [hlog]
    refine (Grown.refl _ _).cons ⟨haddr, fun i hi => (hopens i hi).mono ?_⟩
    rw [hlog]
    exact List.subset_cons_self _ _

/-- Something is noted that opens no file. -/
theorem note {a : TransferAct} (haddr : a.addr = addr) (hopens : a.opens = none) :
    EntryFrame addr D W k (k.note a) := by
  refine .act (.refl _ _ _) rfl id rfl haddr ?_ ?_
  · rintro b p i rfl
    cases hopens
  · intro i hi
    rw [hopens] at hi
    cases hi

/-- A file is created for the entry. -/
theorem create (D W : Nat → Prop) {name : Bytes} {newFd : Option Int} {fd : Int}
    (h : k.create addr name newFd = some (fd, k')) :
    EntryFrame addr D W k k' ∧ k'.fs.dir (k.path name) = some k.fs.next ∧
      .created addr (k.path name) k.fs.next ∈ k'.log ∧ k.fs.next < k'.fs.next ∧ 0 ≤ fd ∧
      k'.fs.fds fd = some ⟨k.path name, k.fs.next, 0⟩ := by
  obtain ⟨⟨n, fs⟩, hfs, heq⟩ := Option.map_eq_some_iff.mp h
  simp only [Prod.mk.injEq] at heq
  obtain ⟨rfl, rfl⟩ := heq
  have hframe : Files.Frame D W k.fs fs := .create hfs
  have hbound := fun hb : k.fs.Bounded => hb.create hfs
  obtain ⟨h0, -, -, rfl⟩ := Files.create_eq_some hfs
  refine ⟨⟨hframe, rfl, ?_, ?_, ?_⟩, Function.update_self _ _ _, List.mem_cons_self,
    Nat.lt_succ_self _, h0, Function.update_self _ _ _⟩
  · intro hk
    have hnew : ∀ b q, TransferAct.created b q k.fs.next ∉ k.log :=
      fun b q hmem => Nat.lt_irrefl _ (hk.made b q _ hmem)
    refine ⟨hbound hk.bounded, ?_, ?_⟩
    · intro b q i hmem
      rcases List.mem_cons.mp hmem with heq | hmem
      · cases heq
        exact Nat.lt_succ_self _
      · exact Nat.lt_succ_of_lt (hk.made b q i hmem)
    · intro b c p q i hb hc
      rcases List.mem_cons.mp hb with heqb | hb <;> rcases List.mem_cons.mp hc with heqc | hc
      · cases heqb
        cases heqc
        exact ⟨rfl, rfl⟩
      · cases heqb
        exact absurd hc (hnew c q)
      · cases heqc
        exact absurd hb (hnew b p)
      · exact hk.once b c p q i hb hc
  · intro b q i hi hmem
    rcases List.mem_cons.mp hmem with heq | hmem
    · cases heq
      exact absurd hi (Nat.lt_irrefl _)
    · exact hmem
  · refine (Grown.refl _ _).cons ⟨rfl, ?_⟩
    rintro i ⟨rfl⟩
    exact ⟨k.path name, List.mem_cons_self⟩

/-- A file that was created for the entry is opened. -/
theorem opened (D W : Nat → Prop) {name : Bytes} {newFd : Option Int} {fd : Int} (hbound : Bound k addr name)
    (h : k.openFile addr name newFd = some (fd, k')) :
    EntryFrame addr D W k k' ∧ 0 ≤ fd ∧ ∃ f, k'.fs.fds fd = some f ∧ MadeFor k' addr f.ino := by
  obtain ⟨i, hdir, hmade⟩ := hbound
  obtain ⟨⟨n, fs⟩, hfs, heq⟩ := Option.map_eq_some_iff.mp h
  simp only [Prod.mk.injEq] at heq
  obtain ⟨rfl, rfl⟩ := heq
  have hfiles : Files.Frame D W k.fs fs := .openFile hfs
  obtain ⟨h0, -, j, hj, rfl⟩ := Files.openFile_eq_some hfs
  obtain rfl : j = i := Option.some.inj (hj.symm.trans hdir)
  refine ⟨.act hfiles rfl (fun h => h.of_same rfl rfl) rfl rfl nofun ?_, h0,
    ⟨k.path name, j, 0⟩, Files.attach_self _ _ _, k.path name, List.mem_cons_of_mem _ hmade⟩
  intro l hl
  rw [TransferAct.opens, hdir, Option.getD_some, Option.some.injEq] at hl
  exact hl ▸ ⟨k.path name, hmade⟩

end EntryFrame

/-- A file of the entry that was there before belonged to it before. -/
theorem EntryFrame.madeBefore {addr b : Nat} {D W : Nat → Prop} {k k' : Disk}
    (h : EntryFrame addr D W k k') : ∀ i < k.fs.next, MadeFor k' b i → MadeFor k b i :=
  fun i hi hp => hp.imp fun p hmem => h.old b p i hi hmem

/-- A name that is left alone stays bound. -/
theorem Bound.frame {k k' : Disk} {addr addr' : Nat} {D W : Nat → Prop} {name : Bytes} {i : Nat}
    (hdir : k.fs.dir (k.path name) = some i) (hmade : .created addr (k.path name) i ∈ k.log)
    (hi : i < k.fs.next) (hD : ¬ D i) (h : EntryFrame addr' D W k k') : Bound k' addr name := by
  refine ⟨i, ?_, ?_⟩
  · rw [Disk.path_of_cwd h.cwd]
    exact h.files.dir _ i hi hD hdir
  · rw [Disk.path_of_cwd h.cwd]
    exact h.log.subset hmade

/-! ## The search for unused names -/

/-- Files that were there are left alone, and if the search succeeds, the names it has
found are those of new files. -/
theorem makeFilenamesFrom_frame (env : SysEnv) (s : Bytes) (n i : Nat) (k : Disk) (d : Transfer) :
    EntryFrame d.addr Files.noFile Files.noFile k (makeFilenamesFrom env s n i k d).1 ∧
      (0 ≤ (makeFilenamesFrom env s n i k d).2.fd →
        NamesBound (makeFilenamesFrom env s n i k d).1 (makeFilenamesFrom env s n i k d).2) := by
  induction n generalizing i k with
  | zero =>
      refine ⟨.refl _ _ _ _, fun h => absurd h ?_⟩
      exact (by decide : ¬ 0 ≤ (-1 : Int))
  | succ n ih =>
      simp only [makeFilenamesFrom]
      split
      · exact ih (i + 1) k
      · rename_i fd0 k₁ hname
        obtain ⟨hframe, hdir, hmade, hnext, -, -⟩ :=
          EntryFrame.create Files.noFile Files.noFile hname
        rw [← Disk.path_of_cwd hframe.cwd] at hdir hmade
        split
        · -- The second name is in use: the first file goes again.
          obtain ⟨hframe', hbound⟩ := ih (i + 1)
            { k₁ with fs := (k₁.fs.unlink (k₁.path (nameCandidate s i))).close fd0 }
          refine ⟨?_, hbound⟩
          have hfiles : Files.Frame (fun l => l = k.fs.next) Files.noFile k₁.fs
              (k₁.fs.unlink (k₁.path (nameCandidate s i))) :=
            .unlink fun l hl => Option.some.inj (hl.symm.trans hdir)
          have hgone : EntryFrame d.addr (fun l => l = k.fs.next) Files.noFile k₁
              { k₁ with fs := (k₁.fs.unlink (k₁.path (nameCandidate s i))).close fd0 } :=
            .of_files (hfiles.trans (.close fd0) (fun _ _ => id) fun _ _ => id) rfl
              (fun h => (h.unlink _).of_same (Files.close_dir _ _) (Files.close_next _ _)) rfl
          have hback := hframe.trans hgone (fun l hl heq => absurd heq (Nat.ne_of_lt hl))
            fun _ _ => id
          exact hback.seq hframe'
        · rename_i fd1 k₂ hpart
          obtain ⟨hframe', hdir', hmade', -, -, -⟩ :=
            EntryFrame.create Files.noFile Files.noFile hpart
          refine ⟨(hframe.seq hframe').seq (.close fd0), fun _ => ?_⟩
          refine ⟨nameCandidate s i, rfl, rfl, ?_, ?_⟩
          · exact Bound.frame hdir hmade hnext id (hframe'.seq (.close fd0))
          · rw [← Disk.path_of_cwd hframe'.cwd] at hdir' hmade'
            exact ⟨_, (congrFun (Files.close_dir _ _) _).trans hdir', hmade'⟩

/-- The searches for the FILENAMEs among the attributes `l` succeed. -/
def SearchesSucceed (env : CltEnv) (m : Mbuf) : List AttrRef → Disk × Transfer → Prop
  | [], _ => True
  | a :: l, p =>
      (a.at' = MsgAttrib.code .filename → 0 ≤ (Clt.offerAttrib env true m p a).2.fd) ∧
        SearchesSucceed env m l (Clt.offerAttrib env true m p a)

instance decidableSearchesSucceed (env : CltEnv) (m : Mbuf) :
    (l : List AttrRef) → (p : Disk × Transfer) → Decidable (SearchesSucceed env m l p)
  | [], _ => .isTrue trivial
  | _ :: l, _ => @instDecidableAnd _ _ inferInstance (decidableSearchesSucceed env m l _)

/-- The attribute loop of an OFFER request. -/
theorem offerAttribs_frame (env : CltEnv) (m : Mbuf) (l : List AttrRef) (k : Disk) (d : Transfer)
    (hok : SearchesSucceed env m l (k, d)) (hd : d.name = none ∨ NamesBound k d) :
    EntryFrame d.addr Files.noFile Files.noFile k
        (l.foldl (Clt.offerAttrib env true m) (k, d)).1 ∧
      ((l.foldl (Clt.offerAttrib env true m) (k, d)).2.name = none ∨
        NamesBound (l.foldl (Clt.offerAttrib env true m) (k, d)).1
          (l.foldl (Clt.offerAttrib env true m) (k, d)).2) := by
  induction l generalizing k d with
  | nil => exact ⟨.refl _ _ _ _, hd⟩
  | cons a l ih =>
      obtain ⟨hfirst, hrest⟩ := hok
      rw [List.foldl_cons]
      -- Another attribute changes neither names nor files.
      have hother : ∀ d' : Transfer, Clt.offerAttrib env true m (k, d) a = (k, d') →
          d'.addr = d.addr → d'.name = d.name → d'.partname = d.partname →
          EntryFrame d.addr Files.noFile Files.noFile k
              (l.foldl (Clt.offerAttrib env true m) (Clt.offerAttrib env true m (k, d) a)).1 ∧
            ((l.foldl (Clt.offerAttrib env true m)
                (Clt.offerAttrib env true m (k, d) a)).2.name = none ∨
              NamesBound
                (l.foldl (Clt.offerAttrib env true m) (Clt.offerAttrib env true m (k, d) a)).1
                (l.foldl (Clt.offerAttrib env true m) (Clt.offerAttrib env true m (k, d) a)).2) := by
        intro d' heq haddr hname hpart
        rw [heq] at hrest ⊢
        rw [← haddr]
        refine ih k d' hrest ?_
        unfold NamesBound at hd ⊢
        rw [haddr, hname, hpart]
        exact hd
      by_cases hoid : a.at' = MsgAttrib.code .offerid
      · exact hother _ (if_pos hoid) rfl rfl rfl
      · by_cases hfile : a.at' = MsgAttrib.code .filename
        · have hstep : Clt.offerAttrib env true m (k, d) a = makeFilenamesFrom env.toSysEnv
              (cstrAt m env.beyond a.av) (INT_MAX - 1) 1 k d := by
            simp only [Clt.offerAttrib, if_neg hoid, if_pos hfile, makeFilenames, if_true]
          have hfd := hfirst hfile
          rw [hstep] at hrest hfd ⊢
          obtain ⟨hframe, hbound⟩ := makeFilenamesFrom_frame env.toSysEnv
            (cstrAt m env.beyond a.av) (INT_MAX - 1) 1 k d
          have haddr := (makeFilenames_onEntry env.toSysEnv k true d
            (cstrAt m env.beyond a.av)).addr
          change (makeFilenamesFrom env.toSysEnv _ (INT_MAX - 1) 1 k d).2.addr = d.addr at haddr
          generalize makeFilenamesFrom env.toSysEnv (cstrAt m env.beyond a.av) (INT_MAX - 1) 1 k d =
            p at *
          obtain ⟨k₁, d₁⟩ := p
          obtain ⟨hframe', hnames⟩ := ih k₁ d₁ hrest (.inr (hbound hfd))
          rw [show d₁.addr = d.addr from haddr] at hframe'
          exact ⟨hframe.seq hframe', hnames⟩
        · by_cases hsize : a.at' = MsgAttrib.code .size
          · refine hother { d with size := ui64At m env.beyond a.av } ?_ rfl rfl rfl
            simp only [Clt.offerAttrib, if_neg hoid, if_neg hfile, if_pos hsize]
          · refine hother d ?_ rfl rfl rfl
            simp only [Clt.offerAttrib, if_neg hoid, if_neg hfile, if_neg hsize]

/-- The searches for the FILENAMEs of an OFFER request succeed. -/
def OfferSearched (env : CltEnv) (c : Clt) (m : Mbuf) : Prop :=
  SearchesSucceed env (mbufResetgetattrib m) (Clt.attribRefs (mbufResetgetattrib m))
    (c.disk, Clt.offerEntry env c m)

instance decidableOfferSearched (env : CltEnv) (c : Clt) (m : Mbuf) :
    Decidable (OfferSearched env c m) := decidableSearchesSucceed _ _ _ _

/-- An offer is entered. -/
theorem enterOffer_frame {env : CltEnv} {c : Clt} {m : Mbuf} (hnc : c.cfg.noClobber = true)
    (hok : OfferSearched env c m) :
    EntryFrame c.nextAddr Files.noFile Files.noFile c.disk
        (Clt.enterOffer (Clt.offeredEntry env c m)).1 ∧
      (0 < (Clt.enterOffer (Clt.offeredEntry env c m)).2.tact →
        NamesBound (Clt.enterOffer (Clt.offeredEntry env c m)).1
          (Clt.enterOffer (Clt.offeredEntry env c m)).2) := by
  obtain ⟨hframe, hnames⟩ := offerAttribs_frame env (mbufResetgetattrib m)
    (Clt.attribRefs (mbufResetgetattrib m)) c.disk (Clt.offerEntry env c m) hok (.inl rfl)
  have haddr := (Clt.enterOffer_onEntry env c m).addr
  rw [← hnc] at hframe hnames
  unfold Clt.enterOffer at haddr ⊢
  split
  · rename_i hbad
    rw [if_pos hbad] at haddr
    refine ⟨hframe.seq ((EntryFrame.close _).seq (.note haddr rfl)), fun h => ?_⟩
    exact absurd h (Int.lt_irrefl 0)
  · rename_i hgood
    refine ⟨hframe, fun _ => hnames.resolve_left fun hnone => hgood (.inl ?_)⟩
    change (Clt.offeredEntry env c m).2.name = none at hnone
    rw [hnone]
    rfl

/-! ## Opening and writing the part file -/

/-- Names of a download outside `D` stay. -/
theorem NamesBound.frame {k k' : Disk} {d d' : Transfer} {addr : Nat} {D W : Nat → Prop}
    (hk : DiskOk k) (hd : NamesBound k d) (haddr : d'.addr = d.addr)
    (hnames : d'.name = d.name ∧ d'.partname = d.partname)
    (hD : ∀ i < k.fs.next, D i → ¬ MadeFor k d.addr i) (h : EntryFrame addr D W k k') :
    NamesBound k' d' := by
  obtain ⟨name, hname, hpart, ⟨i, hi, himade⟩, ⟨j, hj, hjmade⟩⟩ := hd
  have hinext := hk.made _ _ _ himade
  have hjnext := hk.made _ _ _ hjmade
  refine ⟨name, hnames.1.trans hname, hnames.2.trans hpart, ?_, ?_⟩
  · rw [haddr]
    exact Bound.frame hi himade hinext (fun hin => hD i hinext hin ⟨_, himade⟩) h
  · rw [haddr]
    exact Bound.frame hj hjmade hjnext (fun hin => hD j hjnext hin ⟨_, hjmade⟩) h

/-- The part file that is open was created for the entry. -/
theorem PartOpen.frame {k k₁ : Disk} {d : Transfer} {fd : Int} (D W : Nat → Prop)
    (h : PartOpen k d k₁ fd) (hheld : HeldMade k d) :
    EntryFrame d.addr D W k k₁ ∧ ∀ f, k₁.fs.fds fd = some f → MadeFor k₁ d.addr f.ino := by
  cases h with
  | held h0 => exact ⟨.refl _ _ _ _, fun f hf => hheld f h0 hf⟩
  | created _ _ hcreate =>
      obtain ⟨hframe, -, hmade, -, -, hfd⟩ := EntryFrame.create D W hcreate
      refine ⟨hframe, fun f hf => ?_⟩
      rw [hfd, Option.some.injEq] at hf
      exact hf ▸ ⟨_, hmade⟩

/-- `download_write` writes to files of the entry. -/
theorem downloadWrite_frame (env : SysEnv) (k : Disk) (d : Transfer) (data : Bytes)
    (hheld : HeldMade k d) :
    EntryFrame d.addr Files.noFile (MadeFor k d.addr) k (downloadWrite env k d data).1 := by
  -- The write itself, after the file has been opened.
  have hwrite : ∀ {k₁ : Disk} {fd : Int} {count n : Nat} {fs : Files Bytes UInt8},
      PartOpen k d k₁ fd → k₁.fs.write fd data count = some (n, fs) →
      EntryFrame d.addr Files.noFile (MadeFor k d.addr) k
        { k₁ with fs := fs, log := .wrote d.addr n :: k₁.log } := by
    intro k₁ fd count n fs hopen hw
    obtain ⟨hframe, hmade⟩ := hopen.frame Files.noFile (MadeFor k d.addr) hheld
    have hfiles : Files.Frame Files.noFile (MadeFor k₁ d.addr) k₁.fs fs := .write hw hmade
    have hdir : fs.dir = k₁.fs.dir ∧ fs.next = k₁.fs.next := by
      obtain ⟨f, -, -, rfl⟩ := Files.write_eq hw
      exact ⟨rfl, rfl⟩
    have hact : EntryFrame d.addr Files.noFile (MadeFor k₁ d.addr) k₁
        { k₁ with fs := fs, log := .wrote d.addr n :: k₁.log } :=
      .act hfiles rfl (fun h => h.of_same hdir.1 hdir.2) rfl rfl nofun nofun
    exact hframe.trans hact (fun _ _ => id) hframe.madeBefore
  generalize hr : downloadWrite env k d data = r
  have hcase := hr ▸ downloadWrite_cases env k d data
  cases hcase with
  | shut _ => exact .refl _ _ _ _
  | failed hopen => exact (hopen.frame _ _ hheld).1.seq (.close _)
  | short hopen hw _ => exact (hwrite hopen hw).seq (.close _)
  | full hopen hw _ => exact hwrite hopen hw

/-- `accept` opens or creates files of the entry, and writes nothing else. -/
theorem startDownload_frame (env : CltEnv) (k : Disk) (d : Transfer) (hheld : HeldMade k d)
    (hnames : ∀ partname, d.partname = some partname → Bound k d.addr partname) :
    EntryFrame d.addr Files.noFile (MadeFor k d.addr) k (Clt.startDownload env k d).1 := by
  have hshut : ∀ k₁ : Disk, HeldMade k₁ { d with fd := -1 } :=
    fun _ _ h0 => absurd h0 (by decide : ¬ (0 : Int) ≤ -1)
  unfold Clt.startDownload
  generalize hr : downloadResume env.toSysEnv k d = r
  have hcase := hr ▸ downloadResume_cases env.toSysEnv k d
  cases hcase with
  | held _ => exact downloadWrite_frame env.toSysEnv k d [] hheld
  | absent _ => exact downloadWrite_frame env.toSysEnv k { d with fd := -1 } [] (hshut k)
  | @stuck _ _ fd k₁ _ hp hopen =>
      have hframe : EntryFrame d.addr Files.noFile (MadeFor k d.addr) k (k₁.close fd) :=
        (EntryFrame.opened _ _ (hnames _ hp) hopen).1.seq (.close fd)
      exact hframe.trans (downloadWrite_frame env.toSysEnv _ { d with fd := -1 } [] (hshut _))
        (fun _ _ => id) hframe.madeBefore
  | @resumed _ _ _ k₁ off fs _ hp hopen hseek =>
      have hfiles : Files.Frame Files.noFile (MadeFor k d.addr) k₁.fs fs := .seekEnd hseek
      have hsame : fs.dir = k₁.fs.dir ∧ fs.next = k₁.fs.next := by
        obtain ⟨f, -, -, rfl⟩ := Files.seekEnd_eq hseek
        exact ⟨rfl, rfl⟩
      exact (EntryFrame.opened _ _ (hnames _ hp) hopen).1.seq
        (.of_files hfiles rfl (fun h => h.of_same hsame.1 hsame.2) rfl)

/-! ## Handing DATA to a download -/

/-- What is done on behalf of `d` concerns the files made for it only; if it is still alive
then, it has names of its own. -/
structure OwnFiles (k : Disk) (d : Transfer) (k' : Disk) (d' : Transfer) : Prop where
  frame : EntryFrame d.addr (MadeFor k d.addr) (MadeFor k d.addr) k k'
  names : 0 < d'.tact → NamesBound k' d'

/-- The end of a download renames its part file, from one of its names to the other. -/
theorem renamePart_frame (env : CltEnv) {k : Disk} {d : Transfer} (hd : NamesBound k d) :
    EntryFrame d.addr (MadeFor k d.addr) (MadeFor k d.addr) k (Clt.renamePart env k d) := by
  obtain ⟨name, hname, hpart, ⟨i, hi, himade⟩, ⟨j, hj, hjmade⟩⟩ := hd
  rcases renamePart_cases env k d with ⟨-, part', name', fs, hp, hn, hren, heq⟩ | ⟨-, heq⟩
  · obtain rfl : part' = name ++ TXT_PART := Option.some.inj (hp.symm.trans hpart)
    obtain rfl : name' = name := Option.some.inj (hn.symm.trans hname)
    have hfiles : Files.Frame (MadeFor k d.addr) (MadeFor k d.addr) k.fs fs :=
      .rename hren (fun l hl => Option.some.inj (hj.symm.trans hl) ▸ ⟨_, hjmade⟩)
        fun l hl => Option.some.inj (hi.symm.trans hl) ▸ ⟨_, himade⟩
    have hbounded : k.fs.Bounded → fs.Bounded := fun h => h.rename hren
    rw [heq]
    exact .act hfiles rfl hbounded rfl rfl nofun nofun
  · rw [heq]
    exact .refl _ _ _ _

/-- A GETFILE response touches files of the download it is for. -/
theorem receiveData_own (env : CltEnv) {k : Disk} {d : Transfer} (data : Bytes) (hk : DiskOk k)
    (hheld : HeldMade k d) (hd : NamesBound k d) :
    OwnFiles k d (Clt.receiveData env k d data).1 (Clt.receiveData env k d data).2 := by
  have hgone : ∀ (k₁ : Disk) (d₁ : Transfer), d₁.addr = d.addr →
      EntryFrame d.addr Files.noFile (MadeFor k d.addr) k k₁ →
      EntryFrame d.addr Files.noFile (MadeFor k d.addr) k (transferInvalidate k₁ d₁).1 :=
    fun _ _ haddr h => (h.seq (.close _)).seq (.note haddr rfl)
  unfold Clt.receiveData
  split
  · -- The end: the two names are still those of `d` when the part file is renamed.
    have hnote : EntryFrame d.addr Files.noFile (MadeFor k d.addr) k
        (k.note (if d.offset = d.size then .finished d.addr else .premature d.addr)) := by
      split
      · exact .note rfl rfl
      · exact .note rfl rfl
    have hframe := hgone _ d rfl hnote
    have hnames := hd.frame hk rfl ⟨rfl, rfl⟩ (fun _ _ hno => hno.elim) hframe
    refine ⟨?_, fun h => absurd h (Int.lt_irrefl 0)⟩
    exact (hframe.mono (fun _ _ hno => hno.elim) fun _ _ => id).trans (renamePart_frame env hnames)
      hframe.madeBefore hframe.madeBefore
  · have hframe := downloadWrite_frame env.toSysEnv k d data hheld
    generalize hr : downloadWrite env.toSysEnv k d data = r at hframe ⊢
    obtain ⟨k₁, d₁, ok⟩ := r
    obtain ⟨fd, rfl⟩ := downloadWrite_entry hr
    have hmade : ∀ i < k.fs.next, Files.noFile i → MadeFor k d.addr i := fun _ _ hno => hno.elim
    cases ok with
    | false =>
        refine ⟨?_, fun h => absurd h (Int.lt_irrefl 0)⟩
        exact (hgone k₁ { d with fd := fd } rfl hframe).mono hmade fun _ _ => id
    | true =>
        refine ⟨hframe.mono hmade fun _ _ => id, fun _ => ?_⟩
        exact hd.frame hk rfl ⟨rfl, rfl⟩ (fun _ _ hno => hno.elim) hframe

/-- So does `accept`. -/
theorem startDownload_own {env : CltEnv} {k k' : Disk} {d d' : Transfer} {ok : Bool} (hk : DiskOk k)
    (hheld : HeldMade k d) (hd : NamesBound k d)
    (h : Clt.startDownload env (k.note (.accepted d.addr)) d = (k', d', ok)) :
    OwnFiles k d k' d' := by
  have hnote : EntryFrame d.addr Files.noFile (MadeFor k d.addr) k (k.note (.accepted d.addr)) :=
    .note rfl rfl
  have hheld' : HeldMade (k.note (.accepted d.addr)) d :=
    fun f h0 hf => (hheld f h0 hf).mono (List.subset_cons_self _ _)
  have hd' := hd.frame hk rfl ⟨rfl, rfl⟩ (fun _ _ hno => hno.elim) hnote
  have hpart : ∀ partname, d.partname = some partname →
      Bound (k.note (.accepted d.addr)) d.addr partname := by
    obtain ⟨name, -, hp, -, hbound⟩ := hd'
    intro partname heq
    obtain rfl : name ++ TXT_PART = partname := Option.some.inj (hp.symm.trans heq)
    exact hbound
  have hstart := startDownload_frame env _ d hheld' hpart
  rw [h] at hstart
  have hframe := hnote.trans hstart (fun _ _ => id) hnote.madeBefore
  obtain ⟨fd, off, rfl⟩ := startDownload_entry h
  exact ⟨hframe.mono (fun _ _ hno => hno.elim) fun _ _ => id,
    fun _ => hd.frame hk rfl ⟨rfl, rfl⟩ (fun _ _ hno => hno.elim) hframe⟩

/-! ## Steps that touch no file -/

/-- No file has changed, neither its name nor its content, and none was created. -/
structure SameFiles (k k' : Disk) : Prop where
  dir : k'.fs.dir = k.fs.dir
  data : k'.fs.data = k.fs.data
  next : k'.fs.next = k.fs.next
  cwd : k'.cwd = k.cwd
  log : Grown (fun a => ∀ b p i, a ≠ .created b p i) k.log k'.log

namespace SameFiles

variable {k k' k'' : Disk}

theorem refl (k : Disk) : SameFiles k k := ⟨rfl, rfl, rfl, rfl, .refl _ _⟩

theorem of_eq (h : k' = k) : SameFiles k k' := h ▸ .refl k

theorem trans (h₁ : SameFiles k k') (h₂ : SameFiles k' k'') : SameFiles k k'' where
  dir := h₂.dir.trans h₁.dir
  data := h₂.data.trans h₁.data
  next := h₂.next.trans h₁.next
  cwd := h₂.cwd.trans h₁.cwd
  log := h₁.log.trans h₂.log

/-- Descriptors come and go. -/
theorem attach (n : Int) (f : OpenFile Bytes) : SameFiles k { k with fs := k.fs.attach n f } :=
  ⟨rfl, rfl, rfl, rfl, .refl _ _⟩

theorem close (n : Int) : SameFiles k (k.close n) :=
  ⟨Files.close_dir _ _, Files.close_data _ _, Files.close_next _ _, rfl, .refl _ _⟩

theorem closeMany (ns : List Int) : SameFiles k (k.closeMany ns) := by
  induction ns generalizing k with
  | nil => exact .refl k
  | cons n ns ih => exact (SameFiles.close n).trans ih

theorem note {a : TransferAct} (h : ∀ b p i, a ≠ .created b p i) : SameFiles k (k.note a) :=
  ⟨rfl, rfl, rfl, rfl, (Grown.refl _ _).cons h⟩

theorem invalidate (t : Transfer) : SameFiles k (transferInvalidate k t).1 :=
  (SameFiles.close t.fd).trans (.note nofun)

theorem opened {addr : Nat} {name : Bytes} {newFd : Option Int} {fd : Int}
    (h : k.openFile addr name newFd = some (fd, k')) : SameFiles k k' := by
  obtain ⟨⟨n, fs⟩, hfs, heq⟩ := Option.map_eq_some_iff.mp h
  simp only [Prod.mk.injEq] at heq
  obtain ⟨rfl, rfl⟩ := heq
  obtain ⟨-, -, i, -, rfl⟩ := Files.openFile_eq_some hfs
  exact ⟨rfl, rfl, rfl, rfl, (Grown.refl _ _).cons nofun⟩

theorem remove (mask : RemoveMask) (k : Disk) (ts : List Transfer) :
    SameFiles k (transferRemove mask k ts).1 := by
  induction ts generalizing k with
  | nil => exact .refl k
  | cons t ts ih =>
      unfold transferRemove
      split
      · exact (SameFiles.invalidate t).trans (ih _)
      · exact ih k

/-- Nothing is created, so nothing belongs to a download that did not before. -/
theorem created (h : SameFiles k k') {a i : Nat} {p : Bytes} (hmem : .created a p i ∈ k'.log) :
    .created a p i ∈ k.log :=
  h.log.mem_of_not (fun hno => hno a p i rfl) hmem

theorem ok (h : SameFiles k k') (hk : DiskOk k) : DiskOk k' where
  bounded := hk.bounded.of_same h.dir h.next
  made := by
    rw [h.next]
    exact fun a p i hmem => hk.made a p i (h.created hmem)
  once := fun a b p q i ha hb => hk.once a b p q i (h.created ha) (h.created hb)

theorem bound (h : SameFiles k k') {addr : Nat} {name : Bytes} (hb : Bound k addr name) :
    Bound k' addr name := by
  obtain ⟨i, hi, hmade⟩ := hb
  rw [← Disk.path_of_cwd h.cwd] at hi hmade
  exact ⟨i, (congrFun h.dir _).trans hi, h.log.subset hmade⟩

end SameFiles

/-- The file of an offer is read. -/
theorem offerRead_sameFiles {env : SysEnv} {k k' : Disk} {o o' : Transfer} {off size : UInt64}
    {data : Option Bytes} (h : offerRead env k o off size = some (k', o', data)) :
    SameFiles k k' := by
  have hopen : SameFiles k (offerOpen env k o).1 := by
    unfold offerOpen
    split
    · exact .refl k
    · split
      · rename_i hname
        obtain ⟨name, -, hname⟩ := Option.bind_eq_some_iff.mp hname
        exact .opened hname
      · exact .refl k
  refine hopen.trans ?_
  unfold offerRead at h
  generalize offerOpen env k o = p at h ⊢
  obtain ⟨k₁, o₁⟩ := p
  simp only at h ⊢
  split at h
  · cases h
    exact .refl k'
  · split at h
    · cases h
      exact .refl k'
    · rename_i fs hseek
      split at hseek
      · obtain ⟨f, -, rfl⟩ := Option.map_eq_some_iff.mp hseek
        refine (SameFiles.attach o₁.fd { f with pos := off.toNat }).trans ?_
        split at h
        · cases h
        · split at h
          · cases h
            exact .close _
          · cases h
            exact .close _
          · rename_i data fs hread
            cases h
            obtain ⟨count, -, hread⟩ := Option.bind_eq_some_iff.mp hread
            obtain ⟨f, -, -, -, -, rfl⟩ := Files.read_eq hread
            exact .attach _ _
      · cases hseek

namespace Clt

variable {env : CltEnv} {c c' t : Clt} {m : Mbuf} {a : Answer}

/-- Serving an offer touches no file. -/
theorem processGetfileReq_sameFiles (h : processGetfileReq env c m = some (c', a)) :
    SameFiles c.disk c'.disk := by
  unfold processGetfileReq at h
  split at h
  · cases h
    exact .refl _
  · simp only at h
    split at h
    · cases h
      exact .refl _
    · split at h
      · obtain ⟨rfl, -⟩ := getfileResponse_spec h
        exact .invalidate _
      · split at h
        · cases h
        · rename_i hread
          cases h
          exact offerRead_sameFiles hread
        · rename_i hread
          obtain ⟨rfl, -⟩ := getfileResponse_spec h
          exact offerRead_sameFiles hread

/-- A message that neither offers a file nor brings DATA touches none. -/
theorem dispatchSrvmsg_sameFiles (hoffer : hdrGetType m ≠ MsgType.code .offerReq ∨ c.st ≠ .authOk)
    (hdata : hdrGetType m ≠ MsgType.code .getfileRes ∨ c'.disk = c.disk)
    (h : dispatchSrvmsg env c m = some (c', a)) : SameFiles c.disk c'.disk := by
  rcases dispatchSrvmsg_table h with htable | ⟨htype, h⟩ | ⟨-, h⟩ | ⟨-, h⟩ | ⟨htype, -⟩
  · exact .of_eq htable.1
  · unfold processOfferReq at h
    rw [if_neg (hoffer.resolve_left fun hne => hne htype)] at h
    cases h
    exact .refl _
  · exact processGetfileReq_sameFiles h
  · unfold processOfferRes at h
    split at h
    · cases h
      exact .refl _
    · split at h <;> cases h <;> exact .refl _
  · exact .of_eq (hdata.resolve_left fun hne => hne htype)

theorem sameFiles_disc (c : Clt) : SameFiles c.disk c.disc.disk := .closeMany _

/-- Every command but `accept` and `cd` touches no file. -/
theorem runCmd_sameFiles {cmd : CltCmd} (hacc : ∀ rid oid, cmd ≠ .accept rid oid)
    (hcd : ∀ dir, cmd ≠ .cd dir) (h : runCmd env c cmd = some t) : SameFiles c.disk t.disk := by
  -- What only sends a request leaves the files to the client that sends it.
  have hsend : ∀ (c₁ : Clt) {type : MsgType} {dstid : UInt64} {l : List (MsgAttrib × AttrArg)},
      c₁.disk = c.disk → request env c₁ type dstid l = some t → SameFiles c.disk t.disk := by
    intro c₁ type dstid l hdisk h
    obtain ⟨r, -, rfl⟩ := Option.map_eq_some_iff.mp h
    obtain ⟨new, ht, -⟩ := submit_spec c₁ r
    rw [ht]
    exact .of_eq hdisk
  cases cmd with
  | accept rid oid => exact absurd rfl (hacc rid oid)
  | cd dir => exact absurd rfl (hcd dir)
  | offer dest filename =>
      change cmdOffer env c dest filename = some t at h
      unfold cmdOffer at h
      split at h
      · cases h
        exact .refl _
      · split at h
        · cases h
          exact .refl _
        · rename_i o _
          exact hsend (c.push c.disk o) rfl h
  | remove mask =>
      cases h
      exact .remove mask _ _
  | connect fd =>
      cases h
      cases fd with
      | none => exact .refl _
      | some n => exact .refl _
  | disconnect =>
      cases h
      unfold cmdDisconnect
      split
      · exact sameFiles_disc c
      · exact .refl _
  | exit => cases h
  | login user password =>
      change cmdLogin env c user password = some t at h
      unfold cmdLogin at h
      cases password with
      | none => exact hsend c rfl h
      | some p => exact hsend { c with pubkey := some p } rfl h
  | logout => exact hsend c rfl h
  | register password => exact hsend c rfl h
  | drop => exact hsend c rfl h
  | ping dest notice => exact hsend c rfl h
  | peerlist => exact hsend c rfl h

/-- Neither does writing to the server. -/
theorem writeSrv_sameFiles {res : WriteRes} (h : writeSrv c res = some t) :
    SameFiles c.disk t.disk := by
  unfold writeSrv at h
  split at h
  · cases h
  · split at h
    · cases h
      exact sameFiles_disc c
    · cases h
      exact .refl _
    · cases h
      split
      · unfold dequeueMsg
        simp only
        split <;> exact .refl _
      · exact .refl _

/-- A message that neither offers a file nor brings DATA touches none. -/
theorem processSrvmsg_sameFiles (hm : 40 ≤ m.bsize)
    (hoffer : ¬ (hdrGetType m = MsgType.code .offerReq ∧ c.st = .authOk))
    (hresp : responseTo env c m = none)
    (h : processSrvmsg env { c with rbuf := none } m = some t) : SameFiles c.disk t.disk := by
  by_cases hres : hdrGetType m = MsgType.code .getfileRes
  · rcases (processSrvmsg_response hm hres h).2 with ⟨-, hdisk, -⟩ | ⟨d, data, hd, -⟩
    · exact .of_eq hdisk
    · rw [hresp] at hd
      cases hd
  · rcases processSrvmsg_handled hm h with ⟨-, rfl⟩ | ⟨c₁, c₂, a, new, hsol, hdisp, rfl⟩
    · exact .refl _
    · obtain ⟨⟨hdisk, -, -⟩, -, hst, -, -⟩ := solicited_spec hsol
      have hsame : SameFiles c₁.disk c₂.disk := by
        refine dispatchSrvmsg_sameFiles (not_and_or.mp ?_) (.inl ?_) hdisp
        · exact fun h => hoffer ⟨h.1, hst.symm.trans h.2⟩
        · exact hres
      rw [hdisk] at hsame
      exact hsame

end Clt

/-- **A step touches no file** unless it enters a download, or selects one, or brings DATA
to one. -/
theorem cltStep_sameFiles {c t : Clt} {e : CltEvent} (hc : RecvOk c.rbuf)
    (hout : ∀ fs, e ≠ .outside fs) (hcd : ∀ dir env, e ≠ .cmd (.cd dir) env)
    (hoffer : e.offered c = none) (hacc : e.accepting c = none) (hresp : e.response c = none)
    (h : cltStep c e = some t) : SameFiles c.disk t.disk := by
  cases e with
  | outside fs => exact absurd rfl (hout fs)
  | write res => exact Clt.writeSrv_sameFiles h
  | upkeep env =>
      cases h
      unfold Clt.upkeep
      split <;> exact .closeMany _
  | cmd cmd env =>
      by_cases haccept : ∃ rid oid, cmd = .accept rid oid
      · obtain ⟨rid, oid, rfl⟩ := haccept
        rcases Clt.cmdAccept_downloads h with ⟨-, rfl⟩ | ⟨d, k, d', ok, new, hfind, -⟩
        · exact .refl _
        · rw [CltEvent.accepting, hfind] at hacc
          cases hacc
      · exact Clt.runCmd_sameFiles (fun rid oid heq => haccept ⟨rid, oid, heq⟩)
          (fun dir heq => hcd dir env (heq ▸ rfl)) h
  | read res env =>
      -- Without a complete message a read concerns the buffer and the connection.
      cases hmsg : (CltEvent.read res env).message c with
      | some p =>
          obtain ⟨env', m⟩ := p
          obtain ⟨hm, hproc⟩ := cltStep_message hc hmsg h
          refine Clt.processSrvmsg_sameFiles hm ?_ ?_ hproc
          · intro hboth
            rw [CltEvent.offered, hmsg] at hoffer
            exact Option.filter_eq_none_iff.mp hoffer _ rfl (by simpa using hboth)
          · rw [CltEvent.response, hmsg, Option.bind_some, Option.map_eq_none_iff] at hresp
            exact hresp
      | none =>
          simp only [CltEvent.message] at hmsg
          change Clt.readSrv env c res = some t at h
          unfold Clt.readSrv at h
          simp only at h
          split at h
          · cases h
            exact Clt.sameFiles_disc { c with rbuf := some (c.rbuf.getD mbufNew) }
          · cases h
            exact .refl _
          · cases h
          · cases h
            exact .refl _
          · rename_i hcomplete
            rw [hcomplete] at hmsg
            cases hmsg

end Frelay
