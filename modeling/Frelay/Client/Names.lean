import Frelay.Client.Downloads
import Frelay.Client.PartFile

/-!
# The names of received files

The name of a download is the FILENAME the peer sent, as it is: the sending side
takes the `basename`, the receiving side does not. `files_stay_in_directory` says
where the files of downloads are in the runs where no FILENAME in use has a
slash, and `file_escapes_directory` is a peer that sends one that has.
-/

namespace Frelay

open Lib

/-- The string is a single path component. -/
def IsComponent (s : Bytes) : Prop := 0x2f ∉ s

/-- The path is an entry of the working directory. -/
def InDirectory (k : Disk) (path : Bytes) : Prop :=
  ∃ name, IsComponent name ∧ path = k.cwd ++ 0x2f :: name

/-! ## Names made of components -/

/-- A component is looked up in the working directory. -/
theorem IsComponent.inDirectory {s : Bytes} (h : IsComponent s) (k : Disk) :
    InDirectory k (k.path s) := by
  refine ⟨s, h, if_neg fun hhead => ?_⟩
  exact h (List.mem_of_mem_head? hhead)

theorem isComponent_append {s u : Bytes} :
    IsComponent (s ++ u) ↔ IsComponent s ∧ IsComponent u := by
  simp only [IsComponent, List.mem_append, not_or]

theorem isComponent_part : IsComponent TXT_PART := by
  unfold IsComponent
  decide

/-- A decimal number has no slash in it. -/
theorem isComponent_repr (i : Nat) : IsComponent (ascii (Nat.repr i)) := by
  intro hmem
  obtain ⟨c, hc, hval⟩ := List.mem_map.mp hmem
  rw [Nat.toList_repr] at hc
  have hdigit := Nat.isDigit_of_mem_toDigits (by decide) (by decide) hc
  obtain ⟨hlo, hhi⟩ := Char.isDigit_iff_toNat.mp hdigit
  have h0 : '0'.toNat = 48 := rfl
  have h9 : '9'.toNat = 57 := rfl
  have hslash : (0x2f : UInt8).toNat = 47 := rfl
  have hnat := congrArg UInt8.toNat hval
  rw [UInt8.toNat_ofNat', Nat.mod_eq_of_lt (by omega)] at hnat
  omega

theorem isComponent_nameCandidate {s : Bytes} (h : IsComponent s) (i : Nat) :
    IsComponent (nameCandidate s i) := by
  have hdot : IsComponent [0x2e] := by
    unfold IsComponent
    decide
  have htake : ∀ n, IsComponent (s.take n) := fun n hmem => h (List.mem_of_mem_take hmem)
  have hdrop : ∀ n, IsComponent (s.drop n) := fun n hmem => h (List.mem_of_mem_drop hmem)
  unfold nameCandidate
  refine isComponent_append.mpr ⟨isComponent_append.mpr ⟨htake _, ?_⟩, hdrop _⟩
  have htail : IsComponent ([0x2e] ++ ascii (Nat.repr i)) :=
    isComponent_append.mpr ⟨hdot, isComponent_repr i⟩
  exact htail

/-! ## The names of an offer -/

/-- The FILENAMEs of an OFFER request. -/
def offerFilenames (env : CltEnv) (m : Mbuf) : List Bytes :=
  ((Clt.attribRefs (mbufResetgetattrib m)).filter fun a => a.at' = MsgAttrib.code .filename).map
    fun a => cstrAt (mbufResetgetattrib m) env.beyond a.av

/-- The last SIZE of an OFFER request, or 0. -/
def offerSize (env : CltEnv) (m : Mbuf) : UInt64 :=
  ((((Clt.attribRefs (mbufResetgetattrib m)).filter fun a =>
    a.at' = MsgAttrib.code .size).map fun a =>
      ui64At (mbufResetgetattrib m) env.beyond a.av).getLast?).getD 0

/-- The names of the entry are components. -/
structure NamesOk (d : Transfer) : Prop where
  name : ∀ s, d.name = some s → IsComponent s
  partname : ∀ s, d.partname = some s → IsComponent s

/-- The action opens files for `addr` only, and names entries of the working directory. -/
def ActHere (k : Disk) (addr : Nat) : TransferAct → Prop
  | .created a path _ | .opened a path _ => a = addr ∧ InDirectory k path
  | .renamed _ src dst => InDirectory k src ∧ InDirectory k dst
  | _ => True

theorem create_here {k k₁ : Disk} {addr : Nat} {name : Bytes} {newFd : Option Int} {fd : Int}
    (hname : IsComponent name) (h : k.create addr name newFd = some (fd, k₁)) :
    Grown (ActHere k addr) k.log k₁.log ∧ k₁.cwd = k.cwd := by
  obtain ⟨r, -, heq⟩ := Option.map_eq_some_iff.mp h
  simp only [Prod.mk.injEq] at heq
  rw [← heq.2]
  exact ⟨(Grown.refl _ _).cons ⟨rfl, hname.inDirectory k⟩, rfl⟩

theorem ActHere.of_cwd {k k₁ : Disk} {addr : Nat} {a : TransferAct} (hcwd : k₁.cwd = k.cwd)
    (h : ActHere k₁ addr a) : ActHere k addr a := by
  have hdir : ∀ path, InDirectory k₁ path → InDirectory k path := by
    rintro path ⟨name, hname, hpath⟩
    exact ⟨name, hname, by rw [← hcwd]; exact hpath⟩
  cases a with
  | created b path ino => exact ⟨h.1, hdir path h.2⟩
  | opened b path ino => exact ⟨h.1, hdir path h.2⟩
  | renamed b src dst => exact ⟨hdir src h.1, hdir dst h.2⟩
  | _ => exact trivial

/-- Looking for names that are not in use, from a component. -/
theorem makeFilenamesFrom_here (env : SysEnv) {s : Bytes} (hs : IsComponent s) (n i : Nat)
    (k : Disk) (d : Transfer) :
    Grown (ActHere k d.addr) k.log (makeFilenamesFrom env s n i k d).1.log ∧
      (makeFilenamesFrom env s n i k d).1.cwd = k.cwd ∧
      NamesOk (makeFilenamesFrom env s n i k d).2 := by
  have hcand : ∀ i, IsComponent (nameCandidate s i) ∧ IsComponent (nameCandidate s i ++ TXT_PART) :=
    fun i => ⟨isComponent_nameCandidate hs i,
      isComponent_append.mpr ⟨isComponent_nameCandidate hs i, isComponent_part⟩⟩
  have hnames : ∀ (i : Nat) (fd : Int), NamesOk { d with
      fd := fd, name := some (nameCandidate s i)
      partname := some (nameCandidate s i ++ TXT_PART) } := by
    intro i fd
    refine ⟨?_, ?_⟩
    · rintro u ⟨rfl⟩
      exact (hcand i).1
    · rintro u ⟨rfl⟩
      exact (hcand i).2
  induction n generalizing i k with
  | zero => exact ⟨.refl _ _, rfl, hnames (i - 1) (-1)⟩
  | succ n ih =>
      simp only [makeFilenamesFrom]
      split
      · exact ih (i + 1) k
      · rename_i fd0 k₁ hname
        obtain ⟨hg, hcwd⟩ := create_here (hcand i).1 hname
        split
        · obtain ⟨hg', hcwd', hok⟩ := ih (i + 1)
            { k₁ with fs := (k₁.fs.unlink (k₁.path (nameCandidate s i))).close fd0 }
          exact ⟨hg.trans (hg'.mono fun _ => .of_cwd hcwd), hcwd'.trans hcwd, hok⟩
        · rename_i fd1 k₂ hpart
          obtain ⟨hg', hcwd'⟩ := create_here (hcand i).2 hpart
          exact ⟨hg.trans (hg'.mono fun _ => .of_cwd hcwd), hcwd'.trans hcwd, hnames i fd1⟩

/-- The attribute loop of an OFFER request whose FILENAMEs are components. -/
theorem offerAttribs_here (env : CltEnv) (m : Mbuf) (l : List AttrRef)
    (hl : ∀ a ∈ l, a.at' = MsgAttrib.code .filename → IsComponent (cstrAt m env.beyond a.av))
    (noClobber : Bool) (k : Disk) (d : Transfer) (hd : NamesOk d) :
    Grown (ActHere k d.addr) k.log (l.foldl (Clt.offerAttrib env noClobber m) (k, d)).1.log ∧
      (l.foldl (Clt.offerAttrib env noClobber m) (k, d)).1.cwd = k.cwd ∧
      NamesOk (l.foldl (Clt.offerAttrib env noClobber m) (k, d)).2 := by
  induction l generalizing k d with
  | nil => exact ⟨.refl _ _, rfl, hd⟩
  | cons a l ih =>
      have ih := ih fun b hb => hl b (List.mem_cons_of_mem _ hb)
      rw [List.foldl_cons]
      unfold Clt.offerAttrib
      simp only
      split
      · exact ih k _ ⟨hd.name, hd.partname⟩
      · split
        · rename_i hfile
          have hs := hl a List.mem_cons_self hfile
          have hstep : Grown (ActHere k d.addr) k.log
              (makeFilenames env.toSysEnv noClobber k d (cstrAt m env.beyond a.av)).1.log ∧
              (makeFilenames env.toSysEnv noClobber k d (cstrAt m env.beyond a.av)).1.cwd = k.cwd ∧
              NamesOk (makeFilenames env.toSysEnv noClobber k d (cstrAt m env.beyond a.av)).2 := by
            unfold makeFilenames
            split
            · exact makeFilenamesFrom_here env.toSysEnv hs _ _ k d
            · refine ⟨.refl _ _, rfl, ?_, ?_⟩
              · rintro u ⟨rfl⟩
                exact hs
              · rintro u ⟨rfl⟩
                exact isComponent_append.mpr ⟨hs, isComponent_part⟩
          have haddr := (makeFilenames_onEntry env.toSysEnv k noClobber d
            (cstrAt m env.beyond a.av)).addr
          obtain ⟨hg, hcwd, hok⟩ := hstep
          obtain ⟨hg', hcwd', hok'⟩ := ih
            (makeFilenames env.toSysEnv noClobber k d (cstrAt m env.beyond a.av)).1
            (makeFilenames env.toSysEnv noClobber k d (cstrAt m env.beyond a.av)).2 hok
          rw [haddr] at hg'
          exact ⟨hg.trans (hg'.mono fun _ => .of_cwd hcwd), hcwd'.trans hcwd, hok'⟩
        · split
          · exact ih k _ ⟨hd.name, hd.partname⟩
          · exact ih k d hd

/-- The attribute loop when names may clobber files: no file is touched, and the
last FILENAME and the last SIZE count. -/
theorem offerAttribs_last (env : CltEnv) (m : Mbuf) (l : List AttrRef) (k : Disk) (d : Transfer) :
    let r := l.foldl (Clt.offerAttrib env false m) (k, d)
    let names := (l.filter fun a => a.at' = MsgAttrib.code .filename).map fun a =>
      cstrAt m env.beyond a.av
    let sizes := (l.filter fun a => a.at' = MsgAttrib.code .size).map fun a =>
      ui64At m env.beyond a.av
    r.1 = k ∧ r.2.name = names.getLast?.or d.name ∧
      r.2.partname = (names.getLast?.map fun s => s ++ TXT_PART).or d.partname ∧
      r.2.size = sizes.getLast?.getD d.size := by
  induction l generalizing d with
  | nil => exact ⟨rfl, rfl, rfl, rfl⟩
  | cons a l ih =>
      simp only [List.foldl_cons]
      -- An attribute is of one of three types, or skipped.
      have hcodes : MsgAttrib.code .filename ≠ MsgAttrib.code .offerid ∧
          MsgAttrib.code .size ≠ MsgAttrib.code .offerid ∧
          MsgAttrib.code .size ≠ MsgAttrib.code .filename := by decide
      by_cases hoid : a.at' = MsgAttrib.code .offerid
      · have hstep : Clt.offerAttrib env false m (k, d) a =
            (k, { d with oid := ui64At m env.beyond a.av }) := by
          simp only [Clt.offerAttrib, if_pos hoid]
        have hf : a.at' ≠ MsgAttrib.code .filename := fun h => hcodes.1 (h.symm.trans hoid)
        have hs : a.at' ≠ MsgAttrib.code .size := fun h => hcodes.2.1 (h.symm.trans hoid)
        have ih := ih { d with oid := ui64At m env.beyond a.av }
        rw [hstep, List.filter_cons_of_neg (by simpa using hf),
          List.filter_cons_of_neg (by simpa using hs)]
        exact ih
      · by_cases hfile : a.at' = MsgAttrib.code .filename
        · have hstep : Clt.offerAttrib env false m (k, d) a =
              (k, { d with name := some (cstrAt m env.beyond a.av)
                           partname := some (cstrAt m env.beyond a.av ++ TXT_PART) }) := by
            simp only [Clt.offerAttrib, if_neg hoid, if_pos hfile, makeFilenames,
              Bool.false_eq_true, if_false]
          have hs : a.at' ≠ MsgAttrib.code .size := fun h => hcodes.2.2 (h.symm.trans hfile)
          obtain ⟨h₁, h₂, h₃, h₄⟩ := ih { d with
            name := some (cstrAt m env.beyond a.av)
            partname := some (cstrAt m env.beyond a.av ++ TXT_PART) }
          rw [hstep, List.filter_cons_of_pos (by simpa using hfile), List.map_cons,
            List.getLast?_cons, List.filter_cons_of_neg (by simpa using hs)]
          refine ⟨h₁, ?_, ?_, h₄⟩
          · rw [h₂, Option.some_or, Option.or_some]
          · rw [h₃, Option.map_some, Option.some_or, Option.or_some]
            cases ((l.filter fun a => a.at' = MsgAttrib.code .filename).map fun a =>
              cstrAt m env.beyond a.av).getLast? <;> rfl
        · by_cases hsize : a.at' = MsgAttrib.code .size
          · have hstep : Clt.offerAttrib env false m (k, d) a =
                (k, { d with size := ui64At m env.beyond a.av }) := by
              simp only [Clt.offerAttrib, if_neg hoid, if_neg hfile, if_pos hsize]
            obtain ⟨h₁, h₂, h₃, h₄⟩ := ih { d with size := ui64At m env.beyond a.av }
            rw [hstep, List.filter_cons_of_neg (by simpa using hfile),
              List.filter_cons_of_pos (by simpa using hsize), List.map_cons, List.getLast?_cons]
            exact ⟨h₁, h₂, h₃, h₄⟩
          · have hstep : Clt.offerAttrib env false m (k, d) a = (k, d) := by
              simp only [Clt.offerAttrib, if_neg hoid, if_neg hfile, if_neg hsize]
            rw [hstep, List.filter_cons_of_neg (by simpa using hfile),
              List.filter_cons_of_neg (by simpa using hsize)]
            exact ih d

/-! ## Steps -/

/-- No FILENAME that is used has a slash in it: all of them are when files must
not be clobbered, and otherwise the last one, unless the offer is refused. -/
def PlainNames (c : Clt) (e : CltEvent) : Prop :=
  ∀ env m, e.offered c = some (env, m) →
    if c.cfg.noClobber then ∀ s ∈ offerFilenames env m, IsComponent s
    else offerSize env m = 0 ∨ ∀ s, (offerFilenames env m).getLast? = some s → IsComponent s

/-- The names of the downloads that are alive are components. -/
def LiveNames (c : Clt) : Prop :=
  ∀ d ∈ c.transfers, d.type = .download → 0 < d.tact → NamesOk d

/-- What a step does for downloads is done to entries of the working directory. -/
structure StaysInDirectory (c t : Clt) : Prop where
  opened : ∀ d ∈ c.transfers ++ t.transfers, d.type = .download → ∀ path ino,
    .created d.addr path ino ∈ c.newActs t ∨ .opened d.addr path ino ∈ c.newActs t →
    InDirectory c.disk path
  renamed : ∀ a src dst, .renamed a src dst ∈ c.newActs t →
    InDirectory c.disk src ∧ InDirectory c.disk dst

/-- Entering a download with a plain name. -/
theorem enterOffer_here {c : Clt} {e : CltEvent} {env : CltEnv} {m : Mbuf}
    (hoff : e.offered c = some (env, m)) (hplain : PlainNames c e) :
    Grown (ActHere c.disk c.nextAddr) c.disk.log
        (Clt.enterOffer (Clt.offeredEntry env c m)).1.log ∧
      (0 < (Clt.enterOffer (Clt.offeredEntry env c m)).2.tact →
        NamesOk (Clt.enterOffer (Clt.offeredEntry env c m)).2) := by
  have hcond := hplain env m hoff
  have hnone : NamesOk (Clt.offerEntry env c m) := ⟨nofun, nofun⟩
  -- The entry is refused, or has names; and the files created are in the directory.
  suffices hentry : Grown (ActHere c.disk c.nextAddr) c.disk.log
      (Clt.offeredEntry env c m).1.log ∧
      ((Clt.offeredEntry env c m).2.size = 0 ∨ NamesOk (Clt.offeredEntry env c m).2) by
    obtain ⟨hg, hnames⟩ := hentry
    unfold Clt.enterOffer
    split
    · exact ⟨hg.cons trivial, fun h => absurd h (Int.lt_irrefl 0)⟩
    · rename_i hgood
      exact ⟨hg, fun _ => hnames.resolve_left fun h => hgood (.inr h)⟩
  by_cases hnc : c.cfg.noClobber = true
  · rw [if_pos hnc] at hcond
    obtain ⟨hg, -, hok⟩ := offerAttribs_here env (mbufResetgetattrib m)
      (Clt.attribRefs (mbufResetgetattrib m)) (fun a ha hfile => hcond _ (List.mem_map.mpr
        ⟨a, List.mem_filter.mpr ⟨ha, by simpa using hfile⟩, rfl⟩)) c.cfg.noClobber c.disk
        (Clt.offerEntry env c m) hnone
    exact ⟨hg, .inr hok⟩
  · rw [if_neg hnc] at hcond
    have hfalse : c.cfg.noClobber = false := by simpa using hnc
    obtain ⟨hdisk, hname, hpart, hsize⟩ := offerAttribs_last env (mbufResetgetattrib m)
      (Clt.attribRefs (mbufResetgetattrib m)) c.disk (Clt.offerEntry env c m)
    unfold Clt.offeredEntry
    rw [hfalse, hdisk]
    refine ⟨.refl _ _, ?_⟩
    rcases hcond with hzero | hlast
    · exact .inl (hsize.trans hzero)
    · refine .inr ⟨?_, ?_⟩
      · intro u hu
        rw [hname] at hu
        exact hlast u ((Option.or_none).symm.trans hu)
      · intro u hu
        rw [hpart] at hu
        obtain ⟨s, hs, rfl⟩ := Option.map_eq_some_iff.mp ((Option.or_none).symm.trans hu)
        exact isComponent_append.mpr ⟨hlast s hs, isComponent_part⟩

/-- What is done to a part file with a plain name is done in the directory. -/
theorem PartAct.here {k : Disk} {d : Transfer} {a : TransferAct} (hd : NamesOk d)
    (h : PartAct k d a) : ActHere k d.addr a := by
  cases h with
  | created hp => exact ⟨rfl, (hd.partname _ hp).inDirectory k⟩
  | opened hp => exact ⟨rfl, (hd.partname _ hp).inDirectory k⟩
  | wrote n => exact trivial

theorem receiveData_here (env : CltEnv) {k : Disk} {d : Transfer} (data : Bytes) (hd : NamesOk d) :
    Grown (ActHere k d.addr) k.log (Clt.receiveData env k d data).1.log := by
  unfold Clt.receiveData
  split
  · have hend : Grown (ActHere k d.addr) k.log (transferInvalidate
        (k.note (if d.offset = d.size then .finished d.addr else .premature d.addr)) d).1.log := by
      refine ((Grown.refl _ _).cons ?_).cons trivial
      split <;> exact trivial
    simp only
    rcases renamePart_cases env (transferInvalidate
        (k.note (if d.offset = d.size then .finished d.addr else .premature d.addr)) d).1 d with
      ⟨-, partname, name, fs, hp, hn, -, hk⟩ | ⟨-, hk⟩
    · rw [hk]
      exact hend.cons ⟨(hd.partname _ hp).inDirectory k, (hd.name _ hn).inDirectory k⟩
    · rw [hk]
      exact hend
  · have hacts := (downloadWrite_acts env.toSysEnv k d data).mono fun _ => PartAct.here hd
    revert hacts
    generalize downloadWrite env.toSysEnv k d data = r
    obtain ⟨k₁, d₁, ok⟩ := r
    intro hacts
    cases ok with
    | true => exact hacts
    | false => exact hacts.cons trivial

/-- Received DATA leaves the names alone. -/
theorem receiveData_names (env : CltEnv) (k : Disk) (d : Transfer) (data : Bytes) :
    (Clt.receiveData env k d data).2.name = d.name ∧
      (Clt.receiveData env k d data).2.partname = d.partname := by
  unfold Clt.receiveData
  split
  · exact ⟨rfl, rfl⟩
  · obtain ⟨fd, hfd⟩ := Clt.downloadWrite_fields env.toSysEnv k d data
    revert hfd
    generalize downloadWrite env.toSysEnv k d data = r
    obtain ⟨k₁, d₁, ok⟩ := r
    intro hfd
    simp only at hfd
    subst hfd
    cases ok <;> exact ⟨rfl, rfl⟩

theorem NamesOk.congr {d d' : Transfer} (h : NamesOk d) (hname : d'.name = d.name)
    (hpart : d'.partname = d.partname) : NamesOk d' := by
  refine ⟨?_, ?_⟩
  · rw [hname]
    exact h.name
  · rw [hpart]
    exact h.partname

/-- Actions of one entry that stay in the directory. -/
theorem staysInDirectory_of_here {c t : Clt} {addr : Nat}
    (h : Grown (ActHere c.disk addr) c.disk.log t.disk.log) : StaysInDirectory c t := by
  refine ⟨?_, fun a src dst ha => h.newer _ ha⟩
  rintro d - - path ino (ha | ha)
  · exact (h.newer _ ha).2
  · exact (h.newer _ ha).2

/-- What is true of the names of every new entry is true of the names of every
download that is alive: they never change. -/
theorem liveNames_step {Q : Transfer → Prop} {c t : Clt} {e : CltEvent}
    (hnames : ∀ d d' : Transfer, d'.name = d.name → d'.partname = d.partname → Q d → Q d')
    (hc : CltOk c) (hen : e.Enabled c) (h : cltStep c e = some t)
    (hnew : ∀ env m, e.offered c = some (env, m) →
      0 < (Clt.enterOffer (Clt.offeredEntry env c m)).2.tact →
      Q (Clt.enterOffer (Clt.offeredEntry env c m)).2)
    (hlive : ∀ d ∈ c.transfers, d.type = .download → 0 < d.tact → Q d) :
    ∀ d ∈ t.transfers, d.type = .download → 0 < d.tact → Q d := by
  have hput : ∀ {d d' : Transfer}, t.transfers = putTransfer d' c.transfers → d ∈ c.transfers →
      d.type = .download → 0 < d.tact → d'.name = d.name → d'.partname = d.partname →
      ∀ u ∈ t.transfers, u.type = .download → 0 < u.tact → Q u := by
    intro d d' hts hd htype hpos hname hpart u hu hut hutact
    rw [hts] at hu
    rcases mem_putTransfer hu with rfl | ⟨hu, -⟩
    · exact hnames d _ hname hpart (hlive d hd htype hpos)
    · exact hlive u hu hut hutact
  cases cltStep_downloads hc hen h with
  | still _ hstill =>
      intro d' hd' htype htact
      obtain ⟨d, hd, hdt, hk⟩ := hstill.shrinks d' hd' htype
      exact hnames d d' hk.names.1 hk.names.2 (hlive d hd hdt (hk.live htact).1)
  | @offered env m p hoff hp ht =>
      intro u hu htype htact
      rw [ht.2] at hu
      rcases List.mem_cons.mp hu with rfl | hu
      · subst hp
        exact hnew env m hoff htact
      · exact hlive u hu htype htact
  | @accepted env d k d' ok hacc hstart ht =>
      obtain ⟨hd, htype, hpos, -⟩ := CltEvent.accepting_mem hacc
      obtain ⟨fd, off, rfl⟩ := startDownload_entry hstart
      exact hput ht.2 hd htype hpos rfl rfl
  | @answered env d data p hres hp ht =>
      obtain ⟨hd, htype, hpos⟩ := CltEvent.response_mem hres
      obtain ⟨hname, hpart⟩ := receiveData_names env c.disk { d with tact := env.now } data
      subst hp
      exact hput ht.2 hd htype hpos hname hpart

/-- **One step**: the names stay plain, and what is done is done in the directory. -/
theorem plainNames_step {c t : Clt} {e : CltEvent} (hc : CltOk c) (hlive : LiveNames c)
    (hen : e.Enabled c) (h : cltStep c e = some t) (hplain : PlainNames c e) :
    LiveNames t ∧ StaysInDirectory c t := by
  refine ⟨liveNames_step (fun _ _ hname hpart hd => hd.congr hname hpart) hc hen h
    (fun env m hoff => (enterOffer_here hoff hplain).2) hlive, ?_⟩
  cases cltStep_downloads hc hen h with
  | still _ hstill =>
      refine ⟨?_, ?_⟩
      · intro d hd htype path ino ha
        have hold : ∃ u ∈ c.transfers, u.type = .download ∧ u.addr = d.addr := by
          rcases List.mem_append.mp hd with hd | hd
          · exact ⟨d, hd, htype, rfl⟩
          · obtain ⟨u, hu, hut, hk⟩ := hstill.shrinks d hd htype
            exact ⟨u, hu, hut, hk.addr.symm⟩
        obtain ⟨u, hu, hut, haddr⟩ := hold
        rcases ha with ha | ha
        · exact absurd ((hstill.log.newer _ ha).2 u hu hut haddr.symm) (Option.some_ne_none ino)
        · exact absurd ((hstill.log.newer _ ha).2 u hu hut haddr.symm) (Option.some_ne_none ino)
      · intro a src dst ha
        exact absurd trivial (hstill.log.newer _ ha).1
  | @offered env m p hoff hp ht =>
      have hg := (enterOffer_here hoff hplain).1
      rw [hp, ← ht.1] at hg
      exact staysInDirectory_of_here hg
  | @accepted env d k d' ok hacc hstart ht =>
      obtain ⟨hd, htype, hpos, -⟩ := CltEvent.accepting_mem hacc
      have hok : NamesOk { d with tact := env.now } :=
        (hlive d hd htype hpos).congr rfl rfl
      have hacts := (startDownload_acts env (c.disk.note (.accepted d.addr))
        { d with tact := env.now }).mono fun _ => PartAct.here hok
      rw [hstart, ← ht.1] at hacts
      have hnote : Grown (ActHere c.disk d.addr) c.disk.log (c.disk.note (.accepted d.addr)).log :=
        (Grown.refl _ _).cons trivial
      exact staysInDirectory_of_here (hnote.trans (hacts.mono fun _ => .of_cwd rfl))
  | @answered env d data p hres hp ht =>
      obtain ⟨hd, htype, hpos⟩ := CltEvent.response_mem hres
      have hok : NamesOk { d with tact := env.now } :=
        (hlive d hd htype hpos).congr rfl rfl
      have hg := receiveData_here env (k := c.disk) data hok
      rw [hp, ← ht.1] at hg
      exact staysInDirectory_of_here hg

/-- **Received files stay in the working directory**, in every run in which no
FILENAME that is used has a slash in it. -/
theorem files_stay_in_directory {c t : Clt} {e : CltEvent}
    (hc : (cltLts.guard PlainNames).Reachable c) (h : (cltLts.guard PlainNames).step c e t) :
    StaysInDirectory c t := by
  have hinv : (cltLts.guard PlainNames).Inductive fun s => CltOk s ∧ LiveNames s := by
    refine ⟨fun s hs => ⟨cltOk_inductive.init s hs, ?_⟩, ?_⟩
    · obtain ⟨cfg, pubkey, fs, cwd, -, -, rfl⟩ := hs
      exact fun u hu => absurd hu List.not_mem_nil
    · rintro s e t ⟨hok, hlive⟩ ⟨⟨hen, hstep⟩, hplain⟩
      exact ⟨hok.step hen hstep, (plainNames_step hok hlive hen hstep hplain).1⟩
  obtain ⟨hok, hlive⟩ := hinv.invariant c hc
  exact (plainNames_step hok hlive h.1.1 h.1.2 h.2).2

/-- A step of the client in which the FILENAMEs of offers are components. -/
def plainNamesTry (c : Clt) (e : CltEvent) : Option Clt :=
  if !c.cfg.noClobber && (e.offered c).all fun p =>
      (offerFilenames p.1 p.2).all fun s => !s.contains 0x2f
  then cltTry c e else none

theorem plainNamesTry_step {c t : Clt} {e : CltEvent} (h : plainNamesTry c e = some t) :
    (cltLts.guard PlainNames).step c e t := by
  unfold plainNamesTry at h
  split at h
  · rename_i hall
    obtain ⟨hnc, hall⟩ := Bool.and_eq_true_iff.mp hall
    refine ⟨cltTry_step h, ?_⟩
    intro env m hoff
    rw [if_neg (by simpa using hnc)]
    refine .inr fun s hs => ?_
    rw [hoff, Option.all_some, List.all_eq_true] at hall
    have := hall s (List.mem_of_getLast? hs)
    simpa [IsComponent] using this
  · cases h

theorem files_stay_in_directory_accept : ∃ c t : Clt,
    .created 0 (ascii "/d/a.part") 0 ∈ c.newActs t ∧ StaysInDirectory c t := by
  have hexec : (Lts.exec plainNamesTry (demoClient false [])
      (loginRun ++ offerRun (ascii "a") 2)).any (fun c =>
        (plainNamesTry c (.cmd (.accept 5 6) demoEnv)).any fun t =>
          decide (.created 0 (ascii "/d/a.part") 0 ∈ c.newActs t)) = true := by
    decide +kernel
  obtain ⟨c, hc, hp⟩ := Lts.reachable_of_exec (M := cltLts.guard PlainNames)
    (fun _ _ _ => plainNamesTry_step) (demoClient_init false []) hexec
  obtain ⟨t, ht, hmem⟩ := (Option.any_eq_true _ _).mp hp
  exact ⟨c, t, of_decide_eq_true hmem, files_stay_in_directory hc (plainNamesTry_step ht)⟩

/-- A peer offers `../a`, and the user accepts. -/
theorem file_escapes_directory : ∃ c e t, cltLts.Reachable c ∧ cltLts.step c e t ∧
    .created 0 (ascii "/d/../a.part") 0 ∈ c.newActs t ∧ ¬ StaysInDirectory c t := by
  have hexec : (Lts.exec cltTry (demoClient false []) (loginRun ++ offerRun (ascii "../a") 2)).any
      (fun c => c.disk.cwd == ascii "/d" && c.transfers.any (fun d =>
          d.type == .download && d.addr == 0) &&
        (cltTry c (.cmd (.accept 5 6) demoEnv)).any fun t =>
          decide (.created 0 (ascii "/d/../a.part") 0 ∈ c.newActs t)) = true := by
    decide +kernel
  obtain ⟨c, hc, hp⟩ := Lts.reachable_of_exec (fun _ _ _ => cltTry_step)
    (demoClient_init false []) hexec
  simp only [Bool.and_eq_true, beq_iff_eq, List.any_eq_true, Option.any_eq_true,
    decide_eq_true_eq] at hp
  obtain ⟨⟨hcwd, d, hd, htype, haddr⟩, t, ht, hmem⟩ := hp
  refine ⟨c, _, t, hc, cltTry_step ht, hmem, fun hstays => ?_⟩
  obtain ⟨name, hname, hpath⟩ := hstays.opened d (List.mem_append_left _ hd) htype
    (ascii "/d/../a.part") 0 (.inl (haddr ▸ hmem))
  rw [hcwd] at hpath
  have hsuffix : name = ascii "../a.part" := by
    have hsplit : ascii "/d/../a.part" = ascii "/d" ++ 0x2f :: ascii "../a.part" := by decide
    rw [hsplit] at hpath
    exact (List.cons.inj (List.append_cancel_left hpath)).2.symm
  exact hname (hsuffix ▸ (by decide))

/-! ## Part names -/

/-- The part name is the name with `.part` behind it. -/
def PartNamed (d : Transfer) : Prop := d.partname = d.name.map fun name => name ++ TXT_PART

theorem makeFilenames_partNamed (env : SysEnv) (noClobber : Bool) (k : Disk) (d : Transfer)
    (s : Bytes) : PartNamed (makeFilenames env noClobber k d s).2 := by
  have hloop : ∀ (n i : Nat) (k : Disk), PartNamed (makeFilenamesFrom env s n i k d).2 := by
    intro n
    induction n with
    | zero => exact fun _ _ => rfl
    | succ n ih =>
        intro i k
        simp only [makeFilenamesFrom]
        split
        · exact ih (i + 1) k
        · split
          · exact ih (i + 1) _
          · rfl
  unfold makeFilenames
  split
  · exact hloop _ _ _
  · rfl

theorem enterOffer_partNamed (env : CltEnv) (c : Clt) (m : Mbuf) :
    PartNamed (Clt.enterOffer (Clt.offeredEntry env c m)).2 := by
  have hfold : ∀ (l : List AttrRef) (p : Disk × Transfer), PartNamed p.2 →
      PartNamed (l.foldl (Clt.offerAttrib env c.cfg.noClobber (mbufResetgetattrib m)) p).2 := by
    intro l
    induction l with
    | nil => exact fun _ h => h
    | cons a l ih =>
        intro p hp
        rw [List.foldl_cons]
        refine ih _ ?_
        obtain ⟨k, d⟩ := p
        unfold Clt.offerAttrib
        simp only
        split
        · exact hp
        · split
          · exact makeFilenames_partNamed _ _ _ _ _
          · split <;> exact hp
  have hentry : PartNamed (Clt.offeredEntry env c m).2 := hfold _ _ rfl
  unfold Clt.enterOffer
  split
  · exact hentry
  · exact hentry

theorem enterOffer_named {env : CltEnv} {c : Clt} {m : Mbuf}
    (h : 0 < (Clt.enterOffer (Clt.offeredEntry env c m)).2.tact) :
    (Clt.enterOffer (Clt.offeredEntry env c m)).2.name ≠ none := by
  unfold Clt.enterOffer at *
  split
  · rename_i hbad
    rw [if_pos hbad] at h
    exact absurd h (Int.lt_irrefl 0)
  · rename_i hgood
    intro hnone
    rw [hnone] at hgood
    exact hgood (.inl rfl)

/-- Both names of a download that is alive are set. -/
def LivePartNames (c : Clt) : Prop :=
  ∀ d ∈ c.transfers, d.type = .download → 0 < d.tact →
    ∃ name, d.name = some name ∧ d.partname = some (name ++ TXT_PART)

theorem livePartNames_inductive : cltLts.Inductive fun c => CltOk c ∧ LivePartNames c where
  init := by
    rintro c hinit
    refine ⟨cltOk_inductive.init c hinit, ?_⟩
    obtain ⟨cfg, pubkey, fs, cwd, -, -, rfl⟩ := hinit
    exact fun d hd => absurd hd List.not_mem_nil
  step := by
    rintro c e t ⟨hok, hlive⟩ ⟨hen, h⟩
    refine ⟨hok.step hen h, liveNames_step ?_ hok hen h ?_ hlive⟩
    · intro d d' hname hpart hd
      rw [hname, hpart]
      exact hd
    · intro env m _ hlive
      obtain ⟨name, hname⟩ := Option.ne_none_iff_exists'.mp (enterOffer_named hlive)
      refine ⟨name, hname, ?_⟩
      rw [enterOffer_partNamed env c m, hname]
      rfl

end Frelay
