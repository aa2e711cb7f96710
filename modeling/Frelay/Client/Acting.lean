import Frelay.Client.Downloads
import Frelay.Client.PartFile

/-!
# What is done for a transfer

`Acting` is what an operation on one entry does to the files: it addresses the files that
the names of the entry denote in the working directory, and leaves the names alone. A step
of the client is such an operation, enters a new entry, or does nothing to any file
(`TransferStep`). This holds of offers and downloads alike.

* `offerRead_acting`, `startDownload_acting`, `receiveData_acting` — the operations;
* `cltStep_transfers` — every step but `cd` is one of these.
-/

namespace Frelay

open Lib

/-- The name under which the file of an entry is opened. -/
def Transfer.target (d : Transfer) : Option Bytes :=
  match d.type with
  | .offer => d.name
  | .download => d.partname

/-- What an action opens or renames is what the names of `d` denote on `k`. -/
def Denotes (k : Disk) (d : Transfer) : TransferAct → Prop
  | .created _ p _ | .opened _ p _ => d.target.map k.path = some p
  | .renamed _ src dst => d.partname.map k.path = some src ∧ d.name.map k.path = some dst
  | _ => True

/-- The path and the file of an action that opens one. -/
def TransferAct.opensAt : TransferAct → Option (Bytes × Nat)
  | .created _ p i | .opened _ p i => some (p, i)
  | _ => none

/-- The path and the file most recently opened on behalf of an entry. -/
def lastOpening : List TransferAct → Nat → Option (Bytes × Nat)
  | [], _ => none
  | a :: l, addr =>
      if a.addr = addr then a.opensAt.or (lastOpening l addr) else lastOpening l addr

/-- The file most recently opened for `d` was opened under the name it has on `k`. -/
def OpenedAs (k : Disk) (d : Transfer) : Prop :=
  ∃ p i, d.target.map k.path = some p ∧ lastOpening k.log d.addr = some (p, i)

/-- `d'` has the identity and the names of `d`. -/
def Transfer.SameNames (d d' : Transfer) : Prop :=
  d'.addr = d.addr ∧ d'.type = d.type ∧ d'.name = d.name ∧ d'.partname = d.partname

/-- The operations from `(k, d)` to `(k', d')` address the files that the names of `d` denote. -/
structure Acting (k : Disk) (d : Transfer) (k' : Disk) (d' : Transfer) : Prop where
  same : d.SameNames d'
  cwd : k'.cwd = k.cwd
  log : Grown (fun a => a.addr = d.addr ∧ Denotes k d a) k.log k'.log
  held : (0 ≤ d.fd → OpenedAs k d) → 0 ≤ d'.fd → OpenedAs k' d'

theorem Transfer.SameNames.refl (d : Transfer) : d.SameNames d := ⟨rfl, rfl, rfl, rfl⟩

theorem Transfer.SameNames.trans {d d' d'' : Transfer} (h₁ : d.SameNames d')
    (h₂ : d'.SameNames d'') : d.SameNames d'' :=
  ⟨h₂.1.trans h₁.1, h₂.2.1.trans h₁.2.1, h₂.2.2.1.trans h₁.2.2.1, h₂.2.2.2.trans h₁.2.2.2⟩

theorem Transfer.SameNames.target {d d' : Transfer} (h : d.SameNames d') :
    d'.target = d.target := by
  unfold Transfer.target
  rw [h.2.1, h.2.2.1, h.2.2.2]

/-- An action is judged by directory and names. -/
theorem Denotes.congr {k k' : Disk} {d d' : Transfer} (hcwd : k'.cwd = k.cwd)
    (hsame : d.SameNames d') {a : TransferAct} (h : Denotes k' d' a) : Denotes k d a := by
  have hpath := Disk.path_of_cwd hcwd
  cases a with
  | created _ p _ =>
      change d'.target.map k'.path = some p at h
      rwa [hsame.target, hpath] at h
  | opened _ p _ =>
      change d'.target.map k'.path = some p at h
      rwa [hsame.target, hpath] at h
  | renamed _ src dst =>
      change d'.partname.map k'.path = some src ∧ d'.name.map k'.path = some dst at h
      rwa [hsame.2.2.1, hsame.2.2.2, hpath] at h
  | _ => trivial

theorem OpenedAs.congr {k k' : Disk} {d d' : Transfer} (hcwd : k'.cwd = k.cwd)
    (hsame : d.SameNames d') (hlog : lastOpening k'.log d.addr = lastOpening k.log d.addr)
    (h : OpenedAs k d) : OpenedAs k' d' := by
  obtain ⟨p, i, hp, hlast⟩ := h
  refine ⟨p, i, ?_, ?_⟩
  · rw [hsame.target, Disk.path_of_cwd hcwd]
    exact hp
  · rw [hsame.1, hlog]
    exact hlast

namespace Acting

variable {k k' k'' : Disk} {d d' d'' : Transfer}

theorem refl (k : Disk) (d : Transfer) : Acting k d k d := ⟨.refl d, rfl, .refl _ _, id⟩

theorem trans (h₁ : Acting k d k' d') (h₂ : Acting k' d' k'' d'') : Acting k d k'' d'' where
  same := h₁.same.trans h₂.same
  cwd := h₂.cwd.trans h₁.cwd
  log := h₁.log.trans (h₂.log.mono fun _ ha =>
    ⟨ha.1.trans h₁.same.1, ha.2.congr h₁.cwd h₁.same⟩)
  held := fun h => h₂.held (h₁.held h)

/-- Other fields are set, and descriptors may change where they point to. -/
theorem fields {fs : Files Bytes UInt8} (hsame : d.SameNames d') (hfd : d'.fd = d.fd ∨ d'.fd = -1) :
    Acting k d { k with fs := fs } d' where
  same := hsame
  cwd := rfl
  log := .refl _ _
  held := by
    intro h h0
    rcases hfd with heq | heq
    · exact (h (heq ▸ h0)).congr rfl hsame rfl
    · rw [heq] at h0
      exact absurd h0 (by decide)

/-- Something is noted that neither opens nor renames a file. -/
theorem note {a : TransferAct} (haddr : a.addr = d.addr) (hden : Denotes k d a)
    (hopens : a.opensAt = none) : Acting k d (k.note a) d where
  same := .refl d
  cwd := rfl
  log := (Grown.refl _ _).cons ⟨haddr, hden⟩
  held := by
    intro h h0
    refine OpenedAs.congr (k := k) rfl (.refl d) ?_ (h h0)
    change lastOpening (a :: k.log) d.addr = lastOpening k.log d.addr
    rw [lastOpening, if_pos haddr, hopens, Option.none_or]

/-- The file of the entry is opened or created, under its name. -/
theorem opening {a : TransferAct} {fs : Files Bytes UInt8} {name : Bytes} {fd : Int} {i : Nat}
    (htarget : d.target = some name) (haddr : a.addr = d.addr)
    (hopens : a.opensAt = some (k.path name, i)) :
    Acting k d { k with fs := fs, log := a :: k.log } { d with fd := fd } where
  same := ⟨rfl, rfl, rfl, rfl⟩
  cwd := rfl
  log := by
    refine (Grown.refl _ _).cons ⟨haddr, ?_⟩
    have hp : d.target.map k.path = some (k.path name) := by rw [htarget, Option.map_some]
    cases a with
    | created _ p _ =>
        simp only [TransferAct.opensAt, Option.some.injEq, Prod.mk.injEq] at hopens
        change d.target.map k.path = some p
        rw [hopens.1, hp]
    | opened _ p _ =>
        simp only [TransferAct.opensAt, Option.some.injEq, Prod.mk.injEq] at hopens
        change d.target.map k.path = some p
        rw [hopens.1, hp]
    | _ => cases hopens
  held := by
    refine fun _ _ => ⟨k.path name, i, ?_, ?_⟩
    · change d.target.map k.path = some (k.path name)
      rw [htarget, Option.map_some]
    · change lastOpening (a :: k.log) d.addr = some (k.path name, i)
      rw [lastOpening, if_pos haddr, hopens, Option.some_or]

theorem openFile {name : Bytes} {newFd : Option Int} {fd : Int} (htarget : d.target = some name)
    (h : k.openFile d.addr name newFd = some (fd, k')) : Acting k d k' { d with fd := fd } := by
  obtain ⟨⟨n, fs⟩, -, heq⟩ := Option.map_eq_some_iff.mp h
  simp only [Prod.mk.injEq] at heq
  obtain ⟨rfl, rfl⟩ := heq
  exact .opening htarget rfl rfl

theorem create {name : Bytes} {newFd : Option Int} {fd : Int} (htarget : d.target = some name)
    (h : k.create d.addr name newFd = some (fd, k')) : Acting k d k' { d with fd := fd } := by
  obtain ⟨⟨n, fs⟩, -, heq⟩ := Option.map_eq_some_iff.mp h
  simp only [Prod.mk.injEq] at heq
  obtain ⟨rfl, rfl⟩ := heq
  exact .opening htarget rfl rfl

theorem invalidate : Acting k d (transferInvalidate k d).1 (transferInvalidate k d).2 :=
  (Acting.note (k := k) (d := d) (a := .invalidated d.addr) rfl trivial rfl).trans
    (.fields ⟨rfl, rfl, rfl, rfl⟩ (.inr rfl))

end Acting

/-! ## The operations -/

theorem offer_target {o : Transfer} (h : o.type = .offer) : o.target = o.name := by
  rw [Transfer.target, h]

theorem download_target {d : Transfer} (h : d.type = .download) : d.target = d.partname := by
  rw [Transfer.target, h]

/-- `offer_read` opens the file of the offer. -/
theorem offerRead_acting {env : SysEnv} {k k' : Disk} {o o' : Transfer} {off size : UInt64}
    {data : Option Bytes} (htype : o.type = .offer)
    (h : offerRead env k o off size = some (k', o', data)) : Acting k o k' o' := by
  have hopen : Acting k o (offerOpen env k o).1 (offerOpen env k o).2 := by
    unfold offerOpen
    split
    · exact .refl k o
    · split
      · rename_i hname
        obtain ⟨name, hn, hname⟩ := Option.bind_eq_some_iff.mp hname
        exact .openFile ((offer_target htype).trans hn) hname
      · exact .fields ⟨rfl, rfl, rfl, rfl⟩ (.inr rfl)
  refine hopen.trans ?_
  unfold offerRead at h
  generalize offerOpen env k o = p at h ⊢
  obtain ⟨k₁, o₁⟩ := p
  simp only at h ⊢
  split at h
  · cases h
    exact .refl k' o'
  · split at h
    · cases h
      exact .refl k' o'
    · split at h
      · cases h
      · split at h
        · cases h
          exact .fields ⟨rfl, rfl, rfl, rfl⟩ (.inr rfl)
        · cases h
          exact .fields ⟨rfl, rfl, rfl, rfl⟩ (.inr rfl)
        · cases h
          exact .fields ⟨rfl, rfl, rfl, rfl⟩ (.inl rfl)

/-- The part file is open, under the name it has. -/
theorem PartOpen.acting {k k₁ : Disk} {d : Transfer} {fd : Int} (htype : d.type = .download)
    (h : PartOpen k d k₁ fd) : Acting k d k₁ { d with fd := fd } := by
  cases h with
  | held _ => exact .refl k d
  | created _ hp hcreate => exact .create ((download_target htype).trans hp) hcreate

theorem downloadWrite_acting (env : SysEnv) {k : Disk} {d : Transfer} (htype : d.type = .download)
    (data : Bytes) :
    Acting k d (downloadWrite env k d data).1 (downloadWrite env k d data).2.1 := by
  generalize hr : downloadWrite env k d data = r
  have hcase := hr ▸ downloadWrite_cases env k d data
  have hwrote : ∀ {k₁ : Disk} {d₁ : Transfer} {n : Nat} {fs : Files Bytes UInt8},
      Acting k₁ d₁ { k₁ with fs := fs, log := .wrote d₁.addr n :: k₁.log } d₁ := by
    intro k₁ d₁ n fs
    exact (Acting.note (a := .wrote d₁.addr n) rfl trivial rfl).trans
      (.fields (.refl d₁) (.inl rfl))
  cases hcase with
  | shut _ => exact .fields ⟨rfl, rfl, rfl, rfl⟩ (.inr rfl)
  | failed hopen =>
      exact (hopen.acting htype).trans (.fields ⟨rfl, rfl, rfl, rfl⟩ (.inr rfl))
  | short hopen _ _ =>
      exact ((hopen.acting htype).trans hwrote).trans (.fields ⟨rfl, rfl, rfl, rfl⟩ (.inr rfl))
  | full hopen _ _ => exact (hopen.acting htype).trans hwrote

theorem startDownload_acting (env : CltEnv) {k : Disk} {d : Transfer}
    (htype : d.type = .download) :
    Acting k d (Clt.startDownload env k d).1 (Clt.startDownload env k d).2.1 := by
  unfold Clt.startDownload
  generalize hr : downloadResume env.toSysEnv k d = r
  have hcase := hr ▸ downloadResume_cases env.toSysEnv k d
  have hopened : ∀ {k₁ : Disk} {partname : Bytes} {newFd : Option Int} {fd : Int},
      d.partname = some partname → k.openFile d.addr partname newFd = some (fd, k₁) →
      Acting k d k₁ { d with fd := fd } :=
    fun hp hopen => .openFile ((download_target htype).trans hp) hopen
  -- Starting afresh after the part file could not be resumed.
  have hfresh : ∀ {k₁ : Disk}, Acting k d k₁ { d with fd := -1 } →
      Acting k d (downloadWrite env.toSysEnv k₁ { d with fd := -1 } []).1
        (downloadWrite env.toSysEnv k₁ { d with fd := -1 } []).2.1 :=
    fun h => h.trans (downloadWrite_acting env.toSysEnv (d := { d with fd := -1 }) htype [])
  cases hcase with
  | held _ => exact downloadWrite_acting env.toSysEnv htype []
  | absent _ => exact hfresh (.fields ⟨rfl, rfl, rfl, rfl⟩ (.inr rfl))
  | stuck _ hp hopen =>
      exact hfresh ((hopened hp hopen).trans (.fields ⟨rfl, rfl, rfl, rfl⟩ (.inr rfl)))
  | resumed _ hp hopen _ =>
      exact (hopened hp hopen).trans (.fields ⟨rfl, rfl, rfl, rfl⟩ (.inl rfl))

/-- The end of a download renames its part file. -/
theorem renamePart_acting (env : CltEnv) {k : Disk} {d d' : Transfer} (hsame : d.SameNames d')
    (hfd : d'.fd = -1) : Acting k d (Clt.renamePart env k d) d' := by
  rcases renamePart_cases env k d with ⟨-, part, name, fs, hp, hn, -, heq⟩ | ⟨-, heq⟩
  · rw [heq]
    have hden : Denotes k d (.renamed d.addr (k.path part) (k.path name)) := by
      refine ⟨?_, ?_⟩
      · rw [hp, Option.map_some]
      · rw [hn, Option.map_some]
    exact (Acting.note (a := .renamed d.addr (k.path part) (k.path name)) rfl hden rfl).trans
      (.fields hsame (.inr hfd))
  · rw [heq]
    exact .fields hsame (.inr hfd)

/-- DATA goes to the part file, which is renamed in the end. -/
theorem receiveData_acting (env : CltEnv) {k : Disk} {d : Transfer} (htype : d.type = .download)
    (data : Bytes) :
    Acting k d (Clt.receiveData env k d data).1 (Clt.receiveData env k d data).2 := by
  unfold Clt.receiveData
  split
  · have hend : Acting k d
        (k.note (if d.offset = d.size then .finished d.addr else .premature d.addr)) d := by
      split
      · exact .note rfl trivial rfl
      · exact .note rfl trivial rfl
    exact (hend.trans .invalidate).trans (renamePart_acting env (d := d.invalid) (.refl _) rfl)
  · have hwrite := downloadWrite_acting env.toSysEnv (k := k) htype data
    generalize downloadWrite env.toSysEnv k d data = r at hwrite ⊢
    obtain ⟨k₁, d₁, ok⟩ := r
    cases ok with
    | false => exact hwrite.trans .invalidate
    | true => exact hwrite.trans (.fields (d := d₁) ⟨rfl, rfl, rfl, rfl⟩ (.inl rfl))

/-! ## Entering a download -/

/-- The search for unused names leaves the part file open that it has created. -/
theorem makeFilenamesFrom_opened (env : SysEnv) (s : Bytes) (n i : Nat) (k : Disk) (d : Transfer)
    (htype : d.type = .download) (h0 : 0 ≤ (makeFilenamesFrom env s n i k d).2.fd) :
    OpenedAs (makeFilenamesFrom env s n i k d).1 (makeFilenamesFrom env s n i k d).2 := by
  induction n generalizing i k with
  | zero => exact absurd h0 (by decide : ¬ (0 : Int) ≤ -1)
  | succ n ih =>
      simp only [makeFilenamesFrom] at h0 ⊢
      split at h0
      · exact ih (i + 1) k h0
      · split at h0
        · exact ih (i + 1) _ h0
        · rename_i fd1 k₂ hpart
          have hopen := Acting.create (d := { d with
              fd := -1
              name := some (nameCandidate s i)
              partname := some (nameCandidate s i ++ TXT_PART) }) (download_target htype) hpart
          have hfd : ¬ (0 : Int) ≤ -1 := by decide
          exact (hopen.held (fun h => absurd h hfd) h0).congr rfl (.refl _) rfl

/-- The attribute loop of an OFFER request. -/
theorem offerAttribs_opened (env : CltEnv) (noClobber : Bool) (m : Mbuf) (l : List AttrRef)
    (k : Disk) (d : Transfer) (htype : d.type = .download)
    (hd : 0 ≤ d.fd → noClobber = true ∧ OpenedAs k d)
    (h0 : 0 ≤ (l.foldl (Clt.offerAttrib env noClobber m) (k, d)).2.fd) :
    OpenedAs (l.foldl (Clt.offerAttrib env noClobber m) (k, d)).1
      (l.foldl (Clt.offerAttrib env noClobber m) (k, d)).2 := by
  induction l generalizing k d with
  | nil => exact (hd h0).2
  | cons a l ih =>
      rw [List.foldl_cons] at h0 ⊢
      have htype' := (Clt.offerAttrib_spec env noClobber m (k, d) a).1.type.trans htype
      -- Only a FILENAME changes the names or the descriptor.
      have hstep : 0 ≤ (Clt.offerAttrib env noClobber m (k, d) a).2.fd → noClobber = true ∧
          OpenedAs (Clt.offerAttrib env noClobber m (k, d) a).1
            (Clt.offerAttrib env noClobber m (k, d) a).2 := by
        intro hfd
        unfold Clt.offerAttrib at hfd ⊢
        simp only at hfd ⊢
        by_cases hoid : a.at' = MsgAttrib.code .offerid
        · rw [if_pos hoid] at hfd ⊢
          exact ⟨(hd hfd).1, (hd hfd).2.congr rfl ⟨rfl, rfl, rfl, rfl⟩ rfl⟩
        · by_cases hfile : a.at' = MsgAttrib.code .filename
          · rw [if_neg hoid, if_pos hfile] at hfd ⊢
            unfold makeFilenames at hfd ⊢
            cases noClobber with
            | true => exact ⟨rfl, makeFilenamesFrom_opened _ _ _ _ _ _ htype hfd⟩
            | false =>
                obtain ⟨hfalse, -⟩ := hd hfd
                cases hfalse
          · by_cases hsize : a.at' = MsgAttrib.code .size
            · rw [if_neg hoid, if_neg hfile, if_pos hsize] at hfd ⊢
              exact ⟨(hd hfd).1, (hd hfd).2.congr rfl ⟨rfl, rfl, rfl, rfl⟩ rfl⟩
            · rw [if_neg hoid, if_neg hfile, if_neg hsize] at hfd ⊢
              exact hd hfd
      generalize Clt.offerAttrib env noClobber m (k, d) a = p at htype' hstep h0 ⊢
      obtain ⟨k₁, d₁⟩ := p
      exact ih k₁ d₁ htype' hstep h0

/-- A download that is entered has the part file open that its name stands for, if any. -/
theorem enterOffer_opened (env : CltEnv) (c : Clt) (m : Mbuf)
    (h0 : 0 ≤ (Clt.enterOffer (Clt.offeredEntry env c m)).2.fd) :
    OpenedAs (Clt.enterOffer (Clt.offeredEntry env c m)).1
      (Clt.enterOffer (Clt.offeredEntry env c m)).2 := by
  have hfd : ¬ (0 : Int) ≤ -1 := by decide
  unfold Clt.enterOffer at h0 ⊢
  split at h0
  · exact absurd h0 hfd
  · rename_i hgood
    rw [if_neg hgood]
    exact offerAttribs_opened env _ _ _ _ _ rfl (fun h => absurd h hfd) h0

/-! ## Steps that open nothing -/

/-- An action that opens and renames nothing. -/
def TransferAct.Silent (a : TransferAct) : Prop := a.opensAt = none ∧ ∀ k d, Denotes k d a

/-- Every entry of `ts'` is one of `ts`, perhaps closed or invalidated. -/
def Wanes (ts ts' : List Transfer) : Prop :=
  ∀ d' ∈ ts', ∃ d ∈ ts, d.SameNames d' ∧ (0 < d'.tact → 0 < d.tact) ∧ (d'.fd = d.fd ∨ d'.fd = -1)

/-- What a step does: nothing to any file, or it enters an entry, or acts for one. -/
inductive TransferStep (c t : Clt) : Prop
  | idle : t.disk.cwd = c.disk.cwd → Grown TransferAct.Silent c.disk.log t.disk.log →
      Wanes c.transfers t.transfers → t.nextAddr = c.nextAddr → TransferStep c t
  | entered {d : Transfer} : t.disk.cwd = c.disk.cwd →
      Grown (fun a => a.addr = c.nextAddr) c.disk.log t.disk.log → d.addr = c.nextAddr →
      (0 ≤ d.fd → OpenedAs t.disk d) → t.transfers = d :: c.transfers →
      t.nextAddr = c.nextAddr + 1 → TransferStep c t
  | acted {d d' : Transfer} : d ∈ c.transfers → 0 < d.tact → Acting c.disk d t.disk d' →
      t.transfers = putTransfer d' c.transfers → t.nextAddr = c.nextAddr → TransferStep c t

theorem Wanes.refl (ts : List Transfer) : Wanes ts ts :=
  fun d hd => ⟨d, hd, .refl d, id, .inl rfl⟩

theorem wanes_closeall (k : Disk) (ts : List Transfer) : Wanes ts (transferCloseall k ts).2 := by
  intro u hu
  obtain ⟨v, hv, rfl⟩ := List.mem_map.mp hu
  refine ⟨v, hv, ?_⟩
  split
  · exact ⟨⟨rfl, rfl, rfl, rfl⟩, id, .inr rfl⟩
  · exact ⟨.refl v, id, .inl rfl⟩

theorem wanes_remove (mask : RemoveMask) (k : Disk) (ts : List Transfer) :
    (transferRemove mask k ts).1.cwd = k.cwd ∧
      Grown TransferAct.Silent k.log (transferRemove mask k ts).1.log ∧
      Wanes ts (transferRemove mask k ts).2 := by
  induction ts generalizing k with
  | nil => exact ⟨rfl, .refl _ _, .refl []⟩
  | cons t ts ih =>
      unfold transferRemove
      split
      · obtain ⟨hcwd, hlog, hts⟩ := ih (transferInvalidate k t).1
        refine ⟨hcwd, ((Grown.refl _ k.log).cons ⟨rfl, fun _ _ => trivial⟩).trans hlog, ?_⟩
        intro u hu
        rcases List.mem_cons.mp hu with rfl | hu
        · exact ⟨t, List.mem_cons_self, ⟨rfl, rfl, rfl, rfl⟩,
            fun h => absurd h (Int.lt_irrefl 0), .inr rfl⟩
        · obtain ⟨v, hv, hrest⟩ := hts u hu
          exact ⟨v, List.mem_cons_of_mem _ hv, hrest⟩
      · obtain ⟨hcwd, hlog, hts⟩ := ih k
        refine ⟨hcwd, hlog, ?_⟩
        intro u hu
        rcases List.mem_cons.mp hu with rfl | hu
        · exact ⟨u, List.mem_cons_self, .refl u, id, .inl rfl⟩
        · obtain ⟨v, hv, hrest⟩ := hts u hu
          exact ⟨v, List.mem_cons_of_mem _ hv, hrest⟩

namespace TransferStep

variable {env : CltEnv} {c t : Clt} {m : Mbuf}

theorem same (hdisk : t.disk = c.disk) (hts : t.transfers = c.transfers)
    (hnext : t.nextAddr = c.nextAddr) : TransferStep c t := by
  refine .idle (congrArg Disk.cwd hdisk) ?_ ?_ hnext
  · rw [hdisk]
    exact .refl _ _
  · rw [hts]
    exact .refl _

/-- The time of last activity is renewed. -/
theorem renewed {d : Transfer} {now : Int} (hd : d ∈ c.transfers) (hlive : 0 < d.tact)
    (hdisk : t.disk = c.disk) (hts : t.transfers = putTransfer { d with tact := now } c.transfers)
    (hnext : t.nextAddr = c.nextAddr) : TransferStep c t := by
  refine .acted hd hlive ?_ hts hnext
  rw [hdisk]
  exact .fields ⟨rfl, rfl, rfl, rfl⟩ (.inl rfl)

/-- An entry is written back after what was done for it. -/
theorem put {d d' : Transfer} {k : Disk} (hd : d ∈ c.transfers) (hlive : 0 < d.tact)
    (hact : Acting c.disk d k d') : TransferStep c (c.put k d') := .acted hd hlive hact rfl rfl

theorem disc (c : Clt) : TransferStep c c.disc :=
  .idle rfl (.refl _ _) (wanes_closeall c.disk c.transfers) rfl

/-- What is put into the send queue does not matter. -/
theorem queued {c₁ : Clt} {new : List Mbuf} (h : TransferStep c c₁) :
    TransferStep c { c₁ with q := c₁.q ++ new } := by
  cases h with
  | idle hcwd hlog hts hnext => exact .idle hcwd hlog hts hnext
  | entered hcwd hlog haddr hopen hts hnext => exact .entered hcwd hlog haddr hopen hts hnext
  | acted hd hlive hact hts hnext => exact .acted hd hlive hact hts hnext

/-- The step starts where another one has left the transfers alone. -/
theorem after {c₁ : Clt} (h : TransferStep c₁ t) (hsame : Clt.SameTable c c₁) :
    TransferStep c t := by
  obtain ⟨hdisk, hts, hnext⟩ := hsame
  cases h with
  | idle h₁ h₂ h₃ h₄ =>
      rw [hdisk] at h₁ h₂
      rw [hts] at h₃
      exact .idle h₁ h₂ h₃ (h₄.trans hnext)
  | entered h₁ h₂ h₃ h₄ h₅ h₆ =>
      rw [hdisk] at h₁ h₂
      rw [hnext] at h₂ h₃ h₆
      rw [hts] at h₅
      exact .entered h₁ h₂ h₃ h₄ h₅ h₆
  | acted h₁ h₂ h₃ h₄ h₅ =>
      rw [hts] at h₁ h₄
      rw [hdisk] at h₃
      exact .acted h₁ h₂ h₃ h₄ (h₅.trans hnext)

/-- Serving an offer is done for this offer. -/
theorem getfileReq {a : Clt.Answer} (h : Clt.processGetfileReq env c m = some (t, a)) :
    TransferStep c t := by
  unfold Clt.processGetfileReq at h
  split at h
  · cases h
    exact .same rfl rfl rfl
  · simp only at h
    split at h
    · cases h
      exact .same rfl rfl rfl
    · rename_i o hmatch
      obtain ⟨u, hu, hum, rfl⟩ := transferMatch_eq_some hmatch
      have hrenew : Acting c.disk u c.disk { u with tact := env.now } :=
        .fields ⟨rfl, rfl, rfl, rfl⟩ (.inl rfl)
      split at h
      · obtain ⟨rfl, -⟩ := Clt.getfileResponse_spec h
        exact .put hu hum.2.2.2
          ((hrenew.trans .invalidate).trans (.fields ⟨rfl, rfl, rfl, rfl⟩ (.inl rfl)))
      · split at h
        · cases h
        · rename_i hread
          cases h
          exact .put hu hum.2.2.2 (hrenew.trans (offerRead_acting hum.1.symm hread))
        · rename_i hread
          obtain ⟨rfl, -⟩ := Clt.getfileResponse_spec h
          exact .put hu hum.2.2.2 ((hrenew.trans (offerRead_acting hum.1.symm hread)).trans
            (.fields ⟨rfl, rfl, rfl, rfl⟩ (.inl rfl)))

theorem offerRes {a : Clt.Answer} (h : Clt.processOfferRes env c m = some (t, a)) :
    TransferStep c t := by
  unfold Clt.processOfferRes at h
  split at h
  · cases h
    exact .same rfl rfl rfl
  · split at h
    · cases h
      exact .same rfl rfl rfl
    · rename_i o hmatch
      obtain ⟨u, hu, hum, rfl⟩ := transferMatch_eq_some hmatch
      cases h
      exact .renewed hu hum.2.2.2 rfl rfl rfl

/-- A complete message. -/
theorem message (hm : 40 ≤ m.bsize)
    (h : Clt.processSrvmsg env { c with rbuf := none } m = some t) : TransferStep c t := by
  by_cases hres : hdrGetType m = MsgType.code .getfileRes
  · obtain ⟨hnext, ⟨-, hdisk, hsame | ⟨d, hd, hlive, hts⟩⟩ | ⟨d, data, hd, hdisk, hts⟩⟩ :=
      Clt.processSrvmsg_response hm hres h
    · exact .same hdisk hsame hnext
    · exact .renewed hd hlive hdisk hts hnext
    · obtain ⟨hmem, htype, hlive⟩ := Clt.responseTo_mem hd
      refine .acted hmem hlive ?_ hts hnext
      rw [hdisk]
      have hrenew : Acting c.disk d c.disk { d with tact := env.now } :=
        .fields ⟨rfl, rfl, rfl, rfl⟩ (.inl rfl)
      exact hrenew.trans (receiveData_acting env (d := { d with tact := env.now }) htype data)
  · by_cases hoffer : hdrGetType m = MsgType.code .offerReq ∧ c.st = .authOk
    · obtain ⟨⟨hdisk, hts⟩, hnext⟩ := Clt.processSrvmsg_offered hm hoffer.1 hoffer.2 h
      obtain ⟨acts, hlog, hown⟩ := (Clt.enterOffer_onEntry env c m).log
      refine .entered ?_ ⟨acts, ?_, fun a ha => (hown a ha).1⟩
        (Clt.enterOffer_onEntry env c m).addr ?_ hts hnext
      · rw [hdisk]
        exact (Clt.enterOffer_onEntry env c m).cwd
      · rw [hdisk]
        exact hlog
      · rw [hdisk]
        exact enterOffer_opened env c m
    · rcases Clt.processSrvmsg_handled hm h with ⟨-, rfl⟩ | ⟨c₁, c₂, a, new, hsol, hdisp, rfl⟩
      · exact .same rfl rfl rfl
      · obtain ⟨⟨hdisk, hts, hnext⟩, -, hst, -, -⟩ := Clt.solicited_spec hsol
        refine .queued ?_
        have hstep : TransferStep c₁ c₂ := by
          rcases Clt.dispatchSrvmsg_table hdisp with
            htable | ⟨htype, hproc⟩ | ⟨-, hproc⟩ | ⟨-, hproc⟩ | ⟨htype, -⟩
          · exact .same htable.1 htable.2.1 htable.2.2
          · unfold Clt.processOfferReq at hproc
            rw [if_neg fun hauth => hoffer ⟨htype, hst.symm.trans hauth⟩] at hproc
            cases hproc
            exact .same rfl rfl rfl
          · exact .getfileReq hproc
          · exact .offerRes hproc
          · exact absurd htype hres
        exact hstep.after ⟨hdisk, hts, hnext⟩

/-- A new offer has no descriptor. -/
theorem offerNew_entry {k : Disk} {addr : Nat} {dest oid : UInt64} {filename : Bytes}
    {o : Transfer} (h : offerNew env.toSysEnv k addr dest oid filename = some o) :
    o.addr = addr ∧ o.fd = -1 := by
  obtain ⟨fsz, -, rfl⟩ := Option.map_eq_some_iff.mp h
  exact ⟨rfl, rfl⟩

/-- A command other than `cd`. -/
theorem command {cmd : CltCmd} (hcd : ∀ dir, cmd ≠ .cd dir)
    (h : Clt.runCmd env c cmd = some t) : TransferStep c t := by
  -- A request goes into the queue; the entries are those from before it.
  have hsend : ∀ (c₁ : Clt) {type : MsgType} {dstid : UInt64} {l : List (MsgAttrib × AttrArg)},
      TransferStep c c₁ → Clt.request env c₁ type dstid l = some t → TransferStep c t := by
    intro c₁ type dstid l hstep h
    obtain ⟨r, -, rfl⟩ := Option.map_eq_some_iff.mp h
    obtain ⟨new, ht, -⟩ := Clt.submit_spec c₁ r
    rw [ht]
    exact hstep.queued
  have hself : TransferStep c c := .same rfl rfl rfl
  cases cmd with
  | cd dir => exact absurd rfl (hcd dir)
  | accept rid oid =>
      rcases Clt.cmdAccept_downloads h with ⟨-, rfl⟩ | ⟨d, k, d', ok, new, hfind, hstart, rfl⟩
      · exact hself
      · have hm := matches_of_find hfind
        have hsel : Acting c.disk d (c.disk.note (.accepted d.addr)) { d with tact := env.now } :=
          (Acting.note (a := .accepted d.addr) rfl trivial rfl).trans
            (.fields ⟨rfl, rfl, rfl, rfl⟩ (.inl rfl))
        have hact := startDownload_acting env (k := c.disk.note (.accepted d.addr))
          (d := { d with tact := env.now }) hm.1.symm
        rw [hstart] at hact
        exact .queued (.put (List.mem_of_find?_eq_some hfind) hm.2.2.2 (hsel.trans hact))
  | offer dest filename =>
      change Clt.cmdOffer env c dest filename = some t at h
      unfold Clt.cmdOffer at h
      split at h
      · cases h
        exact hself
      · split at h
        · cases h
          exact hself
        · rename_i o ho
          obtain ⟨haddr, hfd⟩ := offerNew_entry ho
          refine hsend (c.push c.disk o) (.entered rfl (.refl _ _) haddr ?_ rfl rfl) h
          rw [hfd]
          exact fun h0 => absurd h0 (by decide)
  | remove mask =>
      cases h
      obtain ⟨hcwd, hlog, hts⟩ := wanes_remove mask c.disk c.transfers
      exact .idle hcwd hlog hts rfl
  | connect fd =>
      cases h
      cases fd with
      | none => exact .same rfl rfl rfl
      | some n => exact .same rfl rfl rfl
  | disconnect =>
      cases h
      unfold Clt.cmdDisconnect
      split
      · exact .disc c
      · exact .same rfl rfl rfl
  | exit => cases h
  | login user password =>
      change Clt.cmdLogin env c user password = some t at h
      unfold Clt.cmdLogin at h
      cases password with
      | none => exact hsend c hself h
      | some p => exact hsend { c with pubkey := some p } (.same rfl rfl rfl) h
  | logout => exact hsend c hself h
  | register password => exact hsend c hself h
  | drop => exact hsend c hself h
  | ping dest notice => exact hsend c hself h
  | peerlist => exact hsend c hself h

theorem write {res : WriteRes} (h : Clt.writeSrv c res = some t) : TransferStep c t := by
  unfold Clt.writeSrv at h
  split at h
  · cases h
  · split at h
    · cases h
      exact .disc c
    · cases h
      exact .same rfl rfl rfl
    · cases h
      split
      · unfold Clt.dequeueMsg
        simp only
        split <;> exact .same rfl rfl rfl
      · exact .same rfl rfl rfl

/-- Entries past their time go. -/
theorem upkeep (env : CltEnv) (c : Clt) : TransferStep c (Clt.upkeep env c) := by
  have hwanes : Wanes c.transfers
      (transferUpkeep env.now c.cfg.offerTimeout c.disk c.transfers).2 :=
    fun u hu => ⟨u, (List.mem_filter.mp hu).1, .refl u, id, .inl rfl⟩
  unfold Clt.upkeep
  split
  · exact .idle rfl (.refl _ _) hwanes rfl
  · exact .idle rfl (.refl _ _) hwanes rfl

end TransferStep

/-- **Every step of the client** but a change of the directory is one of these. -/
theorem cltStep_transfers {c t : Clt} {e : CltEvent} (hc : RecvOk c.rbuf)
    (hcd : ∀ dir env, e ≠ .cmd (.cd dir) env) (h : cltStep c e = some t) : TransferStep c t := by
  cases e with
  | cmd cmd env => exact .command (fun dir heq => hcd dir env (heq ▸ rfl)) h
  | write res => exact .write h
  | upkeep env =>
      cases h
      exact .upkeep env c
  | outside fs =>
      cases h
      exact .idle rfl (.refl _ _) (.refl _) rfl
  | read res env =>
      cases hmsg : (CltEvent.read res env).message c with
      | some p =>
          obtain ⟨env', m⟩ := p
          obtain ⟨hm, hproc⟩ := cltStep_message hc hmsg h
          exact .message hm hproc
      | none =>
          simp only [CltEvent.message] at hmsg
          change Clt.readSrv env c res = some t at h
          unfold Clt.readSrv at h
          simp only at h
          split at h
          · cases h
            exact (TransferStep.disc { c with rbuf := some (c.rbuf.getD mbufNew) }).after
              ⟨rfl, rfl, rfl⟩
          · cases h
            exact .same rfl rfl rfl
          · cases h
          · cases h
            exact .same rfl rfl rfl
          · rename_i hcomplete
            rw [hcomplete] at hmsg
            cases hmsg

end Frelay
