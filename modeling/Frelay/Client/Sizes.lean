import Frelay.Client.Downloads
import Frelay.Client.PartFile

/-!
# Downloads and their announced size

Nothing compares the DATA that arrives with what was asked for or announced.
`download_within_size` says what holds of every download in the runs where the
peers stay within the announced size and `accept` finds no part file that is too
long or has lost what was written to it; `download_exceeds_size` is a peer that
does not stay within it.
-/

namespace Frelay

open Lib

/-! ## Octets written to a file -/

/-- The octets written on behalf of entry `addr` to the file `ino`, since that
was created. -/
def writtenTo : List TransferAct → Nat → Nat → Nat
  | [], _, _ => 0
  | .wrote a n :: l, addr, ino =>
      if a = addr ∧ lastOpened l addr = some ino then writtenTo l addr ino + n
      else writtenTo l addr ino
  | .created a _ i :: l, addr, ino => if a = addr ∧ i = ino then 0 else writtenTo l addr ino
  | _ :: l, addr, ino => writtenTo l addr ino

/-- Actions for other entries write nothing for this one. -/
theorem writtenTo_cons_of_ne {a : TransferAct} {l : List TransferAct} {addr ino : Nat}
    (h : a.addr ≠ addr) : writtenTo (a :: l) addr ino = writtenTo l addr ino := by
  cases a with
  | wrote b n => exact if_neg fun hb => h hb.1
  | created b p i => exact if_neg fun hb => h hb.1
  | _ => rfl

/-- An action that neither opens nor writes. -/
def TransferAct.Idle : TransferAct → Prop
  | .created _ _ _ | .opened _ _ _ | .wrote _ _ => False
  | _ => True

theorem TransferAct.idle_of_not_alters {a : TransferAct} (halt : ¬ a.Alters)
    (hopens : a.opens = none) : a.Idle := by
  cases a with
  | created b p i => cases hopens
  | opened b p i => cases hopens
  | wrote b n => exact halt trivial
  | _ => exact trivial

theorem TransferAct.Idle.opens {a : TransferAct} (h : a.Idle) : a.opens = none := by
  cases a with
  | created b p i => exact h.elim
  | opened b p i => exact h.elim
  | _ => rfl

theorem writtenTo_cons_of_idle {a : TransferAct} {l : List TransferAct} {addr ino : Nat}
    (h : a.Idle) : writtenTo (a :: l) addr ino = writtenTo l addr ino := by
  cases a with
  | wrote b n => exact h.elim
  | created b p i => exact h.elim
  | _ => rfl

/-- What has been done for entry `addr` looks the same in the log `l'` as in `l`. -/
def SameFor (addr : Nat) (l l' : List TransferAct) : Prop :=
  lastOpened l' addr = lastOpened l addr ∧ ∀ ino, writtenTo l' addr ino = writtenTo l addr ino

theorem SameFor.refl (addr : Nat) (l : List TransferAct) : SameFor addr l l := ⟨rfl, fun _ => rfl⟩

theorem SameFor.trans {addr : Nat} {l l' l'' : List TransferAct} (h₁ : SameFor addr l l')
    (h₂ : SameFor addr l' l'') : SameFor addr l l'' :=
  ⟨h₂.1.trans h₁.1, fun ino => (h₂.2 ino).trans (h₁.2 ino)⟩

theorem SameFor.cons {a : TransferAct} {addr : Nat} (l : List TransferAct)
    (h : a.addr = addr → a.Idle) : SameFor addr l (a :: l) := by
  by_cases haddr : a.addr = addr
  · refine ⟨?_, fun ino => writtenTo_cons_of_idle (h haddr)⟩
    rw [lastOpened, if_pos haddr, (h haddr).opens, Option.none_or]
  · exact ⟨by rw [lastOpened, if_neg haddr], fun ino => writtenTo_cons_of_ne haddr⟩

theorem SameFor.of_grown {P : TransferAct → Prop} {addr : Nat} {l l' : List TransferAct}
    (h : Grown P l l') (hP : ∀ a, P a → a.addr = addr → a.Idle) : SameFor addr l l' := by
  obtain ⟨acts, rfl, hacts⟩ := h
  induction acts with
  | nil => exact .refl addr l
  | cons a acts ih =>
      exact (ih fun b hb => hacts b (List.mem_cons_of_mem _ hb)).trans
        (.cons _ (hP a (hacts a List.mem_cons_self)))

/-- Nothing was written for an entry if the log does not say so. -/
theorem writtenTo_eq_zero {l : List TransferAct} {addr : Nat} (h : ∀ n, .wrote addr n ∉ l)
    (ino : Nat) : writtenTo l addr ino = 0 := by
  induction l with
  | nil => rfl
  | cons a l ih =>
      have ih := ih fun n hn => h n (List.mem_cons_of_mem _ hn)
      cases a with
      | wrote b n =>
          have hne : b ≠ addr := by
            rintro rfl
            exact h n List.mem_cons_self
          exact (if_neg fun hb => hne hb.1).trans ih
      | created b p i =>
          simp only [writtenTo]
          split
          · rfl
          · exact ih
      | _ => exact ih

/-! ## Downloads within their size -/

/-- By the log, the download `d` is within its announced size, and its
descriptor is on a file to which no more was written than the offset says. -/
structure WithinSize (log : List TransferAct) (d : Transfer) : Prop where
  offset : d.offset.toNat ≤ d.size.toNat
  written : ∀ ino, writtenTo log d.addr ino ≤ d.size.toNat
  current : 0 ≤ d.fd → ∀ ino, lastOpened log d.addr = some ino →
    writtenTo log d.addr ino ≤ d.offset.toNat

/-- Every download is. -/
def AllWithinSize (c : Clt) : Prop :=
  ∀ d ∈ c.transfers, d.type = .download → WithinSize c.disk.log d

namespace WithinSize

variable {log log' : List TransferAct} {d d' : Transfer}

theorem same (h : WithinSize log d) (hsame : SameFor d.addr log log') : WithinSize log' d where
  offset := h.offset
  written := by
    intro ino
    rw [hsame.2]
    exact h.written ino
  current := by
    intro h0 ino hlast
    rw [hsame.1] at hlast
    rw [hsame.2]
    exact h.current h0 ino hlast

theorem keeps (h : WithinSize log d) (hk : d.Keeps d') : WithinSize log d' where
  offset := by
    rw [hk.extent.1, hk.extent.2]
    exact h.offset
  written := by
    intro ino
    rw [hk.addr, hk.extent.1]
    exact h.written ino
  current := by
    intro h0 ino hlast
    rcases hk.fd with heq | hneg
    · rw [hk.addr] at hlast
      rw [hk.addr, hk.extent.2]
      exact h.current (heq ▸ h0) ino hlast
    · rw [hneg] at h0
      exact absurd h0 (by decide)

/-- A closed entry only has to stay within the size. -/
theorem closed (h : WithinSize log d) (haddr : d'.addr = d.addr) (hsize : d'.size = d.size)
    (hoff : d'.offset.toNat ≤ d.size.toNat) (hfd : d'.fd = -1) : WithinSize log d' where
  offset := by
    rw [hsize]
    exact hoff
  written := by
    intro ino
    rw [haddr, hsize]
    exact h.written ino
  current := by
    intro h0
    rw [hfd] at h0
    exact absurd h0 (by decide)

/-- The time of last activity does not matter. -/
theorem renew (h : WithinSize log d) (now : Int) : WithinSize log { d with tact := now } :=
  ⟨h.offset, h.written, h.current⟩

theorem shut (h : WithinSize log d) : WithinSize log { d with fd := -1 } :=
  h.closed rfl rfl h.offset rfl

/-- Opening the part file. -/
theorem partOpen {k k' : Disk} {fd : Int} (h : WithinSize k.log d) (hopen : PartOpen k d k' fd) :
    WithinSize k'.log { d with fd := fd } := by
  cases hopen with
  | held h0 => exact h
  | created hneg hp hcreate =>
      obtain ⟨r, -, heq⟩ := Option.map_eq_some_iff.mp hcreate
      simp only [Prod.mk.injEq] at heq
      rw [← heq.2]
      refine ⟨h.offset, ?_, ?_⟩
      · intro ino
        simp only [writtenTo]
        split
        · exact Nat.zero_le _
        · exact h.written ino
      · intro _ ino hlast
        simp only [lastOpened, TransferAct.addr, TransferAct.opens, if_true, Option.some_or,
          Option.some.injEq] at hlast
        simp only [writtenTo]
        rw [if_pos ⟨trivial, hlast⟩]
        exact Nat.zero_le _

/-- Writing `n` octets that still fit. -/
theorem wrote {n : Nat} (h : WithinSize log d) (h0 : 0 ≤ d.fd)
    (hfit : d.offset.toNat + n ≤ d.size.toNat) :
    WithinSize (.wrote d.addr n :: log) { d with offset := d.offset + UInt64.ofNat n } := by
  have hsize := d.size.toNat_lt
  have hoff : (d.offset + UInt64.ofNat n).toNat = d.offset.toNat + n := by
    rw [UInt64.toNat_add, UInt64.toNat_ofNat', Nat.mod_eq_of_lt (a := n) (by omega),
      Nat.mod_eq_of_lt (by omega)]
  have hlast : lastOpened (.wrote d.addr n :: log) d.addr = lastOpened log d.addr := by
    simp only [lastOpened, TransferAct.addr, TransferAct.opens, if_true, Option.none_or]
  refine ⟨by rw [hoff]; exact hfit, ?_, ?_⟩
  · intro ino
    simp only [writtenTo]
    split
    · rename_i hcur
      have := h.current h0 ino hcur.2
      omega
    · exact h.written ino
  · intro _ ino hino
    change lastOpened (.wrote d.addr n :: log) d.addr = some ino at hino
    rw [hlast] at hino
    change writtenTo _ _ _ ≤ (d.offset + UInt64.ofNat n).toNat
    rw [hoff]
    simp only [writtenTo]
    rw [if_pos ⟨trivial, hino⟩]
    have := h.current h0 ino hino
    omega

end WithinSize

/-- `download_write` of octets that fit: the offset is moved by the caller. -/
theorem downloadWrite_within (env : SysEnv) {k : Disk} {d : Transfer} {data : Bytes}
    (h : WithinSize k.log d) (hfit : d.offset.toNat + data.length ≤ d.size.toNat) :
    match downloadWrite env k d data with
    | (k', d', true) =>
        WithinSize k'.log { d' with offset := d'.offset + UInt64.ofNat data.length }
    | (k', d', false) => WithinSize k'.log d' := by
  have hopened : ∀ {k₁ : Disk} {fd : Int}, PartOpen k d k₁ fd → 0 ≤ fd := by
    intro k₁ fd hopen
    cases hopen with
    | held h0 => exact h0
    | created _ _ hcreate =>
        obtain ⟨r, hr, heq⟩ := Option.map_eq_some_iff.mp hcreate
        simp only [Prod.mk.injEq] at heq
        rw [← heq.1]
        exact (Files.create_eq_some hr).1
  generalize hr : downloadWrite env k d data = r
  have hcase := hr ▸ downloadWrite_cases env k d data
  cases hcase with
  | shut _ => exact h.shut
  | failed hopen => exact (h.partOpen hopen).shut
  | short hopen _ hlt =>
      exact ((h.partOpen hopen).wrote (hopened hopen) (by simp only; omega)).closed rfl rfl h.offset rfl
  | full hopen _ heq =>
      have := (h.partOpen hopen).wrote (n := data.length) (hopened hopen) hfit
      rw [heq]
      exact this

/-- The part file `accept` finds, if there is one, is no longer than announced,
and no shorter than what this download has put into it. -/
def FoundFits (k : Disk) (d : Transfer) : Prop :=
  d.fd < 0 → ∀ partname ino, d.partname = some partname →
    k.fs.dir (k.path partname) = some ino →
    (k.fs.data ino).length ≤ d.size.toNat ∧ writtenTo k.log d.addr ino ≤ (k.fs.data ino).length

private theorem negFd : ¬ 0 ≤ (-1 : Int) := by decide

/-- Opening the part file that is there. -/
theorem WithinSize.opened {k k₁ : Disk} {d : Transfer} {partname : Bytes} {newFd : Option Int}
    {fd : Int} (h : WithinSize k.log d) (hopen : k.openFile d.addr partname newFd = some (fd, k₁)) :
    WithinSize k₁.log { d with fd := -1 } ∧ ∃ ino, k.fs.dir (k.path partname) = some ino ∧
      k₁.fs.fds fd = some ⟨k.path partname, ino, 0⟩ ∧ k₁.fs.data = k.fs.data ∧
      lastOpened k₁.log d.addr = some ino ∧
      ∀ i, writtenTo k₁.log d.addr i = writtenTo k.log d.addr i := by
  obtain ⟨r, hr, heq⟩ := Option.map_eq_some_iff.mp hopen
  simp only [Prod.mk.injEq] at heq
  obtain ⟨rfl, rfl⟩ := heq
  obtain ⟨-, -, ino, hdir, hfs⟩ := Files.openFile_eq_some hr
  refine ⟨?_, ino, hdir, ?_, ?_, ?_, fun _ => rfl⟩
  · exact ⟨h.offset, h.written, fun h0 => absurd h0 negFd⟩
  · rw [hfs]
    exact Files.attach_self _ _ _
  · rw [hfs]
    rfl
  · simp only [lastOpened, TransferAct.addr, TransferAct.opens, if_true, Option.some_or, hdir,
      Option.getD_some]

/-- The start of a download whose part file fits. -/
theorem startDownload_within (env : CltEnv) {k : Disk} {d : Transfer} (h : WithinSize k.log d)
    (hfits : FoundFits k d) :
    WithinSize (Clt.startDownload env k d).1.log (Clt.startDownload env k d).2.1 := by
  -- The download starts with a write of nothing, which may fail.
  have hwrite : ∀ {k₁ : Disk} {d₁ : Transfer}, WithinSize k₁.log d₁ →
      WithinSize (downloadWrite env.toSysEnv k₁ d₁ []).1.log
        (downloadWrite env.toSysEnv k₁ d₁ []).2.1 := by
    intro k₁ d₁ h₁
    have hempty : d₁.offset.toNat + ([] : Bytes).length ≤ d₁.size.toNat := h₁.offset
    have hspec := downloadWrite_within env.toSysEnv h₁ hempty
    revert hspec
    generalize downloadWrite env.toSysEnv k₁ d₁ [] = r
    obtain ⟨k₂, d₂, ok⟩ := r
    intro hspec
    cases ok with
    | false => exact hspec
    | true =>
        have hoff : d₂.offset + UInt64.ofNat ([] : Bytes).length = d₂.offset := by simp
        have hspec : WithinSize k₂.log
          { d₂ with offset := d₂.offset + UInt64.ofNat ([] : Bytes).length } := hspec
        rw [hoff] at hspec
        exact hspec
  unfold Clt.startDownload
  generalize hr : downloadResume env.toSysEnv k d = r
  have hcase := hr ▸ downloadResume_cases env.toSysEnv k d
  cases hcase with
  | held _ => exact hwrite h
  | absent _ => exact hwrite h.shut
  | stuck _ _ hopen => exact hwrite (WithinSize.same (h.opened hopen).1 (.refl _ _))
  | @resumed partname _ fd k₁ off fs hneg hp hopen hseek =>
      obtain ⟨h₁, ino, hdir, hfd, hdata, hlast, hsame⟩ := h.opened hopen
      obtain ⟨hlen, hwr⟩ := hfits hneg partname ino hp hdir
      obtain ⟨f, hf, hoff, -⟩ := Files.seekEnd_eq hseek
      rw [hfd, Option.some.injEq] at hf
      have hino : off = (k.fs.data ino).length := by rw [hoff, hdata, ← hf]
      have hsize := d.size.toNat_lt
      have hnat : (UInt64.ofNat off).toNat = (k.fs.data ino).length := by
        rw [UInt64.toNat_ofNat', hino, Nat.mod_eq_of_lt (by omega)]
      refine ⟨?_, h₁.written, ?_⟩
      · change (UInt64.ofNat off).toNat ≤ _
        rw [hnat]
        exact hlen
      · intro _ i hi
        change lastOpened k₁.log d.addr = some i at hi
        change writtenTo k₁.log d.addr i ≤ (UInt64.ofNat off).toNat
        rw [hlast, Option.some.injEq] at hi
        rw [hsame, hnat, ← hi]
        exact hwr

/-- An empty DATA attribute neither opens nor writes. -/
theorem receiveData_nil_same (env : CltEnv) (k : Disk) (d : Transfer) :
    SameFor d.addr k.log (Clt.receiveData env k d []).1.log := by
  have hend : SameFor d.addr k.log (transferInvalidate
      (k.note (if d.offset = d.size then .finished d.addr else .premature d.addr)) d).1.log := by
    refine SameFor.trans (.cons _ fun _ => ?_) (.cons _ fun _ => trivial)
    split <;> exact trivial
  rw [Clt.receiveData, if_pos rfl]
  simp only
  rcases renamePart_cases env (transferInvalidate
      (k.note (if d.offset = d.size then .finished d.addr else .premature d.addr)) d).1 d with
    ⟨-, partname, name, fs, -, -, -, hk⟩ | ⟨-, hk⟩
  · rw [hk]
    exact hend.trans (.cons _ fun _ => trivial)
  · rw [hk]
    exact hend

/-- DATA that fits is stored within the size. -/
theorem receiveData_within (env : CltEnv) {k : Disk} {d : Transfer} {data : Bytes}
    (h : WithinSize k.log d) (hfit : d.offset.toNat + data.length ≤ d.size.toNat) :
    WithinSize (Clt.receiveData env k d data).1.log (Clt.receiveData env k d data).2 := by
  by_cases hnil : data = []
  · subst hnil
    have hsame := receiveData_nil_same env k d
    exact (h.same hsame).keeps d.keeps_invalid
  · have hspec := downloadWrite_within env.toSysEnv h hfit
    rw [Clt.receiveData, if_neg hnil]
    revert hspec
    generalize downloadWrite env.toSysEnv k d data = r
    obtain ⟨k₁, d₁, ok⟩ := r
    intro hspec
    cases ok with
    | true => exact hspec
    | false =>
        have hsame : SameFor d₁.addr k₁.log (transferInvalidate k₁ d₁).1.log :=
          .cons _ fun _ => trivial
        exact (hspec.same hsame).keeps d₁.keeps_invalid

/-! ## Steps and runs -/

/-- The peer stays within the announced size, and so does the part file that
`accept` finds. -/
structure FitsSize (c : Clt) (e : CltEvent) : Prop where
  response : ∀ env d data, e.response c = some (env, d, data) →
    d.offset.toNat + data.length ≤ d.size.toNat
  accepting : ∀ env d, e.accepting c = some (env, d) → FoundFits c.disk d

/-- What is done for one entry leaves the others within their size. -/
theorem AllWithinSize.others {w : Prop} {c : Clt} {k : Disk} {d d' u : Transfer}
    (hall : AllWithinSize c) (hon : OnEntry w c.disk d k d') (hu : u ∈ c.transfers)
    (htype : u.type = .download) (hne : u.addr ≠ d.addr) : WithinSize k.log u := by
  obtain ⟨acts, hlog, hown⟩ := hon.log
  have hgrown : Grown (fun a => a.addr = d.addr) c.disk.log k.log :=
    ⟨acts, hlog, fun a ha => (hown a ha).1⟩
  exact (hall u hu htype).same (.of_grown hgrown fun a ha heq => absurd (heq.symm.trans ha) hne)

theorem AllWithinSize.step {c t : Clt} {e : CltEvent} (hc : CltOk c) (hall : AllWithinSize c)
    (hen : e.Enabled c) (h : cltStep c e = some t) (hfits : FitsSize c e) : AllWithinSize t := by
  -- What is done for one download leaves the others as they were.
  have hput : ∀ {w : Prop} {d d' : Transfer} {k : Disk}, OnEntry w c.disk d k d' →
      WithinSize k.log d' → t.disk = k → t.transfers = putTransfer d' c.transfers →
      AllWithinSize t := by
    intro w d d' k hon hd hk hts u hu htype
    rw [hts] at hu
    rw [hk]
    rcases mem_putTransfer hu with rfl | ⟨hu, hne⟩
    · exact hd
    · rw [hon.addr] at hne
      exact hall.others hon hu htype hne
  cases cltStep_downloads hc hen h with
  | still _ hstill =>
      intro d' hd' htype
      obtain ⟨d, hd, hdt, hk⟩ := hstill.shrinks d' hd' htype
      refine ((hall d hd hdt).same (.of_grown hstill.log ?_)).keeps hk
      exact fun a ha haddr => TransferAct.idle_of_not_alters ha.1 (ha.2 d hd hdt haddr)
  | @offered env m p hoff hp ht =>
      have hon := Clt.enterOffer_onEntry env c m
      rw [hp] at hon
      have haddr : p.2.addr = c.nextAddr := hon.addr
      intro u hu htype
      rw [ht.2] at hu
      rw [ht.1]
      rcases List.mem_cons.mp hu with rfl | hu
      · have hzero : p.2.offset = 0 := by
          rw [← hp]
          exact Clt.enterOffer_offset env c m
        -- Nothing was written for an entry that is new.
        have hnever : ∀ n, .wrote p.2.addr n ∉ p.1.log := by
          intro n hn
          obtain ⟨acts, hlog, hown⟩ := hon.log
          rw [hlog] at hn
          rcases List.mem_append.mp hn with hnew | hold
          · exact (hown _ hnew).2 trivial
          · have := hc.inOrder.logged _ hold
            change p.2.addr < c.nextAddr at this
            omega
        refine ⟨?_, ?_, ?_⟩
        · rw [hzero]
          exact Nat.zero_le _
        · intro ino
          rw [writtenTo_eq_zero hnever]
          exact Nat.zero_le _
        · intro _ ino _
          rw [writtenTo_eq_zero hnever]
          exact Nat.zero_le _
      · have := hc.inOrder.below u hu
        refine hall.others hon hu htype ?_
        change u.addr ≠ c.nextAddr
        omega
  | @accepted env d k d' ok hacc hstart ht =>
      obtain ⟨hd, htype, hlive, -⟩ := CltEvent.accepting_mem hacc
      have hnote : SameFor d.addr c.disk.log (c.disk.note (.accepted d.addr)).log :=
        .cons _ fun _ => trivial
      have hstarted := startDownload_within env (k := c.disk.note (.accepted d.addr))
        (d := { d with tact := env.now })
        (((hall d hd htype).same hnote).renew _) (fun h => hfits.accepting env d hacc h)
      have hon := (Clt.startDownload_spec env (c.disk.note (.accepted d.addr))
        { d with tact := env.now }).1
      rw [hstart] at hstarted hon
      have hnoted : OnEntry True c.disk d (c.disk.note (.accepted d.addr)) d :=
        .note rfl (fun _ => trivial) rfl (by simp)
      exact hput (hnoted.trans ((OnEntry.renew env.now hlive).trans hon)) hstarted ht.1 ht.2
  | @answered env d data p hres hp ht =>
      obtain ⟨hd, htype, hlive⟩ := CltEvent.response_mem hres
      have hgot := receiveData_within env (d := { d with tact := env.now }) ((hall d hd htype).renew _)
        (hfits.response env d data hres)
      have hon := Clt.receiveData_onEntry env c.disk { d with tact := env.now } data
      rw [hp] at hgot hon
      exact hput ((OnEntry.renew env.now hlive).trans hon) hgot ht.1 ht.2

end Frelay
