import Frelay.Client.Transfer

/-!
# One entry at a time

Everything `transfer.c` does to an entry of the list leaves the other entries,
their descriptors and what is known about them alone. `OnEntry` says so for any
sequence of operations on one entry, and `TableOk` is what the list as a whole
keeps: every entry is itself, descriptors are not shared, a descriptor leads to
the file last opened on behalf of its entry, and an entry that was invalidated
does not come back to life.

* `offerRead_onEntry`, `downloadWrite_onEntry`, `downloadResume_onEntry`,
  `makeFilenames_onEntry` — the operations of the source;
* `TableOk.put`, `TableOk.push`, … — what the list keeps.
-/

namespace Frelay

open Lib

/-- The entry an action was done for. -/
def TransferAct.addr : TransferAct → Nat
  | .accepted a | .created a _ _ | .opened a _ _ | .wrote a _ | .renamed a _ _
  | .invalidated a | .finished a | .premature a => a

/-- The actions that change files under the names of a download, or report its end. -/
def TransferAct.Alters : TransferAct → Prop
  | .wrote _ _ | .renamed _ _ _ | .finished _ | .premature _ => True
  | _ => False

/-- The file an action opens. -/
def TransferAct.opens : TransferAct → Option Nat
  | .created _ _ i | .opened _ _ i => some i
  | _ => none

/-- The file most recently opened on behalf of an entry. -/
def lastOpened : List TransferAct → Nat → Option Nat
  | [], _ => none
  | a :: l, addr => if a.addr = addr then a.opens.or (lastOpened l addr) else lastOpened l addr

/-- What is known of an entry: its descriptor is open on the file last opened for
it, and once invalidated it matches nothing any more. -/
structure EntryOk (k : Disk) (t : Transfer) : Prop where
  held : 0 ≤ t.fd → ∃ f, k.fs.fds t.fd = some f ∧ lastOpened k.log t.addr = some f.ino
  dead : .invalidated t.addr ∈ k.log → ¬ 0 < t.tact

/-- The operations from `(k, t)` to `(k', t')` concern the entry `t` only; `w`
tells whether they may alter files under its names. -/
structure OnEntry (w : Prop) (k : Disk) (t : Transfer) (k' : Disk) (t' : Transfer) : Prop where
  addr : t'.addr = t.addr
  type : t'.type = t.type
  cwd : k'.cwd = k.cwd
  log : ∃ acts, k'.log = acts ++ k.log ∧ ∀ a ∈ acts, a.addr = t.addr ∧ (a.Alters → w)
  others : ∀ n f, 0 ≤ n → n ≠ t.fd → k.fs.fds n = some f → k'.fs.fds n = some f
  fd : 0 ≤ t'.fd → t'.fd = t.fd ∨ k.fs.fds t'.fd = none
  live : 0 < t'.tact → 0 < t.tact
  ok : EntryOk k t → EntryOk k' t'

namespace OnEntry

variable {w : Prop} {k k' k'' : Disk} {t t' t'' : Transfer}

theorem refl (w : Prop) (k : Disk) (t : Transfer) : OnEntry w k t k t where
  addr := rfl
  type := rfl
  cwd := rfl
  log := ⟨[], rfl, fun _ h => absurd h List.not_mem_nil⟩
  others := fun _ _ _ _ h => h
  fd := fun _ => .inl rfl
  live := id
  ok := id

theorem trans (h₁ : OnEntry w k t k' t') (h₂ : OnEntry w k' t' k'' t'') :
    OnEntry w k t k'' t'' where
  addr := h₂.addr.trans h₁.addr
  type := h₂.type.trans h₁.type
  cwd := h₂.cwd.trans h₁.cwd
  log := by
    obtain ⟨as, has, hown⟩ := h₁.log
    obtain ⟨bs, hbs, hown'⟩ := h₂.log
    refine ⟨bs ++ as, by rw [hbs, has, List.append_assoc], ?_⟩
    intro a ha
    rcases List.mem_append.mp ha with hb | ha
    · obtain ⟨haddr, halt⟩ := hown' a hb
      exact ⟨haddr.trans h₁.addr, halt⟩
    · exact hown a ha
  others := by
    intro n f h0 hne hf
    have hf' := h₁.others n f h0 hne hf
    refine h₂.others n f h0 ?_ hf'
    rintro rfl
    rcases h₁.fd h0 with heq | hnone
    · exact hne heq
    · rw [hnone] at hf
      cases hf
  fd := by
    intro h0
    rcases h₂.fd h0 with heq | hnone
    · rw [heq] at h0 ⊢
      exact h₁.fd h0
    · by_cases hne : t''.fd = t.fd
      · exact .inl hne
      · refine .inr ?_
        cases hf : k.fs.fds t''.fd with
        | none => rfl
        | some f =>
            rw [h₁.others _ f h0 hne hf] at hnone
            cases hnone
  live := fun h => h₁.live (h₂.live h)
  ok := fun h => h₂.ok (h₁.ok h)

theorem mono {v : Prop} (hw : w → v) (h : OnEntry w k t k' t') : OnEntry v k t k' t' where
  addr := h.addr
  type := h.type
  cwd := h.cwd
  log := by
    obtain ⟨acts, hlog, hown⟩ := h.log
    exact ⟨acts, hlog, fun a ha => ⟨(hown a ha).1, fun halt => hw ((hown a ha).2 halt)⟩⟩
  others := h.others
  fd := h.fd
  live := h.live
  ok := h.ok

end OnEntry

/-! ## Steps on one entry -/

section Steps

variable {w : Prop} {k : Disk} {t : Transfer}

private theorem noFd : ¬ 0 ≤ (-1 : Int) := by decide

/-- Fields other than the descriptor and the time of last activity may be set freely. -/
theorem OnEntry.fields {t' : Transfer} (haddr : t'.addr = t.addr) (htype : t'.type = t.type)
    (hfd : t'.fd = t.fd) (hlive : 0 < t'.tact → 0 < t.tact) : OnEntry w k t k t' where
  addr := haddr
  type := htype
  cwd := rfl
  log := ⟨[], rfl, fun _ h => absurd h List.not_mem_nil⟩
  others := fun _ _ _ _ h => h
  fd := fun _ => .inl hfd
  live := hlive
  ok := by
    intro h
    refine ⟨?_, ?_⟩
    · rw [hfd, haddr]
      exact h.held
    · rw [haddr]
      exact fun hmem hpos => h.dead hmem (hlive hpos)

/-- A note about the entry, when it opens nothing and invalidates nothing. -/
theorem OnEntry.note {a : TransferAct} (haddr : a.addr = t.addr) (halt : a.Alters → w)
    (hopens : a.opens = none) (hinv : a ≠ .invalidated t.addr) :
    OnEntry w k t (k.note a) t where
  addr := rfl
  type := rfl
  cwd := rfl
  log := by
    refine ⟨[a], rfl, ?_⟩
    intro b hb
    rw [List.mem_singleton.mp hb]
    exact ⟨haddr, halt⟩
  others := fun _ _ _ _ h => h
  fd := fun _ => .inl rfl
  live := id
  ok := by
    intro h
    refine ⟨?_, ?_⟩
    · intro h0
      obtain ⟨f, hf, hlast⟩ := h.held h0
      refine ⟨f, hf, ?_⟩
      change (if a.addr = t.addr then a.opens.or (lastOpened k.log t.addr) else _) = _
      rw [if_pos haddr, hopens, Option.none_or, hlast]
    · intro hmem
      rcases List.mem_cons.mp hmem with heq | hmem
      · exact absurd heq.symm hinv
      · exact h.dead hmem

/-- The files change, but no descriptor other than that of the entry, which at
most moves its position. -/
theorem OnEntry.files {fs : Files Bytes UInt8}
    (hothers : ∀ n f, 0 ≤ n → n ≠ t.fd → k.fs.fds n = some f → fs.fds n = some f)
    (hself : ∀ f, k.fs.fds t.fd = some f → ∃ f', fs.fds t.fd = some f' ∧ f'.ino = f.ino) :
    OnEntry w k t { k with fs := fs } t where
  addr := rfl
  type := rfl
  cwd := rfl
  log := ⟨[], rfl, fun _ h => absurd h List.not_mem_nil⟩
  others := hothers
  fd := fun _ => .inl rfl
  live := id
  ok := by
    intro h
    refine ⟨?_, h.dead⟩
    intro h0
    obtain ⟨f, hf, hlast⟩ := h.held h0
    obtain ⟨f', hf', hino⟩ := hself f hf
    exact ⟨f', hf', by rw [hino]; exact hlast⟩

/-- The position of the descriptor of the entry moves. -/
theorem OnEntry.seek {f : OpenFile Bytes} {pos : Nat} (hf : k.fs.fds t.fd = some f) :
    OnEntry w k t { k with fs := k.fs.attach t.fd { f with pos := pos } } t := by
  refine OnEntry.files ?_ ?_
  · intro n g _ hne hg
    rw [Files.attach_of_ne _ _ hne, hg]
  · intro g hg
    refine ⟨{ f with pos := pos }, Files.attach_self _ _ _, ?_⟩
    rw [hf] at hg
    cases hg
    rfl

/-- The entry gives up its descriptor. -/
theorem OnEntry.close : OnEntry w k t (k.close t.fd) { t with fd := -1 } where
  addr := rfl
  type := rfl
  cwd := rfl
  log := ⟨[], rfl, fun _ h => absurd h List.not_mem_nil⟩
  others := by
    intro n f _ hne hf
    change (k.fs.close t.fd).fds n = some f
    rw [Files.close_of_ne _ hne, hf]
  fd := fun h => absurd h noFd
  live := id
  ok := fun h => ⟨fun h0 => absurd h0 noFd, h.dead⟩

/-- `transfer_invalidate` concerns its entry only. -/
theorem OnEntry.invalidate :
    OnEntry w k t (transferInvalidate k t).1 (transferInvalidate k t).2 where
  addr := rfl
  type := rfl
  cwd := rfl
  log := by
    refine ⟨[.invalidated t.addr], rfl, ?_⟩
    intro a ha
    rw [List.mem_singleton.mp ha]
    exact ⟨rfl, fun h => h.elim⟩
  others := by
    intro n f _ hne hf
    change (k.fs.close t.fd).fds n = some f
    rw [Files.close_of_ne _ hne, hf]
  fd := fun h => absurd h noFd
  live := fun h => absurd h (Int.lt_irrefl 0)
  ok := fun _ => ⟨fun h0 => absurd h0 noFd, fun _ => Int.lt_irrefl 0⟩

/-- A file is opened, and its descriptor given to the entry. -/
theorem OnEntry.opened {k' : Disk} {name : Bytes} {fd : Option Int} {n : Int}
    (h : k.openFile t.addr name fd = some (n, k')) : OnEntry w k t k' { t with fd := n } := by
  obtain ⟨⟨n', fs⟩, hopen, heq⟩ := Option.map_eq_some_iff.mp h
  simp only [Prod.mk.injEq] at heq
  obtain ⟨rfl, rfl⟩ := heq
  obtain ⟨h0, hfree, i, hdir, rfl⟩ := Files.openFile_eq_some hopen
  exact
    { addr := rfl
      type := rfl
      cwd := rfl
      log := by
        refine ⟨[.opened t.addr (k.path name) ((k.fs.dir (k.path name)).getD 0)], rfl, ?_⟩
        intro a ha
        rw [List.mem_singleton.mp ha]
        exact ⟨rfl, fun h => h.elim⟩
      others := by
        intro m f _ _ hf
        have hne : m ≠ n' := by
          rintro rfl
          rw [hfree] at hf
          cases hf
        change (k.fs.attach n' _).fds m = some f
        rw [Files.attach_of_ne _ _ hne, hf]
      fd := fun _ => .inr hfree
      live := id
      ok := by
        intro hok
        refine ⟨fun _ => ⟨_, Files.attach_self _ _ _, ?_⟩, ?_⟩
        · change (if t.addr = t.addr then _ else _) = _
          rw [if_pos rfl, hdir]
          rfl
        · intro hmem
          rcases List.mem_cons.mp hmem with heq | hmem
          · cases heq
          · exact hok.dead hmem }

/-- A file is created, and its descriptor given to the entry. -/
theorem OnEntry.created {k' : Disk} {name : Bytes} {fd : Option Int} {n : Int}
    (h : k.create t.addr name fd = some (n, k')) : OnEntry w k t k' { t with fd := n } := by
  obtain ⟨⟨n', fs⟩, hopen, heq⟩ := Option.map_eq_some_iff.mp h
  simp only [Prod.mk.injEq] at heq
  obtain ⟨rfl, rfl⟩ := heq
  obtain ⟨h0, hfree, hdir, rfl⟩ := Files.create_eq_some hopen
  exact
    { addr := rfl
      type := rfl
      cwd := rfl
      log := by
        refine ⟨[.created t.addr (k.path name) k.fs.next], rfl, ?_⟩
        intro a ha
        rw [List.mem_singleton.mp ha]
        exact ⟨rfl, fun h => h.elim⟩
      others := by
        intro m f _ _ hf
        have hne : m ≠ n' := by
          rintro rfl
          rw [hfree] at hf
          cases hf
        simp [hne, hf]
      fd := fun _ => .inr hfree
      live := id
      ok := by
        intro hok
        refine ⟨fun _ => ⟨_, Function.update_self _ _ _, ?_⟩, ?_⟩
        · change (if t.addr = t.addr then _ else _) = _
          rw [if_pos rfl]
          rfl
        · intro hmem
          rcases List.mem_cons.mp hmem with heq | hmem
          · cases heq
          · exact hok.dead hmem }

/-- The entry forgets its descriptor. -/
theorem OnEntry.forget : OnEntry w k t k { t with fd := -1 } where
  addr := rfl
  type := rfl
  cwd := rfl
  log := ⟨[], rfl, fun _ h => absurd h List.not_mem_nil⟩
  others := fun _ _ _ _ h => h
  fd := fun h => absurd h noFd
  live := id
  ok := fun h => ⟨fun h0 => absurd h0 noFd, h.dead⟩

/-- A descriptor that was free before and is not the entry's may be closed again. -/
theorem OnEntry.closeNew {k' : Disk} {t' : Transfer} {n : Int} (h : OnEntry w k t k' t')
    (hfree : k.fs.fds n = none) (hne : n ≠ t'.fd) : OnEntry w k t (k'.close n) t' where
  addr := h.addr
  type := h.type
  cwd := h.cwd
  log := h.log
  others := by
    intro m f h0 hm hf
    have hmn : m ≠ n := by
      rintro rfl
      rw [hfree] at hf
      cases hf
    change (k'.fs.close n).fds m = some f
    rw [Files.close_of_ne _ hmn, h.others m f h0 hm hf]
  fd := h.fd
  live := h.live
  ok := by
    intro hok
    have hok' := h.ok hok
    refine ⟨?_, hok'.dead⟩
    intro h0
    obtain ⟨f, hf, hlast⟩ := hok'.held h0
    refine ⟨f, ?_, hlast⟩
    change (k'.fs.close n).fds t'.fd = some f
    rw [Files.close_of_ne _ (Ne.symm hne), hf]

end Steps

/-! ## The operations of the source -/

section Operations

variable {w : Prop} (env : SysEnv) (k : Disk)

theorem offerOpen_onEntry (o : Transfer) :
    OnEntry w k o (offerOpen env k o).1 (offerOpen env k o).2 := by
  unfold offerOpen
  split
  · exact .refl _ _ _
  · split
    · rename_i fd k' hopen
      obtain ⟨name, -, hopen⟩ := Option.bind_eq_some_iff.mp hopen
      exact .opened hopen
    · exact .forget

/-- `offer_read` concerns its entry only, and alters nothing. -/
theorem offerRead_onEntry {o : Transfer} {off size : UInt64} {k' : Disk} {o' : Transfer}
    {data : Option Bytes} (h : offerRead env k o off size = some (k', o', data)) :
    OnEntry False k o k' o' := by
  have hopen := offerOpen_onEntry (w := False) env k o
  unfold offerRead at h
  revert h hopen
  generalize offerOpen env k o = r
  obtain ⟨k₁, o₁⟩ := r
  intro h hopen
  simp only at h hopen
  split at h
  · simp only [Option.some.injEq, Prod.mk.injEq] at h
    obtain ⟨rfl, rfl, -⟩ := h
    exact hopen
  · split at h
    · simp only [Option.some.injEq, Prod.mk.injEq] at h
      obtain ⟨rfl, rfl, -⟩ := h
      exact hopen
    · rename_i fs hseek
      have hpos : OnEntry False k₁ o₁ { k₁ with fs := fs } o₁ := by
        split at hseek
        · obtain ⟨f, hf, rfl⟩ := Option.map_eq_some_iff.mp hseek
          exact .seek hf
        · cases hseek
      split at h
      · cases h
      · split at h
        · simp only [Option.some.injEq, Prod.mk.injEq] at h
          obtain ⟨rfl, rfl, -⟩ := h
          exact (hopen.trans hpos).trans .close
        · simp only [Option.some.injEq, Prod.mk.injEq] at h
          obtain ⟨rfl, rfl, -⟩ := h
          exact (hopen.trans hpos).trans .close
        · rename_i bs fs' hne hread
          simp only [Option.some.injEq, Prod.mk.injEq] at h
          obtain ⟨rfl, rfl, -⟩ := h
          obtain ⟨count, -, hread⟩ := Option.bind_eq_some_iff.mp hread
          obtain ⟨f, hf, -, -, -, rfl⟩ := Files.read_eq hread
          exact (hopen.trans hpos).trans (.seek (k := { k₁ with fs := fs }) hf)

theorem downloadOpen_onEntry (d : Transfer) :
    OnEntry w k d (downloadOpen env k d).1 (downloadOpen env k d).2 := by
  unfold downloadOpen
  split
  · exact .refl _ _ _
  · split
    · rename_i fd k' hopen
      obtain ⟨name, -, hopen⟩ := Option.bind_eq_some_iff.mp hopen
      exact .created hopen
    · exact .forget

/-- `write` through the descriptor of an entry. -/
theorem OnEntry.write {t : Transfer} {data : Bytes} {count n : Nat} {fs : Files Bytes UInt8}
    (h : k.fs.write t.fd data count = some (n, fs)) :
    OnEntry True k t { k with fs := fs, log := .wrote t.addr n :: k.log } t := by
  obtain ⟨f, hf, heq⟩ := Option.map_eq_some_iff.mp h
  simp only [Prod.mk.injEq] at heq
  obtain ⟨-, rfl⟩ := heq
  have hfiles : OnEntry True k t
      { k with
        fs := { k.fs.attach t.fd { f with pos := f.pos + (data.take count).length } with
          data := Function.update k.fs.data f.ino
            (splice (k.fs.data f.ino) f.pos (data.take count)) } } t := by
    refine .files ?_ ?_
    · intro m g _ hne hg
      change (k.fs.attach t.fd _).fds m = some g
      rw [Files.attach_of_ne _ _ hne, hg]
    · intro g hg
      refine ⟨_, Files.attach_self _ _ _, ?_⟩
      rw [hf] at hg
      cases hg
      rfl
  exact hfiles.trans (.note (a := .wrote t.addr n) rfl (fun _ => trivial) rfl (by simp))

/-- `download_write` concerns its entry only. -/
theorem downloadWrite_onEntry (d : Transfer) (data : Bytes) :
    OnEntry True k d (downloadWrite env k d data).1 (downloadWrite env k d data).2.1 := by
  have hopen := downloadOpen_onEntry (w := True) env k d
  unfold downloadWrite
  revert hopen
  generalize downloadOpen env k d = r
  obtain ⟨k₁, d₁⟩ := r
  intro hopen
  simp only at hopen ⊢
  split
  · exact hopen
  · split
    · exact hopen.trans .close
    · rename_i n fs hwrite
      obtain ⟨count, -, hwrite⟩ := Option.bind_eq_some_iff.mp hwrite
      have hw := hopen.trans (OnEntry.write k₁ hwrite)
      split
      · exact hw.trans .close
      · exact hw

/-- `download_resume` concerns its entry only, and alters nothing. -/
theorem downloadResume_onEntry (d : Transfer) :
    OnEntry False k d (downloadResume env k d).1 (downloadResume env k d).2.1 := by
  unfold downloadResume
  split
  · exact .refl _ _ _
  · split
    · exact .forget
    · rename_i fd k' hopen
      obtain ⟨name, -, hopen⟩ := Option.bind_eq_some_iff.mp hopen
      have hopened : OnEntry False k d k' { d with fd := fd } := .opened hopen
      split
      · exact hopened.trans (.close (t := { d with fd := fd }))
      · rename_i off fs hseek
        split at hseek
        · obtain ⟨f, hf, heq⟩ := Option.map_eq_some_iff.mp hseek
          simp only [Prod.mk.injEq] at heq
          obtain ⟨rfl, rfl⟩ := heq
          exact (hopened.trans (.seek (t := { d with fd := fd }) hf)).trans
            (.fields rfl rfl rfl id)
        · cases hseek

/-- The loop of `make_filenames` sets the descriptor of the entry, whatever it was. -/
theorem makeFilenamesFrom_fd (s : Bytes) (n i : Nat) (d : Transfer) :
    makeFilenamesFrom env s n i k d = makeFilenamesFrom env s n i k { d with fd := -1 } := by
  induction n generalizing i k with
  | zero => rfl
  | succ n ih =>
      simp only [makeFilenamesFrom]
      split
      · exact ih k (i + 1)
      · split
        · exact ih _ (i + 1)
        · rfl

private theorem makeFilenamesFrom_onEntry (s : Bytes) (n i : Nat) (d : Transfer)
    (hfd : d.fd < 0) :
    OnEntry False k d (makeFilenamesFrom env s n i k d).1 (makeFilenamesFrom env s n i k d).2 := by
  induction n generalizing i k with
  | zero => exact (OnEntry.forget (t := d)).trans (.fields rfl rfl rfl id)
  | succ n ih =>
      simp only [makeFilenamesFrom]
      split
      · exact ih k (i + 1)
      · rename_i fd0 k₁ hname
        have h₁ : OnEntry False k d k₁ { d with fd := fd0 } := .created hname
        have hfree : 0 ≤ fd0 ∧ k.fs.fds fd0 = none := by
          obtain ⟨r, hr, heq⟩ := Option.map_eq_some_iff.mp hname
          simp only [Prod.mk.injEq] at heq
          obtain ⟨rfl, -⟩ := heq
          exact ⟨(Files.create_eq_some hr).1, (Files.create_eq_some hr).2.1⟩
        split
        · -- The part file exists: the name just created is given up again.
          have h₂ : OnEntry False k d
              { k₁ with fs := k₁.fs.unlink (k₁.path (nameCandidate s i)) } { d with fd := fd0 } :=
            h₁.trans (.files (fun m f _ _ h => h) (fun f h => ⟨f, h, rfl⟩))
          have h₃ := (h₂.trans (.forget (t := { d with fd := fd0 }))).closeNew hfree.2
            (fun h => by
              have := hfree.1
              rw [h] at this
              exact noFd this)
          have hback : OnEntry False k d _ d :=
            { h₃ with
              fd := fun h => absurd h (by omega)
              live := id
              ok := fun hok => ⟨fun h => absurd h (by omega), (h₃.ok hok).dead⟩ }
          exact hback.trans (ih _ (i + 1))
        · rename_i fd1 k₂ hpart
          have h₂ : OnEntry False k d k₂ { d with fd := fd1 } :=
            h₁.trans (.created (t := { d with fd := fd0 }) hpart)
          -- Two descriptors that are open at once.
          have hne : fd0 ≠ fd1 := by
            rintro rfl
            obtain ⟨r, hr, heq⟩ := Option.map_eq_some_iff.mp hname
            simp only [Prod.mk.injEq] at heq
            obtain ⟨rfl, rfl⟩ := heq
            obtain ⟨r', hr', heq⟩ := Option.map_eq_some_iff.mp hpart
            simp only [Prod.mk.injEq] at heq
            have hfds := (Files.create_eq_some hr').2.1
            rw [heq.1, (Files.create_eq_some hr).2.2.2] at hfds
            simp at hfds
          exact (h₂.closeNew hfree.2 hne).trans (.fields rfl rfl rfl id)

/-- `make_filenames` concerns its entry only, and alters nothing. -/
theorem makeFilenames_onEntry (noClobber : Bool) (d : Transfer) (s : Bytes) :
    OnEntry False k d (makeFilenames env noClobber k d s).1
      (makeFilenames env noClobber k d s).2 := by
  unfold makeFilenames
  split
  · rw [makeFilenamesFrom_fd]
    exact OnEntry.forget.trans
      (makeFilenamesFrom_onEntry env k s _ _ { d with fd := -1 } (show (-1 : Int) < 0 by decide))
  · exact .fields rfl rfl rfl id

end Operations

end Frelay
