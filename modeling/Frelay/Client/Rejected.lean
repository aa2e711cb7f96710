import Frelay.Client.Effect
import Frelay.Client.PartFile

/-!
# What a rejected offer leaves behind

An OFFER request is checked when all of its attributes have been read, and by then
`make_filenames` may have created a pair of files. The rejection closes one descriptor and
unlinks nothing.

* `makeFilenamesFrom_fails`, `makeFilenamesFrom_creates` — the search for a pair of names
  leaves no trace, or two files;
* `rejected_clean_iff` — when a rejected offer leaves nothing behind.
-/

namespace Frelay

open Lib

/-! ## Rounds of the search -/

/-- The round `i` of the loop of `make_filenames` can create both of its files: the two
names are not in use, and two descriptors can be had. -/
def PairFree (env : SysEnv) (k : Disk) (s : Bytes) (i : Nat) : Prop :=
  k.fs.dir (k.path (nameCandidate s i)) = none ∧
    k.fs.dir (k.path (nameCandidate s i ++ TXT_PART)) = none ∧
    ∃ fd0 fd1, env.names i = (some fd0, some fd1) ∧ 0 ≤ fd0 ∧ 0 ≤ fd1 ∧ fd0 ≠ fd1 ∧
      k.fs.fds fd0 = none ∧ k.fs.fds fd1 = none

/-- The same names are bound and the same descriptors are open. -/
structure SameNames (k k' : Disk) : Prop where
  dir : k'.fs.dir = k.fs.dir
  fds : k'.fs.fds = k.fs.fds
  cwd : k'.cwd = k.cwd

theorem SameNames.refl (k : Disk) : SameNames k k := ⟨rfl, rfl, rfl⟩

theorem SameNames.trans {k₁ k₂ k₃ : Disk} (h : SameNames k₁ k₂) (h' : SameNames k₂ k₃) :
    SameNames k₁ k₃ := ⟨h'.dir.trans h.dir, h'.fds.trans h.fds, h'.cwd.trans h.cwd⟩

theorem SameNames.pairFree {k k' : Disk} (h : SameNames k k') {env : SysEnv} {s : Bytes} {i : Nat} :
    PairFree env k' s i ↔ PairFree env k s i := by
  rw [PairFree, PairFree, h.dir, h.fds, Disk.path_of_cwd h.cwd]

/-- Every name that is bound stays so. -/
def KeepsNames (k k' : Disk) : Prop := ∀ p, k.fs.dir p ≠ none → k'.fs.dir p ≠ none

theorem SameNames.keeps {k k' : Disk} (h : SameNames k k') : KeepsNames k k' :=
  fun _ hp => h.dir.symm ▸ hp

/-- A file that is created was not there, and nothing else becomes bound or open. -/
theorem create_spec {k k₁ : Disk} {addr : Nat} {name : Bytes} {o : Option Int} {fd : Int}
    (h : k.create addr name o = some (fd, k₁)) :
    o = some fd ∧ 0 ≤ fd ∧ k.fs.fds fd = none ∧ k.fs.dir (k.path name) = none ∧ k₁.cwd = k.cwd ∧
      k₁.fs.dir = Function.update k.fs.dir (k.path name) (some k.fs.next) ∧
      k₁.fs.fds = Function.update k.fs.fds fd (some ⟨k.path name, k.fs.next, 0⟩) := by
  obtain ⟨⟨n, fs⟩, hc, heq⟩ := Option.map_eq_some_iff.mp h
  cases heq
  have ho : o = some n := by
    unfold Files.create at hc
    split at hc
    · split at hc
      · cases hc
        rfl
      · cases hc
    · cases hc
  obtain ⟨hn, hfree, hdir, rfl⟩ := Files.create_eq_some hc
  exact ⟨ho, hn, hfree, hdir, rfl, rfl, rfl⟩

theorem create_keeps {k k₁ : Disk} {addr : Nat} {name : Bytes} {o : Option Int} {fd : Int}
    (h : k.create addr name o = some (fd, k₁)) : KeepsNames k k₁ := by
  obtain ⟨-, -, -, -, -, hdir, -⟩ := create_spec h
  intro p hp
  rw [hdir]
  by_cases hpn : p = k.path name
  · rw [hpn, Function.update_self]
    exact nofun
  · rwa [Function.update_of_ne hpn]

/-- A file that is not there is created if a descriptor can be had. -/
theorem create_some {k : Disk} {name : Bytes} {fd : Int} (addr : Nat)
    (hdir : k.fs.dir (k.path name) = none) (h0 : 0 ≤ fd) (hfree : k.fs.fds fd = none) :
    ∃ k₁, k.create addr name (some fd) = some (fd, k₁) := by
  obtain ⟨fs, hc, -⟩ := Files.create_of_absent hdir h0 hfree
  exact ⟨_, by rw [Disk.create, hc, Option.map_some]⟩

/-- **One round**: it creates both files, or it leaves no trace and the search goes on. -/
theorem makeFilenamesFrom_round (env : SysEnv) (s : Bytes) (n i : Nat) (k : Disk) (d : Transfer) :
    (PairFree env k s i ∧ KeepsNames k (makeFilenamesFrom env s (n + 1) i k d).1 ∧
      (makeFilenamesFrom env s (n + 1) i k d).1.fs.dir (k.path (nameCandidate s i)) ≠ none) ∨
    (¬ PairFree env k s i ∧ ∃ k', SameNames k k' ∧
      makeFilenamesFrom env s (n + 1) i k d = makeFilenamesFrom env s n (i + 1) k' d) := by
  simp only [makeFilenamesFrom]
  cases hname : k.create d.addr (nameCandidate s i) (env.names i).1 with
  | none =>
      dsimp only
      refine .inr ⟨?_, k, .refl k, rfl⟩
      -- A free name with a free descriptor would have been created.
      rintro ⟨hdir, -, fd0, fd1, hnames, h0, -, -, hfree, -⟩
      obtain ⟨k₁, hc⟩ := create_some d.addr hdir h0 hfree
      rw [hnames, hc] at hname
      cases hname
  | some p =>
      obtain ⟨fd0, k₁⟩ := p
      dsimp only
      obtain ⟨ho, h0, hfree, hdir, hcwd, hdir₁, hfds₁⟩ := create_spec hname
      have hpath : k₁.path = k.path := Disk.path_of_cwd hcwd
      have hother : ∀ p, p ≠ k.path (nameCandidate s i) → k₁.fs.dir p = k.fs.dir p := fun p hp => by
        rw [hdir₁, Function.update_of_ne hp]
      cases hpart : k₁.create d.addr (nameCandidate s i ++ TXT_PART) (env.names i).2 with
      | none =>
          dsimp only
          refine .inr ⟨?_, _, ?_, rfl⟩
          · rintro ⟨-, hdir', fd0', fd1, hnames, -, h1, hne, -, hfree'⟩
            rw [hnames] at ho
            cases ho
            have habsent : k₁.fs.dir (k₁.path (nameCandidate s i ++ TXT_PART)) = none := by
              rw [hpath, hother _ (path_part_ne k _).symm]
              exact hdir'
            obtain ⟨k₂, hc⟩ := create_some d.addr habsent h1
              (by rw [hfds₁, Function.update_of_ne hne.symm]; exact hfree')
            rw [hnames, hc] at hpart
            cases hpart
          · -- The name is unlinked again, and its descriptor closed.
            refine ⟨?_, ?_, hcwd⟩
            · show ((k₁.fs.unlink _).close fd0).dir = k.fs.dir
              rw [Files.close_dir, Files.unlink, hpath, hdir₁, Function.update_idem, ← hdir,
                Function.update_eq_self]
            · show ((k₁.fs.unlink _).close fd0).fds = k.fs.fds
              rw [Files.close, if_pos h0]
              show Function.update k₁.fs.fds fd0 none = k.fs.fds
              rw [hfds₁, Function.update_idem, ← hfree, Function.update_eq_self]
      | some p =>
          obtain ⟨fd1, k₂⟩ := p
          dsimp only
          obtain ⟨ho', h1, hfree', hdir', -, -, -⟩ := create_spec hpart
          have hne : fd1 ≠ fd0 := by
            rintro rfl
            rw [hfds₁, Function.update_self] at hfree'
            cases hfree'
          rw [hfds₁, Function.update_of_ne hne] at hfree'
          rw [hpath, hother _ (path_part_ne k _).symm] at hdir'
          have hkeep₂ : KeepsNames k₁ (k₂.close fd0) := by
            intro p hp
            show (k₂.fs.close fd0).dir p ≠ none
            rw [Files.close_dir]
            exact create_keeps hpart p hp
          refine .inl ⟨⟨hdir, hdir', fd0, fd1, Prod.ext ho ho', h0, h1, hne.symm, hfree, hfree'⟩,
            fun p hp => hkeep₂ p (create_keeps hname p hp), hkeep₂ _ ?_⟩
          rw [hdir₁, Function.update_self]
          exact Option.some_ne_none _

/-- Without a pair of names the search leaves no trace, and no descriptor. -/
theorem makeFilenamesFrom_fails (env : SysEnv) (s : Bytes) {n i : Nat} {k : Disk} {d : Transfer}
    (h : ∀ j, i ≤ j → j < i + n → ¬ PairFree env k s j) :
    SameNames k (makeFilenamesFrom env s n i k d).1 ∧ (makeFilenamesFrom env s n i k d).2.fd = -1 := by
  induction n generalizing i k with
  | zero => exact ⟨.refl k, rfl⟩
  | succ n ih =>
      rcases makeFilenamesFrom_round env s n i k d with ⟨hfree, -⟩ | ⟨-, k', hsame, heq⟩
      · exact absurd hfree (h i (Nat.le_refl i) (by omega))
      · rw [heq]
        have hrest := ih (i := i + 1) (k := k') fun j hj hlt hfree =>
          h j (by omega) (by omega) (hsame.pairFree.mp hfree)
        exact ⟨hsame.trans hrest.1, hrest.2⟩

/-- The search takes no name away. -/
theorem makeFilenamesFrom_keeps (env : SysEnv) (s : Bytes) (n i : Nat) (k : Disk) (d : Transfer) :
    KeepsNames k (makeFilenamesFrom env s n i k d).1 := by
  induction n generalizing i k with
  | zero => exact fun p hp => hp
  | succ n ih =>
      rcases makeFilenamesFrom_round env s n i k d with ⟨-, hkeep, -⟩ | ⟨-, k', hsame, heq⟩
      · exact hkeep
      · rw [heq]
        exact fun p hp => ih (i + 1) k' p (hsame.keeps p hp)

/-- With a pair of names it creates a file. -/
theorem makeFilenamesFrom_creates (env : SysEnv) (s : Bytes) {n i j : Nat} {k : Disk} {d : Transfer}
    (hi : i ≤ j) (hj : j < i + n) (hfree : PairFree env k s j) :
    ∃ p, k.fs.dir p = none ∧ (makeFilenamesFrom env s n i k d).1.fs.dir p ≠ none := by
  induction n generalizing i k with
  | zero => omega
  | succ n ih =>
      rcases makeFilenamesFrom_round env s n i k d with ⟨hpair, -, hnew⟩ |
        ⟨hno, k', hsame, heq⟩
      · exact ⟨_, hpair.1, hnew⟩
      · have hne : i ≠ j := fun hij => hno (hij ▸ hfree)
        obtain ⟨p, hp, hnew⟩ := ih (i := i + 1) (k := k') (by omega) (by omega)
          (hsame.pairFree.mpr hfree)
        rw [hsame.dir] at hp
        exact ⟨p, hp, by rw [heq]; exact hnew⟩

/-! ## The attributes of the offer -/

/-- The attribute is a FILENAME for which a pair of files can be created. -/
def Creates (env : CltEnv) (k : Disk) (m : Mbuf) (a : AttrRef) : Prop :=
  a.at' = MsgAttrib.code .filename ∧
    ∃ i, 1 ≤ i ∧ i < INT_MAX ∧ PairFree env.toSysEnv k (cstrAt m env.beyond a.av) i

section Attribs

variable {env : CltEnv} {noClobber : Bool} {m : Mbuf} {k : Disk} {d : Transfer}

/-- An attribute that is no such FILENAME, or any attribute when files may be clobbered. -/
theorem offerAttrib_same {a : AttrRef} (h : noClobber = true → ¬ Creates env k m a)
    (hfd : d.fd = -1) :
    SameNames k (Clt.offerAttrib env noClobber m (k, d) a).1 ∧
      (Clt.offerAttrib env noClobber m (k, d) a).2.fd = -1 := by
  unfold Clt.offerAttrib
  simp only
  split
  · exact ⟨.refl k, hfd⟩
  · split
    · rename_i hfile
      unfold makeFilenames
      cases noClobber with
      | false => exact ⟨.refl k, hfd⟩
      | true =>
          refine makeFilenamesFrom_fails _ _ fun j hj hlt hfree => h rfl ⟨hfile, j, hj, ?_, hfree⟩
          have hmax : 1 ≤ INT_MAX := by decide
          omega
    · split
      · exact ⟨.refl k, hfd⟩
      · exact ⟨.refl k, hfd⟩

theorem offerAttribs_same {l : List AttrRef} (h : noClobber = true → ∀ a ∈ l, ¬ Creates env k m a)
    (hfd : d.fd = -1) :
    SameNames k (l.foldl (Clt.offerAttrib env noClobber m) (k, d)).1 ∧
      (l.foldl (Clt.offerAttrib env noClobber m) (k, d)).2.fd = -1 := by
  induction l generalizing k d with
  | nil => exact ⟨.refl k, hfd⟩
  | cons a l ih =>
      obtain ⟨hsame, hfd'⟩ := offerAttrib_same (m := m) (a := a)
        (fun hno => h hno a List.mem_cons_self) hfd
      rw [List.foldl_cons]
      have hrest := ih (k := (Clt.offerAttrib env noClobber m (k, d) a).1)
        (d := (Clt.offerAttrib env noClobber m (k, d) a).2) (fun hno b hb hcr => ?_) hfd'
      · exact ⟨hsame.trans hrest.1, hrest.2⟩
      · obtain ⟨hfile, i, h1, hlt, hfree⟩ := hcr
        exact h hno b (List.mem_cons_of_mem _ hb) ⟨hfile, i, h1, hlt, hsame.pairFree.mp hfree⟩

/-- No attribute takes a name away. -/
theorem offerAttribs_keep (env : CltEnv) (noClobber : Bool) (m : Mbuf) (l : List AttrRef)
    (p : Disk × Transfer) : KeepsNames p.1 (l.foldl (Clt.offerAttrib env noClobber m) p).1 := by
  induction l generalizing p with
  | nil => exact fun _ hp => hp
  | cons a l ih =>
      obtain ⟨k, d⟩ := p
      have hone : KeepsNames k (Clt.offerAttrib env noClobber m (k, d) a).1 := by
        unfold Clt.offerAttrib
        simp only
        split
        · exact fun _ hp => hp
        · split
          · unfold makeFilenames
            split
            · exact makeFilenamesFrom_keeps _ _ _ _ _ _
            · exact fun _ hp => hp
          · split
            · exact fun _ hp => hp
            · exact fun _ hp => hp
      exact fun q hq => ih _ q (hone q hq)

/-- The first such FILENAME creates files, and they stay. -/
theorem offerAttribs_create {l : List AttrRef} {a : AttrRef} (ha : a ∈ l)
    (h : Creates env k m a) (hfd : d.fd = -1) :
    ∃ p, k.fs.dir p = none ∧
      (l.foldl (Clt.offerAttrib env true m) (k, d)).1.fs.dir p ≠ none := by
  induction l generalizing k d with
  | nil => exact absurd ha List.not_mem_nil
  | cons b l ih =>
      rw [List.foldl_cons]
      by_cases hb : Creates env k m b
      · obtain ⟨hfile, i, h1, hlt, hfree⟩ := hb
        have hne : MsgAttrib.code .filename ≠ MsgAttrib.code .offerid := by decide
        obtain ⟨p, hp, hnew⟩ := makeFilenamesFrom_creates env.toSysEnv
          (cstrAt m env.beyond b.av) (n := INT_MAX - 1) (d := d) h1 (by omega) hfree
        refine ⟨p, hp, offerAttribs_keep env true m l _ p ?_⟩
        unfold Clt.offerAttrib
        simp only [hfile, hne, if_true, if_false, makeFilenames]
        exact hnew
      · have hnot : true = true → ¬ Creates env k m b := fun _ => hb
        obtain ⟨hsame, hfd'⟩ := offerAttrib_same hnot hfd
        have hmem : a ∈ l := by
          rcases List.mem_cons.mp ha with rfl | hmem
          · exact absurd h hb
          · exact hmem
        obtain ⟨hfile, i, h1, hlt, hfree⟩ := h
        obtain ⟨p, hp, hnew⟩ := ih hmem (k := (Clt.offerAttrib env true m (k, d) b).1)
          (d := (Clt.offerAttrib env true m (k, d) b).2)
          ⟨hfile, i, h1, hlt, hsame.pairFree.mpr hfree⟩ hfd'
        rw [hsame.dir] at hp
        exact ⟨p, hp, hnew⟩

end Attribs

/-! ## The rejection -/

/-- The entry has not been invalidated. -/
def Transfer.Live (t : Transfer) : Prop := t ≠ t.invalid

instance (t : Transfer) : Decidable t.Live := inferInstanceAs (Decidable (_ ≠ _))

/-- No file has been created, no descriptor is open that was not, and the live transfers
are the same. -/
structure NothingLeft (c t : Clt) : Prop where
  dir : t.disk.fs.dir = c.disk.fs.dir
  fds : t.disk.fs.fds = c.disk.fs.fds
  live : t.transfers.filter (fun t => t.Live) = c.transfers.filter fun t => t.Live

/-- **When a rejected offer leaves nothing behind**: files may be clobbered, or for no
FILENAME of the request a pair of files could be created. -/
theorem rejected_clean_iff {env : CltEnv} {c t : Clt} {m : Mbuf}
    (htype : hdrGetType m = MsgType.code .offerReq)
    (h : Clt.dispatchSrvmsg env c m = some (t, .fail .badRequest)) :
    NothingLeft c t ↔
      (c.cfg.noClobber = true → ∀ a ∈ Clt.attribRefs m, ¬ Creates env c.disk m a) := by
  have hdisp : Clt.processOfferReq env c m = some (t, .fail .badRequest) := by
    unfold Clt.dispatchSrvmsg at h
    rwa [htype, MsgType.ofCode?_code] at h
  let d₀ : Transfer := { transferNew env.now c.nextAddr .download with rid := hdrGetSrcid m }
  let r := (Clt.attribRefs m).foldl (Clt.offerAttrib env c.cfg.noClobber m) (c.disk, d₀)
  have ht : t = c.push ((r.1.close r.2.fd).note (.invalidated r.2.addr)) r.2.invalid := by
    unfold Clt.processOfferReq at hdisp
    split at hdisp
    · simp only at hdisp
      split at hdisp
      · cases hdisp
        rfl
      · obtain ⟨x, -, heq⟩ := Option.bind_eq_some_iff.mp hdisp
        cases heq
    · cases hdisp
  have hdir : t.disk.fs.dir = r.1.fs.dir := by
    rw [ht]
    exact Files.close_dir _ _
  constructor
  · intro hleft hno a ha hcr
    obtain ⟨p, hp, hnew⟩ := offerAttribs_create (d := d₀) ha hcr rfl
    refine hnew ?_
    rw [← hp, ← hleft.dir, hdir]
    show _ = ((Clt.attribRefs m).foldl (Clt.offerAttrib env c.cfg.noClobber m) (c.disk, d₀)).1.fs.dir p
    rw [hno]
  · intro hno
    obtain ⟨hsame, hfd⟩ := offerAttribs_same (d := d₀) hno rfl
    refine ⟨hdir.trans hsame.dir, ?_, ?_⟩
    · rw [ht]
      show (r.1.fs.close r.2.fd).fds = c.disk.fs.fds
      rw [show r.2.fd = -1 from hfd]
      exact hsame.fds
    · rw [ht]
      show (r.2.invalid :: c.transfers).filter _ = _
      exact List.filter_cons_of_neg (by simp [Transfer.Live, Transfer.invalid])

/-- An offer without a SIZE, with or without a FILENAME. -/
def sizelessOffer (filename : Option Bytes) : Mbuf :=
  mbufResetgetattrib ⟨messageOctets .offerReq 5 1
    ((.offerid, .ui64 6) :: filename.toList.map fun s => (.filename, .str s)), 0⟩

/-- The offer is rejected, and of the two files of the name `a` so many are there. -/
def rejectsWith (files : Nat) (m : Mbuf) (c : Clt) : Bool :=
  match Clt.dispatchSrvmsg demoEnv c m with
  | some (t, .fail .badRequest) =>
      ([ascii "/d/a.1", ascii "/d/a.1.part"].filter fun p => (t.disk.fs.dir p).isSome).length == files
  | _ => false

theorem rejectsWith_spec {files : Nat} {m : Mbuf} {c : Clt} (h : rejectsWith files m c = true) :
    ∃ t, Clt.dispatchSrvmsg demoEnv c m = some (t, .fail .badRequest) ∧
      ([ascii "/d/a.1", ascii "/d/a.1.part"].filter fun p =>
        (t.disk.fs.dir p).isSome).length = files := by
  unfold rejectsWith at h
  split at h
  · exact ⟨_, ‹_›, beq_iff_eq.mp h⟩
  · cases h

theorem rejected_clean_nameless : ∃ c t : Clt, cltLts.Reachable c ∧
    (NothingLeft c t ↔ (c.cfg.noClobber = true → ∀ a ∈ Clt.attribRefs (sizelessOffer none),
      ¬ Creates demoEnv c.disk (sizelessOffer none) a)) := by
  have hexec : (Lts.exec cltTry (demoClient true []) loginRun).any
      (rejectsWith 0 (sizelessOffer none)) = true := by
    decide +kernel
  obtain ⟨c, hc, hp⟩ := Lts.reachable_of_exec (fun _ _ _ => cltTry_step) (demoClient_init _ _) hexec
  obtain ⟨t, ht, -⟩ := rejectsWith_spec hp
  exact ⟨c, t, hc, rejected_clean_iff (by decide +kernel) ht⟩

/-- Two files of a rejected offer. -/
theorem rejected_leaves_files : ∃ c t : Clt, cltLts.Reachable c ∧
    Clt.dispatchSrvmsg demoEnv c (sizelessOffer (some (ascii "a"))) = some (t, .fail .badRequest) ∧
    ¬ NothingLeft c t := by
  have hexec : (Lts.exec cltTry (demoClient true []) loginRun).any (fun c =>
      rejectsWith 2 (sizelessOffer (some (ascii "a"))) c &&
        decide (c.disk.fs.dir (ascii "/d/a.1") = none)) = true := by
    decide +kernel
  obtain ⟨c, hc, hp⟩ := Lts.reachable_of_exec (fun _ _ _ => cltTry_step) (demoClient_init _ _) hexec
  obtain ⟨hrej, hnone⟩ := Bool.and_eq_true_iff.mp hp
  obtain ⟨t, ht, hfiles⟩ := rejectsWith_spec hrej
  refine ⟨c, t, hc, ht, fun hleft => ?_⟩
  rw [hleft.dir] at hfiles
  have hlen := List.length_filter_le (fun p => (c.disk.fs.dir p).isSome) [ascii "/d/a.1.part"]
  rw [List.filter_cons_of_neg (by rw [of_decide_eq_true hnone]; exact Bool.false_ne_true)] at hfiles
  rw [hfiles] at hlen
  exact absurd hlen (by decide)

end Frelay
