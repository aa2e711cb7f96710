import Frelay.Client.Touched

/-!
# Nothing is clobbered

With `no_clobber` set, the client creates the files of a download itself, and under names
that were not in use (`make_filenames`). From then on it writes to these files, and renames
one of them to the name of the other. The invariant (`Guarded`) is that a download has been
opened on files that were created for it, and that while it is alive both of its names are
those of such files. No two downloads have a file in common, so whatever a peer chooses as
a name, no step concerns the files of another download, or a file that is none of the
client's.

* `Guarded.step` — one step keeps this;
* `nothing_clobbered` — no run changes a file that the client has not created.
-/

namespace Frelay

open Lib

/-- The file `i` was created for some download. -/
def Created (k : Disk) (i : Nat) : Prop := ∃ addr, MadeFor k addr i

/-- What a step must not do: change the directory, let the search for unused names fail,
or have another process touch the files the client has created. -/
structure KeepsFiles (c : Clt) (e : CltEvent) : Prop where
  noClobber : c.cfg.noClobber = true
  noCd : ∀ dir env, e ≠ .cmd (.cd dir) env
  searched : ∀ env m, e.offered c = some (env, m) → OfferSearched env c m
  alone : ∀ fs, e = .outside fs → ∀ i, Created c.disk i →
    fs.data i = c.disk.fs.data i ∧ ∀ p, fs.dir p = some i ↔ c.disk.fs.dir p = some i

/-- Files of downloads apart, everything has kept its name and its content. -/
structure Intact (k k' : Disk) : Prop where
  files : Files.Frame (Created k) (Created k) k.fs k'.fs
  old : ∀ i < k.fs.next, Created k' i → Created k i

theorem Intact.refl (k : Disk) : Intact k k := ⟨.refl _ _ _, fun _ _ => id⟩

theorem Intact.trans {k k' k'' : Disk} (h₁ : Intact k k') (h₂ : Intact k' k'') : Intact k k'' where
  files := h₁.files.trans h₂.files h₁.old h₁.old
  old := fun i hi h => h₁.old i hi (h₂.old i (Nat.lt_of_lt_of_le hi h₁.files.next) h)

theorem EntryFrame.intact {k k' : Disk} {addr : Nat} {D W : Nat → Prop}
    (h : EntryFrame addr D W k k') (hD : ∀ i, D i → MadeFor k addr i)
    (hW : ∀ i, W i → MadeFor k addr i) : Intact k k' where
  files := h.files.mono (fun i _ hi => ⟨addr, hD i hi⟩) fun i _ hi => ⟨addr, hW i hi⟩
  old := fun i hi h' => h'.imp fun _ => h.madeBefore i hi

theorem SameFiles.intact {k k' : Disk} (h : SameFiles k k') : Intact k k' where
  files := .of_same h.dir h.data h.next
  old := fun _ _ h' => h'.imp fun _ hp => hp.imp fun _ hmem => h.created hmem

/-! ## The invariant -/

/-- Every download has been opened on its own files only, and has their names while it is
alive. -/
structure Guarded (c : Clt) : Prop where
  disk : DiskOk c.disk
  opens : ∀ d ∈ c.transfers, d.type = .download → ∀ a ∈ c.disk.log, a.addr = d.addr →
    ∀ i, a.opens = some i → MadeFor c.disk d.addr i
  names : ∀ d ∈ c.transfers, d.type = .download → 0 < d.tact → NamesBound c.disk d

/-- The file last opened for an entry is one that was opened for it. -/
theorem lastOpened_mem {log : List TransferAct} {addr i : Nat} (h : lastOpened log addr = some i) :
    ∃ a ∈ log, a.addr = addr ∧ a.opens = some i := by
  induction log with
  | nil => cases h
  | cons a log ih =>
      unfold lastOpened at h
      split at h
      · rename_i haddr
        rcases Option.or_eq_some_iff.mp h with hopen | ⟨-, hrest⟩
        · exact ⟨a, List.mem_cons_self, haddr, hopen⟩
        · obtain ⟨b, hb, hprops⟩ := ih hrest
          exact ⟨b, List.mem_cons_of_mem _ hb, hprops⟩
      · obtain ⟨b, hb, hprops⟩ := ih h
        exact ⟨b, List.mem_cons_of_mem _ hb, hprops⟩

/-- The descriptor of a download leads to a file of its own. -/
theorem Guarded.held {c : Clt} (hg : Guarded c) (hok : CltOk c) {d : Transfer}
    (hd : d ∈ c.transfers) (htype : d.type = .download) : HeldMade c.disk d := by
  intro f h0 hf
  obtain ⟨f', hf', hlast⟩ := (hok.inOrder.entry d hd).held h0
  obtain rfl : f' = f := Option.some.inj (hf'.symm.trans hf)
  obtain ⟨a, ha, haddr, hopens⟩ := lastOpened_mem hlast
  exact hg.opens d hd htype a ha haddr _ hopens

theorem Guarded.init {c : Clt} (h : cltLts.init c) : Guarded c := by
  obtain ⟨cfg, pubkey, fs, cwd, hfs, -, rfl⟩ := h
  refine ⟨⟨hfs.dir, ?_, ?_⟩, ?_, ?_⟩
  · exact fun a p i hmem => absurd hmem List.not_mem_nil
  · exact fun a b p q i hmem => absurd hmem List.not_mem_nil
  · exact fun d hd => absurd hd List.not_mem_nil
  · exact fun d hd => absurd hd List.not_mem_nil

/-- A step that touches no file. -/
theorem Guarded.same {c t : Clt} (hg : Guarded c) (hfiles : SameFiles c.disk t.disk)
    (hstill : Still c t) : Guarded t where
  disk := hfiles.ok hg.disk
  opens := by
    intro d' hd' htype a ha haddr i hi
    obtain ⟨d, hd, hdt, hkeep⟩ := hstill.shrinks d' hd' htype
    rw [hkeep.addr] at haddr ⊢
    rcases hstill.log.mem ha with ⟨-, hnew⟩ | hold
    · rw [hnew d hd hdt haddr] at hi
      cases hi
    · exact (hg.opens d hd hdt a hold haddr i hi).mono hfiles.log.subset
  names := by
    intro d' hd' htype hlive
    obtain ⟨d, hd, hdt, hkeep⟩ := hstill.shrinks d' hd' htype
    obtain ⟨name, hname, hpart, hbound, hboundpart⟩ := hg.names d hd hdt (hkeep.live hlive).1
    refine ⟨name, hkeep.names.1.trans hname, hkeep.names.2.trans hpart, ?_, ?_⟩
    · rw [hkeep.addr]
      exact hfiles.bound hbound
    · rw [hkeep.addr]
      exact hfiles.bound hboundpart

/-- A step on behalf of `u`, which is `u'` afterwards. -/
theorem Guarded.own {c t : Clt} {u u' : Transfer} (hg : Guarded c)
    (hown : OwnFiles c.disk u t.disk u') (haddr : u'.addr = u.addr)
    (hacts : ∀ a ∈ c.disk.log, a.addr = u.addr → ∀ i, a.opens = some i → MadeFor c.disk u.addr i)
    (hts : ∀ d ∈ t.transfers, d = u' ∨ (d ∈ c.transfers ∧ d.addr ≠ u.addr)) : Guarded t where
  disk := hown.frame.ok hg.disk
  opens := by
    intro d hd htype a ha hda i hi
    rcases hown.frame.log.mem ha with ⟨hu, hnew⟩ | hold
    · rw [← hda, hu]
      exact hnew i hi
    · rcases hts d hd with rfl | ⟨hd, -⟩
      · rw [haddr] at hda ⊢
        exact (hacts a hold hda i hi).mono hown.frame.log.subset
      · exact (hg.opens d hd htype a hold hda i hi).mono hown.frame.log.subset
  names := by
    intro d hd htype hlive
    rcases hts d hd with rfl | ⟨hd, hne⟩
    · exact hown.names hlive
    · refine (hg.names d hd htype hlive).frame hg.disk rfl ⟨rfl, rfl⟩ ?_ hown.frame
      -- A file is created once, for one download.
      rintro i - ⟨p, hp⟩ ⟨q, hq⟩
      exact hne (hg.disk.once _ _ _ _ _ hq hp).1

/-- Other processes do not touch the files of downloads. -/
theorem Guarded.outside {c : Clt} {fs : Files Bytes UInt8} (hg : Guarded c)
    (hfs : Files.Outside c.disk.fs fs) (halone : ∀ i, Created c.disk i →
      fs.data i = c.disk.fs.data i ∧ ∀ p, fs.dir p = some i ↔ c.disk.fs.dir p = some i) :
    Guarded { c with disk := { c.disk with fs := fs } } where
  disk := ⟨hfs.dir, fun a p i hmem => Nat.lt_of_lt_of_le (hg.disk.made a p i hmem) hfs.next,
    hg.disk.once⟩
  opens := hg.opens
  names := by
    intro d hd htype hlive
    obtain ⟨name, hname, hpart, ⟨i, hi, himade⟩, ⟨j, hj, hjmade⟩⟩ := hg.names d hd htype hlive
    refine ⟨name, hname, hpart, ⟨i, ?_, himade⟩, ⟨j, ?_, hjmade⟩⟩
    · exact ((halone i ⟨_, _, himade⟩).2 _).mpr hi
    · exact ((halone j ⟨_, _, hjmade⟩).2 _).mpr hj

/-- **One step of the client** concerns no files but those of one download. -/
theorem Guarded.step {c t : Clt} {e : CltEvent} (hg : Guarded c) (hok : CltOk c)
    (hkeep : KeepsFiles c e) (hout : ∀ fs, e ≠ .outside fs) (hen : e.Enabled c)
    (h : cltStep c e = some t) : Guarded t ∧ Intact c.disk t.disk := by
  -- A live download that is in the list, selected or handed DATA.
  have hput : ∀ {d d' : Transfer} {now : Int}, d ∈ c.transfers → d.type = .download →
      0 < d.tact →
      OwnFiles c.disk { d with tact := now } t.disk d' → d'.addr = d.addr →
      t.transfers = putTransfer d' c.transfers → Guarded t ∧ Intact c.disk t.disk := by
    intro d d' now hd htype hlive hown haddr hts
    refine ⟨hg.own hown haddr (hg.opens d hd htype) ?_, hown.frame.intact (fun _ => id) fun _ => id⟩
    intro v hv
    rw [hts] at hv
    rcases mem_putTransfer hv with rfl | ⟨hv, hne⟩
    · exact .inl rfl
    · exact .inr ⟨hv, fun heq => hne (heq.trans haddr.symm)⟩
  cases hresp : e.response c with
  | some r =>
      obtain ⟨env, d, data⟩ := r
      obtain ⟨hd, htype, hlive⟩ := CltEvent.response_mem hresp
      cases cltStep_downloads hok hen h with
      | still hno _ =>
          rw [hresp] at hno
          cases hno
      | offered hoff _ _ =>
          rw [CltEvent.response_of_offered hoff] at hresp
          cases hresp
      | accepted hacc _ _ =>
          rw [CltEvent.response_of_accepting hacc] at hresp
          cases hresp
      | answered hr hp ht =>
          rw [hresp, Option.some.injEq, Prod.mk.injEq, Prod.mk.injEq] at hr
          obtain ⟨rfl, rfl, rfl⟩ := hr
          subst hp
          have hheld : HeldMade c.disk d := hg.held hok hd htype
          have hown := receiveData_own env data (d := { d with tact := env.now }) hg.disk hheld
            (hg.names d hd htype hlive)
          rw [← ht.1] at hown
          exact hput hd htype hlive hown (Clt.receiveData_onEntry env c.disk _ data).addr ht.2
  | none =>
    cases hoff : e.offered c with
    | some p =>
        obtain ⟨env, m⟩ := p
        obtain ⟨hmsg, htype, hauth⟩ := CltEvent.offered_spec hoff
        obtain ⟨hm, hproc⟩ := cltStep_message hok.rbuf hmsg h
        obtain ⟨⟨hdisk, hts⟩, -⟩ := Clt.processSrvmsg_offered hm htype hauth hproc
        obtain ⟨hframe, hnames⟩ := enterOffer_frame hkeep.noClobber (hkeep.searched env m hoff)
        rw [← hdisk] at hframe hnames
        have hown : OwnFiles c.disk (Clt.offerEntry env c m) t.disk
            (Clt.enterOffer (Clt.offeredEntry env c m)).2 :=
          ⟨hframe.mono (fun _ _ hno => hno.elim) fun _ _ hno => hno.elim, hnames⟩
        refine ⟨hg.own hown (Clt.enterOffer_onEntry env c m).addr ?_ ?_,
          hframe.intact (fun _ hno => hno.elim) fun _ hno => hno.elim⟩
        · intro a ha haddr
          exact absurd haddr (Nat.ne_of_lt (hok.inOrder.logged a ha))
        · intro v hv
          rw [hts] at hv
          rcases List.mem_cons.mp hv with rfl | hv
          · exact .inl rfl
          · exact .inr ⟨hv, Nat.ne_of_lt (hok.inOrder.below v hv)⟩
    | none =>
      cases hacc : e.accepting c with
      | some p =>
          obtain ⟨env, d⟩ := p
          obtain ⟨hd, htype, hlive, rid, oid, rfl, -⟩ := CltEvent.accepting_mem hacc
          rcases Clt.cmdAccept_downloads h with ⟨-, rfl⟩ | ⟨u, k, d', ok, new, hfind, hstart, rfl⟩
          · exact ⟨hg, .refl _⟩
          · rw [CltEvent.accepting, hfind, Option.map_some, Option.some.injEq, Prod.mk.injEq] at hacc
            obtain ⟨-, rfl⟩ := hacc
            have hheld : HeldMade c.disk u := hg.held hok hd htype
            have hown := startDownload_own (d := { u with tact := env.now }) hg.disk hheld
              (hg.names u hd htype hlive) hstart
            obtain ⟨fd, off, rfl⟩ := startDownload_entry hstart
            exact hput hd htype hlive hown rfl rfl
      | none =>
          have hsame := cltStep_sameFiles hok.rbuf hout hkeep.noCd hoff hacc hresp h
          refine ⟨?_, hsame.intact⟩
          cases cltStep_downloads hok hen h with
          | still _ hstill => exact hg.same hsame hstill
          | offered hsome _ _ =>
              rw [hoff] at hsome
              cases hsome
          | accepted hsome _ _ =>
              rw [hacc] at hsome
              cases hsome
          | answered hsome _ _ =>
              rw [hresp] at hsome
              cases hsome

/-! ## Runs -/

theorem guarded_inductive :
    (cltLts.guard KeepsFiles).Inductive fun c => CltOk c ∧ Guarded c where
  init := fun c hc => ⟨cltOk_inductive.init c hc, .init hc⟩
  step := by
    rintro c e t ⟨hok, hg⟩ ⟨⟨hen, h⟩, hkeep⟩
    refine ⟨hok.step hen h, ?_⟩
    by_cases hout : ∃ fs, e = .outside fs
    · obtain ⟨fs, rfl⟩ := hout
      cases h
      exact hg.outside hen (hkeep.alone fs rfl)
    · exact (hg.step hok hkeep (fun fs heq => hout ⟨fs, heq⟩) hen h).1

/-- **No file is clobbered.** With `no_clobber` set, and as long as the directory stays the
same, every search for unused names succeeds and nobody else touches what the client has
created, nothing the client does changes the name or the content of a file that it has not
created. -/
theorem nothing_clobbered {c t : Clt} {es : List CltEvent}
    (hc : (cltLts.guard KeepsFiles).Reachable c) (hrun : (cltLts.guard KeepsFiles).Run c es t)
    (hown : ∀ fs, .outside fs ∉ es) {i : Nat} (hi : i < c.disk.fs.next)
    (hcreated : ¬ Created c.disk i) :
    t.disk.fs.data i = c.disk.fs.data i ∧
      ∀ p, c.disk.fs.dir p = some i → t.disk.fs.dir p = some i := by
  have hinv := guarded_inductive.invariant c hc
  have hintact : Intact c.disk t.disk := by
    clear hc hi hcreated
    induction hrun with
    | nil c => exact .refl _
    | cons hstep _ ih =>
        have hnext := guarded_inductive.step _ _ _ hinv hstep
        have hfirst := hinv.2.step hinv.1 hstep.2
          (fun fs heq => hown fs (heq ▸ List.mem_cons_self)) hstep.1.1 hstep.1.2
        exact hfirst.2.trans (ih (fun fs hmem => hown fs (List.mem_cons_of_mem _ hmem)) hnext)
  exact ⟨hintact.files.data i hi hcreated, fun p hp => hintact.files.dir p i hi hcreated hp⟩

/-- A step of the client that keeps to the conditions. -/
def keepsFilesTry (c : Clt) (e : CltEvent) : Option Clt :=
  if c.cfg.noClobber = true ∧ (e.offered c).all fun p => OfferSearched p.1 c p.2 then
    match e with
    | .cmd (.cd _) _ => none
    | _ => cltTry c e
  else none

theorem keepsFilesTry_step {c t : Clt} {e : CltEvent} (h : keepsFilesTry c e = some t) :
    (cltLts.guard KeepsFiles).step c e t := by
  unfold keepsFilesTry at h
  split at h
  · rename_i hcond
    split at h
    · cases h
    · rename_i hcd
      have hout : ∀ fs, e ≠ .outside fs := by
        rintro fs rfl
        cases h
      refine ⟨cltTry_step h, hcond.1, hcd, ?_, fun fs heq => absurd heq (hout fs)⟩
      intro env m hoff
      have hall := hcond.2
      rw [hoff] at hall
      exact of_decide_eq_true hall
  · cases h

/-- A peer offers a file under a name that is taken; the download ends up beside the file
that has it. -/
theorem nothing_clobbered_beside : ∃ c t : Clt, c.disk.fs.dir (ascii "/d/a") = some 0 ∧
    .renamed 0 (ascii "/d/a.1.part") (ascii "/d/a.1") ∈ t.disk.log ∧
    t.disk.fs.data 0 = c.disk.fs.data 0 ∧
    ∀ p, c.disk.fs.dir p = some 0 → t.disk.fs.dir p = some 0 := by
  have hexec : (Lts.exec keepsFilesTry (demoClient true [(ascii "a", [9])])
      (loginRun ++ offerRun (ascii "a") 2 ++ acceptRun ++ dataRun [1, 2] ++ dataRun [])).any
        (fun t => decide (.renamed 0 (ascii "/d/a.1.part") (ascii "/d/a.1") ∈ t.disk.log)) = true := by
    decide +kernel
  obtain ⟨t, hrun, hren⟩ := Lts.run_of_exec (M := cltLts.guard KeepsFiles)
    (fun _ _ _ => keepsFilesTry_step) hexec
  refine ⟨demoClient true [(ascii "a", [9])], t, rfl, of_decide_eq_true hren, ?_⟩
  refine nothing_clobbered (.init (demoClient_init true [(ascii "a", [9])])) hrun ?_ (by decide) ?_
  · intro fs
    simp [loginRun, offerRun, acceptRun, dataRun, delivery]
  · rintro ⟨addr, p, hmem⟩
    exact absurd hmem List.not_mem_nil

end Frelay
