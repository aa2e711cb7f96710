import Frelay.Client.Delivery

/-!
# A download that is resumed

The part file of an interrupted download holds the beginning of the file. `accept` opens
it and continues behind it; but its first request asks for as many octets as the whole
file has, not for those that are missing. When some are missing the peer sends them, and
the delivery goes on like one from the beginning. When none are, the peer reads at the
end of its file and answers with an error, and the download is never finished.

* `ResumePhase.advance` — whatever can happen next does happen, and leads on;
* `resume_completes_iff` — the file is delivered exactly when octets are missing.
-/

namespace Frelay

open Lib

/-- The download `d` of which `n` octets are in the part file; if that is open, it is at
its end, and `d` knows. -/
structure Interrupted (o : Deal) (c : Clt) (d : Transfer) (n : Nat) : Prop where
  found : c.transfers.find? (fun d => d.Matches .download o.rid o.oid) = some d
  addr : d.addr = o.addr
  size : d.size.toNat = o.file.length
  part : ∃ i, partFile c.disk d = some i ∧ c.disk.fs.data i = o.file.take n
  fits : n ≤ o.file.length
  opened : 0 ≤ d.fd → HeldAtEnd c.disk d ∧ d.offset.toNat = n

/-- An interrupted download at one client, and the new offer of the file at the other. -/
structure ResumeStart (p : Handover) (n : Nat) (s : Delivery) : Prop where
  reachable : cltLts.Reachable s.down
  download : ∃ d, Interrupted p.toDeal s.down d n
  online : s.down.st = .authOk ∧ 0 ≤ s.down.srvfd
  offerer : cltLts.Reachable s.up ∧ s.up.st = .authOk
  offer : ∃ o, s.up.transfers.find? (fun o => o.Matches .offer p.dest p.oid) = some o ∧
    o.addr = p.entry ∧ OfferHolds s.up.disk o p.file
  idle : s.asked p = [] ∧ s.answers p = []
  size : 0 < p.file.length ∧ p.file.length < 2 ^ 63
  accepted : s.accepted = false

/-- The part file can be opened again. -/
structure ReopenOk (env : SysEnv) (k : Disk) : Prop where
  opens : ∃ fd, env.resumeFd = some fd ∧ 0 ≤ fd ∧ k.fs.fds fd = none
  seeks : env.seekOk = true

/-- The system calls of the step succeed. -/
def DeliveryEvent.Resumes (s : Delivery) : DeliveryEvent → Prop
  | .accept env => DeliveryEvent.Works s (.accept env) ∧ ReopenOk env.toSysEnv s.down.disk
  | e => e.Works s

/-- The runs in which all system calls succeed. -/
def resumeLts (p : Handover) (n : Nat) : Lts Delivery DeliveryEvent :=
  (Lts.ofFun (ResumeStart p n) (deliveryStep p)).guard DeliveryEvent.Resumes

/-! ## Opening the part file -/

/-- `download_resume` takes the length of the part file for the offset. -/
theorem downloadResume_reopens {env : SysEnv} {k : Disk} {d : Transfer} {partname : Bytes} {i : Nat}
    (hshut : d.fd < 0) (hpart : d.partname = some partname)
    (hdir : k.fs.dir (k.path partname) = some i) (hok : ReopenOk env k) :
    ∃ k' fd, 0 ≤ fd ∧ ∀ offset, downloadResume env k { d with offset := offset } =
      (k', { d with fd := fd, offset := UInt64.ofNat (k.fs.data i).length }, true) := by
  obtain ⟨fd, hfd, h0, hfree⟩ := hok.opens
  obtain ⟨k₁, hk₁⟩ : ∃ k₁ : Disk, k₁ = { k with
    fs := k.fs.attach fd ⟨k.path partname, i, 0⟩
    log := .opened d.addr (k.path partname) i :: k.log } := ⟨_, rfl⟩
  have hopen : k.openFile d.addr partname env.resumeFd = some (fd, k₁) := by
    rw [Disk.openFile, hfd, Files.openFile_of_dir hdir h0 hfree, Option.map_some, hdir, hk₁]
    rfl
  have hseek : k₁.fs.seekEnd fd = some ((k.fs.data i).length,
      k₁.fs.attach fd ⟨k.path partname, i, (k.fs.data i).length⟩) := by
    rw [hk₁, Files.seekEnd, Files.attach_self]
    rfl
  refine ⟨{ k₁ with fs := k₁.fs.attach fd ⟨k.path partname, i, (k.fs.data i).length⟩ }, fd, h0,
    fun offset => ?_⟩
  unfold downloadResume
  rw [if_neg (Int.not_le.mpr hshut)]
  simp only [hpart, Option.bind_some, hopen, if_pos hok.seeks, hseek]

/-- The start of the download finds what is there. -/
theorem startDownload_resumes (env : CltEnv) {k : Disk} {d : Transfer} {partname content : Bytes}
    {i : Nat} (hpart : d.partname = some partname) (hfile : partFile k d = some i)
    (hcontent : k.fs.data i = content) (hlen : content.length < 2 ^ 64)
    (hopened : 0 ≤ d.fd → HeldAtEnd k d ∧ d.offset.toNat = content.length)
    (hreopen : ReopenOk env.toSysEnv k) (hwrite : ∃ count, env.write = some count) :
    ∃ k' fd, Clt.startDownload env k d =
        (k', { d with fd := fd, offset := UInt64.ofNat content.length }, true) ∧ 0 ≤ fd ∧
      PartSynced k' { d with fd := fd, offset := UInt64.ofNat content.length } ∧
      partContent k' { d with fd := fd, offset := UInt64.ofNat content.length } = content := by
  obtain ⟨d₁, hd₁⟩ : ∃ d₁ : Transfer, d₁ = { d with offset := UInt64.ofNat content.length } :=
    ⟨_, rfl⟩
  have hoff : (UInt64.ofNat content.length).toNat = content.length := by
    rw [UInt64.toNat_ofNat', Nat.mod_eq_of_lt hlen]
  have hfile₁ : partFile k d₁ = some i := by rw [hd₁]; exact hfile
  have hcontent₁ : partContent k d₁ = content := by
    rw [partContent_of_file hfile₁, hcontent]
  have hsync : PartSynced k d₁ := by
    refine ⟨fun h0 => ?_, ?_⟩
    · rw [hd₁] at h0 ⊢
      exact (hopened h0).1 h0
    · rw [hcontent₁, hd₁]
      exact hoff
  have hkeep := startDownload_synced env hsync
  -- A closed part file is opened and its length becomes the offset; one that is open is at its end.
  by_cases hshut : d.fd < 0
  · have hdir : k.fs.dir (k.path partname) = some i := by
      rw [partFile, hpart] at hfile
      exact hfile
    obtain ⟨k', fd, h0, hresume⟩ := downloadResume_reopens hshut hpart hdir hreopen
    have hstart : ∀ offset, Clt.startDownload env k { d with offset := offset } =
        (k', { d with fd := fd, offset := UInt64.ofNat content.length }, true) := by
      intro offset
      rw [Clt.startDownload, hresume, hcontent]
    rw [hd₁, hstart] at hkeep
    refine ⟨k', fd, hstart d.offset, h0, hkeep.1, ?_⟩
    rw [← hcontent₁, hd₁]
    exact hkeep.2.1
  · have h0 : 0 ≤ d.fd := Int.not_lt.mp hshut
    obtain ⟨count, hcount⟩ := hwrite
    have hsame : d₁ = d := by
      rw [hd₁, ← (hopened h0).2, UInt64.ofNat_toNat]
    obtain ⟨f, hf, -, -⟩ := (hopened h0).1 h0
    obtain ⟨k', hw⟩ := downloadWrite_all [] (if_pos h0) h0 hf hcount (Nat.zero_le _)
    have hstart : Clt.startDownload env k d = (k', d, true) := by
      rw [Clt.startDownload, downloadResume, if_pos h0]
      exact hw
    rw [hsame, hstart] at hkeep
    have heq : ({ d with fd := d.fd, offset := UInt64.ofNat content.length } : Transfer) = d :=
      hd₁.symm.trans hsame
    refine ⟨k', d.fd, ?_, h0, ?_, ?_⟩
    · rw [heq]
      exact hstart
    · rw [heq]
      exact hkeep.1
    · rw [heq, ← hcontent₁, hsame]
      exact hkeep.2.1

/-! ## The first round trip -/

/-- The download `d` waits to be resumed. -/
structure Resumable (p : Handover) (c : Clt) (d : Transfer) (n : Nat) : Prop where
  nodup : (c.transfers.map Transfer.addr).Nodup
  online : c.st = .authOk ∧ 0 ≤ c.srvfd
  stopped : Interrupted p.toDeal c d n
  named : ∃ name, d.name = some name ∧ d.partname = some (name ++ TXT_PART)
  clean : .premature p.addr ∉ c.disk.log

section Sides

variable {p : Handover} {c t : Clt} {d o : Transfer} {m : Mbuf} {n : Nat}

theorem Resumable.congr (h : Resumable p c d n) (htable : Clt.SameTable c t) (hst : t.st = c.st)
    (hsrvfd : t.srvfd = c.srvfd) : Resumable p t d n := by
  obtain ⟨hdisk, hts, -⟩ := htable
  have hstop := h.stopped
  exact ⟨hts ▸ h.nodup, ⟨hst.trans h.online.1, hsrvfd ▸ h.online.2⟩,
    ⟨hts ▸ hstop.found, hstop.addr, hstop.size, hdisk ▸ hstop.part, hstop.fits,
      hdisk ▸ hstop.opened⟩, h.named, hdisk ▸ h.clean⟩

/-- `accept` finds the beginning of the file, and asks for as many octets as it has. -/
theorem accept_resumes {env : CltEnv} (h : Resumable p c d n) (hlen : p.file.length < 2 ^ 63)
    (hok : WritesOk env.toSysEnv) (hreopen : ReopenOk env.toSysEnv c.disk) :
    ∃ t d' m, Clt.cmdAccept env c p.rid p.oid = some t ∧ t.q = c.q ++ [m] ∧
      Downloading p t d' ∧ d'.offset.toNat = n ∧ Requests p d' d'.size m := by
  obtain ⟨name, hname, hpart⟩ := h.named
  obtain ⟨count, hcount, -⟩ := hok.writes
  obtain ⟨i, hfile, hdata⟩ := h.stopped.part
  have hfits := h.stopped.fits
  have htake : (p.file.take n).length = n := by
    rw [List.length_take]
    omega
  have hopened : 0 ≤ d.fd → HeldAtEnd c.disk d ∧ d.offset.toNat = (p.file.take n).length := by
    rw [htake]
    exact h.stopped.opened
  obtain ⟨k', fd, hstart, h0, hsync, hcontent⟩ := startDownload_resumes env
    (k := c.disk.note (.accepted d.addr)) (d := { d with tact := env.now }) hpart hfile hdata
    (by omega) hopened ⟨hreopen.opens, hreopen.seeks⟩ ⟨count, hcount⟩
  have hacts := startDownload_acts env (c.disk.note (.accepted d.addr)) { d with tact := env.now }
  rw [hstart] at hacts
  obtain ⟨d', hd'⟩ : ∃ d' : Transfer, d' =
    { d with tact := env.now, fd := fd, offset := UInt64.ofNat (p.file.take n).length } := ⟨_, rfl⟩
  have hmatch := matches_of_find h.stopped.found
  obtain ⟨m, hm⟩ : ∃ m, Clt.getfileRequest env d' p.oid d'.size = some m :=
    ⟨_, Clt.getfileRequest_eq _ _ _ _⟩
  have hasks : Requests p d' d'.size m := ⟨env, hm⟩
  refine ⟨(c.put k' d').enqueueMsg m, d', m, ?_, congrArg (c.q ++ [·]) hasks.rewound, ?_, ?_, hasks⟩
  · have hfind : transferMatch env.now .download p.rid p.oid c.transfers =
        some { d with tact := env.now } := by
      rw [transferMatch, h.stopped.found]
      rfl
    unfold Clt.cmdAccept
    rw [hfind]
    simp only [hstart]
    rw [← hd', show d.size = d'.size by rw [hd'], hm, Option.map_some]
    exact congrArg some (if_neg (Int.not_lt.mpr h.online.2))
  · subst hd'
    refine ⟨(map_addr_putTransfer _ _).symm ▸ h.nodup, h.online.1, ?_, h.stopped.addr,
      h.stopped.size, ⟨name, hname, hpart⟩, h0, hsync, ?_, ?_⟩
    · exact find_putTransfer h.nodup h.stopped.found rfl
        (decide_eq_true ⟨hmatch.1, hmatch.2.1, hmatch.2.2.1, hok.now⟩)
    · change partContent k' _ <+: _
      rw [hcontent]
      exact List.take_prefix _ _
    · intro hpre
      have hold := hacts.mem_of_not (a := .premature p.addr) (fun hact => hact.noEnd trivial) hpre
      exact h.clean ((List.mem_cons.mp hold).resolve_left fun heq => by cases heq)
  · rw [hd', htake]
    change (UInt64.ofNat n).toNat = n
    rw [UInt64.toNat_ofNat', Nat.mod_eq_of_lt (by omega)]

/-- A request at the end of the file is answered with an error, and the offer stays. -/
theorem offer_refuses {env : CltEnv} {sz : UInt64} (h : Offering p c o)
    (hok : ReadsOk env.toSysEnv c.disk) (hm : Requests p d sz m) (hsz : sz ≠ 0)
    (hoff : d.offset.toNat = p.file.length) :
    ∃ t r, Clt.processSrvmsg env c (hdrSetSrcid m p.dest) = some t ∧ t.q = c.q ++ [r] ∧
      hdrGetType r = MsgType.code .getfileErr ∧
      ∃ o' ∈ t.transfers, o'.addr = p.entry ∧ 0 < o'.tact := by
  have hmem : (capSize sz).toNat ≤ env.memory := by
    have hwanted := capSize_toNat sz
    have hmax := hok.memory
    omega
  have hc : offerContent env.toSysEnv c.disk o = some p.file := h.holds.content hok.opens
  -- At the end of the file there is nothing to read.
  have hnil : ∀ content, offerContent env.toSysEnv c.disk o = some content → ∀ count,
      readAt content d.offset.toNat (capSize sz).toNat count = [] := by
    intro content hc' count
    rw [hc, Option.some.injEq] at hc'
    rw [readAt, ← hc', hoff, List.drop_length, List.take_nil]
  rcases getfile_outcome (hm.getfileReq env h) with ⟨-, t, r, hreply, hserved⟩ | ⟨hbad, -⟩
  · cases hserved with
    | ended hsize => exact absurd hsize (capSize_ne_zero hsz)
    | data _ hc' _ _ _ hne => exact absurd (hnil _ hc' _) hne
    | refused _ _ hgoes htype =>
        obtain ⟨fd, hts⟩ := hgoes.entry
        refine ⟨t, r, hreply.step, hreply.queued, htype, { o with fd := fd, tact := env.now }, ?_,
          h.addr, hok.now⟩
        rw [hts]
        exact mem_putTransfer_self (List.mem_of_find?_eq_some h.found) rfl
  · refine absurd (.inr fun content hc' _ _ => ⟨hmem, fun count _ => ?_⟩) hbad
    rw [hnil content hc' count]
    exact Nat.zero_le _

end Sides

/-! ## Phases -/

/-- What a resumed download is waiting for: the user, the answer to its first request,
the next step of a delivery, or, where its first request was refused, nothing. -/
inductive ResumePhase (p : Handover) (n : Nat) (s : Delivery) : Nat → Prop
  | waiting {d o : Transfer} : s.accepted = false → Resumable p s.down d n →
      Offering p s.up o → s.asked p = [] → s.answers p = [] →
      ResumePhase p n s (p.file.length + 1)
  | first {d o : Transfer} {m : Mbuf} : s.accepted = true → Downloading p s.down d →
      d.offset.toNat = n → Offering p s.up o → Requests p d d.size m → s.asked p = [m] →
      (m ∈ s.toUp → m ∈ s.down.requests) → s.answers p = [] →
      ResumePhase p n s (p.file.length - n)
  | going {left : Nat} : n < p.file.length → DeliveryPhase p s left → ResumePhase p n s left
  | refused : n = p.file.length → s.accepted = true → OfferLives p s → s.asked p = [] →
      s.answers p = [] → ResumePhase p n s 0

section Phases

variable {p : Handover} {n : Nat} {s : Delivery} {left : Nat}

/-- What becomes of `s` by the event `e`: there is less left to do. -/
def Continues (p : Handover) (n : Nat) (s : Delivery) (left : Nat) (e : DeliveryEvent) : Prop :=
  ∃ t left', deliveryStep p s e = some t ∧ ResumePhase p n t left' ∧
    5 * left' + t.weight < 5 * left + s.weight

theorem Advances.continues {e : DeliveryEvent} (hn : n < p.file.length)
    (h : Advances p s left e) : Continues p n s left e := by
  obtain ⟨t, left', hstep, hphase, hlt⟩ := h
  exact ⟨t, left', hstep, .going hn hphase, hlt⟩

theorem ResumePhase.sendDown (h : ResumePhase p n s left) (hq : s.down.q ≠ []) :
    Continues p n s left .sendDown := by
  obtain ⟨t, hstep, hd⟩ := Delivery.sendDown_spec (p := p) hq
  have hlighter := hd.lighter
  cases h with
  | waiting ha hw ho hno hans =>
      exact ⟨t, _, hstep, .waiting (hd.accepted.trans ha) (hw.congr hd.table hd.st hd.srvfd)
        (hd.up ▸ ho) (hd.asked.trans hno) (hd.answers.trans hans), by omega⟩
  | @first d o m ha hdown hoff ho hm hone hpend hans =>
      exact ⟨t, _, hstep, .first (hd.accepted.trans ha) (hdown.congr hd.table hd.st) hoff
        (hd.up ▸ ho) hm (hd.asked.trans hone) (hd.pending m hpend) (hd.answers.trans hans),
        by omega⟩
  | going hn hphase => exact (hphase.sendDown hq).continues hn
  | refused hn ha ho hno hans =>
      exact ⟨t, 0, hstep, .refused hn (hd.accepted.trans ha) (ho.congr (by rw [hd.up]))
        (hd.asked.trans hno) (hd.answers.trans hans), by omega⟩

theorem ResumePhase.sendUp (h : ResumePhase p n s left) (hq : s.up.q ≠ []) :
    Continues p n s left .sendUp := by
  obtain ⟨t, hstep, hu⟩ := Delivery.sendUp_spec (p := p) hq
  have hlighter := hu.lighter
  cases h with
  | waiting ha hw ho hno hans =>
      exact ⟨t, _, hstep, .waiting (hu.accepted.trans ha) (hu.down ▸ hw)
        (ho.congr hu.table hu.st) (hu.asked.trans hno) (hu.answers.trans hans), by omega⟩
  | first ha hdown hoff ho hm hone hpend hans =>
      refine ⟨t, _, hstep, .first (hu.accepted.trans ha) (hu.down ▸ hdown) hoff
        (ho.congr hu.table hu.st) hm (hu.asked.trans hone) ?_ (hu.answers.trans hans), by omega⟩
      rw [hu.toUp, hu.down]
      exact hpend
  | going hn hphase => exact (hphase.sendUp hq).continues hn
  | refused hn ha ho hno hans =>
      exact ⟨t, 0, hstep, .refused hn (hu.accepted.trans ha) (ho.congr hu.table.2.1)
        (hu.asked.trans hno) (hu.answers.trans hans), by omega⟩

theorem ResumePhase.accept {env : CltEnv} (h : ResumePhase p n s left)
    (hlen : p.file.length < 2 ^ 63) (hready : s.accepted = false)
    (hok : DeliveryEvent.Resumes s (.accept env)) : Continues p n s left (.accept env) := by
  have hother : s.accepted ≠ true := by
    rw [hready]
    decide
  cases h with
  | @waiting d o ha hw ho hno hans =>
      obtain ⟨c, d', m, hc, hq, hd', hoff, hm⟩ :=
        accept_resumes hw hlen hok.1.1 hok.2
      have hasks : AsksFor m p.rid p.oid := hm.asksFor hd'.matches.2.2.1.symm
      obtain ⟨hone, hnew⟩ := Delivery.asked_queued (t := { s with down := c, accepted := true })
        hno rfl hq hasks
      refine ⟨{ s with down := c, accepted := true }, p.file.length - n, ?_,
        .first rfl hd' hoff ho hm hone (fun hmem => absurd hmem hnew) hans, ?_⟩
      · unfold deliveryStep
        simp only [hready, hc]
        rfl
      · unfold Delivery.weight
        simp only [hq, List.length_append, List.length_singleton]
        omega
  | first ha => exact absurd ha hother
  | going hn hphase => exact (hphase.accept hready hok.1.1 hok.1.2).continues hn
  | refused _ ha => exact absurd ha hother

theorem ResumePhase.handleUp {env : CltEnv} (h : ResumePhase p n s left)
    (hsize : 0 < p.file.length ∧ p.file.length < 2 ^ 63) (hready : s.toUp ≠ [])
    (hok : ReadsOk env.toSysEnv s.up.disk) : Continues p n s left (.handleUp env) := by
  obtain ⟨m₀, ms, htoUp⟩ := List.exists_cons_of_ne_nil hready
  have hother : s.asked p ≠ [] := fun hno => hready (List.append_eq_nil_iff.mp hno).1
  cases h with
  | @first d o m ha hd hn ho hm hone hpend hans =>
      obtain ⟨rfl, rfl, hqueued⟩ := single_underway hone htoUp
      have hrid := hd.matches.2.2.1.symm
      -- The whole file is asked for, and the file is not empty.
      have hsz : d.size ≠ 0 := by
        intro h0
        have := hd.size
        rw [h0] at this
        change 0 = _ at this
        omega
      rcases Nat.lt_or_eq_of_le hd.offset_le with hoff | hoff
      · obtain ⟨c, o', r, data, hc, hq, ho', hr, hne, hdata⟩ :=
          offer_serves ho hok hm hsz hsize.2 hoff
        have hwait : Awaited p (hdrGetTrfid m₀) s.down := by
          obtain ⟨htype, hdst, -⟩ := hm.asksFor hrid
          exact ⟨m₀, hpend (htoUp ▸ List.mem_cons_self), htype, hdst, rfl⟩
        have hanswers := Delivery.answers_queued hans hq hr.servesFor
        have hlighter := Delivery.handleUp_lighter htoUp hq
        exact ⟨_, _, Delivery.handleUp_spec htoUp hc, .going (hn ▸ hoff)
          (.bringing ha hd ho' hwait hqueued hr hne hdata hanswers), by omega⟩
      · obtain ⟨c, r, hc, hq, htype, hlives⟩ := offer_refuses ho hok hm hsz hoff
        have hserves : ¬ ServesFor r p.dest p.oid := by
          rintro ⟨hres, -⟩
          rw [htype] at hres
          exact absurd hres (by decide)
        have hanswers : ({ s with up := c, toUp := [] } : Delivery).answers p = [] := by
          unfold Delivery.answers at hans ⊢
          simp only [hq]
          rw [List.filter_append, ← List.append_assoc, hans]
          simp [hserves]
        have hlighter := Delivery.handleUp_lighter htoUp hq
        exact ⟨_, 0, Delivery.handleUp_spec htoUp hc,
          .refused (hn ▸ hoff) ha hlives hqueued hanswers, by omega⟩
  | waiting _ _ _ hno => exact absurd hno hother
  | going hn hphase => exact (hphase.handleUp hsize.2 hready hok).continues hn
  | refused _ _ _ hno => exact absurd hno hother

theorem ResumePhase.handleDown {env : CltEnv} (h : ResumePhase p n s left)
    (hready : s.toDown ≠ []) (hok : WritesOk env.toSysEnv) :
    Continues p n s left (.handleDown env) := by
  have hother : s.answers p ≠ [] := fun hno => hready (List.append_eq_nil_iff.mp hno).1
  cases h with
  | going hn hphase => exact (hphase.handleDown hready hok).continues hn
  | waiting _ _ _ _ hans => exact absurd hans hother
  | first _ _ _ _ _ _ _ hans => exact absurd hans hother
  | refused _ _ _ _ hans => exact absurd hans hother

/-- **Whatever can happen next does happen, and leads on.** -/
theorem ResumePhase.advance {e : DeliveryEvent} (h : ResumePhase p n s left)
    (hsize : 0 < p.file.length ∧ p.file.length < 2 ^ 63) (hready : e.Ready s) (hok : e.Resumes s) :
    Continues p n s left e := by
  cases e with
  | accept env => exact h.accept hsize.2 hready hok
  | sendDown => exact h.sendDown hready
  | handleUp env => exact h.handleUp hsize hready hok
  | sendUp => exact h.sendUp hready
  | handleDown env => exact h.handleDown hready hok

end Phases

/-! ## Runs -/

section Runs

variable {p : Handover} {n : Nat} {s : Delivery} {left : Nat}

/-- At the start the download waits for the user. -/
theorem ResumeStart.phase (h : ResumeStart p n s) :
    ResumePhase p n s (p.file.length + 1) := by
  obtain ⟨d, hstop⟩ := h.download
  obtain ⟨o, hfound, haddr, hholds⟩ := h.offer
  have hd := List.mem_of_find?_eq_some hstop.found
  have hmatch := matches_of_find hstop.found
  obtain ⟨hok, hnames⟩ := livePartNames_inductive.invariant s.down h.reachable
  refine .waiting (d := d) (o := o) h.accepted ⟨hok.inOrder.nodup, h.online, hstop,
    hnames d hd hmatch.1.symm hmatch.2.2.2, ?_⟩
    ⟨(cltOk_inductive.invariant s.up h.offerer.1).inOrder.nodup, h.offerer.2, hfound, haddr, hholds⟩
    h.idle.1 h.idle.2
  intro hpre
  exact not_ended_of_live h.reachable hd hmatch.2.2.2 hpre trivial hstop.addr.symm

/-- When there is nothing left to do, the file is delivered, unless all of it was there. -/
theorem ResumePhase.settled (h : ResumePhase p n s left) (hidle : ∀ e : DeliveryEvent, ¬ e.Ready s) :
    Delivered p s ↔ n < p.file.length := by
  cases h with
  | waiting ha => exact absurd ha (hidle (.accept demoEnv))
  | first _ _ _ _ _ hone =>
      rcases underway_or_queued hone with hnet | hq
      · exact absurd hnet (hidle (.handleUp demoEnv))
      · exact absurd hq (hidle .sendDown)
  | going hn hphase =>
      exact ⟨fun _ => hn, fun _ => hphase.settled.resolve_right fun ⟨e, he⟩ => hidle e he⟩
  | refused hn _ ho =>
      exact ⟨fun hdone => absurd ho hdone.invalidated.2, fun hlt => absurd hn (Nat.ne_of_lt hlt)⟩

/-- **A resumed download is completed exactly when octets are missing.** In whatever order
the two sides take their steps, the run is finite, whatever can happen next does happen,
and when nothing is left to do, the file is there if the part file was shorter. -/
theorem resume_completes_iff {s₀ : Delivery} {es : List DeliveryEvent} (h₀ : ResumeStart p n s₀)
    (hrun : (resumeLts p n).Run s₀ es s) :
    es.length ≤ 5 * (p.file.length + 1) + s₀.weight ∧
      (∀ e : DeliveryEvent, e.Ready s → e.Resumes s → (deliveryStep p s e).isSome) ∧
      ((∀ e : DeliveryEvent, ¬ e.Ready s) → (Delivered p s ↔ n < p.file.length)) := by
  have hstep : ∀ (s : Delivery) e t k,
      (∃ left, ResumePhase p n s left ∧ 5 * left + s.weight ≤ k) → (resumeLts p n).step s e t →
      ∃ k' < k, ∃ left, ResumePhase p n t left ∧ 5 * left + t.weight ≤ k' := by
    rintro s e t k ⟨left, hphase, hk⟩ ⟨hstep, hok⟩
    obtain ⟨t', left', hstep', hphase', hlt⟩ :=
      hphase.advance h₀.size (ready_of_step hstep) hok
    obtain rfl : t' = t := Option.some.inj (hstep'.symm.trans hstep)
    exact ⟨_, by omega, left', hphase', Nat.le_refl _⟩
  obtain ⟨k, hle, left, hphase, -⟩ := hrun.budget
    (P := fun s k => ∃ left, ResumePhase p n s left ∧ 5 * left + s.weight ≤ k) hstep
    ⟨_, h₀.phase, Nat.le_refl _⟩
  refine ⟨by omega, fun e hready hok => ?_, hphase.settled⟩
  obtain ⟨t, left', hnext, -⟩ := hphase.advance h₀.size hready hok
  rw [hnext]
  rfl

end Runs

instance (env : SysEnv) (k : Disk) : Decidable (ReopenOk env k) :=
  decidable_of_iff ((env.resumeFd.any fun fd => decide (0 ≤ fd) && (k.fs.fds fd).isNone) = true ∧
      env.seekOk = true)
    ⟨fun h => ⟨by simpa [Option.any_eq_true] using h.1, h.2⟩,
      fun h => ⟨by simpa [Option.any_eq_true] using h.opens, h.seeks⟩⟩

instance (s : Delivery) (e : DeliveryEvent) : Decidable (e.Resumes s) :=
  match e with
  | .accept env => inferInstanceAs
      (Decidable (DeliveryEvent.Works s (.accept env) ∧ ReopenOk env.toSysEnv s.down.disk))
  | .sendDown => inferInstanceAs (Decidable (DeliveryEvent.Works s .sendDown))
  | .handleUp env => inferInstanceAs (Decidable (DeliveryEvent.Works s (.handleUp env)))
  | .sendUp => inferInstanceAs (Decidable (DeliveryEvent.Works s .sendUp))
  | .handleDown env => inferInstanceAs (Decidable (DeliveryEvent.Works s (.handleDown env)))

/-- A step of the resumed download in which the system calls succeed. -/
def resumeTry (p : Handover) (s : Delivery) (e : DeliveryEvent) : Option Delivery :=
  if e.Resumes s then deliveryStep p s e else none

theorem resumeTry_step {p : Handover} {n : Nat} {s t : Delivery} {e : DeliveryEvent}
    (h : resumeTry p s e = some t) : (resumeLts p n).step s e t := by
  unfold resumeTry at h
  split at h
  · rename_i hworks
    exact ⟨h, hworks⟩
  · cases h

/-- The two clients are in a state in which the offer can be accepted, and `n` octets
of the file are there. -/
def demoResumable (n : Nat) (c u : Clt) : Bool :=
  (c.transfers.find? fun d => d.Matches .download 5 6).any (fun d =>
    d.addr == 0 && d.size == 2 && decide (d.fd < 0) &&
      (partFile c.disk d).any fun i => c.disk.fs.data i == [1, 2].take n) &&
  (u.transfers.find? fun o => o.Matches .offer 7 6).any (fun o =>
    o.addr == 0 && decide (OfferHolds u.disk o [1, 2])) &&
  (c.q.filter fun m => AsksFor m 5 6) == [] && c.st == .authOk && decide (0 ≤ c.srvfd) &&
  u.st == .authOk && (u.q.filter fun r => ServesFor r 7 6) == [] && decide (n ≤ 2)

theorem demoResumable_start {n : Nat} {c u : Clt} (hc : cltLts.Reachable c)
    (hu : cltLts.Reachable u) (h : demoResumable n c u = true) :
    ResumeStart demoHandover n ⟨c, u, [], [], false⟩ := by
  unfold demoResumable at h
  simp only [Bool.and_eq_true, Option.any_eq_true, beq_iff_eq, decide_eq_true_eq] at h
  obtain ⟨⟨⟨⟨⟨⟨⟨hstop, hoffer⟩, hq⟩, hst⟩, hfd⟩, hust⟩, hidle⟩, hn⟩ := h
  obtain ⟨d, hfind, ⟨⟨haddr, hsize⟩, hshut⟩, hpart⟩ := hstop
  exact ⟨hc, ⟨d, hfind, haddr, by rw [hsize]; rfl, hpart, hn, fun h0 => absurd hshut (by omega)⟩,
    ⟨hst, hfd⟩, ⟨hu, hust⟩, hoffer, ⟨hq, hidle⟩, by decide, rfl⟩

/-- The user accepts, and every message that is queued leaves and is handled; the
descriptors of the peer are numbered from 21. -/
def demoResumption (trips : Nat) : List DeliveryEvent :=
  let env (fd : Int) : CltEnv :=
    { demoEnv with openFd := some fd, resumeFd := some fd, read := some 1, write := some 65376 }
  let trip (fd : Int) : List DeliveryEvent :=
    [.sendDown, .handleUp (env fd), .sendUp, .handleDown (env fd)]
  .accept (env 20) :: .sendUp :: (List.range trips).flatMap fun i => trip (21 + i)

/-- The run of two clients, one of which has `n` octets of the other's file. -/
def demoResumed (n : Nat) (es : List DeliveryEvent) (P : Delivery → Bool) : Bool :=
  (Lts.exec cltTry (demoClient false [(ascii "a.part", [1, 2].take n)])
    (loginRun ++ offerRun (ascii "a") 2)).any fun c =>
  (Lts.exec cltTry (demoClient false [(ascii "f", [1, 2])])
    (loginRun ++ [.cmd (.offer 7 (ascii "f")) { demoEnv with rndOffer := 6 }])).any fun u =>
  demoResumable n c u &&
    (Lts.exec (resumeTry demoHandover) ⟨c, u, [], [], false⟩ es).any fun s => s.idle && P s

theorem demoResumed_run {n : Nat} {es : List DeliveryEvent} {P : Delivery → Bool}
    (h : demoResumed n es P = true) : ∃ s₀ s : Delivery, ResumeStart demoHandover n s₀ ∧
      (resumeLts demoHandover n).Run s₀ es s ∧ (∀ e : DeliveryEvent, ¬ e.Ready s) ∧ P s = true := by
  obtain ⟨c, hc, h⟩ := Lts.reachable_of_exec (fun _ _ _ => cltTry_step)
    (demoClient_init false [(ascii "a.part", [1, 2].take n)]) h
  obtain ⟨u, hu, h⟩ := Lts.reachable_of_exec (fun _ _ _ => cltTry_step)
    (demoClient_init false [(ascii "f", [1, 2])]) h
  obtain ⟨hstart, h⟩ := Bool.and_eq_true_iff.mp h
  obtain ⟨s, hrun, hs⟩ := Lts.run_of_exec (M := resumeLts demoHandover n)
    (fun _ _ _ => resumeTry_step) h
  obtain ⟨hidle, hP⟩ := Bool.and_eq_true_iff.mp hs
  exact ⟨_, s, demoResumable_start hc hu hstart, hrun, not_ready_of_idle hidle, hP⟩

/-- One octet of two is there, and the other is fetched. -/
theorem resume_completes_half : ∃ s₀ s : Delivery, ResumeStart demoHandover 1 s₀ ∧
    (resumeLts demoHandover 1).Run s₀ (demoResumption 2) s ∧ Delivered demoHandover s := by
  have hexec : demoResumed 1 (demoResumption 2) (fun _ => true) = true := by decide +kernel
  obtain ⟨s₀, s, h₀, hrun, hidle, -⟩ := demoResumed_run hexec
  exact ⟨s₀, s, h₀, hrun, ((resume_completes_iff h₀ hrun).2.2 hidle).mpr (by decide)⟩

/-- All of the file is there, the peer refuses to send it, and the download is never finished. -/
theorem resume_refused : ∃ s₀ s : Delivery, ResumeStart demoHandover 2 s₀ ∧
    (resumeLts demoHandover 2).Run s₀ (demoResumption 1).dropLast s ∧
    (∀ e : DeliveryEvent, ¬ e.Ready s) ∧ ¬ Delivered demoHandover s := by
  have hexec : demoResumed 2 (demoResumption 1).dropLast
      (fun s => s.up.transfers.any fun o => o.addr == 0 && decide (0 < o.tact)) = true := by
    decide +kernel
  obtain ⟨s₀, s, h₀, hrun, hidle, hlives⟩ := demoResumed_run hexec
  refine ⟨s₀, s, h₀, hrun, hidle, fun hdone => hdone.invalidated.2 ?_⟩
  obtain ⟨o, ho, hlive⟩ := List.any_eq_true.mp hlives
  obtain ⟨haddr, hlive⟩ := Bool.and_eq_true_iff.mp hlive
  exact ⟨o, ho, eq_of_beq haddr, of_decide_eq_true hlive⟩

end Frelay
