import Frelay.Client.Names
import Frelay.Lib.Tickets

/-!
# Only accepted downloads are written

A GETFILE response finds its request by peer and transaction id, and its
download by peer and offer number, and nothing ties the two together: the
requests are tickets (`Lib.Desk`) that the peer can have redeemed for any of its
offers. `only_accepted_written` says what holds in the runs where every response
names the offer its request was about and no offer takes a number in use;
`unaccepted_written` is a peer that names another of its offers.
-/

namespace Frelay

open Lib

/-! ## Keys -/

/-- An OFFER request that is not refused for want of a name or a size. -/
def OfferTaken (env : CltEnv) (c : Clt) (m : Mbuf) : Prop :=
  offerSize env m ≠ 0 ∧
    ((offerFilenames env m).getLast?.any fun s => c.cfg.noClobber || s != []) = true

instance (env : CltEnv) (c : Clt) (m : Mbuf) : Decidable (OfferTaken env c m) :=
  inferInstanceAs (Decidable (_ ∧ _))

/-- A GETFILE request for the offer `oid` of the peer `rid`. -/
def AsksFor (r : Mbuf) (rid oid : UInt64) : Prop :=
  hdrGetType r = MsgType.code .getfileReq ∧ hdrGetDstid r = rid ∧ Clt.getOid r = oid

instance (r : Mbuf) (rid oid : UInt64) : Decidable (AsksFor r rid oid) :=
  inferInstanceAs (Decidable (_ ∧ _))

/-- The offer named in the GETFILE response a step handles, and the request the
response answers. -/
def CltEvent.redeemed (c : Clt) (e : CltEvent) : Option (UInt64 × Mbuf) :=
  (e.message c).bind fun p =>
    if hdrGetType p.2 = MsgType.code .getfileRes then
      (c.matchPendingReq p.2).bind fun q =>
        (Clt.nextIf (mbufResetgetattrib p.2) .offerid).map fun a =>
          (ui64At a.2 p.1.beyond a.1.av, q.1)
    else none

/-- A response names the offer its request asked for, and an offer has a number
that no download and no request of the same peer has. -/
structure KeysKept (c : Clt) (e : CltEvent) : Prop where
  response : ∀ oid r, e.redeemed c = some (oid, r) → Clt.getOid r = oid
  offer : ∀ env m, e.offered c = some (env, m) → OfferTaken env c m →
    (∀ d ∈ c.transfers, ¬ d.Matches .download (hdrGetSrcid m)
      (Clt.offerOid env (mbufResetgetattrib m))) ∧
    ∀ r ∈ c.q ++ c.requests, ¬ AsksFor r (hdrGetSrcid m) (Clt.offerOid env (mbufResetgetattrib m))

/-! ## Refused offers -/

/-- The name `make_filenames` sets, and the size it leaves alone. -/
theorem makeFilenames_name (env : SysEnv) (noClobber : Bool) (k : Disk) (d : Transfer) (s : Bytes) :
    (makeFilenames env noClobber k d s).2.size = d.size ∧
      ((noClobber = false ∧ (makeFilenames env noClobber k d s).2.name = some s) ∨
        (noClobber = true ∧
          ∃ i, (makeFilenames env noClobber k d s).2.name = some (nameCandidate s i))) := by
  have hloop : ∀ (n i : Nat) (k : Disk), (makeFilenamesFrom env s n i k d).2.size = d.size ∧
      ∃ i', (makeFilenamesFrom env s n i k d).2.name = some (nameCandidate s i') := by
    intro n
    induction n with
    | zero => exact fun i _ => ⟨rfl, i - 1, rfl⟩
    | succ n ih =>
        intro i k
        simp only [makeFilenamesFrom]
        split
        · exact ih (i + 1) k
        · split
          · exact ih (i + 1) _
          · exact ⟨rfl, i, rfl⟩
  unfold makeFilenames
  cases noClobber with
  | true =>
      obtain ⟨hsize, hname⟩ := hloop (INT_MAX - 1) 1 k
      exact ⟨hsize, .inr ⟨rfl, hname⟩⟩
  | false => exact ⟨rfl, .inl ⟨rfl, rfl⟩⟩

/-- One attribute at the end of an OFFER request. -/
theorem offerAttrib_last (env : CltEnv) (noClobber : Bool) (m : Mbuf) (p : Disk × Transfer)
    (a : AttrRef) :
    (Clt.offerAttrib env noClobber m p a).2.size =
        (if a.at' = MsgAttrib.code .size then ui64At m env.beyond a.av else p.2.size) ∧
      if a.at' = MsgAttrib.code .filename then
        (noClobber = false ∧
          (Clt.offerAttrib env noClobber m p a).2.name = some (cstrAt m env.beyond a.av)) ∨
        (noClobber = true ∧ ∃ i, (Clt.offerAttrib env noClobber m p a).2.name =
          some (nameCandidate (cstrAt m env.beyond a.av) i))
      else (Clt.offerAttrib env noClobber m p a).2.name = p.2.name := by
  obtain ⟨k, d⟩ := p
  have hcodes : MsgAttrib.code .offerid ≠ MsgAttrib.code .filename ∧
      MsgAttrib.code .offerid ≠ MsgAttrib.code .size ∧
      MsgAttrib.code .filename ≠ MsgAttrib.code .size := by decide
  unfold Clt.offerAttrib
  simp only
  by_cases hoid : a.at' = MsgAttrib.code .offerid
  · rw [if_pos hoid, hoid, if_neg hcodes.2.1, if_neg hcodes.1]
    exact ⟨rfl, rfl⟩
  · rw [if_neg hoid]
    by_cases hfile : a.at' = MsgAttrib.code .filename
    · rw [if_pos hfile, if_pos hfile, hfile, if_neg hcodes.2.2]
      exact makeFilenames_name _ _ _ _ _
    · rw [if_neg hfile, if_neg hfile]
      by_cases hsize : a.at' = MsgAttrib.code .size
      · rw [if_pos hsize, if_pos hsize]
        exact ⟨rfl, rfl⟩
      · rw [if_neg hsize, if_neg hsize]
        exact ⟨rfl, rfl⟩

/-- The last FILENAME and the last SIZE of an OFFER request decide. -/
theorem offeredEntry_last (env : CltEnv) (c : Clt) (m : Mbuf) :
    (Clt.offeredEntry env c m).2.size = offerSize env m ∧
      (((offerFilenames env m).getLast? = none ∧ (Clt.offeredEntry env c m).2.name = none) ∨
        ∃ s, (offerFilenames env m).getLast? = some s ∧
          ((c.cfg.noClobber = false ∧ (Clt.offeredEntry env c m).2.name = some s) ∨
            (c.cfg.noClobber = true ∧
              ∃ i, (Clt.offeredEntry env c m).2.name = some (nameCandidate s i)))) := by
  unfold Clt.offeredEntry offerSize offerFilenames
  generalize hl : Clt.attribRefs (mbufResetgetattrib m) = l
  clear hl
  -- The attributes are taken off the end: the last of a kind is the one that counts.
  induction l using List.reverseRecOn with
  | nil => exact ⟨rfl, .inl ⟨rfl, rfl⟩⟩
  | append_singleton l a ih =>
      obtain ⟨hsize, hname⟩ := offerAttrib_last env c.cfg.noClobber (mbufResetgetattrib m)
        (l.foldl (Clt.offerAttrib env c.cfg.noClobber (mbufResetgetattrib m))
          (c.disk, Clt.offerEntry env c m)) a
      rw [List.foldl_append, List.foldl_cons, List.foldl_nil, List.filter_append,
        List.filter_append, List.map_append, List.map_append]
      refine ⟨?_, ?_⟩
      · by_cases hs : a.at' = MsgAttrib.code .size
        · rw [if_pos hs] at hsize
          rw [hsize, List.filter_cons_of_pos (by simpa using hs)]
          simp
        · rw [if_neg hs] at hsize
          rw [hsize, List.filter_cons_of_neg (by simpa using hs), List.filter_nil, List.map_nil,
            List.append_nil]
          exact ih.1
      · by_cases hf : a.at' = MsgAttrib.code .filename
        · rw [if_pos hf] at hname
          rw [List.filter_cons_of_pos (by simpa using hf)]
          exact .inr ⟨_, by simp, hname⟩
        · rw [if_neg hf] at hname
          rw [hname, List.filter_cons_of_neg (by simpa using hf), List.filter_nil, List.map_nil,
            List.append_nil]
          exact ih.2

/-- An offer that was not taken is refused. -/
theorem taken_of_live {env : CltEnv} {c : Clt} {m : Mbuf}
    (h : 0 < (Clt.enterOffer (Clt.offeredEntry env c m)).2.tact) : OfferTaken env c m := by
  obtain ⟨hsize, hname⟩ := offeredEntry_last env c m
  unfold Clt.enterOffer at h
  split at h
  · exact absurd h (Int.lt_irrefl 0)
  · rename_i hgood
    rw [not_or] at hgood
    refine ⟨fun hzero => hgood.2 (hsize.trans hzero), ?_⟩
    rcases hname with ⟨-, hnone⟩ | ⟨s, hs, ⟨-, hsome⟩ | ⟨hnc, -⟩⟩
    · rw [hnone] at hgood
      exact absurd rfl hgood.1
    · rw [hs, Option.any_some]
      rw [hsome, Option.getD_some] at hgood
      simp [hgood.1]
    · rw [hs, Option.any_some, hnc]
      rfl

/-! ## Requests as tickets -/

/-- The client as a desk: `accept` grants a download, a GETFILE request is a ticket. -/
def Clt.desk (c : Clt) : Desk Nat (UInt64 × UInt64) where
  live addr k := LiveDownload c.transfers addr k.1 k.2
  tickets k := ∃ r ∈ c.q ++ c.requests, AsksFor r k.1 k.2
  granted addr := .accepted addr ∈ c.disk.log

/-- Actions that alter a part file come after the `accept` for their entry. -/
def AcceptedFirst (log : List TransferAct) : Prop :=
  ∀ a l, (a :: l) <:+ log → a.Alters → .accepted a.addr ∈ l

/-- The log grows by actions for entries that were accepted. -/
theorem AcceptedFirst.grown {log log' : List TransferAct} (h : AcceptedFirst log)
    (hg : Grown (fun a => a.Alters → .accepted a.addr ∈ log) log log') : AcceptedFirst log' := by
  obtain ⟨acts, rfl, hacts⟩ := hg
  induction acts with
  | nil => exact h
  | cons b acts ih =>
      have hrest := ih fun a ha => hacts a (List.mem_cons_of_mem _ ha)
      intro a l hsuf halt
      rw [List.cons_append] at hsuf
      rcases List.suffix_cons_iff.mp hsuf with heq | hsuf
      · obtain ⟨rfl, rfl⟩ := List.cons.inj heq
        exact List.mem_append_right _ (hacts a List.mem_cons_self halt)
      · exact hrest a l hsuf halt

/-- A message asks for the same as its copy with another offset. -/
theorem AsksFor.congr {r r' : Mbuf} {rid oid : UInt64} (hb : r.b = r'.b) (h : AsksFor r' rid oid) :
    AsksFor r rid oid := by
  unfold AsksFor hdrGetType hdrGetDstid Clt.getOid ui64At at *
  rw [hb]
  exact h

/-- What is done for a granted download. -/
theorem OnEntry.acceptedFirst {w : Prop} {k k' : Disk} {d d' : Transfer} (hon : OnEntry w k d k' d')
    (h : AcceptedFirst k.log) (hw : w → .accepted d.addr ∈ k.log) : AcceptedFirst k'.log := by
  obtain ⟨acts, hlog, hown⟩ := hon.log
  refine h.grown ⟨acts, hlog, fun a ha halt => ?_⟩
  rw [(hown a ha).1]
  exact hw ((hown a ha).2 halt)

theorem OnEntry.log_subset {w : Prop} {k k' : Disk} {d d' : Transfer} (hon : OnEntry w k d k' d') :
    k.log ⊆ k'.log := by
  obtain ⟨acts, hlog, -⟩ := hon.log
  rw [hlog]
  exact List.subset_append_right acts k.log

/-- Putting an entry back brings no download to life. -/
theorem live_put {c : Clt} {d d' : Transfer} (hd : d ∈ c.transfers) (haddr : d'.addr = d.addr)
    (hkey : ∀ rid oid, d'.Matches .download rid oid → d.Matches .download rid oid) :
    ∀ addr rid oid, LiveDownload (putTransfer d' c.transfers) addr rid oid →
      LiveDownload c.transfers addr rid oid := by
  rintro addr rid oid ⟨u, hu, hua, hm⟩
  rcases mem_putTransfer hu with rfl | ⟨hu, -⟩
  · exact ⟨d, hd, haddr.symm.trans hua, hkey rid oid hm⟩
  · exact ⟨u, hu, hua, hm⟩

/-! ## Steps -/

/-- What every step keeps. -/
structure GrantsOk (c : Clt) : Prop where
  good : c.desk.Good
  log : AcceptedFirst c.disk.log

/-- No download comes to life, no request is sent, and nothing is altered. -/
theorem GrantsOk.idle {c t : Clt} (h : GrantsOk c)
    (hlive : ∀ addr rid oid, LiveDownload t.transfers addr rid oid →
      LiveDownload c.transfers addr rid oid)
    (hmsgs : ∀ r ∈ t.q ++ t.requests, (∃ r' ∈ c.q ++ c.requests, r'.b = r.b) ∨
      hdrGetType r ≠ MsgType.code .getfileReq)
    (hsub : c.disk.log ⊆ t.disk.log) (hlog : AcceptedFirst t.disk.log) : GrantsOk t := by
  refine ⟨Desk.Step.good (l := .quiet) (.quiet ?_ ?_ ?_) h.good, hlog⟩
  · exact fun addr k => hlive addr k.1 k.2
  · rintro k ⟨r, hr, hasks⟩
    rcases hmsgs r hr with ⟨r', hr', hb⟩ | hne
    · exact ⟨r', hr', hasks.congr hb⟩
    · exact absurd hasks.1 hne
  · exact fun addr hmem => hsub hmem

theorem GrantsOk.quiet {c t : Clt} (h : GrantsOk c) (hq : Clt.Quiet c t) : GrantsOk t := by
  obtain ⟨acts, hlog, hacts⟩ := hq.noted
  have hg : Grown (fun a => ¬ a.Alters ∧ a.opens = none) c.disk.log t.disk.log := ⟨acts, hlog, hacts⟩
  refine h.idle (fun addr rid oid => hq.shrinks.live) ?_ hg.subset
    (h.log.grown (hg.mono fun a ha halt => absurd halt ha.1))
  exact fun r hr => (hq.msgs r hr).imp_right And.left

theorem GrantsOk.accept {env : CltEnv} {c : Clt} {rid oid : UInt64} {d d' : Transfer} {k : Disk}
    {new : List Mbuf} (h : GrantsOk c) (hacc : Clt.AcceptCase env c rid oid d k d' new) :
    GrantsOk { c.put k d' with q := c.q ++ new } := by
  have hsub := hacc.step.log_subset
  have hgranted : .accepted d.addr ∈ k.log := hsub List.mem_cons_self
  refine ⟨Desk.Step.good (l := .grant d.addr (rid, oid)) (.grant ?_ ?_ ?_ ?_ ?_) h.good, ?_⟩
  · exact ⟨d, hacc.mem, rfl, hacc.found⟩
  · exact fun addr key => live_put hacc.mem hacc.step.addr hacc.key addr key.1 key.2
  · rintro key ⟨r, hr, hasks⟩
    simp only [List.mem_append] at hr
    rcases hr with (hr | hr) | hr
    · exact .inl ⟨r, List.mem_append_left _ hr, hasks⟩
    · obtain ⟨-, hdst, hoid⟩ := hacc.send r hr
      refine .inr (Prod.ext ?_ ?_)
      · exact hasks.2.1.symm.trans (hdst.trans hacc.found.2.2.1.symm)
      · exact hasks.2.2.symm.trans (hoid.trans hacc.found.2.1.symm)
    · exact .inl ⟨r, List.mem_append_right _ hr, hasks⟩
  · exact fun addr hmem => hsub (List.mem_cons_of_mem _ hmem)
  · exact hgranted
  · have hnoted : AcceptedFirst (c.disk.note (.accepted d.addr)).log :=
      h.log.grown ⟨[.accepted d.addr], rfl, fun a ha halt => by
        rw [List.mem_singleton.mp ha] at halt
        exact halt.elim⟩
    exact hacc.step.acceptedFirst hnoted fun _ => List.mem_cons_self

/-- What is sent in answer to a message: what its handler composed, or an error. -/
theorem sends_mem {m r : Mbuf} {a : Clt.Answer} {new : List Mbuf} (h : Clt.Sends m a new)
    (hr : r ∈ new) : (∃ r', a = .send r' ∧ r'.b = r.b) ∨ hdrGetType r ≠ MsgType.code .getfileReq := by
  cases a with
  | nothing =>
      rw [show new = [] from h] at hr
      exact absurd hr List.not_mem_nil
  | send r' =>
      rw [show new = [{ r' with boff := 0 }] from h] at hr
      exact .inl ⟨r', rfl, by rw [List.mem_singleton.mp hr]⟩
  | fail ec =>
      obtain ⟨r', hnew, htype⟩ := h
      rw [hnew] at hr
      refine .inr fun heq => ?_
      rw [List.mem_singleton.mp hr] at heq
      have hcls := (mclassToErr_ne (hdrGetType m)).1
      rw [← htype, show hdrGetType r' = _ from heq] at hcls
      exact absurd hcls (by decide)

/-- A message that is no OFFER request and no GETFILE response. -/
theorem GrantsOk.answer {c t : Clt} {m : Mbuf} {a : Clt.Answer} {new : List Mbuf}
    (h : GrantsOk c) (hsends : Clt.Sends m a new)
    (hsend : ∀ r, a = .send r → hdrGetType r ≠ MsgType.code .getfileReq)
    (hlive : ∀ addr rid oid, LiveDownload t.transfers addr rid oid →
      LiveDownload c.transfers addr rid oid)
    (hq : t.q = c.q ++ new) (hreq : t.requests = c.requests)
    (hsub : c.disk.log ⊆ t.disk.log) (hlog : AcceptedFirst t.disk.log) : GrantsOk t := by
  refine h.idle hlive ?_ hsub hlog
  intro r hr
  rw [hq, hreq] at hr
  simp only [List.mem_append] at hr
  rcases hr with (hr | hr) | hr
  · exact .inl ⟨r, List.mem_append_left _ hr, rfl⟩
  · rcases sends_mem hsends hr with ⟨r', ha, hb⟩ | hne
    · refine .inr ?_
      have htype := hsend r' ha
      rwa [hdrGetType, hb] at htype
    · exact .inr hne
  · exact .inl ⟨r, List.mem_append_right _ hr, rfl⟩

/-- Matching a request takes a ticket away. -/
theorem GrantsOk.solicited {c c₁ : Clt} {m : Mbuf} (h : GrantsOk c)
    (hsol : ({ c with rbuf := none } : Clt).solicited m = some c₁) : GrantsOk c₁ := by
  obtain ⟨⟨hdisk, hts, -⟩, ⟨hq, -, -⟩, -, hsub, -⟩ := Clt.solicited_spec hsol
  refine h.idle ?_ ?_ (hdisk ▸ fun a ha => ha) (hdisk ▸ h.log)
  · intro addr rid oid hl
    rwa [hts] at hl
  · intro r hr
    rw [hq] at hr
    refine .inl ⟨r, ?_, rfl⟩
    rcases List.mem_append.mp hr with hr | hr
    · exact List.mem_append_left _ hr
    · exact List.mem_append_right _ (hsub.subset hr)

/-- An offer under a fresh number, or one that is refused. -/
theorem GrantsOk.offer {env : CltEnv} {c : Clt} {m : Mbuf} {k : Disk} {d : Transfer} {a : Clt.Answer}
    {new : List Mbuf} (h : GrantsOk c) (hcase : Clt.OfferCase env c (mbufResetgetattrib m) k d a)
    (hsends : Clt.Sends m a new)
    (hfresh : 0 < d.tact →
      (∀ u ∈ c.transfers, ¬ u.Matches .download (hdrGetSrcid m)
        (Clt.offerOid env (mbufResetgetattrib m))) ∧
      ∀ r ∈ c.q ++ c.requests, ¬ AsksFor r (hdrGetSrcid m)
        (Clt.offerOid env (mbufResetgetattrib m))) :
    GrantsOk { c.push k d with q := c.q ++ new } := by
  have hlog := hcase.step.acceptedFirst h.log False.elim
  have hsub := hcase.step.log_subset
  have hsend : ∀ r, a = .send r → hdrGetType r ≠ MsgType.code .getfileReq := by
    intro r ha
    rw [hcase.send r ha]
    decide
  by_cases hlive : 0 < d.tact
  · obtain ⟨hnone, hasks⟩ := hfresh hlive
    refine ⟨Desk.Step.good (l := .enter d.addr
      (hdrGetSrcid m, Clt.offerOid env (mbufResetgetattrib m))) (.enter ?_ ?_ ?_ ?_ ?_) h.good, hlog⟩
    · rintro addr ⟨u, hu, -, hmatch⟩
      exact hnone u hu hmatch
    · rintro ⟨r, hr, hr'⟩
      exact hasks r hr hr'
    · rintro addr key ⟨u, hu, rfl, hmatch⟩
      rcases List.mem_cons.mp hu with rfl | hu
      · obtain ⟨hrid, hoid⟩ := hcase.key _ _ hmatch
        exact .inr ⟨rfl, Prod.ext hrid hoid⟩
      · exact .inl ⟨u, hu, rfl, hmatch⟩
    · rintro key ⟨r, hr, hr'⟩
      simp only [List.mem_append] at hr
      rcases hr with (hr | hr) | hr
      · exact ⟨r, List.mem_append_left _ hr, hr'⟩
      · rcases sends_mem hsends hr with ⟨r', ha, hb⟩ | hne
        · exact absurd (hr'.congr hb).1 (hsend r' ha)
        · exact absurd hr'.1 hne
      · exact ⟨r, List.mem_append_right _ hr, hr'⟩
    · exact fun addr hmem => hsub hmem
  · refine h.answer hsends hsend ?_ rfl rfl hsub hlog
    rintro addr rid oid ⟨u, hu, hua, hmatch⟩
    rcases List.mem_cons.mp hu with rfl | hu
    · exact absurd hmatch.2.2.2 hlive
    · exact ⟨u, hu, hua, hmatch⟩

/-- A response that names the offer its request asked for. -/
theorem GrantsOk.download {env : CltEnv} {c c₁ : Clt} {m r : Mbuf} {d d' : Transfer} {k : Disk}
    {a : Clt.Answer} {new : List Mbuf} {oid : UInt64} (h : GrantsOk c)
    (hsol : ({ c with rbuf := none } : Clt).solicited m = some c₁)
    (hcase : Clt.DownloadCase env c₁ (mbufResetgetattrib m) d k d' a)
    (hsends : Clt.Sends m a new) (hr : r ∈ c.requests) (hasks : AsksFor r (hdrGetSrcid m) oid)
    (hd : d.Matches .download (hdrGetSrcid m) oid) :
    GrantsOk { c₁.put k d' with q := c₁.q ++ new } := by
  obtain ⟨⟨hdisk, hts, -⟩, ⟨hq, -, -⟩, -, hless, -⟩ := Clt.solicited_spec hsol
  have hmem := hcase.mem
  have hon := hcase.step
  rw [hts] at hmem
  rw [hdisk] at hon
  have hsub := hon.log_subset
  have hstep : Desk.Step c.desk (.redeem d.addr (hdrGetSrcid m, oid))
      ({ c₁.put k d' with q := c₁.q ++ new } : Clt).desk := by
    refine .redeem ⟨r, List.mem_append_right _ hr, hasks⟩ ⟨d, hmem, rfl, hd⟩ ?_ ?_ ?_
    · intro addr key hl
      change LiveDownload (putTransfer d' c₁.transfers) addr key.1 key.2 at hl
      rw [hts] at hl
      exact live_put hmem hon.addr hcase.key addr key.1 key.2 hl
    · rintro key ⟨r', hr', hasks'⟩
      change r' ∈ (c₁.q ++ new) ++ c₁.requests at hr'
      rw [hq] at hr'
      simp only [List.mem_append] at hr'
      rcases hr' with (hr' | hr') | hr'
      · exact .inl ⟨r', List.mem_append_left _ hr', hasks'⟩
      · rcases sends_mem hsends hr' with ⟨r'', ha, hb⟩ | hne
        · obtain ⟨-, hdst, hoid⟩ := hcase.send r'' ha
          have hsame := hasks'.congr hb
          refine .inr (Prod.ext ?_ ?_)
          · exact hsame.2.1.symm.trans (hdst.trans hd.2.2.1.symm)
          · exact hsame.2.2.symm.trans (hoid.trans hd.2.1.symm)
        · exact absurd hasks'.1 hne
      · exact .inl ⟨r', List.mem_append_right _ (hless.subset hr'), hasks'⟩
    · exact fun addr hmem => hsub hmem
  exact ⟨hstep.good h.good, hon.acceptedFirst h.log fun _ => hstep.granted_of_redeem h.good⟩

/-- What a message does to the grants. -/
theorem GrantsOk.message {c t : Clt} {e : CltEvent} {env : CltEnv} {m : Mbuf} (hc : CltOk c)
    (h : GrantsOk c) (hkeys : KeysKept c e) (hmsg : e.message c = some (env, m)) (hm : 40 ≤ m.bsize)
    (hproc : Clt.processSrvmsg env { c with rbuf := none } m = some t) : GrantsOk t := by
  rcases Clt.processSrvmsg_cases hm hproc with
    rfl | ⟨c₁, c₂, a, new, hsol, hdisp, hcase, rfl, hsends⟩
  · exact h.idle (fun _ _ _ hl => hl) (fun r hr => .inl ⟨r, hr, rfl⟩) (fun _ ha => ha) h.log
  · have h₁ := h.solicited hsol
    obtain ⟨⟨hdisk, hts, hnext⟩, ⟨hq, -, -⟩, hst, hless, hreq⟩ := Clt.solicited_spec hsol
    cases hcase with
    | plain hp =>
        obtain ⟨hdisk₂, hts₂, -⟩ := hp.table
        refine h₁.answer hsends (fun r ha => (hp.send r ha).1) ?_ (congrArg (· ++ new) hp.queues.1)
          hp.queues.2 (hdisk₂ ▸ fun _ ha => ha) (hdisk₂ ▸ h₁.log)
        intro addr rid oid hl
        rwa [hts₂] at hl
    | @serve o k o' a hp =>
        refine h₁.answer hsends ?_ ?_ rfl rfl hp.step.log_subset
          (hp.step.acceptedFirst h₁.log False.elim)
        · intro r ha
          rw [(hp.send r ha).2]
          decide
        · intro addr rid oid hl
          refine (shrinks_put ?_).live hl
          rw [hp.step.type, hp.type]
          decide
    | @offer k d a hp =>
        refine h₁.offer hp hsends fun hlive => ?_
        have hproc : Clt.processOfferReq env c₁ (mbufResetgetattrib m) =
            some (c₁.push k d, a) := by
          simpa only [Clt.dispatchSrvmsg, hp.type, MsgType.ofCode?_code] using hdisp
        have hentry : Clt.offeredEntry env c₁ m = Clt.offeredEntry env c m := by
          unfold Clt.offeredEntry Clt.offerEntry
          rw [Clt.solicited_cfg hsol, hdisk, hnext]
        -- The condition speaks of the entry an OFFER would make, which is this one.
        have hd : d = (Clt.enterOffer (Clt.offeredEntry env c m)).2 := by
          have := congrArg Clt.transfers (Clt.processOfferReq_eq hp.st hproc)
          rw [hentry] at this
          exact (List.cons.inj this).1
        have hoff : e.offered c = some (env, m) := by
          rw [CltEvent.offered, hmsg]
          exact Option.filter_eq_some_iff.mpr ⟨rfl, by simpa using ⟨hp.type, hst ▸ hp.st⟩⟩
        obtain ⟨hnone, hasks⟩ := hkeys.offer env m hoff (taken_of_live (hd ▸ hlive))
        refine ⟨hts ▸ hnone, fun r hr => hasks r ?_⟩
        rw [hq] at hr
        rcases List.mem_append.mp hr with hr | hr
        · exact List.mem_append_left _ hr
        · exact List.mem_append_right _ (hless.subset hr)
    | @download d k d' a hp =>
        have hres : hdrGetType m = MsgType.code .getfileRes := hp.type
        obtain ⟨r, hr, hans, hmatch⟩ := hreq (by rw [hres]; decide)
        obtain ⟨at₁, m₁, hnext, hd⟩ := hp.found
        -- The response redeems the request it is matched with.
        have hredeemed : e.redeemed c = some (ui64At m₁ env.beyond at₁.av, r) := by
          obtain ⟨r', hr', heq⟩ := Option.map_eq_some_iff.mp hmatch
          have hfind : c.matchPendingReq m = some (r', { c with
              requests := c.requests.eraseP fun r => Clt.Answers m r }) := by
            rw [Clt.matchPendingReq, show c.requests.find? _ = some r' from hr']
            rfl
          rw [CltEvent.redeemed, hmsg, Option.bind_some, if_pos hres, hfind, Option.bind_some, hnext,
            Option.map_some, (Prod.mk.inj heq).1]
        have htype : hdrGetType r = MsgType.code .getfileReq := by
          have := req_of_res (hc.pending r hr) (hans.2.2.trans hres)
          rw [this]
          decide
        exact h.download hsol hp hsends hr
          ⟨htype, hans.1, hkeys.response _ r hredeemed⟩ hd

theorem GrantsOk.step {c t : Clt} {e : CltEvent} (hc : CltOk c) (h : GrantsOk c) (hen : e.Enabled c)
    (hstep : cltStep c e = some t) (hkeys : KeysKept c e) : GrantsOk t := by
  rcases cltStep_cases hc.rbuf hen hstep with hcase | ⟨r, rfl, -⟩ | rfl
  · cases hcase with
    | quiet hq => exact h.quiet hq
    | accept _ hacc ht =>
        subst ht
        exact h.accept hacc
    | message hmsg hw hproc => exact h.message hc hkeys hmsg hw.hdr hproc
  · exact h.idle (fun _ _ _ hl => hl) (fun r hr => .inl ⟨r, hr, rfl⟩) (fun _ ha => ha) h.log
  · have hq := Clt.quiet_disc { c with rbuf := some (c.rbuf.getD mbufNew) }
    exact GrantsOk.quiet (c := { c with rbuf := some (c.rbuf.getD mbufNew) })
      (h.idle (fun _ _ _ hl => hl) (fun r hr => .inl ⟨r, hr, rfl⟩) (fun _ ha => ha) h.log) hq

/-- **Only accepted downloads are written**, in every run in which responses name
the offers that were asked for and offers come under fresh numbers. -/
theorem only_accepted_written {c : Clt} (hc : (cltLts.guard KeysKept).Reachable c) :
    AcceptedFirst c.disk.log := by
  have hinv : (cltLts.guard KeysKept).Inductive fun s => CltOk s ∧ GrantsOk s := by
    refine ⟨fun s hs => ⟨cltOk_inductive.init s hs, ?_⟩, ?_⟩
    · obtain ⟨cfg, pubkey, fs, cwd, -, -, rfl⟩ := hs
      refine ⟨⟨?_, ?_⟩, ?_⟩
      · rintro o o' k ⟨u, hu, -⟩
        exact absurd hu List.not_mem_nil
      · rintro o k ⟨u, hu, -⟩
        exact absurd hu List.not_mem_nil
      · intro a l hsuf
        exact absurd (List.suffix_nil.mp hsuf) (List.cons_ne_nil a l)
    · rintro s e t ⟨hok, hg⟩ ⟨⟨hen, hstep⟩, hkeys⟩
      exact ⟨hok.step hen hstep, hg.step hok hen hstep hkeys⟩
  exact (hinv.invariant c hc).2.log

/-- A step of the client whose response and offer keep to their numbers. -/
def keysKeptTry (c : Clt) (e : CltEvent) : Option Clt :=
  if ((e.redeemed c).all fun p => Clt.getOid p.2 == p.1) &&
      (e.offered c).all fun p => decide (OfferTaken p.1 c p.2 →
        (∀ d ∈ c.transfers, ¬ d.Matches .download (hdrGetSrcid p.2)
          (Clt.offerOid p.1 (mbufResetgetattrib p.2))) ∧
        ∀ r ∈ c.q ++ c.requests, ¬ AsksFor r (hdrGetSrcid p.2)
          (Clt.offerOid p.1 (mbufResetgetattrib p.2)))
  then cltTry c e else none

theorem keysKeptTry_step {c t : Clt} {e : CltEvent} (h : keysKeptTry c e = some t) :
    (cltLts.guard KeysKept).step c e t := by
  unfold keysKeptTry at h
  split at h
  · rename_i hall
    obtain ⟨hres, hoff⟩ := Bool.and_eq_true_iff.mp hall
    refine ⟨cltTry_step h, ?_, ?_⟩
    · intro oid r heq
      rw [heq] at hres
      exact beq_iff_eq.mp hres
    · intro env m heq
      rw [heq] at hoff
      exact of_decide_eq_true hoff
  · cases h

theorem only_accepted_written_two : ∃ (c : Clt) (l : List TransferAct),
    (.wrote 0 2 :: l) <:+ c.disk.log ∧ .accepted 0 ∈ l := by
  have hexec : (Lts.exec keysKeptTry (demoClient false [])
      (loginRun ++ offerRun (ascii "a") 2 ++ acceptRun ++ dataRun [1, 2])).any (fun c =>
        c.disk.log.head? == some (.wrote 0 2)) = true := by
    decide +kernel
  obtain ⟨c, hc, hp⟩ := Lts.reachable_of_exec (M := cltLts.guard KeysKept)
    (fun _ _ _ => keysKeptTry_step) (demoClient_init false []) hexec
  obtain ⟨l, hl⟩ := List.head?_eq_some_iff.mp (beq_iff_eq.mp hp)
  have hsuf : (.wrote 0 2 :: l) <:+ c.disk.log := hl ▸ List.suffix_refl _
  exact ⟨c, l, hsuf, only_accepted_written hc _ l hsuf trivial⟩

/-- A peer makes two offers; the user accepts one, and the DATA comes for the other. -/
theorem unaccepted_written : ∃ c, cltLts.Reachable c ∧ .wrote 1 2 ∈ c.disk.log ∧
    .accepted 1 ∉ c.disk.log ∧ c.disk.fs.dir (ascii "/d/b.part") = some 1 := by
  have hexec : (Lts.exec cltTry (demoClient false [])
      (loginRun ++ offerRun (ascii "a") 2 ++
        delivery (messageOctets .offerReq 5 1
          [(.offerid, .ui64 7), (.filename, .str (ascii "b")), (.size, .ui64 2)]) ++
        [.write (.sent 1000)] ++ acceptRun ++
        (delivery (messageOctets .getfileRes 5 1
          [(.offerid, .ui64 7), (.data, .blob [1, 2])])).map (·.withFd 14))).any (fun c =>
        decide (.wrote 1 2 ∈ c.disk.log) && decide (.accepted 1 ∉ c.disk.log) &&
          c.disk.fs.dir (ascii "/d/b.part") == some 1) = true := by
    decide +kernel
  obtain ⟨c, hc, hp⟩ := Lts.reachable_of_exec (fun _ _ _ => cltTry_step)
    (demoClient_init false []) hexec
  simp only [Bool.and_eq_true, beq_iff_eq, decide_eq_true_eq] at hp
  exact ⟨c, hc, hp.1.1, hp.1.2, hp.2⟩

end Frelay
