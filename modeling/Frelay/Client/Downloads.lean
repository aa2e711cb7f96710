import Frelay.Client.Effect
import Frelay.Lib.History

/-!
# What one step does to the downloads

A step enters a download (an OFFER request), selects one (`accept`), hands DATA
to one (a GETFILE response), or leaves all of them as they are
(`cltStep_downloads`). Which of these it is, and for which entry, can be told
from the state before the step: `CltEvent.offered`, `CltEvent.accepting` and
`CltEvent.response`.
-/

namespace Frelay

open Lib

namespace Clt

/-! ## What a step is about -/

/-- The download a GETFILE response names, and the DATA it brings. -/
def responseData (env : CltEnv) (c : Clt) (m : Mbuf) : Option (Transfer × Bytes) :=
  (nextIf (mbufResetgetattrib m) .offerid).bind fun p =>
    (c.transfers.find? fun d =>
      d.Matches .download (hdrGetSrcid m) (ui64At p.2 env.beyond p.1.av)).bind fun d =>
        (nextIf p.2 .data).map fun q => (d, blobAt q.2 q.1)

/-- The same for a message that is a GETFILE response, and expected. -/
def responseTo (env : CltEnv) (c : Clt) (m : Mbuf) : Option (Transfer × Bytes) :=
  if hdrGetType m = MsgType.code .getfileRes ∧ c.st = .authOk ∧ (c.matchPendingReq m).isSome then
    responseData env c m
  else none

/-- What becomes of a download that is handed DATA. -/
def receiveData (env : CltEnv) (k : Disk) (d : Transfer) (data : Bytes) : Disk × Transfer :=
  if data = [] then
    let p := transferInvalidate
      (k.note (if d.offset = d.size then .finished d.addr else .premature d.addr)) d
    (renamePart env p.1 d, p.2)
  else
    match downloadWrite env.toSysEnv k d data with
    | (k, d, false) => transferInvalidate k d
    | (k, d, true) => (k, { d with offset := d.offset + UInt64.ofNat data.length })

/-- The entry made of an OFFER request, before it is looked at. -/
def offeredEntry (env : CltEnv) (c : Clt) (m : Mbuf) : Disk × Transfer :=
  (attribRefs (mbufResetgetattrib m)).foldl
    (offerAttrib env c.cfg.noClobber (mbufResetgetattrib m)) (c.disk, offerEntry env c m)

/-- What becomes of it. -/
def enterOffer (p : Disk × Transfer) : Disk × Transfer :=
  if p.2.name.getD [] = [] ∨ p.2.size = 0 then transferInvalidate p.1 p.2 else p

end Clt

/-- The OFFER request a step handles. -/
def CltEvent.offered (c : Clt) (e : CltEvent) : Option (CltEnv × Mbuf) :=
  (e.message c).filter fun p => hdrGetType p.2 = MsgType.code .offerReq ∧ c.st = .authOk

/-- The download a step selects by `accept`. -/
def CltEvent.accepting (c : Clt) : CltEvent → Option (CltEnv × Transfer)
  | .cmd (.accept rid oid) env =>
      (c.transfers.find? fun d => d.Matches .download rid oid).map fun d => (env, d)
  | _ => none

/-- The download a step hands DATA to. -/
def CltEvent.response (c : Clt) (e : CltEvent) : Option (CltEnv × Transfer × Bytes) :=
  (e.message c).bind fun p => (Clt.responseTo p.1 c p.2).map fun r => (p.1, r)

/-- What a step from `c` to `t` has added to the log. -/
def Clt.newActs (c t : Clt) : List TransferAct := newer c.disk.log t.disk.log

/-- From `c` to `t` the downloads stay as they are, but for some that are gone,
closed or invalidated; nothing was done to their files. -/
structure Still (c t : Clt) : Prop where
  shrinks : Shrinks c.transfers t.transfers
  log : Grown (fun a => ¬ a.Alters ∧ ∀ d ∈ c.transfers, d.type = .download → a.addr = d.addr →
    a.opens = none) c.disk.log t.disk.log

/-- **What a step does to the downloads.** -/
inductive DownloadStep (c : Clt) (e : CltEvent) (t : Clt) : Prop
  | still : e.response c = none → Still c t → DownloadStep c e t
  | offered {env : CltEnv} {m : Mbuf} {p : Disk × Transfer} : e.offered c = some (env, m) →
      Clt.enterOffer (Clt.offeredEntry env c m) = p →
      t.disk = p.1 ∧ t.transfers = p.2 :: c.transfers → DownloadStep c e t
  | accepted {env : CltEnv} {d : Transfer} {k : Disk} {d' : Transfer} {ok : Bool} :
      e.accepting c = some (env, d) →
      Clt.startDownload env (c.disk.note (.accepted d.addr)) { d with tact := env.now } =
        (k, d', ok) →
      t.disk = k ∧ t.transfers = putTransfer d' c.transfers → DownloadStep c e t
  | answered {env : CltEnv} {d : Transfer} {data : Bytes} {p : Disk × Transfer} :
      e.response c = some (env, d, data) →
      Clt.receiveData env c.disk { d with tact := env.now } data = p →
      t.disk = p.1 ∧ t.transfers = putTransfer p.2 c.transfers → DownloadStep c e t

/-! ## The entry a step is about -/

theorem CltEvent.offered_spec {c : Clt} {e : CltEvent} {env : CltEnv} {m : Mbuf}
    (h : e.offered c = some (env, m)) :
    e.message c = some (env, m) ∧ hdrGetType m = MsgType.code .offerReq ∧ c.st = .authOk := by
  obtain ⟨hmsg, hp⟩ := Option.filter_eq_some_iff.mp h
  exact ⟨hmsg, of_decide_eq_true hp⟩

theorem CltEvent.accepting_mem {c : Clt} {e : CltEvent} {env : CltEnv} {d : Transfer}
    (h : e.accepting c = some (env, d)) :
    d ∈ c.transfers ∧ d.type = .download ∧ 0 < d.tact ∧
      ∃ rid oid, e = .cmd (.accept rid oid) env ∧ d.Matches .download rid oid := by
  unfold accepting at h
  split at h
  · rename_i rid oid env'
    obtain ⟨u, hu, heq⟩ := Option.map_eq_some_iff.mp h
    simp only [Prod.mk.injEq] at heq
    obtain ⟨rfl, rfl⟩ := heq
    have hm := matches_of_find hu
    exact ⟨List.mem_of_find?_eq_some hu, hm.1.symm, hm.2.2.2, rid, oid, rfl, hm⟩
  · cases h

theorem CltEvent.response_spec {c : Clt} {e : CltEvent} {env : CltEnv} {d : Transfer} {data : Bytes}
    (h : e.response c = some (env, d, data)) :
    ∃ m, e.message c = some (env, m) ∧ Clt.responseTo env c m = some (d, data) := by
  obtain ⟨⟨env', m⟩, hmsg, h⟩ := Option.bind_eq_some_iff.mp h
  obtain ⟨r, hr, heq⟩ := Option.map_eq_some_iff.mp h
  simp only [Prod.mk.injEq] at heq
  obtain ⟨rfl, rfl⟩ := heq
  exact ⟨m, hmsg, hr⟩

/-- A response goes to a live download. -/
theorem Clt.responseTo_mem {env : CltEnv} {c : Clt} {m : Mbuf} {d : Transfer} {data : Bytes}
    (h : Clt.responseTo env c m = some (d, data)) :
    d ∈ c.transfers ∧ d.type = .download ∧ 0 < d.tact := by
  unfold responseTo at h
  split at h
  · obtain ⟨p, -, h⟩ := Option.bind_eq_some_iff.mp h
    obtain ⟨u, hu, h⟩ := Option.bind_eq_some_iff.mp h
    obtain ⟨q, -, heq⟩ := Option.map_eq_some_iff.mp h
    simp only [Prod.mk.injEq] at heq
    obtain ⟨rfl, -⟩ := heq
    have hm := matches_of_find hu
    exact ⟨List.mem_of_find?_eq_some hu, hm.1.symm, hm.2.2.2⟩
  · cases h

theorem CltEvent.response_mem {c : Clt} {e : CltEvent} {env : CltEnv} {d : Transfer} {data : Bytes}
    (h : e.response c = some (env, d, data)) :
    d ∈ c.transfers ∧ d.type = .download ∧ 0 < d.tact := by
  obtain ⟨m, -, hr⟩ := response_spec h
  exact Clt.responseTo_mem hr

/-- Only a complete message is a response. -/
theorem CltEvent.response_none {c : Clt} {e : CltEvent} (h : e.message c = none) :
    e.response c = none := by
  rw [response, h, Option.bind_none]

theorem CltEvent.response_of_offered {c : Clt} {e : CltEvent} {env : CltEnv} {m : Mbuf}
    (h : e.offered c = some (env, m)) : e.response c = none := by
  obtain ⟨hmsg, htype, -⟩ := offered_spec h
  have hres : ¬ (hdrGetType m = MsgType.code .getfileRes ∧ c.st = .authOk ∧
      (c.matchPendingReq m).isSome = true) := by
    rw [htype]
    exact fun h => absurd h.1 (by decide)
  rw [response, hmsg, Option.bind_some, Clt.responseTo, if_neg hres, Option.map_none]

theorem CltEvent.response_of_accepting {c : Clt} {e : CltEvent} {env : CltEnv} {d : Transfer}
    (h : e.accepting c = some (env, d)) : e.response c = none := by
  obtain ⟨-, -, -, rid, oid, rfl, -⟩ := accepting_mem h
  rfl

/-- Entering a download concerns its entry only. -/
theorem Clt.enterOffer_onEntry (env : CltEnv) (c : Clt) (m : Mbuf) :
    OnEntry False c.disk (Clt.offerEntry env c m) (Clt.enterOffer (Clt.offeredEntry env c m)).1
      (Clt.enterOffer (Clt.offeredEntry env c m)).2 := by
  obtain ⟨hstep, -, -⟩ := Clt.offerAttribs_spec env c.cfg.noClobber (mbufResetgetattrib m)
    (attribRefs (mbufResetgetattrib m)) (c.disk, Clt.offerEntry env c m)
  unfold enterOffer
  split
  · exact OnEntry.trans hstep .invalidate
  · exact hstep

/-- `make_filenames` sets the names and the descriptor. -/
theorem makeFilenames_offset (env : SysEnv) (noClobber : Bool) (k : Disk) (d : Transfer)
    (s : Bytes) : (makeFilenames env noClobber k d s).2.offset = d.offset := by
  have hloop : ∀ (n i : Nat) (k : Disk), (makeFilenamesFrom env s n i k d).2.offset = d.offset := by
    intro n
    induction n with
    | zero => exact fun _ _ => rfl
    | succ n ih =>
        intro i k
        simp only [makeFilenamesFrom]
        split
        · exact ih (i + 1) k
        · split
          · exact ih (i + 1) _
          · rfl
  unfold makeFilenames
  split
  · exact hloop _ _ _
  · rfl

/-- A download is entered with the offset 0. -/
theorem Clt.enterOffer_offset (env : CltEnv) (c : Clt) (m : Mbuf) :
    (Clt.enterOffer (Clt.offeredEntry env c m)).2.offset = 0 := by
  have hfold : ∀ (l : List AttrRef) (p : Disk × Transfer),
      (l.foldl (offerAttrib env c.cfg.noClobber (mbufResetgetattrib m)) p).2.offset =
        p.2.offset := by
    intro l
    induction l with
    | nil => exact fun _ => rfl
    | cons a l ih =>
        intro p
        rw [List.foldl_cons, ih]
        obtain ⟨k, d⟩ := p
        unfold offerAttrib
        simp only
        split
        · rfl
        · split
          · exact makeFilenames_offset _ _ _ _ _
          · split <;> rfl
  have hentry : (Clt.offeredEntry env c m).2.offset = 0 := hfold _ _
  unfold enterOffer
  split
  · exact hentry
  · exact hentry

/-- Receiving DATA concerns its entry only. -/
theorem Clt.receiveData_onEntry (env : CltEnv) (k : Disk) (d : Transfer) (data : Bytes) :
    OnEntry True k d (Clt.receiveData env k d data).1 (Clt.receiveData env k d data).2 := by
  unfold receiveData
  split
  · refine ((OnEntry.note ?_ ?_ ?_ ?_).trans .invalidate).trans (renamePart_onEntry env _ d _ rfl)
    · split <;> rfl
    · exact fun _ => trivial
    · split <;> rfl
    · split <;> simp
  · have hwrite := downloadWrite_onEntry env.toSysEnv k d data
    revert hwrite
    generalize downloadWrite env.toSysEnv k d data = r
    obtain ⟨k₁, d₁, ok⟩ := r
    intro hwrite
    cases ok with
    | false => exact hwrite.trans .invalidate
    | true => exact hwrite.trans (.fields rfl rfl rfl id)

/-- Starting a download sets its descriptor and its offset. -/
theorem startDownload_entry {env : CltEnv} {k k' : Disk} {u d : Transfer} {ok : Bool}
    (h : Clt.startDownload env k u = (k', d, ok)) :
    ∃ fd offset, d = { u with fd := fd, offset := offset } := by
  obtain ⟨-, fd, off, hfields⟩ := Clt.startDownload_spec env k u
  rw [h] at hfields
  exact ⟨fd, off, hfields⟩

/-- Writing to its part file sets its descriptor. -/
theorem downloadWrite_entry {env : SysEnv} {k k' : Disk} {u d : Transfer} {data : Bytes} {ok : Bool}
    (h : downloadWrite env k u data = (k', d, ok)) : ∃ fd, d = { u with fd := fd } := by
  obtain ⟨fd, hfields⟩ := Clt.downloadWrite_fields env k u data
  rw [h] at hfields
  exact ⟨fd, hfields⟩

/-! ## Each step is one of these -/

theorem Still.of_quiet {c t : Clt} (h : Clt.Quiet c t) : Still c t := by
  obtain ⟨acts, hlog, hacts⟩ := h.noted
  exact ⟨h.shrinks, acts, hlog, fun a ha => ⟨(hacts a ha).1, fun _ _ _ _ => (hacts a ha).2⟩⟩

theorem Still.of_same {c t : Clt} (hts : t.transfers = c.transfers)
    (hlog : t.disk.log = c.disk.log) : Still c t := by
  refine ⟨?_, ?_⟩
  · rw [hts]
    exact .refl _
  · rw [hlog]
    exact .refl _ _

namespace Clt

variable {env : CltEnv} {c c' t : Clt} {m : Mbuf} {a : Answer}

/-! ## Messages that leave the transfers alone -/

private theorem processPing_table (h : processPing env c m = some (c', a)) : SameTable c c' := by
  unfold processPing at h
  split at h
  · obtain ⟨r, -, heq⟩ := Option.bind_eq_some_iff.mp h
    cases heq
    exact ⟨rfl, rfl, rfl⟩
  · cases h
    exact ⟨rfl, rfl, rfl⟩

private theorem processLoginRes_table (h : processLoginRes env c m = some (c', a)) :
    SameTable c c' := by
  unfold processLoginRes at h
  split at h
  · split at h
    · cases h
      exact ⟨rfl, rfl, rfl⟩
    · split at h
      · cases h
        exact ⟨rfl, rfl, rfl⟩
      · split at h
        · split at h
          · obtain ⟨r, -, heq⟩ := Option.bind_eq_some_iff.mp h
            cases heq
            exact ⟨rfl, rfl, rfl⟩
          · cases h
            exact ⟨rfl, rfl, rfl⟩
        · cases h
          exact ⟨rfl, rfl, rfl⟩
  · cases h
    exact ⟨rfl, rfl, rfl⟩

private theorem session_table {p : Prop} [Decidable p] {st : CltState}
    (h : (if p then some ({ c with st := st }, Answer.nothing) else some (c, .nothing)) =
      some (c', a)) : SameTable c c' := by
  split at h
  · cases h
    exact ⟨rfl, rfl, rfl⟩
  · cases h
    exact ⟨rfl, rfl, rfl⟩

/-- Four kinds of messages concern the transfers. -/
theorem dispatchSrvmsg_table (h : dispatchSrvmsg env c m = some (c', a)) :
    SameTable c c' ∨
      (hdrGetType m = MsgType.code .offerReq ∧ processOfferReq env c m = some (c', a)) ∨
      (hdrGetType m = MsgType.code .getfileReq ∧ processGetfileReq env c m = some (c', a)) ∨
      (hdrGetType m = MsgType.code .offerRes ∧ processOfferRes env c m = some (c', a)) ∨
      (hdrGetType m = MsgType.code .getfileRes ∧ processGetfileRes env c m = some (c', a)) := by
  unfold dispatchSrvmsg at h
  split at h
  · exact .inl (processPing_table h)
  · exact .inl (processPing_table h)
  · exact .inr (.inl ⟨MsgType.ofCode?_eq_some.mp ‹_›, h⟩)
  · exact .inr (.inr (.inl ⟨MsgType.ofCode?_eq_some.mp ‹_›, h⟩))
  · exact .inr (.inr (.inr (.inl ⟨MsgType.ofCode?_eq_some.mp ‹_›, h⟩)))
  · exact .inr (.inr (.inr (.inr ⟨MsgType.ofCode?_eq_some.mp ‹_›, h⟩)))
  · exact .inl (processLoginRes_table h)
  · exact .inl (session_table h)
  · exact .inl (session_table h)
  · exact .inl (session_table h)
  · cases h
    exact .inl ⟨rfl, rfl, rfl⟩

/-- An OFFER request enters a download. -/
theorem processOfferReq_eq (hst : c.st = .authOk)
    (h : processOfferReq env c (mbufResetgetattrib m) = some (c', a)) :
    c' = c.push (enterOffer (offeredEntry env c m)).1 (enterOffer (offeredEntry env c m)).2 := by
  unfold processOfferReq at h
  rw [if_pos hst] at h
  have h : ∀ p, offeredEntry env c m = p →
      (if p.2.name.getD [] = [] ∨ p.2.size = 0 then
        some (c.push (transferInvalidate p.1 p.2).1 (transferInvalidate p.1 p.2).2,
          .fail .badRequest)
      else
        (compose env.ntime .offerRes (hdrGetSrcid m) (hdrGetTrfid m)
          [(.offerid, .ui64 p.2.oid), (.ok, .null)]).bind fun r =>
            some (c.push p.1 p.2, .send r)) = some (c', a) := by
    rintro _ rfl
    exact h
  generalize offeredEntry env c m = p at h ⊢
  have h := h p rfl
  unfold enterOffer
  split at h
  · rename_i hbad
    rw [if_pos hbad]
    simp only [Option.some.injEq, Prod.mk.injEq] at h
    exact h.1.symm
  · rename_i hgood
    rw [if_neg hgood]
    obtain ⟨r, -, heq⟩ := Option.bind_eq_some_iff.mp h
    simp only [Option.some.injEq, Prod.mk.injEq] at heq
    exact heq.1.symm

/-- A GETFILE response without DATA, or for no live download, changes no file;
any other one hands its DATA to the download. -/
theorem processGetfileRes_eq
    (h : processGetfileRes env c (mbufResetgetattrib m) = some (c', a)) :
    (c.st ≠ .authOk ∧ c' = c) ∨
      (responseData env c m = none ∧
        (c' = c ∨ ∃ d ∈ c.transfers, 0 < d.tact ∧ c' = c.put c.disk { d with tact := env.now })) ∨
      ∃ d data, c.st = .authOk ∧ responseData env c m = some (d, data) ∧
        c' = c.put (receiveData env c.disk { d with tact := env.now } data).1
          (receiveData env c.disk { d with tact := env.now } data).2 := by
  unfold processGetfileRes at h
  by_cases hst : c.st = .authOk
  · rw [if_pos hst] at h
    -- Both sides read the same two attributes; the cases follow the handler.
    have hresp : responseData env c m = (nextIf (mbufResetgetattrib m) .offerid).bind fun p =>
        (c.transfers.find? fun d =>
          d.Matches .download (hdrGetSrcid m) (ui64At p.2 env.beyond p.1.av)).bind fun d =>
            (nextIf p.2 .data).map fun q => (d, blobAt q.2 q.1) := rfl
    cases hnext : nextIf (mbufResetgetattrib m) .offerid with
    | none =>
        rw [hnext] at h hresp
        cases h
        exact .inr (.inl ⟨hresp, .inl rfl⟩)
    | some p =>
        obtain ⟨a₁, m₁⟩ := p
        rw [hnext, Option.bind_some] at hresp
        rw [hnext] at h
        simp only [transferMatch] at h hresp
        rw [show hdrGetSrcid (mbufResetgetattrib m) = hdrGetSrcid m from rfl] at h
        cases hfind : c.transfers.find? fun d =>
            d.Matches .download (hdrGetSrcid m) (ui64At m₁ env.beyond a₁.av) with
        | none =>
            rw [hfind] at h hresp
            cases h
            exact .inr (.inl ⟨hresp, .inl rfl⟩)
        | some u =>
            rw [hfind, Option.bind_some] at hresp
            rw [hfind] at h
            simp only [Option.map_some] at h
            cases hdata : nextIf m₁ .data with
            | none =>
                rw [hdata] at h hresp
                cases h
                have hm := matches_of_find hfind
                exact .inr (.inl ⟨hresp, .inr ⟨u, List.mem_of_find?_eq_some hfind, hm.2.2.2, rfl⟩⟩)
            | some q =>
                obtain ⟨a₂, m₂⟩ := q
                rw [hdata] at h hresp
                refine .inr (.inr ⟨u, blobAt m₂ a₂, hst, hresp, ?_⟩)
                unfold receiveData
                simp only at h
                split at h
                · rename_i hnil
                  cases h
                  rw [if_pos hnil]
                  rfl
                · rename_i hne
                  rw [if_neg hne]
                  revert h
                  generalize downloadWrite env.toSysEnv c.disk { u with tact := env.now }
                    (blobAt m₂ a₂) = r
                  obtain ⟨k, d', ok⟩ := r
                  intro h
                  cases ok with
                  | false =>
                      cases h
                      rfl
                  | true =>
                      obtain ⟨r, -, heq⟩ := Option.bind_eq_some_iff.mp h
                      simp only [Option.some.injEq, Prod.mk.injEq] at heq
                      exact heq.1.symm
  · rw [if_neg hst] at h
    cases h
    exact .inl ⟨hst, rfl⟩

/-- `accept` selects a download and starts it. -/
theorem cmdAccept_downloads {rid oid : UInt64} (h : cmdAccept env c rid oid = some t) :
    ((c.transfers.find? fun d => d.Matches .download rid oid) = none ∧ t = c) ∨
      ∃ d k d' ok new, (c.transfers.find? fun d => d.Matches .download rid oid) = some d ∧
        startDownload env (c.disk.note (.accepted d.addr)) { d with tact := env.now } =
          (k, d', ok) ∧
        t = { c.put k d' with q := c.q ++ new } := by
  unfold cmdAccept at h
  split at h
  · rename_i hmatch
    cases h
    exact .inl ⟨Option.map_eq_none_iff.mp hmatch, rfl⟩
  · rename_i d hmatch
    obtain ⟨u, hu, rfl⟩ := Option.map_eq_some_iff.mp hmatch
    refine .inr ⟨u, ?_⟩
    revert h
    change (match startDownload env (c.disk.note (.accepted u.addr)) { u with tact := env.now } with
      | (k, d, false) => some (c.put k d)
      | (k, d, true) => (getfileRequest env d oid d.size).map (c.put k d).submit) = some t → _
    generalize startDownload env (c.disk.note (.accepted u.addr)) { u with tact := env.now } = r
    obtain ⟨k, d', ok⟩ := r
    intro h
    cases ok with
    | false =>
        cases h
        exact ⟨k, d', false, [], hu, rfl, by rw [List.append_nil]; rfl⟩
    | true =>
        obtain ⟨r, -, rfl⟩ := Option.map_eq_some_iff.mp h
        obtain ⟨new, ht, -⟩ := submit_spec (c.put k d') r
        exact ⟨k, d', true, new, hu, rfl, ht⟩

/-- Serving an offer is nothing to the downloads. -/
theorem ServeCase.still {o o' : Transfer} {k : Disk} (hc : InOrder c)
    (h : ServeCase c m o k o' a) : Still c (c.put k o') := by
  obtain ⟨acts, hlog, hown⟩ := h.step.log
  refine ⟨shrinks_put ?_, acts, hlog, ?_⟩
  · rw [h.step.type, h.type]
    decide
  · intro a ha
    refine ⟨(hown a ha).2, fun d hd htype haddr => ?_⟩
    have heq := TableOk.eq_of_addr hc hd h.mem (haddr.symm.trans (hown a ha).1)
    rw [heq, h.type] at htype
    cases htype

end Clt

/-- Matching a request changes nothing a response depends on. -/
theorem Clt.solicited_cfg {c c' : Clt} {m : Mbuf} (h : c.solicited m = some c') :
    c'.cfg = c.cfg := by
  unfold Clt.solicited at h
  split at h
  · obtain ⟨p, hp, rfl⟩ := Option.map_eq_some_iff.mp h
    obtain ⟨r, -, rfl⟩ := Option.map_eq_some_iff.mp hp
    rfl
  · cases h
    rfl

/-- What processing a message means, once it is known to be wanted. -/
theorem Clt.processSrvmsg_handled {env : CltEnv} {c t : Clt} {m : Mbuf} (hm : 40 ≤ m.bsize)
    (h : Clt.processSrvmsg env { c with rbuf := none } m = some t) :
    (({ c with rbuf := none } : Clt).solicited m = none ∧ t = { c with rbuf := none }) ∨
      ∃ c₁ c₂ a new, ({ c with rbuf := none } : Clt).solicited m = some c₁ ∧
        Clt.dispatchSrvmsg env c₁ (mbufResetgetattrib m) = some (c₂, a) ∧
        t = { c₂ with q := c₂.q ++ new } := by
  unfold Clt.processSrvmsg at h
  split at h
  · rename_i hsol
    cases h
    exact .inl ⟨hsol, rfl⟩
  · rename_i c₁ hsol
    obtain ⟨⟨c₂, a⟩, hdisp, hsend⟩ := Option.bind_eq_some_iff.mp h
    obtain ⟨new, ht, -⟩ := Clt.sendAnswer_spec hm hsend
    exact .inr ⟨c₁, c₂, a, new, hsol, hdisp, ht⟩

/-- A GETFILE response hands its DATA to the download it is for, or touches nothing. -/
theorem Clt.processSrvmsg_response {env : CltEnv} {c t : Clt} {m : Mbuf} (hm : 40 ≤ m.bsize)
    (htype : hdrGetType m = MsgType.code .getfileRes)
    (h : Clt.processSrvmsg env { c with rbuf := none } m = some t) :
    t.nextAddr = c.nextAddr ∧
      ((Clt.responseTo env c m = none ∧ t.disk = c.disk ∧ (t.transfers = c.transfers ∨
          ∃ d ∈ c.transfers, 0 < d.tact ∧
            t.transfers = putTransfer { d with tact := env.now } c.transfers)) ∨
        ∃ d data, Clt.responseTo env c m = some (d, data) ∧
          t.disk = (Clt.receiveData env c.disk { d with tact := env.now } data).1 ∧
          t.transfers = putTransfer (Clt.receiveData env c.disk { d with tact := env.now } data).2
            c.transfers) := by
  have hpend : (c.matchPendingReq m).isSome =
      (({ c with rbuf := none } : Clt).matchPendingReq m).isSome := by
    simp only [Clt.matchPendingReq, Option.isSome_map]
  rcases Clt.processSrvmsg_handled hm h with ⟨hsol, rfl⟩ | ⟨c₁, c₂, a, new, hsol, hdisp, rfl⟩
  · refine ⟨rfl, .inl ⟨?_, rfl, .inl rfl⟩⟩
    unfold Clt.solicited at hsol
    rw [htype, if_pos (by decide), Option.map_eq_none_iff] at hsol
    refine if_neg ?_
    rintro ⟨-, -, hsome⟩
    rw [hpend, hsol] at hsome
    cases hsome
  · obtain ⟨⟨hdisk, hts, hnext⟩, -, hst, -, hreq⟩ := Clt.solicited_spec hsol
    have hproc : Clt.processGetfileRes env c₁ (mbufResetgetattrib m) = some (c₂, a) := by
      have htype' : hdrGetType (mbufResetgetattrib m) = MsgType.code .getfileRes := htype
      simpa only [Clt.dispatchSrvmsg, htype', MsgType.ofCode?_code] using hdisp
    have hsome : (c.matchPendingReq m).isSome = true := by
      obtain ⟨r, -, -, hmatch⟩ := hreq (by rw [htype]; decide)
      rw [hpend, hmatch]
      rfl
    have hdata : Clt.responseData env c₁ m = Clt.responseData env c m := by
      rw [Clt.responseData, hts]
      rfl
    rcases Clt.processGetfileRes_eq hproc with ⟨hout, rfl⟩ | ⟨hno, hkeep⟩ | ⟨d, data, hauth, hd, rfl⟩
    · exact ⟨hnext, .inl ⟨if_neg fun h => hout (hst.trans h.2.1), hdisk, .inl hts⟩⟩
    · have hnone : Clt.responseTo env c m = none := by rw [Clt.responseTo, ← hdata, hno, ite_self]
      rcases hkeep with rfl | ⟨d, hd, hlive, rfl⟩
      · exact ⟨hnext, .inl ⟨hnone, hdisk, .inl hts⟩⟩
      · rw [hts] at hd
        exact ⟨hnext, .inl ⟨hnone, hdisk, .inr ⟨d, hd, hlive, congrArg _ hts⟩⟩⟩
    · refine ⟨hnext, .inr ⟨d, data, ?_, ?_, ?_⟩⟩
      · rw [Clt.responseTo, if_pos ⟨htype, hst.symm.trans hauth, hsome⟩, ← hdata, hd]
      · rw [← hdisk]
        rfl
      · change putTransfer _ c₁.transfers = _
        rw [hts, ← hdisk]

/-- An OFFER request enters a download. -/
theorem Clt.processSrvmsg_offered {env : CltEnv} {c t : Clt} {m : Mbuf} (hm : 40 ≤ m.bsize)
    (htype : hdrGetType m = MsgType.code .offerReq) (hauth : c.st = .authOk)
    (h : Clt.processSrvmsg env { c with rbuf := none } m = some t) :
    (t.disk = (Clt.enterOffer (Clt.offeredEntry env c m)).1 ∧
      t.transfers = (Clt.enterOffer (Clt.offeredEntry env c m)).2 :: c.transfers) ∧
      t.nextAddr = c.nextAddr + 1 := by
  rcases Clt.processSrvmsg_handled hm h with ⟨hsol, -⟩ | ⟨c₁, c₂, a, new, hsol, hdisp, rfl⟩
  · unfold Clt.solicited at hsol
    rw [htype, if_neg (by decide)] at hsol
    cases hsol
  · obtain ⟨⟨hdisk, hts, hnext⟩, -, hst, -, -⟩ := Clt.solicited_spec hsol
    have hproc : Clt.processOfferReq env c₁ (mbufResetgetattrib m) = some (c₂, a) := by
      have htype' : hdrGetType (mbufResetgetattrib m) = MsgType.code .offerReq := htype
      simpa only [Clt.dispatchSrvmsg, htype', MsgType.ofCode?_code] using hdisp
    have hentry : Clt.offeredEntry env c₁ m = Clt.offeredEntry env c m := by
      unfold Clt.offeredEntry Clt.offerEntry
      rw [Clt.solicited_cfg hsol, hdisk, hnext]
    rw [← hentry, Clt.processOfferReq_eq (hst.trans hauth) hproc]
    exact ⟨⟨rfl, congrArg _ hts⟩, congrArg _ hnext⟩

/-- What a message does to the downloads. -/
theorem processSrvmsg_downloads {c t : Clt} {e : CltEvent} {env : CltEnv} {m : Mbuf}
    (hc : CltOk c) (hmsg : e.message c = some (env, m)) (hm : 40 ≤ m.bsize)
    (h : Clt.processSrvmsg env { c with rbuf := none } m = some t) : DownloadStep c e t := by
  have hresp : e.response c = (Clt.responseTo env c m).map fun r => (env, r) := by
    rw [CltEvent.response, hmsg, Option.bind_some]
  by_cases hres : hdrGetType m = MsgType.code .getfileRes
  · rcases (Clt.processSrvmsg_response hm hres h).2 with
      ⟨hno, hdisk, hkeep⟩ | ⟨d, data, hd, hdisk, hts⟩
    · rw [hno] at hresp
      rcases hkeep with hsame | ⟨d, hd, hlive, hts⟩
      · exact .still hresp (.of_same hsame (congrArg Disk.log hdisk))
      · refine .still hresp ⟨?_, ?_⟩
        · intro u hu htype
          rw [hts] at hu
          rcases mem_putTransfer hu with rfl | ⟨hu, -⟩
          · exact ⟨d, hd, htype, rfl, ⟨rfl, rfl⟩, ⟨rfl, rfl⟩, .inl rfl, fun _ => ⟨hlive, rfl, rfl⟩⟩
          · exact ⟨u, hu, htype, .refl u⟩
        · rw [hdisk]
          exact .refl _ _
    · rw [hd] at hresp
      exact .answered hresp rfl ⟨hdisk, hts⟩
  · have hno : e.response c = none := by
      rw [hresp, Clt.responseTo, if_neg fun h => hres h.1, Option.map_none]
    by_cases hoffer : hdrGetType m = MsgType.code .offerReq ∧ c.st = .authOk
    · have hoffered : e.offered c = some (env, m) := by
        rw [CltEvent.offered, hmsg]
        exact Option.filter_eq_some_iff.mpr ⟨rfl, by simpa using hoffer⟩
      exact .offered hoffered rfl (Clt.processSrvmsg_offered hm hoffer.1 hoffer.2 h).1
    · rcases Clt.processSrvmsg_handled hm h with ⟨-, rfl⟩ | ⟨c₁, c₂, a, new, hsol, hdisp, rfl⟩
      · exact .still hno (.of_same rfl rfl)
      · obtain ⟨⟨hdisk, hts, hnext⟩, -, hst, -, -⟩ := Clt.solicited_spec hsol
        have hback : Still c₁ c₂ → Still c { c₂ with q := c₂.q ++ new } := by
          rintro ⟨hshr, hlog⟩
          rw [hts] at hshr hlog
          rw [hdisk] at hlog
          exact ⟨hshr, hlog⟩
        cases Clt.dispatchSrvmsg_cases hdisp with
        | plain hp =>
            exact .still hno (hback (.of_same hp.table.2.1 (congrArg Disk.log hp.table.1)))
        | serve hp => exact .still hno (hback (hp.still (hc.inOrder.congr ⟨hdisk, hts, hnext⟩)))
        | download hp => exact absurd hp.type hres
        | offer hp => exact absurd ⟨hp.type, hst.symm.trans hp.st⟩ hoffer

/-- A step that completes a message is the processing of this message. -/
theorem cltStep_message {c t : Clt} {e : CltEvent} {env : CltEnv} {m : Mbuf} (hc : RecvOk c.rbuf)
    (hmsg : e.message c = some (env, m)) (h : cltStep c e = some t) :
    40 ≤ m.bsize ∧ Clt.processSrvmsg env { c with rbuf := none } m = some t := by
  cases e with
  | read res env' =>
      simp only [CltEvent.message] at hmsg
      split at hmsg
      · rename_i m' hout
        simp only [Option.some.injEq, Prod.mk.injEq] at hmsg
        obtain ⟨rfl, rfl⟩ := hmsg
        refine ⟨(whole_of_complete hc.getD.1 hout).hdr, ?_⟩
        change Clt.readSrv env' c res = some t at h
        unfold Clt.readSrv at h
        simp only [hout] at h
        exact h
      · cases hmsg
  | _ => cases hmsg

/-- **Every step of the client is one of these.** -/
theorem cltStep_downloads {c t : Clt} {e : CltEvent} (hc : CltOk c) (hen : e.Enabled c)
    (h : cltStep c e = some t) : DownloadStep c e t := by
  cases hmsg : e.message c with
  | some p =>
      obtain ⟨hm, hproc⟩ := cltStep_message hc.rbuf hmsg h
      exact processSrvmsg_downloads hc hmsg hm hproc
  | none =>
      have hno := CltEvent.response_none hmsg
      rcases cltStep_cases hc.rbuf hen h with hcase | ⟨r, rfl, -⟩ | rfl
      · cases hcase with
        | quiet hq => exact .still hno (.of_quiet hq)
        | message hsome _ _ =>
            rw [hmsg] at hsome
            cases hsome
        | @accept rid oid env _ _ _ _ he _ _ =>
            subst he
            rcases Clt.cmdAccept_downloads h with ⟨-, rfl⟩ | ⟨d, k, d', ok, new, hfind, hstart, rfl⟩
            · exact .still hno (.of_same rfl rfl)
            · have hacc : (CltEvent.cmd (.accept rid oid) env).accepting c = some (env, d) := by
                rw [CltEvent.accepting, hfind]
                rfl
              exact .accepted hacc hstart ⟨rfl, rfl⟩
      · exact .still hno (.of_same rfl rfl)
      · exact .still hno ⟨shrinks_closeall c.disk c.transfers, .refl _ _⟩

end Frelay
