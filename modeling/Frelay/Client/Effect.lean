import Frelay.Client.Io
import Frelay.Client.Table

/-!
# What one step does to the client

* `getfileRequest_eq` — the request `accept` and the handler of a response send;
* `OfferCase`, `ServeCase`, `DownloadCase` — the three handlers that do more to
  the list of transfers than renewing a time;
* `processSrvmsg_cases` — every message is plain or one of these;
* `cltStep_cases` — every step is quiet, an `accept`, or a message;
* `cltOk_inductive` — the list is in order in every reachable state.
-/

namespace Frelay

open Lib

namespace Clt

/-! ## Composed messages -/

/-- The offer a GETFILE request composed by this client asks for. -/
def getOid (m : Mbuf) : UInt64 := ui64At m [] 48

/-- The request for part of a download, octet by octet. -/
theorem getfileRequest_eq (env : CltEnv) (d : Transfer) (oid sz : UInt64) :
    getfileRequest env d oid sz =
      some (mkMsg ⟨MsgType.code .getfileReq, 48, 0, env.ntime, 0, d.rid, env.rnd⟩
        (tlv .offerid (be64 oid) ++ (tlv .offset (be64 d.offset) ++
          tlv .size (be64 (if sz < MAX_DATA_SIZE then sz else MAX_DATA_SIZE)))) 0) := by
  have h8 : roundup8 8 = 8 := by decide
  rw [getfileRequest, compose_eq _ _ _ _ (by simp [AttrArg.avtype, MsgAttrib.avtype]), if_pos]
  · simp [tlvs, AttrArg.octets, h8]
  · simp [tlvs, AttrArg.octets, h8, MSG_MAX_PAY_SIZE]

/-- Its header and the offer it names. -/
theorem getfileRequest_spec {env : CltEnv} {d : Transfer} {oid sz : UInt64} {r : Mbuf}
    (h : getfileRequest env d oid sz = some r) :
    hdrGetType r = MsgType.code .getfileReq ∧ hdrGetDstid r = d.rid ∧ hdrGetTrfid r = env.rnd ∧
      getOid r = oid := by
  rw [getfileRequest_eq] at h
  cases h
  refine ⟨hdrGetType_mkMsg _ _ _, hdrGetDstid_mkMsg _ _ _, hdrGetTrfid_mkMsg _ _ _, ?_⟩
  exact ui64At_tlv _ [] _ _ _ _ _

/-! ## Handlers that change transfers -/

/-- The number of the entry an OFFER request is about: the last OFFERID it has. -/
def offerOid (env : CltEnv) (m : Mbuf) : UInt64 :=
  (attribRefs m).foldl
    (fun oid a => if a.at' = MsgAttrib.code .offerid then ui64At m env.beyond a.av else oid) 0

/-- The entry an OFFER request starts with. -/
def offerEntry (env : CltEnv) (c : Clt) (m : Mbuf) : Transfer :=
  { transferNew env.now c.nextAddr .download with rid := hdrGetSrcid m }

/-- An OFFER request adds a download, dead from the start if it was refused. -/
structure OfferCase (env : CltEnv) (c : Clt) (m : Mbuf) (k : Disk) (d : Transfer) (a : Answer) :
    Prop where
  type : hdrGetType m = MsgType.code .offerReq
  st : c.st = .authOk
  step : OnEntry False c.disk (offerEntry env c m) k d
  key : ∀ rid oid, d.Matches .download rid oid → rid = hdrGetSrcid m ∧ oid = offerOid env m
  send : ∀ r, a = .send r → hdrGetType r = MsgType.code .offerRes

/-- A GETFILE request, or the response to an OFFER, concerns one offer. -/
structure ServeCase (c : Clt) (m : Mbuf) (o : Transfer) (k : Disk) (o' : Transfer) (a : Answer) :
    Prop where
  mem : o ∈ c.transfers
  type : o.type = .offer
  step : OnEntry False c.disk o k o'
  send : ∀ r, a = .send r → hdrGetType m = MsgType.code .getfileReq ∧
    hdrGetType r = MsgType.code .getfileRes

/-- A GETFILE response concerns the download it names. -/
structure DownloadCase (env : CltEnv) (c : Clt) (m : Mbuf) (d : Transfer) (k : Disk) (d' : Transfer)
    (a : Answer) : Prop where
  type : hdrGetType m = MsgType.code .getfileRes
  mem : d ∈ c.transfers
  found : ∃ a m', nextIf m .offerid = some (a, m') ∧
    d.Matches .download (hdrGetSrcid m) (ui64At m' env.beyond a.av)
  step : OnEntry True c.disk d k d'
  key : ∀ rid oid, d'.Matches .download rid oid → d.Matches .download rid oid
  send : ∀ r, a = .send r → hdrGetType r = MsgType.code .getfileReq ∧ hdrGetDstid r = d.rid ∧
    getOid r = d.oid
  noFail : ∀ ec, a ≠ .fail ec

/-- The handler leaves the transfers alone; what it sends has nothing to do with GETFILE. -/
structure PlainCase (c c' : Clt) (a : Answer) : Prop where
  table : c'.disk = c.disk ∧ c'.transfers = c.transfers ∧ c'.nextAddr = c.nextAddr
  queues : c'.q = c.q ∧ c'.requests = c.requests
  conn : c'.rbuf = c.rbuf ∧ c'.srvfd = c.srvfd
  send : ∀ r, a = .send r → hdrGetType r ≠ MsgType.code .getfileReq ∧
    hdrGetType r ≠ MsgType.code .getfileRes

/-- What the `switch` of `process_srvmsg` can do. -/
inductive DispatchCase (env : CltEnv) (c : Clt) (m : Mbuf) : Clt → Answer → Prop
  | plain {c' : Clt} {a : Answer} : PlainCase c c' a → DispatchCase env c m c' a
  | offer {k : Disk} {d : Transfer} {a : Answer} :
      OfferCase env c m k d a → DispatchCase env c m (c.push k d) a
  | serve {o : Transfer} {k : Disk} {o' : Transfer} {a : Answer} :
      ServeCase c m o k o' a → DispatchCase env c m (c.put k o') a
  | download {d : Transfer} {k : Disk} {d' : Transfer} {a : Answer} :
      DownloadCase env c m d k d' a → DispatchCase env c m (c.put k d') a

section Handlers

variable {env : CltEnv} {c c' : Clt} {m : Mbuf} {a : Answer}

private theorem plain_nothing (env : CltEnv) (c : Clt) (m : Mbuf) :
    DispatchCase env c m c .nothing :=
  .plain ⟨⟨rfl, rfl, rfl⟩, ⟨rfl, rfl⟩, ⟨rfl, rfl⟩, nofun⟩

private theorem plain_state (env : CltEnv) (c : Clt) (m : Mbuf) (st : CltState) :
    DispatchCase env c m { c with st := st } .nothing :=
  .plain ⟨⟨rfl, rfl, rfl⟩, ⟨rfl, rfl⟩, ⟨rfl, rfl⟩, nofun⟩

/-- A message that has nothing to do with GETFILE is composed and sent. -/
private theorem plain_send {type : MsgType} {dstid trfid : UInt64}
    {l : List (MsgAttrib × AttrArg)} {st : CltState} (hty : ∀ b ∈ l, b.2.avtype = b.1.avtype)
    (hother : type.code ≠ MsgType.code .getfileReq ∧ type.code ≠ MsgType.code .getfileRes)
    (h : ((compose env.ntime type dstid trfid l).bind fun r =>
      some ({ c with st := st }, Answer.send r)) = some (c', a)) : DispatchCase env c m c' a := by
  obtain ⟨r, hr, heq⟩ := Option.bind_eq_some_iff.mp h
  cases heq
  refine .plain ⟨⟨rfl, rfl, rfl⟩, ⟨rfl, rfl⟩, ⟨rfl, rfl⟩, ?_⟩
  intro r' heq
  cases heq
  rw [hdrGetType_compose hty hr]
  exact hother

theorem processPing_cases (h : processPing env c m = some (c', a)) :
    DispatchCase env c m c' a := by
  unfold processPing at h
  split at h
  · exact plain_send (by simp [AttrArg.avtype, MsgAttrib.avtype]) (by decide) h
  · cases h
    exact plain_nothing env c m

/-- `make_filenames` sets nothing but the names and the descriptor. -/
theorem makeFilenames_fields (env : SysEnv) (noClobber : Bool) (k : Disk) (d : Transfer)
    (s : Bytes) :
    (makeFilenames env noClobber k d s).2.rid = d.rid ∧
      (makeFilenames env noClobber k d s).2.oid = d.oid := by
  have hloop : ∀ (n i : Nat) (k : Disk), (makeFilenamesFrom env s n i k d).2.rid = d.rid ∧
      (makeFilenamesFrom env s n i k d).2.oid = d.oid := by
    intro n
    induction n with
    | zero => exact fun _ _ => ⟨rfl, rfl⟩
    | succ n ih =>
        intro i k
        simp only [makeFilenamesFrom]
        split
        · exact ih (i + 1) k
        · split
          · exact ih (i + 1) _
          · exact ⟨rfl, rfl⟩
  unfold makeFilenames
  split
  · exact hloop _ _ _
  · exact ⟨rfl, rfl⟩

theorem offerAttrib_spec (env : CltEnv) (noClobber : Bool) (m : Mbuf) (p : Disk × Transfer)
    (a : AttrRef) :
    OnEntry False p.1 p.2 (offerAttrib env noClobber m p a).1 (offerAttrib env noClobber m p a).2 ∧
      (offerAttrib env noClobber m p a).2.rid = p.2.rid ∧
      (offerAttrib env noClobber m p a).2.oid =
        if a.at' = MsgAttrib.code .offerid then ui64At m env.beyond a.av else p.2.oid := by
  obtain ⟨k, d⟩ := p
  unfold offerAttrib
  simp only
  split
  · exact ⟨.fields rfl rfl rfl id, rfl, rfl⟩
  · split
    · exact ⟨makeFilenames_onEntry _ _ _ _ _, makeFilenames_fields _ _ _ _ _⟩
    · split
      · exact ⟨.fields rfl rfl rfl id, rfl, rfl⟩
      · exact ⟨.refl _ _ _, rfl, rfl⟩

/-- The attribute loop of an OFFER request. -/
theorem offerAttribs_spec (env : CltEnv) (noClobber : Bool) (m : Mbuf) (l : List AttrRef)
    (p : Disk × Transfer) :
    OnEntry False p.1 p.2 (l.foldl (offerAttrib env noClobber m) p).1
        (l.foldl (offerAttrib env noClobber m) p).2 ∧
      (l.foldl (offerAttrib env noClobber m) p).2.rid = p.2.rid ∧
      (l.foldl (offerAttrib env noClobber m) p).2.oid =
        l.foldl (fun oid a =>
          if a.at' = MsgAttrib.code .offerid then ui64At m env.beyond a.av else oid) p.2.oid := by
  induction l generalizing p with
  | nil => exact ⟨.refl _ _ _, rfl, rfl⟩
  | cons a l ih =>
      obtain ⟨hstep, hrid, hoid⟩ := offerAttrib_spec env noClobber m p a
      obtain ⟨hstep', hrid', hoid'⟩ := ih (offerAttrib env noClobber m p a)
      simp only [List.foldl_cons]
      exact ⟨hstep.trans hstep', hrid'.trans hrid, by rw [hoid', hoid]⟩

theorem processOfferReq_cases (htype : hdrGetType m = MsgType.code .offerReq)
    (h : processOfferReq env c m = some (c', a)) : DispatchCase env c m c' a := by
  unfold processOfferReq at h
  split at h
  · rename_i hst
    obtain ⟨hstep, hrid, hoid⟩ := offerAttribs_spec env c.cfg.noClobber m (attribRefs m)
      (c.disk, offerEntry env c m)
    change OnEntry False c.disk (offerEntry env c m) _ _ at hstep
    change _ = hdrGetSrcid m at hrid
    change _ = offerOid env m at hoid
    revert h hstep hrid hoid
    simp only [offerEntry]
    generalize (attribRefs m).foldl (offerAttrib env c.cfg.noClobber m) _ = r
    obtain ⟨k, d⟩ := r
    intro h hstep hrid hoid
    simp only at h hstep hrid hoid
    split at h
    · simp only [Option.some.injEq, Prod.mk.injEq] at h
      obtain ⟨rfl, rfl⟩ := h
      exact .offer ⟨htype, hst, hstep.trans .invalidate,
        fun rid oid hm => absurd hm Transfer.invalid_matches, nofun⟩
    · obtain ⟨r, hr, heq⟩ := Option.bind_eq_some_iff.mp h
      simp only [Option.some.injEq, Prod.mk.injEq] at heq
      obtain ⟨rfl, rfl⟩ := heq
      refine .offer ⟨htype, hst, hstep, ?_, ?_⟩
      · intro rid oid hm
        exact ⟨hm.2.2.1.trans hrid, hm.2.1.trans hoid⟩
      · intro r' heq
        cases heq
        exact hdrGetType_compose (by simp [AttrArg.avtype, MsgAttrib.avtype]) hr
  · cases h
    exact plain_nothing env c m

theorem getfileResponse_spec {oid : UInt64} {data : Bytes}
    (h : getfileResponse env c m oid data = some (c', a)) :
    c' = c ∧ ∃ r, a = .send r ∧ hdrGetType r = MsgType.code .getfileRes ∧
      r = mkMsg ⟨MsgType.code .getfileRes, UInt16.ofNat
          (tlv .offerid (be64 oid) ++ tlv .data data).length, 0, env.ntime, 0, hdrGetSrcid m,
          hdrGetTrfid m⟩ (tlv .offerid (be64 oid) ++ tlv .data data) 0 := by
  obtain ⟨r, hr, heq⟩ := Option.bind_eq_some_iff.mp h
  simp only [Option.some.injEq, Prod.mk.injEq] at heq
  obtain ⟨rfl, rfl⟩ := heq
  have hty : ∀ b ∈ [(MsgAttrib.offerid, AttrArg.ui64 oid), (MsgAttrib.data, AttrArg.blob data)],
      b.2.avtype = b.1.avtype := by simp [AttrArg.avtype, MsgAttrib.avtype]
  refine ⟨rfl, r, rfl, hdrGetType_compose hty hr, ?_⟩
  rw [(compose_eq_some hty hr).2]
  simp [AttrArg.octets]

theorem processGetfileReq_cases (htype : hdrGetType m = MsgType.code .getfileReq)
    (h : processGetfileReq env c m = some (c', a)) : DispatchCase env c m c' a := by
  unfold processGetfileReq at h
  split at h
  · cases h
    exact plain_nothing env c m
  · rename_i at₁ m₁ _
    simp only at h
    split at h
    · cases h
      exact .plain ⟨⟨rfl, rfl, rfl⟩, ⟨rfl, rfl⟩, ⟨rfl, rfl⟩, nofun⟩
    · rename_i o hmatch
      obtain ⟨u, hu, hum, rfl⟩ := transferMatch_eq_some hmatch
      have hrenew : OnEntry False c.disk u c.disk { u with tact := env.now } :=
        .renew _ hum.2.2.2
      split at h
      · obtain ⟨rfl, r, rfl, hrtype, -⟩ := getfileResponse_spec h
        refine .serve (o := u) ⟨hu, hum.1.symm,
          (hrenew.trans .invalidate).trans (.fields rfl rfl rfl id), ?_⟩
        intro r' heq
        cases heq
        exact ⟨htype, hrtype⟩
      · split at h
        · cases h
        · rename_i k o' hread
          cases h
          exact .serve (o := u) ⟨hu, hum.1.symm,
            hrenew.trans (offerRead_onEntry _ _ hread), nofun⟩
        · rename_i k o' data hread
          obtain ⟨rfl, r, rfl, hrtype, -⟩ := getfileResponse_spec h
          refine .serve (o := u) ⟨hu, hum.1.symm,
            (hrenew.trans (offerRead_onEntry _ _ hread)).trans (.fields rfl rfl rfl id), ?_⟩
          intro r' heq
          cases heq
          exact ⟨htype, hrtype⟩

theorem processOfferRes_cases (h : processOfferRes env c m = some (c', a)) :
    DispatchCase env c m c' a := by
  unfold processOfferRes at h
  split at h
  · cases h
    exact plain_nothing env c m
  · split at h
    · cases h
      exact plain_nothing env c m
    · rename_i o hmatch
      obtain ⟨u, hu, hum, rfl⟩ := transferMatch_eq_some hmatch
      cases h
      exact .serve (o := u) ⟨hu, hum.1.symm, .renew _ hum.2.2.2, nofun⟩

/-- The rename at the end of a download. -/
theorem renamePart_onEntry (env : CltEnv) (k : Disk) (d t : Transfer) (h : d.addr = t.addr) :
    OnEntry True k t (renamePart env k d) t := by
  unfold renamePart
  split
  · split
    · rename_i fs hren
      split at hren
      · obtain ⟨i, -, rfl⟩ := Option.map_eq_some_iff.mp hren
        refine (OnEntry.files ?_ ?_).trans (.note h (fun _ => trivial) rfl (by simp))
        · intro n f _ _ hf
          split
          · exact hf
          · exact hf
        · intro f hf
          refine ⟨f, ?_, rfl⟩
          split
          · exact hf
          · exact hf
      · cases hren
    · exact .refl _ _ _
  · exact .refl _ _ _

/-- The end of a download kills its entry. -/
theorem downloadEnd_spec (env : CltEnv) (c : Clt) (d : Transfer) :
    ∃ k, downloadEnd env c d = c.put k d.invalid ∧ OnEntry True c.disk d k d.invalid := by
  refine ⟨_, rfl, ?_⟩
  refine ((OnEntry.note ?_ ?_ ?_ ?_).trans .invalidate).trans
    (renamePart_onEntry env _ d _ rfl)
  · split <;> rfl
  · exact fun _ => trivial
  · split <;> rfl
  · split <;> simp

/-- `download_write` keeps the ids, the announced size and the offset. -/
theorem downloadWrite_fields (env : SysEnv) (k : Disk) (d : Transfer) (data : Bytes) :
    ∃ fd, (downloadWrite env k d data).2.1 = { d with fd := fd } := by
  have hopen : ∃ fd, (downloadOpen env k d).2 = { d with fd := fd } := by
    unfold downloadOpen
    split
    · exact ⟨_, rfl⟩
    · split <;> exact ⟨_, rfl⟩
  unfold downloadWrite
  revert hopen
  generalize downloadOpen env k d = r
  obtain ⟨k₁, d₁⟩ := r
  rintro ⟨fd, rfl⟩
  simp only
  split
  · exact ⟨_, rfl⟩
  · split
    · exact ⟨_, rfl⟩
    · split <;> exact ⟨_, rfl⟩

theorem processGetfileRes_cases (htype : hdrGetType m = MsgType.code .getfileRes)
    (h : processGetfileRes env c m = some (c', a)) : DispatchCase env c m c' a := by
  unfold processGetfileRes at h
  split at h
  · cases h
    exact plain_nothing env c m
  · rename_i at₁ m₁ hnext
    simp only at h
    split at hnext
    · split at h
      · cases h
        exact plain_nothing env c m
      · rename_i d hmatch
        obtain ⟨u, hu, hum, rfl⟩ := transferMatch_eq_some hmatch
        have hrenew : ∀ w, OnEntry w c.disk u c.disk { u with tact := env.now } :=
          fun w => .renew _ hum.2.2.2
        -- The entry goes on under the same ids.
        have hkey : ∀ (fd : Int) (off : UInt64) (rid oid : UInt64),
            ({ u with tact := env.now, fd := fd, offset := off } : Transfer).Matches .download
              rid oid → u.Matches .download rid oid :=
          fun fd off rid oid hm => ⟨hm.1, hm.2.1, hm.2.2.1, hum.2.2.2⟩
        split at h
        · cases h
          exact .download (d := u) ⟨htype, hu, ⟨_, _, hnext, hum⟩, hrenew True,
            fun rid oid hm => hkey u.fd u.offset rid oid hm, nofun, nofun⟩
        · rename_i at₂ m₂ hdata
          split at h
          · obtain ⟨k, heq, hend⟩ := downloadEnd_spec env c { u with tact := env.now }
            rw [heq] at h
            cases h
            exact .download (d := u) ⟨htype, hu, ⟨_, _, hnext, hum⟩, (hrenew True).trans hend,
              fun rid oid hm => absurd hm Transfer.invalid_matches, nofun, nofun⟩
          · have hwrite := downloadWrite_onEntry env.toSysEnv c.disk { u with tact := env.now }
              (blobAt m₂ at₂)
            obtain ⟨fd, hfd⟩ := downloadWrite_fields env.toSysEnv c.disk
              { u with tact := env.now } (blobAt m₂ at₂)
            revert h hwrite hfd
            generalize downloadWrite env.toSysEnv c.disk { u with tact := env.now }
              (blobAt m₂ at₂) = r
            obtain ⟨k, d', ok⟩ := r
            intro h hwrite hfd
            simp only at hwrite hfd
            subst hfd
            cases ok with
            | false =>
                cases h
                exact .download (d := u) ⟨htype, hu, ⟨_, _, hnext, hum⟩,
                  ((hrenew True).trans hwrite).trans .invalidate,
                  fun rid oid hm => absurd hm Transfer.invalid_matches,
                  nofun, nofun⟩
            | true =>
                obtain ⟨r, hr, heq⟩ := Option.bind_eq_some_iff.mp h
                simp only [Option.some.injEq, Prod.mk.injEq] at heq
                obtain ⟨rfl, rfl⟩ := heq
                obtain ⟨hrtype, hrdst, -, hroid⟩ := getfileRequest_spec hr
                refine .download (d := u) ⟨htype, hu, ⟨_, _, hnext, hum⟩,
                  ((hrenew True).trans hwrite).trans (.fields rfl rfl rfl id),
                  fun rid oid hm => hkey fd _ rid oid hm, ?_, nofun⟩
                intro r' heq
                cases heq
                exact ⟨hrtype, hrdst, hroid.trans hum.2.1⟩
    · cases hnext

theorem processLoginRes_cases (h : processLoginRes env c m = some (c', a)) :
    DispatchCase env c m c' a := by
  unfold processLoginRes at h
  split at h
  · split at h
    · cases h
      exact plain_nothing env c m
    · split at h
      · cases h
        exact plain_state env c m _
      · split at h
        · split at h
          · exact plain_send (by simp [AttrArg.avtype, MsgAttrib.avtype]) (by decide) h
          · cases h
            exact plain_nothing env c m
        · cases h
          exact plain_nothing env c m
  · cases h
    exact plain_nothing env c m

/-- The three handlers that only look at the session state. -/
private theorem session_cases {p : Prop} [Decidable p] {st : CltState}
    (h : (if p then some ({ c with st := st }, Answer.nothing) else some (c, .nothing)) =
      some (c', a)) : DispatchCase env c m c' a := by
  split at h
  · cases h
    exact plain_state env c m st
  · cases h
    exact plain_nothing env c m

/-- **Every message is plain, or concerns one entry of the list.** -/
theorem dispatchSrvmsg_cases (h : dispatchSrvmsg env c m = some (c', a)) :
    DispatchCase env c m c' a := by
  unfold dispatchSrvmsg at h
  split at h
  · exact processPing_cases h
  · exact processPing_cases h
  · exact processOfferReq_cases (MsgType.ofCode?_eq_some.mp ‹_›) h
  · exact processGetfileReq_cases (MsgType.ofCode?_eq_some.mp ‹_›) h
  · exact processOfferRes_cases h
  · exact processGetfileRes_cases (MsgType.ofCode?_eq_some.mp ‹_›) h
  · exact processLoginRes_cases h
  · exact session_cases h
  · exact session_cases h
  · exact session_cases h
  · cases h
    exact plain_nothing env c m

end Handlers

/-! ## One message -/

/-- From `c` to `t` the transfers and the files stay as they are. -/
def SameTable (c t : Clt) : Prop :=
  t.disk = c.disk ∧ t.transfers = c.transfers ∧ t.nextAddr = c.nextAddr

/-- A matched request leaves the pending list, nothing else changes. -/
theorem solicited_spec {c c' : Clt} {m : Mbuf} (h : c.solicited m = some c') :
    SameTable c c' ∧ (c'.q = c.q ∧ c'.rbuf = c.rbuf ∧ c'.srvfd = c.srvfd) ∧ c'.st = c.st ∧
      c'.requests.Sublist c.requests ∧
      (mclassIsRes (hdrGetType m) = true →
        ∃ r ∈ c.requests, Answers m r ∧ c.matchPendingReq m = some (r, c')) := by
  unfold solicited at h
  split at h
  · obtain ⟨p, hp, rfl⟩ := Option.map_eq_some_iff.mp h
    have hmatch := hp
    obtain ⟨r, hr, rfl⟩ := Option.map_eq_some_iff.mp hp
    have hans := List.find?_some (p := fun r : Mbuf => decide (Answers m r)) hr
    exact ⟨⟨rfl, rfl, rfl⟩, ⟨rfl, rfl, rfl⟩, rfl, List.eraseP_sublist,
      fun _ => ⟨r, List.mem_of_find?_eq_some hr, of_decide_eq_true hans, hmatch⟩⟩
  · rename_i hcls
    cases h
    exact ⟨⟨rfl, rfl, rfl⟩, ⟨rfl, rfl, rfl⟩, rfl, .refl _, fun hres => absurd hres hcls⟩

/-- What `process_srvmsg` appends to the send queue for the answer of a handler. -/
def Sends (m : Mbuf) (a : Answer) (new : List Mbuf) : Prop :=
  match a with
  | .nothing => new = []
  | .send r => new = [{ r with boff := 0 }]
  | .fail _ => ∃ r, new = [{ r with boff := 0 }] ∧ hdrGetType r = mclassToErr (hdrGetType m)

theorem sendAnswer_spec {env : CltEnv} {c t : Clt} {m : Mbuf} {a : Answer} (hm : 40 ≤ m.bsize)
    (h : sendAnswer env m (c, a) = some t) :
    ∃ new, t = { c with q := c.q ++ new } ∧ Sends m a new := by
  cases a with
  | nothing =>
      cases h
      exact ⟨[], by rw [List.append_nil], rfl⟩
  | send r =>
      cases h
      exact ⟨_, rfl, rfl⟩
  | fail ec =>
      obtain ⟨r, hr, rfl⟩ := Option.map_eq_some_iff.mp h
      exact ⟨_, rfl, r, rfl, (isReply_error_type hm hr).2⟩

/-- **What one complete message can do.** -/
theorem processSrvmsg_cases {env : CltEnv} {c t : Clt} {m : Mbuf} (hm : 40 ≤ m.bsize)
    (h : processSrvmsg env c m = some t) :
    t = c ∨ ∃ c₁ c₂ a new, c.solicited m = some c₁ ∧
      dispatchSrvmsg env c₁ (mbufResetgetattrib m) = some (c₂, a) ∧
      DispatchCase env c₁ (mbufResetgetattrib m) c₂ a ∧
      t = { c₂ with q := c₂.q ++ new } ∧ Sends m a new := by
  unfold processSrvmsg at h
  split at h
  · cases h
    exact .inl rfl
  · rename_i c₁ hsol
    obtain ⟨⟨c₂, a⟩, hdisp, hsend⟩ := Option.bind_eq_some_iff.mp h
    obtain ⟨new, ht, hnew⟩ := sendAnswer_spec hm hsend
    exact .inr ⟨c₁, c₂, a, new, hsol, hdisp, dispatchSrvmsg_cases hdisp, ht, hnew⟩

/-! ## The list stays in order -/

/-- The list of transfers of a client is in order. -/
def InOrder (c : Clt) : Prop := TableOk c.disk c.transfers c.nextAddr

theorem InOrder.congr {c t : Clt} (h : InOrder c) (hs : SameTable c t) : InOrder t := by
  obtain ⟨hdisk, hts, hnext⟩ := hs
  unfold InOrder
  rw [hdisk, hts, hnext]
  exact h

theorem DispatchCase.inOrder {env : CltEnv} {c c' : Clt} {m : Mbuf} {a : Answer}
    (hc : InOrder c) (h : DispatchCase env c m c' a) : InOrder c' := by
  cases h with
  | plain h => exact hc.congr h.table
  | offer h => exact TableOk.push hc rfl rfl h.step
  | serve h => exact TableOk.put hc h.mem h.step
  | download h => exact TableOk.put hc h.mem h.step

theorem InOrder.processSrvmsg {env : CltEnv} {c t : Clt} {m : Mbuf} (hc : InOrder c)
    (hm : 40 ≤ m.bsize) (h : processSrvmsg env c m = some t) : InOrder t := by
  rcases processSrvmsg_cases hm h with rfl | ⟨c₁, c₂, a, new, hsol, -, hcase, rfl, -⟩
  · exact hc
  · exact (hcase.inOrder (hc.congr (solicited_spec hsol).1)).congr ⟨rfl, rfl, rfl⟩

theorem InOrder.closeall {c : Clt} (hc : InOrder c) : InOrder c.closeall := TableOk.closeall hc

theorem InOrder.disc {c : Clt} (hc : InOrder c) : InOrder c.disc := hc.closeall

/-! ## Commands -/

theorem submit_spec (c : Clt) (m : Mbuf) :
    ∃ new, c.submit m = { c with q := c.q ++ new } ∧ (new = [] ∨ new = [{ m with boff := 0 }]) := by
  unfold submit
  split
  · exact ⟨[], by rw [List.append_nil], .inl rfl⟩
  · exact ⟨_, rfl, .inr rfl⟩

theorem request_spec {env : CltEnv} {c t : Clt} {type : MsgType} {dstid : UInt64}
    {l : List (MsgAttrib × AttrArg)} (hty : ∀ a ∈ l, a.2.avtype = a.1.avtype)
    (h : request env c type dstid l = some t) :
    ∃ new, t = { c with q := c.q ++ new } ∧ ∀ r ∈ new, hdrGetType r = type.code := by
  obtain ⟨m, hm, rfl⟩ := Option.map_eq_some_iff.mp h
  have htype := hdrGetType_compose hty hm
  obtain ⟨new, ht, hnew⟩ := submit_spec c m
  refine ⟨new, ht, ?_⟩
  rcases hnew with rfl | rfl
  · exact fun r hr => absurd hr List.not_mem_nil
  · intro r hr
    rw [List.mem_singleton.mp hr]
    exact htype

/-- `accept` selects a download, opens its part file and asks for its content. -/
structure AcceptCase (env : CltEnv) (c : Clt) (rid oid : UInt64) (d : Transfer) (k : Disk)
    (d' : Transfer) (new : List Mbuf) : Prop where
  mem : d ∈ c.transfers
  found : d.Matches .download rid oid
  start : ∃ ok, startDownload env (c.disk.note (.accepted d.addr)) { d with tact := env.now } =
    (k, d', ok)
  step : OnEntry True (c.disk.note (.accepted d.addr)) d k d'
  key : ∀ rid oid, d'.Matches .download rid oid → d.Matches .download rid oid
  send : ∀ r ∈ new, hdrGetType r = MsgType.code .getfileReq ∧ hdrGetDstid r = d.rid ∧
    getOid r = d.oid

/-- `download_resume` keeps the ids and the announced size. -/
theorem downloadResume_fields (env : SysEnv) (k : Disk) (d : Transfer) :
    ∃ fd offset, (downloadResume env k d).2.1 = { d with fd := fd, offset := offset } := by
  unfold downloadResume
  split
  · exact ⟨d.fd, d.offset, rfl⟩
  · split
    · exact ⟨_, d.offset, rfl⟩
    · split
      · exact ⟨_, d.offset, rfl⟩
      · exact ⟨_, _, rfl⟩

theorem startDownload_spec (env : CltEnv) (k : Disk) (d : Transfer) :
    OnEntry True k d (startDownload env k d).1 (startDownload env k d).2.1 ∧
      ∃ fd offset, (startDownload env k d).2.1 = { d with fd := fd, offset := offset } := by
  have hres := (downloadResume_onEntry env.toSysEnv k d).mono (v := True) fun _ => trivial
  obtain ⟨fd, off, hfields⟩ := downloadResume_fields env.toSysEnv k d
  unfold startDownload
  revert hres hfields
  generalize downloadResume env.toSysEnv k d = r
  obtain ⟨k₁, d₁, ok⟩ := r
  intro hres hfields
  cases ok with
  | true => exact ⟨hres, fd, off, hfields⟩
  | false =>
      have hw := downloadWrite_onEntry env.toSysEnv k₁ d₁ []
      obtain ⟨fd', hfd'⟩ := downloadWrite_fields env.toSysEnv k₁ d₁ []
      simp only at hres hfields
      refine ⟨hres.trans hw, fd', off, ?_⟩
      simp only
      rw [hfd', hfields]

theorem cmdAccept_cases {env : CltEnv} {c t : Clt} {rid oid : UInt64}
    (h : cmdAccept env c rid oid = some t) :
    t = c ∨ ∃ d k d' new, AcceptCase env c rid oid d k d' new ∧
      t = { c.put k d' with q := c.q ++ new } := by
  unfold cmdAccept at h
  split at h
  · cases h
    exact .inl rfl
  · rename_i d hmatch
    obtain ⟨u, hu, hum, rfl⟩ := transferMatch_eq_some hmatch
    obtain ⟨hstep, fd, off, hfields⟩ := startDownload_spec env
      (c.disk.note (.accepted u.addr)) { u with tact := env.now }
    have hstep' := OnEntry.trans (OnEntry.renew (k := c.disk.note (.accepted u.addr))
      env.now hum.2.2.2) hstep
    revert h hstep' hfields
    generalize hr : startDownload env (c.disk.note (.accepted u.addr)) { u with tact := env.now } = r
    obtain ⟨k, d', ok⟩ := r
    intro h hfields hstep'
    simp only at hstep' hfields
    have hkey : ∀ rid oid, d'.Matches .download rid oid → u.Matches .download rid oid := by
      intro rid' oid' hm
      rw [hfields] at hm
      exact ⟨hm.1, hm.2.1, hm.2.2.1, hum.2.2.2⟩
    cases ok with
    | false =>
        cases h
        exact .inr ⟨u, k, d', [], ⟨hu, hum, ⟨_, hr⟩, hstep', hkey,
          fun r hr => absurd hr List.not_mem_nil⟩, by rw [List.append_nil]; rfl⟩
    | true =>
        obtain ⟨r, hreq, rfl⟩ := Option.map_eq_some_iff.mp h
        obtain ⟨hrtype, hrdst, -, hroid⟩ := getfileRequest_spec hreq
        obtain ⟨new, ht, hnew⟩ := submit_spec (c.put k d') r
        refine .inr ⟨u, k, d', new, ⟨hu, hum, ⟨_, hr⟩, hstep', hkey, ?_⟩, ht⟩
        rcases hnew with rfl | rfl
        · exact fun r hr => absurd hr List.not_mem_nil
        · intro r' hr'
          rw [List.mem_singleton.mp hr']
          exact ⟨hrtype, hrdst.trans (by rw [hfields]), hroid.trans hum.2.1⟩

theorem AcceptCase.inOrder {env : CltEnv} {c : Clt} {rid oid : UInt64} {d d' : Transfer}
    {k : Disk} {new : List Mbuf} (hc : InOrder c) (h : AcceptCase env c rid oid d k d' new) :
    InOrder (c.put k d') := by
  have hnote : OnEntry True c.disk d (c.disk.note (.accepted d.addr)) d :=
    .note rfl (fun h => h.elim) rfl (by simp)
  exact TableOk.put hc h.mem (hnote.trans h.step)

/-! ## Steps that leave the downloads in peace -/

/-- Only requests wait for a response. -/
def ReqPending (c : Clt) : Prop := ∀ r ∈ c.requests, mclassIsReq (hdrGetType r) = true

/-- From `c` to `t` no download has come to life, nothing was written to a part
file or renamed, and nothing was sent that has to do with GETFILE. -/
structure Quiet (c t : Clt) : Prop where
  inOrder : InOrder c → InOrder t
  rbuf : t.rbuf = c.rbuf
  shrinks : Shrinks c.transfers t.transfers
  noted : Noted c.disk t.disk
  msgs : ∀ r ∈ t.q ++ t.requests, (∃ r' ∈ c.q ++ c.requests, r'.b = r.b) ∨
    (hdrGetType r ≠ MsgType.code .getfileReq ∧ hdrGetType r ≠ MsgType.code .getfileRes)
  sent : ∀ r, t.q = c.q ++ [r] → hdrGetType r ≠ MsgType.code .getfileReq ∧
    hdrGetType r ≠ MsgType.code .getfileRes
  pending : ReqPending c → ReqPending t

theorem Quiet.refl (c : Clt) : Quiet c c where
  inOrder := id
  rbuf := rfl
  shrinks := .refl _
  noted := .refl _
  msgs := fun r hr => .inl ⟨r, hr, rfl⟩
  sent := fun r h => absurd (congrArg List.length h) (by simp)
  pending := id

/-- Nothing was sent and no request became pending. -/
theorem Quiet.of_table {c t : Clt} (hord : InOrder c → InOrder t)
    (hshr : Shrinks c.transfers t.transfers) (hnoted : Noted c.disk t.disk)
    (hq : t.q = c.q ∧ t.rbuf = c.rbuf) (hreq : t.requests.Sublist c.requests) : Quiet c t where
  inOrder := hord
  rbuf := hq.2
  shrinks := hshr
  noted := hnoted
  msgs := by
    intro r hr
    rw [hq.1] at hr
    refine .inl ⟨r, ?_, rfl⟩
    rcases List.mem_append.mp hr with h | h
    · exact List.mem_append_left _ h
    · exact List.mem_append_right _ (hreq.subset h)
  sent := by
    intro r h
    rw [hq.1] at h
    exact absurd (congrArg List.length h) (by simp)
  pending := fun hp r hr => hp r (hreq.subset hr)

/-- A message of another kind is put into the queue on top of a quiet step. -/
theorem Quiet.send {c t : Clt} {new : List Mbuf} (h : Quiet c t) (hq : t.q = c.q)
    (hnew : ∀ r ∈ new, hdrGetType r ≠ MsgType.code .getfileReq ∧
      hdrGetType r ≠ MsgType.code .getfileRes) : Quiet c { t with q := t.q ++ new } where
  inOrder := fun hc => (h.inOrder hc).congr ⟨rfl, rfl, rfl⟩
  rbuf := h.rbuf
  shrinks := h.shrinks
  noted := h.noted
  msgs := by
    intro r hr
    rcases List.mem_append.mp hr with hr | hr
    · rcases List.mem_append.mp hr with hr | hr
      · exact h.msgs r (List.mem_append_left _ hr)
      · exact .inr (hnew r hr)
    · exact h.msgs r (List.mem_append_right _ hr)
  sent := by
    intro r heq
    change t.q ++ new = c.q ++ [r] at heq
    rw [hq, List.append_cancel_left_eq] at heq
    exact hnew r (heq ▸ List.mem_singleton.mpr rfl)
  pending := fun hp r hr => h.pending hp r hr

theorem quiet_request (type : MsgType) {env : CltEnv} {c c₁ t : Clt} {dstid : UInt64}
    {l : List (MsgAttrib × AttrArg)} (h₁ : Quiet c c₁) (hq : c₁.q = c.q)
    (hty : ∀ a ∈ l, a.2.avtype = a.1.avtype)
    (hreq : type.code ≠ MsgType.code .getfileReq) (hres : type.code ≠ MsgType.code .getfileRes)
    (h : request env c₁ type dstid l = some t) : Quiet c t := by
  obtain ⟨new, rfl, hnew⟩ := request_spec hty h
  exact h₁.send hq fun r hr => by
    rw [hnew r hr]
    exact ⟨hreq, hres⟩

theorem quiet_disc (c : Clt) : Quiet c c.disc :=
  .of_table InOrder.disc (shrinks_closeall c.disk _) (.of_log rfl) ⟨rfl, rfl⟩ (.refl _)

/-- Every command but `accept` is quiet. -/
theorem runCmd_quiet {env : CltEnv} {c t : Clt} {cmd : CltCmd}
    (hne : ∀ rid oid, cmd ≠ .accept rid oid) (h : runCmd env c cmd = some t) : Quiet c t := by
  have hself := Quiet.refl c
  cases cmd with
  | accept rid oid => exact absurd rfl (hne rid oid)
  | offer dest filename =>
      change cmdOffer env c dest filename = some t at h
      unfold cmdOffer at h
      split at h
      · cases h
        exact hself
      · split at h
        · cases h
          exact hself
        · rename_i o ho
          obtain ⟨fsz, -, ho⟩ := Option.map_eq_some_iff.mp ho
          have htype : o.type ≠ .download := by
            rw [← ho]
            simp [transferNew]
          have hstep : OnEntry False c.disk (transferNew env.now c.nextAddr .offer) c.disk o := by
            rw [← ho]
            exact .fields rfl rfl rfl id
          -- The offer is entered first, and then announced.
          have hpush : Quiet c (c.push c.disk o) :=
            .of_table (fun hc => TableOk.push hc rfl rfl hstep) (shrinks_cons htype) (.refl _)
              ⟨rfl, rfl⟩ (.refl _)
          exact quiet_request .offerReq hpush rfl (by simp [AttrArg.avtype, MsgAttrib.avtype])
            (by decide) (by decide) h
  | remove mask =>
      cases h
      exact .of_table (fun hc => TableOk.remove hc mask) (transferRemove_shrinks mask _ _).2
        (transferRemove_shrinks mask _ _).1 ⟨rfl, rfl⟩ (.refl _)
  | connect fd =>
      cases h
      cases fd with
      | none => exact .of_table id (.refl _) (.refl _) ⟨rfl, rfl⟩ (.refl _)
      | some n => exact .of_table id (.refl _) (.refl _) ⟨rfl, rfl⟩ (.refl _)
  | disconnect =>
      cases h
      unfold cmdDisconnect
      split
      · exact quiet_disc c
      · exact .of_table id (.refl _) (.refl _) ⟨rfl, rfl⟩ (.refl _)
  | exit => cases h
  | login user password =>
      change cmdLogin env c user password = some t at h
      unfold cmdLogin at h
      split at h
      · rename_i p
        have hkey : Quiet c { c with pubkey := some p } :=
          .of_table id (.refl _) (.refl _) ⟨rfl, rfl⟩ (.refl _)
        exact quiet_request .loginReq hkey rfl (by simp [AttrArg.avtype, MsgAttrib.avtype])
          (by decide) (by decide) h
      · exact quiet_request .loginReq hself rfl (by simp [AttrArg.avtype, MsgAttrib.avtype]) (by decide)
          (by decide) h
  | logout => exact quiet_request .logoutReq hself rfl (by simp) (by decide) (by decide) h
  | register password =>
      exact quiet_request .registerReq hself rfl (by simp [AttrArg.avtype, MsgAttrib.avtype])
        (by decide) (by decide) h
  | drop => exact quiet_request .dropReq hself rfl (by simp) (by decide) (by decide) h
  | ping dest notice =>
      refine quiet_request .pingReq hself rfl ?_ (by decide) (by decide) h
      intro a ha
      obtain ⟨s, -, rfl⟩ := List.mem_map.mp ha
      rfl
  | peerlist => exact quiet_request .peerlistReq hself rfl (by simp) (by decide) (by decide) h
  | cd dir =>
      cases h
      exact .of_table (fun hc => TableOk.cd hc _) (.refl _) (.refl _) ⟨rfl, rfl⟩ (.refl _)

/-- Writing to the server is quiet; a request that is out becomes pending. -/
theorem writeSrv_quiet {c t : Clt} {res : WriteRes} (h : writeSrv c res = some t) : Quiet c t := by
  unfold writeSrv at h
  split at h
  · cases h
  · rename_i m q hq
    split at h
    · cases h
      exact quiet_disc c
    · cases h
      exact .refl c
    · rename_i m' hout
      cases h
      have hb : m'.b = m.b := by
        unfold writeOutcome at hout
        split at hout
        · split at hout
          · cases hout
          · cases hout
          · split at hout
            · cases hout
            · cases hout
              rfl
        · cases hout
          rfl
      -- Every message afterwards is one of those before, up to its offset.
      have hmem : ∀ r, r = m' ∨ r ∈ q ∨ r ∈ c.requests → ∃ r' ∈ c.q ++ c.requests, r'.b = r.b := by
        intro r hr
        rw [hq]
        rcases hr with rfl | hr | hr
        · exact ⟨m, by simp, hb.symm⟩
        · exact ⟨r, by simp [hr], rfl⟩
        · exact ⟨r, by simp [hr], rfl⟩
      have hshrunk : ∀ r, q ≠ c.q ++ [r] := by
        intro r heq
        have := congrArg List.length heq
        simp only [hq, List.length_append, List.length_cons] at this
        omega
      split
      · unfold dequeueMsg
        simp only
        split
        · rename_i hreq
          refine ⟨id, rfl, .refl _, .refl _, fun r hr => .inl (hmem r ?_), fun r heq => ?_, ?_⟩
          · simp only [List.mem_append, List.mem_cons] at hr
            rcases hr with hr | rfl | hr
            · exact .inr (.inl hr)
            · exact .inl rfl
            · exact .inr (.inr hr)
          · exact absurd heq (hshrunk r)
          · intro hp r hr
            rcases List.mem_cons.mp hr with rfl | hr
            · exact hreq
            · exact hp r hr
        · refine ⟨id, rfl, .refl _, .refl _, fun r hr => .inl (hmem r ?_), fun r heq => ?_, id⟩
          · rcases List.mem_append.mp hr with hr | hr
            · exact .inr (.inl hr)
            · exact .inr (.inr hr)
          · exact absurd heq (hshrunk r)
      · refine ⟨id, rfl, .refl _, .refl _, fun r hr => .inl (hmem r ?_), fun r heq => ?_, id⟩
        · simp only [List.mem_append, List.mem_cons] at hr
          rcases hr with (rfl | hr) | hr
          · exact .inl rfl
          · exact .inr (.inl hr)
          · exact .inr (.inr hr)
        · exact absurd (congrArg List.length heq) (by simp [hq])

theorem upkeep_quiet (env : CltEnv) (c : Clt) : Quiet c (upkeep env c) := by
  have hping : hdrGetType (mbufCompose env.ntime .pingInd 0 0 env.rnd) = MsgType.code .pingInd := by
    rw [mbufCompose_eq, hdrGetType_mkMsg]
  have hbase : Quiet c { upkeep env c with q := c.q } := by
    refine .of_table (fun hc => ?_) ?_ (.of_log ?_) ⟨rfl, ?_⟩ ?_
    · have := TableOk.upkeep hc env.now c.cfg.offerTimeout
      unfold upkeep
      split <;> exact this
    · have := shrinks_upkeep env.now c.cfg.offerTimeout c.disk c.transfers
      unfold upkeep
      split <;> exact this
    · unfold upkeep
      split <;> rfl
    · unfold upkeep
      split <;> rfl
    · unfold upkeep
      split <;> exact List.filter_sublist
  by_cases hst : c.st = .authOk
  · have heq : upkeep env c = { { upkeep env c with q := c.q } with
        q := c.q ++ [{ mbufCompose env.ntime .pingInd 0 0 env.rnd with boff := 0 }] } := by
      unfold upkeep
      rw [if_pos hst]
      rfl
    rw [heq]
    refine hbase.send rfl ?_
    intro r hr
    rw [List.mem_singleton.mp hr]
    change hdrGetType (mbufCompose env.ntime .pingInd 0 0 env.rnd) ≠ _ ∧
      hdrGetType (mbufCompose env.ntime .pingInd 0 0 env.rnd) ≠ _
    rw [hping]
    decide
  · have heq : upkeep env c = { upkeep env c with q := c.q } := by
      unfold upkeep
      rw [if_neg hst]
      rfl
    rw [heq]
    exact hbase

end Clt

/-! ## One step -/

/-- The message a step completes. -/
def CltEvent.message (c : Clt) : CltEvent → Option (CltEnv × Mbuf)
  | .read res env =>
      match readOutcome (c.rbuf.getD mbufNew) res with
      | .complete m => some (env, m)
      | _ => none
  | _ => none

theorem CltEvent.message_read (c : Clt) (res : ReadRes) (env : CltEnv) :
    (CltEvent.read res env).message c =
      match readOutcome (c.rbuf.getD mbufNew) res with
      | .complete m => some (env, m)
      | _ => none :=
  rfl

/-- What a step is: quiet, an `accept` that finds a download, or a message. -/
inductive CltCase (c : Clt) (e : CltEvent) (t : Clt) : Prop
  | quiet : Clt.Quiet c t → CltCase c e t
  | accept {rid oid : UInt64} {env : CltEnv} {d : Transfer} {k : Disk} {d' : Transfer}
      {new : List Mbuf} : e = .cmd (.accept rid oid) env →
      Clt.AcceptCase env c rid oid d k d' new → t = { c.put k d' with q := c.q ++ new } →
      CltCase c e t
  | message {env : CltEnv} {m : Mbuf} : e.message c = some (env, m) → Whole m.b →
      Clt.processSrvmsg env { c with rbuf := none } m = some t → CltCase c e t

theorem cltStep_cases {c t : Clt} {e : CltEvent} (hc : RecvOk c.rbuf) (hen : e.Enabled c)
    (h : cltStep c e = some t) : CltCase c e t ∨ (∃ r, t = { c with rbuf := r } ∧ RecvOk r) ∨
      t = { c with rbuf := some (c.rbuf.getD mbufNew) }.disc := by
  cases e with
  | cmd cmd env =>
      by_cases hacc : ∃ rid oid, cmd = .accept rid oid
      · obtain ⟨rid, oid, rfl⟩ := hacc
        rcases Clt.cmdAccept_cases h with rfl | ⟨d, k, d', new, hcase, ht⟩
        · exact .inl (.quiet (.refl _))
        · exact .inl (.accept rfl hcase ht)
      · exact .inl (.quiet (Clt.runCmd_quiet (fun rid oid heq => hacc ⟨rid, oid, heq⟩) h))
  | read res env =>
      change Clt.readSrv env c res = some t at h
      unfold Clt.readSrv at h
      simp only at h
      have hrb := hc.getD.1
      have hspec := readOutcome_spec hrb res
      -- A read completes a message, ends the connection, or touches only the buffer.
      cases hout : readOutcome (c.rbuf.getD mbufNew) res with
      | disconnect =>
          rw [hout] at h
          cases h
          exact .inr (.inr rfl)
      | again =>
          rw [hout] at h
          cases h
          exact .inr (.inl ⟨_, rfl, fun m hm => Option.some.inj hm ▸ hrb⟩)
      | exits =>
          rw [hout] at h
          cases h
      | pending rbuf =>
          rw [hout] at h hspec
          cases h
          cases hspec with
          | pending bs m _ _ hok _ =>
              exact .inr (.inl ⟨_, rfl, fun m' hm => Option.some.inj hm ▸ hok⟩)
      | complete m =>
          rw [hout] at h
          have hmsg : (CltEvent.read res env).message c = some (env, m) := by
            simp only [CltEvent.message, hout]
          exact .inl (.message hmsg (whole_of_complete hrb hout) h)
  | write res => exact .inl (.quiet (Clt.writeSrv_quiet h))
  | upkeep env =>
      cases h
      exact .inl (.quiet (Clt.upkeep_quiet env c))
  | outside fs =>
      cases h
      exact .inl (.quiet (.of_table (fun ho => TableOk.outside ho hen) (.refl _) (.of_log rfl)
        ⟨rfl, rfl⟩ (.refl _)))

/-- `process_srvmsg` does not touch the receive buffer or the connection. -/
theorem Clt.processSrvmsg_conn {env : CltEnv} {c t : Clt} {m : Mbuf} (hm : 40 ≤ m.bsize)
    (h : Clt.processSrvmsg env c m = some t) : t.rbuf = c.rbuf ∧ t.srvfd = c.srvfd := by
  rcases Clt.processSrvmsg_cases hm h with rfl | ⟨c₁, c₂, a, new, hsol, -, hcase, rfl, -⟩
  · exact ⟨rfl, rfl⟩
  · obtain ⟨-, ⟨-, hr, hf⟩, -⟩ := Clt.solicited_spec hsol
    cases hcase with
    | plain hp => exact ⟨hp.conn.1.trans hr, hp.conn.2.trans hf⟩
    | offer _ => exact ⟨hr, hf⟩
    | serve _ => exact ⟨hr, hf⟩
    | download _ => exact ⟨hr, hf⟩

/-- Requests are matched, but never added, by a message. -/
theorem Clt.processSrvmsg_requests {env : CltEnv} {c t : Clt} {m : Mbuf} (hm : 40 ≤ m.bsize)
    (h : Clt.processSrvmsg env c m = some t) : t.requests.Sublist c.requests := by
  rcases Clt.processSrvmsg_cases hm h with rfl | ⟨c₁, c₂, a, new, hsol, -, hcase, rfl, -⟩
  · exact .refl _
  · have hsub := (Clt.solicited_spec hsol).2.2.2.1
    cases hcase with
    | plain hp =>
        change c₂.requests.Sublist _
        rw [hp.queues.2]
        exact hsub
    | offer _ => exact hsub
    | serve _ => exact hsub
    | download _ => exact hsub

/-- What holds of the buffers and the list of transfers between two steps. -/
structure CltOk (c : Clt) : Prop where
  rbuf : RecvOk c.rbuf
  pending : Clt.ReqPending c
  inOrder : Clt.InOrder c

theorem CltOk.step {c t : Clt} {e : CltEvent} (hc : CltOk c) (hen : e.Enabled c)
    (h : cltStep c e = some t) : CltOk t := by
  rcases cltStep_cases hc.rbuf hen h with hcase | ⟨r, rfl, hr⟩ | rfl
  · cases hcase with
    | quiet hq =>
        refine ⟨?_, hq.pending hc.pending, hq.inOrder hc.inOrder⟩
        rw [hq.rbuf]
        exact hc.rbuf
    | accept _ hacc ht =>
        subst ht
        exact ⟨hc.rbuf, hc.pending, hacc.inOrder hc.inOrder⟩
    | message _ hw hproc =>
        refine ⟨?_, fun r hr => hc.pending r ((Clt.processSrvmsg_requests hw.hdr hproc).subset hr),
          Clt.InOrder.processSrvmsg (c := { c with rbuf := none }) hc.inOrder hw.hdr hproc⟩
        rw [(Clt.processSrvmsg_conn hw.hdr hproc).1]
        exact fun m hm => by cases hm
  · exact ⟨hr, hc.pending, hc.inOrder⟩
  · refine ⟨fun m hm => Option.some.inj hm ▸ hc.rbuf.getD.1, hc.pending, ?_⟩
    exact Clt.InOrder.disc (c := { c with rbuf := some (c.rbuf.getD mbufNew) }) hc.inOrder

/-- **The list of transfers is in order** in every reachable state of the client. -/
theorem cltOk_inductive : cltLts.Inductive CltOk where
  init := by
    rintro c ⟨cfg, pubkey, fs, cwd, -, -, rfl⟩
    refine ⟨fun m hm => (by cases hm), fun r hr => absurd hr List.not_mem_nil, ?_⟩
    exact
      { nodup := List.nodup_nil
        below := fun t ht => absurd ht List.not_mem_nil
        logged := fun a ha => absurd ha List.not_mem_nil
        entry := fun t ht => absurd ht List.not_mem_nil
        apart := fun t ht => absurd ht List.not_mem_nil }
  step := fun _ _ _ hc h => hc.step h.1 h.2

end Frelay
