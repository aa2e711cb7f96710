import Frelay.Client.Exchange
import Frelay.Client.Serve
import Frelay.Client.Finish

/-!
# A download from beginning to end

The client that offers a file and the client that downloads it, with the GETFILE
messages between them. At any time one request or one response is under way, or
waits in a send queue; which of them it is, and what it says, is the phase the
delivery is in (`DeliveryPhase`).

* `DeliveryPhase.advance` — whatever can happen next does happen, and leads on;
* `file_delivered` — the run ends, and when it does the file is there.
-/

namespace Frelay

open Lib

/-! ## Two clients -/

/-- An offer as both sides know it: `dest` is the client it is made to, `entry`
the entry it has in the list of the client that made it. -/
structure Handover extends Deal where
  dest : UInt64
  entry : Nat

/-- Both clients, their messages about the offer under way, the oldest first, and
whether the offer was accepted. -/
structure Delivery where
  down : Clt
  up : Clt
  toUp : List Mbuf
  toDown : List Mbuf
  accepted : Bool

/-- The user accepts the offer; on either side the head of the send queue leaves,
or the oldest message under way is handled. -/
inductive DeliveryEvent where
  | accept (env : CltEnv)
  | sendDown
  | handleUp (env : CltEnv)
  | sendUp
  | handleDown (env : CltEnv)

/-- A GETFILE response about the offer `oid` for the client `dstid`. -/
def ServesFor (r : Mbuf) (dstid oid : UInt64) : Prop :=
  hdrGetType r = MsgType.code .getfileRes ∧ hdrGetDstid r = dstid ∧ Clt.getOid r = oid

instance (r : Mbuf) (dstid oid : UInt64) : Decidable (ServesFor r dstid oid) :=
  inferInstanceAs (Decidable (_ ∧ _))

/-- One step. The server fills in the sender of what it passes on. -/
def deliveryStep (p : Handover) (s : Delivery) : DeliveryEvent → Option Delivery
  | .accept env =>
      if s.accepted then none
      else (Clt.cmdAccept env s.down p.rid p.oid).map fun c => { s with down := c, accepted := true }
  | .sendDown =>
      match s.down.q with
      | [] => none
      | m :: _ => some
          { s with
            down := s.down.dequeueMsg
            toUp := s.toUp ++ if AsksFor m p.rid p.oid then [m] else [] }
  | .handleUp env =>
      match s.toUp with
      | [] => none
      | m :: ms =>
          (Clt.processSrvmsg env s.up (hdrSetSrcid m p.dest)).map fun c =>
            { s with up := c, toUp := ms }
  | .sendUp =>
      match s.up.q with
      | [] => none
      | r :: _ => some
          { s with
            up := s.up.dequeueMsg
            toDown := s.toDown ++ if ServesFor r p.dest p.oid then [r] else [] }
  | .handleDown env =>
      match s.toDown with
      | [] => none
      | r :: rs =>
          (Clt.processSrvmsg env s.down (hdrSetSrcid r p.rid)).map fun c =>
            { s with down := c, toDown := rs }

/-- There is something the event is about. -/
def DeliveryEvent.Ready (s : Delivery) : DeliveryEvent → Prop
  | .accept _ => s.accepted = false
  | .sendDown => s.down.q ≠ []
  | .handleUp _ => s.toUp ≠ []
  | .sendUp => s.up.q ≠ []
  | .handleDown _ => s.toDown ≠ []

/-- The system calls that store octets succeed, and writes are complete. -/
structure WritesOk (env : SysEnv) : Prop where
  now : 0 < env.now
  writes : ∃ count, env.write = some count ∧ MAX_DATA_SIZE.toNat ≤ count
  renames : env.renameOk = true

/-- The system calls of the step succeed. -/
def DeliveryEvent.Works (s : Delivery) : DeliveryEvent → Prop
  | .accept env => WritesOk env.toSysEnv ∧ FreshFd env.toSysEnv s.down.disk
  | .handleUp env => ReadsOk env.toSysEnv s.up.disk
  | .handleDown env => WritesOk env.toSysEnv
  | _ => True

/-- The requests about the offer, and the responses, that are under way or still queued. -/
def Delivery.asked (p : Handover) (s : Delivery) : List Mbuf :=
  s.toUp ++ s.down.q.filter fun m => AsksFor m p.rid p.oid

def Delivery.answers (p : Handover) (s : Delivery) : List Mbuf :=
  s.toDown ++ s.up.q.filter fun r => ServesFor r p.dest p.oid

/-- A new download at one client, and the offer it belongs to at the other. -/
structure DeliveryStart (p : Handover) (s : Delivery) : Prop where
  download : ExchangeStart p.toDeal ⟨s.down, s.toUp, s.toDown⟩
  online : s.down.st = .authOk ∧ 0 ≤ s.down.srvfd
  offerer : cltLts.Reachable s.up ∧ s.up.st = .authOk
  offer : ∃ o, s.up.transfers.find? (fun o => o.Matches .offer p.dest p.oid) = some o ∧
    o.addr = p.entry ∧ OfferHolds s.up.disk o p.file
  idle : s.answers p = []
  size : 0 < p.file.length ∧ p.file.length < 2 ^ 63
  accepted : s.accepted = false

/-- The runs in which all system calls succeed. -/
def deliveryLts (p : Handover) : Lts Delivery DeliveryEvent :=
  (Lts.ofFun (DeliveryStart p) (deliveryStep p)).guard DeliveryEvent.Works

/-- The offer can still be found where it was made. -/
def OfferLives (p : Handover) (s : Delivery) : Prop :=
  ∃ o ∈ s.up.transfers, o.addr = p.entry ∧ 0 < o.tact

/-- The download is finished: the file offered is there under its final name. -/
structure Finished (p : Handover) (c : Clt) : Prop where
  file : ∃ d ∈ c.transfers, d.addr = p.addr ∧ ∃ name i, d.name = some name ∧
    c.disk.fs.dir (c.disk.path name) = some i ∧ c.disk.fs.data i = p.file
  reported : .finished p.addr ∈ c.disk.log ∧ .premature p.addr ∉ c.disk.log

/-- The file is delivered, the offer is gone, and nothing is left to be said. -/
structure Delivered (p : Handover) (s : Delivery) : Prop where
  finished : Finished p s.down
  invalidated : .invalidated p.entry ∈ s.up.disk.log ∧ ¬ OfferLives p s
  quiet : s.asked p = [] ∧ s.answers p = []

/-- What every state of a delivery owes: no message about it is longer than
messages may be, no premature end is reported, the next step does happen, and
only a request for nothing ends the offer. -/
structure DeliverySound (p : Handover) (s : Delivery) : Prop where
  sized : ∀ m ∈ s.asked p ++ s.answers p,
    m.bsize = MSG_HDR_SIZE + hdrGetPaylen m ∧ hdrGetPaylen m ≤ MSG_MAX_PAY_SIZE
  clean : .premature p.addr ∉ s.down.disk.log
  proceeds : ∀ e : DeliveryEvent, e.Ready s → e.Works s → (deliveryStep p s e).isSome
  closed : ∀ e t, (deliveryLts p).step s e t → OfferLives p s → ¬ OfferLives p t →
    (∃ env, e = .handleUp env) ∧ ∃ m, s.toUp.head? = some m ∧ Clt.getSize m = 0

/-! ## What the messages say -/

/-- `m` asks for `sz` octets of `d` from its offset on, or for as many as a message carries. -/
def Requests (p : Handover) (d : Transfer) (sz : UInt64) (m : Mbuf) : Prop :=
  ∃ env, Clt.getfileRequest env d p.oid sz = some m

/-- `m` asks for the rest of `d`. -/
def Asks (p : Handover) (d : Transfer) (m : Mbuf) : Prop :=
  ∃ env, Clt.getfileRequest env d p.oid (d.size - d.offset) = some m

/-- `r` brings `data` in answer to the request `trfid`. -/
def Brings (p : Handover) (trfid : UInt64) (data : Bytes) (r : Mbuf) : Prop :=
  data.length ≤ MAX_DATA_SIZE.toNat ∧ ∃ ts,
    compose ts .getfileRes p.dest trfid [(.offerid, .ui64 p.oid), (.data, .blob data)] = some r

section Messages

variable {p : Handover} {d : Transfer} {m r : Mbuf} {sz trfid : UInt64} {data : Bytes}

/-- The SIZE of a request for `sz` octets. -/
def capSize (sz : UInt64) : UInt64 := if sz < MAX_DATA_SIZE then sz else MAX_DATA_SIZE

theorem capSize_ne_zero (hsz : sz ≠ 0) : capSize sz ≠ 0 := by
  unfold capSize
  split
  · exact hsz
  · decide

theorem capSize_toNat (sz : UInt64) :
    (capSize sz).toNat = min sz.toNat MAX_DATA_SIZE.toNat := by
  unfold capSize
  split
  · rename_i hlt
    have := UInt64.lt_iff_toNat_lt.mp hlt
    omega
  · rename_i hge
    have := mt UInt64.lt_iff_toNat_lt.mpr hge
    omega

/-- The SIZE of a request for the rest of `d`. -/
def Transfer.wanted (d : Transfer) : UInt64 :=
  if d.size - d.offset < MAX_DATA_SIZE then d.size - d.offset else MAX_DATA_SIZE

theorem wanted_toNat (h : d.offset.toNat ≤ d.size.toNat) :
    d.wanted.toNat = min (d.size.toNat - d.offset.toNat) MAX_DATA_SIZE.toNat := by
  have hsub : (d.size - d.offset).toNat = d.size.toNat - d.offset.toNat :=
    UInt64.toNat_sub_of_le _ _ (UInt64.le_iff_toNat_le.mpr h)
  rw [show d.wanted = capSize (d.size - d.offset) from rfl, capSize_toNat, hsub]

/-- While octets are missing there is something to ask for. -/
theorem rest_ne_zero {n : Nat} (hsize : d.size.toNat = n) (hoff : d.offset.toNat < n) :
    d.size - d.offset ≠ 0 := by
  intro h0
  have hsub : (d.size - d.offset).toNat = d.size.toNat - d.offset.toNat :=
    UInt64.toNat_sub_of_le _ _ (UInt64.le_iff_toNat_le.mpr (by omega))
  rw [h0] at hsub
  change 0 = _ at hsub
  omega

theorem compose_sized {ts : UInt64} {type : MsgType} {dstid trfid : UInt64}
    {l : List (MsgAttrib × AttrArg)} (hty : ∀ a ∈ l, a.2.avtype = a.1.avtype)
    (h : compose ts type dstid trfid l = some m) :
    m.bsize = MSG_HDR_SIZE + hdrGetPaylen m ∧ hdrGetPaylen m ≤ MSG_MAX_PAY_SIZE := by
  obtain ⟨hsize, hmax⟩ := whole_iff.mp (whole_compose hty h)
  unfold MSG_MAX_SIZE at hmax
  unfold MSG_HDR_SIZE at *
  exact ⟨hsize, by omega⟩

/-- A composed message starts at the beginning. -/
theorem compose_rewound {ts : UInt64} {type : MsgType} {dstid trfid : UInt64}
    {l : List (MsgAttrib × AttrArg)} (hty : ∀ a ∈ l, a.2.avtype = a.1.avtype)
    (h : compose ts type dstid trfid l = some m) : { m with boff := 0 } = m := by
  rw [(compose_eq_some hty h).2]
  rfl

private theorem request_types {oid offset size : UInt64} :
    ∀ a ∈ [(MsgAttrib.offerid, AttrArg.ui64 oid), (MsgAttrib.offset, AttrArg.ui64 offset),
      (MsgAttrib.size, AttrArg.ui64 size)], a.2.avtype = a.1.avtype := by
  simp [AttrArg.avtype, MsgAttrib.avtype]

private theorem response_types {oid : UInt64} :
    ∀ a ∈ [(MsgAttrib.offerid, AttrArg.ui64 oid), (MsgAttrib.data, AttrArg.blob data)],
      a.2.avtype = a.1.avtype := by
  simp [AttrArg.avtype, MsgAttrib.avtype]

namespace Requests

theorem sized (h : Requests p d sz m) :
    m.bsize = MSG_HDR_SIZE + hdrGetPaylen m ∧ hdrGetPaylen m ≤ MSG_MAX_PAY_SIZE := by
  obtain ⟨env, h⟩ := h
  exact compose_sized request_types h

theorem rewound (h : Requests p d sz m) : { m with boff := 0 } = m := by
  obtain ⟨env, h⟩ := h
  exact compose_rewound request_types h

theorem asksFor (h : Requests p d sz m) (hrid : d.rid = p.rid) : AsksFor m p.rid p.oid := by
  obtain ⟨env, h⟩ := h
  obtain ⟨htype, hdst, -, hoid⟩ := Clt.getfileRequest_spec h
  exact ⟨htype, hdst.trans hrid, hoid⟩

theorem getSize (h : Requests p d sz m) : Clt.getSize m = (capSize sz).toNat := by
  obtain ⟨env, h⟩ := h
  exact (Clt.getfileRequest_range h).2

/-- The request as it arrives. -/
theorem received (h : Requests p d sz m) (srcid : UInt64) :
    attribs (hdrSetSrcid m srcid) = [(MsgAttrib.code .offerid, be64 p.oid),
        (MsgAttrib.code .offset, be64 d.offset), (MsgAttrib.code .size, be64 (capSize sz))] ∧
      hdrGetType (hdrSetSrcid m srcid) = MsgType.code .getfileReq ∧
      hdrGetSrcid (hdrSetSrcid m srcid) = srcid ∧
      hdrGetTrfid (hdrSetSrcid m srcid) = hdrGetTrfid m ∧ 40 ≤ (hdrSetSrcid m srcid).bsize := by
  obtain ⟨env, h⟩ := h
  obtain ⟨-, -, htrf, -⟩ := Clt.getfileRequest_spec h
  obtain ⟨hattr, htype, hsrc, htrf', hsize⟩ := compose_received request_types
    (by simp [AttrArg.octets]) h srcid
  exact ⟨hattr, htype, hsrc, htrf'.trans htrf.symm, hsize⟩

end Requests

/-- To ask for the rest is to request what is left. -/
theorem Asks.requests (h : Asks p d m) : Requests p d (d.size - d.offset) m := h

namespace Brings

theorem sized (h : Brings p trfid data r) :
    r.bsize = MSG_HDR_SIZE + hdrGetPaylen r ∧ hdrGetPaylen r ≤ MSG_MAX_PAY_SIZE := by
  obtain ⟨-, ts, h⟩ := h
  exact compose_sized response_types h

theorem rewound (h : Brings p trfid data r) : { r with boff := 0 } = r := by
  obtain ⟨-, ts, h⟩ := h
  exact compose_rewound response_types h

theorem servesFor (h : Brings p trfid data r) : ServesFor r p.dest p.oid := by
  obtain ⟨-, ts, h⟩ := h
  obtain ⟨-, rfl⟩ := compose_eq_some response_types h
  refine ⟨hdrGetType_mkMsg _ _ _, hdrGetDstid_mkMsg _ _ _, ?_⟩
  exact ui64At_tlv _ [] _ _ _ _ _

/-- The response as it arrives. -/
theorem received (h : Brings p trfid data r) (srcid : UInt64) :
    attribs (hdrSetSrcid r srcid) =
        [(MsgAttrib.code .offerid, be64 p.oid), (MsgAttrib.code .data, data)] ∧
      hdrGetType (hdrSetSrcid r srcid) = MsgType.code .getfileRes ∧
      hdrGetSrcid (hdrSetSrcid r srcid) = srcid ∧ hdrGetTrfid (hdrSetSrcid r srcid) = trfid := by
  obtain ⟨hlen, ts, h⟩ := h
  have hmax : MAX_DATA_SIZE.toNat = 65376 := rfl
  have hshort : ∀ a ∈ [(MsgAttrib.offerid, AttrArg.ui64 p.oid), (MsgAttrib.data, .blob data)],
      a.2.octets.length < 65536 := by
    intro a ha
    simp only [List.mem_cons, List.not_mem_nil, or_false] at ha
    rcases ha with rfl | rfl
    · simp [AttrArg.octets]
    · change data.length < 65536
      omega
  obtain ⟨hattr, htype, hsrc, htrf, -⟩ := compose_received response_types hshort h srcid
  exact ⟨hattr, htype, hsrc, htrf⟩

end Brings

end Messages

/-! ## The downloading side -/

/-- The download `d` waits for the user. -/
structure Waiting (p : Handover) (c : Clt) (d : Transfer) : Prop where
  nodup : (c.transfers.map Transfer.addr).Nodup
  online : c.st = .authOk ∧ 0 ≤ c.srvfd
  new : NewDownload p.toDeal c d
  named : ∃ name, d.name = some name ∧ d.partname = some (name ++ TXT_PART)
  clean : .premature p.addr ∉ c.disk.log

/-- The download `d` is running. -/
structure Downloading (p : Handover) (c : Clt) (d : Transfer) : Prop where
  nodup : (c.transfers.map Transfer.addr).Nodup
  st : c.st = .authOk
  found : c.transfers.find? (fun d => d.Matches .download p.rid p.oid) = some d
  addr : d.addr = p.addr
  size : d.size.toNat = p.file.length
  named : ∃ name, d.name = some name ∧ d.partname = some (name ++ TXT_PART)
  opened : 0 ≤ d.fd
  part : PartSynced c.disk d
  got : partContent c.disk d <+: p.file
  clean : .premature p.addr ∉ c.disk.log

/-- The request `trfid` waits for its response. -/
def Awaited (p : Handover) (trfid : UInt64) (c : Clt) : Prop :=
  ∃ q ∈ c.requests, hdrGetType q = MsgType.code .getfileReq ∧ hdrGetDstid q = p.rid ∧
    hdrGetTrfid q = trfid

section Down

variable {p : Handover} {c t : Clt} {d : Transfer} {r : Mbuf} {trfid : UInt64} {data : Bytes}

theorem Waiting.congr (h : Waiting p c d) (htable : Clt.SameTable c t) (hst : t.st = c.st)
    (hsrvfd : t.srvfd = c.srvfd) : Waiting p t d := by
  obtain ⟨hdisk, hts, -⟩ := htable
  refine ⟨hts ▸ h.nodup, ⟨hst.trans h.online.1, hsrvfd ▸ h.online.2⟩, ?_, h.named, hdisk ▸ h.clean⟩
  exact ⟨hts ▸ h.new.found, h.new.addr, h.new.size, h.new.offset, h.new.shut, hdisk ▸ h.new.absent⟩

theorem Downloading.congr (h : Downloading p c d) (htable : Clt.SameTable c t)
    (hst : t.st = c.st) : Downloading p t d := by
  obtain ⟨hdisk, hts, -⟩ := htable
  exact ⟨hts ▸ h.nodup, hst.trans h.st, hts ▸ h.found, h.addr, h.size, h.named, h.opened,
    hdisk ▸ h.part, hdisk ▸ h.got, hdisk ▸ h.clean⟩

theorem Finished.congr (h : Finished p c) (htable : Clt.SameTable c t) : Finished p t := by
  obtain ⟨hdisk, hts, -⟩ := htable
  refine ⟨?_, ?_⟩
  · rw [hdisk, hts]
    exact h.file
  · rw [hdisk]
    exact h.reported

theorem Downloading.matches (h : Downloading p c d) : d.Matches .download p.rid p.oid :=
  matches_of_find h.found

theorem Downloading.offset_eq (h : Downloading p c d) :
    d.offset.toNat = (partContent c.disk d).length := h.part.offset

theorem Downloading.offset_le (h : Downloading p c d) : d.offset.toNat ≤ p.file.length := by
  rw [h.offset_eq]
  exact h.got.length_le

/-- `accept` creates the part file and asks for all of the file. -/
theorem accept_new {env : CltEnv} (h : Waiting p c d) (hok : WritesOk env.toSysEnv)
    (hfresh : FreshFd env.toSysEnv c.disk) :
    ∃ t d' m, Clt.cmdAccept env c p.rid p.oid = some t ∧ t.q = c.q ++ [m] ∧
      Downloading p t d' ∧ d'.offset = 0 ∧ Asks p d' m := by
  obtain ⟨name, hname, hpart⟩ := h.named
  obtain ⟨count, hcount, -⟩ := hok.writes
  obtain ⟨k', fd, hstart, h0⟩ := startDownload_new env
    (k := c.disk.note (.accepted d.addr)) (d := { d with tact := env.now }) h.new.shut hpart
    h.new.absent hfresh ⟨count, hcount⟩
  have hgot : partContent c.disk d = [] := by
    rw [partContent, h.new.absent]
    rfl
  have hsync : PartSynced c.disk d := by
    refine ⟨fun hopen => absurd h.new.shut (Int.not_lt.mpr hopen), ?_⟩
    rw [hgot, h.new.offset]
    rfl
  have hkeep := startDownload_synced env (k := c.disk.note (.accepted d.addr))
    (d := { d with tact := env.now }) (hsync.congr rfl rfl rfl rfl rfl)
  have hacts := startDownload_acts env (c.disk.note (.accepted d.addr)) { d with tact := env.now }
  rw [hstart] at hkeep hacts
  obtain ⟨hsync', hcontent, -⟩ := hkeep
  have hmatch := matches_of_find h.new.found
  obtain ⟨m, hm⟩ : ∃ m, Clt.getfileRequest env { d with tact := env.now, fd := fd } p.oid d.size =
      some m := ⟨_, Clt.getfileRequest_eq _ _ _ _⟩
  have hasks : Asks p { d with tact := env.now, fd := fd } m := by
    refine ⟨env, ?_⟩
    change Clt.getfileRequest env { d with tact := env.now, fd := fd } p.oid (d.size - d.offset) = _
    -- A new download asks for the whole file.
    have hall : d.size - d.offset = d.size := by rw [h.new.offset, UInt64.sub_zero]
    rw [hall, hm]
  refine ⟨(c.put k' { d with tact := env.now, fd := fd }).enqueueMsg m,
    { d with tact := env.now, fd := fd }, m, ?_, ?_, ?_, h.new.offset, hasks⟩
  · have hfind : transferMatch env.now .download p.rid p.oid c.transfers =
        some { d with tact := env.now } := by
      rw [transferMatch, h.new.found]
      rfl
    unfold Clt.cmdAccept
    rw [hfind]
    simp only [hstart, hm, Option.map_some]
    exact congrArg some (if_neg (Int.not_lt.mpr h.online.2))
  · exact congrArg (c.q ++ [·]) hasks.requests.rewound
  · refine ⟨?_, h.online.1, ?_, h.new.addr, h.new.size, ⟨name, hname, hpart⟩, h0, hsync', ?_, ?_⟩
    · exact (map_addr_putTransfer _ _).symm ▸ h.nodup
    · exact find_putTransfer h.nodup h.new.found rfl
        (decide_eq_true ⟨hmatch.1, hmatch.2.1, hmatch.2.2.1, hok.now⟩)
    · change partContent k' _ <+: _
      rw [hcontent]
      change partContent c.disk d <+: _
      rw [hgot]
      exact List.nil_prefix
    · intro hpre
      have hold := hacts.mem_of_not (a := .premature p.addr) (fun hact => hact.noEnd trivial) hpre
      exact h.clean ((List.mem_cons.mp hold).resolve_left fun heq => by cases heq)

/-- A response to a pending request is not dropped. -/
theorem Awaited.solicited (h : Awaited p trfid c)
    (htype : hdrGetType r = MsgType.code .getfileRes) (hsrc : hdrGetSrcid r = p.rid)
    (htrf : hdrGetTrfid r = trfid) : ∃ c₁, c.solicited r = some c₁ := by
  obtain ⟨q, hq, hqtype, hqdst, hqtrf⟩ := h
  have hans : Clt.Answers r q := by
    refine ⟨hqdst.trans hsrc.symm, hqtrf.trans htrf.symm, ?_⟩
    rw [hqtype, htype]
    decide
  have hfind : (c.requests.find? fun q => Clt.Answers r q).isSome :=
    List.find?_isSome.mpr ⟨q, hq, decide_eq_true hans⟩
  obtain ⟨q', hq'⟩ := Option.isSome_iff_exists.mp hfind
  unfold Clt.solicited
  rw [htype, if_pos (by decide), Clt.matchPendingReq, hq']
  exact ⟨_, rfl⟩

/-- The octets of a response are stored, and the rest is asked for. -/
theorem download_stores {env : CltEnv} (h : Downloading p c d) (hok : WritesOk env.toSysEnv)
    (hr : Brings p trfid data r) (hne : data ≠ []) (hdata : data <+: p.file.drop d.offset.toNat)
    (hwait : Awaited p trfid c) :
    ∃ t d' m, Clt.processSrvmsg env c (hdrSetSrcid r p.rid) = some t ∧ t.q = c.q ++ [m] ∧
      Downloading p t d' ∧ d'.offset.toNat = d.offset.toNat + data.length ∧ Asks p d' m := by
  obtain ⟨hattr, htype, hsrc, htrf⟩ := hr.received p.rid
  obtain ⟨c₁, hsol⟩ := hwait.solicited htype hsrc htrf
  obtain ⟨⟨-, hts, -⟩, ⟨hq, -, -⟩, hst, -, -⟩ := Clt.solicited_spec hsol
  -- The write takes all the octets, and the part file grows by them.
  obtain ⟨f, hf, -, -⟩ := h.part.held h.opened
  obtain ⟨count, hcount, hmax⟩ := hok.writes
  have hopen : downloadOpen env.toSysEnv c.disk { d with tact := env.now } =
      (c.disk, { d with tact := env.now }) := if_pos h.opened
  obtain ⟨k, hw⟩ := downloadWrite_all data hopen h.opened hf hcount (hr.1.trans hmax)
  have hpart : PartSynced c.disk { d with tact := env.now } := h.part.congr rfl rfl rfl rfl rfl
  obtain ⟨-, -, hcontent, hheld⟩ := downloadWrite_appends hpart hw
  have hacts := downloadWrite_acts env.toSysEnv c.disk { d with tact := env.now } data
  rw [hw] at hacts
  have hgot : partContent k { d with tact := env.now } <+: p.file := by
    rw [hcontent]
    exact Fetch.append_prefix h.got (h.offset_eq ▸ hdata)
  -- The offset does not wrap around.
  have hlen := hdata.length_le
  rw [List.length_drop] at hlen
  have hpos : 0 < data.length := List.length_pos_iff.mpr hne
  have hlt := d.size.toNat_lt
  have hsize := h.size
  have hoff : (d.offset + UInt64.ofNat data.length).toNat = d.offset.toNat + data.length := by
    rw [UInt64.toNat_add, UInt64.toNat_ofNat', Nat.mod_eq_of_lt (a := data.length) (by omega),
      Nat.mod_eq_of_lt (by omega)]
  obtain ⟨d', hd'⟩ : ∃ d' : Transfer, d' =
    { d with tact := env.now, offset := d.offset + UInt64.ofNat data.length } := ⟨_, rfl⟩
  obtain ⟨m, hm⟩ : ∃ m, Clt.getfileRequest env d' p.oid (d'.size - d'.offset) = some m :=
    ⟨_, Clt.getfileRequest_eq _ _ _ _⟩
  have hasks : Asks p d' m := ⟨env, hm⟩
  refine ⟨(c₁.put k d').enqueueMsg m, d', m, ?_, ?_, ?_, ?_, hasks⟩
  · rw [Clt.processSrvmsg_getfileRes htype h.st hsol hattr (hsrc.symm ▸ h.found), if_neg hne, hw]
    change (Clt.getfileRequest env _ p.oid _).map _ = _
    rw [← hd', hm]
    rfl
  · rw [← hq]
    exact congrArg (c₁.q ++ [·]) hasks.requests.rewound
  · have hmatch := h.matches
    have hcongr : partContent k d' = partContent k { d with tact := env.now } :=
      partContent_congr rfl rfl rfl (by rw [hd'])
    refine ⟨?_, hst.trans h.st, ?_, ?_, ?_, ?_, ?_, ⟨?_, ?_⟩, ?_, ?_⟩
    · change ((putTransfer d' c₁.transfers).map Transfer.addr).Nodup
      rw [map_addr_putTransfer, hts]
      exact h.nodup
    · change (putTransfer d' c₁.transfers).find? _ = _
      rw [hts]
      subst hd'
      exact find_putTransfer h.nodup h.found rfl
        (decide_eq_true ⟨hmatch.1, hmatch.2.1, hmatch.2.2.1, hok.now⟩)
    · rw [hd']
      exact h.addr
    · rw [hd']
      exact h.size
    · rw [hd']
      exact h.named
    · rw [hd']
      exact h.opened
    · rw [hd']
      exact hheld
    · change d'.offset.toNat = (partContent k d').length
      rw [hcongr, hcontent, List.length_append, hd']
      exact hoff.trans (congrArg (· + data.length) h.offset_eq)
    · exact hcongr ▸ hgot
    · exact fun hpre => h.clean
        (hacts.mem_of_not (a := .premature p.addr) (fun hact => hact.noEnd trivial) hpre)
  · rw [hd']
    exact hoff

/-- An empty DATA attribute ends a complete download. -/
theorem download_ends {env : CltEnv} (h : Downloading p c d) (hok : WritesOk env.toSysEnv)
    (hr : Brings p trfid [] r) (hall : d.offset.toNat = p.file.length) (hwait : Awaited p trfid c) :
    ∃ t, Clt.processSrvmsg env c (hdrSetSrcid r p.rid) = some t ∧ t.q = c.q ∧ Finished p t := by
  obtain ⟨hattr, htype, hsrc, htrf⟩ := hr.received p.rid
  obtain ⟨c₁, hsol⟩ := hwait.solicited htype hsrc htrf
  obtain ⟨⟨hdisk, hts, -⟩, ⟨hq, -, -⟩, -, -, -⟩ := Clt.solicited_spec hsol
  obtain ⟨name, hname, hpart⟩ := h.named
  obtain ⟨f, -, hfile, -⟩ := h.part.held h.opened
  have hfull : d.offset = d.size := UInt64.toNat_inj.mp (hall.trans h.size.symm)
  have hcontent : c.disk.fs.data f.ino = p.file := by
    rw [← partContent_of_file hfile]
    exact h.got.eq_of_length (h.offset_eq.symm.trans hall)
  -- The download is reported finished and closed; then its part file is renamed.
  obtain ⟨k, hk⟩ : ∃ k, k = (transferInvalidate (c.disk.note (.finished d.addr)) d).1 := ⟨_, rfl⟩
  have hdir : k.fs.dir (k.path (name ++ TXT_PART)) = some f.ino := by
    rw [partFile, hpart, Option.bind_some] at hfile
    rw [hk]
    exact (congrFun (Files.close_dir c.disk.fs d.fd) _).trans hfile
  have hdata : k.fs.data = c.disk.fs.data := by
    rw [hk]
    exact Files.close_data c.disk.fs d.fd
  obtain ⟨hdir', hdata', hcwd', hlog'⟩ := renamePart_renames (d := { d with tact := env.now })
    hok.renames hname hpart hdir
  have hend : Clt.downloadEnd env c₁ { d with tact := env.now } =
      c₁.put (Clt.renamePart env k { d with tact := env.now })
        (Transfer.invalid { d with tact := env.now }) := by
    unfold Clt.downloadEnd
    rw [if_pos hfull, hdisk, hk]
    rfl
  refine ⟨_, (Clt.processSrvmsg_getfileRes htype h.st hsol hattr (hsrc.symm ▸ h.found)).trans
    (if_pos rfl), hq, ?_⟩
  rw [hend]
  refine ⟨⟨Transfer.invalid { d with tact := env.now }, ?_, h.addr, name, f.ino, hname, ?_, ?_⟩, ?_⟩
  · change _ ∈ putTransfer _ c₁.transfers
    rw [hts]
    exact mem_putTransfer_self (List.mem_of_find?_eq_some h.found) rfl
  · change (Clt.renamePart env k _).fs.dir (Disk.path (Clt.renamePart env k _) name) = _
    unfold Disk.path at hdir' ⊢
    rw [hcwd']
    exact hdir'
  · change (Clt.renamePart env k _).fs.data f.ino = _
    rw [hdata', hdata, hcontent]
  · change _ ∈ (Clt.renamePart env k _).log ∧ _ ∉ (Clt.renamePart env k _).log
    rw [hlog', hk, ← h.addr]
    have hclean := h.clean
    rw [← h.addr] at hclean
    refine ⟨by simp [transferInvalidate, Disk.note, Disk.close], ?_⟩
    simpa [transferInvalidate, Disk.note, Disk.close] using hclean

end Down

/-! ## The offering side -/

/-- The offer `o` can be served. -/
structure Offering (p : Handover) (c : Clt) (o : Transfer) : Prop where
  nodup : (c.transfers.map Transfer.addr).Nodup
  st : c.st = .authOk
  found : c.transfers.find? (fun o => o.Matches .offer p.dest p.oid) = some o
  addr : o.addr = p.entry
  holds : OfferHolds c.disk o p.file

/-- The offer was invalidated. -/
structure OfferClosed (p : Handover) (c : Clt) : Prop where
  logged : .invalidated p.entry ∈ c.disk.log
  dead : ∀ o ∈ c.transfers, o.addr = p.entry → o.tact = 0

section Up

variable {p : Handover} {c t : Clt} {o d : Transfer} {m : Mbuf} {sz : UInt64}

theorem Offering.congr (h : Offering p c o) (htable : Clt.SameTable c t) (hst : t.st = c.st) :
    Offering p t o := by
  obtain ⟨hdisk, hts, -⟩ := htable
  exact ⟨hts ▸ h.nodup, hst.trans h.st, hts ▸ h.found, h.addr, hdisk ▸ h.holds⟩

theorem OfferClosed.congr (h : OfferClosed p c) (htable : Clt.SameTable c t) : OfferClosed p t := by
  obtain ⟨hdisk, hts, -⟩ := htable
  exact ⟨hdisk ▸ h.logged, hts ▸ h.dead⟩

theorem Offering.matches (h : Offering p c o) : o.Matches .offer p.dest p.oid :=
  matches_of_find h.found

/-- A request names the offer, and says what it is about. -/
theorem Requests.getfileReq (env : CltEnv) (hm : Requests p d sz m) (h : Offering p c o) :
    GetfileReq env c (hdrSetSrcid m p.dest) o d.offset (capSize sz) := by
  obtain ⟨hattr, htype, hsrc, -, hsize⟩ := hm.received p.dest
  have hfields := requestFields_of_attribs env (some d.offset) (some (capSize sz)) hsize hattr
    (hsrc.symm ▸ h.found)
  exact ⟨hsize, htype, h.st, hfields⟩

/-- The response with `data` can be composed. -/
theorem getfileResponse_brings (env : CltEnv) (c : Clt) (data : Bytes) (hm : Requests p d sz m)
    (hlen : data.length ≤ MAX_DATA_SIZE.toNat) :
    ∃ r, Clt.getfileResponse env c (mbufResetgetattrib (hdrSetSrcid m p.dest)) p.oid data =
      some (c, .send r) ∧ Brings p (hdrGetTrfid m) data r := by
  obtain ⟨-, -, hsrc, htrf, -⟩ := hm.received p.dest
  generalize hdrSetSrcid m p.dest = m' at *
  obtain ⟨r, hr, hcompose⟩ := getfileResponse_fits env c (mbufResetgetattrib m') p.oid hlen
  have hsrc' : hdrGetSrcid (mbufResetgetattrib m') = p.dest := hsrc
  have htrf' : hdrGetTrfid (mbufResetgetattrib m') = hdrGetTrfid m := htrf
  rw [hsrc', htrf'] at hcompose
  exact ⟨r, hr, hlen, env.ntime, hcompose⟩

/-- A request for more is answered with some of what it asks for. -/
theorem offer_serves {env : CltEnv} (h : Offering p c o) (hok : ReadsOk env.toSysEnv c.disk)
    (hm : Requests p d sz m) (hsz : sz ≠ 0) (hlen : p.file.length < 2 ^ 63)
    (hoff : d.offset.toNat < p.file.length) :
    ∃ t o' r data, Clt.processSrvmsg env c (hdrSetSrcid m p.dest) = some t ∧ t.q = c.q ++ [r] ∧
      Offering p t o' ∧ Brings p (hdrGetTrfid m) data r ∧ data ≠ [] ∧
      data <+: p.file.drop d.offset.toNat := by
  have hwanted := capSize_toNat sz
  have hmax : MAX_DATA_SIZE.toNat = 65376 := rfl
  have hpos : 0 < sz.toNat := Nat.pos_of_ne_zero fun h0 => hsz (UInt64.toNat_inj.mp h0)
  have hoid : o.oid = p.oid := h.matches.2.1.symm
  have hproc := processSrvmsg_getfile (hm.getfileReq env h)
  obtain ⟨k, fd, count, hread, hholds⟩ := offerRead_reads (o := { o with tact := env.now })
    d.offset (capSize sz) hok h.holds hoff hlen (by omega) (by omega)
  obtain ⟨data, hdata⟩ : ∃ data, data =
    readAt p.file d.offset.toNat (capSize sz).toNat count := ⟨_, rfl⟩
  have hdatalen : data.length ≤ (capSize sz).toNat := hdata ▸ length_readAt_le _ _ _ _
  rw [if_neg (capSize_ne_zero hsz), hread, ← hdata] at hproc
  obtain ⟨o', ho'⟩ : ∃ o' : Transfer, o' =
    { o with tact := env.now, fd := fd, offset := d.offset + UInt64.ofNat data.length } := ⟨_, rfl⟩
  obtain ⟨r, hr, hbrings⟩ := getfileResponse_brings env (c.put k o') data hm (by omega)
  rw [← hoid] at hr
  refine ⟨(c.put k o').enqueueMsg r, o', r, data, ?_, congrArg (c.q ++ [·]) hbrings.rewound, ?_,
    hbrings, ?_, ?_⟩
  · rw [hproc]
    simp only [← ho', hr]
    rfl
  · have hmatch := h.matches
    refine ⟨?_, h.st, ?_, ?_, ?_⟩
    · change ((putTransfer o' c.transfers).map Transfer.addr).Nodup
      rw [map_addr_putTransfer]
      exact h.nodup
    · subst ho'
      exact find_putTransfer h.nodup h.found rfl
        (decide_eq_true ⟨hmatch.1, hmatch.2.1, hmatch.2.2.1, hok.now⟩)
    · rw [ho']
      exact h.addr
    · rw [ho']
      exact hholds
  · rw [hdata]
    exact readAt_ne_nil count hoff (by omega)
  · rw [hdata]
    exact readAt_prefix _ _ _ _

/-- A request for nothing ends the offer. -/
theorem offer_ends (env : CltEnv) (h : Offering p c o) (hm : Asks p d m)
    (hsize : d.size.toNat = p.file.length) (hoff : d.offset.toNat = p.file.length) :
    ∃ t r, Clt.processSrvmsg env c (hdrSetSrcid m p.dest) = some t ∧ t.q = c.q ++ [r] ∧
      OfferClosed p t ∧ Brings p (hdrGetTrfid m) [] r := by
  have hwanted := wanted_toNat (d := d) (by omega)
  have hoid : o.oid = p.oid := h.matches.2.1.symm
  have hproc := processSrvmsg_getfile (hm.requests.getfileReq env h)
  have hzero : d.wanted = 0 := UInt64.toNat_inj.mp (by rw [hwanted]; change _ = 0; omega)
  rw [show capSize (d.size - d.offset) = d.wanted from rfl, if_pos hzero] at hproc
  obtain ⟨o', ho'⟩ : ∃ o' : Transfer, o' =
    { (transferInvalidate c.disk { o with tact := env.now }).2 with
      offset := d.offset + d.wanted } := ⟨_, rfl⟩
  obtain ⟨k, hk⟩ : ∃ k, k = (transferInvalidate c.disk { o with tact := env.now }).1 := ⟨_, rfl⟩
  obtain ⟨r, hr, hbrings⟩ := getfileResponse_brings env (c.put k o') [] hm (Nat.zero_le _)
  rw [← hoid] at hr
  refine ⟨(c.put k o').enqueueMsg r, r, ?_, congrArg (c.q ++ [·]) hbrings.rewound, ⟨?_, ?_⟩, hbrings⟩
  · rw [hproc, ← ho', ← hk, hr]
    rfl
  · change _ ∈ k.log
    rw [hk, ← h.addr]
    exact List.mem_cons_self
  · intro u hu haddr
    rcases mem_putTransfer hu with rfl | ⟨-, hne⟩
    · rw [ho']
      rfl
    · refine absurd (haddr.trans h.addr.symm) ?_
      rw [ho'] at hne
      exact hne

end Up

/-! ## Phases -/

/-- Where the messages of a delivery are counts for how many steps are left to it. -/
def Delivery.weight (s : Delivery) : Nat :=
  4 * s.down.q.length + 3 * s.toUp.length + 2 * s.up.q.length + s.toDown.length

/-- What a delivery is waiting for, with what is left of the file: the user, the
answer to a request, the arrival of some octets or of the end, or nothing. -/
inductive DeliveryPhase (p : Handover) (s : Delivery) : Nat → Prop
  | fresh {d o : Transfer} : s.accepted = false → Waiting p s.down d → Offering p s.up o →
      s.asked p = [] → s.answers p = [] → DeliveryPhase p s (p.file.length + 1)
  | asking {d o : Transfer} {m : Mbuf} : s.accepted = true → Downloading p s.down d →
      Offering p s.up o → Asks p d m → s.asked p = [m] → (m ∈ s.toUp → m ∈ s.down.requests) →
      s.answers p = [] → DeliveryPhase p s (p.file.length - d.offset.toNat)
  | bringing {d o : Transfer} {r : Mbuf} {trfid : UInt64} {data : Bytes} : s.accepted = true →
      Downloading p s.down d → Offering p s.up o → Awaited p trfid s.down → s.asked p = [] →
      Brings p trfid data r → data ≠ [] → data <+: p.file.drop d.offset.toNat →
      s.answers p = [r] → DeliveryPhase p s (p.file.length - d.offset.toNat)
  | ending {d : Transfer} {r : Mbuf} {trfid : UInt64} : s.accepted = true →
      Downloading p s.down d → d.offset.toNat = p.file.length → OfferClosed p s.up →
      Awaited p trfid s.down → s.asked p = [] → Brings p trfid [] r → s.answers p = [r] →
      DeliveryPhase p s 0
  | done : s.accepted = true → Finished p s.down → OfferClosed p s.up → s.asked p = [] →
      s.answers p = [] → DeliveryPhase p s 0

section Phases

variable {p : Handover} {s : Delivery} {left : Nat}

/-- What becomes of `s` by the event `e`: there is less left to do. -/
def Advances (p : Handover) (s : Delivery) (left : Nat) (e : DeliveryEvent) : Prop :=
  ∃ t left', deliveryStep p s e = some t ∧ DeliveryPhase p t left' ∧
    5 * left' + t.weight < 5 * left + s.weight

/-- The head of a send queue leaves, a request to wait for its response. -/
theorem dequeueMsg_spec {c : Clt} {m : Mbuf} {q : List Mbuf} (hq : c.q = m :: q) :
    Clt.SameTable c c.dequeueMsg ∧ c.dequeueMsg.st = c.st ∧ c.dequeueMsg.srvfd = c.srvfd ∧
      c.dequeueMsg.q = q ∧ c.requests ⊆ c.dequeueMsg.requests ∧
      (mclassIsReq (hdrGetType m) = true → m ∈ c.dequeueMsg.requests) := by
  refine ⟨dequeueMsg_table c, ?_⟩
  unfold Clt.dequeueMsg
  rw [hq]
  simp only
  split
  · exact ⟨rfl, rfl, rfl, List.subset_cons_self _ _, fun _ => List.mem_cons_self⟩
  · rename_i hno
    exact ⟨rfl, rfl, rfl, List.Subset.refl _, fun h => absurd h hno⟩

/-- A message that leaves its queue is under way. -/
theorem filter_depart {P : Mbuf → Prop} [DecidablePred P] (net : List Mbuf) (m : Mbuf)
    (q : List Mbuf) :
    (net ++ if P m then [m] else []) ++ q.filter (fun m => P m) =
      net ++ (m :: q).filter fun m => P m := by
  by_cases h : P m
  · simp [h]
  · simp [h]

theorem length_depart {P : Mbuf → Prop} [DecidablePred P] (net : List Mbuf) (m : Mbuf) :
    (net ++ if P m then [m] else []).length ≤ net.length + 1 := by
  rw [List.length_append]
  split <;> simp

theorem Awaited.mono {trfid : UInt64} {c c' : Clt} (h : Awaited p trfid c)
    (hsub : c.requests ⊆ c'.requests) : Awaited p trfid c' := by
  obtain ⟨q, hq, hrest⟩ := h
  exact ⟨q, hsub hq, hrest⟩

/-- `t` is `s` after the head of the send queue of the downloading side has left. -/
structure DownDeparts (p : Handover) (s t : Delivery) : Prop where
  table : Clt.SameTable s.down t.down
  st : t.down.st = s.down.st
  srvfd : t.down.srvfd = s.down.srvfd
  requests : s.down.requests ⊆ t.down.requests
  pending : ∀ m, (m ∈ s.toUp → m ∈ s.down.requests) → m ∈ t.toUp → m ∈ t.down.requests
  up : t.up = s.up
  accepted : t.accepted = s.accepted
  asked : t.asked p = s.asked p
  answers : t.answers p = s.answers p
  lighter : t.weight < s.weight

theorem Delivery.sendDown_spec (hq : s.down.q ≠ []) :
    ∃ t, deliveryStep p s .sendDown = some t ∧ DownDeparts p s t := by
  obtain ⟨m₀, q, hq⟩ := List.exists_cons_of_ne_nil hq
  obtain ⟨htable, hst, hsrvfd, hq', hsub, hreq⟩ := dequeueMsg_spec hq
  obtain ⟨t, ht⟩ : ∃ t : Delivery, t = { s with
    down := s.down.dequeueMsg
    toUp := s.toUp ++ if AsksFor m₀ p.rid p.oid then [m₀] else [] } := ⟨_, rfl⟩
  have hdown : t.down = s.down.dequeueMsg := by rw [ht]
  refine ⟨t, ?_, hdown ▸ htable, hdown ▸ hst, hdown ▸ hsrvfd, hdown ▸ hsub, ?_, by rw [ht],
    by rw [ht], ?_, by rw [ht]; rfl, ?_⟩
  · rw [ht]
    unfold deliveryStep
    simp only [hq]
  · -- What has just left is a request that waits for its response.
    intro m hpend hmem
    rw [ht] at hmem
    rw [hdown]
    rcases List.mem_append.mp hmem with hold | hnew
    · exact hsub (hpend hold)
    · split at hnew
      · rename_i hasks
        rw [List.mem_singleton.mp hnew]
        refine hreq ?_
        rw [hasks.1]
        decide
      · exact absurd hnew List.not_mem_nil
  · unfold Delivery.asked
    rw [ht, hq]
    simp only [hq']
    exact filter_depart (P := fun m => AsksFor m p.rid p.oid) s.toUp m₀ q
  · have := length_depart (P := fun m => AsksFor m p.rid p.oid) s.toUp m₀
    unfold Delivery.weight
    rw [ht, hq]
    simp only [hq', List.length_cons]
    omega

/-- `t` is `s` after the head of the send queue of the offering side has left. -/
structure UpDeparts (p : Handover) (s t : Delivery) : Prop where
  table : Clt.SameTable s.up t.up
  st : t.up.st = s.up.st
  down : t.down = s.down
  toUp : t.toUp = s.toUp
  accepted : t.accepted = s.accepted
  asked : t.asked p = s.asked p
  answers : t.answers p = s.answers p
  lighter : t.weight < s.weight

theorem Delivery.sendUp_spec (hq : s.up.q ≠ []) :
    ∃ t, deliveryStep p s .sendUp = some t ∧ UpDeparts p s t := by
  obtain ⟨r₀, q, hq⟩ := List.exists_cons_of_ne_nil hq
  obtain ⟨htable, hst, -, hq', -, -⟩ := dequeueMsg_spec hq
  obtain ⟨t, ht⟩ : ∃ t : Delivery, t = { s with
    up := s.up.dequeueMsg
    toDown := s.toDown ++ if ServesFor r₀ p.dest p.oid then [r₀] else [] } := ⟨_, rfl⟩
  have hup : t.up = s.up.dequeueMsg := by rw [ht]
  refine ⟨t, ?_, hup ▸ htable, hup ▸ hst, by rw [ht], by rw [ht], by rw [ht], by rw [ht]; rfl,
    ?_, ?_⟩
  · rw [ht]
    unfold deliveryStep
    simp only [hq]
  · unfold Delivery.answers
    rw [ht, hq]
    simp only [hq']
    exact filter_depart (P := fun r => ServesFor r p.dest p.oid) s.toDown r₀ q
  · have := length_depart (P := fun r => ServesFor r p.dest p.oid) s.toDown r₀
    unfold Delivery.weight
    rw [ht, hq]
    simp only [hq', List.length_cons]
    omega

theorem OfferLives.congr {t : Delivery} (h : OfferLives p s) (heq : t.up.transfers = s.up.transfers) :
    OfferLives p t := by
  unfold OfferLives
  rw [heq]
  exact h

theorem DeliveryPhase.sendDown (h : DeliveryPhase p s left) (hq : s.down.q ≠ []) :
    Advances p s left .sendDown := by
  obtain ⟨t, hstep, hd⟩ := Delivery.sendDown_spec (p := p) hq
  have hlighter := hd.lighter
  refine ⟨t, left, hstep, ?_, by omega⟩
  cases h with
  | fresh ha hw ho hno hans =>
      exact .fresh (hd.accepted.trans ha) (hw.congr hd.table hd.st hd.srvfd) (hd.up ▸ ho)
        (hd.asked.trans hno) (hd.answers.trans hans)
  | @asking d o m ha hdown ho hm hone hpend hans =>
      exact .asking (hd.accepted.trans ha) (hdown.congr hd.table hd.st) (hd.up ▸ ho) hm
        (hd.asked.trans hone) (hd.pending m hpend) (hd.answers.trans hans)
  | bringing ha hdown ho hwait hno hr hne hpre hone =>
      exact .bringing (hd.accepted.trans ha) (hdown.congr hd.table hd.st) (hd.up ▸ ho)
        (hwait.mono hd.requests) (hd.asked.trans hno) hr hne hpre (hd.answers.trans hone)
  | ending ha hdown hall ho hwait hno hr hone =>
      exact .ending (hd.accepted.trans ha) (hdown.congr hd.table hd.st) hall (hd.up ▸ ho)
        (hwait.mono hd.requests) (hd.asked.trans hno) hr (hd.answers.trans hone)
  | done ha hf ho hno hans =>
      exact .done (hd.accepted.trans ha) (hf.congr hd.table) (hd.up ▸ ho) (hd.asked.trans hno)
        (hd.answers.trans hans)

theorem DeliveryPhase.sendUp (h : DeliveryPhase p s left) (hq : s.up.q ≠ []) :
    Advances p s left .sendUp := by
  obtain ⟨t, hstep, hu⟩ := Delivery.sendUp_spec (p := p) hq
  have hlighter := hu.lighter
  refine ⟨t, left, hstep, ?_, by omega⟩
  cases h with
  | fresh ha hw ho hno hans =>
      exact .fresh (hu.accepted.trans ha) (hu.down ▸ hw) (ho.congr hu.table hu.st)
        (hu.asked.trans hno) (hu.answers.trans hans)
  | asking ha hdown ho hm hone hpend hans =>
      refine .asking (hu.accepted.trans ha) (hu.down ▸ hdown) (ho.congr hu.table hu.st) hm
        (hu.asked.trans hone) ?_ (hu.answers.trans hans)
      rw [hu.toUp, hu.down]
      exact hpend
  | bringing ha hdown ho hwait hno hr hne hpre hone =>
      exact .bringing (hu.accepted.trans ha) (hu.down ▸ hdown) (ho.congr hu.table hu.st)
        (hu.down ▸ hwait) (hu.asked.trans hno) hr hne hpre (hu.answers.trans hone)
  | ending ha hdown hall ho hwait hno hr hone =>
      exact .ending (hu.accepted.trans ha) (hu.down ▸ hdown) hall (ho.congr hu.table)
        (hu.down ▸ hwait) (hu.asked.trans hno) hr (hu.answers.trans hone)
  | done ha hf ho hno hans =>
      exact .done (hu.accepted.trans ha) (hu.down ▸ hf) (ho.congr hu.table) (hu.asked.trans hno)
        (hu.answers.trans hans)

/-- A message that is queued counts among those of its kind. -/
theorem filter_enqueue {P : Mbuf → Prop} [DecidablePred P] {net q : List Mbuf} {m : Mbuf}
    (hm : P m) (h : net ++ q.filter (fun m => P m) = []) :
    net ++ (q ++ [m]).filter (fun m => P m) = [m] := by
  rw [List.filter_append, ← List.append_assoc, h]
  simp [hm]

/-- The only message of its kind is handled when it is under way. -/
theorem single_underway {net queued ms : List Mbuf} {m m₀ : Mbuf} (h : net ++ queued = [m])
    (hnet : net = m₀ :: ms) : m₀ = m ∧ ms = [] ∧ queued = [] := by
  rw [hnet, List.cons_append] at h
  obtain ⟨hhead, hrest⟩ := List.cons.inj h
  exact ⟨hhead, List.append_eq_nil_iff.mp hrest⟩

/-- A message that is to be handled is under way or still queued. -/
theorem underway_or_queued {net q : List Mbuf} {P : Mbuf → Bool} {m : Mbuf}
    (h : net ++ q.filter P = [m]) : net ≠ [] ∨ q ≠ [] := by
  by_contra hno
  obtain ⟨rfl, rfl⟩ := not_or.mp hno |>.imp not_not.mp not_not.mp
  cases h

/-- A request is queued where none is asked. -/
theorem Delivery.asked_queued {t : Delivery} {m : Mbuf} (hno : s.asked p = [])
    (htoUp : t.toUp = s.toUp) (hq : t.down.q = s.down.q ++ [m]) (hasks : AsksFor m p.rid p.oid) :
    t.asked p = [m] ∧ m ∉ t.toUp := by
  constructor
  · unfold Delivery.asked
    rw [htoUp, hq]
    exact filter_enqueue hasks hno
  · rw [htoUp, (List.append_eq_nil_iff.mp hno).1]
    exact List.not_mem_nil

section Handled

variable {env : CltEnv} {c : Clt} {m : Mbuf}

/-- The peer handles the only request under way. -/
theorem Delivery.handleUp_spec (htoUp : s.toUp = [m])
    (hc : Clt.processSrvmsg env s.up (hdrSetSrcid m p.dest) = some c) :
    deliveryStep p s (.handleUp env) = some { s with up := c, toUp := [] } := by
  unfold deliveryStep
  simp only [htoUp, hc]
  rfl

theorem Delivery.handleUp_lighter {r : Mbuf} (htoUp : s.toUp = [m]) (hq : c.q = s.up.q ++ [r]) :
    ({ s with up := c, toUp := [] } : Delivery).weight < s.weight := by
  unfold Delivery.weight
  simp only [htoUp, hq, List.length_append, List.length_cons, List.length_nil]
  omega

/-- An answer is queued where none is given. -/
theorem Delivery.answers_queued {r : Mbuf} (hno : s.answers p = []) (hq : c.q = s.up.q ++ [r])
    (hr : ServesFor r p.dest p.oid) :
    ({ s with up := c, toUp := [] } : Delivery).answers p = [r] := by
  unfold Delivery.answers
  simp only [hq]
  exact filter_enqueue hr hno

end Handled

theorem DeliveryPhase.accept {env : CltEnv} (h : DeliveryPhase p s left)
    (hready : s.accepted = false) (hok : WritesOk env.toSysEnv)
    (hfresh : FreshFd env.toSysEnv s.down.disk) : Advances p s left (.accept env) := by
  have hother : s.accepted ≠ true := by
    rw [hready]
    decide
  cases h with
  | @fresh d o ha hw ho hno hans =>
      obtain ⟨c, d', m, hc, hq, hd', hoff, hm⟩ := accept_new hw hok hfresh
      have hasks : AsksFor m p.rid p.oid :=
        hm.requests.asksFor hd'.matches.2.2.1.symm
      obtain ⟨hone, hnew⟩ := Delivery.asked_queued (t := { s with down := c, accepted := true })
        hno rfl hq hasks
      refine ⟨{ s with down := c, accepted := true }, p.file.length - d'.offset.toNat, ?_,
        .asking rfl hd' ho hm hone (fun hmem => absurd hmem hnew) hans, ?_⟩
      · unfold deliveryStep
        simp only [hready, hc]
        rfl
      · unfold Delivery.weight
        simp only [hq, List.length_append, List.length_singleton]
        omega
  | asking ha => exact absurd ha hother
  | bringing ha => exact absurd ha hother
  | ending ha => exact absurd ha hother
  | done ha => exact absurd ha hother

theorem DeliveryPhase.handleUp {env : CltEnv} (h : DeliveryPhase p s left)
    (hlen : p.file.length < 2 ^ 63) (hready : s.toUp ≠ []) (hok : ReadsOk env.toSysEnv s.up.disk) :
    Advances p s left (.handleUp env) := by
  obtain ⟨m₀, ms, htoUp⟩ := List.exists_cons_of_ne_nil hready
  have hother : s.asked p ≠ [] := fun hno => hready (List.append_eq_nil_iff.mp hno).1
  cases h with
  | @asking d o m ha hd ho hm hone hpend hans =>
      obtain ⟨rfl, rfl, hqueued⟩ := single_underway hone htoUp
      have hwait : Awaited p (hdrGetTrfid m₀) s.down := by
        obtain ⟨htype, hdst, -⟩ := hm.requests.asksFor hd.matches.2.2.1.symm
        exact ⟨m₀, hpend (htoUp ▸ List.mem_cons_self), htype, hdst, rfl⟩
      rcases Nat.lt_or_eq_of_le hd.offset_le with hoff | hoff
      · obtain ⟨c, o', r, data, hc, hq, ho', hr, hne, hdata⟩ :=
          offer_serves ho hok hm.requests (rest_ne_zero hd.size hoff) hlen hoff
        have hanswers := Delivery.answers_queued hans hq hr.servesFor
        have hlighter := Delivery.handleUp_lighter htoUp hq
        exact ⟨_, _, Delivery.handleUp_spec htoUp hc,
          .bringing ha hd ho' hwait hqueued hr hne hdata hanswers, by omega⟩
      · obtain ⟨c, r, hc, hq, ho', hr⟩ := offer_ends env ho hm hd.size hoff
        have hanswers := Delivery.answers_queued hans hq hr.servesFor
        have hlighter := Delivery.handleUp_lighter htoUp hq
        exact ⟨_, _, Delivery.handleUp_spec htoUp hc,
          .ending ha hd hoff ho' hwait hqueued hr hanswers, by omega⟩
  | fresh _ _ _ hno => exact absurd hno hother
  | bringing _ _ _ _ hno => exact absurd hno hother
  | ending _ _ _ _ _ hno => exact absurd hno hother
  | done _ _ _ hno => exact absurd hno hother

theorem DeliveryPhase.handleDown {env : CltEnv} (h : DeliveryPhase p s left)
    (hready : s.toDown ≠ []) (hok : WritesOk env.toSysEnv) :
    Advances p s left (.handleDown env) := by
  obtain ⟨r₀, rs, htoDown⟩ := List.exists_cons_of_ne_nil hready
  have hother : s.answers p ≠ [] := fun hno => hready (List.append_eq_nil_iff.mp hno).1
  have hstep : ∀ c, Clt.processSrvmsg env s.down (hdrSetSrcid r₀ p.rid) = some c →
      deliveryStep p s (.handleDown env) = some { s with down := c, toDown := rs } := by
    intro c hc
    unfold deliveryStep
    simp only [htoDown, hc]
    rfl
  cases h with
  | @bringing d o r trfid data ha hd ho hwait hno hr hne hdata hone =>
      obtain ⟨rfl, rfl, hqueued⟩ := single_underway hone htoDown
      obtain ⟨c, d', m, hc, hq, hd', hoff, hm⟩ := download_stores hd hok hr hne hdata hwait
      have hasks : AsksFor m p.rid p.oid :=
        hm.requests.asksFor hd'.matches.2.2.1.symm
      obtain ⟨hone, hnew⟩ := Delivery.asked_queued (t := { s with down := c, toDown := [] })
        hno rfl hq hasks
      refine ⟨_, _, hstep c hc,
        .asking ha hd' ho hm hone (fun hmem => absurd hmem hnew) hqueued, ?_⟩
      · -- At least one octet has arrived, and the next request is queued.
        have hpos : 0 < data.length := List.length_pos_iff.mpr hne
        have hle := hd'.offset_le
        unfold Delivery.weight
        simp only [htoDown, hq, List.length_append, List.length_cons, List.length_nil]
        omega
  | @ending d r trfid ha hd hall ho hwait hno hr hone =>
      obtain ⟨rfl, rfl, hqueued⟩ := single_underway hone htoDown
      obtain ⟨c, hc, hq, hf⟩ := download_ends hd hok hr hall hwait
      refine ⟨_, 0, hstep c hc, .done ha hf ho ?_ hqueued, ?_⟩
      · change s.toUp ++ c.q.filter _ = _
        rw [hq]
        exact hno
      · unfold Delivery.weight
        simp only [htoDown, hq, List.length_cons, List.length_nil]
        omega
  | fresh _ _ _ _ hans => exact absurd hans hother
  | asking _ _ _ _ _ _ hans => exact absurd hans hother
  | done _ _ _ _ hans => exact absurd hans hother

/-- **Whatever can happen next does happen, and leads on.** -/
theorem DeliveryPhase.advance {e : DeliveryEvent} (h : DeliveryPhase p s left)
    (hlen : p.file.length < 2 ^ 63) (hready : e.Ready s) (hok : e.Works s) :
    Advances p s left e := by
  cases e with
  | accept env => exact h.accept hready hok.1 hok.2
  | sendDown => exact h.sendDown hready
  | handleUp env => exact h.handleUp hlen hready hok
  | sendUp => exact h.sendUp hready
  | handleDown env => exact h.handleDown hready hok

end Phases

/-! ## Runs -/

section Runs

variable {p : Handover} {s t : Delivery} {left : Nat}

/-- What a step is about is there. -/
theorem ready_of_step {e : DeliveryEvent} (h : deliveryStep p s e = some t) : e.Ready s := by
  have hne : ∀ {l : List Mbuf}, (l = [] → deliveryStep p s e = none) → l ≠ [] := by
    intro l hnone hl
    rw [hnone hl] at h
    cases h
  cases e with
  | accept env =>
      cases hacc : s.accepted with
      | false => exact hacc
      | true =>
          simp only [deliveryStep, hacc, if_true] at h
          cases h
  | sendDown => exact hne fun hl => by simp only [deliveryStep, hl]
  | handleUp env => exact hne fun hl => by simp only [deliveryStep, hl]
  | sendUp => exact hne fun hl => by simp only [deliveryStep, hl]
  | handleDown env => exact hne fun hl => by simp only [deliveryStep, hl]

theorem Offering.lives {o : Transfer} (h : Offering p s.up o) : OfferLives p s :=
  ⟨o, List.mem_of_find?_eq_some h.found, h.addr, h.matches.2.2.2⟩

/-- At the start the download waits for the user. -/
theorem DeliveryStart.phase (h : DeliveryStart p s) : DeliveryPhase p s (p.file.length + 1) := by
  obtain ⟨d, hnew⟩ := h.download.new
  obtain ⟨o, hfound, haddr, hholds⟩ := h.offer
  have hd := List.mem_of_find?_eq_some hnew.found
  have hmatch := matches_of_find hnew.found
  obtain ⟨hok, hnames⟩ := livePartNames_inductive.invariant s.down h.download.reachable
  refine .fresh (d := d) (o := o) h.accepted ⟨hok.inOrder.nodup, h.online, hnew,
    hnames d hd hmatch.1.symm hmatch.2.2.2, ?_⟩
    ⟨(cltOk_inductive.invariant s.up h.offerer.1).inOrder.nodup, h.offerer.2, hfound, haddr, hholds⟩
    h.download.idle.1 h.idle
  intro hpre
  exact not_ended_of_live h.download.reachable hd hmatch.2.2.2 hpre trivial hnew.addr.symm

/-- Only a request for nothing ends the offer. -/
theorem DeliveryPhase.closed (h : DeliveryPhase p s left) (hlen : p.file.length < 2 ^ 63)
    {e : DeliveryEvent} (hstep : (deliveryLts p).step s e t) (hs : OfferLives p s)
    (ht : ¬ OfferLives p t) :
    (∃ env, e = .handleUp env) ∧ ∃ m, s.toUp.head? = some m ∧ Clt.getSize m = 0 := by
  obtain ⟨hstep, hok⟩ := hstep
  change deliveryStep p s e = some t at hstep
  have hready := ready_of_step hstep
  -- The offer lives on where the table is the same, which leaves the step `handleUp`.
  have hsame : t.up.transfers = s.up.transfers → False := by
    intro heq
    unfold OfferLives at hs ht
    rw [heq] at ht
    exact ht hs
  cases e with
  | accept env =>
      simp only [deliveryStep] at hstep
      split at hstep
      · cases hstep
      · obtain ⟨c, -, rfl⟩ := Option.map_eq_some_iff.mp hstep
        exact (hsame rfl).elim
  | sendDown =>
      simp only [deliveryStep] at hstep
      split at hstep
      · cases hstep
      · cases hstep
        exact (hsame rfl).elim
  | sendUp =>
      simp only [deliveryStep] at hstep
      split at hstep
      · cases hstep
      · cases hstep
        exact (hsame (dequeueMsg_table s.up).2.1).elim
  | handleDown env =>
      simp only [deliveryStep] at hstep
      split at hstep
      · cases hstep
      · obtain ⟨c, -, rfl⟩ := Option.map_eq_some_iff.mp hstep
        exact (hsame rfl).elim
  | handleUp env =>
      refine ⟨⟨env, rfl⟩, ?_⟩
      obtain ⟨m₀, ms, htoUp⟩ := List.exists_cons_of_ne_nil hready
      -- A request is under way, so the download is asking.
      have hother : s.asked p ≠ [] := fun hno => hready (List.append_eq_nil_iff.mp hno).1
      cases h with
      | @asking d o m ha hd ho hm hone hpend hans =>
          obtain ⟨rfl, rfl, -⟩ := single_underway hone htoUp
          refine ⟨m₀, by rw [htoUp]; rfl, ?_⟩
          have hsize := hd.size
          rcases Nat.lt_or_eq_of_le hd.offset_le with hoff | hoff
          · -- There is more to be had, so the offer lives on.
            obtain ⟨c, o', r, data, hc, -, ho', -⟩ :=
              offer_serves ho hok hm.requests (rest_ne_zero hd.size hoff) hlen hoff
            simp only [deliveryStep, htoUp, hc, Option.map_some, Option.some.injEq] at hstep
            subst hstep
            exact absurd ho'.lives ht
          · rw [hm.requests.getSize, show capSize (d.size - d.offset) = d.wanted from rfl,
              wanted_toNat (by omega)]
            omega
      | fresh _ _ _ hno => exact absurd hno hother
      | bringing _ _ _ _ hno => exact absurd hno hother
      | ending _ _ _ _ _ hno => exact absurd hno hother
      | done _ _ _ hno => exact absurd hno hother

theorem DeliveryPhase.sound (h : DeliveryPhase p s left) (hlen : p.file.length < 2 ^ 63) :
    DeliverySound p s where
  sized := by
    intro m hm
    cases h with
    | fresh _ _ _ hno hans =>
        rw [hno, hans] at hm
        exact absurd hm List.not_mem_nil
    | asking _ _ _ hasks hone _ hans =>
        rw [hone, hans] at hm
        rw [List.mem_singleton.mp hm]
        exact hasks.requests.sized
    | bringing _ _ _ _ hno hr _ _ hone =>
        rw [hno, hone] at hm
        rw [List.mem_singleton.mp hm]
        exact hr.sized
    | ending _ _ _ _ _ hno hr hone =>
        rw [hno, hone] at hm
        rw [List.mem_singleton.mp hm]
        exact hr.sized
    | done _ _ _ hno hans =>
        rw [hno, hans] at hm
        exact absurd hm List.not_mem_nil
  clean := by
    cases h with
    | fresh _ hw => exact hw.clean
    | asking _ hd => exact hd.clean
    | bringing _ hd => exact hd.clean
    | ending _ hd => exact hd.clean
    | done _ hf => exact hf.reported.2
  proceeds := by
    intro e hready hok
    obtain ⟨t, left', hstep, -⟩ := h.advance hlen hready hok
    rw [hstep]
    rfl
  closed := fun e t hstep => h.closed hlen hstep

/-- When there is nothing left to do, the file is delivered. -/
theorem DeliveryPhase.settled (h : DeliveryPhase p s left) :
    Delivered p s ∨ ∃ e : DeliveryEvent, e.Ready s := by
  have hanswer : ∀ {r : Mbuf}, s.answers p = [r] → ∃ e : DeliveryEvent, e.Ready s := by
    intro r hone
    rcases underway_or_queued hone with hnet | hq
    · exact ⟨.handleDown demoEnv, hnet⟩
    · exact ⟨.sendUp, hq⟩
  cases h with
  | fresh ha => exact .inr ⟨.accept demoEnv, ha⟩
  | asking _ _ _ _ hone =>
      rcases underway_or_queued hone with hnet | hq
      · exact .inr ⟨.handleUp demoEnv, hnet⟩
      · exact .inr ⟨.sendDown, hq⟩
  | bringing _ _ _ _ _ _ _ _ hone => exact .inr (hanswer hone)
  | ending _ _ _ _ _ _ _ hone => exact .inr (hanswer hone)
  | done _ hf ho hno hans =>
      refine .inl ⟨hf, ⟨ho.logged, ?_⟩, hno, hans⟩
      rintro ⟨o, ho', haddr, hlive⟩
      rw [ho.dead o ho' haddr] at hlive
      exact absurd hlive (Int.lt_irrefl 0)

/-- **The file is delivered.** However long the reads are and in whatever order
the two sides take their steps, the run is finite, every state on the way is as
it should be, and the run goes on until the file is there. -/
theorem file_delivered {s₀ : Delivery} {es : List DeliveryEvent} (h₀ : DeliveryStart p s₀)
    (hrun : (deliveryLts p).Run s₀ es s) :
    es.length ≤ 5 * (p.file.length + 1) + s₀.weight ∧ DeliverySound p s ∧
      (Delivered p s ∨ ∃ e : DeliveryEvent, e.Ready s) := by
  have hstep : ∀ (s : Delivery) e t n,
      (∃ left, DeliveryPhase p s left ∧ 5 * left + s.weight ≤ n) → (deliveryLts p).step s e t →
      ∃ n' < n, ∃ left, DeliveryPhase p t left ∧ 5 * left + t.weight ≤ n' := by
    rintro s e t n ⟨left, hphase, hn⟩ ⟨hstep, hok⟩
    obtain ⟨t', left', hstep', hphase', hlt⟩ :=
      hphase.advance h₀.size.2 (ready_of_step hstep) hok
    obtain rfl : t' = t := Option.some.inj (hstep'.symm.trans hstep)
    exact ⟨_, by omega, left', hphase', Nat.le_refl _⟩
  obtain ⟨n, hle, left, hphase, -⟩ := hrun.budget
    (P := fun s n => ∃ left, DeliveryPhase p s left ∧ 5 * left + s.weight ≤ n) hstep
    ⟨_, h₀.phase, Nat.le_refl _⟩
  exact ⟨by omega, hphase.sound h₀.size.2, hphase.settled⟩

end Runs

instance (env : SysEnv) (k : Disk) : Decidable (FreshFd env k) :=
  decidable_of_iff (env.openFd.any fun n => decide (0 ≤ n) && (k.fs.fds n).isNone) (by
    unfold FreshFd
    cases env.openFd with
    | none => simp
    | some n => simp)

instance (env : SysEnv) : Decidable (WritesOk env) :=
  decidable_of_iff (0 < env.now ∧ (env.write.any fun n => decide (MAX_DATA_SIZE.toNat ≤ n)) = true ∧
      env.renameOk = true)
    ⟨fun h => ⟨h.1, by simpa [Option.any_eq_true] using h.2.1, h.2.2⟩,
      fun h => ⟨h.now, by simpa [Option.any_eq_true] using h.writes, h.renames⟩⟩

instance (env : SysEnv) (k : Disk) : Decidable (ReadsOk env k) :=
  decidable_of_iff (0 < env.now ∧ FreshFd env k ∧ env.seekOk = true ∧
      MAX_DATA_SIZE.toNat ≤ env.memory ∧ env.read.isSome = true)
    ⟨fun h => ⟨h.1, h.2.1, h.2.2.1, h.2.2.2.1, Option.isSome_iff_exists.mp h.2.2.2.2⟩,
      fun h => ⟨h.now, h.opens, h.seeks, h.memory, Option.isSome_iff_exists.mpr h.reads⟩⟩

instance (s : Delivery) (e : DeliveryEvent) : Decidable (e.Works s) :=
  match e with
  | .accept env =>
      inferInstanceAs (Decidable (WritesOk env.toSysEnv ∧ FreshFd env.toSysEnv s.down.disk))
  | .handleUp env => inferInstanceAs (Decidable (ReadsOk env.toSysEnv s.up.disk))
  | .handleDown env => inferInstanceAs (Decidable (WritesOk env.toSysEnv))
  | .sendDown => inferInstanceAs (Decidable True)
  | .sendUp => inferInstanceAs (Decidable True)

/-- A step of the delivery in which the system calls succeed. -/
def deliveryTry (p : Handover) (s : Delivery) (e : DeliveryEvent) : Option Delivery :=
  if e.Works s then deliveryStep p s e else none

theorem deliveryTry_step {p : Handover} {s t : Delivery} {e : DeliveryEvent}
    (h : deliveryTry p s e = some t) : (deliveryLts p).step s e t := by
  unfold deliveryTry at h
  split at h
  · rename_i hworks
    exact ⟨h, hworks⟩
  · cases h

instance (k : Disk) (o : Transfer) (content : Bytes) : Decidable (OfferHolds k o content) :=
  inferInstanceAs (Decidable (if 0 ≤ o.fd then
    (k.fs.fds o.fd).map (fun f => k.fs.data f.ino) = some content
    else (o.name.bind fun name => k.fs.dir (k.path name)).map k.fs.data = some content))

/-- The peer 5 has offered its file `f` to the client 7 under the number 6. -/
def demoHandover : Handover :=
  { rid := 5, oid := 6, file := [1, 2], addr := 0, dest := 7, entry := 0 }

/-- The events after which it is delivered octet by octet. -/
def demoDelivery : List DeliveryEvent :=
  let env (fd : Int) : CltEnv :=
    { demoEnv with openFd := some fd, read := some 1, write := some 65376 }
  let trip (fd : Int) : List DeliveryEvent :=
    [.sendDown, .handleUp (env fd), .sendUp, .handleDown (env fd)]
  .accept (env 20) :: .sendUp :: (trip 21 ++ trip 22 ++ trip 23)

/-- The two clients are in a state in which the offer can be accepted. -/
def demoStart (c u : Clt) : Bool :=
  (c.transfers.find? fun d => d.Matches .download 5 6).any (fun d =>
    d.addr == 0 && d.size == 2 && d.offset == 0 && decide (d.fd < 0) && partFile c.disk d == none) &&
  (u.transfers.find? fun o => o.Matches .offer 7 6).any (fun o =>
    o.addr == 0 && decide (OfferHolds u.disk o [1, 2])) &&
  c.q == [] && c.st == .authOk && decide (0 ≤ c.srvfd) && u.st == .authOk &&
  (u.q.filter fun r => ServesFor r 7 6) == []

theorem demoStart_start {c u : Clt} (hc : cltLts.Reachable c) (hu : cltLts.Reachable u)
    (h : demoStart c u = true) : DeliveryStart demoHandover ⟨c, u, [], [], false⟩ := by
  unfold demoStart at h
  simp only [Bool.and_eq_true, Option.any_eq_true, beq_iff_eq, decide_eq_true_eq] at h
  obtain ⟨⟨⟨⟨⟨⟨hnew, hoffer⟩, hq⟩, hst⟩, hfd⟩, hust⟩, hidle⟩ := h
  obtain ⟨d, hfind, ⟨⟨⟨haddr, hsize⟩, hoff⟩, hshut⟩, hfile⟩ := hnew
  refine ⟨⟨hc, ⟨d, hfind, haddr, by rw [hsize]; rfl, hoff, hshut, hfile⟩, ?_, rfl⟩, ⟨hst, hfd⟩,
    ⟨hu, hust⟩, hoffer, hidle, by decide, rfl⟩
  unfold Exchange.asked
  simp only [hq]
  rfl

/-- Nothing is left to do. -/
def Delivery.idle (s : Delivery) : Bool :=
  s.accepted && s.down.q == [] && s.up.q == [] && s.toUp == [] && s.toDown == []

theorem not_ready_of_idle {s : Delivery} (h : s.idle = true) (e : DeliveryEvent) : ¬ e.Ready s := by
  unfold Delivery.idle at h
  simp only [Bool.and_eq_true, beq_iff_eq] at h
  obtain ⟨⟨⟨⟨hacc, hdq⟩, huq⟩, htoUp⟩, htoDown⟩ := h
  intro hready
  cases e with
  | accept env => exact absurd (hacc.symm.trans hready) (by decide)
  | sendDown => exact hready hdq
  | handleUp env => exact hready htoUp
  | sendUp => exact hready huq
  | handleDown env => exact hready htoDown

theorem file_delivered_octetwise : ∃ (s₀ s : Delivery) (es : List DeliveryEvent),
    DeliveryStart demoHandover s₀ ∧ (deliveryLts demoHandover).Run s₀ es s ∧ es.length = 14 ∧
      Delivered demoHandover s := by
  have hexec : (Lts.exec cltTry (demoClient false []) (loginRun ++ offerRun (ascii "a") 2)).any
      (fun c => (Lts.exec cltTry (demoClient false [(ascii "f", [1, 2])])
        (loginRun ++ [.cmd (.offer 7 (ascii "f")) { demoEnv with rndOffer := 6 }])).any fun u =>
          demoStart c u &&
          (Lts.exec (deliveryTry demoHandover) ⟨c, u, [], [], false⟩ demoDelivery).any
            Delivery.idle) = true := by
    decide +kernel
  obtain ⟨c, hc, hexec⟩ := Lts.reachable_of_exec (fun _ _ _ => cltTry_step)
    (demoClient_init false []) hexec
  obtain ⟨u, hu, hexec⟩ := Lts.reachable_of_exec (fun _ _ _ => cltTry_step)
    (demoClient_init false [(ascii "f", [1, 2])]) hexec
  obtain ⟨hstart, hexec⟩ := Bool.and_eq_true_iff.mp hexec
  obtain ⟨s, hrun, hs⟩ := Lts.run_of_exec (M := deliveryLts demoHandover)
    (fun _ _ _ => deliveryTry_step) hexec
  have h₀ := demoStart_start hc hu hstart
  refine ⟨_, s, demoDelivery, h₀, hrun, rfl, ?_⟩
  refine (file_delivered h₀ hrun).2.2.resolve_right ?_
  rintro ⟨e, hready⟩
  exact not_ready_of_idle hs e hready

end Frelay
