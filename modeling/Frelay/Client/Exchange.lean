import Frelay.Client.Accepted
import Frelay.Client.Content
import Frelay.Lib.Fetch

/-!
# A download and its peer

The requests of one download on their way to an honest peer, and the answers on
their way back. A GETFILE response does not tell the offset of its DATA, and
`accept` asks for the rest of a download whether or not it has been asked for
already.

* `processSrvmsg_getfileRes` — what a GETFILE response brings about;
* `Exchange.fetch` — the exchange as a `Lib.Fetch`, and `exchange_refines`;
* `download_intact` — the part file is the beginning of the file offered in the
  runs where `accept` is not given while a request waits for its answer;
* `accept_twice` — the same octets arrive twice when it is.
-/

namespace Frelay

open Lib

/-! ## A GETFILE response -/

namespace Clt

/-- The OFFSET and the SIZE a GETFILE request composed by this client asks for. -/
def getOffset (m : Mbuf) : Nat := (ui64At m [] 64).toNat

def getSize (m : Mbuf) : Nat := (ui64At m [] 80).toNat

theorem getfileRequest_range {env : CltEnv} {d : Transfer} {oid sz : UInt64} {r : Mbuf}
    (h : getfileRequest env d oid sz = some r) :
    getOffset r = d.offset.toNat ∧
      getSize r = (if sz < MAX_DATA_SIZE then sz else MAX_DATA_SIZE).toNat := by
  rw [getfileRequest_eq] at h
  cases h
  have hoff := fun h z => ui64At_tlv h (tlv .offerid (be64 oid)) z .offset d.offset 0 []
  have hsize := fun h z => ui64At_tlv h (tlv .offerid (be64 oid) ++ tlv .offset (be64 d.offset)) z
    .size (if sz < MAX_DATA_SIZE then sz else MAX_DATA_SIZE) 0 []
  have hlen : ∀ (t : MsgAttrib) (v : UInt64), (tlv t (be64 v)).length = 16 := by
    intro t v
    rw [length_tlv, length_be64]
    decide
  simp only [List.length_append, hlen] at hoff hsize
  refine ⟨congrArg UInt64.toNat (hoff _ _), ?_⟩
  have hsize := hsize ⟨MsgType.code .getfileReq, 48, 0, env.ntime, 0, d.rid, env.rnd⟩ []
  rw [List.append_nil, List.append_assoc] at hsize
  exact congrArg UInt64.toNat hsize

variable {env : CltEnv} {c c₁ : Clt} {r : Mbuf} {oid : UInt64} {data : Bytes} {d : Transfer}

/-- **What a GETFILE response for a live download brings about.** -/
theorem processSrvmsg_getfileRes (htype : hdrGetType r = MsgType.code .getfileRes)
    (hst : c.st = .authOk) (hsol : c.solicited r = some c₁)
    (hattr : attribs r = [(MsgAttrib.code .offerid, be64 oid), (MsgAttrib.code .data, data)])
    (hfind : c.transfers.find? (fun d => d.Matches .download (hdrGetSrcid r) oid) = some d) :
    processSrvmsg env c r =
      if data = [] then some (downloadEnd env c₁ { d with tact := env.now })
      else
        match downloadWrite env.toSysEnv c.disk { d with tact := env.now } data with
        | (k, d', false) => some (c₁.put (transferInvalidate k d').1 (transferInvalidate k d').2)
        | (k, d', true) =>
            let d' := { d' with offset := d'.offset + UInt64.ofNat data.length }
            (getfileRequest env d' oid (d'.size - d'.offset)).map (c₁.put k d').enqueueMsg := by
  obtain ⟨a, m', hoid, hv, hl⟩ := nextIf_of_attribs hattr
  obtain ⟨a', m'', hdata, hv', -⟩ := nextIf_of_attribs hl
  obtain ⟨⟨hdisk, hts, -⟩, -, hst', -, -⟩ := solicited_spec hsol
  have htype' : hdrGetType (mbufResetgetattrib r) = MsgType.code .getfileRes := htype
  have hmatch : transferMatch env.now .download (hdrGetSrcid (mbufResetgetattrib r))
      oid c₁.transfers = some { d with tact := env.now } := by
    rw [hts]
    change (c.transfers.find? fun d => d.Matches .download (hdrGetSrcid r) oid).map _ = _
    rw [hfind]
    rfl
  rw [processSrvmsg, hsol]
  simp only [dispatchSrvmsg, htype', MsgType.ofCode?_code]
  rw [processGetfileRes, if_pos (hst'.trans hst), hoid]
  simp only [ui64At_of_blobAt hv, hmatch, hdata, hv', hdisk]
  by_cases hnil : data = []
  · rw [if_pos hnil, if_pos hnil]
    rfl
  · rw [if_neg hnil, if_neg hnil]
    generalize downloadWrite env.toSysEnv c.disk { d with tact := env.now } data = w
    obtain ⟨k, d', ok⟩ := w
    cases ok with
    | false => rfl
    | true =>
        simp only [Option.bind_eq_bind]
        generalize getfileRequest env { d' with offset := d'.offset + UInt64.ofNat data.length } oid
          (d'.size - (d'.offset + UInt64.ofNat data.length)) = rq
        cases rq <;> rfl

/-- A GETFILE response that finds no session or no download changes nothing. -/
theorem processSrvmsg_getfileRes_idle (htype : hdrGetType r = MsgType.code .getfileRes)
    (hsol : c.solicited r = some c₁)
    (hattr : attribs r = [(MsgAttrib.code .offerid, be64 oid), (MsgAttrib.code .data, data)])
    (hno : c.st ≠ .authOk ∨
      c.transfers.find? (fun d => d.Matches .download (hdrGetSrcid r) oid) = none) :
    processSrvmsg env c r = some c₁ := by
  obtain ⟨a, m', hoid, hv, -⟩ := nextIf_of_attribs hattr
  obtain ⟨⟨-, hts, -⟩, -, hst, -, -⟩ := solicited_spec hsol
  have htype' : hdrGetType (mbufResetgetattrib r) = MsgType.code .getfileRes := htype
  rw [processSrvmsg, hsol]
  simp only [dispatchSrvmsg, htype', MsgType.ofCode?_code]
  rw [processGetfileRes, hst]
  by_cases hauth : c.st = .authOk
  · have hnone := hno.resolve_left fun h => h hauth
    have hmatch : transferMatch env.now .download (hdrGetSrcid (mbufResetgetattrib r))
        (ui64At m' env.beyond a.av) c₁.transfers = none := by
      rw [ui64At_of_blobAt hv, hts]
      change (c.transfers.find? fun d => d.Matches .download (hdrGetSrcid r) oid).map _ = _
      rw [hnone]
      rfl
    rw [if_pos hauth, hoid]
    simp only [hmatch]
    rfl
  · rw [if_neg hauth]
    rfl

/-- An error is only printed. -/
theorem processSrvmsg_getfileErr (htype : hdrGetType r = MsgType.code .getfileErr) :
    processSrvmsg env c r = some c := by
  have hsol : c.solicited r = some c := by
    unfold solicited
    rw [htype, if_neg (by decide)]
  have htype' : hdrGetType (mbufResetgetattrib r) = MsgType.code .getfileErr := htype
  rw [processSrvmsg, hsol]
  simp only [dispatchSrvmsg, htype', MsgType.ofCode?_code]
  rfl

end Clt

/-! ## The exchange -/

/-- An offer to this client: who made it, its number, the file it is about, and
the entry it has here. -/
structure Deal where
  rid : UInt64
  oid : UInt64
  file : Bytes
  addr : Nat

/-- The downloading client, its requests under way to the peer, and the answers
under way to it, the oldest first. -/
structure Exchange where
  clt : Clt
  toPeer : List Mbuf
  toClt : List Mbuf

/-- The user accepts the offer, the head of the send queue leaves, the peer
answers the oldest request, or the oldest answer is delivered. -/
inductive ExchangeEvent where
  | accept (env : CltEnv)
  | send
  | answer (r : Mbuf)
  | deliver (env : CltEnv)

/-- The DATA of a GETFILE response. -/
def responseOctets (r : Mbuf) : Bytes :=
  if hdrGetType r = MsgType.code .getfileRes then
    (((attribs r).find? fun a => a.1 == MsgAttrib.code .data).map Prod.snd).getD []
  else []

/-- `r` is a message of the peer about its offer: a GETFILE response, or an error. -/
structure Responds (o : Deal) (r : Mbuf) : Prop where
  srcid : hdrGetSrcid r = o.rid
  form : hdrGetType r = MsgType.code .getfileErr ∨ hdrGetType r = MsgType.code .getfileRes ∧
    attribs r =
      [(MsgAttrib.code .offerid, be64 o.oid), (MsgAttrib.code .data, responseOctets r)]

/-- An honest answer to the request `m`: some of the octets asked for, from the
OFFSET on and at most SIZE of them, but none only if there are none or none were
asked for. -/
structure HonestAnswer (o : Deal) (m r : Mbuf) : Prop extends Responds o r where
  trfid : hdrGetTrfid r = hdrGetTrfid m
  piece : responseOctets r <+: o.file.drop (Clt.getOffset m)
  size : (responseOctets r).length ≤ Clt.getSize m
  served : Clt.getOffset m < o.file.length → 0 < Clt.getSize m → responseOctets r ≠ []

instance (o : Deal) (r : Mbuf) : Decidable (Responds o r) :=
  decidable_of_iff (_ ∧ _) ⟨fun h => ⟨h.1, h.2⟩, fun h => ⟨h.srcid, h.form⟩⟩

instance (o : Deal) (m r : Mbuf) : Decidable (HonestAnswer o m r) :=
  decidable_of_iff (Responds o r ∧ _ ∧ _ ∧ _ ∧ _)
    ⟨fun h => ⟨h.1, h.2.1, h.2.2.1, h.2.2.2.1, h.2.2.2.2⟩,
      fun h => ⟨h.toResponds, h.trfid, h.piece, h.size, h.served⟩⟩

/-- One step of the exchange. -/
def exchangeStep (o : Deal) (x : Exchange) : ExchangeEvent → Option Exchange
  | .accept env => (Clt.cmdAccept env x.clt o.rid o.oid).map fun c => { x with clt := c }
  | .send =>
      match x.clt.q with
      | [] => none
      | m :: _ => some
          { x with
            clt := x.clt.dequeueMsg
            toPeer := x.toPeer ++ if AsksFor m o.rid o.oid then [m] else [] }
  | .answer r =>
      match x.toPeer with
      | [] => none
      | m :: ms =>
          if HonestAnswer o m r then some { x with toPeer := ms, toClt := x.toClt ++ [r] } else none
  | .deliver env =>
      match x.toClt with
      | [] => none
      | r :: rs => (Clt.processSrvmsg env x.clt r).map fun c => { x with clt := c, toClt := rs }

/-- The requests of the download that are under way or still queued. -/
def Exchange.asked (o : Deal) (x : Exchange) : List Mbuf :=
  x.toPeer ++ x.clt.q.filter fun m => AsksFor m o.rid o.oid

/-- A download of `o` that was entered and not accepted yet. -/
structure NewDownload (o : Deal) (c : Clt) (d : Transfer) : Prop where
  found : c.transfers.find? (fun d => d.Matches .download o.rid o.oid) = some d
  addr : d.addr = o.addr
  size : d.size.toNat = o.file.length
  offset : d.offset = 0
  shut : d.fd < 0
  absent : partFile c.disk d = none

/-- The exchange about a new download. -/
structure ExchangeStart (o : Deal) (x : Exchange) : Prop where
  reachable : cltLts.Reachable x.clt
  new : ∃ d, NewDownload o x.clt d
  idle : x.asked o = [] ∧ x.toClt = []

def exchangeLts (o : Deal) : Lts Exchange ExchangeEvent := .ofFun (ExchangeStart o) (exchangeStep o)

/-- The part file of the download, while that lives, is the beginning of the file
offered, as long as the offset says. -/
def DownloadIntact (o : Deal) (x : Exchange) : Prop :=
  ∀ d ∈ x.clt.transfers, d.addr = o.addr → 0 < d.tact →
    partContent x.clt.disk d = o.file.take d.offset.toNat

/-- `accept` is not given while a request of the download waits for its answer,
unless all of the file is there. -/
def AcceptsCalm (o : Deal) (x : Exchange) (e : ExchangeEvent) : Prop :=
  ∀ env, e = .accept env → (x.asked o = [] ∧ x.toClt = []) ∨
    ∀ d ∈ x.clt.transfers, d.addr = o.addr → o.file.length ≤ d.offset.toNat

/-- The exchange as a fetch of the file. -/
def Exchange.fetch (o : Deal) (x : Exchange) (d : Transfer) : Fetch UInt8 where
  got := partContent x.clt.disk d
  asked := (x.asked o).map Clt.getOffset
  sent := x.toClt.map responseOctets

/-! ## The exchange is a fetch -/

/-- What every step keeps of a download that is alive. -/
structure Synced (o : Deal) (x : Exchange) (d : Transfer) : Prop where
  found : x.clt.transfers.find? (fun d => d.Matches .download o.rid o.oid) = some d
  size : d.size.toNat = o.file.length
  part : PartSynced x.clt.disk d
  fetch : Fetch.Good o.file (x.fetch o d)

structure ExchangeOk (o : Deal) (x : Exchange) : Prop where
  nodup : (x.clt.transfers.map Transfer.addr).Nodup
  toClt : ∀ r ∈ x.toClt, Responds o r
  synced : ∀ d ∈ x.clt.transfers, d.addr = o.addr → 0 < d.tact → Synced o x d

/-- From `x` to `y` the download `d` has become `d'`: as a fetch it has taken one
step or none. -/
structure Follows (o : Deal) (x y : Exchange) (d d' : Transfer) : Prop where
  found : y.clt.transfers.find? (fun d => d.Matches .download o.rid o.oid) = some d'
  size : d'.size = d.size
  part : PartSynced y.clt.disk d'
  fetch : y.fetch o d' = x.fetch o d ∨ Fetch.Step o.file (x.fetch o d) (y.fetch o d')

theorem Synced.follows {o : Deal} {x y : Exchange} {d d' : Transfer} (h : Synced o x d)
    (hf : Follows o x y d d') : Synced o y d' where
  found := hf.found
  size := (congrArg UInt64.toNat hf.size).trans h.size
  part := hf.part
  fetch := by
    rcases hf.fetch with heq | hstep
    · rw [heq]
      exact h.fetch
    · exact hstep.good h.fetch

/-- Files, transfers and the requests under way are what they were. -/
theorem Synced.stays {o : Deal} {x y : Exchange} {d : Transfer} (h : Synced o x d)
    (hdisk : y.clt.disk = x.clt.disk) (hts : y.clt.transfers = x.clt.transfers)
    (hfetch : y.fetch o d = x.fetch o d ∨ Fetch.Step o.file (x.fetch o d) (y.fetch o d)) :
    Follows o x y d d where
  found := hts ▸ h.found
  size := rfl
  part := hdisk ▸ h.part
  fetch := hfetch

section Steps

variable {o : Deal} {x y : Exchange}

theorem dequeueMsg_table (c : Clt) : Clt.SameTable c c.dequeueMsg := by
  unfold Clt.dequeueMsg
  split
  · exact ⟨rfl, rfl, rfl⟩
  · split <;> exact ⟨rfl, rfl, rfl⟩

/-- An entry that is put back is the download of `o`, if that is found under its key. -/
theorem ExchangeOk.put_cases {u t d' : Transfer} (hx : ExchangeOk o x)
    (hfind : x.clt.transfers.find? (fun d => d.Matches .download o.rid o.oid) = some u)
    (haddr : t.addr = u.addr) (hd' : d' ∈ putTransfer t x.clt.transfers)
    (hd'addr : d'.addr = o.addr) (hlive : 0 < d'.tact) : d' = t ∧ Synced o x u := by
  rcases mem_putTransfer hd' with rfl | ⟨hmem, hne⟩
  · have hm := matches_of_find hfind
    exact ⟨rfl, hx.synced u (List.mem_of_find?_eq_some hfind) (haddr.symm.trans hd'addr) hm.2.2.2⟩
  · have hsame := (hx.synced d' hmem hd'addr hlive).found.symm.trans hfind
    exact absurd (Option.some.inj hsame ▸ haddr.symm) hne

/-- A request that is appended to the send queue. -/
theorem asked_enqueue {c : Clt} {r : Mbuf} (hq : c.q = x.clt.q ++ [{ r with boff := 0 }])
    (hr : AsksFor r o.rid o.oid) :
    ({ x with clt := c } : Exchange).asked o = x.asked o ++ [{ r with boff := 0 }] := by
  have hr' : AsksFor { r with boff := 0 } o.rid o.oid := hr
  unfold Exchange.asked
  rw [hq, List.filter_append, List.filter_cons_of_pos (by simpa using hr'), List.filter_nil,
    List.append_assoc]

/-- What `accept` can do. -/
inductive AcceptOutcome (env : CltEnv) (o : Deal) (c : Clt) : Clt → Prop
  | unknown : AcceptOutcome env o c c
  | failed {u d : Transfer} {k : Disk} :
      c.transfers.find? (fun d => d.Matches .download o.rid o.oid) = some u →
      Clt.startDownload env (c.disk.note (.accepted u.addr)) { u with tact := env.now } =
        (k, d, false) → AcceptOutcome env o c (c.put k d)
  | started {u d : Transfer} {k : Disk} {rq : Mbuf} :
      c.transfers.find? (fun d => d.Matches .download o.rid o.oid) = some u →
      Clt.startDownload env (c.disk.note (.accepted u.addr)) { u with tact := env.now } =
        (k, d, true) → Clt.getfileRequest env d o.oid d.size = some rq →
      AcceptOutcome env o c ((c.put k d).submit rq)

theorem cmdAccept_outcome {env : CltEnv} {c t : Clt} (h : Clt.cmdAccept env c o.rid o.oid = some t) :
    AcceptOutcome env o c t := by
  unfold Clt.cmdAccept at h
  split at h
  · cases h
    exact .unknown
  · rename_i d₁ hmatch
    obtain ⟨u, hfind, rfl⟩ := Option.map_eq_some_iff.mp hmatch
    simp only at h
    split at h
    · rename_i k d hstart
      cases h
      exact .failed hfind hstart
    · rename_i k d hstart
      obtain ⟨rq, hreq, rfl⟩ := Option.map_eq_some_iff.mp h
      exact .started hfind hstart hreq

/-- The entry that `accept` puts back. -/
theorem started_follows {env : CltEnv} {u d : Transfer} {k : Disk} {ok : Bool} {c : Clt}
    (hx : ExchangeOk o x) (hs : Synced o x u)
    (hstart : Clt.startDownload env (x.clt.disk.note (.accepted u.addr))
      { u with tact := env.now } = (k, d, ok)) (hlive : 0 < d.tact)
    (hdisk : c.disk = k) (hts : c.transfers = putTransfer d x.clt.transfers)
    (hfetch : d.rid = u.rid → d.offset = u.offset →
      partContent c.disk d = partContent x.clt.disk u →
      ({ x with clt := c } : Exchange).fetch o d = x.fetch o u ∨
        Fetch.Step o.file (x.fetch o u) (({ x with clt := c } : Exchange).fetch o d)) :
    Follows o x { x with clt := c } u d := by
  have hsync := startDownload_synced env (k := x.clt.disk.note (.accepted u.addr))
    (d := { u with tact := env.now }) (hs.part.congr rfl rfl rfl rfl rfl)
  rw [hstart] at hsync
  obtain ⟨hpart, hcontent, hoff⟩ := hsync
  obtain ⟨fd, off, rfl⟩ := startDownload_entry hstart
  have hu := matches_of_find hs.found
  rw [← hdisk] at hpart hcontent
  refine ⟨?_, rfl, hpart, hfetch rfl hoff hcontent⟩
  change c.transfers.find? _ = _
  rw [hts]
  exact find_putTransfer hx.nodup hs.found rfl (decide_eq_true ⟨hu.1, hu.2.1, hu.2.2.1, hlive⟩)

theorem accept_follows {env : CltEnv} {c : Clt} (hx : ExchangeOk o x)
    (hcalm : AcceptsCalm o x (.accept env)) (h : Clt.cmdAccept env x.clt o.rid o.oid = some c)
    {d' : Transfer} (hd' : d' ∈ c.transfers) (haddr : d'.addr = o.addr) (hlive : 0 < d'.tact) :
    ∃ d, Synced o x d ∧ Follows o x { x with clt := c } d d' := by
  -- The entry that `accept` starts is the one the exchange is about.
  have hentry : ∀ {u d : Transfer} {k : Disk} {ok : Bool},
      x.clt.transfers.find? (fun d => d.Matches .download o.rid o.oid) = some u →
      Clt.startDownload env (x.clt.disk.note (.accepted u.addr)) { u with tact := env.now } =
        (k, d, ok) → d' ∈ putTransfer d x.clt.transfers → d' = d ∧ Synced o x u := by
    intro u d k ok hfind hstart hmem
    obtain ⟨fd, off, rfl⟩ := startDownload_entry hstart
    exact hx.put_cases hfind rfl hmem haddr hlive
  cases cmdAccept_outcome h with
  | unknown =>
      have hs := hx.synced d' hd' haddr hlive
      exact ⟨d', hs, hs.stays rfl rfl (.inl rfl)⟩
  | @failed u d k hfind hstart =>
      obtain ⟨rfl, hs⟩ := hentry hfind hstart hd'
      refine ⟨u, hs, started_follows hx hs hstart hlive rfl rfl fun _ _ hgot => .inl ?_⟩
      unfold Exchange.fetch
      rw [hgot]
      rfl
  | @started u d k rq hfind hstart hreq =>
      have hsubmit : ((x.clt.put k d).submit rq).disk = k ∧
          ((x.clt.put k d).submit rq).transfers = putTransfer d x.clt.transfers ∧
          (((x.clt.put k d).submit rq).q = x.clt.q ∨
            ((x.clt.put k d).submit rq).q = x.clt.q ++ [{ rq with boff := 0 }]) := by
        unfold Clt.submit
        split
        · exact ⟨rfl, rfl, .inl rfl⟩
        · exact ⟨rfl, rfl, .inr rfl⟩
      obtain ⟨hdisk, hts, hq⟩ := hsubmit
      obtain ⟨rfl, hs⟩ := hentry hfind hstart (hts ▸ hd')
      refine ⟨u, hs, started_follows hx hs hstart hlive hdisk hts fun hrid hoff hgot => ?_⟩
      rcases hq with hq | hq
      · -- Without a connection there is no request.
        refine .inl ?_
        unfold Exchange.fetch Exchange.asked
        rw [hgot]
        simp only [hq]
      · obtain ⟨htype, hdst, -, hoid⟩ := Clt.getfileRequest_spec hreq
        obtain ⟨hoffset, -⟩ := Clt.getfileRequest_range hreq
        have hu := matches_of_find hfind
        have hasks : AsksFor rq o.rid o.oid := ⟨htype, hdst.trans (hrid.trans hu.2.2.1.symm), hoid⟩
        -- What is asked for begins where the part file ends.
        have hlen : Clt.getOffset { rq with boff := 0 } = (partContent x.clt.disk u).length := by
          rw [← hs.part.offset, ← hoff]
          exact hoffset
        have hask : ({ x with clt := (x.clt.put k d').submit rq } : Exchange).fetch o d' =
            { x.fetch o u with asked := (x.fetch o u).asked ++ [(x.fetch o u).got.length] } := by
          unfold Exchange.fetch
          rw [asked_enqueue hq hasks, hgot, List.map_append, List.map_cons, List.map_nil, hlen]
        rw [hask]
        refine .inr (.ask ?_)
        rcases hcalm env rfl with ⟨hno, hnone⟩ | hall
        · exact .inl ⟨List.map_eq_nil_iff.mpr hno, List.map_eq_nil_iff.mpr hnone⟩
        · have heq : u.addr = o.addr := by
            obtain ⟨fd, off, rfl⟩ := startDownload_entry hstart
            exact haddr
          have hfull := hall u (List.mem_of_find?_eq_some hfind) heq
          rw [hs.part.offset] at hfull
          exact .inr hfull

/-- The octets of a response are written, and the next ones asked for. -/
theorem write_follows {env : CltEnv} {c : Clt} {r rq : Mbuf} {rs : List Mbuf} {u d₂ d₃ : Transfer}
    {k : Disk} {sz : UInt64} (hx : ExchangeOk o x) (hs : Synced o x u) (hr : x.toClt = r :: rs)
    (hne : responseOctets r ≠ [])
    (hw : downloadWrite env.toSysEnv x.clt.disk { u with tact := env.now } (responseOctets r) =
      (k, d₂, true))
    (hd₃ : d₃ = { d₂ with offset := d₂.offset + UInt64.ofNat (responseOctets r).length })
    (hreq : Clt.getfileRequest env d₃ o.oid sz = some rq) (hlive : 0 < d₃.tact)
    (hdisk : c.disk = k) (hts : c.transfers = putTransfer d₃ x.clt.transfers)
    (hq : c.q = x.clt.q ++ [{ rq with boff := 0 }]) :
    Follows o x { x with clt := c, toClt := rs } u d₃ := by
  have hsent : (x.fetch o u).sent = responseOctets r :: rs.map responseOctets := by
    change x.toClt.map responseOctets = _
    rw [hr, List.map_cons]
  have hpart : PartSynced x.clt.disk { u with tact := env.now } :=
    hs.part.congr rfl rfl rfl rfl rfl
  obtain ⟨⟨fd, -, hd₂⟩, -, hcontent, hheld⟩ := downloadWrite_appends hpart hw
  -- The offset does not wrap around: the octets continue a beginning of the file.
  have hfits := (hs.fetch.sent _ (hsent ▸ List.mem_cons_self)).length_le
  rw [List.length_append, ← hs.size] at hfits
  have hgot : (x.fetch o u).got.length = u.offset.toNat := hs.part.offset.symm
  have hlt := u.size.toNat_lt
  have hoff : d₃.offset.toNat = u.offset.toNat + (responseOctets r).length := by
    rw [hd₃, hd₂]
    change (u.offset + UInt64.ofNat (responseOctets r).length).toNat = _
    rw [UInt64.toNat_add, UInt64.toNat_ofNat', Nat.mod_eq_of_lt (a := (responseOctets r).length)
      (by omega), Nat.mod_eq_of_lt (by omega)]
  have hnew : partContent c.disk d₃ = partContent x.clt.disk u ++ responseOctets r := by
    rw [hdisk, hd₃]
    exact hcontent
  have hu := matches_of_find hs.found
  have haddr : d₃.addr = u.addr := by rw [hd₃, hd₂]
  have hkey : d₃.type = u.type ∧ d₃.oid = u.oid ∧ d₃.rid = u.rid := by
    rw [hd₃, hd₂]
    exact ⟨rfl, rfl, rfl⟩
  refine ⟨?_, by rw [hd₃, hd₂], ⟨?_, ?_⟩, .inr ?_⟩
  · change c.transfers.find? _ = _
    rw [hts]
    exact find_putTransfer hx.nodup hs.found haddr (decide_eq_true
      ⟨hu.1.trans hkey.1.symm, hu.2.1.trans hkey.2.1.symm, hu.2.2.1.trans hkey.2.2.symm, hlive⟩)
  · change HeldAtEnd c.disk d₃
    rw [hdisk, hd₃]
    exact hheld
  · change d₃.offset.toNat = (partContent c.disk d₃).length
    rw [hnew, List.length_append, hoff, hs.part.offset]
  · obtain ⟨htype, hdst, -, hoid⟩ := Clt.getfileRequest_spec hreq
    obtain ⟨hoffset, -⟩ := Clt.getfileRequest_range hreq
    have hasks : AsksFor rq o.rid o.oid :=
      ⟨htype, hdst.trans (hkey.2.2.trans hu.2.2.1.symm), hoid⟩
    have hlen : Clt.getOffset { rq with boff := 0 } =
        (partContent x.clt.disk u ++ responseOctets r).length := by
      rw [List.length_append, ← hs.part.offset, ← hoff]
      exact hoffset
    have htake : ({ x with clt := c, toClt := rs } : Exchange).fetch o d₃ =
        { got := (x.fetch o u).got ++ responseOctets r
          asked := (x.fetch o u).asked ++ [((x.fetch o u).got ++ responseOctets r).length]
          sent := rs.map responseOctets } := by
      have hasked : ({ x with clt := c, toClt := rs } : Exchange).asked o =
          x.asked o ++ [{ rq with boff := 0 }] := asked_enqueue hq hasks
      unfold Exchange.fetch
      rw [hasked, List.map_append, List.map_cons, List.map_nil, hlen, hnew]
    rw [htake]
    exact .take hsent hne

/-- What the delivery of a response can do. -/
inductive DeliverOutcome (env : CltEnv) (o : Deal) (c : Clt) (r : Mbuf) (t : Clt) : Prop
  | lost : t.disk = c.disk → t.transfers = c.transfers → t.q = c.q → DeliverOutcome env o c r t
  | ended {u d : Transfer} :
      c.transfers.find? (fun d => d.Matches .download o.rid o.oid) = some u → d.addr = u.addr →
      d.tact = 0 → t.transfers = putTransfer d c.transfers → DeliverOutcome env o c r t
  | stored {u d₂ d : Transfer} {k : Disk} {rq : Mbuf} {sz : UInt64} :
      c.transfers.find? (fun d => d.Matches .download o.rid o.oid) = some u →
      responseOctets r ≠ [] →
      downloadWrite env.toSysEnv c.disk { u with tact := env.now } (responseOctets r) =
        (k, d₂, true) →
      d = { d₂ with offset := d₂.offset + UInt64.ofNat (responseOctets r).length } →
      Clt.getfileRequest env d o.oid sz = some rq → t.disk = k →
      t.transfers = putTransfer d c.transfers → t.q = c.q ++ [{ rq with boff := 0 }] →
      DeliverOutcome env o c r t

theorem deliver_outcome {env : CltEnv} {c t : Clt} {r : Mbuf} (hr : Responds o r)
    (h : Clt.processSrvmsg env c r = some t) : DeliverOutcome env o c r t := by
  rcases hr.form with herr | ⟨hres, hattr⟩
  · rw [Clt.processSrvmsg_getfileErr herr] at h
    cases h
    exact .lost rfl rfl rfl
  · cases hsol : c.solicited r with
    | none =>
        rw [Clt.processSrvmsg, hsol] at h
        cases h
        exact .lost rfl rfl rfl
    | some c₁ =>
        obtain ⟨⟨hdisk, hts, -⟩, ⟨hq, -, -⟩, -, -, -⟩ := Clt.solicited_spec hsol
        by_cases hno : c.st ≠ .authOk ∨
            c.transfers.find? (fun d => d.Matches .download (hdrGetSrcid r) o.oid) = none
        · rw [Clt.processSrvmsg_getfileRes_idle hres hsol hattr hno] at h
          cases h
          exact .lost hdisk hts hq
        · rw [not_or, not_not, hr.srcid] at hno
          obtain ⟨u, hfind⟩ := Option.ne_none_iff_exists'.mp hno.2
          rw [Clt.processSrvmsg_getfileRes hres hno.1 hsol hattr (hr.srcid ▸ hfind)] at h
          split at h
          · cases h
            exact .ended (d := Transfer.invalid { u with tact := env.now }) hfind rfl rfl
              (congrArg _ hts)
          · rename_i hne
            split at h
            · rename_i k d₂ hw
              cases h
              obtain ⟨fd, rfl⟩ := downloadWrite_entry hw
              exact .ended (d := Transfer.invalid { u with tact := env.now, fd := fd }) hfind rfl rfl
                (congrArg _ hts)
            · rename_i k d₂ hw
              obtain ⟨rq, hreq, rfl⟩ := Option.map_eq_some_iff.mp h
              exact .stored hfind hne hw rfl hreq rfl (congrArg _ hts) (congrArg (· ++ _) hq)

theorem deliver_follows {env : CltEnv} {c : Clt} {r : Mbuf} {rs : List Mbuf} (hx : ExchangeOk o x)
    (hr : x.toClt = r :: rs) (h : Clt.processSrvmsg env x.clt r = some c)
    {d' : Transfer} (hd' : d' ∈ c.transfers) (haddr : d'.addr = o.addr) (hlive : 0 < d'.tact) :
    ∃ d, Synced o x d ∧ Follows o x { x with clt := c, toClt := rs } d d' := by
  cases deliver_outcome (hx.toClt r (hr ▸ List.mem_cons_self)) h with
  | lost hdisk hts hq =>
      have hs := hx.synced d' (hts ▸ hd') haddr hlive
      refine ⟨d', hs, hs.stays hdisk hts (.inr ?_)⟩
      have hsent : (x.fetch o d').sent = responseOctets r :: rs.map responseOctets := by
        change x.toClt.map responseOctets = _
        rw [hr, List.map_cons]
      have hlose : ({ x with clt := c, toClt := rs } : Exchange).fetch o d' =
          { x.fetch o d' with sent := rs.map responseOctets } := by
        unfold Exchange.fetch Exchange.asked
        rw [hdisk, hq]
      rw [hlose]
      exact .lose hsent
  | ended hfind heq htact hts =>
      -- An entry that was invalidated is not alive.
      obtain ⟨rfl, -⟩ := hx.put_cases hfind heq (hts ▸ hd') haddr hlive
      omega
  | @stored u d₂ d k rq sz hfind hne hw hd hreq hdisk hts hq =>
      have heq : d.addr = u.addr := by
        obtain ⟨fd, rfl⟩ := downloadWrite_entry hw
        rw [hd]
      obtain ⟨rfl, hs⟩ := hx.put_cases hfind heq (hts ▸ hd') haddr hlive
      exact ⟨u, hs, write_follows hx hs hr hne hw hd hreq hlive hdisk hts hq⟩

theorem send_follows {m : Mbuf} {q : List Mbuf} (hx : ExchangeOk o x) (hq : x.clt.q = m :: q)
    {d' : Transfer} (hd' : d' ∈ x.clt.transfers) (haddr : d'.addr = o.addr) (hlive : 0 < d'.tact) :
    ∃ d, Synced o x d ∧ Follows o x
      { x with
        clt := x.clt.dequeueMsg
        toPeer := x.toPeer ++ if AsksFor m o.rid o.oid then [m] else [] } d d' := by
  have hs := hx.synced d' hd' haddr hlive
  have hdeq : x.clt.dequeueMsg.disk = x.clt.disk ∧
      x.clt.dequeueMsg.transfers = x.clt.transfers ∧ x.clt.dequeueMsg.q = q := by
    unfold Clt.dequeueMsg
    rw [hq]
    simp only
    split <;> exact ⟨rfl, rfl, rfl⟩
  obtain ⟨hdisk, hts, hq'⟩ := hdeq
  refine ⟨d', hs, hs.stays hdisk hts (.inl ?_)⟩
  unfold Exchange.fetch Exchange.asked
  rw [hdisk, hq', hq]
  by_cases hasks : AsksFor m o.rid o.oid
  · simp [hasks]
  · simp [hasks]

theorem answer_follows {m r : Mbuf} {ms : List Mbuf} (hx : ExchangeOk o x) (hm : x.toPeer = m :: ms)
    (hr : HonestAnswer o m r) {d' : Transfer} (hd' : d' ∈ x.clt.transfers)
    (haddr : d'.addr = o.addr) (hlive : 0 < d'.tact) :
    ∃ d, Synced o x d ∧ Follows o x { x with toPeer := ms, toClt := x.toClt ++ [r] } d d' := by
  have hs := hx.synced d' hd' haddr hlive
  refine ⟨d', hs, hs.stays rfl rfl (.inr ?_)⟩
  have hasked : (x.fetch o d').asked = Clt.getOffset m ::
      (ms ++ x.clt.q.filter fun m => AsksFor m o.rid o.oid).map Clt.getOffset := by
    change (x.toPeer ++ x.clt.q.filter fun m => AsksFor m o.rid o.oid).map Clt.getOffset = _
    rw [hm, List.cons_append, List.map_cons]
  have hsent : (x.toClt ++ [r]).map responseOctets = x.toClt.map responseOctets ++ [responseOctets r] :=
    List.map_append
  have hstep : ({ x with toPeer := ms, toClt := x.toClt ++ [r] } : Exchange).fetch o d' =
      { x.fetch o d' with
        asked := (ms ++ x.clt.q.filter fun m => AsksFor m o.rid o.oid).map Clt.getOffset
        sent := (x.fetch o d').sent ++ [responseOctets r] } := by
    unfold Exchange.fetch Exchange.asked
    rw [hsent]
  rw [hstep]
  exact .answer hasked hr.piece

/-- What one step of the exchange can do. -/
inductive ExchangeCase (o : Deal) (x : Exchange) : ExchangeEvent → Exchange → Prop
  | accept {env : CltEnv} {c : Clt} : Clt.cmdAccept env x.clt o.rid o.oid = some c →
      ExchangeCase o x (.accept env) { x with clt := c }
  | send {m : Mbuf} {q : List Mbuf} : x.clt.q = m :: q →
      ExchangeCase o x .send
        { x with
          clt := x.clt.dequeueMsg
          toPeer := x.toPeer ++ if AsksFor m o.rid o.oid then [m] else [] }
  | answer {m r : Mbuf} {ms : List Mbuf} : x.toPeer = m :: ms → HonestAnswer o m r →
      ExchangeCase o x (.answer r) { x with toPeer := ms, toClt := x.toClt ++ [r] }
  | deliver {env : CltEnv} {r : Mbuf} {rs : List Mbuf} {c : Clt} : x.toClt = r :: rs →
      Clt.processSrvmsg env x.clt r = some c →
      ExchangeCase o x (.deliver env) { x with clt := c, toClt := rs }

theorem exchangeStep_cases {e : ExchangeEvent} (h : exchangeStep o x e = some y) :
    ExchangeCase o x e y := by
  cases e with
  | accept env =>
      obtain ⟨c, hc, rfl⟩ := Option.map_eq_some_iff.mp h
      exact .accept hc
  | send =>
      simp only [exchangeStep] at h
      split at h
      · cases h
      · rename_i m q hq
        cases h
        exact .send hq
  | answer r =>
      simp only [exchangeStep] at h
      split at h
      · cases h
      · rename_i m ms hm
        split at h
        · rename_i hr
          cases h
          exact .answer hm hr
        · cases h
  | deliver env =>
      simp only [exchangeStep] at h
      split at h
      · cases h
      · rename_i r rs hr
        obtain ⟨c, hc, rfl⟩ := Option.map_eq_some_iff.mp h
        exact .deliver hr hc

/-- **Every step of the exchange is a step of the fetch, or none.** -/
theorem exchange_refines {e : ExchangeEvent} (hx : ExchangeOk o x) (hcalm : AcceptsCalm o x e)
    (h : exchangeStep o x e = some y) {d' : Transfer} (hd' : d' ∈ y.clt.transfers)
    (haddr : d'.addr = o.addr) (hlive : 0 < d'.tact) : ∃ d, Synced o x d ∧ Follows o x y d d' := by
  cases exchangeStep_cases h with
  | accept hc => exact accept_follows hx hcalm hc hd' haddr hlive
  | send hq => exact send_follows hx hq ((dequeueMsg_table x.clt).2.1 ▸ hd') haddr hlive
  | answer hm hr => exact answer_follows hx hm hr hd' haddr hlive
  | deliver hr hc => exact deliver_follows hx hr hc hd' haddr hlive

/-- The entries of the list stay the same ones, and nobody but the peer answers. -/
theorem exchangeStep_frame {e : ExchangeEvent} (hx : ExchangeOk o x)
    (h : exchangeStep o x e = some y) :
    y.clt.transfers.map Transfer.addr = x.clt.transfers.map Transfer.addr ∧
      ∀ r ∈ y.toClt, Responds o r := by
  cases exchangeStep_cases h with
  | accept hc =>
      refine ⟨?_, hx.toClt⟩
      cases cmdAccept_outcome hc with
      | unknown => rfl
      | failed _ _ => exact map_addr_putTransfer _ _
      | started _ _ _ =>
          unfold Clt.submit
          split <;> exact map_addr_putTransfer _ _
  | send hq => exact ⟨congrArg _ (dequeueMsg_table x.clt).2.1, hx.toClt⟩
  | @answer m r ms hm hr =>
      refine ⟨rfl, fun r' hr' => ?_⟩
      rcases List.mem_append.mp hr' with hr' | hr'
      · exact hx.toClt r' hr'
      · rw [List.mem_singleton.mp hr']
        exact hr.toResponds
  | @deliver env r rs c hr hc =>
      refine ⟨?_, fun r' hr' => hx.toClt r' (hr ▸ List.mem_cons_of_mem r hr')⟩
      cases deliver_outcome (hx.toClt r (hr ▸ List.mem_cons_self)) hc with
      | lost _ hts _ => exact congrArg _ hts
      | ended _ _ _ hts => exact (congrArg _ hts).trans (map_addr_putTransfer _ _)
      | stored _ _ _ _ _ _ hts _ => exact (congrArg _ hts).trans (map_addr_putTransfer _ _)

theorem ExchangeOk.step {e : ExchangeEvent} (hx : ExchangeOk o x) (hcalm : AcceptsCalm o x e)
    (h : exchangeStep o x e = some y) : ExchangeOk o y where
  nodup := by
    rw [(exchangeStep_frame hx h).1]
    exact hx.nodup
  toClt := (exchangeStep_frame hx h).2
  synced := by
    intro d' hd' haddr hlive
    obtain ⟨d, hs, hf⟩ := exchange_refines hx hcalm h hd' haddr hlive
    exact hs.follows hf

end Steps

/-! ## Runs -/

/-- At the start nothing was got and nothing asked for. -/
theorem ExchangeStart.ok {o : Deal} {x : Exchange} (h : ExchangeStart o x) : ExchangeOk o x where
  nodup := (cltOk_inductive.invariant x.clt h.reachable).inOrder.nodup
  toClt := by
    rw [h.idle.2]
    exact fun _ hr => absurd hr List.not_mem_nil
  synced := by
    intro d hd haddr hlive
    obtain ⟨u, hu⟩ := h.new
    have hnodup := (cltOk_inductive.invariant x.clt h.reachable).inOrder
    have hsame := hnodup.eq_of_addr hd (List.mem_of_find?_eq_some hu.found)
      (haddr.trans hu.addr.symm)
    subst hsame
    have hgot : partContent x.clt.disk d = [] := by
      rw [partContent, hu.absent]
      rfl
    have hstart : x.fetch o d = { got := [], asked := [], sent := [] } := by
      unfold Exchange.fetch
      rw [hgot, h.idle.1, h.idle.2]
      rfl
    refine ⟨hu.found, hu.size, ⟨fun h0 => absurd hu.shut (Int.not_lt.mpr h0), ?_⟩, ?_⟩
    · rw [hgot, hu.offset]
      rfl
    · rw [hstart]
      exact .start o.file

/-- **The part file is the beginning of the file offered**, in every run in which
`accept` is not given while a request of the download waits for its answer. -/
theorem download_intact {o : Deal} {x : Exchange}
    (hx : ((exchangeLts o).guard (AcceptsCalm o)).Reachable x) : DownloadIntact o x := by
  have hinv : ((exchangeLts o).guard (AcceptsCalm o)).Inductive (ExchangeOk o) :=
    ⟨fun _ h => h.ok, fun _ _ _ hok hstep => hok.step hstep.2 hstep.1⟩
  intro d hd haddr hlive
  have hs := (hinv.invariant x hx).synced d hd haddr hlive
  have hgot := hs.fetch.got_eq
  rw [show (x.fetch o d).got.length = d.offset.toNat from hs.part.offset.symm] at hgot
  exact hgot

/-- A step of the exchange in which `accept` waits for the answer. -/
def acceptsCalmTry (o : Deal) (x : Exchange) (e : ExchangeEvent) : Option Exchange :=
  match e with
  | .accept env =>
      if x.asked o = [] ∧ x.toClt = [] then exchangeStep o x (.accept env) else none
  | e => exchangeStep o x e

theorem acceptsCalmTry_step {o : Deal} {x y : Exchange} {e : ExchangeEvent}
    (h : acceptsCalmTry o x e = some y) : ((exchangeLts o).guard (AcceptsCalm o)).step x e y := by
  unfold acceptsCalmTry at h
  split at h
  · split at h
    · rename_i hidle
      exact ⟨h, fun _ _ => .inl hidle⟩
    · cases h
  · rename_i hne
    exact ⟨h, fun env heq => absurd heq (hne env)⟩

/-- The peer 5 has offered two octets under the number 6. -/
def demoDeal : Deal := { rid := 5, oid := 6, file := [1, 2], addr := 0 }

/-- Its answer to the first request, in full. -/
def demoAnswer : Mbuf :=
  ⟨messageOctets .getfileRes 5 1 [(.offerid, .ui64 6), (.data, .blob [1, 2])], 0⟩

/-- Run the exchange from the client that has just received the offer. -/
def demoExchange (f : Exchange → ExchangeEvent → Option Exchange) (es : List ExchangeEvent)
    (p : Exchange → Bool) : Bool :=
  (Lts.exec cltTry (demoClient false []) (loginRun ++ offerRun (ascii "a") 2)).any fun c =>
    (c.transfers.find? fun d => d.Matches .download 5 6).any (fun d =>
      d.addr == 0 && d.size == 2 && d.offset == 0 && decide (d.fd < 0) &&
        partFile c.disk d == none) &&
    (⟨c, [], []⟩ : Exchange).asked demoDeal == [] && (Lts.exec f ⟨c, [], []⟩ es).any p

theorem demoExchange_reachable {M : Lts Exchange ExchangeEvent}
    {f : Exchange → ExchangeEvent → Option Exchange} {es : List ExchangeEvent}
    {p : Exchange → Bool} (hinit : M.init = ExchangeStart demoDeal)
    (hf : ∀ s e t, f s e = some t → M.step s e t) (h : demoExchange f es p = true) :
    ∃ x, M.Reachable x ∧ p x = true := by
  obtain ⟨c, hc, hp⟩ := Lts.reachable_of_exec (fun _ _ _ => cltTry_step)
    (demoClient_init false []) h
  simp only [Bool.and_eq_true, Option.any_eq_true, beq_iff_eq, decide_eq_true_eq] at hp
  obtain ⟨⟨⟨d, hfind, ⟨⟨⟨haddr, hsize⟩, hoff⟩, hfd⟩, hfile⟩, hasked⟩, hexec⟩ := hp
  have hstart : ExchangeStart demoDeal ⟨c, [], []⟩ :=
    ⟨hc, ⟨d, hfind, haddr, by rw [hsize]; rfl, hoff, hfd, hfile⟩, hasked, rfl⟩
  exact Lts.reachable_of_exec hf (hinit ▸ hstart) ((Option.any_eq_true _ _).mpr hexec)

theorem download_intact_two : ∃ (x : Exchange) (d : Transfer), d ∈ x.clt.transfers ∧ 0 < d.tact ∧
    partContent x.clt.disk d = [1, 2] ∧ DownloadIntact demoDeal x := by
  have hexec : demoExchange (acceptsCalmTry demoDeal)
      [.accept demoEnv, .send, .answer demoAnswer, .deliver demoEnv] (fun x =>
        x.clt.transfers.any fun d =>
          decide (0 < d.tact) && partContent x.clt.disk d == [1, 2]) = true := by
    decide +kernel
  obtain ⟨x, hx, hp⟩ := demoExchange_reachable (M := (exchangeLts demoDeal).guard
    (AcceptsCalm demoDeal)) rfl (fun _ _ _ => acceptsCalmTry_step) hexec
  simp only [List.any_eq_true, Bool.and_eq_true, decide_eq_true_eq, beq_iff_eq] at hp
  obtain ⟨d, hd, hlive, hcontent⟩ := hp
  exact ⟨x, d, hd, hlive, hcontent, download_intact hx⟩

/-- The offer is accepted twice before the first answer arrives: the peer answers
both requests, and the part file gets the two octets twice. -/
theorem accept_twice : ∃ (x : Exchange) (d : Transfer), (exchangeLts demoDeal).Reachable x ∧
    d ∈ x.clt.transfers ∧ partContent x.clt.disk d = [1, 2, 1, 2] ∧
    ¬ DownloadIntact demoDeal x := by
  have hexec : demoExchange (exchangeStep demoDeal)
      [.accept demoEnv, .accept demoEnv, .send, .send, .answer demoAnswer, .answer demoAnswer,
        .deliver demoEnv, .deliver demoEnv] (fun x =>
        x.clt.transfers.any fun d => d.addr == 0 && decide (0 < d.tact) &&
          partContent x.clt.disk d == [1, 2, 1, 2]) = true := by
    decide +kernel
  obtain ⟨x, hx, hp⟩ := demoExchange_reachable (M := exchangeLts demoDeal) rfl
    (fun _ _ _ h => h) hexec
  simp only [List.any_eq_true, Bool.and_eq_true, decide_eq_true_eq, beq_iff_eq] at hp
  obtain ⟨d, hd, ⟨haddr, hlive⟩, hcontent⟩ := hp
  refine ⟨x, d, hx, hd, hcontent, fun hall => ?_⟩
  have hlen := congrArg List.length ((hall d hd haddr hlive).symm.trans hcontent)
  rw [List.length_take] at hlen
  have hfile : demoDeal.file.length = 2 := rfl
  rw [hfile, List.length_cons, List.length_cons, List.length_cons, List.length_singleton] at hlen
  omega

end Frelay
