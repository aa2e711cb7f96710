import Frelay.Client.Downloads
import Frelay.Client.PartFile

/-!
# Serving an offer

* `offerRead_cases` — what `offer_read` can do with a request, told from the
  content of the file and the results of the system calls;
* `getfile_safe_iff` — when a GETFILE request for a live offer is answered as it
  should be: the size asked for goes unchecked into `malloc` and `read`.
-/

namespace Frelay

open Lib

/-! ## Reading the file of an offer -/

/-- The content of the file an offer is read from: the one its descriptor is
open on, or the one that can be opened under its name. -/
def offerContent (env : SysEnv) (k : Disk) (o : Transfer) : Option Bytes :=
  if 0 ≤ o.fd then (k.fs.fds o.fd).map fun f => k.fs.data f.ino
  else
    o.name.bind fun name =>
      (k.fs.openFile (k.path name) env.openFd).bind fun _ =>
        (k.fs.dir (k.path name)).map k.fs.data

/-- The octets one `read` of at most `size` octets at `offset` returns. -/
def readAt (content : Bytes) (offset size count : Nat) : Bytes :=
  (content.drop offset).take (min size (max 1 count))

/-- What `offer_read` can do. -/
inductive OfferReadCase (env : SysEnv) (k : Disk) (o : Transfer) (off size : UInt64) :
    Option (Disk × Transfer × Option Bytes) → Prop
  | exits {content : Bytes} : offerContent env k o = some content → off.toNat < 2 ^ 63 →
      env.seekOk = true → env.memory < size.toNat → OfferReadCase env k o off size none
  | fails {k' : Disk} {o' : Transfer} :
      (∀ content, offerContent env k o = some content → off.toNat < 2 ^ 63 → env.seekOk = true →
        size.toNat ≤ env.memory ∧ ∀ count, env.read = some count →
          readAt content off.toNat size.toNat count = []) →
      OfferReadCase env k o off size (some (k', o', none))
  | reads {content : Bytes} {count : Nat} {k' : Disk} {o' : Transfer} {f : OpenFile Bytes} :
      offerContent env k o = some content → off.toNat < 2 ^ 63 → env.seekOk = true →
      size.toNat ≤ env.memory → env.read = some count →
      readAt content off.toNat size.toNat count ≠ [] →
      0 ≤ o'.fd → k'.fs.fds o'.fd = some f → k.fs.data f.ino = content →
      OfferReadCase env k o off size
        (some (k', o', some (readAt content off.toNat size.toNat count)))

/-- Opening the file of an offer leads to its content, if to anything. -/
theorem offerOpen_cases (env : SysEnv) (k : Disk) (o : Transfer) :
    (offerOpen env k o).1.fs.data = k.fs.data ∧
      ((∃ f, 0 ≤ (offerOpen env k o).2.fd ∧
          (offerOpen env k o).1.fs.fds (offerOpen env k o).2.fd = some f ∧
          offerContent env k o = some (k.fs.data f.ino)) ∨
        offerContent env k o = none ∧ ((offerOpen env k o).2.fd < 0 ∨
          (offerOpen env k o).1.fs.fds (offerOpen env k o).2.fd = none)) := by
  have hneg : (-1 : Int) < 0 := by decide
  unfold offerOpen offerContent
  by_cases h0 : 0 ≤ o.fd
  · rw [if_pos h0, if_pos h0]
    refine ⟨rfl, ?_⟩
    cases hf : k.fs.fds o.fd with
    | none => exact .inr ⟨rfl, .inr rfl⟩
    | some f => exact .inl ⟨f, h0, rfl, rfl⟩
  · rw [if_neg h0, if_neg h0]
    cases hname : o.name with
    | none => exact ⟨rfl, .inr ⟨rfl, .inl hneg⟩⟩
    | some name =>
        simp only [Option.bind_some, Disk.openFile]
        cases hopen : k.fs.openFile (k.path name) env.openFd with
        | none => exact ⟨rfl, .inr ⟨rfl, .inl hneg⟩⟩
        | some r =>
            obtain ⟨n, fs⟩ := r
            obtain ⟨hn, -, i, hdir, rfl⟩ := Files.openFile_eq_some hopen
            refine ⟨rfl, .inl ⟨⟨k.path name, i, 0⟩, hn, Files.attach_self _ _ _, ?_⟩⟩
            rw [hdir]
            rfl

theorem offerRead_cases (env : SysEnv) (k : Disk) (o : Transfer) (off size : UInt64) :
    OfferReadCase env k o off size (offerRead env k o off size) := by
  obtain ⟨hdata, hopen⟩ := offerOpen_cases env k o
  unfold offerRead
  revert hdata hopen
  generalize offerOpen env k o = r
  obtain ⟨k₁, o₁⟩ := r
  intro hdata hopen
  simp only at hdata hopen ⊢
  rcases hopen with ⟨f, h0, hf, hcontent⟩ | ⟨hnone, hbad⟩
  · rw [if_neg (by omega)]
    by_cases hseek : off.toNat < 2 ^ 63 ∧ env.seekOk = true
    · have hat : k₁.fs.seekSet o₁.fd off.toNat =
          some (k₁.fs.attach o₁.fd { f with pos := off.toNat }) := by
        rw [Files.seekSet, hf]
        rfl
      rw [if_pos hseek, hat]
      simp only
      by_cases hmem : env.memory < size.toNat
      · rw [if_pos hmem]
        exact .exits hcontent hseek.1 hseek.2 hmem
      · rw [if_neg hmem]
        cases hread : env.read with
        | none =>
            refine .fails fun content hc _ _ => ⟨by omega, fun count hcount => ?_⟩
            rw [hread] at hcount
            cases hcount
        | some count =>
            have hbytes : (k₁.fs.attach o₁.fd { f with pos := off.toNat }).read o₁.fd size.toNat count =
                some (readAt (k.fs.data f.ino) off.toNat size.toNat count,
                  (k₁.fs.attach o₁.fd { f with pos := off.toNat }).attach o₁.fd
                    { f with pos := off.toNat +
                      (readAt (k.fs.data f.ino) off.toNat size.toNat count).length }) := by
              rw [Files.read, Files.attach_self, Option.map_some]
              simp only [Files.attach_data, hdata]
              rfl
            rw [Option.bind_some, hbytes]
            cases hnil : readAt (k.fs.data f.ino) off.toNat size.toNat count with
            | nil =>
                refine .fails fun content hc _ _ => ⟨by omega, fun count' hcount => ?_⟩
                rw [hread, Option.some.injEq] at hcount
                rw [hcontent, Option.some.injEq] at hc
                rw [← hc, ← hcount, hnil]
            | cons b bs =>
                simp only
                rw [← hnil]
                exact .reads hcontent hseek.1 hseek.2 (by omega) hread (by rw [hnil]; simp) h0
                  (Files.attach_self _ _ _) rfl
    · rw [if_neg hseek]
      exact .fails fun content _ hoff hok => absurd ⟨hoff, hok⟩ hseek
  · by_cases hneg : o₁.fd < 0
    · rw [if_pos hneg]
      refine .fails fun content hc => ?_
      rw [hnone] at hc
      cases hc
    · have hat : k₁.fs.seekSet o₁.fd off.toNat = none := by
        rw [Files.seekSet, hbad.resolve_left hneg]
        rfl
      rw [if_neg hneg, hat, ite_self]
      refine .fails fun content hc => ?_
      rw [hnone] at hc
      cases hc

theorem offerRead_entry {env : SysEnv} {k k' : Disk} {o o' : Transfer} {off size : UInt64}
    {x : Option Bytes} (h : offerRead env k o off size = some (k', o', x)) :
    (∃ fd, o' = { o with fd := fd }) ∧ k'.fs.data = k.fs.data := by
  have hopen : (∃ fd, (offerOpen env k o).2 = { o with fd := fd }) := by
    unfold offerOpen
    split
    · exact ⟨_, rfl⟩
    · split <;> exact ⟨_, rfl⟩
  have hdata := (offerOpen_cases env k o).1
  unfold offerRead at h
  revert hopen hdata h
  generalize offerOpen env k o = r
  obtain ⟨k₁, o₁⟩ := r
  rintro h ⟨fd, rfl⟩ hdata
  simp only at h hdata
  have hclosed : ∀ {fs : Files Bytes UInt8}, fs.data = k.fs.data → (fs.close fd).data = k.fs.data :=
    fun h => (Files.close_data _ _).trans h
  split at h
  · cases h
    exact ⟨⟨fd, rfl⟩, hdata⟩
  · split at h
    · cases h
      exact ⟨⟨fd, rfl⟩, hdata⟩
    · rename_i fs hseek
      have hfs : fs.data = k.fs.data := by
        split at hseek
        · obtain ⟨f, -, rfl⟩ := Option.map_eq_some_iff.mp hseek
          exact hdata
        · cases hseek
      split at h
      · cases h
      · split at h
        · cases h
          exact ⟨⟨-1, rfl⟩, hclosed hfs⟩
        · cases h
          exact ⟨⟨-1, rfl⟩, hclosed hfs⟩
        · rename_i data fs' _ hread
          cases h
          obtain ⟨count, -, hread⟩ := Option.bind_eq_some_iff.mp hread
          obtain ⟨f, -, -, -, -, rfl⟩ := Files.read_eq hread
          exact ⟨⟨fd, rfl⟩, hfs⟩

/-- Reading the file of an offer may open it, and does nothing else that is logged. -/
theorem offerRead_log {env : SysEnv} {k k' : Disk} {o o' : Transfer} {off size : UInt64}
    {x : Option Bytes} (h : offerRead env k o off size = some (k', o', x)) :
    Grown (fun a => ∃ path ino, a = .opened o.addr path ino) k.log k'.log := by
  have hopen : Grown (fun a => ∃ path ino, a = .opened o.addr path ino) k.log
      (offerOpen env k o).1.log := by
    unfold offerOpen
    split
    · exact .refl _ _
    · split
      · rename_i hfd
        obtain ⟨name, -, hfd⟩ := Option.bind_eq_some_iff.mp hfd
        obtain ⟨_, -, heq⟩ := Option.map_eq_some_iff.mp hfd
        cases heq
        exact (Grown.refl _ _).cons ⟨_, _, rfl⟩
      · exact .refl _ _
  -- From then on nothing is logged.
  have hsame : k'.log = (offerOpen env k o).1.log := by
    unfold offerRead at h
    revert h
    generalize offerOpen env k o = r
    obtain ⟨k₁, o₁⟩ := r
    intro h
    simp only at h
    split at h
    · cases h
      rfl
    · split at h
      · cases h
        rfl
      · split at h
        · cases h
        · split at h <;>
            · cases h
              rfl
  rw [hsame]
  exact hopen

theorem offerRead_invalidated {env : SysEnv} {k k' : Disk} {o o' : Transfer} {off size : UInt64}
    {x : Option Bytes} (addr : Nat) (h : offerRead env k o off size = some (k', o', x))
    (hinv : .invalidated addr ∈ k'.log) : .invalidated addr ∈ k.log := by
  refine (offerRead_log h).mem_of_not ?_ hinv
  rintro ⟨path, ino, heq⟩
  cases heq

/-! ## When the system calls succeed -/

/-- `content` is in the file of an offer, which is open or can be opened. -/
def OfferHolds (k : Disk) (o : Transfer) (content : Bytes) : Prop :=
  if 0 ≤ o.fd then (k.fs.fds o.fd).map (fun f => k.fs.data f.ino) = some content
  else (o.name.bind fun name => k.fs.dir (k.path name)).map k.fs.data = some content

/-- The system calls that serve a request succeed; a read may be short. -/
structure ReadsOk (env : SysEnv) (k : Disk) : Prop where
  now : 0 < env.now
  opens : FreshFd env k
  seeks : env.seekOk = true
  memory : MAX_DATA_SIZE.toNat ≤ env.memory
  reads : ∃ count, env.read = some count

theorem OfferHolds.content {env : SysEnv} {k : Disk} {o : Transfer} {content : Bytes}
    (h : OfferHolds k o content) (hfresh : FreshFd env k) : offerContent env k o = some content := by
  unfold OfferHolds at h
  unfold offerContent
  by_cases h0 : 0 ≤ o.fd
  · rw [if_pos h0] at h ⊢
    exact h
  · rw [if_neg h0] at h ⊢
    obtain ⟨i, hi, rfl⟩ := Option.map_eq_some_iff.mp h
    obtain ⟨name, hname, hdir⟩ := Option.bind_eq_some_iff.mp hi
    obtain ⟨n, hn, h0n, hfree⟩ := hfresh
    rw [hname, Option.bind_some, hn, Files.openFile_of_dir hdir h0n hfree, Option.bind_some, hdir]
    rfl

theorem readAt_prefix (content : Bytes) (offset size count : Nat) :
    readAt content offset size count <+: content.drop offset := List.take_prefix _ _

theorem length_readAt_le (content : Bytes) (offset size count : Nat) :
    (readAt content offset size count).length ≤ size := by
  rw [readAt, List.length_take]
  omega

theorem readAt_ne_nil {content : Bytes} {offset size : Nat} (count : Nat)
    (hoff : offset < content.length) (hsize : 0 < size) :
    readAt content offset size count ≠ [] := by
  intro hnil
  have hlen := congrArg List.length hnil
  rw [readAt, List.length_take, List.length_drop, List.length_nil] at hlen
  omega

/-- If the system calls succeed, octets are read. -/
theorem offerRead_reads {env : SysEnv} {k : Disk} {o : Transfer} {content : Bytes}
    (off size : UInt64) (hok : ReadsOk env k) (hholds : OfferHolds k o content)
    (hoff : off.toNat < content.length) (hcontent : content.length < 2 ^ 63)
    (hsize : 0 < size.toNat) (hmax : size.toNat ≤ MAX_DATA_SIZE.toNat) :
    ∃ k' fd count, offerRead env k o off size =
        some (k', { o with fd := fd }, some (readAt content off.toNat size.toNat count)) ∧
      OfferHolds k' { o with fd := fd } content := by
  have hc := hholds.content hok.opens
  have hmem := hok.memory
  have hoff63 : off.toNat < 2 ^ 63 := by omega
  generalize hr : offerRead env k o off size = r
  have hcase := hr ▸ offerRead_cases env k o off size
  cases hcase with
  | exits _ _ _ hshort => omega
  | fails hall =>
      obtain ⟨count, hread⟩ := hok.reads
      exact absurd ((hall content hc hoff63 hok.seeks).2 count hread) (readAt_ne_nil count hoff hsize)
  | @reads content' count k' o' f hc' _ _ _ _ _ h0 hf hino =>
      rw [hc, Option.some.injEq] at hc'
      subst hc'
      obtain ⟨⟨fd, rfl⟩, hdata⟩ := offerRead_entry hr
      refine ⟨k', fd, count, rfl, ?_⟩
      unfold OfferHolds
      rw [if_pos h0, hf, Option.map_some, hdata, hino]

/-! ## Answering a request -/

/-- The live offer a GETFILE request names, and the OFFSET and SIZE it asks for. -/
def requestFields (env : CltEnv) (c : Clt) (m : Mbuf) : Option (Transfer × UInt64 × UInt64) :=
  (Clt.nextIf (mbufResetgetattrib m) .offerid).bind fun p =>
    (c.transfers.find? fun o =>
      o.Matches .offer (hdrGetSrcid m) (ui64At p.2 env.beyond p.1.av)).map fun o =>
        (o, (Clt.nextUi64 env p.2 .offset).1,
          (Clt.nextUi64 env (Clt.nextUi64 env p.2 .offset).2 .size).1)

/-- The request `m` is about the live offer `o`, and asks for `size` octets at `offset`. -/
structure GetfileReq (env : CltEnv) (c : Clt) (m : Mbuf) (o : Transfer) (offset size : UInt64) :
    Prop where
  hdr : 40 ≤ m.bsize
  type : hdrGetType m = MsgType.code .getfileReq
  st : c.st = .authOk
  fields : requestFields env c m = some (o, offset, size)

/-- One answer: DATA of no more octets than asked for and than fit, or an error. -/
def AnsweredSafely (env : CltEnv) (c : Clt) (m : Mbuf) (size : UInt64) : Prop :=
  ∃ t r, Clt.processSrvmsg env c m = some t ∧ t.q = c.q ++ [r] ∧ r.bsize ≤ MSG_MAX_SIZE ∧
    ((hdrGetType r = MsgType.code .getfileRes ∧ ∃ oid data,
        attribs r = [(MsgAttrib.code .offerid, oid), (MsgAttrib.code .data, data)] ∧
        data.length ≤ min size.toNat MAX_DATA_SIZE.toNat) ∨
      hdrGetType r = MsgType.code .getfileErr)

/-- The request ends the transfer, or cannot be met, or memory for the octets
asked for can be had and no more than fit into a message are read. -/
def ServedSafely (env : SysEnv) (k : Disk) (o : Transfer) (offset size : UInt64) : Prop :=
  size = 0 ∨ ∀ content, offerContent env k o = some content → offset.toNat < 2 ^ 63 →
    env.seekOk = true → size.toNat ≤ env.memory ∧ ∀ count, env.read = some count →
      (readAt content offset.toNat size.toNat count).length ≤ MAX_DATA_SIZE.toNat

theorem requestFields_spec {env : CltEnv} {c : Clt} {m : Mbuf} {o : Transfer} {offset size : UInt64}
    (h : requestFields env c m = some (o, offset, size)) :
    o ∈ c.transfers ∧ ∃ a m₁, Clt.nextIf (mbufResetgetattrib m) .offerid = some (a, m₁) ∧
      o.Matches .offer (hdrGetSrcid m) (ui64At m₁ env.beyond a.av) := by
  obtain ⟨⟨a, m₁⟩, hoid, hfields⟩ := Option.bind_eq_some_iff.mp h
  obtain ⟨u, hfind, heq⟩ := Option.map_eq_some_iff.mp hfields
  simp only [Prod.mk.injEq] at heq
  obtain ⟨rfl, -, -⟩ := heq
  have hm := matches_of_find hfind
  exact ⟨List.mem_of_find?_eq_some hfind, a, m₁, hoid, hm⟩

/-- The optional attributes of a request, in their order. -/
def rangeAttribs (offset size : Option UInt64) : List (UInt16 × Bytes) :=
  (offset.toList.map fun x => (MsgAttrib.code .offset, be64 x)) ++
    size.toList.map fun x => (MsgAttrib.code .size, be64 x)

/-- OFFSET and SIZE are read by their position: where the OFFSET is missing, the SIZE is
taken for one, and skipped. -/
theorem nextUi64_of_range (env : CltEnv) {n : Nat} {m : Mbuf} {offset size : Option UInt64}
    (hn : 2 < n) (h : attribsFrom n m = rangeAttribs offset size) :
    (Clt.nextUi64 env m .offset).1 = offset.getD 0 ∧
      (Clt.nextUi64 env (Clt.nextUi64 env m .offset).2 .size).1 =
        if offset.isSome then size.getD 0 else 0 := by
  cases offset with
  | some x =>
      obtain ⟨hx, hl⟩ := Clt.nextUi64_of_attribs env .offset (u := .offset) h
      refine ⟨hx, ?_⟩
      cases size with
      | some y => exact (Clt.nextUi64_of_attribs env .size (u := .size) hl).1
      | none =>
          rw [Clt.nextUi64_end env .size (by omega) hl]
          rfl
  | none =>
      cases size with
      | some y =>
          obtain ⟨hx, hl⟩ := Clt.nextUi64_of_attribs env .offset (u := .size) h
          refine ⟨hx, ?_⟩
          rw [Clt.nextUi64_end env .size (by omega) hl]
          rfl
      | none =>
          have hend := fun t => Clt.nextUi64_end env t (by omega : 0 < n) h
          rw [hend, hend]
          exact ⟨rfl, rfl⟩

/-- What a request asks for, if its attributes are known. -/
theorem requestFields_of_attribs (env : CltEnv) {c : Clt} {m : Mbuf} {o : Transfer}
    {oid : UInt64} (offset size : Option UInt64) (hm : 40 ≤ m.bsize)
    (hattr : attribs m = (MsgAttrib.code .offerid, be64 oid) :: rangeAttribs offset size)
    (hfind : c.transfers.find? (fun o => o.Matches .offer (hdrGetSrcid m) oid) = some o) :
    requestFields env c m =
      some (o, offset.getD 0, if offset.isSome then size.getD 0 else 0) := by
  obtain ⟨a, m', hoid, hv, hl⟩ := Clt.nextIf_of_attribs hattr
  obtain ⟨hoff, hsize⟩ := nextUi64_of_range env (by omega) hl
  have hx := ui64At_of_blobAt hv env.beyond
  rw [requestFields, hoid, Option.bind_some]
  simp only [hx, hfind, Option.map_some, hoff, hsize]

/-- The response is composed if the DATA fits, and only then. -/
theorem getfileResponse_eq (env : CltEnv) (c : Clt) (m : Mbuf) (oid : UInt64) (data : Bytes) :
    (data.length ≤ MAX_DATA_SIZE.toNat ∧ ∃ r,
      Clt.getfileResponse env c m oid data = some (c, .send r) ∧ r.bsize ≤ MSG_MAX_SIZE ∧
      hdrGetType r = MsgType.code .getfileRes ∧ hdrGetDstid r = hdrGetSrcid m ∧
      hdrGetTrfid r = hdrGetTrfid m ∧
      attribs r = [(MsgAttrib.code .offerid, be64 oid), (MsgAttrib.code .data, data)]) ∨
      (MAX_DATA_SIZE.toNat < data.length ∧ Clt.getfileResponse env c m oid data = none) := by
  have hmax : MAX_DATA_SIZE.toNat = 65376 := rfl
  have hty : ∀ a ∈ [(MsgAttrib.offerid, AttrArg.ui64 oid), (MsgAttrib.data, AttrArg.blob data)],
      a.2.avtype = a.1.avtype := by simp [AttrArg.avtype, MsgAttrib.avtype]
  have hlen : (tlvs [(MsgAttrib.offerid, AttrArg.ui64 oid),
      (MsgAttrib.data, AttrArg.blob data)]).length = 24 + roundup8 data.length := by
    have h8 : roundup8 8 = 8 := by decide
    simp [AttrArg.octets, h8]
    omega
  unfold Clt.getfileResponse
  rw [compose_eq _ _ _ _ hty, hlen]
  by_cases hfit : data.length ≤ 65376
  · have hround : roundup8 data.length ≤ 65376 := roundup8_mono (n := 65376) hfit
    rw [if_pos (by unfold MSG_MAX_PAY_SIZE; omega)]
    refine .inl ⟨hmax ▸ hfit, _, rfl, ?_, hdrGetType_mkMsg _ _ _, hdrGetDstid_mkMsg _ _ _,
      hdrGetTrfid_mkMsg _ _ _, ?_⟩
    · rw [bsize_mkMsg, hlen]
      unfold MSG_MAX_SIZE MSG_HDR_SIZE MSG_MAX_PAY_SIZE
      omega
    · rw [attribs_tlvs]
      · rfl
      · intro a ha
        simp only [List.mem_cons, List.not_mem_nil, or_false] at ha
        rcases ha with rfl | rfl
        · simp [AttrArg.octets]
        · change data.length < 65536
          omega
  · have hle := le_roundup8 data.length
    rw [if_neg (by unfold MSG_MAX_PAY_SIZE; omega)]
    exact .inr ⟨by omega, rfl⟩

/-- DATA that fits is sent. -/
theorem getfileResponse_fits (env : CltEnv) (c : Clt) (m : Mbuf) (oid : UInt64) {data : Bytes}
    (hlen : data.length ≤ MAX_DATA_SIZE.toNat) :
    ∃ r, Clt.getfileResponse env c m oid data = some (c, .send r) ∧
      compose env.ntime .getfileRes (hdrGetSrcid m) (hdrGetTrfid m)
        [(.offerid, .ui64 oid), (.data, .blob data)] = some r := by
  rcases getfileResponse_eq env c m oid data with ⟨-, r, hr, -⟩ | ⟨hbig, -⟩
  · obtain ⟨r', hr', heq⟩ := Option.bind_eq_some_iff.mp hr
    simp only [Option.some.injEq, Prod.mk.injEq, Clt.Answer.send.injEq, true_and] at heq
    subst heq
    exact ⟨r', hr, hr'⟩
  · omega

/-- What `process_srvmsg` makes of the request. -/
theorem processSrvmsg_getfile {env : CltEnv} {c : Clt} {m : Mbuf} {o : Transfer}
    {offset size : UInt64} (h : GetfileReq env c m o offset size) :
    Clt.processSrvmsg env c m = Option.bind
      (if size = 0 then
        Clt.getfileResponse env (c.put (transferInvalidate c.disk { o with tact := env.now }).1
          { (transferInvalidate c.disk { o with tact := env.now }).2 with offset := offset + size })
          (mbufResetgetattrib m) o.oid []
      else
        match offerRead env.toSysEnv c.disk { o with tact := env.now } offset size with
        | none => none
        | some (k, o, none) => some (c.put k o, .fail .rangeNotSatisfiable)
        | some (k, o', some data) =>
            Clt.getfileResponse env
              (c.put k { o' with offset := offset + UInt64.ofNat data.length })
              (mbufResetgetattrib m) o.oid data)
      (Clt.sendAnswer env m) := by
  obtain ⟨⟨a, m₁⟩, hoid, hfields⟩ := Option.bind_eq_some_iff.mp h.fields
  obtain ⟨u, hfind, heq⟩ := Option.map_eq_some_iff.mp hfields
  simp only [Prod.mk.injEq] at heq
  obtain ⟨rfl, hoff, hsize⟩ := heq
  -- The offer found is the one asked for.
  have hx : ui64At m₁ env.beyond a.av = u.oid :=
    (matches_of_find hfind).2.1
  have hsol : c.solicited m = some c := by
    unfold Clt.solicited
    rw [h.type, if_neg (by decide)]
  have htype : hdrGetType (mbufResetgetattrib m) = MsgType.code .getfileReq := h.type
  have hmatch : transferMatch env.now .offer (hdrGetSrcid (mbufResetgetattrib m))
      (ui64At m₁ env.beyond a.av) c.transfers = some { u with tact := env.now } := by
    change (c.transfers.find? fun o => o.Matches .offer (hdrGetSrcid m)
      (ui64At m₁ env.beyond a.av)).map _ = _
    rw [hfind]
    rfl
  rw [Clt.processSrvmsg, hsol]
  simp only [Clt.dispatchSrvmsg, htype, MsgType.ofCode?_code]
  rw [Clt.processGetfileReq, if_pos h.st, hoid]
  simp only [hmatch]
  simp only [hx]
  subst hoff hsize
  rfl

/-- An error response is a safe answer. -/
theorem sendAnswer_fail (env : CltEnv) (c : Clt) {m : Mbuf} (hm : 40 ≤ m.bsize)
    (htype : hdrGetType m = MsgType.code .getfileReq) (ec : ScEnum) :
    ∃ r, Clt.sendAnswer env m (c, .fail ec) = some { c with q := c.q ++ [r] } ∧
      r.bsize ≤ MSG_MAX_SIZE ∧ hdrGetType r = MsgType.code .getfileErr ∧
      hdrGetDstid r = hdrGetSrcid m ∧ hdrGetTrfid r = hdrGetTrfid m := by
  have hsome : (mbufToErrorResponse env.ntime m ec).isSome := mbufToErrorResponse_isSome hm
  obtain ⟨r, hr⟩ := Option.isSome_iff_exists.mp hsome
  obtain ⟨hreply, hrtype⟩ := isReply_error_type hm hr
  refine ⟨{ r with boff := 0 }, ?_, hreply.max, ?_, hreply.dstid, hreply.trfid⟩
  · rw [Clt.sendAnswer, hr]
    rfl
  · change hdrGetType r = _
    rw [hrtype, htype]
    decide

/-- The client goes on as `t` after the request `m`, which it answers with `r`. -/
structure RepliesWith (env : CltEnv) (c : Clt) (m : Mbuf) (t : Clt) (r : Mbuf) : Prop where
  step : Clt.processSrvmsg env c m = some t
  queued : t.q = c.q ++ [r]
  size : r.bsize ≤ MSG_MAX_SIZE
  dest : hdrGetDstid r = hdrGetSrcid m
  trfid : hdrGetTrfid r = hdrGetTrfid m

/-- A GETFILE response with `data` of the offer `oid`. -/
def HasData (r : Mbuf) (oid : UInt64) (data : Bytes) : Prop :=
  hdrGetType r = MsgType.code .getfileRes ∧
    attribs r = [(MsgAttrib.code .offerid, be64 oid), (MsgAttrib.code .data, data)]

/-- The offer `o` has been invalidated. -/
structure OfferEnds (c t : Clt) (o : Transfer) : Prop where
  entry : ∃ p, t.transfers = putTransfer p c.transfers ∧ p.addr = o.addr ∧ p.tact = 0
  logged : .invalidated o.addr ∈ t.disk.log

/-- The offer `o` has not been invalidated, and has come as far as `offset`. -/
structure OfferGoesOn (env : CltEnv) (c t : Clt) (o : Transfer) (offset : UInt64) : Prop where
  entry : ∃ fd, t.transfers =
    putTransfer { o with fd := fd, tact := env.now, offset := offset } c.transfers
  logged : .invalidated o.addr ∈ t.disk.log → .invalidated o.addr ∈ c.disk.log

/-- What a request for `size` octets of the offer `o` at `offset` is meant to lead to: to ask
for nothing ends the transfer, otherwise octets are sent, if any can be read. -/
inductive RangeServed (env : CltEnv) (c t : Clt) (o : Transfer) (offset size : UInt64) (r : Mbuf) :
    Prop
  | ended : size = 0 → OfferEnds c t o → HasData r o.oid [] → RangeServed env c t o offset size r
  | data {content : Bytes} {count : Nat} : size ≠ 0 →
      offerContent env.toSysEnv c.disk o = some content → offset.toNat < 2 ^ 63 →
      env.seekOk = true → env.read = some count →
      readAt content offset.toNat size.toNat count ≠ [] →
      OfferGoesOn env c t o
        (offset + UInt64.ofNat (readAt content offset.toNat size.toNat count).length) →
      HasData r o.oid (readAt content offset.toNat size.toNat count) →
      RangeServed env c t o offset size r
  | refused : size ≠ 0 →
      (∀ content, offerContent env.toSysEnv c.disk o = some content → offset.toNat < 2 ^ 63 →
        env.seekOk = true → ∀ count, env.read = some count →
          readAt content offset.toNat size.toNat count = []) →
      OfferGoesOn env c t o o.offset → hdrGetType r = MsgType.code .getfileErr →
      RangeServed env c t o offset size r

/-- The request `m` is answered, and served as one for `size` octets at `offset`. -/
def ServesRange (env : CltEnv) (c : Clt) (m : Mbuf) (o : Transfer) (offset size : UInt64) : Prop :=
  ∃ t r, RepliesWith env c m t r ∧ RangeServed env c t o offset size r

/-- DATA that fits is the answer, and the client exits over DATA that does not. -/
theorem getfileResponse_replies {env : CltEnv} {c c' : Clt} {m : Mbuf} {oid : UInt64} {data : Bytes}
    (heq : Clt.processSrvmsg env c m =
      (Clt.getfileResponse env c' (mbufResetgetattrib m) oid data).bind (Clt.sendAnswer env m))
    (hq : c'.q = c.q) :
    (data.length ≤ MAX_DATA_SIZE.toNat ∧ ∃ t r, RepliesWith env c m t r ∧ HasData r oid data ∧
      t.transfers = c'.transfers ∧ t.disk = c'.disk) ∨
      (MAX_DATA_SIZE.toNat < data.length ∧ Clt.processSrvmsg env c m = none) := by
  rcases getfileResponse_eq env c' (mbufResetgetattrib m) oid data with
    ⟨hfit, r, hr, hsize, htype, hdst, htrf, hattr⟩ | ⟨hbig, hnone⟩
  · refine .inl ⟨hfit, c'.enqueueMsg r, { r with boff := 0 }, ⟨?_, ?_, hsize, hdst, htrf⟩,
      ⟨htype, hattr⟩, rfl, rfl⟩
    · rw [heq, hr]
      rfl
    · exact congrArg (· ++ _) hq
  · refine .inr ⟨hbig, ?_⟩
    rw [heq, hnone]
    rfl

/-- A request is served as it should be, or the client exits. -/
theorem getfile_outcome {env : CltEnv} {c : Clt} {m : Mbuf} {o : Transfer} {offset size : UInt64}
    (h : GetfileReq env c m o offset size) :
    (ServedSafely env.toSysEnv c.disk o offset size ∧ ServesRange env c m o offset size) ∨
      (¬ ServedSafely env.toSysEnv c.disk o offset size ∧ Clt.processSrvmsg env c m = none) := by
  have hcontent : offerContent env.toSysEnv c.disk { o with tact := env.now } =
      offerContent env.toSysEnv c.disk o := rfl
  have hproc := processSrvmsg_getfile h
  by_cases hzero : size = 0
  · rw [if_pos hzero] at hproc
    -- Nothing is asked for: the transfer ends, with empty DATA.
    rcases getfileResponse_replies hproc rfl with ⟨-, t, r, hreply, hdata, hts, hdisk⟩ | ⟨hbig, -⟩
    · refine .inl ⟨.inl hzero, t, r, hreply, .ended hzero ⟨⟨_, hts, rfl, rfl⟩, ?_⟩ hdata⟩
      rw [hdisk]
      exact List.mem_cons_self
    · exact absurd hbig (Nat.not_lt_zero _)
  · rw [if_neg hzero] at hproc
    generalize hr : offerRead env.toSysEnv c.disk { o with tact := env.now } offset size = res at hproc
    have hcase := hr ▸ offerRead_cases env.toSysEnv c.disk { o with tact := env.now } offset size
    cases hcase with
    | @exits content hc hoff hseek hmem =>
        -- There is too little memory for what is asked for.
        refine .inr ⟨?_, hproc⟩
        rintro (hz | hall)
        · exact hzero hz
        · exact absurd (hall content (hcontent ▸ hc) hoff hseek).1 (Nat.not_le.mpr hmem)
    | @fails k' o' hall =>
        -- Nothing can be read, which is answered with an error.
        have hold := offerRead_invalidated o.addr hr
        obtain ⟨⟨fd, rfl⟩, -⟩ := offerRead_entry hr
        obtain ⟨r, ht, hsize, htype, hdst, htrf⟩ := sendAnswer_fail env
          (c.put k' { o with tact := env.now, fd := fd }) h.hdr h.type .rangeNotSatisfiable
        simp only [Option.bind_some] at hproc
        refine .inl ⟨.inr fun content hc hoff hseek => ?_, _, r,
          ⟨hproc.trans ht, rfl, hsize, hdst, htrf⟩, .refused hzero ?_ ⟨⟨fd, rfl⟩, hold⟩ htype⟩
        · obtain ⟨hmem, hread⟩ := hall content (hcontent ▸ hc) hoff hseek
          refine ⟨hmem, fun count hcount => ?_⟩
          rw [hread count hcount]
          exact Nat.zero_le _
        · exact fun content hc hoff hseek => (hall content (hcontent ▸ hc) hoff hseek).2
    | @reads content count k' o' f hc hoff hseek hmem hread hne _ _ _ =>
        -- Octets were read; whether they are sent depends on their number.
        have hold := offerRead_invalidated o.addr hr
        obtain ⟨⟨fd, rfl⟩, -⟩ := offerRead_entry hr
        simp only at hproc
        rcases getfileResponse_replies hproc rfl with
          ⟨hfit, t, r, hreply, hdata, hts, hdisk⟩ | ⟨hbig, hnone⟩
        · refine .inl ⟨.inr fun content' hc' _ _ => ⟨hmem, fun count' hcount' => ?_⟩, t, r, hreply,
            .data hzero (hcontent ▸ hc) hoff hseek hread hne ⟨⟨fd, hts⟩, hdisk ▸ hold⟩ hdata⟩
          rw [← hcontent, hc, Option.some.injEq] at hc'
          rw [hread, Option.some.injEq] at hcount'
          rw [← hc', ← hcount']
          exact hfit
        · refine .inr ⟨?_, hnone⟩
          rintro (hz | hall)
          · exact hzero hz
          · exact absurd ((hall content (hcontent ▸ hc) hoff hseek).2 count hread)
              (Nat.not_le.mpr hbig)

/-- **Serving a GETFILE request is safe**, exactly if `ServedSafely`. -/
theorem getfile_safe_iff {env : CltEnv} {c : Clt} {m : Mbuf} {o : Transfer} {offset size : UInt64}
    (h : GetfileReq env c m o offset size) :
    AnsweredSafely env c m size ↔ ServedSafely env.toSysEnv c.disk o offset size := by
  rcases getfile_outcome h with ⟨hsafe, t, r, hreply, hserved⟩ | ⟨hbad, hnone⟩
  · refine ⟨fun _ => hsafe, fun _ => ⟨t, r, hreply.step, hreply.queued, hreply.size, ?_⟩⟩
    cases hserved with
    | ended _ _ hdata => exact .inl ⟨hdata.1, _, [], hdata.2, Nat.zero_le _⟩
    | data hzero hc hoff hseek hread _ _ hdata =>
        have hall := hsafe.resolve_left hzero _ hc hoff hseek
        exact .inl ⟨hdata.1, _, _, hdata.2,
          Nat.le_min.mpr ⟨length_readAt_le _ _ _ _, hall.2 _ hread⟩⟩
    | refused _ _ _ htype => exact .inr htype
  · refine ⟨?_, fun hsafe => absurd hsafe hbad⟩
    rintro ⟨t, r, ht, -⟩
    rw [hnone] at ht
    cases ht

/-- The peer 5 asks for `size` octets of the offer 2, at `offset`. -/
def getfileOctets (offset size : UInt64) : Bytes :=
  messageOctets .getfileReq 5 9 [(.offerid, .ui64 2), (.offset, .ui64 offset), (.size, .ui64 size)]

/-- The user offers the file `f` to the peer 5. -/
def serveRun : List CltEvent := loginRun ++ [.cmd (.offer 5 (ascii "f")) demoEnv, .write (.sent 1000)]

theorem getfile_safe_iff_two : ∃ c m o, cltLts.Reachable c ∧
    (AnsweredSafely demoEnv c m 2 ↔ ServedSafely demoEnv.toSysEnv c.disk o 1 2) := by
  have hexec : (Lts.exec cltTry (demoClient false [(ascii "f", [1, 2, 3])]) serveRun).any (fun c =>
      c.st == .authOk && (requestFields demoEnv c ⟨getfileOctets 1 2, 0⟩).any fun r =>
        r.2 == (1, 2)) = true := by
    decide +kernel
  obtain ⟨c, hc, hp⟩ := Lts.reachable_of_exec (fun _ _ _ => cltTry_step)
    (demoClient_init false [(ascii "f", [1, 2, 3])]) hexec
  simp only [Bool.and_eq_true, beq_iff_eq, Option.any_eq_true] at hp
  obtain ⟨hst, ⟨o, offset, size⟩, hfields, hval⟩ := hp
  obtain ⟨rfl, rfl⟩ := Prod.mk.inj hval
  exact ⟨c, ⟨getfileOctets 1 2, 0⟩, o, hc,
    getfile_safe_iff ⟨by decide +kernel, by decide +kernel, hst, hfields⟩⟩

/-- The peer asks for more octets than there is memory for. -/
theorem getfile_exits : ∃ c m o, cltLts.Reachable c ∧
    GetfileReq demoEnv c m o 0 18446744073709551615 ∧ Clt.processSrvmsg demoEnv c m = none ∧
    ¬ AnsweredSafely demoEnv c m 18446744073709551615 := by
  have hexec : (Lts.exec cltTry (demoClient false [(ascii "f", [1, 2, 3])]) serveRun).any (fun c =>
      c.st == .authOk &&
        (requestFields demoEnv c ⟨getfileOctets 0 18446744073709551615, 0⟩).any (fun r =>
          r.2 == (0, 18446744073709551615)) &&
        (Clt.processSrvmsg demoEnv c ⟨getfileOctets 0 18446744073709551615, 0⟩).isNone) = true := by
    decide +kernel
  obtain ⟨c, hc, hp⟩ := Lts.reachable_of_exec (fun _ _ _ => cltTry_step)
    (demoClient_init false [(ascii "f", [1, 2, 3])]) hexec
  simp only [Bool.and_eq_true, beq_iff_eq, Option.any_eq_true, Option.isNone_iff_eq_none] at hp
  obtain ⟨⟨hst, ⟨o, offset, size⟩, hfields, hval⟩, hnone⟩ := hp
  obtain ⟨rfl, rfl⟩ := Prod.mk.inj hval
  refine ⟨c, _, o, hc, ⟨by decide +kernel, by decide +kernel, hst, hfields⟩, hnone, ?_⟩
  rintro ⟨t, r, ht, -⟩
  rw [hnone] at ht
  cases ht

/-! ## Offered files stay private -/

/-- The response `r` with `data` answers the request `m` for the offer `o` of the
peer it goes to. The OFFSET and the SIZE of a request go by their position. -/
structure ServedTo (env : CltEnv) (c t : Clt) (m : Mbuf) (o : Transfer) (offset size : UInt64)
    (r : Mbuf) (data : Bytes) : Prop where
  request : GetfileReq env c m o offset size
  offer : o ∈ c.transfers ∧ o.type = .offer ∧ o.rid = hdrGetSrcid m
  named : ∃ a m₁, Clt.nextIf (mbufResetgetattrib m) .offerid = some (a, m₁) ∧
    ui64At m₁ env.beyond a.av = o.oid
  alive : .invalidated o.addr ∉ c.disk.log
  dest : hdrGetDstid r = o.rid
  attribs : attribs r = [(MsgAttrib.code .offerid, be64 o.oid), (MsgAttrib.code .data, data)]
  range : data.length ≤ size.toNat ∧ ∃ ino, lastOpened t.disk.log o.addr = some ino ∧
    data = ((c.disk.fs.data ino).drop offset.toNat).take data.length

/-- What the handler of a GETFILE request sends. -/
theorem processGetfileReq_send {env : CltEnv} {c c' : Clt} {m r : Mbuf}
    (h : Clt.processGetfileReq env c (mbufResetgetattrib m) = some (c', .send r)) :
    ∃ o offset size, c.st = .authOk ∧ requestFields env c m = some (o, offset, size) ∧
      ∃ data, hdrGetDstid r = hdrGetSrcid m ∧
        attribs r = [(MsgAttrib.code .offerid, be64 o.oid), (MsgAttrib.code .data, data)] ∧
        (data = [] ∨ ∃ k o', offerRead env.toSysEnv c.disk { o with tact := env.now } offset size =
          some (k, o', some data) ∧
          c' = c.put k { o' with offset := offset + UInt64.ofNat data.length }) := by
  have hresp : ∀ {c₁ : Clt} {oid : UInt64} {data : Bytes},
      Clt.getfileResponse env c₁ (mbufResetgetattrib m) oid data = some (c', .send r) →
      c' = c₁ ∧ hdrGetDstid r = hdrGetSrcid m ∧
        attribs r = [(MsgAttrib.code .offerid, be64 oid), (MsgAttrib.code .data, data)] := by
    intro c₁ oid data h
    rcases getfileResponse_eq env c₁ (mbufResetgetattrib m) oid data with
      ⟨-, r', hr, -, -, hdst, -, hattr⟩ | ⟨-, hnone⟩
    · rw [hr] at h
      simp only [Option.some.injEq, Prod.mk.injEq, Clt.Answer.send.injEq] at h
      obtain ⟨rfl, rfl⟩ := h
      exact ⟨rfl, hdst, hattr⟩
    · rw [hnone] at h
      cases h
  unfold Clt.processGetfileReq at h
  by_cases hst : c.st = .authOk
  · rw [if_pos hst] at h
    split at h
    · cases h
    · rename_i a m₁ hoid
      simp only at h
      split at h
      · cases h
      · rename_i o hmatch
        obtain ⟨u, hfind, rfl⟩ := Option.map_eq_some_iff.mp hmatch
        have hm := matches_of_find hfind
        have hfields : requestFields env c m = some (u, (Clt.nextUi64 env m₁ .offset).1,
            (Clt.nextUi64 env (Clt.nextUi64 env m₁ .offset).2 .size).1) := by
          rw [requestFields, hoid, Option.bind_some]
          change (c.transfers.find? fun o => o.Matches .offer (hdrGetSrcid m)
            (ui64At m₁ env.beyond a.av)).map _ = _
          change (c.transfers.find? fun o => o.Matches .offer (hdrGetSrcid m)
            (ui64At m₁ env.beyond a.av)) = _ at hfind
          rw [hfind, Option.map_some]
        refine ⟨u, _, _, hst, hfields, ?_⟩
        split at h
        · obtain ⟨-, hdst, hattr⟩ := hresp h
          rw [hm.2.1] at hattr
          exact ⟨[], hdst, hattr, .inl rfl⟩
        · split at h
          · cases h
          · cases h
          · rename_i k o' data hread
            obtain ⟨hc', hdst, hattr⟩ := hresp h
            rw [hm.2.1] at hattr
            exact ⟨data, hdst, hattr, .inr ⟨k, o', hread, hc'⟩⟩
  · rw [if_neg hst] at h
    cases h

/-- A message that makes the client send a GETFILE response is a request for it. -/
theorem processSrvmsg_serves {env : CltEnv} {c t : Clt} {m r : Mbuf} (hm : 40 ≤ m.bsize)
    (h : Clt.processSrvmsg env c m = some t) (hq : t.q = c.q ++ [r])
    (htype : hdrGetType r = MsgType.code .getfileRes) :
    hdrGetType m = MsgType.code .getfileReq ∧ ∃ c' r', { r' with boff := 0 } = r ∧
      Clt.processGetfileReq env c (mbufResetgetattrib m) = some (c', .send r') ∧
      t.disk = c'.disk ∧ t.transfers = c'.transfers := by
  have hreq : ∀ u : UInt16, mclassToErr u ≠ MsgType.code .getfileRes := by
    intro u heq
    have hres := (mclassToErr_ne u).2
    rw [heq] at hres
    exact absurd hres (by decide)
  rcases Clt.processSrvmsg_cases hm h with rfl | ⟨c₁, c₂, a, new, hsol, hdisp, hcase, rfl, hsends⟩
  · exact absurd (congrArg List.length hq) (by simp)
  · obtain ⟨-, ⟨hq₁, -, -⟩, -, -, -⟩ := Clt.solicited_spec hsol
    have hnew : new = [r] := by
      have hq₂ : c₂.q = c₁.q := by
        cases hcase with
        | plain hp => exact hp.queues.1
        | offer _ => rfl
        | serve _ => rfl
        | download _ => rfl
      change c₂.q ++ new = c.q ++ [r] at hq
      rwa [hq₂, hq₁, List.append_cancel_left_eq] at hq
    -- The answer is a response that was composed, not an error.
    have hsend : ∃ r', a = .send r' ∧ { r' with boff := 0 } = r := by
      cases a with
      | nothing =>
          rw [show new = [] from hsends] at hnew
          cases hnew
      | send r' => exact ⟨r', rfl, List.singleton_inj.mp ((show new = _ from hsends) ▸ hnew)⟩
      | fail ec =>
          obtain ⟨r', hr', hty⟩ := hsends
          rw [hr', List.singleton_inj] at hnew
          rw [← hnew] at htype
          exact absurd (hty.symm.trans htype) (hreq _)
    obtain ⟨r', rfl, hr'⟩ := hsend
    have htype' : hdrGetType r' = MsgType.code .getfileRes := by
      rw [← hr'] at htype
      exact htype
    have hmtype : hdrGetType m = MsgType.code .getfileReq := by
      cases hcase with
      | plain hp => exact absurd htype' (hp.send r' rfl).2
      | offer hp =>
          rw [hp.send r' rfl] at htype'
          exact absurd htype' (by decide)
      | serve hp => exact (hp.send r' rfl).1
      | download hp =>
          rw [(hp.send r' rfl).1] at htype'
          exact absurd htype' (by decide)
    have hself : c₁ = c := by
      unfold Clt.solicited at hsol
      rw [hmtype, if_neg (by decide)] at hsol
      exact (Option.some.inj hsol).symm
    rw [hself] at hdisp
    have hty : hdrGetType (mbufResetgetattrib m) = MsgType.code .getfileReq := hmtype
    refine ⟨hmtype, c₂, r', hr', ?_, rfl, rfl⟩
    simpa only [Clt.dispatchSrvmsg, hty, MsgType.ofCode?_code] using hdisp

/-- **Offered files stay private to the addressee**: whenever a GETFILE response
with DATA is queued, it answers a request of the peer an offer was made to,
names that offer, and carries the octets asked for of the file opened for it. -/
theorem offers_stay_private {c t : Clt} {e : CltEvent} {r : Mbuf} {data : Bytes}
    (hc : cltLts.Reachable c) (h : cltLts.step c e t) (hq : t.q = c.q ++ [r])
    (htype : hdrGetType r = MsgType.code .getfileRes)
    (hdata : (MsgAttrib.code .data, data) ∈ attribs r) (hne : data ≠ []) :
    ∃ env m o offset size, e.message c = some (env, m) ∧
      ServedTo env c t m o offset size r data := by
  have hok := cltOk_inductive.invariant c hc
  have hokt := cltOk_inductive.invariant t (hc.step h)
  obtain ⟨hen, hstep⟩ := h
  have hlen : ∀ t' : Clt, t'.q = c.q → t' ≠ t := by
    rintro t' hsame rfl
    rw [hsame] at hq
    exact absurd (congrArg List.length hq) (by simp)
  rcases cltStep_cases hok.rbuf hen hstep with hcase | ⟨r', ht, -⟩ | ht
  · cases hcase with
    | quiet hquiet => exact absurd htype (hquiet.sent r hq).2
    | accept _ hacc ht =>
        rw [ht, List.append_cancel_left_eq] at hq
        have hty := (hacc.send r (hq ▸ List.mem_singleton.mpr rfl)).1
        rw [hty] at htype
        exact absurd htype (by decide)
    | @message env m hmsg hwhole hproc =>
        obtain ⟨hmtype, c', r', hr', hreq, hdisk, hts⟩ := processSrvmsg_serves hwhole.hdr hproc hq htype
        obtain ⟨o, offset, size, hst, hfields, data', hdst, hattr, hread⟩ :=
          processGetfileReq_send hreq
        have hattr' : attribs r =
            [(MsgAttrib.code .offerid, be64 o.oid), (MsgAttrib.code .data, data')] := by
          rw [← hr']
          exact hattr
        have hsame : data = data' := by
          rw [hattr'] at hdata
          simpa [show MsgAttrib.code .data ≠ MsgAttrib.code .offerid by decide] using hdata
        subst hsame
        obtain ⟨hmem, a, m₁, hoid, hm⟩ := requestFields_spec hfields
        obtain ⟨k, o', hread, hc'⟩ := hread.resolve_left hne
        have hcase := hread ▸ offerRead_cases env.toSysEnv c.disk { o with tact := env.now } offset size
        have hon := offerRead_onEntry env.toSysEnv c.disk hread
        cases hcase with
        | @reads content count _ _ f hcontent _ _ _ hcount _ h0 hfd hino =>
            have haddr : o'.addr = o.addr := hon.addr
            have hentry : { o' with offset := offset + UInt64.ofNat (readAt content offset.toNat
                size.toNat count).length } ∈ t.transfers := by
              rw [hts, hc']
              exact mem_putTransfer_self hmem haddr
            obtain ⟨f', hf', hlast⟩ := (hokt.inOrder.entry _ hentry).held h0
            rw [hdisk, hc'] at hf' hlast
            change k.fs.fds o'.fd = some f' at hf'
            rw [hfd, Option.some.injEq] at hf'
            refine ⟨env, m, o, offset, size, hmsg, ⟨hwhole.hdr, hmtype, hst, hfields⟩,
              ⟨hmem, hm.1.symm, hm.2.2.1.symm⟩, ⟨a, m₁, hoid, hm.2.1⟩, ?_, ?_, hattr', ?_, f.ino, ?_, ?_⟩
            · exact fun hinv => (hok.inOrder.entry o hmem).dead hinv hm.2.2.2
            · rw [← hr']
              exact hdst.trans hm.2.2.1
            · rw [readAt, List.length_take]
              omega
            · rw [hdisk, hc', ← haddr, hf']
              exact hlast
            · rw [hino, readAt]
              simp [List.length_take]
  · exact absurd ht.symm (hlen _ rfl)
  · exact absurd ht.symm (hlen _ rfl)

theorem offers_stay_private_two : ∃ c t env m o offset size r,
    ServedTo env c t m o offset size r [2, 3] := by
  have hexec : (Lts.exec cltTry (demoClient false [(ascii "f", [1, 2, 3])])
      (serveRun ++ (delivery (getfileOctets 1 2)).take 1)).any (fun c =>
        ((delivery (getfileOctets 1 2))[1]?.bind fun e => cltTry c e).any fun t =>
          t.q.getLast?.any fun r => t.q == c.q ++ [r] &&
            hdrGetType r == MsgType.code .getfileRes &&
            decide ((MsgAttrib.code .data, [2, 3]) ∈ attribs r)) = true := by
    decide +kernel
  obtain ⟨c, hc, hp⟩ := Lts.reachable_of_exec (fun _ _ _ => cltTry_step)
    (demoClient_init false [(ascii "f", [1, 2, 3])]) hexec
  simp only [Bool.and_eq_true, beq_iff_eq, Option.any_eq_true, decide_eq_true_eq] at hp
  obtain ⟨t, ht, r, -, ⟨hq, htype⟩, hdata⟩ := hp
  obtain ⟨e, -, hstep⟩ := Option.bind_eq_some_iff.mp ht
  obtain ⟨env, m, o, offset, size, -, hserved⟩ :=
    offers_stay_private hc (cltTry_step hstep) hq htype hdata (by decide)
  exact ⟨c, t, env, m, o, offset, size, r, hserved⟩

end Frelay
