import Frelay.Message.Assemble

/-!
# Composed messages

What the two programs send. A reply is the header of a request turned around
(`IsReply`), and an error response is a reply of class ERR
(`isReply_error_type`); a message composed from a list of attributes is the
header followed by their encodings, as long as the payload limit allows
(`compose_eq`).
-/

namespace Frelay

open Lib

/-! ## Replies -/

private theorem and_or_and (a b c : UInt16) : (a ||| b) &&& c = a &&& c ||| b &&& c := by
  apply UInt16.toBitVec_inj.mp
  ext i hi
  simp [Bool.and_or_distrib_right]

/-- A type is its base type and its class. -/
theorem mtype_split (t : UInt16) : mtypeCutClass t ||| mtypeGetClass t = t := by
  have hall : t &&& (0xfff0 ||| 0x000f) = t := by
    have hones : (0xfff0 ||| 0x000f : UInt16) = -1 := by decide
    rw [hones, UInt16.and_neg_one]
  rw [mtypeCutClass, mtypeGetClass, UInt16.and_comm t 0xfff0, UInt16.and_comm t 0x000f,
    ← and_or_and, UInt16.and_comm, hall]

/-- A response has the base type of its request. -/
theorem mtypeCutClass_mclassToRes (t : UInt16) :
    mtypeCutClass (mclassToRes t) = mtypeCutClass t := by
  have hmask : (0x0002 : UInt16) &&& 0xfff0 = 0 := by decide
  rw [mclassToRes, mtypeCutClass, mtypeCutClass, and_or_and, UInt16.and_assoc, UInt16.and_self,
    hmask, UInt16.or_zero]

/-- And so has an error. -/
theorem mtypeCutClass_mclassToErr (t : UInt16) :
    mtypeCutClass (mclassToErr t) = mtypeCutClass t := by
  have hmask : (0x000a : UInt16) &&& 0xfff0 = 0 := by decide
  rw [mclassToErr, mtypeCutClass, mtypeCutClass, and_or_and, UInt16.and_assoc, UInt16.and_self,
    hmask, UInt16.or_zero]

theorem mclassToRes_eq_iff {t u : UInt16} (hu : mclassIsRes u = true) :
    mclassToRes t = u ↔ mtypeCutClass t = mtypeCutClass u := by
  constructor
  · intro h
    rw [← h, mtypeCutClass_mclassToRes]
  · intro h
    have hcls : mtypeGetClass u = 0x0002 := (beq_iff_eq.mp hu).symm
    rw [mclassToRes, h, ← hcls, mtype_split]

theorem mclassToErr_mclassToRes (t : UInt16) : mclassToErr (mclassToRes t) = mclassToErr t := by
  rw [mclassToErr, mtypeCutClass_mclassToRes, mclassToErr]

/-- The class of an error. -/
theorem mtypeGetClass_mclassToErr (t : UInt16) : mtypeGetClass (mclassToErr t) = MCLASS_ERR := by
  have hmask : (0xfff0 : UInt16) &&& 0x000f = 0 := by decide
  rw [mtypeGetClass, mclassToErr, mtypeCutClass, and_or_and, UInt16.and_assoc, hmask,
    UInt16.and_zero, UInt16.zero_or]
  decide

/-- An error is neither a request nor a response. -/
theorem mclassToErr_ne (t : UInt16) :
    mclassIsReq (mclassToErr t) = false ∧ mclassIsRes (mclassToErr t) = false := by
  rw [mclassIsReq, mclassIsRes, mtypeGetClass_mclassToErr]
  decide

theorem mclassIsErr_mclassToErr (t : UInt16) : mclassIsErr (mclassToErr t) = true := by
  rw [mclassIsErr, mtypeGetClass_mclassToErr]
  rfl

/-- The class of a response. -/
theorem mtypeGetClass_mclassToRes (t : UInt16) : mtypeGetClass (mclassToRes t) = MCLASS_RES := by
  have hmask : (0xfff0 : UInt16) &&& 0x000f = 0 := by decide
  rw [mtypeGetClass, mclassToRes, mtypeCutClass, and_or_and, UInt16.and_assoc, hmask,
    UInt16.and_zero, UInt16.zero_or]
  decide

/-- A response is no error. -/
theorem mclassIsErr_mclassToRes (t : UInt16) : mclassIsErr (mclassToRes t) = false := by
  rw [mclassIsErr, mtypeGetClass_mclassToRes]
  decide

/-- A request is told by the response it gets. -/
theorem req_of_res {t u : UInt16} (ht : mclassIsReq t = true) (h : mclassToRes t = u) :
    t = mtypeCutClass u ||| 0x0001 := by
  have hcls : mtypeGetClass t = 0x0001 := (beq_iff_eq.mp ht).symm
  rw [← h, mtypeCutClass_mclassToRes, ← hcls, mtype_split]

/-- `r` answers `m`: a complete message with the ids of `m` swapped, its
transaction id, and its type turned into a response or an error. -/
structure IsReply (m r : Mbuf) : Prop where
  hdr : 40 ≤ r.bsize
  off : r.boff ≤ r.bsize
  framed : r.bsize = 40 + hdrGetPaylen r
  max : r.bsize ≤ MSG_MAX_SIZE
  type : hdrGetType r = mclassToRes (hdrGetType m) ∨ hdrGetType r = mclassToErr (hdrGetType m)
  srcid : hdrGetSrcid r = hdrGetDstid m
  dstid : hdrGetDstid r = hdrGetSrcid m
  trfid : hdrGetTrfid r = hdrGetTrfid m

theorem IsReply.whole {m r : Mbuf} (h : IsReply m r) : Whole r.b :=
  whole_iff.mpr ⟨h.framed, h.max⟩

theorem isReply_response {ts : UInt64} {m r : Mbuf} (hm : 40 ≤ m.bsize)
    (h : mbufToResponse ts m = some r) : IsReply m r := by
  obtain ⟨hd, body, boff, rfl⟩ := exists_msg hm
  rw [mbufToResponse_eq] at h
  cases h
  constructor <;> simp [MSG_MAX_SIZE, MSG_HDR_SIZE, MSG_MAX_PAY_SIZE]

/-- Adding an attribute changes the payload and its length only. -/
theorem addattrib_hdr {m r : Mbuf} {t : MsgAttrib} {arg : AttrArg} (hm : 40 ≤ m.bsize)
    (hoff : m.boff ≤ m.bsize) (hty : arg.avtype = t.avtype) (h : addattrib m t arg = some r) :
    40 ≤ r.bsize ∧ r.boff ≤ r.bsize ∧ r.bsize = 40 + hdrGetPaylen r ∧ r.bsize ≤ MSG_MAX_SIZE ∧
      hdrGetType r = hdrGetType m ∧ hdrGetSrcid r = hdrGetSrcid m ∧
      hdrGetDstid r = hdrGetDstid m ∧ hdrGetTrfid r = hdrGetTrfid m := by
  obtain ⟨hd, body, boff, rfl⟩ := exists_msg hm
  rw [mkMsg_boff, bsize_mkMsg] at hoff
  rw [addattrib_eq _ _ _ _ _ hty hoff] at h
  split at h
  · rename_i hsz
    cases h
    have hpay : (UInt16.ofNat (body.length + (tlv t arg.octets).length)).toNat =
        body.length + (tlv t arg.octets).length := by
      unfold MSG_MAX_PAY_SIZE at hsz
      rw [UInt16.toNat_ofNat', Nat.mod_eq_of_lt (by omega)]
    simp only [bsize_mkMsg, mkMsg_boff, hdrGetPaylen_mkMsg, hdrGetType_mkMsg, hdrGetSrcid_mkMsg,
      hdrGetDstid_mkMsg, hdrGetTrfid_mkMsg, List.length_append, hpay]
    unfold MSG_MAX_SIZE MSG_HDR_SIZE
    exact ⟨by omega, by omega, trivial, by omega, trivial, trivial, trivial, trivial⟩
  · cases h

theorem IsReply.addattrib {m r r' : Mbuf} {t : MsgAttrib} {arg : AttrArg} (h : IsReply m r)
    (hty : arg.avtype = t.avtype) (hadd : addattrib r t arg = some r') : IsReply m r' := by
  obtain ⟨hhdr, hoff, hframed, hmax, htype, hsrc, hdst, htrf⟩ :=
    addattrib_hdr h.hdr h.off hty hadd
  refine ⟨hhdr, hoff, hframed, hmax, ?_, hsrc.trans h.srcid, hdst.trans h.dstid,
    htrf.trans h.trfid⟩
  rw [htype]
  exact h.type

/-- `mbuf_to_error_response` is a reply of class ERR. -/
theorem isReply_error_type {ts : UInt64} {m r : Mbuf} {ec : ScEnum} (hm : 40 ≤ m.bsize)
    (h : mbufToErrorResponse ts m ec = some r) :
    IsReply m r ∧ hdrGetType r = mclassToErr (hdrGetType m) := by
  obtain ⟨hd, body, boff, rfl⟩ := exists_msg hm
  unfold mbufToErrorResponse at h
  rw [mbufToResponse_eq] at h
  simp only [Option.bind_eq_bind, Option.bind_some, hdrGetType_mkMsg, hdrSetType_mkMsg,
    mclassToErr_mclassToRes] at h
  obtain ⟨r', hr', h⟩ := Option.bind_eq_some_iff.mp h
  have hbase : IsReply (mkMsg hd body boff)
      (mkMsg ⟨mclassToErr hd.type, 0, 0, ts, hd.dstid, hd.srcid, hd.trfid⟩ [] 0) := by
    constructor <;> simp [MSG_MAX_SIZE, MSG_HDR_SIZE, MSG_MAX_PAY_SIZE]
  have hmid := hbase.addattrib rfl hr'
  refine ⟨hmid.addattrib rfl h, ?_⟩
  have hty := (addattrib_hdr hbase.hdr hbase.off rfl hr').2.2.2.2.1
  have hty' := (addattrib_hdr hmid.hdr hmid.off rfl h).2.2.2.2.1
  rw [hty', hty, hdrGetType_mkMsg, hdrGetType_mkMsg]

theorem isReply_error {ts : UInt64} {m r : Mbuf} {ec : ScEnum} (hm : 40 ≤ m.bsize)
    (h : mbufToErrorResponse ts m ec = some r) : IsReply m r :=
  (isReply_error_type hm h).1

/-- An error response always fits into a message. -/
theorem mbufToErrorResponse_isSome {ts : UInt64} {m : Mbuf} {ec : ScEnum} (hm : 40 ≤ m.bsize) :
    (mbufToErrorResponse ts m ec).isSome = true := by
  obtain ⟨hd, body, boff, rfl⟩ := exists_msg hm
  have hshort : (scMsgstr ec).length ≤ 31 := (scMsgstr_short ec).2
  have hround : roundup8 ((scMsgstr ec).length + 1) ≤ 32 := roundup8_mono (n := 32) (by omega)
  unfold mbufToErrorResponse
  rw [mbufToResponse_eq]
  simp only [Option.bind_eq_bind, Option.bind_some, hdrGetType_mkMsg, hdrSetType_mkMsg]
  rw [addattrib_eq _ _ _ _ _ rfl (by simp), if_pos (by simp [AttrArg.octets, roundup8,
    MSG_MAX_PAY_SIZE]), Option.bind_some, addattrib_eq _ _ _ _ _ rfl (by simp), if_pos]
  · rfl
  · have h8 : roundup8 8 = 8 := by decide
    simp only [List.nil_append, length_tlv, AttrArg.octets, length_be64, List.length_append,
      List.length_singleton, MSG_MAX_PAY_SIZE, h8]
    omega

/-! ## Messages with attributes -/

/-- `mbuf_compose` and an `mbuf_addattrib` for each of the attributes. -/
def compose (ts : UInt64) (type : MsgType) (dstid trfid : UInt64)
    (attribs : List (MsgAttrib × AttrArg)) : Option Mbuf :=
  attribs.foldlM (fun m a => addattrib m a.1 a.2) (mbufCompose ts type 0 dstid trfid)

/-- The encodings of the attributes, one after the other. -/
def tlvs (attribs : List (MsgAttrib × AttrArg)) : Bytes :=
  attribs.flatMap fun a => tlv a.1 a.2.octets

@[simp] theorem tlvs_nil : tlvs [] = [] := rfl

@[simp] theorem tlvs_cons (a : MsgAttrib × AttrArg) (l : List (MsgAttrib × AttrArg)) :
    tlvs (a :: l) = tlv a.1 a.2.octets ++ tlvs l := rfl

theorem foldlM_addattrib (h : Hdr) (body : Bytes) (l : List (MsgAttrib × AttrArg))
    (hty : ∀ a ∈ l, a.2.avtype = a.1.avtype) (hpay : h.paylen = UInt16.ofNat body.length)
    (hbody : body.length ≤ MSG_MAX_PAY_SIZE) :
    l.foldlM (fun m a => addattrib m a.1 a.2) (mkMsg h body 0) =
      if (body ++ tlvs l).length ≤ MSG_MAX_PAY_SIZE then
        some (mkMsg { h with paylen := UInt16.ofNat (body ++ tlvs l).length } (body ++ tlvs l) 0)
      else none := by
  induction l generalizing h body with
  | nil =>
      rw [tlvs_nil, List.append_nil, if_pos hbody, ← hpay]
      rfl
  | cons a l ih =>
      rw [List.foldlM_cons, addattrib_eq _ _ _ _ _ (hty a List.mem_cons_self) (by omega)]
      have hassoc : body ++ tlvs (a :: l) = (body ++ tlv a.1 a.2.octets) ++ tlvs l := by
        rw [tlvs_cons, List.append_assoc]
      by_cases hsz : body.length + (tlv a.1 a.2.octets).length ≤ MSG_MAX_PAY_SIZE
      · rw [if_pos hsz, hassoc]
        have hlen : (body ++ tlv a.1 a.2.octets).length =
            body.length + (tlv a.1 a.2.octets).length := List.length_append
        refine ih _ _ (fun b hb => hty b (List.mem_cons_of_mem _ hb)) ?_ (hlen ▸ hsz)
        rw [hlen]
      · rw [if_neg hsz, if_neg]
        · rfl
        · rw [hassoc, List.length_append, List.length_append]
          omega

/-- A composed message is the header followed by the attributes. -/
theorem compose_eq (ts : UInt64) (type : MsgType) (dstid trfid : UInt64)
    {l : List (MsgAttrib × AttrArg)} (hty : ∀ a ∈ l, a.2.avtype = a.1.avtype) :
    compose ts type dstid trfid l =
      if (tlvs l).length ≤ MSG_MAX_PAY_SIZE then
        some (mkMsg ⟨type.code, UInt16.ofNat (tlvs l).length, 0, ts, 0, dstid, trfid⟩ (tlvs l) 0)
      else none := by
  rw [compose, mbufCompose_eq, foldlM_addattrib _ _ _ hty rfl (by decide)]
  rfl

theorem compose_eq_some {ts : UInt64} {type : MsgType} {dstid trfid : UInt64}
    {l : List (MsgAttrib × AttrArg)} {r : Mbuf} (hty : ∀ a ∈ l, a.2.avtype = a.1.avtype)
    (h : compose ts type dstid trfid l = some r) :
    (tlvs l).length ≤ MSG_MAX_PAY_SIZE ∧
      r = mkMsg ⟨type.code, UInt16.ofNat (tlvs l).length, 0, ts, 0, dstid, trfid⟩ (tlvs l) 0 := by
  rw [compose_eq _ _ _ _ hty] at h
  split at h
  · rename_i hsz
    cases h
    exact ⟨hsz, rfl⟩
  · cases h

/-- A composed message is complete. -/
theorem whole_compose {ts : UInt64} {type : MsgType} {dstid trfid : UInt64}
    {l : List (MsgAttrib × AttrArg)} {r : Mbuf} (hty : ∀ a ∈ l, a.2.avtype = a.1.avtype)
    (h : compose ts type dstid trfid l = some r) : Whole r.b := by
  obtain ⟨hsz, rfl⟩ := compose_eq_some hty h
  have hlen : (UInt16.ofNat (tlvs l).length).toNat = (tlvs l).length := by
    unfold MSG_MAX_PAY_SIZE at hsz
    rw [UInt16.toNat_ofNat', Nat.mod_eq_of_lt (by omega)]
  rw [whole_iff, bsize_mkMsg, hdrGetPaylen_mkMsg, hlen]
  unfold MSG_MAX_SIZE MSG_HDR_SIZE
  exact ⟨rfl, by omega⟩

theorem hdrGetType_compose {ts : UInt64} {type : MsgType} {dstid trfid : UInt64}
    {l : List (MsgAttrib × AttrArg)} {r : Mbuf} (hty : ∀ a ∈ l, a.2.avtype = a.1.avtype)
    (h : compose ts type dstid trfid l = some r) : hdrGetType r = type.code := by
  rw [(compose_eq_some hty h).2, hdrGetType_mkMsg]

/-- Decoding a composed message gives back its attributes. -/
theorem attribs_tlvs (h : Hdr) (l : List (MsgAttrib × AttrArg)) (boff : Nat)
    (hl : ∀ a ∈ l, a.2.octets.length < 65536) :
    attribs (mkMsg h (tlvs l) boff) = l.map fun a => (a.1.code, a.2.octets) := by
  have hfrom : ∀ (l : List (MsgAttrib × AttrArg)) (pre : Bytes) (n : Nat), l.length < n →
      (∀ a ∈ l, a.2.octets.length < 65536) →
      attribsFrom n (mkMsg h (pre ++ tlvs l) (40 + pre.length)) =
        l.map fun a => (a.1.code, a.2.octets) := by
    intro l
    induction l with
    | nil =>
        intro pre n hn _
        cases n with
        | zero => exact absurd hn (Nat.lt_irrefl 0)
        | succ n =>
            rw [tlvs_nil, List.append_nil, attribsFrom, mbufGetnextattrib_end]
            rfl
    | cons a l ih =>
        intro pre n hn hl
        cases n with
        | zero => exact absurd hn (Nat.not_lt_zero _)
        | succ n =>
            have hnext := mbufGetnextattrib_tlv h pre (tlvs l) a.1 a.2.octets
              (hl a List.mem_cons_self)
            have hrest := ih (pre ++ tlv a.1 a.2.octets) n (Nat.lt_of_succ_lt_succ hn)
              fun b hb => hl b (List.mem_cons_of_mem _ hb)
            rw [List.append_assoc, List.length_append, ← Nat.add_assoc] at hrest
            rw [tlvs_cons, attribsFrom, hnext]
            simp only [blobAt, peek_tlv, List.map_cons, hrest]
  have hlen : ∀ l : List (MsgAttrib × AttrArg), l.length ≤ (tlvs l).length := by
    intro l
    induction l with
    | nil => exact Nat.zero_le _
    | cons a l ih =>
        rw [tlvs_cons, List.length_append, length_tlv, List.length_cons]
        omega
  refine hfrom l [] _ ?_ hl
  rw [bsize_mkMsg]
  have := hlen l
  omega

/-- A composed message as it arrives, with the sender filled in. -/
theorem compose_received {ts : UInt64} {type : MsgType} {dstid trfid : UInt64}
    {l : List (MsgAttrib × AttrArg)} {r : Mbuf} (hty : ∀ a ∈ l, a.2.avtype = a.1.avtype)
    (hl : ∀ a ∈ l, a.2.octets.length < 65536) (h : compose ts type dstid trfid l = some r)
    (srcid : UInt64) :
    attribs (hdrSetSrcid r srcid) = l.map (fun a => (a.1.code, a.2.octets)) ∧
      hdrGetType (hdrSetSrcid r srcid) = type.code ∧ hdrGetSrcid (hdrSetSrcid r srcid) = srcid ∧
      hdrGetTrfid (hdrSetSrcid r srcid) = trfid ∧ 40 ≤ (hdrSetSrcid r srcid).bsize := by
  obtain ⟨-, rfl⟩ := compose_eq_some hty h
  rw [hdrSetSrcid_mkMsg]
  exact ⟨attribs_tlvs _ l 0 hl, hdrGetType_mkMsg _ _ _, hdrGetSrcid_mkMsg _ _ _,
    hdrGetTrfid_mkMsg _ _ _, by rw [bsize_mkMsg]; omega⟩

end Frelay
