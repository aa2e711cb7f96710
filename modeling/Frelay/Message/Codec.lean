import Frelay.Message.Mbuf

/-!
# The wire format

The canonical form of a message, a header record followed by TLV-encoded
attributes, and one equation for every function of `message.c` on buffers of
that form. Proofs about the two programs use these equations and never unfold
the byte-level definitions.
-/

namespace Frelay

open Lib

/-! ## Headers -/

/-- The fields of a message header. -/
structure Hdr where
  type : UInt16
  paylen : UInt16
  rfu : UInt32
  ts : UInt64
  srcid : UInt64
  dstid : UInt64
  trfid : UInt64

/-- The 40 octets of a header. -/
def Hdr.bytes (h : Hdr) : Bytes :=
  be16 h.type ++ (be16 h.paylen ++ (be32 h.rfu ++ (be64 h.ts ++
    (be64 h.srcid ++ (be64 h.dstid ++ be64 h.trfid)))))

@[simp] theorem Hdr.length_bytes (h : Hdr) : h.bytes.length = 40 := by
  simp [Hdr.bytes]

/-- The message with a given header and payload. -/
def mkMsg (h : Hdr) (body : Bytes) (boff : Nat) : Mbuf := { b := h.bytes ++ body, boff := boff }

@[simp] theorem mkMsg_boff (h : Hdr) (body : Bytes) (boff : Nat) :
    (mkMsg h body boff).boff = boff := rfl

@[simp] theorem bsize_mkMsg (h : Hdr) (body : Bytes) (boff : Nat) :
    (mkMsg h body boff).bsize = 40 + body.length := by
  simp [mkMsg, Mbuf.bsize]

/-- Reading the field `f` between what comes before and after it. -/
theorem peek_field {a f z : Bytes} {off n : Nat} (ha : a.length = off) (hf : f.length = n) :
    peek (a ++ (f ++ z)) off n = f := by
  subst ha hf
  simp [peek]

/-- Overwriting the field `f` between what comes before and after it. -/
theorem poke_field {a f g z : Bytes} {off : Nat} (ha : a.length = off)
    (hg : g.length = f.length) : poke (a ++ (f ++ z)) off g = a ++ (g ++ z) := by
  subst ha
  simp [poke, hg, List.drop_append]

/-! The octets of a header before and after each of its fields. -/

private def upto2 (h : Hdr) : Bytes := be16 h.type
private def upto4 (h : Hdr) : Bytes := upto2 h ++ be16 h.paylen
private def upto8 (h : Hdr) : Bytes := upto4 h ++ be32 h.rfu
private def upto16 (h : Hdr) : Bytes := upto8 h ++ be64 h.ts
private def upto24 (h : Hdr) : Bytes := upto16 h ++ be64 h.srcid
private def upto32 (h : Hdr) : Bytes := upto24 h ++ be64 h.dstid
private def from32 (h : Hdr) (body : Bytes) : Bytes := be64 h.trfid ++ body
private def from24 (h : Hdr) (body : Bytes) : Bytes := be64 h.dstid ++ from32 h body
private def from16 (h : Hdr) (body : Bytes) : Bytes := be64 h.srcid ++ from24 h body
private def from8 (h : Hdr) (body : Bytes) : Bytes := be64 h.ts ++ from16 h body
private def from4 (h : Hdr) (body : Bytes) : Bytes := be32 h.rfu ++ from8 h body
private def from2 (h : Hdr) (body : Bytes) : Bytes := be16 h.paylen ++ from4 h body

private theorem split0 (h : Hdr) (body : Bytes) :
    h.bytes ++ body = [] ++ (be16 h.type ++ from2 h body) := by
  simp [Hdr.bytes, from2, from4, from8, from16, from24, from32]

private theorem split2 (h : Hdr) (body : Bytes) :
    h.bytes ++ body = upto2 h ++ (be16 h.paylen ++ from4 h body) := by
  simp [Hdr.bytes, upto2, from4, from8, from16, from24, from32]

private theorem split4 (h : Hdr) (body : Bytes) :
    h.bytes ++ body = upto4 h ++ (be32 h.rfu ++ from8 h body) := by
  simp [Hdr.bytes, upto2, upto4, from8, from16, from24, from32]

private theorem split8 (h : Hdr) (body : Bytes) :
    h.bytes ++ body = upto8 h ++ (be64 h.ts ++ from16 h body) := by
  simp [Hdr.bytes, upto2, upto4, upto8, from16, from24, from32]

private theorem split16 (h : Hdr) (body : Bytes) :
    h.bytes ++ body = upto16 h ++ (be64 h.srcid ++ from24 h body) := by
  simp [Hdr.bytes, upto2, upto4, upto8, upto16, from24, from32]

private theorem split24 (h : Hdr) (body : Bytes) :
    h.bytes ++ body = upto24 h ++ (be64 h.dstid ++ from32 h body) := by
  simp [Hdr.bytes, upto2, upto4, upto8, upto16, upto24, from32]

private theorem split32 (h : Hdr) (body : Bytes) :
    h.bytes ++ body = upto32 h ++ (be64 h.trfid ++ body) := by
  simp [Hdr.bytes, upto2, upto4, upto8, upto16, upto24, upto32]

private theorem length_upto (h : Hdr) :
    (upto2 h).length = 2 ∧ (upto4 h).length = 4 ∧ (upto8 h).length = 8 ∧
      (upto16 h).length = 16 ∧ (upto24 h).length = 24 ∧ (upto32 h).length = 32 := by
  simp [upto2, upto4, upto8, upto16, upto24, upto32]

section Fields

variable (h : Hdr) (body : Bytes) (boff : Nat)

@[simp] theorem hdrGetType_mkMsg : hdrGetType (mkMsg h body boff) = h.type := by
  have hf : peek (h.bytes ++ body) HDR_OFF_TYPE 2 = be16 h.type := by
    rw [split0]
    exact peek_field rfl (length_be16 _)
  rw [hdrGetType, mkMsg, hf, rd16_be16]

@[simp] theorem hdrGetPaylen_mkMsg : hdrGetPaylen (mkMsg h body boff) = h.paylen.toNat := by
  have hf : peek (h.bytes ++ body) HDR_OFF_PAYLEN 2 = be16 h.paylen := by
    rw [split2]
    exact peek_field (length_upto h).1 (length_be16 _)
  rw [hdrGetPaylen, mkMsg, hf, rd16_be16]

@[simp] theorem hdrGetRfu_mkMsg : hdrGetRfu (mkMsg h body boff) = h.rfu := by
  have hf : peek (h.bytes ++ body) HDR_OFF_RFU 4 = be32 h.rfu := by
    rw [split4]
    exact peek_field (length_upto h).2.1 (length_be32 _)
  rw [hdrGetRfu, mkMsg, hf, rd32_be32]

@[simp] theorem hdrGetTs_mkMsg : hdrGetTs (mkMsg h body boff) = h.ts := by
  have hf : peek (h.bytes ++ body) HDR_OFF_TS 8 = be64 h.ts := by
    rw [split8]
    exact peek_field (length_upto h).2.2.1 (length_be64 _)
  rw [hdrGetTs, mkMsg, hf, rd64_be64]

@[simp] theorem hdrGetSrcid_mkMsg : hdrGetSrcid (mkMsg h body boff) = h.srcid := by
  have hf : peek (h.bytes ++ body) HDR_OFF_SRCID 8 = be64 h.srcid := by
    rw [split16]
    exact peek_field (length_upto h).2.2.2.1 (length_be64 _)
  rw [hdrGetSrcid, mkMsg, hf, rd64_be64]

@[simp] theorem hdrGetDstid_mkMsg : hdrGetDstid (mkMsg h body boff) = h.dstid := by
  have hf : peek (h.bytes ++ body) HDR_OFF_DSTID 8 = be64 h.dstid := by
    rw [split24]
    exact peek_field (length_upto h).2.2.2.2.1 (length_be64 _)
  rw [hdrGetDstid, mkMsg, hf, rd64_be64]

@[simp] theorem hdrGetTrfid_mkMsg : hdrGetTrfid (mkMsg h body boff) = h.trfid := by
  have hf : peek (h.bytes ++ body) HDR_OFF_TRFID 8 = be64 h.trfid := by
    rw [split32]
    exact peek_field (length_upto h).2.2.2.2.2 (length_be64 _)
  rw [hdrGetTrfid, mkMsg, hf, rd64_be64]

@[simp] theorem hdrSetType_mkMsg (v : UInt16) :
    hdrSetType (mkMsg h body boff) v = mkMsg { h with type := v } body boff := by
  have hf : poke (h.bytes ++ body) HDR_OFF_TYPE (be16 v) =
      ({ h with type := v } : Hdr).bytes ++ body := by
    rw [split0 h, split0 { h with type := v }]
    exact poke_field rfl (by rw [length_be16, length_be16])
  rw [hdrSetType, mkMsg, hf]
  rfl

@[simp] theorem hdrSetPaylen_mkMsg (v : Nat) :
    hdrSetPaylen (mkMsg h body boff) v = mkMsg { h with paylen := UInt16.ofNat v } body boff := by
  have hf : poke (h.bytes ++ body) HDR_OFF_PAYLEN (be16 (UInt16.ofNat v)) =
      ({ h with paylen := UInt16.ofNat v } : Hdr).bytes ++ body := by
    rw [split2 h, split2 { h with paylen := UInt16.ofNat v }]
    exact poke_field (length_upto h).1 (by rw [length_be16, length_be16])
  rw [hdrSetPaylen, mkMsg, hf]
  rfl

@[simp] theorem hdrSetRfu_mkMsg (v : UInt32) :
    hdrSetRfu (mkMsg h body boff) v = mkMsg { h with rfu := v } body boff := by
  have hf : poke (h.bytes ++ body) HDR_OFF_RFU (be32 v) =
      ({ h with rfu := v } : Hdr).bytes ++ body := by
    rw [split4 h, split4 { h with rfu := v }]
    exact poke_field (length_upto h).2.1 (by rw [length_be32, length_be32])
  rw [hdrSetRfu, mkMsg, hf]
  rfl

@[simp] theorem hdrSetTs_mkMsg (v : UInt64) :
    hdrSetTs (mkMsg h body boff) v = mkMsg { h with ts := v } body boff := by
  have hf : poke (h.bytes ++ body) HDR_OFF_TS (be64 v) =
      ({ h with ts := v } : Hdr).bytes ++ body := by
    rw [split8 h, split8 { h with ts := v }]
    exact poke_field (length_upto h).2.2.1 (by rw [length_be64, length_be64])
  rw [hdrSetTs, mkMsg, hf]
  rfl

@[simp] theorem hdrSetSrcid_mkMsg (v : UInt64) :
    hdrSetSrcid (mkMsg h body boff) v = mkMsg { h with srcid := v } body boff := by
  have hf : poke (h.bytes ++ body) HDR_OFF_SRCID (be64 v) =
      ({ h with srcid := v } : Hdr).bytes ++ body := by
    rw [split16 h, split16 { h with srcid := v }]
    exact poke_field (length_upto h).2.2.2.1 (by rw [length_be64, length_be64])
  rw [hdrSetSrcid, mkMsg, hf]
  rfl

@[simp] theorem hdrSetDstid_mkMsg (v : UInt64) :
    hdrSetDstid (mkMsg h body boff) v = mkMsg { h with dstid := v } body boff := by
  have hf : poke (h.bytes ++ body) HDR_OFF_DSTID (be64 v) =
      ({ h with dstid := v } : Hdr).bytes ++ body := by
    rw [split24 h, split24 { h with dstid := v }]
    exact poke_field (length_upto h).2.2.2.2.1 (by rw [length_be64, length_be64])
  rw [hdrSetDstid, mkMsg, hf]
  rfl

@[simp] theorem hdrSetTrfid_mkMsg (v : UInt64) :
    hdrSetTrfid (mkMsg h body boff) v = mkMsg { h with trfid := v } body boff := by
  have hf : poke (h.bytes ++ body) HDR_OFF_TRFID (be64 v) =
      ({ h with trfid := v } : Hdr).bytes ++ body := by
    rw [split32 h, split32 { h with trfid := v }]
    exact poke_field (length_upto h).2.2.2.2.2 (by rw [length_be64, length_be64])
  rw [hdrSetTrfid, mkMsg, hf]
  rfl

end Fields

/-- Every 40 octets are a header. -/
theorem exists_hdr {b : Bytes} (h : b.length = 40) : ∃ hd : Hdr, hd.bytes = b := by
  have w16 : ∀ {l : Bytes}, l.length = 2 → be16 (rd16 l) = l := by
    intro l hl
    have hlt : beNat l < 2 ^ 16 := by
      have := beNat_lt l
      rw [hl] at this
      simpa using this
    rw [be16, rd16, UInt16.toNat_ofNat', Nat.mod_eq_of_lt hlt, ← hl, beBytes_beNat]
  have w32 : ∀ {l : Bytes}, l.length = 4 → be32 (UInt32.ofNat (beNat l)) = l := by
    intro l hl
    have hlt : beNat l < 2 ^ 32 := by
      have := beNat_lt l
      rw [hl] at this
      simpa using this
    rw [be32, UInt32.toNat_ofNat', Nat.mod_eq_of_lt hlt, ← hl, beBytes_beNat]
  refine ⟨⟨rd16 (peek b 0 2), rd16 (peek b 2 2), UInt32.ofNat (beNat (peek b 4 4)),
    rd64 (peek b 8 8), rd64 (peek b 16 8), rd64 (peek b 24 8), rd64 (peek b 32 8)⟩, ?_⟩
  simp only [Hdr.bytes]
  rw [w16 (length_peek (by omega)), w16 (length_peek (by omega)), w32 (length_peek (by omega)),
    be64_rd64 (length_peek (by omega)), be64_rd64 (length_peek (by omega)),
    be64_rd64 (length_peek (by omega)), be64_rd64 (length_peek (by omega))]
  have join : ∀ (o n k : Nat), peek b o n ++ peek b (o + n) k = peek b o (n + k) := by
    intro o n k
    rw [peek, peek, peek, List.take_add, List.drop_drop]
  rw [join 24 8 8, join 16 8 16, join 8 8 24, join 4 4 32, join 2 2 36, join 0 2 38]
  simp [peek, h]

/-- Every buffer that holds a header is in canonical form. -/
theorem exists_mkMsg {m : Mbuf} (h : 40 ≤ m.bsize) :
    ∃ hd : Hdr, m = mkMsg hd (m.b.drop 40) m.boff := by
  obtain ⟨hd, hhd⟩ := exists_hdr (b := m.b.take 40) (by
    rw [List.length_take]
    exact Nat.min_eq_left h)
  refine ⟨hd, ?_⟩
  rw [mkMsg, hhd, List.take_append_drop]

theorem exists_msg {m : Mbuf} (h : 40 ≤ m.bsize) :
    ∃ (hd : Hdr) (body : Bytes) (boff : Nat), m = mkMsg hd body boff := by
  obtain ⟨hd, hm⟩ := exists_mkMsg h
  exact ⟨hd, _, _, hm⟩

/-! ## Attributes -/

/-- One TLV-encoded attribute, padded to a multiple of 8 octets. -/
def tlv (t : MsgAttrib) (v : Bytes) : Bytes :=
  be16 t.code ++ (be16 (UInt16.ofNat v.length) ++ (be32 0 ++
    (v ++ List.replicate (roundup8 v.length - v.length) 0)))

theorem roundup8_lt (n : Nat) : roundup8 n < n + 8 := by unfold roundup8; omega

theorem roundup8_mono {m n : Nat} (h : m ≤ n) : roundup8 m ≤ roundup8 n := by
  unfold roundup8
  omega

@[simp] theorem length_tlv (t : MsgAttrib) (v : Bytes) :
    (tlv t v).length = 8 + roundup8 v.length := by
  have := le_roundup8 v.length
  simp [tlv]
  omega

/-- `mbuf_resize` to the empty payload keeps the header. -/
theorem mbufResize_zero (h : Hdr) (body : Bytes) (boff : Nat) :
    mbufResize (mkMsg h body boff) 0 = some (mkMsg h [] (min boff 40)) := by
  simp [mbufResize, mkMsg, MSG_MAX_SIZE, MSG_HDR_SIZE, MSG_MAX_PAY_SIZE, Mbuf.bsize]

/-- `mbuf_compose` is the bare header. -/
theorem mbufCompose_eq (ts : UInt64) (type : MsgType) (srcid dstid trfid : UInt64) :
    mbufCompose ts type srcid dstid trfid =
      mkMsg ⟨type.code, 0, 0, ts, srcid, dstid, trfid⟩ [] 0 := by
  have hnew : mbufNew = mkMsg ⟨0, 0, 0, 0, 0, 0, 0⟩ [] 0 := by
    unfold mbufNew mkMsg
    congr 1
  simp only [mbufCompose, hnew, hdrSetType_mkMsg, hdrSetPaylen_mkMsg, hdrSetRfu_mkMsg,
    hdrSetTs_mkMsg, hdrSetSrcid_mkMsg, hdrSetDstid_mkMsg, hdrSetTrfid_mkMsg]
  rfl

/-- `mbuf_to_response` turns the header around. -/
theorem mbufToResponse_eq (ts : UInt64) (h : Hdr) (body : Bytes) (boff : Nat) :
    mbufToResponse ts (mkMsg h body boff) =
      some (mkMsg ⟨mclassToRes h.type, 0, 0, ts, h.dstid, h.srcid, h.trfid⟩ [] 0) := by
  have hoff : ({ mkMsg h [] (min boff 40) with boff := 0 } : Mbuf) = mkMsg h [] 0 := rfl
  simp only [mbufToResponse, mbufResize_zero, Option.map_some, hoff, hdrGetType_mkMsg,
    hdrSetType_mkMsg, hdrSetPaylen_mkMsg, hdrSetRfu_mkMsg, hdrSetTs_mkMsg, hdrGetSrcid_mkMsg,
    hdrGetDstid_mkMsg, hdrSetSrcid_mkMsg, hdrSetDstid_mkMsg]
  rfl

theorem mbufGrow_mkMsg (h : Hdr) (body : Bytes) (boff amount : Nat)
    (hsz : body.length + amount ≤ MSG_MAX_PAY_SIZE) (hoff : boff ≤ 40 + body.length) :
    mbufGrow (mkMsg h body boff) amount =
      some (mkMsg h (body ++ List.replicate amount 0) boff) := by
  have hpay : (mkMsg h body boff).bsize - MSG_HDR_SIZE + amount = body.length + amount := by
    simp [MSG_HDR_SIZE]
  have hres : mbufResize (mkMsg h body boff) (body.length + amount) =
      some (mkMsg h (body ++ List.replicate amount 0) boff) := by
    have htake : (mkMsg h body boff).b.take (body.length + amount + 40) = h.bytes ++ body :=
      List.take_of_length_le (by simp [mkMsg]; omega)
    have hmin : min (mkMsg h body boff).boff (body.length + amount + 40) = boff := by
      rw [mkMsg_boff]
      omega
    have hadd : body.length + amount + 40 - (mkMsg h body boff).bsize = amount := by
      rw [bsize_mkMsg]
      omega
    rw [mbufResize, if_neg (by simp only [MSG_MAX_SIZE, MSG_HDR_SIZE]; omega)]
    simp only [MSG_HDR_SIZE, htake, hmin, hadd, List.append_assoc]
    rfl
  have hoff' : (mkMsg h (body ++ List.replicate amount 0) boff).bsize - amount =
      (h.bytes ++ body).length := by
    rw [bsize_mkMsg]
    simp
    omega
  have hclear : poke (mkMsg h (body ++ List.replicate amount 0) boff).b (h.bytes ++ body).length
      (List.replicate amount 0) = h.bytes ++ (body ++ List.replicate amount 0) := by
    have := poke_field (z := []) (f := List.replicate amount (0 : UInt8))
      (g := List.replicate amount 0) (a := h.bytes ++ body) rfl rfl
    simpa [mkMsg] using this
  rw [mbufGrow, hpay, hres, Option.map_some, hoff', hclear]
  rfl

theorem mbufGrow_eq_none (h : Hdr) (body : Bytes) (boff amount : Nat)
    (hsz : MSG_MAX_PAY_SIZE < body.length + amount) :
    mbufGrow (mkMsg h body boff) amount = none := by
  have hpay : (mkMsg h body boff).bsize - MSG_HDR_SIZE + amount = body.length + amount := by
    simp [MSG_HDR_SIZE]
  rw [mbufGrow, hpay, mbufResize, if_pos (by simp only [MSG_MAX_SIZE, MSG_HDR_SIZE]; omega)]
  rfl

/-- The value octets fill the value field of a fresh attribute. -/
private theorem poke_tlv (t : MsgAttrib) (v : Bytes) (a : Bytes) :
    poke (poke (poke (poke (a ++ List.replicate (roundup8 v.length + 8) 0) a.length
      (be16 t.code)) (a.length + 2) (be16 (UInt16.ofNat v.length))) (a.length + 4) (be32 0))
      (a.length + 8) v = a ++ tlv t v := by
  have hle := le_roundup8 v.length
  have hsplit : List.replicate (roundup8 v.length + 8) (0 : UInt8) =
      List.replicate 2 0 ++ (List.replicate 2 0 ++ (List.replicate 4 0 ++
        (List.replicate v.length 0 ++ List.replicate (roundup8 v.length - v.length) 0))) := by
    simp only [List.replicate_append_replicate]
    congr 1
    omega
  rw [hsplit, poke_field rfl (by simp), ← List.append_assoc a,
    poke_field (by simp) (by simp), ← List.append_assoc (a ++ _),
    poke_field (by simp) (by simp), ← List.append_assoc (a ++ _ ++ _),
    poke_field (by simp) (by simp)]
  simp [tlv]

/-- `mbuf_addattrib` appends one TLV and updates the payload length, as long as
the payload limit allows. -/
theorem addattrib_eq (h : Hdr) (body : Bytes) (boff : Nat) (t : MsgAttrib) (arg : AttrArg)
    (hty : arg.avtype = t.avtype) (hoff : boff ≤ 40 + body.length) :
    addattrib (mkMsg h body boff) t arg =
      if body.length + (tlv t arg.octets).length ≤ MSG_MAX_PAY_SIZE then
        some (mkMsg
          { h with paylen := UInt16.ofNat (body.length + (tlv t arg.octets).length) }
          (body ++ tlv t arg.octets) boff)
      else none := by
  -- the per-type override of the length never changes what a caller passes
  have hlen : t.avtype.length arg.octets.length = arg.octets.length := by
    rw [← hty]
    cases arg <;> simp [AttrArg.avtype, AttrArg.octets, AvType.length]
  have hstore : ∀ (b : Bytes) (off : Nat),
      t.avtype.store arg.octets.length arg b off = poke b off arg.octets := by
    intro b off
    rw [← hty]
    cases arg <;> simp [AttrArg.avtype, AttrArg.octets, AvType.store]
  rw [addattrib, mbufAddattrib, hlen, length_tlv]
  by_cases hsz : body.length + (8 + roundup8 arg.octets.length) ≤ MSG_MAX_PAY_SIZE
  · have hpay : (mkMsg h (body ++ List.replicate (roundup8 arg.octets.length + 8) 0) boff).bsize -
        MSG_HDR_SIZE = body.length + (8 + roundup8 arg.octets.length) := by
      simp [MSG_HDR_SIZE]
      omega
    rw [if_pos hsz, mbufGrow_mkMsg h body boff _ (by omega) hoff, Option.map_some]
    simp only [hpay, hdrSetPaylen_mkMsg, hstore]
    have hb : ∀ hd : Hdr, (mkMsg hd (body ++ List.replicate (roundup8 arg.octets.length + 8) 0)
        boff).b = (hd.bytes ++ body) ++ List.replicate (roundup8 arg.octets.length + 8) 0 := by
      intro hd
      simp [mkMsg]
    have hal : ∀ hd : Hdr, (mkMsg h body boff).bsize = (hd.bytes ++ body).length := by simp
    rw [hb, hal, poke_tlv, List.append_assoc]
    rfl
  · rw [if_neg hsz, mbufGrow_eq_none h body boff _ (by omega)]
    rfl

/-! ## Reading attributes back -/

/-- Reading the attribute that starts at the offset. -/
theorem mbufGetnextattrib_tlv (h : Hdr) (a z : Bytes) (t : MsgAttrib) (v : Bytes)
    (hv : v.length < 65536) :
    mbufGetnextattrib (mkMsg h (a ++ (tlv t v ++ z)) (40 + a.length)) =
      some ({ at' := t.code, al := v.length, av := 40 + a.length + 8 },
        mkMsg h (a ++ (tlv t v ++ z)) (40 + a.length + (tlv t v).length)) := by
  have hle := le_roundup8 v.length
  have hb : (mkMsg h (a ++ (tlv t v ++ z)) (40 + a.length)).b =
      (h.bytes ++ a) ++ (be16 t.code ++ (be16 (UInt16.ofNat v.length) ++ (be32 0 ++
        (v ++ (List.replicate (roundup8 v.length - v.length) 0 ++ z))))) := by
    simp [mkMsg, tlv]
  have hlen : (rd16 (peek (mkMsg h (a ++ (tlv t v ++ z)) (40 + a.length)).b
      (40 + a.length + 2) 2)).toNat = v.length := by
    rw [hb, ← List.append_assoc (h.bytes ++ a), peek_field (by simp; omega) (length_be16 _),
      rd16_be16, UInt16.toNat_ofNat', Nat.mod_eq_of_lt hv]
  have htype : rd16 (peek (mkMsg h (a ++ (tlv t v ++ z)) (40 + a.length)).b (40 + a.length) 2) =
      t.code := by
    rw [hb, peek_field (by simp) (length_be16 _), rd16_be16]
  rw [mbufGetnextattrib]
  simp only [mkMsg_boff, hlen, htype, bsize_mkMsg, List.length_append, length_tlv]
  rw [if_neg (by omega), if_neg (by omega)]
  simp [mkMsg]
  omega

/-- The value octets of that attribute. -/
theorem peek_tlv (h : Hdr) (a z : Bytes) (t : MsgAttrib) (v : Bytes) (boff : Nat) :
    peek (mkMsg h (a ++ (tlv t v ++ z)) boff).b (40 + a.length + 8) v.length = v := by
  have hb : (mkMsg h (a ++ (tlv t v ++ z)) boff).b =
      (h.bytes ++ a ++ be16 t.code ++ be16 (UInt16.ofNat v.length) ++ be32 0) ++
        (v ++ (List.replicate (roundup8 v.length - v.length) 0 ++ z)) := by
    simp [mkMsg, tlv]
  rw [hb, peek_field (by simp; omega) rfl]

/-- A 64-bit value reads back. -/
theorem ui64At_tlv (h : Hdr) (a z : Bytes) (t : MsgAttrib) (x : UInt64) (boff : Nat)
    (beyond : Bytes) :
    ui64At (mkMsg h (a ++ (tlv t (be64 x) ++ z)) boff) beyond (40 + a.length + 8) = x := by
  have hpeek := peek_tlv h a z t (be64 x) boff
  rw [length_be64, peek] at hpeek
  have hlen : 8 ≤ ((mkMsg h (a ++ (tlv t (be64 x) ++ z)) boff).b.drop (40 + a.length + 8)).length := by
    simp [mkMsg, roundup8]
    omega
  rw [ui64At, List.append_assoc, List.take_append_of_le_length hlen, hpeek, rd64_be64]

/-- A C string reads back, whatever lies behind the buffer. -/
theorem cstrAt_tlv (h : Hdr) (a z : Bytes) (t : MsgAttrib) (s : Bytes) (boff : Nat)
    (beyond : Bytes) (hs : 0 ∉ s) :
    cstrAt (mkMsg h (a ++ (tlv t (s ++ [0]) ++ z)) boff) beyond (40 + a.length + 8) = s := by
  have hb : (mkMsg h (a ++ (tlv t (s ++ [0]) ++ z)) boff).b =
      (h.bytes ++ a ++ be16 t.code ++ be16 (UInt16.ofNat (s ++ [0]).length) ++ be32 0) ++
        (s ++ 0 :: (List.replicate (roundup8 (s ++ [0]).length - (s ++ [0]).length) 0 ++ z)) := by
    simp [mkMsg, tlv]
  have hdrop : ∀ (x y : Bytes), x.length = 40 + a.length + 8 →
      (x ++ y).drop (40 + a.length + 8) = y := by
    intro x y hx
    rw [← hx, List.drop_left']
    rfl
  rw [cstrAt, hb, hdrop _ _ (by simp; omega), List.append_assoc, List.takeWhile_append_of_pos,
    List.cons_append, List.takeWhile_cons]
  · simp
  · intro c hc
    simp only [ne_eq, decide_eq_true_eq]
    rintro rfl
    exact hs hc

/-- The first of the attributes left is the one that is read next. -/
theorem attribsFrom_cons {n : Nat} {m : Mbuf} {t : UInt16} {v : Bytes} {l : List (UInt16 × Bytes)}
    (h : attribsFrom n m = (t, v) :: l) :
    ∃ a m', mbufGetnextattrib m = some (a, m') ∧ a.at' = t ∧ blobAt m' a = v ∧
      attribsFrom (n - 1) m' = l := by
  cases n with
  | zero => cases h
  | succ n =>
      unfold attribsFrom at h
      cases hnext : mbufGetnextattrib m with
      | none =>
          rw [hnext] at h
          cases h
      | some p =>
          obtain ⟨a, m'⟩ := p
          rw [hnext] at h
          obtain ⟨hhead, hl⟩ := List.cons.inj h
          obtain ⟨ht, hv⟩ := Prod.mk.inj hhead
          refine ⟨a, m', rfl, ht, ?_, hl⟩
          rw [blobAt, (getnextattrib_fits hnext).2]
          exact hv

/-- Where no attributes are left none is read. -/
theorem attribsFrom_nil {n : Nat} {m : Mbuf} (hn : 0 < n) (h : attribsFrom n m = []) :
    mbufGetnextattrib m = none := by
  obtain ⟨n, rfl⟩ := Nat.exists_eq_add_of_lt hn
  rw [Nat.zero_add, attribsFrom] at h
  cases hnext : mbufGetnextattrib m with
  | none => rfl
  | some p =>
      rw [hnext] at h
      cases h

/-- The value octets of a 64-bit attribute, read as a word. -/
theorem ui64At_of_blobAt {m : Mbuf} {a : AttrRef} {x : UInt64} (h : blobAt m a = be64 x)
    (beyond : Bytes) : ui64At m beyond a.av = x := by
  rw [blobAt, peek] at h
  have hlen := congrArg List.length h
  rw [List.length_take, length_be64] at hlen
  have htake : (m.b.drop a.av).take 8 = be64 x := by
    rw [← h, List.take_eq_take_iff]
    omega
  rw [ui64At, List.append_assoc, List.take_append_of_le_length (by omega), htake, rd64_be64]

/-- Nothing is left behind the last attribute. -/
theorem mbufGetnextattrib_end (h : Hdr) (body : Bytes) :
    mbufGetnextattrib (mkMsg h body (40 + body.length)) = none := by
  rw [mbufGetnextattrib, if_pos (by simp)]

end Frelay
