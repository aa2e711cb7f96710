import Frelay.Message.Reply

/-!
# Composing a message and taking it apart

`mbuf_compose` and any sequence of `mbuf_addattrib` calls against the format of
`protocol.txt`, and `mbuf_getnextattrib` on the result.

* `codec_roundtrip` — the octets of the message are the documented ones, and
  reading it yields what was written.
-/

namespace Frelay

open Lib

/-! ## The calls -/

/-- The buffer `mbuf_compose` starts from: a new one for a null pointer, or the one
it is given without its payload. -/
def mbufBare : Option Mbuf → Option Mbuf
  | none => some mbufNew
  | some m => mbufResize m 0

/-- `mbuf_compose`, also on a buffer that is used again. -/
def mbufComposeInto (p : Option Mbuf) (ts : UInt64) (type : MsgType) (srcid dstid trfid : UInt64) :
    Option Mbuf :=
  (mbufBare p).map fun m =>
    let m := { m with boff := 0 }
    let m := hdrSetType m type.code
    let m := hdrSetPaylen m 0
    let m := hdrSetRfu m 0
    let m := hdrSetTs m ts
    let m := hdrSetSrcid m srcid
    let m := hdrSetDstid m dstid
    hdrSetTrfid m trfid

/-- The arguments of one `mbuf_addattrib` call. -/
structure AttrCall where
  attype : MsgAttrib
  length : Nat
  arg : AttrArg
  deriving DecidableEq

/-- A string argument ends at its first null character. -/
def AttrArg.CString : AttrArg → Prop
  | .str s => 0 ∉ s
  | _ => True

instance (a : AttrArg) : Decidable a.CString :=
  match a with
  | .str s => inferInstanceAs (Decidable (0 ∉ s))
  | .null | .ui64 _ | .blob _ => inferInstanceAs (Decidable True)

/-- The call passes a value of the kind the attribute has, and for a string or a
blob its length; the length of other attributes is overridden. -/
structure AttrCall.Proper (c : AttrCall) : Prop where
  kind : c.arg.avtype = c.attype.avtype
  length : c.attype.avtype = .str ∨ c.attype.avtype = .blob → c.length = c.arg.octets.length
  cstring : c.arg.CString

instance (c : AttrCall) : Decidable c.Proper :=
  decidable_of_iff (c.arg.avtype = c.attype.avtype ∧
      (c.attype.avtype = .str ∨ c.attype.avtype = .blob → c.length = c.arg.octets.length) ∧
      c.arg.CString)
    ⟨fun h => ⟨h.1, h.2.1, h.2.2⟩, fun h => ⟨h.kind, h.length, h.cstring⟩⟩

/-- `mbuf_compose` and the `mbuf_addattrib` calls. -/
def composeCalls (p : Option Mbuf) (ts : UInt64) (type : MsgType) (srcid dstid trfid : UInt64)
    (calls : List AttrCall) : Option Mbuf := do
  let m ← mbufComposeInto p ts type srcid dstid trfid
  calls.foldlM (fun m c => mbufAddattrib m c.attype c.length c.arg) m

/-! ## The documented format -/

/-- One attribute: type, length, 32 zero bits, the value, and zeros up to the next
64-bit boundary. -/
def wireAttrib (t : UInt16) (v : Bytes) : Bytes :=
  be16 t ++ be16 (UInt16.ofNat v.length) ++ List.replicate 4 0 ++ v ++
    List.replicate ((8 - v.length % 8) % 8) 0

/-- The payload. -/
def wirePayload (attribs : List (UInt16 × Bytes)) : Bytes :=
  attribs.flatMap fun a => wireAttrib a.1 a.2

/-- A whole message: the seven fields of the header, and the payload. -/
def wireMessage (type : UInt16) (ts srcid dstid trfid : UInt64) (attribs : List (UInt16 × Bytes)) :
    Bytes :=
  be16 type ++ be16 (UInt16.ofNat (wirePayload attribs).length) ++ List.replicate 4 0 ++ be64 ts ++
    be64 srcid ++ be64 dstid ++ be64 trfid ++ wirePayload attribs

/-- Repeated `mbuf_getnextattrib` calls yield these types, lengths and value octets,
and then one fails. -/
def Yields : Mbuf → List (UInt16 × Bytes) → Prop
  | m, [] => mbufGetnextattrib m = none
  | m, (t, v) :: l => ∃ a m', mbufGetnextattrib m = some (a, m') ∧ a.at' = t ∧ a.al = v.length ∧
      blobAt m' a = v ∧ Yields m' l

/-- What the calls are to put into the message. -/
def AttrCall.contents (c : AttrCall) : UInt16 × Bytes := (c.attype.code, c.arg.octets)

/-! ## Writing -/

theorem wireAttrib_eq_tlv (t : MsgAttrib) (v : Bytes) : wireAttrib t.code v = tlv t v := by
  have hpad : (8 - v.length % 8) % 8 = roundup8 v.length - v.length := by
    unfold roundup8
    omega
  have hzero : be32 0 = List.replicate 4 0 := by decide
  simp only [wireAttrib, tlv, hpad, hzero, List.append_assoc]

theorem wirePayload_eq_tlvs (l : List AttrCall) :
    wirePayload (l.map AttrCall.contents) = tlvs (l.map fun c => (c.attype, c.arg)) := by
  induction l with
  | nil => rfl
  | cons c l ih =>
      rw [List.map_cons, List.map_cons, tlvs_cons, ← ih, ← wireAttrib_eq_tlv]
      rfl

/-- A buffer that is used again is as good as a new one. -/
theorem mbufComposeInto_eq {p : Option Mbuf} (hp : ∀ m, p = some m → MSG_HDR_SIZE ≤ m.bsize)
    (ts : UInt64) (type : MsgType) (srcid dstid trfid : UInt64) :
    mbufComposeInto p ts type srcid dstid trfid =
      some (mkMsg ⟨type.code, 0, 0, ts, srcid, dstid, trfid⟩ [] 0) := by
  have hbare : ∃ hd boff, mbufBare p = some (mkMsg hd [] boff) := by
    cases p with
    | none =>
        refine ⟨⟨0, 0, 0, 0, 0, 0, 0⟩, 0, ?_⟩
        unfold mbufBare mbufNew mkMsg
        congr 2
    | some m =>
        obtain ⟨hd, body, boff, rfl⟩ := exists_msg (hp m rfl)
        exact ⟨hd, _, mbufResize_zero hd body boff⟩
  obtain ⟨hd, boff, hbare⟩ := hbare
  have hoff : ({ mkMsg hd [] boff with boff := 0 } : Mbuf) = mkMsg hd [] 0 := rfl
  unfold mbufComposeInto
  rw [hbare, Option.map_some]
  simp only [hoff, hdrSetType_mkMsg, hdrSetPaylen_mkMsg, hdrSetRfu_mkMsg, hdrSetTs_mkMsg,
    hdrSetSrcid_mkMsg, hdrSetDstid_mkMsg, hdrSetTrfid_mkMsg]
  rfl

/-- The length argument does not matter where the attribute fixes it. -/
theorem AttrCall.Proper.addattrib {c : AttrCall} (h : c.Proper) (m : Mbuf) :
    mbufAddattrib m c.attype c.length c.arg = addattrib m c.attype c.arg := by
  have hlen : c.attype.avtype.length c.length = c.attype.avtype.length c.arg.octets.length := by
    cases ht : c.attype.avtype with
    | none => rfl
    | ui64 => rfl
    | str => rw [h.length (.inl ht)]
    | blob => rw [h.length (.inr ht)]
  rw [Frelay.addattrib, mbufAddattrib, mbufAddattrib, hlen]

theorem foldlM_calls {l : List AttrCall} (hl : ∀ c ∈ l, c.Proper) (m : Mbuf) :
    l.foldlM (fun m c => mbufAddattrib m c.attype c.length c.arg) m =
      (l.map fun c => (c.attype, c.arg)).foldlM (fun m a => addattrib m a.1 a.2) m := by
  induction l generalizing m with
  | nil => rfl
  | cons c l ih =>
      rw [List.map_cons, List.foldlM_cons, List.foldlM_cons, (hl c List.mem_cons_self).addattrib]
      exact bind_congr fun m => ih (fun d hd => hl d (List.mem_cons_of_mem _ hd)) m

theorem composeCalls_eq {p : Option Mbuf} (hp : ∀ m, p = some m → MSG_HDR_SIZE ≤ m.bsize)
    (ts : UInt64) (type : MsgType) (srcid dstid trfid : UInt64) {l : List AttrCall}
    (hl : ∀ c ∈ l, c.Proper)
    (hfit : (wirePayload (l.map AttrCall.contents)).length ≤ MSG_MAX_PAY_SIZE) :
    composeCalls p ts type srcid dstid trfid l =
      some (mkMsg ⟨type.code, UInt16.ofNat (wirePayload (l.map AttrCall.contents)).length, 0, ts,
        srcid, dstid, trfid⟩ (wirePayload (l.map AttrCall.contents)) 0) := by
  have hkind : ∀ a ∈ l.map fun c => (c.attype, c.arg), a.2.avtype = a.1.avtype := by
    intro a ha
    obtain ⟨c, hc, rfl⟩ := List.mem_map.mp ha
    exact (hl c hc).kind
  rw [wirePayload_eq_tlvs] at hfit ⊢
  rw [composeCalls, mbufComposeInto_eq hp, Option.bind_eq_bind, Option.bind_some,
    foldlM_calls hl, foldlM_addattrib _ [] _ hkind rfl (by decide), List.nil_append, if_pos hfit]

/-! ## Reading -/

/-- Reading the attributes that come after the first part of the payload. -/
theorem yields_wirePayload (h : Hdr) (l : List AttrCall) (pre : Bytes)
    (hl : ∀ c ∈ l, c.arg.octets.length < 65536) :
    Yields (mkMsg h (pre ++ wirePayload (l.map AttrCall.contents)) (40 + pre.length))
      (l.map AttrCall.contents) := by
  induction l generalizing pre with
  | nil =>
      change mbufGetnextattrib _ = none
      rw [List.map_nil, wirePayload, List.flatMap_nil, List.append_nil]
      exact mbufGetnextattrib_end h pre
  | cons c l ih =>
      have hc := hl c List.mem_cons_self
      have hsplit : wirePayload ((c :: l).map AttrCall.contents) =
          tlv c.attype c.arg.octets ++ wirePayload (l.map AttrCall.contents) := by
        rw [← wireAttrib_eq_tlv]
        rfl
      have hrest := ih (pre ++ tlv c.attype c.arg.octets)
        fun d hd => hl d (List.mem_cons_of_mem _ hd)
      rw [List.append_assoc, List.length_append, ← Nat.add_assoc, ← hsplit] at hrest
      have hnext := mbufGetnextattrib_tlv h pre (wirePayload (l.map AttrCall.contents)) c.attype
        c.arg.octets hc
      have hvalue := peek_tlv h pre (wirePayload (l.map AttrCall.contents)) c.attype c.arg.octets
        (40 + pre.length + (tlv c.attype c.arg.octets).length)
      rw [← hsplit] at hnext hvalue
      exact ⟨_, _, hnext, rfl, rfl, hvalue, hrest⟩

/-- No value of a payload that fits is too long for its length field. -/
theorem length_octets_lt {l : List AttrCall}
    (hfit : (wirePayload (l.map AttrCall.contents)).length ≤ MSG_MAX_PAY_SIZE) {c : AttrCall}
    (hc : c ∈ l) : c.arg.octets.length < 65536 := by
  have hsub : (wireAttrib c.attype.code c.arg.octets).Sublist
      (wirePayload (l.map AttrCall.contents)) :=
    List.sublist_flatten_of_mem (List.mem_map.mpr
      ⟨c.contents, List.mem_map.mpr ⟨c, hc, rfl⟩, rfl⟩)
  have hlen := hsub.length_le
  have hround := le_roundup8 c.arg.octets.length
  rw [wireAttrib_eq_tlv, length_tlv] at hlen
  unfold MSG_MAX_PAY_SIZE at hfit
  omega

/-- Every attribute ends on a 64-bit boundary. -/
theorem dvd_length_wirePayload (l : List (UInt16 × Bytes)) : 8 ∣ (wirePayload l).length := by
  induction l with
  | nil => exact Nat.dvd_zero 8
  | cons a l ih =>
      have hsplit : wirePayload (a :: l) = wireAttrib a.1 a.2 ++ wirePayload l := rfl
      rw [hsplit, List.length_append]
      refine Nat.dvd_add ?_ ih
      simp only [wireAttrib, List.length_append, length_be16, List.length_replicate]
      omega

/-! ## The round trip -/

/-- **Codec.** Composing a message that fits lays down the documented octets; its
header reads back as set, and its attributes as they were added. -/
theorem codec_roundtrip (p : Option Mbuf) (hp : ∀ m, p = some m → MSG_HDR_SIZE ≤ m.bsize)
    (ts : UInt64) (type : MsgType) (srcid dstid trfid : UInt64) (l : List AttrCall)
    (hl : ∀ c ∈ l, c.Proper)
    (hfit : (wirePayload (l.map AttrCall.contents)).length ≤ MSG_MAX_PAY_SIZE) :
    ∃ m, composeCalls p ts type srcid dstid trfid l = some m ∧
      m.b = wireMessage type.code ts srcid dstid trfid (l.map AttrCall.contents) ∧
      hdrGetPaylen m = m.bsize - 40 ∧ 8 ∣ hdrGetPaylen m ∧
      (hdrGetType m = type.code ∧ hdrGetRfu m = 0 ∧ hdrGetTs m = ts ∧ hdrGetSrcid m = srcid ∧
        hdrGetDstid m = dstid ∧ hdrGetTrfid m = trfid) ∧
      Yields (mbufResetgetattrib m) (l.map AttrCall.contents) := by
  have hlen : (UInt16.ofNat (wirePayload (l.map AttrCall.contents)).length).toNat =
      (wirePayload (l.map AttrCall.contents)).length := by
    unfold MSG_MAX_PAY_SIZE at hfit
    rw [UInt16.toNat_ofNat', Nat.mod_eq_of_lt (by omega)]
  have hpaylen := (hdrGetPaylen_mkMsg
    ⟨type.code, UInt16.ofNat (wirePayload (l.map AttrCall.contents)).length, 0, ts, srcid, dstid,
      trfid⟩ (wirePayload (l.map AttrCall.contents)) 0).trans hlen
  refine ⟨_, composeCalls_eq hp ts type srcid dstid trfid hl hfit, ?_, ?_, ?_, ?_, ?_⟩
  · have hzero : be32 0 = List.replicate 4 0 := by decide
    simp only [mkMsg, Hdr.bytes, wireMessage, hzero, List.append_assoc]
  · rw [hpaylen, bsize_mkMsg]
    omega
  · rw [hpaylen]
    exact dvd_length_wirePayload _
  · exact ⟨hdrGetType_mkMsg _ _ _, hdrGetRfu_mkMsg _ _ _, hdrGetTs_mkMsg _ _ _,
      hdrGetSrcid_mkMsg _ _ _, hdrGetDstid_mkMsg _ _ _, hdrGetTrfid_mkMsg _ _ _⟩
  · exact yields_wirePayload _ l [] fun c hc => length_octets_lt hfit hc

/-- One attribute of each kind, two of them with a value that needs padding. -/
def demoCalls : List AttrCall :=
  [⟨.username, 4, .str (ascii "bob")⟩, ⟨.data, 11, .blob (ascii "plain-text ")⟩,
    ⟨.size, 0, .ui64 65376⟩, ⟨.ok, 0, .null⟩]

theorem codec_roundtrip_demo :
    ∃ m, composeCalls none 7 .offerReq 1 2 3 demoCalls = some m ∧
      m.b = wireMessage 0x0111 7 1 2 3 (demoCalls.map AttrCall.contents) ∧
      hdrGetPaylen m = m.bsize - 40 ∧ 8 ∣ hdrGetPaylen m ∧
      (hdrGetType m = 0x0111 ∧ hdrGetRfu m = 0 ∧ hdrGetTs m = 7 ∧ hdrGetSrcid m = 1 ∧
        hdrGetDstid m = 2 ∧ hdrGetTrfid m = 3) ∧
      Yields (mbufResetgetattrib m) (demoCalls.map AttrCall.contents) :=
  codec_roundtrip none (fun _ h => by cases h) 7 .offerReq 1 2 3 demoCalls (by decide) (by decide)

end Frelay
