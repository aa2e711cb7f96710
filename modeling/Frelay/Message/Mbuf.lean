import Frelay.Message.Types

/-!
# Message buffers (`message.c`)

An `mbuf_t` as the octets it owns and its offset; the list link is kept by
whoever owns the buffer. `none` is `die_if`: the process has exited. Octets
that `malloc` leaves unset are zero here; no function reads them before they
are written.

A C string read through an attribute pointer does not stop at the end of the
buffer. The octets found behind it are a parameter (`beyond`) of every such
read, so a statement that holds for all of them makes no assumption on the heap.
-/

namespace Frelay

open Lib

/-- A message buffer. -/
structure Mbuf where
  b : Bytes
  boff : Nat
  deriving DecidableEq, Repr

/-- The size of a buffer is the number of octets it owns. -/
def Mbuf.bsize (m : Mbuf) : Nat := m.b.length

/-! ## Header fields -/

def hdrGetType (m : Mbuf) : UInt16 := rd16 (peek m.b HDR_OFF_TYPE 2)
def hdrGetPaylen (m : Mbuf) : Nat := (rd16 (peek m.b HDR_OFF_PAYLEN 2)).toNat
def hdrGetRfu (m : Mbuf) : UInt32 := rd32 (peek m.b HDR_OFF_RFU 4)
def hdrGetTs (m : Mbuf) : UInt64 := rd64 (peek m.b HDR_OFF_TS 8)
def hdrGetSrcid (m : Mbuf) : UInt64 := rd64 (peek m.b HDR_OFF_SRCID 8)
def hdrGetDstid (m : Mbuf) : UInt64 := rd64 (peek m.b HDR_OFF_DSTID 8)
def hdrGetTrfid (m : Mbuf) : UInt64 := rd64 (peek m.b HDR_OFF_TRFID 8)

def hdrSetType (m : Mbuf) (v : UInt16) : Mbuf := { m with b := poke m.b HDR_OFF_TYPE (be16 v) }
/-- The length is truncated to 16 bits. -/
def hdrSetPaylen (m : Mbuf) (v : Nat) : Mbuf :=
  { m with b := poke m.b HDR_OFF_PAYLEN (be16 (UInt16.ofNat v)) }
def hdrSetRfu (m : Mbuf) (v : UInt32) : Mbuf := { m with b := poke m.b HDR_OFF_RFU (be32 v) }
def hdrSetTs (m : Mbuf) (v : UInt64) : Mbuf := { m with b := poke m.b HDR_OFF_TS (be64 v) }
def hdrSetSrcid (m : Mbuf) (v : UInt64) : Mbuf := { m with b := poke m.b HDR_OFF_SRCID (be64 v) }
def hdrSetDstid (m : Mbuf) (v : UInt64) : Mbuf := { m with b := poke m.b HDR_OFF_DSTID (be64 v) }
def hdrSetTrfid (m : Mbuf) (v : UInt64) : Mbuf := { m with b := poke m.b HDR_OFF_TRFID (be64 v) }

/-! ## Allocation -/

/-- `mbuf_new`: just big enough to hold the header. -/
def mbufNew : Mbuf := { b := List.replicate MSG_HDR_SIZE 0, boff := 0 }

/-- `mbuf_resize` to a payload of `paylen` octets. -/
def mbufResize (m : Mbuf) (paylen : Nat) : Option Mbuf :=
  let size := paylen + MSG_HDR_SIZE
  if MSG_MAX_SIZE < size then none
  else some
    { b := m.b.take size ++ List.replicate (size - m.bsize) 0
      boff := min m.boff size }

/-- `mbuf_grow`: the new octets are cleared. -/
def mbufGrow (m : Mbuf) (amount : Nat) : Option Mbuf :=
  (mbufResize m (m.bsize - MSG_HDR_SIZE + amount)).map fun m =>
    { m with b := poke m.b (m.bsize - amount) (List.replicate amount 0) }

/-! ## Composing messages -/

/-- `mbuf_compose` on a null buffer pointer, as every caller passes it. `ts` is
what `ntime_get` returns. -/
def mbufCompose (ts : UInt64) (type : MsgType) (srcid dstid trfid : UInt64) : Mbuf :=
  let m := mbufNew
  let m := hdrSetType m type.code
  let m := hdrSetPaylen m 0
  let m := hdrSetRfu m 0
  let m := hdrSetTs m ts
  let m := hdrSetSrcid m srcid
  let m := hdrSetDstid m dstid
  hdrSetTrfid m trfid

/-- `mbuf_to_response`: keep the header, swap source and destination. -/
def mbufToResponse (ts : UInt64) (m : Mbuf) : Option Mbuf :=
  (mbufResize m 0).map fun m =>
    let m := { m with boff := 0 }
    let m := hdrSetType m (mclassToRes (hdrGetType m))
    let m := hdrSetPaylen m 0
    let m := hdrSetRfu m 0
    let m := hdrSetTs m ts
    let srcid := hdrGetSrcid m
    let m := hdrSetSrcid m (hdrGetDstid m)
    hdrSetDstid m srcid

/-- The variadic value argument of `mbuf_addattrib`. -/
inductive AttrArg where
  | null
  | ui64 (v : UInt64)
  | str (s : Bytes)
  | blob (p : Bytes)
  deriving DecidableEq, Repr

/-- The octets copied into the value field. A string is copied with its
terminating null character. -/
def AttrArg.octets : AttrArg → Bytes
  | .null => []
  | .ui64 v => be64 v
  | .str s => s ++ [0]
  | .blob p => p

/-- The encoding the argument is meant for. -/
def AttrArg.avtype : AttrArg → AvType
  | .null => .none
  | .ui64 _ => .ui64
  | .str _ => .str
  | .blob _ => .blob

/-- The length of an attribute, overridden for the encodings of fixed length. -/
def AvType.length (a : AvType) (length : Nat) : Nat :=
  match a with
  | .ui64 => 8
  | .none => 0
  | .str | .blob => length

/-- The value octets stored at offset `off`: `strcpy` for a string, `memcpy` of
`length` octets for a blob. -/
def AvType.store (a : AvType) (length : Nat) (arg : AttrArg) (b : Bytes) (off : Nat) : Bytes :=
  match a, arg with
  | .ui64, .ui64 v => poke b off (be64 v)
  | .str, .str s => poke b off (s ++ [0])
  | .blob, .blob p => poke b off (p.take length)
  | _, _ => b

/-- `mbuf_addattrib`. -/
def mbufAddattrib (m : Mbuf) (attype : MsgAttrib) (length : Nat) (arg : AttrArg) : Option Mbuf :=
  let length := attype.avtype.length length
  let aoff := m.bsize
  (mbufGrow m (roundup8 length + 8)).map fun m =>
    let m := hdrSetPaylen m (m.bsize - MSG_HDR_SIZE)
    let b := poke m.b aoff (be16 attype.code)
    let b := poke b (aoff + 2) (be16 (UInt16.ofNat length))
    let b := poke b (aoff + 4) (be32 0)
    { m with b := attype.avtype.store length arg b (aoff + 8) }

/-- `mbuf_addattrib` with the length every caller passes: that of the value. -/
def addattrib (m : Mbuf) (attype : MsgAttrib) (arg : AttrArg) : Option Mbuf :=
  mbufAddattrib m attype arg.octets.length arg

/-- `mbuf_to_error_response`. -/
def mbufToErrorResponse (ts : UInt64) (m : Mbuf) (ec : ScEnum) : Option Mbuf := do
  let m ← mbufToResponse ts m
  let m := hdrSetType m (mclassToErr (hdrGetType m))
  let m ← addattrib m .error (.ui64 ec.code)
  addattrib m .notice (.str (scMsgstr ec))

/-! ## Reading attributes -/

/-- What `mbuf_getnextattrib` returns: type, length and the offset of the value. -/
structure AttrRef where
  at' : UInt16
  al : Nat
  av : Nat
  deriving DecidableEq, Repr

/-- `mbuf_getnextattrib`; a failing call leaves the buffer alone. -/
def mbufGetnextattrib (m : Mbuf) : Option (AttrRef × Mbuf) :=
  if m.bsize < m.boff + 8 then none
  else
    let len := (rd16 (peek m.b (m.boff + 2) 2)).toNat
    if m.bsize < m.boff + 8 + len then none
    else some
      ({ at' := rd16 (peek m.b m.boff 2), al := len, av := m.boff + 8 },
        { m with boff := m.boff + 8 + roundup8 len })

/-- The value of an attribute that is found is in the buffer. -/
theorem getnextattrib_fits {m m' : Mbuf} {a : AttrRef} (h : mbufGetnextattrib m = some (a, m')) :
    a.av + a.al ≤ m.bsize ∧ m'.b = m.b := by
  unfold mbufGetnextattrib at h
  split at h
  · cases h
  · simp only at h
    split at h
    · cases h
    · rename_i hfits
      cases h
      exact ⟨Nat.not_lt.mp hfits, rfl⟩

/-- `mbuf_resetgetattrib`. -/
def mbufResetgetattrib (m : Mbuf) : Mbuf := { m with boff := MSG_HDR_SIZE }

/-- The C string at offset `av`, with the octets behind the buffer. -/
def cstrAt (m : Mbuf) (beyond : Bytes) (av : Nat) : Bytes :=
  (m.b.drop av ++ beyond).takeWhile (· ≠ 0)

/-- The 64-bit word at offset `av`, with the octets behind the buffer. -/
def ui64At (m : Mbuf) (beyond : Bytes) (av : Nat) : UInt64 :=
  rd64 ((m.b.drop av ++ beyond ++ List.replicate 8 0).take 8)

/-- The `al` octets at offset `av`. -/
def blobAt (m : Mbuf) (a : AttrRef) : Bytes := peek m.b a.av a.al

/-- The attributes left to read, as type and value octets. -/
def attribsFrom : Nat → Mbuf → List (UInt16 × Bytes)
  | 0, _ => []
  | n + 1, m =>
      match mbufGetnextattrib m with
      | none => []
      | some (a, m') => (a.at', blobAt m a) :: attribsFrom n m'

/-- All attributes of a message. -/
def attribs (m : Mbuf) : List (UInt16 × Bytes) := attribsFrom m.bsize (mbufResetgetattrib m)

end Frelay
