import Frelay.Message.Codec
import Frelay.Lib.Framing

/-!
# Frame assembly

Both programs read a message the same way: a buffer for the header first, then,
once the header is complete, room for the payload it announces. `recv` is that
step, from the result of one `read(2)` to the buffer that is now complete or
still pending. It is an instance of the generic receiver (`recv_absorb`), so
the outcome of a whole stream does not depend on how it was cut into reads
(`recvAll_eq`).
-/

namespace Frelay

open Lib

/-- The octets asked for by the next `read(2)`. -/
def Mbuf.room (m : Mbuf) : Nat := m.bsize - m.boff

/-- `read(2)` has stored the octets `bs`. -/
def mbufFill (m : Mbuf) (bs : Bytes) : Mbuf :=
  { b := poke m.b m.boff bs, boff := m.boff + bs.length }

/-- Make room for the payload once the header is complete. -/
def mbufExpand (m : Mbuf) : Option Mbuf :=
  if m.boff = m.bsize ∧ m.boff = MSG_HDR_SIZE ∧ 0 < hdrGetPaylen m then
    mbufResize m (hdrGetPaylen m)
  else some m

/-- One successful read into the receive buffer, which is allocated if there is
none: the message that is now complete, and the buffer that is still pending. -/
def recv (rbuf : Option Mbuf) (bs : Bytes) : Option (Option Mbuf × Option Mbuf) :=
  (mbufExpand (mbufFill (rbuf.getD mbufNew) bs)).map fun m =>
    if m.boff = m.bsize then (some m, none) else (none, some m)

/-- What `read(2)` returns: an error, fatal or not, or octets; no octets is the
end of the stream. -/
inductive ReadRes where
  | failed (fatal : Bool)
  | got (bs : Bytes)
  deriving DecidableEq

/-- What a descriptor that is ready for reading leads to. -/
inductive ReadOutcome where
  | disconnect
  | again
  | exits
  | pending (rbuf : Option Mbuf)
  | complete (m : Mbuf)
  deriving DecidableEq

/-- The buffer `rbuf` after octets were read, or after there was no room for any. -/
def recvOutcome (rbuf : Mbuf) (bs : Bytes) : ReadOutcome :=
  match recv (some rbuf) bs with
  | none => .exits
  | some (some m, _) => .complete m
  | some (none, rbuf) => .pending rbuf

/-- One ready descriptor: `read(2)` returns no more octets than it was asked for. -/
def readOutcome (rbuf : Mbuf) (res : ReadRes) : ReadOutcome :=
  if rbuf.boff < rbuf.bsize then
    match res with
    | .failed true => .disconnect
    | .failed false => .again
    | .got bs =>
        if bs.take rbuf.room = [] then .disconnect else recvOutcome rbuf (bs.take rbuf.room)
  else recvOutcome rbuf []

/-- What `write(2)` returns: an error, fatal or not, or a number of octets. -/
inductive WriteRes where
  | failed (fatal : Bool)
  | sent (n : Nat)
  deriving DecidableEq

/-- What a descriptor that is ready for writing leads to. -/
inductive WriteOutcome where
  | disconnect
  | again
  | sent (m : Mbuf)
  deriving DecidableEq

/-- One write of what is left of `m`; `write(2)` takes no more octets than it was given. -/
def writeOutcome (m : Mbuf) (res : WriteRes) : WriteOutcome :=
  if m.boff < m.bsize then
    match res with
    | .failed true => .disconnect
    | .failed false => .again
    | .sent n =>
        if min n m.room = 0 then .disconnect else .sent { m with boff := m.boff + min n m.room }
  else .sent m

/-- The octets that write puts on the wire. -/
def octetsSent (m : Mbuf) : WriteRes → Bytes
  | .sent n => peek m.b m.boff (min n m.room)
  | .failed _ => []

/-- The octets of a queue that are still to be written. -/
def unsent (q : List Mbuf) : Bytes := q.flatMap fun m => m.b.drop m.boff

/-- All reads of a stream, starting without a receive buffer or with a pending one. -/
def recvAll : Option Mbuf → List Bytes → Option (List Mbuf × Option Mbuf)
  | rbuf, [] => some ([], rbuf)
  | rbuf, bs :: cs =>
      (recv rbuf bs).bind fun r =>
        (recvAll r.2 cs).map fun q => (r.1.toList ++ q.1, q.2)

/-- The frame format of the protocol. -/
def msgFormat : FrameFormat UInt8 where
  hdr := MSG_HDR_SIZE
  hdr_pos := by decide
  len h := (rd16 (peek h HDR_OFF_PAYLEN 2)).toNat

@[simp] theorem msgFormat_hdr : msgFormat.hdr = 40 := rfl

/-- The octets received into a buffer. -/
def Mbuf.received (m : Mbuf) : Bytes := m.b.take m.boff

/-- The octets received into the receive buffer, if there is one. -/
def received : Option Mbuf → Bytes
  | none => []
  | some m => m.received

/-- A receive buffer between two reads: not full, and exactly as long as the
header or, once it is there, as the frame the header announces. -/
structure RbufOk (m : Mbuf) : Prop where
  lt : m.boff < m.bsize
  size : m.bsize = if m.boff < 40 then 40 else msgFormat.size m.received
  max : m.bsize ≤ MSG_MAX_SIZE

/-- The receive buffer of a connection between two reads. -/
def RecvOk (rbuf : Option Mbuf) : Prop := ∀ m, rbuf = some m → RbufOk m

theorem rbufOk_new : RbufOk mbufNew :=
  ⟨by decide, by decide, by decide⟩

theorem received_new : mbufNew.received = [] := by
  simp [Mbuf.received, mbufNew]

theorem length_received {m : Mbuf} (h : m.boff ≤ m.bsize) : m.received.length = m.boff := by
  rw [Mbuf.received, List.length_take]
  exact Nat.min_eq_left h

theorem hdrGetPaylen_eq_len {m : Mbuf} {h : Bytes} (hh : m.b.take 40 = h) :
    hdrGetPaylen m = msgFormat.len h := by
  have hpeek : peek m.b HDR_OFF_PAYLEN 2 = peek h HDR_OFF_PAYLEN 2 := by
    rw [← hh, peek, peek, List.drop_take, List.take_take]
    rfl
  rw [hdrGetPaylen, hpeek]
  rfl

/-- The room in the buffer is what the generic receiver asks for. -/
theorem RbufOk.room_eq {m : Mbuf} (h : RbufOk m) : m.room = msgFormat.need m.received := by
  have hlen := length_received (Nat.le_of_lt h.lt)
  have hsize := h.size
  rw [Mbuf.room, FrameFormat.need, hlen, msgFormat_hdr]
  by_cases hlt : m.boff < 40
  · rw [if_pos hlt] at hsize ⊢
    omega
  · rw [if_neg hlt] at hsize ⊢
    omega

theorem RbufOk.pending {m : Mbuf} (h : RbufOk m) :
    msgFormat.Pending MSG_MAX_PAY_SIZE m.received := by
  have hlen := length_received (Nat.le_of_lt h.lt)
  have hsize := h.size
  have hlt := h.lt
  have hmax := h.max
  unfold MSG_MAX_SIZE MSG_HDR_SIZE at hmax
  refine ⟨?_, ?_⟩
  · rintro ⟨hhdr, hcomp⟩
    rw [hlen, msgFormat_hdr] at hhdr
    rw [if_neg (by omega)] at hsize
    omega
  · intro hhdr
    rw [hlen, msgFormat_hdr] at hhdr
    rw [if_neg (by omega)] at hsize
    have : msgFormat.size m.received = 40 + msgFormat.len (m.received.take msgFormat.hdr) := rfl
    omega

/-- Octets land behind those already received. -/
theorem received_fill (m : Mbuf) (bs : Bytes) (h : m.boff ≤ m.bsize) :
    (mbufFill m bs).received = m.received ++ bs := by
  have hlen : (m.b.take m.boff ++ bs).length = m.boff + bs.length := by
    rw [List.length_append, List.length_take]
    have : min m.boff m.b.length = m.boff := Nat.min_eq_left h
    omega
  rw [Mbuf.received, mbufFill, poke, List.take_append_of_le_length hlen.ge, ← hlen,
    List.take_length]
  rfl

theorem bsize_fill (m : Mbuf) (bs : Bytes) (h : m.boff + bs.length ≤ m.bsize) :
    (mbufFill m bs).bsize = m.bsize := length_poke h

/-- What one read can do, in terms of the generic receiver: the process exits
exactly when the receiver gives up, and otherwise the same frame is delivered
and the same octets stay pending. -/
inductive RecvSpec (p bs : Bytes) : Option (Option Mbuf × Option Mbuf) → Prop
  | exits : msgFormat.absorb MSG_MAX_PAY_SIZE p bs = none → RecvSpec p bs none
  | complete (m : Mbuf) : m.b = p ++ bs → m.boff = m.bsize →
      msgFormat.absorb MSG_MAX_PAY_SIZE p bs = some ([p ++ bs], []) →
      RecvSpec p bs (some (some m, none))
  | pending (m : Mbuf) : RbufOk m → m.received = p ++ bs →
      msgFormat.absorb MSG_MAX_PAY_SIZE p bs = some ([], p ++ bs) →
      RecvSpec p bs (some (none, some m))

/-- A buffer that is full after a read holds exactly the octets received. -/
private theorem fill_full {m : Mbuf} {bs : Bytes} (h : m.boff + bs.length = m.bsize) :
    (mbufFill m bs).b = m.received ++ bs := by
  have hsize := bsize_fill m bs (by omega)
  have hoff : (mbufFill m bs).boff = (mbufFill m bs).b.length := by
    rw [← Mbuf.bsize, hsize]
    exact h
  rw [← received_fill m bs (by omega), Mbuf.received, hoff, List.take_length]

/-- The read completes the header. -/
private theorem recv_header {m : Mbuf} {bs : Bytes} (h40 : m.bsize = 40)
    (hfull : m.boff + bs.length = m.bsize) :
    RecvSpec m.received bs ((mbufExpand (mbufFill m bs)).map fun m =>
      if m.boff = m.bsize then (some m, none) else (none, some m)) := by
  have hb := fill_full hfull
  have hsize := bsize_fill m bs (by omega)
  have hoff : (mbufFill m bs).boff = m.boff + bs.length := rfl
  have hlen : (m.received ++ bs).length = 40 := by
    rw [← hb, ← Mbuf.bsize, hsize, h40]
  have htake : (m.received ++ bs).take 40 = m.received ++ bs :=
    List.take_of_length_le (by omega)
  have hpay : hdrGetPaylen (mbufFill m bs) = msgFormat.len (m.received ++ bs) :=
    hdrGetPaylen_eq_len (by rw [hb, htake])
  have hfsize : msgFormat.size (m.received ++ bs) = 40 + msgFormat.len (m.received ++ bs) := by
    rw [FrameFormat.size, msgFormat_hdr, htake]
  by_cases hbad : MSG_MAX_PAY_SIZE < msgFormat.len (m.received ++ bs)
  · -- The header announces too much and the resize exits.
    have hres : mbufExpand (mbufFill m bs) = none := by
      rw [mbufExpand, if_pos ⟨by omega, by unfold MSG_HDR_SIZE; omega, by omega⟩, mbufResize, hpay,
        if_pos (by unfold MSG_MAX_SIZE; omega)]
    rw [hres]
    exact .exits (by rw [FrameFormat.absorb, if_pos ⟨by rw [msgFormat_hdr]; exact hlen, hbad⟩])
  · by_cases hzero : msgFormat.len (m.received ++ bs) = 0
    · -- No payload: the header is the whole message.
      rw [mbufExpand, if_neg (by omega), Option.map_some, if_pos (by omega)]
      refine .complete _ hb (by omega) ?_
      rw [FrameFormat.absorb, if_neg (by omega), if_pos ⟨by rw [msgFormat_hdr]; omega, by omega⟩]
    · -- The buffer grows to the announced length and stays pending.
      let g : Mbuf :=
        { b := m.received ++ bs ++ List.replicate (msgFormat.len (m.received ++ bs)) 0, boff := 40 }
      have hgsize : g.bsize = 40 + msgFormat.len (m.received ++ bs) := by
        rw [← hlen]
        simp [g, Mbuf.bsize]
        omega
      have hgrec : g.received = m.received ++ bs := by
        change (m.received ++ bs ++ List.replicate _ 0).take 40 = _
        rw [List.take_append_of_le_length (by omega), htake]
      have hres : mbufExpand (mbufFill m bs) = some g := by
        have htake' : (m.received ++ bs).take (msgFormat.len (m.received ++ bs) + 40) =
            m.received ++ bs := List.take_of_length_le (by omega)
        have hadd : msgFormat.len (m.received ++ bs) + 40 - (mbufFill m bs).bsize =
            msgFormat.len (m.received ++ bs) := by omega
        have hmin : min (mbufFill m bs).boff (msgFormat.len (m.received ++ bs) + 40) = 40 := by
          omega
        rw [mbufExpand, if_pos ⟨by omega, by unfold MSG_HDR_SIZE; omega, by omega⟩, mbufResize,
          hpay, if_neg (by unfold MSG_MAX_SIZE; omega)]
        simp only [MSG_HDR_SIZE, hb, htake', hadd, hmin, g]
      have hgoff : g.boff = 40 := rfl
      rw [hres, Option.map_some, if_neg (by omega)]
      refine .pending g ⟨by omega, ?_, ?_⟩ hgrec ?_
      · rw [if_neg (by omega), hgrec, hfsize, hgsize]
      · rw [hgsize]
        unfold MSG_MAX_SIZE MSG_HDR_SIZE
        omega
      · rw [FrameFormat.absorb, if_neg (by omega), if_neg]
        rintro ⟨-, hcomp⟩
        omega

/-- The read completes the payload. -/
private theorem recv_payload {m : Mbuf} {bs : Bytes} (h40 : 40 ≤ m.boff)
    (hsz : m.bsize = msgFormat.size m.received) (hlt : m.boff < m.bsize)
    (hfull : m.boff + bs.length = m.bsize) :
    RecvSpec m.received bs ((mbufExpand (mbufFill m bs)).map fun m =>
      if m.boff = m.bsize then (some m, none) else (none, some m)) := by
  have hb := fill_full hfull
  have hsize := bsize_fill m bs (by omega)
  have hoff : (mbufFill m bs).boff = m.boff + bs.length := rfl
  have hlen := length_received (Nat.le_of_lt hlt)
  have hcat : (m.received ++ bs).length = m.boff + bs.length := by rw [List.length_append, hlen]
  have hgrow := msgFormat.size_append (s := m.received) bs (by rw [msgFormat_hdr]; omega)
  rw [mbufExpand, if_neg (by unfold MSG_HDR_SIZE; omega), Option.map_some, if_pos (by omega)]
  refine .complete _ hb (by omega) ?_
  rw [FrameFormat.absorb, if_neg (by rw [msgFormat_hdr]; omega),
    if_pos ⟨by rw [msgFormat_hdr]; omega, by omega⟩]

/-- The read leaves the buffer unfilled. -/
private theorem recv_partial {m : Mbuf} {bs : Bytes} (hok : RbufOk m)
    (hmore : m.boff + bs.length < m.bsize) :
    RecvSpec m.received bs ((mbufExpand (mbufFill m bs)).map fun m =>
      if m.boff = m.bsize then (some m, none) else (none, some m)) := by
  have hsize := bsize_fill m bs (by omega)
  have hoff : (mbufFill m bs).boff = m.boff + bs.length := rfl
  have hfill := received_fill m bs (by omega)
  have hlen := length_received (m := m) (by omega)
  have hcat : (m.received ++ bs).length = m.boff + bs.length := by rw [List.length_append, hlen]
  have hsz := hok.size
  have hmax := hok.max
  -- The announced length is the one known before the read.
  have hgrow : m.boff < 40 ∨ msgFormat.size (m.received ++ bs) = m.bsize := by
    by_cases hlt : m.boff < 40
    · exact .inl hlt
    · rw [if_neg hlt] at hsz
      exact .inr (by rw [msgFormat.size_append bs (by rw [msgFormat_hdr]; omega), hsz])
  have h40 : m.boff < 40 → m.bsize = 40 := by
    intro hlt
    rwa [if_pos hlt] at hsz
  have hge40 : ¬ m.boff < 40 → 40 ≤ m.bsize := by
    intro hge
    have := hok.lt
    omega
  rw [mbufExpand, if_neg (by omega), Option.map_some, if_neg (by omega)]
  refine .pending _ ⟨by omega, ?_, by omega⟩ hfill ?_
  · rw [hsize, hoff, hfill]
    by_cases hlt : m.boff < 40
    · have := h40 hlt
      rw [if_pos (by omega), this]
    · rcases hgrow with h | h
      · exact absurd h hlt
      · rw [if_neg (by omega), h]
  · rw [FrameFormat.absorb, if_neg, if_neg]
    · rintro ⟨hhdr, hcomp⟩
      rw [msgFormat_hdr] at hhdr
      rcases hgrow with h | h
      · have := h40 h
        omega
      · omega
    · rintro ⟨hhdr, hbad⟩
      rw [msgFormat_hdr] at hhdr
      by_cases hlt : m.boff < 40
      · have := h40 hlt
        omega
      · have hnil : bs = [] := List.length_eq_zero_iff.mp (by omega)
        have hpend := hok.pending.2 (by rw [msgFormat_hdr]; omega)
        have htake : m.received.take msgFormat.hdr = m.received :=
          List.take_of_length_le (by rw [msgFormat_hdr]; omega)
        rw [htake] at hpend
        rw [hnil, List.append_nil] at hbad
        omega

/-- The starting point of a read: a missing receive buffer is a fresh one. -/
theorem RecvOk.getD {rbuf : Option Mbuf} (h : RecvOk rbuf) :
    RbufOk (rbuf.getD mbufNew) ∧ received rbuf = (rbuf.getD mbufNew).received := by
  cases rbuf with
  | none => exact ⟨rbufOk_new, received_new.symm⟩
  | some m => exact ⟨h m rfl, rfl⟩

/-- **One read is one step of the generic receiver.** -/
theorem recv_spec {rbuf : Option Mbuf} (bs : Bytes) (hok : RecvOk rbuf)
    (hbs : bs.length ≤ (rbuf.getD mbufNew).room) :
    RecvSpec (received rbuf) bs (recv rbuf bs) := by
  obtain ⟨hm, hrec⟩ := hok.getD
  have hlt := hm.lt
  have hsize := hm.size
  rw [hrec, recv]
  unfold Mbuf.room at hbs
  by_cases hfull : (rbuf.getD mbufNew).boff + bs.length = (rbuf.getD mbufNew).bsize
  · by_cases hlt40 : (rbuf.getD mbufNew).boff < 40
    · rw [if_pos hlt40] at hsize
      exact recv_header hsize hfull
    · rw [if_neg hlt40] at hsize
      exact recv_payload (by omega) hsize hlt hfull
  · exact recv_partial hm (by omega)

/-- What is pending holds no complete message. -/
theorem RecvOk.frames_received {rbuf : Option Mbuf} (h : RecvOk rbuf) :
    msgFormat.frames (received rbuf) = [] := by
  cases rbuf with
  | none => exact msgFormat.frames_nil
  | some m => exact msgFormat.frames_of_not_complete (h m rfl).pending.1

/-- What all reads of a stream can do. -/
inductive RunSpec (s : Bytes) : Option (List Mbuf × Option Mbuf) → Prop
  | exits : ¬ msgFormat.WellSized MSG_MAX_PAY_SIZE s → RunSpec s none
  | delivers (ms : List Mbuf) (rbuf : Option Mbuf) : msgFormat.WellSized MSG_MAX_PAY_SIZE s →
      ms.map Mbuf.b = msgFormat.frames s → received rbuf = msgFormat.rest s → RecvOk rbuf →
      RunSpec s (some (ms, rbuf))

/-- All reads are all steps of the generic receiver. -/
private theorem recvAll_assemble {rbuf : Option Mbuf} {cs : List Bytes} (hok : RecvOk rbuf)
    (hcs : msgFormat.Feasible (received rbuf) cs) :
    (recvAll rbuf cs = none ∧
      msgFormat.assemble MSG_MAX_PAY_SIZE (received rbuf) cs = none) ∨
    ∃ ms rbuf', recvAll rbuf cs = some (ms, rbuf') ∧ RecvOk rbuf' ∧
      msgFormat.assemble MSG_MAX_PAY_SIZE (received rbuf) cs =
        some (ms.map Mbuf.b, received rbuf') := by
  induction cs generalizing rbuf with
  | nil => exact .inr ⟨[], rbuf, rfl, hok, rfl⟩
  | cons c cs ih =>
      obtain ⟨hm, hrec⟩ := hok.getD
      cases hcs with
      | cons hne hle hrest =>
          have hpend : msgFormat.Pending MSG_MAX_PAY_SIZE (received rbuf) := by
            rw [hrec]
            exact hm.pending
          have habs := (msgFormat.absorb_eq hpend hne hle).1
          have hspec := recv_spec c hok (by rw [hm.room_eq, ← hrec]; exact hle)
          rw [recvAll, FrameFormat.assemble]
          generalize hr : recv rbuf c = r at hspec
          -- What stays pending is the rest of the stream so far.
          have hnext : ∀ {fs : List Bytes} {p : Bytes},
              msgFormat.absorb MSG_MAX_PAY_SIZE (received rbuf) c = some (fs, p) →
              p = msgFormat.rest (received rbuf ++ c) := by
            intro fs p h
            rw [habs] at h
            split at h
            · cases h
              rfl
            · cases h
          cases hspec with
          | exits h => exact .inl ⟨rfl, by rw [h]; rfl⟩
          | complete m hb _ h =>
              have hrest' : msgFormat.Feasible (received none) cs := by
                rw [← hnext h] at hrest
                exact hrest
              rw [h, Option.bind_some, Option.bind_some]
              rcases ih (fun _ h => by cases h) hrest' with
                ⟨h₁, h₂⟩ | ⟨ms, rbuf', h₁, hok', h₂⟩
              · refine .inl ⟨by rw [h₁]; rfl, ?_⟩
                change Option.map _ (msgFormat.assemble MSG_MAX_PAY_SIZE (received none) cs) = _
                rw [h₂]
                rfl
              · refine .inr ⟨m :: ms, rbuf', by rw [h₁]; rfl, hok', ?_⟩
                change Option.map _ (msgFormat.assemble MSG_MAX_PAY_SIZE (received none) cs) = _
                rw [h₂, ← hb]
                rfl
          | pending m hmok hmrec h =>
              have hrest' : msgFormat.Feasible (received (some m)) cs := by
                rw [← hnext h, ← hmrec] at hrest
                exact hrest
              rw [h, Option.bind_some, Option.bind_some, ← hmrec]
              rcases ih (fun _ h => by cases h; exact hmok) hrest' with
                ⟨h₁, h₂⟩ | ⟨ms, rbuf', h₁, hok', h₂⟩
              · refine .inl ⟨by rw [h₁]; rfl, ?_⟩
                change Option.map _ (msgFormat.assemble MSG_MAX_PAY_SIZE (received (some m)) cs) = _
                rw [h₂]
                rfl
              · refine .inr ⟨ms, rbuf', by rw [h₁]; rfl, hok', ?_⟩
                change Option.map _ (msgFormat.assemble MSG_MAX_PAY_SIZE (received (some m)) cs) = _
                rw [h₂]
                rfl

/-- **Reassembly.** However a stream is cut into reads, the process exits
exactly when some complete header announces more than the payload limit, and
otherwise the messages delivered are the frames of the stream. -/
theorem recvAll_spec {rbuf : Option Mbuf} {cs : List Bytes} (hok : RecvOk rbuf)
    (hcs : msgFormat.Feasible (received rbuf) cs) :
    RunSpec (received rbuf ++ cs.flatten) (recvAll rbuf cs) := by
  obtain ⟨hm, hrec⟩ := hok.getD
  have hpend : msgFormat.Pending MSG_MAX_PAY_SIZE (received rbuf) := by
    rw [hrec]
    exact hm.pending
  have hall := msgFormat.assemble_eq hpend hcs
  rcases recvAll_assemble hok hcs with ⟨h₁, h₂⟩ | ⟨ms, rbuf', h₁, hok', h₂⟩
  · rw [h₁]
    rw [h₂] at hall
    split at hall
    · cases hall
    · rename_i hbad
      exact .exits hbad
  · rw [h₁]
    rw [h₂] at hall
    split at hall
    · rename_i hgood
      have heq := Option.some.inj hall
      exact .delivers ms rbuf' hgood (congrArg Prod.fst heq) (congrArg Prod.snd heq) hok'
    · cases hall

/-! ## One ready descriptor -/

/-- A complete message: a header and as many octets as it announces. -/
structure Whole (b : Bytes) : Prop where
  hdr : 40 ≤ b.length
  size : b.length = msgFormat.size b
  max : b.length ≤ MSG_MAX_SIZE

/-- The results `readOutcome` can have on a buffer between two reads. -/
inductive ReadSpec (rbuf : Mbuf) (res : ReadRes) : ReadOutcome → Prop
  | disconnect : ReadSpec rbuf res .disconnect
  | again : res = .failed false → ReadSpec rbuf res .again
  | exits (bs : Bytes) : res = .got bs → bs.take rbuf.room ≠ [] →
      msgFormat.absorb MSG_MAX_PAY_SIZE rbuf.received (bs.take rbuf.room) = none →
      ReadSpec rbuf res .exits
  | pending (bs : Bytes) (m : Mbuf) : res = .got bs → bs.take rbuf.room ≠ [] → RbufOk m →
      m.received = rbuf.received ++ bs.take rbuf.room → ReadSpec rbuf res (.pending (some m))
  | complete (bs : Bytes) (m : Mbuf) : res = .got bs → bs.take rbuf.room ≠ [] → Whole m.b →
      m.boff = m.bsize → m.b = rbuf.received ++ bs.take rbuf.room →
      ReadSpec rbuf res (.complete m)

theorem readOutcome_spec {rbuf : Mbuf} (h : RbufOk rbuf) (res : ReadRes) :
    ReadSpec rbuf res (readOutcome rbuf res) := by
  unfold readOutcome
  rw [if_pos h.lt]
  cases res with
  | failed fatal =>
      cases fatal with
      | true => exact .disconnect
      | false => exact .again rfl
  | got bs =>
      by_cases hnil : bs.take rbuf.room = []
      · simp only [hnil, if_true]
        exact .disconnect
      · simp only [hnil, if_false]
        have hok : RecvOk (some rbuf) := fun _ hm => Option.some.inj hm ▸ h
        have hle : (bs.take rbuf.room).length ≤ rbuf.room := List.length_take_le _ _
        have hspec := recv_spec _ hok hle
        have hneed : (bs.take rbuf.room).length ≤ msgFormat.need rbuf.received := by
          rw [← h.room_eq]
          exact hle
        rw [recvOutcome]
        generalize recv (some rbuf) (bs.take rbuf.room) = r at hspec
        cases hspec with
        | exits habs => exact .exits bs rfl hnil habs
        | complete m hb hoff habs =>
            obtain ⟨-, hpend⟩ := msgFormat.absorb_eq h.pending hnil hneed
            have habs' := (msgFormat.absorb_eq h.pending hnil hneed).1
            change msgFormat.absorb MSG_MAX_PAY_SIZE rbuf.received _ = _ at habs
            rw [habs'] at habs
            split at habs
            · rename_i hws
              have hfr := congrArg Prod.fst (Option.some.inj habs)
              have hmem : m.b ∈ msgFormat.frames (rbuf.received ++ bs.take rbuf.room) := by
                change msgFormat.frames (rbuf.received ++ bs.take rbuf.room) = _ at hfr
                rw [hfr, hb]
                exact List.mem_cons_self
              obtain ⟨hhdr, hsz⟩ := msgFormat.size_of_mem_frames hmem
              have hmax := hws.1 _ hmem
              refine .complete bs m rfl hnil ⟨hhdr, hsz, ?_⟩ hoff hb
              rw [hsz]
              unfold FrameFormat.size MSG_MAX_SIZE
              rw [msgFormat_hdr] at hmax ⊢
              unfold MSG_HDR_SIZE
              omega
            · cases habs
        | pending m hmok hrec habs => exact .pending bs m rfl hnil hmok hrec

/-- A read that fails, or finds the end of the stream, brings no octets. -/
theorem no_octets_of_disconnect {rbuf : Mbuf} {bs : Bytes}
    (hout : readOutcome rbuf (.got bs) = .disconnect) : bs.take rbuf.room = [] := by
  have hrecv : ∀ cs, recvOutcome rbuf cs ≠ .disconnect := by
    intro cs
    unfold recvOutcome
    split <;> nofun
  unfold readOutcome at hout
  split at hout
  · simp only at hout
    split at hout
    · assumption
    · exact absurd hout (hrecv _)
  · exact absurd hout (hrecv _)

/-- The read brings the last octets of a header, and that header announces more
than a message can carry. -/
def Oversized (rbuf : Mbuf) (res : ReadRes) : Prop :=
  ∃ bs, res = .got bs ∧ (rbuf.received ++ bs.take rbuf.room).length = MSG_HDR_SIZE ∧
    MSG_MAX_PAY_SIZE < msgFormat.len (rbuf.received ++ bs.take rbuf.room)

/-- A whole header pending in a buffer announces what a message can carry. -/
theorem RbufOk.not_oversized {m : Mbuf} (h : RbufOk m) (hlen : m.received.length = MSG_HDR_SIZE) :
    msgFormat.len m.received ≤ MSG_MAX_PAY_SIZE := by
  have htake : m.received.take msgFormat.hdr = m.received :=
    List.take_of_length_le (Nat.le_of_eq hlen)
  have hmax := h.pending.2 (Nat.le_of_eq hlen.symm)
  rwa [htake] at hmax

/-- A message that is a header only announces nothing. -/
theorem Whole.len_eq_zero {b : Bytes} (h : Whole b) (hlen : b.length = MSG_HDR_SIZE) :
    msgFormat.len b = 0 := by
  have htake : b.take msgFormat.hdr = b := List.take_of_length_le (Nat.le_of_eq hlen)
  have hsize := h.size
  rw [FrameFormat.size, htake, msgFormat_hdr, hlen, MSG_HDR_SIZE] at hsize
  omega

/-- **Exactly an oversized header ends the process** while a message is assembled. -/
theorem readOutcome_exits_iff {rbuf : Mbuf} (h : RbufOk rbuf) (res : ReadRes) :
    readOutcome rbuf res = .exits ↔ Oversized rbuf res := by
  have hspec := readOutcome_spec h res
  generalize hout : readOutcome rbuf res = out at hspec
  constructor
  · rintro rfl
    cases hspec with
    | exits bs hres hne habs =>
        unfold FrameFormat.absorb at habs
        split at habs
        · rename_i hbad
          exact ⟨bs, hres, hbad⟩
        · split at habs <;> cases habs
  · rintro ⟨bs, rfl, hlen, hbad⟩
    cases hspec with
    | disconnect =>
        have hnil := no_octets_of_disconnect hout
        rw [hnil, List.append_nil] at hlen hbad
        have := h.not_oversized hlen
        omega
    | again hres => cases hres
    | exits bs hres hne habs => rfl
    | pending cs m hres hne hm hrec =>
        cases hres
        rw [← hrec] at hlen hbad
        have := hm.not_oversized hlen
        omega
    | complete cs m hres hne hwhole hoff hb =>
        cases hres
        rw [← hb] at hlen hbad
        have := hwhole.len_eq_zero hlen
        omega

/-! ## A message arrives -/

/-- The rest of a message arrives in one read. -/
theorem readOutcome_rest {rbuf : Mbuf} (h : RbufOk rbuf) {bs b : Bytes} (hb : Whole b)
    (hne : bs ≠ []) (hcat : rbuf.received ++ bs = b) (hroom : bs.length ≤ rbuf.room) :
    readOutcome rbuf (.got bs) = .complete { b := b, boff := b.length } := by
  have htake : bs.take rbuf.room = bs := List.take_of_length_le hroom
  have hspec := readOutcome_spec h (.got bs)
  generalize hout : readOutcome rbuf (.got bs) = out at hspec
  cases hspec with
  | disconnect => exact absurd (htake ▸ no_octets_of_disconnect hout) hne
  | again hres => cases hres
  | exits cs hres hne' habs =>
      cases hres
      obtain ⟨cs, hres, hlen, hbad⟩ := (readOutcome_exits_iff h _).mp hout
      cases hres
      rw [htake, hcat] at hlen hbad
      have := hb.len_eq_zero hlen
      omega
  | pending cs m hres hne' hm hrec =>
      cases hres
      rw [htake, hcat] at hrec
      exact absurd (hrec ▸ ⟨hb.hdr, Nat.le_of_eq hb.size.symm⟩) hm.pending.1
  | complete cs m hres hne' hwhole hoff hmb =>
      cases hres
      rw [htake, hcat] at hmb
      obtain ⟨mb, moff⟩ := m
      simp only [Mbuf.bsize] at hoff hmb
      rw [hoff, hmb]

/-- The header of a message with a payload arrives in one read. -/
theorem readOutcome_header {b : Bytes} (hb : Whole b) (hlong : 40 < b.length) :
    ∃ m, readOutcome mbufNew (.got (b.take 40)) = .pending (some m) ∧ RbufOk m ∧
      m.received = b.take 40 ∧ m.room = (b.drop 40).length := by
  have hlen : (b.take 40).length = 40 := by
    rw [List.length_take]
    omega
  have hroom : mbufNew.room = 40 := by decide
  have htake : (b.take 40).take mbufNew.room = b.take 40 :=
    List.take_of_length_le (by rw [hlen, hroom])
  have hsize : b.length = 40 + msgFormat.len (b.take 40) := hb.size
  have hspec := readOutcome_spec rbufOk_new (.got (b.take 40))
  generalize hout : readOutcome mbufNew (.got (b.take 40)) = out at hspec
  cases hspec with
  | disconnect =>
      have hnil := no_octets_of_disconnect hout
      rw [htake] at hnil
      rw [hnil] at hlen
      cases hlen
  | again hres => cases hres
  | exits cs hres hne habs =>
      obtain ⟨cs, hres, -, hbad⟩ := (readOutcome_exits_iff rbufOk_new _).mp hout
      cases hres
      rw [htake, received_new, List.nil_append] at hbad
      have hmax := hb.max
      unfold MSG_MAX_SIZE MSG_HDR_SIZE at hmax
      omega
  | pending cs m hres hne hm hrec =>
      cases hres
      rw [htake, received_new, List.nil_append] at hrec
      refine ⟨m, rfl, hm, hrec, ?_⟩
      have hneed : msgFormat.size (b.take 40) = b.length := by
        rw [FrameFormat.size, msgFormat_hdr, List.take_take, Nat.min_self, hsize]
      rw [hm.room_eq, hrec, FrameFormat.need, hlen, if_neg (by decide), hneed, List.length_drop]
  | complete cs m hres hne hwhole hoff hmb =>
      cases hres
      rw [htake, received_new, List.nil_append] at hmb
      have hfull := hwhole.size
      rw [hmb, hlen, FrameFormat.size, msgFormat_hdr, List.take_take, Nat.min_self] at hfull
      omega

/-- What a read completes is a complete message. -/
theorem whole_of_complete {rbuf m : Mbuf} {res : ReadRes} (h : RbufOk rbuf)
    (hm : readOutcome rbuf res = .complete m) : Whole m.b := by
  have hspec := readOutcome_spec h res
  rw [hm] at hspec
  cases hspec with
  | complete bs _ hres hne hwhole hoff hb => exact hwhole

/-- A message as long as its own payload length field says is a complete one. -/
theorem whole_of_framed {m : Mbuf} (h : m.bsize = 40 + hdrGetPaylen m)
    (hmax : m.bsize ≤ MSG_MAX_SIZE) : Whole m.b := by
  have hlen : m.b.length = 40 + msgFormat.len (m.b.take 40) := by
    rw [← hdrGetPaylen_eq_len rfl]
    exact h
  exact ⟨by omega, hlen, hmax⟩

theorem whole_iff {m : Mbuf} :
    Whole m.b ↔ m.bsize = 40 + hdrGetPaylen m ∧ m.bsize ≤ MSG_MAX_SIZE := by
  constructor
  · intro h
    refine ⟨?_, h.max⟩
    rw [hdrGetPaylen_eq_len rfl]
    exact h.size
  · rintro ⟨h, hmax⟩
    exact whole_of_framed h hmax

/-! ## The send queue -/

theorem unsent_append (q ms : List Mbuf) : unsent (q ++ ms) = unsent q ++ unsent ms :=
  List.flatMap_append

/-- Of messages that are not partly sent everything is to be written. -/
theorem unsent_whole {ms : List Mbuf} (h : ∀ m ∈ ms, m.boff = 0) :
    unsent ms = (ms.map Mbuf.b).flatten := by
  induction ms with
  | nil => rfl
  | cons m ms ih =>
      have hm : m.b.drop m.boff = m.b := by rw [h m List.mem_cons_self, List.drop_zero]
      have hms : unsent ms = (ms.map Mbuf.b).flatten := ih fun x hx => h x (List.mem_cons_of_mem _ hx)
      change m.b.drop m.boff ++ unsent ms = m.b ++ (ms.map Mbuf.b).flatten
      rw [hm, hms]

/-- What a write puts on the wire comes off what was to be written. -/
theorem octetsSent_of_sent {m m' : Mbuf} {res : WriteRes} (h : writeOutcome m res = .sent m') :
    m'.b = m.b ∧ octetsSent m res ++ m'.b.drop m'.boff = m.b.drop m.boff := by
  unfold writeOutcome at h
  split at h
  · cases res with
    | failed fatal => cases fatal <;> cases h
    | sent n =>
        simp only at h
        split at h
        · cases h
        · cases h
          refine ⟨rfl, ?_⟩
          rw [octetsSent, peek, ← List.drop_drop, List.take_append_drop]
  · rename_i hfull
    cases h
    have hroom : m.room = 0 := Nat.sub_eq_zero_of_le (Nat.le_of_not_lt hfull)
    refine ⟨rfl, ?_⟩
    cases res with
    | failed fatal => rfl
    | sent n =>
        rw [octetsSent, hroom, Nat.min_zero, peek, List.take_zero]
        rfl

/-- A write that fails puts nothing on the wire. -/
theorem octetsSent_of_not_sent {m : Mbuf} {res : WriteRes}
    (h : ∀ m', writeOutcome m res ≠ .sent m') : octetsSent m res = [] := by
  cases res with
  | failed fatal => rfl
  | sent n =>
      unfold writeOutcome at h
      split at h
      · simp only at h
        split at h
        · rename_i hzero
          rw [octetsSent, hzero, peek, List.take_zero]
        · exact absurd rfl (h _)
      · exact absurd rfl (h m)

end Frelay
