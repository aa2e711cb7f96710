import Frelay.Client.Accepted
import Frelay.Client.Streams
import Frelay.Message.Reads
import Frelay.Session.Turns

/-!
# Offers on both sides

`offer` adds an entry to the list of the sender and announces it by an OFFER request. The
receiver makes an entry of its own out of the request.

* `Announces` — a message that announces an offer;
* `offer_announced` — what `offer` queues is one;
* `announced_entered` — what the receiver makes of one.
-/

namespace Frelay

open Lib

/-- What the receiver of an offer is told. -/
structure Bid where
  oid : UInt64
  name : Bytes
  size : UInt64
  deriving DecidableEq

/-- What the sender tells of its offer. -/
def Transfer.bid (o : Transfer) : Bid := ⟨o.oid, Clt.basename (o.name.getD []), o.size⟩

/-- One more attribute of an OFFER request; the last one of a type counts. -/
def Bid.read (o : Bid) (a : UInt16 × Bytes) : Bid :=
  if a.1 = MsgAttrib.code .offerid then { o with oid := rd64 (a.2.take 8) }
  else if a.1 = MsgAttrib.code .filename then { o with name := a.2.takeWhile (· ≠ 0) }
  else if a.1 = MsgAttrib.code .size then { o with size := rd64 (a.2.take 8) }
  else o

/-- The offer a message announces. Nobody takes an empty file. -/
def bidOf (b : Bytes) : Option Bid :=
  if hdrGetType (msg b) = MsgType.code .offerReq then
    (some ((attribs (msg b)).foldl Bid.read ⟨0, [], 0⟩)).filter fun o => o.size ≠ 0
  else none

/-- The message announces the offer. -/
structure Announces (b : Bytes) (o : Bid) : Prop where
  type : hdrGetType (msg b) = MsgType.code .offerReq
  attribs : attribs (msg b) = [(MsgAttrib.code .offerid, be64 o.oid),
    (MsgAttrib.code .filename, o.name ++ [0]), (MsgAttrib.code .size, be64 o.size)]
  name : o.name ≠ [] ∧ 0 ∉ o.name

/-- The three attributes are told apart. -/
theorem offer_codes : MsgAttrib.code .filename ≠ MsgAttrib.code .offerid ∧
    MsgAttrib.code .size ≠ MsgAttrib.code .offerid ∧
    MsgAttrib.code .size ≠ MsgAttrib.code .filename := by decide

theorem Announces.takeWhile_name {b : Bytes} {o : Bid} (h : Announces b o) :
    (o.name ++ [0]).takeWhile (· ≠ 0) = o.name := by
  rw [List.takeWhile_append_of_pos]
  · simp
  · intro x hx
    simp only [ne_eq, decide_eq_true_eq]
    rintro rfl
    exact h.name.2 hx

theorem Announces.bidOf {b : Bytes} {o : Bid} (h : Announces b o) :
    bidOf b = (some o).filter fun o => o.size ≠ 0 := by
  have hword : ∀ x, rd64 ((be64 x).take 8) = x := fun x => by
    rw [List.take_of_length_le (by rw [length_be64]), rd64_be64]
  obtain ⟨hname, hsize, hsize'⟩ := offer_codes
  rw [Frelay.bidOf, if_pos h.type, h.attribs]
  simp only [List.foldl_cons, List.foldl_nil, Bid.read, hname, hsize, hsize', if_true, if_false,
    h.takeWhile_name, hword]

/-! ## Placing an offer -/

theorem basename_ne_nil (path : Bytes) : Clt.basename path ≠ [] := by
  unfold Clt.basename
  split
  · exact List.cons_ne_nil _ _
  · simp only
    split
    · exact List.cons_ne_nil _ _
    · rename_i hpath hstripped
      -- The last octet of what is left is no slash.
      intro hnil
      rw [List.reverse_eq_nil_iff, List.takeWhile_eq_nil_iff] at hnil
      have hlen : 0 < (path.reverse.dropWhile (· == 0x2f)).reverse.reverse.length := by
        rw [List.length_reverse, List.length_pos_iff]
        exact hstripped
      have hslash := hnil hlen
      simp only [List.reverse_reverse] at hslash hlen
      have hhead := List.dropWhile_get_zero_not (· == 0x2f) path.reverse hlen
      simp_all

theorem not_mem_basename {path : Bytes} (h : 0 ∉ path) : 0 ∉ Clt.basename path := by
  unfold Clt.basename
  split
  · decide
  · simp only
    split
    · decide
    · intro hmem
      rw [List.mem_reverse] at hmem
      have hmem' := (List.takeWhile_sublist _).subset hmem
      rw [List.reverse_reverse] at hmem'
      exact h (List.mem_reverse.mp ((List.dropWhile_sublist _).subset hmem'))

theorem length_octets_le (l : List (MsgAttrib × AttrArg)) :
    ∀ a ∈ l, a.2.octets.length ≤ (tlvs l).length := by
  induction l with
  | nil => exact fun a ha => absurd ha List.not_mem_nil
  | cons b l ih =>
      intro a ha
      rw [tlvs_cons, List.length_append, length_tlv]
      rcases List.mem_cons.mp ha with rfl | ha
      · have hle := le_roundup8 a.2.octets.length
        omega
      · have hle := ih a ha
        omega

/-- **What `offer` queues announces the offer**, to whichever client it is delivered. -/
theorem offer_announced {env : CltEnv} {c t : Clt} {o : Transfer} {dest : UInt64} {filename : Bytes}
    (ho : offerNew env.toSysEnv c.disk c.nextAddr dest env.rndOffer filename = some o)
    (hname : 0 ∉ filename) (hup : 0 ≤ c.srvfd)
    (h : Clt.request env (c.push c.disk o) .offerReq o.rid
      [(.offerid, .ui64 o.oid), (.filename, .str (Clt.basename filename)), (.size, .ui64 o.size)] =
        some t) :
    o.addr = c.nextAddr ∧ o.type = .offer ∧ ∃ r, t = { c.push c.disk o with q := c.q ++ [r] } ∧
      r.boff = 0 ∧ hdrGetDstid r = o.rid ∧ ∀ id, Announces (hdrSetSrcid r id).b o.bid := by
  obtain ⟨fsz, -, rfl⟩ := Option.map_eq_some_iff.mp ho
  refine ⟨rfl, rfl, ?_⟩
  obtain ⟨m, hm, rfl⟩ := Option.map_eq_some_iff.mp h
  have hty : ∀ a ∈ [(MsgAttrib.offerid, AttrArg.ui64 env.rndOffer),
      (.filename, .str (Clt.basename filename)), (.size, .ui64 (UInt64.ofNat fsz))],
      a.2.avtype = a.1.avtype := by simp [AttrArg.avtype, MsgAttrib.avtype]
  obtain ⟨hlen, hm'⟩ := compose_eq_some hty hm
  have hshort : ∀ a ∈ [(MsgAttrib.offerid, AttrArg.ui64 env.rndOffer),
      (.filename, .str (Clt.basename filename)), (.size, .ui64 (UInt64.ofNat fsz))],
      a.2.octets.length < 65536 := by
    intro a ha
    have hle := length_octets_le _ a ha
    unfold MSG_MAX_PAY_SIZE at hlen
    omega
  refine ⟨{ m with boff := 0 }, ?_, rfl, ?_, fun id => ?_⟩
  · exact if_neg (Int.not_lt.mpr hup)
  · rw [hm']
    exact hdrGetDstid_mkMsg _ _ _
  · obtain ⟨hatt, htype, -⟩ := compose_received hty hshort hm id
    refine ⟨htype, hatt, ?_, ?_⟩
    · exact basename_ne_nil filename
    · exact not_mem_basename hname

/-! ## Entering an offer -/

/-- The entry is made of the offer by a client that renames files it would clobber, or not. -/
structure Bid.Enters (o : Bid) (noClobber : Bool) (rid : UInt64) (d : Transfer) : Prop where
  type : d.type = .download
  rid : d.rid = rid
  oid : d.oid = o.oid
  size : d.size = o.size
  name : if noClobber then ∃ i, d.name = some (nameCandidate o.name i) else d.name = some o.name

/-- The attributes of a message are the values that are found in it. -/
theorem attribsFrom_eq (n : Nat) (m : Mbuf) :
    attribsFrom n m = (Clt.attribRefsFrom n m).map fun a => (a.at', blobAt m a) := by
  induction n generalizing m with
  | zero => rfl
  | succ n ih =>
      rw [attribsFrom, Clt.attribRefsFrom]
      cases hnext : mbufGetnextattrib m with
      | none => rfl
      | some p =>
          obtain ⟨a, m'⟩ := p
          have hb : m'.b = m.b := (getnextattrib_fits hnext).2
          simp only [List.map_cons, ih m', blobAt, hb]

theorem nameCandidate_ne_nil (s : Bytes) (i : Nat) : nameCandidate s i ≠ [] := by
  unfold nameCandidate
  simp

/-- **What is announced is entered**, before it is looked at. -/
theorem announced_entered (env : CltEnv) (c : Clt) {m : Mbuf} {o : Bid} (h : Announces m.b o) :
    o.Enters c.cfg.noClobber (hdrGetSrcid m) (Clt.offeredEntry env c m).2 ∧
      (Clt.offeredEntry env c m).2.addr = c.nextAddr := by
  have hatt := h.attribs
  rw [show attribs (msg m.b) = _ from attribsFrom_eq m.bsize (mbufResetgetattrib m)] at hatt
  obtain ⟨a, l, hl, hoid, hrest⟩ := List.map_eq_cons_iff.mp hatt
  obtain ⟨b, l, rfl, hfile, hrest⟩ := List.map_eq_cons_iff.mp hrest
  obtain ⟨d, l, rfl, hsize, hrest⟩ := List.map_eq_cons_iff.mp hrest
  obtain rfl := List.map_eq_nil_iff.mp hrest
  obtain ⟨hoid, hoidv⟩ := Prod.mk.inj hoid
  obtain ⟨hfile, hfilev⟩ := Prod.mk.inj hfile
  obtain ⟨hsize, hsizev⟩ := Prod.mk.inj hsize
  have hzero : 0 ∈ blobAt (mbufResetgetattrib m) b := by
    rw [hfilev]
    exact List.mem_append_right _ List.mem_cons_self
  have hname : cstrAt (mbufResetgetattrib m) env.beyond b.av = o.name := by
    rw [(cstrAt_inside hzero env.beyond).1, hfilev]
    exact h.takeWhile_name
  obtain ⟨hne, hne', hne''⟩ := offer_codes
  have hentry : (Clt.offeredEntry env c m).2 = { (makeFilenames env.toSysEnv c.cfg.noClobber c.disk
      { Clt.offerEntry env c m with oid := o.oid } o.name).2 with size := o.size } := by
    unfold Clt.offeredEntry
    rw [show Clt.attribRefs (mbufResetgetattrib m) = _ from hl]
    simp only [List.foldl_cons, List.foldl_nil, Clt.offerAttrib, hoid, hfile, hsize, hne, hne', hne'',
      if_true, if_false, hname, ui64At_of_blobAt hoidv, ui64At_of_blobAt hsizev]
  obtain ⟨-, hnames⟩ := makeFilenames_name env.toSysEnv c.cfg.noClobber c.disk
    { Clt.offerEntry env c m with oid := o.oid } o.name
  obtain ⟨hrid, hoid'⟩ := Clt.makeFilenames_fields env.toSysEnv c.cfg.noClobber c.disk
    { Clt.offerEntry env c m with oid := o.oid } o.name
  have hon := makeFilenames_onEntry env.toSysEnv c.disk c.cfg.noClobber
    { Clt.offerEntry env c m with oid := o.oid } o.name
  rw [hentry]
  generalize makeFilenames env.toSysEnv c.cfg.noClobber c.disk
    { Clt.offerEntry env c m with oid := o.oid } o.name = p at hnames hrid hoid' hon ⊢
  refine ⟨⟨hon.type, hrid, hoid', rfl, ?_⟩, hon.addr⟩
  rcases hnames with ⟨hnc, hsome⟩ | ⟨hnc, hsome⟩
  · rw [if_neg (by rw [hnc]; exact Bool.false_ne_true)]
    exact hsome
  · rw [if_pos hnc]
    exact hsome

/-- Only the offer of an empty file is refused. -/
theorem enterOffer_announced (env : CltEnv) (c : Clt) {m : Mbuf} {o : Bid} (h : Announces m.b o) :
    (Clt.enterOffer (Clt.offeredEntry env c m)).2 =
      if o.size = 0 then (Clt.offeredEntry env c m).2.invalid else (Clt.offeredEntry env c m).2 := by
  obtain ⟨henters, -⟩ := announced_entered env c h
  have hname : (Clt.offeredEntry env c m).2.name.getD [] ≠ [] := by
    have hn := henters.name
    split at hn
    · obtain ⟨i, hi⟩ := hn
      rw [hi]
      exact nameCandidate_ne_nil _ _
    · rw [hn]
      exact h.name.1
  unfold Clt.enterOffer
  by_cases hsize : o.size = 0
  · rw [if_pos (.inr (henters.size.trans hsize)), if_pos hsize]
    rfl
  · rw [if_neg, if_neg hsize]
    rintro (hnil | hzero)
    · exact hname hnil
    · exact hsize (henters.size.symm.trans hzero)

end Frelay
