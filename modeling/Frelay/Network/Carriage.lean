import Frelay.Client.Aloof
import Frelay.Network.Offers

/-!
# A file from one client to another, over the network

A delivery as it was between two clients, now with everything in between: the requests and
the responses are cut into pieces, pass the buffers and queues of the server, and mix with
whatever else the clients and all the others send.

* `Net.asked`, `Net.answers` — the messages about the offer, wherever they are;
* `CarriagePhase` — at any time there is one of them, or the delivery has not begun or is
  over;
* `file_carried` — so a whole run gets through the file, and when nothing is under way any
  more the file is there.
-/

namespace Frelay

open Lib

variable {ι : Type}

namespace Net

/-- The requests about the offer on their way. -/
def asked (p : Handover) (i j : ι) (s : Net ι) : List Bytes :=
  (s.inTransit j i).filter fun b => AsksFor (msg b) p.rid p.oid

/-- The responses on their way. -/
def answers (p : Handover) (i j : ι) (s : Net ι) : List Bytes :=
  (s.inTransit i j).filter fun b => ServesFor (msg b) p.dest p.oid

end Net

/-! ## Clients of the network -/

/-- Every client of the network is one, and has a connection. -/
theorem clients_inductive (ι : Type) : (netLts ι).Inductive fun s =>
    ∀ i, cltLts.Reachable (s.ends i).clt ∧ 0 ≤ (s.ends i).clt.srvfd where
  init := by
    rintro s ⟨-, hends⟩ i
    obtain ⟨⟨c, fd, env, hc, hstep⟩, -, -, -⟩ := hends i
    refine ⟨(Lts.Reachable.init hc).step (e := .cmd (.connect (some fd)) env) ⟨trivial, hstep⟩, ?_⟩
    rw [← Option.some.inj hstep]
    exact Int.natCast_nonneg fd
  step := by
    intro s e t hs hstep i
    cases e with
    | client k e =>
        obtain ⟨-, hturn, hothers⟩ := hstep
        by_cases hi : i = k
        · subst hi
          exact ⟨(hs i).1.step hturn.step, hturn.online⟩
        · rw [hothers i hi]
          exact hs i
    | server e =>
        rw [(hstep.2.1 i).connected.1]
        exact hs i

/-- What a queue contains has been written, or is left to be written. -/
theorem Endpoint.Synced.frames_upward {s : Server} {p : Endpoint} (h : p.Synced s) :
    msgFormat.frames (p.upward s) = msgFormat.frames (p.arriving s) ++ p.clt.q.map Mbuf.b := by
  have hall : ∀ {q : List Mbuf}, QueueOk q → begun q ++ unsent q = (q.map Mbuf.b).flatten := by
    intro q hq
    cases q with
    | nil => rfl
    | cons m q =>
        obtain ⟨-, -, htail⟩ := hq.cons
        have hwait : unsent q = (q.map Mbuf.b).flatten := unsent_whole hq.tail
        show m.b.take m.boff ++ (m.b.drop m.boff ++ unsent q) = m.b ++ (q.map Mbuf.b).flatten
        rw [hwait, ← List.append_assoc, List.take_append_drop]
  have hwhole : ∀ b ∈ p.clt.q.map Mbuf.b, Whole b := by
    intro b hb
    obtain ⟨m, hm, rfl⟩ := List.mem_map.mp hb
    exact (h.queue.queued m hm).1
  have hsplit : p.upward s = p.arriving s ++ unsent p.clt.q := (List.append_assoc _ _ _).symm
  rw [hsplit, (msgFormat.frames_append _ _).1, h.up, hall h.queue, frames_flatten_whole hwhole]

/-! ## What the server fills in -/

theorem AsksFor.withSrcid {b : Bytes} {rid oid : UInt64} (hb : Whole b) (id : UInt64) :
    AsksFor (msg (withSrcid id b)) rid oid ↔ AsksFor (msg b) rid oid := by
  obtain ⟨htype, hdst, hoid⟩ := withSrcid_reads hb id
  rw [AsksFor, AsksFor, htype, hdst, hoid]

theorem ServesFor.withSrcid {b : Bytes} {dstid oid : UInt64} (hb : Whole b) (id : UInt64) :
    ServesFor (msg (withSrcid id b)) dstid oid ↔ ServesFor (msg b) dstid oid := by
  obtain ⟨htype, hdst, hoid⟩ := withSrcid_reads hb id
  rw [ServesFor, ServesFor, htype, hdst, hoid]

/-- What is read of a message does not depend on where reading has got to. -/
theorem processSrvmsg_msg (env : CltEnv) (c : Clt) (m : Mbuf) :
    Clt.processSrvmsg env c m = Clt.processSrvmsg env c ⟨m.b, 0⟩ := by
  have hreset : mbufResetgetattrib m = mbufResetgetattrib ⟨m.b, 0⟩ := rfl
  have hanswer : ∀ p, Clt.sendAnswer env m p = Clt.sendAnswer env ⟨m.b, 0⟩ p := by
    rintro ⟨c, a⟩
    cases a with
    | fail ec => rfl
    | _ => rfl
  unfold Clt.processSrvmsg
  rw [show c.solicited m = c.solicited ⟨m.b, 0⟩ from rfl, ← hreset, funext hanswer]

/-- A message that was on its way is handled as it was composed, with its sender filled in. -/
theorem heard_arrived {c t : Clt} {e : CltEvent} {env : CltEnv} {m m₀ : Mbuf} {id : UInt64}
    (hc : RecvOk c.rbuf) (hmsg : e.message c = some (env, m)) (h : cltStep c e = some t)
    (hb : m.b = withSrcid id m₀.b) (hoff : { m₀ with boff := 0 } = m₀) :
    Clt.processSrvmsg env { c with rbuf := none } (hdrSetSrcid m₀ id) = some t := by
  obtain ⟨-, hproc⟩ := cltStep_message hc hmsg h
  rw [processSrvmsg_msg, hb] at hproc
  rw [← hoff]
  exact hproc

/-! ## Phases -/

/-- What a delivery is waiting for, with the number of its messages that are still to be
handled at most: the user, the answer to a request, the arrival of some octets or of the
end, or nothing. -/
inductive CarriagePhase (p : Handover) (i j : ι) (s : Net ι) (accepted : Bool) : Nat → Prop
  | fresh {d u : Transfer} : accepted = false → Waiting p (s.ends j).clt d →
      Offering p (s.ends i).clt u → s.asked p i j = [] → s.answers p i j = [] →
      CarriagePhase p i j s accepted (2 * (p.file.length + 1))
  | asking {d u : Transfer} {m : Mbuf} : accepted = true → Downloading p (s.ends j).clt d →
      Offering p (s.ends i).clt u → Asks p d m → s.asked p i j = [withSrcid p.dest m.b] →
      m.b ∈ ((s.ends j).clt.q ++ (s.ends j).clt.requests).map Mbuf.b → s.answers p i j = [] →
      CarriagePhase p i j s accepted (2 * (p.file.length - d.offset.toNat) + 2)
  | bringing {d u : Transfer} {r : Mbuf} {trfid : UInt64} {data : Bytes} : accepted = true →
      Downloading p (s.ends j).clt d → Offering p (s.ends i).clt u →
      Awaited p trfid (s.ends j).clt → s.asked p i j = [] → Brings p trfid data r → data ≠ [] →
      data <+: p.file.drop d.offset.toNat → s.answers p i j = [withSrcid p.rid r.b] →
      CarriagePhase p i j s accepted (2 * (p.file.length - d.offset.toNat) + 1)
  | ending {d : Transfer} {r : Mbuf} {trfid : UInt64} : accepted = true →
      Downloading p (s.ends j).clt d → d.offset.toNat = p.file.length →
      OfferClosed p (s.ends i).clt → Awaited p trfid (s.ends j).clt → s.asked p i j = [] →
      Brings p trfid [] r → s.answers p i j = [withSrcid p.rid r.b] →
      CarriagePhase p i j s accepted 1
  | done : accepted = true → Finished p (s.ends j).clt → OfferClosed p (s.ends i).clt →
      s.asked p i j = [] → s.answers p i j = [] → CarriagePhase p i j s accepted 0

/-- From `s` to `t` nothing happened that the delivery is about. -/
structure Rests (p : Handover) (i j : ι) (s t : Net ι) : Prop where
  down : Clt.Lingers (s.ends j).clt (t.ends j).clt
  up : Clt.Lingers (s.ends i).clt (t.ends i).clt
  online : 0 ≤ (t.ends j).clt.srvfd
  asked : t.asked p i j = s.asked p i j
  answers : t.answers p i j = s.answers p i j

section Rests

variable {p : Handover} {i j : ι} {s t : Net ι} {accepted : Bool} {left : Nat}

theorem Waiting.stays {c t : Clt} {d : Transfer} (h : Waiting p c d) (htable : Clt.SameTable c t)
    (hst : t.st = c.st) (hup : 0 ≤ t.srvfd) : Waiting p t d := by
  obtain ⟨hdisk, hts, -⟩ := htable
  refine ⟨hts ▸ h.nodup, ⟨hst.trans h.online.1, hup⟩, ?_, h.named, hdisk ▸ h.clean⟩
  exact ⟨hts ▸ h.new.found, h.new.addr, h.new.size, h.new.offset, h.new.shut, hdisk ▸ h.new.absent⟩

theorem Awaited.lingers {c t : Clt} {trfid : UInt64} (h : Awaited p trfid c) (hc : Clt.Lingers c t) :
    Awaited p trfid t := by
  obtain ⟨q, hq, htype, hrest⟩ := h
  exact ⟨q, hc.waits q hq htype, htype, hrest⟩

/-- What the delivery is waiting for stays the same. -/
theorem CarriagePhase.rests (h : CarriagePhase p i j s accepted left) (hr : Rests p i j s t) :
    CarriagePhase p i j t accepted left := by
  obtain ⟨hdown, hup, honline, hasked, hanswers⟩ := hr
  cases h with
  | fresh ha hw ho hno hans =>
      exact .fresh ha (hw.stays hdown.table hdown.st honline) (ho.congr hup.table hup.st)
        (hasked.trans hno) (hanswers.trans hans)
  | @asking d u m ha hd ho hm hone hpend hans =>
      have htype := (hm.requests.asksFor hd.matches.2.2.1.symm).1
      exact .asking ha (hd.congr hdown.table hdown.st) (ho.congr hup.table hup.st) hm
        (hasked.trans hone) (hdown.kept _ hpend htype) (hanswers.trans hans)
  | bringing ha hd ho hwait hno hr hne hdata hone =>
      exact .bringing ha (hd.congr hdown.table hdown.st) (ho.congr hup.table hup.st)
        (hwait.lingers hdown) (hasked.trans hno) hr hne hdata (hanswers.trans hone)
  | ending ha hd hall ho hwait hno hr hone =>
      exact .ending ha (hd.congr hdown.table hdown.st) hall (ho.congr hup.table)
        (hwait.lingers hdown) (hasked.trans hno) hr (hanswers.trans hone)
  | done ha hf ho hno hans =>
      exact .done ha (hf.congr hdown.table) (ho.congr hup.table) (hasked.trans hno)
        (hanswers.trans hans)

end Rests

/-! ## Requests that were sent -/

section Sent

variable {p : Handover} {i j : ι} {s : Net ι} {m : Mbuf}

theorem Requests.whole {d : Transfer} {sz : UInt64} (h : Requests p d sz m) : Whole m.b := by
  obtain ⟨hsize, hmax⟩ := h.sized
  refine whole_iff.mpr ⟨hsize, ?_⟩
  unfold MSG_MAX_PAY_SIZE at hmax
  unfold MSG_HDR_SIZE at hsize
  unfold MSG_MAX_SIZE MSG_HDR_SIZE MSG_MAX_PAY_SIZE
  omega

/-- A request that waits in the queue of `j` is on its way. -/
theorem queued_asked (hsync : (s.ends j).Synced s.srv) (hids : s.idOf i = p.rid ∧ s.idOf j = p.dest)
    (hwhole : Whole m.b) (hm : AsksFor m p.rid p.oid) (hq : m.b ∈ (s.ends j).clt.q.map Mbuf.b) :
    withSrcid p.dest m.b ∈ s.asked p i j := by
  have hfw : isForwardable m = true := isForwardable_iff.mpr ⟨.getfileReq, hm.1, by decide⟩
  have hto : isTo (s.idOf i) m.b = true :=
    Bool.and_eq_true_iff.mpr ⟨hfw, beq_iff_eq.mpr (hm.2.1.trans hids.1.symm)⟩
  have hmem : m.b ∈ msgFormat.frames ((s.ends j).upward s.srv) := by
    rw [hsync.frames_upward]
    exact List.mem_append_right _ hq
  refine List.mem_filter.mpr ⟨List.mem_append_right _ ?_, ?_⟩
  · rw [← hids.2]
    exact List.mem_map_of_mem (List.mem_filter.mpr ⟨hmem, hto⟩)
  · exact decide_eq_true ((AsksFor.withSrcid hwhole _).mpr hm)

/-- A request that is neither queued nor on its way waits for its response. -/
theorem awaited_of_sent (hsync : (s.ends j).Synced s.srv) (hids : s.idOf i = p.rid ∧ s.idOf j = p.dest)
    (hwhole : Whole m.b) (hm : AsksFor m p.rid p.oid)
    (hpend : m.b ∈ ((s.ends j).clt.q ++ (s.ends j).clt.requests).map Mbuf.b)
    (hno : s.asked p i j = []) : Awaited p (hdrGetTrfid m) (s.ends j).clt := by
  rw [List.map_append] at hpend
  rcases List.mem_append.mp hpend with hq | hr
  · have hmem := queued_asked hsync hids hwhole hm hq
    rw [hno] at hmem
    exact absurd hmem List.not_mem_nil
  · obtain ⟨q, hq, hb⟩ := List.mem_map.mp hr
    have hsame : msg q.b = msg m.b := congrArg msg hb
    have htrf : hdrGetTrfid (msg q.b) = hdrGetTrfid (msg m.b) := by rw [hsame]
    exact ⟨q, hq, (congrArg hdrGetType hsame).trans hm.1, (congrArg hdrGetDstid hsame).trans hm.2.1,
      htrf⟩

end Sent

/-! ## Runs -/

/-- The offer was accepted, and so many messages about it were handled. -/
structure Carriage where
  accepted : Bool
  handled : Nat

/-- What happens while a file is delivered: the receiver accepts the offer once; the two
clients handle the messages about it, and the system calls work; what else they do is
aloof; the server and the other clients do what they like. -/
inductive Untroubled (p : Handover) (i j : ι) (s : Net ι × Carriage) : NetEvent ι → Prop
  | server {e : SrvEvent} : Untroubled p i j s (.server e)
  | others {k : ι} {e : CltEvent} : k ≠ i → k ≠ j → Untroubled p i j s (.client k e)
  | aloof {k : ι} {e : CltEvent} : e.Aloof (s.1.ends k).clt → Untroubled p i j s (.client k e)
  | accepts {env : CltEnv} : s.2.accepted = false → WritesOk env.toSysEnv →
      FreshFd env.toSysEnv (s.1.ends j).clt.disk →
      Untroubled p i j s (.client j (.cmd (.accept p.rid p.oid) env))
  | serves {e : CltEvent} {env : CltEnv} {m : Mbuf} :
      e.message (s.1.ends i).clt = some (env, m) → s.1.between j i m.b = true →
      AsksFor m p.rid p.oid → ReadsOk env.toSysEnv (s.1.ends i).clt.disk →
      Untroubled p i j s (.client i e)
  | stores {e : CltEvent} {env : CltEnv} {m : Mbuf} :
      e.message (s.1.ends j).clt = some (env, m) → s.1.between i j m.b = true →
      ServesFor m p.dest p.oid → WritesOk env.toSysEnv → Untroubled p i j s (.client j e)

namespace Net

variable [DecidableEq ι]

/-- The event is that `j` accepts the offer. -/
def accepts (p : Handover) (j : ι) : NetEvent ι → Bool
  | .client k (.cmd (.accept rid oid) _) => decide (k = j ∧ rid = p.rid ∧ oid = p.oid)
  | _ => false

/-- The number of messages about the offer that are handled in a step. -/
def hears (p : Handover) (i j : ι) (s : Net ι) (e : NetEvent ι) : Nat :=
  ((s.gets j i e).filter fun b => AsksFor (msg b) p.rid p.oid).length +
    ((s.gets i j e).filter fun b => ServesFor (msg b) p.dest p.oid).length

/-- No message about the offer is composed or heard in the step. -/
def Silent (p : Handover) (i j : ι) (s : Net ι) (e : NetEvent ι) : Prop :=
  ((s.sends j i e).filter (fun b => AsksFor (msg b) p.rid p.oid) = [] ∧
    (s.gets j i e).filter (fun b => AsksFor (msg b) p.rid p.oid) = []) ∧
  (s.sends i j e).filter (fun b => ServesFor (msg b) p.dest p.oid) = [] ∧
    (s.gets i j e).filter (fun b => ServesFor (msg b) p.dest p.oid) = []

theorem Silent.hears {p : Handover} {i j : ι} {s : Net ι} {e : NetEvent ι} (h : s.Silent p i j e) :
    s.hears p i j e = 0 := by
  rw [Net.hears, h.1.2, h.2.2]
  rfl

/-- The record after a step. -/
def noteCarriage (p : Handover) (i j : ι) (s : Net ι) (e : NetEvent ι) (o : Carriage) : Carriage :=
  ⟨o.accepted || accepts p j e, o.handled + s.hears p i j e⟩

end Net

/-- The network while `i` and `j` are logged in and the delivery is not disturbed. -/
def carriageLts [DecidableEq ι] (p : Handover) (i j : ι) : Lts (Net ι × Carriage) (NetEvent ι) :=
  ((((netLts ι).guard NetEvent.Patient).within (Net.Both i j)).observe ⟨false, 0⟩
    (Net.noteCarriage p i j)).guard (Untroubled p i j)

/-- A new download at `j`, the offer it belongs to at `i`, and no message about it. -/
structure CarriageStart (p : Handover) (i j : ι) (s : Net ι) : Prop where
  ids : s.idOf i = p.rid ∧ s.idOf j = p.dest
  sessions : (s.ends i).clt.st = .authOk ∧ (s.ends j).clt.st = .authOk
  download : ∃ d, NewDownload p.toDeal (s.ends j).clt d
  offer : ∃ o, (s.ends i).clt.transfers.find? (fun o => o.Matches .offer p.dest p.oid) = some o ∧
    o.addr = p.entry ∧ OfferHolds (s.ends i).clt.disk o p.file
  quiet : s.asked p i j = [] ∧ s.answers p i j = []
  size : p.file.length < 2 ^ 63

/-- What holds between two steps. -/
structure Carried (p : Handover) (i j : ι) (s : Net ι) (o : Carriage) : Prop where
  reachable : ((netLts ι).guard NetEvent.Patient).Reachable s
  both : s.Both i j
  ids : s.idOf i = p.rid ∧ s.idOf j = p.dest
  phase : ∃ left, CarriagePhase p i j s o.accepted left ∧ o.handled + left ≤ 2 * (p.file.length + 1)

section Steps

variable [DecidableEq ι] {p : Handover} {i j k l : ι} {s t : Net ι} {e : CltEvent} {m : Mbuf}

/-- One message that a client composes for another. -/
theorem sends_one {P : Mbuf → Prop} [DecidablePred P] (hq : e.queued (s.ends k).clt = [m.b])
    (hfw : isForwardable m = true) (hdst : hdrGetDstid m = s.idOf l)
    (hP : P (msg (withSrcid (s.idOf k) m.b))) :
    (s.sends k l (.client k e)).filter (fun b => P (msg b)) = [withSrcid (s.idOf k) m.b] := by
  have hto : isTo (s.idOf l) m.b = true := Bool.and_eq_true_iff.mpr ⟨hfw, beq_iff_eq.mpr hdst⟩
  have hsends : s.sends k l (.client k e) = [withSrcid (s.idOf k) m.b] := by
    show (if k = k then s.addressed k l (e.queued (s.ends k).clt) else []) = _
    rw [if_pos rfl, hq, Net.addressed, List.filter_cons_of_pos hto]
    rfl
  rw [hsends]
  exact List.filter_cons_of_pos (p := fun b => decide (P (msg b))) (decide_eq_true hP)

/-- One message that a client hears from another. -/
theorem gets_one {env : CltEnv} (hmsg : e.message (s.ends l).clt = some (env, m))
    (hbetween : s.between k l m.b = true) : s.gets k l (.client l e) = [m.b] := by
  show (if l = l then (e.handed (s.ends l).clt).filter (s.between k l) else []) = _
  rw [if_pos rfl, CltEvent.handed, hmsg]
  exact List.filter_cons_of_pos hbetween

/-- A client that does not hear a message from another. -/
theorem gets_none (hmsg : e.message (s.ends l).clt = none) : s.gets k l (.client l e) = [] := by
  show (if l = l then (e.handed (s.ends l).clt).filter (s.between k l) else []) = _
  rw [if_pos rfl, CltEvent.handed, hmsg]
  rfl

/-- Aloof steps say and hear nothing about files. -/
theorem aloof_silent {P : Mbuf → Prop} [DecidablePred P] (hP : ∀ m, P m → OfGetfile m)
    (hc : RecvOk (s.ends k).clt.rbuf) (hwhole : ∀ b ∈ e.queued (s.ends k).clt, Whole b)
    (hstep : cltStep (s.ends k).clt e = some (t.ends k).clt) (ha : e.Aloof (s.ends k).clt) (i j : ι) :
    (s.sends i j (.client k e)).filter (fun b => P (msg b)) = [] ∧
      (s.gets i j (.client k e)).filter (fun b => P (msg b)) = [] := by
  have hnone : ∀ {l : List Bytes}, (∀ b ∈ l, ¬ OfGetfile (msg b)) → l.filter (fun b => P (msg b)) = [] := by
    intro l hl
    rw [List.filter_eq_nil_iff]
    intro b hb hp
    exact hl b hb (hP _ (of_decide_eq_true hp))
  refine ⟨hnone fun b hb => ?_, hnone fun b hb => ?_⟩
  · by_cases hk : k = i
    · subst hk
      rw [Net.sends, if_pos rfl] at hb
      obtain ⟨x, hx, rfl⟩ := List.mem_map.mp hb
      have hx' := List.mem_of_mem_filter hx
      rw [OfGetfile, (withSrcid_reads (hwhole x hx') _).1]
      exact ha.utters (r := msg x) (queued_utters hc hstep x hx')
    · rw [Net.sends, if_neg hk] at hb
      exact absurd hb List.not_mem_nil
  · by_cases hk : k = j
    · subst hk
      rw [Net.gets, if_pos rfl, CltEvent.handed] at hb
      obtain ⟨⟨env, m⟩, hmsg, rfl⟩ :=
        Option.map_eq_some_iff.mp (Option.mem_toList.mp (List.mem_of_mem_filter hb))
      exact ha.message env m hmsg
    · rw [Net.gets, if_neg hk] at hb
      exact absurd hb List.not_mem_nil

/-- What the channels of the delivery carry in a step, between the same two sessions. -/
theorem Carried.channels {o : Carriage} {e : NetEvent ι} (hij : i ≠ j) (h : Carried p i j s o)
    (hnet : (netLts ι).step s e t) (hboth : t.Both i j) :
    (t.idOf i = p.rid ∧ t.idOf j = p.dest) ∧
      Passes (s.asked p i j) ((s.sends j i e).filter fun b => AsksFor (msg b) p.rid p.oid)
        ((s.gets j i e).filter fun b => AsksFor (msg b) p.rid p.oid) (t.asked p i j) ∧
      Passes (s.answers p i j) ((s.sends i j e).filter fun b => ServesFor (msg b) p.dest p.oid)
        ((s.gets i j e).filter fun b => ServesFor (msg b) p.dest p.oid) (t.answers p i j) := by
  have hok := ((net_dialogue ι).invariant s h.reachable).ok
  have hback := (conveys (fun heq => hij heq.symm)).step s e t ⟨hok, h.both.symm⟩ ⟨hnet, hboth.symm⟩
  have hforth := (conveys hij).step s e t ⟨hok, h.both⟩ ⟨hnet, hboth⟩
  refine ⟨?_, hback.filter _, hforth.filter _⟩
  rw [← h.ids.1, ← h.ids.2]
  cases e with
  | client k e => exact (conveys_client hij hok hnet).1
  | server e => exact (conveys_server hij hok hnet h.both hboth).1

/-- **A step that has nothing to do with the delivery** leaves it at rest. -/
theorem Carried.rests {o : Carriage} {e : NetEvent ι} (hij : i ≠ j) (h : Carried p i j s o)
    (hguard : ((netLts ι).guard NetEvent.Patient).step s e t) (hboth : t.Both i j)
    (hsilent : s.Silent p i j e)
    (hends : ∀ k, k = i ∨ k = j → Clt.Lingers (s.ends k).clt (t.ends k).clt) : Rests p i j s t := by
  obtain ⟨-, hasked, hanswers⟩ := h.channels hij hguard.1 hboth
  obtain ⟨⟨hsends, hgets⟩, hsends', hgets'⟩ := hsilent
  rw [hsends, hgets] at hasked
  rw [hsends', hgets'] at hanswers
  have honline := (clients_inductive ι).invariant t (h.reachable.step hguard).of_guard j
  exact ⟨hends j (.inr rfl), hends i (.inl rfl), honline.2, hasked.idle, hanswers.idle⟩

/-- The steps of the server. -/
theorem Carried.server {o : Carriage} {e : SrvEvent} (hij : i ≠ j) (h : Carried p i j s o)
    (hguard : ((netLts ι).guard NetEvent.Patient).step s (.server e) t) (hboth : t.Both i j) :
    Rests p i j s t ∧ s.Silent p i j (.server e) := by
  have hsilent : s.Silent p i j (.server e) := ⟨⟨rfl, rfl⟩, rfl, rfl⟩
  refine ⟨h.rests hij hguard hboth hsilent fun l _ => ?_, hsilent⟩
  rw [(hguard.1.2.1 l).connected.1]
  exact .refl _

/-- The steps of everybody else. -/
theorem Carried.others {o : Carriage} (hij : i ≠ j) (h : Carried p i j s o)
    (hguard : ((netLts ι).guard NetEvent.Patient).step s (.client k e) t) (hboth : t.Both i j)
    (hi : k ≠ i) (hj : k ≠ j) : Rests p i j s t ∧ s.Silent p i j (.client k e) := by
  have hsends : ∀ l, s.sends j l (.client k e) = [] ∧ s.sends i l (.client k e) = [] := fun l =>
    ⟨if_neg hj, if_neg hi⟩
  have hgets : ∀ l, s.gets l i (.client k e) = [] ∧ s.gets l j (.client k e) = [] := fun l =>
    ⟨if_neg hi, if_neg hj⟩
  have hsilent : s.Silent p i j (.client k e) := by
    rw [Net.Silent, (hsends i).1, (hsends j).2, (hgets j).1, (hgets i).2]
    exact ⟨⟨rfl, rfl⟩, rfl, rfl⟩
  refine ⟨h.rests hij hguard hboth hsilent fun l hl => ?_, hsilent⟩
  have hne : l ≠ k := by
    rintro rfl
    exact hl.elim hi hj
  rw [hguard.1.2.2 l hne]
  exact .refl _

/-- The aloof steps of the two clients. -/
theorem Carried.aloof {o : Carriage} (hij : i ≠ j) (h : Carried p i j s o)
    (hguard : ((netLts ι).guard NetEvent.Patient).step s (.client k e) t) (hboth : t.Both i j)
    (ha : e.Aloof (s.ends k).clt) : Rests p i j s t ∧ s.Silent p i j (.client k e) := by
  have hstep := hguard
  obtain ⟨⟨-, hturn, hothers⟩, hpat⟩ := hstep
  have hok := ((net_dialogue ι).invariant s h.reachable).ok
  have hc := (hok.ends k).clt
  have hwhole := (hturn.streams (s := s.srv) hc).1.2
  have hsilent : s.Silent p i j (.client k e) :=
    ⟨aloof_silent (P := fun m => AsksFor m p.rid p.oid) (fun _ hm => hm.ofGetfile) hc.rbuf hwhole
      hturn.step.2 ha j i,
    aloof_silent (P := fun m => ServesFor m p.dest p.oid) (fun _ hm => hm.ofGetfile) hc.rbuf hwhole
      hturn.step.2 ha i j⟩
  refine ⟨h.rests hij hguard hboth hsilent fun l _ => ?_, hsilent⟩
  by_cases hl : l = k
  · rw [hl]
    exact ha.lingers hc.rbuf hpat hturn.step.2 hturn.online
  · rw [hothers l hl]
    exact .refl _

/-- A request of `j`, on its way to `i`. -/
theorem Carried.request_sent {o : Carriage} (h : Carried p i j s o)
    (hq : e.queued (s.ends j).clt = [m.b]) (hwhole : Whole m.b) (hm : AsksFor m p.rid p.oid) :
    (s.sends j i (.client j e)).filter (fun b => AsksFor (msg b) p.rid p.oid) =
      [withSrcid p.dest m.b] := by
  have hfw : isForwardable m = true := isForwardable_iff.mpr ⟨.getfileReq, hm.1, by decide⟩
  rw [← h.ids.2]
  exact sends_one (P := fun m => AsksFor m p.rid p.oid) hq hfw (hm.2.1.trans h.ids.1.symm)
    ((AsksFor.withSrcid hwhole _).mpr hm)

/-- A response of `i`, on its way to `j`. -/
theorem Carried.response_sent {o : Carriage} (h : Carried p i j s o)
    (hq : e.queued (s.ends i).clt = [m.b]) (hwhole : Whole m.b) (hm : ServesFor m p.dest p.oid) :
    (s.sends i j (.client i e)).filter (fun b => ServesFor (msg b) p.dest p.oid) =
      [withSrcid p.rid m.b] := by
  have hfw : isForwardable m = true := isForwardable_iff.mpr ⟨.getfileRes, hm.1, by decide⟩
  rw [← h.ids.1]
  exact sends_one (P := fun m => ServesFor m p.dest p.oid) hq hfw (hm.2.1.trans h.ids.2.symm)
    ((ServesFor.withSrcid hwhole _).mpr hm)

/-- What becomes of the delivery in a step about it. -/
def Leads (p : Handover) (i j : ι) (s : Net ι) (e : NetEvent ι) (left : Nat) (t : Net ι) : Prop :=
  ∃ left', CarriagePhase p i j t true left' ∧ s.hears p i j e + left' ≤ left

theorem Carried.accepts {o : Carriage} {left : Nat} {env : CltEnv} (hij : i ≠ j)
    (h : Carried p i j s o) (hphase : CarriagePhase p i j s o.accepted left)
    (hguard : ((netLts ι).guard NetEvent.Patient).step s
      (.client j (.cmd (.accept p.rid p.oid) env)) t) (hboth : t.Both i j)
    (hacc : o.accepted = false) (hok : WritesOk env.toSysEnv)
    (hfresh : FreshFd env.toSysEnv (s.ends j).clt.disk) :
    Leads p i j s (.client j (.cmd (.accept p.rid p.oid) env)) left t := by
  have hji : j ≠ i := fun heq => hij heq.symm
  have hother : o.accepted ≠ true := by
    rw [hacc]
    decide
  obtain ⟨-, hasked, hanswers⟩ := h.channels hij hguard.1 hboth
  obtain ⟨⟨-, hturn, hothers⟩, -⟩ := hguard
  have hc := (((net_dialogue ι).invariant s h.reachable).ok.ends j).clt
  cases hphase with
  | @fresh d u ha hw ho hno hans =>
      obtain ⟨c, d', m, hc', hq, hd', hoff, hm⟩ := accept_new hw hok hfresh
      obtain rfl : c = (t.ends j).clt := Option.some.inj (hc'.symm.trans hturn.step.2)
      have hqueued := queued_eq (fun res heq => by cases heq) hturn.step.2 hq
      have hwhole : Whole m.b := (hturn.streams (s := s.srv) hc).1.2 m.b (by
        rw [hqueued]
        exact List.mem_cons_self)
      have hasks : AsksFor m p.rid p.oid := hm.requests.asksFor hd'.matches.2.2.1.symm
      have hgets : ∀ l, s.gets l i (.client j (.cmd (.accept p.rid p.oid) env)) = [] ∧
          s.gets l j (.client j (.cmd (.accept p.rid p.oid) env)) = [] := fun l =>
        ⟨if_neg hji, gets_none rfl⟩
      rw [h.request_sent hqueued hwhole hasks, (hgets j).1, hno] at hasked
      rw [show s.sends i j (.client j _) = [] from if_neg hji, (hgets i).2] at hanswers
      refine ⟨2 * (p.file.length - d'.offset.toNat) + 2, .asking (u := u) rfl hd' ?_ hm hasked ?_
        (hanswers.idle.trans hans), ?_⟩
      · rw [hothers i hij]
        exact ho
      · rw [hq]
        exact List.mem_map_of_mem (List.mem_append_left _ (List.mem_append_right _ List.mem_cons_self))
      · have hsilent : s.hears p i j (.client j (.cmd (.accept p.rid p.oid) env)) = 0 := by
          rw [Net.hears, (hgets j).1, (hgets i).2]
          rfl
        rw [hsilent, hoff]
        simp only [UInt64.toNat_zero]
        omega
  | asking ha => exact absurd ha hother
  | bringing ha => exact absurd ha hother
  | ending ha => exact absurd ha hother
  | done ha => exact absurd ha hother

/-- What is heard was on its way. -/
theorem heard_head {P : Mbuf → Prop} [DecidablePred P] {q q' : List Bytes} {env : CltEnv}
    (hmsg : e.message (s.ends l).clt = some (env, m)) (hbetween : s.between k l m.b = true)
    (hP : P (msg m.b)) (hpass : Passes q [] ((s.gets k l (.client l e)).filter fun b => P (msg b)) q') :
    (s.gets k l (.client l e)).filter (fun b => P (msg b)) = [m.b] ∧ q = m.b :: q' := by
  have hgets : (s.gets k l (.client l e)).filter (fun b => P (msg b)) = [m.b] := by
    rw [gets_one hmsg hbetween]
    exact List.filter_cons_of_pos (p := fun b => decide (P (msg b))) (decide_eq_true hP)
  refine ⟨hgets, ?_⟩
  rw [hgets, Passes, List.append_nil] at hpass
  exact hpass.symm

/-- A step that completes a message is no write. -/
theorem not_write_of_message {c : Clt} {env : CltEnv} (hmsg : e.message c = some (env, m))
    (res : WriteRes) : e ≠ .write res := by
  rintro rfl
  cases hmsg

theorem Carried.serves {o : Carriage} {left : Nat} {env : CltEnv} (hij : i ≠ j)
    (h : Carried p i j s o) (hphase : CarriagePhase p i j s o.accepted left)
    (hlen : p.file.length < 2 ^ 63)
    (hguard : ((netLts ι).guard NetEvent.Patient).step s (.client i e) t) (hboth : t.Both i j)
    (hmsg : e.message (s.ends i).clt = some (env, m)) (hbetween : s.between j i m.b = true)
    (hm : AsksFor m p.rid p.oid) (hok : ReadsOk env.toSysEnv (s.ends i).clt.disk) :
    o.accepted = true ∧ Leads p i j s (.client i e) left t := by
  have hji : j ≠ i := fun heq => hij heq.symm
  obtain ⟨hids, hasked, hanswers⟩ := h.channels hij hguard.1 hboth
  obtain ⟨hok', hsync, -⟩ := (net_dialogue ι).invariant t (h.reachable.step hguard)
  have hc := (((net_dialogue ι).invariant s h.reachable).ok.ends i).clt
  obtain ⟨⟨-, hturn, hothers⟩, -⟩ := hguard
  rw [show s.sends j i (.client i e) = [] from if_neg hij] at hasked
  obtain ⟨hgets, hhead⟩ := heard_head (P := fun m => AsksFor m p.rid p.oid) hmsg hbetween hm hasked
  have hgets' : s.gets i j (.client i e) = [] := if_neg hij
  have hone : s.hears p i j (.client i e) = 1 := by
    rw [Net.hears, hgets, hgets']
    rfl
  have hother : s.asked p i j ≠ [] := by
    rw [hhead]
    exact List.cons_ne_nil _ _
  cases hphase with
  | @asking d u m₀ ha hd ho hm₀ hasks hpend hans =>
      obtain ⟨hb, hno⟩ := List.cons.inj (hhead.symm.trans hasks)
      have hproc := heard_arrived hc.rbuf hmsg hturn.step.2 hb hm₀.requests.rewound
      -- The request has left the queue of `j`, so it is pending there.
      have hdown := hothers j hji
      have hasks₀ : AsksFor m₀ p.rid p.oid := hm₀.requests.asksFor hd.matches.2.2.1.symm
      have hwait : Awaited p (hdrGetTrfid m₀) (t.ends j).clt :=
        awaited_of_sent (hsync j) hids hm₀.requests.whole hasks₀
          (by rw [hdown]; exact hpend) hno
      -- The response is queued where none was on its way.
      have hresponds : ∀ {r : Mbuf}, (t.ends i).clt.q = (s.ends i).clt.q ++ [r] →
          ServesFor r p.dest p.oid → t.answers p i j = [withSrcid p.rid r.b] := by
        intro r hq hr
        have hqueued := queued_eq (not_write_of_message hmsg) hturn.step.2 hq
        have hwhole : Whole r.b := (hturn.streams (s := s.srv) hc).1.2 r.b (by
          rw [hqueued]
          exact List.mem_cons_self)
        rw [h.response_sent hqueued hwhole hr, hgets', hans] at hanswers
        exact hanswers
      have ho' : Offering p { (s.ends i).clt with rbuf := none } u := ho.congr ⟨rfl, rfl, rfl⟩ rfl
      refine ⟨ha, ?_⟩
      rw [← hdown] at hd
      rcases Nat.lt_or_eq_of_le hd.offset_le with hoff | hoff
      · obtain ⟨c, u', r, data, hc', hq, hu, hr, hne, hdata⟩ :=
          offer_serves ho' hok hm₀.requests (rest_ne_zero hd.size hoff) hlen hoff
        obtain rfl : c = (t.ends i).clt := Option.some.inj (hc'.symm.trans hproc)
        exact ⟨_, .bringing rfl hd hu hwait hno hr hne hdata (hresponds hq hr.servesFor), by omega⟩
      · obtain ⟨c, r, hc', hq, hu, hr⟩ := offer_ends env ho' hm₀ hd.size hoff
        obtain rfl : c = (t.ends i).clt := Option.some.inj (hc'.symm.trans hproc)
        exact ⟨_, .ending rfl hd hoff hu hwait hno hr (hresponds hq hr.servesFor), by omega⟩
  | fresh _ _ _ hno => exact absurd hno hother
  | bringing _ _ _ _ hno => exact absurd hno hother
  | ending _ _ _ _ _ hno => exact absurd hno hother
  | done _ _ _ hno => exact absurd hno hother

theorem Carried.stores {o : Carriage} {left : Nat} {env : CltEnv} (hij : i ≠ j)
    (h : Carried p i j s o) (hphase : CarriagePhase p i j s o.accepted left)
    (hguard : ((netLts ι).guard NetEvent.Patient).step s (.client j e) t) (hboth : t.Both i j)
    (hmsg : e.message (s.ends j).clt = some (env, m)) (hbetween : s.between i j m.b = true)
    (hm : ServesFor m p.dest p.oid) (hok : WritesOk env.toSysEnv) :
    o.accepted = true ∧ Leads p i j s (.client j e) left t := by
  have hji : j ≠ i := fun heq => hij heq.symm
  obtain ⟨-, hasked, hanswers⟩ := h.channels hij hguard.1 hboth
  have hc := (((net_dialogue ι).invariant s h.reachable).ok.ends j).clt
  obtain ⟨⟨-, hturn, hothers⟩, -⟩ := hguard
  have hup := hothers i hij
  rw [show s.sends i j (.client j e) = [] from if_neg hji] at hanswers
  obtain ⟨hgets, hhead⟩ := heard_head (P := fun m => ServesFor m p.dest p.oid) hmsg hbetween hm hanswers
  have hgets' : s.gets j i (.client j e) = [] := if_neg hji
  have hone : s.hears p i j (.client j e) = 1 := by
    rw [Net.hears, hgets, hgets']
    rfl
  have hother : s.answers p i j ≠ [] := by
    rw [hhead]
    exact List.cons_ne_nil _ _
  have hqueued : ∀ {new}, (t.ends j).clt.q = (s.ends j).clt.q ++ new →
      e.queued (s.ends j).clt = new.map Mbuf.b := fun hq =>
    queued_eq (not_write_of_message hmsg) hturn.step.2 hq
  cases hphase with
  | @bringing d u r trfid data ha hd ho hwait hno hr hne hdata hone =>
      obtain ⟨hb, hnone⟩ := List.cons.inj (hhead.symm.trans hone)
      have hproc := heard_arrived hc.rbuf hmsg hturn.step.2 hb hr.rewound
      have hd₁ : Downloading p { (s.ends j).clt with rbuf := none } d := hd.congr ⟨rfl, rfl, rfl⟩ rfl
      obtain ⟨c, d', m', hc', hq, hd', hoff, hm'⟩ := download_stores hd₁ hok hr hne hdata hwait
      obtain rfl : c = (t.ends j).clt := Option.some.inj (hc'.symm.trans hproc)
      have hasks : AsksFor m' p.rid p.oid := hm'.requests.asksFor hd'.matches.2.2.1.symm
      rw [h.request_sent (hqueued hq) hm'.requests.whole hasks, hgets', hno] at hasked
      rw [← hup] at ho
      refine ⟨ha, _, .asking rfl hd' ho hm' hasked ?_ hnone, ?_⟩
      · rw [hq]
        exact List.mem_map_of_mem (List.mem_append_left _ (List.mem_append_right _ List.mem_cons_self))
      · -- At least one octet has arrived.
        have hpos : 0 < data.length := List.length_pos_iff.mpr hne
        have hle := hd'.offset_le
        omega
  | @ending d r trfid ha hd hall ho hwait hno hr hone =>
      obtain ⟨hb, hnone⟩ := List.cons.inj (hhead.symm.trans hone)
      have hproc := heard_arrived hc.rbuf hmsg hturn.step.2 hb hr.rewound
      have hd₁ : Downloading p { (s.ends j).clt with rbuf := none } d := hd.congr ⟨rfl, rfl, rfl⟩ rfl
      obtain ⟨c, hc', hq, hf⟩ := download_ends hd₁ hok hr hall hwait
      obtain rfl : c = (t.ends j).clt := Option.some.inj (hc'.symm.trans hproc)
      have hsends : s.sends j i (.client j e) = [] := by
        have hempty := hq.trans (List.append_nil _).symm
        have hnil := hqueued hempty
        show (if j = j then s.addressed j i (e.queued (s.ends j).clt) else []) = []
        rw [if_pos rfl, hnil]
        rfl
      rw [hsends, hgets'] at hasked
      rw [← hup] at ho
      exact ⟨ha, _, .done rfl hf ho (hasked.idle.trans hno) hnone, by omega⟩
  | fresh _ _ _ _ hans => exact absurd hans hother
  | asking _ _ _ _ _ _ hans => exact absurd hans hother
  | done _ _ _ _ hans => exact absurd hans hother

/-- An aloof step accepts nothing. -/
theorem not_accepts (h : ∀ rid oid env, e ≠ .cmd (.accept rid oid) env) :
    Net.accepts p j (.client k e) = false := by
  unfold Net.accepts
  split
  · rename_i heq
    cases heq
    exact absurd rfl (h _ _ _)
  · rfl

/-- **A delivery that is not disturbed gets on**, and with every message that is handled
there is less left. -/
theorem Carried.step {o o' : Carriage} {e : NetEvent ι} (hij : i ≠ j) (hlen : p.file.length < 2 ^ 63)
    (h : Carried p i j s o) (hstep : (carriageLts p i j).step (s, o) e (t, o')) :
    Carried p i j t o' := by
  obtain ⟨⟨⟨hguard, hboth⟩, hnote⟩, hcalm⟩ := hstep
  change o' = Net.noteCarriage p i j s e o at hnote
  obtain ⟨left, hphase, hle⟩ := h.phase
  suffices hgoal : ∃ left', CarriagePhase p i j t (o.accepted || Net.accepts p j e) left' ∧
      s.hears p i j e + left' ≤ left by
    obtain ⟨left', hphase', hle'⟩ := hgoal
    subst hnote
    refine ⟨h.reachable.step hguard, hboth, (h.channels hij hguard.1 hboth).1, left', hphase', ?_⟩
    show o.handled + s.hears p i j e + left' ≤ _
    omega
  have hrests : Rests p i j s t ∧ s.Silent p i j e → Net.accepts p j e = false →
      ∃ left', CarriagePhase p i j t (o.accepted || Net.accepts p j e) left' ∧
        s.hears p i j e + left' ≤ left := by
    rintro ⟨hrests, hsilent⟩ hno
    rw [hno, Bool.or_false, hsilent.hears]
    exact ⟨left, hphase.rests hrests, by omega⟩
  have hleads : o.accepted = true ∧ Leads p i j s e left t →
      ∃ left', CarriagePhase p i j t (o.accepted || Net.accepts p j e) left' ∧
        s.hears p i j e + left' ≤ left := by
    rintro ⟨hacc, hleads⟩
    rw [hacc, Bool.true_or]
    exact hleads
  cases hcalm with
  | server => exact hrests (h.server hij hguard hboth) rfl
  | @others k e hi hj =>
      refine hrests (h.others hij hguard hboth hi hj) ?_
      unfold Net.accepts
      split
      · rename_i heq
        cases heq
        exact decide_eq_false fun hand => hj hand.1
      · rfl
  | aloof ha => exact hrests (h.aloof hij hguard hboth ha) (not_accepts ha.accept)
  | @accepts env hacc hok hfresh =>
      have hyes : Net.accepts p j (.client j (.cmd (.accept p.rid p.oid) env)) = true :=
        decide_eq_true ⟨rfl, rfl, rfl⟩
      rw [hyes, Bool.or_true]
      exact h.accepts hij hphase hguard hboth hacc hok hfresh
  | serves hmsg hbetween hm hok => exact hleads (h.serves hij hphase hlen hguard hboth hmsg hbetween hm hok)
  | stores hmsg hbetween hm hok => exact hleads (h.stores hij hphase hguard hboth hmsg hbetween hm hok)

end Steps

/-- At the start the download waits for the user. -/
theorem CarriageStart.carried {p : Handover} {i j : ι} {s : Net ι} (h : CarriageStart p i j s)
    (hs : ((netLts ι).guard NetEvent.Patient).Reachable s) (hboth : s.Both i j) :
    Carried p i j s ⟨false, 0⟩ := by
  obtain ⟨d, hnew⟩ := h.download
  obtain ⟨u, hfound, haddr, hholds⟩ := h.offer
  have hends := (clients_inductive ι).invariant s hs.of_guard
  have hd := List.mem_of_find?_eq_some hnew.found
  have hmatch := matches_of_find hnew.found
  obtain ⟨hok, hnames⟩ := livePartNames_inductive.invariant _ (hends j).1
  refine ⟨hs, hboth, h.ids, _, .fresh (d := d) (u := u) rfl ⟨hok.inOrder.nodup,
    ⟨h.sessions.2, (hends j).2⟩, hnew, hnames d hd hmatch.1.symm hmatch.2.2.2, fun hpre => ?_⟩
    ⟨(cltOk_inductive.invariant _ (hends i).1).inOrder.nodup, h.sessions.1, hfound, haddr, hholds⟩
    h.quiet.1 h.quiet.2, Nat.zero_add _ |>.le⟩
  exact not_ended_of_live (hends j).1 hd hmatch.2.2.2 hpre trivial hnew.addr.symm

/-- What the state owes after so many messages about the offer: no premature end was
reported, and the offer was not accepted yet, or one message about it is on its way, or the
file is there, the offer gone and nothing left to be said. -/
structure CarriageSound (p : Handover) (i j : ι) (t : Net ι) (o : Carriage) : Prop where
  bounded : o.handled ≤ 2 * (p.file.length + 1)
  clean : .premature p.addr ∉ (t.ends j).clt.disk.log
  single : o.accepted = false ∨ (∃ b, t.asked p i j ++ t.answers p i j = [b]) ∨
    (Finished p (t.ends j).clt ∧ OfferClosed p (t.ends i).clt ∧ t.asked p i j = [] ∧
      t.answers p i j = [])

theorem Carried.sound {p : Handover} {i j : ι} {t : Net ι} {o : Carriage} (h : Carried p i j t o) :
    CarriageSound p i j t o := by
  obtain ⟨left, hphase, hle⟩ := h.phase
  refine ⟨by omega, ?_, ?_⟩
  · cases hphase with
    | fresh _ hw => exact hw.clean
    | asking _ hd => exact hd.clean
    | bringing _ hd => exact hd.clean
    | ending _ hd => exact hd.clean
    | done _ hf => exact hf.reported.2
  · cases hphase with
    | fresh ha => exact .inl ha
    | asking _ _ _ _ hone _ hans => exact .inr (.inl ⟨_, by rw [hone, hans]; rfl⟩)
    | bringing _ _ _ _ hno _ _ _ hone => exact .inr (.inl ⟨_, by rw [hno, hone]; rfl⟩)
    | ending _ _ _ _ _ hno _ hone => exact .inr (.inl ⟨_, by rw [hno, hone]; rfl⟩)
    | done _ hf ho hno hans => exact .inr (.inr ⟨hf, ho, hno, hans⟩)

/-- **The file gets through the network.** Whatever the server and the other clients do, and
however the messages are cut, at most so many messages are handled, one is always on its
way, and when none is any more the file is there. -/
theorem file_carried [DecidableEq ι] {p : Handover} {i j : ι} (hij : i ≠ j) {s t : Net ι}
    {es : List (NetEvent ι)} {o : Carriage} (hs : ((netLts ι).guard NetEvent.Patient).Reachable s)
    (hboth : s.Both i j) (hstart : CarriageStart p i j s)
    (hrun : (carriageLts p i j).Run (s, ⟨false, 0⟩) es (t, o)) : CarriageSound p i j t o := by
  have hend := hrun.preserves (P := fun u => Carried p i j u.1 u.2)
    (fun u e v hu hstep => hu.step hij hstart.size hstep) (hstart.carried hs hboth)
  exact hend.sound

/-! ## A file of two octets -/

section Try

variable [DecidableEq ι] {p : Handover} {i j : ι}

/-- What the steps below are, as a function. -/
def Net.calm (p : Handover) (i j : ι) (s : Net ι × Carriage) : NetEvent ι → Bool
  | .server _ => true
  | .client _ (.write _) => true
  | .client k (.read res env) =>
      ((CltEvent.read res env).message (s.1.ends k).clt).all fun q =>
        decide (k = i ∧ s.1.between j i q.2.b = true ∧ AsksFor q.2 p.rid p.oid ∧
            ReadsOk q.1.toSysEnv (s.1.ends i).clt.disk) ||
          decide (k = j ∧ s.1.between i j q.2.b = true ∧ ServesFor q.2 p.dest p.oid ∧
            WritesOk q.1.toSysEnv)
  | .client k (.cmd (.accept rid oid) env) =>
      decide ((k = j ∧ rid = p.rid ∧ oid = p.oid) ∧ s.2.accepted = false ∧ WritesOk env.toSysEnv ∧
        FreshFd env.toSysEnv (s.1.ends j).clt.disk)
  | _ => false

theorem Net.calm_untroubled {s : Net ι × Carriage} {e : NetEvent ι} (h : Net.calm p i j s e = true) :
    Untroubled p i j s e := by
  unfold Net.calm at h
  split at h
  · exact .server
  · exact .aloof (aloof_write _ _)
  · rename_i k res env
    cases hmsg : (CltEvent.read res env).message (s.1.ends k).clt with
    | none => exact .aloof (aloof_read hmsg)
    | some q =>
        rw [hmsg, Option.all_some, Bool.or_eq_true, decide_eq_true_eq, decide_eq_true_eq] at h
        rcases h with ⟨rfl, hbetween, hm, hok⟩ | ⟨rfl, hbetween, hm, hok⟩
        · exact .serves hmsg hbetween hm hok
        · exact .stores hmsg hbetween hm hok
  · obtain ⟨⟨rfl, rfl, rfl⟩, hacc, hok, hfresh⟩ := of_decide_eq_true h
    exact .accepts hacc hok hfresh
  · cases h

end Try

/-- An undisturbed step between two clients. -/
def carriageTry (p : Handover) (i j : Bool) (s : Net Bool × Carriage) (e : NetEvent Bool) :
    Option (Net Bool × Carriage) :=
  if e.Patient s.1 ∧ Net.calm p i j s e = true then
    Lts.observeFun (bothTry i j) (Net.noteCarriage p i j) s e
  else none

theorem carriageTry_step {p : Handover} {i j : Bool} (s : Net Bool × Carriage) (e : NetEvent Bool)
    (t : Net Bool × Carriage) (h : carriageTry p i j s e = some t) : (carriageLts p i j).step s e t := by
  unfold carriageTry at h
  split at h
  · rename_i hcond
    have hobserved : (((netLts Bool).within (Net.Both i j)).observe ⟨false, 0⟩
      (Net.noteCarriage p i j)).step s e t := Lts.observeFun_step bothTry_step s e t h
    obtain ⟨hstep, hnote⟩ := hobserved
    exact ⟨⟨⟨⟨hstep.1, hcond.1⟩, hstep.2⟩, hnote⟩, Net.calm_untroubled hcond.2⟩
  · cases h

/-- What can be seen of the start. -/
def Net.ready (p : Handover) (i j : Bool) (s : Net Bool) : Bool :=
  decide (s.Both i j ∧ s.idOf i = p.rid ∧ s.idOf j = p.dest) &&
    decide ((s.ends i).clt.st = .authOk ∧ (s.ends j).clt.st = .authOk) &&
    ((s.ends j).clt.transfers.find? fun d => d.Matches .download p.rid p.oid).any (fun d =>
      decide (d.addr = p.addr ∧ d.size.toNat = p.file.length ∧ d.offset = 0 ∧ d.fd < 0 ∧
        partFile (s.ends j).clt.disk d = none)) &&
    ((s.ends i).clt.transfers.find? fun o => o.Matches .offer p.dest p.oid).any (fun o =>
      decide (o.addr = p.entry ∧ OfferHolds (s.ends i).clt.disk o p.file)) &&
    decide (s.asked p i j = [] ∧ s.answers p i j = [])

theorem Net.ready_start {p : Handover} {i j : Bool} {s : Net Bool} (hlen : p.file.length < 2 ^ 63)
    (h : s.ready p i j = true) : s.Both i j ∧ CarriageStart p i j s := by
  unfold Net.ready at h
  simp only [Bool.and_eq_true, Option.any_eq_true, decide_eq_true_eq] at h
  obtain ⟨⟨⟨⟨⟨hboth, hids⟩, hst⟩, d, hfound, haddr, hsize, hoff, hshut, habsent⟩, hoffer⟩, hquiet⟩ := h
  exact ⟨hboth, hids, hst, ⟨d, hfound, haddr, hsize, hoff, hshut, habsent⟩, hoffer, hquiet, hlen⟩

/-- The first client has offered its file to the second one. -/
def offered : List (Net Bool → NetEvent Bool) :=
  loginBoth ++ [fun _ => .client false (.cmd (.offer 2 (ascii "f")) demoEnv)] ++ sendUp false 0 ++
    sendDown true 1 ++ sendUp true 1 ++ sendDown false 0

/-- The second client accepts, and both handle what arrives. -/
def carried : List (Net Bool → NetEvent Bool) :=
  let env (fd : Int) : CltEnv := { demoEnv with openFd := some fd, write := some 65376 }
  let hear (i : Bool) (k : Nat) (fd : Int) : List (Net Bool → NetEvent Bool) :=
    [fun _ => .server (.write k 1 (.sent 1000)),
      fun s => .client i (.read (.got ((s.ends i).down.take 40)) demoEnv),
      fun s => .client i (.read (.got (s.ends i).down) (env fd))]
  let trip (fd : Int) : List (Net Bool → NetEvent Bool) :=
    sendUp true 1 ++ hear false 0 fd ++ sendUp false 0 ++ hear true 1 fd
  [fun _ => .client true (.cmd (.accept 1 2) (env 20))] ++ trip 21 ++ trip 22

/-- The offer as both sides know it. -/
def netHandover : Handover := { rid := 1, oid := 2, file := [1, 2], addr := 0, dest := 2, entry := 0 }

theorem file_carried_two : ∃ (s t : Net Bool) (o : Carriage), CarriageStart netHandover false true s ∧
    o.handled = 4 ∧ Finished netHandover (t.ends true).clt ∧ CarriageSound netHandover false true t o := by
  have hexec : (Lts.script patientTry demoNet offered).any (fun s => s.ready netHandover false true &&
      (Lts.script (carriageTry netHandover false true) (s, ⟨false, 0⟩)
        (carried.map fun g s => g s.1)).any fun t =>
          decide (t.2.accepted = true ∧ t.2.handled = 4 ∧
            t.1.asked netHandover false true ++ t.1.answers netHandover false true = [])) = true := by
    decide +kernel
  obtain ⟨es, s, hrun, hp⟩ := Lts.run_of_script patientTry_step hexec
  obtain ⟨hready, hp⟩ := Bool.and_eq_true_iff.mp hp
  obtain ⟨hboth, hstart⟩ := Net.ready_start (by decide) hready
  obtain ⟨es', ⟨t, o⟩, hrun', hq⟩ := Lts.run_of_script (carriageTry_step (p := netHandover)) hp
  obtain ⟨hacc, hhandled, hquiet⟩ := of_decide_eq_true hq
  have hsound := file_carried (by decide)
    (.run (M := (netLts Bool).guard NetEvent.Patient) (.init demoNet_init) hrun) hboth hstart hrun'
  refine ⟨s, t, o, hstart, hhandled, ?_, hsound⟩
  rcases hsound.single with hno | ⟨b, hb⟩ | hdone
  · exact absurd (hno.symm.trans hacc) (by decide)
  · exact absurd (hquiet.symm.trans hb) (List.cons_ne_nil b []).symm
  · exact hdone.1

end Frelay
