import Frelay.Server.Answers
import Frelay.Userdb.Reload

/-!
# What a client gets for its messages

Four promises about a complete message that reaches the server, each with the
exact condition under which it is kept:

* `one_answer_iff` — a request gets one answer and any other message none;
* `server_srcid_iff` — answers of the server carry the source id 0;
* `clients_undisturbed_iff` — the other clients notice forwarded messages and the
  kick of a second login only;
* `failed_request_traceless_iff` — an error leaves everything as it was.

All four rest on the list of outcomes (`srvStep_serves`).
-/

namespace Frelay

open Lib

/-! ## One answer -/

/-- From `s` to `t` the message `m` of slot `i` got what its class calls for: a
request one answer with its transaction id and base type, anything else nothing. -/
def AnsweredOnce (s t : Server) (i : Nat) (m : Mbuf) : Prop :=
  (t.clients i).rbuf = none ∧
    if mclassIsReq (hdrGetType m) = true then
      ∃ r, (t.clients i).q = (s.clients i).q ++ [r] ∧ hdrGetTrfid r = hdrGetTrfid m ∧
        (hdrGetType r = mclassToRes (hdrGetType m) ∨ hdrGetType r = mclassToErr (hdrGetType m))
    else (t.clients i).q = (s.clients i).q

/-- The messages the server composed for slot `i` when it served `m`. -/
def answers (s t : Server) (i : Nat) (m : Mbuf) : List Mbuf :=
  if route s i (fillSrcid (s.clients i) m) = none then
    (t.clients i).q.drop (s.clients i).q.length
  else []

/-- The queue of the sender does not change while its message is served. -/
theorem Serves.q {env : MsgEnv} {s t : Server} {i : Nat} {m : Mbuf} {v : Verdict}
    (h : Serves env s i m v t) : (t.clients i).q = (s.clients i).q := by
  cases h with
  | temp | challenge | unsupported | authFailed | auth | logout => rw [Server.setClient_self]
  | _ => rfl

/-- What the sender's queue gets. -/
theorem sendBack_q (s : Server) (i : Nat) (rbuf : Option Mbuf) :
    ((sendBack s i rbuf).clients i).q =
      (s.clients i).q ++ (rbuf.map fun r => ({ r with boff := 0 } : Mbuf)).toList := by
  rw [sendBack_clients, if_pos rfl]

/-- Only a message that is no request and passes the gates is met with silence. -/
theorem Serves.silence {env : MsgEnv} {s t : Server} {i : Nat} {m : Mbuf} {v : Verdict}
    (h : Serves env s i m v t) : v = .silence ↔ mclassIsReq (hdrGetType m) = false ∧ ¬ Gated s i m := by
  have hno : ∀ {u : MsgType} {P : Prop}, IsRequest m u → mclassIsReq u.code = true →
      (mclassIsReq (hdrGetType m) = false ∧ P ↔ False) := by
    intro u P hask hu
    rw [hask.isReq hu]
    simp
  cases h with
  | gated hg hna => simp [hg]
  | refused hreq hna => simp [hreq]
  | ignored hreq hg => simp [hreq, hg]
  | ping hask => simp [hno hask (by decide)]
  | peerlist hask => simp [hno hask (by decide)]
  | register hask =>
      rw [hno hask (by decide)]
      split <;> simp
  | drop hask =>
      rw [hno hask (by decide)]
      split <;> simp
  | conflict hask => simp [hno hask (by decide)]
  | temp hask => simp [hno hask (by decide)]
  | challenge hask => simp [hno hask (by decide)]
  | unsupported hask => simp [hno hask (by decide)]
  | authFailed hask => simp [hno hask (by decide)]
  | auth hask => simp [hno hask (by decide)]
  | logout hask => simp [hno hask (by decide)]

/-- A verdict but silence is one message that answers `m`. -/
theorem Verdict.Fits.answer {env : MsgEnv} {m : Mbuf} {v : Verdict} {rbuf : Option Mbuf}
    (h : v.Fits env m rbuf) (hv : v ≠ .silence) :
    ∃ r, rbuf = some r ∧ hdrGetTrfid r = hdrGetTrfid m ∧ hdrGetSrcid r = hdrGetDstid m ∧
      (hdrGetType r = mclassToRes (hdrGetType m) ∨ hdrGetType r = mclassToErr (hdrGetType m)) := by
  cases v with
  | silence => exact absurd rfl hv
  | response l =>
      exact ⟨_, h, hdrGetTrfid_mkMsg _ _ _, hdrGetSrcid_mkMsg _ _ _, .inl (hdrGetType_mkMsg _ _ _)⟩
  | error =>
      obtain ⟨r, hr, hreply, -⟩ := h
      exact ⟨r, hr, hreply.trfid, hreply.srcid, hreply.type⟩

/-- The gates look at the sender's state and the destination. -/
theorem gated_opened {s : Server} {i : Nat} {now : Int} {m : Mbuf} (hm : 40 ≤ m.bsize) :
    Gated (s.setClient i (opened s i now)) i (fillSrcid (s.clients i) m) ↔ Gated s i m := by
  have hview := opened_view s i now
  have hst := fun j => congrArg Session.st (hview j).2
  have hid := fun j => congrArg Session.id (hview j).2
  have hfind : ∀ x, findDst (s.setClient i (opened s i now)) x = findDst s x := by
    intro x
    have hst' : ∀ j, ((s.setClient i (opened s i now)).clients j).st = (s.clients j).st := hst
    have hid' : ∀ j, ((s.setClient i (opened s i now)).clients j).id = (s.clients j).id := hid
    simp only [findDst, hst', hid', fun j => (hview j).1]
    rfl
  have hsti : ((s.setClient i (opened s i now)).clients i).st = (s.clients i).st := hst i
  rw [Gated, Gated, hsti, hdrGetDstid_fillSrcid hm, hfind]

section Messages

variable {s : Server} {i : Nat} {now : Int} {res : ReadRes} {env : MsgEnv} {m : Mbuf}

/-- An exit is brought about by a request. -/
theorem Exits.isReq (h : Exits env s i m) : mclassIsReq (hdrGetType m) = true := by
  rcases h with ⟨hask, -⟩ | ⟨hask, -⟩
  · exact hask.isReq (by decide)
  · exact hask.isReq (by decide)

/-- The sender's slot after a message was served. -/
theorem served_slot {t : Server} {v : Verdict} (rbuf : Option Mbuf)
    (hserves : Serves env (s.setClient i (opened s i now)) i (fillSrcid (s.clients i) m) v t) :
    ((sendBack t i rbuf).clients i).rbuf = none ∧ ((sendBack t i rbuf).clients i).q =
      (s.clients i).q ++ (rbuf.map fun r => ({ r with boff := 0 } : Mbuf)).toList := by
  refine ⟨by rw [sendBack_clients, if_pos rfl], ?_⟩
  rw [sendBack_q, hserves.q, Server.setClient_self, (opened_same s i now).2.2]

/-- **One answer per request, none otherwise.** A message that is not forwarded gets
what its class calls for exactly if, being a request, it does not end the process,
and, being none, it passes the gates. -/
theorem one_answer_iff (hs : (srvLts fun _ => True).Reachable s) (hlive : s.Live i)
    (hm : readOutcome (slotBuffer s i now) res = .complete m)
    (hroute : route s i (fillSrcid (s.clients i) m) = none) :
    (∃ t, srvStep s (.read i now res env) = some t ∧ AnsweredOnce s t i m) ↔
      if mclassIsReq (hdrGetType m) = true then ¬ Exits env s i (fillSrcid (s.clients i) m)
      else ¬ Gated s i m := by
  obtain ⟨hm40, -, hexit, hserve⟩ := srvStep_serves env hs hlive hm
  have hty := hdrGetType_fillSrcid (c := s.clients i) hm40
  by_cases hex : Exits env s i (fillSrcid (s.clients i) m)
  · rw [hexit hroute hex, if_pos (hty ▸ hex.isReq)]
    simp [hex]
  · obtain ⟨v, t, rbuf, hstep, hserves, hfits⟩ := hserve hroute hex
    obtain ⟨hrbuf, hq⟩ := served_slot rbuf hserves
    have hsilent := hserves.silence
    rw [hty, gated_opened hm40] at hsilent
    rw [hstep]
    by_cases hreq : mclassIsReq (hdrGetType m) = true
    · rw [if_pos hreq]
      refine iff_of_true ⟨_, rfl, hrbuf, ?_⟩ hex
      obtain ⟨r, rfl, htrf, -, htyp⟩ := hfits.answer fun hv => by
        rw [(hsilent.mp hv).1] at hreq
        cases hreq
      rw [if_pos hreq]
      rw [hdrGetTrfid_fillSrcid hm40] at htrf
      rw [hty] at htyp
      exact ⟨_, hq, htrf, htyp⟩
    · rw [if_neg hreq]
      constructor
      · rintro ⟨u, hu, -, hans⟩ hg
        cases hu
        rw [if_neg hreq, hq] at hans
        obtain ⟨r, rfl, -⟩ := hfits.answer fun hv => (hsilent.mp hv).2 hg
        exact absurd (List.append_right_eq_self.mp hans) (List.cons_ne_nil _ _)
      · intro hg
        refine ⟨_, rfl, hrbuf, ?_⟩
        rw [if_neg hreq, hq]
        have hv := hsilent.mpr ⟨eq_false_of_ne_true hreq, hg⟩
        subst hv
        cases hfits
        exact List.append_nil _

/-- A PING request for the client with the given id, or for the server. -/
def pingFor (dstid : UInt64) : Bytes := (mbufCompose 0 .pingReq 0 dstid 1).b

/-- A PING request of a client that has not logged in gets its one answer. -/
theorem one_answer_iff_ping :
    ∃ s m, (hdrGetType m = MsgType.pingReq.code ∧ (s.clients 0).st = .preLogin) ∧
      ((∃ t, srvStep s (.read 0 1 (.got (pingFor 2)) ⟨[], 0, .good, .good⟩) = some t ∧
        AnsweredOnce s t 0 m) ↔
        if mclassIsReq (hdrGetType m) = true then
          ¬ Exits ⟨[], 0, .good, .good⟩ s 0 (fillSrcid (s.clients 0) m) else ¬ Gated s 0 m) := by
  have hexec : (Lts.exec srvTry (demoServer none) [.accept 4 true 1]).any (fun s =>
      decide (s.Live 0) && (s.clients 0).st == .preLogin &&
        readOutcome (slotBuffer s 0 1) (.got (pingFor 2)) == .complete ⟨pingFor 2, 40⟩ &&
        route s 0 (fillSrcid (s.clients 0) ⟨pingFor 2, 40⟩) == none) = true := by
    decide +kernel
  obtain ⟨s, hs, hp⟩ := Lts.reachable_of_exec (fun _ _ _ => srvTry_step (fun _ => True) trivial)
    (demoServer_init (fun _ => True) trivial _) hexec
  simp only [Bool.and_eq_true, decide_eq_true_eq, beq_iff_eq] at hp
  obtain ⟨⟨⟨hlive, hst⟩, hm⟩, hroute⟩ := hp
  exact ⟨s, _, ⟨by decide, hst⟩, one_answer_iff hs hlive hm hroute⟩

/-- A PING indication of a client that has not logged in is answered. -/
theorem indication_answered :
    ∃ s t m, (srvLts fun _ => True).Reachable s ∧ s.Live 0 ∧
      readOutcome (slotBuffer s 0 1) (.got (mbufCompose 0 .pingInd 0 0 1).b) = .complete m ∧
      route s 0 (fillSrcid (s.clients 0) m) = none ∧ mclassIsReq (hdrGetType m) = false ∧
      srvStep s (.read 0 1 (.got (mbufCompose 0 .pingInd 0 0 1).b) ⟨[], 0, .good, .good⟩) = some t ∧
      (t.clients 0).q ≠ (s.clients 0).q := by
  have hexec : (Lts.exec srvTry (demoServer none) [.accept 4 true 1]).any (fun s =>
      decide (s.Live 0) &&
        readOutcome (slotBuffer s 0 1) (.got (mbufCompose 0 .pingInd 0 0 1).b) ==
          .complete ⟨(mbufCompose 0 .pingInd 0 0 1).b, 40⟩ &&
        route s 0 (fillSrcid (s.clients 0) ⟨(mbufCompose 0 .pingInd 0 0 1).b, 40⟩) == none &&
        (srvStep s (.read 0 1 (.got (mbufCompose 0 .pingInd 0 0 1).b)
          ⟨[], 0, .good, .good⟩)).any fun t => (t.clients 0).q != (s.clients 0).q) = true := by
    decide +kernel
  obtain ⟨s, hs, hp⟩ := Lts.reachable_of_exec (fun _ _ _ => srvTry_step (fun _ => True) trivial)
    (demoServer_init (fun _ => True) trivial _) hexec
  simp only [Bool.and_eq_true, decide_eq_true_eq, beq_iff_eq, Option.any_eq_true] at hp
  obtain ⟨⟨⟨hlive, hm⟩, hroute⟩, t, ht, hq⟩ := hp
  exact ⟨s, t, _, hs, hlive, hm, hroute, by decide, ht, bne_iff_ne.mp hq⟩

/-- Nothing is composed in answer to the message. -/
def Unanswered (s : Server) (i : Nat) (m : Mbuf) : Prop :=
  route s i (fillSrcid (s.clients i) m) ≠ none ∨
    (mclassIsReq (hdrGetType m) = false ∧ ¬ Gated s i m)

/-- **Server messages carry the source id 0** exactly if the message they answer was
for the server, or is not answered at all. -/
theorem server_srcid_iff (hs : (srvLts fun _ => True).Reachable s) (hlive : s.Live i)
    (hm : readOutcome (slotBuffer s i now) res = .complete m) :
    (∀ t, srvStep s (.read i now res env) = some t → ∀ r ∈ answers s t i m, hdrGetSrcid r = 0) ↔
      hdrGetDstid m = 0 ∨ Unanswered s i m := by
  obtain ⟨hm40, -, hexit, hserve⟩ := srvStep_serves env hs hlive hm
  have hty := hdrGetType_fillSrcid (c := s.clients i) hm40
  have hdst := hdrGetDstid_fillSrcid (c := s.clients i) hm40
  by_cases hroute : route s i (fillSrcid (s.clients i) m) = none
  · by_cases hex : Exits env s i (fillSrcid (s.clients i) m)
    · rw [hexit hroute hex]
      exact iff_of_true (fun t ht => by cases ht) (.inl (hdst.symm.trans hex.dstid))
    · obtain ⟨v, t, rbuf, hstep, hserves, hfits⟩ := hserve hroute hex
      obtain ⟨-, hq⟩ := served_slot rbuf hserves
      have hsilent := hserves.silence
      rw [hty, gated_opened hm40] at hsilent
      -- What the slot has more in its queue is the answer.
      have hans : answers s (sendBack t i rbuf) i m =
          (rbuf.map fun r => ({ r with boff := 0 } : Mbuf)).toList := by
        rw [answers, if_pos hroute, hq, List.drop_left]
      constructor
      · intro h
        by_contra hno
        have hv : v ≠ .silence := fun hv => hno (.inr (.inr (hsilent.mp hv)))
        obtain ⟨r, rfl, -, hsrc, -⟩ := hfits.answer hv
        have hzero := h _ hstep { r with boff := 0 } (by rw [hans]; exact List.mem_singleton.mpr rfl)
        exact hno (.inl (hdst.symm.trans (hsrc.symm.trans hzero)))
      · intro h u hu r hr
        rw [hstep] at hu
        cases hu
        rw [hans] at hr
        obtain ⟨x, hx, rfl⟩ := Option.map_eq_some_iff.mp (Option.mem_toList.mp hr)
        have hv : v ≠ .silence := by
          rintro rfl
          cases hx.symm.trans hfits
        obtain ⟨y, hy, -, hsrc, -⟩ := hfits.answer hv
        cases hx.symm.trans hy
        rcases h with h | h | h
        · exact hsrc.trans (hdst.trans h)
        · exact absurd hroute h
        · exact absurd (hsilent.mpr h) hv
  · refine iff_of_true ?_ (.inr (.inl hroute))
    intro t ht r hr
    rw [answers, if_neg hroute] at hr
    cases hr

/-- A PING request for the server itself. -/
theorem server_srcid_iff_ping :
    ∃ s m, (hdrGetType m = MsgType.pingReq.code ∧ hdrGetDstid m = 0) ∧
      ((∀ t, srvStep s (.read 0 1 (.got (pingFor 0)) ⟨[], 0, .good, .good⟩) = some t →
        ∀ r ∈ answers s t 0 m, hdrGetSrcid r = 0) ↔
        hdrGetDstid m = 0 ∨ Unanswered s 0 m) := by
  have hexec : (Lts.exec srvTry (demoServer none) [.accept 4 true 1]).any (fun s =>
      decide (s.Live 0) &&
        readOutcome (slotBuffer s 0 1) (.got (pingFor 0)) == .complete ⟨pingFor 0, 40⟩) = true := by
    decide +kernel
  obtain ⟨s, hs, hp⟩ := Lts.reachable_of_exec (fun _ _ _ => srvTry_step (fun _ => True) trivial)
    (demoServer_init (fun _ => True) trivial _) hexec
  simp only [Bool.and_eq_true, decide_eq_true_eq, beq_iff_eq] at hp
  exact ⟨s, _, by decide, server_srcid_iff hs hp.1 hp.2⟩

/-- A PING request for the client 2, sent before the login: the error of the server
carries the source id 2. -/
theorem server_srcid_two :
    ∃ s t m, (srvLts fun _ => True).Reachable s ∧ s.Live 0 ∧
      readOutcome (slotBuffer s 0 1) (.got (pingFor 2)) = .complete m ∧
      srvStep s (.read 0 1 (.got (pingFor 2)) ⟨[], 0, .good, .good⟩) = some t ∧
      ∃ r ∈ answers s t 0 m, hdrGetSrcid r = 2 := by
  have hexec : (Lts.exec srvTry (demoServer none) [.accept 4 true 1]).any (fun s =>
      decide (s.Live 0) &&
        readOutcome (slotBuffer s 0 1) (.got (pingFor 2)) == .complete ⟨pingFor 2, 40⟩ &&
        (srvStep s (.read 0 1 (.got (pingFor 2)) ⟨[], 0, .good, .good⟩)).any fun t =>
          (answers s t 0 ⟨pingFor 2, 40⟩).any fun r => hdrGetSrcid r == 2) = true := by
    decide +kernel
  obtain ⟨s, hs, hp⟩ := Lts.reachable_of_exec (fun _ _ _ => srvTry_step (fun _ => True) trivial)
    (demoServer_init (fun _ => True) trivial _) hexec
  simp only [Bool.and_eq_true, decide_eq_true_eq, beq_iff_eq, Option.any_eq_true,
    List.any_eq_true] at hp
  obtain ⟨⟨hlive, hm⟩, t, ht, r, hr, hsrc⟩ := hp
  exact ⟨s, t, _, hs, hlive, hm, ht, r, hr, hsrc⟩

/-! ## Other clients -/

/-- The message is an AUTH request that succeeds. -/
def Authenticates (env : MsgEnv) (s : Server) (i : Nat) (m : Mbuf) : Prop :=
  IsRequest m .authReq ∧ (s.clients i).st = .loginOk ∧ (firstStr env m .digest).isSome = true ∧
    firstStr env m .digest = (s.clients i).key

instance (env : MsgEnv) (s : Server) (i : Nat) (m : Mbuf) : Decidable (Authenticates env s i m) :=
  inferInstanceAs (Decidable (_ ∧ _))

theorem authenticates_of_key {key : Bytes} (hm : IsRequest m .authReq) (hst : (s.clients i).st = .loginOk)
    (hdig : firstStr env m .digest = some key) (hkey : (s.clients i).key = some key) :
    Authenticates env s i m :=
  ⟨hm, hst, by rw [hdig]; rfl, hdig.trans hkey.symm⟩

/-- An AUTH request that succeeds is served as one. -/
theorem Serves.of_authenticates {t : Server} {v : Verdict} (h : Serves env s i m v t)
    (hauth : Authenticates env s i m) :
    t = (kickOthers i s.slots s).setClient i { s.clients i with st := .authOk } := by
  obtain ⟨hm, hst, hsome, heq⟩ := hauth
  obtain ⟨key, hdig⟩ := Option.isSome_iff_exists.mp hsome
  have hkey := heq.symm.trans hdig
  have hno : ∀ {u : MsgType}, IsRequest m u → u ≠ .authReq → False :=
    fun hask hu => hu (hask.unique hm)
  have hacts : Acts env s i m := ⟨hm.1, by rw [hm.type]; trivial⟩
  cases h with
  | gated hg hna => exact absurd hacts hna
  | refused hreq hna => exact absurd hacts hna
  | ignored hreq hg =>
      rw [hm.isReq (by decide)] at hreq
      cases hreq
  | ping hty => exact (hno hty (by decide)).elim
  | peerlist hty => exact (hno hty (by decide)).elim
  | register hty => exact (hno hty (by decide)).elim
  | drop hty => exact (hno hty (by decide)).elim
  | conflict hty => exact (hno hty (by decide)).elim
  | temp hty => exact (hno hty (by decide)).elim
  | challenge hty => exact (hno hty (by decide)).elim
  | unsupported hty => exact (hno hty (by decide)).elim
  | authFailed _ hbad => exact absurd hkey (hbad hst key hdig)
  | auth => rfl
  | logout hty => exact (hno hty (by decide)).elim

/-- Only an AUTH request that succeeds touches other slots. -/
theorem Serves.others {t : Server} {v : Verdict} (h : Serves env s i m v t)
    (hauth : ¬ Authenticates env s i m) {j : Nat} (hj : j ≠ i) : t.clients j = s.clients j := by
  cases h with
  | temp | challenge | unsupported | authFailed | logout =>
      exact Server.setClient_of_ne _ _ hj
  | auth hm hst hdig hkey => exact absurd (authenticates_of_key hm hst hdig hkey) hauth
  | _ => rfl

/-- A client that has not logged in changes no entry of a loaded database. -/
theorem Serves.database {t : Server} {v : Verdict} (h : Serves env s i m v t)
    (hl : s.udb.Loaded) (hst : (s.clients i).st ≠ .authOk) (hauth : ¬ Authenticates env s i m) :
    t.udb.userdb = s.udb.userdb ∧ t.udb.file = s.udb.file := by
  have hlook : ∀ n, (udbLookupname env.db1 s.udb n).1 = s.udb := fun n => hl.load env.db1
  cases h with
  | register _ hst' => exact absurd hst' hst
  | drop _ hst' => exact absurd hst' hst
  | auth hm hst hdig hkey => exact absurd (authenticates_of_key hm hst hdig hkey) hauth
  | @conflict n => exact ⟨congrArg Udb.userdb (hlook n), congrArg Udb.file (hlook n)⟩
  | @challenge n u => exact ⟨congrArg Udb.userdb (hlook n), congrArg Udb.file (hlook n)⟩
  | @unsupported n u => exact ⟨congrArg Udb.userdb (hlook n), congrArg Udb.file (hlook n)⟩
  | @temp n =>
      have htemp : (udbGettempid env.db2 (udbLookupname env.db1 s.udb n).1).1 =
          { s.udb with nextId := s.udb.nextId + 1 } := by
        rw [hlook, udbGettempid, hl.load]
      have hlist : (udbGettempid env.db2 (udbLookupname env.db1 s.udb n).1).1.userdb =
          s.udb.userdb := by rw [htemp]
      have hfile : (udbGettempid env.db2 (udbLookupname env.db1 s.udb n).1).1.file =
          s.udb.file := by rw [htemp]
      exact ⟨hlist, hfile⟩
  | _ => exact ⟨rfl, rfl⟩

end Messages

/-- The database stays loaded. -/
theorem AcctStep.loaded {a b : Accounts} {e : AcctEvent} (h : a.udb.Loaded) (hf : e.FilesGood)
    (hstep : AcctStep a e b) : b.udb.Loaded := by
  cases hstep with
  | loginTaken hi hst hnone hused =>
      rw [udbLookupname, h.load]
      exact h
  | loginTemp hi hst hnone hfree =>
      have htemp := h.load
      simp only [Accounts.set, udbLookupname, udbGettempid, h.load]
      exact h
  | loginUser hi hst hu =>
      simp only [Accounts.set, udbLookupname, h.load]
      exact h
  | register hi hst hn =>
      obtain ⟨rfl, rfl⟩ := hf
      exact loaded_save rfl
  | drop hi hst hn =>
      cases hf
      exact h.dropentry rfl _
  | _ => exact h

theorem loaded_inductive : (srvLts (· = .good)).Inductive fun s => SlotsOk s ∧ s.udb.Loaded where
  init := by
    rintro s ⟨cfg, listenfd, e, file, -, rfl, rfl⟩
    exact ⟨slotsOk_initial cfg listenfd _, loaded_of_load rfl⟩
  step := by
    rintro s e t ⟨hok, hl⟩ ⟨hen, hf, hstep⟩
    exact ⟨hok.step hen hstep,
      AcctStep.loaded (a := s.acct) (b := t.acct) hl (acctEvent_filesGood hf)
        (srvStep_acct hok hen hstep)⟩

/-- Successful accesses are possible ones. -/
theorem reachable_of_good {s : Server} (hs : (srvLts (· = .good)).Reachable s) :
    (srvLts fun _ => True).Reachable s := by
  obtain ⟨s₀, es, ⟨cfg, listenfd, e, file, hfd, -, rfl⟩, hrun⟩ := hs
  refine ⟨_, es, ⟨cfg, listenfd, e, file, hfd, trivial, rfl⟩, hrun.mono ?_⟩
  rintro s e t ⟨hen, -, hstep⟩
  refine ⟨hen, ?_, hstep⟩
  cases e with
  | read i now res env => exact ⟨trivial, trivial⟩
  | _ => trivial

/-- From `s` to `t` the message `m` of slot `i` has not disturbed the other clients. -/
structure Undisturbed (env : MsgEnv) (s : Server) (i : Nat) (m : Mbuf) (t : Server) : Prop where
  others : ∀ j, s.Live j → j ≠ i → t.clients j =
    if Authenticates env s i (fillSrcid (s.clients i) m) ∧ (s.clients j).id = (s.clients i).id then
      closedClient
    else { s.clients j with
      q := (s.clients j).q ++ forwarded s i (fillSrcid (s.clients i) m) j }
  unauthenticated : (s.clients i).st ≠ .authOk →
    ¬ Authenticates env s i (fillSrcid (s.clients i) m) →
    (∀ j, j ≠ i → t.clients j = s.clients j) ∧
      t.udb.userdb = s.udb.userdb ∧ t.udb.file = s.udb.file

section Messages

variable {s : Server} {i : Nat} {now : Int} {res : ReadRes} {env : MsgEnv} {m : Mbuf}

theorem authenticates_opened : Authenticates env (s.setClient i (opened s i now)) i m ↔
    Authenticates env s i m := by
  have hview := (opened_view s i now i).2
  have hst : ((s.setClient i (opened s i now)).clients i).st = (s.clients i).st :=
    congrArg Session.st hview
  have hkey : ((s.setClient i (opened s i now)).clients i).key = (s.clients i).key :=
    congrArg Session.key hview
  rw [Authenticates, Authenticates, hst, hkey]

/-- A forwarded message is put into one queue. -/
theorem undisturbed_forward {j : Nat} (hroute : route s i (fillSrcid (s.clients i) m) = some j) :
    Undisturbed env s i m
      (sendBack (enqueueMsg (s.setClient i (opened s i now)) j (fillSrcid (s.clients i) m))
        i none) := by
  have hfw := route_forwards hroute
  refine ⟨?_, fun hst => absurd hfw.sender hst⟩
  intro k hk hki
  have hself : (s.setClient i (opened s i now)).clients k = s.clients k :=
    Server.setClient_of_ne _ _ hki
  rw [if_neg fun h => hfw.dst_ne_zero h.1.1.1, sendBack_clients, if_neg hki, enqueueMsg_clients,
    forwarded, hroute]
  by_cases hkj : k = j
  · subst hkj
    rw [if_pos rfl, if_pos rfl, hself]
  · rw [if_neg hkj, if_neg fun h => hkj (Option.some.inj h).symm, hself, List.append_nil]

/-- A message that is served leaves other slots alone but for those it kicks. -/
theorem undisturbed_served {t : Server} {v : Verdict} {rbuf : Option Mbuf} (hl : s.udb.Loaded)
    (hroute : route s i (fillSrcid (s.clients i) m) = none)
    (hserves : Serves env (s.setClient i (opened s i now)) i (fillSrcid (s.clients i) m) v t) :
    Undisturbed env s i m (sendBack t i rbuf) := by
  have hview := opened_view s i now
  have hself : ∀ k, k ≠ i → (s.setClient i (opened s i now)).clients k = s.clients k :=
    fun k hk => Server.setClient_of_ne _ _ hk
  have hauth : Authenticates env (s.setClient i (opened s i now)) i (fillSrcid (s.clients i) m) ↔
      Authenticates env s i (fillSrcid (s.clients i) m) := authenticates_opened
  constructor
  · intro k hk hki
    rw [sendBack_clients, if_neg hki, forwarded_none hroute, List.append_nil]
    by_cases ha : Authenticates env s i (fillSrcid (s.clients i) m)
    · obtain ⟨-, -, -, -, hkick⟩ := kickOthers_spec i (s.setClient i (opened s i now)).slots
        (s.setClient i (opened s i now))
      have hid : ((s.setClient i (opened s i now)).clients i).id = (s.clients i).id :=
        congrArg Session.id (hview i).2
      rw [hserves.of_authenticates (hauth.mpr ha), Server.setClient_of_ne _ _ hki, hkick k hki,
        hself k hki, hid]
      have hmem : k ∈ (s.setClient i (opened s i now)).slots := Server.mem_slots.mpr hk.1
      simp only [ha, hmem, hk.2, true_and, and_true, eq_comm]
    · rw [if_neg fun h => ha h.1, hserves.others (fun h => ha (hauth.mp h)) hki, hself k hki]
  · intro hst hna
    have hst' : ((s.setClient i (opened s i now)).clients i).st ≠ .authOk := by
      rw [show ((s.setClient i (opened s i now)).clients i).st = (s.clients i).st from
        congrArg Session.st (hview i).2]
      exact hst
    have hna' := fun h => hna (hauth.mp h)
    refine ⟨?_, ?_⟩
    · intro k hki
      rw [sendBack_clients, if_neg hki, hserves.others hna' hki, hself k hki]
    · rw [sendBack_udb]
      exact hserves.database hl hst' hna'

/-- **Clients do not disturb each other.** With a database file that can be opened, a
message is processed without disturbing other clients exactly if it does not end the
process. -/
theorem clients_undisturbed_iff (hs : (srvLts (· = .good)).Reachable s) (hlive : s.Live i)
    (hm : readOutcome (slotBuffer s i now) res = .complete m) :
    (∃ t, srvStep s (.read i now res env) = some t ∧ Undisturbed env s i m t) ↔
      ¬ Exits env s i (fillSrcid (s.clients i) m) := by
  obtain ⟨-, hforward, hexit, hserve⟩ := srvStep_serves env (reachable_of_good hs) hlive hm
  cases hroute : route s i (fillSrcid (s.clients i) m) with
  | some j =>
      rw [hforward j hroute]
      exact iff_of_true ⟨_, rfl, undisturbed_forward hroute⟩
        fun hex => (route_forwards hroute).dst_ne_zero hex.dstid
  | none =>
      by_cases hex : Exits env s i (fillSrcid (s.clients i) m)
      · rw [hexit hroute hex]
        simp [hex]
      · obtain ⟨v, t, rbuf, hstep, hserves, -⟩ := hserve hroute hex
        exact iff_of_true ⟨_, hstep, undisturbed_served (loaded_inductive.invariant s hs).2 hroute
          hserves⟩ hex

end Messages

/-- A PING request is forwarded between two clients. -/
theorem clients_undisturbed_iff_two :
    ∃ s m, (peers s = [0, 1] ∧ route s 0 (fillSrcid (s.clients 0) m) = some 1) ∧
      ((∃ t, srvStep s (.read 0 1 (.got (pingFor 2)) ⟨[], 0, .good, .good⟩) = some t ∧
        Undisturbed ⟨[], 0, .good, .good⟩ s 0 m t) ↔
        ¬ Exits ⟨[], 0, .good, .good⟩ s 0 (fillSrcid (s.clients 0) m)) := by
  have hexec : (Lts.exec srvTry (demoServer none) twoUsersRun).any (fun s =>
      (peers s == [0, 1] && route s 0 (fillSrcid (s.clients 0) ⟨pingFor 2, 40⟩) == some 1) &&
        (decide (s.Live 0) &&
          readOutcome (slotBuffer s 0 1) (.got (pingFor 2)) == .complete ⟨pingFor 2, 40⟩)) =
      true := by
    decide +kernel
  obtain ⟨s, hs, hp⟩ := Lts.reachable_of_exec (fun _ _ _ => srvTry_step (· = .good) rfl)
    (demoServer_init (· = .good) rfl _) hexec
  simp only [Bool.and_eq_true, decide_eq_true_eq, beq_iff_eq] at hp
  exact ⟨s, _, hp.1, clients_undisturbed_iff hs hp.2.1 hp.2.2⟩

/-- The LOGIN request of a registered user. -/
def eveLogin : Bytes := requestOctets .loginReq .username (.str (ascii "eve"))

/-- A user whose key is of an unknown method sends a LOGIN and an AUTH request, and
the server ends for all clients. -/
theorem auth_ends_server :
    ∃ s m, (srvLts (· = .good)).Reachable s ∧ s.Live 0 ∧
      (s.Live 1 ∧ (s.clients 1).st = .authOk) ∧
      readOutcome (slotBuffer s 0 1) (.got (authOctets.drop MSG_HDR_SIZE)) = .complete m ∧
      srvStep s (authTail 0) = none := by
  have hexec : (Lts.exec srvTry (demoServer (some (ascii "0000000000000007|eve|md5 x\n")))
      (.accept 4 true 1 :: arrival 0 eveLogin ++
        .accept 5 true 1 :: arrival 1 (requestOctets .loginReq .username (.str (ascii "tom"))) ++
        [authHead 0])).any (fun s =>
        (decide (s.Live 0) && (decide (s.Live 1) && (s.clients 1).st == .authOk)) &&
          readOutcome (slotBuffer s 0 1) (.got (authOctets.drop MSG_HDR_SIZE)) ==
            .complete ⟨authOctets, authOctets.length⟩ &&
          (srvStep s (authTail 0)).isNone) = true := by
    decide +kernel
  obtain ⟨s, hs, hp⟩ := Lts.reachable_of_exec (fun _ _ _ => srvTry_step (· = .good) rfl)
    (demoServer_init (· = .good) rfl _) hexec
  simp only [Bool.and_eq_true, decide_eq_true_eq, beq_iff_eq, Option.isNone_iff_eq_none] at hp
  exact ⟨s, _, hs, hp.1.1.1, hp.1.1.2, hp.1.2, hp.2⟩

/-! ## Failed requests -/

/-- The database stays well formed. -/
theorem AcctStep.wellFormed {a b : Accounts} {e : AcctEvent} (h : a.udb.WellFormed)
    (hstep : AcctStep a e b) : b.udb.WellFormed := by
  cases hstep with
  | @loginTaken _ _ n e₁ => exact h.lookupname e₁ n
  | @loginTemp _ _ n e₁ e₂ => exact (h.lookupname e₁ n).gettempid e₂
  | @loginUser _ _ n e₁ => exact h.lookupname e₁ n
  | @register _ _ n _ e₁ e₂ => exact (h.dropentry e₁ n).addentry e₂ _ _ _
  | @drop _ _ n e₁ => exact h.dropentry e₁ n
  | _ => exact h

theorem wellFormed_inductive :
    (srvLts fun _ => True).Inductive fun s => SlotsOk s ∧ s.udb.WellFormed where
  init := by
    rintro s ⟨cfg, listenfd, e, file, -, -, rfl⟩
    exact ⟨slotsOk_initial cfg listenfd _, wellFormed_init e file⟩
  step := by
    rintro s e t ⟨hok, hwf⟩ ⟨hen, -, hstep⟩
    exact ⟨hok.step hen hstep,
      AcctStep.wellFormed (a := s.acct) (b := t.acct) hwf (srvStep_acct hok hen hstep)⟩

/-- The message is a request, and the server answers it with an error. -/
def Fails (s t : Server) (i : Nat) (m : Mbuf) : Prop :=
  mclassIsReq (hdrGetType m) = true ∧ ∃ r ∈ answers s t i m, mclassIsErr (hdrGetType r) = true

/-- From `s` to `t` the message `m` of slot `i` has left no trace in the sessions and
the database, but for an AUTH request in `CLT_LOGIN_OK` that puts its slot back. -/
structure Traceless (s : Server) (i : Nat) (m : Mbuf) (t : Server) : Prop where
  self : (t.clients i).session = (s.clients i).session ∨
    (IsRequest m .authReq ∧ (s.clients i).st = .loginOk ∧
      (t.clients i).session = { (s.clients i).session with st := .preLogin })
  others : ∀ j, j ≠ i → (t.clients j).session = (s.clients j).session
  entries : ∀ u, u ∈ t.udb.userdb ↔ u ∈ s.udb.userdb

/-- A request of the given type that fails and leaves a trace: a LOGIN request meets
a key of an unknown method, an AUTH request comes from a client that has logged in,
or the list of entries is read from the file. -/
def LeavesTrace (env : MsgEnv) (s : Server) (i : Nat) (m : Mbuf) : MsgType → Prop
  | .loginReq => (s.clients i).st = .preLogin ∧ ∃ n, firstStr env m .username = some n ∧
      ((∃ u, (udbLookupname env.db1 s.udb n).2 = some u ∧
          AUTH_KEY_PLAINTEXT.isPrefixOf u.key = false) ∨
        ((udbLookupname env.db1 s.udb n).2 = none ∧ nameInUse s n = true ∧
          s.udb.Rereads env.db1))
  | .authReq => (s.clients i).st ≠ .preLogin ∧ (s.clients i).st ≠ .loginOk
  | .dropReq => (s.clients i).st = .authOk ∧ ∃ n, (s.clients i).name = some n ∧
      (udbLookupname env.db1 s.udb n).2 = none ∧ s.udb.Rereads env.db1
  | .registerReq => (s.clients i).st = .authOk ∧ (firstStr env m .pubkey).isSome = true ∧
      ∃ n, (s.clients i).name = some n ∧ RegisterTrace env.db1 env.db2 s.udb n
  | _ => False

/-- The message is a request to the server that fails and leaves a trace. -/
def Trace (env : MsgEnv) (s : Server) (i : Nat) (m : Mbuf) : Prop :=
  ∃ u, IsRequest m u ∧ LeavesTrace env s i m u

section Traces

variable {env : MsgEnv} {s : Server} {i : Nat} {m : Mbuf}

/-- A message has one type. -/
theorem IsRequest.trace_iff {u : MsgType} (hask : IsRequest m u) :
    Trace env s i m ↔ LeavesTrace env s i m u := by
  constructor
  · rintro ⟨t, ht, h⟩
    rwa [ht.unique hask] at h
  · exact fun h => ⟨u, hask, h⟩

/-- A message that fails and leaves a trace is a request that is acted upon. -/
theorem Trace.acts (h : Trace env s i m) :
    mclassIsReq (hdrGetType m) = true ∧ Acts env s i m := by
  obtain ⟨u, hask, h⟩ := h
  cases u with
  | loginReq =>
      obtain ⟨hst, n, hn, -⟩ := h
      exact ⟨hask.isReq (by decide), hask.1, by rw [hask.type, hn]; exact ⟨hst, rfl⟩⟩
  | authReq => exact ⟨hask.isReq (by decide), hask.1, by rw [hask.type]; trivial⟩
  | dropReq => exact ⟨hask.isReq (by decide), hask.1, by rw [hask.type]; exact h.1⟩
  | registerReq =>
      exact ⟨hask.isReq (by decide), hask.1, by rw [hask.type]; exact ⟨h.1, h.2.1⟩⟩
  | _ => exact h.elim

/-- Another list of the same entries is no trace. -/
theorem traceless_udb_iff {d : Udb} : Traceless s i m { s with udb := d } ↔
    ∀ u, u ∈ d.userdb ↔ u ∈ s.udb.userdb :=
  ⟨fun h => h.entries, fun h => ⟨.inl rfl, fun _ _ => rfl, h⟩⟩

/-- A key of an unknown method leaves the slot in the wrong state. -/
private theorem unsupported_traced {d : Udb} {u : User} (hask : IsRequest m .loginReq)
    (hst : (s.clients i).st = .preLogin) :
    ¬ Traceless s i m (({ s with udb := d }).setClient i
      { s.clients i with st := .loginOk, id := u.id, name := some u.name }) := by
  rintro ⟨hself | ⟨hauth, -⟩, -, -⟩
  · rw [Server.setClient_self] at hself
    have hsame := (congrArg Session.st hself).trans hst
    cases hsame
  · cases hask.unique hauth

/-- What an AUTH request that fails leaves. -/
private theorem authFailed_traceless_iff (hask : IsRequest m .authReq) :
    Traceless s i m (s.setClient i { s.clients i with st := .preLogin }) ↔
      ¬ LeavesTrace env s i m .authReq := by
  constructor
  · rintro ⟨hself | ⟨-, hst, -⟩, -, -⟩ ⟨hpre, hok⟩
    · rw [Server.setClient_self] at hself
      exact hpre (congrArg Session.st hself).symm
    · exact hok hst
  · intro h
    refine ⟨?_, fun j hj => by rw [Server.setClient_of_ne _ _ hj], fun u => Iff.rfl⟩
    rw [Server.setClient_self]
    by_cases hpre : (s.clients i).st = .preLogin
    · left
      simp only [Client.session, hpre]
    · exact .inr ⟨hask, not_not.mp fun hok => h ⟨hpre, hok⟩, rfl⟩

/-- What a DROP request that fails leaves. -/
private theorem drop_traceless_iff {n : Bytes} (hst : (s.clients i).st = .authOk)
    (hn : (s.clients i).name = some n) :
    ((udbDropentry env.db1 s.udb n).2 = false →
      Traceless s i m { s with udb := (udbDropentry env.db1 s.udb n).1 }) ↔
      ¬ LeavesTrace env s i m .dropReq := by
  have hsame : LeavesTrace env s i m .dropReq ↔
      (udbLookupname env.db1 s.udb n).2 = none ∧ s.udb.Rereads env.db1 := by
    constructor
    · rintro ⟨-, n', hn', h⟩
      cases hn.symm.trans hn'
      exact h
    · exact fun h => ⟨hst, n, hn, h⟩
  rw [hsame, traceless_udb_iff, drop_entries_iff]

/-- What a REGISTER request that fails leaves. -/
private theorem register_traceless_iff {n pubkey : Bytes} (hwf : s.udb.WellFormed)
    (hst : (s.clients i).st = .authOk) (hn : (s.clients i).name = some n)
    (hkey : firstStr env m .pubkey = some pubkey) :
    ((udbAddentry env.db2 (udbDropentry env.db1 s.udb n).1 (s.clients i).id n
        (AUTH_KEY_PLAINTEXT ++ pubkey)).2 = none →
      Traceless s i m { s with udb := (udbAddentry env.db2 (udbDropentry env.db1 s.udb n).1
        (s.clients i).id n (AUTH_KEY_PLAINTEXT ++ pubkey)).1 }) ↔
      ¬ LeavesTrace env s i m .registerReq := by
  have hsame : LeavesTrace env s i m .registerReq ↔
      RegisterTrace env.db1 env.db2 s.udb n := by
    constructor
    · rintro ⟨-, -, n', hn', h⟩
      cases hn.symm.trans hn'
      exact h
    · exact fun h => ⟨hst, by rw [hkey]; rfl, n, hn, h⟩
  rw [hsame, traceless_udb_iff, register_entries_iff hwf]

/-- What a LOGIN request for a name in use leaves. -/
private theorem conflict_traceless_iff {n : Bytes} (hst : (s.clients i).st = .preLogin)
    (hn : firstStr env m .username = some n) (hnone : (udbLookupname env.db1 s.udb n).2 = none)
    (hused : nameInUse s n = true) :
    Traceless s i m { s with udb := (udbLookupname env.db1 s.udb n).1 } ↔
      ¬ LeavesTrace env s i m .loginReq := by
  have hsame : LeavesTrace env s i m .loginReq ↔ s.udb.Rereads env.db1 := by
    constructor
    · rintro ⟨-, n', hn', ⟨u, hu, -⟩ | ⟨-, -, h⟩⟩
      · cases hn.symm.trans hn'
        cases hnone.symm.trans hu
      · exact h
    · exact fun h => ⟨hst, n, hn, .inr ⟨hnone, hused, h⟩⟩
  rw [hsame, traceless_udb_iff]
  exact load_entries_iff

/-- A LOGIN request that succeeds is no failure that leaves a trace. -/
private theorem login_no_trace {n : Bytes} (hn : firstStr env m .username = some n)
    (hgood : ∀ u, (udbLookupname env.db1 s.udb n).2 = some u →
      AUTH_KEY_PLAINTEXT.isPrefixOf u.key = true)
    (hfree : (udbLookupname env.db1 s.udb n).2 = none → nameInUse s n = false) :
    ¬ LeavesTrace env s i m .loginReq := by
  rintro ⟨-, n', hn', ⟨u, hu, hkey⟩ | ⟨hnone, hused, -⟩⟩
  · cases hn.symm.trans hn'
    rw [hgood u hu] at hkey
    cases hkey
  · cases hn.symm.trans hn'
    rw [hfree hnone] at hused
    cases hused

/-- **Whatever is served**: an error is no trace, but for the messages of `Trace`. -/
theorem Serves.traceless_iff {t : Server} {v : Verdict} (h : Serves env s i m v t)
    (hwf : s.udb.WellFormed) :
    (v = .error → mclassIsReq (hdrGetType m) = true → Traceless s i m t) ↔
      ¬ Trace env s i m := by
  have herror : ∀ {P : Prop}, mclassIsReq (hdrGetType m) = true →
      ((Verdict.error = .error → mclassIsReq (hdrGetType m) = true → P) ↔ P) :=
    fun hreq => ⟨fun h => h rfl hreq, fun h _ _ => h⟩
  have hrefl : Traceless s i m s := ⟨.inl rfl, fun _ _ => rfl, fun _ => Iff.rfl⟩
  -- One case for each verdict: only errors have to leave no trace.
  cases h with
  | gated hg hna => exact iff_of_true (fun _ _ => hrefl) fun h => hna h.acts.2
  | refused hreq hna => exact iff_of_true (fun _ _ => hrefl) fun h => hna h.acts.2
  | ignored hreq hg =>
      refine iff_of_true (fun hv => by cases hv) fun h => ?_
      rw [h.acts.1] at hreq
      cases hreq
  | ping hask => rw [hask.trace_iff]; exact iff_of_true (fun hv => by cases hv) id
  | peerlist hask => rw [hask.trace_iff]; exact iff_of_true (fun hv => by cases hv) id
  | logout hask => rw [hask.trace_iff]; exact iff_of_true (fun hv => by cases hv) id
  | @register n pubkey hask hst hn hkey =>
      rw [hask.trace_iff, ← register_traceless_iff hwf hst hn hkey]
      cases hadd : (udbAddentry env.db2 (udbDropentry env.db1 s.udb n).1 (s.clients i).id n
          (AUTH_KEY_PLAINTEXT ++ pubkey)).2 with
      | none =>
          rw [Option.isSome_none, if_neg Bool.false_ne_true, herror (hask.isReq (by decide))]
          exact ⟨fun h _ => h, fun h => h rfl⟩
      | some u =>
          rw [Option.isSome_some, if_pos rfl]
          exact iff_of_true (fun hv => by cases hv) fun h => by cases h
  | @drop n hask hst hn =>
      rw [hask.trace_iff, ← drop_traceless_iff hst hn]
      cases hdrop : (udbDropentry env.db1 s.udb n).2 with
      | false =>
          rw [if_neg Bool.false_ne_true, herror (hask.isReq (by decide))]
          exact ⟨fun h _ => h, fun h => h rfl⟩
      | true =>
          rw [if_pos rfl]
          exact iff_of_true (fun hv => by cases hv) fun h => by cases h
  | conflict hask hst hn hnone hused =>
      rw [hask.trace_iff, ← conflict_traceless_iff hst hn hnone hused,
        herror (hask.isReq (by decide))]
  | temp hask hst hn hnone hfree =>
      rw [hask.trace_iff]
      refine iff_of_true (fun hv => by cases hv) (login_no_trace hn (fun u hu => ?_) fun _ => hfree)
      cases hnone.symm.trans hu
  | challenge hask hst hn hu hkey =>
      rw [hask.trace_iff]
      refine iff_of_true (fun hv => by cases hv) (login_no_trace hn (fun w hw => ?_) fun hnone => ?_)
      · cases hu.symm.trans hw
        exact hkey
      · cases hu.symm.trans hnone
  | @unsupported n u hask hst hn hu hkey =>
      rw [hask.trace_iff, herror (hask.isReq (by decide))]
      exact iff_of_false (unsupported_traced hask hst)
        (not_not.mpr ⟨hst, n, hn, .inl ⟨u, hu, hkey⟩⟩)
  | authFailed hask hbad =>
      rw [hask.trace_iff, herror (hask.isReq (by decide)), authFailed_traceless_iff hask]
  | auth hask hst =>
      rw [hask.trace_iff]
      exact iff_of_true (fun hv => by cases hv) fun h => h.2 hst

/-- Opening the slot for the read changes nothing of what decides about a trace. -/
theorem trace_opened {now : Int} : Trace env (s.setClient i (opened s i now)) i m ↔
    Trace env s i m := by
  have hview := opened_view s i now
  have hst : ((s.setClient i (opened s i now)).clients i).st = (s.clients i).st :=
    congrArg Session.st (hview i).2
  have hname := fun j => congrArg Session.name (hview j).2
  have hused : ∀ n, nameInUse (s.setClient i (opened s i now)) n = nameInUse s n := by
    intro n
    have hname' : ∀ j, ((s.setClient i (opened s i now)).clients j).name = (s.clients j).name :=
      hname
    simp only [nameInUse, hname', fun j => (hview j).1]
    rfl
  have hni : ((s.setClient i (opened s i now)).clients i).name = (s.clients i).name := hname i
  have hleaves : ∀ u, LeavesTrace env (s.setClient i (opened s i now)) i m u ↔
      LeavesTrace env s i m u := by
    intro u
    cases u <;> simp only [LeavesTrace, hst, hni, hused] <;> rfl
  simp only [Trace, hleaves]

/-- Neither do the receive buffer and the answer. -/
theorem traceless_sendBack {t : Server} {now : Int} {rbuf : Option Mbuf} (hm : 40 ≤ m.bsize) :
    Traceless s i m (sendBack t i rbuf) ↔
      Traceless (s.setClient i (opened s i now)) i (fillSrcid (s.clients i) m) t := by
  have hview := opened_view s i now
  have hsess : ∀ j, ((sendBack t i rbuf).clients j).session = (t.clients j).session := by
    intro j
    rw [sendBack_clients]
    split
    · rename_i h
      rw [h]
      rfl
    · rfl
  have hst : ((s.setClient i (opened s i now)).clients i).st = (s.clients i).st :=
    congrArg Session.st (hview i).2
  have hask : IsRequest (fillSrcid (s.clients i) m) .authReq ↔ IsRequest m .authReq := by
    rw [IsRequest, IsRequest, hdrGetDstid_fillSrcid hm, hdrGetType_fillSrcid hm]
  constructor
  · rintro ⟨hself, hothers, hent⟩
    refine ⟨?_, fun j hj => ?_, fun u => by rw [sendBack_udb] at hent; exact hent u⟩
    · rw [(hview i).2, hst, hask, ← hsess i]
      exact hself
    · rw [(hview j).2, ← hsess j]
      exact hothers j hj
  · rintro ⟨hself, hothers, hent⟩
    refine ⟨?_, fun j hj => ?_, fun u => by rw [sendBack_udb]; exact hent u⟩
    · rw [(hview i).2, hst, hask, ← hsess i] at hself
      exact hself
    · rw [hsess j, hothers j hj, (hview j).2]

/-- The error that a request is answered with. -/
theorem Verdict.Fits.isErr {v : Verdict} {rbuf : Option Mbuf} (h : v.Fits env m rbuf) :
    (∃ r ∈ (rbuf.map fun r => ({ r with boff := 0 } : Mbuf)).toList,
      mclassIsErr (hdrGetType r) = true) ↔ v = .error := by
  cases v with
  | silence => cases h; simp
  | response l =>
      cases h
      have hres := mclassIsErr_mclassToRes (hdrGetType m)
      have hty : hdrGetType (mkMsg (responseHdr env m l) (tlvs l) 0) = mclassToRes (hdrGetType m) :=
        hdrGetType_mkMsg _ _ _
      refine iff_of_false ?_ (by simp)
      rintro ⟨r, hr, herr⟩
      rw [List.mem_singleton.mp hr] at herr
      cases hres.symm.trans ((congrArg mclassIsErr hty).symm.trans herr)
  | error =>
      obtain ⟨r, rfl, -, hty⟩ := h
      refine iff_of_true ⟨{ r with boff := 0 }, List.mem_singleton.mpr rfl, ?_⟩ rfl
      rw [show hdrGetType { r with boff := 0 } = hdrGetType r from rfl, hty]
      exact mclassIsErr_mclassToErr _

/-- **Failed requests leave no trace** exactly if the message is none of those that
`Trace` lists. -/
theorem failed_request_traceless_iff {now : Int} {res : ReadRes}
    (hs : (srvLts fun _ => True).Reachable s) (hlive : s.Live i)
    (hm : readOutcome (slotBuffer s i now) res = .complete m) :
    (∀ t, srvStep s (.read i now res env) = some t → Fails s t i m → Traceless s i m t) ↔
      ¬ Trace env s i (fillSrcid (s.clients i) m) := by
  obtain ⟨hm40, -, hexit, hserve⟩ := srvStep_serves env hs hlive hm
  by_cases hroute : route s i (fillSrcid (s.clients i) m) = none
  · by_cases hex : Exits env s i (fillSrcid (s.clients i) m)
    · rw [hexit hroute hex]
      refine iff_of_true (fun t ht => by cases ht) ?_
      rcases hex with ⟨hask, -⟩ | ⟨hask, hst, -⟩
      · rw [hask.trace_iff]
        exact id
      · rw [hask.trace_iff]
        exact fun h => h.2 hst
    · obtain ⟨v, t, rbuf, hstep, hserves, hfits⟩ := hserve hroute hex
      obtain ⟨-, hq⟩ := served_slot rbuf hserves
      have hwf : (s.setClient i (opened s i now)).udb.WellFormed :=
        (wellFormed_inductive.invariant s hs).2
      have hfails : Fails s (sendBack t i rbuf) i m ↔
          v = .error ∧ mclassIsReq (hdrGetType (fillSrcid (s.clients i) m)) = true := by
        rw [Fails, answers, if_pos hroute, hq, List.drop_left, hfits.isErr,
          hdrGetType_fillSrcid hm40, and_comm]
      rw [hstep, ← trace_opened, ← hserves.traceless_iff hwf]
      constructor
      · intro h hv hreq
        exact (traceless_sendBack hm40).mp (h _ rfl (hfails.mpr ⟨hv, hreq⟩))
      · intro h u hu hf
        cases hu
        obtain ⟨hv, hreq⟩ := hfails.mp hf
        exact (traceless_sendBack hm40).mpr (h hv hreq)
  · refine iff_of_true ?_ ?_
    · rintro t - ⟨-, r, hr, -⟩
      rw [answers, if_neg hroute] at hr
      cases hr
    · rintro ⟨u, hask, -⟩
      obtain ⟨j, hj⟩ := Option.ne_none_iff_exists'.mp hroute
      exact (route_forwards hj).dst_ne_zero hask.1

end Traces

/-- A PING request of a client that has not logged in fails. -/
theorem failed_request_traceless_iff_ping :
    ∃ s t m, srvStep s (.read 0 1 (.got (pingFor 0)) ⟨[], 0, .good, .good⟩) = some t ∧
      (answers s t 0 m).length = 1 ∧
      ((∀ t, srvStep s (.read 0 1 (.got (pingFor 0)) ⟨[], 0, .good, .good⟩) = some t →
        Fails s t 0 m → Traceless s 0 m t) ↔
        ¬ Trace ⟨[], 0, .good, .good⟩ s 0 (fillSrcid (s.clients 0) m)) := by
  have hexec : (Lts.exec srvTry (demoServer none) [.accept 4 true 1]).any (fun s =>
      decide (s.Live 0) &&
        readOutcome (slotBuffer s 0 1) (.got (pingFor 0)) == .complete ⟨pingFor 0, 40⟩ &&
        (srvStep s (.read 0 1 (.got (pingFor 0)) ⟨[], 0, .good, .good⟩)).any fun t =>
          (answers s t 0 ⟨pingFor 0, 40⟩).length == 1) = true := by
    decide +kernel
  obtain ⟨s, hs, hp⟩ := Lts.reachable_of_exec (fun _ _ _ => srvTry_step (fun _ => True) trivial)
    (demoServer_init (fun _ => True) trivial _) hexec
  simp only [Bool.and_eq_true, decide_eq_true_eq, beq_iff_eq, Option.any_eq_true] at hp
  obtain ⟨⟨hlive, hm⟩, t, ht, hlen⟩ := hp
  exact ⟨s, t, _, ht, hlen, failed_request_traceless_iff hs hlive hm⟩

/-- The LOGIN request of a user with a key of an unknown method is answered with an
error, and leaves the slot in `CLT_LOGIN_OK`. -/
theorem failed_login_traced :
    ∃ s t m, (srvLts fun _ => True).Reachable s ∧ s.Live 0 ∧
      readOutcome (slotBuffer s 0 1) (.got (eveLogin.drop MSG_HDR_SIZE)) = .complete m ∧
      srvStep s (.read 0 1 (.got (eveLogin.drop MSG_HDR_SIZE)) ⟨[], 0, .good, .good⟩) = some t ∧
      Fails s t 0 m ∧ ¬ Traceless s 0 m t := by
  have hexec : (Lts.exec srvTry (demoServer (some (ascii "0000000000000007|eve|md5 x\n")))
      [.accept 4 true 1, .read 0 1 (.got (eveLogin.take MSG_HDR_SIZE))
        ⟨[], 0, .good, .good⟩]).any (fun s =>
      decide (s.Live 0) && (s.clients 0).st == .preLogin &&
        readOutcome (slotBuffer s 0 1) (.got (eveLogin.drop MSG_HDR_SIZE)) ==
          .complete ⟨eveLogin, eveLogin.length⟩ &&
        (srvStep s (.read 0 1 (.got (eveLogin.drop MSG_HDR_SIZE))
          ⟨[], 0, .good, .good⟩)).any fun t => (t.clients 0).st == .loginOk &&
            (answers s t 0 ⟨eveLogin, eveLogin.length⟩).any fun r =>
              mclassIsErr (hdrGetType r)) = true := by
    decide +kernel
  obtain ⟨s, hs, hp⟩ := Lts.reachable_of_exec (fun _ _ _ => srvTry_step (fun _ => True) trivial)
    (demoServer_init (fun _ => True) trivial _) hexec
  simp only [Bool.and_eq_true, decide_eq_true_eq, beq_iff_eq, Option.any_eq_true,
    List.any_eq_true] at hp
  obtain ⟨⟨⟨hlive, hst⟩, hm⟩, t, ht, hst', hfails⟩ := hp
  refine ⟨s, t, _, hs, hlive, hm, ht, ⟨by decide +kernel, hfails⟩, ?_⟩
  rintro ⟨hself | ⟨hask, -⟩, -, -⟩
  · have hsame := hst'.symm.trans ((congrArg Session.st hself).trans hst)
    cases hsame
  · exact absurd hask.2 (by decide +kernel)

end Frelay
