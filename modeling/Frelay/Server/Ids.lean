import Frelay.Server.AccountRuns
import Frelay.Userdb.FreshIds

/-!
# Ids that do not collide

The server tells its clients apart by ids that come from one counter, `next_id`.
As long as the counter does not wrap, every id in use is below it, none is 0,
and no two authenticated sessions share one (`IdsOk`).

The counter moves while the database file is read, line by line, and when an
unregistered user logs in; wrapping means passing through 0 (`LoadCounts`,
`Accounts.Counts`).

* `IdsOk.step` — no event that keeps the counter from wrapping breaks `IdsOk`;
* `session_ids_unique` — so ids of authenticated clients are unique in every
  run, and the destination scan has at most one candidate.
-/

namespace Frelay

open Lib

/-! ## The invariant -/

/-- Handling the event does not take the counter through 0 while it reads the file. -/
def Accounts.Counts (a : Accounts) : AcctEvent → Prop
  | .login _ name e₁ e₂ => LoadCounts e₁ a.udb ∧
      ((udbLookupname e₁ a.udb name).2 = none → ¬ a.NameUsed name →
        LoadCounts e₂ (udbLoad e₁ a.udb))
  | .register i _ e₁ e₂ => LoadCounts e₁ a.udb ∧ ∀ x n, a.sess i = some x → x.name = some n →
      LoadCounts e₂ (udbDropentry e₁ a.udb n).1
  | .drop _ e₁ => LoadCounts e₁ a.udb
  | _ => True

/-- Connections are moved to different slots. -/
def AcctEvent.MovesApart : AcctEvent → Prop
  | .remap f => ∀ i j k, f i = some k → f j = some k → i = j
  | _ => True

/-- Ids in use are in range, and those of authenticated sessions are unique. -/
structure IdsOk (a : Accounts) : Prop where
  udb : a.udb.InRange
  range : ∀ i x, a.sess i = some x → x.LoggedIn → x.id ≠ 0 ∧ x.id < a.udb.nextId
  unique : ∀ i j x y, a.sess i = some x → a.sess j = some y → x.st = .authOk → y.st = .authOk →
    x.id = y.id → i = j

/-- The database may change as long as the counter does not go back. -/
theorem IdsOk.mono {a : Accounts} (h : IdsOk a) {d : Udb} (hd : d.InRange)
    (hle : a.udb.nextId ≤ d.nextId) : IdsOk { a with udb := d } :=
  ⟨hd, fun i x hx hlog => ⟨(h.range i x hx hlog).1,
    UInt64.lt_of_lt_of_le (h.range i x hx hlog).2 hle⟩, h.unique⟩

/-- A session may be replaced by one whose id is in range and, if it is
authenticated, not in use. -/
theorem IdsOk.set {a : Accounts} (h : IdsOk a) {i : Nat} {x : Session}
    (hx : x.LoggedIn → x.id ≠ 0 ∧ x.id < a.udb.nextId)
    (hu : x.st = .authOk → ∀ j y, j ≠ i → a.sess j = some y → y.st = .authOk → x.id ≠ y.id) :
    IdsOk (a.set i x) := by
  refine ⟨h.udb, ?_, ?_⟩
  · intro j y hy hlog
    rcases Accounts.set_sess hy with ⟨-, rfl⟩ | ⟨-, hy⟩
    · exact hx hlog
    · exact h.range j y hy hlog
  · intro j k y z hy hz hsty hstz hid
    rcases Accounts.set_sess hy with ⟨rfl, rfl⟩ | ⟨hj, hy'⟩
    · rcases Accounts.set_sess hz with ⟨rfl, -⟩ | ⟨hk, hz'⟩
      · rfl
      · exact absurd hid (hu hsty k z hk hz' hstz)
    · rcases Accounts.set_sess hz with ⟨rfl, rfl⟩ | ⟨hk, hz'⟩
      · exact absurd hid.symm (hu hstz j y hj hy' hsty)
      · exact h.unique j k y z hy' hz' hsty hstz hid

/-- **Ids stay apart** across every step that does not wrap the counter. -/
theorem IdsOk.step {a b : Accounts} {e : AcctEvent} (h : IdsOk a) (hc : a.Counts e)
    (hm : e.MovesApart) (hstep : AcctStep a e b) (hne : b.udb.nextId ≠ 0) : IdsOk b := by
  have hpre : ∀ {x : Session}, x.st = .preLogin → ¬ x.LoggedIn := by
    rintro x hst (hlog | hlog) <;> rw [hst] at hlog <;> cases hlog
  cases hstep with
  | idle => exact h
  | connect hi => exact h.set (fun hlog => absurd hlog (hpre rfl)) (fun hst => by cases hst)
  | remap f =>
      refine ⟨h.udb, ?_, ?_⟩
      · intro i x hx
        obtain ⟨k, -, hk⟩ := Option.bind_eq_some_iff.mp hx
        exact h.range k x hk
      · intro i j x y hx hy hstx hsty hid
        obtain ⟨k, hfk, hk⟩ := Option.bind_eq_some_iff.mp hx
        obtain ⟨k', hfk', hk'⟩ := Option.bind_eq_some_iff.mp hy
        have hkk := h.unique k k' x y hk hk' hstx hsty hid
        exact hm i j k hfk (hkk ▸ hfk')
  | loginTaken hi hst hnone hused =>
      obtain ⟨hr, hle⟩ := h.udb.load hc.1
      exact h.mono hr hle
  | @loginTemp i x name e₁ e₂ hi hst hnone hfree =>
      obtain ⟨hr, hle⟩ := h.udb.load hc.1
      obtain ⟨hr', hle'⟩ := hr.load (hc.2 hnone hfree)
      -- The counter before it is advanced is above every id in use.
      have hne' : (udbLoad e₂ (udbLoad e₁ a.udb)).nextId + 1 ≠ 0 := hne
      have hlt := lt_succ_of_ne hne'
      have hbase : IdsOk { a with udb := (udbGettempid e₂ (udbLoad e₁ a.udb)).1 } := by
        refine h.mono ⟨hne', ?_⟩ (UInt64.le_trans (UInt64.le_trans hle hle') (UInt64.le_of_lt hlt))
        intro u hu
        exact ⟨(hr'.ids u hu).1, UInt64.lt_trans (hr'.ids u hu).2 hlt⟩
      refine hbase.set (fun _ => ⟨hr'.next, hlt⟩) ?_
      intro _ j y _ hy hsty hid
      have hyl := (h.range j y hy (.inr hsty)).2
      rw [← hid] at hyl
      exact absurd (UInt64.lt_of_lt_of_le hyl (UInt64.le_trans hle hle')) (UInt64.lt_irrefl _)
  | @loginUser i x name e₁ e₂ u hi hst hu =>
      obtain ⟨hr, hle⟩ := h.udb.load hc.1
      exact (h.mono hr hle).set (fun _ => hr.ids u (lookupname_mem hu).1) (fun hst => by cases hst)
  | authFailed hi hbad => exact h.set (fun hlog => absurd hlog (hpre rfl)) (fun hst => by cases hst)
  | @authOk i x key hi hst hkey =>
      have hbase : IdsOk { a with sess := fun j => (a.sess j).filter fun y => y.id ≠ x.id } := by
        refine ⟨h.udb, ?_, ?_⟩
        · intro j y hy
          exact h.range j y (Option.filter_eq_some_iff.mp hy).1
        · intro j k y z hy hz
          exact h.unique j k y z (Option.filter_eq_some_iff.mp hy).1
            (Option.filter_eq_some_iff.mp hz).1
      refine hbase.set (fun _ => h.range i x hi (.inl hst)) ?_
      intro _ j y _ hy _ hid
      have hp := (Option.filter_eq_some_iff.mp hy).2
      simp only [ne_eq, decide_eq_true_eq] at hp
      exact hp hid.symm
  | logout hi hst => exact h.set (fun hlog => absurd hlog (hpre rfl)) (fun hst => by cases hst)
  | @register i x n pubkey e₁ e₂ hi hst hn =>
      obtain ⟨hid0, hidlt⟩ := h.range i x hi (.inr hst)
      have hdrop := h.udb.dropentry hc.1 n
      obtain ⟨hr', hle'⟩ := hdrop.1.load (hc.2 x n hi hn)
      have hbelow : ¬ (udbLoad e₂ (udbDropentry e₁ a.udb n).1).nextId ≤ x.id :=
        UInt64.not_le.mpr (UInt64.lt_of_lt_of_le hidlt (UInt64.le_trans hdrop.2 hle'))
      have hadd := hr'.addentry_ n (AUTH_KEY_PLAINTEXT ++ pubkey) hid0 (by
        rcases addentry_cases (udbLoad e₂ (udbDropentry e₁ a.udb n).1) x.id n
          (AUTH_KEY_PLAINTEXT ++ pubkey) with heq | ⟨p, hpid, -, -, -, -, heq⟩
        · rw [heq]
          exact hr'.next
        · rw [if_pos hid0] at hpid
          rw [heq]
          simp only [hpid, if_neg hbelow]
          exact hr'.next)
      refine h.mono (hadd.1.of_sublist (by rw [udbAddentry, udbSave_userdb]) ?_) ?_
      · rw [udbAddentry, udbSave_nextId]
      · rw [udbAddentry, udbSave_nextId]
        exact UInt64.le_trans (UInt64.le_trans hdrop.2 hle') hadd.2
  | @drop i x n e₁ hi hst hn =>
      obtain ⟨hr, hle⟩ := h.udb.dropentry hc n
      exact h.mono hr hle

/-- While it stays authenticated in its slot, a session keeps its id. -/
theorem AcctStep.id_of_authOk {a b : Accounts} {e : AcctEvent} {i : Nat} {x y : Session}
    (hstep : AcctStep a e b) (hremap : ∀ f, e ≠ .remap f) (hx : a.sess i = some x)
    (hy : b.sess i = some y) (hstx : x.st = .authOk) (hsty : y.st = .authOk) : y.id = x.id := by
  have hsame : a.sess i = some y → y.id = x.id := by
    intro h
    rw [hx] at h
    cases h
    rfl
  -- A session that is not let in by the step is not the one of slot `i`.
  have hother : ∀ {c : Accounts} {k : Nat} {z : Session}, c.sess = a.sess → z.st ≠ .authOk →
      (c.set k z).sess i = some y → y.id = x.id := by
    intro c k z hc hz h
    rcases Accounts.set_sess h with ⟨-, rfl⟩ | ⟨-, h⟩
    · exact absurd hsty hz
    · exact hsame (hc ▸ h)
  cases hstep with
  | idle => exact hsame hy
  | connect hi => exact hother rfl (fun h => by cases h) hy
  | remap f => exact absurd rfl (hremap f)
  | loginTaken hi hst hnone hused => exact hsame hy
  | loginTemp hi hst hnone hfree =>
      rcases Accounts.set_sess hy with ⟨rfl, -⟩ | ⟨-, hy⟩
      · rw [hx] at hi
        cases hi
        rw [hst] at hstx
        cases hstx
      · exact hsame hy
  | loginUser hi hst hu => exact hother rfl (fun h => by cases h) hy
  | authFailed hi hbad => exact hother rfl (fun h => by cases h) hy
  | authOk hi hst hkey =>
      rcases Accounts.set_sess hy with ⟨rfl, rfl⟩ | ⟨-, hy⟩
      · rw [hx] at hi
        cases hi
        rfl
      · exact hsame (Option.filter_eq_some_iff.mp hy).1
  | logout hi hst => exact hother rfl (fun h => by cases h) hy
  | register hi hst hn => exact hsame hy
  | drop hi hst hn => exact hsame hy

/-! ## Runs in which the counter does not wrap -/

/-- The server, with any accesses to the database file, in the runs in which
`next_id` does not wrap. -/
def countingLts : Lts Server SrvEvent where
  init s := ∃ cfg listenfd e file, 0 ≤ listenfd ∧
    LoadCounts e { userdb := [], nextId := 1, file := file } ∧
    s = Server.initial cfg listenfd (udbInit e file)
  step s e t := (srvLts fun _ => True).step s e t ∧ s.acct.Counts (acctEvent s e) ∧
    t.udb.nextId ≠ 0

/-- A message never moves connections. -/
theorem msgEvent_ne_remap (env : MsgEnv) (c : Client) (i : Nat) (m : Mbuf) (f : Nat → Option Nat) :
    msgEvent env c i m ≠ .remap f := by
  unfold msgEvent
  simp only
  split
  · exact fun h => by cases h
  · split
    · split
      · split <;> exact fun h => by cases h
      · exact fun h => by cases h
    · exact fun h => by cases h
    · split <;> exact fun h => by cases h
    · split
      · split <;> exact fun h => by cases h
      · exact fun h => by cases h
    · split <;> exact fun h => by cases h
    · exact fun h => by cases h

theorem acctEvent_movesApart (s : Server) (e : SrvEvent) : (acctEvent s e).MovesApart := by
  have hclose : ∀ i, (AcctEvent.close i).MovesApart := by
    intro i j k l hj hk
    simp only at hj hk
    split at hj
    · cases hj
    · split at hk
      · cases hk
      · exact (Option.some.inj hj).trans (Option.some.inj hk).symm
  have hmsg : ∀ {env : MsgEnv} {c : Client} {i : Nat} {m : Mbuf},
      (msgEvent env c i m).MovesApart := by
    intro env c i m
    cases h : msgEvent env c i m with
    | remap f => exact absurd h (msgEvent_ne_remap env c i m f)
    | _ => trivial
  cases e with
  | accept fd nonblocking now =>
      simp only [acctEvent]
      split
      · trivial
      · split <;> trivial
  | read i now res env =>
      simp only [acctEvent]
      split
      · exact hclose i
      · exact hmsg
      · trivial
  | write i now res =>
      simp only [acctEvent]
      split
      · trivial
      · split
        · exact hclose i
        · trivial
  | upkeep now =>
      intro j k i hj hk
      have hnodup : (survivors now s s.cfg.maxClients).Nodup := List.nodup_range.filter _
      exact (List.getElem?_inj (List.getElem?_eq_some_iff.mp hj).1 hnodup).mp (hj.trans hk.symm)
  | motd lines => trivial

/-- In these runs ids do not collide. -/
theorem idsOk_inductive : countingLts.Inductive fun s => SlotsOk s ∧ IdsOk s.acct where
  init := by
    rintro s ⟨cfg, listenfd, e, file, -, hc, rfl⟩
    refine ⟨slotsOk_initial cfg listenfd _, ?_⟩
    have hdead : ∀ i x, (Server.initial cfg listenfd (udbInit e file)).acct.sess i ≠ some x :=
      fun i x hx => absurd (acct_sess_eq_some hx).1.2
        (by exact (by decide : ¬ (0 : Int) ≤ -1))
    have hempty : Udb.InRange { userdb := [], nextId := 1, file := file } :=
      ⟨by exact (by decide : (1 : UInt64) ≠ 0), by simp⟩
    exact ⟨(hempty.load hc).1, fun i x hx => absurd hx (hdead i x),
      fun i _ x _ hx => absurd hx (hdead i x)⟩
  step := by
    rintro s e t ⟨hok, hids⟩ ⟨⟨hen, -, hstep⟩, hc, hne⟩
    exact ⟨hok.step hen hstep,
      hids.step hc (acctEvent_movesApart s e) (srvStep_acct hok hen hstep) hne⟩

/-! ## The destination scan -/

/-- The slots `process_forward_msg` would take for the destination `dstid`; it
takes the first (`findDst`). -/
def dstCandidates (s : Server) (dstid : UInt64) : List Nat :=
  s.slots.filter fun j =>
    (0 ≤ (s.clients j).fd : Bool) && (s.clients j).st == .authOk && dstid == (s.clients j).id

theorem findDst_eq_head? (s : Server) (dstid : UInt64) :
    findDst s dstid = (dstCandidates s dstid).head? :=
  List.head?_filter.symm

theorem mem_dstCandidates {s : Server} {dstid : UInt64} {j : Nat} :
    j ∈ dstCandidates s dstid ↔
      s.Live j ∧ (s.clients j).st = .authOk ∧ dstid = (s.clients j).id := by
  simp only [dstCandidates, List.mem_filter, Server.mem_slots, Bool.and_eq_true,
    decide_eq_true_eq, beq_iff_eq, Server.Live, and_assoc]

/-- Where ids are unique there is at most one candidate. -/
theorem IdsOk.candidates_le {s : Server} (h : IdsOk s.acct) (dstid : UInt64) :
    (dstCandidates s dstid).length ≤ 1 := by
  have hnodup : (dstCandidates s dstid).Nodup := List.nodup_range.filter _
  have heq : ∀ i ∈ dstCandidates s dstid, ∀ j ∈ dstCandidates s dstid, i = j := by
    intro i hi j hj
    obtain ⟨hil, hist, hid⟩ := mem_dstCandidates.mp hi
    obtain ⟨hjl, hjst, hjd⟩ := mem_dstCandidates.mp hj
    exact h.unique i j _ _ (acct_sess_of_live hil) (acct_sess_of_live hjl) hist hjst
      (hid.symm.trans hjd)
  cases hl : dstCandidates s dstid with
  | nil => exact Nat.zero_le 1
  | cons i is =>
      cases is with
      | nil => exact Nat.le_refl 1
      | cons j js =>
          rw [hl] at hnodup heq
          have hij := heq i List.mem_cons_self j (List.mem_cons_of_mem _ List.mem_cons_self)
          exact absurd (hij ▸ List.mem_cons_self) (List.nodup_cons.mp hnodup).1

/-- The scan finds the client that has the id. -/
theorem IdsOk.findDst {s : Server} {i : Nat} (h : IdsOk s.acct) (hlive : s.Live i)
    (hst : (s.clients i).st = .authOk) : findDst s (s.clients i).id = some i := by
  have hmem := mem_dstCandidates.mpr ⟨hlive, hst, rfl⟩
  have hle := h.candidates_le (s.clients i).id
  rw [findDst_eq_head?]
  cases hl : dstCandidates s (s.clients i).id with
  | nil =>
      rw [hl] at hmem
      cases hmem
  | cons j js =>
      rw [hl] at hmem hle
      rw [List.eq_nil_of_length_eq_zero (Nat.le_zero.mp (Nat.le_of_succ_le_succ hle))] at hmem
      rw [List.mem_singleton.mp hmem]
      rfl

/-- **Session ids are unique.** As long as the counter does not wrap, no two
authenticated clients have the same id, none has the id 0, and the destination
scan has at most one candidate. -/
theorem session_ids_unique {s : Server} (hs : countingLts.Reachable s) :
    (∀ i j, s.Live i → s.Live j → (s.clients i).st = .authOk → (s.clients j).st = .authOk →
      (s.clients i).id = (s.clients j).id → i = j) ∧
    (∀ i, s.Live i → (s.clients i).st = .authOk → (s.clients i).id ≠ 0) ∧
    ∀ dstid, (dstCandidates s dstid).length ≤ 1 ∧
      findDst s dstid = (dstCandidates s dstid).head? := by
  obtain ⟨-, hids⟩ := idsOk_inductive.invariant s hs
  refine ⟨?_, ?_, fun dstid => ⟨hids.candidates_le dstid, findDst_eq_head? s dstid⟩⟩
  · intro i j hi hj hsti hstj hid
    exact hids.unique i j _ _ (acct_sess_of_live hi) (acct_sess_of_live hj) hsti hstj hid
  · intro i hi hst
    exact (hids.range i _ (acct_sess_of_live hi) (.inr hst)).1

/-- Without a database file no event but a REGISTER request touches the counter
other than by handing out an id. -/
def countingTry (s : Server) (e : SrvEvent) : Option Server :=
  match acctEvent s e with
  | .register .. => none
  | _ => if s.udb.file = none then (srvTry s e).filter fun t => t.udb.nextId != 0 else none

theorem countingTry_step {s t : Server} {e : SrvEvent} (h : countingTry s e = some t) :
    countingLts.step s e t := by
  have hload : ∀ {d : Udb} (e : FileEnv), d.file = none → LoadCounts e d := by
    intro d e hfile _ _ f hf
    rw [hfile] at hf
    cases hf
  unfold countingTry at h
  split at h
  · cases h
  · rename_i hreg
    split at h
    · rename_i hfile
      obtain ⟨ht, hne⟩ := Option.filter_eq_some_iff.mp h
      refine ⟨srvTry_step _ trivial ht, ?_, bne_iff_ne.mp hne⟩
      generalize acctEvent s e = a at hreg
      cases a with
      | login i name e₁ e₂ =>
          exact ⟨hload e₁ hfile, fun _ _ => hload e₂ ((udbLoad_file e₁ s.udb).trans hfile)⟩
      | register i pubkey e₁ e₂ => exact absurd rfl (hreg i pubkey e₁ e₂)
      | drop i e₁ => exact hload e₁ hfile
      | _ => trivial
    · cases h

/-- Two clients, logged in under different names. -/
def twoUsersRun : List SrvEvent :=
  .accept 4 true 1 :: arrival 0 (requestOctets .loginReq .username (.str (ascii "bob"))) ++
    .accept 5 true 1 :: arrival 1 (requestOctets .loginReq .username (.str (ascii "tom")))

theorem session_ids_unique_two :
    ∃ s, ((s.Live 0 ∧ (s.clients 0).st = .authOk) ∧ s.Live 1 ∧ (s.clients 1).st = .authOk) ∧
      (∀ i j, s.Live i → s.Live j → (s.clients i).st = .authOk → (s.clients j).st = .authOk →
        (s.clients i).id = (s.clients j).id → i = j) ∧
      (∀ i, s.Live i → (s.clients i).st = .authOk → (s.clients i).id ≠ 0) ∧
      ∀ dstid, (dstCandidates s dstid).length ≤ 1 ∧
        findDst s dstid = (dstCandidates s dstid).head? := by
  have hexec : (Lts.exec countingTry (demoServer none) twoUsersRun).any (fun s =>
      (decide (s.Live 0) && (s.clients 0).st == .authOk) &&
        (decide (s.Live 1) && (s.clients 1).st == .authOk)) = true := by
    decide +kernel
  obtain ⟨s, hs, hp⟩ := Lts.reachable_of_exec (fun _ _ _ => countingTry_step)
    ⟨_, 3, .good, none, by decide, fun _ _ _ hf => (by cases hf), rfl⟩ hexec
  simp only [Bool.and_eq_true, decide_eq_true_eq, beq_iff_eq] at hp
  exact ⟨s, hp, session_ids_unique hs⟩

end Frelay
