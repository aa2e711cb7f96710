import Frelay.Server.Links

/-!
# The select loop

The loop of `main` with `handle_io`, point by point: `handle_io` works on a snapshot of
the descriptor sets while the sessions it polls come and go.

* `mirrored_iff` — sets, queues and table belong together in any order of events, and
  in the loop `select(2)` is told of every descriptor, exactly when the first turn of
  the loop finds `upkeep` due;
* `select_blind` — otherwise the first call is told of none.
-/

namespace Frelay

open Lib

/-! ## The loop -/

/-- What `select(2)` returned, and the time `handle_io` starts at. -/
structure Polled where
  nset : Int
  rfds : Int → Bool
  wfds : Int → Bool
  now : Int

/-- One of the descriptors has been seen to. -/
def Polled.tick (p : Polled) : Polled := { p with nset := p.nset - 1 }

/-- Where the loop stands: at its top, before `select(2)`, in `handle_io` before slot
`i` or at its `SKIP_TO_WRITE`, or before `accept_client`. -/
inductive Point where
  | top
  | select
  | slot (i : Nat) (p : Polled)
  | write (i : Nat) (p : Polled)
  | accept (p : Polled)

/-- The state of `main`. -/
structure Loop where
  srv : Server
  links : Option Links
  selectTimeout : Int
  lastUpkeep : Int
  point : Point

/-- What the environment decides at each point; `next` takes the branch in which it
decides nothing. A message that is received is in the buffer at `a`. A turn has one time of
day for `main` and for `upkeep`, which ask for it one after the other. -/
inductive LoopEvent where
  | turn (now : Int) (lines : List Bytes)
  | select (p : Polled)
  | read (a : Nat) (res : ReadRes) (env : MsgEnv)
  | write (res : WriteRes)
  | accept (fd : Int) (nonblocking : Bool) (now : Int)
  | next

namespace Loop

/-- The start of the loop. -/
def start (cfg : SrvCfg) (listenfd : Int) (udb : Udb) (selectTimeout : Int) : Loop where
  srv := .initial cfg listenfd udb
  links := some .initial
  selectTimeout := selectTimeout
  lastUpkeep := 0
  point := .top

def goto (s : Loop) (point : Point) : Loop := { s with point := point }

/-- Call the function that the event stands for. -/
def call (s : Loop) (a : Nat) (e : SrvEvent) : Option Loop :=
  (srvStep s.srv e).map fun t =>
    { s with srv := t, links := s.links.bind fun l => l.step s.srv a e }

/-- The descriptor of slot `i`. -/
def fd (s : Loop) (i : Nat) : Int := (s.srv.clients i).fd

/-- The loop of `handle_io` goes on. -/
def Goes (s : Loop) (i : Nat) (p : Polled) : Prop := i < s.srv.cfg.maxClients ∧ 0 < p.nset

instance (s : Loop) (i : Nat) (p : Polled) : Decidable (s.Goes i p) :=
  inferInstanceAs (Decidable (_ ∧ _))

/-- A connection is waiting to be accepted. -/
def Waits (s : Loop) (p : Polled) : Prop :=
  0 < p.nset ∧ 0 ≤ s.srv.listenfd ∧ p.rfds s.srv.listenfd = true

instance (s : Loop) (p : Polled) : Decidable (s.Waits p) :=
  inferInstanceAs (Decidable (_ ∧ _ ∧ _))

/-- One step of `main`. -/
def step (s : Loop) : LoopEvent → Option Loop
  | .turn now lines =>
      match s.point with
      | .top =>
          if s.selectTimeout < now - s.lastUpkeep then
            let s : Loop := { s with lastUpkeep := now }
            ((s.call 0 (.upkeep now)).bind fun s => s.call 0 (.motd lines)).map fun s =>
              s.goto .select
          else some (s.goto .select)
      | _ => none
  | .select p =>
      match s.point with
      | .select => some (s.goto (if 0 < p.nset then .slot 0 p else .top))
      | _ => none
  | .read a res env =>
      match s.point with
      | .slot i p =>
          if s.Goes i p ∧ 0 ≤ s.fd i ∧ p.rfds (s.fd i) = true then
            (s.call a (.read i p.now res env)).map fun s =>
              -- `continue` if the slot has been closed
              s.goto (if 0 ≤ s.fd i then .write i p.tick else .slot (i + 1) p.tick)
          else none
      | _ => none
  | .write res =>
      match s.point with
      | .write i p =>
          if p.wfds (s.fd i) = true then
            (s.call 0 (.write i p.now res)).map fun s => s.goto (.slot (i + 1) p.tick)
          else none
      | _ => none
  | .accept fd nonblocking now =>
      match s.point with
      | .accept p =>
          if s.Waits p then
            (s.call 0 (.accept fd nonblocking now)).map fun s => s.goto .top
          else none
      | _ => none
  | .next =>
      match s.point with
      | .slot i p =>
          if s.Goes i p then
            if s.fd i < 0 then some (s.goto (.slot (i + 1) p))
            else if p.rfds (s.fd i) = true then none
            else some (s.goto (.write i p))
          else some (s.goto (.accept p))
      | .write i p =>
          if p.wfds (s.fd i) = true then none else some (s.goto (.slot (i + 1) p))
      | .accept p => if s.Waits p then none else some (s.goto .top)
      | _ => none

end Loop

/-- What the environment may decide. `select(2)` polls the descriptors below its first
argument, and returns subsets of the sets. -/
def LoopEvent.Enabled (s : Loop) : LoopEvent → Prop
  | .select p => ∀ fd, (p.rfds fd = true → s.srv.mRfds fd = true ∧ fd < s.srv.maxfd + 1) ∧
      (p.wfds fd = true → s.srv.mWfds fd = true ∧ fd < s.srv.maxfd + 1)
  | .read a _ _ => ∀ l, s.links = some l → l.heap.block a = none
  | .accept fd nonblocking now => (SrvEvent.accept fd nonblocking now).Enabled s.srv
  | _ => True

/-- The server's `main`, with any configuration and any user database file. -/
def loopLts : Lts Loop LoopEvent where
  init s := ∃ cfg listenfd e file selectTimeout, 0 ≤ listenfd ∧
    s = .start cfg listenfd (udbInit e file) selectTimeout
  step s e t := e.Enabled s ∧ s.step e = some t

/-! ## What an event leaves of the table -/

/-- `maxfd` is at least the listening and every live descriptor. -/
def Covered (s : Server) : Prop :=
  s.listenfd ≤ s.maxfd ∧ ∀ i, s.Live i → (s.clients i).fd ≤ s.maxfd

/-- No session is new, and slots keep their descriptors. -/
structure Ebbs (s t : Server) : Prop where
  cfg : t.cfg = s.cfg
  listenfd : t.listenfd = s.listenfd
  slot : ∀ k, t.Live k → s.Live k ∧ (t.clients k).fd = (s.clients k).fd

theorem Covered.ebbs {s t : Server} (h : Covered s) (he : Ebbs s t) (hmax : t.maxfd = s.maxfd) :
    Covered t := by
  refine ⟨by rw [he.listenfd, hmax]; exact h.1, fun i hi => ?_⟩
  obtain ⟨hlive, hfd⟩ := he.slot i hi
  rw [hfd, hmax]
  exact h.2 i hlive

/-- A slot changes in place, or is closed. -/
theorem InPlace.ebbs {s t : Server} {i : Nat} {c : Client} (h : InPlace s i c t) (hlive : s.Live i)
    (hfd : 0 ≤ c.fd → c.fd = (s.clients i).fd) : Ebbs s t := by
  refine ⟨h.cfg, h.listenfd, fun k hk => ?_⟩
  have hk' := hk.2
  rw [h.clients] at hk' ⊢
  by_cases hki : k = i
  · subst hki
    rw [Function.update_self] at hk' ⊢
    exact ⟨hlive, hfd hk'⟩
  · rw [Function.update_of_ne hki] at hk' ⊢
    exact ⟨⟨h.cfg ▸ hk.1, hk'⟩, rfl⟩

theorem MsgStep.ebbs {s t : Server} {i : Nat} {m : Mbuf} {reply : List Mbuf}
    (h : MsgStep s i m reply t) : Ebbs s t := by
  refine ⟨h.cfg, h.listenfd, fun k hk => ?_⟩
  by_cases hki : k = i
  · subst hki
    exact ⟨⟨h.cfg ▸ hk.1, h.self_fd ▸ hk.2⟩, h.self_fd⟩
  · rcases h.others k hki with ⟨-, hclosed⟩ | hsame
    · have hneg := hk.2
      rw [hclosed] at hneg
      exact absurd hneg (by decide)
    · have hfd : (t.clients k).fd = (s.clients k).fd := by rw [hsame]
      exact ⟨⟨h.cfg ▸ hk.1, hfd ▸ hk.2⟩, hfd⟩

theorem Ebbs.trans {s t u : Server} (h : Ebbs s t) (h' : Ebbs t u) : Ebbs s u := by
  refine ⟨h'.cfg.trans h.cfg, h'.listenfd.trans h.listenfd, fun k hk => ?_⟩
  obtain ⟨hmid, hfd⟩ := h'.slot k hk
  obtain ⟨hlive, hfd'⟩ := h.slot k hmid
  exact ⟨hlive, hfd.trans hfd'⟩

/-! ### `maxfd` -/

theorem kickOthers_maxfd (i : Nat) (js : List Nat) (s : Server) :
    (kickOthers i js s).maxfd = s.maxfd := by
  induction js generalizing s with
  | nil => rfl
  | cons j js ih =>
      rw [kickOthers, ih]
      split <;> rfl

theorem Serves.maxfd {env : MsgEnv} {s t : Server} {i : Nat} {m : Mbuf} {v : Verdict}
    (h : Serves env s i m v t) : t.maxfd = s.maxfd := by
  cases h with
  | auth => exact kickOthers_maxfd i s.slots s
  | _ => rfl

theorem sendBack_maxfd (s : Server) (i : Nat) (rbuf : Option Mbuf) :
    (sendBack s i rbuf).maxfd = s.maxfd := by
  cases rbuf <;> rfl

theorem processMsg_maxfd {env : MsgEnv} {s t : Server} {i : Nat} {m : Mbuf} (hm : 40 ≤ m.bsize)
    (hr : Ready s i) (h : processMsg env s i m = some t) : t.maxfd = s.maxfd := by
  rcases processMsg_serves hm hr h with ⟨j, -, rfl⟩ | ⟨u, rbuf, v, -, -, -, hserves, rfl⟩
  · exact sendBack_maxfd _ i none
  · exact (sendBack_maxfd u i rbuf).trans hserves.maxfd

/-! ### Reads and writes -/

section Io

variable {s t : Server} {i : Nat} {now : Int}

theorem readClient_maxfd (hs : (srvLts fun _ => True).Reachable s) (hlive : s.Live i)
    {res : ReadRes} {env : MsgEnv} (hstep : readClient env s i now res = some t) :
    t.maxfd = s.maxfd := by
  rw [readClient_opened] at hstep
  cases hout : readOutcome (slotBuffer s i now) res with
  | exits =>
      rw [hout] at hstep
      cases hstep
  | complete m =>
      rw [hout] at hstep
      have hok := ((slotsOk_inductive _).invariant s hs).slot i hlive
      have hwhole := whole_of_complete (hok.slotBuffer now) hout
      have hmsg := processMsg_maxfd hwhole.hdr ((ready_of_reachable hs hlive).opened now) hstep
      exact hmsg
  | _ =>
      rw [hout] at hstep
      cases hstep
      rfl

theorem writeClient_maxfd {res : WriteRes} (hstep : writeClient s i now res = some t) :
    t.maxfd = s.maxfd := by
  unfold writeClient at hstep
  simp only at hstep
  split at hstep
  · cases hstep
  · split at hstep
    · cases hstep
      rfl
    · cases hstep
      rfl
    · cases hstep
      split <;> rfl

/-- A read: sessions may end, and the queues of the others only grow. -/
theorem ebbs_read (hok : SlotsOk s) (hlive : s.Live i) {res : ReadRes}
    {env : MsgEnv} (hstep : readClient env s i now res = some t) :
    Ebbs s t ∧ ∀ k, t.Live k → (s.clients k).q ≠ [] → (t.clients k).q ≠ [] := by
  obtain ⟨hfd, -, hq⟩ := opened_same s i now
  -- The slot keeps its queue, or is closed.
  have hplace : ∀ {c : Client}, InPlace s i c t → (0 ≤ c.fd → c.fd = (s.clients i).fd ∧
      c.q = (s.clients i).q) →
      Ebbs s t ∧ ∀ k, t.Live k → (s.clients k).q ≠ [] → (t.clients k).q ≠ [] := by
    intro c hin hc
    refine ⟨hin.ebbs hlive fun h0 => (hc h0).1, fun k hk hne => ?_⟩
    have hk' := hk.2
    rw [hin.clients] at hk' ⊢
    by_cases hki : k = i
    · subst hki
      rw [Function.update_self] at hk' ⊢
      rwa [(hc hk').2]
    · rwa [Function.update_of_ne hki]
  cases srvStep_cases (e := .read i now res env) hok hlive hstep with
  | readClose _ _ hin => exact hplace hin fun h0 => absurd h0 (by decide)
  | readAgain _ hin => exact hplace hin fun _ => ⟨hfd, hq⟩
  | readPending _ _ _ _ hin => exact hplace hin fun _ => ⟨hfd, hq⟩
  | @readComplete _ _ _ _ m u _ _ _ hwhole _ hin hmsg =>
      obtain ⟨reply, hmsg⟩ := processMsg_slots hwhole.hdr hmsg
      refine ⟨(hin.ebbs hlive fun _ => hfd).trans hmsg.ebbs, fun k hk hne => ?_⟩
      by_cases hki : k = i
      · subst hki
        have hopen : (u.clients k).q = (s.clients k).q := by
          rw [hin.clients, Function.update_self]
          exact hq
        rw [hmsg.self_q, hopen]
        exact List.append_ne_nil_of_left_ne_nil hne _
      · have hsame : u.clients k = s.clients k := by rw [hin.clients, Function.update_of_ne hki]
        rcases hmsg.others k hki with ⟨-, hclosed⟩ | hgrown
        · have hneg := hk.2
          rw [hclosed] at hneg
          exact absurd hneg (by decide)
        · rw [hgrown, hsame]
          exact List.append_ne_nil_of_left_ne_nil hne _

/-- A write changes one slot. -/
theorem ebbs_write (hok : SlotsOk s) (hlive : s.Live i) {res : WriteRes}
    (hstep : writeClient s i now res = some t) :
    Ebbs s t ∧ ∀ k, k ≠ i → t.clients k = s.clients k := by
  have hplace : ∀ {c : Client}, InPlace s i c t → (0 ≤ c.fd → c.fd = (s.clients i).fd) →
      Ebbs s t ∧ ∀ k, k ≠ i → t.clients k = s.clients k := by
    intro c hin hc
    refine ⟨hin.ebbs hlive hc, fun k hki => ?_⟩
    rw [hin.clients, Function.update_of_ne hki]
  cases writeClient_cases (hok.slot i hlive) hlive hstep with
  | writeClose _ _ _ hin => exact hplace hin fun h0 => absurd h0 (by decide)
  | writeAgain _ _ hin => exact hplace hin fun _ => rfl
  | writeSent _ _ _ _ hin => exact hplace hin fun _ => rfl

end Io

/-! ### `accept_client` and `upkeep` -/

theorem Covered.accept {s : Server} (h : Covered s) (fd : Int) (nonblocking : Bool) (now : Int) :
    Covered (acceptClient s fd nonblocking now) := by
  unfold acceptClient
  split_ifs
  · exact h
  · exact h
  · exact h
  · cases s.slots.find? fun i => !(0 ≤ (s.clients i).fd : Bool) with
    | none => exact h
    | some i =>
        refine ⟨Int.le_trans h.1 (Int.le_max_left _ _), fun k hk => ?_⟩
        have hk' := hk.2
        by_cases hki : k = i
        · subst hki
          simp only [Server.setClient_self]
          exact Int.le_max_right _ _
        · simp only [Server.setClient_of_ne _ _ hki] at hk' ⊢
          exact Int.le_trans (h.2 k ⟨hk.1, hk'⟩) (Int.le_max_left _ _)

/-- `maxfd` is at least the listening and every live descriptor below slot `n`. -/
def CoveredTo (n : Nat) (s : Server) : Prop :=
  s.listenfd ≤ s.maxfd ∧ ∀ i < n, s.Live i → (s.clients i).fd ≤ s.maxfd

theorem CoveredTo.upkeepExpire {s : Server} {i : Nat} (h : CoveredTo i s) (now : Int) :
    CoveredTo i (upkeepExpire now s i) := by
  -- Only slot `i` changes, which is not counted yet.
  have hset : ∀ {t : Server}, t.cfg = s.cfg → t.listenfd = s.listenfd → t.maxfd = s.maxfd →
      (∀ k, k ≠ i → t.clients k = s.clients k) → CoveredTo i t := by
    intro t hcfg hlfd hmax hcl
    refine ⟨by rw [hlfd, hmax]; exact h.1, fun k hk hlive => ?_⟩
    rw [Server.Live, hcfg, hcl k (Nat.ne_of_lt hk)] at hlive
    rw [hmax, hcl k (Nat.ne_of_lt hk)]
    exact h.2 k hk hlive
  unfold Frelay.upkeepExpire
  simp only
  split_ifs
  · exact hset rfl rfl rfl fun k hk => Server.setClient_of_ne _ _ hk
  · exact hset rfl rfl rfl fun k hk => Server.setClient_of_ne _ _ hk
  · exact h

theorem CoveredTo.upkeepBudge {s : Server} {i j : Nat} (h : CoveredTo i s) (hji : j ≤ i) :
    CoveredTo (i + 1) (upkeepBudge s i j).1 ∧ (upkeepBudge s i j).2 ≤ i + 1 := by
  have hmax : s.maxfd ≤ max s.maxfd (s.clients i).fd := Int.le_max_left _ _
  have hself : (s.clients i).fd ≤ max s.maxfd (s.clients i).fd := Int.le_max_right _ _
  have hlisten : s.listenfd ≤ max s.maxfd (s.clients i).fd := Int.le_trans h.1 hmax
  unfold Frelay.upkeepBudge
  simp only
  split_ifs with hfd hne
  · refine ⟨⟨hlisten, fun k hk hlive => ?_⟩, Nat.succ_le_succ hji⟩
    have hlive' := hlive.2
    by_cases hki : k = i
    · subst hki
      simp only [Server.setClient_self] at hlive'
      exact absurd hlive' (by decide)
    · simp only [Server.setClient_of_ne _ _ hki] at hlive' ⊢
      by_cases hkj : k = j
      · subst hkj
        rw [Server.setClient_self]
        exact hself
      · rw [Server.setClient_of_ne _ _ hkj] at hlive' ⊢
        exact Int.le_trans (h.2 k (by omega) ⟨hlive.1, hlive'⟩) hmax
  · refine ⟨⟨hlisten, fun k hk hlive => ?_⟩, Nat.succ_le_succ hji⟩
    by_cases hki : k = i
    · subst hki
      exact hself
    · exact Int.le_trans (h.2 k (by omega) hlive) hmax
  · refine ⟨⟨h.1, fun k hk hlive => ?_⟩, Nat.le_succ_of_le hji⟩
    by_cases hki : k = i
    · subst hki
      exact absurd hlive.2 hfd
    · exact h.2 k (by omega) hlive

theorem CoveredTo.upkeepFrom (now : Int) (n : Nat) {s : Server} {i j : Nat} (h : CoveredTo i s)
    (hji : j ≤ i) : CoveredTo (i + n) (upkeepFrom now (List.range' i n) (s, j)).1 := by
  induction n generalizing s i j with
  | zero => exact h
  | succ n ih =>
      obtain ⟨hnext, hle⟩ := (h.upkeepExpire now).upkeepBudge hji
      rw [List.range'_succ, Frelay.upkeepFrom, show i + (n + 1) = i + 1 + n by omega]
      exact ih hnext hle

/-- `upkeep` finds the largest descriptor. -/
theorem covered_upkeep (now : Int) (s : Server) : Covered (upkeep now s) := by
  have hstart : CoveredTo 0 { s with maxfd := s.listenfd } :=
    ⟨Int.le_refl _, fun i hi => absurd hi (Nat.not_lt_zero i)⟩
  have hloop := hstart.upkeepFrom now s.cfg.maxClients (Nat.le_refl 0)
  rw [Nat.zero_add, ← List.range_eq_range'] at hloop
  obtain ⟨hlisten, hlive⟩ := hloop
  refine ⟨hlisten, fun i hi => hlive i ?_ hi⟩
  have hcfg : (upkeep now s).cfg = s.cfg := (upkeep_compacted now s s.cfg.maxClients).cfg
  exact hcfg ▸ hi.1

/-! ## The invariant of the loop -/

/-- Every live slot from `i` on that is ready for writing has something to send. -/
def Pending (s : Server) (i : Nat) (p : Polled) : Prop :=
  ∀ k, i ≤ k → s.Live k → p.wfds (s.clients k).fd = true → (s.clients k).q ≠ []

theorem Pending.next {s : Server} {i : Nat} {p : Polled} (h : Pending s i p) :
    Pending s (i + 1) p := fun k hk => h k (Nat.le_of_succ_le hk)

theorem Pending.ebbs {s t : Server} {i : Nat} {p : Polled} (h : Pending s i p) (he : Ebbs s t)
    (hq : ∀ k, i ≤ k → t.Live k → (s.clients k).q ≠ [] → (t.clients k).q ≠ []) :
    Pending t i p.tick := by
  intro k hk hlive hw
  obtain ⟨hlive', hfd⟩ := he.slot k hlive
  rw [hfd] at hw
  exact hq k hk hlive (h k hk hlive' hw)

namespace Loop

/-- The client table with its pointers. -/
def table (s : Loop) : Server × Option Links := (s.srv, s.links)

/-- What holds from the first call of `select(2)` on. -/
structure Ok (s : Loop) : Prop where
  table : linkedLts.Reachable s.table
  covered : Covered s.srv
  slot : ∀ i p, s.point = .slot i p → Pending s.srv i p
  write : ∀ i p, s.point = .write i p → s.srv.Live i ∧ Pending s.srv i p

variable {s t : Loop}

/-- The client table is as if the event had come by itself. -/
theorem call_step {a : Nat} {e : SrvEvent} (h : s.call a e = some t) (hen : e.Enabled s.srv)
    (hfresh : ∀ l, s.links = some l → l.Fresh a e) (hs : linkedLts.Reachable s.table) :
    srvStep s.srv e = some t.srv ∧ linkedLts.Reachable t.table := by
  obtain ⟨u, hu, rfl⟩ := Option.map_eq_some_iff.mp h
  refine ⟨hu, hs.step (e := (a, e)) ⟨⟨hen, ?_, hu⟩, hfresh, rfl⟩⟩
  cases e with
  | read => exact ⟨trivial, trivial⟩
  | _ => trivial

/-- At a point outside `handle_io` nothing is pending. -/
theorem ok_goto {point : Point} (hs : linkedLts.Reachable s.table) (hcov : Covered s.srv)
    (hslot : ∀ i p, point ≠ .slot i p) (hwrite : ∀ i p, point ≠ .write i p) :
    (s.goto point).Ok :=
  ⟨hs, hcov, fun i p hp => absurd hp (hslot i p), fun i p hp => absurd hp (hwrite i p)⟩

theorem ok_slot {i : Nat} {p : Polled} (hs : linkedLts.Reachable s.table) (hcov : Covered s.srv)
    (hp : Pending s.srv i p) : (s.goto (.slot i p)).Ok :=
  ⟨hs, hcov, fun _ _ h => by cases h; exact hp, fun _ _ h => Point.noConfusion h⟩

theorem ok_write {i : Nat} {p : Polled} (hs : linkedLts.Reachable s.table) (hcov : Covered s.srv)
    (hlive : s.srv.Live i) (hp : Pending s.srv i p) : (s.goto (.write i p)).Ok :=
  ⟨hs, hcov, fun _ _ h => Point.noConfusion h, fun _ _ h => by cases h; exact ⟨hlive, hp⟩⟩

/-- A turn of the loop, if `upkeep` is due or has been before. -/
theorem ok_turn {now : Int} {lines : List Bytes} (hs : linkedLts.Reachable s.table)
    (hcov : Covered s.srv ∨ s.selectTimeout < now - s.lastUpkeep)
    (hstep : s.step (.turn now lines) = some t) : t.Ok := by
  simp only [step] at hstep
  split at hstep
  · split at hstep
    · obtain ⟨v, hv, rfl⟩ := Option.map_eq_some_iff.mp hstep
      obtain ⟨u, hup, hmotd⟩ := Option.bind_eq_some_iff.mp hv
      obtain ⟨hu, hureach⟩ := call_step hup trivial (fun _ _ => trivial) hs
      obtain ⟨hv, hvreach⟩ := call_step hmotd trivial (fun _ _ => trivial) hureach
      have hcovu : Covered u.srv := by
        rw [← Option.some.inj hu]
        exact covered_upkeep now s.srv
      have hcovv : Covered v.srv := by
        obtain ⟨q, -, hq⟩ := Option.map_eq_some_iff.mp hv
        rw [← hq]
        exact hcovu
      exact ok_goto hvreach hcovv (fun _ _ => Point.noConfusion) fun _ _ => Point.noConfusion
    · rename_i hnot
      cases hstep
      have hcov := hcov.resolve_right hnot
      exact ok_goto hs hcov (fun _ _ => Point.noConfusion) fun _ _ => Point.noConfusion
  · cases hstep

/-- One step keeps the invariant. -/
theorem Ok.step {e : LoopEvent} (h : s.Ok) (hen : e.Enabled s) (hstep : s.step e = some t) :
    t.Ok := by
  have hs := (linked_reachable h.table).1
  have hok := (slotsOk_inductive _).invariant s.srv hs
  cases e with
  | turn now lines => exact ok_turn h.table (.inl h.covered) hstep
  | select p =>
      simp only [Loop.step] at hstep
      split at hstep
      · cases hstep
        split
        · refine ok_slot h.table h.covered fun k _ hlive hw => ?_
          -- The set that was handed over is that of the table.
          obtain ⟨l, -, hlinked⟩ := (linked_reachable h.table).2
          have hset := ((hen (s.srv.clients k).fd).2 hw).1
          obtain ⟨j, hj, hjfd, hjq⟩ := (hlinked.wfds _).mp hset
          rwa [hlinked.distinct j k hj hlive hjfd] at hjq
        · exact ok_goto h.table h.covered (fun _ _ => Point.noConfusion)
            fun _ _ => Point.noConfusion
      · cases hstep
  | read a res env =>
      simp only [Loop.step] at hstep
      split at hstep
      · rename_i i p hpoint
        split at hstep
        · rename_i hread
          obtain ⟨u, hcall, rfl⟩ := Option.map_eq_some_iff.mp hstep
          have hlive : s.srv.Live i := ⟨hread.1.1, hread.2.1⟩
          obtain ⟨hu, hreach⟩ := call_step hcall hlive hen h.table
          obtain ⟨hebbs, hq⟩ := ebbs_read hok hlive hu
          have hcov := h.covered.ebbs hebbs (readClient_maxfd hs hlive hu)
          have hp := (h.slot i p hpoint).ebbs hebbs fun k _ => hq k
          split
          · rename_i hfd
            exact ok_write hreach hcov ⟨hebbs.cfg ▸ hlive.1, hfd⟩ hp
          · exact ok_slot hreach hcov hp.next
        · cases hstep
      · cases hstep
  | write res =>
      simp only [Loop.step] at hstep
      split at hstep
      · rename_i i p hpoint
        split at hstep
        · rename_i hwrite
          obtain ⟨u, hcall, rfl⟩ := Option.map_eq_some_iff.mp hstep
          obtain ⟨hlive, hp⟩ := h.write i p hpoint
          obtain ⟨hu, hreach⟩ := call_step hcall ⟨hlive, hp i (Nat.le_refl i) hlive hwrite⟩
            (fun _ _ => trivial) h.table
          obtain ⟨hebbs, hsame⟩ := ebbs_write hok hlive hu
          refine ok_slot hreach (h.covered.ebbs hebbs (writeClient_maxfd hu)) ?_
          refine hp.next.ebbs hebbs fun k hk _ hne => ?_
          rwa [hsame k (Nat.ne_of_gt hk)]
        · cases hstep
      · cases hstep
  | accept fd nonblocking now =>
      simp only [Loop.step] at hstep
      split at hstep
      · split at hstep
        · obtain ⟨u, hcall, rfl⟩ := Option.map_eq_some_iff.mp hstep
          obtain ⟨hu, hreach⟩ := call_step hcall hen (fun _ _ => trivial) h.table
          have hcov := h.covered.accept fd nonblocking now
          rw [Option.some.inj hu] at hcov
          exact ok_goto hreach hcov (fun _ _ => Point.noConfusion) fun _ _ => Point.noConfusion
        · cases hstep
      · cases hstep
  | next =>
      simp only [Loop.step] at hstep
      split at hstep
      · rename_i i p hpoint
        have hp := h.slot i p hpoint
        split_ifs at hstep with hgoes hfd
        · cases hstep
          exact ok_slot h.table h.covered hp.next
        · cases hstep
          exact ok_write h.table h.covered ⟨hgoes.1, Int.not_lt.mp hfd⟩ hp
        · cases hstep
          exact ok_goto h.table h.covered (fun _ _ => Point.noConfusion)
            fun _ _ => Point.noConfusion
      · rename_i i p hpoint
        split_ifs at hstep
        cases hstep
        exact ok_slot h.table h.covered (h.write i p hpoint).2.next
      · split_ifs at hstep
        cases hstep
        exact ok_goto h.table h.covered (fun _ _ => Point.noConfusion)
          fun _ _ => Point.noConfusion
      · cases hstep

/-- The loop keeps the invariant. -/
theorem Ok.run {es : List LoopEvent} (h : s.Ok) (hrun : loopLts.Run s es t) : t.Ok :=
  hrun.preserves (fun _ _ _ h hstep => h.step hstep.1 hstep.2) h

/-- What `select(2)` is called with and `handle_io` finds: `qhead` and `qtail` are the
ends of every queue, and a slot that is written to has a first message. -/
structure Mirrors (s : Loop) : Prop where
  linked : ∃ l, s.links = some l ∧ Linked s.srv l ∧ ∀ i, s.srv.Live i →
    ((l.queue i).head = none ↔ (l.queue i).tail = none) ∧
    ∃ c, Chain l.heap (l.queue i).head c ∧ (l.queue i).tail = c.getLast?.map Prod.fst ∧
      c.map Prod.snd = (s.srv.clients i).q
  covered : s.point = .select → Covered s.srv
  head : ∀ i p, s.point = .write i p → p.wfds (s.fd i) = true →
    ∃ l a b, s.links = some l ∧ (l.queue i).head = some a ∧ l.heap.block a = some b

theorem Ok.mirrors (h : s.Ok) : s.Mirrors := by
  obtain ⟨l, hl, hlinked⟩ := (linked_reachable h.table).2
  refine ⟨⟨l, hl, hlinked, fun i hi => ?_⟩, fun _ => h.covered, fun i p hpoint hw => ?_⟩
  · obtain ⟨c, hc, hval⟩ := hlinked.chain hi
    exact ⟨hc.head_eq_none_iff, c, hc.chain, hc.tail, hval⟩
  · obtain ⟨hlive, hp⟩ := h.write i p hpoint
    obtain ⟨c, hc, hval⟩ := hlinked.chain hlive
    cases c with
    | nil => exact absurd hval.symm (hp i (Nat.le_refl i) hlive hw)
    | cons x c =>
        obtain ⟨hhead, n, hblk⟩ := hc.first
        exact ⟨l, x.1, _, hl, hhead, hblk⟩

end Loop

/-! ## The result -/

/-- **Sets, queues and table belong together in any order of events; and the loop
always tells `select(2)` of every descriptor, exactly when its first turn finds
`upkeep` due.** Until then `maxfd` has its initial value. -/
theorem mirrored_iff (cfg : SrvCfg) (listenfd : Int) (e : FileEnv) (file : Option Bytes)
    (selectTimeout now : Int) (h0 : 0 ≤ listenfd) :
    ((∀ p, linkedLts.Reachable p → ∃ l, p.2 = some l ∧ Linked p.1 l) ∧
      ∀ lines es t, loopLts.Run (.start cfg listenfd (udbInit e file) selectTimeout)
        (.turn now lines :: es) t → t.Mirrors) ↔ selectTimeout < now := by
  obtain ⟨s, hs⟩ : ∃ s, s = Loop.start cfg listenfd (udbInit e file) selectTimeout := ⟨_, rfl⟩
  rw [← hs]
  constructor
  · rintro ⟨-, hall⟩
    by_contra hnot
    have hstep : s.step (.turn now []) = some (s.goto .select) := by
      have hlate : ¬ selectTimeout < now - 0 := by omega
      rw [hs]
      show (if selectTimeout < now - 0 then _ else some _) = some _
      rw [if_neg hlate]
    obtain ⟨hcov, -⟩ := (hall [] [] _ (.cons ⟨trivial, hstep⟩ (.nil _))).covered rfl
    rw [hs] at hcov
    have hlow : listenfd ≤ -1 := hcov
    omega
  · intro hdue
    refine ⟨fun p hp => (linked_reachable hp).2, fun lines es t hrun => ?_⟩
    obtain _ | ⟨⟨-, hstep⟩, hrest⟩ := hrun
    have htable : linkedLts.Reachable s.table := by
      rw [hs]
      exact Lts.Reachable.init ⟨⟨cfg, listenfd, e, file, h0, trivial, rfl⟩, rfl⟩
    have hfirst : s.selectTimeout < now - s.lastUpkeep := by
      rw [hs]
      show selectTimeout < now - 0
      omega
    exact ((Loop.ok_turn htable (.inr hfirst) hstep).run hrest).mirrors

/-- A default configuration. -/
theorem mirrored_iff_default :
    ((∀ p, linkedLts.Reachable p → ∃ l, p.2 = some l ∧ Linked p.1 l) ∧
      ∀ lines es t, loopLts.Run (.start ⟨100, 5, 240⟩ 3 (udbInit .good none) 10)
        (.turn 1700000000 lines :: es) t → t.Mirrors) ↔ (10 : Int) < 1700000000 :=
  mirrored_iff ⟨100, 5, 240⟩ 3 .good none 10 1700000000 (by decide)

/-- A `select_timeout` above the time of day: the first call of `select(2)` comes with
`maxfd` below the listening descriptor. -/
theorem select_blind : ∃ t, loopLts.Reachable t ∧ t.point = .select ∧
    t.srv.maxfd < t.srv.listenfd := by
  refine ⟨(Loop.start ⟨100, 5, 240⟩ 3 (udbInit .good none) 2000000000).goto .select, ?_, rfl, ?_⟩
  · have hinit : loopLts.init (.start ⟨100, 5, 240⟩ 3 (udbInit .good none) 2000000000) :=
      ⟨⟨100, 5, 240⟩, 3, .good, none, 2000000000, by decide, rfl⟩
    exact (Lts.Reachable.init hinit).step (e := .turn 1700000000 []) ⟨trivial, rfl⟩
  · decide

end Frelay
