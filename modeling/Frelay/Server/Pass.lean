import Frelay.Lib.Countdown
import Frelay.Server.Select

/-!
# One pass of `handle_io`

`handle_io` counts down the number of descriptors that `select(2)` has returned, and
stops when it gets to 0. A slot that is closed while another one is seen to is never
paid for, so the count may stay too large; it must not become too small.

* `pass_serves_all` — nobody who is ready is passed over, the count does not become
  negative, a connection that waits is left in it, and the pass comes to its end.
-/

namespace Frelay

open Lib

/-! ## The pass -/

/-- What a pass does to a slot: it calls `read(2)` or `write(2)`, or it closes slot `i`
while it sees to slot `k`. -/
inductive IoAct where
  | read (i : Nat)
  | write (i : Nat)
  | close (k i : Nat)
  deriving DecidableEq

/-- The point is inside the loop of `handle_io`. -/
def Point.InLoop : Point → Prop
  | .slot .. | .write .. => True
  | _ => False

/-- What `handle_io` counts down, and has returned when it comes to `accept_client`. -/
def Point.polled : Point → Option Polled
  | .slot _ p | .write _ p | .accept p => some p
  | _ => none

namespace Loop

/-- The call of `read(2)` or `write(2)` that the event stands for, if the function gets
that far. -/
def calls (s : Loop) : LoopEvent → List IoAct
  | .read .. =>
      match s.point with
      | .slot k p =>
          if (slotBuffer s.srv k p.now).boff < (slotBuffer s.srv k p.now).bsize then [.read k]
          else []
      | _ => []
  | .write _ =>
      match s.point with
      | .write k _ =>
          if (s.srv.clients k).q.head?.any fun m => m.boff < m.bsize then [.write k] else []
      | _ => []
  | _ => []

/-- The slots that an event closes. -/
def closes (s : Loop) (e : LoopEvent) : List Nat :=
  match s.step e with
  | some t => s.srv.slots.filter fun i => s.srv.Live i ∧ ¬ t.srv.Live i
  | none => []

/-- What happens to the slots, the latest first. -/
def ioActs (s : Loop) (e : LoopEvent) : List IoAct :=
  match s.point with
  | .slot k _ | .write k _ => (s.closes e).map (.close k) ++ s.calls e
  | _ => []

end Loop

/-- The loop of `handle_io`, with a record of what happens to the slots. -/
def passLts : Lts (Loop × List IoAct) LoopEvent :=
  (loopLts.guard fun s _ => s.point.InLoop).observe [] fun s e log => s.ioActs e ++ log

/-- `handle_io` is called on a table that belongs together with its sets, with what
`select(2)` has made of these. -/
structure Loop.Polls (s : Loop) (p : Polled) : Prop where
  point : s.point = .slot 0 p
  slots : SlotsOk s.srv
  linked : ∃ l, s.links = some l ∧ Linked s.srv l
  rfds : ∀ fd, p.rfds fd = true → s.srv.mRfds fd = true
  wfds : ∀ fd, p.wfds fd = true → s.srv.mWfds fd = true
  nset : p.nset = {fd | p.rfds fd = true}.ncard + {fd | p.wfds fd = true}.ncard

/-- Slot `i` has been read from, or was closed while an earlier one was seen to. -/
def ReadOrClosed (log : List IoAct) (i : Nat) : Prop :=
  .read i ∈ log ∨ ∃ k < i, .close k i ∈ log

/-- Slot `i` has been written to, or was closed before that. -/
def WrittenOrClosed (log : List IoAct) (i : Nat) : Prop :=
  .write i ∈ log ∨ ∃ k ≤ i, .close k i ∈ log

/-- Slot `i` has been seen to if it was ready. -/
structure SeenTo (s : Loop) (p : Polled) (log : List IoAct) (i : Nat) : Prop where
  read : p.rfds (s.fd i) = true → ReadOrClosed log i
  write : p.wfds (s.fd i) = true → WrittenOrClosed log i

/-! ## The count -/

/-- The bits of slot `k`, as long as it is live. -/
def due (s : Server) (p : Polled) (k : Nat) : Nat :=
  if s.Live k then (p.rfds (s.clients k).fd).toNat + (p.wfds (s.clients k).fd).toNat else 0

theorem due_live {s : Server} {p : Polled} {k : Nat} (h : s.Live k) :
    due s p k = (p.rfds (s.clients k).fd).toNat + (p.wfds (s.clients k).fd).toNat := if_pos h

theorem due_dead {s : Server} {p : Polled} {k : Nat} (h : ¬ s.Live k) : due s p k = 0 := if_neg h

/-- What is due does not become more. -/
theorem Ebbs.due {s t : Server} (h : Ebbs s t) (p : Polled) (k : Nat) :
    Frelay.due t p k ≤ Frelay.due s p k := by
  by_cases ht : t.Live k
  · obtain ⟨hs, hfd⟩ := h.slot k ht
    rw [due_live ht, due_live hs, hfd]
  · rw [due_dead ht]
    exact Nat.zero_le _

/-- `nset` pays for all bits of live slots and for that of the listening descriptor. -/
theorem Loop.Polls.count {s : Loop} {p : Polled} (h : s.Polls p) :
    ((left (due s.srv p) s.srv.cfg.maxClients 0 + (p.rfds s.srv.listenfd).toNat : Nat) : Int) ≤
      p.nset := by
  obtain ⟨l, -, hlinked⟩ := h.linked
  -- Only descriptors of the table are polled.
  have htable : ({fd | fd = s.srv.listenfd ∨ ∃ i, s.srv.Live i ∧ (s.srv.clients i).fd = fd} :
      Set Int).Finite := by
    have himage := (Finset.range s.srv.cfg.maxClients).finite_toSet.image
      fun i => (s.srv.clients i).fd
    refine (himage.insert s.srv.listenfd).subset ?_
    rintro fd (rfl | ⟨i, hi, rfl⟩)
    · exact Set.mem_insert _ _
    · exact Set.mem_insert_of_mem _ ⟨i, Finset.mem_coe.mpr (Finset.mem_range.mpr hi.1), rfl⟩
  have hfinr : {fd | p.rfds fd = true}.Finite :=
    htable.subset fun fd hfd => (hlinked.rfds fd).mp (h.rfds fd hfd)
  have hfinw : {fd | p.wfds fd = true}.Finite := by
    refine htable.subset fun fd hfd => .inr ?_
    obtain ⟨i, hi, hfdi, -⟩ := (hlinked.wfds fd).mp (h.wfds fd hfd)
    exact ⟨i, hi, hfdi⟩
  have hr := left_le_ncard (n := s.srv.cfg.maxClients) hfinr (f := fun i => (s.srv.clients i).fd)
    h.slots.fds hlinked.listen
  have hw := left_le_ncard (n := s.srv.cfg.maxClients) hfinw (f := fun i => (s.srv.clients i).fd)
    h.slots.fds hlinked.listen
  have hsum : left (due s.srv p) s.srv.cfg.maxClients 0 =
      left (fun k => if s.srv.Live k then (p.rfds (s.srv.clients k).fd).toNat else 0)
        s.srv.cfg.maxClients 0 +
      left (fun k => if s.srv.Live k then (p.wfds (s.srv.clients k).fd).toNat else 0)
        s.srv.cfg.maxClients 0 := by
    rw [← left_add]
    refine congrArg (fun w => left w s.srv.cfg.maxClients 0) (funext fun k => ?_)
    unfold due
    split
    · rfl
    · rfl
  rw [h.nset, hsum]
  omega

/-! ## The invariant -/

/-- Before slot `i`, those in front of it have been seen to, the others are as they were
or have been closed by these, and `q` pays for the rest. -/
structure BeforeSlot (s : Loop) (p : Polled) (i : Nat) (q : Polled) (u : Server)
    (log : List IoAct) : Prop where
  rfds : q.rfds = p.rfds
  wfds : q.wfds = p.wfds
  pending : Pending u i q
  seen : ∀ k < i, s.srv.Live k → SeenTo s p log k
  ahead : ∀ k, i ≤ k → s.srv.Live k → u.Live k ∨ ∃ j < i, .close j k ∈ log
  count : ((left (due u p) u.cfg.maxClients i + (p.rfds u.listenfd).toNat : Nat) : Int) ≤ q.nset

/-- The same between the halves of slot `i`. -/
structure BeforeWrite (s : Loop) (p : Polled) (i : Nat) (q : Polled) (u : Server)
    (log : List IoAct) : Prop where
  rfds : q.rfds = p.rfds
  wfds : q.wfds = p.wfds
  pending : Pending u i q
  live : u.Live i
  seen : ∀ k < i, s.srv.Live k → SeenTo s p log k
  read : p.rfds (s.fd i) = true → ReadOrClosed log i
  ahead : ∀ k, i < k → s.srv.Live k → u.Live k ∨ ∃ j ≤ i, .close j k ∈ log
  count : (((p.wfds (s.fd i)).toNat + left (due u p) u.cfg.maxClients (i + 1) +
    (p.rfds u.listenfd).toNat : Nat) : Int) ≤ q.nset

/-- At the end everybody has been seen to. -/
structure AfterAll (s : Loop) (p : Polled) (q : Polled) (u : Server) (log : List IoAct) : Prop where
  rfds : q.rfds = p.rfds
  seen : ∀ k, s.srv.Live k → SeenTo s p log k
  count : (((p.rfds u.listenfd).toNat : Nat) : Int) ≤ q.nset

/-- What holds at the points of a pass. -/
structure PassOk (s : Loop) (p : Polled) (u : Loop × List IoAct) : Prop where
  slots : SlotsOk u.1.srv
  ebbs : Ebbs s.srv u.1.srv
  slot : ∀ i q, u.1.point = .slot i q → BeforeSlot s p i q u.1.srv u.2
  write : ∀ i q, u.1.point = .write i q → BeforeWrite s p i q u.1.srv u.2
  accept : ∀ q, u.1.point = .accept q → AfterAll s p q u.1.srv u.2

theorem ReadOrClosed.mono {log log' : List IoAct} {i : Nat} (h : ReadOrClosed log i)
    (hlog : log ⊆ log') : ReadOrClosed log' i :=
  h.imp (fun hm => hlog hm) fun ⟨k, hk, hm⟩ => ⟨k, hk, hlog hm⟩

theorem WrittenOrClosed.mono {log log' : List IoAct} {i : Nat} (h : WrittenOrClosed log i)
    (hlog : log ⊆ log') : WrittenOrClosed log' i :=
  h.imp (fun hm => hlog hm) fun ⟨k, hk, hm⟩ => ⟨k, hk, hlog hm⟩

theorem SeenTo.mono {s : Loop} {p : Polled} {log log' : List IoAct} {i : Nat}
    (h : SeenTo s p log i) (hlog : log ⊆ log') : SeenTo s p log' i :=
  ⟨fun hr => (h.read hr).mono hlog, fun hw => (h.write hw).mono hlog⟩

/-- A slot that was closed by an earlier one needs nothing. -/
theorem SeenTo.of_closed {s : Loop} {p : Polled} {log : List IoAct} {i : Nat}
    (h : ∃ j < i, .close j i ∈ log) : SeenTo s p log i where
  read := fun _ => .inr h
  write := fun _ => .inr (by obtain ⟨j, hj, hm⟩ := h; exact ⟨j, Nat.le_of_lt hj, hm⟩)

namespace Loop

variable {s u t : Loop} {p q : Polled} {log : List IoAct} {i : Nat}

/-- `handle_io` starts. -/
theorem Polls.passOk (h : s.Polls p) : PassOk s p (s, []) := by
  obtain ⟨l, -, hlinked⟩ := h.linked
  have hpending : Pending s.srv 0 p := by
    intro k _ hlive hw
    obtain ⟨j, hj, hfd, hq⟩ := (hlinked.wfds _).mp (h.wfds _ hw)
    rwa [hlinked.distinct j k hj hlive hfd] at hq
  refine ⟨h.slots, ⟨rfl, rfl, fun k hk => ⟨hk, rfl⟩⟩, fun i q hq => ?_, fun i q hq => ?_,
    fun q hq => ?_⟩
  · obtain ⟨rfl, rfl⟩ := Point.slot.inj (hq.symm.trans h.point)
    exact ⟨rfl, rfl, hpending, fun k hk => absurd hk (Nat.not_lt_zero k), fun k _ hk => .inl hk,
      h.count⟩
  · exact Point.noConfusion (hq.symm.trans h.point)
  · exact Point.noConfusion (hq.symm.trans h.point)

/-- A slot that an event closes is in the record. -/
theorem mem_closes {e : LoopEvent} (hstep : u.step e = some t) {k : Nat} (hk : u.srv.Live k)
    (hdead : ¬ t.srv.Live k) : k ∈ u.closes e := by
  rw [closes, hstep]
  refine List.mem_filter.mpr ⟨Server.mem_slots.mpr hk.1, ?_⟩
  exact decide_eq_true ⟨hk, hdead⟩

/-- The point of a slot that is seen to. -/
theorem ioActs_at {e : LoopEvent} (hpoint : u.point = .slot i q ∨ u.point = .write i q) :
    u.ioActs e = (u.closes e).map (.close i) ++ u.calls e := by
  unfold ioActs
  rcases hpoint with hpoint | hpoint
  · rw [hpoint]
  · rw [hpoint]

/-- An event of slot `i` leaves the later slots live, or records that it has closed them. -/
theorem ahead_step {e : LoopEvent} (hpoint : u.point = .slot i q ∨ u.point = .write i q)
    (hstep : u.step e = some t) {k : Nat} (h : u.srv.Live k ∨ ∃ j ≤ i, .close j k ∈ log) :
    t.srv.Live k ∨ ∃ j ≤ i, .close j k ∈ u.ioActs e ++ log := by
  rcases h with hlive | ⟨j, hj, hmem⟩
  · by_cases ht : t.srv.Live k
    · exact .inl ht
    · refine .inr ⟨i, Nat.le_refl i, List.mem_append_left _ ?_⟩
      rw [ioActs_at hpoint]
      exact List.mem_append_left _ (List.mem_map_of_mem (mem_closes hstep hlive ht))
  · exact .inr ⟨j, hj, List.mem_append_right _ hmem⟩

/-- What holds of the slots ahead holds of those behind slot `i`. -/
theorem ahead_next {v : Server} {log' : List IoAct} (b : BeforeSlot s p i q v log)
    (hsub : log ⊆ log') (k : Nat) (hk : i < k) (hs : s.srv.Live k) :
    v.Live k ∨ ∃ j ≤ i, .close j k ∈ log' := by
  refine (b.ahead k (Nat.le_of_lt hk) hs).imp id ?_
  rintro ⟨j, hj, hmem⟩
  exact ⟨j, Nat.le_of_lt hj, hsub hmem⟩

/-! ## The steps -/

theorem Ebbs.refl (v : Server) : Ebbs v v := ⟨rfl, rfl, fun _ hk => ⟨hk, rfl⟩⟩

/-- Slot `i` has been seen to, and the next one comes. -/
theorem before_next {v w : Server} {log' : List IoAct} {q' : Polled} (hebbs : Ebbs v w)
    (hlog : log ⊆ log') (hsets : q'.rfds = p.rfds ∧ q'.wfds = p.wfds)
    (hpending : Pending w (i + 1) q') (hseen : ∀ k < i, s.srv.Live k → SeenTo s p log k)
    (hself : s.srv.Live i → SeenTo s p log' i)
    (hahead : ∀ k, i < k → s.srv.Live k → w.Live k ∨ ∃ j ≤ i, .close j k ∈ log')
    (hcount : ((left (due v p) v.cfg.maxClients (i + 1) + (p.rfds v.listenfd).toNat : Nat) : Int) ≤
      q'.nset) : BeforeSlot s p (i + 1) q' w log' where
  rfds := hsets.1
  wfds := hsets.2
  pending := hpending
  seen := by
    intro k hk hlive
    rcases Nat.lt_succ_iff_lt_or_eq.mp hk with hk | rfl
    · exact (hseen k hk hlive).mono hlog
    · exact hself hlive
  ahead := by
    intro k hk hlive
    refine (hahead k hk hlive).imp id ?_
    rintro ⟨j, hj, hmem⟩
    exact ⟨j, Nat.lt_succ_of_le hj, hmem⟩
  count := by
    have hmono := left_mono (n := v.cfg.maxClients) (i := i + 1) fun k _ => hebbs.due p k
    rw [hebbs.cfg, hebbs.listenfd]
    omega

theorem passOk_slot (hslots : SlotsOk t.srv) (hebbs : Ebbs s.srv t.srv)
    (hb : BeforeSlot s p i q t.srv log) : PassOk s p (t.goto (.slot i q), log) :=
  ⟨hslots, hebbs, fun _ _ h => by cases h; exact hb, fun _ _ h => Point.noConfusion h,
    fun _ h => Point.noConfusion h⟩

theorem passOk_write (hslots : SlotsOk t.srv) (hebbs : Ebbs s.srv t.srv)
    (hb : BeforeWrite s p i q t.srv log) : PassOk s p (t.goto (.write i q), log) :=
  ⟨hslots, hebbs, fun _ _ h => Point.noConfusion h, fun _ _ h => by cases h; exact hb,
    fun _ h => Point.noConfusion h⟩

theorem passOk_accept (hslots : SlotsOk t.srv) (hebbs : Ebbs s.srv t.srv)
    (hb : AfterAll s p q t.srv log) : PassOk s p (t.goto (.accept q), log) :=
  ⟨hslots, hebbs, fun _ _ h => Point.noConfusion h, fun _ _ h => Point.noConfusion h,
    fun _ h => by cases h; exact hb⟩

/-- A call that is made is in the record. -/
theorem mem_ioActs {e : LoopEvent} {x : IoAct} (hpoint : u.point = .slot i q ∨ u.point = .write i q)
    (hx : x ∈ u.calls e) : x ∈ u.ioActs e ++ log := by
  rw [ioActs_at hpoint]
  exact List.mem_append_left _ (List.mem_append_right _ hx)

/-- A slot whose own read or write fails is in the record. -/
theorem close_mem_ioActs {e : LoopEvent} (hpoint : u.point = .slot i q ∨ u.point = .write i q)
    (hstep : u.step e = some t) (hlive : u.srv.Live i) (hdead : ¬ t.srv.Live i) :
    .close i i ∈ u.ioActs e ++ log := by
  rw [ioActs_at hpoint]
  exact List.mem_append_left _
    (List.mem_append_left _ (List.mem_map_of_mem (mem_closes hstep hlive hdead)))

/-- The half of a slot that reads. -/
theorem passOk_read {a : Nat} {res : ReadRes} {env : MsgEnv} (h : PassOk s p (u, log))
    (hstep : u.step (.read a res env) = some t) :
    PassOk s p (t, u.ioActs (.read a res env) ++ log) := by
  have hstep' := hstep
  simp only [step] at hstep'
  split at hstep'
  · rename_i i q hpoint
    split at hstep'
    · rename_i hread
      have b : BeforeSlot s p i q u.srv log := h.slot i q hpoint
      have hok : SlotsOk u.srv := h.slots
      have hlive : u.srv.Live i := ⟨hread.1.1, hread.2.1⟩
      obtain ⟨v, hcall, rfl⟩ := Option.map_eq_some_iff.mp hstep'
      obtain ⟨w, hw, rfl⟩ := Option.map_eq_some_iff.mp hcall
      have hslots := hok.step (e := .read i q.now res env) hlive hw
      obtain ⟨hebbs, hq⟩ := ebbs_read hok hlive hw
      have hfd : u.fd i = s.fd i := (h.ebbs.slot i hlive).2
      -- `read(2)` has been called, as there was room in the buffer.
      have hmem : .read i ∈ u.ioActs (.read a res env) ++ log := by
        refine mem_ioActs (.inl hpoint) ?_
        have hroom := ((hok.slot i hlive).slotBuffer q.now).lt
        simp only [calls, hpoint]
        rw [if_pos hroom]
        exact List.mem_singleton.mpr rfl
      have hahead : ∀ k, i < k → s.srv.Live k →
          w.Live k ∨ ∃ j ≤ i, .close j k ∈ u.ioActs (.read a res env) ++ log := fun k hk hs =>
        ahead_step (.inl hpoint) hstep (ahead_next b (List.Subset.refl log) k hk hs)
      have hpending := b.pending.ebbs hebbs fun k _ => hq k
      have hcount := b.count
      have hbit : p.rfds (u.srv.clients i).fd = true := b.rfds ▸ hread.2.2
      rw [left_of_lt hlive.1, due_live hlive, hbit, Bool.toNat_true] at hcount
      have htick : q.tick.nset = q.nset - 1 := rfl
      split
      · rename_i hfdw
        have hlivew : w.Live i := ⟨hebbs.cfg ▸ hlive.1, hfdw⟩
        refine passOk_write hslots (h.ebbs.trans hebbs) ?_
        refine ⟨b.rfds, b.wfds, hpending, hlivew, ?_, fun _ => .inl hmem, hahead, ?_⟩
        · exact fun k hk hs => (b.seen k hk hs).mono (List.subset_append_right _ _)
        · have hmono := left_mono (n := u.srv.cfg.maxClients) (i := i + 1) fun k _ => hebbs.due p k
          rw [hebbs.cfg, hebbs.listenfd, htick, ← hfd]
          simp only [fd] at hcount ⊢
          omega
      · rename_i hfdw
        have hdead : ¬ w.Live i := fun hw => hfdw hw.2
        refine passOk_slot hslots (h.ebbs.trans hebbs) ?_
        refine before_next hebbs (List.subset_append_right _ _) ⟨b.rfds, b.wfds⟩ hpending.next
          b.seen (fun _ => ⟨fun _ => .inl hmem, fun _ => .inr ⟨i, Nat.le_refl i, ?_⟩⟩) hahead ?_
        · exact close_mem_ioActs (.inl hpoint) hstep hlive hdead
        · rw [htick]
          omega
    · cases hstep'
  · cases hstep'

/-- The half of a slot that writes. -/
theorem passOk_written {res : WriteRes} (h : PassOk s p (u, log))
    (hstep : u.step (.write res) = some t) : PassOk s p (t, u.ioActs (.write res) ++ log) := by
  have hstep' := hstep
  simp only [step] at hstep'
  split at hstep'
  · rename_i i q hpoint
    split at hstep'
    · rename_i hwrite
      have b : BeforeWrite s p i q u.srv log := h.write i q hpoint
      have hok : SlotsOk u.srv := h.slots
      have hne := b.pending i (Nat.le_refl i) b.live hwrite
      obtain ⟨v, hcall, rfl⟩ := Option.map_eq_some_iff.mp hstep'
      obtain ⟨w, hw, rfl⟩ := Option.map_eq_some_iff.mp hcall
      have hslots := hok.step (e := .write i q.now res) ⟨b.live, hne⟩ hw
      obtain ⟨hebbs, hsame⟩ := ebbs_write hok b.live hw
      have hfd : u.fd i = s.fd i := (h.ebbs.slot i b.live).2
      -- `write(2)` has been called: a queued message is never sent completely.
      have hmem : .write i ∈ u.ioActs (.write res) ++ log := by
        refine mem_ioActs (.inr hpoint) ?_
        obtain ⟨m, ms, hq⟩ := List.exists_cons_of_ne_nil hne
        have hunsent : m.boff < m.bsize :=
          ((hok.slot i b.live).queued m (hq ▸ List.mem_cons_self)).2
        simp [calls, hpoint, hq, hunsent]
      refine passOk_slot hslots (h.ebbs.trans hebbs) ?_
      refine before_next hebbs (List.subset_append_right _ _) ⟨b.rfds, b.wfds⟩ ?_ b.seen ?_ ?_ ?_
      · refine b.pending.next.ebbs hebbs fun k hk _ hq => ?_
        rwa [hsame k (Nat.ne_of_gt hk)]
      · exact fun _ => ⟨fun hr => (b.read hr).mono (List.subset_append_right _ _),
          fun _ => .inl hmem⟩
      · exact fun k hk hs => ahead_step (.inr hpoint) hstep (b.ahead k hk hs)
      · have hbit : p.wfds (s.fd i) = true := by
          rw [← hfd, ← b.wfds]
          exact hwrite
        have hcount := b.count
        rw [hbit, Bool.toNat_true] at hcount
        have htick : q.tick.nset = q.nset - 1 := rfl
        rw [htick]
        omega
    · cases hstep'
  · cases hstep'

/-- When the loop stops early, nobody that is left is ready. -/
theorem stop_seen (b : BeforeSlot s p i q u.srv log) (hebbs : Ebbs s.srv u.srv)
    (hstop : ¬ u.Goes i q) : AfterAll s p q u.srv log := by
  have hcount := b.count
  refine ⟨b.rfds, fun k hlive => ?_, by omega⟩
  rcases Nat.lt_or_ge k i with hk | hk
  · exact b.seen k hk hlive
  · rcases b.ahead k hk hlive with hu | hclosed
    · -- The count is 0 although slot `k` is still to come.
      have hzero : left (due u.srv p) u.srv.cfg.maxClients i = 0 := by
        have hnset : ¬ 0 < q.nset := fun hn => hstop ⟨Nat.lt_of_le_of_lt hk hu.1, hn⟩
        omega
      have hdue := left_eq_zero hzero hk hu.1
      rw [due_live hu, (hebbs.slot k hu).2] at hdue
      have hr : p.rfds (s.fd k) = false := Bool.toNat_eq_zero.mp (Nat.eq_zero_of_add_eq_zero hdue).1
      have hw : p.wfds (s.fd k) = false := Bool.toNat_eq_zero.mp (Nat.eq_zero_of_add_eq_zero hdue).2
      exact ⟨fun h => absurd h (by rw [hr]; decide), fun h => absurd h (by rw [hw]; decide)⟩
    · obtain ⟨j, hj, hmem⟩ := hclosed
      exact .of_closed ⟨j, Nat.lt_of_lt_of_le hj hk, hmem⟩

/-- The steps that only go on. -/
theorem passOk_next (h : PassOk s p (u, log)) (hin : u.point.InLoop)
    (hstep : u.step .next = some t) : PassOk s p (t, u.ioActs .next ++ log) := by
  have hsub : log ⊆ u.ioActs .next ++ log := List.subset_append_right _ _
  have hok : SlotsOk u.srv := h.slots
  have hebbs : Ebbs s.srv u.srv := h.ebbs
  simp only [step] at hstep
  split at hstep
  · rename_i i q hpoint
    have b : BeforeSlot s p i q u.srv log := h.slot i q hpoint
    split_ifs at hstep with hgoes hneg
    · -- An unused slot.
      cases hstep
      have hdead : ¬ u.srv.Live i := fun hlive => absurd hlive.2 (Int.not_le.mpr hneg)
      refine passOk_slot hok hebbs ?_
      refine before_next (Ebbs.refl _) hsub ⟨b.rfds, b.wfds⟩ b.pending.next b.seen ?_
        (ahead_next b hsub) ?_
      · exact fun hs => (SeenTo.of_closed ((b.ahead i (Nat.le_refl i) hs).resolve_left hdead)).mono
          hsub
      · have hcount := b.count
        rw [left_of_lt hgoes.1, due_dead hdead, Nat.zero_add] at hcount
        exact hcount
    · -- Nothing to read.
      rename_i hnot
      cases hstep
      have hlive : u.srv.Live i := ⟨hgoes.1, Int.not_lt.mp hneg⟩
      have hfd : u.fd i = s.fd i := (hebbs.slot i hlive).2
      have hbit : p.rfds (s.fd i) = false := by
        rw [← hfd, ← b.rfds]
        exact eq_false_of_ne_true hnot
      refine passOk_write hok hebbs ?_
      refine ⟨b.rfds, b.wfds, b.pending, hlive, fun k hk hs => (b.seen k hk hs).mono hsub,
        fun hr => absurd hr (by rw [hbit]; decide), ahead_next b hsub, ?_⟩
      have hcount := b.count
      rw [left_of_lt hgoes.1, due_live hlive] at hcount
      rw [← hfd]
      simp only [fd]
      omega
    · cases hstep
      have hend := stop_seen b hebbs hgoes
      exact passOk_accept hok hebbs ⟨hend.rfds, fun k hs => (hend.seen k hs).mono hsub, hend.count⟩
  · rename_i i q hpoint
    have b : BeforeWrite s p i q u.srv log := h.write i q hpoint
    split_ifs at hstep with hnot
    cases hstep
    have hfd : u.fd i = s.fd i := (hebbs.slot i b.live).2
    have hbit : p.wfds (s.fd i) = false := by
      rw [← hfd, ← b.wfds]
      exact eq_false_of_ne_true hnot
    refine passOk_slot hok hebbs ?_
    refine before_next (Ebbs.refl _) hsub ⟨b.rfds, b.wfds⟩ b.pending.next b.seen ?_ ?_ ?_
    · exact fun _ => ⟨fun hr => (b.read hr).mono hsub, fun hw => absurd hw (by rw [hbit]; decide)⟩
    · intro k hk hs
      refine (b.ahead k hk hs).imp id ?_
      rintro ⟨j, hj, hmem⟩
      exact ⟨j, hj, hsub hmem⟩
    · have hcount := b.count
      omega
  · rename_i q hpoint
    rw [hpoint] at hin
    exact hin.elim
  · cases hstep

/-- What can happen inside the loop of `handle_io`. -/
theorem event_inLoop {e : LoopEvent} (hin : u.point.InLoop) (hstep : u.step e = some t) :
    (∃ a res env, e = .read a res env) ∨ (∃ res, e = .write res) ∨ e = .next := by
  -- Elsewhere the points are others.
  have hno : ∀ {point : Point}, u.point = point → ¬ point.InLoop → False := by
    rintro point rfl hnot
    exact hnot hin
  cases e with
  | read a res env => exact .inl ⟨a, res, env, rfl⟩
  | write res => exact .inr (.inl ⟨res, rfl⟩)
  | next => exact .inr (.inr rfl)
  | turn now lines =>
      simp only [step] at hstep
      split at hstep
      · exact (hno ‹_› id).elim
      · cases hstep
  | select q =>
      simp only [step] at hstep
      split at hstep
      · exact (hno ‹_› id).elim
      · cases hstep
  | accept fd nonblocking now =>
      simp only [step] at hstep
      split at hstep
      · exact (hno ‹_› id).elim
      · cases hstep

/-- **One step** of the pass keeps the invariant. -/
theorem passOk_step {a b : Loop × List IoAct} {e : LoopEvent} (h : PassOk s p a)
    (hstep : passLts.step a e b) : PassOk s p b := by
  obtain ⟨u, log⟩ := a
  obtain ⟨t, log'⟩ := b
  obtain ⟨⟨⟨hen, hstep⟩, hin⟩, hlog⟩ := hstep
  simp only at hen hstep hin hlog
  subst hlog
  obtain ⟨a, res, env, rfl⟩ | ⟨res, rfl⟩ | rfl := event_inLoop hin hstep
  · exact passOk_read h hstep
  · exact passOk_written h hstep
  · exact passOk_next h hin hstep

end Loop

/-! ## The end of the pass -/

namespace Loop

variable {s u t : Loop} {p q : Polled} {log : List IoAct} {i : Nat}

/-- How the points of `handle_io` follow each other. -/
theorem point_follows {e : LoopEvent} (hin : u.point.InLoop) (hstep : u.step e = some t) :
    (∃ i q q', u.point = .slot i q ∧ i < u.srv.cfg.maxClients ∧
        (t.point = .write i q' ∨ t.point = .slot (i + 1) q')) ∨
      (∃ i q, u.point = .slot i q ∧ t.point = .accept q) ∨
      ∃ i q q', u.point = .write i q ∧ t.point = .slot (i + 1) q' := by
  obtain ⟨a, res, env, rfl⟩ | ⟨res, rfl⟩ | rfl := event_inLoop hin hstep
  · simp only [step] at hstep
    split at hstep
    · rename_i i q hpoint
      split at hstep
      · rename_i hread
        obtain ⟨v, -, rfl⟩ := Option.map_eq_some_iff.mp hstep
        refine .inl ⟨i, q, q.tick, hpoint, hread.1.1, ?_⟩
        split
        · exact .inl rfl
        · exact .inr rfl
      · cases hstep
    · cases hstep
  · simp only [step] at hstep
    split at hstep
    · rename_i i q hpoint
      split at hstep
      · obtain ⟨v, -, rfl⟩ := Option.map_eq_some_iff.mp hstep
        exact .inr (.inr ⟨i, q, q.tick, hpoint, rfl⟩)
      · cases hstep
    · cases hstep
  · simp only [step] at hstep
    split at hstep
    · rename_i i q hpoint
      split_ifs at hstep with hgoes hneg
      · cases hstep
        exact .inl ⟨i, q, q, hpoint, hgoes.1, .inr rfl⟩
      · cases hstep
        exact .inl ⟨i, q, q, hpoint, hgoes.1, .inl rfl⟩
      · cases hstep
        exact .inr (.inl ⟨i, q, hpoint, rfl⟩)
    · rename_i i q hpoint
      split_ifs at hstep
      cases hstep
      exact .inr (.inr ⟨i, q, q, hpoint, rfl⟩)
    · rename_i q hpoint
      rw [hpoint] at hin
      exact hin.elim
    · cases hstep

/-- How many steps a pass over `n` slots has made at most. -/
def Steps (n k : Nat) : Point → Prop
  | .slot i _ => i ≤ n ∧ k ≤ 2 * i
  | .write i _ => i < n ∧ k ≤ 2 * i + 1
  | .accept _ => k ≤ 2 * n + 1
  | _ => False

/-- A step counts one. -/
theorem steps_step {n k : Nat} {e : LoopEvent} (h : Steps n k u.point) (hin : u.point.InLoop)
    (hn : u.srv.cfg.maxClients = n) (hstep : u.step e = some t) : Steps n (k + 1) t.point := by
  rcases point_follows hin hstep with ⟨i, q, q', hu, hi, ht | ht⟩ | ⟨i, q, hu, ht⟩ |
      ⟨i, q, q', hu, ht⟩
  · rw [hu] at h
    rw [ht]
    exact ⟨hn ▸ hi, Nat.succ_le_succ h.2⟩
  · rw [hu] at h
    rw [ht]
    have hle : k ≤ 2 * i := h.2
    exact ⟨Nat.succ_le_of_lt (hn ▸ hi), by omega⟩
  · rw [hu] at h
    rw [ht]
    obtain ⟨hi, hle⟩ := h
    show k + 1 ≤ 2 * n + 1
    omega
  · rw [hu] at h
    rw [ht]
    obtain ⟨hi, hle⟩ := h
    exact ⟨hi, by omega⟩

/-- A pass comes to its end: no more than two steps for a slot, and one. -/
theorem pass_length {es : List LoopEvent} (h : s.Polls p)
    (hrun : passLts.Run (s, []) es (t, log)) : es.length ≤ 2 * s.srv.cfg.maxClients + 1 := by
  have hsteps := hrun.counts (P := fun a k =>
    PassOk s p a ∧ Steps s.srv.cfg.maxClients k a.1.point) (n := 0) ?_ ?_
  · rw [Nat.zero_add] at hsteps
    have hcount := hsteps.2
    cases hpoint : t.point with
    | slot i q =>
        rw [hpoint] at hcount
        obtain ⟨hi, hle⟩ := hcount
        omega
    | write i q =>
        rw [hpoint] at hcount
        obtain ⟨hi, hle⟩ := hcount
        omega
    | accept q =>
        rw [hpoint] at hcount
        exact hcount
    | top =>
        rw [hpoint] at hcount
        exact hcount.elim
    | select =>
        rw [hpoint] at hcount
        exact hcount.elim
  · rintro a e b k ⟨hok, hsteps⟩ hstep
    refine ⟨passOk_step hok hstep, ?_⟩
    obtain ⟨⟨⟨-, hfun⟩, hin⟩, -⟩ := hstep
    exact steps_step hsteps hin (congrArg SrvCfg.maxClients hok.ebbs.cfg) hfun
  · refine ⟨h.passOk, ?_⟩
    rw [h.point]
    exact ⟨Nat.zero_le _, Nat.le_refl 0⟩

/-- Until then it can go on, whatever the slots are like. -/
theorem pass_goes_on {a : Nat} (h : PassOk s p (u, log)) (hin : u.point.InLoop)
    (hfresh : ∀ l, u.links = some l → l.heap.block a = none) :
    ∃ e b, passLts.step (u, log) e b := by
  -- A step of the loop is one of the pass.
  have hgo : ∀ {e : LoopEvent}, e.Enabled u → (u.step e).isSome = true →
      ∃ e b, passLts.step (u, log) e b := by
    intro e hen hsome
    obtain ⟨t, hstep⟩ := Option.isSome_iff_exists.mp hsome
    exact ⟨e, (t, _), ⟨⟨hen, hstep⟩, hin⟩, rfl⟩
  have hok : SlotsOk u.srv := h.slots
  cases hpoint : u.point with
  | slot i q =>
      by_cases hgoes : u.Goes i q
      · by_cases hneg : u.fd i < 0
        · refine hgo (e := .next) trivial ?_
          simp only [step, hpoint, if_pos hgoes, if_pos hneg, Option.isSome_some]
        · by_cases hbit : q.rfds (u.fd i) = true
          · have hlive : u.srv.Live i := ⟨hgoes.1, Int.not_lt.mp hneg⟩
            have hread : ∃ w, srvStep u.srv (.read i q.now (.failed false) ⟨[], 0, .good, .good⟩) =
                some w := by
              have hroom := ((hok.slot i hlive).slotBuffer q.now).lt
              rw [srvStep, readClient_opened, readOutcome, if_pos hroom]
              exact ⟨_, rfl⟩
            obtain ⟨w, hw⟩ := hread
            refine hgo (e := .read a (.failed false) ⟨[], 0, .good, .good⟩) hfresh ?_
            simp only [step, hpoint, call, hw]
            rw [if_pos ⟨hgoes, Int.not_lt.mp hneg, hbit⟩]
            rfl
          · refine hgo (e := .next) trivial ?_
            simp only [step, hpoint, if_pos hgoes, if_neg hneg, if_neg hbit, Option.isSome_some]
      · refine hgo (e := .next) trivial ?_
        simp only [step, hpoint, if_neg hgoes, Option.isSome_some]
  | write i q =>
      have b : BeforeWrite s p i q u.srv log := h.write i q hpoint
      by_cases hbit : q.wfds (u.fd i) = true
      · obtain ⟨m, ms, hq⟩ := List.exists_cons_of_ne_nil (b.pending i (Nat.le_refl i) b.live hbit)
        have hunsent : m.boff < m.bsize :=
          ((hok.slot i b.live).queued m (hq ▸ List.mem_cons_self)).2
        have hwrite : ∃ w, srvStep u.srv (.write i q.now (.failed false)) = some w := by
          rw [srvStep, writeClient]
          simp only [Server.setClient_self, hq, writeOutcome, if_pos hunsent]
          exact ⟨_, rfl⟩
        obtain ⟨w, hw⟩ := hwrite
        refine hgo (e := .write (.failed false)) trivial ?_
        simp only [step, hpoint, call, hw]
        rw [if_pos hbit]
        rfl
      · refine hgo (e := .next) trivial ?_
        simp only [step, hpoint, if_neg hbit, Option.isSome_some]
  | top =>
      rw [hpoint] at hin
      exact hin.elim
  | select =>
      rw [hpoint] at hin
      exact hin.elim
  | accept q =>
      rw [hpoint] at hin
      exact hin.elim

end Loop

/-! ## The result -/

/-- **A pass serves everybody**: what remains of `nset` is never negative, and when it is
returned, every slot that was live and ready has been read from and written to unless
it was closed before that, and a connection that waits is accepted next. It is returned after
two steps for each slot and one more at the latest, and until then there is always a step,
for which a message needs an address that is free. -/
theorem pass_serves_all {s t : Loop} {p : Polled} {es : List LoopEvent} {log : List IoAct}
    (h : s.Polls p) (hrun : passLts.Run (s, []) es (t, log)) :
    (∀ q, t.point.polled = some q → 0 ≤ q.nset) ∧
      (∀ q, t.point = .accept q → (∀ i, s.srv.Live i → SeenTo s p log i) ∧
        (p.rfds s.srv.listenfd = true → 1 ≤ q.nset ∧ (0 ≤ s.srv.listenfd → t.Waits q))) ∧
      es.length ≤ 2 * s.srv.cfg.maxClients + 1 ∧
      ∀ a, t.point.InLoop → (∀ l, t.links = some l → l.heap.block a = none) →
        ∃ e b, passLts.step (t, log) e b := by
  have hok : PassOk s p (t, log) :=
    hrun.preserves (fun _ _ _ h hstep => Loop.passOk_step h hstep) h.passOk
  refine ⟨?_, ?_, Loop.pass_length h hrun, fun a hin hfresh => Loop.pass_goes_on hok hin hfresh⟩
  · intro q hq
    cases hpoint : t.point with
    | slot i q' =>
        rw [hpoint] at hq
        cases hq
        have hcount := (hok.slot i q hpoint).count
        omega
    | write i q' =>
        rw [hpoint] at hq
        cases hq
        have hcount := (hok.write i q hpoint).count
        omega
    | accept q' =>
        rw [hpoint] at hq
        cases hq
        have hcount := (hok.accept q hpoint).count
        omega
    | top =>
        rw [hpoint] at hq
        cases hq
    | select =>
        rw [hpoint] at hq
        cases hq
  · intro q hpoint
    have hend : AfterAll s p q t.srv log := hok.accept q hpoint
    refine ⟨hend.seen, fun hlisten => ?_⟩
    have hfd : t.srv.listenfd = s.srv.listenfd := hok.ebbs.listenfd
    have hcount := hend.count
    rw [hfd, hlisten, Bool.toNat_true] at hcount
    refine ⟨by omega, fun h0 => ⟨by omega, by rw [hfd]; exact h0, ?_⟩⟩
    rw [hfd, hend.rfds]
    exact hlisten

/-- The loop with one client, and what `select(2)` says when the client has sent
something and another one connects. -/
def demoLoop : Loop where
  srv := acceptClient (demoServer none) 4 true 1
  links := Links.initial.step (demoServer none) 0 (.accept 4 true 1)
  selectTimeout := 10
  lastUpkeep := 0
  point := .slot 0 ⟨2, fun fd => fd == 3 || fd == 4, fun _ => false, 2⟩

theorem demo_accept : (SrvEvent.accept 4 true 1).Enabled (demoServer none) :=
  .inr ⟨by decide, by decide, fun _ hi => absurd hi.2 (show ¬ (0 : Int) ≤ -1 by decide)⟩

theorem demoLoop_polls :
    demoLoop.Polls ⟨2, fun fd => fd == 3 || fd == 4, fun _ => false, 2⟩ where
  point := rfl
  slots := by
    have hinit : SlotsOk (demoServer none) := slotsOk_initial _ _ _
    exact hinit.step demo_accept rfl
  linked := by
    have hinit : linkedLts.init (demoServer none, some .initial) :=
      ⟨demoServer_init (fun _ => True) trivial none, rfl⟩
    have hreach : linkedLts.Reachable demoLoop.table := (Lts.Reachable.init hinit).step
      (e := (0, .accept 4 true 1)) ⟨⟨demo_accept, trivial, rfl⟩, fun _ _ => trivial, rfl⟩
    exact (linked_reachable hreach).2
  rfds := by
    intro fd hfd
    simp only [Bool.or_eq_true, beq_iff_eq] at hfd
    rcases hfd with rfl | rfl
    · decide
    · decide
  wfds := fun _ hfd => absurd hfd Bool.false_ne_true
  nset := by
    have hr : {fd : Int | (fd == 3 || fd == 4) = true} = {3, 4} := by
      ext fd
      simp
    have hw : {fd : Int | (fun _ : Int => false) fd = true} = ∅ := by
      ext fd
      simp
    rw [hr, hw, Set.ncard_pair (by decide), Set.ncard_empty]
    rfl

/-- The reads of a pass and the steps that only go on. -/
def passTry (s : Loop × List IoAct) (e : LoopEvent) : Option (Loop × List IoAct) :=
  let t := (s.1.step e).map fun t => (t, s.1.ioActs e ++ s.2)
  match s.1.point, e with
  | .slot .., .read a _ _ => if s.1.links.all fun l => (l.heap.block a).isNone then t else none
  | .slot .., .next | .write .., .next => t
  | _, _ => none

theorem passTry_step {s t : Loop × List IoAct} {e : LoopEvent} (h : passTry s e = some t) :
    passLts.step s e t := by
  have hgo : e.Enabled s.1 → s.1.point.InLoop →
      ((s.1.step e).map fun t => (t, s.1.ioActs e ++ s.2)) = some t → passLts.step s e t := by
    intro hen hin h
    obtain ⟨u, hu, rfl⟩ := Option.map_eq_some_iff.mp h
    exact ⟨⟨⟨hen, hu⟩, hin⟩, rfl⟩
  unfold passTry at h
  simp only at h
  split at h
  · rename_i hpoint
    split at h
    · rename_i hfree
      refine hgo (fun l hl => ?_) (by rw [hpoint]; trivial) h
      rw [hl] at hfree
      exact Option.isNone_iff_eq_none.mp hfree
    · cases h
  · rename_i hpoint
    exact hgo trivial (by rw [hpoint]; trivial) h
  · rename_i hpoint
    exact hgo trivial (by rw [hpoint]; trivial) h
  · cases h

def Point.isAccept : Point → Bool
  | .accept _ => true
  | _ => false

theorem Point.isAccept_iff {q : Point} : q.isAccept = true ↔ ∃ p, q = .accept p := by
  cases q with
  | accept p => exact iff_of_true rfl ⟨p, rfl⟩
  | _ =>
      refine iff_of_false Bool.false_ne_true ?_
      rintro ⟨p, h⟩
      cases h

/-- The read of the client would block; the connection that waits is accepted next. -/
theorem pass_serves_all_two :
    ∃ s t p es log, (s.Polls p ∧ passLts.Run (s, []) es (t, log) ∧ s.srv.Live 0 ∧
        p.rfds (s.fd 0) = true ∧ p.rfds s.srv.listenfd = true ∧ ∃ q, t.point = .accept q) ∧
      (∀ q, t.point.polled = some q → 0 ≤ q.nset) ∧
        (∀ q, t.point = .accept q → (∀ i, s.srv.Live i → SeenTo s p log i) ∧
          (p.rfds s.srv.listenfd = true → 1 ≤ q.nset ∧ (0 ≤ s.srv.listenfd → t.Waits q))) ∧
        es.length ≤ 2 * s.srv.cfg.maxClients + 1 ∧
        ∀ a, t.point.InLoop → (∀ l, t.links = some l → l.heap.block a = none) →
          ∃ e b, passLts.step (t, log) e b := by
  have hexec : (Lts.exec passTry (demoLoop, [])
      [.read 0 (.failed false) ⟨[], 0, .good, .good⟩, .next, .next, .next, .next, .next]).any
      (fun t => t.1.point.isAccept) = true := by
    decide +kernel
  obtain ⟨⟨t, log⟩, hrun, hend⟩ := Lts.run_of_exec (M := passLts) (fun _ _ _ => passTry_step) hexec
  refine ⟨demoLoop, t, _, _, log, ⟨demoLoop_polls, hrun, by decide, by decide, by decide, ?_⟩,
    pass_serves_all demoLoop_polls hrun⟩
  exact Point.isAccept_iff.mp hend

end Frelay
