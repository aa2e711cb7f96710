import Frelay.Server.Select

/-!
# Compacting the client table

`upkeep` expires, resynchronizes and moves clients in one pass over the array, with an
index for the slot it looks at and one for the slot it fills.

* `Sweep` — what the pass is for: the clients that were active lately stand in front, in
  their order and as they were, and the other slots are free;
* `upkeep_loses_nobody` — that is what it does to every table, and it follows no dangling
  pointer.
-/

namespace Frelay

open Lib

/-- A client that stays is as it was, but for an unfinished message that has waited for
more than `msg_timeout`. -/
structure Stays (timeout now : Int) (c c' : Client) : Prop where
  fd : c'.fd = c.fd
  id : c'.id = c.id
  name : c'.name = c.name
  key : c'.key = c.key
  st : c'.st = c.st
  act : c'.act = c.act
  q : c'.q = c.q
  rbuf : c'.rbuf = if c.rbuf.isSome ∧ timeout < now - c.act then none else c.rbuf

/-- From `s` to `t` the clients in the slots `kept` have moved to the front, and all others
are gone. -/
structure Sweep (now : Int) (s t : Server) (kept : List Nat) : Prop where
  order : kept.Pairwise (· < ·)
  active : ∀ i, i ∈ kept ↔ s.Live i ∧ now - (s.clients i).act ≤ s.cfg.connTimeout
  front : ∀ j, t.Live j ↔ j < kept.length
  stay : ∀ j i, kept[j]? = some i → Stays s.cfg.msgTimeout now (s.clients i) (t.clients j)
  free : ∀ j < s.cfg.maxClients, kept.length ≤ j → (t.clients j).fd < 0
  maxfd : ∀ j, t.Live j → (t.clients j).fd ≤ t.maxfd

theorem stays_resync (timeout : Int) (c : Client) (now : Int) :
    Stays timeout now c (resyncClient timeout c now) := by
  unfold resyncClient
  split
  · rename_i hgap
    exact ⟨rfl, rfl, rfl, rfl, rfl, rfl, rfl, (if_pos hgap).symm⟩
  · rename_i hgap
    exact ⟨rfl, rfl, rfl, rfl, rfl, rfl, rfl, (if_neg hgap).symm⟩

theorem mem_survivors {now : Int} {s : Server} {i : Nat} :
    i ∈ survivors now s s.cfg.maxClients ↔
      s.Live i ∧ now - (s.clients i).act ≤ s.cfg.connTimeout := by
  simp only [survivors, List.mem_filter, List.mem_range, decide_eq_true_eq, Int.not_lt,
    Server.Live, and_assoc]

theorem upkeep_live_iff {now : Int} {s : Server} {j : Nat} :
    (upkeep now s).Live j ↔ j < (survivors now s s.cfg.maxClients).length := by
  constructor
  · intro hlive
    obtain ⟨i, hi⟩ := upkeep_live hlive
    exact (List.getElem?_eq_some_iff.mp hi).1
  · intro hj
    exact (upkeep_moved (List.getElem?_eq_getElem hj)).1

theorem upkeep_sweep (now : Int) (s : Server) :
    Sweep now s (upkeep now s) (survivors now s s.cfg.maxClients) where
  order := List.pairwise_lt_range.filter _
  active _ := mem_survivors
  front _ := upkeep_live_iff
  stay j i hi := by
    obtain ⟨-, -, -, hmoved⟩ := upkeep_moved hi
    rw [hmoved]
    exact stays_resync _ _ _
  free j hj hge := by
    have hc := upkeep_compacted now s s.cfg.maxClients
    exact hc.freed j (by rw [hc.count]; exact hge) hj
  maxfd := (covered_upkeep now s).2

/-- **Upkeep loses nobody.** The clients that were active within `conn_timeout` are in
front, in order and unchanged; every other slot is free, and where the send queues and
descriptor sets belonged to the table before, they do afterwards. -/
theorem upkeep_loses_nobody (now : Int) (s : Server) :
    (∃ kept, Sweep now s (upkeep now s) kept) ∧
      ∀ l, Linked s l → ∃ l', l.upkeep now s = some l' ∧ Linked (upkeep now s) l' :=
  ⟨⟨_, upkeep_sweep now s⟩, fun _ h => h.upkeep now⟩

end Frelay
