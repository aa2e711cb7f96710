import Frelay.Lib.Channel
import Frelay.Network.Net

/-!
# From one client to another

The way of a message from one client to another leads through the send queue of the one,
the octets on their way, the receive buffer and a send queue of the server, and the same
again at the other. While both clients are logged in, all of that is a single channel.

* `Net.inTransit` — the messages on that way, wherever they are and however they are cut;
* `conveys_client`, `conveys_server` — what one step does to it;
* `messages_in_order` — over a whole run every message arrives, once, in order and under
  the id of its sender, and nothing else does.
-/

namespace Frelay

open Lib

variable {ι : Type}

namespace Net

/-- The id of the client's session. -/
def idOf (s : Net ι) (i : ι) : UInt64 := ((s.ends i).slot s.srv).elim 0 Client.id

/-- The client is logged in. -/
def LoggedIn (s : Net ι) (i : ι) : Prop := ∃ fd k, (s.ends i).conn = some fd ∧ Present s.srv fd k

/-- The messages that `j` would take for messages from `i` to it. -/
def between (s : Net ι) (i j : ι) (b : Bytes) : Bool := isTo (s.idOf j) b && isFrom (s.idOf i) b

/-- The messages for `j` among those that `i` composed, as they arrive. -/
def addressed (s : Net ι) (i j : ι) (ms : List Bytes) : List Bytes :=
  (ms.filter (isTo (s.idOf j))).map (withSrcid (s.idOf i))

/-- The messages from `i` to `j` on their way. -/
def inTransit (i j : ι) (s : Net ι) : List Bytes :=
  (msgFormat.frames ((s.ends j).downward s.srv)).filter (s.between i j) ++
    s.addressed i j (msgFormat.frames ((s.ends i).upward s.srv))

section Events

variable [DecidableEq ι]

/-- The messages for `j` that `i` composes in a step. -/
def sends (i j : ι) (s : Net ι) : NetEvent ι → List Bytes
  | .client k e => if k = i then s.addressed i j (e.queued (s.ends i).clt) else []
  | .server _ => []

/-- The messages from `i` that `j` handles in a step. -/
def gets (i j : ι) (s : Net ι) : NetEvent ι → List Bytes
  | .client k e => if k = j then (e.handed (s.ends j).clt).filter (s.between i j) else []
  | .server _ => []

end Events

/-- Both clients are logged in. -/
def Both (i j : ι) (s : Net ι) : Prop := s.LoggedIn i ∧ s.LoggedIn j

theorem addressed_append (s : Net ι) (i j : ι) (ms ns : List Bytes) :
    s.addressed i j (ms ++ ns) = s.addressed i j ms ++ s.addressed i j ns := by
  rw [addressed, List.filter_append, List.map_append]
  rfl

end Net

/-! ## One step -/

/-- What a step of the server does to a connection that it has accepted. -/
theorem Endpoint.Served.of_conn {s t : Server} {e : SrvEvent} {p q : Endpoint} {fd : Int}
    (h : p.Served s e t q) (hconn : p.conn = some fd) :
    q.conn = some fd ∧ q.clt = p.clt ∧ NoGap s fd e ∧ p.up = octetsRead s fd e ++ q.up ∧
      q.down = p.down ++ octetsWritten s fd e := by
  cases h with
  | waits hno => exact absurd (hno.symm.trans hconn) (Option.some_ne_none fd).symm
  | accepted hno => exact absurd (hno.symm.trans hconn) (Option.some_ne_none fd).symm
  | @carried fd' up down hconn' hstays hgap hup hdown =>
      obtain rfl : fd' = fd := Option.some.inj (hconn'.symm.trans hconn)
      exact ⟨hconn, rfl, hgap, hup, hdown⟩

section Steps

variable {s t : Net ι} {i j : ι}

/-- A step of a client changes no session. -/
theorem idOf_client (hsrv : t.srv = s.srv) (hconn : (t.ends i).conn = (s.ends i).conn) :
    t.idOf i = s.idOf i := by
  rw [Net.idOf, Net.idOf, Endpoint.slot, Endpoint.slot, hsrv, hconn]

/-- What client `k` does. -/
theorem conveys_client [DecidableEq ι] {k : ι} {e : CltEvent} (hij : i ≠ j) (hs : NetOk s)
    (hstep : (netLts ι).step s (.client k e) t) :
    (t.idOf i = s.idOf i ∧ t.idOf j = s.idOf j) ∧
      Passes (s.inTransit i j) (s.sends i j (.client k e)) (s.gets i j (.client k e))
        (t.inTransit i j) := by
  obtain ⟨hsrv, hturn, hothers⟩ := hstep
  obtain ⟨⟨hup, hqueued⟩, hdown, hhanded⟩ := hturn.streams (s := s.srv) (hs.ends k).clt
  have hconn : ∀ l, (t.ends l).conn = (s.ends l).conn := by
    intro l
    by_cases hl : l = k
    · rw [hl, hturn.conn]
    · rw [hothers l hl]
  have hidi := idOf_client hsrv (hconn i)
  have hidj := idOf_client hsrv (hconn j)
  refine ⟨⟨hidi, hidj⟩, ?_⟩
  -- The stream of `i` to the server, and the one from the server to `j`.
  have hupi : msgFormat.frames ((t.ends i).upward t.srv) =
      msgFormat.frames ((s.ends i).upward s.srv) ++
        if k = i then e.queued (s.ends i).clt else [] := by
    rw [hsrv]
    split
    · rename_i hk
      subst hk
      rw [hup, (hs.ends k).up.frames_append, frames_flatten_whole hqueued]
    · rename_i hk
      rw [hothers i fun h => hk h.symm, List.append_nil]
  have hdownj : msgFormat.frames ((s.ends j).downward s.srv) =
      (if k = j then e.handed (s.ends j).clt else []) ++
        msgFormat.frames ((t.ends j).downward t.srv) := by
    rw [hsrv]
    split
    · rename_i hk
      subst hk
      rw [hdown, (frames_flatten_append hhanded _).1]
    · rename_i hk
      rw [hothers j fun h => hk h.symm, List.nil_append]
  have hbetween : t.between i j = s.between i j := by
    funext b
    rw [Net.between, Net.between, hidi, hidj]
  have haddr : ∀ ms, t.addressed i j ms = s.addressed i j ms := fun ms => by
    rw [Net.addressed, Net.addressed, hidi, hidj]
  have hsends : s.sends i j (.client k e) =
      s.addressed i j (if k = i then e.queued (s.ends i).clt else []) := by
    show (if k = i then _ else _) = _
    split <;> rfl
  have hgets : s.gets i j (.client k e) =
      (if k = j then e.handed (s.ends j).clt else []).filter (s.between i j) := by
    show (if k = j then _ else _) = _
    split <;> rfl
  rw [Passes, hsends, hgets, Net.inTransit, Net.inTransit, hupi, hdownj, hbetween, haddr,
    Net.addressed_append, List.filter_append]
  simp only [List.append_assoc]

/-- What the server does: messages move on, and the way stays the same. -/
theorem conveys_server [DecidableEq ι] {e : SrvEvent} (hij : i ≠ j) (hs : NetOk s)
    (hstep : (netLts ι).step s (.server e) t) (hlog : s.Both i j) (hlog' : t.Both i j) :
    (t.idOf i = s.idOf i ∧ t.idOf j = s.idOf j) ∧
      Passes (s.inTransit i j) (s.sends i j (.server e)) (s.gets i j (.server e))
        (t.inTransit i j) := by
  obtain ⟨hcount, hserved, hapart'⟩ := hstep
  obtain ⟨hok, hids⟩ := idsOk_inductive.invariant _ hs.srv
  obtain ⟨hok', -⟩ := idsOk_inductive.invariant _ (hs.srv.step hcount)
  obtain ⟨⟨fdA, a, hconnA, ha⟩, fdB, b, hconnB, hb⟩ := hlog
  obtain ⟨⟨fdA', a', hconnA', ha'⟩, fdB', b', hconnB', hb'⟩ := hlog'
  obtain ⟨hqA, hcltA, hgap, hupA, -⟩ := (hserved i).of_conn hconnA
  obtain ⟨hqB, hcltB, -, -, hdownB⟩ := (hserved j).of_conn hconnB
  obtain rfl : fdA = fdA' := Option.some.inj (hqA.symm.trans hconnA')
  obtain rfl : fdB = fdB' := Option.some.inj (hqB.symm.trans hconnB')
  have hne : fdA ≠ fdB := by
    rintro rfl
    exact hij (hs.apart i j fdA hconnA hconnB)
  obtain ⟨hida, hidb, new, ms, hnew, hms, hrx, htx, hf⟩ :=
    relay_step hok hids hcount.1.1 hcount.1.2.2 hgap hne ha hb ha' hb'
  have hslotA := Endpoint.slot_of_at hok hconnA ha.1
  have hslotB := Endpoint.slot_of_at hok hconnB hb.1
  have hslotA' := Endpoint.slot_of_at hok' hqA ha'.1
  have hslotB' := Endpoint.slot_of_at hok' hqB hb'.1
  have hidsA : s.idOf i = (s.srv.clients a).id := by rw [Net.idOf, hslotA]; rfl
  have hidsB : s.idOf j = (s.srv.clients b).id := by rw [Net.idOf, hslotB]; rfl
  have hidtA : t.idOf i = (s.srv.clients a).id := by rw [Net.idOf, hslotA', ← hida]; rfl
  have hidtB : t.idOf j = (s.srv.clients b).id := by rw [Net.idOf, hslotB', ← hidb]; rfl
  refine ⟨⟨hidtA.trans hidsA.symm, hidtB.trans hidsB.symm⟩, ?_⟩
  -- The complete messages leave one stream, and their copies enter the other.
  have hup : (s.ends i).upward s.srv = new.flatten ++ (t.ends i).upward t.srv := by
    rw [Endpoint.upward, Endpoint.upward, hslotA, hslotA', Option.elim_some, Option.elim_some, hupA,
      hcltA, List.append_assoc, ← List.append_assoc, hrx, List.append_assoc]
  have hdown : (t.ends j).downward t.srv = (s.ends j).downward s.srv ++ ms.flatten := by
    rw [Endpoint.downward, Endpoint.downward, hslotB, hslotB', Option.elim_some, Option.elim_some,
      hdownB, hcltB, List.append_assoc (s.ends j).down, htx]
    simp only [List.append_assoc]
  have hframesU : msgFormat.frames ((s.ends i).upward s.srv) =
      new ++ msgFormat.frames ((t.ends i).upward t.srv) := by
    rw [hup, (frames_flatten_append hnew _).1]
  have hframesD : msgFormat.frames ((t.ends j).downward t.srv) =
      msgFormat.frames ((s.ends j).downward s.srv) ++ ms := by
    rw [hdown, (hs.ends j).down.frames_append, frames_flatten_whole hms]
  have hbetween : ∀ l : List Bytes, l.filter (t.between i j) = l.filter (s.between i j) := by
    intro l
    refine List.filter_congr fun x _ => ?_
    rw [Net.between, Net.between, hidtA, hidtB, hidsA, hidsB]
  have haddr : ∀ l, t.addressed i j l = s.addressed i j l := fun l => by
    rw [Net.addressed, Net.addressed, hidtA, hidtB, hidsA, hidsB]
  have hcopies : ms.filter (s.between i j) = s.addressed i j new := by
    rw [Net.addressed, hidsA, hidsB, ← hf]
    refine List.filter_congr fun x _ => ?_
    rw [Net.between, hidsA, hidsB]
  show [] ++ t.inTransit i j = s.inTransit i j ++ []
  rw [List.nil_append, List.append_nil, Net.inTransit, Net.inTransit, hframesU, hframesD, hbetween,
    haddr, Net.addressed_append, List.filter_append, hcopies, List.append_assoc]

end Steps

/-! ## Runs -/

/-- While both are logged in, the way from one client to the other is a channel. -/
theorem conveys [DecidableEq ι] {i j : ι} (hij : i ≠ j) :
    Conveys ((netLts ι).within (Net.Both i j)) (fun s => NetOk s ∧ s.Both i j)
      (Net.inTransit i j) (Net.sends i j) (Net.gets i j) where
  keeps := fun s e t hs hstep => ⟨(netOk_inductive ι).step s e t hs.1 hstep.1, hstep.2⟩
  step := fun s e t hs hstep => by
    cases e with
    | client k e => exact (conveys_client hij hs.1 hstep.1).2
    | server e => exact (conveys_server hij hs.1 hstep.1 hs.2 hstep.2).2

/-- **Messages between clients arrive**, once each, in order, complete and under the id of
their sender, and no others do: while both are logged in, what one handles of the other and
what is then on its way is what was on its way before and what the other has composed since. -/
theorem messages_in_order [DecidableEq ι] {i j : ι} (hij : i ≠ j) {s t : Net ι}
    {es : List (NetEvent ι)} {o : Traffic Bytes} (hs : (netLts ι).Reachable s) (hlog : s.Both i j)
    (hrun : (((netLts ι).within (Net.Both i j)).observe .none
      (Traffic.note (Net.sends i j) (Net.gets i j))).Run (s, .none) es (t, o)) :
    o.got ++ t.inTransit i j = s.inTransit i j ++ o.sent :=
  (conveys hij).run hrun ⟨(netOk_inductive ι).invariant s hs, hlog⟩

/-! ## A message between two clients -/

instance (s : Net ι) (i : ι) : Decidable (s.LoggedIn i) :=
  decidable_of_iff ((s.ends i).conn.any fun fd => decide (∃ k ∈ s.srv.slots, Present s.srv fd k)) <| by
    rw [Option.any_eq_true]
    constructor
    · rintro ⟨fd, hfd, h⟩
      obtain ⟨k, -, hk⟩ := of_decide_eq_true h
      exact ⟨fd, k, hfd, hk⟩
    · rintro ⟨fd, k, hfd, hk⟩
      exact ⟨fd, hfd, decide_eq_true ⟨k, Server.mem_slots.mpr hk.1.1.1, hk⟩⟩

instance (s : Net ι) (i j : ι) : Decidable (s.Both i j) := inferInstanceAs (Decidable (_ ∧ _))

/-- The steps after which both are logged in. -/
def bothTry (i j : Bool) (s : Net Bool) (e : NetEvent Bool) : Option (Net Bool) :=
  (netTry s e).filter fun t => decide (t.Both i j)

theorem bothTry_step {i j : Bool} (s : Net Bool) (e : NetEvent Bool) (t : Net Bool)
    (h : bothTry i j s e = some t) : ((netLts Bool).within (Net.Both i j)).step s e t := by
  obtain ⟨ht, hboth⟩ := Option.filter_eq_some_iff.mp h
  exact ⟨netTry_step s e t ht, of_decide_eq_true hboth⟩

/-- The first client pings the second one twice; the second ping is still on its way when the
first has been handled. -/
def pingBoth : List (Net Bool → NetEvent Bool) :=
  [fun _ => .client false (.cmd (.ping 2 (some (ascii "a"))) demoEnv),
    fun _ => .client false (.cmd (.ping 2 (some (ascii "b"))) demoEnv),
    fun _ => .client false (.write (.sent 7))] ++ sendUp false 0 ++ sendDown true 1

theorem messages_in_order_pings : ∃ (s t : Net Bool) (o : Traffic Bytes),
    o.got.length = 1 ∧ o.sent.length = 2 ∧ (t.inTransit false true).length = 1 ∧
      o.got ++ t.inTransit false true = s.inTransit false true ++ o.sent := by
  have hexec : ((Lts.script netTry demoNet loginBoth).any fun s => decide (s.Both false true) &&
      (Lts.script (Lts.observeFun (bothTry false true)
        (Traffic.note (Net.sends false true) (Net.gets false true))) (s, .none)
        (pingBoth.map fun g s => g s.1)).any fun t => t.2.got.length == 1 && t.2.sent.length == 2 &&
          (t.1.inTransit false true).length == 1) = true := by
    decide +kernel
  obtain ⟨es, s, hrun, hp⟩ := Lts.run_of_script netTry_step hexec
  rw [Bool.and_eq_true, decide_eq_true_eq] at hp
  obtain ⟨es', ⟨t, o⟩, hrun', hq⟩ := Lts.run_of_script (Lts.observeFun_step bothTry_step) hp.2
  simp only [Bool.and_eq_true, beq_iff_eq] at hq
  exact ⟨s, t, o, hq.1.1, hq.1.2, hq.2, messages_in_order (by decide)
    ((Lts.Reachable.init demoNet_init).run hrun) hp.1 hrun'⟩

end Frelay
