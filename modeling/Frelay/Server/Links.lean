import Frelay.Server.Requests
import Frelay.Lib.Queues

/-!
# Send queues and descriptor sets

A send queue of the server is a linked list of message buffers, of which the client
table keeps `qhead` and `qtail`; beside it stand the sets `m_rfds` and `m_wfds`. Here
every function of the source that touches them is followed pointer by pointer.

* `Linked` — how the pointers, the sets and the client table belong together;
* `Linked.step` — no event follows a null or dangling pointer, and every event keeps
  them together.
-/

namespace Frelay

open Lib

/-! ## The functions that follow pointers -/

/-- The message buffers in use, `qhead` and `qtail` of every slot, and `m_wfds`. -/
structure Links where
  heap : Heap Mbuf
  queue : Nat → Queue
  mWfds : Int → Bool

namespace Links

/-- No buffers, as `memset` leaves the client table. -/
def initial : Links := { heap := .empty, queue := fun _ => ⟨none, none⟩, mWfds := fun _ => false }

/-- `enqueue_msg` of the message `m`, whose buffer is at `a`. -/
def enqueueMsg (l : Links) (s : Server) (i a : Nat) (m : Mbuf) : Option Links :=
  ((l.queue i).enqueue l.heap a { m with boff := 0 }).map fun r =>
    { heap := r.1
      queue := Function.update l.queue i r.2
      mWfds := Function.update l.mWfds (s.clients i).fd true }

/-- `dequeue_msg`. -/
def dequeueMsg (l : Links) (s : Server) (i : Nat) : Option Links :=
  ((l.queue i).dequeue l.heap).map fun r =>
    { heap := r.1
      queue := Function.update l.queue i r.2
      mWfds := if r.2.head = none then Function.update l.mWfds (s.clients i).fd false
        else l.mWfds }

/-- `close_client`: free the buffers of the queue. -/
def closeClient (l : Links) (s : Server) (i : Nat) : Option Links :=
  (l.heap.freeFrom l.heap.size (l.queue i).head).map fun h =>
    { heap := h
      queue := Function.update l.queue i ⟨none, none⟩
      mWfds := Function.update l.mWfds (s.clients i).fd false }

/-- `accept_client`: the slot that is adopted has an empty queue. -/
def acceptClient (l : Links) (s : Server) (fd : Int) (nonblocking : Bool) : Links :=
  if fd = -1 then l
  else if FD_SETSIZE ≤ fd then l
  else if !nonblocking then l
  else
    match s.slots.find? fun i => !(0 ≤ (s.clients i).fd : Bool) with
    | none => l
    | some i => { l with queue := Function.update l.queue i ⟨none, none⟩ }

/-- The first half of a turn of the loop of `upkeep`. -/
def upkeepExpire (now : Int) (l : Links) (s : Server) (i : Nat) : Option Links :=
  let c := s.clients i
  if 0 ≤ c.fd then
    if s.cfg.connTimeout < now - c.act then l.closeClient s i else some l
  else some l

/-- The second half: the structure is copied with its pointers. -/
def upkeepBudge (l : Links) (s : Server) (i j : Nat) : Links :=
  if 0 ≤ (s.clients i).fd then
    if j ≠ i then { l with queue := Function.update l.queue j (l.queue i) } else l
  else l

/-- The loop of `upkeep`, along with what it does to the client table. -/
def upkeepFrom (now : Int) : List Nat → Server × Nat → Links → Option Links
  | [], _, l => some l
  | i :: is, (s, j), l =>
      (l.upkeepExpire now s i).bind fun l =>
        let s := Frelay.upkeepExpire now s i
        upkeepFrom now is (Frelay.upkeepBudge s i j) (l.upkeepBudge s i j)

/-- `upkeep`. -/
def upkeep (now : Int) (l : Links) (s : Server) : Option Links :=
  l.upkeepFrom now s.slots ({ s with maxfd := s.listenfd }, 0)

/-- The loop of `case MSG_TYPE_AUTH_REQ` that closes other sessions. -/
def kickOthers (i : Nat) : List Nat → Server → Links → Option Links
  | [], _, l => some l
  | j :: js, s, l =>
      if (s.clients i).id = (s.clients j).id ∧ i ≠ j ∧ 0 ≤ (s.clients j).fd then
        (l.closeClient s j).bind fun l => kickOthers i js (Frelay.closeClient s j) l
      else kickOthers i js s l

/-- `process_msg` on the message `m` of slot `i`: its buffer, at `a`, moves into the
queue of the slot it is forwarded to; or it becomes the answer, and moves into the
queue of its sender. -/
def processMsg (env : MsgEnv) (l : Links) (s : Server) (i a : Nat) (m : Mbuf) : Option Links :=
  let m := fillSrcid (s.clients i) m
  match route s i m with
  | some j => l.enqueueMsg s j a m
  | none =>
      (if Authenticates env s i m then l.kickOthers i s.slots s else some l).bind fun l =>
        match dispatchMsg env s i m with
        | some (u, some r) => l.enqueueMsg u i a r
        | _ => some l

/-- The read half of a turn of `handle_io`. -/
def readClient (env : MsgEnv) (l : Links) (s : Server) (i a : Nat) (now : Int) (res : ReadRes) :
    Option Links :=
  match readOutcome (slotBuffer s i now) res with
  | .disconnect => l.closeClient s i
  | .complete m => l.processMsg env (s.setClient i (opened s i now)) i a m
  | _ => some l

/-- The write half of a turn of `handle_io`: it follows `qhead`. -/
def writeClient (l : Links) (s : Server) (i : Nat) (res : WriteRes) : Option Links :=
  (l.queue i).head.bind fun a => (l.heap.block a).bind fun b =>
    match writeOutcome b.val res with
    | .disconnect => l.closeClient s i
    | .again => some l
    | .sent m =>
        let l := { l with heap := l.heap.store a { b with val := m } }
        if m.boff = m.bsize then l.dequeueMsg s i else some l

/-- `malloc` returns an address that is not in use. -/
def Fresh (l : Links) (a : Nat) : SrvEvent → Prop
  | .read _ _ _ _ => l.heap.block a = none
  | _ => True

/-- What an event does. A message that is received is in the buffer at `a`. -/
def step (l : Links) (s : Server) (a : Nat) : SrvEvent → Option Links
  | .accept fd nonblocking _ => some (l.acceptClient s fd nonblocking)
  | .read i now res env => l.readClient env s i a now res
  | .write i _ res => l.writeClient s i res
  | .upkeep now => l.upkeep now s
  | .motd _ => some l

end Links

/-! ## The invariant -/

/-- The pointers, the sets and the table belong together: every live slot has the
queue that its pointers lead through, no two share a buffer, both sets are those of
the table, and descriptors are distinct. -/
structure Linked (s : Server) (l : Links) : Prop where
  queues : ∃ c, Separate s.Live l.heap l.queue c ∧
    ∀ i, s.Live i → (c i).map Prod.snd = (s.clients i).q
  mWfds : l.mWfds = s.mWfds
  rfds : ∀ fd, s.mRfds fd = true ↔ fd = s.listenfd ∨ ∃ i, s.Live i ∧ (s.clients i).fd = fd
  wfds : ∀ fd, s.mWfds fd = true ↔
    ∃ i, s.Live i ∧ (s.clients i).fd = fd ∧ (s.clients i).q ≠ []
  listen : ∀ i, s.Live i → (s.clients i).fd ≠ s.listenfd
  distinct : ∀ i j, s.Live i → s.Live j → (s.clients i).fd = (s.clients j).fd → i = j

/-- What `Linked` sees of the server. -/
structure SameTable (s t : Server) : Prop where
  cfg : t.cfg = s.cfg
  listenfd : t.listenfd = s.listenfd
  mRfds : t.mRfds = s.mRfds
  mWfds : t.mWfds = s.mWfds
  slot : ∀ i, (t.clients i).fd = (s.clients i).fd ∧ (t.clients i).q = (s.clients i).q

namespace SameTable

variable {s t : Server}

theorem live (h : SameTable s t) (i : Nat) : t.Live i ↔ s.Live i := by
  rw [Server.Live, Server.Live, h.cfg, (h.slot i).1]

/-- A slot may change in every other field. -/
theorem setClient (s : Server) {i : Nat} {c : Client} (hfd : c.fd = (s.clients i).fd)
    (hq : c.q = (s.clients i).q) : SameTable s (s.setClient i c) := by
  refine ⟨rfl, rfl, rfl, rfl, ?_⟩
  intro j
  by_cases hj : j = i
  · rw [hj, Server.setClient_self]
    exact ⟨hfd, hq⟩
  · rw [Server.setClient_of_ne _ _ hj]
    exact ⟨rfl, rfl⟩

end SameTable

theorem Linked.congr {s t : Server} {l : Links} (h : Linked s l) (hst : SameTable s t) :
    Linked t l := by
  have hlive := fun i => hst.live i
  have hfd := fun i => (hst.slot i).1
  have hq := fun i => (hst.slot i).2
  obtain ⟨c, hc, hval⟩ := h.queues
  refine ⟨⟨c, hc.mono fun i hi => (hlive i).mp hi, fun i hi => ?_⟩, ?_, ?_, ?_, ?_, ?_⟩
  · rw [hq i]
    exact hval i ((hlive i).mp hi)
  · rw [hst.mWfds]
    exact h.mWfds
  · simpa only [hst.mRfds, hst.listenfd, hlive, hfd] using h.rfds
  · simpa only [hst.mWfds, hlive, hfd, hq] using h.wfds
  · simpa only [hst.listenfd, hlive, hfd] using h.listen
  · simpa only [hlive, hfd] using h.distinct

/-! ## Single operations -/

section Operations

variable {s : Server} {l : Links}

/-- The queue of a live slot, by address and value. -/
theorem Linked.chain (h : Linked s l) {i : Nat} (hi : s.Live i) :
    ∃ r, (l.queue i).Holds l.heap r ∧ r.map Prod.snd = (s.clients i).q := by
  obtain ⟨c, hc, hval⟩ := h.queues
  exact ⟨c i, hc.holds i hi, hval i hi⟩

/-- The sets after the queue of slot `i` has changed, with `m_wfds` following it. -/
private theorem Linked.requeue (h : Linked s l) {i : Nat} (hi : s.Live i) {l' : Links} {t : Server}
    {q : List Mbuf} (ht : t = { s.setClient i { s.clients i with q := q } with mWfds := t.mWfds })
    (hqueues : ∃ c, Separate s.Live l'.heap l'.queue c ∧
      ∀ j, s.Live j → (c j).map Prod.snd = (t.clients j).q)
    (hsame : l'.mWfds = t.mWfds)
    (hself : t.mWfds (s.clients i).fd = true ↔ q ≠ [])
    (hothers : ∀ fd, fd ≠ (s.clients i).fd → t.mWfds fd = s.mWfds fd) : Linked t l' := by
  have hc : t.clients = (s.setClient i { s.clients i with q := q }).clients := by rw [ht]
  have hcfg : t.cfg = s.cfg := by rw [ht]; rfl
  have hlfd : t.listenfd = s.listenfd := by rw [ht]; rfl
  have hrfds : t.mRfds = s.mRfds := by rw [ht]; rfl
  have hfd : ∀ j, (t.clients j).fd = (s.clients j).fd := by
    intro j
    rw [hc]
    by_cases hj : j = i
    · rw [hj, Server.setClient_self]
    · rw [Server.setClient_of_ne _ _ hj]
  have hlive : ∀ j, t.Live j ↔ s.Live j := fun j => by rw [Server.Live, Server.Live, hcfg, hfd]
  have hq : ∀ j, j ≠ i → (t.clients j).q = (s.clients j).q := fun j hj => by
    rw [hc, Server.setClient_of_ne _ _ hj]
  have hqi : (t.clients i).q = q := by rw [hc, Server.setClient_self]
  obtain ⟨c, hsep, hval⟩ := hqueues
  refine ⟨⟨c, hsep.mono fun j hj => (hlive j).mp hj, fun j hj => hval j ((hlive j).mp hj)⟩, hsame,
    ?_, ?_, ?_, ?_⟩
  · simpa only [hrfds, hlfd, hlive, hfd] using h.rfds
  · intro fd
    simp only [hlive, hfd]
    by_cases hfdi : fd = (s.clients i).fd
    · subst hfdi
      rw [hself]
      constructor
      · exact fun hne => ⟨i, hi, rfl, by rwa [hqi]⟩
      · -- Descriptors tell the live slots apart.
        rintro ⟨j, hj, hjfd, hjq⟩
        rw [h.distinct j i hj hi hjfd, hqi] at hjq
        exact hjq
    · rw [hothers fd hfdi, h.wfds fd]
      constructor
      · rintro ⟨j, hj, hjfd, hjq⟩
        have hji : j ≠ i := fun hji => hfdi (by rw [← hjfd, hji])
        exact ⟨j, hj, hjfd, by rwa [hq j hji]⟩
      · rintro ⟨j, hj, hjfd, hjq⟩
        have hji : j ≠ i := fun hji => hfdi (by rw [← hjfd, hji])
        exact ⟨j, hj, hjfd, by rwa [hq j hji] at hjq⟩
  · simpa only [hlfd, hlive, hfd] using h.listen
  · simpa only [hlive, hfd] using h.distinct

/-- `enqueue_msg`. -/
theorem Linked.enqueueMsg (h : Linked s l) {i a : Nat} (hi : s.Live i) (ha : l.heap.block a = none)
    (m : Mbuf) : ∃ l', l.enqueueMsg s i a m = some l' ∧ Linked (enqueueMsg s i m) l' := by
  obtain ⟨c, hc, hval⟩ := h.queues
  obtain ⟨hp, q', heq, hsep⟩ := hc.enqueue hi ha { m with boff := 0 }
  refine ⟨_, by rw [Links.enqueueMsg, heq, Option.map_some], ?_⟩
  refine h.requeue hi (q := (s.clients i).q ++ [{ m with boff := 0 }]) rfl ⟨_, hsep, ?_⟩ ?_ ?_ ?_
  · intro j hj
    rw [enqueueMsg_clients]
    by_cases hji : j = i
    · subst hji
      rw [Function.update_self, if_pos rfl, List.map_append, hval j hj]
      rfl
    · rw [Function.update_of_ne hji, if_neg hji]
      exact hval j hj
  · show Function.update l.mWfds _ _ = Function.update s.mWfds _ _
    rw [h.mWfds]
  · refine iff_of_true (Function.update_self _ _ _) (by simp)
  · exact fun fd hfd => Function.update_of_ne hfd _ _

/-- `dequeue_msg` on a queue that is not empty. -/
theorem Linked.dequeueMsg (h : Linked s l) {i : Nat} (hi : s.Live i) {m : Mbuf} {q : List Mbuf}
    (hq : (s.clients i).q = m :: q) :
    ∃ l', l.dequeueMsg s i = some l' ∧ Linked (dequeueMsg s i) l' := by
  obtain ⟨c, hc, hval⟩ := h.queues
  have hci := hval i hi
  rw [hq] at hci
  obtain ⟨⟨a, x⟩, r, hcr, rfl, hr⟩ := List.map_eq_cons_iff.mp hci
  obtain ⟨hp, q', heq, hsep⟩ := hc.dequeue hi hcr
  have hhead : q'.head = none ↔ q = [] := by
    have hnew := (hsep.holds i hi).chain.eq_none_iff
    rw [Function.update_self, Function.update_self] at hnew
    rw [hnew, ← hr, List.map_eq_nil_iff]
  have hself : (Function.update s.mWfds (s.clients i).fd false) (s.clients i).fd = false :=
    Function.update_self _ _ _
  have ht : (Frelay.dequeueMsg s i).mWfds =
      if q = [] then Function.update s.mWfds (s.clients i).fd false else s.mWfds := by
    simp only [Frelay.dequeueMsg, hq, List.tail_cons]
  refine ⟨_, by rw [Links.dequeueMsg, heq, Option.map_some], ?_⟩
  refine h.requeue hi (q := q) (by simp only [Frelay.dequeueMsg, hq, List.tail_cons])
    ⟨_, hsep, ?_⟩ ?_ ?_ ?_
  · intro j hj
    by_cases hji : j = i
    · subst hji
      simp only [Frelay.dequeueMsg, Function.update_self, Server.setClient_self, hq, List.tail_cons]
      exact hr
    · simp only [Frelay.dequeueMsg, Function.update_of_ne hji]
      rw [Server.setClient_of_ne _ _ hji]
      exact hval j hj
  · rw [ht]
    simp only [hhead, h.mWfds]
  · rw [ht]
    by_cases hnil : q = []
    · rw [if_pos hnil, hself]
      simp [hnil]
    · rw [if_neg hnil, h.wfds]
      exact iff_of_true ⟨i, hi, rfl, by rw [hq]; exact List.cons_ne_nil _ _⟩ hnil
  · intro fd hfd
    rw [ht]
    split
    · exact Function.update_of_ne hfd _ _
    · rfl

/-- The first message of a queue is partly sent: its buffer is written. -/
theorem Linked.store (h : Linked s l) {i : Nat} (hi : s.Live i) {m x : Mbuf} {q : List Mbuf}
    (hq : (s.clients i).q = m :: q) {a : Nat} {b : Block Mbuf} (ha : (l.queue i).head = some a)
    (hb : l.heap.block a = some b) :
    Linked (s.setClient i { s.clients i with q := x :: q })
      { l with heap := l.heap.store a { b with val := x } } := by
  obtain ⟨c, hc, hval⟩ := h.queues
  have hci := hval i hi
  rw [hq] at hci
  obtain ⟨⟨a', y⟩, r, hcr, rfl, hr⟩ := List.map_eq_cons_iff.mp hci
  have hfirst := hc.holds i hi
  rw [hcr] at hfirst
  obtain ⟨hhead, n, hblk⟩ := hfirst.first
  cases ha.symm.trans hhead
  cases hb.symm.trans hblk
  refine h.requeue hi (q := x :: q) rfl ⟨_, hc.store (y := x) hi hcr hblk, ?_⟩ h.mWfds ?_ ?_
  · intro j hj
    by_cases hji : j = i
    · subst hji
      rw [Function.update_self, Server.setClient_self, List.map_cons, hr]
    · rw [Function.update_of_ne hji, Server.setClient_of_ne _ _ hji]
      exact hval j hj
  · refine iff_of_true ((h.wfds _).mpr ⟨i, hi, rfl, ?_⟩) (List.cons_ne_nil _ _)
    rw [hq]
    exact List.cons_ne_nil _ _
  · exact fun _ _ => rfl

theorem closeClient_live {i : Nat} (j : Nat) :
    (closeClient s i).Live j ↔ s.Live j ∧ j ≠ i := by
  by_cases hj : j = i
  · subst hj
    refine iff_of_false (fun hl => ?_) (fun hl => hl.2 rfl)
    have hneg := hl.2
    simp only [closeClient, Server.setClient_self] at hneg
    exact absurd hneg (by decide)
  · rw [and_iff_left hj, Server.Live, Server.Live]
    simp only [closeClient, Server.setClient_of_ne _ _ hj]
    rfl

theorem closeClient_clients {i j : Nat} (hj : j ≠ i) :
    (closeClient s i).clients j = s.clients j := Server.setClient_of_ne _ _ hj

/-- `close_client`. -/
theorem Linked.closeClient (h : Linked s l) {i : Nat} (hi : s.Live i) :
    ∃ l', l.closeClient s i = some l' ∧ Linked (closeClient s i) l' := by
  obtain ⟨c, hc, hval⟩ := h.queues
  obtain ⟨hp, heq, hsep⟩ := hc.free hi
  have hlive : ∀ j, (Frelay.closeClient s i).Live j ↔ s.Live j ∧ j ≠ i := closeClient_live
  have hsame : ∀ {j}, j ≠ i → (Frelay.closeClient s i).clients j = s.clients j :=
    closeClient_clients
  refine ⟨_, by rw [Links.closeClient, heq, Option.map_some], ?_⟩
  -- In this order: queues, write set, who is in the read set, who waits to write, listening,
  -- distinct.
  refine ⟨⟨Function.update c i [], hsep.empty fun j hj hji => ?_, fun j hj => ?_⟩, ?_, ?_, ?_, ?_, ?_⟩
  · exact (hlive j).mp hj
  · obtain ⟨hj', hji⟩ := (hlive j).mp hj
    rw [Function.update_of_ne hji, hsame hji]
    exact hval j hj'
  · show Function.update l.mWfds _ _ = Function.update s.mWfds _ _
    rw [h.mWfds]
  · intro fd
    show Function.update s.mRfds (s.clients i).fd false fd = true ↔ _
    by_cases hfd : fd = (s.clients i).fd
    · subst hfd
      rw [Function.update_self]
      refine iff_of_false Bool.false_ne_true ?_
      rintro (heq | ⟨j, hj, hjfd⟩)
      · exact h.listen i hi heq
      · obtain ⟨hj', hji⟩ := (hlive j).mp hj
        rw [hsame hji] at hjfd
        exact hji (h.distinct j i hj' hi hjfd)
    · rw [Function.update_of_ne hfd, h.rfds fd]
      refine or_congr Iff.rfl ⟨?_, ?_⟩
      · rintro ⟨j, hj, hjfd⟩
        have hji : j ≠ i := fun hji => hfd (by rw [← hjfd, hji])
        exact ⟨j, (hlive j).mpr ⟨hj, hji⟩, by rw [hsame hji]; exact hjfd⟩
      · rintro ⟨j, hj, hjfd⟩
        obtain ⟨hj', hji⟩ := (hlive j).mp hj
        rw [hsame hji] at hjfd
        exact ⟨j, hj', hjfd⟩
  · intro fd
    show Function.update s.mWfds (s.clients i).fd false fd = true ↔ _
    by_cases hfd : fd = (s.clients i).fd
    · subst hfd
      rw [Function.update_self]
      refine iff_of_false Bool.false_ne_true ?_
      rintro ⟨j, hj, hjfd, -⟩
      obtain ⟨hj', hji⟩ := (hlive j).mp hj
      rw [hsame hji] at hjfd
      exact hji (h.distinct j i hj' hi hjfd)
    · rw [Function.update_of_ne hfd, h.wfds fd]
      constructor
      · rintro ⟨j, hj, hjfd, hjq⟩
        have hji : j ≠ i := fun hji => hfd (by rw [← hjfd, hji])
        exact ⟨j, (hlive j).mpr ⟨hj, hji⟩, by rw [hsame hji]; exact ⟨hjfd, hjq⟩⟩
      · rintro ⟨j, hj, hjfd⟩
        obtain ⟨hj', hji⟩ := (hlive j).mp hj
        rw [hsame hji] at hjfd
        exact ⟨j, hj', hjfd⟩
  · intro j hj
    obtain ⟨hj', hji⟩ := (hlive j).mp hj
    rw [hsame hji]
    exact h.listen j hj'
  · intro j k hj hk hjk
    obtain ⟨hj', hji⟩ := (hlive j).mp hj
    obtain ⟨hk', hki⟩ := (hlive k).mp hk
    rw [hsame hji, hsame hki] at hjk
    exact h.distinct j k hj' hk' hjk

/-- A slot that is not in use adopts a connection. -/
theorem Linked.connect (h : Linked s l) {i : Nat} {new : Client} {t : Server} {fd : Int}
    (hi : i < s.cfg.maxClients) (hdead : ¬ s.Live i) (hnfd : new.fd = fd) (hnq : new.q = [])
    (h0 : 0 ≤ fd) (hlisten : fd ≠ s.listenfd) (hnew : ∀ j, s.Live j → (s.clients j).fd ≠ fd)
    (ht : t = { s.setClient i new with
      mRfds := Function.update s.mRfds fd true, maxfd := max s.maxfd fd }) :
    Linked t { l with queue := Function.update l.queue i ⟨none, none⟩ } := by
  have hself : t.clients i = new := by rw [ht]; exact Server.setClient_self s i new
  have hother : ∀ {j}, j ≠ i → t.clients j = s.clients j := fun hj => by
    rw [ht]
    exact Server.setClient_of_ne s new hj
  have hcfg : t.cfg = s.cfg := by rw [ht]; rfl
  have hlfd : t.listenfd = s.listenfd := by rw [ht]; rfl
  have hwfds : t.mWfds = s.mWfds := by rw [ht]; rfl
  have hrfds : t.mRfds = Function.update s.mRfds fd true := by rw [ht]
  -- The live slots are those of before, and the one that adopts the connection.
  have hlive : ∀ j, t.Live j ↔ j = i ∨ s.Live j := by
    intro j
    by_cases hj : j = i
    · subst hj
      exact iff_of_true ⟨by rw [hcfg]; exact hi, by rw [hself, hnfd]; exact h0⟩ (.inl rfl)
    · rw [Server.Live, Server.Live, hcfg, hother hj]
      simp [hj]
  have hne : ∀ {j}, s.Live j → j ≠ i := fun hj hji => hdead (hji ▸ hj)
  obtain ⟨c, hc, hval⟩ := h.queues
  refine ⟨⟨Function.update c i [], hc.empty fun j hj hji => ?_, ?_⟩, ?_, ?_, ?_, ?_, ?_⟩
  · exact ((hlive j).mp hj).resolve_left hji
  · intro j hj
    rcases (hlive j).mp hj with rfl | hj'
    · rw [Function.update_self, hself, hnq]
      rfl
    · rw [Function.update_of_ne (hne hj'), hother (hne hj')]
      exact hval j hj'
  · rw [hwfds]
    exact h.mWfds
  · intro x
    rw [hrfds, hlfd]
    by_cases hx : x = fd
    · rw [hx, Function.update_self]
      exact iff_of_true rfl (.inr ⟨i, (hlive i).mpr (.inl rfl), by rw [hself, hnfd]⟩)
    · rw [Function.update_of_ne hx, h.rfds x]
      refine or_congr Iff.rfl ⟨?_, ?_⟩
      · rintro ⟨j, hj, hjx⟩
        exact ⟨j, (hlive j).mpr (.inr hj), by rw [hother (hne hj)]; exact hjx⟩
      · rintro ⟨j, hj, hjx⟩
        rcases (hlive j).mp hj with rfl | hj'
        · rw [hself, hnfd] at hjx
          exact absurd hjx.symm hx
        · rw [hother (hne hj')] at hjx
          exact ⟨j, hj', hjx⟩
  · intro x
    rw [hwfds, h.wfds x]
    constructor
    · rintro ⟨j, hj, hjx⟩
      exact ⟨j, (hlive j).mpr (.inr hj), by rw [hother (hne hj)]; exact hjx⟩
    · rintro ⟨j, hj, hjx, hjq⟩
      rcases (hlive j).mp hj with rfl | hj'
      · rw [hself] at hjq
        exact absurd hnq hjq
      · rw [hother (hne hj')] at hjx hjq
        exact ⟨j, hj', hjx, hjq⟩
  · intro j hj
    rw [hlfd]
    rcases (hlive j).mp hj with rfl | hj'
    · rw [hself, hnfd]
      exact hlisten
    · rw [hother (hne hj')]
      exact h.listen j hj'
  · intro j k hj hk hjk
    rcases (hlive j).mp hj with rfl | hj' <;> rcases (hlive k).mp hk with rfl | hk'
    · rfl
    · rw [hself, hnfd, hother (hne hk')] at hjk
      exact absurd hjk.symm (hnew k hk')
    · rw [hself, hnfd, hother (hne hj')] at hjk
      exact absurd hjk (hnew j hj')
    · rw [hother (hne hj'), hother (hne hk')] at hjk
      exact h.distinct j k hj' hk' hjk

/-- `accept_client` of a descriptor that is not open. -/
theorem Linked.acceptClient (h : Linked s l) {fd : Int} (nonblocking : Bool) (now : Int)
    (hfd : fd = -1 ∨ (0 ≤ fd ∧ fd ≠ s.listenfd ∧ ∀ i, s.Live i → (s.clients i).fd ≠ fd)) :
    Linked (acceptClient s fd nonblocking now) (l.acceptClient s fd nonblocking) := by
  unfold Frelay.acceptClient Links.acceptClient
  by_cases hneg : fd = -1
  · rw [if_pos hneg, if_pos hneg]
    exact h
  rw [if_neg hneg, if_neg hneg]
  by_cases hbig : FD_SETSIZE ≤ fd
  · rw [if_pos hbig, if_pos hbig]
    exact h
  rw [if_neg hbig, if_neg hbig]
  cases nonblocking with
  | false => exact h
  | true =>
      rw [if_neg (by simp), if_neg (by simp)]
      cases hfind : s.slots.find? fun i => !(0 ≤ (s.clients i).fd : Bool) with
      | none => exact h
      | some i =>
          obtain ⟨h0, hlisten, hnew⟩ := hfd.resolve_left hneg
          obtain ⟨hmax, hdead⟩ := Server.free_slot hfind
          exact h.connect hmax hdead rfl rfl h0 hlisten hnew rfl

/-- A live slot is copied to one that is not in use, and vacated. -/
theorem Linked.move (h : Linked s l) {i j : Nat} (hi : s.Live i) (hj : ¬ s.Live j)
    (hmax : j < s.cfg.maxClients) {d : Client} (hd : d.fd = -1) {n : Int} :
    Linked ({ (s.setClient j (s.clients i)).setClient i d with maxfd := n })
      { l with queue := Function.update l.queue j (l.queue i) } := by
  have hji : j ≠ i := fun heq => hj (heq ▸ hi)
  generalize ht : ({ (s.setClient j (s.clients i)).setClient i d with maxfd := n } : Server) = t
  have hcfg : t.cfg = s.cfg := by rw [← ht]; rfl
  have hlfd : t.listenfd = s.listenfd := by rw [← ht]; rfl
  have hrfds : t.mRfds = s.mRfds := by rw [← ht]; rfl
  have hwfds : t.mWfds = s.mWfds := by rw [← ht]; rfl
  have hvacated : t.clients i = d := by rw [← ht]; exact Server.setClient_self _ i d
  have hcopy : t.clients j = s.clients i := by
    rw [← ht]
    exact (Server.setClient_of_ne _ d hji).trans (Server.setClient_self s j _)
  have hother : ∀ {k}, k ≠ i → k ≠ j → t.clients k = s.clients k := fun hki hkj => by
    rw [← ht]
    exact (Server.setClient_of_ne _ d hki).trans (Server.setClient_of_ne s _ hkj)
  have hlive : ∀ k, t.Live k ↔ k = j ∨ (s.Live k ∧ k ≠ i) := by
    intro k
    by_cases hkj : k = j
    · subst hkj
      exact iff_of_true ⟨by rw [hcfg]; exact hmax, by rw [hcopy]; exact hi.2⟩ (.inl rfl)
    · by_cases hki : k = i
      · subst hki
        refine iff_of_false (fun hl => ?_) (fun hl => hl.elim hkj fun hl => hl.2 rfl)
        have hneg := hl.2
        rw [hvacated, hd] at hneg
        exact absurd hneg (by decide)
      · rw [Server.Live, Server.Live, hcfg, hother hki hkj]
        simp [hkj, hki]
  have hne : ∀ {k}, s.Live k → k ≠ j := fun hk hkj => hj (hkj ▸ hk)
  -- The slots in use hold the same connections as before.
  have hsame : ∀ P : Client → Prop,
      (∃ k, t.Live k ∧ P (t.clients k)) ↔ ∃ k, s.Live k ∧ P (s.clients k) := by
    intro P
    constructor
    · rintro ⟨k, hk, hp⟩
      rcases (hlive k).mp hk with rfl | ⟨hk', hki⟩
      · exact ⟨i, hi, hcopy ▸ hp⟩
      · exact ⟨k, hk', hother hki (hne hk') ▸ hp⟩
    · rintro ⟨k, hk, hp⟩
      by_cases hki : k = i
      · subst hki
        exact ⟨j, (hlive j).mpr (.inl rfl), by rw [hcopy]; exact hp⟩
      · exact ⟨k, (hlive k).mpr (.inr ⟨hk, hki⟩), by rw [hother hki (hne hk)]; exact hp⟩
  obtain ⟨c, hc, hval⟩ := h.queues
  refine ⟨⟨Function.update c j (c i), hc.move hi fun k hk hkj => ?_, ?_⟩, ?_, ?_, ?_, ?_, ?_⟩
  · exact ((hlive k).mp hk).resolve_left hkj
  · intro k hk
    rcases (hlive k).mp hk with rfl | ⟨hk', hki⟩
    · rw [Function.update_self, hcopy]
      exact hval i hi
    · rw [Function.update_of_ne (hne hk'), hother hki (hne hk')]
      exact hval k hk'
  · rw [hwfds]
    exact h.mWfds
  · intro x
    rw [hrfds, hlfd, h.rfds x, hsame fun c => c.fd = x]
  · intro x
    rw [hwfds, h.wfds x, hsame fun c => c.fd = x ∧ c.q ≠ []]
  · intro k hk
    rw [hlfd]
    rcases (hlive k).mp hk with rfl | ⟨hk', hki⟩
    · rw [hcopy]
      exact h.listen i hi
    · rw [hother hki (hne hk')]
      exact h.listen k hk'
  · intro k m hk hm hkm
    rcases (hlive k).mp hk with rfl | ⟨hk', hki⟩ <;> rcases (hlive m).mp hm with rfl | ⟨hm', hmi⟩
    · rfl
    · rw [hcopy, hother hmi (hne hm')] at hkm
      exact absurd (h.distinct i m hi hm' hkm).symm hmi
    · rw [hcopy, hother hki (hne hk')] at hkm
      exact absurd (h.distinct k i hk' hi hkm) hki
    · rw [hother hki (hne hk'), hother hmi (hne hm')] at hkm
      exact h.distinct k m hk' hm' hkm

end Operations

/-! ## Loops -/

section Loops

variable {s : Server} {l : Links}

/-- The loop that closes other sessions. -/
theorem Linked.kickOthers (i : Nat) {js : List Nat} (h : Linked s l)
    (hjs : ∀ j ∈ js, j < s.cfg.maxClients) :
    ∃ l', l.kickOthers i js s = some l' ∧ Linked (kickOthers i js s) l' := by
  induction js generalizing s l with
  | nil => exact ⟨l, rfl, h⟩
  | cons j js ih =>
      have hmax := hjs j List.mem_cons_self
      have hrest : ∀ k ∈ js, k < s.cfg.maxClients := fun k hk => hjs k (List.mem_cons_of_mem _ hk)
      by_cases hc : (s.clients i).id = (s.clients j).id ∧ i ≠ j ∧ 0 ≤ (s.clients j).fd
      · obtain ⟨l₁, hl₁, hlinked⟩ := h.closeClient ⟨hmax, hc.2.2⟩
        obtain ⟨l₂, hl₂, hlinked'⟩ := ih hlinked hrest
        refine ⟨l₂, ?_, ?_⟩
        · rw [Links.kickOthers, if_pos hc, hl₁, Option.bind_some, hl₂]
        · rw [Frelay.kickOthers, if_pos hc]
          exact hlinked'
      · obtain ⟨l₂, hl₂, hlinked'⟩ := ih h hrest
        refine ⟨l₂, ?_, ?_⟩
        · rw [Links.kickOthers, if_neg hc, hl₂]
        · rw [Frelay.kickOthers, if_neg hc]
          exact hlinked'

/-- The first half of a turn of the loop of `upkeep`. -/
theorem Linked.upkeepExpire (h : Linked s l) (now : Int) {i : Nat} (hi : i < s.cfg.maxClients) :
    ∃ l', l.upkeepExpire now s i = some l' ∧ Linked (upkeepExpire now s i) l' ∧
      (upkeepExpire now s i).cfg = s.cfg ∧
      ∀ k, (upkeepExpire now s i).Live k → s.Live k := by
  unfold Links.upkeepExpire Frelay.upkeepExpire
  by_cases hfd : 0 ≤ (s.clients i).fd
  · simp only [if_pos hfd]
    by_cases hlate : s.cfg.connTimeout < now - (s.clients i).act
    · simp only [if_pos hlate]
      obtain ⟨l', hl', hlinked⟩ := h.closeClient ⟨hi, hfd⟩
      exact ⟨l', hl', hlinked, rfl, fun k hk => ((closeClient_live k).mp hk).1⟩
    · simp only [if_neg hlate]
      obtain ⟨hsame, -, hq, -⟩ := resyncClient_same s.cfg.msgTimeout (s.clients i) now
      have htable := SameTable.setClient s hsame hq
      exact ⟨l, rfl, h.congr htable, rfl, fun k hk => (htable.live k).mp hk⟩
  · simp only [if_neg hfd]
    exact ⟨l, rfl, h, trivial, fun k hk => hk⟩

/-- The second half. The slots from `j` up to `i` are not in use. -/
theorem Linked.upkeepBudge (h : Linked s l) {i j : Nat} (hi : i < s.cfg.maxClients) (hji : j ≤ i)
    (hfree : ∀ k, j ≤ k → k < i → ¬ s.Live k) :
    Linked (upkeepBudge s i j).1 (l.upkeepBudge s i j) ∧ (upkeepBudge s i j).1.cfg = s.cfg ∧
      (upkeepBudge s i j).2 ≤ i + 1 ∧
      ∀ k, (upkeepBudge s i j).2 ≤ k → k < i + 1 → ¬ (upkeepBudge s i j).1.Live k := by
  unfold Links.upkeepBudge Frelay.upkeepBudge
  by_cases hfd : 0 ≤ (s.clients i).fd
  · simp only [if_pos hfd]
    by_cases hne : j ≠ i
    · simp only [if_pos hne]
      have hlt : j < i := lt_of_le_of_ne hji hne
      have hmove := h.move (d := { s.clients i with fd := -1, st := .invalid })
        (n := max s.maxfd (s.clients i).fd) ⟨hi, hfd⟩ (hfree j (Nat.le_refl j) hlt)
        (Nat.lt_trans hlt hi) rfl
      refine ⟨hmove, rfl, by omega, ?_⟩
      intro k hjk hki hl
      by_cases hki' : k = i
      · subst hki'
        have hneg := hl.2
        simp only [Server.setClient_self] at hneg
        exact absurd hneg (by decide)
      · refine hfree k (by omega) (by omega) ⟨hl.1, ?_⟩
        have hfd' := hl.2
        rwa [Server.setClient_of_ne _ _ hki', Server.setClient_of_ne _ _ (by omega)] at hfd'
    · simp only [if_neg hne]
      exact ⟨h.congr ⟨rfl, rfl, rfl, rfl, fun _ => ⟨rfl, rfl⟩⟩, trivial, by omega,
        fun k _ _ => by omega⟩
  · simp only [if_neg hfd]
    refine ⟨h, trivial, by omega, ?_⟩
    intro k hjk hki hl
    by_cases hki' : k = i
    · exact hfd (hki' ▸ hl.2)
    · exact hfree k hjk (by omega) hl

/-- The loop of `upkeep` from slot `i` on. -/
theorem Linked.upkeepFrom (now : Int) (n : Nat) {i j : Nat} (h : Linked s l)
    (hn : i + n = s.cfg.maxClients) (hji : j ≤ i) (hfree : ∀ k, j ≤ k → k < i → ¬ s.Live k) :
    ∃ l', l.upkeepFrom now (List.range' i n) (s, j) = some l' ∧
      Linked (upkeepFrom now (List.range' i n) (s, j)).1 l' := by
  induction n generalizing s l i j with
  | zero => exact ⟨l, rfl, h⟩
  | succ n ih =>
      have hi : i < s.cfg.maxClients := by omega
      obtain ⟨l₁, hl₁, hlinked, hcfg, hlive⟩ := h.upkeepExpire now hi
      have hfree' : ∀ k, j ≤ k → k < i → ¬ (Frelay.upkeepExpire now s i).Live k :=
        fun k hjk hki hl => hfree k hjk hki (hlive k hl)
      obtain ⟨hbudge, hcfg', hle, hvacant⟩ := hlinked.upkeepBudge (hcfg ▸ hi) hji hfree'
      obtain ⟨l₂, hl₂, hlinked₂⟩ := ih hbudge (by rw [hcfg', hcfg]; omega) hle hvacant
      rw [List.range'_succ]
      refine ⟨l₂, ?_, ?_⟩
      · rw [Links.upkeepFrom, hl₁, Option.bind_some]
        exact hl₂
      · rw [Frelay.upkeepFrom]
        exact hlinked₂

theorem Linked.upkeep (h : Linked s l) (now : Int) :
    ∃ l', l.upkeep now s = some l' ∧ Linked (upkeep now s) l' := by
  have htable : SameTable s { s with maxfd := s.listenfd } :=
    ⟨rfl, rfl, rfl, rfl, fun _ => ⟨rfl, rfl⟩⟩
  have hloop := (h.congr htable).upkeepFrom now s.cfg.maxClients (i := 0) (j := 0)
    (Nat.zero_add _) (Nat.le_refl 0) (fun k _ hk => absurd hk (Nat.not_lt_zero k))
  rw [← List.range_eq_range'] at hloop
  exact hloop

end Loops

/-! ## Messages -/

section Messages

variable {env : MsgEnv} {s : Server} {l : Links} {i : Nat} {m : Mbuf}

theorem Links.closeClient_none {l' : Links} (h : l.closeClient s i = some l') {a : Nat}
    (ha : l.heap.block a = none) : l'.heap.block a = none := by
  obtain ⟨hp, hfree, rfl⟩ := Option.map_eq_some_iff.mp h
  exact Heap.freeFrom_none hfree ha

/-- The buffer of the message is not touched while sessions are closed. -/
theorem Links.kickOthers_none {js : List Nat} {l' : Links} (h : l.kickOthers i js s = some l')
    {a : Nat} (ha : l.heap.block a = none) : l'.heap.block a = none := by
  induction js generalizing s l with
  | nil => cases h; exact ha
  | cons j js ih =>
      rw [Links.kickOthers] at h
      split at h
      · obtain ⟨l₁, hl₁, hrest⟩ := Option.bind_eq_some_iff.mp h
        exact ih hrest (Links.closeClient_none hl₁ ha)
      · exact ih h ha

/-- Serving a message touches queues and sets only if it authenticates. -/
theorem Serves.sameTable {t : Server} {v : Verdict} (h : Serves env s i m v t)
    (hauth : ¬ Authenticates env s i m) : SameTable s t := by
  have hudb : ∀ d : Udb, SameTable s { s with udb := d } :=
    fun d => ⟨rfl, rfl, rfl, rfl, fun _ => ⟨rfl, rfl⟩⟩
  have hset : ∀ (d : Udb) {c : Client}, c.fd = (s.clients i).fd → c.q = (s.clients i).q →
      SameTable s (({ s with udb := d }).setClient i c) := by
    intro d c hfd hq
    obtain ⟨-, -, -, -, hslot⟩ := SameTable.setClient s hfd hq
    exact ⟨rfl, rfl, rfl, rfl, hslot⟩
  cases h with
  | auth hm hst hdig hkey => exact absurd (authenticates_of_key hm hst hdig hkey) hauth
  | register | drop | conflict => exact hudb _
  | temp | challenge | unsupported => exact hset _ rfl rfl
  | authFailed | logout => exact SameTable.setClient s rfl rfl
  | _ => exact ⟨rfl, rfl, rfl, rfl, fun _ => ⟨rfl, rfl⟩⟩

/-- Serving a message, with the sessions it closes. -/
theorem Linked.serves (h : Linked s l) {t : Server} {v : Verdict} (hserves : Serves env s i m v t) :
    ∃ l', (if Authenticates env s i m then l.kickOthers i s.slots s else some l) = some l' ∧
      Linked t l' := by
  by_cases hauth : Authenticates env s i m
  · rw [if_pos hauth]
    have hslots : ∀ j ∈ s.slots, j < s.cfg.maxClients := fun j hj => Server.mem_slots.mp hj
    obtain ⟨l', hl', hlinked⟩ := h.kickOthers i hslots
    refine ⟨l', hl', ?_⟩
    rw [hserves.of_authenticates hauth]
    have hself := (kickOthers_spec i s.slots s).2.2.2.1
    exact hlinked.congr (SameTable.setClient _ (by rw [hself]) (by rw [hself]))
  · rw [if_neg hauth]
    exact ⟨l, rfl, h.congr (hserves.sameTable hauth)⟩

/-- The slot keeps the answer. -/
theorem Linked.sendBack (h : Linked s l) (hi : s.Live i) {a : Nat} (ha : l.heap.block a = none)
    (rbuf : Option Mbuf) :
    ∃ l', (match rbuf with | some r => l.enqueueMsg s i a r | none => some l) = some l' ∧
      Linked (sendBack s i rbuf) l' := by
  cases rbuf with
  | none => exact ⟨l, rfl, h.congr (SameTable.setClient s rfl rfl)⟩
  | some r =>
      obtain ⟨l', hl', hlinked⟩ := h.enqueueMsg hi ha r
      exact ⟨l', hl', hlinked.congr (SameTable.setClient _ rfl rfl)⟩

/-- `process_msg`. -/
theorem Linked.processMsg (h : Linked s l) (hm : 40 ≤ m.bsize) (hr : Ready s i) {a : Nat}
    (ha : l.heap.block a = none) {t : Server} (hstep : processMsg env s i m = some t) :
    ∃ l', l.processMsg env s i a m = some l' ∧ Linked t l' := by
  rcases processMsg_serves hm hr hstep with
    ⟨j, hroute, rfl⟩ | ⟨u, rbuf, v, hroute, hd, hserved, hserves, rfl⟩
  · obtain ⟨l', hl', hlinked⟩ := h.enqueueMsg (route_forwards hroute).live ha
      (fillSrcid (s.clients i) m)
    refine ⟨l', ?_, hlinked.congr (SameTable.setClient _ rfl rfl)⟩
    rw [Links.processMsg]
    simp only [hroute]
    exact hl'
  · obtain ⟨l₁, hl₁, hlinked⟩ := h.serves hserves
    have hlive : u.Live i := by
      rw [Server.Live, hserved.touches.cfg, hserved.touches.fd]
      exact hr.live
    have ha₁ : l₁.heap.block a = none := by
      split at hl₁
      · exact Links.kickOthers_none hl₁ ha
      · cases hl₁
        exact ha
    obtain ⟨l', hl', hlinked'⟩ := hlinked.sendBack hlive ha₁ rbuf
    refine ⟨l', ?_, hlinked'⟩
    rw [Links.processMsg]
    simp only [hroute, hl₁, Option.bind_some, hd]
    cases rbuf with
    | none => exact hl'
    | some r => exact hl'

end Messages

/-! ## Events -/

section Events

variable {s t : Server} {l : Links} {i : Nat}

/-- The functions find the descriptor in the table. -/
theorem Links.closeClient_congr (hfd : (t.clients i).fd = (s.clients i).fd) :
    l.closeClient t i = l.closeClient s i := by
  rw [Links.closeClient, Links.closeClient, hfd]

theorem Links.dequeueMsg_congr (hfd : (t.clients i).fd = (s.clients i).fd) :
    l.dequeueMsg t i = l.dequeueMsg s i := by
  rw [Links.dequeueMsg, Links.dequeueMsg, hfd]

/-- A read. -/
theorem Linked.read (h : Linked s l) (hs : (srvLts fun _ => True).Reachable s) (hlive : s.Live i)
    {a : Nat} (ha : l.heap.block a = none) {now : Int} {res : ReadRes} {env : MsgEnv}
    (hstep : readClient env s i now res = some t) :
    ∃ l', l.readClient env s i a now res = some l' ∧ Linked t l' := by
  obtain ⟨hfd, -, hq⟩ := opened_same s i now
  have hopen : Linked (s.setClient i (opened s i now)) l := h.congr (SameTable.setClient s hfd hq)
  have hlive' : (s.setClient i (opened s i now)).Live i :=
    ((SameTable.setClient s hfd hq).live i).mpr hlive
  have hself : ((s.setClient i (opened s i now)).clients i).fd = (s.clients i).fd := by
    rw [Server.setClient_self]
    exact hfd
  rw [readClient_opened] at hstep
  rw [Links.readClient]
  cases hout : readOutcome (slotBuffer s i now) res with
  | disconnect =>
      rw [hout] at hstep
      cases hstep
      obtain ⟨l', hl', hlinked⟩ := hopen.closeClient hlive'
      exact ⟨l', (Links.closeClient_congr hself).symm.trans hl', hlinked⟩
  | again =>
      rw [hout] at hstep
      cases hstep
      exact ⟨l, rfl, hopen⟩
  | exits =>
      rw [hout] at hstep
      cases hstep
  | pending rbuf =>
      rw [hout] at hstep
      cases hstep
      exact ⟨l, rfl, h.congr (SameTable.setClient s hfd hq)⟩
  | complete m =>
      rw [hout] at hstep
      have hok := ((slotsOk_inductive _).invariant s hs).slot i hlive
      exact hopen.processMsg (whole_of_complete (hok.slotBuffer now) hout).hdr
        ((ready_of_reachable hs hlive).opened now) ha hstep

/-- A write finds the first message of the queue at `qhead`. -/
theorem Linked.write (h : Linked s l) (hlive : s.Live i) {now : Int} {res : WriteRes}
    (hstep : writeClient s i now res = some t) :
    ∃ l', l.writeClient s i res = some l' ∧ Linked t l' := by
  obtain ⟨u, hu⟩ : ∃ u, u = s.setClient i { s.clients i with act := now } := ⟨_, rfl⟩
  have hself : u.clients i = { s.clients i with act := now } := by rw [hu, Server.setClient_self]
  have htable : SameTable s u := hu ▸ SameTable.setClient s rfl rfl
  have hopen : Linked u l := h.congr htable
  have hlive' : u.Live i := (htable.live i).mpr hlive
  have hfd : (u.clients i).fd = (s.clients i).fd := (htable.slot i).1
  rw [Frelay.writeClient, ← hu] at hstep
  cases hq : (u.clients i).q with
  | nil =>
      simp only [hq] at hstep
      cases hstep
  | cons m q =>
      simp only [hq] at hstep
      obtain ⟨r, hr, hval⟩ := hopen.chain hlive'
      rw [hq] at hval
      obtain ⟨⟨a, x⟩, r, rfl, rfl, -⟩ := List.map_eq_cons_iff.mp hval
      -- The pointer leads to the block of the message.
      obtain ⟨hhead, n, hblk⟩ := hr.first
      rw [Links.writeClient, hhead, Option.bind_some, hblk, Option.bind_some]
      cases hout : writeOutcome x res with
      | disconnect =>
          simp only [hout] at hstep ⊢
          cases hstep
          obtain ⟨l', hl', hlinked⟩ := hopen.closeClient hlive'
          exact ⟨l', (Links.closeClient_congr hfd).symm.trans hl', hlinked⟩
      | again =>
          simp only [hout] at hstep ⊢
          cases hstep
          exact ⟨l, rfl, hopen⟩
      | sent m =>
          simp only [hout] at hstep ⊢
          have hstore := hopen.store (x := m) hlive' hq hhead hblk
          have hlive₂ : (u.setClient i { u.clients i with q := m :: q }).Live i := by
            rw [Server.Live, Server.setClient_self]
            exact hlive'
          split at hstep
          · rename_i hfull
            cases hstep
            obtain ⟨l', hl', hlinked⟩ := hstore.dequeueMsg hlive₂ (by rw [Server.setClient_self])
            refine ⟨l', ?_, hlinked⟩
            rw [if_pos hfull, ← hl']
            refine (Links.dequeueMsg_congr ?_).symm
            rw [Server.setClient_self]
            exact hfd
          · rename_i hpart
            cases hstep
            rw [if_neg hpart]
            exact ⟨_, rfl, hstore⟩

/-- **No event follows a null or dangling pointer**, and every event keeps pointers,
sets and table together. -/
theorem Linked.step (h : Linked s l) (hs : (srvLts fun _ => True).Reachable s) {e : SrvEvent}
    (hstep : (srvLts fun _ => True).step s e t) {a : Nat} (ha : l.Fresh a e) :
    ∃ l', l.step s a e = some l' ∧ Linked t l' := by
  obtain ⟨hen, -, hstep⟩ := hstep
  cases e with
  | accept fd nonblocking now =>
      cases hstep
      exact ⟨_, rfl, h.acceptClient nonblocking now hen⟩
  | read i now res env => exact h.read hs hen ha hstep
  | write i now res => exact h.write hen.1 hstep
  | upkeep now =>
      cases hstep
      exact h.upkeep now
  | motd lines =>
      obtain ⟨p, -, rfl⟩ := Option.map_eq_some_iff.mp hstep
      exact ⟨l, rfl, h.congr ⟨rfl, rfl, rfl, rfl, fun _ => ⟨rfl, rfl⟩⟩⟩

/-- A server that has just been started. -/
theorem linked_initial (cfg : SrvCfg) (listenfd : Int) (d : Udb) :
    Linked (.initial cfg listenfd d) .initial := by
  have hdead : ∀ i, ¬ (Server.initial cfg listenfd d).Live i :=
    fun i hl => absurd hl.2 (show ¬ (0 : Int) ≤ -1 by decide)
  refine ⟨⟨fun _ => [], ⟨fun i hi => absurd hi (hdead i), fun i _ hi => absurd hi (hdead i)⟩,
    fun i hi => absurd hi (hdead i)⟩, rfl, ?_, ?_, fun i hi => absurd hi (hdead i),
    fun i _ hi => absurd hi (hdead i)⟩
  · intro fd
    show Function.update (fun _ => false) listenfd true fd = true ↔ fd = listenfd ∨ _
    by_cases hfd : fd = listenfd
    · rw [hfd, Function.update_self]
      simp
    · rw [Function.update_of_ne hfd]
      simp only [Bool.false_eq_true, hfd, false_or, false_iff]
      rintro ⟨i, hi, -⟩
      exact hdead i hi
  · intro fd
    refine iff_of_false (show ¬ false = true by decide) ?_
    rintro ⟨i, hi, -⟩
    exact hdead i hi

end Events

/-! ## Any order of events -/

/-- The server with its pointers, in any order of events; they are lost once one that
is null or dangling is followed. -/
def linkedLts : Lts (Server × Option Links) (Nat × SrvEvent) where
  init p := (srvLts fun _ => True).init p.1 ∧ p.2 = some .initial
  step p e q := (srvLts fun _ => True).step p.1 e.2 q.1 ∧
    (∀ l, p.2 = some l → l.Fresh e.1 e.2) ∧ q.2 = p.2.bind fun l => l.step p.1 e.1 e.2

/-- **In every reachable state pointers, sets and table belong together.** -/
theorem linked_reachable {p : Server × Option Links} (h : linkedLts.Reachable p) :
    (srvLts fun _ => True).Reachable p.1 ∧ ∃ l, p.2 = some l ∧ Linked p.1 l := by
  refine Lts.Inductive.invariant (M := linkedLts) (P := fun p =>
    (srvLts fun _ => True).Reachable p.1 ∧ ∃ l, p.2 = some l ∧ Linked p.1 l) ⟨?_, ?_⟩ p h
  · rintro ⟨s, l⟩ ⟨hinit, rfl⟩
    refine ⟨Lts.Reachable.init hinit, _, rfl, ?_⟩
    obtain ⟨cfg, listenfd, e, file, -, -, rfl⟩ := hinit
    exact linked_initial cfg listenfd _
  · rintro ⟨s, l⟩ ⟨a, e⟩ ⟨t, l'⟩ ⟨hs, l, rfl, hlinked⟩ ⟨hstep, hfresh, rfl⟩
    obtain ⟨l', hl', hlinked'⟩ := hlinked.step hs hstep (hfresh l rfl)
    exact ⟨hs.step hstep, l', hl', hlinked'⟩

end Frelay
