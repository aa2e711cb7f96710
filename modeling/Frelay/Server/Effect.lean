import Frelay.Message.Reply
import Frelay.Server.Io

/-!
# What one message does to the server

Everything `process_msg` can do, said once; what the server composes are replies
(`IsReply`).

* `Touches` — what a handler may change: the user database, the session fields
  of the sender's slot, and by an AUTH request other slots of the same id;
* `dispatchMsg_cases` — a message is forwarded to one slot or served, and
  serving it touches the server and composes at most one reply;
* `processMsg_cases` — the same for the whole function.
-/

namespace Frelay

open Lib

/-! ## What a handler may change -/

/-- Slot `j` is closed when slot `i` completes its authentication. -/
def Kicked (s : Server) (i j : Nat) : Prop :=
  j ≠ i ∧ 0 ≤ (s.clients j).fd ∧ (s.clients j).id = (s.clients i).id ∧
    (s.clients i).st = .loginOk

/-- From `s` to `t` only the user database, the session fields of slot `i` and
slots it kicks have changed. -/
structure Touches (s : Server) (i : Nat) (t : Server) : Prop where
  cfg : t.cfg = s.cfg
  listenfd : t.listenfd = s.listenfd
  fd : (t.clients i).fd = (s.clients i).fd
  act : (t.clients i).act = (s.clients i).act
  rbuf : (t.clients i).rbuf = (s.clients i).rbuf
  q : (t.clients i).q = (s.clients i).q
  others : ∀ j, j ≠ i →
    t.clients j = s.clients j ∨ (Kicked s i j ∧ t.clients j = closedClient)

theorem Touches.refl (s : Server) (i : Nat) : Touches s i s :=
  ⟨rfl, rfl, rfl, rfl, rfl, rfl, fun _ _ => .inl rfl⟩

theorem Touches.of_clients {s t : Server} {i : Nat} (hcfg : t.cfg = s.cfg)
    (hlfd : t.listenfd = s.listenfd) (h : t.clients = s.clients) : Touches s i t :=
  ⟨hcfg, hlfd, by rw [h], by rw [h], by rw [h], by rw [h], fun j _ => .inl (by rw [h])⟩

/-- Changing the session fields of slot `i`. -/
theorem Touches.session {s t : Server} {i : Nat} (h : Touches s i t) {c : Client}
    (hfd : c.fd = (t.clients i).fd) (hact : c.act = (t.clients i).act)
    (hrbuf : c.rbuf = (t.clients i).rbuf) (hq : c.q = (t.clients i).q) :
    Touches s i (t.setClient i c) := by
  refine ⟨h.cfg, h.listenfd, ?_, ?_, ?_, ?_, ?_⟩
  · rw [Server.setClient_self, hfd, h.fd]
  · rw [Server.setClient_self, hact, h.act]
  · rw [Server.setClient_self, hrbuf, h.rbuf]
  · rw [Server.setClient_self, hq, h.q]
  · intro j hj
    rw [Server.setClient_of_ne t c hj]
    exact h.others j hj

/-- The result of serving a message. -/
structure Served (s : Server) (i : Nat) (m : Mbuf) (r : Server × Option Mbuf) : Prop where
  touches : Touches s i r.1
  reply : ∀ x, r.2 = some x → IsReply m x

theorem replyErr_served {env : MsgEnv} {s t : Server} {i : Nat} {m : Mbuf} {ec : ScEnum}
    {r : Server × Option Mbuf} (hm : 40 ≤ m.bsize)
    (h : replyErr env t m ec = some r) (ht : Touches s i t) : Served s i m r := by
  obtain ⟨x, hx, rfl⟩ := Option.map_eq_some_iff.mp h
  refine ⟨ht, ?_⟩
  intro y hy
  cases hy
  exact isReply_error hm hx

theorem reply1_served {env : MsgEnv} {s t : Server} {i : Nat} {m : Mbuf} {at₁ : MsgAttrib}
    {v₁ : AttrArg} {r : Server × Option Mbuf} (hm : 40 ≤ m.bsize) (hty : v₁.avtype = at₁.avtype)
    (h : reply1 env t m at₁ v₁ = some r) (ht : Touches s i t) : Served s i m r := by
  unfold reply1 at h
  simp only [Option.bind_eq_bind] at h
  obtain ⟨x, hx, h⟩ := Option.bind_eq_some_iff.mp h
  obtain ⟨y, hy, h⟩ := Option.bind_eq_some_iff.mp h
  cases h
  refine ⟨ht, ?_⟩
  intro z hz
  cases hz
  exact (isReply_response hm hx).addattrib hty hy

theorem replyNotice_served {env : MsgEnv} {s t : Server} {i : Nat} {m : Mbuf} {txt : Bytes}
    {r : Server × Option Mbuf} (hm : 40 ≤ m.bsize)
    (h : replyNotice env t m txt = some r) (ht : Touches s i t) : Served s i m r := by
  unfold replyNotice at h
  simp only [Option.bind_eq_bind] at h
  obtain ⟨x, hx, h⟩ := Option.bind_eq_some_iff.mp h
  obtain ⟨y, hy, h⟩ := Option.bind_eq_some_iff.mp h
  obtain ⟨z, hz, h⟩ := Option.bind_eq_some_iff.mp h
  cases h
  refine ⟨ht, ?_⟩
  intro w hw
  cases hw
  exact ((isReply_response hm hx).addattrib rfl hy).addattrib rfl hz

theorem processNonsense_served {env : MsgEnv} {s : Server} {i : Nat} {m : Mbuf} {ec : ScEnum}
    {r : Server × Option Mbuf} (hm : 40 ≤ m.bsize) (h : processNonsense env s m ec = some r) :
    Served s i m r := by
  unfold processNonsense at h
  split at h
  · exact replyErr_served hm h (.refl s i)
  · cases h
    exact ⟨.refl s i, fun _ h => by cases h⟩

/-! ## The handlers -/

theorem processRegister_served {env : MsgEnv} {s : Server} {i : Nat} {m : Mbuf}
    {r : Server × Option Mbuf} (hm : 40 ≤ m.bsize) (h : processRegister env s i m = some r) :
    Served s i m r := by
  unfold processRegister at h
  split at h
  · exact replyErr_served hm h (.refl s i)
  · split at h
    · exact replyErr_served hm h (.refl s i)
    · split at h
      · cases h
      · simp only at h
        split at h
        · exact replyNotice_served hm h (.of_clients rfl rfl rfl)
        · exact replyErr_served hm h (.of_clients rfl rfl rfl)

theorem processDrop_served {env : MsgEnv} {s : Server} {i : Nat} {m : Mbuf}
    {r : Server × Option Mbuf} (hm : 40 ≤ m.bsize) (h : processDrop env s i m = some r) :
    Served s i m r := by
  unfold processDrop at h
  split at h
  · exact replyErr_served hm h (.refl s i)
  · split at h
    · cases h
    · simp only at h
      split at h
      · exact replyNotice_served hm h (.of_clients rfl rfl rfl)
      · exact replyErr_served hm h (.of_clients rfl rfl rfl)

theorem processLogin_served {env : MsgEnv} {s : Server} {i : Nat} {m : Mbuf}
    {r : Server × Option Mbuf} (hm : 40 ≤ m.bsize) (h : processLogin env s i m = some r) :
    Served s i m r := by
  have hudb : ∀ d : Udb, Touches s i { s with udb := d } := fun d => .of_clients rfl rfl rfl
  unfold processLogin at h
  simp only at h
  split at h
  · exact replyErr_served hm h (.refl s i)
  · split at h
    · exact replyErr_served hm h (.refl s i)
    · split at h
      · split at h
        · exact replyErr_served hm h (hudb _)
        · exact replyNotice_served hm h ((hudb _).session rfl rfl rfl rfl)
      · split at h
        · exact reply1_served hm rfl h ((hudb _).session rfl rfl rfl rfl)
        · exact replyErr_served hm h ((hudb _).session rfl rfl rfl rfl)

/-- The kick loop closes other slots of the sender's id and changes nothing else. -/
theorem kickOthers_spec (i : Nat) (js : List Nat) (s : Server) :
    (kickOthers i js s).cfg = s.cfg ∧ (kickOthers i js s).listenfd = s.listenfd ∧
    (kickOthers i js s).udb = s.udb ∧ (kickOthers i js s).clients i = s.clients i ∧
    ∀ j, j ≠ i → (kickOthers i js s).clients j =
      if j ∈ js ∧ (s.clients i).id = (s.clients j).id ∧ 0 ≤ (s.clients j).fd then closedClient
      else s.clients j := by
  induction js generalizing s with
  | nil =>
      refine ⟨rfl, rfl, rfl, rfl, ?_⟩
      intro j hj
      rw [if_neg (fun h => List.not_mem_nil h.1)]
      rfl
  | cons k js ih =>
      rw [kickOthers]
      by_cases hk : (s.clients i).id = (s.clients k).id ∧ i ≠ k ∧ 0 ≤ (s.clients k).fd
      · rw [if_pos hk]
        obtain ⟨hcfg, hlfd, hudb, hself, hothers⟩ := ih (closeClient s k)
        have hik : (closeClient s k).clients i = s.clients i :=
          Server.setClient_of_ne s closedClient hk.2.1
        refine ⟨hcfg, hlfd, hudb, hself.trans hik, ?_⟩
        intro j hj
        rw [hothers j hj, hik]
        by_cases hjk : j = k
        · subst hjk
          have hclosed : (closeClient s j).clients j = closedClient :=
            Server.setClient_self s j closedClient
          rw [hclosed, ite_self]
          exact (if_pos ⟨List.mem_cons_self, hk.1, hk.2.2⟩).symm
        · have hkeep : (closeClient s k).clients j = s.clients j :=
            Server.setClient_of_ne s closedClient hjk
          rw [hkeep]
          simp only [List.mem_cons, hjk, false_or]
      · rw [if_neg hk]
        obtain ⟨hcfg, hlfd, hudb, hself, hothers⟩ := ih s
        refine ⟨hcfg, hlfd, hudb, hself, ?_⟩
        intro j hj
        rw [hothers j hj]
        by_cases hjk : j = k
        · subst hjk
          -- The slot that was just looked at is left alone, and so it is later.
          have hno : ¬ ((s.clients i).id = (s.clients j).id ∧ 0 ≤ (s.clients j).fd) :=
            fun h => hk ⟨h.1, Ne.symm hj, h.2⟩
          rw [if_neg fun h => hno h.2, if_neg fun h => hno h.2]
        · simp only [List.mem_cons, hjk, false_or]

theorem kickOthers_touches {i : Nat} {l : List Nat} {s : Server}
    (hst : (s.clients i).st = .loginOk) : Touches s i (kickOthers i l s) := by
  obtain ⟨hcfg, hlfd, -, hself, hothers⟩ := kickOthers_spec i l s
  refine ⟨hcfg, hlfd, by rw [hself], by rw [hself], by rw [hself], by rw [hself], ?_⟩
  intro j hj
  rw [hothers j hj]
  split
  · rename_i h
    exact .inr ⟨⟨hj, h.2.2, h.2.1.symm, hst⟩, rfl⟩
  · exact .inl rfl

theorem authFailed_served {env : MsgEnv} {s : Server} {i : Nat} {m : Mbuf} {ec : ScEnum}
    {r : Server × Option Mbuf} (hm : 40 ≤ m.bsize) (h : authFailed env s i m ec = some r) :
    Served s i m r :=
  replyErr_served hm h ((Touches.refl s i).session rfl rfl rfl rfl)

theorem processAuth_served {env : MsgEnv} {s : Server} {i : Nat} {m : Mbuf}
    {r : Server × Option Mbuf} (hm : 40 ≤ m.bsize) (h : processAuth env s i m = some r) :
    Served s i m r := by
  unfold processAuth at h
  split at h
  · exact authFailed_served hm h
  · rename_i hst
    split at h
    · exact authFailed_served hm h
    · split at h
      · cases h
      · split at h
        · exact authFailed_served hm h
        · have hkick := kickOthers_touches (l := s.slots) (not_not.mp hst)
          exact replyNotice_served hm h (hkick.session rfl rfl rfl rfl)

theorem processLogout_served {env : MsgEnv} {s : Server} {i : Nat} {m : Mbuf}
    {r : Server × Option Mbuf} (hm : 40 ≤ m.bsize) (h : processLogout env s i m = some r) :
    Served s i m r := by
  unfold processLogout at h
  simp only at h
  split at h
  · exact replyErr_served hm h (.refl s i)
  · exact replyNotice_served hm h ((Touches.refl s i).session rfl rfl rfl rfl)

theorem peerlistFrom_isReply {s : Server} {m : Mbuf} {js : List Nat} {r r' : Mbuf}
    (hr : IsReply m r) (h : peerlistFrom s js r = some r') : IsReply m r' := by
  induction js generalizing r with
  | nil =>
      cases h
      exact hr
  | cons j js ih =>
      rw [peerlistFrom] at h
      split at h
      · split at h
        · cases h
        · simp only [Option.bind_eq_bind] at h
          obtain ⟨x, hx, h⟩ := Option.bind_eq_some_iff.mp h
          obtain ⟨y, hy, h⟩ := Option.bind_eq_some_iff.mp h
          exact ih ((hr.addattrib rfl hx).addattrib rfl hy) h
      · exact ih hr h

theorem processPeerlist_served {env : MsgEnv} {s : Server} {i : Nat} {m : Mbuf}
    {r : Server × Option Mbuf} (hm : 40 ≤ m.bsize) (h : processPeerlist env s m = some r) :
    Served s i m r := by
  unfold processPeerlist at h
  simp only [Option.bind_eq_bind] at h
  obtain ⟨x, hx, h⟩ := Option.bind_eq_some_iff.mp h
  obtain ⟨y, hy, h⟩ := Option.bind_eq_some_iff.mp h
  cases h
  refine ⟨.refl s i, ?_⟩
  intro z hz
  cases hz
  exact peerlistFrom_isReply (isReply_response hm hx) hy

theorem processServerMsg_served {env : MsgEnv} {s : Server} {i : Nat} {m : Mbuf}
    {r : Server × Option Mbuf} (hm : 40 ≤ m.bsize) (h : processServerMsg env s i m = some r) :
    Served s i m r := by
  -- Resetting the read offset does not change what a reply answers.
  have hreset : ∀ {r}, Served s i (mbufResetgetattrib m) r → Served s i m r :=
    fun h => ⟨h.touches, fun x hx =>
      ⟨(h.reply x hx).hdr, (h.reply x hx).off, (h.reply x hx).framed, (h.reply x hx).max,
        (h.reply x hx).type, (h.reply x hx).srcid, (h.reply x hx).dstid, (h.reply x hx).trfid⟩⟩
  have hm' : 40 ≤ (mbufResetgetattrib m).bsize := hm
  unfold processServerMsg at h
  simp only at h
  split at h
  · exact replyErr_served hm h (.refl s i)
  · split at h
    · cases h
      exact ⟨.refl s i, fun _ h => by cases h⟩
    · exact hreset (reply1_served hm' rfl h (.refl s i))
    · exact hreset (processRegister_served hm' h)
    · exact hreset (processDrop_served hm' h)
    · exact hreset (processLogin_served hm' h)
    · exact hreset (processAuth_served hm' h)
    · exact hreset (processLogout_served hm' h)
    · exact hreset (processPeerlist_served hm' h)
    · exact hreset (processNonsense_served hm' h)

theorem processBroadcastMsg_served {env : MsgEnv} {s : Server} {i : Nat} {m : Mbuf}
    {r : Server × Option Mbuf} (hm : 40 ≤ m.bsize) (h : processBroadcastMsg env s i m = some r) :
    Served s i m r := by
  unfold processBroadcastMsg at h
  split at h
  · exact replyErr_served hm h (.refl s i)
  · exact processNonsense_served hm h

/-! ## Forwarding -/

/-- The type of a message is one the server forwards. -/
def isForwardable (m : Mbuf) : Bool :=
  match MsgType.ofCode? (hdrGetType m) with
  | some t => t.forwardable
  | none => false

theorem isForwardable_iff {m : Mbuf} :
    isForwardable m = true ↔ ∃ t : MsgType, hdrGetType m = t.code ∧ t.forwardable = true := by
  unfold isForwardable
  cases h : MsgType.ofCode? (hdrGetType m) with
  | none =>
      simp only [Bool.false_eq_true, false_iff]
      rintro ⟨t, ht, -⟩
      rw [ht, MsgType.ofCode?_code] at h
      cases h
  | some t =>
      constructor
      · exact fun hf => ⟨t, MsgType.ofCode?_eq_some.mp h, hf⟩
      · rintro ⟨u, hu, hf⟩
        rw [hu, MsgType.ofCode?_code] at h
        cases h
        exact hf

/-- The slot the message `m` of slot `i` is forwarded to. -/
def route (s : Server) (i : Nat) (m : Mbuf) : Option Nat :=
  if (s.clients i).st = .authOk ∧ hdrGetDstid m ≠ 0 ∧ hdrGetDstid m ≠ 0xffffffffffffffff ∧
      isForwardable m = true then
    findDst s (hdrGetDstid m)
  else none

/-- The slot `j` is the destination of the message `m` of slot `i`, and the
message may be forwarded to it. -/
structure Forwards (s : Server) (i j : Nat) (m : Mbuf) : Prop where
  sender : (s.clients i).st = .authOk
  live : s.Live j
  receiver : (s.clients j).st = .authOk
  dstid : hdrGetDstid m = (s.clients j).id
  dst_ne_zero : hdrGetDstid m ≠ 0
  dst_ne_ones : hdrGetDstid m ≠ 0xffffffffffffffff
  type : isForwardable m = true

theorem findDst_eq_some {s : Server} {dstid : UInt64} {j : Nat} (h : findDst s dstid = some j) :
    s.Live j ∧ (s.clients j).st = .authOk ∧ dstid = (s.clients j).id := by
  have hmem := List.mem_of_find?_eq_some h
  have hp := List.find?_some h
  rw [Server.mem_slots] at hmem
  simp only [Bool.and_eq_true, decide_eq_true_eq, beq_iff_eq] at hp
  exact ⟨⟨hmem, hp.1.1⟩, hp.1.2, hp.2⟩

theorem route_forwards {s : Server} {i j : Nat} {m : Mbuf} (h : route s i m = some j) :
    Forwards s i j m := by
  unfold route at h
  split at h
  · rename_i hc
    obtain ⟨hlive, hrecv, hdst⟩ := findDst_eq_some h
    exact ⟨hc.1, hlive, hrecv, hdst, hc.2.1, hc.2.2.1, hc.2.2.2⟩
  · cases h

/-- A message is forwarded where `route` says, or it is served. -/
theorem dispatchMsg_cases {env : MsgEnv} {s : Server} {i : Nat} {m : Mbuf}
    {r : Server × Option Mbuf} (hm : 40 ≤ m.bsize) (h : dispatchMsg env s i m = some r) :
    (∃ j, route s i m = some j ∧ r = (enqueueMsg s j m, none)) ∨
      (route s i m = none ∧ Served s i m r) := by
  unfold dispatchMsg at h
  simp only at h
  split at h
  · rename_i h0
    exact .inr ⟨if_neg fun hc => hc.2.1 h0, processServerMsg_served hm h⟩
  · rename_i h0
    split at h
    · rename_i h1
      exact .inr ⟨if_neg fun hc => hc.2.2.1 h1, processBroadcastMsg_served hm h⟩
    · rename_i h1
      unfold processForwardMsg at h
      split at h
      · rename_i hst
        exact .inr ⟨if_neg fun hc => hst hc.1, replyErr_served hm h (.refl s i)⟩
      · rename_i hst
        split at h
        · rename_i hnone
          refine .inr ⟨?_, replyErr_served hm h (.refl s i)⟩
          unfold route
          split
          · exact hnone
          · rfl
        · rename_i j hj
          split at h
          · rename_i t ht
            -- The type decides, as it does in `route`.
            have htype : isForwardable m = t.forwardable := by
              unfold isForwardable
              rw [ht]
            split at h
            · rename_i hfw
              cases h
              refine .inl ⟨j, ?_, rfl⟩
              unfold route
              rw [if_pos ⟨not_not.mp hst, h0, h1, htype.trans hfw⟩]
              exact hj
            · rename_i hfw
              exact .inr ⟨if_neg fun hc => hfw (htype.symm.trans hc.2.2.2),
                processNonsense_served hm h⟩
          · rename_i ht
            have htype : isForwardable m = false := by
              unfold isForwardable
              rw [ht]
            exact .inr ⟨if_neg fun hc => Bool.false_ne_true (htype.symm.trans hc.2.2.2),
              processNonsense_served hm h⟩

/-- Filling in the source id changes that field only. -/
theorem bsize_fillSrcid {c : Client} {m : Mbuf} (hm : 40 ≤ m.bsize) :
    (fillSrcid c m).bsize = m.bsize := by
  obtain ⟨hd, body, boff, rfl⟩ := exists_msg hm
  unfold fillSrcid
  split
  · rw [hdrSetSrcid_mkMsg, bsize_mkMsg, bsize_mkMsg]
  · rfl

theorem hdrGetType_fillSrcid {c : Client} {m : Mbuf} (hm : 40 ≤ m.bsize) :
    hdrGetType (fillSrcid c m) = hdrGetType m := by
  obtain ⟨hd, body, boff, rfl⟩ := exists_msg hm
  unfold fillSrcid
  split
  · simp
  · rfl

theorem hdrGetDstid_fillSrcid {c : Client} {m : Mbuf} (hm : 40 ≤ m.bsize) :
    hdrGetDstid (fillSrcid c m) = hdrGetDstid m := by
  obtain ⟨hd, body, boff, rfl⟩ := exists_msg hm
  unfold fillSrcid
  split
  · simp
  · rfl

/-- What `process_msg` does with a complete message. -/
theorem processMsg_cases {env : MsgEnv} {s t : Server} {i : Nat} {m : Mbuf} (hm : 40 ≤ m.bsize)
    (h : processMsg env s i m = some t) :
    (∃ j, route s i (fillSrcid (s.clients i) m) = some j ∧
      t = sendBack (enqueueMsg s j (fillSrcid (s.clients i) m)) i none) ∨
    ∃ u rbuf, route s i (fillSrcid (s.clients i) m) = none ∧
      dispatchMsg env s i (fillSrcid (s.clients i) m) = some (u, rbuf) ∧
      Served s i (fillSrcid (s.clients i) m) (u, rbuf) ∧ t = sendBack u i rbuf := by
  obtain ⟨⟨u, rbuf⟩, hd, rfl⟩ := Option.map_eq_some_iff.mp h
  rcases dispatchMsg_cases (by rwa [bsize_fillSrcid hm]) hd with ⟨j, hj, hr⟩ | ⟨hno, hserved⟩
  · cases hr
    exact .inl ⟨j, hj, rfl⟩
  · exact .inr ⟨u, rbuf, hno, hd, hserved, rfl⟩

/-! ## Sending back -/

@[simp] theorem enqueueMsg_cfg (s : Server) (i : Nat) (m : Mbuf) :
    (enqueueMsg s i m).cfg = s.cfg := rfl

@[simp] theorem enqueueMsg_listenfd (s : Server) (i : Nat) (m : Mbuf) :
    (enqueueMsg s i m).listenfd = s.listenfd := rfl

@[simp] theorem enqueueMsg_udb (s : Server) (i : Nat) (m : Mbuf) :
    (enqueueMsg s i m).udb = s.udb := rfl

theorem enqueueMsg_clients (s : Server) (i j : Nat) (m : Mbuf) :
    (enqueueMsg s i m).clients j =
      if j = i then { s.clients i with q := (s.clients i).q ++ [{ m with boff := 0 }] }
      else s.clients j := by
  by_cases h : j = i
  · subst h
    simp [enqueueMsg]
  · rw [if_neg h]
    exact Server.setClient_of_ne s _ h

/-- The slots after the end of `process_msg`. -/
theorem sendBack_clients (s : Server) (i j : Nat) (rbuf : Option Mbuf) :
    (sendBack s i rbuf).clients j =
      if j = i then
        { s.clients i with
          rbuf := none
          q := (s.clients i).q ++ (rbuf.map fun m => ({ m with boff := 0 } : Mbuf)).toList }
      else s.clients j := by
  cases rbuf with
  | none =>
      by_cases h : j = i
      · subst h
        simp [sendBack]
      · rw [if_neg h]
        exact Server.setClient_of_ne s _ h
  | some m =>
      by_cases h : j = i
      · subst h
        simp [sendBack, enqueueMsg_clients]
      · rw [if_neg h]
        have := Server.setClient_of_ne (enqueueMsg s i m)
          { (enqueueMsg s i m).clients i with rbuf := none } h
        rw [sendBack, this, enqueueMsg_clients, if_neg h]

@[simp] theorem sendBack_cfg (s : Server) (i : Nat) (rbuf : Option Mbuf) :
    (sendBack s i rbuf).cfg = s.cfg := by
  cases rbuf <;> rfl

@[simp] theorem sendBack_listenfd (s : Server) (i : Nat) (rbuf : Option Mbuf) :
    (sendBack s i rbuf).listenfd = s.listenfd := by
  cases rbuf <;> rfl

@[simp] theorem sendBack_udb (s : Server) (i : Nat) (rbuf : Option Mbuf) :
    (sendBack s i rbuf).udb = s.udb := by
  cases rbuf <;> rfl

end Frelay
