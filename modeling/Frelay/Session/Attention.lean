import Frelay.Client.Downloads
import Frelay.Session.Agreement

/-!
# Requests find the client logged in

A request that reaches a client comes from another one: the server forwards it, and only
to a client that is authenticated, but by the time it is heard the session may have ended,
or the client may not know yet that it has begun. It does not come to that: the messages
that tell the client of its session arrive in the order in which they were sent, so each
request finds the client where its slot was when the request was forwarded.

* `requests_queued` — the server queues requests for authenticated clients only;
* `attentive_inductive` — the messages in front of a request on its way take the client to
  `CLT_AUTH_OK`;
* `request_heard` — the client is there when it hears it.
-/

namespace Frelay

open Lib

/-- The octets are a request. -/
def isReq (b : Bytes) : Bool := mclassIsReq (hdrGetType (msg b))

/-- The messages in front of every request on the way back log the client in. -/
def Attends (st : CltState) (back : List Bytes) : Prop :=
  ∀ l b r, back = l ++ b :: r → isReq b = true → turnLts.Run st l .authOk

/-- No answer of the server is a request. -/
theorem IsReply.not_req {m r : Mbuf} (h : IsReply m r) : isReq r.b = false := by
  show mclassIsReq (hdrGetType r) = false
  rcases h.type with htype | htype
  · rw [htype, mclassIsReq, mtypeGetClass_mclassToRes]
    decide
  · rw [htype, mclassIsReq, mtypeGetClass_mclassToErr]
    decide

/-- What an event queues for a connection: a request goes to an authenticated client, and
nothing is queued in front of it. -/
theorem requests_queued {s t : Server} {e : SrvEvent} {fd : Int} {i j : Nat} (hok : SlotsOk s)
    (hen : e.Enabled s) (h : srvStep s e = some t) (hi : At s fd i) (hj : At t fd j) :
    ∃ out, sentTo s fd e ++ (t.clients j).q.map Mbuf.b = (s.clients i).q.map Mbuf.b ++ out ∧
      ∀ l b r, out = l ++ b :: r → isReq b = true → l = [] ∧ (s.clients i).st = .authOk := by
  cases hinc : incoming s e with
  | none =>
      refine ⟨[], (slot_kept hok hen h hinc hi hj).queue.trans (List.append_nil _).symm, ?_⟩
      intro l b r hout
      exact absurd hout.symm (List.append_ne_nil_of_right_ne_nil l (List.cons_ne_nil b r))
  | some p =>
      obtain ⟨k, m⟩ := p
      obtain ⟨now, bs, env, u, reply, rfl, hl, hm, hbytes, hin, hmsg⟩ := message_step hok hen h hinc
      obtain ⟨rfl, hheard⟩ := message_follow env hok hl hbytes hin hmsg hi hj
      refine ⟨(forwarded s k (fillSrcid (s.clients k) m) j ++ if j = k then reply else []).map Mbuf.b,
        ?_, fun l b r hout hreq => ?_⟩
      · rw [hheard.queue, List.map_append]
        rfl
      · -- The copy of a forwarded message comes first, and answers are no requests.
        have hanswer : ∀ x ∈ (if j = k then reply else []).map Mbuf.b, isReq x = false := by
          intro x hx
          obtain ⟨y, hy, rfl⟩ := List.mem_map.mp hx
          split at hy
          · exact (hmsg.reply_ok y hy).2.1.not_req
          · cases hy
        rw [List.map_append] at hout
        unfold forwarded at hout
        split at hout
        · rename_i hroute
          cases l with
          | nil => exact ⟨rfl, (route_forwards hroute).receiver⟩
          | cons x l =>
              have hmem : b ∈ (if j = k then reply else []).map Mbuf.b := by
                have htail := (List.cons.inj hout).2
                rw [show (if j = k then reply else []).map Mbuf.b = l ++ b :: r from htail]
                exact List.mem_append_right l List.mem_cons_self
              rw [hanswer b hmem] at hreq
              cases hreq
        · have hmem : b ∈ (if j = k then reply else []).map Mbuf.b := by
            rw [show (if j = k then reply else []).map Mbuf.b = l ++ b :: r from hout]
            exact List.mem_append_right l List.mem_cons_self
          rw [hanswer b hmem] at hreq
          cases hreq

section Attends

variable {st st' : CltState} {b : Bytes} {back out : List Bytes}

theorem Attends.nil (st : CltState) : Attends st [] := fun l b r h =>
  absurd h.symm (List.append_ne_nil_of_right_ne_nil l (List.cons_ne_nil b r))

/-- A message leads from a state to one other at most. -/
theorem Turn.unique {st₁ st₂ : CltState} (h₁ : Turn st b st₁) (h₂ : Turn st b st₂) : st₁ = st₂ := by
  -- Two turns by the same message are of its type.
  have htype : ∀ {t u : MsgType}, hdrGetType (msg b) = t.code → hdrGetType (msg b) = u.code →
      t = u := fun ht hu => MsgType.code_injective (ht.symm.trans hu)
  have hclash : Opens .ok b → ¬ Challenges b := by
    rintro hok ⟨a, m, hnext, -⟩
    rw [hok.not_challenge] at hnext
    cases hnext
  cases h₁ with
  | welcome hs hok =>
      cases h₂ with
      | welcome _ _ => rfl
      | challenge _ hch => exact absurd hch (hclash hok)
      | other hno => exact absurd ⟨.loginRes, by decide, hs.1⟩ hno
  | challenge hs hch =>
      cases h₂ with
      | welcome _ hok => exact absurd hch (hclash hok)
      | challenge _ _ => rfl
      | other hno => exact absurd ⟨.loginRes, by decide, hs.1⟩ hno
  | authenticated hs hok =>
      cases h₂ with
      | authenticated _ _ => rfl
      | denied hd => exact absurd (htype hs.1 hd) (by decide)
      | other hno => exact absurd ⟨.authRes, by decide, hs.1⟩ hno
  | denied hd =>
      cases h₂ with
      | authenticated hs _ => exact absurd (htype hd hs.1) (by decide)
      | denied _ => rfl
      | other hno => exact absurd ⟨.authErr, by decide, hd⟩ hno
  | bye hs hok =>
      cases h₂ with
      | bye _ _ => rfl
      | other hno => exact absurd ⟨.logoutRes, by decide, hs.1⟩ hno
  | other hno =>
      cases h₂ with
      | welcome hs _ => exact absurd ⟨.loginRes, by decide, hs.1⟩ hno
      | challenge hs _ => exact absurd ⟨.loginRes, by decide, hs.1⟩ hno
      | authenticated hs _ => exact absurd ⟨.authRes, by decide, hs.1⟩ hno
      | denied hd => exact absurd ⟨.authErr, by decide, hd⟩ hno
      | bye hs _ => exact absurd ⟨.logoutRes, by decide, hs.1⟩ hno
      | other _ => rfl

/-- The client hears a message. -/
theorem Attends.heard (h : Attends st (b :: back)) (hturn : Turn st b st') : Attends st' back := by
  intro l b' r hback hreq
  have hrun := h (b :: l) b' r (by rw [hback]; rfl) hreq
  cases hrun with
  | cons hstep hrest =>
      rw [hturn.unique hstep]
      exact hrest

/-- The server queues messages for a slot in the state `st'`. -/
theorem Attends.queued (h : Attends st back) (hrun : turnLts.Run st back st')
    (hout : ∀ l b r, out = l ++ b :: r → isReq b = true → l = [] ∧ st' = .authOk) :
    Attends st (back ++ out) := by
  intro l b r hsplit hreq
  rcases List.append_eq_append_iff.mp hsplit with ⟨l', hl, hr⟩ | ⟨l', hback, hr⟩
  · obtain ⟨rfl, rfl⟩ := hout l' b r hr hreq
    rw [hl, List.append_nil]
    exact hrun
  · cases l' with
    | nil =>
        obtain ⟨-, rfl⟩ := hout [] b r hr.symm hreq
        rw [hback, List.append_nil] at hrun
        exact hrun
    | cons b' l' =>
        have hb : b = b' := (List.cons.inj hr).1
        subst hb
        exact h l b l' hback hreq

end Attends

/-! ## The dialogue -/

/-- Every request on its way to the client finds it logged in. -/
def Dialogue.Attentive (s : Dialogue) : Prop :=
  ∀ fd i, s.conn = some fd → At s.srv fd i →
    Attends s.clt.st (s.down ++ (s.srv.clients i).q.map Mbuf.b)

section Steps

variable {s t : Dialogue}

/-- A step of the client takes the first message off, or none. -/
theorem Dialogue.ClientTurn.attends {e : CltEvent} {back : List Bytes} {st : CltState}
    (hturn : s.ClientTurn e t) (hok : CltOk s.clt) (hagree : Agree s.clt s.up (s.down ++ back) st)
    (h : Attends s.clt.st (s.down ++ back)) : Attends t.clt.st (t.down ++ back) := by
  have hdown := hturn.down
  cases hmsg : e.message s.clt with
  | none =>
      rw [hmsg] at hdown
      rw [(Clt.cltStep_calls hturn.step.2 hturn.steady hmsg).st, show t.down = s.down from hdown.symm]
      exact h
  | some p =>
      obtain ⟨env, m⟩ := p
      rw [hmsg] at hdown
      obtain ⟨hm, hproc⟩ := cltStep_message hok.rbuf hmsg hturn.step.2
      rw [hdown] at h hagree
      have hagree' : Agree { s.clt with rbuf := none } s.up (m.b :: (t.down ++ back)) st :=
        ⟨hagree.connected, hagree.run, hagree.proper, hagree.auths, hagree.tickets⟩
      obtain ⟨st', hmove, -, hst, -⟩ := hagree'.told hm hproc
      rw [hst]
      exact Attends.heard h hmove

/-- A step of the server queues messages behind it. -/
theorem Dialogue.ServerTurn.attends {e : SrvEvent} {fd : Int} {i j : Nat}
    (hturn : s.ServerTurn e t) (hsrv : (srvLts fun _ => True).Reachable s.srv)
    (hdown : t.down = s.down ++ sentTo s.srv fd e) (hi : At s.srv fd i) (hj : At t.srv fd j)
    (hagree : Agree s.clt s.up (s.down ++ (s.srv.clients i).q.map Mbuf.b) (s.srv.clients i).st)
    (h : Attends s.clt.st (s.down ++ (s.srv.clients i).q.map Mbuf.b)) :
    Attends t.clt.st (t.down ++ (t.srv.clients j).q.map Mbuf.b) := by
  have hok := (slotsOk_inductive _).invariant s.srv hsrv
  obtain ⟨out, hq, hout⟩ := requests_queued hok hturn.step.1 hturn.step.2.2 hi hj
  rw [hturn.clt, hdown, List.append_assoc, hq, ← List.append_assoc]
  exact h.queued hagree.run hout

end Steps

/-- **No request finds the client anywhere else**, in every reachable state. -/
theorem attentive_inductive :
    dialogueLts.Inductive fun s => DialogueOk s ∧ s.Attentive where
  init := by
    intro s hs
    refine ⟨dialogueOk_inductive.init s hs, fun fd i hconn => ?_⟩
    rw [hs.2.2.1] at hconn
    cases hconn
  step := by
    rintro s e t ⟨hs, hatt⟩ hstep
    have ht := dialogueOk_inductive.step s e t hs hstep
    refine ⟨ht, fun fd j hconn' hj => ?_⟩
    have hagree := hs.agree
    cases e with
    | client e =>
        have hturn : s.ClientTurn e t := hstep
        rw [hturn.conn] at hconn'
        rw [hturn.srv] at hj ⊢
        rw [hconn'] at hagree
        obtain ⟨i, hi, h⟩ := hagree
        have hok := (slotsOk_inductive _).invariant s.srv hs.srv
        obtain rfl := hok.at_unique hi hj
        exact hturn.attends hs.clt h (hatt fd i hconn' hi)
    | server e =>
        have hturn : s.ServerTurn e t := hstep
        have hwire := hturn.wire
        unfold Dialogue.Carries at hwire
        have hok := (slotsOk_inductive _).invariant s.srv hs.srv
        cases hconn : s.conn with
        | none =>
            rw [hconn] at hagree hwire
            -- Nothing is on its way to a connection that has just been accepted.
            obtain ⟨hacc, -⟩ := hwire.2.2 fd hconn'
            obtain ⟨-, hq⟩ := accepted_slot hok hturn.step.1 hturn.step.2.2 hacc hj
            rw [hwire.2.1, hagree.1, hq]
            exact .nil _
        | some fd' =>
            rw [hconn] at hagree hwire
            obtain ⟨i, hi, h⟩ := hagree
            obtain ⟨hconn'', -, -, hdown⟩ := hwire
            obtain rfl : fd' = fd := Option.some.inj (hconn''.symm.trans hconn')
            exact hturn.attends hs.srv hdown hi hj h (hatt fd' i hconn hi)

/-- A step that completes a request is one of a client that is logged in. -/
theorem request_heard {s t : Dialogue} {e : CltEvent} {env : CltEnv} {m : Mbuf}
    (hs : dialogueLts.Reachable s) (hstep : dialogueLts.step s (.client e) t)
    (hmsg : e.message s.clt = some (env, m)) (hreq : isReq m.b = true) : s.clt.st = .authOk := by
  obtain ⟨hok, hatt⟩ := attentive_inductive.invariant s hs
  have hturn : s.ClientTurn e t := hstep
  have hdown := hturn.down
  rw [hmsg] at hdown
  have hagree := hok.agree
  cases hconn : s.conn with
  | none =>
      -- Nothing arrives before the connection is accepted.
      rw [hconn] at hagree
      rw [hagree.1] at hdown
      exact absurd hdown.symm (List.append_ne_nil_of_left_ne_nil (List.cons_ne_nil m.b []) _)
  | some fd =>
      rw [hconn] at hagree
      obtain ⟨i, hi, -⟩ := hagree
      have hrun := hatt fd i hconn hi [] m.b (t.down ++ (s.srv.clients i).q.map Mbuf.b)
        (by rw [hdown]; rfl) hreq
      generalize s.clt.st = st at hrun ⊢
      cases hrun
      rfl

end Frelay
