import Frelay.Client.Delivery
import Frelay.Client.Pending
import Frelay.Client.Speech

/-!
# Steps that have nothing to do with a delivery

While a file is delivered both clients go on with other things. A step is aloof if it is no
`accept`, hears nothing that has to do with GETFILE, and leaves the transfers, the files and
the session alone.

* `aloof_write`, `aloof_read` — writing, and reading a part of a message, always are;
* `CltEvent.Aloof.utters` — an aloof step says nothing that has to do with GETFILE;
* `CltEvent.Aloof.lingers` — a GETFILE request stays queued or pending.
-/

namespace Frelay

open Lib

/-- The message has to do with GETFILE. -/
def OfGetfile (m : Mbuf) : Prop := mtypeCutClass (hdrGetType m) = MTYPE_GETFILE

theorem AsksFor.ofGetfile {m : Mbuf} {rid oid : UInt64} (h : AsksFor m rid oid) : OfGetfile m := by
  rw [OfGetfile, h.1]
  decide

theorem ServesFor.ofGetfile {m : Mbuf} {dstid oid : UInt64} (h : ServesFor m dstid oid) :
    OfGetfile m := by
  rw [OfGetfile, h.1]
  decide

/-- The step has nothing to do with a delivery. -/
structure CltEvent.Aloof (c : Clt) (e : CltEvent) : Prop where
  accept : ∀ rid oid env, e ≠ .cmd (.accept rid oid) env
  message : ∀ env m, e.message c = some (env, m) → ¬ OfGetfile m
  table : ∀ t, cltStep c e = some t → 0 ≤ t.srvfd → Clt.SameTable c t ∧ t.st = c.st

/-- From `c` to `t` the transfers, the files and the session stay as they are, and GETFILE
requests stay queued or pending. -/
structure Clt.Lingers (c t : Clt) : Prop where
  table : Clt.SameTable c t
  st : t.st = c.st
  waits : ∀ q ∈ c.requests, hdrGetType q = MsgType.code .getfileReq → q ∈ t.requests
  kept : ∀ b ∈ (c.q ++ c.requests).map Mbuf.b, hdrGetType (msg b) = MsgType.code .getfileReq →
    b ∈ (t.q ++ t.requests).map Mbuf.b

theorem Clt.Lingers.refl (c : Clt) : Clt.Lingers c c :=
  ⟨⟨rfl, rfl, rfl⟩, rfl, fun _ hq _ => hq, fun _ hb _ => hb⟩

section Aloof

variable {c t : Clt} {e : CltEvent} {env : CltEnv} {m : Mbuf}

theorem not_online_disc (c : Clt) : ¬ 0 ≤ c.disc.srvfd := (by decide : ¬ (0 : Int) ≤ -1)

theorem aloof_write (c : Clt) (res : WriteRes) : (CltEvent.write res).Aloof c where
  accept := fun rid oid env h => by cases h
  message := fun env m h => by cases h
  table := by
    intro t h hup
    change Clt.writeSrv c res = some t at h
    unfold Clt.writeSrv at h
    split at h
    · cases h
    · split at h
      · cases h
        exact absurd hup (not_online_disc c)
      · cases h
        exact ⟨⟨rfl, rfl, rfl⟩, rfl⟩
      · rename_i m' _
        cases h
        split
        · obtain ⟨htable, hst, -⟩ := dequeueMsg_spec (c := { c with q := m' :: _ }) rfl
          exact ⟨htable, hst⟩
        · exact ⟨⟨rfl, rfl, rfl⟩, rfl⟩

/-- A read that completes no message. -/
theorem aloof_read {res : ReadRes} (hnone : (CltEvent.read res env).message c = none) :
    (CltEvent.read res env).Aloof c where
  accept := fun rid oid env h => by cases h
  message := fun env m h => by
    rw [hnone] at h
    cases h
  table := by
    intro t h hup
    rw [CltEvent.message_read] at hnone
    change Clt.readSrv env c res = some t at h
    unfold Clt.readSrv at h
    simp only at h
    split at h
    · cases h
      exact absurd hup (not_online_disc _)
    · cases h
      exact ⟨⟨rfl, rfl, rfl⟩, rfl⟩
    · cases h
    · cases h
      exact ⟨⟨rfl, rfl, rfl⟩, rfl⟩
    · rename_i m hout
      rw [hout] at hnone
      cases hnone

/-- A read that completes no message leaves the pending requests alone. -/
theorem readSrv_requests {res : ReadRes} (hnone : (CltEvent.read res env).message c = none)
    (h : Clt.readSrv env c res = some t) : t.requests = c.requests := by
  rw [CltEvent.message_read] at hnone
  unfold Clt.readSrv at h
  simp only at h
  split at h
  · cases h
    rfl
  · cases h
    rfl
  · cases h
  · cases h
    rfl
  · rename_i m hout
    rw [hout] at hnone
    cases hnone

/-- A request at the head of the queue stays there until it is sent, and then it is pending. -/
theorem write_kept {res : WriteRes} (h : Clt.writeSrv c res = some t)
    (htype : hdrGetType (msg m.b) = MsgType.code .getfileReq) (hm : m ∈ c.q) :
    m.b ∈ (t.q ++ t.requests).map Mbuf.b := by
  have hstays : ∀ {c : Clt}, m ∈ c.q → m.b ∈ (c.q ++ c.requests).map Mbuf.b := fun hm =>
    List.mem_map_of_mem (List.mem_append_left _ hm)
  unfold Clt.writeSrv at h
  split at h
  · cases h
  · rename_i m₀ q hq
    split at h
    · cases h
      exact hstays hm
    · cases h
      exact hstays hm
    · rename_i m' hout
      obtain ⟨hb, -⟩ := octetsSent_of_sent hout
      cases h
      rw [hq] at hm
      split
      · obtain ⟨-, -, -, hq', -, hpend⟩ := dequeueMsg_spec (c := { c with q := m' :: q }) rfl
        rcases List.mem_cons.mp hm with rfl | hm
        · rw [← hb]
          refine List.mem_map_of_mem (List.mem_append_right _ (hpend ?_))
          rw [show hdrGetType m' = hdrGetType (msg m'.b) from rfl, hb, htype]
          decide
        · exact hstays (hq'.symm ▸ hm)
      · rcases List.mem_cons.mp hm with rfl | hm
        · rw [← hb]
          exact List.mem_map_of_mem (List.mem_append_left _ List.mem_cons_self)
        · exact hstays (List.mem_cons_of_mem m' hm)

/-- A message that has nothing to do with GETFILE answers no GETFILE request. -/
theorem waits_of_not_getfile {q : Mbuf} (hm : 40 ≤ m.bsize) (hno : ¬ OfGetfile m)
    (h : Clt.processSrvmsg env c m = some t) (hq : q ∈ c.requests)
    (htype : hdrGetType q = MsgType.code .getfileReq) : q ∈ t.requests := by
  have hans : ¬ Clt.Answers m q := by
    rintro ⟨-, -, hclass⟩
    refine hno ?_
    rw [OfGetfile, ← hclass, htype]
    decide
  rcases Clt.processSrvmsg_matched hm h with ⟨-, rfl⟩ | ⟨c', hsol, hreq⟩
  · exact hq
  · rw [hreq]
    unfold Clt.solicited at hsol
    split at hsol
    · obtain ⟨⟨r, u⟩, hmatch, rfl⟩ := Option.map_eq_some_iff.mp hsol
      obtain ⟨r', -, heq⟩ := Option.map_eq_some_iff.mp hmatch
      cases heq
      exact (List.mem_eraseP_of_neg (by simpa using hans)).mpr hq
    · cases hsol
      exact hq

namespace CltEvent.Aloof

/-- An aloof step says nothing that has to do with GETFILE. -/
theorem utters {r : Mbuf} (h : e.Aloof c) (hr : e.Utters c (hdrGetType r)) : ¬ OfGetfile r := by
  intro hget
  rcases hr.getfile hget with ⟨rid, oid, env, rfl⟩ | ⟨env, m, hmsg, hm⟩
  · exact h.accept rid oid env rfl
  · exact h.message env m hmsg hm

/-- A GETFILE request that waits for its response goes on waiting, if it is given the time. -/
theorem waits {q : Mbuf} (h : e.Aloof c) (hc : RecvOk c.rbuf)
    (hpat : ∀ env, e = .upkeep env → (c.upkeepPending env.now).requests = c.requests)
    (hstep : cltStep c e = some t) (hup : 0 ≤ t.srvfd) (hq : q ∈ c.requests)
    (htype : hdrGetType q = MsgType.code .getfileReq) : q ∈ t.requests := by
  cases hmsg : e.message c with
  | some p =>
      obtain ⟨env, m⟩ := p
      obtain ⟨hm, hproc⟩ := cltStep_message hc hmsg hstep
      exact waits_of_not_getfile (c := { c with rbuf := none }) hm (h.message env m hmsg) hproc hq htype
  | none =>
      cases e with
      | cmd cmd env =>
          rw [Clt.runCmd_requests hstep]
          exact hq
      | read res env =>
          rw [readSrv_requests hmsg hstep]
          exact hq
      | write res =>
          change Clt.writeSrv c res = some t at hstep
          unfold Clt.writeSrv at hstep
          split at hstep
          · cases hstep
          · split at hstep
            · cases hstep
              exact hq
            · cases hstep
              exact hq
            · rename_i m' _
              cases hstep
              split
              · obtain ⟨-, -, -, -, hsub, -⟩ := dequeueMsg_spec (c := { c with q := m' :: _ }) rfl
                exact hsub hq
              · exact hq
      | upkeep env =>
          cases hstep
          have hreq : (Clt.upkeep env c).requests = (c.upkeepPending env.now).requests := by
            unfold Clt.upkeep
            split
            · rfl
            · rfl
          rw [hreq, hpat env rfl]
          exact hq
      | outside fs =>
          cases hstep
          exact hq

/-- A GETFILE request that is queued is sent, and then waits for its response. -/
theorem lingers (h : e.Aloof c) (hc : RecvOk c.rbuf)
    (hpat : ∀ env, e = .upkeep env → (c.upkeepPending env.now).requests = c.requests)
    (hstep : cltStep c e = some t) (hup : 0 ≤ t.srvfd) : Clt.Lingers c t where
  table := (h.table t hstep hup).1
  st := (h.table t hstep hup).2
  waits := fun q hq htype => h.waits hc hpat hstep hup hq htype
  kept := by
    intro b hb htype
    obtain ⟨m, hm, rfl⟩ := List.mem_map.mp hb
    rcases List.mem_append.mp hm with hq | hr
    · by_cases hwrite : ∃ res, e = .write res
      · obtain ⟨res, rfl⟩ := hwrite
        exact write_kept hstep htype hq
      · obtain ⟨-, new, hnew, -⟩ := cltStep_utters hc (fun res heq => hwrite ⟨res, heq⟩) hstep
        rw [hnew]
        exact List.mem_map_of_mem (List.mem_append_left _ (List.mem_append_left _ hq))
    · exact List.mem_map_of_mem (List.mem_append_right _ (h.waits hc hpat hstep hup hr htype))

end CltEvent.Aloof

end Aloof

end Frelay
