import Frelay.Client.Downloads
import Frelay.Session.Turns

/-!
# What a client utters

Which messages a step of the client puts into its send queue depends on its cause: a
command composes its request, a message is answered by one of the type that goes with it
or by an error, and the upkeep pings the server.

* `CltEvent.Utters` — the types of message that a step may queue;
* `cltStep_utters` — a step queues no others, and leaves the configuration alone.
-/

namespace Frelay

open Lib

/-- The request that a command sends. -/
def CltCmd.request : CltCmd → Option MsgType
  | .accept _ _ => some .getfileReq
  | .offer _ _ => some .offerReq
  | .login _ _ => some .loginReq
  | .logout => some .logoutReq
  | .register _ => some .registerReq
  | .drop => some .dropReq
  | .ping _ _ => some .pingReq
  | .peerlist => some .peerlistReq
  | .remove _ | .connect _ | .disconnect | .exit | .cd _ => none

/-- The message that one of the type leads to, when all goes well. -/
def MsgType.answer : MsgType → Option MsgType
  | .pingReq | .pingInd => some .pingRes
  | .offerReq => some .offerRes
  | .getfileReq => some .getfileRes
  | .getfileRes => some .getfileReq
  | .loginRes => some .authReq
  | _ => none

/-- The types of the messages that a step may queue. -/
inductive CltEvent.Utters (c : Clt) : CltEvent → UInt16 → Prop
  | request {cmd : CltCmd} {env : CltEnv} {t : MsgType} : cmd.request = some t →
      Utters c (.cmd cmd env) t.code
  | answer {e : CltEvent} {env : CltEnv} {m : Mbuf} {t u : MsgType} :
      e.message c = some (env, m) → hdrGetType m = t.code → t.answer = some u → Utters c e u.code
  | error {e : CltEvent} {env : CltEnv} {m : Mbuf} : e.message c = some (env, m) →
      Utters c e (mclassToErr (hdrGetType m))
  | ping {env : CltEnv} : Utters c (.upkeep env) (MsgType.code .pingInd)

namespace Clt

variable {env : CltEnv} {c c' t : Clt} {m : Mbuf} {a : Answer}

/-! ## Answers -/

/-- The handler keeps the configuration, and what it sends is of the type `u`. -/
structure Curt (u : MsgType) (c c' : Clt) (a : Answer) : Prop where
  cfg : c'.cfg = c.cfg
  send : ∀ r, a = .send r → hdrGetType r = u.code

namespace Curt

variable {u : MsgType}

theorem nothing (hcfg : c'.cfg = c.cfg) : Curt u c c' .nothing := ⟨hcfg, nofun⟩

theorem fails (ec : ScEnum) (hcfg : c'.cfg = c.cfg) : Curt u c c' (.fail ec) := ⟨hcfg, nofun⟩

theorem sends {r : Mbuf} (hcfg : c'.cfg = c.cfg) (htype : hdrGetType r = u.code) :
    Curt u c c' (.send r) := by
  refine ⟨hcfg, fun r' heq => ?_⟩
  cases heq
  exact htype

end Curt

theorem processPing_curt (h : processPing env c m = some (c', a)) : Curt .pingRes c c' a := by
  unfold processPing at h
  split at h
  · obtain ⟨r, hr, heq⟩ := Option.bind_eq_some_iff.mp h
    cases heq
    exact .sends rfl (hdrGetType_compose (by simp [AttrArg.avtype, MsgAttrib.avtype]) hr)
  · cases h
    exact .nothing rfl

theorem processOfferReq_curt (h : processOfferReq env c m = some (c', a)) : Curt .offerRes c c' a := by
  unfold processOfferReq at h
  split at h
  · simp only at h
    split at h
    · cases h
      exact .fails _ rfl
    · obtain ⟨r, hr, heq⟩ := Option.bind_eq_some_iff.mp h
      cases heq
      exact .sends rfl (hdrGetType_compose (by simp [AttrArg.avtype, MsgAttrib.avtype]) hr)
  · cases h
    exact .nothing rfl

theorem processGetfileReq_curt (h : processGetfileReq env c m = some (c', a)) :
    Curt .getfileRes c c' a := by
  have hresponse : ∀ {c₁ : Clt} {oid : UInt64} {data : Bytes},
      getfileResponse env c₁ m oid data = some (c', a) → c₁.cfg = c.cfg →
        Curt .getfileRes c c' a := by
    intro c₁ oid data h hcfg
    obtain ⟨rfl, r, rfl, htype, -⟩ := getfileResponse_spec h
    exact .sends hcfg htype
  unfold processGetfileReq at h
  split at h
  · cases h
    exact .nothing rfl
  · simp only at h
    split at h
    · cases h
      exact .fails _ rfl
    · split at h
      · exact hresponse h rfl
      · split at h
        · cases h
        · cases h
          exact .fails _ rfl
        · exact hresponse h rfl

theorem processOfferRes_silent (h : processOfferRes env c m = some (c', a)) :
    c'.cfg = c.cfg ∧ a = .nothing := by
  unfold processOfferRes at h
  split at h
  · cases h
    exact ⟨rfl, rfl⟩
  · split at h
    · cases h
      exact ⟨rfl, rfl⟩
    · cases h
      exact ⟨rfl, rfl⟩

theorem processGetfileRes_curt (h : processGetfileRes env c m = some (c', a)) :
    Curt .getfileReq c c' a := by
  unfold processGetfileRes at h
  split at h
  · cases h
    exact .nothing rfl
  · simp only at h
    split at h
    · cases h
      exact .nothing rfl
    · split at h
      · cases h
        exact .nothing rfl
      · split at h
        · cases h
          exact .nothing rfl
        · split at h
          · cases h
            exact .nothing rfl
          · obtain ⟨r, hr, heq⟩ := Option.bind_eq_some_iff.mp h
            cases heq
            exact .sends rfl (getfileRequest_spec hr).1

theorem processLoginRes_curt (h : processLoginRes env c m = some (c', a)) : Curt .authReq c c' a := by
  unfold processLoginRes at h
  split at h
  · split at h
    · cases h
      exact .nothing rfl
    · split at h
      · cases h
        exact .nothing rfl
      · split at h
        · split at h
          · obtain ⟨r, hr, heq⟩ := Option.bind_eq_some_iff.mp h
            cases heq
            exact .sends rfl (hdrGetType_compose (by simp [AttrArg.avtype, MsgAttrib.avtype]) hr)
          · cases h
            exact .nothing rfl
        · cases h
          exact .nothing rfl
  · cases h
    exact .nothing rfl

/-- A handler that moves the session, or leaves it alone. -/
theorem session_silent {p : Prop} [Decidable p] {st : CltState}
    (h : (if p then some ({ c with st := st }, Answer.nothing) else some (c, .nothing)) =
      some (c', a)) : c'.cfg = c.cfg ∧ a = .nothing := by
  split at h
  · cases h
    exact ⟨rfl, rfl⟩
  · cases h
    exact ⟨rfl, rfl⟩

/-- The answer to a message is of the type that goes with it. -/
theorem dispatchSrvmsg_answer (h : dispatchSrvmsg env c m = some (c', a)) :
    c'.cfg = c.cfg ∧ ∀ r, a = .send r → ∃ t u : MsgType, hdrGetType m = t.code ∧
      t.answer = some u ∧ hdrGetType r = u.code := by
  have hcurt : ∀ {t u : MsgType}, MsgType.ofCode? (hdrGetType m) = some t → t.answer = some u →
      Curt u c c' a → c'.cfg = c.cfg ∧ ∀ r, a = .send r → ∃ t u : MsgType,
        hdrGetType m = t.code ∧ t.answer = some u ∧ hdrGetType r = u.code := fun ht hu hcurt =>
    ⟨hcurt.cfg, fun r hr => ⟨_, _, (MsgType.ofCode?_eq_some.mp ht), hu, hcurt.send r hr⟩⟩
  have hsilent : c'.cfg = c.cfg ∧ a = .nothing → c'.cfg = c.cfg ∧ ∀ r, a = .send r →
      ∃ t u : MsgType, hdrGetType m = t.code ∧ t.answer = some u ∧ hdrGetType r = u.code := by
    rintro ⟨hcfg, rfl⟩
    exact ⟨hcfg, fun r hr => by cases hr⟩
  unfold dispatchSrvmsg at h
  split at h
  · exact hcurt ‹_› rfl (processPing_curt h)
  · exact hcurt ‹_› rfl (processPing_curt h)
  · exact hcurt ‹_› rfl (processOfferReq_curt h)
  · exact hcurt ‹_› rfl (processGetfileReq_curt h)
  · exact hsilent (processOfferRes_silent h)
  · exact hcurt ‹_› rfl (processGetfileRes_curt h)
  · exact hcurt ‹_› rfl (processLoginRes_curt h)
  · exact hsilent (session_silent h)
  · exact hsilent (session_silent h)
  · exact hsilent (session_silent h)
  · cases h
    exact ⟨rfl, fun r hr => by cases hr⟩

/-! ## Steps -/

/-- From `c` to `t` the configuration stays, and what is queued is of types that satisfy `p`. -/
structure Speaks (c t : Clt) (p : UInt16 → Prop) : Prop where
  cfg : t.cfg = c.cfg
  queue : ∃ new, t.q = c.q ++ new ∧ ∀ r ∈ new, p (hdrGetType r)

variable {p : UInt16 → Prop}

theorem Speaks.of_same (hcfg : t.cfg = c.cfg) (hq : t.q = c.q) : Speaks c t p :=
  ⟨hcfg, [], hq.trans (List.append_nil _).symm, fun _ hr => absurd hr List.not_mem_nil⟩

theorem processSrvmsg_speaks {e : CltEvent} {u : Clt} (hm : 40 ≤ m.bsize)
    (hmsg : e.message u = some (env, m)) (h : processSrvmsg env c m = some t) :
    Speaks c t (e.Utters u) := by
  rcases processSrvmsg_cases hm h with rfl | ⟨c₁, c₂, a, new, hsol, hdisp, -, rfl, hsends⟩
  · exact .of_same rfl rfl
  · obtain ⟨-, ⟨hq, -, -⟩, -⟩ := solicited_spec hsol
    obtain ⟨hcfg, hanswer⟩ := dispatchSrvmsg_answer hdisp
    refine ⟨hcfg.trans (solicited_cfg hsol), new, ?_, fun r hr => ?_⟩
    · exact congrArg (· ++ new) ((dispatch_q hdisp).trans hq)
    · cases a with
      | nothing =>
          rw [show new = [] from hsends] at hr
          exact absurd hr List.not_mem_nil
      | send r' =>
          rw [show new = [{ r' with boff := 0 }] from hsends] at hr
          rw [List.mem_singleton.mp hr]
          obtain ⟨T, U, htype, hu, hr'⟩ := hanswer r' rfl
          show e.Utters u (hdrGetType r')
          rw [hr']
          exact .answer hmsg htype hu
      | fail ec =>
          obtain ⟨r', rfl, htype⟩ := hsends
          rw [List.mem_singleton.mp hr]
          show e.Utters u (hdrGetType r')
          rw [htype]
          exact .error hmsg

/-- A command that composes one request. -/
theorem request_speaks {type : MsgType} {u : Clt} {dstid : UInt64} {l : List (MsgAttrib × AttrArg)}
    (hcfg : u.cfg = c.cfg) (hq : u.q = c.q) (hnext : u.nextAddr = c.nextAddr)
    (hty : ∀ a ∈ l, a.2.avtype = a.1.avtype) (h : request env u type dstid l = some t)
    (hp : p type.code) : Speaks c t p ∧ t.nextAddr = c.nextAddr := by
  obtain ⟨new, rfl, hnew⟩ := request_spec hty h
  refine ⟨⟨hcfg, new, congrArg (· ++ new) hq, fun r hr => ?_⟩, hnext⟩
  rw [hnew r hr]
  exact hp

/-- A command queues its request, or nothing; all but `offer` add nothing to the transfers. -/
theorem runCmd_speaks {cmd : CltCmd} (h : runCmd env c cmd = some t) :
    Speaks c t ((CltEvent.cmd cmd env).Utters c) ∧
      ((∀ dest filename, cmd ≠ .offer dest filename) → t.nextAddr = c.nextAddr) := by
  have hself : ∀ {p}, Speaks c c p := .of_same rfl rfl
  -- A command that composes a request of its type.
  have hreq : ∀ {type : MsgType} {u : Clt} {dstid : UInt64} {l : List (MsgAttrib × AttrArg)},
      cmd.request = some type → u.cfg = c.cfg → u.q = c.q → u.nextAddr = c.nextAddr →
      (∀ a ∈ l, a.2.avtype = a.1.avtype) → request env u type dstid l = some t →
      Speaks c t ((CltEvent.cmd cmd env).Utters c) ∧
        ((∀ dest filename, cmd ≠ .offer dest filename) → t.nextAddr = c.nextAddr) := by
    intro type u dstid l htype hcfg hq hnext hty h
    have hp : (CltEvent.cmd cmd env).Utters c type.code := .request htype
    obtain ⟨hspeaks, hnext'⟩ := request_speaks hcfg hq hnext hty h hp
    exact ⟨hspeaks, fun _ => hnext'⟩
  cases cmd with
  | accept rid oid =>
      rcases cmdAccept_cases h with rfl | ⟨d, k, d', new, hcase, rfl⟩
      · exact ⟨hself, fun _ => rfl⟩
      · refine ⟨⟨rfl, new, rfl, fun r hr => ?_⟩, fun _ => rfl⟩
        rw [(hcase.send r hr).1]
        exact .request rfl
  | offer dest filename =>
      have hadds : ∀ {p : Prop}, ((∀ dest' filename', CltCmd.offer dest filename ≠ .offer dest' filename') → p) :=
        fun hne => absurd rfl (hne dest filename)
      change cmdOffer env c dest filename = some t at h
      unfold cmdOffer at h
      split at h
      · cases h
        exact ⟨hself, hadds⟩
      · split at h
        · cases h
          exact ⟨hself, hadds⟩
        · obtain ⟨new, rfl, hnew⟩ := request_spec (by simp [AttrArg.avtype, MsgAttrib.avtype]) h
          refine ⟨⟨rfl, new, rfl, fun r hr => ?_⟩, hadds⟩
          rw [hnew r hr]
          exact .request rfl
  | remove mask =>
      cases h
      exact ⟨.of_same rfl rfl, fun _ => rfl⟩
  | connect fd =>
      cases h
      cases fd with
      | none => exact ⟨.of_same rfl rfl, fun _ => rfl⟩
      | some n => exact ⟨.of_same rfl rfl, fun _ => rfl⟩
  | disconnect =>
      cases h
      unfold cmdDisconnect
      split
      · exact ⟨.of_same rfl rfl, fun _ => rfl⟩
      · exact ⟨.of_same rfl rfl, fun _ => rfl⟩
  | exit => cases h
  | login user password =>
      change cmdLogin env c user password = some t at h
      unfold cmdLogin at h
      cases password with
      | none => exact hreq rfl rfl rfl rfl (by simp [AttrArg.avtype, MsgAttrib.avtype]) h
      | some p =>
          exact hreq (u := { c with pubkey := some p }) rfl rfl rfl rfl
            (by simp [AttrArg.avtype, MsgAttrib.avtype]) h
  | logout => exact hreq rfl rfl rfl rfl (by simp) h
  | register password =>
      exact hreq rfl rfl rfl rfl (by simp [AttrArg.avtype, MsgAttrib.avtype]) h
  | drop => exact hreq rfl rfl rfl rfl (by simp) h
  | ping dest notice =>
      refine hreq rfl rfl rfl rfl ?_ h
      intro a ha
      obtain ⟨s, -, rfl⟩ := List.mem_map.mp ha
      rfl
  | peerlist => exact hreq rfl rfl rfl rfl (by simp) h
  | cd dir =>
      cases h
      exact ⟨.of_same rfl rfl, fun _ => rfl⟩

theorem upkeep_speaks (env : CltEnv) (c : Clt) :
    Speaks c (upkeep env c) ((CltEvent.upkeep env).Utters c) ∧
      (upkeep env c).nextAddr = c.nextAddr := by
  by_cases hst : c.st = .authOk
  · unfold upkeep
    rw [if_pos hst]
    refine ⟨⟨rfl, [{ mbufCompose env.ntime .pingInd 0 0 env.rnd with boff := 0 }], rfl, ?_⟩, rfl⟩
    intro r hr
    rw [List.mem_singleton.mp hr]
    change (CltEvent.upkeep env).Utters c (hdrGetType (mbufCompose env.ntime .pingInd 0 0 env.rnd))
    rw [mbufCompose_eq, hdrGetType_mkMsg]
    exact .ping
  · unfold upkeep
    rw [if_neg hst]
    exact ⟨.of_same rfl rfl, rfl⟩

/-- A write, whose queue gets shorter, keeps the rest. -/
theorem writeSrv_kept {res : WriteRes} (h : writeSrv c res = some t) :
    t.cfg = c.cfg ∧ t.nextAddr = c.nextAddr := by
  unfold writeSrv at h
  split at h
  · cases h
  · split at h
    · cases h
      exact ⟨rfl, rfl⟩
    · cases h
      exact ⟨rfl, rfl⟩
    · cases h
      split
      · unfold dequeueMsg
        simp only
        split
        · exact ⟨rfl, rfl⟩
        · exact ⟨rfl, rfl⟩
      · exact ⟨rfl, rfl⟩

/-- A read that completes no message queues nothing. -/
theorem readSrv_kept {res : ReadRes} (hnone : (CltEvent.read res env).message c = none)
    (h : readSrv env c res = some t) : Speaks c t p ∧ t.nextAddr = c.nextAddr := by
  rw [CltEvent.message_read] at hnone
  unfold readSrv at h
  simp only at h
  split at h
  · cases h
    exact ⟨.of_same rfl rfl, rfl⟩
  · cases h
    exact ⟨.of_same rfl rfl, rfl⟩
  · cases h
  · cases h
    exact ⟨.of_same rfl rfl, rfl⟩
  · rename_i m hout
    rw [hout] at hnone
    cases hnone

end Clt

section Steps

variable {c t : Clt} {e : CltEvent}

/-- **A step queues what its cause calls for**, and nothing else. -/
theorem cltStep_utters (hc : RecvOk c.rbuf) (hne : ∀ res, e ≠ .write res) (h : cltStep c e = some t) :
    Clt.Speaks c t (e.Utters c) := by
  cases e with
  | cmd cmd env => exact (Clt.runCmd_speaks h).1
  | read res env =>
      cases hmsg : (CltEvent.read res env).message c with
      | none => exact (Clt.readSrv_kept hmsg h).1
      | some p =>
          obtain ⟨env', m⟩ := p
          obtain ⟨hm, hproc⟩ := cltStep_message hc hmsg h
          obtain ⟨hcfg, hq⟩ := Clt.processSrvmsg_speaks (c := { c with rbuf := none }) hm hmsg hproc
          exact ⟨hcfg, hq⟩
  | write res => exact absurd rfl (hne res)
  | upkeep env =>
      cases h
      exact (Clt.upkeep_speaks env c).1
  | outside fs =>
      cases h
      exact .of_same rfl rfl

/-- Only `offer` and messages add transfers. -/
theorem cltStep_nextAddr (hoffer : ∀ dest filename env, e ≠ .cmd (.offer dest filename) env)
    (hmsg : e.message c = none) (h : cltStep c e = some t) : t.nextAddr = c.nextAddr := by
  cases e with
  | cmd cmd env =>
      refine (Clt.runCmd_speaks h).2 ?_
      rintro dest filename rfl
      exact hoffer dest filename env rfl
  | read res env => exact (Clt.readSrv_kept (p := fun _ => True) hmsg h).2
  | write res => exact (Clt.writeSrv_kept h).2
  | upkeep env =>
      cases h
      exact (Clt.upkeep_speaks env c).2
  | outside fs =>
      cases h
      rfl

theorem cltStep_cfg (hc : RecvOk c.rbuf) (h : cltStep c e = some t) : t.cfg = c.cfg := by
  by_cases hwrite : ∃ res, e = .write res
  · obtain ⟨res, rfl⟩ := hwrite
    exact (Clt.writeSrv_kept h).1
  · exact (cltStep_utters hc (fun res heq => hwrite ⟨res, heq⟩) h).cfg

end Steps

namespace CltEvent.Utters

variable {c : Clt} {e : CltEvent} {code : UInt16}

/-- Offers are announced by `offer`. -/
theorem offer (h : e.Utters c (MsgType.code .offerReq)) :
    ∃ dest filename env, e = .cmd (.offer dest filename) env := by
  generalize hcode : MsgType.code .offerReq = code at h
  cases h with
  | @request cmd env t hreq =>
      obtain rfl := MsgType.code_injective hcode
      cases cmd with
      | offer dest filename => exact ⟨dest, filename, env, rfl⟩
      | _ => cases hreq
  | @answer e env m t u hmsg htype hu =>
      obtain rfl := MsgType.code_injective hcode
      cases t <;> cases hu
  | @error e env m hmsg =>
      have herr := mclassIsErr_mclassToErr (hdrGetType m)
      rw [← hcode] at herr
      exact absurd herr (by decide)
  | ping => exact absurd (MsgType.code_injective hcode) (by decide)

/-- What has to do with GETFILE is uttered by `accept` and in answer to such a message. -/
theorem getfile (h : e.Utters c code) (hcode : mtypeCutClass code = MTYPE_GETFILE) :
    (∃ rid oid env, e = .cmd (.accept rid oid) env) ∨
      ∃ env m, e.message c = some (env, m) ∧ mtypeCutClass (hdrGetType m) = MTYPE_GETFILE := by
  cases h with
  | @request cmd env t hreq =>
      cases cmd with
      | accept rid oid => exact .inl ⟨rid, oid, env, rfl⟩
      | _ =>
          cases hreq
          all_goals exact absurd hcode (by decide)
  | @answer e env m t u hmsg htype hu =>
      refine .inr ⟨env, m, hmsg, ?_⟩
      rw [htype]
      cases t with
      | getfileReq => decide
      | getfileRes => decide
      | _ =>
          cases hu
          all_goals exact absurd hcode (by decide)
  | @error e env m hmsg =>
      rw [mtypeCutClass_mclassToErr] at hcode
      exact .inr ⟨env, m, hmsg, hcode⟩
  | ping => exact absurd hcode (by decide)

end CltEvent.Utters

end Frelay
