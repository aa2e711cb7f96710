import Frelay.Server.Peerlist

/-!
# How the server answers

A message that is not forwarded is answered by a response, by an error, or not
at all. `Serves` lists every way this can go, with the server it leaves behind,
and `dispatchMsg_serves` says that these are all: the only other outcome is the
end of the process (`Exits`).
-/

namespace Frelay

open Lib

/-! ## Responses -/

/-- The message turned into a response, with attributes. -/
def response (env : MsgEnv) (m : Mbuf) (l : List (MsgAttrib × AttrArg)) : Option Mbuf :=
  (mbufToResponse env.ntime m).bind fun r => l.foldlM (fun m a => addattrib m a.1 a.2) r

/-- The header of that response. -/
def responseHdr (env : MsgEnv) (m : Mbuf) (l : List (MsgAttrib × AttrArg)) : Hdr :=
  ⟨mclassToRes (hdrGetType m), UInt16.ofNat (tlvs l).length, 0, env.ntime, hdrGetDstid m,
    hdrGetSrcid m, hdrGetTrfid m⟩

theorem response_eq {env : MsgEnv} {m : Mbuf} {l : List (MsgAttrib × AttrArg)} (hm : 40 ≤ m.bsize)
    (hty : ∀ a ∈ l, a.2.avtype = a.1.avtype) :
    response env m l = if (tlvs l).length ≤ MSG_MAX_PAY_SIZE then
      some (mkMsg (responseHdr env m l) (tlvs l) 0) else none := by
  obtain ⟨hd, body, boff, rfl⟩ := exists_msg hm
  rw [response, mbufToResponse_eq, Option.bind_some, foldlM_addattrib _ _ _ hty rfl (by decide)]
  simp only [List.nil_append, responseHdr, hdrGetType_mkMsg, hdrGetDstid_mkMsg, hdrGetSrcid_mkMsg,
    hdrGetTrfid_mkMsg]

theorem reply1_eq (env : MsgEnv) (s : Server) (m : Mbuf) (at₁ : MsgAttrib) (v₁ : AttrArg) :
    reply1 env s m at₁ v₁ = (response env m [(at₁, v₁)]).map fun r => (s, some r) := by
  rw [reply1, response]
  cases mbufToResponse env.ntime m with
  | none => rfl
  | some r =>
      simp only [Option.bind_eq_bind, Option.bind_some, List.foldlM_cons, List.foldlM_nil]
      cases addattrib r at₁ v₁ <;> rfl

/-- The attributes of a response that says OK and carries a notice. -/
def noticeAttribs (txt : Bytes) : List (MsgAttrib × AttrArg) := [(.ok, .null), (.notice, .str txt)]

theorem replyNotice_eq (env : MsgEnv) (s : Server) (m : Mbuf) (txt : Bytes) :
    replyNotice env s m txt = (response env m (noticeAttribs txt)).map fun r => (s, some r) := by
  rw [replyNotice, response, noticeAttribs]
  cases mbufToResponse env.ntime m with
  | none => rfl
  | some r =>
      simp only [Option.bind_eq_bind, Option.bind_some, List.foldlM_cons, List.foldlM_nil]
      cases addattrib r .ok .null with
      | none => rfl
      | some r =>
          simp only [Option.bind_some]
          cases addattrib r .notice (.str txt) <;> rfl

theorem processPeerlist_eq {env : MsgEnv} {s : Server} {m : Mbuf}
    (hnamed : ∀ j, s.Live j → (s.clients j).st = .authOk → ∃ n, (s.clients j).name = some n) :
    processPeerlist env s m =
      (response env m ((peers s).flatMap (peerAttribs s))).map fun r => (s, some r) := by
  have hall : ∀ j ∈ s.slots, isPeer s j = true → ∃ n, (s.clients j).name = some n := by
    intro j hj hpeer
    obtain ⟨hlive, hauth⟩ := mem_peers.mp (List.mem_filter.mpr ⟨hj, hpeer⟩)
    exact hnamed j hlive hauth
  rw [processPeerlist, response]
  cases mbufToResponse env.ntime m with
  | none => rfl
  | some r =>
      simp only [Option.bind_eq_bind, Option.bind_some, peerlistFrom_eq hall]
      rw [Option.map_eq_bind]
      rfl

/-! ## Verdicts -/

/-- What the sender gets: nothing, a response with attributes, or an error. -/
inductive Verdict where
  | silence
  | response (l : List (MsgAttrib × AttrArg))
  | error

/-- The receive buffer holds what the verdict says in answer to `m`. -/
def Verdict.Fits (env : MsgEnv) (m : Mbuf) : Verdict → Option Mbuf → Prop
  | .silence, rbuf => rbuf = none
  | .response l, rbuf => rbuf = some (mkMsg (responseHdr env m l) (tlvs l) 0)
  | .error, rbuf => ∃ r, rbuf = some r ∧ IsReply m r ∧ hdrGetType r = mclassToErr (hdrGetType m)

/-- The gates that answer a message before its class is looked at: the sender has
not logged in, or the destination is unknown. -/
def Gated (s : Server) (i : Nat) (m : Mbuf) : Prop :=
  (s.clients i).st ≠ .authOk ∨ (hdrGetDstid m ≠ 0 ∧ hdrGetDstid m ≠ 0xffffffffffffffff ∧
    findDst s (hdrGetDstid m) = none)

instance (s : Server) (i : Nat) (m : Mbuf) : Decidable (Gated s i m) :=
  inferInstanceAs (Decidable (_ ∨ _))

/-- The string attribute that a request to the server starts with. -/
def firstStr (env : MsgEnv) (m : Mbuf) (t : MsgAttrib) : Option Bytes :=
  nextStr env (mbufResetgetattrib m) t

/-- The message is a request of the given type to the server. -/
def IsRequest (m : Mbuf) (t : MsgType) : Prop := hdrGetDstid m = 0 ∧ hdrGetType m = t.code

instance (m : Mbuf) (t : MsgType) : Decidable (IsRequest m t) := inferInstanceAs (Decidable (_ ∧ _))

/-- The message ends the process: the peer list it asks for does not fit into a
message, or the slot it authenticates has no key. -/
def Exits (env : MsgEnv) (s : Server) (i : Nat) (m : Mbuf) : Prop :=
  (IsRequest m .peerlistReq ∧ (s.clients i).st = .authOk ∧ MSG_MAX_PAY_SIZE < peerlistSize s) ∨
    (IsRequest m .authReq ∧ (s.clients i).st = .loginOk ∧
      (firstStr env m .digest).isSome = true ∧ (s.clients i).key = none)

instance (env : MsgEnv) (s : Server) (i : Nat) (m : Mbuf) : Decidable (Exits env s i m) :=
  inferInstanceAs (Decidable (_ ∨ _))

/-! ## Everything serving a message can do -/

/-- The message is a request that the server acts upon. -/
def Acts (env : MsgEnv) (s : Server) (i : Nat) (m : Mbuf) : Prop :=
  hdrGetDstid m = 0 ∧
    match MsgType.ofCode? (hdrGetType m) with
    | some .authReq => True
    | some .loginReq => (s.clients i).st = .preLogin ∧ (firstStr env m .username).isSome = true
    | some .registerReq => (s.clients i).st = .authOk ∧ (firstStr env m .pubkey).isSome = true
    | some .dropReq | some .logoutReq | some .pingReq | some .peerlistReq =>
        (s.clients i).st = .authOk
    | _ => False

/-- How the message `m` of slot `i` is served, and the server afterwards. -/
inductive Serves (env : MsgEnv) (s : Server) (i : Nat) (m : Mbuf) : Verdict → Server → Prop
  | gated : Gated s i m → ¬ Acts env s i m → Serves env s i m .error s
  | refused : mclassIsReq (hdrGetType m) = true → ¬ Acts env s i m → Serves env s i m .error s
  | ignored : mclassIsReq (hdrGetType m) = false → ¬ Gated s i m → Serves env s i m .silence s
  | ping : IsRequest m .pingReq → (s.clients i).st = .authOk →
      Serves env s i m (.response [(.ok, .null)]) s
  | peerlist : IsRequest m .peerlistReq → (s.clients i).st = .authOk →
      Serves env s i m (.response ((peers s).flatMap (peerAttribs s))) s
  | register {n pubkey : Bytes} : IsRequest m .registerReq →
      (s.clients i).st = .authOk → (s.clients i).name = some n →
      firstStr env m .pubkey = some pubkey →
      Serves env s i m
        (if (udbAddentry env.db2 (udbDropentry env.db1 s.udb n).1 (s.clients i).id n
            (AUTH_KEY_PLAINTEXT ++ pubkey)).2.isSome then
          .response (noticeAttribs TXT_REGISTERED) else .error)
        { s with udb := (udbAddentry env.db2 (udbDropentry env.db1 s.udb n).1 (s.clients i).id n
            (AUTH_KEY_PLAINTEXT ++ pubkey)).1 }
  | drop {n : Bytes} : IsRequest m .dropReq → (s.clients i).st = .authOk →
      (s.clients i).name = some n →
      Serves env s i m
        (if (udbDropentry env.db1 s.udb n).2 = true then .response (noticeAttribs TXT_DROPPED)
          else .error)
        { s with udb := (udbDropentry env.db1 s.udb n).1 }
  | conflict {n : Bytes} : IsRequest m .loginReq →
      (s.clients i).st = .preLogin → firstStr env m .username = some n →
      (udbLookupname env.db1 s.udb n).2 = none → nameInUse s n = true →
      Serves env s i m .error { s with udb := (udbLookupname env.db1 s.udb n).1 }
  | temp {n : Bytes} : IsRequest m .loginReq →
      (s.clients i).st = .preLogin → firstStr env m .username = some n →
      (udbLookupname env.db1 s.udb n).2 = none → nameInUse s n = false →
      Serves env s i m (.response (noticeAttribs s.motdText))
        (({ s with udb := (udbGettempid env.db2 (udbLookupname env.db1 s.udb n).1).1 }).setClient i
          { s.clients i with
            st := .authOk
            id := (udbGettempid env.db2 (udbLookupname env.db1 s.udb n).1).2
            name := some n
            key := none })
  | challenge {n : Bytes} {u : User} : IsRequest m .loginReq →
      (s.clients i).st = .preLogin → firstStr env m .username = some n →
      (udbLookupname env.db1 s.udb n).2 = some u → AUTH_KEY_PLAINTEXT.isPrefixOf u.key = true →
      Serves env s i m (.response [(.challenge, .blob (AUTH_KEY_PLAINTEXT ++ [0]))])
        (({ s with udb := (udbLookupname env.db1 s.udb n).1 }).setClient i
          { s.clients i with st := .loginOk, id := u.id, name := some u.name, key := some u.key })
  | unsupported {n : Bytes} {u : User} : IsRequest m .loginReq →
      (s.clients i).st = .preLogin → firstStr env m .username = some n →
      (udbLookupname env.db1 s.udb n).2 = some u → AUTH_KEY_PLAINTEXT.isPrefixOf u.key = false →
      Serves env s i m .error
        (({ s with udb := (udbLookupname env.db1 s.udb n).1 }).setClient i
          { s.clients i with st := .loginOk, id := u.id, name := some u.name })
  | authFailed : IsRequest m .authReq →
      ((s.clients i).st = .loginOk →
        ∀ key, firstStr env m .digest = some key → (s.clients i).key ≠ some key) →
      Serves env s i m .error (s.setClient i { s.clients i with st := .preLogin })
  | auth {key : Bytes} : IsRequest m .authReq → (s.clients i).st = .loginOk →
      firstStr env m .digest = some key → (s.clients i).key = some key →
      Serves env s i m (.response (noticeAttribs s.motdText))
        ((kickOthers i s.slots s).setClient i { s.clients i with st := .authOk })
  | logout : IsRequest m .logoutReq → (s.clients i).st = .authOk →
      Serves env s i m (.response (noticeAttribs TXT_BYE))
        (s.setClient i { s.clients i with st := .preLogin, id := 0, name := none, key := none })

/-! ## The handlers -/

/-- What serving needs of the server: a message of the day that fits into its
array, and names for the peer list. -/
structure Ready (s : Server) (i : Nat) : Prop where
  live : s.Live i
  motd : s.motdText.length ≤ MOTD_SIZE
  named : ∀ j, s.Live j → (s.clients j).st = .authOk → ∃ n, (s.clients j).name = some n

/-- The outcome is one of the list. -/
def Answered (env : MsgEnv) (s : Server) (i : Nat) (m : Mbuf) (r : Handled) : Prop :=
  ∃ v t rbuf, r = some (t, rbuf) ∧ Serves env s i m v t ∧ v.Fits env m rbuf

theorem response_reset (env : MsgEnv) (m : Mbuf) (l : List (MsgAttrib × AttrArg)) :
    response env (mbufResetgetattrib m) l = response env m l := rfl

/-- The kick loop leaves the message of the day alone. -/
theorem kickOthers_motd (i : Nat) (js : List Nat) (s : Server) :
    (kickOthers i js s).motd = s.motd := by
  induction js generalizing s with
  | nil => rfl
  | cons j js ih =>
      rw [kickOthers, ih]
      split <;> rfl

theorem peerAttribs_typed {s : Server} :
    ∀ a ∈ (peers s).flatMap (peerAttribs s), a.2.avtype = a.1.avtype := by
  intro a ha
  obtain ⟨j, -, hj⟩ := List.mem_flatMap.mp ha
  simp only [peerAttribs, List.mem_cons, List.not_mem_nil, or_false] at hj
  rcases hj with rfl | rfl <;> rfl

section Handlers

variable {env : MsgEnv} {s : Server} {i : Nat} {m : Mbuf}

theorem replyErr_answered (hm : 40 ≤ m.bsize) {t : Server} (ec : ScEnum)
    (h : Serves env s i m .error t) : Answered env s i m (replyErr env t m ec) := by
  have hsome : (mbufToErrorResponse env.ntime m ec).isSome = true := mbufToErrorResponse_isSome hm
  obtain ⟨r, hr⟩ := Option.isSome_iff_exists.mp hsome
  exact ⟨.error, t, some r, by rw [replyErr, hr]; rfl, h, r, rfl, isReply_error_type hm hr⟩

/-- A response that fits into a message. -/
theorem response_answered (hm : 40 ≤ m.bsize) {t : Server} {l : List (MsgAttrib × AttrArg)}
    (hty : ∀ a ∈ l, a.2.avtype = a.1.avtype) (hsz : (tlvs l).length ≤ MSG_MAX_PAY_SIZE)
    (h : Serves env s i m (.response l) t) :
    Answered env s i m ((response env m l).map fun r => (t, some r)) := by
  rw [response_eq hm hty, if_pos hsz]
  exact ⟨.response l, t, _, rfl, h, rfl⟩

theorem notice_fits {txt : Bytes} (hshort : txt.length ≤ MOTD_SIZE) :
    (∀ a ∈ noticeAttribs txt, a.2.avtype = a.1.avtype) ∧
      (tlvs (noticeAttribs txt)).length ≤ MSG_MAX_PAY_SIZE := by
  have hround := roundup8_lt (txt.length + 1)
  have h0 : roundup8 0 = 0 := by decide
  refine ⟨?_, ?_⟩
  · intro a ha
    simp only [noticeAttribs, List.mem_cons, List.not_mem_nil, or_false] at ha
    rcases ha with rfl | rfl <;> rfl
  · simp only [noticeAttribs, tlvs_cons, tlvs_nil, List.append_nil, List.length_append, length_tlv,
      AttrArg.octets, List.length_nil, List.length_singleton, h0]
    unfold MOTD_SIZE at hshort
    unfold MSG_MAX_PAY_SIZE
    omega

theorem replyNotice_answered (hm : 40 ≤ m.bsize) {t : Server} {txt : Bytes}
    (hshort : txt.length ≤ MOTD_SIZE) (h : Serves env s i m (.response (noticeAttribs txt)) t) :
    Answered env s i m (replyNotice env t (mbufResetgetattrib m) txt) := by
  rw [replyNotice_eq, response_reset]
  exact response_answered hm (notice_fits hshort).1 (notice_fits hshort).2 h

theorem IsRequest.type {u : MsgType} (h : IsRequest m u) : MsgType.ofCode? (hdrGetType m) = some u :=
  MsgType.ofCode?_eq_some.mpr h.2

theorem IsRequest.unique {t u : MsgType} (h : IsRequest m t) (h' : IsRequest m u) : t = u :=
  MsgType.code_injective (h.2.symm.trans h'.2)

theorem IsRequest.isReq {u : MsgType} (h : IsRequest m u) (hu : mclassIsReq u.code = true) :
    mclassIsReq (hdrGetType m) = true := by
  rw [h.2]
  exact hu

theorem processNonsense_answered (hm : 40 ≤ m.bsize) (ec : ScEnum) (hgate : ¬ Gated s i m)
    (hna : ¬ Acts env s i m) :
    Answered env s i m (processNonsense env s m ec) := by
  unfold processNonsense
  by_cases hreq : mclassIsReq (hdrGetType m) = true
  · rw [if_pos hreq]
    exact replyErr_answered hm ec (.refused hreq hna)
  · rw [if_neg hreq]
    exact ⟨.silence, s, none, rfl, .ignored (eq_false_of_ne_true hreq) hgate, rfl⟩

theorem processRegister_answered (hm : 40 ≤ m.bsize) (hr : Ready s i)
    (hask : IsRequest m .registerReq) :
    Answered env s i m (processRegister env s i (mbufResetgetattrib m)) := by
  have hreq := hask.isReq (by decide)
  have hacts : Acts env s i m → (s.clients i).st = .authOk ∧
      (firstStr env m .pubkey).isSome = true := by
    rintro ⟨-, h⟩
    rwa [hask.type] at h
  unfold processRegister
  split
  · rename_i hst
    exact replyErr_answered hm _ (.refused hreq fun h => hst (hacts h).1)
  · rename_i hst
    split
    · rename_i hnone
      refine replyErr_answered hm _ (.refused hreq fun h => ?_)
      have hsome := (hacts h).2
      rw [firstStr, hnone] at hsome
      cases hsome
    · rename_i pubkey hkey
      obtain ⟨n, hn⟩ := hr.named i hr.live (not_not.mp hst)
      have hserves : Serves env s i m _ _ := .register hask (not_not.mp hst) hn hkey
      simp only [hn]
      split
      · rename_i u hu
        rw [hu, Option.isSome_some, if_pos rfl] at hserves
        exact replyNotice_answered hm (by decide) hserves
      · rename_i hu
        rw [hu, Option.isSome_none, if_neg Bool.false_ne_true] at hserves
        exact replyErr_answered hm _ hserves

theorem processDrop_answered (hm : 40 ≤ m.bsize) (hr : Ready s i)
    (hask : IsRequest m .dropReq) :
    Answered env s i m (processDrop env s i (mbufResetgetattrib m)) := by
  have hreq := hask.isReq (by decide)
  have hacts : Acts env s i m → (s.clients i).st = .authOk := by
    rintro ⟨-, h⟩
    rwa [hask.type] at h
  unfold processDrop
  split
  · rename_i hst
    exact replyErr_answered hm _ (.refused hreq fun h => hst (hacts h))
  · rename_i hst
    obtain ⟨n, hn⟩ := hr.named i hr.live (not_not.mp hst)
    have hserves : Serves env s i m _ _ := .drop hask (not_not.mp hst) hn
    simp only [hn]
    split
    · rename_i hfound
      rw [if_pos hfound] at hserves
      exact replyNotice_answered hm (by decide) hserves
    · rename_i hfound
      rw [if_neg hfound] at hserves
      exact replyErr_answered hm _ hserves

theorem processLogin_answered (hm : 40 ≤ m.bsize) (hr : Ready s i)
    (hask : IsRequest m .loginReq) :
    Answered env s i m (processLogin env s i (mbufResetgetattrib m)) := by
  have hreq := hask.isReq (by decide)
  have hacts : Acts env s i m → (s.clients i).st = .preLogin ∧
      (firstStr env m .username).isSome = true := by
    rintro ⟨-, h⟩
    rwa [hask.type] at h
  unfold processLogin
  simp only
  split
  · rename_i hst
    exact replyErr_answered hm _ (.refused hreq fun h => hst (hacts h).1)
  · rename_i hst
    have hst' := not_not.mp hst
    split
    · rename_i hnone
      refine replyErr_answered hm _ (.refused hreq fun h => ?_)
      have hsome := (hacts h).2
      rw [firstStr, hnone] at hsome
      cases hsome
    · rename_i n hn
      split
      · rename_i hnone
        split
        · rename_i hused
          exact replyErr_answered hm _ (.conflict hask hst' hn hnone hused)
        · rename_i hfree
          exact replyNotice_answered hm hr.motd
            (.temp hask hst' hn hnone (eq_false_of_ne_true hfree))
      · rename_i u hu
        split
        · rename_i hkey
          rw [reply1_eq, response_reset]
          exact response_answered hm (by simp; rfl) (by decide) (.challenge hask hst' hn hu hkey)
        · rename_i hkey
          exact replyErr_answered hm _ (.unsupported hask hst' hn hu (eq_false_of_ne_true hkey))

/-- An AUTH request of a slot that was sent a challenge finds a key, or exits. -/
theorem processAuth_answered (hm : 40 ≤ m.bsize) (hr : Ready s i) (hask : IsRequest m .authReq)
    (hex : ¬ Exits env s i m) :
    Answered env s i m (processAuth env s i (mbufResetgetattrib m)) := by
  unfold processAuth
  split
  · rename_i hst
    exact replyErr_answered hm _ (.authFailed hask fun hlog => absurd hlog hst)
  · rename_i hst
    have hst' := not_not.mp hst
    split
    · rename_i hnone
      refine replyErr_answered hm _ (.authFailed hask fun _ key hkey => ?_)
      rw [firstStr, hnone] at hkey
      cases hkey
    · rename_i digest hdig
      split
      · rename_i hnone
        refine absurd (.inr ⟨hask, hst', ?_, hnone⟩) hex
        rw [firstStr, hdig]
        rfl
      · rename_i key hkey
        split
        · rename_i hne
          refine replyErr_answered hm _ (.authFailed hask fun _ key' hdig' hkey' => ?_)
          rw [firstStr, hdig, Option.some.injEq] at hdig'
          rw [hkey, Option.some.injEq] at hkey'
          exact hne (hdig'.trans hkey'.symm)
        · rename_i heq
          obtain ⟨-, -, -, hself, -⟩ := kickOthers_spec i s.slots s
          have hserves := Serves.auth hask hst' hdig (hkey.trans (congrArg some (not_not.mp heq).symm))
          have hmotd : ((kickOthers i s.slots s).setClient i
              { (kickOthers i s.slots s).clients i with st := .authOk }).motdText = s.motdText := by
            rw [Server.motdText, Server.setClient_motd, kickOthers_motd, Server.motdText]
          simp only
          rw [hmotd, hself]
          exact replyNotice_answered hm hr.motd hserves

/-- An AUTH request with nothing to compare the digest to. -/
theorem processAuth_exits (hst : (s.clients i).st = .loginOk)
    (hdig : (firstStr env m .digest).isSome = true) (hkey : (s.clients i).key = none) :
    processAuth env s i (mbufResetgetattrib m) = none := by
  obtain ⟨digest, hdig⟩ := Option.isSome_iff_exists.mp hdig
  rw [firstStr] at hdig
  rw [processAuth, if_neg (not_not.mpr hst), hdig]
  simp only [hkey]

theorem processLogout_answered (hm : 40 ≤ m.bsize) (hst : (s.clients i).st = .authOk)
    (hask : IsRequest m .logoutReq) :
    Answered env s i m (processLogout env s i (mbufResetgetattrib m)) := by
  unfold processLogout
  simp only
  rw [if_neg fun h => h.1 hst]
  exact replyNotice_answered hm (by decide) (.logout hask hst)

theorem processPeerlist_answered (hm : 40 ≤ m.bsize) (hr : Ready s i)
    (hst : (s.clients i).st = .authOk) (hask : IsRequest m .peerlistReq)
    (hsz : peerlistSize s ≤ MSG_MAX_PAY_SIZE) :
    Answered env s i m (processPeerlist env s (mbufResetgetattrib m)) := by
  rw [processPeerlist_eq hr.named, response_reset]
  refine response_answered hm peerAttribs_typed ?_ (.peerlist hask hst)
  rw [length_peerlist]
  exact hsz

theorem processPeerlist_exits (hm : 40 ≤ m.bsize) (hr : Ready s i)
    (hsz : MSG_MAX_PAY_SIZE < peerlistSize s) :
    processPeerlist env s (mbufResetgetattrib m) = none := by
  rw [processPeerlist_eq hr.named, response_reset, response_eq hm peerAttribs_typed, if_neg,
    Option.map_none]
  rw [length_peerlist]
  exact Nat.not_le.mpr hsz

/-! ## All messages -/

/-- A request the server acts upon has one of these types. -/
theorem Acts.cases (h : Acts env s i m) : IsRequest m .authReq ∨ IsRequest m .loginReq ∨
    IsRequest m .registerReq ∨ ((s.clients i).st = .authOk ∧
      (IsRequest m .dropReq ∨ IsRequest m .logoutReq ∨ IsRequest m .pingReq ∨ IsRequest m .peerlistReq)) := by
  obtain ⟨h0, h⟩ := h
  have hask : ∀ {t : MsgType}, MsgType.ofCode? (hdrGetType m) = some t → IsRequest m t :=
    fun ht => ⟨h0, MsgType.ofCode?_eq_some.mp ht⟩
  split at h
  · rename_i ht
    exact .inl (hask ht)
  · rename_i ht
    exact .inr (.inl (hask ht))
  · rename_i ht
    exact .inr (.inr (.inl (hask ht)))
  · rename_i ht
    exact .inr (.inr (.inr ⟨h, .inl (hask ht)⟩))
  · rename_i ht
    exact .inr (.inr (.inr ⟨h, .inr (.inl (hask ht))⟩))
  · rename_i ht
    exact .inr (.inr (.inr ⟨h, .inr (.inr (.inl (hask ht)))⟩))
  · rename_i ht
    exact .inr (.inr (.inr ⟨h, .inr (.inr (.inr (hask ht)))⟩))
  · exact h.elim

theorem processServerMsg_answered (hm : 40 ≤ m.bsize) (hr : Ready s i) (hdst : hdrGetDstid m = 0)
    (hex : ¬ Exits env s i m) : Answered env s i m (processServerMsg env s i m) := by
  have hask : ∀ {t : MsgType}, MsgType.ofCode? (hdrGetType m) = some t → IsRequest m t :=
    fun ht => ⟨hdst, MsgType.ofCode?_eq_some.mp ht⟩
  unfold processServerMsg
  simp only
  split
  · rename_i hgate
    refine replyErr_answered hm _ (.gated (.inl hgate.1) fun h => ?_)
    rcases h.cases with h | h | h | h
    · exact hgate.2.2.1 h.type
    · exact hgate.2.1 h.type
    · exact hgate.2.2.2 h.type
    · exact hgate.1 h.1
  · rename_i hgate
    -- Without authentication only three types get past the gate.
    have hauth : ∀ t : MsgType, MsgType.ofCode? (hdrGetType m) = some t → t ≠ .loginReq →
        t ≠ .authReq → t ≠ .registerReq → (s.clients i).st = .authOk := by
      intro t ht hl ha hg
      by_contra hst
      exact hgate ⟨hst, by rw [ht]; simpa using hl, by rw [ht]; simpa using ha,
        by rw [ht]; simpa using hg⟩
    have hopen : (s.clients i).st = .authOk → ¬ Gated s i m := by
      rintro hst (h | h)
      · exact h hst
      · exact h.1 hdst
    split
    · rename_i ht
      have hst := hauth _ ht (by decide) (by decide) (by decide)
      refine ⟨.silence, s, none, rfl, .ignored ?_ (hopen hst), rfl⟩
      rw [(hask ht).2]
      decide
    · rename_i ht
      have hst := hauth _ ht (by decide) (by decide) (by decide)
      rw [reply1_eq, response_reset]
      exact response_answered hm (by simp; rfl) (by decide) (.ping (hask ht) hst)
    · rename_i ht
      exact processRegister_answered hm hr (hask ht)
    · rename_i ht
      exact processDrop_answered hm hr (hask ht)
    · rename_i ht
      exact processLogin_answered hm hr (hask ht)
    · rename_i ht
      exact processAuth_answered hm hr (hask ht) hex
    · rename_i ht
      exact processLogout_answered hm (hauth _ ht (by decide) (by decide) (by decide)) (hask ht)
    · rename_i ht
      have hst := hauth _ ht (by decide) (by decide) (by decide)
      refine processPeerlist_answered hm hr hst (hask ht) (Nat.not_lt.mp fun hsz => ?_)
      exact hex (.inl ⟨hask ht, hst, hsz⟩)
    · rename_i hping hpreq hreg hdrop hlogin hath hlogout hpeer
      have hst : (s.clients i).st = .authOk := by
        by_contra hst
        exact hgate ⟨hst, hlogin, hath, hreg⟩
      refine processNonsense_answered hm _ (hopen hst) fun h => ?_
      rcases h.cases with h | h | h | ⟨-, h | h | h | h⟩
      · exact hath h.type
      · exact hlogin h.type
      · exact hreg h.type
      · exact hdrop h.type
      · exact hlogout h.type
      · exact hpreq h.type
      · exact hpeer h.type

theorem Exits.dstid (h : Exits env s i m) : hdrGetDstid m = 0 := by
  rcases h with ⟨hask, -⟩ | ⟨hask, -⟩
  · exact hask.1
  · exact hask.1

theorem processServerMsg_exits (hm : 40 ≤ m.bsize) (hr : Ready s i)
    (hex : Exits env s i m) : processServerMsg env s i m = none := by
  rcases hex with ⟨hask, hst, hsz⟩ | ⟨hask, hst, hdig, hkey⟩
  · rw [processServerMsg, hask.type]
    simp only [hst, ne_eq, not_true_eq_false, false_and, if_false]
    exact processPeerlist_exits hm hr hsz
  · rw [processServerMsg, hask.type]
    simp only [ne_eq, not_true_eq_false, false_and, and_false, if_false]
    exact processAuth_exits hst hdig hkey

theorem processForwardMsg_answered (hm : 40 ≤ m.bsize) (h0 : hdrGetDstid m ≠ 0)
    (h1 : hdrGetDstid m ≠ 0xffffffffffffffff) (hroute : route s i m = none) :
    Answered env s i m (processForwardMsg env s i m) := by
  have hna : ¬ Acts env s i m := fun h => h0 h.1
  unfold processForwardMsg
  split
  · rename_i hst
    exact replyErr_answered hm _ (.gated (.inl hst) hna)
  · rename_i hst
    have hst' := not_not.mp hst
    split
    · rename_i hnone
      exact replyErr_answered hm _ (.gated (.inr ⟨h0, h1, hnone⟩) hna)
    · rename_i j hj
      have hopen : ¬ Gated s i m := by
        rintro (h | h)
        · exact h hst'
        · rw [h.2.2] at hj
          cases hj
      -- A message of a type that is forwarded would have a route.
      have hno : isForwardable m = false := by
        by_contra hfw
        rw [route, if_pos ⟨hst', h0, h1, eq_true_of_ne_false hfw⟩, hj] at hroute
        cases hroute
      unfold isForwardable at hno
      split
      · rename_i t ht
        rw [ht] at hno
        simp only at hno
        rw [hno, if_neg Bool.false_ne_true]
        exact processNonsense_answered hm _ hopen hna
      · exact processNonsense_answered hm _ hopen hna

end Handlers

/-- A message with a route is put into the queue the route names. -/
theorem dispatchMsg_forwards {env : MsgEnv} {s : Server} {i j : Nat} {m : Mbuf}
    (h : route s i m = some j) : dispatchMsg env s i m = some (enqueueMsg s j m, none) := by
  unfold route at h
  split at h
  · rename_i hc
    obtain ⟨hst, h0, h1, hfw⟩ := hc
    obtain ⟨t, ht, htf⟩ := isForwardable_iff.mp hfw
    rw [dispatchMsg, if_neg h0, if_neg h1, processForwardMsg, if_neg (not_not.mpr hst), h, ht,
      MsgType.ofCode?_code]
    exact if_pos htf
  · cases h

/-- **Serving a message.** A message that is not forwarded is served in one of the
ways listed, unless it ends the process. -/
theorem dispatchMsg_serves {env : MsgEnv} {s : Server} {i : Nat} {m : Mbuf} (hm : 40 ≤ m.bsize)
    (hr : Ready s i) (hroute : route s i m = none) :
    (Exits env s i m → dispatchMsg env s i m = none) ∧
      (¬ Exits env s i m → Answered env s i m (dispatchMsg env s i m)) := by
  constructor
  · intro hex
    rw [dispatchMsg]
    simp only [hex.dstid, if_true]
    exact processServerMsg_exits hm hr hex
  · intro hex
    unfold dispatchMsg
    simp only
    split
    · rename_i h0
      exact processServerMsg_answered hm hr h0 hex
    · rename_i h0
      split
      · rename_i h1
        unfold processBroadcastMsg
        split
        · rename_i hst
          exact replyErr_answered hm _ (.gated (.inl hst) fun h => h0 h.1)
        · rename_i hst
          refine processNonsense_answered hm _ ?_ fun h => h0 h.1
          rintro (h | h)
          · exact hst h
          · exact h.2.1 h1
      · rename_i h1
        exact processForwardMsg_answered hm h0 h1 hroute

/-! ## The message of the day -/

theorem Serves.motd {env : MsgEnv} {s t : Server} {i : Nat} {m : Mbuf} {v : Verdict}
    (h : Serves env s i m v t) : t.motd = s.motd := by
  cases h with
  | auth hty hst hdig hkey => exact kickOthers_motd i s.slots s
  | _ => rfl

theorem sendBack_motd (s : Server) (i : Nat) (rbuf : Option Mbuf) :
    (sendBack s i rbuf).motd = s.motd := by
  cases rbuf <;> rfl

theorem acceptClient_motd (s : Server) (fd : Int) (nonblocking : Bool) (now : Int) :
    (acceptClient s fd nonblocking now).motd = s.motd := by
  unfold acceptClient
  split
  · rfl
  · split
    · rfl
    · split
      · rfl
      · split <;> rfl

theorem writeClient_motd {s t : Server} {i : Nat} {now : Int} {res : WriteRes}
    (h : writeClient s i now res = some t) : t.motd = s.motd := by
  rw [writeClient] at h
  simp only at h
  split at h
  · cases h
  · split at h
    · cases h
      rfl
    · cases h
      rfl
    · cases h
      split <;> rfl

theorem upkeepExpire_motd (now : Int) (s : Server) (i : Nat) :
    (upkeepExpire now s i).motd = s.motd := by
  unfold upkeepExpire
  simp only
  split
  · split <;> rfl
  · rfl

theorem upkeepBudge_motd (s : Server) (i j : Nat) : (upkeepBudge s i j).1.motd = s.motd := by
  unfold upkeepBudge
  simp only
  split
  · split <;> rfl
  · rfl

theorem upkeepFrom_motd (now : Int) (is : List Nat) (p : Server × Nat) :
    (upkeepFrom now is p).1.motd = p.1.motd := by
  induction is generalizing p with
  | nil => rfl
  | cons i is ih =>
      obtain ⟨s, j⟩ := p
      rw [upkeepFrom, ih, upkeepBudge_motd, upkeepExpire_motd]

theorem upkeep_motd (now : Int) (s : Server) : (upkeep now s).motd = s.motd :=
  upkeepFrom_motd _ _ _

theorem motdGet_length {s t : Server} {lines : List Bytes} (hs : s.motd.length = MOTD_SIZE)
    (h : motdGet s lines = some t) : t.motd.length = MOTD_SIZE := by
  have hfold : ∀ (lines : List Bytes) (p q : Bytes × Nat), p.1.length = MOTD_SIZE →
      lines.foldlM motdCb p = some q → q.1.length = MOTD_SIZE := by
    intro lines
    induction lines with
    | nil =>
        intro p q hp hq
        cases hq
        exact hp
    | cons l lines ih =>
        intro p q hp hq
        rw [List.foldlM_cons] at hq
        obtain ⟨r, hr, hq⟩ := Option.bind_eq_some_iff.mp hq
        refine ih r q ?_ hq
        unfold motdCb at hr
        simp only at hr
        split at hr
        · split at hr
          · rename_i hfit
            cases hr
            rw [length_poke (by rw [hp, List.length_append, List.length_singleton]; omega)]
            exact hp
          · cases hr
        · cases hr
          exact hp
  obtain ⟨p, hp, rfl⟩ := Option.map_eq_some_iff.mp h
  exact hfold lines _ p hs hp

/-! ## A message in a run -/

theorem Ready.opened {s : Server} {i : Nat} (h : Ready s i) (now : Int) :
    Ready (s.setClient i (opened s i now)) i := by
  have hview := opened_view s i now
  refine ⟨⟨h.live.1, (hview i).1 ▸ h.live.2⟩, h.motd, ?_⟩
  intro j hj hst
  obtain ⟨n, hn⟩ := h.named j ⟨hj.1, (hview j).1 ▸ hj.2⟩
    ((congrArg Session.st (hview j).2).symm.trans hst)
  exact ⟨n, (congrArg Session.name (hview j).2).trans hn⟩

theorem exits_congr {env : MsgEnv} {s u : Server} {i : Nat} {m : Mbuf} (hcfg : u.cfg = s.cfg)
    (h : ∀ j, (u.clients j).fd = (s.clients j).fd ∧
      (u.clients j).session = (s.clients j).session) : Exits env u i m ↔ Exits env s i m := by
  have hst : (u.clients i).st = (s.clients i).st := congrArg Session.st (h i).2
  have hkey : (u.clients i).key = (s.clients i).key := congrArg Session.key (h i).2
  rw [Exits, Exits, hst, hkey, (peers_congr hcfg h).2.2]

/-- A message that does not end the process is forwarded, or served and perhaps answered. -/
theorem processMsg_serves {env : MsgEnv} {s t : Server} {i : Nat} {m : Mbuf} (hm : 40 ≤ m.bsize)
    (hr : Ready s i) (h : processMsg env s i m = some t) :
    (∃ j, route s i (fillSrcid (s.clients i) m) = some j ∧
      t = sendBack (enqueueMsg s j (fillSrcid (s.clients i) m)) i none) ∨
    ∃ u rbuf v, route s i (fillSrcid (s.clients i) m) = none ∧
      dispatchMsg env s i (fillSrcid (s.clients i) m) = some (u, rbuf) ∧
      Served s i (fillSrcid (s.clients i) m) (u, rbuf) ∧
      Serves env s i (fillSrcid (s.clients i) m) v u ∧ t = sendBack u i rbuf := by
  have hm' : 40 ≤ (fillSrcid (s.clients i) m).bsize := by rwa [bsize_fillSrcid hm]
  rcases processMsg_cases hm h with ⟨j, hj, rfl⟩ | ⟨u, rbuf, hno, hd, hserved, rfl⟩
  · exact .inl ⟨j, hj, rfl⟩
  · obtain ⟨hexit, hserve⟩ : _ ∧ (¬ Exits env _ _ _ → _) := dispatchMsg_serves hm' hr hno
    by_cases hex : Exits env s i (fillSrcid (s.clients i) m)
    · rw [hexit hex] at hd
      cases hd
    · obtain ⟨v, u', rbuf', hd', hserves, -⟩ := hserve hex
      cases hd.symm.trans hd'
      exact .inr ⟨u, rbuf, v, hno, hd, hserved, hserves, rfl⟩

theorem processMsg_motd {env : MsgEnv} {s t : Server} {i : Nat} {m : Mbuf} (hm : 40 ≤ m.bsize)
    (hr : Ready s i) (h : processMsg env s i m = some t) : t.motd = s.motd := by
  rcases processMsg_serves hm hr h with ⟨j, -, rfl⟩ | ⟨u, rbuf, v, -, -, -, hserves, rfl⟩
  · rw [sendBack_motd]
    rfl
  · rw [sendBack_motd, hserves.motd]

/-- The array keeps its size in every run. -/
theorem motd_length : (srvLts fun _ => True).Invariant fun s => s.motd.length = MOTD_SIZE := by
  refine named_inductive.invariant.strengthen ?_ ?_
  · rintro s ⟨cfg, listenfd, e, file, -, -, rfl⟩
    have hwelcome : (ascii "Welcome!").length = 8 := by decide
    rw [Server.initial, List.length_append, List.length_replicate, hwelcome]
    rfl
  · rintro s e t ⟨hok, hnamed⟩ - hs ⟨hen, -, hstep⟩
    cases e with
    | accept fd nonblocking now =>
        cases hstep
        rw [acceptClient_motd]
        exact hs
    | read i now res env =>
        have hlive : s.Live i := hen
        -- A request in the middle of a run is one the handlers are ready for.
        have hready : Ready s i := by
          refine ⟨hlive, Nat.le_trans (List.takeWhile_sublist _).length_le (Nat.le_of_eq hs), ?_⟩
          intro j hj hst
          exact hnamed j _ (acct_sess_of_live hj) (.inr hst)
        rw [srvStep, readClient_opened] at hstep
        split at hstep
        · cases hstep
          exact hs
        · cases hstep
          exact hs
        · cases hstep
        · cases hstep
          exact hs
        · rename_i m hm
          have hwhole := whole_of_complete ((hok.slot i hlive).slotBuffer now) hm
          rw [processMsg_motd hwhole.hdr (hready.opened now) hstep]
          exact hs
    | write i now res =>
        rw [writeClient_motd hstep]
        exact hs
    | upkeep now =>
        cases hstep
        rw [upkeep_motd]
        exact hs
    | motd lines => exact motdGet_length hs hstep

theorem ready_of_reachable {s : Server} (hs : (srvLts fun _ => True).Reachable s) {i : Nat}
    (hlive : s.Live i) : Ready s i := by
  refine ⟨hlive, ?_, fun j hj hst => name_of_authOk hs hj hst⟩
  rw [← motd_length s hs]
  exact (List.takeWhile_sublist _).length_le

theorem hdrGetTrfid_fillSrcid {c : Client} {m : Mbuf} (hm : 40 ≤ m.bsize) :
    hdrGetTrfid (fillSrcid c m) = hdrGetTrfid m := by
  obtain ⟨hd, body, boff, rfl⟩ := exists_msg hm
  unfold fillSrcid
  split
  · simp
  · rfl

theorem srvStep_complete {s : Server} {i : Nat} {now : Int} {res : ReadRes} (env : MsgEnv) {m : Mbuf}
    (hm : readOutcome (slotBuffer s i now) res = .complete m) :
    srvStep s (.read i now res env) = processMsg env (s.setClient i (opened s i now)) i m := by
  rw [srvStep, readClient_opened, hm]

/-- **A message in a run.** A read that completes the message `m` forwards it, ends
the process, or serves it. -/
theorem srvStep_serves {s : Server} {i : Nat} {now : Int} {res : ReadRes} (env : MsgEnv) {m : Mbuf}
    (hs : (srvLts fun _ => True).Reachable s) (hlive : s.Live i)
    (hm : readOutcome (slotBuffer s i now) res = .complete m) :
    40 ≤ m.bsize ∧
    (∀ j, route s i (fillSrcid (s.clients i) m) = some j → srvStep s (.read i now res env) =
      some (sendBack (enqueueMsg (s.setClient i (opened s i now)) j (fillSrcid (s.clients i) m))
        i none)) ∧
    (route s i (fillSrcid (s.clients i) m) = none → Exits env s i (fillSrcid (s.clients i) m) →
      srvStep s (.read i now res env) = none) ∧
    (route s i (fillSrcid (s.clients i) m) = none → ¬ Exits env s i (fillSrcid (s.clients i) m) →
      ∃ v t rbuf, srvStep s (.read i now res env) = some (sendBack t i rbuf) ∧
        Serves env (s.setClient i (opened s i now)) i (fillSrcid (s.clients i) m) v t ∧
        v.Fits env (fillSrcid (s.clients i) m) rbuf) := by
  have hslot := ((slotsOk_inductive _).invariant s hs).slot i hlive
  have hm40 : 40 ≤ m.bsize := (whole_of_complete (hslot.slotBuffer now) hm).hdr
  have hx40 : 40 ≤ (fillSrcid (s.clients i) m).bsize := by rwa [bsize_fillSrcid hm40]
  have hready := (ready_of_reachable hs hlive).opened now
  have hview := opened_view s i now
  have hcfg : (s.setClient i (opened s i now)).cfg = s.cfg := rfl
  have hfill : fillSrcid ((s.setClient i (opened s i now)).clients i) m =
      fillSrcid (s.clients i) m := fillSrcid_congr (hview i).2
  have hroute : ∀ x, route (s.setClient i (opened s i now)) i x = route s i x := fun x =>
    route_congr hcfg hview
  have hexits : ∀ x, Exits env (s.setClient i (opened s i now)) i x ↔ Exits env s i x := fun x =>
    exits_congr hcfg hview
  rw [srvStep_complete env hm, processMsg, hfill]
  refine ⟨hm40, ?_, ?_, ?_⟩
  · intro j hj
    rw [dispatchMsg_forwards ((hroute _).trans hj)]
    rfl
  · intro hno hex
    rw [(dispatchMsg_serves hx40 hready ((hroute _).trans hno)).1 ((hexits _).mpr hex)]
    rfl
  · intro hno hex
    obtain ⟨v, t, rbuf, hd, hserves, hfits⟩ :=
      (dispatchMsg_serves hx40 hready ((hroute _).trans hno)).2 fun h => hex ((hexits _).mp h)
    rw [hd]
    exact ⟨v, t, rbuf, rfl, hserves, hfits⟩

end Frelay
