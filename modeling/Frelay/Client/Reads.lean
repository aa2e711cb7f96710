import Frelay.Message.Reads
import Frelay.Client.Effect

/-!
# Attribute values the client reads

`process_srvmsg` once more, as the list of the attribute values each handler uses, in the
order of the source. The handlers test the type of an attribute, and never its length.

* `values_inside_iff` — they stay inside the message exactly when the attributes that
  are used are as long, or terminated, as their types require;
* `Clt.processSrvmsg_beyond` — while they do, the outcome does not depend on what lies behind.
-/

namespace Frelay

open Lib

namespace Clt

/-- `printf` and the other string functions that look at the whole string at `a`. -/
def wholeString (env : CltEnv) (m : Mbuf) (a : AttrRef) : Use :=
  .str a ((cstrAt m env.beyond a.av).length + 1)

/-- The text that may come next. -/
def noticeReads (env : CltEnv) (m : Mbuf) : List Use :=
  match nextIf m .notice with
  | none => []
  | some (a, m') => [wholeString env m' a]

/-! ## Indications and requests -/

/-- `case MSG_TYPE_PING_REQ` and `case MSG_TYPE_PING_IND`. -/
def pingReads (env : CltEnv) (c : Clt) (m : Mbuf) : List Use :=
  if c.st = .authOk then noticeReads env m else []

/-- One turn of the attribute loop of `case MSG_TYPE_OFFER_REQ`. -/
def offerAttribReads (env : CltEnv) (m : Mbuf) (a : AttrRef) : List Use :=
  if a.at' = MsgAttrib.code .offerid then [.word a]
  else if a.at' = MsgAttrib.code .filename then [wholeString env m a]
  else if a.at' = MsgAttrib.code .size then [.word a]
  else []

/-- `case MSG_TYPE_OFFER_REQ`. -/
def offerReqReads (env : CltEnv) (c : Clt) (m : Mbuf) : List Use :=
  if c.st = .authOk then (attribRefs m).flatMap (offerAttribReads env m) else []

/-- The number that may come next. An attribute of another type is skipped. -/
def numberReads (m : Mbuf) (t : MsgAttrib) : List Use × Mbuf :=
  match mbufGetnextattrib m with
  | some (a, m') => (if a.at' = t.code then [.word a] else [], m')
  | none => ([], m)

/-- `case MSG_TYPE_GETFILE_REQ`. -/
def getfileReqReads (env : CltEnv) (c : Clt) (m : Mbuf) : List Use :=
  match if c.st = .authOk then nextIf m .offerid else none with
  | none => []
  | some (a, m') =>
      .word a ::
        match transferMatch env.now .offer (hdrGetSrcid m) (ui64At m' env.beyond a.av)
          c.transfers with
        | none => []
        | some _ =>
            let (offset, m') := numberReads m' .offset
            offset ++ (numberReads m' .size).1

/-! ## Responses -/

/-- `case MSG_TYPE_OFFER_RES`. -/
def offerResReads (c : Clt) (m : Mbuf) : List Use :=
  match if c.st = .authOk then nextIf m .offerid else none with
  | none => []
  | some (a, _) => [.word a]

/-- `case MSG_TYPE_GETFILE_RES`: the octets are written to the part file. -/
def getfileResReads (env : CltEnv) (c : Clt) (m : Mbuf) : List Use :=
  match if c.st = .authOk then nextIf m .offerid else none with
  | none => []
  | some (a, m') =>
      .word a ::
        match transferMatch env.now .download (hdrGetSrcid m) (ui64At m' env.beyond a.av)
          c.transfers, nextIf m' .data with
        | some _, some (a, _) => [.blob a]
        | _, _ => []

/-- The loop of `case MSG_TYPE_PEERLIST_RES`: pairs of an id and a name. -/
def peerReads (env : CltEnv) (m : Mbuf) : List AttrRef → List Use
  | a :: a₂ :: as =>
      if a.at' = MsgAttrib.code .peerid ∧ a₂.at' = MsgAttrib.code .peername then
        [.word a, .word a, wholeString env m a₂] ++ peerReads env m as
      else []
  | _ => []

/-- `case MSG_TYPE_PEERLIST_RES`. -/
def peerlistResReads (env : CltEnv) (c : Clt) (m : Mbuf) : List Use :=
  if c.st = .authOk ∧ hdrGetSrcid m = 0 then peerReads env m (attribRefs m) else []

/-- The responses REGISTER, DROP, AUTH and LOGOUT, when the client is in one of the
states `sts`: an OK and a text. -/
def okReads (env : CltEnv) (sts : List CltState) (c : Clt) (m : Mbuf) : List Use :=
  match if c.st ∈ sts ∧ hdrGetSrcid m = 0 then nextIf m .ok else none with
  | none => []
  | some (_, m') => noticeReads env m'

/-- `case MSG_TYPE_REGISTER_RES`. -/
def registerResReads (env : CltEnv) : Clt → Mbuf → List Use := okReads env [.authOk]

/-- `case MSG_TYPE_DROP_RES`. -/
def dropResReads (env : CltEnv) : Clt → Mbuf → List Use := okReads env [.authOk]

/-- `case MSG_TYPE_AUTH_RES`. -/
def authResReads (env : CltEnv) : Clt → Mbuf → List Use := okReads env [.loginOk]

/-- `case MSG_TYPE_LOGOUT_RES`. -/
def logoutResReads (env : CltEnv) : Clt → Mbuf → List Use := okReads env [.loginOk, .authOk]

/-- `case MSG_TYPE_LOGIN_RES`: the text, and `strncmp` on a challenge. -/
def loginResReads (env : CltEnv) (c : Clt) (m : Mbuf) : List Use :=
  if c.st = .preLogin ∧ hdrGetSrcid m = 0 then
    match mbufGetnextattrib m with
    | none => []
    | some (a, m') =>
        if a.at' = MsgAttrib.code .ok then noticeReads env m'
        else if a.at' = MsgAttrib.code .challenge then
          noticeReads env m' ++ [.str a (min AUTH_KEY_PLAINTEXT.length
            (compared id (cstrAt m' env.beyond a.av) AUTH_KEY_PLAINTEXT))]
        else []
  else []

/-- `default` and `case MSG_TYPE_AUTH_ERR`: the code and the text of an error. -/
def errorReads (env : CltEnv) (m : Mbuf) : List Use :=
  match if mclassIsErr (hdrGetType m) then nextIf m .error else none with
  | none => []
  | some (a, m') => .word a :: noticeReads env m'

/-- The `switch` of `process_srvmsg`. -/
def dispatchReads (env : CltEnv) (c : Clt) (m : Mbuf) : List Use :=
  match MsgType.ofCode? (hdrGetType m) with
  | some .pingReq | some .pingInd => pingReads env c m
  | some .offerReq => offerReqReads env c m
  | some .getfileReq => getfileReqReads env c m
  | some .pingRes => []
  | some .offerRes => offerResReads c m
  | some .getfileRes => getfileResReads env c m
  | some .peerlistRes => peerlistResReads env c m
  | some .registerRes => registerResReads env c m
  | some .dropRes => dropResReads env c m
  | some .loginRes => loginResReads env c m
  | some .authRes => authResReads env c m
  | some .logoutRes => logoutResReads env c m
  | _ => errorReads env m

/-- The attribute values `process_srvmsg` uses. -/
def processSrvmsgReads (env : CltEnv) (c : Clt) (m : Mbuf) : List Use :=
  match c.solicited m with
  | none => []
  | some c => dispatchReads env c (mbufResetgetattrib m)

/-! ## What the messages should look like -/

/-- The value of an attribute of type `t` is as long as a number, or terminated. -/
def Sound (m : Mbuf) (t : MsgAttrib) (a : AttrRef) : Prop :=
  match t with
  | .peerid | .offerid | .size | .offset | .error => 8 ≤ a.al
  | .filename | .peername | .notice | .challenge => 0 ∈ blobAt m a
  | _ => True

/-- As long as the attributes are of the types `ts`, they are sound. -/
def Lead (m : Mbuf) : List MsgAttrib → List AttrRef → Prop
  | t :: ts, a :: as => a.at' = t.code → Sound m t a ∧ Lead m ts as
  | _, _ => True

/-- Those attributes that are of the type `ts` has in their place are sound. -/
def Places (m : Mbuf) : List MsgAttrib → List AttrRef → Prop
  | t :: ts, a :: as => (a.at' = t.code → Sound m t a) ∧ Places m ts as
  | _, _ => True

/-- As long as pairs of an id and a name come, they are sound. -/
def Peers (m : Mbuf) : List AttrRef → Prop
  | a :: a₂ :: as => a.at' = MsgAttrib.code .peerid → a₂.at' = MsgAttrib.code .peername →
      Sound m .peerid a ∧ Sound m .peername a₂ ∧ Peers m as
  | _ => True

/-- The offer id is sound, and if the offer exists, so are offset and size. -/
def Range (c : Clt) (m : Mbuf) : List AttrRef → Prop
  | a :: as => a.at' = MsgAttrib.code .offerid → Sound m .offerid a ∧
      ((∃ o ∈ c.transfers, o.Matches .offer (hdrGetSrcid m) (rd64 ((blobAt m a).take 8))) →
        Places m [.offset, .size] as)
  | [] => True

/-- The attributes that matter, by the type of the message and the state of the client. -/
def WellFormed (c : Clt) (m : Mbuf) : Prop :=
  let as := attribRefs (mbufResetgetattrib m)
  match MsgType.ofCode? (hdrGetType m) with
  | some .pingReq | some .pingInd => c.st = .authOk → Lead m [.notice] as
  | some .offerReq => c.st = .authOk →
      ∀ a ∈ as, ∀ t ∈ [MsgAttrib.offerid, .filename, .size], a.at' = t.code → Sound m t a
  | some .getfileReq => c.st = .authOk → Range c m as
  | some .pingRes => True
  | some .offerRes | some .getfileRes => c.st = .authOk → Lead m [.offerid] as
  | some .peerlistRes => c.st = .authOk ∧ hdrGetSrcid m = 0 → Peers m as
  | some .registerRes | some .dropRes =>
      c.st ∈ [CltState.authOk] ∧ hdrGetSrcid m = 0 → Lead m [.ok, .notice] as
  | some .loginRes => c.st = .preLogin ∧ hdrGetSrcid m = 0 →
      Lead m [.ok, .notice] as ∧ Lead m [.challenge, .notice] as
  | some .authRes => c.st ∈ [CltState.loginOk] ∧ hdrGetSrcid m = 0 → Lead m [.ok, .notice] as
  | some .logoutRes =>
      c.st ∈ [CltState.loginOk, .authOk] ∧ hdrGetSrcid m = 0 → Lead m [.ok, .notice] as
  | _ => mclassIsErr (hdrGetType m) = true → Lead m [.error, .notice] as

/-! ## The attributes of a message -/

/-- What a successful call says of the buffer. -/
theorem getnextattrib_moves {m m' : Mbuf} {a : AttrRef} (h : mbufGetnextattrib m = some (a, m')) :
    m.boff + 8 ≤ m.bsize ∧ m.boff + 8 ≤ m'.boff ∧ m'.b = m.b := by
  have hb := (getnextattrib_fits h).2
  rw [getnextattrib_eq] at h
  obtain ⟨a', hres, hpair⟩ := Option.map_eq_some_iff.mp h
  obtain ⟨hsize, hmoves⟩ := getnextattrib_advances (m := m) (by rw [hres]; nofun)
  rw [(Prod.mk.inj hpair).2] at hmoves
  exact ⟨hsize, hmoves, hb⟩

/-- More calls than there is room for deliver nothing more. -/
theorem attribRefsFrom_fuel {n : Nat} {m : Mbuf} (h : m.bsize < m.boff + 8 + 8 * n) :
    attribRefsFrom n m = attribRefsFrom (n + 1) m := by
  induction n generalizing m with
  | zero =>
      have hnone : mbufGetnextattrib m = none := by
        unfold mbufGetnextattrib
        exact if_pos h
      rw [attribRefsFrom, attribRefsFrom, hnone]
  | succ n ih =>
      rw [attribRefsFrom, attribRefsFrom]
      cases hnext : mbufGetnextattrib m with
      | none => rfl
      | some p =>
          obtain ⟨a, m'⟩ := p
          obtain ⟨-, hmoves, hb⟩ := getnextattrib_moves hnext
          have hsize : m'.bsize = m.bsize := congrArg List.length hb
          exact congrArg (a :: ·) (ih (by omega))

theorem attribRefs_nil {m : Mbuf} (h : mbufGetnextattrib m = none) : attribRefs m = [] := by
  unfold attribRefs
  cases m.bsize with
  | zero => rfl
  | succ n => rw [attribRefsFrom, h]

theorem attribRefs_cons {m m' : Mbuf} {a : AttrRef} (h : mbufGetnextattrib m = some (a, m')) :
    attribRefs m = a :: attribRefs m' := by
  obtain ⟨hsize, hmoves, hb⟩ := getnextattrib_moves h
  obtain ⟨n, hn⟩ : ∃ n, m.bsize = n + 1 := ⟨m.bsize - 1, by omega⟩
  have hm' : m'.bsize = n + 1 := (congrArg List.length hb).trans hn
  rw [attribRefs, attribRefs, hn, hm', attribRefsFrom, h]
  exact congrArg (a :: ·) (attribRefsFrom_fuel (by omega))

theorem nextIf_eq_some {m m' : Mbuf} {t : MsgAttrib} {a : AttrRef} (h : nextIf m t = some (a, m')) :
    mbufGetnextattrib m = some (a, m') ∧ a.at' = t.code := by
  unfold nextIf at h
  split at h
  · rename_i b m₁ hnext
    split at h
    · cases h
      exact ⟨hnext, ‹_›⟩
    · cases h
  · cases h

/-- A condition on the attribute that comes next, if it is of the type asked for. -/
theorem lead_iff {m p : Mbuf} {t : MsgAttrib} {ts : List MsgAttrib} :
    Lead m (t :: ts) (attribRefs p) ↔
      ∀ a p', nextIf p t = some (a, p') → Sound m t a ∧ Lead m ts (attribRefs p') := by
  constructor
  · intro h a p' hnext
    obtain ⟨hcall, ht⟩ := nextIf_eq_some hnext
    rw [attribRefs_cons hcall] at h
    exact h ht
  · intro h
    cases hcall : mbufGetnextattrib p with
    | none =>
        rw [attribRefs_nil hcall]
        trivial
    | some r =>
        obtain ⟨a, p'⟩ := r
        rw [attribRefs_cons hcall]
        intro ht
        refine h a p' ?_
        rw [nextIf, hcall]
        exact if_pos ht

/-! ## Each use -/

section Uses

variable {m p p' : Mbuf} {a : AttrRef}

/-- The attribute that comes next lies in the message. -/
theorem nextIf_value {t : MsgAttrib} (hp : p.b = m.b) (h : nextIf p t = some (a, p')) :
    a.value.stop ≤ m.bsize ∧ p'.b = m.b := by
  have hvalue := getnextattrib_fits (nextIf_eq_some h).1
  rw [Mbuf.bsize, hp] at hvalue
  exact ⟨hvalue.1, hvalue.2⟩

theorem inside_wholeString {env : CltEnv} (hp : p.b = m.b) (h : a.value.stop ≤ m.bsize) :
    ReadsInside m [wholeString env p a] ↔ 0 ∈ blobAt m a := by
  refine readsInside_str h (show _ ≤ (cstrAt m env.beyond a.av).length + 1 from ?_)
  rw [cstrAt, cstrAt, hp]

theorem inside_notice {env : CltEnv} (hp : p.b = m.b) :
    ReadsInside m (noticeReads env p) ↔ Lead m [.notice] (attribRefs p) := by
  rw [lead_iff]
  unfold noticeReads
  cases hnext : nextIf p .notice with
  | none => exact ⟨fun _ => nofun, fun _ => readsInside_nil m⟩
  | some r =>
      obtain ⟨a, p'⟩ := r
      obtain ⟨hstop, hp'⟩ := nextIf_value hp hnext
      rw [inside_wholeString hp' hstop]
      refine ⟨fun hzero b q hb => ?_, fun h => (h a p' rfl).1⟩
      cases hb
      exact ⟨hzero, trivial⟩

theorem inside_error {env : CltEnv} (hp : p.b = m.b) (herr : mclassIsErr (hdrGetType p) = true) :
    ReadsInside m (errorReads env p) ↔ Lead m [.error, .notice] (attribRefs p) := by
  rw [lead_iff]
  unfold errorReads
  rw [if_pos herr]
  cases hnext : nextIf p .error with
  | none => exact ⟨fun _ => nofun, fun _ => readsInside_nil m⟩
  | some r =>
      obtain ⟨a, p'⟩ := r
      obtain ⟨hstop, hp'⟩ := nextIf_value hp hnext
      simp only
      rw [readsInside_cons, readsInside_word hstop, inside_notice hp']
      refine ⟨fun h b q hb => ?_, fun h => h a p' rfl⟩
      cases hb
      exact h

theorem inside_ok {env : CltEnv} {c : Clt} {sts : List CltState} (hp : p.b = m.b)
    (hst : c.st ∈ sts ∧ hdrGetSrcid p = 0) :
    ReadsInside m (okReads env sts c p) ↔ Lead m [.ok, .notice] (attribRefs p) := by
  rw [lead_iff]
  unfold okReads
  rw [if_pos hst]
  cases hnext : nextIf p .ok with
  | none => exact ⟨fun _ => nofun, fun _ => readsInside_nil m⟩
  | some r =>
      obtain ⟨a, p'⟩ := r
      obtain ⟨-, hp'⟩ := nextIf_value hp hnext
      simp only
      rw [inside_notice hp']
      refine ⟨fun h b q hb => ?_, fun h => (h a p' rfl).2⟩
      cases hb
      exact ⟨trivial, h⟩

theorem inside_login {env : CltEnv} {c : Clt} (hp : p.b = m.b)
    (hst : c.st = .preLogin ∧ hdrGetSrcid p = 0) :
    ReadsInside m (loginResReads env c p) ↔
      Lead m [.ok, .notice] (attribRefs p) ∧ Lead m [.challenge, .notice] (attribRefs p) := by
  unfold loginResReads
  rw [if_pos hst]
  cases hcall : mbufGetnextattrib p with
  | none =>
      rw [attribRefs_nil hcall]
      exact ⟨fun _ => ⟨trivial, trivial⟩, fun _ => readsInside_nil m⟩
  | some r =>
      obtain ⟨a, p'⟩ := r
      have hvalue := getnextattrib_fits hcall
      rw [Mbuf.bsize, hp] at hvalue
      obtain ⟨hstop, hp'⟩ := hvalue
      rw [attribRefs_cons hcall]
      simp only
      split
      · rename_i hok
        rw [inside_notice hp']
        refine ⟨fun h => ⟨fun _ => ⟨trivial, h⟩, fun hch => ?_⟩, fun h => (h.1 hok).2⟩
        rw [hok] at hch
        exact absurd hch (by decide)
      · rename_i hok
        split
        · rename_i hch
          have hcmp : min AUTH_KEY_PLAINTEXT.length
              (compared id (cstrAt p' env.beyond a.av) AUTH_KEY_PLAINTEXT) ≤
                (cstrAt m env.beyond a.av).length + 1 := by
            rw [cstrAt, cstrAt, hp']
            exact (Nat.min_le_right _ _).trans (compared_le _ _ _)
          rw [readsInside_append, inside_notice hp', readsInside_str hstop hcmp]
          exact ⟨fun h => ⟨fun ht => absurd ht hok, fun _ => ⟨h.2, h.1⟩⟩,
            fun h => ⟨(h.2 hch).2, (h.2 hch).1⟩⟩
        · rename_i hch
          exact ⟨fun _ => ⟨fun ht => absurd ht hok, fun ht => absurd ht hch⟩,
            fun _ => readsInside_nil m⟩

theorem inside_offerRes {c : Clt} (hp : p.b = m.b) (hst : c.st = .authOk) :
    ReadsInside m (offerResReads c p) ↔ Lead m [.offerid] (attribRefs p) := by
  rw [lead_iff]
  unfold offerResReads
  rw [if_pos hst]
  cases hnext : nextIf p .offerid with
  | none => exact ⟨fun _ => nofun, fun _ => readsInside_nil m⟩
  | some r =>
      obtain ⟨a, p'⟩ := r
      simp only
      rw [readsInside_word (nextIf_value hp hnext).1]
      refine ⟨fun h b q hb => ?_, fun h => (h a p' rfl).1⟩
      cases hb
      exact ⟨h, trivial⟩

theorem inside_getfileRes {env : CltEnv} {c : Clt} (hp : p.b = m.b) (hst : c.st = .authOk) :
    ReadsInside m (getfileResReads env c p) ↔ Lead m [.offerid] (attribRefs p) := by
  rw [lead_iff]
  unfold getfileResReads
  rw [if_pos hst]
  cases hnext : nextIf p .offerid with
  | none => exact ⟨fun _ => nofun, fun _ => readsInside_nil m⟩
  | some r =>
      obtain ⟨a, p'⟩ := r
      obtain ⟨hstop, hp'⟩ := nextIf_value hp hnext
      simp only
      rw [readsInside_cons, readsInside_word hstop]
      constructor
      · rintro ⟨hlong, -⟩ b q hb
        cases hb
        exact ⟨hlong, trivial⟩
      · intro h
        refine ⟨(h a p' rfl).1, ?_⟩
        split
        · rename_i hdata
          exact readsInside_blob (nextIf_value hp' hdata).1
        · exact readsInside_nil m

/-! ## Lists of attributes -/

/-- The attributes of a message lie in it. -/
theorem attribRefs_value (hp : p.b = m.b) (ha : a ∈ attribRefs p) : a.value.stop ≤ m.bsize := by
  induction hl : attribRefs p generalizing p with
  | nil =>
      rw [hl] at ha
      exact absurd ha List.not_mem_nil
  | cons b l ih =>
      cases hcall : mbufGetnextattrib p with
      | none =>
          rw [attribRefs_nil hcall] at hl
          cases hl
      | some r =>
          obtain ⟨a', p'⟩ := r
          have hvalue := getnextattrib_fits hcall
          rw [Mbuf.bsize, hp] at hvalue
          rw [attribRefs_cons hcall] at hl ha
          obtain ⟨rfl, hrest⟩ := List.cons.inj hl
          rcases List.mem_cons.mp ha with rfl | ha
          · exact hvalue.1
          · exact ih hvalue.2 ha hrest

theorem inside_offerAttrib {env : CltEnv} (hp : p.b = m.b) (hstop : a.value.stop ≤ m.bsize) :
    ReadsInside m (offerAttribReads env p a) ↔
      ∀ t ∈ [MsgAttrib.offerid, .filename, .size], a.at' = t.code → Sound m t a := by
  rw [List.forall_mem_cons, List.forall_mem_cons, List.forall_mem_cons]
  have hnil : ∀ t ∈ ([] : List MsgAttrib), a.at' = t.code → Sound m t a := nofun
  unfold offerAttribReads
  split
  · rename_i hoid
    rw [readsInside_word hstop]
    refine ⟨fun h => ⟨fun _ => h, fun ht => ?_, fun ht => ?_, hnil⟩, fun h => h.1 hoid⟩
    · exact absurd (hoid.symm.trans ht) (by decide)
    · exact absurd (hoid.symm.trans ht) (by decide)
  · rename_i hoid
    split
    · rename_i hname
      rw [inside_wholeString hp hstop]
      refine ⟨fun h => ⟨fun ht => absurd ht hoid, fun _ => h, fun ht => ?_, hnil⟩,
        fun h => h.2.1 hname⟩
      exact absurd (hname.symm.trans ht) (by decide)
    · rename_i hname
      split
      · rename_i hsize
        rw [readsInside_word hstop]
        exact ⟨fun h => ⟨fun ht => absurd ht hoid, fun ht => absurd ht hname, fun _ => h, hnil⟩,
          fun h => h.2.2.1 hsize⟩
      · rename_i hsize
        exact ⟨fun _ => ⟨fun ht => absurd ht hoid, fun ht => absurd ht hname,
          fun ht => absurd ht hsize, hnil⟩, fun _ => readsInside_nil m⟩

theorem inside_offerReq {env : CltEnv} {c : Clt} (hp : p.b = m.b) (hst : c.st = .authOk) :
    ReadsInside m (offerReqReads env c p) ↔ ∀ a ∈ attribRefs p,
      ∀ t ∈ [MsgAttrib.offerid, .filename, .size], a.at' = t.code → Sound m t a := by
  have hflat : ReadsInside m ((attribRefs p).flatMap (offerAttribReads env p)) ↔
      ∀ a ∈ attribRefs p, ReadsInside m (offerAttribReads env p a) := by
    constructor
    · exact fun h a ha u hu => h u (List.mem_flatMap.mpr ⟨a, ha, hu⟩)
    · intro h u hu
      obtain ⟨a, ha, hu⟩ := List.mem_flatMap.mp hu
      exact h a ha u hu
  unfold offerReqReads
  rw [if_pos hst, hflat]
  constructor
  · exact fun h a ha => (inside_offerAttrib hp (attribRefs_value hp ha)).mp (h a ha)
  · exact fun h a ha => (inside_offerAttrib hp (attribRefs_value hp ha)).mpr (h a ha)

theorem inside_peers {env : CltEnv} (hp : p.b = m.b) {as : List AttrRef}
    (has : ∀ a ∈ as, a.value.stop ≤ m.bsize) :
    ReadsInside m (peerReads env p as) ↔ Peers m as := by
  induction as using peerReads.induct with
  | case1 a a₂ as hpair ih =>
      have ha := has a List.mem_cons_self
      have ha₂ := has a₂ (List.mem_cons_of_mem _ List.mem_cons_self)
      rw [peerReads, if_pos hpair, readsInside_append, readsInside_cons, readsInside_word ha,
        readsInside_cons, readsInside_word ha, inside_wholeString hp ha₂,
        ih fun b hb => has b (List.mem_cons_of_mem _ (List.mem_cons_of_mem _ hb))]
      constructor
      · exact fun h _ _ => ⟨h.1.1, h.1.2.2, h.2⟩
      · intro h
        obtain ⟨hid, hname, hrest⟩ := h hpair.1 hpair.2
        exact ⟨⟨hid, hid, hname⟩, hrest⟩
  | case2 a a₂ as hpair =>
      rw [peerReads, if_neg hpair]
      exact ⟨fun _ hid hname => absurd ⟨hid, hname⟩ hpair, fun _ => readsInside_nil m⟩
  | case3 as hshort =>
      rcases as with - | ⟨a, - | ⟨a₂, as⟩⟩
      · exact ⟨fun _ => trivial, fun _ => readsInside_nil m⟩
      · exact ⟨fun _ => trivial, fun _ => readsInside_nil m⟩
      · exact absurd rfl (hshort a a₂ as)

theorem inside_peerlist {env : CltEnv} {c : Clt} (hp : p.b = m.b)
    (hst : c.st = .authOk ∧ hdrGetSrcid p = 0) :
    ReadsInside m (peerlistResReads env c p) ↔ Peers m (attribRefs p) := by
  rw [peerlistResReads, if_pos hst]
  exact inside_peers hp fun a ha => attribRefs_value hp ha

/-! ## The range of a GETFILE request -/

theorem places_nil (ts : List MsgAttrib) : Places m ts [] := by
  cases ts with
  | nil => trivial
  | cons t ts => trivial

theorem inside_number {t : MsgAttrib} {ts : List MsgAttrib} (hp : p.b = m.b)
    (hnum : ∀ {a}, a.value.stop ≤ m.bsize → (ReadsInside m [.word a] ↔ Sound m t a)) :
    (Places m (t :: ts) (attribRefs p) ↔
      ReadsInside m (numberReads p t).1 ∧ Places m ts (attribRefs (numberReads p t).2)) ∧
      (numberReads p t).2.b = m.b := by
  unfold numberReads
  cases hcall : mbufGetnextattrib p with
  | none =>
      simp only
      rw [attribRefs_nil hcall]
      exact ⟨⟨fun _ => ⟨readsInside_nil m, places_nil ts⟩, fun _ => trivial⟩, hp⟩
  | some r =>
      obtain ⟨a, p'⟩ := r
      have hvalue := getnextattrib_fits hcall
      rw [Mbuf.bsize, hp] at hvalue
      rw [attribRefs_cons hcall]
      simp only
      refine ⟨and_congr_left fun _ => ?_, hvalue.2⟩
      split
      · rename_i ht
        rw [imp_iff_right ht]
        exact (hnum hvalue.1).symm
      · rename_i ht
        exact ⟨fun _ => readsInside_nil m, fun _ h => absurd h ht⟩

/-- An offer is found by the id in the attribute. -/
theorem offer_found {env : CltEnv} {c : Clt} (hp : p.b = m.b) (hp' : p'.b = m.b)
    (hstop : a.value.stop ≤ m.bsize) (hlong : 8 ≤ a.al) :
    (∃ o, transferMatch env.now .offer (hdrGetSrcid p) (ui64At p' env.beyond a.av) c.transfers =
      some o) ↔ ∃ o ∈ c.transfers,
        o.Matches .offer (hdrGetSrcid m) (rd64 ((blobAt m a).take 8)) := by
  have hid : ui64At p' env.beyond a.av = rd64 ((blobAt m a).take 8) := by
    rw [← ui64At_inside hstop hlong env.beyond, ui64At, ui64At, hp']
  have hsrc : hdrGetSrcid p = hdrGetSrcid m := by rw [hdrGetSrcid, hdrGetSrcid, hp]
  rw [hid, hsrc, ← Option.isSome_iff_exists, transferMatch, Option.isSome_map, List.find?_isSome]
  simp only [decide_eq_true_eq]

theorem inside_getfileReq {env : CltEnv} {c : Clt} (hp : p.b = m.b) (hst : c.st = .authOk) :
    ReadsInside m (getfileReqReads env c p) ↔ Range c m (attribRefs p) := by
  unfold getfileReqReads
  rw [if_pos hst]
  cases hnext : nextIf p .offerid with
  | none =>
      refine ⟨fun _ => ?_, fun _ => readsInside_nil m⟩
      cases hcall : mbufGetnextattrib p with
      | none =>
          rw [attribRefs_nil hcall]
          trivial
      | some r =>
          obtain ⟨a, p'⟩ := r
          rw [attribRefs_cons hcall]
          intro ht
          rw [nextIf, hcall] at hnext
          exact absurd ((if_pos ht).symm.trans hnext) (Option.some_ne_none _)
  | some r =>
      obtain ⟨a, p'⟩ := r
      obtain ⟨hstop, hp'⟩ := nextIf_value hp hnext
      obtain ⟨hcall, ht⟩ := nextIf_eq_some hnext
      rw [attribRefs_cons hcall]
      simp only
      rw [readsInside_cons, readsInside_word hstop]
      -- OFFSET and SIZE are looked for one after the other.
      have hplaces : Places m [.offset, .size] (attribRefs p') ↔ ReadsInside m
          ((numberReads p' .offset).1 ++ (numberReads (numberReads p' .offset).2 .size).1) := by
        obtain ⟨hoffset, hp₁⟩ := @inside_number m p' .offset [.size] hp' readsInside_word
        obtain ⟨hsize, -⟩ := @inside_number m _ .size [] hp₁ readsInside_word
        rw [hoffset, hsize, readsInside_append]
        exact and_congr_right fun _ => and_iff_left trivial
      constructor
      · rintro ⟨hlong, hrest⟩ -
        refine ⟨hlong, fun hfound => ?_⟩
        obtain ⟨o, ho⟩ : ∃ o, transferMatch env.now .offer (hdrGetSrcid p)
            (ui64At p' env.beyond a.av) c.transfers = some o :=
          (offer_found hp hp' hstop hlong).mpr hfound
        rw [ho] at hrest
        exact hplaces.mpr hrest
      · intro h
        obtain ⟨hlong, hrest⟩ := h ht
        refine ⟨hlong, ?_⟩
        split
        · exact readsInside_nil m
        · rename_i o ho
          exact hplaces.mp (hrest ((offer_found hp hp' hstop hlong).mp ⟨o, ho⟩))

end Uses

/-! ## All messages -/

/-- Handlers that do nothing but in some states. -/
theorem inside_guarded {m : Mbuf} {us : List Use} {P Q : Prop} (hno : ¬ P → us = [])
    (hyes : P → (ReadsInside m us ↔ Q)) : ReadsInside m us ↔ (P → Q) := by
  by_cases h : P
  · exact (hyes h).trans ⟨fun hq _ => hq, fun hq => hq h⟩
  · rw [hno h]
    exact ⟨fun _ hp => absurd hp h, fun _ => readsInside_nil m⟩

theorem inside_dispatch (env : CltEnv) (c : Clt) (m : Mbuf) :
    ReadsInside m (dispatchReads env c (mbufResetgetattrib m)) ↔ WellFormed c m := by
  have hp : (mbufResetgetattrib m).b = m.b := rfl
  -- What several types have in common.
  have hok : ∀ sts, ReadsInside m (okReads env sts c (mbufResetgetattrib m)) ↔
      (c.st ∈ sts ∧ hdrGetSrcid m = 0 →
        Lead m [.ok, .notice] (attribRefs (mbufResetgetattrib m))) :=
    fun sts => inside_guarded
      (fun h => by
        unfold okReads
        rw [if_neg (show ¬ (c.st ∈ sts ∧ hdrGetSrcid (mbufResetgetattrib m) = 0) from h)])
      (inside_ok hp)
  have hping : ReadsInside m (pingReads env c (mbufResetgetattrib m)) ↔
      (c.st = .authOk → Lead m [.notice] (attribRefs (mbufResetgetattrib m))) :=
    inside_guarded (fun h => if_neg h) fun h => by
      rw [pingReads, if_pos h]
      exact inside_notice hp
  have herr : ReadsInside m (errorReads env (mbufResetgetattrib m)) ↔
      (mclassIsErr (hdrGetType m) = true →
        Lead m [.error, .notice] (attribRefs (mbufResetgetattrib m))) :=
    inside_guarded
      (fun h => by
        unfold errorReads
        rw [if_neg (show ¬ mclassIsErr (hdrGetType (mbufResetgetattrib m)) = true from h)])
      (inside_error hp)
  unfold dispatchReads WellFormed
  rw [show hdrGetType (mbufResetgetattrib m) = hdrGetType m from rfl]
  cases htype : MsgType.ofCode? (hdrGetType m) with
  | none => exact herr
  | some t =>
      cases t with
      | pingReq => exact hping
      | pingInd => exact hping
      | offerReq => exact inside_guarded (fun h => if_neg h) (inside_offerReq hp)
      | getfileReq =>
          refine inside_guarded (fun h => ?_) (inside_getfileReq hp)
          unfold getfileReqReads
          rw [if_neg h]
      | pingRes => exact ⟨fun _ => trivial, fun _ => readsInside_nil m⟩
      | offerRes =>
          refine inside_guarded (fun h => ?_) (inside_offerRes hp)
          unfold offerResReads
          rw [if_neg h]
      | getfileRes =>
          refine inside_guarded (fun h => ?_) (inside_getfileRes hp)
          unfold getfileResReads
          rw [if_neg h]
      | peerlistRes =>
          exact inside_guarded (fun h => if_neg h) (inside_peerlist hp)
      | registerRes => exact hok _
      | dropRes => exact hok _
      | loginRes => exact inside_guarded (fun h => if_neg h) (inside_login hp)
      | authRes => exact hok _
      | logoutRes => exact hok _
      | _ => exact herr

/-- The condition on a message whose response is expected. -/
theorem wellFormed_solicited {c c' : Clt} {m : Mbuf} (hsol : c.solicited m = some c') :
    WellFormed c' m ↔ ((mclassIsRes (hdrGetType m) = true → ∃ r ∈ c.requests, Answers m r) →
      WellFormed c m) := by
  unfold solicited at hsol
  split at hsol
  · obtain ⟨q, hmatch, rfl⟩ := Option.map_eq_some_iff.mp hsol
    obtain ⟨r, hr, rfl⟩ := Option.map_eq_some_iff.mp hmatch
    have hans := List.find?_some (p := fun r : Mbuf => decide (Answers m r)) hr
    exact ⟨fun h _ => h,
      fun h => h fun _ => ⟨r, List.mem_of_find?_eq_some hr, of_decide_eq_true hans⟩⟩
  · rename_i hres
    cases hsol
    exact ⟨fun h _ => h, fun h => h fun hyes => absurd hyes hres⟩

end Clt

/-- **The client reads inside a message exactly when the attributes it uses are well
formed**, whatever the message and its state. -/
theorem values_inside_iff (env : CltEnv) (c : Clt) (m : Mbuf) :
    ReadsInside m (Clt.processSrvmsgReads env c m) ↔
      ((mclassIsRes (hdrGetType m) = true → ∃ r ∈ c.requests, Clt.Answers m r) →
        Clt.WellFormed c m) := by
  unfold Clt.processSrvmsgReads
  cases hsol : c.solicited m with
  | none =>
      refine ⟨fun _ hall => ?_, fun _ => readsInside_nil m⟩
      unfold Clt.solicited at hsol
      split at hsol
      · rename_i hres
        obtain ⟨r, hr, hans⟩ := hall hres
        rw [Option.map_eq_none_iff, Clt.matchPendingReq, Option.map_eq_none_iff,
          List.find?_eq_none] at hsol
        exact absurd (decide_eq_true hans) (hsol r hr)
      · cases hsol
  | some c' =>
      simp only
      rw [Clt.inside_dispatch]
      exact Clt.wellFormed_solicited hsol

/-- An offer whose file name is the last attribute, and not terminated. -/
def unterminatedOffer : Bytes :=
  (hdrSetPaylen (mbufCompose 0 .offerReq 5 0 1) 43).b ++
    (be16 (MsgAttrib.code .offerid) ++ be16 8 ++ be32 0 ++ be64 6) ++
    (be16 (MsgAttrib.code .size) ++ be16 8 ++ be32 0 ++ be64 4) ++
    (be16 (MsgAttrib.code .filename) ++ be16 3 ++ be32 0 ++ ascii "abc")

/-- Its payload arrives, and there is a letter behind the receive buffer. -/
def letterBehind : CltEvent :=
  .read (.got (unterminatedOffer.drop MSG_HDR_SIZE)) { demoEnv with beyond := ascii "d" ++ [0] }

/-- The octet behind the message becomes part of the name of the file. -/
theorem values_escape :
    ∃ (c t : Clt) (env : CltEnv) (m : Mbuf), cltLts.Reachable c ∧
      letterBehind.message c = some (env, m) ∧ m.bsize ≤ MSG_MAX_SIZE ∧
      ¬ ReadsInside m (Clt.processSrvmsgReads env c m) ∧ cltLts.step c letterBehind t ∧
      t.transfers.map Transfer.name = [some (ascii "abcd")] := by
  have hexec : (Lts.exec cltTry (demoClient false [])
      (loginRun ++ [.read (.got (unterminatedOffer.take MSG_HDR_SIZE)) demoEnv])).any
      (fun c => ((letterBehind.message c).any fun p => decide (p.2.bsize ≤ MSG_MAX_SIZE) &&
          !decide (ReadsInside p.2 (Clt.processSrvmsgReads p.1 c p.2))) &&
        (cltTry c letterBehind).any fun t =>
          t.transfers.map Transfer.name == [some (ascii "abcd")]) = true := by
    decide +kernel
  obtain ⟨c, hc, hp⟩ := Lts.reachable_of_exec (fun _ _ _ => cltTry_step)
    (demoClient_init false []) hexec
  obtain ⟨hread, hnext⟩ := Bool.and_eq_true_iff.mp hp
  obtain ⟨⟨env, m⟩, hm, hout⟩ := (Option.any_eq_true _ _).mp hread
  obtain ⟨t, ht, hname⟩ := (Option.any_eq_true _ _).mp hnext
  rw [Bool.and_eq_true, decide_eq_true_eq, Bool.not_eq_true', decide_eq_false_iff_not] at hout
  exact ⟨c, t, env, m, hc, hm, hout.1, hout.2, cltTry_step ht, beq_iff_eq.mp hname⟩

/-! ## What lies behind the message -/

namespace Clt

section Beyond

variable {m p p' : Mbuf} {a : AttrRef}

theorem ui64At_sound (hp : p.b = m.b) (hstop : a.value.stop ≤ m.bsize) (hlong : 8 ≤ a.al)
    (beyond beyond' : Bytes) : ui64At p beyond a.av = ui64At p beyond' a.av := by
  have hstop' : a.value.stop ≤ p.bsize := by rw [Mbuf.bsize, hp]; exact hstop
  rw [ui64At_inside hstop' hlong, ui64At_inside hstop' hlong]

theorem cstrAt_sound (hp : p.b = m.b) (hzero : 0 ∈ blobAt m a) (beyond beyond' : Bytes) :
    cstrAt p beyond a.av = cstrAt p beyond' a.av := by
  have hzero' : 0 ∈ blobAt p a := by rw [blobAt, hp]; exact hzero
  rw [(cstrAt_inside hzero' _).1, (cstrAt_inside hzero' _).1]

variable {env : CltEnv} {c : Clt} (beyond : Bytes)

theorem processOfferReq_beyond (hp : p.b = m.b)
    (h : c.st = .authOk → ∀ a ∈ attribRefs p, ∀ t ∈ [MsgAttrib.offerid, .filename, .size],
      a.at' = t.code → Sound m t a) :
    processOfferReq { env with beyond := beyond } c p = processOfferReq env c p := by
  unfold processOfferReq
  split
  · rename_i hst
    have hfold : ∀ r, (attribRefs p).foldl
        (offerAttrib { env with beyond := beyond } c.cfg.noClobber p) r =
          (attribRefs p).foldl (offerAttrib env c.cfg.noClobber p) r := by
      refine fun r => List.foldl_ext _ _ r fun r a ha => ?_
      have hstop := attribRefs_value hp ha
      have hsound := h hst a ha
      unfold offerAttrib
      simp only
      split
      · rename_i ht
        rw [ui64At_sound hp hstop (hsound .offerid (by simp) ht) beyond env.beyond]
      · split
        · rename_i ht
          rw [cstrAt_sound hp (hsound .filename (by simp) ht) beyond env.beyond]
        · split
          · rename_i ht
            rw [ui64At_sound hp hstop (hsound .size (by simp) ht) beyond env.beyond]
          · rfl
    simp only [hfold]
  · rfl

theorem nextUi64_beyond {t : MsgAttrib} {ts : List MsgAttrib} (hp : p.b = m.b)
    (hnum : ∀ {a}, Sound m t a → 8 ≤ a.al) (h : Places m (t :: ts) (attribRefs p)) :
    nextUi64 { env with beyond := beyond } p t = nextUi64 env p t ∧
      Places m ts (attribRefs (nextUi64 env p t).2) ∧ (nextUi64 env p t).2.b = m.b := by
  unfold nextUi64
  cases hcall : mbufGetnextattrib p with
  | none =>
      rw [attribRefs_nil hcall]
      exact ⟨rfl, places_nil ts, hp⟩
  | some r =>
      obtain ⟨a, p'⟩ := r
      have hvalue := getnextattrib_fits hcall
      rw [Mbuf.bsize, hp] at hvalue
      rw [attribRefs_cons hcall] at h
      refine ⟨?_, h.2, hvalue.2⟩
      simp only
      split
      · rename_i ht
        rw [ui64At_sound hvalue.2 hvalue.1 (hnum (h.1 ht)) beyond env.beyond]
      · rfl

theorem processGetfileReq_beyond (hp : p.b = m.b)
    (h : c.st = .authOk → Range c m (attribRefs p)) :
    processGetfileReq { env with beyond := beyond } c p = processGetfileReq env c p := by
  unfold processGetfileReq
  by_cases hst : c.st = .authOk
  · rw [if_pos hst]
    cases hnext : nextIf p .offerid with
    | none => rfl
    | some r =>
        obtain ⟨a, p'⟩ := r
        obtain ⟨hstop, hp'⟩ := nextIf_value hp hnext
        obtain ⟨hcall, ht⟩ := nextIf_eq_some hnext
        have hrange := h hst
        rw [attribRefs_cons hcall] at hrange
        obtain ⟨hlong, hrange⟩ := hrange ht
        simp only
        rw [ui64At_sound hp' hstop hlong beyond env.beyond]
        cases hmatch : transferMatch env.now .offer (hdrGetSrcid p) (ui64At p' env.beyond a.av)
            c.transfers with
        | none => rfl
        | some o =>
            have hplaces := hrange ((offer_found hp hp' hstop hlong).mp ⟨o, hmatch⟩)
            obtain ⟨hoffset, hrest, hb⟩ := nextUi64_beyond beyond hp' id hplaces
            obtain ⟨hsize, -, -⟩ := nextUi64_beyond beyond hb id hrest
            simp only
            rw [hoffset, hsize]
            rfl
  · rw [if_neg hst]

/-- The id that a response starts with. -/
theorem oid_beyond (hp : p.b = m.b) (h : Lead m [.offerid] (attribRefs p))
    (hnext : nextIf p .offerid = some (a, p')) (beyond' : Bytes) :
    ui64At p' beyond a.av = ui64At p' beyond' a.av := by
  obtain ⟨hstop, hp'⟩ := nextIf_value hp hnext
  exact ui64At_sound hp' hstop (lead_iff.mp h a p' hnext).1 beyond beyond'

theorem processOfferRes_beyond (hp : p.b = m.b)
    (h : c.st = .authOk → Lead m [.offerid] (attribRefs p)) :
    processOfferRes { env with beyond := beyond } c p = processOfferRes env c p := by
  unfold processOfferRes
  by_cases hst : c.st = .authOk
  · rw [if_pos hst]
    cases hnext : nextIf p .offerid with
    | none => rfl
    | some r =>
        simp only
        rw [oid_beyond beyond hp (h hst) hnext env.beyond]
  · rw [if_neg hst]

theorem processGetfileRes_beyond (hp : p.b = m.b)
    (h : c.st = .authOk → Lead m [.offerid] (attribRefs p)) :
    processGetfileRes { env with beyond := beyond } c p = processGetfileRes env c p := by
  unfold processGetfileRes
  by_cases hst : c.st = .authOk
  · rw [if_pos hst]
    cases hnext : nextIf p .offerid with
    | none => rfl
    | some r =>
        simp only
        rw [oid_beyond beyond hp (h hst) hnext env.beyond]
        rfl
  · rw [if_neg hst]

theorem processLoginRes_beyond (hp : p.b = m.b)
    (h : c.st = .preLogin ∧ hdrGetSrcid p = 0 → Lead m [.challenge, .notice] (attribRefs p)) :
    processLoginRes { env with beyond := beyond } c p = processLoginRes env c p := by
  unfold processLoginRes
  by_cases hst : c.st = .preLogin ∧ hdrGetSrcid p = 0
  · rw [if_pos hst, if_pos hst]
    cases hcall : mbufGetnextattrib p with
    | none => rfl
    | some r =>
        obtain ⟨a, p'⟩ := r
        have hp' : p'.b = m.b := (getnextattrib_fits hcall).2.trans hp
        have hlead := h hst
        rw [attribRefs_cons hcall] at hlead
        simp only
        split
        · rfl
        · split
          · rename_i hch
            rw [cstrAt_sound hp' (hlead hch).1 beyond env.beyond]
          · rfl
  · rw [if_neg hst, if_neg hst]

end Beyond

/-- **A client that reads inside a message** does with it what it does whatever lies behind. -/
theorem processSrvmsg_beyond {env : CltEnv} {c : Clt} {m : Mbuf} (beyond : Bytes)
    (h : ReadsInside m (processSrvmsgReads env c m)) :
    processSrvmsg { env with beyond := beyond } c m = processSrvmsg env c m := by
  have hp : (mbufResetgetattrib m).b = m.b := rfl
  unfold processSrvmsg
  cases hsol : c.solicited m with
  | none => rfl
  | some c' =>
      have hdispatch : dispatchSrvmsg { env with beyond := beyond } c' (mbufResetgetattrib m) =
          dispatchSrvmsg env c' (mbufResetgetattrib m) := by
        have hform : WellFormed c' m := by
          unfold processSrvmsgReads at h
          rw [hsol] at h
          exact (inside_dispatch env c' m).mp h
        unfold WellFormed at hform
        unfold dispatchSrvmsg
        rw [show hdrGetType (mbufResetgetattrib m) = hdrGetType m from rfl]
        cases htype : MsgType.ofCode? (hdrGetType m) with
        | none => rfl
        | some t =>
            rw [htype] at hform
            cases t with
            | offerReq => exact processOfferReq_beyond beyond hp hform
            | getfileReq => exact processGetfileReq_beyond beyond hp hform
            | offerRes => exact processOfferRes_beyond beyond hp hform
            | getfileRes => exact processGetfileRes_beyond beyond hp hform
            | loginRes => exact processLoginRes_beyond beyond hp fun hst => (hform hst).2
            | _ => rfl
      simp only
      rw [hdispatch]
      rfl

end Clt

end Frelay
