import Frelay.Message.Reads
import Frelay.Server.Relay

/-!
# Strings the server reads

LOGIN, AUTH and REGISTER hand the pointer to an attribute value to string functions.
`processMsgReads` lists these uses, in the order of the source.

* `strings_inside_iff` — they stay inside the message exactly when the string is
  terminated there;
* `processServerMsg_beyond` — while they do, the outcome does not depend on what lies behind.
-/

namespace Frelay

open Lib

/-- `strlen` and `strcpy` of the string at `a`. -/
def copied (env : MsgEnv) (m : Mbuf) (a : AttrRef) : List Use :=
  let n := (cstrAt m env.beyond a.av).length + 1
  [.str a n, .str a n]

/-- `strcmp` of the string at `a` with each name in turn. -/
def comparedWith (f : UInt8 → UInt8) (env : MsgEnv) (m : Mbuf) (a : AttrRef) (names : List Bytes) :
    List Use :=
  names.map fun n => .str a (compared f (cstrAt m env.beyond a.av) n)

/-- The strings of `case MSG_TYPE_REGISTER_REQ`: `strdupcat_s`. -/
def registerReads (env : MsgEnv) (s : Server) (i : Nat) (m : Mbuf) : List Use :=
  if (s.clients i).st ≠ .authOk then []
  else
    match nextOf m .pubkey with
    | none => []
    | some a => copied env m a

/-- The names of the live slots. -/
def liveNames (s : Server) : List Bytes :=
  s.slots.filterMap fun j => if 0 ≤ (s.clients j).fd then (s.clients j).name else none

/-- The strings of `case MSG_TYPE_LOGIN_REQ`: the search for an entry, that for a slot
with the name, and `strdup_s`. -/
def loginReads (env : MsgEnv) (s : Server) (i : Nat) (m : Mbuf) : List Use :=
  if (s.clients i).st ≠ .preLogin then []
  else
    match nextOf m .username with
    | none => []
    | some a =>
        let name := cstrAt m env.beyond a.av
        let r := udbLookupname env.db1 s.udb name
        comparedWith id env m a ((searched (fun p => name == p.name) r.1.userdb).map User.name) ++
          match r.2 with
          | some _ => []
          | none =>
              comparedWith tolower env m a
                (searched (fun n => stricmp n name == 0) (liveNames s)) ++
              if nameInUse s name then [] else copied env m a

/-- The strings of `case MSG_TYPE_AUTH_REQ`: `strcmp` with the key, or with a null pointer. -/
def authReads (env : MsgEnv) (s : Server) (i : Nat) (m : Mbuf) : List Use :=
  if (s.clients i).st ≠ .loginOk then []
  else
    match nextOf m .digest with
    | none => []
    | some a => comparedWith id env m a [(s.clients i).key.getD []]

/-- The strings `process_server_msg` reads. -/
def processServerMsgReads (env : MsgEnv) (s : Server) (i : Nat) (m : Mbuf) : List Use :=
  let m := mbufResetgetattrib m
  match MsgType.ofCode? (hdrGetType m) with
  | some .registerReq => registerReads env s i m
  | some .loginReq => loginReads env s i m
  | some .authReq => authReads env s i m
  | _ => []

/-- The strings `process_msg` reads: only messages to the server are looked into. -/
def processMsgReads (env : MsgEnv) (s : Server) (i : Nat) (m : Mbuf) : List Use :=
  if hdrGetDstid m = 0 then processServerMsgReads env s i m else []

/-- The attribute that a request is about, in the state in which it is served. -/
def stringAttrib : CltState → MsgType → Option MsgAttrib
  | .authOk, .registerReq => some .pubkey
  | .preLogin, .loginReq => some .username
  | .loginOk, .authReq => some .digest
  | _, _ => none

/-- If the message is one of these requests to the server and starts with this
attribute, there is a null character among its octets. -/
def Terminated (s : Server) (i : Nat) (m : Mbuf) : Prop :=
  hdrGetDstid m = 0 → ∀ t u a, MsgType.ofCode? (hdrGetType m) = some t →
    stringAttrib (s.clients i).st t = some u → nextOf (mbufResetgetattrib m) u = some a →
    0 ∈ blobAt m a

/-! ## Uses of one attribute -/

/-- The string value of the next attribute, as the handlers take it. -/
theorem nextStr_eq (env : MsgEnv) (m : Mbuf) (t : MsgAttrib) :
    nextStr env m t = (nextOf m t).map fun a => cstrAt m env.beyond a.av := by
  unfold nextStr nextOf
  cases hnext : mbufGetnextattrib m with
  | none => rfl
  | some p =>
      obtain ⟨a, m'⟩ := p
      have hb := (getnextattrib_fits hnext).2
      simp only
      split
      · rw [Option.map_some, cstrAt, cstrAt, hb]
      · rfl

/-- All uses are uses of the attribute `a`, as far as its string goes. -/
def UsesOf (env : MsgEnv) (m : Mbuf) (a : AttrRef) (us : List Use) : Prop :=
  ∀ u ∈ us, ∃ n, u = .str a n ∧ n ≤ (cstrAt m env.beyond a.av).length + 1

section Uses

variable {env : MsgEnv} {m : Mbuf} {a : AttrRef}

theorem usesOf_copied : UsesOf env m a (copied env m a) := by
  intro u hu
  rcases List.mem_cons.mp hu with rfl | hu
  · exact ⟨_, rfl, Nat.le_refl _⟩
  · rw [List.mem_singleton.mp hu]
    exact ⟨_, rfl, Nat.le_refl _⟩

theorem usesOf_comparedWith (f : UInt8 → UInt8) (names : List Bytes) :
    UsesOf env m a (comparedWith f env m a names) := by
  intro u hu
  obtain ⟨n, -, rfl⟩ := List.mem_map.mp hu
  exact ⟨_, rfl, compared_le _ _ _⟩

theorem UsesOf.append {us vs : List Use} (h : UsesOf env m a us) (h' : UsesOf env m a vs) :
    UsesOf env m a (us ++ vs) := by
  intro u hu
  rcases List.mem_append.mp hu with hu | hu
  · exact h u hu
  · exact h' u hu

/-- Uses of one attribute are inside when there are any exactly if it is terminated. -/
theorem UsesOf.inside_iff {m₀ m' : Mbuf} {us : List Use} (h : UsesOf env m a us) (hne : us ≠ [])
    (hnext : mbufGetnextattrib m₀ = some (a, m')) (hm₀ : m₀.b = m.b) :
    ReadsInside m us ↔ 0 ∈ blobAt m a := by
  have hstop : a.value.stop ≤ m.bsize := by
    rw [Mbuf.bsize, ← hm₀]
    exact (getnextattrib_fits hnext).1
  have hus : ∀ u ∈ us, u.attr.value.stop ≤ m.bsize ∧ u.ToTheEnd m env.beyond := by
    intro u hu
    obtain ⟨n, rfl, hn⟩ := h u hu
    exact ⟨hstop, hn⟩
  rw [readsInside_iff hus]
  constructor
  · intro hall
    obtain ⟨u, hu⟩ := List.exists_mem_of_ne_nil us hne
    obtain ⟨n, rfl, -⟩ := h u hu
    exact hall _ hu
  · intro hzero u hu
    obtain ⟨n, rfl, -⟩ := h u hu
    exact hzero

end Uses

/-! ## The three requests -/

/-- A name that is in use is compared with. -/
theorem liveNames_ne_nil {s : Server} {name : Bytes} (h : nameInUse s name = true) :
    liveNames s ≠ [] := by
  obtain ⟨j, hj, huse⟩ := List.any_eq_true.mp h
  rw [Bool.and_eq_true, decide_eq_true_eq] at huse
  cases hname : (s.clients j).name with
  | none =>
      rw [hname] at huse
      exact absurd huse.2 Bool.false_ne_true
  | some n =>
      refine List.ne_nil_of_mem (a := n) (List.mem_filterMap.mpr ⟨j, hj, ?_⟩)
      rw [if_pos huse.1, hname]

/-- A LOGIN always looks at the name. -/
theorem loginReads_uses {env : MsgEnv} {s : Server} {i : Nat} {m : Mbuf} {a : AttrRef}
    (hst : (s.clients i).st = .preLogin) (ha : nextOf m .username = some a) :
    UsesOf env m a (loginReads env s i m) ∧ loginReads env s i m ≠ [] := by
  unfold loginReads
  rw [if_neg (not_not.mpr hst), ha]
  simp only
  generalize hr : udbLookupname env.db1 s.udb (cstrAt m env.beyond a.av) = r
  cases hfound : r.2 with
  | some u =>
      refine ⟨(usesOf_comparedWith _ _).append nofun, fun hnil => ?_⟩
      rw [List.append_nil, comparedWith, List.map_eq_nil_iff, List.map_eq_nil_iff,
        searched_eq_nil] at hnil
      have hfind : r.1.userdb.find? (fun p => cstrAt m env.beyond a.av == p.name) = some u := by
        rw [← hfound, ← hr]
        rfl
      rw [hnil] at hfind
      cases hfind
  | none =>
      refine ⟨(usesOf_comparedWith _ _).append ((usesOf_comparedWith _ _).append ?_),
        fun hnil => ?_⟩
      · split
        · exact nofun
        · exact usesOf_copied
      · obtain ⟨-, hnil⟩ := List.append_eq_nil_iff.mp hnil
        obtain ⟨hslots, hcopy⟩ := List.append_eq_nil_iff.mp hnil
        split at hcopy
        · rename_i huse
          rw [comparedWith, List.map_eq_nil_iff, searched_eq_nil] at hslots
          exact liveNames_ne_nil huse hslots
        · cases hcopy

/-- Each of the three requests looks at the string it is about, and at nothing else. -/
theorem processServerMsgReads_uses {env : MsgEnv} {s : Server} {i : Nat} {m : Mbuf} {t : MsgType}
    {u : MsgAttrib} {a : AttrRef} (htype : MsgType.ofCode? (hdrGetType m) = some t)
    (hattr : stringAttrib (s.clients i).st t = some u)
    (ha : nextOf (mbufResetgetattrib m) u = some a) :
    UsesOf env m a (processServerMsgReads env s i m) ∧ processServerMsgReads env s i m ≠ [] := by
  have htype' : MsgType.ofCode? (hdrGetType (mbufResetgetattrib m)) = some t := htype
  unfold processServerMsgReads
  simp only [htype']
  unfold stringAttrib at hattr
  split at hattr
  · rename_i hst
    cases hattr
    have hreads : registerReads env s i (mbufResetgetattrib m) = copied env m a := by
      unfold registerReads
      rw [if_neg (not_not.mpr hst), ha]
      rfl
    rw [hreads]
    exact ⟨usesOf_copied, List.cons_ne_nil _ _⟩
  · rename_i hst
    cases hattr
    exact loginReads_uses hst ha
  · rename_i hst
    cases hattr
    have hreads : authReads env s i (mbufResetgetattrib m) =
        comparedWith id env m a [(s.clients i).key.getD []] := by
      unfold authReads
      rw [if_neg (not_not.mpr hst), ha]
      rfl
    rw [hreads]
    exact ⟨usesOf_comparedWith _ _, List.cons_ne_nil _ _⟩
  · cases hattr

/-- Nothing else is looked at. -/
theorem processServerMsgReads_none {env : MsgEnv} {s : Server} {i : Nat} {m : Mbuf}
    (h : ∀ t u, MsgType.ofCode? (hdrGetType m) = some t →
      stringAttrib (s.clients i).st t = some u → nextOf (mbufResetgetattrib m) u = none) :
    processServerMsgReads env s i m = [] := by
  unfold processServerMsgReads
  simp only
  split
  · rename_i htype
    unfold registerReads
    split
    · rfl
    · rename_i hst
      rw [not_not] at hst
      rw [h .registerReq .pubkey htype (by rw [hst]; rfl)]
  · rename_i htype
    unfold loginReads
    split
    · rfl
    · rename_i hst
      rw [not_not] at hst
      rw [h .loginReq .username htype (by rw [hst]; rfl)]
  · rename_i htype
    unfold authReads
    split
    · rfl
    · rename_i hst
      rw [not_not] at hst
      rw [h .authReq .digest htype (by rw [hst]; rfl)]
  · rfl

/-- The string that a handler reads. -/
theorem processServerMsgReads_inside {env : MsgEnv} {s : Server} {i : Nat} {m : Mbuf} {t : MsgType}
    {u : MsgAttrib} {a : AttrRef} (ht : MsgType.ofCode? (hdrGetType m) = some t)
    (hu : stringAttrib (s.clients i).st t = some u)
    (ha : nextOf (mbufResetgetattrib m) u = some a) :
    ReadsInside m (processServerMsgReads env s i m) ↔ 0 ∈ blobAt m a := by
  obtain ⟨huses, hne⟩ : UsesOf env m a (processServerMsgReads env s i m) ∧
      processServerMsgReads env s i m ≠ [] := processServerMsgReads_uses ht hu ha
  obtain ⟨m', hnext, -⟩ := nextOf_eq_some ha
  exact huses.inside_iff hne hnext rfl

/-- **Strings are read inside the message exactly when they end there**, whatever the
message, the state of its client and the database. -/
theorem strings_inside_iff (env : MsgEnv) (s : Server) (i : Nat) (m : Mbuf) :
    ReadsInside m (processMsgReads env s i m) ↔ Terminated s i m := by
  unfold processMsgReads
  by_cases hdst : hdrGetDstid m = 0
  · rw [if_pos hdst]
    by_cases hex : ∃ t u a, MsgType.ofCode? (hdrGetType m) = some t ∧
        stringAttrib (s.clients i).st t = some u ∧ nextOf (mbufResetgetattrib m) u = some a
    · obtain ⟨t, u, a, ht, hu, ha⟩ := hex
      rw [processServerMsgReads_inside ht hu ha]
      constructor
      · intro hzero _ t' u' a' ht' hu' ha'
        obtain rfl := Option.some.inj (ht.symm.trans ht')
        obtain rfl := Option.some.inj (hu.symm.trans hu')
        obtain rfl := Option.some.inj (ha.symm.trans ha')
        exact hzero
      · exact fun h => h hdst t u a ht hu ha
    · rw [processServerMsgReads_none fun t u ht hu => by
        cases ha : nextOf (mbufResetgetattrib m) u with
        | none => rfl
        | some a => exact absurd ⟨t, u, a, ht, hu, ha⟩ hex]
      exact ⟨fun _ _ t u a ht hu ha => absurd ⟨t, u, a, ht, hu, ha⟩ hex, fun _ => nofun⟩
  · rw [if_neg hdst]
    exact ⟨fun _ h => absurd h hdst, fun _ => nofun⟩

/-- A LOGIN with the three octets of a name and no terminator, at the end of the message. -/
def unterminatedLogin : Bytes :=
  (hdrSetPaylen (mbufCompose 0 .loginReq 0 0 1) 11).b ++
    (be16 (MsgAttrib.code .username) ++ be16 3 ++ be32 0 ++ ascii "abc")

/-- It arrives at a new connection: the octets behind it become part of the name. -/
theorem strings_escape :
    ∃ (s t : Server) (m : Mbuf) (env : MsgEnv), (srvLts fun _ => True).Reachable s ∧
      incoming s (.read 0 1 (.got (unterminatedLogin.drop 40)) env) = some (0, m) ∧
      ¬ ReadsInside m (processMsgReads env s 0 m) ∧
      srvStep s (.read 0 1 (.got (unterminatedLogin.drop 40)) env) = some t ∧
      (t.clients 0).name = some (ascii "abcd") := by
  have hexec : (Lts.exec srvTry (demoServer none)
      [.accept 4 true 1, .read 0 1 (.got (unterminatedLogin.take 40)) ⟨[], 0, .good, .good⟩]).any
      (fun s => (incoming s (.read 0 1 (.got (unterminatedLogin.drop 40))
        ⟨ascii "d" ++ [0], 0, .good, .good⟩)).any fun p => p.1 == 0 &&
          !decide (ReadsInside p.2 (processMsgReads ⟨ascii "d" ++ [0], 0, .good, .good⟩ s 0 p.2)) &&
          (srvStep s (.read 0 1 (.got (unterminatedLogin.drop 40))
            ⟨ascii "d" ++ [0], 0, .good, .good⟩)).any fun t =>
              (t.clients 0).name == some (ascii "abcd")) = true := by
    decide +kernel
  obtain ⟨s, hs, h₁⟩ := Lts.reachable_of_exec (fun _ _ _ => srvTry_step (fun _ => True) trivial)
    (demoServer_init (fun _ => True) trivial _) hexec
  obtain ⟨⟨k, m⟩, hm, h₂⟩ := (Option.any_eq_true _ _).mp h₁
  simp only [Bool.and_eq_true, beq_iff_eq, Bool.not_eq_true', decide_eq_false_iff_not] at h₂
  obtain ⟨⟨rfl, hno⟩, h₃⟩ := h₂
  obtain ⟨t, ht, hname⟩ := (Option.any_eq_true _ _).mp h₃
  exact ⟨s, t, m, _, hs, hm, hno, ht, by simpa using hname⟩

/-! ## What lies behind the message -/

/-- A terminated string is the same whatever lies behind the message. -/
theorem nextStr_beyond {env : MsgEnv} {m : Mbuf} {u : MsgAttrib} (beyond : Bytes)
    (h : ∀ a, nextOf m u = some a → 0 ∈ blobAt m a) :
    nextStr { env with beyond := beyond } m u = nextStr env m u := by
  rw [nextStr_eq, nextStr_eq]
  cases ha : nextOf m u with
  | none => rfl
  | some a =>
      rw [Option.map_some, Option.map_some, (cstrAt_inside (h a ha) _).1,
        (cstrAt_inside (h a ha) _).1]

/-- **A server that reads inside a message** does with it what it does whatever lies behind. -/
theorem processServerMsg_beyond {env : MsgEnv} {s : Server} {i : Nat} {m : Mbuf}
    (hdst : hdrGetDstid m = 0) (h : ReadsInside m (processMsgReads env s i m)) (beyond : Bytes) :
    processServerMsg { env with beyond := beyond } s i m = processServerMsg env s i m := by
  rw [processMsgReads, if_pos hdst] at h
  have hstr : ∀ t u, MsgType.ofCode? (hdrGetType m) = some t →
      stringAttrib (s.clients i).st t = some u →
      nextStr { env with beyond := beyond } (mbufResetgetattrib m) u =
        nextStr env (mbufResetgetattrib m) u :=
    fun t u ht hu => nextStr_beyond beyond fun a ha => (processServerMsgReads_inside ht hu ha).mp h
  -- Three handlers read a string, each in one state only.
  unfold processServerMsg
  simp only
  split
  · rfl
  · split
    · rfl
    · rfl
    · rename_i htype
      unfold processRegister
      by_cases hst : (s.clients i).st = .authOk
      · rw [if_neg (not_not.mpr hst), if_neg (not_not.mpr hst),
          hstr .registerReq .pubkey htype (by rw [hst]; rfl)]
        rfl
      · rw [if_pos hst, if_pos hst]
        rfl
    · rfl
    · rename_i htype
      unfold processLogin
      simp only
      by_cases hst : (s.clients i).st = .preLogin
      · rw [if_neg (not_not.mpr hst), if_neg (not_not.mpr hst),
          hstr .loginReq .username htype (by rw [hst]; rfl)]
        rfl
      · rw [if_pos hst, if_pos hst]
        rfl
    · rename_i htype
      unfold processAuth
      by_cases hst : (s.clients i).st = .loginOk
      · rw [if_neg (not_not.mpr hst), if_neg (not_not.mpr hst),
          hstr .authReq .digest htype (by rw [hst]; rfl)]
        rfl
      · rw [if_pos hst, if_pos hst]
        rfl
    · rfl
    · rfl
    · rfl

end Frelay
