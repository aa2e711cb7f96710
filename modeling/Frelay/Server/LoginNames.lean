import Frelay.Server.Sessions
import Frelay.Userdb.ValidNames

/-!
# The names clients log in with

A name comes into the table of clients from the database, where it has been checked,
or from the octets of a LOGIN request, where it has not. It comes into the database
from the table.

* `login_names_whole` — every logged-in client has a good name in every run in which
  no unregistered client logs in with a bad one.
-/

namespace Frelay

open Lib

/-- The name of a session past the LOGIN request is a whole good name. -/
def Session.Whole (x : Session) : Prop :=
  x.LoggedIn → ∃ n, x.name = some n ∧ unameRe n = true

/-- The names of the logged-in sessions and those of the accounts are whole. -/
structure NamesWhole (a : Accounts) : Prop where
  wf : a.udb.WellFormed
  udb : a.udb.WholeNames
  sess : ∀ i x, a.sess i = some x → x.Whole

/-- The event lets nobody in under a bad name: an unregistered client that gets the
name it asks for asks for a good one. -/
def Accounts.GoodName (a : Accounts) : AcctEvent → Prop
  | .login i name e₁ _ => ∀ x, a.sess i = some x → x.st = .preLogin →
      (udbLookupname e₁ a.udb name).2 = none → ¬ a.NameUsed name → unameRe name = true
  | _ => True

theorem SessFrom.whole {a : Accounts} {e : AcctEvent} {i : Nat} {y : Session}
    (h : SessFrom a e i y) (hw : NamesWhole a) (hgood : a.GoodName e) : y.Whole := by
  intro hlog
  cases h with
  | kept hx => exact hw.sess _ _ hx hlog
  | fresh => rcases hlog with hlog | hlog <;> cases hlog
  | temp hi hst hnone hfree => exact ⟨_, rfl, hgood _ hi hst hnone hfree⟩
  | @challenged i x name e₁ e₂ u hi hst hu =>
      exact ⟨u.name, rfl, hw.udb.load hw.wf e₁ u (lookupname_mem hu).1⟩
  | rejected hi hbad => rcases hlog with hlog | hlog <;> cases hlog
  | accepted hi hst hkey =>
      obtain ⟨n, hn, hgood⟩ := hw.sess _ _ hi (.inl hst)
      exact ⟨n, hn, hgood⟩

/-- The database takes its names from the sessions. -/
theorem AcctStep.udb_whole {a b : Accounts} {e : AcctEvent} (hstep : AcctStep a e b)
    (h : NamesWhole a) : b.udb.WellFormed ∧ b.udb.WholeNames := by
  have hload : ∀ e₁, (udbLoad e₁ a.udb).WellFormed ∧ (udbLoad e₁ a.udb).WholeNames :=
    fun e₁ => ⟨h.wf.load e₁, h.udb.load h.wf e₁⟩
  cases hstep with
  | idle => exact ⟨h.wf, h.udb⟩
  | connect hi => exact ⟨h.wf, h.udb⟩
  | remap f => exact ⟨h.wf, h.udb⟩
  | loginTaken hi hst hnone hused => exact hload _
  | @loginTemp i x name e₁ e₂ hi hst hnone hfree =>
      obtain ⟨hwf, hwhole⟩ := hload e₁
      exact ⟨(h.wf.lookupname e₁ name).gettempid e₂, hwhole.load hwf e₂⟩
  | loginUser hi hst hu => exact hload _
  | authFailed hi hbad => exact ⟨h.wf, h.udb⟩
  | authOk hi hst hkey => exact ⟨h.wf, h.udb⟩
  | logout hi hst => exact ⟨h.wf, h.udb⟩
  | @register i x n pubkey e₁ e₂ hi hst hn =>
      obtain ⟨n', hn', hgood⟩ := h.sess i x hi (.inr hst)
      obtain rfl : n = n' := Option.some.inj (hn.symm.trans hn')
      have hwf := h.wf.dropentry e₁ n
      have hdrop := h.udb.dropentry h.wf e₁ n
      exact ⟨hwf.addentry e₂ _ _ _, hdrop.addentry hwf e₂ _ _ hgood⟩
  | @drop i x n e₁ hi hst hn => exact ⟨h.wf.dropentry e₁ n, h.udb.dropentry h.wf e₁ n⟩

/-- **Names stay whole** across every step that lets nobody in under a bad name. -/
theorem NamesWhole.step {a b : Accounts} {e : AcctEvent} (h : NamesWhole a)
    (hgood : a.GoodName e) (hstep : AcctStep a e b) : NamesWhole b :=
  have hudb := hstep.udb_whole h
  ⟨hudb.1, hudb.2, fun _ _ hy => (hstep.sessFrom hy).whole h hgood⟩

/-- The server, with any accesses to the database file, in the runs in which nobody is
let in under a bad name. -/
def goodNamesLts : Lts Server SrvEvent :=
  (srvLts fun _ => True).guard fun s e => s.acct.GoodName (acctEvent s e)

theorem namesWhole_inductive : goodNamesLts.Inductive fun s => SlotsOk s ∧ NamesWhole s.acct where
  init := by
    rintro s ⟨cfg, listenfd, e, file, -, -, rfl⟩
    have hempty : Udb.WholeNames { userdb := [], nextId := 1, file := file } :=
      fun u hu => absurd hu List.not_mem_nil
    refine ⟨slotsOk_initial cfg listenfd _, wellFormed_init e file, ?_, ?_⟩
    · exact hempty.load ⟨by simp, by simp⟩ e
    · intro i x hx
      rw [initial_sess] at hx
      cases hx
  step := by
    rintro s e t ⟨hok, hnames⟩ ⟨⟨hen, -, hstep⟩, hgood⟩
    exact ⟨hok.step hen hstep, hnames.step hgood (srvStep_acct hok hen hstep)⟩

/-- **Every logged-in client has a good name** in these runs. -/
theorem login_names_whole {s : Server} (hs : goodNamesLts.Reachable s) {i : Nat} (hi : s.Live i)
    (hlog : (s.clients i).st = .loginOk ∨ (s.clients i).st = .authOk) :
    ∃ n, (s.clients i).name = some n ∧ unameRe n = true :=
  (namesWhole_inductive.invariant s hs).2.sess i _ (acct_sess_of_live hi) hlog

/-- The steps of the server, LOGIN requests only with a good name. -/
def goodNameTry (s : Server) (e : SrvEvent) : Option Server :=
  match acctEvent s e with
  | .login _ name _ _ => if unameRe name then srvTry s e else none
  | _ => srvTry s e

theorem goodNameTry_step {s t : Server} {e : SrvEvent} (h : goodNameTry s e = some t) :
    goodNamesLts.step s e t := by
  unfold goodNameTry at h
  split at h
  · rename_i i name e₁ e₂ hev
    split at h
    · rename_i hgood
      refine ⟨srvTry_step _ trivial h, ?_⟩
      simp only [hev]
      exact fun _ _ _ _ _ => hgood
    · cases h
  · rename_i hev
    refine ⟨srvTry_step _ trivial h, ?_⟩
    simp only
    generalize acctEvent s e = a at hev ⊢
    cases a with
    | login i name e₁ e₂ => exact absurd rfl (hev i name e₁ e₂)
    | _ => trivial

theorem login_names_whole_tom :
    ∃ s : Server, (s.Live 0 ∧ ((s.clients 0).st = .loginOk ∨ (s.clients 0).st = .authOk)) ∧
      ∃ n, (s.clients 0).name = some n ∧ unameRe n = true := by
  have hexec : (Lts.exec goodNameTry (demoServer (some bobFile)) (mixedRun (ascii "tom"))).any
      (fun s => decide (s.Live 0) && (s.clients 0).st == .authOk) = true := by
    decide +kernel
  obtain ⟨s, hs, hp⟩ := Lts.reachable_of_exec (M := goodNamesLts) (fun _ _ _ => goodNameTry_step)
    (demoServer_init (fun _ => True) trivial _) hexec
  rw [Bool.and_eq_true, decide_eq_true_eq, beq_iff_eq] at hp
  exact ⟨s, ⟨hp.1, .inr hp.2⟩, login_names_whole hs hp.1 (.inr hp.2)⟩

/-- The path of an unregistered client does not look at the name at all. -/
theorem login_names_bad :
    ¬ ∀ s, (srvLts fun _ => True).Reachable s → ∀ i, s.Live i →
      (s.clients i).st = .loginOk ∨ (s.clients i).st = .authOk →
      ∃ n, (s.clients i).name = some n ∧ unameRe n = true := by
  have hexec : (Lts.exec srvTry (demoServer (some bobFile)) (mixedRun (ascii "a b"))).any
      (fun s => decide (s.Live 0) && (s.clients 0).st == .authOk &&
        (s.clients 0).name == some (ascii "a b")) = true := by
    decide +kernel
  obtain ⟨s, hs, hp⟩ := Lts.reachable_of_exec (fun _ _ _ => srvTry_step (fun _ => True) trivial)
    (demoServer_init (fun _ => True) trivial _) hexec
  simp only [Bool.and_eq_true, decide_eq_true_eq, beq_iff_eq] at hp
  obtain ⟨⟨h0, hst0⟩, hn0⟩ := hp
  intro h
  obtain ⟨n, hn, hgood⟩ := h s hs 0 h0 (.inr hst0)
  obtain rfl : ascii "a b" = n := Option.some.inj (hn0.symm.trans hn)
  exact absurd hgood (by decide)

end Frelay
