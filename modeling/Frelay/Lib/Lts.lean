import Mathlib.Tactic.Common

/-!
# Labelled transition systems

The vocabulary every run-level statement is phrased in: a system is a set of
initial states and a labelled step relation, a run is a finite sequence of
steps, and an inductive property holds of every reachable state.

* `Inductive.invariant` — the invariant rule, the only induction over runs;
* `guard` — the same system restricted to the steps a condition admits, for
  statements of the form "in every run whose steps all meet `C`";
* `within` — the runs that stay inside a condition on states;
* `observe` — the same system with a record of what happened, for statements
  about a run that its last state does not tell;
* `ofFun` — a system given by an executable partial step function, whose runs
  are exactly the successful executions (`run_ofFun_iff`);
* `Run.refine` — runs of one system are runs of another, label by label;
* `Simulates` — a step of one system matched by a step of another, which
  pulls invariants back (`Simulates.invariant`).
-/

namespace Lib

/-- A labelled transition system. -/
structure Lts (σ ε : Type) where
  init : σ → Prop
  step : σ → ε → σ → Prop

namespace Lts

variable {σ ε α β ω : Type}

/-- Finite runs, with the labels taken. -/
inductive Run (M : Lts σ ε) : σ → List ε → σ → Prop
  | nil (s : σ) : Run M s [] s
  | cons {s t u : σ} {e : ε} {es : List ε} :
      M.step s e t → Run M t es u → Run M s (e :: es) u

/-- States some run from an initial state ends in. -/
def Reachable (M : Lts σ ε) (s : σ) : Prop :=
  ∃ s₀ es, M.init s₀ ∧ M.Run s₀ es s

/-- `P` holds of every reachable state. -/
def Invariant (M : Lts σ ε) (P : σ → Prop) : Prop :=
  ∀ s, M.Reachable s → P s

/-- `P` holds initially and every step keeps it. -/
structure Inductive (M : Lts σ ε) (P : σ → Prop) : Prop where
  init : ∀ s, M.init s → P s
  step : ∀ s e t, P s → M.step s e t → P t

/-- Runs compose. -/
theorem Run.trans {M : Lts σ ε} {s t u : σ} {es fs : List ε}
    (h₁ : M.Run s es t) (h₂ : M.Run t fs u) : M.Run s (es ++ fs) u := by
  induction h₁ with
  | nil _ => exact h₂
  | cons hstep _ ih => exact .cons hstep (ih h₂)

/-- A property kept by every step is kept by every run. -/
theorem Run.preserves {M : Lts σ ε} {P : σ → Prop}
    (hstep : ∀ s e t, P s → M.step s e t → P t) {s t : σ} {es : List ε}
    (hrun : M.Run s es t) (hs : P s) : P t := by
  induction hrun with
  | nil _ => exact hs
  | cons h _ ih => exact ih (hstep _ _ _ hs h)

/-- When every step uses up some of a budget, the budget bounds the length of a run. -/
theorem Run.budget {M : Lts σ ε} {P : σ → Nat → Prop}
    (hstep : ∀ s e t n, P s n → M.step s e t → ∃ n' < n, P t n') {s t : σ} {es : List ε} {n : Nat}
    (hrun : M.Run s es t) (hs : P s n) : ∃ n', es.length + n' ≤ n ∧ P t n' := by
  induction hrun generalizing n with
  | nil _ => exact ⟨n, by simp, hs⟩
  | cons h _ ih =>
      obtain ⟨n₁, hlt, hmid⟩ := hstep _ _ _ n hs h
      obtain ⟨n₂, hle, ht⟩ := ih hmid
      exact ⟨n₂, by rw [List.length_cons]; omega, ht⟩

/-- A property that counts the steps. -/
theorem Run.counts {M : Lts σ ε} {P : σ → Nat → Prop}
    (hstep : ∀ s e t n, P s n → M.step s e t → P t (n + 1)) {s t : σ} {es : List ε} {n : Nat}
    (hrun : M.Run s es t) (hs : P s n) : P t (n + es.length) := by
  induction hrun generalizing n with
  | nil _ => exact hs
  | cons h _ ih =>
      have ht := ih (hstep _ _ _ n hs h)
      rwa [Nat.add_assoc, Nat.add_comm 1] at ht

/-- A run only strengthens what it is allowed to do when the step relation grows. -/
theorem Run.mono {M N : Lts σ ε} (h : ∀ s e t, M.step s e t → N.step s e t)
    {s t : σ} {es : List ε} (hrun : M.Run s es t) : N.Run s es t := by
  induction hrun with
  | nil s => exact .nil s
  | cons hstep _ ih => exact .cons (h _ _ _ hstep) ih

theorem Reachable.init {M : Lts σ ε} {s : σ} (h : M.init s) : M.Reachable s :=
  ⟨s, [], h, .nil s⟩

theorem Reachable.run {M : Lts σ ε} {s t : σ} {es : List ε}
    (hs : M.Reachable s) (h : M.Run s es t) : M.Reachable t := by
  obtain ⟨s₀, fs, hinit, hrun⟩ := hs
  exact ⟨s₀, fs ++ es, hinit, hrun.trans h⟩

theorem Reachable.step {M : Lts σ ε} {s t : σ} {e : ε}
    (hs : M.Reachable s) (h : M.step s e t) : M.Reachable t :=
  hs.run (.cons h (.nil t))

/-- The invariant rule. -/
theorem Inductive.invariant {M : Lts σ ε} {P : σ → Prop} (h : M.Inductive P) :
    M.Invariant P := by
  intro s ⟨s₀, es, hinit, hrun⟩
  exact hrun.preserves h.step (h.init s₀ hinit)

/-- An invariant may be used while proving the next one inductive. -/
theorem Invariant.strengthen {M : Lts σ ε} {P Q : σ → Prop} (hP : M.Invariant P)
    (hinit : ∀ s, M.init s → Q s)
    (hstep : ∀ s e t, P s → P t → Q s → M.step s e t → Q t) : M.Invariant Q := by
  intro s ⟨s₀, es, h₀, hrun⟩
  have key : ∀ {a b : σ} {es : List ε}, M.Run a es b → M.Reachable a → Q a → Q b := by
    intro a b es hr
    induction hr with
    | nil _ => exact fun _ hq => hq
    | cons h _ ih =>
        intro ha hq
        have ht := ha.step h
        exact ih ht (hstep _ _ _ (hP _ ha) (hP _ ht) hq h)
  exact key hrun (Reachable.init h₀) (hinit s₀ h₀)

/-! ## Conditions on steps -/

/-- The steps of `M` that the condition `C` admits. -/
def guard (M : Lts σ ε) (C : σ → ε → Prop) : Lts σ ε where
  init := M.init
  step s e t := M.step s e t ∧ C s e

/-- A guarded run is a run. -/
theorem Run.of_guard {M : Lts σ ε} {C : σ → ε → Prop} {s t : σ} {es : List ε}
    (h : (M.guard C).Run s es t) : M.Run s es t :=
  Run.mono (M := M.guard C) (fun _ _ _ hstep => hstep.1) h

theorem Reachable.of_guard {M : Lts σ ε} {C : σ → ε → Prop} {s : σ}
    (h : (M.guard C).Reachable s) : M.Reachable s := by
  obtain ⟨s₀, es, hinit, hrun⟩ := h
  exact ⟨s₀, es, hinit, hrun.of_guard⟩

/-- The runs of `M` all of whose states satisfy `P`. -/
def within (M : Lts σ ε) (P : σ → Prop) : Lts σ ε where
  init s := M.init s ∧ P s
  step s e t := M.step s e t ∧ P t

/-! ## Records -/

/-- `M` with a record of the run: `note s e o` is the record after a step `e` from `s`. -/
def observe (M : Lts σ ε) (o₀ : ω) (note : σ → ε → ω → ω) : Lts (σ × ω) ε where
  init s := M.init s.1 ∧ s.2 = o₀
  step s e t := M.step s.1 e t.1 ∧ t.2 = note s.1 e s.2

/-- A partial step function with the record. -/
def observeFun (f : σ → ε → Option σ) (note : σ → ε → ω → ω) (s : σ × ω) (e : ε) :
    Option (σ × ω) :=
  (f s.1 e).map fun t => (t, note s.1 e s.2)

theorem observeFun_step {M : Lts σ ε} {f : σ → ε → Option σ} {o₀ : ω} {note : σ → ε → ω → ω}
    (hf : ∀ s e t, f s e = some t → M.step s e t) (s : σ × ω) (e : ε) (t : σ × ω)
    (h : observeFun f note s e = some t) : (M.observe o₀ note).step s e t := by
  obtain ⟨u, hu, rfl⟩ := Option.map_eq_some_iff.mp h
  exact ⟨hf _ _ _ hu, rfl⟩

/-! ## Executable systems -/

/-- The system of a partial step function. -/
def ofFun (init : σ → Prop) (f : σ → ε → Option σ) : Lts σ ε where
  init := init
  step s e t := f s e = some t

/-- Execute a list of labels. -/
def exec (f : σ → ε → Option σ) (s : σ) : List ε → Option σ
  | [] => some s
  | e :: es => (f s e).bind fun t => exec f t es

@[simp] theorem exec_nil (f : σ → ε → Option σ) (s : σ) : exec f s [] = some s := rfl

@[simp] theorem exec_cons (f : σ → ε → Option σ) (s : σ) (e : ε) (es : List ε) :
    exec f s (e :: es) = (f s e).bind fun t => exec f t es := rfl

/-- The runs of an executable system are its successful executions. -/
theorem run_ofFun_iff {init : σ → Prop} {f : σ → ε → Option σ} {s t : σ} {es : List ε} :
    (ofFun init f).Run s es t ↔ exec f s es = some t := by
  constructor
  · intro h
    induction h with
    | nil _ => rfl
    | cons hstep _ ih => rw [exec_cons, show f _ _ = some _ from hstep]; exact ih
  · intro h
    induction es generalizing s with
    | nil =>
        cases h
        exact .nil _
    | cons e es ih =>
        rw [exec_cons, Option.bind_eq_some_iff] at h
        obtain ⟨u, hu, hrest⟩ := h
        exact .cons hu (ih hrest)

/-- What an execution finds ends a run, when the steps of `f` are steps of `M`. -/
theorem run_of_exec {M : Lts σ ε} {f : σ → ε → Option σ} {p : σ → Bool} {s : σ} {es : List ε}
    (hf : ∀ s e t, f s e = some t → M.step s e t) (h : (exec f s es).any p = true) :
    ∃ t, M.Run s es t ∧ p t = true := by
  obtain ⟨t, ht, hp⟩ := (Option.any_eq_true _ _).mp h
  have hrun : (ofFun M.init f).Run s es t := run_ofFun_iff.mpr ht
  exact ⟨t, Run.mono hf hrun, hp⟩

theorem reachable_of_exec {M : Lts σ ε} {f : σ → ε → Option σ} {p : σ → Bool} {s : σ}
    {es : List ε} (hf : ∀ s e t, f s e = some t → M.step s e t) (hs : M.init s)
    (h : (exec f s es).any p = true) : ∃ t, M.Reachable t ∧ p t = true := by
  obtain ⟨t, hrun, hp⟩ := run_of_exec hf h
  exact ⟨t, (Reachable.init hs).run hrun, hp⟩

/-- Execute a list of labels that may depend on the state they are taken in. -/
def script (f : σ → ε → Option σ) (s : σ) : List (σ → ε) → Option σ
  | [] => some s
  | g :: gs => (f s (g s)).bind fun t => script f t gs

/-- What a script finds ends a run. -/
theorem run_of_script {M : Lts σ ε} {f : σ → ε → Option σ} {p : σ → Bool} {s : σ}
    {gs : List (σ → ε)} (hf : ∀ s e t, f s e = some t → M.step s e t)
    (h : (script f s gs).any p = true) : ∃ es t, M.Run s es t ∧ p t = true := by
  induction gs generalizing s with
  | nil => exact ⟨[], s, .nil s, h⟩
  | cons g gs ih =>
      obtain ⟨t, ht, hp⟩ := (Option.any_eq_true _ _).mp h
      obtain ⟨u, hu, hrest⟩ := Option.bind_eq_some_iff.mp ht
      obtain ⟨es, v, hrun, hv⟩ := ih (s := u) (by rw [hrest]; exact hp)
      exact ⟨g s :: es, v, .cons (hf _ _ _ hu) hrun, hv⟩

/-! ## Simulation -/

/-- When every step of `M` under an invariant is a step of `A` with the same label,
the runs of `M` are runs of `A`. -/
theorem Run.refine {M : Lts σ ε} {A : Lts α ε} {abs : σ → α} {P : σ → Prop}
    (hstep : ∀ s e t, P s → M.step s e t → P t ∧ A.step (abs s) e (abs t)) {s t : σ}
    {es : List ε} (hrun : M.Run s es t) (hs : P s) : A.Run (abs s) es (abs t) := by
  induction hrun with
  | nil s => exact .nil _
  | cons h _ ih =>
      obtain ⟨ht, hA⟩ := hstep _ _ _ hs h
      exact .cons hA (ih ht)

/-- Every step of `M` is matched, through the abstraction `abs`, by a step of
`A` or leaves the abstract state alone. -/
structure Simulates (M : Lts σ ε) (A : Lts α β) (abs : σ → α) : Prop where
  init : ∀ s, M.init s → A.init (abs s)
  step : ∀ s e t, M.step s e t → abs t = abs s ∨ ∃ l, A.step (abs s) l (abs t)

/-- Reachable states are reachable abstractly. -/
theorem Simulates.reachable {M : Lts σ ε} {A : Lts α β} {abs : σ → α}
    (h : Simulates M A abs) {s : σ} (hs : M.Reachable s) : A.Reachable (abs s) := by
  obtain ⟨s₀, es, hinit, hrun⟩ := hs
  refine hrun.preserves (P := fun t => A.Reachable (abs t)) ?_ (Reachable.init (h.init s₀ hinit))
  intro t e u ht hstep
  rcases h.step t e u hstep with heq | ⟨l, hl⟩
  · rw [heq]
    exact ht
  · exact ht.step hl

/-- Abstract invariants hold below. -/
theorem Simulates.invariant {M : Lts σ ε} {A : Lts α β} {abs : σ → α}
    (h : Simulates M A abs) {P : α → Prop} (hP : A.Invariant P) :
    M.Invariant fun s => P (abs s) :=
  fun _ hs => hP _ (h.reachable hs)

end Lts

end Lib
