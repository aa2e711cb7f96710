import Frelay.Lib.Lts

/-!
# Channels that keep the order

The content of a channel is a list, the oldest value first. One step takes some values
out at the front and puts some in at the end; both may happen at once, and a value may
pass straight through.

* `Passes` — one step of a channel;
* `Conveys` — a system in which a channel is found, by what it holds and what a step
  puts in and takes out;
* `Conveys.run` — over a whole run nothing is lost, invented, repeated or overtaken.
-/

namespace Lib

variable {α σ ε : Type}

/-- From content `q` to `q'` the values `ins` are put in and `outs` taken out. -/
def Passes (q ins outs q' : List α) : Prop := outs ++ q' = q ++ ins

namespace Passes

theorem refl (q : List α) : Passes q [] [] q := (List.append_nil q).symm

theorem trans {q q' q'' ins ins' outs outs' : List α} (h : Passes q ins outs q')
    (h' : Passes q' ins' outs' q'') : Passes q (ins ++ ins') (outs ++ outs') q'' := by
  unfold Passes at h h' ⊢
  rw [List.append_assoc, h', ← List.append_assoc, h, List.append_assoc]

/-- The channel that carries what `f` makes of some of the values. -/
theorem filterMap {β : Type} (f : α → Option β) {q ins outs q' : List α} (h : Passes q ins outs q') :
    Passes (q.filterMap f) (ins.filterMap f) (outs.filterMap f) (q'.filterMap f) := by
  unfold Passes at h ⊢
  rw [← List.filterMap_append, h, List.filterMap_append]

/-- The channel that carries some of the values. -/
theorem filter (p : α → Bool) {q ins outs q' : List α} (h : Passes q ins outs q') :
    Passes (q.filter p) (ins.filter p) (outs.filter p) (q'.filter p) := by
  unfold Passes at h ⊢
  rw [← List.filter_append, h, List.filter_append]

/-- A channel into which nothing is put and from which nothing is taken. -/
theorem idle {q q' : List α} (h : Passes q [] [] q') : q' = q := by
  unfold Passes at h
  rwa [List.nil_append, List.append_nil] at h

/-- Nothing comes out, or is left, that was not in and did not come in. -/
theorem forall_mem {p : α → Prop} {q ins outs q' : List α} (h : Passes q ins outs q')
    (hq : ∀ x ∈ q, p x) (hins : ∀ x ∈ ins, p x) : (∀ x ∈ outs, p x) ∧ ∀ x ∈ q', p x := by
  have hall : ∀ x ∈ outs ++ q', p x := by
    intro x hx
    rw [show outs ++ q' = q ++ ins from h] at hx
    exact (List.mem_append.mp hx).elim (hq x) (hins x)
  exact ⟨fun x hx => hall x (List.mem_append_left _ hx), fun x hx => hall x (List.mem_append_right _ hx)⟩

end Passes

/-- In the system `M` the channel holds `chan`, as long as `P` holds; a step puts in `ins`
and takes out `outs`. -/
structure Conveys (M : Lts σ ε) (P : σ → Prop) (chan : σ → List α) (ins outs : σ → ε → List α) :
    Prop where
  keeps : ∀ s e t, P s → M.step s e t → P t
  step : ∀ s e t, P s → M.step s e t → Passes (chan s) (ins s e) (outs s e) (chan t)

/-- What was put in so far, and what was taken out. -/
structure Traffic (α : Type) where
  sent : List α
  got : List α

/-- Nothing was sent yet. -/
def Traffic.none : Traffic α := ⟨[], []⟩

/-- The record of a channel after a step. -/
def Traffic.note (ins outs : σ → ε → List α) (s : σ) (e : ε) (o : Traffic α) : Traffic α :=
  ⟨o.sent ++ ins s e, o.got ++ outs s e⟩

namespace Conveys

variable {M : Lts σ ε} {P : σ → Prop} {chan : σ → List α} {ins outs : σ → ε → List α}

/-- Over a run, whatever was recorded before it. -/
theorem run_from (h : Conveys M P chan ins outs) {s t : σ × Traffic α} {es : List ε} {o : Traffic α}
    (hrun : (M.observe o (Traffic.note ins outs)).Run s es t) (hs : P s.1) :
    P t.1 ∧ ∃ sent got, t.2.sent = s.2.sent ++ sent ∧ t.2.got = s.2.got ++ got ∧
      Passes (chan s.1) sent got (chan t.1) := by
  induction hrun with
  | nil s => exact ⟨hs, [], [], (List.append_nil _).symm, (List.append_nil _).symm, .refl _⟩
  | @cons s t u e es hstep _ ih =>
      obtain ⟨hm, hnote⟩ := hstep
      obtain ⟨hu, sent, got, hsent, hgot, hpass⟩ := ih (h.keeps _ _ _ hs hm)
      rw [hnote] at hsent hgot
      refine ⟨hu, ins s.1 e ++ sent, outs s.1 e ++ got, ?_, ?_, (h.step _ _ _ hs hm).trans hpass⟩
      · rw [hsent, ← List.append_assoc]
        rfl
      · rw [hgot, ← List.append_assoc]
        rfl

/-- **Nothing is lost, invented, repeated or overtaken** in a run. -/
theorem run (h : Conveys M P chan ins outs) {s t : σ} {es : List ε} {o : Traffic α}
    (hrun : (M.observe .none (Traffic.note ins outs)).Run (s, .none) es (t, o)) (hs : P s) :
    Passes (chan s) o.sent o.got (chan t) := by
  obtain ⟨-, sent, got, hsent, hgot, hpass⟩ := h.run_from hrun hs
  rw [show o.sent = sent from hsent, show o.got = got from hgot]
  exact hpass

end Conveys

end Lib
