import Mathlib.Tactic.Common

/-!
# Histories that grow at the front

A history is a list with the latest entry first. `Grown P l l'` says that `l'`
is `l` with more entries in front, all of which satisfy `P`.
-/

namespace Lib

/-- The history `l` has grown into `l'` by entries that satisfy `P`. -/
def Grown {α : Type} (P : α → Prop) (l l' : List α) : Prop :=
  ∃ acts, l' = acts ++ l ∧ ∀ a ∈ acts, P a

namespace Grown

variable {α : Type} {P Q : α → Prop} {l l' l'' : List α}

theorem refl (P : α → Prop) (l : List α) : Grown P l l :=
  ⟨[], rfl, fun _ h => absurd h List.not_mem_nil⟩

theorem trans (h₁ : Grown P l l') (h₂ : Grown P l' l'') : Grown P l l'' := by
  obtain ⟨as, rfl, hna⟩ := h₁
  obtain ⟨bs, rfl, hnb⟩ := h₂
  refine ⟨bs ++ as, by rw [List.append_assoc], ?_⟩
  intro a ha
  rcases List.mem_append.mp ha with h | h
  · exact hnb a h
  · exact hna a h

theorem cons {a : α} (h : Grown P l l') (ha : P a) : Grown P l (a :: l') :=
  h.trans ⟨[a], rfl, fun _ hb => List.mem_singleton.mp hb ▸ ha⟩

theorem mono (hPQ : ∀ a, P a → Q a) (h : Grown P l l') : Grown Q l l' := by
  obtain ⟨acts, hl, hacts⟩ := h
  exact ⟨acts, hl, fun a ha => hPQ a (hacts a ha)⟩

/-- An entry is old, or one of those that came in front. -/
theorem mem (h : Grown P l l') {a : α} (ha : a ∈ l') : P a ∨ a ∈ l := by
  obtain ⟨acts, rfl, hacts⟩ := h
  rcases List.mem_append.mp ha with h | h
  · exact .inl (hacts a h)
  · exact .inr h

theorem subset (h : Grown P l l') : l ⊆ l' := by
  obtain ⟨acts, rfl, -⟩ := h
  exact List.subset_append_right acts l

/-- An entry that none of the new ones can be was there before. -/
theorem mem_of_not (h : Grown P l l') {a : α} (hn : ¬ P a) (ha : a ∈ l') : a ∈ l :=
  (h.mem ha).resolve_left hn

end Grown

/-- What is in front of `l` in the longer history `l'`. -/
def newer {α : Type} (l l' : List α) : List α := l'.take (l'.length - l.length)

theorem newer_append {α : Type} (acts l : List α) : newer l (acts ++ l) = acts := by
  have hlen : (acts ++ l).length - l.length = acts.length := by
    rw [List.length_append]
    omega
  rw [newer, hlen, List.take_left]

theorem Grown.newer {α : Type} {P : α → Prop} {l l' : List α} (h : Grown P l l') :
    ∀ a ∈ newer l l', P a := by
  obtain ⟨acts, rfl, hacts⟩ := h
  rw [newer_append]
  exact hacts

end Lib
