import Frelay.Lib.Lts

/-!
# Tickets for objects that go by keys

Objects are found by keys that somebody else chooses; a ticket names a key, and
whoever redeems it is led to the live object with that key. If every object is
entered under a key that no live object and no ticket has, and tickets are only
written for objects that were granted or by redeeming a ticket, then a ticket
never leads to an object that was not granted (`Desk.Step.granted_of_redeem`),
although neither the ticket nor its reader looks at the grants.
-/

namespace Lib

/-- Live objects with their keys, the keys on tickets, and the objects granted so far. -/
structure Desk (ο κ : Type) where
  live : ο → κ → Prop
  tickets : κ → Prop
  granted : ο → Prop

namespace Desk

variable {ο κ : Type}

/-- What happens at the desk. -/
inductive Action (ο κ : Type) where
  | quiet
  | enter (o : ο) (k : κ)
  | grant (o : ο) (k : κ)
  | redeem (o : ο) (k : κ)

/-- Objects may go and tickets may get lost at any time; grants stay. -/
inductive Step (a : Desk ο κ) : Action ο κ → Desk ο κ → Prop
  | quiet {b : Desk ο κ} :
      (∀ o k, b.live o k → a.live o k) → (∀ k, b.tickets k → a.tickets k) →
      (∀ o, a.granted o → b.granted o) → Step a .quiet b
  | enter {b : Desk ο κ} {o : ο} {k : κ} :
      (∀ o', ¬ a.live o' k) → ¬ a.tickets k →
      (∀ o' k', b.live o' k' → a.live o' k' ∨ (o' = o ∧ k' = k)) →
      (∀ k, b.tickets k → a.tickets k) → (∀ o, a.granted o → b.granted o) → Step a (.enter o k) b
  | grant {b : Desk ο κ} {o : ο} {k : κ} :
      a.live o k → (∀ o k, b.live o k → a.live o k) →
      (∀ k', b.tickets k' → a.tickets k' ∨ k' = k) →
      (∀ o, a.granted o → b.granted o) → b.granted o → Step a (.grant o k) b
  | redeem {b : Desk ο κ} {o : ο} {k : κ} :
      a.tickets k → a.live o k → (∀ o k, b.live o k → a.live o k) →
      (∀ k', b.tickets k' → a.tickets k' ∨ k' = k) →
      (∀ o, a.granted o → b.granted o) → Step a (.redeem o k) b

/-- Keys tell live objects apart, and what a ticket leads to was granted. -/
structure Good (a : Desk ο κ) : Prop where
  unique : ∀ o o' k, a.live o k → a.live o' k → o = o'
  covered : ∀ o k, a.tickets k → a.live o k → a.granted o

theorem Step.good {a b : Desk ο κ} {l : Action ο κ} (h : Step a l b) (ha : Good a) : Good b := by
  cases h with
  | quiet hlive htick hgrant =>
      exact ⟨fun o o' k h h' => ha.unique o o' k (hlive _ _ h) (hlive _ _ h'),
        fun o k ht hl => hgrant o (ha.covered o k (htick k ht) (hlive o k hl))⟩
  | @enter _ o k hfresh hnone hlive htick hgrant =>
      refine ⟨?_, ?_⟩
      · intro p p' k' h h'
        rcases hlive p k' h with h | ⟨rfl, rfl⟩ <;> rcases hlive p' k' h' with h' | ⟨rfl, heq⟩
        · exact ha.unique p p' k' h h'
        · rw [heq] at h
          exact absurd h (hfresh p)
        · exact absurd h' (hfresh p')
        · rfl
      · intro p k' ht hl
        rcases hlive p k' hl with hl | ⟨rfl, rfl⟩
        · exact hgrant p (ha.covered p k' (htick k' ht) hl)
        · exact absurd (htick k' ht) hnone
  | @grant _ o k ho hlive htick hgrant hnew =>
      refine ⟨fun p p' k' h h' => ha.unique p p' k' (hlive _ _ h) (hlive _ _ h'), ?_⟩
      intro p k' ht hl
      have hp := hlive p k' hl
      rcases htick k' ht with ht | rfl
      · exact hgrant p (ha.covered p k' ht hp)
      · rw [ha.unique p o k' hp ho]
        exact hnew
  | @redeem _ o k ht ho hlive htick hgrant =>
      refine ⟨fun p p' k' h h' => ha.unique p p' k' (hlive _ _ h) (hlive _ _ h'), ?_⟩
      intro p k' ht' hl
      have hp := hlive p k' hl
      rcases htick k' ht' with ht' | rfl
      · exact hgrant p (ha.covered p k' ht' hp)
      · exact hgrant p (ha.covered p k' ht hp)

/-- A redeemed ticket leads to an object that was granted before. -/
theorem Step.granted_of_redeem {a b : Desk ο κ} {o : ο} {k : κ} (h : Step a (.redeem o k) b)
    (ha : Good a) : a.granted o := by
  cases h with
  | redeem ht ho _ _ _ => exact ha.covered o k ht ho

end Desk

end Lib
