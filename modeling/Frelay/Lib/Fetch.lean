import Mathlib.Data.List.Infix
import Mathlib.Tactic.Common

/-!
# Fetching a list piece by piece

One side has a list `F`; the other asks for what comes after the part it has got
so far, and appends whatever arrives. An answer does not tell which request it
belongs to, so what arrives fits only if it was asked for from where the fetching
side is now. `Step.good`: it does, as long as nobody asks again while a request
or an answer is under way, or there is nothing left to ask for.
-/

namespace Lib

/-- What was got, the offsets of the requests under way and the answers under
way, the oldest first. -/
structure Fetch (α : Type) where
  got : List α
  asked : List Nat
  sent : List (List α)

namespace Fetch

variable {α : Type} {F : List α} {a b : Fetch α}

/-- There is no answer to wait for, or nothing left to be got. -/
def Calm (F : List α) (a : Fetch α) : Prop :=
  (a.asked = [] ∧ a.sent = []) ∨ F.length ≤ a.got.length

/-- What can happen: a request, a piece of `F` in answer to the oldest request,
the arrival of the oldest answer, which brings about the next request, or the
loss of an answer. -/
inductive Step (F : List α) (a : Fetch α) : Fetch α → Prop
  | ask : a.Calm F → Step F a { a with asked := a.asked ++ [a.got.length] }
  | answer {o : Nat} {os : List Nat} {p : List α} : a.asked = o :: os → p <+: F.drop o →
      Step F a { a with asked := os, sent := a.sent ++ [p] }
  | take {p : List α} {ps : List (List α)} : a.sent = p :: ps → p ≠ [] →
      Step F a { got := a.got ++ p, asked := a.asked ++ [(a.got ++ p).length], sent := ps }
  | lose {p : List α} {ps : List (List α)} : a.sent = p :: ps → Step F a { a with sent := ps }

/-- What was got is the beginning of `F`; all requests are about the rest of it,
all answers continue it, and there is only one of these until all is got. -/
structure Good (F : List α) (a : Fetch α) : Prop where
  got : a.got <+: F
  asked : ∀ o ∈ a.asked, o = a.got.length
  sent : ∀ p ∈ a.sent, a.got ++ p <+: F
  single : a.got.length < F.length → a.asked.length + a.sent.length ≤ 1

/-- A piece from where `l` ends continues `l`. -/
theorem append_prefix {l p : List α} (hl : l <+: F) (hp : p <+: F.drop l.length) : l ++ p <+: F := by
  obtain ⟨u, rfl⟩ := hl
  rw [List.drop_left] at hp
  exact (List.prefix_append_right_inj l).mpr hp

theorem Good.start (F : List α) : Good F { got := [], asked := [], sent := [] } where
  got := List.nil_prefix
  asked := fun _ h => absurd h List.not_mem_nil
  sent := fun _ h => absurd h List.not_mem_nil
  single := fun _ => Nat.zero_le 1

/-- What was got is as much of `F` as its length says. -/
theorem Good.got_eq (h : Good F a) : a.got = F.take a.got.length :=
  List.prefix_iff_eq_take.mp h.got

theorem Step.good (h : Step F a b) (ha : Good F a) : Good F b := by
  cases h with
  | ask hcalm =>
      refine ⟨ha.got, ?_, ha.sent, ?_⟩
      · intro o ho
        rcases List.mem_append.mp ho with ho | ho
        · exact ha.asked o ho
        · exact List.mem_singleton.mp ho
      · intro hless
        rcases hcalm with ⟨hasked, hsent⟩ | hall
        · simp [hasked, hsent]
        · exact absurd hless (Nat.not_lt.mpr hall)
  | @answer o os p hasked hp =>
      have ho : o = a.got.length := ha.asked o (hasked ▸ List.mem_cons_self)
      refine ⟨ha.got, fun o' ho' => ha.asked o' (hasked ▸ List.mem_cons_of_mem o ho'), ?_, ?_⟩
      · intro q hq
        rcases List.mem_append.mp hq with hq | hq
        · exact ha.sent q hq
        · rw [List.mem_singleton.mp hq]
          exact append_prefix ha.got (ho ▸ hp)
      · intro hless
        have hone := ha.single hless
        rw [hasked, List.length_cons] at hone
        change os.length + (a.sent ++ [p]).length ≤ 1
        rw [List.length_append, List.length_singleton]
        omega
  | @take p ps hsent hne =>
      have hgot : a.got ++ p <+: F := ha.sent p (hsent ▸ List.mem_cons_self)
      -- A piece that is not empty is the only thing under way.
      have hlen := hgot.length_le
      rw [List.length_append] at hlen
      have hpos := List.length_pos_iff.mpr hne
      have hone := ha.single (by omega)
      rw [hsent, List.length_cons] at hone
      have hasked : a.asked = [] := List.length_eq_zero_iff.mp (by omega)
      have hps : ps = [] := List.length_eq_zero_iff.mp (by omega)
      refine ⟨hgot, ?_, ?_, ?_⟩
      · intro o ho
        rw [hasked, List.nil_append] at ho
        exact List.mem_singleton.mp ho
      · intro q hq
        rw [hps] at hq
        exact absurd hq List.not_mem_nil
      · intro _
        simp [hasked, hps]
  | @lose p ps hsent =>
      refine ⟨ha.got, ha.asked, fun q hq => ha.sent q (hsent ▸ List.mem_cons_of_mem p hq), ?_⟩
      intro hless
      have hone := ha.single hless
      rw [hsent, List.length_cons] at hone
      exact Nat.le_trans (by simp) hone

end Fetch

end Lib
