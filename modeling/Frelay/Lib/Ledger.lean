import Mathlib.Data.List.Nodup
import Mathlib.Tactic.Common

/-!
# Ledgers of things that are used at most once

Things are issued one after the other. Later some expire, and some are used; either
closes them. A ledger keeps everything that was ever issued and the numbers of what is
closed, so two equal things are still told apart.

* `Ledger.active_issue`, `active_expire`, `active_use` — what is active afterwards;
* `Ledger.Ok` — nothing is used twice, or after it has expired;
* `Ledger.use_cases` — a use closes one thing that is active, or changes nothing.
-/

namespace Lib

variable {α : Type}

/-- Things, the latest first, with the number of things before them. -/
def numbered : List α → List (Nat × α)
  | [] => []
  | a :: l => (l.length, a) :: numbered l

theorem lt_of_mem_numbered {l : List α} {q : Nat × α} (h : q ∈ numbered l) : q.1 < l.length := by
  induction l with
  | nil => exact absurd h List.not_mem_nil
  | cons a l ih =>
      rw [List.length_cons]
      rcases List.mem_cons.mp h with rfl | h
      · exact Nat.lt_succ_self _
      · exact Nat.lt_succ_of_lt (ih h)

theorem numbered_unique {l : List α} {q r : Nat × α} (hq : q ∈ numbered l) (hr : r ∈ numbered l)
    (h : q.1 = r.1) : q = r := by
  induction l with
  | nil => exact absurd hq List.not_mem_nil
  | cons a l ih =>
      rcases List.mem_cons.mp hq with rfl | hq <;> rcases List.mem_cons.mp hr with rfl | hr
      · rfl
      · exact absurd (lt_of_mem_numbered hr) (by omega)
      · exact absurd (lt_of_mem_numbered hq) (by omega)
      · exact ih hq hr

theorem numbered_nodup (l : List α) : ((numbered l).map Prod.fst).Nodup := by
  induction l with
  | nil => exact List.nodup_nil
  | cons a l ih =>
      refine List.nodup_cons.mpr ⟨fun h => ?_, ih⟩
      obtain ⟨q, hq, hnum⟩ := List.mem_map.mp h
      exact absurd (lt_of_mem_numbered hq) (by omega)

/-- Taking out the first thing with a property takes out its number. -/
theorem filter_ne_of_split {l₁ l₂ : List (Nat × α)} {q : Nat × α}
    (h : ((l₁ ++ q :: l₂).map Prod.fst).Nodup) :
    (l₁ ++ q :: l₂).filter (fun r => decide (r.1 ≠ q.1)) = l₁ ++ l₂ := by
  rw [List.map_append, List.map_cons, List.nodup_middle, List.nodup_cons, ← List.map_append] at h
  have hne : ∀ r ∈ l₁ ++ l₂, r.1 ≠ q.1 := by
    intro r hr heq
    exact h.1 (List.mem_map.mpr ⟨r, hr, heq⟩)
  rw [List.filter_append, List.filter_cons_of_neg (by simp), ← List.filter_append]
  exact List.filter_eq_self.mpr fun r hr => decide_eq_true (hne r hr)

/-- Everything that was issued, the latest first, and the numbers of what has expired
and of what was used. -/
structure Ledger (α : Type) where
  issued : List α
  expired : List Nat
  used : List Nat
  deriving DecidableEq

namespace Ledger

def empty : Ledger α := ⟨[], [], []⟩

/-- Neither expired nor used. -/
def active (L : Ledger α) : List (Nat × α) :=
  (numbered L.issued).filter fun q => decide (q.1 ∉ L.expired ∧ q.1 ∉ L.used)

def issue (a : α) (L : Ledger α) : Ledger α := { L with issued := a :: L.issued }

/-- All active things with the property `p` expire. -/
def expire (p : α → Bool) (L : Ledger α) : Ledger α :=
  { L with expired := ((L.active.filter fun q => p q.2).map Prod.fst) ++ L.expired }

/-- The latest active thing with the property `p` is used. -/
def use (p : α → Bool) (L : Ledger α) : Ledger α :=
  match L.active.find? fun q => p q.2 with
  | none => L
  | some q => { L with used := q.1 :: L.used }

/-- Only what was issued is closed, and nothing twice. -/
structure Ok (L : Ledger α) : Prop where
  expired : ∀ n ∈ L.expired, n < L.issued.length
  used : ∀ n ∈ L.used, n < L.issued.length
  once : L.used.Nodup
  apart : ∀ n ∈ L.used, n ∉ L.expired

theorem Ok.empty : (Ledger.empty : Ledger α).Ok where
  expired := nofun
  used := nofun
  once := List.nodup_nil
  apart := nofun

variable {L : Ledger α}

theorem mem_active {q : Nat × α} :
    q ∈ L.active ↔ q ∈ numbered L.issued ∧ q.1 ∉ L.expired ∧ q.1 ∉ L.used := by
  rw [active, List.mem_filter, decide_eq_true_eq]

theorem active_nodup (L : Ledger α) : (L.active.map Prod.fst).Nodup :=
  (numbered_nodup L.issued).sublist (List.filter_sublist.map _)

/-! ## Issuing -/

theorem active_issue (hL : L.Ok) (a : α) :
    (L.issue a).active = (L.issued.length, a) :: L.active := by
  have hnew : L.issued.length ∉ L.expired ∧ L.issued.length ∉ L.used :=
    ⟨fun h => Nat.lt_irrefl _ (hL.expired _ h), fun h => Nat.lt_irrefl _ (hL.used _ h)⟩
  unfold active issue
  exact List.filter_cons_of_pos (decide_eq_true hnew)

theorem Ok.issue (hL : L.Ok) (a : α) : (L.issue a).Ok where
  expired n hn := Nat.lt_succ_of_lt (hL.expired n hn)
  used n hn := Nat.lt_succ_of_lt (hL.used n hn)
  once := hL.once
  apart := hL.apart

/-! ## Expiry -/

theorem mem_expired {p : α → Bool} {q : Nat × α} (hq : q ∈ numbered L.issued) :
    q.1 ∈ (L.expire p).expired ↔ q.1 ∈ L.expired ∨ (q ∈ L.active ∧ p q.2 = true) := by
  rw [expire, List.mem_append, List.mem_map, or_comm]
  refine or_congr_right ⟨?_, fun h => ⟨q, List.mem_filter.mpr h, rfl⟩⟩
  rintro ⟨r, hr, hnum⟩
  obtain ⟨hr, hp⟩ := List.mem_filter.mp hr
  rw [numbered_unique hq (mem_active.mp hr).1 hnum.symm]
  exact ⟨hr, hp⟩

theorem active_expire (p : α → Bool) :
    (L.expire p).active = L.active.filter fun q => !p q.2 := by
  rw [active, active, List.filter_filter]
  refine List.filter_congr fun q hq => ?_
  rw [Bool.eq_iff_iff, decide_eq_true_eq, Bool.and_eq_true, decide_eq_true_eq,
    mem_expired (L := L) (p := p) hq, mem_active, Bool.not_eq_true']
  change ¬ (q.1 ∈ L.expired ∨ _) ∧ q.1 ∉ L.used ↔ _
  cases p q.2 with
  | true =>
      refine ⟨fun ⟨hno, hused⟩ => ?_, fun h => absurd h.1 nofun⟩
      exact absurd (.inr ⟨⟨hq, fun h => hno (.inl h), hused⟩, rfl⟩) hno
  | false => simp

theorem Ok.expire (hL : L.Ok) (p : α → Bool) : (L.expire p).Ok where
  expired n hn := by
    rcases List.mem_append.mp hn with hn | hn
    · obtain ⟨q, hq, rfl⟩ := List.mem_map.mp hn
      exact lt_of_mem_numbered (mem_active.mp (List.mem_filter.mp hq).1).1
    · exact hL.expired n hn
  used := hL.used
  once := hL.once
  apart n hn hex := by
    rcases List.mem_append.mp hex with hex | hex
    · obtain ⟨q, hq, rfl⟩ := List.mem_map.mp hex
      exact (mem_active.mp (List.mem_filter.mp hq).1).2.2 hn
    · exact hL.apart n hn hex

/-! ## Use -/

/-- **A use** changes nothing, or closes one thing that is active. -/
theorem use_cases (p : α → Bool) :
    (L.use p = L ∧ ∀ q ∈ L.active, ¬ p q.2 = true) ∨
    ∃ q l₁ l₂, L.active = l₁ ++ q :: l₂ ∧ (∀ r ∈ l₁, ¬ p r.2 = true) ∧ p q.2 = true ∧
      L.use p = { L with used := q.1 :: L.used } ∧ (L.use p).active = l₁ ++ l₂ := by
  cases hfind : L.active.find? fun q => p q.2 with
  | none =>
      refine .inl ⟨by rw [use, hfind], ?_⟩
      exact List.find?_eq_none.mp hfind
  | some q =>
      obtain ⟨hp, l₁, l₂, hsplit, hfirst⟩ := List.find?_eq_some_iff_append.mp hfind
      have huse : L.use p = { L with used := q.1 :: L.used } := by rw [use, hfind]
      refine .inr ⟨q, l₁, l₂, hsplit, fun r hr => by simpa using hfirst r hr, hp, huse, ?_⟩
      have hnodup := active_nodup L
      rw [hsplit] at hnodup
      rw [← filter_ne_of_split hnodup, ← hsplit, huse, active, active, List.filter_filter]
      refine List.filter_congr fun r _ => ?_
      rw [Bool.eq_iff_iff, decide_eq_true_eq, Bool.and_eq_true, decide_eq_true_eq,
        decide_eq_true_eq, List.mem_cons, not_or]
      tauto

theorem use_none {p : α → Bool} (h : ∀ q ∈ L.active, ¬ p q.2 = true) : L.use p = L := by
  rw [use, List.find?_eq_none.mpr h]

theorem active_use (p : α → Bool) : (L.use p).active = L.active.eraseP fun q => p q.2 := by
  rcases use_cases (L := L) p with ⟨huse, hnone⟩ | ⟨q, l₁, l₂, hsplit, hfirst, hp, -, hactive⟩
  · rw [huse, List.eraseP_of_forall_not hnone]
  · rw [hactive, hsplit, List.eraseP_append_right _ hfirst,
      List.eraseP_cons_of_pos (p := fun r : Nat × α => p r.2) hp]

theorem Ok.use (hL : L.Ok) (p : α → Bool) : (L.use p).Ok := by
  rcases use_cases (L := L) p with ⟨huse, -⟩ | ⟨q, l₁, l₂, hsplit, -, -, huse, -⟩
  · rw [huse]
    exact hL
  · obtain ⟨hissued, hexp, hused⟩ := mem_active.mp
      (hsplit ▸ List.mem_append_right l₁ List.mem_cons_self : q ∈ L.active)
    rw [huse]
    refine ⟨hL.expired, fun n hn => ?_, List.nodup_cons.mpr ⟨hused, hL.once⟩, fun n hn => ?_⟩
    · rcases List.mem_cons.mp hn with rfl | hn
      · exact lt_of_mem_numbered hissued
      · exact hL.used n hn
    · rcases List.mem_cons.mp hn with rfl | hn
      · exact hexp
      · exact hL.apart n hn

end Ledger

end Lib
