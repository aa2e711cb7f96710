import Frelay.Lib.CStr
import Mathlib.Data.List.DropRight

/-!
# Lines and the pieces they are read in

`fgets` delivers a text in pieces that end with a line or with the buffer. For a reader
that works from line to line, and to which a line break at the end of a line and an empty
line say nothing, the pieces are as good as the lines, as long as the lines fit the buffer
(`foldl_fgetsAll`).

The parts of a line are trimmed: `trim_eq` and `trim_spec` say what is left.
-/

namespace Lib

/-! ## Trimming -/

section Trimming

variable {α : Type} {p : α → Bool}

/-- Neither end satisfies `p`. -/
def Trimmed (p : α → Bool) (s : List α) : Prop :=
  (∀ c, s.head? = some c → p c = false) ∧ ∀ c, s.getLast? = some c → p c = false

instance (p : α → Bool) (s : List α) : Decidable (Trimmed p s) :=
  inferInstanceAs (Decidable ((∀ c, s.head? = some c → _) ∧ ∀ c, s.getLast? = some c → _))

theorem dropWhile_of_all {w : List α} (hw : ∀ c ∈ w, p c = true) (s : List α) :
    (w ++ s).dropWhile p = s.dropWhile p := by
  rw [List.dropWhile_append, List.dropWhile_eq_nil_iff.mpr hw]
  rfl

theorem dropWhile_of_head {s : List α} (hs : ∀ c, s.head? = some c → p c = false) :
    s.dropWhile p = s := by
  cases s with
  | nil => rfl
  | cons c s => rw [List.dropWhile_cons, if_neg (by rw [hs c rfl]; exact Bool.false_ne_true)]

theorem rdropWhile_of_all {w : List α} (hw : ∀ c ∈ w, p c = true) (s : List α) :
    (s ++ w).rdropWhile p = s.rdropWhile p := by
  unfold List.rdropWhile
  rw [List.reverse_append, dropWhile_of_all fun c hc => hw c (List.mem_reverse.mp hc)]

theorem rdropWhile_of_last {s : List α} (hs : ∀ c, s.getLast? = some c → p c = false) :
    s.rdropWhile p = s := by
  unfold List.rdropWhile
  rw [dropWhile_of_head fun c hc => hs c (List.head?_reverse ▸ hc), List.reverse_reverse]

/-- What is trimmed away is what stands around a trimmed text. -/
theorem trim_eq {w v w' : List α} (hw : ∀ c ∈ w, p c = true) (hv : Trimmed p v)
    (hw' : ∀ c ∈ w', p c = true) : ((w ++ (v ++ w')).dropWhile p).rdropWhile p = v := by
  rw [dropWhile_of_all hw]
  by_cases hne : v = []
  · subst hne
    rw [List.nil_append, List.dropWhile_eq_nil_iff.mpr hw']
    rfl
  · have hhead : ∀ c, (v ++ w').head? = some c → p c = false := by
      intro c hc
      rw [List.head?_append_of_ne_nil _ hne] at hc
      exact hv.1 c hc
    rw [dropWhile_of_head hhead, rdropWhile_of_all hw', rdropWhile_of_last hv.2]

/-- Trimming leaves a trimmed text. -/
theorem trim_spec (p : α → Bool) (s : List α) : ∃ w w', (∀ c ∈ w, p c = true) ∧
    (∀ c ∈ w', p c = true) ∧ s = w ++ ((s.dropWhile p).rdropWhile p ++ w') ∧
    Trimmed p ((s.dropWhile p).rdropWhile p) := by
  refine ⟨s.takeWhile p, (s.dropWhile p).rtakeWhile p, fun c hc => List.mem_takeWhile_imp hc,
    fun c hc => List.mem_rtakeWhile_imp hc, ?_, ?_, ?_⟩
  · rw [List.rdropWhile_append_rtakeWhile, List.takeWhile_append_dropWhile]
  · intro c hc
    -- The first character is also that of the text before its end was cut.
    obtain ⟨t, ht⟩ := List.rdropWhile_prefix p (l := s.dropWhile p)
    have hhead : (s.dropWhile p).head? = some c := by
      rw [← ht]
      exact List.mem_head?_append_of_mem_head? hc
    have hnot := List.head?_dropWhile_not p s
    rw [hhead] at hnot
    exact hnot
  · intro c hc
    have hne : (s.dropWhile p).rdropWhile p ≠ [] := by
      rintro h
      rw [h] at hc
      cases hc
    have hlast := List.rdropWhile_last_not p _ hne
    rw [List.getLast?_eq_some_getLast hne] at hc
    rw [Option.some.inj hc] at hlast
    exact eq_false_of_ne_true hlast

/-- What precedes a known end. -/
theorem take_length_sub (s t : List α) : (s ++ t).take ((s ++ t).length - t.length) = s :=
  List.take_left' (by rw [List.length_append, Nat.add_sub_cancel])

end Trimming

/-! ## Lines -/

/-- The last line of a text is one piece, if it fits. -/
theorem fgetsAll_last {n : Nat} (hn : 0 < n) {l : List UInt8} (hl : chLF ∉ l) (hne : l ≠ [])
    (hlen : l.length ≤ n) : fgetsAll n l = [l] := by
  have hshort : ∀ {n : Nat} {l : List UInt8}, chLF ∉ l → l.length ≤ n → fgets n l = (l, []) := by
    intro n l
    induction l generalizing n with
    | nil =>
        intro _ _
        cases n <;> rfl
    | cons c l ih =>
        intro hl hlen
        rw [List.length_cons] at hlen
        obtain ⟨n, rfl⟩ : ∃ m, n = m + 1 := ⟨n - 1, by omega⟩
        rw [fgets, if_neg (List.ne_of_not_mem_cons hl).symm,
          ih (List.not_mem_of_not_mem_cons hl) (by omega)]
  rw [fgetsAll_cons hn hne, hshort hl hlen, fgetsAll_nil]

/-- A text is a line without a line break, or a first line and the rest. -/
theorem line_cases (s : List UInt8) :
    chLF ∉ s ∨ ∃ l t, chLF ∉ l ∧ s = l ++ chLF :: t := by
  by_cases h : chLF ∈ s
  · obtain ⟨l, t, rfl, hl⟩ := List.eq_append_cons_of_mem h
    exact .inr ⟨l, t, hl, rfl⟩
  · exact .inl h

/-- A line has only characters of the text, and no line break. -/
theorem of_mem_splitOn {s l : List UInt8} (hl : l ∈ s.splitOn chLF) :
    chLF ∉ l ∧ ∀ c ∈ l, c ∈ s := by
  induction hk : s.length using Nat.strongRecOn generalizing s with
  | ind k ih =>
      rcases line_cases s with hs | ⟨l', t, hl', rfl⟩
      · rw [List.splitOn_eq_singleton hs, List.mem_singleton] at hl
        rw [hl]
        exact ⟨hs, fun c hc => hc⟩
      · rw [List.splitOn_append_cons_self_of_not_mem hl' t] at hl
        rcases List.mem_cons.mp hl with rfl | hl
        · exact ⟨hl', fun c hc => List.mem_append_left _ hc⟩
        · have hlt : t.length < k := by
            rw [← hk, List.length_append, List.length_cons]
            omega
          obtain ⟨hlf, hsub⟩ := ih t.length hlt hl rfl
          exact ⟨hlf, fun c hc => List.mem_append_right _ (List.mem_cons_of_mem _ (hsub c hc))⟩

/-- **Reading piece by piece is reading line by line**, if the lines fit. -/
theorem foldl_fgetsAll {α : Type} {g : α → List UInt8 → α} (hnil : ∀ a, g a [] = a)
    (hlf : ∀ a l, g a (l ++ [chLF]) = g a l) {n : Nat} (hn : 0 < n) {s : List UInt8}
    (hlen : ∀ l ∈ s.splitOn chLF, l.length ≤ n) (a : α) :
    (fgetsAll n s).foldl g a = (s.splitOn chLF).foldl g a := by
  induction hk : s.length using Nat.strongRecOn generalizing s a with
  | ind k ih =>
      rcases line_cases s with hs | ⟨l, t, hl, rfl⟩
      · rw [List.splitOn_eq_singleton hs] at hlen ⊢
        by_cases hne : s = []
        · subst hne
          exact (hnil a).symm
        · rw [fgetsAll_last hn hs hne (hlen s List.mem_cons_self)]
      · have hsplit := List.splitOn_append_cons_self_of_not_mem hl t
        rw [hsplit] at hlen ⊢
        have hlt : t.length < k := by
          rw [← hk, List.length_append, List.length_cons]
          omega
        have hrest : ∀ a, (fgetsAll n t).foldl g a = (t.splitOn chLF).foldl g a :=
          fun a => ih t.length hlt (fun l hl => hlen l (List.mem_cons_of_mem _ hl)) a rfl
        rcases Nat.lt_or_eq_of_le (hlen l List.mem_cons_self) with hfit | hfull
        · rw [fgetsAll_line hl hfit, List.foldl_cons, List.foldl_cons, hlf, hrest]
        · -- The line fills the buffer, and its line break is a piece of its own.
          have hlone : fgetsAll n (chLF :: t) = [chLF] :: fgetsAll n t :=
            fgetsAll_line (l := []) List.not_mem_nil hn
          have hblank : ∀ a, g a [chLF] = a := fun a => (hlf a []).trans (hnil a)
          rw [fgetsAll_long hn hl hfull, hlone, List.foldl_cons, List.foldl_cons, List.foldl_cons,
            hblank, hrest]

end Lib
