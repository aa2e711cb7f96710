import Frelay.Server.Answers

/-!
# The buffer of the message of the day

`motd_cb` counts every line, stored or not, and subtracts the count from the size of
the array in unsigned arithmetic. Once the count exceeds the array, the difference is
huge and the next line is copied behind the array.

* `motdLines_survive_iff` — the lines before the last fit, or a line is copied there;
* `motd_ok_iff` — and then the array holds the first lines, with their terminator.
-/

namespace Frelay

open Lib

/-- A line as `pcmd` delivers it: a string that fits its buffer. -/
def PcmdLine (l : Bytes) : Prop := 1 ≤ l.length ∧ l.length ≤ 999 ∧ 0 ∉ l

instance (l : Bytes) : Decidable (PcmdLine l) := inferInstanceAs (Decidable (_ ∧ _ ∧ _))

/-- The array starts with `txt` and its terminator. -/
def Holds (motd txt : Bytes) : Prop := txt ++ [0] <+: motd

/-- No line is written past the array, which afterwards holds the first lines. -/
def MotdOk (s : Server) (lines : List Bytes) : Prop :=
  ∃ t, motdGet s lines = some t ∧ ∃ k, Holds t.motd (lines.take k).flatten

/-- The lines before the last one fit into the array, and there is one unless the
array holds nothing. -/
def MotdFits (s : Server) (lines : List Bytes) : Prop :=
  (lines.dropLast.map List.length).sum ≤ MOTD_SIZE ∧ (lines = [] → s.motd.head? = some 0)

/-! ## One line -/

section Line

variable {motd line : Bytes} {sz : Nat}

/-- There is room for the line. -/
theorem motdCb_stored (hroom : sz + line.length < MOTD_SIZE) :
    motdCb (motd, sz) line = some (poke motd sz (line ++ [0]), sz + line.length) := by
  have hlt : line.length < (MOTD_SIZE + 2 ^ 64 - sz) % 2 ^ 64 := by
    unfold MOTD_SIZE at hroom ⊢
    omega
  simp only [motdCb, if_pos hlt]
  exact if_pos (by omega)

/-- There is not, and the difference does not wrap. -/
theorem motdCb_skipped (hfull : MOTD_SIZE ≤ sz + line.length) (hsz : sz ≤ MOTD_SIZE) :
    motdCb (motd, sz) line = some (motd, sz + line.length) := by
  have hge : ¬ line.length < (MOTD_SIZE + 2 ^ 64 - sz) % 2 ^ 64 := by
    unfold MOTD_SIZE at hfull hsz ⊢
    omega
  simp only [motdCb, if_neg hge]

/-- The count exceeds the array: the line is copied behind it. -/
theorem motdCb_wraps (hline : PcmdLine line) (hbeyond : MOTD_SIZE < sz) (hsz : sz ≤ MOTD_SIZE + 999) :
    motdCb (motd, sz) line = none := by
  have hlong := hline.2.1
  have hlt : line.length < (MOTD_SIZE + 2 ^ 64 - sz) % 2 ^ 64 := by
    unfold MOTD_SIZE at hbeyond hsz ⊢
    omega
  simp only [motdCb, if_pos hlt]
  exact if_neg (by omega)

/-- Storing a line behind the others. -/
theorem Holds.poke {pre : Bytes} (hpre : pre <+: motd) :
    Holds (poke motd pre.length (line ++ [0])) (pre ++ line) := by
  obtain ⟨suf, rfl⟩ := hpre
  rw [Holds, poke_append_right, ← List.append_assoc, ← List.append_assoc]
  exact List.prefix_append _ _

end Line

/-! ## All lines -/

/-- The array is kept as long as no line is written past it, which is as long as
the lines before the last one fit. -/
theorem motdLines_survive_iff {lines : List Bytes} (hlines : ∀ l ∈ lines, PcmdLine l) (motd : Bytes)
    {sz : Nat} (hsz : sz ≤ MOTD_SIZE + 999) :
    (lines.foldlM motdCb (motd, sz)).isSome ↔
      (lines ≠ [] → sz + (lines.dropLast.map List.length).sum ≤ MOTD_SIZE) := by
  induction lines generalizing motd sz with
  | nil => exact ⟨fun _ h => absurd rfl h, fun _ => rfl⟩
  | cons l ls ih =>
      have hl := hlines l List.mem_cons_self
      have ih := ih fun l' hl' => hlines l' (List.mem_cons_of_mem _ hl')
      rw [List.foldlM_cons]
      by_cases hbeyond : MOTD_SIZE < sz
      · rw [motdCb_wraps hl hbeyond hsz]
        refine ⟨nofun, fun h => ?_⟩
        have := h (List.cons_ne_nil l ls)
        omega
      · have hstep : ∃ motd', motdCb (motd, sz) l = some (motd', sz + l.length) := by
          by_cases hroom : sz + l.length < MOTD_SIZE
          · exact ⟨_, motdCb_stored hroom⟩
          · exact ⟨_, motdCb_skipped (Nat.not_lt.mp hroom) (Nat.not_lt.mp hbeyond)⟩
        obtain ⟨motd', hstep⟩ := hstep
        have hmax := Nat.add_le_add (Nat.not_lt.mp hbeyond) hl.2.1
        rw [hstep, Option.bind_eq_bind, Option.bind_some, ih motd' hmax]
        cases ls with
        | nil =>
            refine ⟨fun _ _ => ?_, fun _ h => absurd rfl h⟩
            show sz + 0 ≤ MOTD_SIZE
            exact Nat.not_lt.mp hbeyond
        | cons l' ls =>
            rw [List.dropLast_cons_of_ne_nil (List.cons_ne_nil l' ls), List.map_cons, List.sum_cons,
              ← Nat.add_assoc]
            exact ⟨fun h _ => h (List.cons_ne_nil _ _), fun h _ => h (List.cons_ne_nil _ _)⟩

/-- What is in the array comes before every line still to be delivered, or the array
is full and no further line is stored. -/
theorem motdLines_holds {lines : List Bytes} (hlines : ∀ l ∈ lines, PcmdLine l) {motd pre : Bytes}
    {sz : Nat} (hlen : motd.length = MOTD_SIZE) (hpre : Holds motd pre)
    (hsz : sz = pre.length ∨ MOTD_SIZE ≤ sz) (hmax : sz ≤ MOTD_SIZE + 999) {q : Bytes × Nat}
    (h : lines.foldlM motdCb (motd, sz) = some q) :
    ∃ k, Holds q.1 (pre ++ (lines.take k).flatten) := by
  induction lines generalizing motd pre sz with
  | nil =>
      cases h
      exact ⟨0, by simpa using hpre⟩
  | cons l ls ih =>
      have hl := hlines l List.mem_cons_self
      have hlong := hl.2.1
      have ih := @ih fun l' hl' => hlines l' (List.mem_cons_of_mem _ hl')
      rw [List.foldlM_cons] at h
      by_cases hbeyond : MOTD_SIZE < sz
      · rw [motdCb_wraps hl hbeyond hmax] at h
        cases h
      · by_cases hroom : sz + l.length < MOTD_SIZE
        · -- The line is stored behind the others.
          have hlt := Nat.lt_of_le_of_lt (Nat.le_add_right sz l.length) hroom
          obtain rfl : sz = pre.length := hsz.resolve_right (Nat.not_le.mpr hlt)
          rw [motdCb_stored hroom, Option.bind_eq_bind, Option.bind_some] at h
          have hpre' : pre <+: motd := (List.prefix_append pre [0]).trans hpre
          have hin : pre.length + (l ++ [0]).length ≤ motd.length := by
            rw [hlen, List.length_append, List.length_singleton]
            exact hroom
          obtain ⟨k, hk⟩ := ih ((length_poke hin).trans hlen) (.poke hpre')
            (.inl (List.length_append).symm) (Nat.le_trans hroom.le (Nat.le_add_right _ _)) h
          refine ⟨k + 1, ?_⟩
          rw [List.take_succ_cons, List.flatten_cons, ← List.append_assoc]
          exact hk
        · have hmax := Nat.add_le_add (Nat.not_lt.mp hbeyond) hlong
          rw [motdCb_skipped (Nat.not_lt.mp hroom) (Nat.not_lt.mp hbeyond), Option.bind_eq_bind,
            Option.bind_some] at h
          -- From here on there is no room any more.
          have hrest : ∀ {ls : List Bytes} {n : Nat}, (∀ l ∈ ls, PcmdLine l) → MOTD_SIZE ≤ n →
              n ≤ MOTD_SIZE + 999 → ls.foldlM motdCb (motd, n) = some q → q.1 = motd := by
            intro ls
            induction ls with
            | nil =>
                intro n _ _ _ h
                cases h
                rfl
            | cons l ls ih =>
                intro n hls hn hn' h
                have hl := (hls l List.mem_cons_self)
                have hfull := Nat.le_trans hn (Nat.le_add_right n l.length)
                rw [List.foldlM_cons] at h
                by_cases hbeyond : MOTD_SIZE < n
                · rw [motdCb_wraps hl hbeyond hn'] at h
                  cases h
                · rw [motdCb_skipped hfull (Nat.not_lt.mp hbeyond), Option.bind_eq_bind,
                    Option.bind_some] at h
                  exact ih (fun l' hl' => hls l' (List.mem_cons_of_mem _ hl')) hfull
                    (Nat.add_le_add (Nat.not_lt.mp hbeyond) hl.2.1) h
          have hq := hrest (fun l' hl' => hlines l' (List.mem_cons_of_mem _ hl'))
            (Nat.not_lt.mp hroom) hmax h
          exact ⟨0, by rw [hq]; simpa using hpre⟩

/-- **The buffer is respected exactly when the lines before the last one fit.** -/
theorem motd_ok_iff {s : Server} (hs : (srvLts fun _ => True).Reachable s) {lines : List Bytes}
    (hlines : ∀ l ∈ lines, PcmdLine l) : MotdOk s lines ↔ MotdFits s lines := by
  have hlen := motd_length s hs
  have hsome : (∃ q, lines.foldlM motdCb (s.motd, 0) = some q) ↔
      (lines ≠ [] → 0 + (lines.dropLast.map List.length).sum ≤ MOTD_SIZE) := by
    rw [← motdLines_survive_iff hlines s.motd (Nat.zero_le _), Option.isSome_iff_exists]
  cases lines with
  | nil =>
      have hget : motdGet s [] = some s := rfl
      constructor
      · rintro ⟨t, ht, k, suf, hk⟩
        cases hget.symm.trans ht
        refine ⟨Nat.zero_le _, fun _ => ?_⟩
        rw [← hk, List.take_nil]
        rfl
      · rintro ⟨-, hzero⟩
        refine ⟨s, hget, 0, ?_⟩
        obtain ⟨suf, hsuf⟩ := List.head?_eq_some_iff.mp (hzero rfl)
        rw [Holds, hsuf]
        exact List.prefix_append [0] suf
  | cons l ls =>
      constructor
      · rintro ⟨t, ht, -⟩
        obtain ⟨q, hq, -⟩ := Option.map_eq_some_iff.mp ht
        have hfit := hsome.mp ⟨q, hq⟩ (List.cons_ne_nil l ls)
        exact ⟨by omega, nofun⟩
      · rintro ⟨hfit, -⟩
        obtain ⟨q, hq⟩ := hsome.mpr fun _ => by omega
        refine ⟨{ s with motd := q.1 }, by rw [motdGet, hq]; rfl, ?_⟩
        -- The first line is always stored.
        have hl := hlines l List.mem_cons_self
        have hroom : 0 + l.length < MOTD_SIZE := by
          have := hl.2.1
          unfold MOTD_SIZE
          omega
        rw [List.foldlM_cons, motdCb_stored hroom, Option.bind_eq_bind, Option.bind_some] at hq
        have hfirst : Holds (poke s.motd 0 (l ++ [0])) l :=
          .poke (List.nil_prefix (l := s.motd))
        have hin : 0 + (l ++ [0]).length ≤ s.motd.length := by
          rw [hlen, List.length_append, List.length_singleton]
          omega
        obtain ⟨k, hk⟩ := motdLines_holds (fun l' hl' => hlines l' (List.mem_cons_of_mem _ hl'))
          ((length_poke hin).trans hlen) hfirst (.inl (Nat.zero_add _)) (by omega) hq
        refine ⟨k + 1, ?_⟩
        rw [List.take_succ_cons, List.flatten_cons]
        exact hk

/-- Two lines that are stored. -/
theorem motd_ok_iff_two : ∃ s, (srvLts fun _ => True).Reachable s ∧
    (MotdOk s [ascii "Hello,", ascii "you"] ↔ MotdFits s [ascii "Hello,", ascii "you"]) :=
  ⟨demoServer none, .init (demoServer_init (fun _ => True) trivial _),
    motd_ok_iff (.init (demoServer_init (fun _ => True) trivial _)) (by decide)⟩

/-- The longest line that `pcmd` delivers. -/
@[irreducible] def longestLine : Bytes := List.replicate 999 0x61

theorem longestLine_length : longestLine.length = 999 := by
  unfold longestLine
  exact List.length_replicate

theorem pcmdLine_longest : PcmdLine longestLine := by
  refine ⟨by rw [longestLine_length]; decide, Nat.le_of_eq longestLine_length, fun h => ?_⟩
  unfold longestLine at h
  exact absurd (List.eq_of_mem_replicate h) (by decide)

/-- Six such lines: the fifth exceeds the array, and the sixth is copied behind it. -/
theorem motd_overflows : ∃ s, (srvLts fun _ => True).Reachable s ∧
    (∀ l ∈ List.replicate 6 longestLine, PcmdLine l) ∧
    ¬ MotdOk s (List.replicate 6 longestLine) := by
  have hlines : ∀ l ∈ List.replicate 6 longestLine, PcmdLine l := by
    intro l hl
    rw [List.eq_of_mem_replicate hl]
    exact pcmdLine_longest
  have hs := Lts.Reachable.init (demoServer_init (fun _ => True) trivial (none : Option Bytes))
  refine ⟨demoServer none, hs, hlines, ?_⟩
  rintro ⟨t, ht, -⟩
  obtain ⟨q, hq, -⟩ := Option.map_eq_some_iff.mp ht
  have hne : List.replicate 6 longestLine ≠ [] := List.cons_ne_nil _ _
  have hfit := (motdLines_survive_iff hlines _ (Nat.zero_le _)).mp
    (Option.isSome_iff_exists.mpr ⟨q, hq⟩) hne
  rw [List.dropLast_replicate, List.map_replicate, longestLine_length, List.sum_replicate] at hfit
  exact absurd hfit (by decide)

end Frelay
