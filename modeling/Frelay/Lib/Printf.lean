import Frelay.Lib.CStr
import Frelay.Lib.Words

/-!
# Printing into a buffer piece by piece

A program that composes a line in a buffer often calls

  `n += snprintf(buf + n, size - n, …)`

again and again. Each call stores what fits with a terminator, but returns the length of
the whole text, so that `n` passes `size` once a text is cut off. The difference is
unsigned: from then on there seems to be room without end.

* `printAt_holds` — what one call leaves in the buffer while `n` is at most `size`;
* `printAll_isSome_iff` — the calls stay inside exactly when the texts before the last fit;
* `printAll_ok_iff` — and then the buffer holds as much of the texts as fits.
-/

namespace Lib

/-- The largest `int`. -/
def intMax : Nat := 2147483647

/-- `n += snprintf(buf + n, size - n, "%s", text)`, where `size` is the length of the
buffer. The room left is computed in 64 bits and the new position in an `int`; `none` if
the position lies before the buffer, or if the call stores an octet outside it. -/
def printAt (st : List UInt8 × Int) (text : List UInt8) : Option (List UInt8 × Int) :=
  if st.2 < 0 then none
  else
    let room := (((st.1.length : Int) - st.2) % 2 ^ 64).toNat
    let n := (st.2 + text.length).bmod (2 ^ 32)
    if room = 0 then some (st.1, n)
    else
      let out := text.take (room - 1) ++ [0]
      if st.2.toNat + out.length ≤ st.1.length then some (poke st.1 st.2.toNat out, n) else none

/-- The calls for all of `texts`, from the beginning of the buffer on. -/
def printAll (buf : List UInt8) (texts : List (List UInt8)) : Option (List UInt8 × Int) :=
  texts.foldlM printAt (buf, 0)

/-- What the texts before the last one take. -/
def lengthBeforeLast (texts : List (List UInt8)) : Nat := (texts.dropLast.map List.length).sum

/-! ## One call -/

section Call

variable {buf text : List UInt8} {n : Nat}

theorem bmod_of_le (h : n ≤ intMax) : (n : Int).bmod (2 ^ 32) = n := by
  unfold intMax at h
  rw [Int.bmod_def]
  omega

/-- A sum that exceeds the largest `int` becomes negative. -/
theorem bmod_of_gt (h : intMax < n) (hmax : n ≤ 2 * intMax) : (n : Int).bmod (2 ^ 32) < 0 := by
  unfold intMax at h hmax
  rw [Int.bmod_def]
  omega

/-- In the buffer, what fits is stored. -/
theorem printAt_room (hn : n < buf.length) (hsize : buf.length < 2 ^ 64) :
    printAt (buf, n) text =
      some (poke buf n (text.take (buf.length - n - 1) ++ [0]),
        ((n + text.length : Nat) : Int).bmod (2 ^ 32)) := by
  have hroom : (((buf.length : Int) - n) % 2 ^ 64).toNat = buf.length - n := by omega
  have hout : n + (text.take (buf.length - n - 1) ++ [0]).length ≤ buf.length := by
    rw [List.length_append, List.length_take, List.length_singleton]
    omega
  unfold printAt
  simp only [hroom, Int.toNat_natCast]
  rw [if_neg (by omega), if_neg (by omega), if_pos hout]
  rfl

/-- At its end, nothing is. -/
theorem printAt_end : printAt (buf, buf.length) text =
    some (buf, ((buf.length + text.length : Nat) : Int).bmod (2 ^ 32)) := by
  unfold printAt
  simp only [Int.sub_self]
  rw [if_neg (by omega), if_pos (by rfl)]
  rfl

/-- Behind it the room is as good as unlimited, and at least the terminator is stored there. -/
theorem printAt_beyond (hn : buf.length < n) (hmax : n ≤ intMax) : printAt (buf, n) text = none := by
  unfold intMax at hmax
  have hroom : (((buf.length : Int) - n) % 2 ^ 64).toNat ≠ 0 := by omega
  unfold printAt
  simp only
  rw [if_neg (by omega), if_neg hroom, if_neg]
  rw [List.length_append, Int.toNat_natCast]
  omega

theorem printAt_before {k : Int} (hk : k < 0) : printAt (buf, k) text = none := if_pos hk

/-- Up to the end of the buffer a call succeeds, and the buffer keeps its length. -/
theorem printAt_isSome (hn : n ≤ buf.length) (hsize : buf.length < 2 ^ 64) :
    ∃ buf', printAt (buf, n) text = some (buf', ((n + text.length : Nat) : Int).bmod (2 ^ 32)) ∧
      buf'.length = buf.length := by
  rcases Nat.lt_or_eq_of_le hn with hlt | rfl
  · refine ⟨_, printAt_room hlt hsize, length_poke ?_⟩
    rw [List.length_append, List.length_take, List.length_singleton]
    omega
  · exact ⟨buf, printAt_end, rfl⟩

/-- The buffer starts with as much of `txt` as fits; where that is not all, or where a
call has been made, a terminator follows. -/
structure Printed (buf txt : List UInt8) : Prop where
  text : txt.take (buf.length - 1) <+: buf
  full : txt.length = buf.length → txt.take (buf.length - 1) ++ [0] <+: buf

/-- One call prints behind what is there. -/
theorem printAt_holds {buf' : List UInt8} {k : Int} {txt : List UInt8} (hbuf : Printed buf txt)
    (hn : txt.length ≤ buf.length) (hsize : buf.length < 2 ^ 64)
    (h : printAt (buf, txt.length) text = some (buf', k)) :
    (txt ++ text).take (buf.length - 1) ++ [0] <+: buf' := by
  rcases Nat.lt_or_eq_of_le hn with hlt | heq
  · rw [printAt_room hlt hsize, Option.some.injEq, Prod.mk.injEq] at h
    obtain ⟨rfl, -⟩ := h
    have hwhole : txt.take (buf.length - 1) = txt := List.take_of_length_le (by omega)
    obtain ⟨rest, hrest⟩ := hwhole ▸ hbuf.text
    rw [List.take_append, hwhole]
    generalize hfit : text.take (buf.length - txt.length - 1) = fit
    rw [show buf.length - 1 - txt.length = buf.length - txt.length - 1 by omega, hfit, ← hrest,
      poke_append_right, ← List.append_assoc, ← List.append_assoc]
    exact List.prefix_append _ _
  · rw [heq, printAt_end, Option.some.injEq, Prod.mk.injEq] at h
    obtain ⟨rfl, -⟩ := h
    have hcut : (txt ++ text).take (buf.length - 1) = txt.take (buf.length - 1) :=
      List.take_append_of_le_length (by omega)
    rw [hcut]
    exact hbuf.full heq

end Call

/-! ## All calls -/

section Calls

variable {texts : List (List UInt8)}

@[simp] theorem lengthBeforeLast_cons_cons (u v : List UInt8) (texts : List (List UInt8)) :
    lengthBeforeLast (u :: v :: texts) = u.length + lengthBeforeLast (v :: texts) := by
  simp [lengthBeforeLast]

/-- **The calls stay inside exactly when the texts before the last one fit** into the
buffer, and their length into an `int`. -/
theorem printAll_isSome_iff (htexts : ∀ u ∈ texts, u.length ≤ intMax) {buf : List UInt8} {n : Nat}
    (hsize : buf.length < 2 ^ 64) (hn : n ≤ min buf.length intMax) :
    (texts.foldlM printAt (buf, (n : Int))).isSome ↔
      n + lengthBeforeLast texts ≤ min buf.length intMax := by
  induction texts generalizing buf n with
  | nil => exact ⟨fun _ => hn, fun _ => rfl⟩
  | cons u texts ih =>
      have hu := htexts u List.mem_cons_self
      obtain ⟨buf', hstep, hlen⟩ : ∃ buf', printAt (buf, (n : Int)) u =
          some (buf', ((n + u.length : Nat) : Int).bmod (2 ^ 32)) ∧ buf'.length = buf.length :=
        printAt_isSome (Nat.le_min.mp hn).1 hsize
      rw [List.foldlM_cons, hstep, Option.bind_eq_bind, Option.bind_some]
      cases texts with
      | nil => exact ⟨fun _ => hn, fun _ => rfl⟩
      | cons v texts =>
          rw [lengthBeforeLast_cons_cons, ← Nat.add_assoc]
          have hle := Nat.le_min.mp hn
          by_cases hmax : intMax < n + u.length
          · -- The position has become negative.
            rw [List.foldlM_cons, printAt_before (bmod_of_gt hmax (by omega))]
            exact ⟨nofun, fun h => absurd (Nat.le_min.mp h).2 (by omega)⟩
          · rw [bmod_of_le (Nat.not_lt.mp hmax)]
            by_cases hin : n + u.length ≤ buf.length
            · have hnext : n + u.length ≤ min buf'.length intMax :=
                Nat.le_min.mpr ⟨hlen ▸ hin, Nat.not_lt.mp hmax⟩
              rw [ih (fun w hw => htexts w (List.mem_cons_of_mem _ hw)) (hlen ▸ hsize) hnext, hlen]
            · rw [List.foldlM_cons,
                printAt_beyond (hlen ▸ Nat.not_le.mp hin) (Nat.not_lt.mp hmax)]
              exact ⟨nofun, fun h => absurd (Nat.le_min.mp h).1 (by omega)⟩

/-- What is printed behind `txt` while the calls stay inside. -/
theorem printAll_holds (htexts : ∀ u ∈ texts, u.length ≤ intMax) {buf txt : List UInt8}
    (hsize : buf.length < 2 ^ 64) (hbuf : Printed buf txt)
    (hfit : txt.length + lengthBeforeLast texts ≤ min buf.length intMax) (hne : texts ≠ [])
    {r : List UInt8 × Int} (h : texts.foldlM printAt (buf, (txt.length : Int)) = some r) :
    (txt ++ texts.flatten).take (buf.length - 1) ++ [0] <+: r.1 := by
  induction texts generalizing buf txt with
  | nil => exact absurd rfl hne
  | cons u texts ih =>
      have hle : txt.length ≤ buf.length := by omega
      obtain ⟨buf', hstep, hlen⟩ : ∃ buf', printAt (buf, (txt.length : Int)) u =
          some (buf', ((txt.length + u.length : Nat) : Int).bmod (2 ^ 32)) ∧
            buf'.length = buf.length := printAt_isSome hle hsize
      have hholds := printAt_holds hbuf hle hsize hstep
      rw [List.foldlM_cons, hstep, Option.bind_eq_bind, Option.bind_some] at h
      cases texts with
      | nil =>
          cases h
          rw [List.flatten_cons, List.flatten_nil, List.append_nil]
          exact hholds
      | cons v texts =>
          rw [lengthBeforeLast_cons_cons, ← Nat.add_assoc, ← List.length_append] at hfit
          rw [← List.length_append, bmod_of_le (by omega)] at h
          rw [← hlen] at hholds hfit ⊢
          rw [List.flatten_cons, ← List.append_assoc]
          exact ih (fun w hw => htexts w (List.mem_cons_of_mem _ hw)) (hlen ▸ hsize)
            ⟨(List.prefix_append _ _).trans hholds, fun _ => hholds⟩ hfit (List.cons_ne_nil _ _) h

/-- **A line is composed inside the buffer exactly when the texts before the last one
fit**, and without any text when there is an empty string in it already. The line is then
the string `line` up to where it is cut off, whatever the texts say from their first null on. -/
theorem printAll_ok_iff (htexts : ∀ u ∈ texts, u.length ≤ intMax) {buf line rest : List UInt8}
    (hpos : 0 < buf.length) (hsize : buf.length < 2 ^ 64) (hflat : texts.flatten = line ++ rest)
    (hrest : rest = [] ∨ ∃ more, rest = 0 :: more) :
    (∃ r, printAll buf texts = some r ∧ 0 ∈ r.1 ∧ r.1.takeWhile (· ≠ 0) <+: line) ↔
      lengthBeforeLast texts ≤ min buf.length intMax ∧ (texts = [] → buf.head? = some 0) := by
  have hsome := printAll_isSome_iff htexts hsize (n := 0) (Nat.zero_le _)
  rw [Nat.zero_add] at hsome
  by_cases hnil : texts = []
  · -- Nothing is printed, and the buffer stays as it is.
    subst hnil
    obtain ⟨rfl, rfl⟩ := List.append_eq_nil_iff.mp hflat.symm
    cases buf with
    | nil => exact absurd hpos (Nat.lt_irrefl 0)
    | cons x buf =>
        constructor
        · rintro ⟨r, hr, -, hpre⟩
          cases hr
          refine ⟨Nat.zero_le _, fun _ => ?_⟩
          by_contra hx
          have hne : x ≠ 0 := fun h => hx (by rw [h]; rfl)
          simp [hne] at hpre
        · rintro ⟨-, hhead⟩
          obtain rfl : x = 0 := Option.some.inj (hhead rfl)
          exact ⟨_, rfl, List.mem_cons_self, by simp⟩
  · constructor
    · rintro ⟨r, hr, -⟩
      exact ⟨hsome.mp (Option.isSome_iff_exists.mpr ⟨r, hr⟩), fun h => absurd h hnil⟩
    · rintro ⟨hfit, -⟩
      obtain ⟨r, hr⟩ := Option.isSome_iff_exists.mp (hsome.mpr hfit)
      have hstart : Printed buf [] :=
        ⟨by simp, fun h => absurd h (Nat.ne_of_lt hpos)⟩
      obtain ⟨more, hmore⟩ := printAll_holds htexts hsize hstart
        (by rw [List.length_nil, Nat.zero_add]; exact hfit) hnil hr
      rw [List.nil_append, List.append_assoc, List.singleton_append] at hmore
      have hmem : 0 ∈ r.1 := by
        rw [← hmore]
        exact List.mem_append_right _ List.mem_cons_self
      refine ⟨r, hr, hmem, ?_⟩
      rw [← hmore, takeWhile_ne_stop, ← List.take_takeWhile]
      refine (List.take_prefix _ _).trans ?_
      rw [hflat]
      rcases hrest with rfl | ⟨rest, rfl⟩
      · rw [List.append_nil]
        exact List.takeWhile_prefix _
      · rw [takeWhile_ne_stop]
        exact List.takeWhile_prefix _

end Calls

end Lib
