import Frelay.Lib.CStr

/-!
# Reading with a format (`sscanf`)

A format is a list of directives. `scan` returns what they convert, up to the first that
does not fit, so the number `sscanf` returns is the length of this list.

* `scanHex_hexPad` — a zero-padded number reads back.
-/

namespace Lib

/-- The directives of a format. -/
inductive ScanDir where
  /-- White space, if there is any. -/
  | space
  | lit (c : UInt8)
  /-- `%c`. -/
  | char
  /-- `%w[p]`: up to `w` characters of a set, and at least one. -/
  | set (w : Nat) (p : UInt8 → Bool)
  /-- `%x`, into 64 bits. -/
  | hex

/-- What a directive has converted. -/
inductive ScanVal where
  | char (c : UInt8)
  | str (s : List UInt8)
  | num (n : UInt64)
  deriving DecidableEq

/-- `%x`: the number and what follows it. A `0x` without a digit behind it is none. -/
def scanHex (s : List UInt8) : Option (UInt64 × List UInt8) :=
  let t := (stripSign (s.dropWhile isspace)).2
  if (strip0x t).takeWhile isxdigit = [] then none
  else if strip0x t = t ∧ t[0]? = some 48 ∧ (t[1]? = some 120 ∨ t[1]? = some 88) then none
  else some (strtoull16 s)

/-- What `sscanf` converts. -/
def scan : List ScanDir → List UInt8 → List ScanVal
  | [], _ => []
  | .space :: ds, s => scan ds (s.dropWhile isspace)
  | .lit c :: ds, s => if s.head? = some c then scan ds s.tail else []
  | .char :: ds, s =>
      match s with
      | [] => []
      | c :: s => .char c :: scan ds s
  | .set w p :: ds, s =>
      let r := (s.take w).takeWhile p
      if r = [] then [] else .str r :: scan ds (s.drop r.length)
  | .hex :: ds, s =>
      match scanHex s with
      | none => []
      | some (n, s) => .num n :: scan ds s

section Directives

variable {ds : List ScanDir} {s : List UInt8} {c : UInt8}

/-- Nothing is skipped before a character that is no white space. -/
theorem scan_space (hc : isspace c = false) :
    scan (.space :: ds) (c :: s) = scan ds (c :: s) := by
  rw [scan, List.dropWhile_cons, if_neg (by simp [hc])]

@[simp] theorem scan_lit : scan (.lit c :: ds) (c :: s) = scan ds s := if_pos rfl

@[simp] theorem scan_char : scan (.char :: ds) (c :: s) = .char c :: scan ds s := rfl

/-- A run of characters that fills the width. -/
theorem scan_set {w : Nat} {p : UInt8 → Bool} {r t : List UInt8} (hr : ∀ c ∈ r, p c = true)
    (hlen : r.length = w) (hne : r ≠ []) :
    scan (.set w p :: ds) (r ++ t) = .str r :: scan ds t := by
  have htake : ((r ++ t).take w).takeWhile p = r := by
    rw [List.take_left' hlen, List.takeWhile_eq_self_iff]
    exact hr
  rw [scan]
  simp only [htake]
  rw [if_neg hne, List.drop_left]

/-- **A zero-padded number reads back.** -/
theorem scanHex_hexPad {w n : Nat} {t : List UInt8} (hw : 1 < w) (hn : n < 16 ^ w)
    (hmax : n < 2 ^ 64) (ht : t.takeWhile isxdigit = []) :
    scanHex (hexPad w n ++ t) = some (UInt64.ofNat n, t) := by
  obtain ⟨hspace, hsign, h0x, hsecond⟩ := hexPad_bare (n := n) t hw
  have hne : hexPad w n ≠ [] := by
    intro h
    have hlen := length_hexPad w n
    rw [h, List.length_nil] at hlen
    omega
  unfold scanHex
  simp only [hspace, hsign, h0x, takeWhile_hexPad w n ht]
  rw [if_neg hne, if_neg, strtoull16_hexPad hw hn hmax ht]
  -- The second character is a digit, so there is no prefix.
  rintro ⟨-, -, hx | hx⟩
  · exact absurd (hsecond _ hx) (by decide)
  · exact absurd (hsecond _ hx) (by decide)

theorem scan_hex {w n : Nat} {t : List UInt8} (hw : 1 < w) (hn : n < 16 ^ w)
    (hmax : n < 2 ^ 64) (ht : t.takeWhile isxdigit = []) :
    scan (.hex :: ds) (hexPad w n ++ t) = .num (UInt64.ofNat n) :: scan ds t := by
  rw [scan, scanHex_hexPad hw hn hmax ht]

end Directives

end Lib
