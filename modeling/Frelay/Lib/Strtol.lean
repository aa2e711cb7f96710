import Frelay.Lib.CStr
import Mathlib.Algebra.Order.Ring.Int

/-!
# Numbers in any base (`strtol`)

`strtol` with base 0 takes the base from the number itself: hexadecimal after `0x`, octal
after `0`, and decimal otherwise.

* `strtol0_decimal` — a decimal number as it is printed reads back.
-/

namespace Lib

/-- A digit of base `b`. -/
def isDigitIn (b : Nat) (c : UInt8) : Bool := (hexVal? c).any (· < b)

/-- The number a list of digits of base `b` denotes. -/
def natIn (b : Nat) (ds : List UInt8) : Nat := ds.foldl (fun a c => a * b + (hexVal? c).getD 0) 0

/-- The number at the start of a string, without its sign. -/
def prefixNat (s : List UInt8) : Nat :=
  let t := strip0x s
  if t ≠ s then natIn 16 (t.takeWhile (isDigitIn 16))
  else if s.head? = some 48 then natIn 8 (s.takeWhile (isDigitIn 8))
  else natIn 10 (s.takeWhile (isDigitIn 10))

/-- `strtol` in base 0, for a `long` of 64 bits; a number that is too large saturates. -/
def strtol0 (s : List UInt8) : Int :=
  let p := stripSign (s.dropWhile isspace)
  let n := prefixNat p.2
  if p.1 then max (-2 ^ 63) (-(n : Int)) else min (2 ^ 63 - 1) n

/-! ## Decimal numbers -/

/-- The characters of a decimal number. -/
def decimalDigits (n : Nat) : List UInt8 :=
  (Nat.toDigits 10 n).map fun c => UInt8.ofNat c.toNat

/-- The digit of a value below 10. -/
theorem digitChar_spec {d : Nat} (h : d < 10) :
    hexVal? (UInt8.ofNat (Nat.digitChar d).toNat) = some d ∧
      (UInt8.ofNat (Nat.digitChar d).toNat = 48 ↔ d = 0) := by
  have hall : ∀ d < 10, hexVal? (UInt8.ofNat (Nat.digitChar d).toNat) = some d ∧
      (UInt8.ofNat (Nat.digitChar d).toNat = 48 ↔ d = 0) := by decide
  exact hall d h

theorem decimalDigits_eq (n : Nat) : decimalDigits n =
    if n < 10 then [UInt8.ofNat (Nat.digitChar n).toNat]
    else decimalDigits (n / 10) ++ [UInt8.ofNat (Nat.digitChar (n % 10)).toNat] := by
  unfold decimalDigits
  conv_lhs => rw [Nat.toDigits_eq_if (by decide)]
  split
  · rfl
  · rw [List.map_append]
    rfl

/-- **The digits denote the number**; all of them are decimal ones. -/
theorem natIn_decimalDigits (n : Nat) : natIn 10 (decimalDigits n) = n ∧
    ∀ c ∈ decimalDigits n, isDigitIn 10 c = true := by
  induction n using Nat.strongRecOn with
  | ind n ih =>
      rw [decimalDigits_eq]
      split
      · rename_i hn
        obtain ⟨hval, -⟩ := digitChar_spec hn
        refine ⟨by simp [natIn, hval], ?_⟩
        intro c hc
        rw [List.mem_singleton.mp hc, isDigitIn, hval]
        exact decide_eq_true hn
      · rename_i hn
        obtain ⟨hnat, hall⟩ := ih (n / 10) (by omega)
        obtain ⟨hval, -⟩ := digitChar_spec (Nat.mod_lt n (by decide : 0 < 10))
        refine ⟨?_, ?_⟩
        · have hcat : natIn 10 (decimalDigits (n / 10) ++
              [UInt8.ofNat (Nat.digitChar (n % 10)).toNat]) =
                natIn 10 (decimalDigits (n / 10)) * 10 + n % 10 := by
            simp [natIn, List.foldl_append, hval]
          rw [hcat, hnat]
          omega
        · intro c hc
          rcases List.mem_append.mp hc with hc | hc
          · exact hall c hc
          · rw [List.mem_singleton.mp hc, isDigitIn, hval]
            exact decide_eq_true (Nat.mod_lt n (by decide))

/-- Only the number 0 starts with a zero. -/
theorem head_decimalDigits (n : Nat) : ∃ c ds, decimalDigits n = c :: ds ∧ (c = 48 → n = 0) := by
  induction n using Nat.strongRecOn with
  | ind n ih =>
      rw [decimalDigits_eq]
      split
      · rename_i hn
        exact ⟨_, [], rfl, (digitChar_spec hn).2.mp⟩
      · rename_i hn
        obtain ⟨c, ds, hds, hzero⟩ := ih (n / 10) (by omega)
        refine ⟨c, ds ++ [_], by rw [hds, List.cons_append], fun hc => ?_⟩
        have := hzero hc
        omega

/-- A decimal digit is a hexadecimal one. -/
theorem isxdigit_of_isDigitIn {b : Nat} {c : UInt8} (h : isDigitIn b c = true) :
    isxdigit c = true := by
  unfold isDigitIn at h
  unfold isxdigit
  cases hv : hexVal? c with
  | none =>
      rw [hv] at h
      cases h
  | some v => rfl

/-- There is no prefix before the second digit. -/
theorem strip0x_of_digits {s : List UInt8} (h : ∀ c ∈ s, isxdigit c = true) : strip0x s = s := by
  unfold strip0x
  split
  · rename_i x d s
    have hx := of_isxdigit (h x (by simp))
    exact if_neg fun hp => hp.1.elim hx.2.2.2.1 hx.2.2.2.2.1
  · rfl

theorem prefixNat_decimalDigits (n : Nat) : prefixNat (decimalDigits n) = n := by
  obtain ⟨hnat, hall⟩ := natIn_decimalDigits n
  obtain ⟨c, ds, hds, hzero⟩ := head_decimalDigits n
  have hstrip : strip0x (decimalDigits n) = decimalDigits n :=
    strip0x_of_digits fun c hc => isxdigit_of_isDigitIn (hall c hc)
  unfold prefixNat
  simp only [hstrip, ne_eq, not_true_eq_false, if_false]
  split
  · rename_i hhead
    rw [hds] at hhead
    obtain rfl := hzero (Option.some.inj hhead)
    rfl
  · rw [List.takeWhile_eq_self_iff.mpr hall, hnat]

/-- **A decimal number as it is printed reads back**, with or without a minus sign. -/
theorem strtol0_decimal {n : Nat} :
    (n < 2 ^ 63 → strtol0 (decimalDigits n) = n) ∧
      (n ≤ 2 ^ 63 → strtol0 (45 :: decimalDigits n) = -(n : Int)) := by
  obtain ⟨c, ds, hds, -⟩ := head_decimalDigits n
  have hc : isxdigit c = true :=
    isxdigit_of_isDigitIn ((natIn_decimalDigits n).2 c (by rw [hds]; exact List.mem_cons_self))
  obtain ⟨hspace, hminus, hplus, -⟩ := of_isxdigit hc
  have hdrop : (decimalDigits n).dropWhile isspace = decimalDigits n := by
    rw [hds, List.dropWhile_cons, if_neg (by simp [hspace])]
  have hsign : stripSign (decimalDigits n) = (false, decimalDigits n) := by
    rw [hds, stripSign]
    · exact fun _ h => hminus (List.cons.inj h).1
    · exact fun _ h => hplus (List.cons.inj h).1
  refine ⟨?_, ?_⟩
  · intro hn
    unfold strtol0
    simp only [hdrop, hsign, prefixNat_decimalDigits, Bool.false_eq_true, if_false]
    omega
  · intro hn
    have hspace' : (45 :: decimalDigits n).dropWhile isspace = 45 :: decimalDigits n := rfl
    unfold strtol0
    simp only [hspace', stripSign, prefixNat_decimalDigits, if_true]
    omega

end Lib
