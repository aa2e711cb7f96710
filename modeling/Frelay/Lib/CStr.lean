import Mathlib.Tactic.Common
import Mathlib.Data.List.TakeWhile
import Mathlib.Data.UInt

/-!
# Strings and text files as the C library sees them

A C string is the list of its characters without the terminating null. The
module models the few library functions a line-oriented text file needs:

* `tolower`, `stricmp` — comparison without regard to case;
* `compared`, `searched` — what a comparison and a search look at;
* `hexPad`, `strtoull16` — printing and parsing hexadecimal numbers, with the
  round trip `strtoull16_hexPad`;
* `fgetsAll` — reading a file in pieces that end with a line or with the
  buffer, with one equation for a line that fits (`fgetsAll_line`) and one for
  a line that does not (`fgetsAll_long`).
-/

namespace Lib

/-- The newline character. -/
def chLF : UInt8 := 10

/-- The carriage return character. -/
def chCR : UInt8 := 13

/-- What `strchr` splits a string into: the characters before and after the first `c`. -/
def strchr (c : UInt8) : List UInt8 → Option (List UInt8 × List UInt8)
  | [] => none
  | x :: s => if x = c then some ([], s) else (strchr c s).map fun p => (x :: p.1, p.2)

theorem strchr_append {c : UInt8} {a b : List UInt8} (h : c ∉ a) :
    strchr c (a ++ c :: b) = some (a, b) := by
  induction a with
  | nil => simp [strchr]
  | cons x a ih =>
      rw [List.cons_append, strchr, if_neg (List.ne_of_not_mem_cons h).symm,
        ih (List.not_mem_of_not_mem_cons h)]
      rfl

theorem strchr_eq_some {c : UInt8} {s a b : List UInt8} (h : strchr c s = some (a, b)) :
    s = a ++ c :: b ∧ c ∉ a := by
  induction s generalizing a with
  | nil => cases h
  | cons x s ih =>
      rw [strchr] at h
      split at h
      · rename_i hx
        cases h
        exact ⟨by rw [hx, List.nil_append], List.not_mem_nil⟩
      · rename_i hx
        obtain ⟨⟨a', b'⟩, hs, heq⟩ := Option.map_eq_some_iff.mp h
        cases heq
        obtain ⟨rfl, hmem⟩ := ih hs
        refine ⟨rfl, ?_⟩
        rw [List.mem_cons, not_or]
        exact ⟨Ne.symm hx, hmem⟩

theorem takeWhile_ne_eq_self {c : UInt8} {s : List UInt8} (h : c ∉ s) :
    s.takeWhile (· ≠ c) = s := by
  rw [List.takeWhile_eq_self_iff]
  intro x hx
  simp only [ne_eq, decide_eq_true_eq]
  rintro rfl
  exact h hx

theorem not_mem_takeWhile_ne (c : UInt8) (s : List UInt8) : c ∉ s.takeWhile (· ≠ c) := by
  intro h
  have := List.mem_takeWhile_imp h
  simp at this

/-- A string that ends within `s` does not depend on what follows. -/
theorem takeWhile_ne_of_mem {c : UInt8} {s : List UInt8} (h : c ∈ s) (t : List UInt8) :
    (s ++ t).takeWhile (· ≠ c) = s.takeWhile (· ≠ c) ∧
      (s.takeWhile (· ≠ c)).length < s.length := by
  induction s with
  | nil => cases h
  | cons x s ih =>
      rw [List.cons_append, List.takeWhile_cons, List.takeWhile_cons]
      by_cases hx : x = c
      · rw [if_neg (by simpa using hx), if_neg (by simpa using hx)]
        exact ⟨rfl, Nat.succ_pos _⟩
      · have hmem : c ∈ s := (List.mem_cons.mp h).resolve_left (Ne.symm hx)
        obtain ⟨heq, hlt⟩ := ih hmem
        rw [if_pos (by simpa using hx), if_pos (by simpa using hx), heq]
        exact ⟨rfl, Nat.succ_lt_succ hlt⟩

/-- A string ends where its first terminator is put. -/
theorem takeWhile_ne_stop (c : UInt8) (a b : List UInt8) :
    (a ++ c :: b).takeWhile (· ≠ c) = a.takeWhile (· ≠ c) := by
  induction a with
  | nil => simp
  | cons x a ih =>
      rw [List.cons_append, List.takeWhile_cons, List.takeWhile_cons, ih]

theorem takeWhile_ne_append {c : UInt8} {a b : List UInt8} (h : c ∉ a) :
    (a ++ c :: b).takeWhile (· ≠ c) = a := by
  rw [List.takeWhile_append_of_pos, List.takeWhile_cons]
  · simp
  · intro x hx
    simp only [ne_eq, decide_eq_true_eq]
    rintro rfl
    exact h hx

/-! ## Comparison without regard to case -/

/-- `tolower` in the C locale. -/
def tolower (c : UInt8) : UInt8 := if 65 ≤ c ∧ c ≤ 90 then c + 32 else c

/-- `stricmp`: the difference at the first position where the lower-cased
strings, terminating nulls included, disagree. -/
def stricmp : List UInt8 → List UInt8 → Int
  | [], [] => 0
  | [], y :: _ => -((tolower y).toNat : Int)
  | x :: _, [] => ((tolower x).toNat : Int)
  | x :: s, y :: t =>
      let r := ((tolower x).toNat : Int) - ((tolower y).toNat : Int)
      if r = 0 then stricmp s t else r

/-- `strnicmp`: the same for the first `n` characters. -/
def strnicmp : List UInt8 → List UInt8 → Nat → Int
  | _, _, 0 => 0
  | [], [], _ + 1 => 0
  | [], y :: _, _ + 1 => -((tolower y).toNat : Int)
  | x :: _, [], _ + 1 => ((tolower x).toNat : Int)
  | x :: s, y :: t, n + 1 =>
      let r := ((tolower x).toNat : Int) - ((tolower y).toNat : Int)
      if r = 0 then strnicmp s t n else r

/-- How many characters of `s`, its null included, a comparison with `t` looks at
that stops at the first difference; `f` is what it does to a character first. -/
def compared (f : UInt8 → UInt8) : List UInt8 → List UInt8 → Nat
  | x :: s, y :: t => if f x = f y then compared f s t + 1 else 1
  | _, _ => 1

theorem compared_le (f : UInt8 → UInt8) (s t : List UInt8) : compared f s t ≤ s.length + 1 := by
  induction s generalizing t with
  | nil =>
      unfold compared
      exact Nat.le_refl 1
  | cons x s ih =>
      cases t with
      | nil => exact Nat.le_add_left 1 _
      | cons y t =>
          rw [compared]
          split
          · exact Nat.succ_le_succ (ih t)
          · exact Nat.le_add_left 1 _

/-- The elements a search looks at: those before the first that fits, and that one. -/
def searched {α : Type} (p : α → Bool) : List α → List α
  | [] => []
  | x :: l => x :: if p x then [] else searched p l

theorem searched_eq_nil {α : Type} {p : α → Bool} {l : List α} : searched p l = [] ↔ l = [] := by
  cases l with
  | nil => exact ⟨fun _ => rfl, fun _ => rfl⟩
  | cons x l => exact ⟨nofun, nofun⟩

theorem stricmp_self (s : List UInt8) : stricmp s s = 0 := by
  induction s with
  | nil => rfl
  | cons x s ih => simp [stricmp, ih]

theorem stricmp_neg (s t : List UInt8) : stricmp t s = -stricmp s t := by
  induction s generalizing t with
  | nil => cases t <;> simp [stricmp]
  | cons x s ih =>
      cases t with
      | nil => rfl
      | cons y t =>
          have htail := ih t
          simp only [stricmp]
          split <;> split <;> omega

/-- Comparing equal is symmetric. -/
theorem stricmp_comm {s t : List UInt8} : stricmp s t = 0 ↔ stricmp t s = 0 := by
  rw [stricmp_neg s t, neg_eq_zero]

/-! ## Hexadecimal numbers -/

/-- `isspace` in the C locale. -/
def isspace (c : UInt8) : Bool := c == 32 || (9 ≤ c && c ≤ 13)

/-- The value of a hexadecimal digit of either case. -/
def hexVal? (c : UInt8) : Option Nat :=
  if 48 ≤ c ∧ c ≤ 57 then some (c.toNat - 48)
  else if 97 ≤ c ∧ c ≤ 102 then some (c.toNat - 87)
  else if 65 ≤ c ∧ c ≤ 70 then some (c.toNat - 55)
  else none

def isxdigit (c : UInt8) : Bool := (hexVal? c).isSome

/-- The number a list of hexadecimal digits denotes. -/
def hexNat (ds : List UInt8) : Nat := ds.foldl (fun a c => a * 16 + (hexVal? c).getD 0) 0

/-- The sign of a number, if any. -/
def stripSign : List UInt8 → Bool × List UInt8
  | 45 :: s => (true, s)
  | 43 :: s => (false, s)
  | s => (false, s)

/-- The prefix of a hexadecimal number, if any: it counts only before a digit. -/
def strip0x : List UInt8 → List UInt8
  | 48 :: x :: d :: s => if (x = 120 ∨ x = 88) ∧ isxdigit d then d :: s else 48 :: x :: d :: s
  | s => s

/-- `strtoull` in base 16: the value and the rest of the string. The value is
zero and the rest the whole string where there is no number; a number that is
too large saturates. -/
def strtoull16 (s : List UInt8) : UInt64 × List UInt8 :=
  let p := stripSign (s.dropWhile isspace)
  let t := strip0x p.2
  let ds := t.takeWhile isxdigit
  if ds = [] then (0, s)
  else
    let n := hexNat ds
    let v := if 2 ^ 64 ≤ n then 0xffffffffffffffff else UInt64.ofNat n
    (if p.1 ∧ n < 2 ^ 64 then -v else v, t.dropWhile isxdigit)

/-- The lower-case hexadecimal digit of a value below 16. -/
def hexDigit (n : Nat) : UInt8 := if n < 10 then UInt8.ofNat (48 + n) else UInt8.ofNat (87 + n)

/-- The `w` low hexadecimal digits of `n`, as a zero-padded `%x` prints them. -/
def hexPad : Nat → Nat → List UInt8
  | 0, _ => []
  | w + 1, n => hexPad w (n / 16) ++ [hexDigit (n % 16)]

@[simp] theorem length_hexPad (w n : Nat) : (hexPad w n).length = w := by
  induction w generalizing n with
  | zero => rfl
  | succ w ih => simp [hexPad, ih]

theorem hexVal?_hexDigit {n : Nat} (h : n < 16) : hexVal? (hexDigit n) = some n := by
  have hall : ∀ n < 16, hexVal? (hexDigit n) = some n := by decide
  exact hall n h

theorem isxdigit_hexDigit {n : Nat} (h : n < 16) : isxdigit (hexDigit n) = true := by
  rw [isxdigit, hexVal?_hexDigit h]
  rfl

theorem isxdigit_hexPad {w n : Nat} {c : UInt8} (h : c ∈ hexPad w n) : isxdigit c = true := by
  induction w generalizing n with
  | zero => exact absurd h List.not_mem_nil
  | succ w ih =>
      rw [hexPad, List.mem_append, List.mem_singleton] at h
      rcases h with h | rfl
      · exact ih h
      · exact isxdigit_hexDigit (Nat.mod_lt _ (by decide))

theorem hexNat_hexPad (w n : Nat) : hexNat (hexPad w n) = n % 16 ^ w := by
  induction w generalizing n with
  | zero => simp [hexPad, hexNat, Nat.mod_one]
  | succ w ih =>
      have hcat : hexNat (hexPad (w + 1) n) =
          hexNat (hexPad w (n / 16)) * 16 + (hexVal? (hexDigit (n % 16))).getD 0 := by
        simp [hexNat, hexPad, List.foldl_append]
      rw [hcat, ih, hexVal?_hexDigit (Nat.mod_lt _ (by decide)), Option.getD_some, pow_succ',
        Nat.mod_mul]
      omega

/-- A digit is neither white space, nor a sign, nor the letter of the prefix. -/
theorem of_isxdigit {c : UInt8} (h : isxdigit c = true) :
    isspace c = false ∧ c ≠ 45 ∧ c ≠ 43 ∧ c ≠ 120 ∧ c ≠ 88 ∧ c ≠ 124 ∧ c ≠ chLF ∧ c ≠ 0 := by
  have hall : ∀ n < 256, isxdigit (UInt8.ofNat n) = true →
      isspace (UInt8.ofNat n) = false ∧ UInt8.ofNat n ≠ 45 ∧ UInt8.ofNat n ≠ 43 ∧
        UInt8.ofNat n ≠ 120 ∧ UInt8.ofNat n ≠ 88 ∧ UInt8.ofNat n ≠ 124 ∧
        UInt8.ofNat n ≠ chLF ∧ UInt8.ofNat n ≠ 0 := by
    decide +kernel
  have hc := hall c.toNat c.toNat_lt
  rw [UInt8.ofNat_toNat] at hc
  exact hc h

/-- A zero-padded number starts with a digit, without white space, sign or prefix. -/
theorem hexPad_bare {w n : Nat} (t : List UInt8) (hw : 1 < w) :
    (hexPad w n ++ t).dropWhile isspace = hexPad w n ++ t ∧
      stripSign (hexPad w n ++ t) = (false, hexPad w n ++ t) ∧
      strip0x (hexPad w n ++ t) = hexPad w n ++ t ∧
      ∀ c, (hexPad w n ++ t)[1]? = some c → isxdigit c = true := by
  have hall : ∀ c ∈ hexPad w n, isxdigit c = true := fun c hc => isxdigit_hexPad hc
  obtain ⟨a, b, ds, hds⟩ : ∃ a b ds, hexPad w n = a :: b :: ds := by
    have hlen := length_hexPad w n
    cases hp : hexPad w n with
    | nil =>
        rw [hp, List.length_nil] at hlen
        omega
    | cons a l =>
        cases l with
        | nil =>
            rw [hp, List.length_singleton] at hlen
            omega
        | cons b ds => exact ⟨a, b, ds, rfl⟩
  have ha := of_isxdigit (hall a (by rw [hds]; simp))
  have hxb := hall b (by rw [hds]; simp)
  have hb := of_isxdigit hxb
  refine ⟨?_, ?_, ?_, ?_⟩
  · rw [hds, List.cons_append, List.dropWhile_cons, if_neg (by simp [ha.1])]
  · rw [hds, List.cons_append, stripSign]
    · exact fun _ h => ha.2.1 (List.cons.inj h).1
    · exact fun _ h => ha.2.2.1 (List.cons.inj h).1
  · rw [hds, List.cons_append, List.cons_append]
    unfold strip0x
    split
    · rename_i x d s heq
      obtain ⟨rfl, hbx⟩ := List.cons.inj heq
      have hxb : b = x := (List.cons.inj hbx).1
      rw [if_neg (by rintro ⟨h | h, _⟩ <;> simp_all), hbx]
    · rfl
  · intro c hc
    rw [hds] at hc
    exact Option.some.inj hc ▸ hxb

/-- The digits of a zero-padded number end where no digit follows. -/
theorem takeWhile_hexPad (w n : Nat) {t : List UInt8} (ht : t.takeWhile isxdigit = []) :
    (hexPad w n ++ t).takeWhile isxdigit = hexPad w n := by
  rw [List.takeWhile_append_of_pos fun c hc => isxdigit_hexPad hc, ht, List.append_nil]

/-- A zero-padded number reads back, up to the first character that is no digit. -/
theorem strtoull16_hexPad {w n : Nat} {t : List UInt8} (hw : 1 < w) (hn : n < 16 ^ w)
    (hmax : n < 2 ^ 64) (ht : t.takeWhile isxdigit = []) :
    strtoull16 (hexPad w n ++ t) = (UInt64.ofNat n, t) := by
  have hval := hexNat_hexPad w n
  rw [Nat.mod_eq_of_lt hn] at hval
  obtain ⟨hspace, hsign, h0x, -⟩ := hexPad_bare (n := n) t hw
  have htake := takeWhile_hexPad w n ht
  have hdrop : (hexPad w n ++ t).dropWhile isxdigit = t := by
    have := List.takeWhile_append_dropWhile (p := isxdigit) (l := hexPad w n ++ t)
    rw [htake] at this
    exact List.append_cancel_left this
  have hne : hexPad w n ≠ [] := by
    intro h
    have hlen := length_hexPad w n
    rw [h, List.length_nil] at hlen
    omega
  simp only [strtoull16, hspace, hsign, h0x, htake, hdrop, hval]
  rw [if_neg hne, if_neg (Nat.not_le.mpr hmax)]
  simp

/-! ## Reading a text file -/

/-- The next piece of at most `n` characters, up to and including a newline,
and what follows it. -/
def fgets : Nat → List UInt8 → List UInt8 × List UInt8
  | 0, s => ([], s)
  | _ + 1, [] => ([], [])
  | n + 1, c :: s => if c = chLF then ([c], s) else (c :: (fgets n s).1, (fgets n s).2)

/-- All pieces of a file, read with at most `fuel` calls. -/
def fgetsFrom (n : Nat) : Nat → List UInt8 → List (List UInt8)
  | 0, _ => []
  | fuel + 1, s => if s = [] then [] else (fgets n s).1 :: fgetsFrom n fuel (fgets n s).2

/-- All pieces of a file that is read with a buffer of `n + 1` characters. -/
def fgetsAll (n : Nat) (s : List UInt8) : List (List UInt8) := fgetsFrom n s.length s

theorem fgets_append (n : Nat) (s : List UInt8) : (fgets n s).1 ++ (fgets n s).2 = s := by
  induction s generalizing n with
  | nil => cases n <;> rfl
  | cons c s ih =>
      cases n with
      | zero => rfl
      | succ n =>
          rw [fgets]
          split
          · rfl
          · rw [List.cons_append, ih n]

theorem length_fgets_lt {n : Nat} (hn : 0 < n) {s : List UInt8} (hs : s ≠ []) :
    (fgets n s).2.length < s.length := by
  have happ := congrArg List.length (fgets_append n s)
  rw [List.length_append] at happ
  have hpos : 0 < (fgets n s).1.length := by
    obtain ⟨n, rfl⟩ : ∃ m, n = m + 1 := ⟨n - 1, by omega⟩
    cases s with
    | nil => exact absurd rfl hs
    | cons c s =>
        rw [fgets]
        split <;> simp
  omega

/-- More calls than characters read nothing more. -/
theorem fgetsFrom_fuel {n : Nat} (hn : 0 < n) {fuel : Nat} {s : List UInt8}
    (h : s.length ≤ fuel) : fgetsFrom n fuel s = fgetsAll n s := by
  induction fuel using Nat.strongRecOn generalizing s with
  | ind fuel ih =>
      cases fuel with
      | zero =>
          have : s = [] := List.length_eq_zero_iff.mp (by omega)
          rw [this]
          rfl
      | succ fuel =>
          by_cases hs : s = []
          · rw [hs]
            rfl
          · have hlt := length_fgets_lt hn hs
            obtain ⟨k, hk⟩ : ∃ k, s.length = k + 1 := ⟨s.length - 1, by omega⟩
            rw [fgetsAll, hk, fgetsFrom, fgetsFrom, if_neg hs, if_neg hs,
              ih fuel (by omega) (by omega), ih k (by omega) (by omega)]

theorem fgetsAll_nil (n : Nat) : fgetsAll n [] = [] := rfl

theorem fgetsAll_cons {n : Nat} (hn : 0 < n) {s : List UInt8} (hs : s ≠ []) :
    fgetsAll n s = (fgets n s).1 :: fgetsAll n (fgets n s).2 := by
  have hlt := length_fgets_lt hn hs
  obtain ⟨k, hk⟩ : ∃ k, s.length = k + 1 := ⟨s.length - 1, by omega⟩
  rw [fgetsAll, hk, fgetsFrom, if_neg hs, fgetsFrom_fuel hn (by omega)]

theorem fgets_line {n : Nat} {l t : List UInt8} (hl : chLF ∉ l) (hlen : l.length < n) :
    fgets n (l ++ chLF :: t) = (l ++ [chLF], t) := by
  induction l generalizing n with
  | nil =>
      obtain ⟨n, rfl⟩ : ∃ m, n = m + 1 := ⟨n - 1, by omega⟩
      simp [fgets]
  | cons c l ih =>
      obtain ⟨n, rfl⟩ : ∃ m, n = m + 1 := ⟨n - 1, by omega⟩
      rw [List.length_cons] at hlen
      rw [List.cons_append, fgets, if_neg (List.ne_of_not_mem_cons hl).symm,
        ih (List.not_mem_of_not_mem_cons hl) (by omega)]
      rfl

theorem fgets_long {n : Nat} {l t : List UInt8} (hl : chLF ∉ l) (hlen : l.length = n) :
    fgets n (l ++ t) = (l, t) := by
  induction l generalizing n with
  | nil =>
      subst hlen
      rfl
  | cons c l ih =>
      subst hlen
      rw [List.cons_append, List.length_cons, fgets, if_neg (List.ne_of_not_mem_cons hl).symm,
        ih (List.not_mem_of_not_mem_cons hl) rfl]

/-- A line that fits, newline included, is one piece. -/
theorem fgetsAll_line {n : Nat} {l t : List UInt8} (hl : chLF ∉ l) (hlen : l.length < n) :
    fgetsAll n (l ++ chLF :: t) = (l ++ [chLF]) :: fgetsAll n t := by
  rw [fgetsAll_cons (by omega) (by simp), fgets_line hl hlen]

/-- The first `n` characters of a line that does not fit are one piece. -/
theorem fgetsAll_long {n : Nat} {l t : List UInt8} (hn : 0 < n) (hl : chLF ∉ l)
    (hlen : l.length = n) : fgetsAll n (l ++ t) = l :: fgetsAll n t := by
  rw [fgetsAll_cons hn (by
    intro h
    rw [List.append_eq_nil_iff] at h
    rw [h.1] at hlen
    simp at hlen
    omega), fgets_long hl hlen]

/-- A newline only ever ends a piece. -/
theorem not_mem_of_fgets {n : Nat} {s a b : List UInt8} {c : UInt8}
    (h : (fgets n s).1 = a ++ c :: b) : chLF ∉ a := by
  induction s generalizing n a with
  | nil => cases n <;> simp [fgets] at h
  | cons x s ih =>
      cases n with
      | zero => simp [fgets] at h
      | succ n =>
          rw [fgets] at h
          split at h
          · cases a with
            | nil => exact List.not_mem_nil
            | cons y a => simp at h
          · rename_i hx
            cases a with
            | nil => exact List.not_mem_nil
            | cons y a =>
                rw [List.cons_append, List.cons.injEq] at h
                rw [List.mem_cons, not_or]
                refine ⟨?_, ih h.2⟩
                rw [← h.1]
                exact Ne.symm hx

theorem mem_fgetsAll {n : Nat} (hn : 0 < n) {s p : List UInt8} (h : p ∈ fgetsAll n s) :
    ∃ t, p = (fgets n t).1 := by
  induction hk : s.length using Nat.strongRecOn generalizing s with
  | ind k ih =>
      by_cases hs : s = []
      · rw [hs, fgetsAll_nil] at h
        exact absurd h List.not_mem_nil
      · have hlt := length_fgets_lt hn hs
        rw [fgetsAll_cons hn hs] at h
        rcases List.mem_cons.mp h with rfl | h
        · exact ⟨s, rfl⟩
        · exact ih _ (by omega) h rfl

end Lib
