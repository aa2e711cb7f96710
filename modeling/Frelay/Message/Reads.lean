import Frelay.Lib.CStr
import Frelay.Message.Iterate

/-!
# Reading attribute values

Handlers get a pointer to the value of an attribute, and its length, which they mostly
ignore. A `Use` is one use of such a pointer, with the octets it looks at.

* `readsInside_iff` — uses that fit their attributes stay inside the message;
* `cstrAt_inside`, `ui64At_inside` — and do not depend on the octets behind it.
-/

namespace Frelay

open Lib

/-- A use of the pointer to the value of `a`. -/
inductive Use where
  /-- A 64-bit number is read. -/
  | word (a : AttrRef)
  /-- A string function looks at `n` octets. -/
  | str (a : AttrRef) (n : Nat)
  /-- The octets of the attribute are copied. -/
  | blob (a : AttrRef)
  deriving DecidableEq, Repr

/-- The attribute that is used. -/
def Use.attr : Use → AttrRef
  | .word a => a
  | .str a _ => a
  | .blob a => a

/-- The octets looked at. -/
def Use.octets : Use → Span
  | .word a => ⟨a.av, 8⟩
  | .str a n => ⟨a.av, n⟩
  | .blob a => a.value

/-- The attribute has what it is used as: the octets of a number, a terminated string. -/
def Use.Proper (m : Mbuf) : Use → Prop
  | .word a => 8 ≤ a.al
  | .str a _ => 0 ∈ blobAt m a
  | .blob _ => True

instance Use.decidableProper (m : Mbuf) (u : Use) : Decidable (u.Proper m) :=
  match u with
  | .word a => inferInstanceAs (Decidable (8 ≤ a.al))
  | .str a _ => inferInstanceAs (Decidable (0 ∈ blobAt m a))
  | .blob _ => inferInstanceAs (Decidable True)

/-- A string function looks at a string as far as its terminator; `beyond` lies behind
the message. -/
def Use.ToTheEnd (m : Mbuf) (beyond : Bytes) : Use → Prop
  | .word _ | .blob _ => True
  | .str a n => n ≤ (cstrAt m beyond a.av).length + 1

/-- The uses read what the attributes have, and no octet outside of the message. -/
def ReadsInside (m : Mbuf) (us : List Use) : Prop :=
  ∀ u ∈ us, u.Proper m ∧ u.octets.stop ≤ m.bsize

instance (m : Mbuf) (us : List Use) : Decidable (ReadsInside m us) :=
  inferInstanceAs (Decidable (∀ u ∈ us, u.Proper m ∧ u.octets.stop ≤ m.bsize))

/-- The next attribute, if it is of the given type. -/
def nextOf (m : Mbuf) (t : MsgAttrib) : Option AttrRef :=
  match mbufGetnextattrib m with
  | some (a, _) => if a.at' = t.code then some a else none
  | none => none

theorem nextOf_eq_some {m : Mbuf} {t : MsgAttrib} {a : AttrRef} (h : nextOf m t = some a) :
    ∃ m', mbufGetnextattrib m = some (a, m') ∧ a.at' = t.code := by
  unfold nextOf at h
  split at h
  · rename_i b m' hnext
    split at h
    · cases h
      exact ⟨m', hnext, ‹_›⟩
    · cases h
  · cases h

/-! ## Values inside the message -/

section Value

variable {m : Mbuf} {a : AttrRef}

/-- The octets at a value are those of the value and those behind it. -/
theorem drop_eq_blob (m : Mbuf) (a : AttrRef) (beyond : Bytes) :
    m.b.drop a.av ++ beyond = blobAt m a ++ ((m.b.drop a.av).drop a.al ++ beyond) := by
  rw [← List.append_assoc, blobAt, peek, List.take_append_drop]

theorem length_blobAt (h : a.value.stop ≤ m.bsize) : (blobAt m a).length = a.al := by
  have hstop : a.av + a.al ≤ m.b.length := h
  rw [blobAt, peek, List.length_take, List.length_drop]
  omega

/-- A string that ends inside its attribute. -/
theorem cstrAt_inside (h : 0 ∈ blobAt m a) (beyond : Bytes) :
    cstrAt m beyond a.av = (blobAt m a).takeWhile (· ≠ 0) ∧
      (cstrAt m beyond a.av).length < (blobAt m a).length := by
  have hcut := takeWhile_ne_of_mem h ((m.b.drop a.av).drop a.al ++ beyond)
  rw [cstrAt, drop_eq_blob, hcut.1]
  exact ⟨rfl, hcut.2⟩

/-- A number that has all its octets. -/
theorem ui64At_inside (hstop : a.value.stop ≤ m.bsize) (h : 8 ≤ a.al) (beyond : Bytes) :
    ui64At m beyond a.av = rd64 ((blobAt m a).take 8) := by
  have hlen : 8 ≤ (blobAt m a).length := by
    rw [length_blobAt hstop]
    exact h
  rw [ui64At, drop_eq_blob, List.append_assoc, List.take_append_of_le_length hlen]

/-- What is used properly lies in the message. -/
theorem Use.Proper.inside {u : Use} {beyond : Bytes} (h : u.Proper m)
    (hstop : u.attr.value.stop ≤ m.bsize) (hend : u.ToTheEnd m beyond) :
    u.octets.stop ≤ m.bsize := by
  cases u with
  | word a =>
      have hlong : 8 ≤ a.al := h
      have hstop : a.av + a.al ≤ m.bsize := hstop
      show a.av + 8 ≤ m.bsize
      omega
  | str a n =>
      have hend : n ≤ (cstrAt m beyond a.av).length + 1 := hend
      have hlt := (cstrAt_inside h beyond).2
      have hlen : (blobAt m a).length = a.al := length_blobAt hstop
      have hstop : a.av + a.al ≤ m.bsize := hstop
      show a.av + n ≤ m.bsize
      omega
  | blob a => exact hstop

end Value

/-! ## Lists of uses -/

theorem readsInside_nil (m : Mbuf) : ReadsInside m [] := nofun

theorem readsInside_append {m : Mbuf} {us vs : List Use} :
    ReadsInside m (us ++ vs) ↔ ReadsInside m us ∧ ReadsInside m vs := List.forall_mem_append

theorem readsInside_cons {m : Mbuf} {u : Use} {us : List Use} :
    ReadsInside m (u :: us) ↔ ReadsInside m [u] ∧ ReadsInside m us :=
  @readsInside_append m [u] us

/-- A number is read inside exactly when the attribute has its octets. -/
theorem readsInside_word {m : Mbuf} {a : AttrRef} (h : a.value.stop ≤ m.bsize) :
    ReadsInside m [.word a] ↔ 8 ≤ a.al := by
  refine ⟨fun hall => (hall _ List.mem_cons_self).1, fun hlong u hu => ?_⟩
  rw [List.mem_singleton.mp hu]
  exact ⟨hlong, Use.Proper.inside (u := .word a) hlong h (show Use.ToTheEnd m [] _ from trivial)⟩

/-- A string is exactly when it ends there. -/
theorem readsInside_str {m : Mbuf} {a : AttrRef} {n : Nat} {beyond : Bytes}
    (h : a.value.stop ≤ m.bsize) (hn : n ≤ (cstrAt m beyond a.av).length + 1) :
    ReadsInside m [.str a n] ↔ 0 ∈ blobAt m a := by
  refine ⟨fun hall => (hall _ List.mem_cons_self).1, fun hzero u hu => ?_⟩
  rw [List.mem_singleton.mp hu]
  exact ⟨hzero, Use.Proper.inside (u := .str a n) hzero h hn⟩

theorem readsInside_blob {m : Mbuf} {a : AttrRef} (h : a.value.stop ≤ m.bsize) :
    ReadsInside m [.blob a] := by
  intro u hu
  rw [List.mem_singleton.mp hu]
  exact ⟨trivial, h⟩

/-- **Proper uses stay inside.** -/
theorem readsInside_iff {m : Mbuf} {beyond : Bytes} {us : List Use}
    (hus : ∀ u ∈ us, u.attr.value.stop ≤ m.bsize ∧ u.ToTheEnd m beyond) :
    ReadsInside m us ↔ ∀ u ∈ us, u.Proper m :=
  ⟨fun h u hu => (h u hu).1, fun h u hu => ⟨h u hu, (h u hu).inside (hus u hu).1 (hus u hu).2⟩⟩

end Frelay
