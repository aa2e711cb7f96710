import Frelay.Client.Itostr
import Frelay.Client.Remove

/-!
# Transfer ids as text

`transfer_itostr` prints the type and the two ids of a transfer. The user types them in again,
for `transfer_strtoi` in `accept` and for `transfer_remove` in `remove`, which read them in
two different ways.

* `scan_strtoi`, `removeMask_idText` — both read what was printed;
* `ids_round_trip` — and so does what the user copies from a line on the screen.
-/

namespace Frelay

open Lib

/-! ## Reading -/

/-- The variables of `transfer_strtoi`. -/
structure IdVars where
  t : UInt8
  r : UInt64
  o : UInt64

/-- One of them. -/
inductive IdVar where
  | t | r | o

/-- What has been converted is stored one after the other, also when the format fails later. -/
def IdVars.store : IdVars → List IdVar → List ScanVal → IdVars
  | v, .t :: xs, .char c :: vals => store { v with t := c } xs vals
  | v, .r :: xs, .num n :: vals => store { v with r := n } xs vals
  | v, .o :: xs, .num n :: vals => store { v with o := n } xs vals
  | v, _, _ => v

/-- The three formats of `transfer_strtoi`. -/
def idFormat3 : List ScanDir :=
  [.space, .char, .lit chComma, .hex, .lit chComma, .hex, .space]

def idFormat2 : List ScanDir := [.space, .hex, .lit chComma, .hex, .space]

def idFormat1 : List ScanDir := [.space, .hex, .space]

/-- What `transfer_strtoi` returns, and what the pointers point to then. A null pointer
is `none`. -/
structure StrtoiRes where
  n : Int
  ptype : Option TransferType
  prid : Option UInt64
  poid : Option UInt64
  deriving DecidableEq

/-- The end of `transfer_strtoi`, when `n` values have been read. -/
def StrtoiRes.store (p : StrtoiRes) (n : Int) (v : IdVars) : StrtoiRes :=
  let ids := { p with n := n, prid := p.prid.map fun _ => v.r, poid := p.poid.map fun _ => v.o }
  if n = 3 ∧ p.ptype.isSome then
    match maskType (toupper v.t) with
    | some type => { ids with ptype := some type }
    | none => { p with n := -1 }
  else ids

/-- `transfer_strtoi`. -/
def transferStrtoi (s : Bytes) (ptype : Option TransferType) (prid poid : Option UInt64) :
    StrtoiRes :=
  let p : StrtoiRes := { n := -1, ptype := ptype, prid := prid, poid := poid }
  let v : IdVars := { t := 0, r := 0, o := 0 }
  let v := v.store [.t, .r, .o] (scan idFormat3 s)
  if (scan idFormat3 s).length = 3 then p.store 3 v
  else
    let v := v.store [.r, .o] (scan idFormat2 s)
    if (scan idFormat2 s).length = 2 then p.store 2 v
    else
      let v := v.store [.o] (scan idFormat1 s)
      if (scan idFormat1 s).length = 1 then p.store 1 v else p

/-! ## What is printed -/

/-- The letter of a type. -/
def typeLetter : TransferType → UInt8
  | .offer => 0x4f
  | .download => 0x44

/-- The text of `%i`. -/
def idText (t : Transfer) : Bytes :=
  typeLetter t.type :: chComma :: (hexPad 16 t.rid.toNat ++ chComma :: hexPad 16 t.oid.toNat)

theorem itostrDirective_id (env : ItostrEnv) (t : Transfer) :
    itostrDirective env t 0x69 = idText t := by
  have hchar : Char.ofUInt8 0x69 = 'i' := by decide
  unfold itostrDirective
  rw [hchar]
  unfold idText
  cases t.type <;> simp [typeLetter, ascii, chComma]

theorem length_idText (t : Transfer) : (idText t).length = 35 := by
  simp [idText]

/-- There is no null in it. -/
theorem zero_not_mem_idText (t : Transfer) : 0 ∉ idText t := by
  have hhex : ∀ w n, (0 : UInt8) ∉ hexPad w n := fun w n h => absurd (isxdigit_hexPad h) (by decide)
  have hletter : (0 : UInt8) ≠ typeLetter t.type := by cases t.type <;> decide
  have hcomma : (0 : UInt8) ≠ chComma := by decide
  simp only [idText, List.mem_cons, List.mem_append, not_or]
  exact ⟨hletter, hcomma, hhex _ _, hcomma, hhex _ _⟩

/-- In a buffer that is large enough, the string is the whole text. -/
theorem itostr_id (env : ItostrEnv) (t : Transfer) {buf : Bytes} (hlen : 36 ≤ buf.length)
    (hsize : buf.length < 2 ^ 64) (beyond : Bytes) :
    ∃ buf', transferItostr env buf (some (ascii "%i")) beyond t = some buf' ∧
      buf'.takeWhile (· ≠ 0) = idText t := by
  have htexts : itostrTexts env t (itostrFormat (some (ascii "%i")) ++ 0 :: beyond) = [idText t] := by
    rw [← itostrDirective_id env t]
    show itostrTexts env t (0x25 :: 0x69 :: 0 :: beyond) = _
    rw [itostrTexts_directive, itostrTexts_end]
  have hprint := @printAt_room buf (idText t) 0 (by omega) hsize
  have htake : (idText t).take (buf.length - 0 - 1) = idText t :=
    List.take_of_length_le (by rw [length_idText]; omega)
  rw [htake] at hprint
  refine ⟨poke buf 0 (idText t ++ [0]), ?_, ?_⟩
  · unfold transferItostr printAll
    rw [htexts, List.foldlM_cons]
    show Option.map Prod.fst (printAt (buf, ((0 : Nat) : Int)) (idText t) >>= fun st => pure st) = _
    rw [hprint]
    rfl
  · rw [poke, List.take_zero, List.nil_append, List.append_assoc, List.singleton_append]
    exact takeWhile_ne_append (zero_not_mem_idText t)

/-! ## Reading what was printed -/

section Reading

variable (t : Transfer)

theorem word_lt (n : UInt64) : n.toNat < 16 ^ 16 ∧ n.toNat < 2 ^ 64 := by
  have := n.toNat_lt
  omega

/-- The letter of a type is no white space. -/
theorem typeLetter_plain (type : TransferType) : isspace (typeLetter type) = false ∧
    maskType (toupper (typeLetter type)) = some type ∧ (toupper (typeLetter type) = 0x44 ∨
      toupper (typeLetter type) = 0x4f) := by
  cases type <;> decide

/-- **`transfer_strtoi` reads what was printed**: its first format takes all of it. -/
theorem scan_strtoi : scan idFormat3 (idText t) =
    [.char (typeLetter t.type), .num t.rid, .num t.oid] := by
  have hcomma : (chComma :: hexPad 16 t.oid.toNat).takeWhile isxdigit = [] := by
    rw [List.takeWhile_cons, if_neg (by decide)]
  obtain ⟨hr, hr'⟩ := word_lt t.rid
  obtain ⟨ho, ho'⟩ := word_lt t.oid
  have hlast := @scan_hex [.space] 16 t.oid.toNat [] (by decide) ho ho' rfl
  rw [List.append_nil] at hlast
  unfold idFormat3 idText
  rw [scan_space (typeLetter_plain t.type).1, scan_char, scan_lit,
    scan_hex (by decide) hr hr' hcomma, scan_lit, hlast, UInt64.ofNat_toNat, UInt64.ofNat_toNat]
  rfl

/-- The ids are a run of sixteen characters each. -/
theorem scan_mask : scan maskFormat (idText t) =
    [.char (typeLetter t.type), .str (hexPad 16 t.rid.toNat), .str (hexPad 16 t.oid.toNat)] := by
  have hset : ∀ n, ∀ c ∈ hexPad 16 n, isMaskChar c = true := by
    intro n c hc
    rw [isMaskChar, isxdigit_hexPad hc, Bool.or_true]
  have hne : ∀ n, hexPad 16 n ≠ [] := by
    intro n h
    have hlen := length_hexPad 16 n
    rw [h] at hlen
    cases hlen
  have hlast := @scan_set [.space] 16 isMaskChar (hexPad 16 t.oid.toNat) [] (hset _)
    (length_hexPad 16 _) (hne _)
  rw [List.append_nil] at hlast
  unfold maskFormat idText
  rw [scan_space (typeLetter_plain t.type).1, scan_char, scan_lit,
    scan_set (hset _) (length_hexPad 16 _) (hne _), scan_lit, hlast]
  rfl

/-- An id of sixteen digits is no asterisk, and stands for itself. -/
theorem maskId_hexPad (n : UInt64) : chAsterisk ∉ hexPad 16 n.toNat ∧
    maskId (hexPad 16 n.toNat) = some n := by
  have hnot : chAsterisk ∉ hexPad 16 n.toNat := fun h => absurd (isxdigit_hexPad h) (by decide)
  obtain ⟨hn, hn'⟩ := word_lt n
  have hval := strtoull16_hexPad (t := []) (by decide : 1 < 16) hn hn' rfl
  rw [List.append_nil, UInt64.ofNat_toNat] at hval
  refine ⟨hnot, ?_⟩
  rw [maskId, if_neg, hval]
  exact fun h => hnot (List.mem_of_head? h)

/-- **`transfer_remove` reads what was printed**, as a mask without an asterisk. -/
theorem removeMask_idText : removeMask (idText t) =
    some { type := some t.type, rid := some t.rid, oid := some t.oid } := by
  obtain ⟨-, htype, hletter⟩ := typeLetter_plain t.type
  obtain ⟨hrid, hrid'⟩ := maskId_hexPad t.rid
  obtain ⟨hoid, hoid'⟩ := maskId_hexPad t.oid
  unfold removeMask
  rw [scan_mask]
  dsimp only
  rw [if_neg, htype, hrid', hoid']
  rintro (⟨-, ho, hd⟩ | ⟨h, -⟩ | ⟨h, -⟩)
  · rcases hletter with h | h
    · exact hd h.symm
    · exact ho h.symm
  · exact hrid h
  · exact hoid h

end Reading

/-- The entry has this type and these ids. -/
def Transfer.SameIds (t u : Transfer) : Prop := t.type = u.type ∧ t.rid = u.rid ∧ t.oid = u.oid

instance (t u : Transfer) : Decidable (t.SameIds u) := inferInstanceAs (Decidable (_ ∧ _))

/-- **What is printed for a transfer stands for it**: read back it is its type and its ids,
and as a mask it selects the entries that have them. -/
theorem ids_round_trip (env : ItostrEnv) (t : Transfer) {buf : Bytes} (hlen : 36 ≤ buf.length)
    (hsize : buf.length < 2 ^ 64) (beyond : Bytes) :
    ∃ buf', transferItostr env buf (some (ascii "%i")) beyond t = some buf' ∧
      (∀ type rid oid, transferStrtoi (buf'.takeWhile (· ≠ 0)) (some type) (some rid) (some oid) =
        { n := 3, ptype := some t.type, prid := some t.rid, poid := some t.oid }) ∧
      ∀ k ts, (transferRemoveStr (buf'.takeWhile (· ≠ 0)) k ts).2.1 =
          (ts.map fun u => if t.SameIds u then u.invalid else u) ∧
        (transferRemoveStr (buf'.takeWhile (· ≠ 0)) k ts).2.2 =
          (ts.filter fun u => t.SameIds u).length := by
  obtain ⟨buf', hprint, htext⟩ := itostr_id env t hlen hsize beyond
  refine ⟨buf', hprint, ?_, ?_⟩
  · intro type rid oid
    rw [htext]
    unfold transferStrtoi
    rw [scan_strtoi]
    simp only [IdVars.store, List.length_cons, List.length_nil, StrtoiRes.store,
      (typeLetter_plain t.type).2.1]
    rfl
  · intro k ts
    rw [htext]
    have hsel : ∀ u, RemoveMask.selects
        { type := some t.type, rid := some t.rid, oid := some t.oid } u = decide (t.SameIds u) := by
      intro u
      rw [Bool.eq_iff_iff, decide_eq_true_eq]
      simp only [RemoveMask.selects, Option.all_some, Bool.and_eq_true, beq_iff_eq,
        Transfer.SameIds, and_assoc]
    obtain ⟨hlist, hcount⟩ := removeStr_spec (removeMask_idText t) k ts
    refine ⟨?_, ?_⟩
    · rw [hlist]
      refine List.map_congr_left fun u _ => ?_
      simp only [hsel, decide_eq_true_eq]
    · rw [hcount, List.filter_congr fun u _ => hsel u]

theorem ids_round_trip_download :
    (36 ≤ (List.replicate 64 (7 : UInt8)).length ∧ (List.replicate 64 (7 : UInt8)).length < 2 ^ 64) ∧
      ∃ buf', transferItostr ⟨1, fun _ => []⟩ (List.replicate 64 7) (some (ascii "%i")) []
          (demoOffered (ascii "a")) = some buf' ∧
        (∀ type rid oid, transferStrtoi (buf'.takeWhile (· ≠ 0)) (some type) (some rid) (some oid) =
          { n := 3, ptype := some .download, prid := some 5, poid := some 6 }) ∧
        ∀ k ts, (transferRemoveStr (buf'.takeWhile (· ≠ 0)) k ts).2.1 =
            (ts.map fun u => if (demoOffered (ascii "a")).SameIds u then u.invalid else u) ∧
          (transferRemoveStr (buf'.takeWhile (· ≠ 0)) k ts).2.2 =
            (ts.filter fun u => (demoOffered (ascii "a")).SameIds u).length :=
  ⟨by decide, ids_round_trip _ (demoOffered (ascii "a")) (by decide) (by decide) []⟩

end Frelay
