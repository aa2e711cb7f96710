import Frelay.Userdb.Store

/-!
# Writing the user database and reading it back

`udb_save` prints one unescaped line per entry; `udb_load` reads pieces of at
most 15999 characters and ignores what does not parse. Which entries survive is
therefore a property of each entry alone:

* `Storable` — the entries that come back from the file unchanged;
* `load_storable` — a list of storable entries comes back in reverse;
* `load_long` — an entry whose line is too long comes back with a shorter key;
* `mem_udbInit` — nothing read from any file has a line break in its name or key;
* `restart_sameContent_iff` — a restart preserves the content of the database
  exactly when every entry is storable.
-/

namespace Frelay

open Lib

/-! ## One line -/

/-- An entry that its line in the file represents faithfully. -/
structure Storable (u : User) : Prop where
  id_ne_zero : u.id ≠ 0
  name_lf : chLF ∉ u.name
  key_lf : chLF ∉ u.key
  key_cr : chCR ∉ u.key
  fits : u.name.length + u.key.length ≤ 15981

instance (u : User) : Decidable (Storable u) :=
  decidable_of_iff (u.id ≠ 0 ∧ chLF ∉ u.name ∧ chLF ∉ u.key ∧ chCR ∉ u.key ∧
      u.name.length + u.key.length ≤ 15981)
    ⟨fun h => ⟨h.1, h.2.1, h.2.2.1, h.2.2.2.1, h.2.2.2.2⟩,
      fun h => ⟨h.id_ne_zero, h.name_lf, h.key_lf, h.key_cr, h.fits⟩⟩

/-- The strings of an entry are C strings. -/
structure User.CStrings (u : User) : Prop where
  name : 0 ∉ u.name
  key : 0 ∉ u.key

/-- Without line breaks, the check looks at the whole string. -/
theorem nameisvalid_of_not_mem {s : Bytes} (h : chLF ∉ s) : udbNameisvalid s = unameRe s := by
  rw [udbNameisvalid, List.splitOn_eq_singleton h, List.any_cons, List.any_nil, Bool.or_false]

/-- A valid name without a newline is a plain word. -/
theorem valid_word {s : Bytes} (hv : udbNameisvalid s = true) (hlf : chLF ∉ s) :
    s.length ≤ 31 ∧ DELIM ∉ s ∧ 0 ∉ s := by
  have hall : s.length ≤ 31 ∧ ∀ c ∈ s, isUnameChar c = true := by
    rw [nameisvalid_of_not_mem hlf] at hv
    simp only [unameRe, Bool.and_eq_true, decide_eq_true_eq, List.all_eq_true] at hv
    exact ⟨hv.1.2, hv.2⟩
  refine ⟨hall.1, ?_, ?_⟩
  · intro h
    exact absurd (hall.2 _ h) (by decide)
  · intro h
    exact absurd (hall.2 _ h) (by decide)

theorem cutKey_eq {k tail : Bytes} (hlf : chLF ∉ k) (hcr : chCR ∉ k)
    (ht : tail = [] ∨ tail = [chLF]) : cutKey (k ++ tail) = k := by
  rcases ht with rfl | rfl
  · rw [List.append_nil, cutKey, if_neg hcr, takeWhile_ne_eq_self hlf]
  · have hcr' : chCR ∉ k ++ [chLF] := by
      rw [List.mem_append, not_or]
      exact ⟨hcr, by decide⟩
    rw [cutKey, if_neg hcr', takeWhile_ne_append hlf]

/-- The fields of a line, up to its newline or the end of the piece. -/
theorem parseLine_fields {id : UInt64} {name k : Bytes} (tail : Bytes) (hid : id ≠ 0)
    (hname : DELIM ∉ name ∧ 0 ∉ name) (hk : chLF ∉ k ∧ chCR ∉ k ∧ 0 ∉ k)
    (ht : tail = [] ∨ tail = [chLF]) :
    parseLine (hexPad 16 id.toNat ++ DELIM :: (name ++ DELIM :: (k ++ tail))) =
      some { id := id, name := name, key := k } := by
  have hid64 : id.toNat < 2 ^ 64 := id.toNat_lt
  have hnul : 0 ∉ hexPad 16 id.toNat ++ DELIM :: (name ++ DELIM :: (k ++ tail)) := by
    have hhex : (0 : UInt8) ∉ hexPad 16 id.toNat := by
      intro h
      exact absurd (isxdigit_hexPad h) (by decide)
    have htail : (0 : UInt8) ∉ tail := by
      rcases ht with rfl | rfl <;> decide
    have hdelim : (0 : UInt8) ≠ DELIM := by decide
    simp only [List.mem_append, List.mem_cons, not_or]
    exact ⟨hhex, hdelim, hname.2, hdelim, hk.2.2, htail⟩
  have hnum : strtoull16 (hexPad 16 id.toNat ++ DELIM :: (name ++ DELIM :: (k ++ tail))) =
      (id, DELIM :: (name ++ DELIM :: (k ++ tail))) := by
    rw [strtoull16_hexPad (by decide) (by simpa using hid64) hid64 (by
      rw [List.takeWhile_cons, if_neg (by decide)]), UInt64.ofNat_toNat]
  rw [parseLine, takeWhile_ne_eq_self hnul, hnum]
  simp only
  rw [if_neg (by simp [hid]), strchr_append hname.1, Option.map_some, cutKey_eq hk.1 hk.2.1 ht]

/-- The line of an entry without its newline. -/
private def lineBody (u : User) : Bytes :=
  hexPad 16 u.id.toNat ++ DELIM :: (u.name ++ DELIM :: u.key)

private theorem printLine_eq (u : User) : printLine u = lineBody u ++ [chLF] := by
  simp [printLine, lineBody]

private theorem length_lineBody (u : User) :
    (lineBody u).length = 18 + u.name.length + u.key.length := by
  simp [lineBody]
  omega

private theorem lineBody_lf {u : User} (hn : chLF ∉ u.name) (hk : chLF ∉ u.key) :
    chLF ∉ lineBody u := by
  have hhex : chLF ∉ hexPad 16 u.id.toNat := by
    intro h
    exact absurd (isxdigit_hexPad h) (by decide)
  have hdelim : chLF ≠ DELIM := by decide
  simp only [lineBody, List.mem_append, List.mem_cons, not_or]
  exact ⟨hhex, hdelim, hn, hdelim, hk⟩

private theorem parseLine_lineBody {u : User} (hid : u.id ≠ 0) (hv : udbNameisvalid u.name = true)
    (hn : chLF ∉ u.name) (hk : chLF ∉ u.key) (hcr : chCR ∉ u.key) (hs : u.CStrings) {t : Bytes}
    (ht : t = [] ∨ t = [chLF]) : parseLine (lineBody u ++ t) = some u := by
  have hfields := parseLine_fields t hid
    ⟨(valid_word hv hn).2.1, hs.name⟩ ⟨hk, hcr, hs.key⟩ ht
  simpa [lineBody] using hfields

/-- What is left of an overlong line is no entry. -/
private theorem loadLine_lf (d : Udb) : loadLine d [chLF] = d := by
  have : parseLine [chLF] = none := by decide
  rw [loadLine, this]

/-- Reading the line of a storable entry adds just that entry. -/
theorem load_printLine {u : User} (h : Storable u) (hv : udbNameisvalid u.name = true)
    (hs : u.CStrings) (d : Udb) (t : Bytes) :
    (fgetsAll LINE_CHARS (printLine u ++ t)).foldl loadLine d =
      (fgetsAll LINE_CHARS t).foldl loadLine (udbAddentry_ d u.id u.name u.key).1 := by
  have hlf := lineBody_lf h.name_lf h.key_lf
  have hlen := length_lineBody u
  have hfits := h.fits
  rw [printLine_eq, List.append_assoc, List.singleton_append]
  by_cases hlt : (lineBody u).length < LINE_CHARS
  · have hparse := parseLine_lineBody h.id_ne_zero hv h.name_lf h.key_lf h.key_cr hs
      (t := [chLF]) (.inr rfl)
    rw [fgetsAll_line hlf hlt, List.foldl_cons, loadLine, hparse]
  · -- The line fills the buffer and its newline is read as a piece of its own.
    have hparse := parseLine_lineBody h.id_ne_zero hv h.name_lf h.key_lf h.key_cr hs
      (t := []) (.inl rfl)
    rw [List.append_nil] at hparse
    have hpiece : loadLine d (lineBody u) = (udbAddentry_ d u.id u.name u.key).1 := by
      rw [loadLine, hparse]
    have hnl : fgetsAll LINE_CHARS (chLF :: t) = [chLF] :: fgetsAll LINE_CHARS t :=
      fgetsAll_line (l := []) List.not_mem_nil (by decide)
    rw [fgetsAll_long (by decide) hlf (by unfold LINE_CHARS at hlt ⊢; omega), hnl,
      List.foldl_cons, List.foldl_cons, hpiece, loadLine_lf]

/-- Reading the first piece of a line that is too long adds the entry with a
shorter key. -/
theorem load_long {u : User} (hid : u.id ≠ 0) (hv : udbNameisvalid u.name = true)
    (hn : chLF ∉ u.name) (hk : chLF ∉ u.key) (hcr : chCR ∉ u.key) (hs : u.CStrings)
    (hlong : 15981 < u.name.length + u.key.length) (d : Udb) (t : Bytes) :
    ∃ k s, k ≠ u.key ∧ (fgetsAll LINE_CHARS (printLine u ++ t)).foldl loadLine d =
      (fgetsAll LINE_CHARS s).foldl loadLine (udbAddentry_ d u.id u.name k).1 := by
  have hname := (valid_word hv hn).1
  have htake : (u.key.take (15981 - u.name.length)).length = 15981 - u.name.length := by
    rw [List.length_take]
    omega
  have hsub : ∀ c, c ∈ u.key.take (15981 - u.name.length) → c ∈ u.key :=
    fun c hc => List.mem_of_mem_take hc
  let v : User := { u with key := u.key.take (15981 - u.name.length) }
  have hbody : (lineBody v).length = LINE_CHARS := by
    rw [length_lineBody, htake]
    unfold LINE_CHARS
    change 18 + u.name.length + _ = _
    omega
  have hlf : chLF ∉ lineBody v := lineBody_lf hn fun h => hk (hsub _ h)
  have hparse := parseLine_lineBody (u := v) hid hv hn (fun h => hk (hsub _ h))
    (fun h => hcr (hsub _ h)) ⟨hs.name, fun h => hs.key (hsub _ h)⟩ (t := []) (.inl rfl)
  have hsplit : printLine u ++ t =
      lineBody v ++ (u.key.drop (15981 - u.name.length) ++ (chLF :: t)) := by
    have hcat := List.take_append_drop (15981 - u.name.length) u.key
    calc printLine u ++ t
        = lineBody u ++ (chLF :: t) := by rw [printLine_eq, List.append_assoc]; rfl
      _ = hexPad 16 u.id.toNat ++ DELIM :: (u.name ++ DELIM :: (u.key ++ chLF :: t)) := by
          simp [lineBody]
      _ = hexPad 16 u.id.toNat ++ DELIM :: (u.name ++ DELIM :: (u.key.take (15981 - u.name.length)
            ++ (u.key.drop (15981 - u.name.length) ++ chLF :: t))) := by
          rw [← List.append_assoc (u.key.take _), hcat]
      _ = _ := by simp [lineBody, v]
  refine ⟨u.key.take (15981 - u.name.length),
    u.key.drop (15981 - u.name.length) ++ (chLF :: t), ?_, ?_⟩
  · intro he
    have := congrArg List.length he
    omega
  · rw [List.append_nil] at hparse
    rw [hsplit, fgetsAll_long (by decide) hlf hbody, List.foldl_cons, loadLine, hparse]

/-! ## The whole file -/

/-- Adding a nonzero id under a free valid name stores exactly that. -/
theorem addentry_of_free {d : Udb} {u : User} (hid : u.id ≠ 0)
    (hv : udbNameisvalid u.name = true) (hfree : ∀ w ∈ d.userdb, w.name ≠ u.name) :
    (udbAddentry_ d u.id u.name u.key).1.userdb = u :: d.userdb := by
  rcases addentry_cases d u.id u.name u.key with heq | ⟨p, hpid, hpn, hpk, -, -, heq⟩
  · have := (addentry_isSome u.id u.key).mpr ⟨hv, hfree⟩
    rw [heq] at this
    cases this
  · rw [if_pos hid] at hpid
    have hpu : p = u := by
      cases p
      cases u
      simp_all
    rw [heq, hpu]

/-- Loading never removes an entry. -/
theorem mem_foldl_loadLine {ls : List Bytes} {d : Udb} {u : User} (h : u ∈ d.userdb) :
    u ∈ (ls.foldl loadLine d).userdb := by
  induction ls generalizing d with
  | nil => exact h
  | cons l ls ih =>
      apply ih
      rcases loadLine_cases d l with heq | ⟨v, -, heq⟩
      · rw [heq]
        exact h
      · rw [heq]
        rcases addentry_cases d v.id v.name v.key with heq | ⟨p, -, -, -, -, -, heq⟩
        · rw [heq]
          exact h
        · rw [heq]
          exact List.mem_cons_of_mem _ h

/-- A list of storable entries comes back in reverse. -/
theorem load_storable {l : List User} {d : Udb} (hst : ∀ u ∈ l, Storable u)
    (hv : ∀ u ∈ l, udbNameisvalid u.name = true) (hs : ∀ u ∈ l, u.CStrings)
    (hnodup : (l.map User.name).Nodup) (hfree : ∀ u ∈ l, ∀ w ∈ d.userdb, w.name ≠ u.name) :
    ((fgetsAll LINE_CHARS (l.flatMap printLine)).foldl loadLine d).userdb =
      l.reverse ++ d.userdb := by
  induction l generalizing d with
  | nil => rfl
  | cons u l ih =>
      have hu := List.mem_cons_self (a := u) (l := l)
      have hadd := addentry_of_free (hst u hu).id_ne_zero (hv u hu) (hfree u hu)
      rw [List.map_cons, List.nodup_cons] at hnodup
      rw [List.flatMap_cons, load_printLine (hst u hu) (hv u hu) (hs u hu),
        ih (fun w hw => hst w (.tail _ hw)) (fun w hw => hv w (.tail _ hw))
          (fun w hw => hs w (.tail _ hw)) hnodup.2, hadd]
      · simp
      · intro w hw x hx
        rw [hadd] at hx
        rcases List.mem_cons.mp hx with rfl | hx
        · intro he
          exact hnodup.1 (he ▸ List.mem_map.mpr ⟨w, hw, rfl⟩)
        · exact hfree w (.tail _ hw) x hx

/-- If only the length stops some entry from being storable, the first such
entry comes back with another key. -/
theorem load_some_long {l : List User} {d : Udb}
    (hok : ∀ u ∈ l, u.id ≠ 0 ∧ chLF ∉ u.name ∧ chLF ∉ u.key ∧ chCR ∉ u.key)
    (hv : ∀ u ∈ l, udbNameisvalid u.name = true) (hs : ∀ u ∈ l, u.CStrings)
    (hnodup : (l.map User.name).Nodup) (hfree : ∀ u ∈ l, ∀ w ∈ d.userdb, w.name ≠ u.name)
    (hlong : ∃ u ∈ l, 15981 < u.name.length + u.key.length) :
    ∃ u ∈ l, ∃ k, k ≠ u.key ∧ { u with key := k } ∈
      ((fgetsAll LINE_CHARS (l.flatMap printLine)).foldl loadLine d).userdb := by
  induction l generalizing d with
  | nil =>
      obtain ⟨u, hu, -⟩ := hlong
      exact absurd hu List.not_mem_nil
  | cons u l ih =>
      have hu := List.mem_cons_self (a := u) (l := l)
      obtain ⟨hid, hn, hk, hcr⟩ := hok u hu
      rw [List.map_cons, List.nodup_cons] at hnodup
      rw [List.flatMap_cons]
      by_cases hlen : u.name.length + u.key.length ≤ 15981
      · have hst : Storable u := ⟨hid, hn, hk, hcr, hlen⟩
        have hadd := addentry_of_free hid (hv u hu) (hfree u hu)
        -- This entry is read back, so the long one comes later.
        have hrest : ∃ w ∈ l, 15981 < w.name.length + w.key.length := by
          obtain ⟨w, hw, hlw⟩ := hlong
          rcases List.mem_cons.mp hw with rfl | hw
          · omega
          · exact ⟨w, hw, hlw⟩
        rw [load_printLine hst (hv u hu) (hs u hu)]
        obtain ⟨w, hw, k, hkw, hmem⟩ := ih (fun w hw => hok w (.tail _ hw))
          (fun w hw => hv w (.tail _ hw)) (fun w hw => hs w (.tail _ hw)) hnodup.2 (by
            intro w hw x hx
            rw [hadd] at hx
            rcases List.mem_cons.mp hx with rfl | hx
            · intro he
              exact hnodup.1 (he ▸ List.mem_map.mpr ⟨w, hw, rfl⟩)
            · exact hfree w (.tail _ hw) x hx) hrest
        exact ⟨w, .tail _ hw, k, hkw, hmem⟩
      · obtain ⟨k, s, hkne, heq⟩ := load_long hid (hv u hu) hn hk hcr (hs u hu) (by omega) d
          (l.flatMap printLine)
        have hadd := addentry_of_free (u := { u with key := k }) hid (hv u hu) (hfree u hu)
        refine ⟨u, hu, k, hkne, ?_⟩
        rw [heq]
        apply mem_foldl_loadLine
        rw [hadd]
        exact List.mem_cons_self

/-! ## What a file can contain -/

theorem stripSign_suffix (s : Bytes) : (stripSign s).2 <:+ s := by
  unfold stripSign
  split
  · exact List.suffix_cons _ _
  · exact List.suffix_cons _ _
  · exact List.suffix_refl _

theorem strip0x_suffix (s : Bytes) : strip0x s <:+ s := by
  unfold strip0x
  split
  · split
    · exact (List.suffix_cons _ _).trans (List.suffix_cons _ _)
    · exact List.suffix_refl _
  · exact List.suffix_refl _

/-- `strtoull` stops somewhere in the string. -/
theorem strtoull16_suffix (s : Bytes) : (strtoull16 s).2 <:+ s := by
  simp only [strtoull16]
  split
  · exact List.suffix_refl _
  · exact (List.dropWhile_suffix _).trans ((strip0x_suffix _).trans
      ((stripSign_suffix _).trans (List.dropWhile_suffix _)))

/-- No entry parsed from a piece of a file contains a line break. -/
theorem parseLine_clean {n : Nat} {s : Bytes} {u : User} (h : parseLine (fgets n s).1 = some u) :
    u.id ≠ 0 ∧ chLF ∉ u.name ∧ chLF ∉ u.key ∧ chCR ∉ u.key ∧ u.CStrings := by
  -- The newline of a piece is its last character, hence also that of the C string.
  have hline : ∀ {a b : Bytes} {c : UInt8},
      ((fgets n s).1.takeWhile (· ≠ 0)) = a ++ c :: b → chLF ∉ a := by
    intro a b c hab
    obtain ⟨t, ht⟩ := List.takeWhile_prefix (p := fun x => decide (x ≠ 0)) (l := (fgets n s).1)
    rw [hab, List.append_assoc, List.cons_append] at ht
    exact not_mem_of_fgets ht.symm
  have hnul : (0 : UInt8) ∉ (fgets n s).1.takeWhile (· ≠ 0) := not_mem_takeWhile_ne 0 _
  unfold parseLine at h
  simp only at h
  split at h
  · rename_i id c rest hnum
    split at h
    · cases h
    · rename_i hc
      rw [not_or] at hc
      obtain ⟨⟨name, key⟩, hchr, hu⟩ := Option.map_eq_some_iff.mp h
      obtain ⟨rfl, hdelim⟩ := strchr_eq_some hchr
      obtain ⟨p, hp⟩ := strtoull16_suffix ((fgets n s).1.takeWhile (· ≠ 0))
      rw [hnum] at hp
      subst hu
      have hsplit : (fgets n s).1.takeWhile (· ≠ 0) = (p ++ c :: name) ++ DELIM :: key := by
        rw [← hp]
        simp
      have hpn := hline hsplit
      have hnulkey : (0 : UInt8) ∉ key := by
        intro hmem
        apply hnul
        rw [hsplit]
        simp [hmem]
      have hnulname : (0 : UInt8) ∉ name := by
        intro hmem
        apply hnul
        rw [hsplit]
        simp [hmem]
      have hsub : ∀ x, x ∈ cutKey key → x ∈ key := by
        intro x hx
        unfold cutKey at hx
        split at hx
        · exact (List.takeWhile_sublist _).subset hx
        · exact (List.takeWhile_sublist _).subset hx
      refine ⟨hc.1, ?_, ?_, ?_, ⟨hnulname, fun h => hnulkey (hsub _ h)⟩⟩
      · intro hmem
        apply hpn
        simp [hmem]
      · change chLF ∉ cutKey key
        unfold cutKey
        split
        · rename_i hcr
          -- What stands before a carriage return does not reach the end of the piece.
          obtain ⟨a, b, hab, hna⟩ := List.eq_append_cons_of_mem hcr
          have hsplit' : (fgets n s).1.takeWhile (· ≠ 0) =
              (p ++ c :: (name ++ DELIM :: a)) ++ chCR :: b := by
            rw [hsplit, hab]
            simp
          have hpa := hline hsplit'
          rw [hab, takeWhile_ne_append hna]
          intro hmem
          apply hpa
          simp [hmem]
        · exact not_mem_takeWhile_ne _ _
      · change chCR ∉ cutKey key
        unfold cutKey
        split
        · exact not_mem_takeWhile_ne _ _
        · rename_i hcr
          exact fun h => hcr ((List.takeWhile_sublist _).subset h)
  · cases h

/-- Loading adds nothing but entries parsed from pieces of the file. -/
theorem mem_udbLoad {e : FileEnv} {d : Udb} {u : User} (h : u ∈ (udbLoad e d).userdb) :
    u ∈ d.userdb ∨ ∃ s, parseLine (fgets LINE_CHARS s).1 = some u := by
  have hfold : ∀ (ls : List Bytes) (d : Udb), u ∈ (ls.foldl loadLine d).userdb →
      u ∈ d.userdb ∨ ∃ l ∈ ls, parseLine l = some u := by
    intro ls
    induction ls with
    | nil => exact fun d hu => .inl hu
    | cons l ls ih =>
        intro d hu
        rcases ih (loadLine d l) hu with hu | ⟨l', hl', hp⟩
        · rcases loadLine_cases d l with heq | ⟨v, hv, heq⟩
          · rw [heq] at hu
            exact .inl hu
          · rw [heq] at hu
            rcases addentry_cases d v.id v.name v.key with heq' | ⟨p, hpid, hpn, hpk, -, -, heq'⟩
            · rw [heq'] at hu
              exact .inl hu
            · rw [heq'] at hu
              rcases List.mem_cons.mp hu with rfl | hu
              · rw [if_pos (parseLine_id hv)] at hpid
                have huv : u = v := by
                  cases u
                  cases v
                  simp_all
                exact .inr ⟨l, List.mem_cons_self, huv ▸ hv⟩
              · exact .inl hu
        · exact .inr ⟨l', List.mem_cons_of_mem _ hl', hp⟩
  unfold udbLoad at h
  split at h
  · exact .inl h
  · split at h
    · split at h
      · rcases hfold _ d h with hu | ⟨l, hl, hp⟩
        · exact .inl hu
        · obtain ⟨s, rfl⟩ := mem_fgetsAll (by decide) hl
          exact .inr ⟨s, hp⟩
      · exact .inl h
    · exact .inl h

/-- Whatever the file contains, the entries of a fresh process have no line breaks. -/
theorem mem_udbInit {e : FileEnv} {file : Option Bytes} {u : User}
    (h : u ∈ (udbInit e file).userdb) :
    u.id ≠ 0 ∧ chLF ∉ u.name ∧ chLF ∉ u.key ∧ chCR ∉ u.key ∧ u.CStrings := by
  rcases mem_udbLoad h with h | ⟨s, hs⟩
  · exact absurd h List.not_mem_nil
  · exact parseLine_clean hs

/-! ## Histories of a database -/

/-- A C string. -/
abbrev CStr := { s : Bytes // 0 ∉ s }

/-- The calls into `srvuserdb.c`, each with what its file accesses meet. A
REGISTER request drops the name and adds it again, a DROP request drops it. -/
inductive UdbOp where
  | lookupname (e : FileEnv) (s : CStr)
  | addentry (e : FileEnv) (id : UInt64) (name key : CStr)
  | dropentry (e : FileEnv) (name : CStr)
  | gettempid (e : FileEnv)

/-- The database after a call. -/
def UdbOp.after (d : Udb) : UdbOp → Udb
  | .lookupname e s => (udbLookupname e d s.1).1
  | .addentry e id name key => (udbAddentry e d id name.1 key.1).1
  | .dropentry e name => (udbDropentry e d name.1).1
  | .gettempid e => (udbGettempid e d).1

/-- The database after a history of calls. -/
def udbRun (d : Udb) (ops : List UdbOp) : Udb := ops.foldl UdbOp.after d

/-- What every history keeps: unique valid names, and C strings everywhere. -/
structure Udb.Sane (d : Udb) : Prop where
  wf : d.WellFormed
  cstr : ∀ u ∈ d.userdb, u.CStrings

theorem sane_init (e : FileEnv) (file : Option Bytes) : (udbInit e file).Sane :=
  ⟨wellFormed_init e file, fun _ hu => (mem_udbInit hu).2.2.2.2⟩

theorem Udb.Sane.load {d : Udb} (h : d.Sane) (e : FileEnv) : (udbLoad e d).Sane := by
  refine ⟨h.wf.load e, ?_⟩
  intro u hu
  rcases mem_udbLoad hu with hu | ⟨s, hs⟩
  · exact h.cstr u hu
  · exact (parseLine_clean hs).2.2.2.2

theorem Udb.Sane.of_sublist {d d' : Udb} (h : d.Sane) (hsub : d'.userdb.Sublist d.userdb) :
    d'.Sane :=
  ⟨h.wf.of_sublist hsub, fun u hu => h.cstr u (hsub.subset hu)⟩

theorem Udb.Sane.after {d : Udb} (h : d.Sane) (op : UdbOp) : (op.after d).Sane := by
  cases op with
  | lookupname e s => exact h.load e
  | addentry e id name key =>
      refine ⟨h.wf.addentry e id name.1 key.1, ?_⟩
      intro u hu
      have hload := h.load e
      simp only [UdbOp.after, udbAddentry, udbSave_userdb] at hu
      rcases addentry_cases (udbLoad e d) id name.1 key.1 with heq | ⟨p, -, hpn, hpk, -, -, heq⟩
      · rw [heq] at hu
        exact hload.cstr u hu
      · rw [heq] at hu
        rcases List.mem_cons.mp hu with rfl | hu
        · exact ⟨hpn ▸ name.2, hpk ▸ key.2⟩
        · exact hload.cstr u hu
  | dropentry e name =>
      apply (h.load e).of_sublist
      simp only [UdbOp.after, udbDropentry]
      split
      · rw [udbSave_userdb]
        exact dropentry_sublist _ _
      · exact dropentry_sublist _ _
  | gettempid e => exact (h.load e).of_sublist (List.Sublist.refl _)

theorem Udb.Sane.run {d : Udb} (h : d.Sane) (ops : List UdbOp) : (udbRun d ops).Sane := by
  induction ops generalizing d with
  | nil => exact h
  | cons op ops ih => exact ih (h.after op)

/-! ## Restarting -/

/-- Save the database and load it in a fresh process. -/
def udbRestart (d : Udb) : Udb := udbInit .good (udbSave .good d).file

/-- The same entries, none of them twice, and the same answer to every lookup. -/
structure SameContent (d d' : Udb) : Prop where
  entries : d.userdb.Perm d'.userdb
  lookup : ∀ s, udbLookupname_ d s = udbLookupname_ d' s

theorem udbRestart_eq (d : Udb) :
    udbRestart d = (fgetsAll LINE_CHARS (d.userdb.flatMap printLine)).foldl loadLine
      { userdb := [], nextId := 1, file := some (d.userdb.flatMap printLine) } := by
  rfl

/-- Well formed databases with the same entries answer alike. -/
theorem lookupname_congr {d d' : Udb} (h : d.WellFormed) (h' : d'.WellFormed)
    (hperm : d.userdb.Perm d'.userdb) (s : Bytes) :
    udbLookupname_ d s = udbLookupname_ d' s := by
  cases hl : udbLookupname_ d' s with
  | none =>
      rw [lookupname_eq_none] at hl ⊢
      exact fun u hu => hl u (hperm.subset hu)
  | some u =>
      rw [h'.lookup_eq_some] at hl
      rw [h.lookup_eq_some]
      exact ⟨hperm.symm.subset hl.1, hl.2⟩

/-- Storable entries survive a restart. -/
theorem Udb.Sane.restart_of_storable {d : Udb} (h : d.Sane)
    (hst : ∀ u ∈ d.userdb, Storable u) : SameContent (udbRestart d) d := by
  have hload := load_storable
    (d := { userdb := [], nextId := 1, file := some (d.userdb.flatMap printLine) })
    hst h.wf.valid h.cstr h.wf.names (by simp)
  rw [← udbRestart_eq, List.append_nil] at hload
  have hperm : (udbRestart d).userdb.Perm d.userdb := by
    rw [hload]
    exact List.reverse_perm _
  exact ⟨hperm, lookupname_congr (wellFormed_init _ _) h.wf hperm⟩

/-- Entries that survive a restart are storable. -/
theorem Udb.Sane.storable_of_restart {d : Udb} (h : d.Sane)
    (hperm : (udbRestart d).userdb.Perm d.userdb) : ∀ u ∈ d.userdb, Storable u := by
  have hclean : ∀ u ∈ d.userdb, u.id ≠ 0 ∧ chLF ∉ u.name ∧ chLF ∉ u.key ∧ chCR ∉ u.key := by
    intro u hu
    obtain ⟨hid, hn, hk, hcr, -⟩ := mem_udbInit (hperm.symm.subset hu)
    exact ⟨hid, hn, hk, hcr⟩
  intro u hu
  obtain ⟨hid, hn, hk, hcr⟩ := hclean u hu
  refine ⟨hid, hn, hk, hcr, ?_⟩
  by_contra hlong
  -- The first entry that is too long has come back with another key.
  obtain ⟨v, hv, k, hkv, hmem⟩ := load_some_long
    (d := { userdb := [], nextId := 1, file := some (d.userdb.flatMap printLine) })
    hclean h.wf.valid h.cstr h.wf.names (by simp) ⟨u, hu, by omega⟩
  rw [← udbRestart_eq] at hmem
  have heq := h.wf.eq_of_name (hperm.subset hmem) hv rfl
  exact hkv (congrArg User.key heq)

/-- **Persistence.** After any history, from any file, a restart preserves the
content of the database exactly when every entry is storable. -/
theorem restart_sameContent_iff (e : FileEnv) (file : Option Bytes) (ops : List UdbOp) :
    SameContent (udbRestart (udbRun (udbInit e file) ops)) (udbRun (udbInit e file) ops) ↔
      ∀ u ∈ (udbRun (udbInit e file) ops).userdb, Storable u := by
  have hsane := (sane_init e file).run ops
  exact ⟨fun h => hsane.storable_of_restart h.entries, hsane.restart_of_storable⟩

/-- One REGISTER request whose key contains a newline. -/
def newlineKeyHistory : List UdbOp :=
  [.dropentry .good ⟨ascii "bob", by decide⟩,
    .addentry .good 1 ⟨ascii "bob", by decide⟩
      ⟨ascii "plain-text a" ++ chLF :: ascii "b", by decide⟩]

/-- The part of that key behind the newline is gone after a restart. -/
theorem restart_newline_key :
    ¬ SameContent (udbRestart (udbRun (udbInit .good none) newlineKeyHistory))
      (udbRun (udbInit .good none) newlineKeyHistory) := by
  intro h
  exact absurd (h.lookup (ascii "bob")) (by decide +kernel)

end Frelay
