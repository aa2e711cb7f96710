import Frelay.Lib.Printf
import Frelay.Client.Transfer

/-!
# Describing a transfer

`transfer_itostr` composes the line that tells the user about a transfer. It prints one
character or directive of its format after the other, each behind what the ones before it
would have needed.

* `humanSize_spec` — the prefix is one of those there are;
* `itostr_inside_iff` — the line stays in its buffer exactly when all but its last piece fit.
-/

namespace Frelay

open Lib

/-! ## Numbers and times -/

/-- `num / den`, rounded to the nearest integer, and to the even one of two. -/
def roundEven (num den : Nat) : Nat :=
  let q := num / den
  let r := num % den
  if 2 * r < den then q
  else if den < 2 * r then q + 1
  else q + q % 2

/-- The conversion of an unsigned integer to `double`, which has 53 significant bits. -/
def toDouble (n : Nat) : Nat :=
  let unit := 2 ^ (Nat.log2 n - 52)
  roundEven n unit * unit

/-- `%.2f` of `num / den`. -/
def fixed2 (num den : Nat) : Bytes :=
  let cents := roundEven (100 * num) den
  ascii (Nat.repr (cents / 100)) ++ 0x2e :: ascii (Nat.repr (cents % 100 / 10)) ++
    ascii (Nat.repr (cents % 10))

/-- The loop of `human_size`: `f` is `num / den`, and the prefixes are those from `pfx[m]` on. -/
def humanSizeFrom (num den : Nat) : List String → Bytes
  | [] => []
  | p :: ps =>
      if 1024 * den < num then humanSizeFrom num (1024 * den) ps
      else fixed2 num den ++ ascii p ++ ascii "B"

def pfx : List String := ["", "Ki", "Mi", "Gi", "Ti", "Pi", "Ei"]

def humanSize (sz : UInt64) : Bytes := humanSizeFrom (toDouble sz.toNat) 1 pfx

/-- The division of C truncates, and the days are an `int`. -/
def humanTimespan (t : Int) : Bytes :=
  let s := t.tmod 60
  let m := (t.tdiv 60).tmod 60
  let h := ((t.tdiv 60).tdiv 60).tmod 24
  let d := (((t.tdiv 60).tdiv 60).tdiv 24).bmod (2 ^ 32)
  (if d ≠ 0 then decimal d ++ ascii "d" else []) ++
    (if h ≠ 0 then decimal h ++ ascii "h" else []) ++
    (if m ≠ 0 then decimal m ++ ascii "m" else []) ++
    (if s ≠ 0 ∨ m + h + d = 0 then decimal s ++ ascii "s" else [])

/-! ## The format -/

/-- The time of day, and the text `localtime_r` and `strftime` make of a time. -/
structure ItostrEnv where
  now : Int
  timeText : Int → Bytes

/-- What is printed for `%s`; the C library prints `(null)` for a null pointer. -/
def printStr (s : Option Bytes) : Bytes :=
  match s with
  | none => ascii "(null)"
  | some s => s.takeWhile (· ≠ 0)

/-- What is printed for a time span in seconds, an unsigned number. -/
def printSecs (t : Int) : Bytes := decimal (t % 2 ^ 64) ++ ascii "s"

/-- The difference of two `time_t`. -/
def elapsed (now since : Int) : Int := (now - since).bmod (2 ^ 64)

/-- What is printed for a directive. -/
def itostrDirective (env : ItostrEnv) (t : Transfer) (p : UInt8) : Bytes :=
  match Char.ofUInt8 p with
  | 'i' => ascii (if t.type = .download then "D" else "O") ++ ascii "," ++
      hexPad 16 t.rid.toNat ++ ascii "," ++ hexPad 16 t.oid.toNat
  | 'n' => printStr t.name
  | 'N' => printStr t.partname
  | 'o' => decimal t.offset.toNat ++ ascii "B"
  | 'O' => humanSize t.offset
  | 's' => decimal t.size.toNat ++ ascii "B"
  | 'S' => humanSize t.size
  | 'd' => printSecs (elapsed env.now t.tstart)
  | 'D' => humanTimespan (elapsed env.now t.tstart)
  | 'a' => printSecs (elapsed env.now t.tact)
  | 'A' => humanTimespan (elapsed env.now t.tact)
  | 't' => printSecs t.tstart
  | 'T' => printStr (some (env.timeText t.tstart))
  | _ => [p]

/-- What the loop prints, one call after the other, when `p` points to `mem`. A `%` before
the terminator takes the terminator for its directive, and the loop goes on behind it. -/
def itostrTexts (env : ItostrEnv) (t : Transfer) : Bytes → List Bytes
  | [] => []
  | [c] => if c = 0 then [] else if c ≠ 0x25 then [[c]] else [itostrDirective env t 0]
  | c :: d :: mem =>
      if c = 0 then []
      else if c ≠ 0x25 then [c] :: itostrTexts env t (d :: mem)
      else itostrDirective env t d :: itostrTexts env t mem

/-- The format that stands for a null pointer. -/
def itostrFormat (fmt : Option Bytes) : Bytes := fmt.getD (ascii "%i '%n' %o/%s %d %a")

/-- `transfer_itostr`, where `beyond` lies behind the format in memory. -/
def transferItostr (env : ItostrEnv) (buf : Bytes) (fmt : Option Bytes) (beyond : Bytes)
    (t : Transfer) : Option Bytes :=
  (printAll buf (itostrTexts env t (itostrFormat fmt ++ 0 :: beyond))).map Prod.fst

/-- What the format stands for; a `%` at its end stands for nothing. -/
def itostrExpansion (env : ItostrEnv) (t : Transfer) : Bytes → Bytes
  | [] => []
  | [c] => if c ≠ 0x25 then [c] else []
  | c :: d :: fmt =>
      if c ≠ 0x25 then c :: itostrExpansion env t (d :: fmt)
      else itostrDirective env t d ++ itostrExpansion env t fmt

/-- Nothing is written outside the buffer, and it holds a string that is a beginning of
what the format stands for. -/
def ItostrOk (env : ItostrEnv) (buf : Bytes) (fmt : Option Bytes) (beyond : Bytes)
    (t : Transfer) : Prop :=
  ∃ buf', transferItostr env buf fmt beyond t = some buf' ∧ 0 ∈ buf' ∧
    buf'.takeWhile (· ≠ 0) <+: itostrExpansion env t (itostrFormat fmt)

/-- What is printed before the last call fits into the buffer, and an empty format
comes with an empty string in it. -/
def ItostrFits (env : ItostrEnv) (buf : Bytes) (fmt : Option Bytes) (beyond : Bytes)
    (t : Transfer) : Prop :=
  lengthBeforeLast (itostrTexts env t (itostrFormat fmt ++ 0 :: beyond)) ≤ min buf.length INT_MAX ∧
    (fmt = some [] → buf.head? = some 0)

/-- No single name, and no time, exceeds what `snprintf` can return. The length of an
attribute is a 16 bit number. -/
structure Printable (env : ItostrEnv) (t : Transfer) : Prop where
  name : ∀ s, t.name = some s → s.length ≤ INT_MAX
  partname : ∀ s, t.partname = some s → s.length ≤ INT_MAX
  time : (env.timeText t.tstart).length ≤ INT_MAX

/-! ## The length of what is printed -/

/-- A unit of time, if it is printed. -/
theorem length_unit {n : Int} {P : Prop} [Decidable P] (h : n.natAbs < 10 ^ 20) (s : String)
    (hs : s.length = 1) : (if P then decimal n ++ ascii s else []).length ≤ 22 := by
  split
  · rw [List.length_append, length_ascii, hs]
    exact Nat.succ_le_succ (length_decimal h)
  · exact Nat.zero_le _

theorem length_humanTimespan (t : Int) : (humanTimespan t).length ≤ 88 := by
  have hbmod : ∀ d : Int, (d.bmod (2 ^ 32)).natAbs < 10 ^ 20 := by
    intro d
    have hlo := Int.le_bmod (x := d) (m := 2 ^ 32) (by decide)
    have hhi := Int.bmod_lt (x := d) (m := 2 ^ 32) (by decide)
    omega
  have hmod : ∀ (t : Int) (k : Nat), 0 < k → k ≤ 60 → (t.tmod k).natAbs < 10 ^ 20 := by
    intro t k hpos hk
    rw [Int.natAbs_tmod, Int.natAbs_natCast]
    have := Nat.mod_lt t.natAbs hpos
    omega
  unfold humanTimespan
  simp only [List.length_append]
  have hd := length_unit (P := (((t.tdiv 60).tdiv 60).tdiv 24).bmod (2 ^ 32) ≠ 0)
    (hbmod (((t.tdiv 60).tdiv 60).tdiv 24)) "d" rfl
  have hh := length_unit (P := ((t.tdiv 60).tdiv 60).tmod 24 ≠ 0)
    (hmod ((t.tdiv 60).tdiv 60) 24 (by decide) (by decide)) "h" rfl
  have hm := length_unit (P := (t.tdiv 60).tmod 60 ≠ 0)
    (hmod (t.tdiv 60) 60 (by decide) (by decide)) "m" rfl
  have hs := length_unit (P := t.tmod 60 ≠ 0 ∨ (t.tdiv 60).tmod 60 +
    ((t.tdiv 60).tdiv 60).tmod 24 + (((t.tdiv 60).tdiv 60).tdiv 24).bmod (2 ^ 32) = 0)
    (hmod t 60 (by decide) (by decide)) "s" rfl
  exact Nat.add_le_add (Nat.add_le_add (Nat.add_le_add hd hh) hm) hs

theorem roundEven_le {num den k : Nat} (h : num ≤ k * den) : roundEven num den ≤ k + 1 := by
  have hq : num / den ≤ k := Nat.div_le_of_le_mul (by rwa [Nat.mul_comm])
  unfold roundEven
  simp only
  split
  · omega
  · split <;> omega

theorem toDouble_le (n : Nat) : toDouble n ≤ 2 * n := by
  by_cases h0 : n = 0
  · subst h0
    decide
  · obtain ⟨unit, hunit⟩ : ∃ unit, unit = 2 ^ (Nat.log2 n - 52) := ⟨_, rfl⟩
    have hle : unit ≤ n := by
      rw [hunit]
      exact (Nat.pow_le_pow_right (by decide) (Nat.sub_le _ _)).trans (Nat.log2_self_le h0)
    have hround : roundEven n unit * unit ≤ n + unit := by
      have hdiv := Nat.div_mul_le_self n unit
      have hup : roundEven n unit ≤ n / unit + 1 := by
        unfold roundEven
        simp only
        split
        · omega
        · split <;> omega
      calc roundEven n unit * unit ≤ (n / unit + 1) * unit := Nat.mul_le_mul_right _ hup
        _ = n / unit * unit + unit := Nat.succ_mul _ _
        _ ≤ n + unit := Nat.add_le_add_right hdiv _
    unfold toDouble
    rw [← hunit]
    simp only
    omega

theorem length_fixed2 {num den : Nat} (h : num ≤ 1024 * den) : (fixed2 num den).length ≤ 9 := by
  have hcents : roundEven (100 * num) den ≤ 102400 + 1 := roundEven_le (by omega)
  generalize hc : roundEven (100 * num) den = cents at hcents
  have hwhole := length_repr_le (n := cents / 100) (k := 4) (by decide) (by omega)
  have htenth := length_repr_le (n := cents % 100 / 10) (k := 1) (by decide) (by omega)
  have hcent := length_repr_le (n := cents % 10) (k := 1) (by decide) (by omega)
  unfold fixed2
  simp only [hc, List.length_append, List.length_cons, length_ascii]
  omega

/-- The loop of `human_size` ends at one of the prefixes. -/
theorem humanSizeFrom_spec (num den : Nat) {ps : List String} (hps : ps ≠ [])
    (h : num ≤ 1024 ^ ps.length * den) :
    ∃ k p, ps[k]? = some p ∧ num ≤ 1024 * (1024 ^ k * den) ∧
      humanSizeFrom num den ps = fixed2 num (1024 ^ k * den) ++ ascii p ++ ascii "B" := by
  induction ps generalizing den with
  | nil => exact absurd rfl hps
  | cons p ps ih =>
      by_cases hmore : 1024 * den < num
      · have hps' : ps ≠ [] := by
          rintro rfl
          exact absurd h (by rw [List.length_singleton]; omega)
        have hpow : num ≤ 1024 ^ ps.length * (1024 * den) := by
          rw [← Nat.mul_assoc, ← Nat.pow_succ]
          exact h
        obtain ⟨k, q, hq, hle, heq⟩ := ih (1024 * den) hps' hpow
        have hscale : 1024 ^ k * (1024 * den) = 1024 ^ (k + 1) * den := by
          rw [← Nat.mul_assoc, ← Nat.pow_succ]
        rw [hscale] at hle heq
        exact ⟨k + 1, q, hq, hle, by rw [humanSizeFrom, if_pos hmore, heq]⟩
      · refine ⟨0, p, rfl, ?_, ?_⟩
        · rw [Nat.pow_zero, Nat.one_mul]
          exact Nat.not_lt.mp hmore
        · rw [humanSizeFrom, if_neg hmore, Nat.pow_zero, Nat.one_mul]

/-- **The prefix is the one of the unit**, and at most 1024 units are printed. -/
theorem humanSize_spec (sz : UInt64) : ∃ k p, pfx[k]? = some p ∧
    toDouble sz.toNat ≤ 1024 * 1024 ^ k ∧
    humanSize sz = fixed2 (toDouble sz.toNat) (1024 ^ k) ++ ascii p ++ ascii "B" := by
  have hle := toDouble_le sz.toNat
  have hlt := sz.toNat_lt
  have hmax : toDouble sz.toNat ≤ 1024 ^ pfx.length * 1 := by
    rw [show pfx.length = 7 from rfl]
    omega
  obtain ⟨k, p, hp, hnum, heq⟩ :=
    humanSizeFrom_spec (toDouble sz.toNat) 1 (List.cons_ne_nil _ _) hmax
  rw [Nat.mul_one] at hnum heq
  exact ⟨k, p, hp, hnum, heq⟩

theorem length_humanSize (sz : UInt64) : (humanSize sz).length ≤ 12 := by
  obtain ⟨k, p, hp, hnum, heq⟩ := humanSize_spec sz
  have hshort : ∀ p ∈ pfx, p.length ≤ 2 := by decide
  have hfixed := length_fixed2 hnum
  have := hshort p (List.mem_of_getElem? hp)
  rw [heq, List.length_append, List.length_append, length_ascii, length_ascii]
  change _ + _ + 1 ≤ _
  omega

/-- A directive prints no more than `snprintf` can return. -/
theorem length_itostrDirective {env : ItostrEnv} {t : Transfer} (h : Printable env t) (p : UInt8) :
    (itostrDirective env t p).length ≤ INT_MAX := by
  have hstr : ∀ {s : Option Bytes}, (∀ x, s = some x → x.length ≤ INT_MAX) →
      (printStr s).length ≤ INT_MAX := by
    intro s hs
    cases s with
    | none => decide
    | some x => exact (List.takeWhile_prefix _).length_le.trans (hs x rfl)
  have hword : ∀ n : UInt64, (decimal n.toNat ++ ascii "B").length ≤ INT_MAX := by
    intro n
    have := n.toNat_lt
    have hdec := length_decimal (n := (n.toNat : Int)) (by rw [Int.natAbs_natCast]; omega)
    rw [List.length_append]
    exact (Nat.add_le_add_right hdec 1).trans (by decide)
  have hsecs : ∀ t : Int, (printSecs t).length ≤ INT_MAX := by
    intro t
    have hdec := length_decimal (n := t % 2 ^ 64) (by omega)
    rw [printSecs, List.length_append]
    exact (Nat.add_le_add_right hdec 1).trans (by decide)
  have hsize : ∀ n : UInt64, (humanSize n).length ≤ INT_MAX :=
    fun n => (length_humanSize n).trans (by decide)
  have hspan : ∀ t : Int, (humanTimespan t).length ≤ INT_MAX :=
    fun t => (length_humanTimespan t).trans (by decide)
  -- In the order of the directives.
  unfold itostrDirective
  split
  · -- The two ids have sixteen digits each.
    simp only [List.length_append, length_hexPad, length_ascii]
    split <;> decide
  · exact hstr h.name
  · exact hstr h.partname
  · exact hword _
  · exact hsize _
  · exact hword _
  · exact hsize _
  · exact hsecs _
  · exact hspan _
  · exact hsecs _
  · exact hspan _
  · exact hsecs _
  · refine hstr fun x hx => ?_
    rw [← Option.some.inj hx]
    exact h.time
  · change 1 ≤ INT_MAX
    decide

/-! ## The loop -/

section Loop

variable {env : ItostrEnv} {t : Transfer}

theorem itostrTexts_end (mem : Bytes) : itostrTexts env t (0 :: mem) = [] := by
  cases mem <;> simp [itostrTexts]

theorem itostrTexts_char {c : UInt8} (h0 : c ≠ 0) (hc : c ≠ 0x25) (mem : Bytes) :
    itostrTexts env t (c :: mem) = [c] :: itostrTexts env t mem := by
  cases mem <;> simp [itostrTexts, h0, hc]

theorem itostrTexts_directive (d : UInt8) (mem : Bytes) :
    itostrTexts env t (0x25 :: d :: mem) = itostrDirective env t d :: itostrTexts env t mem := by
  simp [itostrTexts]

theorem length_itostrTexts (h : Printable env t) (mem : Bytes) :
    ∀ u ∈ itostrTexts env t mem, u.length ≤ INT_MAX := by
  have hchar : ∀ c : UInt8, [c].length ≤ INT_MAX := fun c => (by decide : 1 ≤ INT_MAX)
  fun_induction itostrTexts env t mem with
  | case1 => nofun
  | case2 => nofun
  | case3 c =>
      intro u hu
      rw [List.mem_singleton.mp hu]
      exact hchar c
  | case4 =>
      intro u hu
      rw [List.mem_singleton.mp hu]
      exact length_itostrDirective h 0
  | case5 => nofun
  | case6 c d mem h0 hc ih =>
      intro u hu
      rcases List.mem_cons.mp hu with rfl | hu
      · exact hchar c
      · exact ih u hu
  | case7 c d mem h0 hc ih =>
      intro u hu
      rcases List.mem_cons.mp hu with rfl | hu
      · exact length_itostrDirective h d
      · exact ih u hu

/-- The texts together are what the format stands for; after a `%` at its end a null
and more follow. -/
theorem itostrTexts_flatten (env : ItostrEnv) (t : Transfer) {fmt : Bytes} (hfmt : 0 ∉ fmt)
    (beyond : Bytes) :
    ∃ rest, (itostrTexts env t (fmt ++ 0 :: beyond)).flatten = itostrExpansion env t fmt ++ rest ∧
      (rest = [] ∨ ∃ more, rest = 0 :: more) := by
  fun_induction itostrExpansion env t fmt with
  | case1 => exact ⟨[], by rw [List.nil_append, itostrTexts_end]; rfl, .inl rfl⟩
  | case2 c hc =>
      have h0 : c ≠ 0 := fun h => hfmt (h ▸ List.mem_cons_self)
      refine ⟨[], ?_, .inl rfl⟩
      rw [List.singleton_append, itostrTexts_char h0 hc, itostrTexts_end]
      rfl
  | case3 c hc =>
      obtain rfl : c = 0x25 := not_not.mp hc
      refine ⟨0 :: (itostrTexts env t beyond).flatten, ?_, .inr ⟨_, rfl⟩⟩
      rw [List.singleton_append, itostrTexts_directive]
      rfl
  | case4 c d fmt hc ih =>
      have h0 : c ≠ 0 := fun h => hfmt (h ▸ List.mem_cons_self)
      obtain ⟨rest, hflat, hrest⟩ := ih (List.not_mem_of_not_mem_cons hfmt)
      refine ⟨rest, ?_, hrest⟩
      rw [List.cons_append, itostrTexts_char h0 hc, List.flatten_cons, hflat]
      rfl
  | case5 c d fmt hc ih =>
      obtain rfl : c = 0x25 := not_not.mp hc
      obtain ⟨rest, hflat, hrest⟩ :=
        ih (List.not_mem_of_not_mem_cons (List.not_mem_of_not_mem_cons hfmt))
      refine ⟨rest, ?_, hrest⟩
      rw [List.cons_append, List.cons_append, itostrTexts_directive, List.flatten_cons, hflat,
        List.append_assoc]

/-- Only an empty format prints nothing. -/
theorem itostrTexts_eq_nil {fmt : Bytes} (hfmt : 0 ∉ fmt) (beyond : Bytes) :
    itostrTexts env t (fmt ++ 0 :: beyond) = [] ↔ fmt = [] := by
  cases fmt with
  | nil => exact ⟨fun _ => rfl, fun _ => itostrTexts_end beyond⟩
  | cons c fmt =>
      have h0 : c ≠ 0 := fun h => hfmt (h ▸ List.mem_cons_self)
      refine ⟨fun h => ?_, nofun⟩
      rw [List.cons_append] at h
      by_cases hc : c = 0x25
      · subst hc
        cases fmt with
        | nil =>
            rw [List.nil_append, itostrTexts_directive] at h
            cases h
        | cons d fmt =>
            rw [List.cons_append, itostrTexts_directive] at h
            cases h
      · rw [itostrTexts_char h0 hc] at h
        cases h

end Loop

/-- **The line stays in its buffer exactly when all but its last piece fit.** -/
theorem itostr_inside_iff {env : ItostrEnv} {t : Transfer} (ht : Printable env t) {buf : Bytes}
    (hbuf : 0 < buf.length ∧ buf.length < 2 ^ 64) {fmt : Option Bytes}
    (hfmt : ∀ f, fmt = some f → 0 ∉ f) (beyond : Bytes) :
    ItostrOk env buf fmt beyond t ↔ ItostrFits env buf fmt beyond t := by
  have hzero : 0 ∉ itostrFormat fmt := by
    cases fmt with
    | none => decide
    | some f => exact hfmt f rfl
  have hempty : itostrFormat fmt = [] ↔ fmt = some [] := by
    cases fmt with
    | none => exact ⟨fun h => absurd h (by decide), nofun⟩
    | some f => exact ⟨fun h => congrArg some h, fun h => Option.some.inj h⟩
  obtain ⟨rest, hflat, hrest⟩ := itostrTexts_flatten env t hzero beyond
  have hiff := printAll_ok_iff (length_itostrTexts ht _) hbuf.1 hbuf.2 hflat hrest
  rw [itostrTexts_eq_nil hzero, hempty] at hiff
  refine Iff.trans ?_ hiff
  constructor
  · rintro ⟨buf', hok, hin, hpre⟩
    obtain ⟨r, hr, rfl⟩ := Option.map_eq_some_iff.mp hok
    exact ⟨r, hr, hin, hpre⟩
  · rintro ⟨r, hr, hin, hpre⟩
    exact ⟨r.1, Option.map_eq_some_iff.mpr ⟨r, hr, rfl⟩, hin, hpre⟩

/-- A transfer as an offer of a file `name` leaves it. -/
def demoOffered (name : Bytes) : Transfer :=
  { addr := 0, type := .download, rid := 5, oid := 6, name := some name
    partname := some (name ++ TXT_PART), size := 2, offset := 0, fd := -1, tstart := 0, tact := 1 }

/-- The line for an offer, in a buffer in which it fits. -/
theorem itostr_inside_offer :
    Printable ⟨1, fun _ => []⟩ (demoOffered (ascii "a")) ∧
      ItostrOk ⟨1, fun _ => []⟩ (List.replicate 64 7) (some (ascii "%i '%n' %S")) []
        (demoOffered (ascii "a")) := by
  have ht : Printable ⟨1, fun _ => []⟩ (demoOffered (ascii "a")) :=
    ⟨fun s hs => Option.some.inj hs ▸ by decide, fun s hs => Option.some.inj hs ▸ by decide,
      by decide⟩
  refine ⟨ht, (itostr_inside_iff ht (by decide) (fun f hf => ?_) []).mpr ⟨by decide, nofun⟩⟩
  rw [← Option.some.inj hf]
  decide

/-- A file name as long as the buffer of `process_srvmsg`. -/
@[irreducible] def longFilename : Bytes := List.replicate 4096 0x61

theorem length_longFilename : longFilename.length = 4096 := by
  unfold longFilename
  exact List.length_replicate

theorem printStr_longFilename : printStr (some longFilename) = longFilename := by
  refine takeWhile_ne_eq_self fun h => ?_
  unfold longFilename at h
  exact absurd (List.eq_of_mem_replicate h) (by decide)

/-- The line for an offer of such a file, in a buffer of `PATH_MAX` octets: what follows
the name is written behind the buffer. -/
theorem itostr_escapes :
    Printable ⟨1, fun _ => []⟩ (demoOffered longFilename) ∧
      ¬ ItostrOk ⟨1, fun _ => []⟩ (List.replicate 4096 7) (some (ascii "%i '%n' %S")) []
        (demoOffered longFilename) := by
  have hname : longFilename.length ≤ INT_MAX := by
    rw [length_longFilename]
    decide
  have hpart : (longFilename ++ TXT_PART).length ≤ INT_MAX := by
    rw [List.length_append, length_longFilename]
    decide
  have ht : Printable ⟨1, fun _ => []⟩ (demoOffered longFilename) :=
    ⟨fun s hs => Option.some.inj hs ▸ hname, fun s hs => Option.some.inj hs ▸ hpart, by decide⟩
  refine ⟨ht, ?_⟩
  rintro ⟨buf', hok, -⟩
  obtain ⟨r, hr, -⟩ := Option.map_eq_some_iff.mp hok
  have hsize : (List.replicate 4096 (7 : UInt8)).length = 4096 := List.length_replicate
  have hfit := (printAll_isSome_iff (length_itostrTexts ht _) (by rw [hsize]; decide)
    (n := 0) (Nat.zero_le _)).mp (Option.isSome_iff_exists.mpr ⟨r, hr⟩)
  have htexts : itostrTexts ⟨1, fun _ => []⟩ (demoOffered longFilename)
      (itostrFormat (some (ascii "%i '%n' %S")) ++ 0 :: []) =
      [itostrDirective ⟨1, fun _ => []⟩ (demoOffered longFilename) 0x69, [0x20], [0x27],
        printStr (some longFilename), [0x27], [0x20], humanSize 2] := rfl
  rw [htexts, printStr_longFilename, hsize] at hfit
  simp only [lengthBeforeLast_cons_cons, length_longFilename, List.length_singleton] at hfit
  have := (Nat.le_min.mp hfit).1
  omega

end Frelay
