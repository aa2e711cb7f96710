import Frelay.Config.Parse
import Frelay.Userdb.Persist

/-!
# Writing a configuration and reading it back

`cfg_write_fp` prints every variable on a line of its own, as it is: there is no quoting and
no escaping. What the reader trims, or takes for the end of a line, is lost.

* `CfgDef.Plain` — the entries that a line represents faithfully;
* `conf_round_trip` — a configuration of such entries is read back as it was.
-/

namespace Frelay

open Lib

/-! ## Writing -/

/-- The text of a value. -/
def CfgVal.text : CfgVal → Bytes
  | .int n => decimal n.toInt
  | .str s => s
  | .other => []

/-- What `cfg_write_fp` prints for an entry. -/
def cfgWriteDef (p : CfgDef) : Bytes :=
  match p.val with
  | .other => []
  | v => p.name ++ chEq :: (v.text ++ [chLF])

/-- What `cfg_write_fp` prints. -/
def cfgWriteFp (d : List CfgDef) : Bytes := d.flatMap cfgWriteDef

/-! ## Entries -/

/-- The values are of one type. -/
def CfgVal.SameType : CfgVal → CfgVal → Prop
  | .int _, .int _ => True
  | .str _, .str _ => True
  | .other, .other => True
  | _, _ => False

/-- The entry fits a line, and neither trimming nor a line break changes its value. -/
structure CfgDef.Plain (p : CfgDef) : Prop where
  name : NameOk p.name
  clean : chLF ∉ p.name ∧ 0 ∉ p.name ∧ chLF ∉ p.val.text ∧ 0 ∉ p.val.text
  trimmed : Trimmed isspace p.val.text
  fits : p.name.length + 1 + p.val.text.length ≤ CFG_CHARS

theorem ascii_repr (n : Nat) : ascii (Nat.repr n) = decimalDigits n := by
  rw [ascii, Nat.toList_repr]
  rfl

/-- A number that is printed reads back. -/
theorem strtol0_text {n : Int} (hlo : -2 ^ 63 ≤ n) (hhi : n < 2 ^ 63) : strtol0 (decimal n) = n := by
  cases n with
  | ofNat k =>
      rw [decimal, ascii_repr]
      have hk : k < 2 ^ 63 := by
        rw [Int.ofNat_eq_natCast] at hhi
        omega
      exact strtol0_decimal.1 hk
  | negSucc k =>
      rw [decimal, ascii_repr]
      have hk : k + 1 ≤ 2 ^ 63 := by
        rw [Int.negSucc_eq] at hlo
        omega
      exact strtol0_decimal.2 hk

/-- A value that is printed and assigned again is the same. -/
theorem CfgVal.assign_text {v v₀ : CfgVal} (h : v.SameType v₀) : v₀.assign v.text = v := by
  cases v with
  | int n =>
      cases v₀ with
      | int n₀ =>
          have hlo := n.le_toInt
          have hhi := n.toInt_lt
          have hback : strtol0 (decimal n.toInt) = n.toInt := strtol0_text (by omega) (by omega)
          rw [text, assign, hback, Int32.ofInt_toInt]
      | str s => cases h
      | other => cases h
  | str s =>
      cases v₀ with
      | str s₀ => rfl
      | int n => cases h
      | other => cases h
  | other =>
      cases v₀ with
      | other => rfl
      | int n => cases h
      | str s => cases h

/-- A number is printed without white space. -/
theorem decimal_chars {n : Int} : ∀ c ∈ decimal n, isspace c = false ∧ c ≠ chLF ∧ c ≠ 0 := by
  have hdigits : ∀ k, ∀ c ∈ ascii (Nat.repr k), isspace c = false ∧ c ≠ chLF ∧ c ≠ 0 := by
    intro k c hc
    rw [ascii_repr] at hc
    have hx := of_isxdigit (isxdigit_of_isDigitIn ((natIn_decimalDigits k).2 c hc))
    exact ⟨hx.1, hx.2.2.2.2.2.2⟩
  cases n with
  | ofNat k => exact hdigits k
  | negSucc k =>
      intro c hc
      rcases List.mem_cons.mp hc with rfl | hc
      · decide
      · exact hdigits (k + 1) c hc

theorem plain_int {name : Bytes} {n : Int32} (hname : NameOk name)
    (hclean : chLF ∉ name ∧ 0 ∉ name) (hlen : name.length ≤ 3900) :
    CfgDef.Plain ⟨name, .int n⟩ := by
  have hlo := n.le_toInt
  have hhi := n.toInt_lt
  have hdec : (decimal n.toInt).length ≤ 21 := length_decimal (by omega)
  refine ⟨hname, ⟨hclean.1, hclean.2, fun h => ?_, fun h => ?_⟩, ⟨fun c hc => ?_, fun c hc => ?_⟩, ?_⟩
  · exact (decimal_chars _ h).2.1 rfl
  · exact (decimal_chars _ h).2.2 rfl
  · exact (decimal_chars c (List.mem_of_head? hc)).1
  · exact (decimal_chars c (List.mem_of_getLast? hc)).1
  · show name.length + 1 + (decimal n.toInt).length ≤ 3999
    omega

/-! ## Reading back -/

/-- The line of a plain entry assigns its value. -/
theorem cfgParsePiece_line {p : CfgDef} (h : p.Plain) (d : List CfgDef) (r : Int32) :
    cfgParsePiece (d, r) (p.name ++ chEq :: p.val.text) =
      match cfgParseAssign p.name p.val.text d with
      | some d => (d, r)
      | none => (d, r + -1) := by
  obtain ⟨-, hname0, -, hval0⟩ := h.clean
  have hnul : 0 ∉ p.name ++ chEq :: p.val.text := by
    simp only [List.mem_append, List.mem_cons, not_or]
    exact ⟨hname0, by decide, hval0⟩
  have hassigns : Assigns (p.name ++ chEq :: p.val.text) p.name p.val.text :=
    ⟨[], [], [], [], by simp, h.name, h.trimmed, by simp⟩
  rw [cfgParsePiece, takeWhile_ne_eq_self hnul, cfgParseLine_assign hassigns]
  cases cfgParseAssign p.name p.val.text d with
  | none => rfl
  | some d => exact Prod.ext rfl (Int32.add_zero r)

/-- The first line of a file that is written, if anything is printed for the entry. -/
theorem cfgWriteFp_cons {p : CfgDef} (h : p.val ≠ .other → p.Plain) (d : List CfgDef) :
    (p.val = .other ∧ cfgWriteFp (p :: d) = cfgWriteFp d) ∨
      (p.Plain ∧ (cfgWriteFp (p :: d)).splitOn chLF =
        (p.name ++ chEq :: p.val.text) :: (cfgWriteFp d).splitOn chLF) := by
  by_cases hother : p.val = .other
  · refine .inl ⟨hother, ?_⟩
    rw [cfgWriteFp, List.flatMap_cons, cfgWriteDef, hother]
    rfl
  · have hplain := h hother
    have hlf : chLF ∉ p.name ++ chEq :: p.val.text := by
      simp only [List.mem_append, List.mem_cons, not_or]
      exact ⟨hplain.clean.1, by decide, hplain.clean.2.2.1⟩
    have hdef : cfgWriteDef p = p.name ++ chEq :: (p.val.text ++ [chLF]) := by
      unfold cfgWriteDef
      split
      · rename_i h
        exact absurd h hother
      · rfl
    have hwrite : cfgWriteFp (p :: d) = (p.name ++ chEq :: p.val.text) ++ chLF :: cfgWriteFp d := by
      rw [cfgWriteFp, List.flatMap_cons, hdef, ← cfgWriteFp]
      simp
    exact .inr ⟨hplain, by rw [hwrite, List.splitOn_append_cons_self_of_not_mem hlf]⟩

/-- The table that is read has the names and the types of the one that was written. -/
def SameShape (d d₀ : List CfgDef) : Prop :=
  List.Forall₂ (fun p p₀ : CfgDef => p.name = p₀.name ∧ p.val.SameType p₀.val) d d₀

/-- The lines of plain entries assign their values, one after the other. -/
theorem foldl_lines {d d₀ pre : List CfgDef} {r : Int32}
    (hplain : ∀ p ∈ d, p.val ≠ .other → p.Plain) (hsame : SameShape d d₀)
    (hnames : ((pre ++ d).map CfgDef.name).Nodup) :
    ((cfgWriteFp d).splitOn chLF).foldl cfgParsePiece (pre ++ d₀, r) = (pre ++ d, r) := by
  induction hsame generalizing pre with
  | nil => exact Prod.ext rfl (Int32.add_zero r)
  | @cons p p₀ d d₀ hp hrest ih =>
      have hih := @ih (pre ++ [p]) (fun q hq => hplain q (List.mem_cons_of_mem _ hq))
        (by rwa [List.append_assoc, List.singleton_append])
      rw [List.append_assoc, List.append_assoc, List.singleton_append, List.singleton_append] at hih
      have hback : { p₀ with val := p₀.val.assign p.val.text } = p := by
        rw [CfgVal.assign_text hp.2, ← hp.1]
      rcases cfgWriteFp_cons (hplain p List.mem_cons_self) d with ⟨hother, hwrite⟩ | ⟨hpl, hwrite⟩
      · -- Nothing is printed, and there is nothing to restore.
        have hval : p₀.val = .other := by
          have htype := hp.2
          rw [hother] at htype
          cases hv : p₀.val with
          | other => rfl
          | int n => rw [hv] at htype; cases htype
          | str s => rw [hv] at htype; cases htype
        have hp₀ : p₀ = p := by
          cases p
          cases p₀
          simp_all
        rw [hwrite, hp₀]
        exact hih
      · have hpre : ∀ q ∈ pre, q.name ≠ p.name := by
          intro q hq heq
          rw [List.map_append, List.nodup_append] at hnames
          exact hnames.2.2 q.name (List.mem_map_of_mem hq) p.name
            (List.mem_map_of_mem List.mem_cons_self) heq
        rw [hwrite, List.foldl_cons, cfgParsePiece_line hpl,
          cfgParseAssign_append _ hpre hp.1.symm, hback]
        exact hih

theorem length_lines {d : List CfgDef} (hplain : ∀ p ∈ d, p.val ≠ .other → p.Plain) :
    ∀ l ∈ (cfgWriteFp d).splitOn chLF, l.length ≤ CFG_CHARS := by
  induction d with
  | nil =>
      intro l hl
      rw [List.mem_singleton.mp hl]
      exact Nat.zero_le _
  | cons p d ih =>
      have hrest := ih fun q hq => hplain q (List.mem_cons_of_mem _ hq)
      intro l hl
      rcases cfgWriteFp_cons (hplain p List.mem_cons_self) d with ⟨-, hwrite⟩ | ⟨hpl, hwrite⟩
      · rw [hwrite] at hl
        exact hrest l hl
      · rw [hwrite] at hl
        rcases List.mem_cons.mp hl with rfl | hl
        · have hfits := hpl.fits
          rw [List.length_append, List.length_cons]
          omega
        · exact hrest l hl

/-- **What is written is read back**, into any table of the same names and types. -/
theorem cfgParseFp_write {d d₀ : List CfgDef} (hplain : ∀ p ∈ d, p.val ≠ .other → p.Plain)
    (hsame : SameShape d d₀) (hnames : (d.map CfgDef.name).Nodup) :
    cfgParseFp (cfgWriteFp d) d₀ = (d, 0) := by
  have hfold := @foldl_lines d d₀ [] 0 hplain hsame hnames
  have hpieces := foldl_fgetsAll (g := cfgParsePiece)
    (fun q => Prod.ext rfl (Int32.add_zero q.2)) cfgParsePiece_lf (by decide)
    (length_lines hplain) (d₀, 0)
  rw [List.nil_append] at hfold
  unfold cfgParseFp
  rw [hpieces, hfold]
  rfl

/-! ## The configuration of the client -/

/-- The variables behind the table of the client. -/
structure CltConf where
  host : CStr
  port : CStr
  selectTimeout : Int32
  msgTimeout : Int32
  respTimeout : Int32
  offerTimeout : Int32
  username : CStr
  pubkey : CStr
  privkey : CStr

/-- `cfgdef` of the client. -/
def CltConf.cfgdef (c : CltConf) : List CfgDef :=
  [⟨ascii "host", .str c.host.1⟩, ⟨ascii "port", .str c.port.1⟩,
    ⟨ascii "select_timeout", .int c.selectTimeout⟩, ⟨ascii "msg_timeout", .int c.msgTimeout⟩,
    ⟨ascii "res_timeout", .int c.respTimeout⟩, ⟨ascii "offer_timeout", .int c.offerTimeout⟩,
    ⟨ascii "username", .str c.username.1⟩, ⟨ascii "pubkey", .str c.pubkey.1⟩,
    ⟨ascii "privkey", .str c.privkey.1⟩]

/-- A string that has no line break and no white space at its ends, and fits a line with
its name. -/
structure PlainStr (name : String) (s : CStr) : Prop where
  lf : chLF ∉ s.1
  trimmed : Trimmed isspace s.1
  fits : (ascii name).length + 1 + s.1.length ≤ CFG_CHARS

/-- The strings of the configuration are plain. -/
structure CltConf.Plain (c : CltConf) : Prop where
  host : PlainStr "host" c.host
  port : PlainStr "port" c.port
  username : PlainStr "username" c.username
  pubkey : PlainStr "pubkey" c.pubkey
  privkey : PlainStr "privkey" c.privkey

/-- **A configuration of plain strings is read back as it was**, into any other. -/
theorem conf_round_trip {c : CltConf} (h : c.Plain) (fresh : CltConf) :
    cfgParseFp (cfgWriteFp c.cfgdef) fresh.cfgdef = (c.cfgdef, 0) := by
  refine cfgParseFp_write ?_ ?_ ?_
  · have hint : ∀ (name : String) (n : Int32), (NameOk (ascii name) ∧
        (chLF ∉ ascii name ∧ 0 ∉ ascii name) ∧ (ascii name).length ≤ 3900) →
        CfgDef.Plain ⟨ascii name, .int n⟩ := fun name n h => plain_int h.1 h.2.1 h.2.2
    have hstr : ∀ (name : String) (s : CStr), (NameOk (ascii name) ∧
        (chLF ∉ ascii name ∧ 0 ∉ ascii name) ∧ (ascii name).length ≤ 3900) → PlainStr name s →
        CfgDef.Plain ⟨ascii name, .str s.1⟩ := fun name s hn h =>
      ⟨hn.1, ⟨hn.2.1.1, hn.2.1.2, h.lf, s.2⟩, h.trimmed, h.fits⟩
    simp only [CltConf.cfgdef, List.forall_mem_cons]
    refine ⟨fun _ => hstr "host" _ (by decide +kernel) h.host,
      fun _ => hstr "port" _ (by decide +kernel) h.port,
      fun _ => hint "select_timeout" _ (by decide +kernel),
      fun _ => hint "msg_timeout" _ (by decide +kernel),
      fun _ => hint "res_timeout" _ (by decide +kernel),
      fun _ => hint "offer_timeout" _ (by decide +kernel),
      fun _ => hstr "username" _ (by decide +kernel) h.username,
      fun _ => hstr "pubkey" _ (by decide +kernel) h.pubkey,
      fun _ => hstr "privkey" _ (by decide +kernel) h.privkey,
      fun _ h => absurd h List.not_mem_nil⟩
  · unfold SameShape CltConf.cfgdef
    repeat' first | exact List.Forall₂.nil | refine List.Forall₂.cons ⟨rfl, trivial⟩ ?_
  · show [ascii "host", ascii "port", ascii "select_timeout", ascii "msg_timeout",
      ascii "res_timeout", ascii "offer_timeout", ascii "username", ascii "pubkey",
      ascii "privkey"].Nodup
    decide

/-- The build time defaults, with a password. -/
def demoConf (pubkey : CStr) : CltConf where
  host := ⟨ascii "localhost", by decide⟩
  port := ⟨ascii "64740", by decide⟩
  selectTimeout := 10
  msgTimeout := 5
  respTimeout := 30
  offerTimeout := -300
  username := ⟨[], by decide⟩
  pubkey := pubkey
  privkey := ⟨[], by decide⟩

theorem conf_round_trip_demo :
    (demoConf ⟨ascii "#a = b", by decide⟩).Plain ∧
      ∀ fresh : CltConf,
        cfgParseFp (cfgWriteFp (demoConf ⟨ascii "#a = b", by decide⟩).cfgdef) fresh.cfgdef =
        ((demoConf ⟨ascii "#a = b", by decide⟩).cfgdef, 0) := by
  have hplain : (demoConf ⟨ascii "#a = b", by decide⟩).Plain :=
    ⟨⟨by decide, by decide, by decide⟩, ⟨by decide, by decide, by decide⟩,
      ⟨by decide, by decide, by decide⟩, ⟨by decide, by decide, by decide⟩,
      ⟨by decide, by decide, by decide⟩⟩
  exact ⟨hplain, conf_round_trip hplain⟩

/-- A password that starts with a blank loses it. -/
theorem conf_trimmed :
    ¬ ∀ c fresh : CltConf, (cfgParseFp (cfgWriteFp c.cfgdef) fresh.cfgdef).1 = c.cfgdef := by
  have hread : (cfgParseFp (cfgWriteFp (demoConf ⟨ascii " x", by decide⟩).cfgdef)
      (demoConf ⟨[], by decide⟩).cfgdef).1 ≠ (demoConf ⟨ascii " x", by decide⟩).cfgdef := by
    decide +kernel
  exact fun h => hread (h (demoConf ⟨ascii " x", by decide⟩) (demoConf ⟨[], by decide⟩))

end Frelay
