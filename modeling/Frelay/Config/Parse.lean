import Frelay.Message.Types
import Frelay.Lib.Lines
import Frelay.Lib.Strtol

/-!
# Configuration files (`cfgparse.c`)

A configuration file consists of lines `name=value`; a table says which names are defined
and where their values go. The file is read in pieces of at most 3999 characters.

* `cfgParseLine_nothing`, `cfgParseLine_assign`, `cfgParseLine_cases` — what the parser
  makes of the lines of the grammar, and of all others;
* `parse_lines` — the file is processed line by line, if its lines fit the buffer.
-/

namespace Frelay

open Lib

/-! ## The table -/

/-- The variable behind a name, with its type. -/
inductive CfgVal where
  | int (n : Int32)
  | str (s : Bytes)
  | other
  deriving DecidableEq

/-- `cfg_parse_def_t`. -/
structure CfgDef where
  name : Bytes
  val : CfgVal
  deriving DecidableEq

/-- Assign a value to a variable; `strtol` returns a `long`, and the variable is an `int`. -/
def CfgVal.assign (val : Bytes) : CfgVal → CfgVal
  | .int _ => .int (Int32.ofInt (strtol0 val))
  | .str _ => .str val
  | .other => .other

/-- `cfg_parse_assign`: the first entry of the name gets the value. -/
def cfgParseAssign (name val : Bytes) : List CfgDef → Option (List CfgDef)
  | [] => none
  | p :: ps =>
      if name = p.name then some ({ p with val := p.val.assign val } :: ps)
      else (cfgParseAssign name val ps).map fun ps => p :: ps

/-! ## Lines -/

/-- `LINE_MAX`, less the terminating null. -/
def CFG_CHARS : Nat := 3999

def chEq : UInt8 := 0x3d

def chHash : UInt8 := 0x23

/-- `skip_ws`. -/
def skipWs (s : Bytes) : Bytes := s.dropWhile isspace

def isNameChar (c : UInt8) : Bool := c != chEq && !isspace c

/-- `skip_name`. -/
def skipName (s : Bytes) : Bytes := s.dropWhile isNameChar

/-- `rtrim`. -/
def rtrim (s : Bytes) : Bytes := s.rdropWhile isspace

/-- `cfg_parse_line`, and what it returns. -/
def cfgParseLine (line : Bytes) (d : List CfgDef) : List CfgDef × Int32 :=
  let name := skipWs line
  if name.head? = some chHash ∨ name = [] then (d, 0)
  else
    let val := skipWs (skipName name)
    if val.head? ≠ some chEq then (d, -1)
    else
      -- The name ends where the sign of equality stood.
      let name := rtrim (name.take (name.length - val.length))
      if name = [] then (d, -1)
      else
        match cfgParseAssign name (rtrim (skipWs val.tail)) d with
        | some d => (d, 0)
        | none => (d, -1)

/-- One turn of the loop of `cfg_parse_fp`. -/
def cfgParsePiece (q : List CfgDef × Int32) (line : Bytes) : List CfgDef × Int32 :=
  let p := cfgParseLine (line.takeWhile (· ≠ 0)) q.1
  (p.1, q.2 + p.2)

/-- `cfg_parse_fp`, and what it returns. -/
def cfgParseFp (text : Bytes) (d : List CfgDef) : List CfgDef × Int :=
  let q := (fgetsAll CFG_CHARS text).foldl cfgParsePiece (d, 0)
  (q.1, if q.2 ≠ 0 then -1 else 0)

/-! ## The grammar -/

/-- The line is blank or a comment. -/
def SaysNothing (l : Bytes) : Prop :=
  (∀ c ∈ l, isspace c = true) ∨
    ∃ ws rest, (∀ c ∈ ws, isspace c = true) ∧ l = ws ++ chHash :: rest

/-- A name: no white space, no sign of equality, and no comment. -/
structure NameOk (name : Bytes) : Prop where
  ne_nil : name ≠ []
  head : name.head? ≠ some chHash
  chars : ∀ c ∈ name, isNameChar c = true

instance (name : Bytes) : Decidable (NameOk name) :=
  decidable_of_iff (name ≠ [] ∧ name.head? ≠ some chHash ∧ name.all isNameChar = true)
    ⟨fun h => ⟨h.1, h.2.1, List.all_eq_true.mp h.2.2⟩,
      fun h => ⟨h.ne_nil, h.head, List.all_eq_true.mpr h.chars⟩⟩

/-- The line is of the form `[ws]name[ws]=[ws]value[ws]`. -/
def Assigns (l name value : Bytes) : Prop :=
  ∃ ws₁ ws₂ ws₃ ws₄, (∀ c ∈ ws₁ ++ ws₂ ++ ws₃ ++ ws₄, isspace c = true) ∧ NameOk name ∧
    Trimmed isspace value ∧
    l = ws₁ ++ (name ++ (ws₂ ++ chEq :: (ws₃ ++ (value ++ ws₄))))

/-- What a line does to the table, and whether it is good. -/
inductive CfgLineStep (l : Bytes) : List CfgDef → List CfgDef → Bool → Prop
  | nothing {d : List CfgDef} : SaysNothing l → CfgLineStep l d d true
  | set {name value : Bytes} {pre post : List CfgDef} {p : CfgDef} : Assigns l name value →
      (∀ q ∈ pre, q.name ≠ name) → p.name = name →
      CfgLineStep l (pre ++ p :: post) (pre ++ { p with val := p.val.assign value } :: post) true
  | undefined {name value : Bytes} {d : List CfgDef} : Assigns l name value →
      (∀ p ∈ d, p.name ≠ name) → CfgLineStep l d d false
  | malformed {d : List CfgDef} : ¬ SaysNothing l → (∀ name value, ¬ Assigns l name value) →
      CfgLineStep l d d false

/-- What lines do one after the other, and whether all of them are good. -/
inductive CfgRun : List Bytes → List CfgDef → List CfgDef → Bool → Prop
  | nil {d : List CfgDef} : CfgRun [] d d true
  | cons {l : Bytes} {ls : List Bytes} {d d' d'' : List CfgDef} {ok ok' : Bool} :
      CfgLineStep l d d' ok → CfgRun ls d' d'' ok' → CfgRun (l :: ls) d d'' (ok && ok')

/-! ## Assignments -/

/-- What `cfg_parse_assign` does. -/
theorem cfgParseAssign_cases (name val : Bytes) (d : List CfgDef) :
    (cfgParseAssign name val d = none ∧ ∀ p ∈ d, p.name ≠ name) ∨
      ∃ pre p post, d = pre ++ p :: post ∧ (∀ q ∈ pre, q.name ≠ name) ∧ p.name = name ∧
        cfgParseAssign name val d =
          some (pre ++ { p with val := p.val.assign val } :: post) := by
  induction d with
  | nil => exact .inl ⟨rfl, fun _ h => absurd h List.not_mem_nil⟩
  | cons q d ih =>
      unfold cfgParseAssign
      by_cases hq : name = q.name
      · rw [if_pos hq]
        exact .inr ⟨[], q, d, rfl, fun _ h => absurd h List.not_mem_nil, hq.symm, rfl⟩
      · rw [if_neg hq]
        rcases ih with ⟨hnone, hall⟩ | ⟨pre, p, post, rfl, hpre, hp, hsome⟩
        · rw [hnone]
          exact .inl ⟨rfl, List.forall_mem_cons.mpr ⟨Ne.symm hq, hall⟩⟩
        · rw [hsome]
          exact .inr ⟨q :: pre, p, post, rfl, List.forall_mem_cons.mpr ⟨Ne.symm hq, hpre⟩, hp, rfl⟩

/-- The first entry of the name is the only one. -/
theorem cfgParseAssign_append {name : Bytes} {pre post : List CfgDef} {p : CfgDef} (val : Bytes)
    (hpre : ∀ q ∈ pre, q.name ≠ name) (hp : p.name = name) :
    cfgParseAssign name val (pre ++ p :: post) =
      some (pre ++ { p with val := p.val.assign val } :: post) := by
  induction pre with
  | nil => exact if_pos hp.symm
  | cons q pre ih =>
      rw [List.forall_mem_cons] at hpre
      rw [List.cons_append, cfgParseAssign, if_neg (Ne.symm hpre.1), ih hpre.2]
      rfl

theorem cfgParseAssign_none {name : Bytes} {d : List CfgDef} (val : Bytes)
    (h : ∀ p ∈ d, p.name ≠ name) : cfgParseAssign name val d = none := by
  rcases cfgParseAssign_cases name val d with ⟨hnone, -⟩ | ⟨pre, p, post, rfl, -, hp, -⟩
  · exact hnone
  · exact absurd hp (h p (List.mem_append_right _ List.mem_cons_self))

/-! ## What the parser makes of a line -/

section Line

variable {l name value : Bytes}

theorem cfgParseLine_nothing (h : SaysNothing l) (d : List CfgDef) :
    cfgParseLine l d = (d, 0) := by
  unfold cfgParseLine
  refine if_pos ?_
  rcases h with hblank | ⟨ws, rest, hws, rfl⟩
  · exact .inr (List.dropWhile_eq_nil_iff.mpr hblank)
  · refine .inl ?_
    rw [skipWs, dropWhile_of_all hws, List.dropWhile_cons, if_neg (by decide)]
    rfl

/-- The characters of a name are not skipped. -/
theorem NameOk.not_space (h : NameOk name) : ∀ c ∈ name, isspace c = false := by
  intro c hc
  have hchar := h.chars c hc
  rw [isNameChar, Bool.and_eq_true, Bool.not_eq_true'] at hchar
  exact hchar.2

theorem NameOk.trimmed (h : NameOk name) : Trimmed isspace name :=
  ⟨fun c hc => h.not_space c (List.mem_of_head? hc),
    fun c hc => h.not_space c (List.mem_of_getLast? hc)⟩

/-- The name of an assignment ends before the white space or the sign of equality. -/
theorem skipName_eq {ws rest : Bytes} (hname : ∀ c ∈ name, isNameChar c = true)
    (hws : ∀ c ∈ ws, isspace c = true) :
    skipName (name ++ (ws ++ chEq :: rest)) = ws ++ chEq :: rest := by
  rw [skipName, dropWhile_of_all hname]
  refine dropWhile_of_head fun c hc => ?_
  cases ws with
  | nil =>
      rw [List.nil_append, List.head?_cons] at hc
      rw [← Option.some.inj hc]
      decide
  | cons x ws =>
      rw [List.cons_append, List.head?_cons] at hc
      rw [← Option.some.inj hc, isNameChar, hws x List.mem_cons_self, Bool.not_true, Bool.and_false]

theorem skipWs_eq {ws rest : Bytes} (hws : ∀ c ∈ ws, isspace c = true) :
    skipWs (ws ++ chEq :: rest) = chEq :: rest := by
  rw [skipWs, dropWhile_of_all hws, List.dropWhile_cons, if_neg (by decide)]

/-- **An assignment is parsed as what it is.** -/
theorem cfgParseLine_assign (h : Assigns l name value) (d : List CfgDef) :
    cfgParseLine l d =
      match cfgParseAssign name value d with
      | some d => (d, 0)
      | none => (d, -1) := by
  obtain ⟨ws₁, ws₂, ws₃, ws₄, hws, hname, hvalue, rfl⟩ := h
  simp only [List.mem_append, or_imp, forall_and] at hws
  obtain ⟨⟨⟨h₁, h₂⟩, h₃⟩, h₄⟩ := hws
  obtain ⟨c, cs, rfl⟩ := List.exists_cons_of_ne_nil hname.ne_nil
  have hvalue' : rtrim (skipWs (ws₃ ++ (value ++ ws₄))) = value := trim_eq h₃ hvalue h₄
  generalize ws₃ ++ (value ++ ws₄) = rest at hvalue' ⊢
  have hskip : skipWs (ws₁ ++ (c :: cs ++ (ws₂ ++ chEq :: rest))) =
      c :: cs ++ (ws₂ ++ chEq :: rest) := by
    rw [skipWs, dropWhile_of_all h₁]
    refine dropWhile_of_head fun x hx => ?_
    exact hname.not_space x (Option.some.inj hx ▸ List.mem_cons_self)
  have hval : skipWs (skipName (c :: cs ++ (ws₂ ++ chEq :: rest))) = chEq :: rest := by
    rw [skipName_eq hname.chars h₂, skipWs_eq h₂]
  have htake : (c :: cs ++ (ws₂ ++ chEq :: rest)).take
      ((c :: cs ++ (ws₂ ++ chEq :: rest)).length - (chEq :: rest).length) = c :: cs ++ ws₂ := by
    rw [← List.append_assoc]
    exact take_length_sub (c :: cs ++ ws₂) (chEq :: rest)
  have htrim : rtrim (c :: cs ++ ws₂) = c :: cs := by
    rw [rtrim, rdropWhile_of_all h₂, rdropWhile_of_last hname.trimmed.2]
  unfold cfgParseLine
  simp only [hskip, hval, htake, htrim]
  rw [if_neg, if_neg fun h => h rfl, if_neg hname.ne_nil, List.tail_cons, hvalue']
  rintro (hhash | hnil)
  · exact hname.head hhash
  · cases hnil

/-- **The grammar is complete**: what is neither of its lines is rejected. -/
theorem cfgParseLine_cases (l : Bytes) : SaysNothing l ∨ (∃ name value, Assigns l name value) ∨
    ∀ d, cfgParseLine l d = (d, -1) := by
  have hws₁ : ∀ c ∈ l.takeWhile isspace, isspace c = true := fun c hc => List.mem_takeWhile_imp hc
  have hline : l.takeWhile isspace ++ skipWs l = l := List.takeWhile_append_dropWhile
  by_cases hblank : skipWs l = []
  · exact .inl (.inl (List.dropWhile_eq_nil_iff.mp hblank))
  by_cases hhash : (skipWs l).head? = some chHash
  · obtain ⟨rest, hrest⟩ := List.head?_eq_some_iff.mp hhash
    exact .inl (.inr ⟨_, rest, hws₁, by rw [← hrest, hline]⟩)
  have hfirst : ¬ ((skipWs l).head? = some chHash ∨ skipWs l = []) := fun h => h.elim hhash hblank
  by_cases heq : (skipWs (skipName (skipWs l))).head? = some chEq
  · obtain ⟨rest, hrest⟩ := List.head?_eq_some_iff.mp heq
    -- The parts of the line, in order.
    let name := (skipWs l).takeWhile isNameChar
    let ws₂ := (skipName (skipWs l)).takeWhile isspace
    have hws₂ : ∀ c ∈ ws₂, isspace c = true := fun c hc => List.mem_takeWhile_imp hc
    have hchars : ∀ c ∈ name, isNameChar c = true := fun c hc => List.mem_takeWhile_imp hc
    have hafter : ws₂ ++ chEq :: rest = skipName (skipWs l) := by
      rw [← hrest]
      exact List.takeWhile_append_dropWhile
    have hparts : name ++ (ws₂ ++ chEq :: rest) = skipWs l := by
      rw [hafter]
      exact List.takeWhile_append_dropWhile
    by_cases hnil : name = []
    · refine .inr (.inr fun d => ?_)
      have htake : (skipWs l).take ((skipWs l).length - (chEq :: rest).length) = ws₂ := by
        rw [← hparts, hnil, List.nil_append]
        exact take_length_sub ws₂ (chEq :: rest)
      have htrim : rtrim ws₂ = [] := List.rdropWhile_eq_nil_iff.mpr hws₂
      unfold cfgParseLine
      simp only [hrest, htake, htrim]
      rw [if_neg hfirst, if_neg fun h => h rfl, if_pos trivial]
    · obtain ⟨ws₃, ws₄, hws₃, hws₄, hvalue, htrimmed⟩ := trim_spec isspace rest
      refine .inr (.inl ⟨name, _, l.takeWhile isspace, ws₂, ws₃, ws₄, ?_, ⟨hnil, ?_, hchars⟩,
        htrimmed, ?_⟩)
      · simp only [List.mem_append, or_imp, forall_and]
        exact ⟨⟨⟨hws₁, hws₂⟩, hws₃⟩, hws₄⟩
      · intro hhead
        apply hhash
        rw [← hparts, List.head?_append_of_ne_nil _ hnil, hhead]
      · rw [← hvalue, hparts, hline]
  · refine .inr (.inr fun d => ?_)
    unfold cfgParseLine
    simp only
    rw [if_neg hfirst, if_pos heq]

/-- A good assignment shows in the table that defines its name, and returns 0 there. -/
theorem Assigns.accepted (h : Assigns l name value) : cfgParseLine l [⟨name, .other⟩] =
    ([⟨name, .other⟩], 0) := by
  rw [cfgParseLine_assign h, cfgParseAssign, if_pos rfl]
  rfl

/-- **What the parser does with a line is what the grammar says.** -/
theorem cfgLineStep_iff {d d' : List CfgDef} {ok : Bool} :
    CfgLineStep l d d' ok ↔ cfgParseLine l d = (d', if ok then 0 else -1) := by
  have hne : (0 : Int32) ≠ -1 := by decide
  constructor
  · intro h
    cases h with
    | nothing hno => exact cfgParseLine_nothing hno d
    | set ha hpre hp => rw [cfgParseLine_assign ha, cfgParseAssign_append _ hpre hp]; rfl
    | undefined ha hnone => rw [cfgParseLine_assign ha, cfgParseAssign_none _ hnone]; rfl
    | malformed hno hna =>
        rcases cfgParseLine_cases l with h | ⟨name, value, h⟩ | h
        · exact absurd h hno
        · exact absurd h (hna name value)
        · exact h d
  · intro h
    -- What `cfg_parse_line` returns tells good lines from bad ones.
    have hok : ∀ {e : List CfgDef}, (e, (0 : Int32)) = (d', if ok then 0 else -1) →
        e = d' ∧ ok = true := by
      intro e he
      cases ok with
      | false => exact absurd (Prod.mk.inj he).2 hne
      | true => exact ⟨(Prod.mk.inj he).1, rfl⟩
    have hbad : ∀ {e : List CfgDef}, (e, (-1 : Int32)) = (d', if ok then 0 else -1) →
        e = d' ∧ ok = false := by
      intro e he
      cases ok with
      | false => exact ⟨(Prod.mk.inj he).1, rfl⟩
      | true => exact absurd (Prod.mk.inj he).2 hne.symm
    rcases cfgParseLine_cases l with hno | ⟨name, value, ha⟩ | hall
    · rw [cfgParseLine_nothing hno] at h
      obtain ⟨rfl, rfl⟩ := hok h
      exact .nothing hno
    · rw [cfgParseLine_assign ha] at h
      rcases cfgParseAssign_cases name value d with
        ⟨hnone, hundef⟩ | ⟨pre, p, post, rfl, hpre, hp, hsome⟩
      · rw [hnone] at h
        obtain ⟨rfl, rfl⟩ := hbad h
        exact .undefined ha hundef
      · rw [hsome] at h
        obtain ⟨rfl, rfl⟩ := hok h
        exact .set ha hpre hp
    · rw [hall] at h
      obtain ⟨rfl, rfl⟩ := hbad h
      refine .malformed (fun hno => ?_) fun name value ha => ?_
      · exact hne (Prod.mk.inj ((cfgParseLine_nothing hno []).symm.trans (hall []))).2
      · exact hne (Prod.mk.inj (ha.accepted.symm.trans (hall _))).2

/-! ## Line breaks -/

/-- A line says what it says with a line break behind it. -/
theorem cfgParseLine_lf (l : Bytes) (d : List CfgDef) :
    cfgParseLine (l ++ [chLF]) d = cfgParseLine l d := by
  have hlf : isspace chLF = true := by decide
  have hspace : ∀ {w : Bytes}, (∀ c ∈ w, isspace c = true) →
      ∀ c ∈ w ++ [chLF], isspace c = true := by
    intro w hw c hc
    rcases List.mem_append.mp hc with hc | hc
    · exact hw c hc
    · rw [List.mem_singleton.mp hc]
      exact hlf
  -- What stands before the line break, when the line starts with `x` and a character.
  have hinit : ∀ {x y : Bytes} {c : UInt8}, c ≠ chLF → l ++ [chLF] = x ++ c :: y →
      ∃ y', l = x ++ c :: y' := by
    intro x y c hc heq
    rcases List.eq_nil_or_concat y with rfl | ⟨y', z, rfl⟩
    · exact absurd (List.append_inj_right' heq rfl) (by simp [hc.symm])
    · rw [List.concat_eq_append, ← List.cons_append, ← List.append_assoc] at heq
      exact ⟨y', List.append_inj_left' heq rfl⟩
  rcases cfgParseLine_cases l with hno | ⟨name, value, ha⟩ | hall
  · have hno' : SaysNothing (l ++ [chLF]) := by
      rcases hno with hblank | ⟨ws, rest, hws, rfl⟩
      · exact .inl (hspace hblank)
      · exact .inr ⟨ws, rest ++ [chLF], hws, by rw [List.append_assoc, List.cons_append]⟩
    rw [cfgParseLine_nothing hno, cfgParseLine_nothing hno']
  · have ha' : Assigns (l ++ [chLF]) name value := by
      obtain ⟨ws₁, ws₂, ws₃, ws₄, hws, hname, hvalue, rfl⟩ := ha
      refine ⟨ws₁, ws₂, ws₃, ws₄ ++ [chLF], ?_, hname, hvalue, by simp⟩
      rw [← List.append_assoc]
      exact hspace hws
    rw [cfgParseLine_assign ha, cfgParseLine_assign ha']
  · have hne : (0 : Int32) ≠ -1 := by decide
    rcases cfgParseLine_cases (l ++ [chLF]) with hno | ⟨name, value, ha⟩ | hall'
    · have hno' : SaysNothing l := by
        rcases hno with hblank | ⟨ws, rest, hws, heq⟩
        · exact .inl fun c hc => hblank c (List.mem_append_left _ hc)
        · obtain ⟨rest', rfl⟩ := hinit (by decide) heq
          exact .inr ⟨ws, rest', hws, rfl⟩
      exact absurd (Prod.mk.inj ((cfgParseLine_nothing hno' d).symm.trans (hall d))).2 hne
    · obtain ⟨ws₁, ws₂, ws₃, ws₄, hws, hname, -, heq⟩ := ha
      rw [← List.append_assoc, ← List.append_assoc] at heq
      obtain ⟨rest, hl⟩ := hinit (by decide) heq
      obtain ⟨w, w', hw, hw', hrest, htrimmed⟩ := trim_spec isspace rest
      have ha' : Assigns l name ((rest.dropWhile isspace).rdropWhile isspace) := by
        simp only [List.mem_append, or_imp, forall_and] at hws
        refine ⟨ws₁, ws₂, w, w', ?_, hname, htrimmed, ?_⟩
        · simp only [List.mem_append, or_imp, forall_and]
          exact ⟨⟨hws.1.1, hw⟩, hw'⟩
        · rw [hl, ← hrest, List.append_assoc, List.append_assoc]
      exact absurd (Prod.mk.inj (ha'.accepted.symm.trans (hall _))).2 hne
    · rw [hall, hall']

end Line

/-! ## Files -/

/-- A line does one thing. -/
theorem cfgLineStep_unique (l : Bytes) (d : List CfgDef) :
    ∃ e good, cfgParseLine l d = (e, if good = true then 0 else -1) ∧
      ∀ d' ok, CfgLineStep l d d' ok ↔ d' = e ∧ ok = good := by
  obtain ⟨e, good, hline⟩ : ∃ e good, cfgParseLine l d = (e, if good = true then 0 else -1) := by
    rcases cfgParseLine_cases l with hno | ⟨name, value, ha⟩ | hall
    · exact ⟨d, true, cfgParseLine_nothing hno d⟩
    · rw [cfgParseLine_assign ha]
      cases cfgParseAssign name value d with
      | none => exact ⟨d, false, rfl⟩
      | some e => exact ⟨e, true, rfl⟩
    · exact ⟨d, false, hall d⟩
  have hcode : ∀ a b : Bool, (if a = true then (0 : Int32) else -1) = (if b = true then 0 else -1) ↔
      a = b := by decide
  refine ⟨e, good, hline, fun d' ok => ?_⟩
  rw [cfgLineStep_iff, hline, Prod.mk.injEq, hcode, eq_comm (a := e), eq_comm (a := good)]

/-- The line is malformed, or names a variable that is not in the table. -/
def BadLine (d : List CfgDef) (l : Bytes) : Prop := CfgLineStep l d d false

instance (d : List CfgDef) (l : Bytes) : Decidable (BadLine d l) :=
  decidable_of_iff _ cfgLineStep_iff.symm

/-- A line leaves the names of the table, and a bad one leaves the values as well. -/
theorem CfgLineStep.table {l : Bytes} {d d' : List CfgDef} {ok : Bool} (h : CfgLineStep l d d' ok) :
    d'.map CfgDef.name = d.map CfgDef.name ∧ (ok = false → d' = d) := by
  cases h with
  | nothing => exact ⟨rfl, fun _ => rfl⟩
  | set => exact ⟨by simp, fun hok => by cases hok⟩
  | undefined => exact ⟨rfl, fun _ => rfl⟩
  | malformed => exact ⟨rfl, fun _ => rfl⟩

/-- Which lines are bad is a matter of the names that are defined. -/
theorem BadLine.congr {d e : List CfgDef} {l : Bytes} (hnames : d.map CfgDef.name = e.map CfgDef.name)
    (h : BadLine d l) : BadLine e l := by
  have hstep : ∀ {d' ok}, CfgLineStep l d d' ok → ok = false → BadLine e l := by
    intro d' ok h hok
    cases h with
    | nothing => cases hok
    | set => cases hok
    | malformed hno hna => exact .malformed hno hna
    | @undefined name value _ ha hnone =>
        refine .undefined ha fun p hp hname => ?_
        obtain ⟨q, hq, heq⟩ := List.mem_map.mp (hnames ▸ List.mem_map_of_mem hp)
        exact hnone q hq (heq.trans hname)
  exact hstep h rfl

theorem countP_badLine {d e : List CfgDef} (hnames : d.map CfgDef.name = e.map CfgDef.name)
    (ls : List Bytes) :
    ls.countP (fun l => decide (BadLine d l)) = ls.countP (fun l => decide (BadLine e l)) := by
  have hbad : ∀ l, BadLine d l ↔ BadLine e l := fun l => ⟨.congr hnames, .congr hnames.symm⟩
  simp only [hbad]

/-- What the loop makes of lines, one after the other: it counts the bad ones. -/
theorem cfgRun_spec {ls : List Bytes} (hnul : ∀ l ∈ ls, 0 ∉ l) (d : List CfgDef) :
    ∃ e bad, bad = ls.countP (fun l => decide (BadLine d l)) ∧
      (∀ r, ls.foldl cfgParsePiece (d, r) = (e, r + Int32.ofInt (-(bad : Nat)))) ∧
      ∀ d' ok, CfgRun ls d d' ok ↔ d' = e ∧ ok = decide (bad = 0) := by
  induction ls generalizing d with
  | nil =>
      refine ⟨d, 0, rfl, fun r => Prod.ext rfl (Int32.add_zero r).symm, fun d' ok => ?_⟩
      constructor
      · rintro ⟨⟩
        exact ⟨rfl, rfl⟩
      · rintro ⟨rfl, rfl⟩
        exact .nil
  | cons l ls ih =>
      have hl : l.takeWhile (· ≠ 0) = l := takeWhile_ne_eq_self (hnul l List.mem_cons_self)
      obtain ⟨d₁, good, hline, hstep⟩ := cfgLineStep_unique l d
      obtain ⟨e, bad, hcount, hfold, hrun⟩ := ih (fun l hl => hnul l (List.mem_cons_of_mem _ hl)) d₁
      obtain ⟨hnames, hsame⟩ := ((hstep d₁ good).mpr ⟨rfl, rfl⟩).table
      refine ⟨e, bad + (if good = true then 0 else 1), ?_, fun r => ?_, fun d' ok => ?_⟩
      · rw [List.countP_cons, hcount, countP_badLine hnames]
        have hgood : BadLine d l ↔ good = false := by
          rw [BadLine, hstep]
          exact ⟨fun h => h.2.symm, fun h => ⟨(hsame h).symm, h.symm⟩⟩
        cases good <;> simp [hgood]
      · -- The result counts the bad lines downwards.
        have hsum : (if good = true then (0 : Int32) else -1) + Int32.ofInt (-(bad : Int)) =
            Int32.ofInt (-((bad + if good = true then 0 else 1 : Nat) : Int)) := by
          cases good with
          | true => exact Int32.zero_add _
          | false =>
              show Int32.ofInt (-1) + Int32.ofInt (-(bad : Int)) = Int32.ofInt (-((bad + 1 : Nat) : Int))
              rw [← Int32.ofInt_add]
              congr 1
              omega
        rw [List.foldl_cons, cfgParsePiece, hl, hline]
        simp only [hfold]
        rw [Int32.add_assoc, hsum]
      · have hall : decide (bad + (if good = true then 0 else 1) = 0) =
            (good && decide (bad = 0)) := by
          cases good <;> simp
        rw [hall]
        constructor
        · rintro (_ | ⟨hfirst, hrest⟩)
          obtain ⟨rfl, rfl⟩ := (hstep _ _).mp hfirst
          obtain ⟨rfl, rfl⟩ := (hrun _ _).mp hrest
          exact ⟨rfl, rfl⟩
        · rintro ⟨rfl, rfl⟩
          exact .cons ((hstep _ _).mpr ⟨rfl, rfl⟩) ((hrun _ _).mpr ⟨rfl, rfl⟩)

/-- A line break at the end of a piece changes nothing. -/
theorem cfgParsePiece_lf (q : List CfgDef × Int32) (l : Bytes) :
    cfgParsePiece q (l ++ [chLF]) = cfgParsePiece q l := by
  unfold cfgParsePiece
  by_cases h0 : 0 ∈ l
  · rw [(takeWhile_ne_of_mem h0 [chLF]).1]
  · have hl0 : 0 ∉ l ++ [chLF] := by
      rw [List.mem_append, not_or]
      exact ⟨h0, by decide⟩
    rw [takeWhile_ne_eq_self h0, takeWhile_ne_eq_self hl0, cfgParseLine_lf]

/-- **The file is processed line by line**, in every way the grammar allows and in no other,
if every line fits the buffer and the bad ones can be counted in an `int`. -/
theorem parse_lines {text : Bytes} (hnul : 0 ∉ text)
    (hlen : ∀ l ∈ text.splitOn chLF, l.length ≤ CFG_CHARS) {d : List CfgDef}
    (hbad : (text.splitOn chLF).countP (fun l => decide (BadLine d l)) ≤ 2 ^ 31)
    (d' : List CfgDef) (ok : Bool) :
    CfgRun (text.splitOn chLF) d d' ok ↔
      d' = (cfgParseFp text d).1 ∧ (ok = true ↔ (cfgParseFp text d).2 = 0) := by
  have hmem : ∀ l ∈ text.splitOn chLF, 0 ∉ l :=
    fun l hl h0 => hnul ((of_mem_splitOn hl).2 0 h0)
  have hpieces := foldl_fgetsAll (g := cfgParsePiece)
    (fun q => Prod.ext rfl (Int32.add_zero q.2)) cfgParsePiece_lf (by decide) hlen (d, 0)
  obtain ⟨e, bad, hcount, hfold, hrun⟩ := cfgRun_spec hmem d
  rw [← hcount] at hbad
  unfold cfgParseFp
  rw [hpieces, hfold, hrun]
  have hzero : (0 : Int32) + Int32.ofInt (-(bad : Int)) = 0 ↔ bad = 0 := by
    rw [Int32.zero_add, ← Int32.toInt_inj, Int32.toInt_ofInt]
    show (-(bad : Int)).bmod (2 ^ 32) = 0 ↔ _
    rw [Int.bmod_def]
    omega
  have hret : (if (0 : Int32) + Int32.ofInt (-(bad : Int)) ≠ 0 then (-1 : Int) else 0) = 0 ↔
      bad = 0 := by
    by_cases hb : bad = 0
    · simp [hb]
    · rw [if_pos fun h => hb (hzero.mp h)]
      simp [hb]
  rw [hret, Bool.eq_iff_iff, decide_eq_true_eq]

/-- A name with a value, a comment, and a line that is bad for most tables. -/
theorem parse_lines_host :
    (0 ∉ ascii "# a\n host = x y \nb" ∧
      (∀ l ∈ (ascii "# a\n host = x y \nb").splitOn chLF, l.length ≤ CFG_CHARS)) ∧
    ∀ d d' ok, CfgRun ((ascii "# a\n host = x y \nb").splitOn chLF) d d' ok ↔
      d' = (cfgParseFp (ascii "# a\n host = x y \nb") d).1 ∧
        (ok = true ↔ (cfgParseFp (ascii "# a\n host = x y \nb") d).2 = 0) :=
  ⟨by decide, fun _ => parse_lines (by decide) (by decide)
    (Nat.le_trans List.countP_le_length (by decide))⟩

/-- A comment that fills the buffer. -/
@[irreducible] def longComment : Bytes := chHash :: List.replicate 3998 0x78

theorem longComment_spec : longComment.length = CFG_CHARS ∧ chLF ∉ longComment ∧
    0 ∉ longComment ∧ ∃ rest, longComment = chHash :: rest := by
  unfold longComment
  refine ⟨by rw [List.length_cons, List.length_replicate]; rfl, ?_, ?_, _, rfl⟩
  · intro h
    rcases List.mem_cons.mp h with h | h
    · exact absurd h (by decide)
    · exact absurd (List.eq_of_mem_replicate h) (by decide)
  · intro h
    rcases List.mem_cons.mp h with h | h
    · exact absurd h (by decide)
    · exact absurd (List.eq_of_mem_replicate h) (by decide)

/-- The table of one variable. -/
def hostDef (s : String) : List CfgDef := [⟨ascii "host", .str (ascii s)⟩]

/-- What follows it on the line is read as a line of its own. -/
theorem comment_assigns :
    0 ∉ longComment ++ ascii "host=x" ∧
      ¬ ∀ d d' ok, CfgRun ((longComment ++ ascii "host=x").splitOn chLF) d d' ok ↔
        d' = (cfgParseFp (longComment ++ ascii "host=x") d).1 ∧
          (ok = true ↔ (cfgParseFp (longComment ++ ascii "host=x") d).2 = 0) := by
  obtain ⟨hlen, hlf, hnul, rest, hrest⟩ := longComment_spec
  have hno : ∀ t, SaysNothing (longComment ++ t) :=
    fun t => .inr ⟨[], rest ++ t, fun _ h => absurd h List.not_mem_nil, by rw [hrest]; rfl⟩
  have hline : chLF ∉ longComment ++ ascii "host=x" := by
    rw [List.mem_append, not_or]
    exact ⟨hlf, by decide⟩
  refine ⟨?_, fun h => ?_⟩
  · rw [List.mem_append, not_or]
    exact ⟨hnul, by decide⟩
  · have hrun : CfgRun ((longComment ++ ascii "host=x").splitOn chLF) (hostDef "a") (hostDef "a")
        (true && true) := by
      rw [List.splitOn_eq_singleton hline]
      exact .cons (.nothing (hno _)) .nil
    obtain ⟨hsame, -⟩ := (h _ _ _).mp hrun
    have hfirst : cfgParsePiece (hostDef "a", 0) longComment = (hostDef "a", 0) := by
      rw [cfgParsePiece, takeWhile_ne_eq_self hnul, ← List.append_nil longComment,
        cfgParseLine_nothing (hno [])]
      rfl
    have hsecond : (cfgParsePiece (hostDef "a", 0) (ascii "host=x")).1 = hostDef "x" := by
      decide
    have hpieces : fgetsAll CFG_CHARS (longComment ++ ascii "host=x") =
        [longComment, ascii "host=x"] := by
      rw [fgetsAll_long (by decide) hlf hlen,
        fgetsAll_last (by decide) (by decide) (by decide) (by decide)]
    rw [cfgParseFp, hpieces, List.foldl_cons, List.foldl_cons, List.foldl_nil, hfirst] at hsame
    exact absurd (hsame.trans hsecond) (by decide)

end Frelay
