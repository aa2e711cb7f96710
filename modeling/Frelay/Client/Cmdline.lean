import Frelay.Lib.Arguments
import Frelay.Message.Types

/-!
# The command line (`process_stdin` in `cltmain.c`)

A line that is typed is divided into arguments in place: the tokenizer overwrites what
separates them. PING, CD and CMD take the rest of the line as it was typed, from a copy
that was made before, at the place where the argument is in the divided line.

* `tokenize_eq`, `exists_reads` — the tokenizer finds the arguments that a line is written
  with, and every line is written with some;
* `raw_tail_iff` — the three commands get what was typed exactly if the line repeats
  what stands in front of its first argument, in particular if nothing does.
-/

namespace Frelay

open Lib

/-! ## The line -/

def MAX_ARG : Nat := 10
def MAX_CMDLINE : Nat := 4000

/-- The loop that reads one octet after the other, through the line break, as long as
there is room for `n`; the end of the input ends the client. -/
def readLine : Nat → Bytes → Option Bytes
  | 0, _ => some []
  | _ + 1, [] => none
  | n + 1, c :: s => if c = chLF then some [c] else (readLine n s).map (c :: ·)

/-- The string that starts in the array. -/
def cstring (b : Bytes) : Bytes := b.takeWhile (· ≠ 0)

/-! ## The tokenizer -/

/-- `line`, divided where `cp` points to; what lies behind may have been overwritten. -/
structure Cursor where
  behind : Bytes
  cp : Bytes
  deriving DecidableEq

namespace Cursor

/-- `cp += n`. -/
def skip (c : Cursor) (n : Nat) : Cursor := ⟨c.behind ++ c.cp.take n, c.cp.drop n⟩

/-- `*cp++ = '\0'`, `n` times. -/
def blank (c : Cursor) (n : Nat) : Cursor := ⟨c.behind ++ List.replicate n 0, c.cp.drop n⟩

/-- The same for all white space. -/
def blankSpace (c : Cursor) : Cursor := c.blank (c.cp.takeWhile isspace).length

end Cursor

/-- How far the scan for the end of a quoted argument gets. -/
def quotedLen : Bytes → Nat
  | [] => 0
  | [c] => if c = chQuote then 0 else 1
  | c :: d :: s =>
      if c = chQuote then 0
      else if c = chBackslash ∧ d = chQuote then quotedLen s + 2
      else quotedLen (d :: s) + 1

/-- One argument: where `arg[a]` points to, and `cp` in front of the next one. -/
def scanArg (c : Cursor) : Nat × Cursor :=
  if c.cp.head? = some chQuote then
    let start := c.skip 1
    let stop := start.skip (quotedLen start.cp)
    let stop := if stop.cp.head? = some chQuote then stop.blank 1 else stop
    (start.behind.length, stop.blankSpace)
  else (c.behind.length, (c.skip (c.cp.takeWhile fun x => !isspace x).length).blankSpace)

/-- The loop over the arguments, with room for `n` of them. -/
def scanArgs : Nat → Cursor → List Nat × Cursor
  | 0, c => ([], c)
  | n + 1, c =>
      if c.cp = [] then ([], c)
      else
        let (p, c) := scanArg c
        let (ps, c) := scanArgs n c
        (p :: ps, c)

/-- `line` after the tokenizer, and where the elements of `arg` point to. -/
structure Tokens where
  line : Bytes
  arg : List Nat

/-- Ye lousy tokeniz0r. -/
def tokenize (line : Bytes) : Tokens :=
  let c : Cursor := ⟨[], line⟩
  let (arg, c) := scanArgs MAX_ARG (c.skip (c.cp.takeWhile isspace).length)
  { line := c.behind ++ c.cp, arg := arg }

/-- The string `arg[k]`. -/
def Tokens.str (t : Tokens) (k : Nat) : Option Bytes :=
  t.arg[k]?.map fun p => cstring (t.line.drop p)

/-- The copy of the line, cut off: `arg[a-1] - arg[0] + strlen( arg[a-1] )`. -/
def Tokens.aline (t : Tokens) (line : Bytes) : Bytes :=
  match t.arg.head?, t.arg.getLast? with
  | some first, some last => line.set (last - first + (cstring (t.line.drop last)).length) 0
  | _, _ => line

/-- `aline + ( arg[k] - arg[0] )`. -/
def Tokens.raw (t : Tokens) (line : Bytes) (k : Nat) : Option Bytes :=
  t.arg[k]?.map fun p => cstring ((t.aline line).drop (p - t.arg.headD 0))

/-! ## Commands -/

/-- `enum cmd_enum`. -/
inductive CmdEnum where
  | none | accept | cd | cmd | connect | disconnect | drop | exit | help | list | login
  | logout | offer | peerlist | ping | pwd | register | remove | sh
  deriving DecidableEq

/-- `cmd_list` without the help texts. -/
def cmdList : List (Bytes × CmdEnum) :=
  [(ascii "?", .help), (ascii "!", .sh), (ascii "^", .cmd), (ascii "accept", .accept),
    (ascii "bye", .exit), (ascii "cd", .cd), (ascii "close", .disconnect), (ascii "cmd", .cmd),
    (ascii "connect", .connect), (ascii "delete", .remove), (ascii "disconnect", .disconnect),
    (ascii "drop", .drop), (ascii "exit", .exit), (ascii "help", .help), (ascii "lcd", .cd),
    (ascii "list", .list), (ascii "login", .login), (ascii "logout", .logout),
    (ascii "offer", .offer), (ascii "open", .connect), (ascii "peerlist", .peerlist),
    (ascii "ping", .ping), (ascii "pwd", .pwd), (ascii "quit", .exit),
    (ascii "register", .register), (ascii "remove", .remove), (ascii "sh", .sh),
    (ascii "who", .peerlist)]

/-- The search for the command; nothing comes of a name that fits twice. -/
def findCmd (name : Bytes) : List (Bytes × CmdEnum) → CmdEnum → Option CmdEnum
  | [], found => some found
  | (x, e) :: l, found =>
      if strnicmp x name name.length ≠ 0 then findCmd name l found
      else if found ≠ .none then .none
      else findCmd name l e

/-- What a line makes the client do. The commands that take their arguments one by one
are left as they are. -/
inductive Typed where
  | nothing
  | ambiguous
  | ping (dest : UInt64) (notice : Option Bytes)
  | cd (dir : Option Bytes)
  | cmd (prog : Option Bytes)
  | other (e : CmdEnum) (arg : List Bytes)
  deriving DecidableEq

/-- The line after it has been read. -/
def processLine (line : Bytes) : Typed :=
  let t := tokenize line
  match t.str 0 with
  | none | some [] => .nothing
  | some name =>
      match findCmd name cmdList .none with
      | none => .ambiguous
      | some .ping => .ping (((t.str 1).map fun s => (strtoull16 s).1).getD 0) (t.raw line 2)
      | some .cd => .cd (t.raw line 1)
      | some .cmd => .cmd (t.raw line 1)
      | some e => .other e ((List.range t.arg.length).filterMap t.str)

/-- `process_stdin`. -/
def processStdin (stdin : Bytes) : Option Typed :=
  (readLine (MAX_CMDLINE - 1) stdin).map fun b => processLine (cstring b)

/-! ## How a line is divided -/

/-- The quoted characters end where the line does, or in front of the mark that closes them. -/
theorem quotedLen_append {w t : Bytes} (h : Quoted w)
    (ht : t = [] ∨ t.head? = some chQuote ∧ w.getLast? ≠ some chBackslash) :
    quotedLen (w ++ t) = w.length := by
  have hstop : ∀ {t : Bytes}, t = [] ∨ t.head? = some chQuote → quotedLen t = 0 := by
    intro t ht
    match t, ht with
    | [], _ => rfl
    | [c], .inr hc => exact if_pos (Option.some.inj hc)
    | c :: d :: s, .inr hc => exact if_pos (Option.some.inj hc)
  -- By the number of characters that the scan looks at, two at a time where one escapes the other.
  match w with
  | [] => exact hstop (ht.imp id And.left)
  | [c] =>
      have hc : c ≠ chQuote := fun hc => h.head (congrArg some hc)
      rcases ht with rfl | ⟨ht, hlast⟩
      · exact if_neg hc
      · obtain ⟨t, rfl⟩ : ∃ s, t = chQuote :: s := by
          cases t with
          | nil => cases ht
          | cons x s => exact ⟨s, by rw [Option.some.inj ht]⟩
        have hb : ¬ (c = chBackslash ∧ chQuote = chQuote) := fun hb => hlast (congrArg some hb.1)
        rw [List.singleton_append, quotedLen, if_neg hc, if_neg hb, hstop (.inr rfl)]
        rfl
  | c :: d :: s =>
      have hc : c ≠ chQuote := fun hc => h.head (congrArg some hc)
      rw [List.cons_append, List.cons_append, quotedLen, if_neg hc]
      by_cases hesc : c = chBackslash ∧ d = chQuote
      · have hs : Quoted s := Quoted.of_append (p := [c, d]) h (.inl (by simp [hesc.2]; decide))
        have ht' : t = [] ∨ t.head? = some chQuote ∧ s.getLast? ≠ some chBackslash := by
          refine ht.imp id fun ht => ⟨ht.1, fun hl => ht.2 ?_⟩
          have hne : s ≠ [] := by
            rintro rfl
            cases hl
          rw [List.getLast?_cons_cons, List.getLast?_cons_of_ne_nil hne]
          exact hl
        rw [if_pos hesc, quotedLen_append hs ht']
        rfl
      · have hs : Quoted (d :: s) := by
          refine Quoted.of_append (p := [c]) h ?_
          by_cases hb : c = chBackslash
          · exact .inr fun hq => hesc ⟨hb, Option.some.inj hq⟩
          · exact .inl fun hl => hb (Option.some.inj hl)
        have ht' : t = [] ∨ t.head? = some chQuote ∧ (d :: s).getLast? ≠ some chBackslash := by
          refine ht.imp id fun ht => ⟨ht.1, fun hl => ht.2 ?_⟩
          rw [List.getLast?_cons_cons]
          exact hl
        rw [if_neg hesc, ← List.cons_append, quotedLen_append hs ht']
        rfl

/-- What an argument is overwritten with. -/
def blanked (a : Arg) : Bytes := a.opening ++ a.word ++ List.replicate a.sep.length 0

/-- Where the arguments begin when the first one is at `off`. -/
def starts : Nat → List Arg → List Nat
  | _, [] => []
  | off, a :: as => (off + a.opening.length) :: starts (off + a.text.length) as

namespace Cursor

theorem skip_append (b w s : Bytes) : (Cursor.mk b (w ++ s)).skip w.length = ⟨b ++ w, s⟩ := by
  rw [skip, List.take_left, List.drop_left]

theorem blank_append (b w s : Bytes) :
    (Cursor.mk b (w ++ s)).blank w.length = ⟨b ++ List.replicate w.length 0, s⟩ := by
  rw [blank, List.drop_left]

theorem blankSpace_append {ws s : Bytes} (hws : ∀ c ∈ ws, isspace c = true) (hs : NoBlank s)
    (b : Bytes) : (Cursor.mk b (ws ++ s)).blankSpace = ⟨b ++ List.replicate ws.length 0, s⟩ := by
  rw [blankSpace, takeWhile_append_of_head hws hs, blank_append]

end Cursor

/-- An argument in quotes. -/
theorem scanArg_quote (b s : Bytes) :
    scanArg ⟨b, [chQuote] ++ s⟩ =
      let stop := (Cursor.mk (b ++ [chQuote]) s).skip (quotedLen s)
      ((b ++ [chQuote]).length,
        (if stop.cp.head? = some chQuote then stop.blank 1 else stop).blankSpace) := rfl

/-- The scan of one argument. -/
theorem scanArg_eq {a : Arg} {s : Bytes} (h : a.Before s) (hs : NoBlank s) (b : Bytes) :
    scanArg ⟨b, a.text ++ s⟩ = (b.length + a.opening.length, ⟨b ++ (blanked a), s⟩) := by
  cases h with
  | @bare w ws rest hne hq hw hws hlast =>
      have hhead : (w ++ (ws ++ s)).head? ≠ some chQuote := by
        rwa [List.head?_append_of_ne_nil _ hne]
      have hword : (w ++ (ws ++ s)).takeWhile (fun x => !isspace x) = w := by
        refine takeWhile_append_of_head (fun c hc => by rw [hw c hc]; rfl) fun c hc => ?_
        cases ws with
        | nil =>
            rw [hlast rfl] at hc
            cases hc
        | cons x ws =>
            obtain rfl : x = c := Option.some.inj hc
            rw [hws x List.mem_cons_self]
            rfl
      have htext : (Arg.mk [] w ws).text ++ s = w ++ (ws ++ s) := List.append_assoc w ws s
      rw [htext, scanArg, if_neg hhead]
      dsimp only
      rw [hword, Cursor.skip_append, Cursor.blankSpace_append hws hs, List.append_assoc]
      rfl
  | @quoted w ws rest hw hlast hws =>
      have htext : (Arg.mk [chQuote] w (chQuote :: ws)).text ++ s =
          [chQuote] ++ (w ++ ([chQuote] ++ (ws ++ s))) := by
        simp [Arg.text]
      have hq : ([chQuote] ++ (ws ++ s)).head? = some chQuote := rfl
      rw [htext, scanArg_quote, quotedLen_append hw (.inr ⟨hq, hlast⟩), Cursor.skip_append]
      dsimp only
      rw [if_pos hq, show 1 = [chQuote].length from rfl, Cursor.blank_append,
        Cursor.blankSpace_append hws hs, List.length_append]
      simp [blanked, List.replicate_succ]
  | @unclosed w hw =>
      have htext : (Arg.mk [chQuote] w []).text ++ [] = [chQuote] ++ (w ++ []) := by
        simp [Arg.text]
      rw [htext, scanArg_quote, quotedLen_append hw (.inl rfl), Cursor.skip_append]
      dsimp only
      rw [if_neg (fun hq => by cases hq), List.length_append]
      simp [blanked, Cursor.blankSpace, Cursor.blank]

theorem text_length (a : Arg) : (blanked a).length = a.text.length := by
  simp [blanked, Arg.text]

/-- **The scan of all arguments** divides the line as it is written. -/
theorem scanArgs_eq {n : Nat} {s rest : Bytes} {as : List Arg} (h : Lexes n s as rest) (b : Bytes) :
    scanArgs n ⟨b, s⟩ = (starts b.length as, ⟨b ++ as.flatMap blanked, rest⟩) := by
  induction h generalizing b with
  | full => rw [scanArgs, List.flatMap_nil, List.append_nil, starts]
  | @done n =>
      cases n with
      | zero => rw [scanArgs, List.flatMap_nil, List.append_nil, starts]
      | succ n => rw [scanArgs, if_pos rfl, List.flatMap_nil, List.append_nil, starts]
  | @arg n a s rest as ha hs h ih =>
      have hne : a.text ++ s ≠ [] := by
        cases ha with
        | bare hne => simp [Arg.text, hne]
        | quoted => simp [Arg.text]
        | unclosed => simp [Arg.text]
      rw [scanArgs, if_neg hne, scanArg_eq ha hs]
      dsimp only
      rw [ih, List.length_append, text_length, starts, List.flatMap_cons, List.append_assoc]

/-- The line as it is written: white space, the arguments, and a rest behind the tenth. -/
structure Reads (line ws : Bytes) (as : List Arg) (rest : Bytes) : Prop where
  space : ∀ c ∈ ws, isspace c = true
  text : line = ws ++ (as.flatMap Arg.text ++ rest)
  noBlank : NoBlank (as.flatMap Arg.text ++ rest)
  lexes : Lexes MAX_ARG (as.flatMap Arg.text ++ rest) as rest

theorem tokenize_eq {line ws rest : Bytes} {as : List Arg} (h : Reads line ws as rest) :
    tokenize line = ⟨ws ++ as.flatMap blanked ++ rest, starts ws.length as⟩ := by
  obtain ⟨hws, rfl, hno, hlex⟩ := h
  rw [tokenize]
  dsimp only
  rw [takeWhile_append_of_head hws hno, Cursor.skip_append, scanArgs_eq hlex]
  rfl

/-! ### Places -/

theorem starts_append (off : Nat) (pre : List Arg) (a : Arg) (post : List Arg) :
    starts off (pre ++ a :: post) = starts off pre ++
      (off + (pre.flatMap Arg.text).length + a.opening.length) ::
        starts (off + (pre.flatMap Arg.text).length + a.text.length) post := by
  induction pre generalizing off with
  | nil => rfl
  | cons x pre ih =>
      rw [List.cons_append, starts, ih, starts, List.flatMap_cons, List.length_append,
        List.cons_append]
      simp only [Nat.add_assoc]

theorem length_starts (off : Nat) (as : List Arg) : (starts off as).length = as.length := by
  induction as generalizing off with
  | nil => rfl
  | cons a as ih => rw [starts, List.length_cons, List.length_cons, ih]

theorem length_blanked (as : List Arg) :
    (as.flatMap blanked).length = (as.flatMap Arg.text).length := by
  induction as with
  | nil => rfl
  | cons a as ih =>
      rw [List.flatMap_cons, List.flatMap_cons, List.length_append, List.length_append,
        text_length, ih]

section Line

variable {line ws rest : Bytes} {pre post : List Arg} {a : Arg}

/-- Where an argument begins. -/
theorem arg_eq (h : Reads line ws (pre ++ a :: post) rest) :
    (tokenize line).arg[pre.length]? =
      some (ws.length + (pre.flatMap Arg.text).length + a.opening.length) := by
  rw [tokenize_eq h]
  dsimp only
  rw [starts_append, List.getElem?_append_right (by rw [length_starts]), length_starts,
    Nat.sub_self]
  rfl

/-- The divided line from an argument on holds its characters. -/
theorem cstring_arg (h : Reads line ws (pre ++ a :: post) rest) (h0 : 0 ∉ line) :
    cstring ((tokenize line).line.drop
      (ws.length + (pre.flatMap Arg.text).length + a.opening.length)) = a.word := by
  have hword : 0 ∉ a.word := by
    intro hmem
    refine h0 ?_
    rw [h.text]
    simp [Arg.text, hmem]
  have hline : (tokenize line).line = (ws ++ pre.flatMap blanked ++ a.opening) ++
      (a.word ++ (List.replicate a.sep.length 0 ++ (post.flatMap blanked ++ rest))) := by
    rw [tokenize_eq h]
    simp [blanked]
  have hlen : (ws ++ pre.flatMap blanked ++ a.opening).length =
      ws.length + (pre.flatMap Arg.text).length + a.opening.length := by
    rw [List.length_append, List.length_append, length_blanked]
  rw [hline, List.drop_left' hlen, cstring]
  cases hsep : a.sep with
  | nil =>
      -- Nothing follows.
      have hend := h.lexes.before.sep hsep
      have hnil : post.flatMap blanked ++ rest = [] := by
        rw [← List.length_eq_zero_iff, List.length_append, length_blanked, ← List.length_append,
          hend]
        rfl
      rw [hnil, List.append_nil, List.length_nil, List.replicate_zero, List.append_nil]
      exact takeWhile_ne_eq_self hword
  | cons c sep =>
      rw [List.length_cons, List.replicate_succ, List.cons_append]
      exact takeWhile_ne_append hword

theorem str_eq (h : Reads line ws (pre ++ a :: post) rest) (h0 : 0 ∉ line) :
    (tokenize line).str pre.length = some a.word := by
  rw [Tokens.str, arg_eq h, Option.map_some, cstring_arg h h0]

/-- What stands in front of the first argument. -/
def lead (ws : Bytes) (as : List Arg) : Bytes := ws ++ (as.head?.map Arg.opening).getD []

/-- What stands in front of the argument `a`. -/
def front (ws : Bytes) (pre : List Arg) (a : Arg) : Bytes :=
  ws ++ pre.flatMap Arg.text ++ a.opening

theorem lead_le (ws : Bytes) (pre : List Arg) (a : Arg) (post : List Arg) :
    (lead ws (pre ++ a :: post)).length ≤ (front ws pre a).length := by
  cases pre with
  | nil => simp [lead, front]
  | cons x pre =>
      simp [lead, front, Arg.text]

/-- The copy of the line is cut off too early by what stands in front of the first
argument. -/
theorem aline_eq (h : Reads line ws (pre ++ a :: post) rest) (h0 : 0 ∉ line) :
    (tokenize line).arg.headD 0 = (lead ws (pre ++ a :: post)).length ∧
      (tokenize line).aline line = line.set ((front ws pre a).length + (tailText a post).length -
        (lead ws (pre ++ a :: post)).length) 0 := by
  have hhead : (tokenize line).arg.head? = some (lead ws (pre ++ a :: post)).length := by
    rw [tokenize_eq h]
    cases pre with
    | nil => simp [starts, lead]
    | cons x pre => simp [starts, lead]
  obtain ⟨pre', z, hz⟩ : ∃ pre' z, pre ++ a :: post = pre' ++ [z] := by
    rcases List.eq_nil_or_concat (pre ++ a :: post) with hnil | ⟨pre', z, hz⟩
    · exact absurd hnil (List.append_ne_nil_of_right_ne_nil _ (List.cons_ne_nil _ _))
    · exact ⟨pre', z, hz.trans List.concat_eq_append⟩
  have hlast : (tokenize line).arg.getLast? =
      some (ws.length + (pre'.flatMap Arg.text).length + z.opening.length) := by
    rw [tokenize_eq h, hz, starts_append]
    exact List.getLast?_concat
  have hword := cstring_arg (hz ▸ h) h0
  -- Both ways the copy ends with the last character of the last argument.
  have hthrough := congrArg List.length
    ((through_append pre a post).symm.trans ((congrArg through hz).trans (through_append pre' z [])))
  have hle := lead_le ws pre' z []
  rw [← hz] at hle
  refine ⟨by rw [List.headD_eq_head?_getD, hhead]; rfl, ?_⟩
  rw [Tokens.aline, hhead, hlast]
  dsimp only
  rw [hword]
  refine congrArg (fun n => line.set n 0) ?_
  simp only [front, tailText, List.length_append] at hthrough hle ⊢
  omega

/-- What is passed on has the length of what was typed, and begins where that would begin
if nothing stood in front of the first argument. -/
theorem raw_eq (h : Reads line ws (pre ++ a :: post) rest) (h0 : 0 ∉ line) :
    (tokenize line).raw line pre.length = some (((front ws pre a).rtake
      (lead ws (pre ++ a :: post)).length ++ tailText a post).take (tailText a post).length) := by
  obtain ⟨hhead, haline⟩ := aline_eq h h0
  obtain ⟨sep, hsep⟩ := exists_sep (pre ++ a :: post)
  have hline : line = front ws pre a ++ (tailText a post ++ (sep ++ rest)) := by
    rw [h.text, hsep, through_append]
    simp [front]
  have hle := lead_le ws pre a post
  have hplace : ws.length + (pre.flatMap Arg.text).length + a.opening.length =
      (front ws pre a).length := by
    rw [front, List.length_append, List.length_append]
  rw [Tokens.raw, arg_eq h, Option.map_some, hhead, haline, hplace, List.drop_set,
    if_neg (by omega)]
  generalize (lead ws (pre ++ a :: post)).length = n at hle ⊢
  have hcut : (front ws pre a).length + (tailText a post).length - n -
      ((front ws pre a).length - n) = (tailText a post).length := by omega
  have hdrop : line.drop ((front ws pre a).length - n) =
      (front ws pre a).rtake n ++ tailText a post ++ (sep ++ rest) := by
    rw [hline, List.drop_append_of_le_length (Nat.sub_le _ _), List.append_assoc]
    rfl
  have h0' : 0 ∉ line.drop ((front ws pre a).length - n) := fun hmem => h0 (List.mem_of_mem_drop hmem)
  rw [hcut, cstring, takeWhile_ne_set h0', hdrop, List.take_append_of_le_length]
  rw [List.length_append]
  exact Nat.le_add_left _ _

/-- **What is passed on is what was typed** exactly if the line repeats what stands in
front of its first argument. -/
theorem raw_eq_iff (h : Reads line ws (pre ++ a :: post) rest) (h0 : 0 ∉ line) :
    (tokenize line).raw line pre.length = some (tailText a post) ↔
      ((front ws pre a).rtake (lead ws (pre ++ a :: post)).length ++ tailText a post).HasPeriod
        (lead ws (pre ++ a :: post)).length := by
  have hle := lead_le ws pre a post
  have hlen : ((front ws pre a).rtake (lead ws (pre ++ a :: post)).length).length =
      (lead ws (pre ++ a :: post)).length := by
    rw [List.rtake, List.length_drop]
    omega
  rw [raw_eq h h0, Option.some_inj, ← hasPeriod_append_iff, hlen]

end Line

/-! ## The commands -/

theorem readLine_eq {typed : Bytes} (hlf : chLF ∉ typed) (more : Bytes) {n : Nat}
    (hn : typed.length < n) : readLine n (typed ++ chLF :: more) = some (typed ++ [chLF]) := by
  induction typed generalizing n with
  | nil =>
      obtain ⟨n, rfl⟩ : ∃ k, n = k + 1 := ⟨n - 1, by omega⟩
      exact if_pos rfl
  | cons c typed ih =>
      obtain ⟨n, rfl⟩ : ∃ k, n = k + 1 := ⟨n - 1, by omega⟩
      have hc : c ≠ chLF := (List.ne_of_not_mem_cons hlf).symm
      rw [List.cons_append, readLine, if_neg hc,
        ih (List.not_mem_of_not_mem_cons hlf) (Nat.lt_of_succ_lt_succ hn)]
      rfl

/-- Which argument a command takes raw. -/
def CmdEnum.rawAt : CmdEnum → Option Nat
  | .ping => some 2
  | .cd | .cmd => some 1
  | _ => .none

/-- The notice of PING, the directory of CD or the command line of CMD. -/
def Typed.raw : Typed → Option Bytes
  | .ping _ t | .cd t | .cmd t => t
  | _ => none

/-- The text that a command passes on. -/
theorem processLine_raw {line name : Bytes} {e : CmdEnum} {k : Nat}
    (hname : (tokenize line).str 0 = some name) (he : findCmd name cmdList .none = some e)
    (hraw : e.rawAt = some k) : (processLine line).raw = (tokenize line).raw line k := by
  have hne : name ≠ [] := by
    rintro rfl
    have hall : findCmd [] cmdList .none = none := by decide
    rw [hall] at he
    cases he
  unfold processLine
  dsimp only
  rw [hname]
  cases name with
  | nil => exact absurd rfl hne
  | cons c name =>
      dsimp only
      rw [he]
      cases e with
      | ping =>
          cases hraw
          rfl
      | cd =>
          cases hraw
          rfl
      | cmd =>
          cases hraw
          rfl
      | _ => cases hraw

/-- **PING, CD and CMD pass on what was typed**, from the first character of the argument
through the last one of the last argument, exactly if the line repeats what stands in front
of its first argument: every character of that text is the one as many places before it. -/
theorem raw_tail_iff {typed ws rest : Bytes} (more : Bytes) {pre post : List Arg} {first a : Arg}
    {e : CmdEnum} (hlf : chLF ∉ typed) (hlen : typed.length ≤ 3998)
    (h : Reads (cstring (typed ++ [chLF])) ws (first :: pre ++ a :: post) rest)
    (he : findCmd first.word cmdList .none = some e) (hraw : e.rawAt = some (pre.length + 1)) :
    (processStdin (typed ++ chLF :: more)).bind Typed.raw = some (tailText a post) ↔
      ((front ws (first :: pre) a).rtake (lead ws [first]).length ++ tailText a post).HasPeriod
        (lead ws [first]).length := by
  have h0 : 0 ∉ cstring (typed ++ [chLF]) := not_mem_takeWhile_ne 0 _
  have hfirst : (tokenize (cstring (typed ++ [chLF]))).str 0 = some first.word :=
    @str_eq _ _ _ [] _ _ h h0
  rw [processStdin, readLine_eq hlf more (by unfold MAX_CMDLINE; omega), Option.map_some,
    Option.bind_some, processLine_raw hfirst he hraw]
  exact raw_eq_iff h h0

/-- The line "cd x", behind white space. -/
theorem reads_cd {line ws : Bytes} (hws : ∀ c ∈ ws, isspace c = true)
    (hline : line = ws ++ (ascii "cd x" ++ [chLF])) :
    Reads line ws (⟨[], ascii "cd", ascii " "⟩ :: [] ++ ⟨[], ascii "x", [chLF]⟩ :: []) [] := by
  have hx : Arg.Before ⟨[], ascii "x", [chLF]⟩ [] :=
    .bare (by decide) (by decide) (by decide +kernel) (by decide +kernel) (by decide)
  have hcd : Arg.Before ⟨[], ascii "cd", ascii " "⟩ (ascii "x" ++ [chLF]) :=
    .bare (by decide) (by decide) (by decide +kernel) (by decide +kernel) (by decide)
  exact ⟨hws, hline, by decide +kernel, .arg hcd (by decide +kernel) (.arg hx (by decide +kernel) .done)⟩

/-- A line that begins with its first argument. -/
theorem raw_tail_iff_cd :
    ∃ ws rest pre post first a,
      (Reads (cstring (ascii "cd x" ++ [chLF])) ws (first :: pre ++ a :: post) rest ∧
        lead ws [first] = []) ∧
      ((processStdin (ascii "cd x" ++ chLF :: [])).bind Typed.raw = some (tailText a post) ↔
        ((front ws (first :: pre) a).rtake (lead ws [first]).length ++ tailText a post).HasPeriod
          (lead ws [first]).length) := by
  have hreads := @reads_cd (cstring (ascii "cd x" ++ [chLF])) [] (by decide +kernel) (by decide +kernel)
  exact ⟨_, _, _, _, _, _, ⟨hreads, rfl⟩,
    raw_tail_iff [] (by decide) (by decide) hreads (e := .cd) (by decide) (by decide)⟩

/-- A blank in front of the command: CD is asked for the directory " ". -/
theorem raw_tail_blank :
    ¬ ∀ (typed ws rest more : Bytes) (pre post : List Arg) (first a : Arg) (e : CmdEnum),
      chLF ∉ typed → typed.length ≤ 3998 →
      Reads (cstring (typed ++ [chLF])) ws (first :: pre ++ a :: post) rest →
      findCmd first.word cmdList .none = some e → e.rawAt = some (pre.length + 1) →
      (processStdin (typed ++ chLF :: more)).bind Typed.raw = some (tailText a post) := by
  intro h
  have hreads := @reads_cd (cstring (ascii " cd x" ++ [chLF])) (ascii " ") (by decide +kernel)
    (by decide +kernel)
  have hpassed := h _ _ _ [] _ _ _ _ .cd (by decide) (by decide) hreads (by decide) (by decide)
  revert hpassed
  decide

end Frelay
