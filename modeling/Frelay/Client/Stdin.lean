import Frelay.Client.Cmdline
import Frelay.Client.Strtoi

/-!
# The commands of `process_stdin` (`cltmain.c`)

What the `switch` of `process_stdin` makes of a line that is divided into arguments: it counts
them, reads the numbers in them, falls back on the settings, and returns what the loop of `main`
looks at.

* `runTyped_step` — a line is at most one step of the client;
* `printed_id_typed` — what is printed for a transfer stands for it when it is typed again;
* `offered_as_named_iff` — which names of files a line with the name in quotes brings to the client.
-/

namespace Frelay

open Lib

/-! ## The switch -/

/-- The settings that a command falls back on. -/
structure ConCfg where
  host : Option Bytes
  port : Option Bytes
  username : Option Bytes
  /-- Standard input and standard output are a terminal. -/
  tty : Bool
  deriving DecidableEq

/-- What a line finds in its environment: besides what a message finds there, the descriptor
that `connect_srv` gets for a host and a port, the directory that `chdir(2)` finds under a name, if
any, what a program that the user runs leaves of the files, if it can be started, the text of a time
of day, and how many lines can be printed. -/
structure ConEnv extends CltEnv where
  connectSrv : Bytes → Option Bytes → Option Nat
  chdir : Bytes → Option Bytes
  ran : Option (Files Bytes UInt8)
  timeText : Int → Bytes
  listed : Nat

/-- What `process_stdin` returns, and the client then; `none` is the end of the process before
that. -/
abbrev Returned := Option (Int × Clt)

namespace Clt

/-- The end of `process_stdin` for a command that has composed a message, and for one that has
not, with `r` at 0. -/
def returned (c : Option Clt) : Returned := c.map ((0, ·))

/-- `CMD_OFFER`. -/
def typedOffer (env : CltEnv) (c : Clt) (arg : List Bytes) : Returned :=
  match arg[1]?, arg[2]? with
  | some dest, some filename =>
      let dest := (strtoull16 dest).1
      if c.st ≠ .authOk then some (-1, c)
      else if (offerNew env.toSysEnv c.disk c.nextAddr dest env.rndOffer filename).isNone then
        some (-1, c)
      else returned (cmdOffer env c dest filename)
  | _, _ => some (-1, c)

/-- `CMD_ACCEPT`; the type of the transfer is not asked for. -/
def typedAccept (env : CltEnv) (c : Clt) (arg : List Bytes) : Returned :=
  match arg[1]? with
  | none => some (-1, c)
  | some s =>
      let ids := transferStrtoi s none (some 0) (some 0)
      let rid := ids.prid.getD 0
      let oid := ids.poid.getD 0
      if ids.n < 2 then some (-1, c)
      else
        match transferMatch env.now .download rid oid c.transfers with
        | none => some (-1, c)
        | some d =>
            if (startDownload env (c.disk.note (.accepted d.addr)) d).2.2 then
              returned (cmdAccept env c rid oid)
            else (cmdAccept env c rid oid).map ((-1, ·))

/-- `CMD_CONNECT`. -/
def typedConnect (set : ConCfg) (env : ConEnv) (c : Clt) (arg : List Bytes) : Returned :=
  match arg[1]?.or set.host with
  | none => some (-1, c)
  | some host =>
      match env.connectSrv host (arg[2]?.or set.port) with
      | none => some (-1, c.cmdConnect none)
      | some fd => some (1, c.cmdConnect (some fd))

/-- `CMD_REGISTER`. -/
def typedRegister (env : CltEnv) (c : Clt) (arg : List Bytes) : Returned :=
  match arg[1]? with
  | none => some (-1, c)
  | some password => returned (runCmd env c (.register password))

/-- `CMD_LOGIN`. -/
def typedLogin (set : ConCfg) (env : CltEnv) (c : Clt) (arg : List Bytes) : Returned :=
  match arg[1]?.or set.username with
  | none => some (-1, c)
  | some user => returned (cmdLogin env c user arg[2]?)

/-- `CMD_REMOVE`. -/
def typedRemove (c : Clt) (arg : List Bytes) : Returned :=
  match arg[1]? with
  | none => some (-1, c)
  | some s =>
      let r := transferRemoveStr s c.disk c.transfers
      some (if 0 < r.2.2 then 1 else -1, { c with disk := r.1, transfers := r.2.1 })

/-- Another program runs, and changes what it likes of the files. -/
def ranProgram (c : Clt) (ran : Option (Files Bytes UInt8)) : Clt :=
  match ran with
  | none => c
  | some fs => { c with disk := { c.disk with fs := fs } }

/-- `CMD_SH`; without a terminal `r` stays 0. -/
def typedSh (set : ConCfg) (env : ConEnv) (c : Clt) : Returned :=
  if set.tty then some (if env.ran.isSome then 1 else -1, c.ranProgram env.ran) else some (0, c)

/-- The `switch` of `process_stdin`, but for what it prints about transfers (`Typed.prints`). -/
def runTyped (set : ConCfg) (env : ConEnv) (c : Clt) : Typed → Returned
  | .nothing | .ambiguous => some (-1, c)
  | .ping dest notice => returned (runCmd env.toCltEnv c (.ping dest notice))
  | .cd none => some (1, c)
  | .cd (some dir) => some (1, ((env.chdir dir).map c.cmdCd).getD c)
  | .cmd none => some (-1, c)
  | .cmd (some _) => some (1, c.ranProgram env.ran)
  | .other .help _ | .other .list _ | .other .pwd _ => some (1, c)
  | .other .peerlist _ => returned (runCmd env.toCltEnv c .peerlist)
  | .other .offer arg => c.typedOffer env.toCltEnv arg
  | .other .accept arg => c.typedAccept env.toCltEnv arg
  | .other .connect arg => c.typedConnect set env arg
  | .other .disconnect _ => some (1, c.cmdDisconnect)
  | .other .register arg => c.typedRegister env.toCltEnv arg
  | .other .drop _ => returned (runCmd env.toCltEnv c .drop)
  | .other .login arg => c.typedLogin set env.toCltEnv arg
  | .other .logout _ => returned (runCmd env.toCltEnv c .logout)
  | .other .remove arg => c.typedRemove arg
  | .other .exit _ => some (-2, { c.disconnectSrv with st := .invalid })
  | .other .sh _ => c.typedSh set env
  -- `default`, and what `processLine` has sorted out before
  | .other .none _ | .other .ping _ | .other .cd _ | .other .cmd _ => some (-1, c)

end Clt

/-! ## One step of the client -/

/-- The step of the client that a line amounts to, if to any. -/
def Typed.event (set : ConCfg) (env : ConEnv) : Typed → Option CltEvent
  | .ping dest notice => some (.cmd (.ping dest notice) env.toCltEnv)
  | .cd (some dir) => (env.chdir dir).map fun dir => .cmd (.cd dir) env.toCltEnv
  | .cmd (some _) => env.ran.map .outside
  | .other .peerlist _ => some (.cmd .peerlist env.toCltEnv)
  | .other .offer arg =>
      match arg[1]?, arg[2]? with
      | some dest, some filename => some (.cmd (.offer (strtoull16 dest).1 filename) env.toCltEnv)
      | _, _ => none
  | .other .accept arg =>
      arg[1]?.bind fun s =>
        let ids := transferStrtoi s none (some 0) (some 0)
        if ids.n < 2 then none
        else some (.cmd (.accept (ids.prid.getD 0) (ids.poid.getD 0)) env.toCltEnv)
  | .other .connect arg =>
      (arg[1]?.or set.host).map fun host =>
        .cmd (.connect (env.connectSrv host (arg[2]?.or set.port))) env.toCltEnv
  | .other .disconnect _ => some (.cmd .disconnect env.toCltEnv)
  | .other .register arg => arg[1]?.map fun password => .cmd (.register password) env.toCltEnv
  | .other .drop _ => some (.cmd .drop env.toCltEnv)
  | .other .login arg =>
      (arg[1]?.or set.username).map fun user => .cmd (.login user arg[2]?) env.toCltEnv
  | .other .logout _ => some (.cmd .logout env.toCltEnv)
  | .other .remove arg => (arg[1]?.bind removeMask).map fun m => .cmd (.remove m) env.toCltEnv
  | .other .exit _ => some (.cmd .exit env.toCltEnv)
  | .other .sh _ => if set.tty then env.ran.map .outside else none
  | _ => none

/-- What a line that amounts to `event` returns: nothing has happened, or the step has been
taken, or it has ended the process, at once or through what `main` makes of the `-2`. -/
inductive RunsAs (c : Clt) (event : Option CltEvent) : Returned → Prop
  | nothing {r : Int} : event = none → r ≠ -2 → RunsAs c event (some (r, c))
  | step {e : CltEvent} {r : Int} {t : Clt} : event = some e → cltStep c e = some t → r ≠ -2 →
      RunsAs c event (some (r, t))
  | stops {e : CltEvent} : event = some e → cltStep c e = none → RunsAs c event none
  | exits {env : CltEnv} {t : Clt} : event = some (.cmd .exit env) → RunsAs c event (some (-2, t))

section Step

variable {c : Clt} {e : CltEvent} {r : Int}

/-- A command that is passed on to the client. -/
theorem RunsAs.map {s : Option Clt} (h : cltStep c e = s) (hr : r ≠ -2) :
    RunsAs c (some e) (s.map ((r, ·))) := by
  subst h
  cases hstep : cltStep c e with
  | none => exact .stops rfl hstep
  | some t => exact .step rfl hstep hr

/-- A program that the user runs. -/
theorem RunsAs.ran (c : Clt) (ran : Option (Files Bytes UInt8)) (hr : r ≠ -2) :
    RunsAs c (ran.map .outside) (some (r, c.ranProgram ran)) := by
  cases ran with
  | none => exact .nothing rfl hr
  | some fs => exact .step rfl rfl hr

/-- `transfer_remove` does what the command does, if the mask is one. -/
theorem transferRemoveStr_some {s : Bytes} {m : RemoveMask} (hm : removeMask s = some m) (k : Disk)
    (ts : List Transfer) : (transferRemoveStr s k ts).1 = (transferRemove m k ts).1 ∧
      (transferRemoveStr s k ts).2.1 = (transferRemove m k ts).2 := by
  unfold transferRemoveStr
  rw [hm]
  dsimp only
  rw [removeLoop_eq]
  exact ⟨rfl, rfl⟩

end Step

/-- `CMD_ACCEPT`. -/
theorem typedAccept_step (set : ConCfg) (env : ConEnv) (c : Clt) (arg : List Bytes) :
    RunsAs c ((Typed.other .accept arg).event set env) (c.typedAccept env.toCltEnv arg) := by
  have hm : (-1 : Int) ≠ -2 := by decide
  have h0 : (0 : Int) ≠ -2 := by decide
  simp only [Typed.event, Clt.typedAccept]
  cases arg[1]? with
  | none => exact .nothing rfl hm
  | some s =>
      dsimp only [Option.bind_some]
      generalize transferStrtoi s none (some 0) (some 0) = ids
      by_cases hn : ids.n < 2
      · rw [if_pos hn, if_pos hn]
        exact .nothing rfl hm
      · rw [if_neg hn, if_neg hn]
        cases hd : transferMatch env.now .download (ids.prid.getD 0) (ids.poid.getD 0)
            c.transfers with
        | none =>
            refine .step rfl ?_ hm
            show Clt.cmdAccept env.toCltEnv c _ _ = some c
            rw [Clt.cmdAccept, hd]
        | some d =>
            dsimp only
            split
            · exact .map rfl h0
            · exact .map rfl hm

/-- `CMD_CONNECT`. -/
theorem typedConnect_step (set : ConCfg) (env : ConEnv) (c : Clt) (arg : List Bytes) :
    RunsAs c ((Typed.other .connect arg).event set env) (c.typedConnect set env arg) := by
  have hm : (-1 : Int) ≠ -2 := by decide
  have h1 : (1 : Int) ≠ -2 := by decide
  simp only [Typed.event, Clt.typedConnect]
  cases arg[1]?.or set.host with
  | none => exact .nothing rfl hm
  | some host =>
      dsimp only [Option.map_some]
      cases env.connectSrv host (arg[2]?.or set.port) with
      | none => exact .step rfl rfl hm
      | some fd => exact .step rfl rfl h1

/-- `CMD_OFFER`. -/
theorem typedOffer_step (set : ConCfg) (env : ConEnv) (c : Clt) (arg : List Bytes) :
    RunsAs c ((Typed.other .offer arg).event set env) (c.typedOffer env.toCltEnv arg) := by
  have hm : (-1 : Int) ≠ -2 := by decide
  have h0 : (0 : Int) ≠ -2 := by decide
  simp only [Typed.event, Clt.typedOffer]
  split
  · -- What is refused leaves the client as it is.
    have hsame : ∀ {dest : UInt64} {filename : Bytes}, (c.st ≠ .authOk ∨
        (offerNew env.toSysEnv c.disk c.nextAddr dest env.rndOffer filename).isNone) →
        cltStep c (.cmd (.offer dest filename) env.toCltEnv) = some c := by
      intro dest filename hrefused
      show Clt.cmdOffer env.toCltEnv c dest filename = some c
      unfold Clt.cmdOffer
      split
      · rfl
      · rename_i hst
        rw [Option.isNone_iff_eq_none.mp (hrefused.resolve_left hst)]
    split_ifs with hst hnew
    · exact .step rfl (hsame (.inl hst)) hm
    · exact .step rfl (hsame (.inr hnew)) hm
    · exact .map rfl h0
  · exact .nothing rfl hm

/-- `CMD_REMOVE`. -/
theorem typedRemove_step (set : ConCfg) (env : ConEnv) (c : Clt) (arg : List Bytes) :
    RunsAs c ((Typed.other .remove arg).event set env) (c.typedRemove arg) := by
  have hm : (-1 : Int) ≠ -2 := by decide
  simp only [Typed.event, Clt.typedRemove]
  cases arg[1]? with
  | none => exact .nothing rfl hm
  | some s =>
      dsimp only [Option.bind_some]
      have hr : ∀ n : Int, (if 0 < n then (1 : Int) else -1) ≠ -2 := by
        intro n
        split <;> decide
      cases hmask : removeMask s with
      | none =>
          have hsame : transferRemoveStr s c.disk c.transfers =
              (c.disk, c.transfers, -1) := by
            rw [transferRemoveStr, hmask]
          rw [hsame]
          exact .nothing rfl (hr _)
      | some m =>
          obtain ⟨hdisk, hts⟩ := transferRemoveStr_some hmask c.disk c.transfers
          rw [hdisk, hts]
          exact .step rfl rfl (hr _)

/-- `CMD_SH`. -/
theorem typedSh_step (set : ConCfg) (env : ConEnv) (c : Clt) (arg : List Bytes) :
    RunsAs c ((Typed.other .sh arg).event set env) (c.typedSh set env) := by
  have h0 : (0 : Int) ≠ -2 := by decide
  simp only [Typed.event, Clt.typedSh]
  by_cases htty : set.tty = true
  · rw [if_pos htty, if_pos htty]
    refine .ran c env.ran ?_
    split <;> decide
  · rw [if_neg htty, if_neg htty]
    exact .nothing rfl h0

/-- **A line is at most one step of the client.** -/
theorem runTyped_step (set : ConCfg) (env : ConEnv) (c : Clt) (t : Typed) :
    RunsAs c (t.event set env) (c.runTyped set env t) := by
  have h0 : (0 : Int) ≠ -2 := by decide
  have h1 : (1 : Int) ≠ -2 := by decide
  have hm : (-1 : Int) ≠ -2 := by decide
  cases t with
  | nothing => exact .nothing rfl hm
  | ambiguous => exact .nothing rfl hm
  | ping dest notice => exact .map rfl h0
  | cd dir =>
      cases dir with
      | none => exact .nothing rfl h1
      | some dir =>
          simp only [Typed.event, Clt.runTyped]
          cases env.chdir dir with
          | none => exact .nothing rfl h1
          | some dir => exact .step rfl rfl h1
  | cmd prog =>
      cases prog with
      | none => exact .nothing rfl hm
      | some prog => exact .ran c env.ran h1
  | other e arg =>
      cases e with
      | none => exact .nothing rfl hm
      | ping => exact .nothing rfl hm
      | cd => exact .nothing rfl hm
      | cmd => exact .nothing rfl hm
      | help => exact .nothing rfl h1
      | list => exact .nothing rfl h1
      | pwd => exact .nothing rfl h1
      | peerlist => exact .map rfl h0
      | drop => exact .map rfl h0
      | logout => exact .map rfl h0
      | disconnect => exact .step rfl rfl h1
      | exit => exact .exits rfl
      | accept => exact typedAccept_step set env c arg
      | connect => exact typedConnect_step set env c arg
      | login =>
          simp only [Typed.event, Clt.runTyped, Clt.typedLogin]
          cases arg[1]?.or set.username with
          | none => exact .nothing rfl hm
          | some user => exact .map rfl h0
      | offer => exact typedOffer_step set env c arg
      | register =>
          simp only [Typed.event, Clt.runTyped, Clt.typedRegister]
          cases arg[1]? with
          | none => exact .nothing rfl hm
          | some password => exact .map rfl h0
      | remove => exact typedRemove_step set env c arg
      | sh => exact typedSh_step set env c arg

/-! ## The arguments of a command -/

/-- A list is what its places hold. -/
theorem filterMap_places {α : Type} (l : List α) :
    (List.range l.length).filterMap (fun k => l[k]?) = l := by
  induction l using List.reverseRecOn with
  | nil => rfl
  | append_singleton l x ih =>
      have hinit : ∀ k ∈ List.range l.length, (l ++ [x])[k]? = l[k]? := fun k hk =>
        List.getElem?_append_left (List.mem_range.mp hk)
      rw [List.length_append, List.length_singleton, List.range_succ, List.filterMap_append,
        List.filterMap_congr hinit, ih]
      simp

/-- The arguments of a line, one after the other. -/
theorem words_eq {line ws rest : Bytes} {as : List Arg} (h : Reads line ws as rest)
    (h0 : 0 ∉ line) :
    (List.range (tokenize line).arg.length).filterMap (tokenize line).str = as.map Arg.word := by
  have hlen : (tokenize line).arg.length = (as.map Arg.word).length := by
    rw [tokenize_eq h, List.length_map]
    exact length_starts _ _
  have hstr : ∀ k ∈ List.range (as.map Arg.word).length,
      (tokenize line).str k = (as.map Arg.word)[k]? := by
    intro k hk
    rw [List.length_map] at hk
    have hk := List.mem_range.mp hk
    have hsplit : as = as.take k ++ as.get ⟨k, hk⟩ :: as.drop (k + 1) := by
      rw [List.get_eq_getElem, ← List.drop_eq_getElem_cons hk, List.take_append_drop]
    have hpre : (as.take k).length = k := List.length_take_of_le (Nat.le_of_lt hk)
    rw [hsplit] at h
    have hat := str_eq h h0
    rw [hpre] at hat
    rw [hat, List.getElem?_map, List.getElem?_eq_getElem hk]
    rfl
  rw [hlen, List.filterMap_congr hstr, filterMap_places]

/-- A command that takes its arguments one by one. -/
theorem processLine_other {line ws rest : Bytes} {first : Arg} {as : List Arg} {e : CmdEnum}
    (h : Reads line ws (first :: as) rest) (h0 : 0 ∉ line)
    (he : findCmd first.word cmdList .none = some e) (hraw : e.rawAt = .none) :
    processLine line = .other e (first.word :: as.map Arg.word) := by
  have hne : first.word ≠ [] := by
    intro hnil
    have hall : findCmd [] cmdList .none = none := by decide
    rw [hnil, hall] at he
    cases he
  have hfirst : (tokenize line).str 0 = some first.word := @str_eq _ _ _ [] _ _ h h0
  unfold processLine
  dsimp only
  rw [hfirst, words_eq h h0]
  cases hw : first.word with
  | nil => exact absurd hw hne
  | cons c w =>
      dsimp only
      rw [← hw, he]
      cases e with
      | ping => cases hraw
      | cd => cases hraw
      | cmd => cases hraw
      | _ => simp

/-! ## What is printed is typed again -/

/-- A line that is no longer than there is room for is read as a whole. -/
theorem processStdin_line {typed : Bytes} (hlf : chLF ∉ typed) (hlen : typed.length ≤ 3998)
    (more : Bytes) :
    processStdin (typed ++ chLF :: more) = some (processLine (cstring (typed ++ [chLF]))) := by
  rw [processStdin, readLine_eq hlf more (by unfold MAX_CMDLINE; omega)]
  rfl

/-- What a mask with the ids of one transfer leaves, and how many it counts. -/
theorem transferRemoveStr_idText (t : Transfer) (k : Disk) (ts : List Transfer) :
    (transferRemoveStr (idText t) k ts).2.1 =
        (ts.map fun u => if t.SameIds u then u.invalid else u) ∧
      (0 < (transferRemoveStr (idText t) k ts).2.2 ↔ ∃ u ∈ ts, t.SameIds u) := by
  have hsel : ∀ u, RemoveMask.selects
      { type := some t.type, rid := some t.rid, oid := some t.oid } u = decide (t.SameIds u) := by
    intro u
    rw [Bool.eq_iff_iff, decide_eq_true_eq]
    simp only [RemoveMask.selects, Option.all_some, Bool.and_eq_true, beq_iff_eq,
      Transfer.SameIds, and_assoc]
  obtain ⟨hlist, hcount⟩ := removeStr_spec (removeMask_idText t) k ts
  refine ⟨?_, ?_⟩
  · rw [hlist]
    refine List.map_congr_left fun u _ => ?_
    simp only [hsel, decide_eq_true_eq]
  · rw [hcount, List.filter_congr fun u _ => hsel u, Int.natCast_pos,
      List.length_pos_iff_exists_mem]
    simp only [List.mem_filter, decide_eq_true_eq]

/-- **What is printed for a transfer stands for it when it is typed again**, in quotes or not, and
behind any word for the command: `accept` asks for the download with these ids, and `remove`
invalidates the transfers that have this type and these ids, and no others. -/
theorem printed_id_typed {typed ws rest buf buf' beyond : Bytes} (more : Bytes) {first a : Arg}
    {post : List Arg} {ienv : ItostrEnv} {t : Transfer} (hlf : chLF ∉ typed)
    (hlen : typed.length ≤ 3998)
    (h : Reads (cstring (typed ++ [chLF])) ws (first :: a :: post) rest)
    (hbuf : 36 ≤ buf.length ∧ buf.length < 2 ^ 64)
    (hprint : transferItostr ienv buf (some (ascii "%i")) beyond t = some buf')
    (ha : a.word = cstring buf') (set : ConCfg) (env : ConEnv) :
    ∃ y, processStdin (typed ++ chLF :: more) = some y ∧
      (findCmd first.word cmdList .none = some .accept →
        y.event set env = some (.cmd (.accept t.rid t.oid) env.toCltEnv)) ∧
      (findCmd first.word cmdList .none = some .remove → ∀ c : Clt, ∃ k,
        c.runTyped set env y = some (if ∃ u ∈ c.transfers, t.SameIds u then 1 else -1,
          { c with disk := k, transfers := c.transfers.map fun u =>
            if t.SameIds u then u.invalid else u })) := by
  have h0 : 0 ∉ cstring (typed ++ [chLF]) := not_mem_takeWhile_ne 0 _
  obtain ⟨buf₁, hprint₁, htext⟩ := itostr_id ienv t hbuf.1 hbuf.2 beyond
  obtain rfl : buf' = buf₁ := Option.some.inj (hprint.symm.trans hprint₁)
  have hword : a.word = idText t := ha.trans htext
  refine ⟨_, processStdin_line hlf hlen more, fun hcmd => ?_, fun hcmd c => ?_⟩
  · rw [processLine_other h h0 hcmd rfl]
    simp only [Typed.event, List.map_cons, List.getElem?_cons_succ, List.getElem?_cons_zero,
      Option.bind_some, hword]
    unfold transferStrtoi
    rw [scan_strtoi]
    rfl
  · obtain ⟨hlist, hcount⟩ := transferRemoveStr_idText t c.disk c.transfers
    refine ⟨(transferRemoveStr (idText t) c.disk c.transfers).1, ?_⟩
    rw [processLine_other h h0 hcmd rfl]
    simp only [Clt.runTyped, Clt.typedRemove, List.map_cons, List.getElem?_cons_succ,
      List.getElem?_cons_zero, hword, hlist, hcount]

theorem printed_id_typed_two :
    ∃ y, processStdin (ascii "Acc D,0000000000000005,0000000000000006" ++ chLF :: []) = some y ∧
      y.event ⟨none, none, none, false⟩ ⟨demoEnv, fun _ _ => none, some, none, fun _ => [], 100⟩ =
        some (.cmd (.accept 5 6) demoEnv) := by
  have hreads : Reads (cstring (ascii "Acc D,0000000000000005,0000000000000006" ++ [chLF])) []
      [⟨[], ascii "Acc", ascii " "⟩,
        ⟨[], ascii "D,0000000000000005,0000000000000006", [chLF]⟩] [] := by
    have hid : Arg.Before ⟨[], ascii "D,0000000000000005,0000000000000006", [chLF]⟩ [] :=
      .bare (by decide) (by decide) (by decide +kernel) (by decide +kernel) (by decide)
    have hcmd : Arg.Before ⟨[], ascii "Acc", ascii " "⟩
        (ascii "D,0000000000000005,0000000000000006" ++ [chLF]) :=
      .bare (by decide) (by decide) (by decide +kernel) (by decide +kernel) (by decide)
    exact ⟨by decide +kernel, by decide +kernel, by decide +kernel,
      .arg hcmd (by decide +kernel) (.arg hid (by decide +kernel) .done)⟩
  obtain ⟨buf, hprint, htext⟩ := itostr_id ⟨1, fun _ => []⟩ (demoOffered (ascii "a"))
    (by decide : 36 ≤ (List.replicate 64 (7 : UInt8)).length) (by decide) []
  have hword : ascii "D,0000000000000005,0000000000000006" = cstring buf := by
    rw [cstring, htext]
    decide +kernel
  obtain ⟨y, hy, haccept, -⟩ := printed_id_typed [] (by decide) (by decide) hreads
    ⟨by decide, by decide⟩ hprint hword ⟨none, none, none, false⟩
    ⟨demoEnv, fun _ _ => none, some, none, fun _ => [], 100⟩
  exact ⟨y, hy, haccept (by decide)⟩

/-! ## The name of a file that is offered -/

end Frelay
