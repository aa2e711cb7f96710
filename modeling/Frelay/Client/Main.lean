import Frelay.Client.Prints
import Frelay.Client.Speech
import Frelay.Client.Streams

/-!
# The main loop of the client (`main` and `handle_srvio` in `cltmain.c`)

The loop of `main`, point by point: the upkeep, `select(2)`, the two halves of `handle_srvio`,
and `process_stdin`, which reads a line of the standard input at a time.

* `main_runs_lines` — the loop takes steps of the client, and the commands among them are those
  of the lines of the standard input, one after the other;
* `pass_serves` — what `select(2)` has found ready is seen to before it is called again.
-/

namespace Frelay

open Lib

/-! ## The loop -/

/-- What `select(2)` returned: how many descriptors are ready, and which: the connection for
reading and for writing, and the standard input. -/
structure CltPolled where
  nset : Int
  read : Bool
  write : Bool
  stdin : Bool
  deriving DecidableEq

/-- One of the descriptors has been seen to. -/
def CltPolled.tick (p : CltPolled) : CltPolled := { p with nset := p.nset - 1 }

/-- Where the loop stands: at its top, before `select(2)`, in `handle_srvio` or at its
`SKIP_TO_WRITE`, or behind it. -/
inductive CltPoint where
  | top
  | select
  | read (p : CltPolled)
  | write (p : CltPolled)
  | stdin (p : CltPolled)
  deriving DecidableEq

/-- The state of `main`. Of the standard input there is what has not been read yet. -/
structure CltMain where
  clt : Clt
  set : ConCfg
  selectTimeout : Int
  lastUpkeep : Int
  stdin : Bytes
  point : CltPoint

/-- What the environment decides at each point; `next` takes the branch in which it decides
nothing. `select(2)` can fail, which is an end unless a signal has interrupted it, and reading a
line can fail behind `n` octets, which are lost then. -/
inductive CltMainEvent where
  | turn (env : CltEnv)
  | select (p : CltPolled)
  | selectFails (interrupted : Bool)
  | read (res : ReadRes) (env : CltEnv)
  | write (res : WriteRes)
  | stdin (env : ConEnv)
  | stdinFails (n : Nat)
  | next
  | outside (fs : Files Bytes UInt8)

namespace CltMain

/-- `main` in front of its loop. -/
def start (c : Clt) (set : ConCfg) (autoconnect : Bool) (env : ConEnv) (selectTimeout : Int)
    (stdin : Bytes) : CltMain where
  clt :=
    match set.host with
    | some host =>
        if autoconnect ∧ host ≠ [] then c.cmdConnect (env.connectSrv host set.port) else c
    | none => c
  set := set
  selectTimeout := selectTimeout
  lastUpkeep := 0
  stdin := stdin
  point := .top

def goto (s : CltMain) (point : CltPoint) : CltMain := { s with point := point }

/-- Call the function that the event stands for. -/
def call (s : CltMain) (e : CltEvent) : Option CltMain :=
  (cltStepPrinting s.clt e).map fun c => { s with clt := c }

/-- The connection is read from. -/
def Reads (s : CltMain) (p : CltPolled) : Prop := 0 ≤ s.clt.srvfd ∧ p.read = true

instance (s : CltMain) (p : CltPolled) : Decidable (s.Reads p) :=
  inferInstanceAs (Decidable (_ ∧ _))

/-- One step of `main`. -/
def step (s : CltMain) : CltMainEvent → Option CltMain
  | .turn env =>
      match s.point with
      | .top =>
          if s.selectTimeout < env.now - s.lastUpkeep then
            (s.call (.upkeep env)).map fun s => { s with lastUpkeep := env.now, point := .select }
          else some (s.goto .select)
      | _ => none
  | .select p =>
      match s.point with
      | .select => some (s.goto (if 0 < p.nset then .read p else .top))
      | _ => none
  | .selectFails interrupted =>
      match s.point with
      | .select => if interrupted = true then some (s.goto .top) else none
      | _ => none
  | .read res env =>
      match s.point with
      | .read p =>
          if s.Reads p then
            (s.call (.read res env)).map fun t =>
              -- `goto DISC` leaves `handle_srvio`
              t.goto (if readOutcome (s.clt.rbuf.getD mbufNew) res = .disconnect then
                .stdin p.tick else .write p.tick)
          else none
      | _ => none
  | .write res =>
      match s.point with
      | .write p =>
          if 0 < p.nset ∧ p.write = true then
            (s.call (.write res)).map fun s => s.goto (.stdin p.tick)
          else none
      | _ => none
  | .stdin env =>
      match s.point with
      | .stdin p =>
          if 0 < p.nset ∧ p.stdin = true then
            -- The end of the input ends the client, as `exit` does.
            (readLine (MAX_CMDLINE - 1) s.stdin).bind fun line =>
              (s.clt.runTypedPrinting s.set env (processLine (cstring line))).bind fun r =>
                if r.1 = -2 then none
                else some { s with clt := r.2, stdin := s.stdin.drop line.length, point := .top }
          else none
      | _ => none
  | .stdinFails n =>
      match s.point with
      | .stdin p =>
          if 0 < p.nset ∧ p.stdin = true then
            some { s with stdin := s.stdin.drop n, point := .top }
          else none
      | _ => none
  | .next =>
      match s.point with
      | .read p =>
          if s.clt.srvfd < 0 then some (s.goto (.stdin p))
          else if p.read = true then none
          else some (s.goto (.write p))
      | .write p => if 0 < p.nset ∧ p.write = true then none else some (s.goto (.stdin p))
      | .stdin p => if 0 < p.nset ∧ p.stdin = true then none else some (s.goto .top)
      | _ => none
  | .outside fs => s.call (.outside fs)

end CltMain

/-- What the environment may decide. `select(2)` polls the standard input, the connection, and
for writing only while there is something to send; it returns how many of them are ready. A
failing read of the standard input follows on others that have not brought the whole line. -/
def CltMainEvent.Enabled (s : CltMain) : CltMainEvent → Prop
  | .select p => (p.read = true → 0 ≤ s.clt.srvfd) ∧
      (p.write = true → 0 ≤ s.clt.srvfd ∧ s.clt.q ≠ []) ∧
      (0 < p.nset → p.nset = p.read.toNat + p.write.toNat + p.stdin.toNat) ∧ 0 ≤ p.nset
  | .stdin env => ∀ fs, env.ran = some fs → Files.Outside s.clt.disk.fs fs
  | .stdinFails n => n < MAX_CMDLINE - 1 ∧ n ≤ s.stdin.length ∧ chLF ∉ s.stdin.take n
  | .outside fs => Files.Outside s.clt.disk.fs fs
  | _ => True

/-- The client's `main`, with any settings, in any file system, and for any standard input. -/
def cltMainLts : Lts CltMain CltMainEvent where
  init s := ∃ c set autoconnect env selectTimeout stdin, cltLts.init c ∧
    s = .start c set autoconnect env selectTimeout stdin
  step s e t := e.Enabled s ∧ s.step e = some t

/-! ## Steps of the client -/

/-- The step of the client that an event stands for, if for any. -/
def CltMainEvent.event (s : CltMain) : CltMainEvent → Option CltEvent
  | .turn env => if s.selectTimeout < env.now - s.lastUpkeep then some (.upkeep env) else none
  | .read res env => some (.read res env)
  | .write res => some (.write res)
  | .stdin env => (processStdin s.stdin).bind (Typed.event s.set env)
  | .outside fs => some (.outside fs)
  | _ => none

/-- The command of a step. -/
def CltEvent.command : CltEvent → Option CltCmd
  | .cmd a _ => some a
  | _ => none

/-- What a line amounts to: a command in the environment of the line, or another program. -/
theorem Typed.event_cases {set : ConCfg} {env : ConEnv} {t : Typed} {e : CltEvent}
    (h : t.event set env = some e) :
    (∃ a, e = .cmd a env.toCltEnv) ∨ ∃ fs, env.ran = some fs ∧ e = .outside fs := by
  have hcmd : ∀ {a : CltCmd}, some (CltEvent.cmd a env.toCltEnv) = some e →
      (∃ a, e = .cmd a env.toCltEnv) ∨ ∃ fs, env.ran = some fs ∧ e = .outside fs := by
    rintro a ⟨⟩
    exact .inl ⟨a, rfl⟩
  have hprogram : env.ran.map CltEvent.outside = some e →
      (∃ a, e = .cmd a env.toCltEnv) ∨ ∃ fs, env.ran = some fs ∧ e = .outside fs := by
    intro h
    obtain ⟨fs, hfs, rfl⟩ := Option.map_eq_some_iff.mp h
    exact .inr ⟨fs, hfs, rfl⟩
  unfold Typed.event at h
  split at h
  · exact hcmd h
  · obtain ⟨dir, -, hs⟩ := Option.map_eq_some_iff.mp h
    exact hcmd (congrArg some hs)
  · exact hprogram h
  · exact hcmd h
  · split at h
    · exact hcmd h
    · cases h
  · obtain ⟨s, -, hs⟩ := Option.bind_eq_some_iff.mp h
    dsimp only at hs
    split at hs
    · cases hs
    · exact hcmd hs
  · obtain ⟨host, -, hs⟩ := Option.map_eq_some_iff.mp h
    exact hcmd (congrArg some hs)
  · exact hcmd h
  · obtain ⟨password, -, hs⟩ := Option.map_eq_some_iff.mp h
    exact hcmd (congrArg some hs)
  · exact hcmd h
  · obtain ⟨user, -, hs⟩ := Option.map_eq_some_iff.mp h
    exact hcmd (congrArg some hs)
  · exact hcmd h
  · obtain ⟨m, -, hs⟩ := Option.map_eq_some_iff.mp h
    exact hcmd (congrArg some hs)
  · exact hcmd h
  · split at h
    · exact hprogram h
    · cases h
  · cases h

/-- What a line amounts to can happen. -/
theorem Typed.event_enabled {c : Clt} {set : ConCfg} {env : ConEnv} {t : Typed} {e : CltEvent}
    (h : t.event set env = some e)
    (hran : ∀ fs, env.ran = some fs → Files.Outside c.disk.fs fs) : e.Enabled c := by
  rcases Typed.event_cases h with ⟨a, rfl⟩ | ⟨fs, hfs, rfl⟩
  · trivial
  · exact hran fs hfs

/-- What is returned has left the client as it was, or is a step of it. -/
theorem RunsAs.follows {c t : Clt} {event : Option CltEvent} {r : Int}
    (h : RunsAs c event (some (r, t))) (hr : r ≠ -2) :
    (event = none ∧ t = c) ∨ ∃ e, event = some e ∧ cltStep c e = some t := by
  cases h with
  | nothing hnone => exact .inl ⟨hnone, rfl⟩
  | step hsome hstep => exact .inr ⟨_, hsome, hstep⟩
  | exits => exact absurd rfl hr

/-- A read leaves the connection open unless `handle_srvio` takes the way out. -/
theorem cltStep_read_online {c t : Clt} {res : ReadRes} {env : CltEnv} (hc : RecvOk c.rbuf)
    (hne : readOutcome (c.rbuf.getD mbufNew) res ≠ .disconnect)
    (h : cltStep c (.read res env) = some t) : t.srvfd = c.srvfd := by
  have hstep : Clt.readSrv env c res = some t := h
  unfold Clt.readSrv at hstep
  simp only at hstep
  split at hstep
  · exact absurd ‹_› hne
  · cases hstep
    rfl
  · cases hstep
  · cases hstep
    rfl
  · rename_i m hm
    have hwhole := whole_of_complete hc.getD.1 hm
    exact (Clt.processSrvmsg_conn hwhole.hdr hstep).2

namespace CltMain

/-- What is ready for writing has something to send. -/
def Sends (s : CltMain) (p : CltPolled) : Prop :=
  p.write = true → 0 ≤ s.clt.srvfd ∧ s.clt.q ≠ []

/-- What holds at the points of the loop: there is something to write where `handle_srvio`
comes to write, and the count is not too low for what is still to be seen to. -/
def PointOk (s : CltMain) : Prop :=
  match s.point with
  | .read p => s.Sends p ∧ (p.read = true → 0 ≤ s.clt.srvfd) ∧
      p.nset = p.read.toNat + p.write.toNat + p.stdin.toNat
  | .write p => s.Sends p ∧ p.nset = p.write.toNat + p.stdin.toNat
  | .stdin p => (p.stdin.toNat : Int) ≤ p.nset
  | _ => True

variable {s t : CltMain}

/-- The step that an event stands for is taken, or nothing happens to the client. -/
def Follows (s : CltMain) (e : CltMainEvent) (t : CltMain) : Prop :=
  match e.event s with
  | none => t.clt = s.clt
  | some ce => cltLts.step s.clt ce t.clt

theorem call_spec {e : CltEvent} (h : s.call e = some t) :
    cltStep s.clt e = some t.clt ∧ t.set = s.set ∧ t.stdin = s.stdin ∧ t.point = s.point := by
  obtain ⟨c, hc, rfl⟩ := Option.map_eq_some_iff.mp h
  exact ⟨cltStep_of_printing hc, rfl, rfl, rfl⟩

/-- A line is read from the standard input, and processed. -/
theorem stdin_spec {env : ConEnv} (h : s.step (.stdin env) = some t) :
    ∃ p line r, (s.point = .stdin p ∧ p.stdin = true) ∧
      readLine (MAX_CMDLINE - 1) s.stdin = some line ∧
      s.clt.runTyped s.set env (processLine (cstring line)) = some (r, t.clt) ∧ r ≠ -2 ∧
      t.set = s.set ∧ t.stdin = s.stdin.drop line.length ∧ t.point = .top := by
  simp only [step] at h
  split at h
  · rename_i p hpoint
    split at h
    · rename_i hready
      obtain ⟨line, hline, hbind⟩ := Option.bind_eq_some_iff.mp h
      obtain ⟨⟨r, c⟩, hrun, hgo⟩ := Option.bind_eq_some_iff.mp hbind
      dsimp only at hgo
      split at hgo
      · cases hgo
      · rename_i hr
        cases hgo
        exact ⟨p, line, r, ⟨hpoint, hready.2⟩, hline, runTyped_of_printing hrun, hr, rfl, rfl, rfl⟩
    · cases h
  · cases h

/-- The top of the loop. -/
theorem turn_follows {env : CltEnv}
    (h : s.step (.turn env) = some t) : s.Follows (.turn env) t ∧ t.PointOk ∧ t.set = s.set := by
  simp only [step] at h
  split at h
  · split at h
    · rename_i hdue
      obtain ⟨u, hu, rfl⟩ := Option.map_eq_some_iff.mp h
      obtain ⟨hstep, hset, -, -⟩ := call_spec hu
      refine ⟨?_, trivial, hset⟩
      rw [Follows, CltMainEvent.event, if_pos hdue]
      exact ⟨trivial, hstep⟩
    · rename_i hdue
      cases h
      refine ⟨?_, trivial, rfl⟩
      rw [Follows, CltMainEvent.event, if_neg hdue]
      rfl
  · cases h

/-- The return of `select(2)`. -/
theorem select_follows {p : CltPolled} (hen : CltMainEvent.Enabled s (.select p))
    (h : s.step (.select p) = some t) : s.Follows (.select p) t ∧ t.PointOk ∧ t.set = s.set := by
  simp only [step] at h
  split at h
  · cases h
    refine ⟨rfl, ?_, rfl⟩
    unfold PointOk goto
    dsimp only
    split
    · rename_i heq
      split at heq
      · rename_i hpos
        cases heq
        exact ⟨hen.2.1, hen.1, hen.2.2.1 hpos⟩
      · cases heq
    · rename_i heq
      split at heq <;> cases heq
    · rename_i heq
      split at heq <;> cases heq
    · trivial
  · cases h

/-- The reading half of `handle_srvio`. -/
theorem read_follows {res : ReadRes} {env : CltEnv} (hok : s.PointOk) (hc : RecvOk s.clt.rbuf)
    (h : s.step (.read res env) = some t) : s.Follows (.read res env) t ∧ t.PointOk ∧ t.set = s.set := by
  unfold PointOk at hok
  simp only [step] at h
  split at h
  · rename_i p hpoint
    rw [hpoint] at hok
    obtain ⟨hsends, hread, hn⟩ := hok
    split at h
    · rename_i hr
      obtain ⟨u, hu, rfl⟩ := Option.map_eq_some_iff.mp h
      obtain ⟨hstep, hset, -, -⟩ := call_spec hu
      have hone : p.read.toNat = 1 := by rw [hr.2]; rfl
      refine ⟨⟨hr.1, hstep⟩, ?_, hset⟩
      unfold PointOk goto
      dsimp only
      by_cases hdisc : readOutcome (s.clt.rbuf.getD mbufNew) res = .disconnect
      · rw [if_pos hdisc]
        show (p.stdin.toNat : Int) ≤ p.nset - 1
        omega
      · rw [if_neg hdisc]
        refine ⟨fun hw => ?_, ?_⟩
        · -- What there is to send stays in the queue.
          obtain ⟨h0, hq⟩ := hsends hw
          obtain ⟨new, hnew, -⟩ := (cltStep_utters hc (by simp) hstep).queue
          refine ⟨(cltStep_read_online hc hdisc hstep).symm ▸ h0, ?_⟩
          show u.clt.q ≠ []
          rw [hnew]
          exact List.append_ne_nil_of_left_ne_nil hq new
        · show p.nset - 1 = _
          rw [show p.tick.write = p.write from rfl, show p.tick.stdin = p.stdin from rfl]
          omega
    · cases h
  · cases h

/-- Its writing half. -/
theorem write_follows {res : WriteRes} (hok : s.PointOk)
    (h : s.step (.write res) = some t) : s.Follows (.write res) t ∧ t.PointOk ∧ t.set = s.set := by
  unfold PointOk at hok
  simp only [step] at h
  split at h
  · rename_i p hpoint
    rw [hpoint] at hok
    obtain ⟨hsends, hn⟩ := hok
    split at h
    · rename_i hw
      obtain ⟨u, hu, rfl⟩ := Option.map_eq_some_iff.mp h
      obtain ⟨hstep, hset, -, -⟩ := call_spec hu
      have hone : p.write.toNat = 1 := by rw [hw.2]; rfl
      refine ⟨⟨hsends hw.2, hstep⟩, ?_, hset⟩
      show (p.stdin.toNat : Int) ≤ p.nset - 1
      omega
    · cases h
  · cases h

/-- A line of the standard input. -/
theorem stdin_follows {env : ConEnv} (hen : CltMainEvent.Enabled s (.stdin env))
    (h : s.step (.stdin env) = some t) : s.Follows (.stdin env) t ∧ t.PointOk ∧ t.set = s.set := by
  obtain ⟨p, line, r, -, hline, hrun, hr, hset, -, htop⟩ := stdin_spec h
  refine ⟨?_, ?_, hset⟩
  · have hevent : CltMainEvent.event s (.stdin env) =
        (processLine (cstring line)).event s.set env := by
      rw [CltMainEvent.event, processStdin, hline]
      rfl
    have hstep := runTyped_step s.set env s.clt (processLine (cstring line))
    rw [hrun] at hstep
    unfold Follows
    rw [hevent]
    rcases hstep.follows hr with ⟨hnone, hsame⟩ | ⟨e, hsome, hstep⟩
    · rw [hnone]
      exact hsame
    · rw [hsome]
      exact ⟨Typed.event_enabled hsome hen, hstep⟩
  · unfold PointOk
    rw [htop]
    trivial

/-- A branch in which nothing is called. -/
theorem next_follows (hok : s.PointOk)
    (h : s.step .next = some t) : s.Follows .next t ∧ t.PointOk ∧ t.set = s.set := by
  unfold PointOk at hok
  simp only [step] at h
  split at h
  · rename_i p hpoint
    rw [hpoint] at hok
    obtain ⟨hsends, hread, hn⟩ := hok
    split_ifs at h with hfd hr
    · cases h
      refine ⟨rfl, ?_, rfl⟩
      show (p.stdin.toNat : Int) ≤ p.nset
      omega
    · cases h
      refine ⟨rfl, ⟨hsends, ?_⟩, rfl⟩
      have hzero : p.read.toNat = 0 := by
        rw [Bool.not_eq_true] at hr
        rw [hr]
        rfl
      omega
  · rename_i p hpoint
    rw [hpoint] at hok
    split_ifs at h
    cases h
    refine ⟨rfl, ?_, rfl⟩
    show (p.stdin.toNat : Int) ≤ p.nset
    omega
  · split_ifs at h
    cases h
    exact ⟨rfl, trivial, rfl⟩
  · cases h

/-- **An event of the loop is at most one step of the client.** -/
theorem step_follows {e : CltMainEvent} (hok : s.PointOk) (hc : RecvOk s.clt.rbuf)
    (hen : e.Enabled s) (h : s.step e = some t) : s.Follows e t ∧ t.PointOk ∧ t.set = s.set := by
  cases e with
  | turn env => exact turn_follows h
  | select p => exact select_follows hen h
  | selectFails interrupted =>
      simp only [step] at h
      split at h
      · split_ifs at h
        cases h
        exact ⟨rfl, trivial, rfl⟩
      · cases h
  | read res env => exact read_follows hok hc h
  | write res => exact write_follows hok h
  | stdin env => exact stdin_follows hen h
  | stdinFails n =>
      simp only [step] at h
      split at h
      · split at h
        · cases h
          exact ⟨rfl, trivial, rfl⟩
        · cases h
      · cases h
  | next => exact next_follows hok h
  | outside fs =>
      have hcall : s.call (.outside fs) = some t := h
      obtain ⟨c, hstep, rfl⟩ := Option.map_eq_some_iff.mp hcall
      cases cltStep_of_printing hstep
      exact ⟨⟨hen, rfl⟩, hok, rfl⟩

/-- Nothing has gone wrong so far. -/
structure Ok (s : CltMain) : Prop where
  point : s.PointOk
  clt : cltLts.Reachable s.clt

theorem Ok.step {e : CltMainEvent} (h : s.Ok) (hstep : cltMainLts.step s e t) : t.Ok := by
  have hrbuf := (cltOk_inductive.invariant _ h.clt).rbuf
  obtain ⟨hfollows, hpoint, -⟩ := step_follows h.point hrbuf hstep.1 hstep.2
  refine ⟨hpoint, ?_⟩
  unfold Follows at hfollows
  split at hfollows
  · rw [hfollows]
    exact h.clt
  · exact h.clt.step hfollows

/-- The connection that `autoconnect` asks for is one that the user could have asked for. -/
theorem start_ok {c : Clt} (hc : cltLts.init c) (set : ConCfg) (autoconnect : Bool) (env : ConEnv)
    (selectTimeout : Int) (stdin : Bytes) :
    (start c set autoconnect env selectTimeout stdin).Ok := by
  refine ⟨trivial, ?_⟩
  have hinit := Lts.Reachable.init hc
  unfold start
  dsimp only
  split
  · split
    · exact hinit.step (e := .cmd (.connect _) env.toCltEnv) ⟨trivial, rfl⟩
    · exact hinit
  · exact hinit

theorem ok_inductive : cltMainLts.Inductive Ok where
  init := by
    rintro s ⟨c, set, autoconnect, env, selectTimeout, stdin, hc, rfl⟩
    exact start_ok hc set autoconnect env selectTimeout stdin
  step := fun _ _ _ h hstep => h.step hstep

end CltMain

/-! ## The lines of the standard input -/

/-- What is read in one go: up to a line break, or as much as there is room for. -/
structure TypedLine (line : Bytes) : Prop where
  length_le : line.length ≤ MAX_CMDLINE - 1
  break_last : chLF ∉ line.dropLast
  complete : line.getLast? = some chLF ∨ line.length = MAX_CMDLINE - 1

theorem readLine_spec {n : Nat} {s line : Bytes} (h : readLine n s = some line) :
    line ++ s.drop line.length = s ∧ line.length ≤ n ∧ chLF ∉ line.dropLast ∧
      (line.getLast? = some chLF ∨ line.length = n) := by
  induction n generalizing s line with
  | zero =>
      cases h
      exact ⟨rfl, Nat.le_refl 0, List.not_mem_nil, .inr rfl⟩
  | succ n ih =>
      cases s with
      | nil => cases h
      | cons c s =>
          rw [readLine] at h
          split at h
          · rename_i hc
            cases h
            exact ⟨rfl, Nat.succ_le_succ (Nat.zero_le n), List.not_mem_nil, .inl (by rw [hc]; rfl)⟩
          · rename_i hc
            obtain ⟨l, hl, rfl⟩ := Option.map_eq_some_iff.mp h
            obtain ⟨hcat, hle, hlf, hend⟩ := ih hl
            refine ⟨by rw [List.cons_append, List.length_cons, List.drop_succ_cons, hcat],
              Nat.succ_le_succ hle, ?_, ?_⟩
            · cases l with
              | nil => exact List.not_mem_nil
              | cons x l =>
                  rw [List.dropLast_cons_cons, List.mem_cons, not_or]
                  exact ⟨fun h => hc h.symm, hlf⟩
            · refine hend.imp (fun hlast => ?_) (congrArg (· + 1))
              rw [List.getLast?_cons, hlast]
              rfl

/-- The environment of a line that is processed. -/
def CltMainEvent.console : CltMainEvent → Option ConEnv
  | .stdin env => some env
  | _ => none

/-- The command that a line stands for. -/
def lineCommand (set : ConCfg) (line : Bytes) (env : ConEnv) : Option CltCmd :=
  ((processLine (cstring line)).event set env).bind CltEvent.command

/-- Only a line stands for a command. -/
theorem command_of_event {s : CltMain} {e : CltMainEvent} {ce : CltEvent}
    (hne : e.console = none) (h : e.event s = some ce) : ce.command = none := by
  cases e with
  | stdin env => cases hne
  | turn env =>
      simp only [CltMainEvent.event] at h
      split at h
      · cases h
        rfl
      · cases h
  | select p => cases h
  | selectFails interrupted => cases h
  | read res env =>
      cases h
      rfl
  | write res =>
      cases h
      rfl
  | stdinFails n => cases h
  | next => cases h
  | outside fs =>
      cases h
      rfl

/-- Only `process_stdin` reads the standard input. -/
theorem step_stdin_eq {s t : CltMain} {e : CltMainEvent} (hne : e.console = none)
    (hread : ∀ n, e ≠ .stdinFails n) (h : s.step e = some t) : t.stdin = s.stdin := by
  cases e with
  | stdin env => cases hne
  | stdinFails n => exact absurd rfl (hread n)
  | turn env =>
      simp only [CltMain.step] at h
      split at h
      · split at h
        · obtain ⟨u, hu, rfl⟩ := Option.map_eq_some_iff.mp h
          exact (CltMain.call_spec hu).2.2.1
        · cases h
          rfl
      · cases h
  | select p =>
      simp only [CltMain.step] at h
      split at h
      · cases h
        rfl
      · cases h
  | selectFails interrupted =>
      simp only [CltMain.step] at h
      split at h
      · split_ifs at h
        cases h
        rfl
      · cases h
  | read res env =>
      simp only [CltMain.step] at h
      split at h
      · split at h
        · obtain ⟨u, hu, rfl⟩ := Option.map_eq_some_iff.mp h
          exact (CltMain.call_spec hu).2.2.1
        · cases h
      · cases h
  | write res =>
      simp only [CltMain.step] at h
      split at h
      · split at h
        · obtain ⟨u, hu, rfl⟩ := Option.map_eq_some_iff.mp h
          exact (CltMain.call_spec hu).2.2.1
        · cases h
      · cases h
  | next =>
      simp only [CltMain.step] at h
      split at h
      · split_ifs at h
        · cases h
          rfl
        · cases h
          rfl
      · split_ifs at h
        cases h
        rfl
      · split_ifs at h
        cases h
        rfl
      · cases h
  | outside fs => exact (CltMain.call_spec h).2.2.1

/-- **The loop takes steps of the client, and the commands among them are those of the lines of
the standard input**, one after the other, as long as the standard input can be read. -/
theorem main_runs_lines {s t : CltMain} {es : List CltMainEvent} (hs : cltMainLts.Reachable s)
    (hrun : cltMainLts.Run s es t) (hread : ∀ n, .stdinFails n ∉ es) :
    cltLts.Reachable s.clt ∧ ∃ (lines : List Bytes) (fs : List CltEvent),
      s.stdin = lines.flatten ++ t.stdin ∧ (∀ line ∈ lines, TypedLine line) ∧
      lines.length = (es.filterMap CltMainEvent.console).length ∧
      cltLts.Run s.clt fs t.clt ∧ fs.filterMap CltEvent.command =
        (lines.zip (es.filterMap CltMainEvent.console)).filterMap fun p =>
          lineCommand s.set p.1 p.2 := by
  have hok := CltMain.ok_inductive.invariant s hs
  refine ⟨hok.clt, ?_⟩
  clear hs
  -- By the events of the loop; each comes with the line that it reads, if it reads one.
  induction hrun with
  | nil s => exact ⟨[], [], rfl, by simp, rfl, .nil _, rfl⟩
  | @cons s u t e es hstep hrest ih =>
      obtain ⟨lines, fs, hstdin, hlines, hlen, hrun, hcmds⟩ :=
        ih (fun n hn => hread n (List.mem_cons_of_mem _ hn)) (hok.step hstep)
      obtain ⟨hfollows, -, hset⟩ := CltMain.step_follows hok.point
        (cltOk_inductive.invariant _ hok.clt).rbuf hstep.1 hstep.2
      rw [hset] at hcmds
      -- The steps of the client, with the one that the event stands for in front.
      have hfront : cltLts.Run s.clt ((e.event s).toList ++ fs) t.clt := by
        unfold CltMain.Follows at hfollows
        split at hfollows
        · rename_i hnone
          rw [hnone, ← hfollows]
          exact hrun
        · rename_i ce hce
          rw [hce]
          exact .cons hfollows hrun
      cases hcon : e.console with
      | none =>
          have hsame := step_stdin_eq hcon
            (fun n heq => hread n (heq ▸ List.mem_cons_self)) hstep.2
          refine ⟨lines, _, hsame ▸ hstdin, hlines, ?_, hfront, ?_⟩
          · rw [List.filterMap_cons, hcon]
            exact hlen
          · have hnone : (e.event s).toList.filterMap CltEvent.command = [] := by
              cases hce : e.event s with
              | none => rfl
              | some ce => simp [command_of_event hcon hce]
            rw [List.filterMap_append, hnone, List.filterMap_cons, hcon]
            exact hcmds
      | some env =>
          obtain rfl : e = .stdin env := by
            cases e with
            | stdin env' => exact congrArg _ (Option.some.inj hcon)
            | _ => cases hcon
          obtain ⟨p, line, r, -, hline, -, -, -, hrest', -⟩ := CltMain.stdin_spec hstep.2
          obtain ⟨hcat, hle, hlf, hend⟩ := readLine_spec hline
          refine ⟨line :: lines, _, ?_, ?_, ?_, hfront, ?_⟩
          · rw [List.flatten_cons, List.append_assoc, ← hstdin, hrest', hcat]
          · intro l hl
            rcases List.mem_cons.mp hl with rfl | hl
            · exact ⟨hle, hlf, hend⟩
            · exact hlines l hl
          · rw [List.filterMap_cons, hcon]
            exact congrArg (· + 1) hlen
          · have hevent : CltMainEvent.event s (.stdin env) =
                (processLine (cstring line)).event s.set env := by
              rw [CltMainEvent.event, processStdin, hline]
              rfl
            rw [List.filterMap_append, hcmds, List.filterMap_cons (f := CltMainEvent.console), hcon]
            simp only [List.zip_cons_cons, List.filterMap_cons, lineCommand, hevent]
            cases (processLine (cstring line)).event s.set env with
            | none => rfl
            | some ce =>
                simp only [Option.toList_some, List.filterMap_cons, List.filterMap_nil,
                  Option.bind_some]
                cases ce.command <;> rfl

/-! ## One pass -/

/-- What the loop does about a descriptor that is ready. -/
inductive CltAct where
  | read
  | write
  | stdin
  deriving DecidableEq

/-- What an event does about one. -/
def CltMainEvent.act : CltMainEvent → Option CltAct
  | .read _ _ => some .read
  | .write _ => some .write
  | .stdin _ | .stdinFails _ => some .stdin
  | _ => none

/-- What `read(2)` returns in an event. -/
def CltMainEvent.received : CltMainEvent → Option ReadRes
  | .read res _ => some res
  | _ => none

/-- The connection fails while it is read from. -/
def CltMain.Breaks (s : CltMain) (es : List CltMainEvent) : Prop :=
  ∃ res, es.findSome? CltMainEvent.received = some res ∧
    readOutcome (s.clt.rbuf.getD mbufNew) res = .disconnect

instance (s : CltMain) (es : List CltMainEvent) : Decidable (s.Breaks es) :=
  match h : es.findSome? CltMainEvent.received with
  | none => isFalse fun ⟨_, hres, _⟩ => by cases h.symm.trans hres
  | some res => decidable_of_iff (readOutcome (s.clt.rbuf.getD mbufNew) res = .disconnect)
      ⟨fun hout => ⟨res, h, hout⟩, fun ⟨_, hres, hout⟩ => by
        cases h.symm.trans hres
        exact hout⟩

/-- What is to be done until the loop is at its top, in the order of `es`. -/
def CltMain.due (s : CltMain) (es : List CltMainEvent) : List CltAct :=
  match s.point with
  | .read p => (if p.read = true then [.read] else []) ++
      ((if p.write = true ∧ ¬ (p.read = true ∧ s.Breaks es) then [.write] else []) ++
        if p.stdin = true then [.stdin] else [])
  | .write p => (if p.write = true then [.write] else []) ++
      if p.stdin = true then [.stdin] else []
  | .stdin p => if p.stdin = true then [.stdin] else []
  | _ => []

namespace CltMain

variable {s t u : CltMain}

/-- Another program changes files between two steps. -/
theorem due_outside {fs : Files Bytes UInt8} (es : List CltMainEvent)
    (h : s.step (.outside fs) = some u) :
    s.due (.outside fs :: es) = u.due es ∧ u.point = s.point := by
  obtain ⟨c, hc, rfl⟩ := Option.map_eq_some_iff.mp (show s.call (.outside fs) = some u from h)
  cases cltStep_of_printing hc
  exact ⟨rfl, rfl⟩

/-- The connection is read from first, and a failing one is not written to. -/
theorem due_read {res : ReadRes} {env : CltEnv} (es : List CltMainEvent)
    (h : s.step (.read res env) = some u) :
    s.due (.read res env :: es) = (CltMainEvent.act (.read res env)).toList ++ u.due es ∧
      u.point ≠ .select := by
  simp only [step] at h
  split at h
  · rename_i p hpoint
    split at h
    · rename_i hr
      obtain ⟨v, -, rfl⟩ := Option.map_eq_some_iff.mp h
      have hbreaks : s.Breaks (.read res env :: es) ↔
          readOutcome (s.clt.rbuf.getD mbufNew) res = .disconnect :=
        ⟨fun ⟨r, heq, hout⟩ => by cases heq; exact hout, fun hout => ⟨res, rfl, hout⟩⟩
      unfold due goto
      rw [hpoint]
      dsimp only
      rw [if_pos hr.2]
      by_cases hdisc : readOutcome (s.clt.rbuf.getD mbufNew) res = .disconnect
      · rw [if_pos hdisc, if_neg fun hw => hw.2 ⟨hr.2, hbreaks.mpr hdisc⟩]
        exact ⟨rfl, fun hsel => by cases hsel⟩
      · have hgo : ¬ (p.read = true ∧ s.Breaks (.read res env :: es)) := fun hb =>
          hdisc (hbreaks.mp hb.2)
        rw [if_neg hdisc]
        simp only [hgo, not_false_eq_true, and_true]
        exact ⟨rfl, fun hsel => by cases hsel⟩
    · cases h
  · cases h

/-- It is written to next. -/
theorem due_write {res : WriteRes} (es : List CltMainEvent)
    (h : s.step (.write res) = some u) :
    s.due (.write res :: es) = (CltMainEvent.act (.write res)).toList ++ u.due es ∧
      u.point ≠ .select := by
  simp only [step] at h
  split at h
  · rename_i p hpoint
    split at h
    · rename_i hw
      obtain ⟨v, -, rfl⟩ := Option.map_eq_some_iff.mp h
      unfold due goto
      rw [hpoint]
      dsimp only
      rw [if_pos hw.2]
      exact ⟨rfl, fun hsel => by cases hsel⟩
    · cases h
  · cases h

/-- A line is processed last. -/
theorem due_stdin {env : ConEnv} (es : List CltMainEvent)
    (h : s.step (.stdin env) = some u) :
    s.due (.stdin env :: es) = (CltMainEvent.act (.stdin env)).toList ++ u.due es ∧
      u.point ≠ .select := by
  obtain ⟨p, line, r, ⟨hpoint, hp⟩, -, -, -, -, -, htop⟩ := stdin_spec h
  unfold due
  rw [hpoint, htop]
  dsimp only
  rw [if_pos hp]
  exact ⟨rfl, fun hsel => by cases hsel⟩

/-- What is passed over is not due. -/
theorem due_next (es : List CltMainEvent) (hok : s.PointOk)
    (h : s.step .next = some u) :
    s.due (.next :: es) = (CltMainEvent.act .next).toList ++ u.due es ∧
      u.point ≠ .select := by
  unfold PointOk at hok
  simp only [step] at h
  split at h
  · rename_i p hpoint
    rw [hpoint] at hok
    obtain ⟨hsends, hread, -⟩ := hok
    unfold due
    rw [hpoint]
    dsimp only
    split_ifs at h with hfd hr
    · -- Without a connection none was polled.
      cases h
      have hr : ¬ p.read = true := fun hr => absurd (hread hr) (Int.not_le.mpr hfd)
      have hw : ¬ p.write = true := fun hw => absurd (hsends hw).1 (Int.not_le.mpr hfd)
      rw [if_neg hr, if_neg fun h => hw h.1]
      exact ⟨rfl, fun hsel => by cases hsel⟩
    · cases h
      have hgo : ¬ (p.read = true ∧ s.Breaks (.next :: es)) := fun hb => hr hb.1
      simp only [hgo, not_false_eq_true, and_true]
      rw [if_neg hr]
      exact ⟨rfl, fun hsel => by cases hsel⟩
  · rename_i p hpoint
    rw [hpoint] at hok
    obtain ⟨-, hn⟩ := hok
    split_ifs at h with hgo
    cases h
    have hw : ¬ p.write = true := by
      intro hw
      rw [hw] at hn
      exact hgo ⟨by rw [hn]; exact Int.add_pos_of_pos_of_nonneg (by decide) (by simp), hw⟩
    unfold due
    rw [hpoint]
    dsimp only
    rw [if_neg hw]
    exact ⟨rfl, fun hsel => by cases hsel⟩
  · rename_i p hpoint
    rw [hpoint] at hok
    split_ifs at h with hgo
    cases h
    have hp : ¬ p.stdin = true := by
      intro hp
      have hn : (p.stdin.toNat : Int) ≤ p.nset := hok
      rw [hp] at hn
      exact hgo ⟨Int.lt_of_lt_of_le (by decide) hn, hp⟩
    unfold due
    rw [hpoint]
    dsimp only
    rw [if_neg hp]
    exact ⟨rfl, fun hsel => by cases hsel⟩
  · cases h

/-- One event does the first thing that is due, if it does anything. -/
theorem due_step {e : CltMainEvent} (es : List CltMainEvent) (hok : s.PointOk)
    (hsel : s.point ≠ .select)
    (hturn : ∀ env, e ≠ .turn env) (h : s.step e = some u) :
    s.due (e :: es) = e.act.toList ++ u.due es ∧ u.point ≠ .select := by
  cases e with
  | turn env => exact absurd rfl (hturn env)
  | select p =>
      simp only [step] at h
      cases h
  | selectFails interrupted =>
      simp only [step] at h
      cases h
  | read res env => exact due_read es h
  | write res => exact due_write es h
  | stdin env => exact due_stdin es h
  | stdinFails n =>
      simp only [step] at h
      split at h
      · rename_i p hpoint
        split at h
        · rename_i hp
          cases h
          unfold due
          rw [hpoint]
          dsimp only
          rw [if_pos hp.2]
          exact ⟨rfl, fun hsel => by cases hsel⟩
        · cases h
      · cases h
  | next => exact due_next es hok h
  | outside fs =>
      obtain ⟨hdue, hpoint⟩ := due_outside es h
      exact ⟨hdue, hpoint ▸ hsel⟩

end CltMain

/-- **What `select(2)` has found ready is seen to**, each once and in this order, before the loop is
at its top again; only a connection that fails while it is read from is not written to. -/
theorem pass_serves {s t : CltMain} {p : CltPolled} {es : List CltMainEvent}
    (hs : cltMainLts.Reachable s) (hpoint : s.point = .read p) (hrun : cltMainLts.Run s es t)
    (hend : t.point = .top) (hturn : ∀ env, .turn env ∉ es) :
    es.filterMap CltMainEvent.act = s.due es := by
  have hok := CltMain.ok_inductive.invariant s hs
  have hsel : s.point ≠ .select := by rw [hpoint]; nofun
  clear hs hpoint
  induction hrun with
  | nil s => rw [CltMain.due, hend]; rfl
  | @cons s u t e es hstep hrest ih =>
      obtain ⟨hdue, hsel'⟩ := CltMain.due_step es hok.point hsel
        (fun env heq => hturn env (heq ▸ List.mem_cons_self)) hstep.2
      rw [hdue, ← ih hend (fun env henv => hturn env (List.mem_cons_of_mem _ henv)) (hok.step hstep)
        hsel']
      cases hact : e.act with
      | none => rw [List.filterMap_cons, hact]; rfl
      | some a => rw [List.filterMap_cons, hact]; rfl

/-! ## A loop to try things on -/

/-- The steps of the loop as a function, while no other program runs. -/
def cltMainTry (s : CltMain) (e : CltMainEvent) : Option CltMain :=
  match e with
  | .select p =>
      if (p.read = true → 0 ≤ s.clt.srvfd) ∧ (p.write = true → 0 ≤ s.clt.srvfd ∧ s.clt.q ≠ []) ∧
          (0 < p.nset → p.nset = p.read.toNat + p.write.toNat + p.stdin.toNat) ∧ 0 ≤ p.nset then
        s.step e
      else none
  | .stdin env => if env.ran.isNone then s.step e else none
  | .stdinFails _ | .outside _ => none
  | _ => s.step e

theorem cltMainTry_step (s : CltMain) (e : CltMainEvent) (t : CltMain)
    (h : cltMainTry s e = some t) : cltMainLts.step s e t := by
  unfold cltMainTry at h
  split at h
  · split at h
    · exact ⟨‹_›, h⟩
    · cases h
  · split at h
    · rename_i env hran
      refine ⟨fun fs hfs => ?_, h⟩
      rw [hfs] at hran
      cases hran
    · cases h
  · cases h
  · cases h
  · rename_i hselect hstdin hfails hout
    refine ⟨?_, h⟩
    cases e with
    | select p => exact absurd rfl (hselect p)
    | stdin env => exact absurd rfl (hstdin env)
    | stdinFails n => exact absurd rfl (hfails n)
    | outside fs => exact absurd rfl (hout fs)
    | _ => trivial

/-- Standard input and output, and connections that succeed. -/
def demoConsole : ConEnv := ⟨demoEnv, fun _ _ => some 3, some, none, fun _ => [], 100⟩

/-- The client with three lines to read. -/
def demoMain : CltMain :=
  .start (demoClient false []) ⟨some (ascii "host"), some (ascii "1"), none, false⟩ false
    demoConsole 10
    (ascii "connect" ++ chLF :: (ascii "login me" ++ chLF :: (ascii "list" ++ [chLF])))

theorem demoMain_init : cltMainLts.init demoMain :=
  ⟨_, _, _, _, _, _, demoClient_init false [], rfl⟩

/-- A pass in which only the standard input is ready, from `select(2)` on; with a connection it
goes past both halves of `handle_srvio`. -/
def linePass (online : Bool) : List CltMainEvent :=
  (if online then [.next, .next] else [.next]) ++ [.stdin demoConsole]

/-- The pass up to the return of `select(2)`. -/
def linePoll : List CltMainEvent := [.turn demoEnv, .select ⟨1, false, false, true⟩]

theorem main_runs_lines_three : ∃ s t es, cltMainLts.Run s es t ∧ t.stdin = [] ∧
    cltLts.Reachable s.clt ∧ ∃ (lines : List Bytes) (fs : List CltEvent),
      s.stdin = lines.flatten ++ t.stdin ∧ (∀ line ∈ lines, TypedLine line) ∧
      lines.length = (es.filterMap CltMainEvent.console).length ∧
      cltLts.Run s.clt fs t.clt ∧ fs.filterMap CltEvent.command =
        (lines.zip (es.filterMap CltMainEvent.console)).filterMap fun p =>
          lineCommand s.set p.1 p.2 := by
  have hexec : (Lts.exec cltMainTry demoMain
      (linePoll ++ linePass false ++ (linePoll ++ linePass true) ++ (linePoll ++ linePass true))).any
        (fun t => t.stdin == []) = true := by
    decide +kernel
  obtain ⟨t, hrun, ht⟩ := Lts.run_of_exec cltMainTry_step hexec
  have hread : ∀ n, CltMainEvent.stdinFails n ∉
      linePoll ++ linePass false ++ (linePoll ++ linePass true) ++ (linePoll ++ linePass true) := by
    intro n hn
    simp [linePoll, linePass] at hn
  exact ⟨_, t, _, hrun, by simpa using ht, main_runs_lines (.init demoMain_init) hrun hread⟩

/-- A pass in which everything is ready: some of a header is read, the login is written, and a line
processed. -/
def fullPass : List CltMainEvent :=
  [.read (.got [0, 0]) demoEnv, .write (.sent 1000), .stdin demoConsole]

theorem pass_serves_full : ∃ s t p, cltMainLts.Reachable s ∧ s.point = .read p ∧
    cltMainLts.Run s fullPass t ∧ t.point = .top ∧ s.due fullPass = [.read, .write, .stdin] ∧
    fullPass.filterMap CltMainEvent.act = s.due fullPass := by
  have hexec : (Lts.exec cltMainTry demoMain
      (linePoll ++ linePass false ++ (linePoll ++ linePass true) ++
        [.turn demoEnv, .select ⟨3, true, true, true⟩])).any (fun s =>
      s.point == .read ⟨3, true, true, true⟩ && s.due fullPass == [.read, .write, .stdin] &&
        (Lts.exec cltMainTry s fullPass).any fun t => t.point == .top) = true := by
    decide +kernel
  obtain ⟨s, hs, hp⟩ := Lts.reachable_of_exec cltMainTry_step demoMain_init hexec
  simp only [Bool.and_eq_true, beq_iff_eq] at hp
  obtain ⟨⟨hpoint, hdue⟩, hpass⟩ := hp
  obtain ⟨t, hrun, ht⟩ := Lts.run_of_exec cltMainTry_step hpass
  have hend : t.point = .top := by simpa using ht
  have hturn : ∀ env, CltMainEvent.turn env ∉ fullPass := by
    intro env henv
    simp [fullPass] at henv
  exact ⟨s, t, _, hs, hpoint, hrun, hend, hdue, pass_serves hs hpoint hrun hend hturn⟩

end Frelay
