import Frelay.Client.Effect
import Frelay.Client.Itostr
import Frelay.Client.Stdin

/-!
# Lines about transfers

`process_srvmsg`, `process_stdin` and `tlist_cb` once more, as the list of the lines about
transfers that they have `transfer_itostr` compose. The buffers are of a fixed size, and a long
name makes a line run over the end of one.

* `ItostrCall.escapes_iff` — it does exactly when the line is too long up to its last piece;
* `cltStepPrinting`, `Clt.runTypedPrinting` — the steps of the client with the lines that they
  print, which end where something is written behind a buffer.
-/

namespace Frelay

open Lib

/-- `PATH_MAX`. -/
def PATH_MAX : Nat := 4096

/-- The buffers: `buf` of `process_srvmsg` and of `tlist_cb`, and `aline` of `process_stdin`. -/
inductive ItostrBuf where
  | buf
  | aline
  deriving DecidableEq

def ItostrBuf.size : ItostrBuf → Nat
  | .buf => PATH_MAX
  | .aline => MAX_CMDLINE

theorem ItostrBuf.size_le (b : ItostrBuf) : b.size ≤ INT_MAX := by
  cases b with
  | buf => decide
  | aline => decide

/-- A call of `transfer_itostr`. -/
structure ItostrCall where
  env : ItostrEnv
  dest : ItostrBuf
  fmt : String
  entry : Transfer

instance (env : ItostrEnv) (t : Transfer) : Decidable (Printable env t) :=
  decidable_of_iff ((∀ s ∈ t.name, s.length ≤ INT_MAX) ∧ (∀ s ∈ t.partname, s.length ≤ INT_MAX) ∧
      (env.timeText t.tstart).length ≤ INT_MAX)
    ⟨fun h => ⟨h.1, h.2.1, h.2.2⟩, fun h => ⟨h.name, h.partname, h.time⟩⟩

namespace ItostrCall

/-- The call writes behind the buffer; what is in it before makes no difference. -/
def Escapes (p : ItostrCall) : Prop :=
  transferItostr p.env (List.replicate p.dest.size 0) (some (ascii p.fmt)) [] p.entry = none

instance (p : ItostrCall) : Decidable p.Escapes := inferInstanceAs (Decidable (_ = none))

/-- What is printed before the last piece is longer than the buffer. -/
def TooLong (p : ItostrCall) : Prop :=
  p.dest.size < lengthBeforeLast (itostrTexts p.env p.entry (ascii p.fmt ++ [0]))

instance (p : ItostrCall) : Decidable p.TooLong := inferInstanceAs (Decidable (_ < _))

/-- **A line runs over the end of its buffer** exactly when it is too long up to its last piece. -/
theorem escapes_iff {p : ItostrCall} (hp : Printable p.env p.entry) : p.Escapes ↔ p.TooLong := by
  have hsize := p.dest.size_le
  have hlen : (List.replicate p.dest.size (0 : UInt8)).length = p.dest.size := List.length_replicate
  have hroom : (List.replicate p.dest.size (0 : UInt8)).length < 2 ^ 64 := by
    unfold INT_MAX at hsize
    omega
  have hsome := printAll_isSome_iff (length_itostrTexts hp (ascii p.fmt ++ [0])) (n := 0) hroom
    (Nat.zero_le _)
  rw [hlen, Nat.zero_add, Nat.min_eq_left (show _ ≤ intMax from hsize)] at hsome
  rw [Escapes, transferItostr, Option.map_eq_none_iff, ← Option.not_isSome_iff_eq_none, TooLong,
    ← Nat.not_le]
  exact not_congr hsome

end ItostrCall

/-! ## Messages -/

namespace Clt

/-- The clock of a step; no line but those of `list` has a time of day. -/
def clock (env : CltEnv) : ItostrEnv := ⟨env.now, fun _ => []⟩

/-- `case MSG_TYPE_OFFER_REQ`. -/
def offerReqPrints (env : CltEnv) (c : Clt) (m : Mbuf) : List ItostrCall :=
  if c.st = .authOk then
    let d := { transferNew env.now c.nextAddr .download with rid := hdrGetSrcid m }
    let (_, d) := (attribRefs m).foldl (offerAttrib env c.cfg.noClobber m) (c.disk, d)
    if d.name.getD [] = [] ∨ d.size = 0 then [] else [⟨clock env, .buf, "%i '%n' %S", d⟩]
  else []

/-- `case MSG_TYPE_GETFILE_REQ`: the upload is finished. -/
def getfileReqPrints (env : CltEnv) (c : Clt) (m : Mbuf) : List ItostrCall :=
  match if c.st = .authOk then nextIf m .offerid else none with
  | none => []
  | some (a, m') =>
      match transferMatch env.now .offer (hdrGetSrcid m) (ui64At m' env.beyond a.av) c.transfers with
      | none => []
      | some o =>
          if (nextUi64 env (nextUi64 env m' .offset).2 .size).1 = 0 then
            [⟨clock env, .buf, "%i '%n' %S %D", o⟩]
          else []

/-- `case MSG_TYPE_GETFILE_RES`: the line is composed before anything is printed. -/
def getfileResPrints (env : CltEnv) (c : Clt) (m : Mbuf) : List ItostrCall :=
  match if c.st = .authOk then nextIf m .offerid else none with
  | none => []
  | some (a, m') =>
      match transferMatch env.now .download (hdrGetSrcid m) (ui64At m' env.beyond a.av)
          c.transfers, nextIf m' .data with
      | some d, some _ => [⟨clock env, .buf, "%i '%n' %O/%S %D", d⟩]
      | _, _ => []

/-- `process_srvmsg`. -/
def srvmsgPrints (env : CltEnv) (c : Clt) (m : Mbuf) : List ItostrCall :=
  match c.solicited m with
  | none => []
  | some c =>
      match MsgType.ofCode? (hdrGetType m) with
      | some .offerReq => offerReqPrints env c (mbufResetgetattrib m)
      | some .getfileReq => getfileReqPrints env c (mbufResetgetattrib m)
      | some .getfileRes => getfileResPrints env c (mbufResetgetattrib m)
      | _ => []

/-! ## Commands -/

/-- `CMD_ACCEPT`, which prints into `aline`. -/
def acceptPrints (env : CltEnv) (c : Clt) (rid oid : UInt64) : List ItostrCall :=
  match transferMatch env.now .download rid oid c.transfers with
  | none => []
  | some d =>
      match downloadResume env.toSysEnv (c.disk.note (.accepted d.addr)) d with
      | (_, d, true) =>
          [⟨clock env, .aline, if 0 < d.offset then "%i '%n' %O/%S" else "%i '%n' %S", d⟩]
      | (k, d, false) =>
          match downloadWrite env.toSysEnv k d [] with
          | (_, d, true) => [⟨clock env, .aline, "%i '%n' %S", d⟩]
          | (_, d, false) => [⟨clock env, .aline, "%i '%n'", d⟩]

end Clt

/-- The lines that a step of the client has composed. -/
def CltEvent.prints (c : Clt) : CltEvent → List ItostrCall
  | .cmd (.accept rid oid) env => Clt.acceptPrints env c rid oid
  | .read res env =>
      ((CltEvent.read res env).message c).elim [] fun p => Clt.srvmsgPrints p.1 c p.2
  | _ => []

/-- `transfer_list` with `tlist_cb`; the line that cannot be written any more is the last. -/
def Clt.listPrints (env : ConEnv) (c : Clt) : List ItostrCall :=
  ((c.transfers.filter fun d => d.rid ≠ 0 ∧ d.oid ≠ 0 ∧ d.tact ≠ 0).take (env.listed + 1)).map
    fun d => ⟨⟨env.now, env.timeText⟩, .buf, "%i '%n' %O/%S %T %D %A", d⟩

/-- The lines of a command that was typed. -/
def Typed.prints (set : ConCfg) (env : ConEnv) (c : Clt) : Typed → List ItostrCall
  | .other .list _ => c.listPrints env
  | t => (t.event set env).elim [] (CltEvent.prints c)

/-! ## Steps -/

/-- One of the lines runs over the end of its buffer. -/
def Overruns (l : List ItostrCall) : Prop := ∃ p ∈ l, p.Escapes

instance (l : List ItostrCall) : Decidable (Overruns l) :=
  inferInstanceAs (Decidable (∃ p ∈ l, p.Escapes))

theorem overruns_iff {l : List ItostrCall} (hp : ∀ p ∈ l, Printable p.env p.entry) :
    Overruns l ↔ ∃ p ∈ l, p.TooLong :=
  ⟨fun ⟨p, hmem, h⟩ => ⟨p, hmem, (ItostrCall.escapes_iff (hp p hmem)).mp h⟩,
    fun ⟨p, hmem, h⟩ => ⟨p, hmem, (ItostrCall.escapes_iff (hp p hmem)).mpr h⟩⟩

/-- A step of the client, with what it prints. -/
def cltStepPrinting (c : Clt) (e : CltEvent) : Option Clt :=
  if Overruns (e.prints c) then none else cltStep c e

/-- The `switch` of `process_stdin`, with what it prints. -/
def Clt.runTypedPrinting (set : ConCfg) (env : ConEnv) (c : Clt) (t : Typed) : Returned :=
  if Overruns (t.prints set env c) then none else c.runTyped set env t

theorem cltStep_of_printing {c t : Clt} {e : CltEvent} (h : cltStepPrinting c e = some t) :
    cltStep c e = some t := by
  unfold cltStepPrinting at h
  split at h
  · cases h
  · exact h

theorem runTyped_of_printing {set : ConCfg} {env : ConEnv} {c : Clt} {t : Typed} {r : Int × Clt}
    (h : c.runTypedPrinting set env t = some r) : c.runTyped set env t = some r := by
  unfold Clt.runTypedPrinting at h
  split at h
  · cases h
  · exact h

theorem cltStepPrinting_eq_none_iff {c : Clt} {e : CltEvent}
    (hp : ∀ p ∈ e.prints c, Printable p.env p.entry) :
    cltStepPrinting c e = none ↔ cltStep c e = none ∨ ∃ p ∈ e.prints c, p.TooLong := by
  rw [cltStepPrinting, ← overruns_iff hp]
  split
  · exact iff_of_true rfl (.inr ‹_›)
  · exact (or_iff_left ‹_›).symm

end Frelay
