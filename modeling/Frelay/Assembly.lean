import Frelay.Server.AccountRuns
import Frelay.Client.Effect

/-!
# What ends a program while it reads

Both programs resize the receive buffer to the payload length that a header
announces, and `mbuf_resize` exits for more than `MSG_MAX_PAY_SIZE`. The field
has 16 bits, so a peer can announce more:

* `assembly_survives_iff` — exactly the read that completes such a header ends
  the program, whatever its state, and a stream is survived exactly when no
  header in it announces more, however it is cut into reads;
* `assembly_exits` — a header with the length 65535 ends both programs.
-/

namespace Frelay

open Lib

/-- All pieces of a stream are survived when no header in it announces too much. -/
theorem recvAll_survives_iff {cs : List Bytes} (hcs : msgFormat.Feasible [] cs) :
    recvAll none cs ≠ none ↔ msgFormat.WellSized MSG_MAX_PAY_SIZE cs.flatten := by
  have hok : RecvOk none := fun _ h => by cases h
  have hspec : RunSpec ([] ++ cs.flatten) (recvAll none cs) := recvAll_spec hok hcs
  rw [List.nil_append] at hspec
  generalize recvAll none cs = r at hspec
  cases hspec with
  | exits hbad => exact ⟨fun h => absurd rfl h, fun h => absurd h hbad⟩
  | delivers ms rbuf hgood hms hrec hok => exact ⟨fun _ => hgood, fun _ h => by cases h⟩

/-- **An oversized header ends the program, and nothing else does** while a
message is assembled: in the server on every connection, in the client, and over
whole streams. -/
theorem assembly_survives_iff {s : Server} {c : Clt} {i : Nat} {cs : List Bytes}
    (hs : (srvLts fun _ => True).Reachable s) (hlive : s.Live i) (hc : cltLts.Reachable c)
    (hcs : msgFormat.Feasible [] cs) (now : Int) (res : ReadRes) :
    (readOutcome (slotBuffer s i now) res ≠ .exits ↔ ¬ Oversized (slotBuffer s i now) res) ∧
    (readOutcome (c.rbuf.getD mbufNew) res ≠ .exits ↔ ¬ Oversized (c.rbuf.getD mbufNew) res) ∧
    (recvAll none cs ≠ none ↔ msgFormat.WellSized MSG_MAX_PAY_SIZE cs.flatten) := by
  have hslot := ((slotsOk_inductive _).invariant s hs).slot i hlive
  have hbuf := (cltOk_inductive.invariant c hc).rbuf.getD.1
  exact ⟨not_congr (readOutcome_exits_iff (hslot.slotBuffer now) res),
    not_congr (readOutcome_exits_iff hbuf res), recvAll_survives_iff hcs⟩

theorem assembly_survives_iff_octet :
    ∃ (s : Server) (c : Clt), (received (s.clients 0).rbuf = [7] ∧ received c.rbuf = [7]) ∧
      (readOutcome (slotBuffer s 0 1) (.got [8]) ≠ .exits ↔
        ¬ Oversized (slotBuffer s 0 1) (.got [8])) ∧
      (readOutcome (c.rbuf.getD mbufNew) (.got [8]) ≠ .exits ↔
        ¬ Oversized (c.rbuf.getD mbufNew) (.got [8])) ∧
      (recvAll none [[7], [8]] ≠ none ↔
        msgFormat.WellSized MSG_MAX_PAY_SIZE [[7], [8]].flatten) := by
  have hsrv : (Lts.exec srvTry (demoServer none)
      [.accept 4 true 1, .read 0 1 (.got [7]) ⟨[], 0, .good, .good⟩]).any (fun s =>
        decide (s.Live 0) && received (s.clients 0).rbuf == [7]) = true := by
    decide +kernel
  have hclt : (Lts.exec cltTry (demoClient false [])
      [.cmd (.connect (some 3)) demoEnv, .read (.got [7]) demoEnv]).any (fun c =>
        received c.rbuf == [7]) = true := by
    decide +kernel
  obtain ⟨s, hs, hp⟩ := Lts.reachable_of_exec (fun _ _ _ => srvTry_step (fun _ => True) trivial)
    (demoServer_init (fun _ => True) trivial _) hsrv
  obtain ⟨c, hc, hq⟩ := Lts.reachable_of_exec (fun _ _ _ => cltTry_step)
    (demoClient_init false []) hclt
  simp only [Bool.and_eq_true, decide_eq_true_eq, beq_iff_eq] at hp hq
  have hcs : msgFormat.Feasible [] [[7], [8]] :=
    .cons (by decide) (by decide) (.cons (by decide) (by decide) (.nil _))
  exact ⟨s, c, ⟨hp.2, hq⟩, assembly_survives_iff hs hp.1 hc hcs 1 (.got [8])⟩

/-- A header that announces 65535 octets. -/
def oversizedHeader : Bytes := [0, 0, 0xff, 0xff] ++ List.replicate 36 0

/-- Its sender need not have logged in. -/
theorem assembly_exits :
    (∃ s, (srvLts fun _ => True).Reachable s ∧
      SrvEvent.Enabled s (.read 0 1 (.got oversizedHeader) ⟨[], 0, .good, .good⟩) ∧
      readOutcome (slotBuffer s 0 1) (.got oversizedHeader) = .exits ∧
      srvStep s (.read 0 1 (.got oversizedHeader) ⟨[], 0, .good, .good⟩) = none) ∧
    ∃ c, cltLts.Reachable c ∧ CltEvent.Enabled c (.read (.got oversizedHeader) demoEnv) ∧
      readOutcome (c.rbuf.getD mbufNew) (.got oversizedHeader) = .exits ∧
      cltStep c (.read (.got oversizedHeader) demoEnv) = none := by
  have hsrv : (Lts.exec srvTry (demoServer none) [.accept 4 true 1]).any (fun s =>
      decide (s.Live 0) &&
        readOutcome (slotBuffer s 0 1) (.got oversizedHeader) == .exits &&
        (srvStep s (.read 0 1 (.got oversizedHeader) ⟨[], 0, .good, .good⟩)).isNone) = true := by
    decide +kernel
  have hclt : (Lts.exec cltTry (demoClient false []) [.cmd (.connect (some 3)) demoEnv]).any
      (fun c => decide (0 ≤ c.srvfd) &&
        readOutcome (c.rbuf.getD mbufNew) (.got oversizedHeader) == .exits &&
        (cltStep c (.read (.got oversizedHeader) demoEnv)).isNone) = true := by
    decide +kernel
  obtain ⟨s, hs, hp⟩ := Lts.reachable_of_exec (fun _ _ _ => srvTry_step (fun _ => True) trivial)
    (demoServer_init (fun _ => True) trivial _) hsrv
  obtain ⟨c, hc, hq⟩ := Lts.reachable_of_exec (fun _ _ _ => cltTry_step)
    (demoClient_init false []) hclt
  simp only [Bool.and_eq_true, decide_eq_true_eq, beq_iff_eq, Option.isNone_iff_eq_none] at hp hq
  exact ⟨⟨s, hs, hp.1.1, hp.1.2, hp.2⟩, c, hc, hq.1.1, hq.1.2, hq.2⟩

end Frelay
