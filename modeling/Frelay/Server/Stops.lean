import Frelay.Server.Frames
import Frelay.Server.Motd

/-!
# What ends the server

* `server_stops_iff` — a step ends the server exactly if it reads the header of a message that is
  too long, or a request that cannot be served (`Exits`), or if the lines of the message of the
  day but for the last one are longer than the array.
-/

namespace Frelay

open Lib

/-- The event ends the process, or writes behind the array for the message of the day. -/
def SrvEvent.Stops (s : Server) : SrvEvent → Prop
  | .read k now res env => Oversized (slotBuffer s k now) res ∨
      ∃ m, incoming s (.read k now res env) = some (k, m) ∧
        Exits env s k (fillSrcid (s.clients k) m)
  | .motd lines => lines ≠ [] ∧ MOTD_SIZE < (lines.dropLast.map List.length).sum
  | _ => False

/-- The lines of the message of the day are such as `pcmd` delivers. -/
def SrvEvent.Delivered : SrvEvent → Prop
  | .motd lines => ∀ l ∈ lines, PcmdLine l
  | _ => True

section Reads

variable {s : Server} {k : Nat} {now : Int} {res : ReadRes} {env : MsgEnv} {m : Mbuf}

/-- A read that completes no message goes on, unless its header is too long. -/
theorem srvStep_read_ne_none (hexits : readOutcome (slotBuffer s k now) res ≠ .exits)
    (hpart : ∀ m, readOutcome (slotBuffer s k now) res ≠ .complete m) :
    srvStep s (.read k now res env) ≠ none := by
  have hbuffer : (resyncClient s.cfg.msgTimeout (s.clients k) now).rbuf.getD mbufNew =
      slotBuffer s k now := rfl
  show readClient env s k now res ≠ none
  unfold readClient
  simp only [hbuffer]
  split
  · exact Option.some_ne_none _
  · exact Option.some_ne_none _
  · exact absurd ‹_› hexits
  · exact Option.some_ne_none _
  · exact absurd ‹_› (hpart _)

/-- A message ends the server if it is a request that cannot be served. -/
theorem srvStep_complete_eq_none_iff (hs : (srvLts fun _ => True).Reachable s) (hlive : s.Live k)
    (hout : readOutcome (slotBuffer s k now) res = .complete m) :
    srvStep s (.read k now res env) = none ↔ Exits env s k (fillSrcid (s.clients k) m) := by
  obtain ⟨-, hforward, hexit, hserve⟩ := srvStep_serves env hs hlive hout
  constructor
  · intro h
    cases hroute : route s k (fillSrcid (s.clients k) m) with
    | some j =>
        rw [hforward j hroute] at h
        cases h
    | none =>
        by_contra hno
        obtain ⟨v, t, rbuf, hstep, -⟩ := hserve hroute hno
        rw [hstep] at h
        cases h
  · -- Such a request is for the server, and not forwarded.
    exact fun hex => hexit (if_neg fun hcond => hcond.2.1 hex.dstid) hex

theorem srvStep_read_eq_none_iff (hs : (srvLts fun _ => True).Reachable s) (hlive : s.Live k) :
    srvStep s (.read k now res env) = none ↔ (SrvEvent.read k now res env).Stops s := by
  have hbuf := (((slotsOk_inductive _).invariant s hs).slot k hlive).slotBuffer now
  rw [SrvEvent.Stops, ← readOutcome_exits_iff hbuf res]
  cases hout : readOutcome (slotBuffer s k now) res with
  | complete m =>
      have hinc : incoming s (.read k now res env) = some (k, m) := by rw [incoming, hout]
      rw [srvStep_complete_eq_none_iff hs hlive hout, hinc]
      simp
  | exits =>
      refine iff_of_true ?_ (.inl rfl)
      have hbuffer : readOutcome ((resyncClient s.cfg.msgTimeout (s.clients k) now).rbuf.getD
          mbufNew) res = .exits := hout
      show readClient env s k now res = none
      unfold readClient
      simp only [hbuffer]
  | disconnect =>
      exact iff_of_false (srvStep_read_ne_none (by simp [hout]) (by simp [hout]))
        (by simp [incoming, hout])
  | again =>
      exact iff_of_false (srvStep_read_ne_none (by simp [hout]) (by simp [hout]))
        (by simp [incoming, hout])
  | pending r =>
      exact iff_of_false (srvStep_read_ne_none (by simp [hout]) (by simp [hout]))
        (by simp [incoming, hout])

end Reads

/-- **The steps that end the server**, in every reachable state. -/
theorem server_stops_iff {s : Server} (hs : (srvLts fun _ => True).Reachable s) {e : SrvEvent}
    (hen : e.Enabled s) (hlines : e.Delivered) : srvStep s e = none ↔ e.Stops s := by
  cases e with
  | accept fd nonblocking now => exact iff_of_false (Option.some_ne_none _) id
  | read k now res env => exact srvStep_read_eq_none_iff hs hen
  | write k now res =>
      refine iff_of_false ?_ id
      have hq : ((s.setClient k { s.clients k with act := now }).clients k).q ≠ [] := by
        rw [Server.setClient_self]
        exact hen.2
      show writeClient s k now res ≠ none
      unfold writeClient
      dsimp only
      split
      · exact absurd ‹_› hq
      · split <;> exact Option.some_ne_none _
  | upkeep now => exact iff_of_false (Option.some_ne_none _) id
  | motd lines =>
      have hsome := motdLines_survive_iff hlines s.motd (Nat.zero_le _)
      show (lines.foldlM motdCb (s.motd, 0)).map _ = none ↔ _
      rw [Option.map_eq_none_iff, ← Option.not_isSome_iff_eq_none, hsome, SrvEvent.Stops,
        Nat.zero_add, Classical.not_imp, Nat.not_le]

/-- A header that is too long, on the first connection. -/
theorem server_stops_iff_read : ∃ s, (srvLts fun _ => True).Reachable s ∧
    (s.clients 0).fd = 4 ∧
    (srvStep s (.read 0 1 (.got ([0, 0, 0xff, 0xff] ++ List.replicate 36 0)) quietEnv) = none ↔
      (SrvEvent.read 0 1 (.got ([0, 0, 0xff, 0xff] ++ List.replicate 36 0)) quietEnv).Stops s) := by
  have hexec : (Lts.exec srvTry (demoServer none) [.accept 4 true 1]).any (fun s =>
      decide (s.Live 0) && (s.clients 0).fd == 4) = true := by
    decide +kernel
  obtain ⟨s, hs, hp⟩ := Lts.reachable_of_exec (fun _ _ _ => srvTry_step (fun _ => True) trivial)
    (demoServer_init (fun _ => True) trivial _) hexec
  rw [Bool.and_eq_true, decide_eq_true_eq, beq_iff_eq] at hp
  exact ⟨s, hs, hp.2, server_stops_iff (e := .read 0 1 _ quietEnv) hs hp.1 trivial⟩

end Frelay
