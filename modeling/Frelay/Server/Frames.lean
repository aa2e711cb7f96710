import Frelay.Server.Relay

/-!
# Frames of a connection

The octets of a connection arrive in pieces, between events of other connections,
reads that bring nothing and passes of `upkeep`. `receivingLts` follows a
connection from its acceptance on, with the octets read so far and the messages
handed to `process_msg`.

* `handed_step`, `pending_step` — what one event completes, and what it leaves;
* `frames_handed` — over a whole run, the messages handed on are the complete frames
  of the octets, and the receive buffer holds the rest.
-/

namespace Frelay

open Lib

/-- The message an event hands to `process_msg` for the connection `fd`. -/
def handed (s : Server) (fd : Int) (e : SrvEvent) : List Bytes :=
  match incoming s e with
  | some (k, m) => if (s.clients k).fd = fd then [m.b] else []
  | none => []

/-- The event is a read of the connection `fd` that ends the process. -/
def ExitsOn (s : Server) (fd : Int) : SrvEvent → Prop
  | .read i now res _ => (s.clients i).fd = fd ∧ readOutcome (slotBuffer s i now) res = .exits
  | _ => False

/-- The server, the octets read from a connection, and the messages handed on. -/
structure Receiving where
  srv : Server
  inp : Bytes
  msgs : List Bytes

/-- A connection from its acceptance on, as long as it stays and without a receive
gap that is too long. -/
def receivingLts (fd : Int) : Lts Receiving SrvEvent where
  init p := p.inp = [] ∧ p.msgs = [] ∧ Connected p.srv fd ∧
    ∃ s nonblocking now, (srvLts fun _ => True).Reachable s ∧
      (srvLts fun _ => True).step s (.accept fd nonblocking now) p.srv
  step p e q := (srvLts fun _ => True).step p.srv e q.srv ∧ NoGap p.srv fd e ∧
    Connected q.srv fd ∧ q.inp = p.inp ++ octetsRead p.srv fd e ∧
    q.msgs = p.msgs ++ handed p.srv fd e

/-! ## One event -/

/-- A read that completes a message, or none: the frames of what is there then. -/
theorem readOutcome_frames {rbuf : Mbuf} (h : RbufOk rbuf) {bs : Bytes}
    (hexit : readOutcome rbuf (.got bs) ≠ .exits) :
    msgFormat.frames (rbuf.received ++ bs.take rbuf.room) =
      match readOutcome rbuf (.got bs) with
      | .complete m => [m.b]
      | _ => [] := by
  have hspec := readOutcome_spec h (.got bs)
  have hpend : msgFormat.frames rbuf.received = [] :=
    msgFormat.frames_of_not_complete h.pending.1
  generalize hout : readOutcome rbuf (.got bs) = out at hspec hexit
  cases hspec with
  | disconnect =>
      rw [no_octets_of_disconnect hout, List.append_nil]
      exact hpend
  | again hres => cases hres
  | exits bs hres hne habs => exact absurd rfl hexit
  | pending bs' m hres hne hmok hrec =>
      cases hres
      rw [← hrec]
      exact msgFormat.frames_of_not_complete hmok.pending.1
  | complete bs' m hres hne hwhole hoff hb =>
      cases hres
      rw [← hb]
      exact (msgFormat.frames_of_length_eq hwhole.hdr hwhole.size).1

/-- An event hands on the frame it completes, if its octets announce no more than
a message can carry. -/
theorem handed_step {s : Server} {e : SrvEvent} {fd : Int} {i : Nat} (hok : SlotsOk s)
    (hen : e.Enabled s) (hgap : NoGap s fd e) (hi : At s fd i)
    (hsize : msgFormat.WellSized MSG_MAX_PAY_SIZE
      (received (s.clients i).rbuf ++ octetsRead s fd e)) :
    ¬ ExitsOn s fd e ∧
      handed s fd e = msgFormat.frames (received (s.clients i).rbuf ++ octetsRead s fd e) := by
  have hpend : msgFormat.frames (received (s.clients i).rbuf) = [] :=
    (hok.slot i hi.1).rbuf.frames_received
  -- Most events read nothing from `fd`, and hand on nothing.
  have hquiet : octetsRead s fd e = [] → handed s fd e = [] →
      handed s fd e = msgFormat.frames (received (s.clients i).rbuf ++ octetsRead s fd e) := by
    intro hr hh
    rw [hr, hh, List.append_nil, hpend]
  cases e with
  | read k now res env =>
      by_cases hfd : (s.clients k).fd = fd
      · obtain rfl := hok.at_unique hi ⟨hen, hfd⟩
        have hbuf := (hok.slot i hen).slotBuffer now
        have hrec := received_slotBuffer (hok.slot i hen) (hgap hfd)
        cases res with
        | failed fatal =>
            have hout : ∀ m, readOutcome (slotBuffer s i now) (.failed fatal) ≠ .complete m ∧
                readOutcome (slotBuffer s i now) (.failed fatal) ≠ .exits := by
              intro m
              unfold readOutcome
              rw [if_pos hbuf.lt]
              cases fatal with
              | true => exact ⟨nofun, nofun⟩
              | false => exact ⟨nofun, nofun⟩
            refine ⟨fun h => (hout mbufNew).2 h.2, hquiet rfl ?_⟩
            rw [handed, incoming]
            split
            · rename_i hinc
              split at hinc
              · exact absurd ‹_› (hout _).1
              · cases hinc
            · rfl
        | got bs =>
            rw [octetsRead, if_pos hfd, ← hrec] at hsize ⊢
            -- The read exits over a header alone that announces too much.
            have hexit : readOutcome (slotBuffer s i now) (.got bs) ≠ .exits := by
              intro hout
              obtain ⟨bs', hres, hlen, hmax⟩ := (readOutcome_exits_iff hbuf _).mp hout
              cases hres
              have hlong : msgFormat.hdr ≤
                  ((slotBuffer s i now).received ++ bs.take (slotBuffer s i now).room).length :=
                Nat.le_of_eq hlen.symm
              have htake := List.take_of_length_le (Nat.le_of_eq hlen)
              have hbad := msgFormat.not_wellSized_of_header [] hlong
                (show MSG_MAX_PAY_SIZE < msgFormat.len (List.take MSG_HDR_SIZE _) by
                  rw [htake]
                  exact hmax)
              rw [List.append_nil] at hbad
              exact hbad hsize
            refine ⟨fun h => hexit h.2, ?_⟩
            rw [readOutcome_frames hbuf hexit, handed, incoming]
            generalize readOutcome (slotBuffer s i now) (.got bs) = out
            cases out with
            | complete m => exact if_pos hfd
            | _ => rfl
      · have hr : octetsRead s fd (.read k now res env) = [] := by
          cases res with
          | failed fatal => rfl
          | got bs => exact if_neg hfd
        refine ⟨fun h => hfd h.1, hquiet hr ?_⟩
        rw [handed]
        split
        · rename_i k' m hinc
          rw [incoming] at hinc
          split at hinc
          · cases hinc
            exact if_neg hfd
          · cases hinc
        · rfl
  | accept fd' nonblocking now => exact ⟨id, hquiet rfl rfl⟩
  | write k now res => exact ⟨id, hquiet rfl rfl⟩
  | upkeep now => exact ⟨id, hquiet rfl rfl⟩
  | motd lines => exact ⟨id, hquiet rfl rfl⟩

/-- What an event leaves in the receive buffer is what remains of the octets. -/
theorem pending_step {s t : Server} {e : SrvEvent} {fd : Int} {i j : Nat} (hok : SlotsOk s)
    (hen : e.Enabled s) (h : srvStep s e = some t) (hgap : NoGap s fd e)
    (hi : At s fd i) (hj : At t fd j) :
    (received (s.clients i).rbuf ++ octetsRead s fd e) =
      (handed s fd e).flatten ++ received (t.clients j).rbuf ∧
    ∀ b ∈ handed s fd e, Whole b := by
  cases hinc : incoming s e with
  | none =>
      have hh : handed s fd e = [] := by rw [handed, hinc]
      rw [hh, (quiet_step hok hen h hinc hi hj).read hgap]
      exact ⟨rfl, fun b hb => absurd hb List.not_mem_nil⟩
  | some p =>
      obtain ⟨k, m⟩ := p
      obtain ⟨now, bs, env, u, reply, rfl, hl, hwhole, hb, hin, hmsg⟩ :=
        message_step hok hen h hinc
      obtain ⟨rfl, hheard⟩ := message_follow env hok hl hb hin hmsg hi hj
      have hh : handed s fd (.read k now (.got bs) env) = if j = k then [m.b] else [] := by
        rw [handed, hinc]
        by_cases hjk : j = k
        · rw [if_pos hjk]
          exact if_pos (hjk ▸ hi.2)
        · rw [if_neg hjk]
          exact if_neg fun hf => hjk (hok.at_unique hi ⟨hl, hf⟩)
      rw [hh, hheard.read hgap]
      refine ⟨?_, fun b hmem => ?_⟩
      · split <;> simp
      · split at hmem
        · rw [List.mem_singleton.mp hmem]
          exact hwhole
        · cases hmem

/-! ## Runs -/

/-- What is known at any time: the messages handed on and what is pending make up
the octets. -/
structure Framed (fd : Int) (p : Receiving) : Prop where
  srv : (srvLts fun _ => True).Reachable p.srv
  conn : Connected p.srv fd
  whole : ∀ b ∈ p.msgs, Whole b
  octets : ∀ i, At p.srv fd i → p.inp = p.msgs.flatten ++ received (p.srv.clients i).rbuf

theorem framed_inductive (fd : Int) : (receivingLts fd).Inductive (Framed fd) where
  init := by
    rintro ⟨t, inp, msgs⟩ ⟨rfl, rfl, hconn, s, nonblocking, now, hs, hstep⟩
    refine ⟨hs.step hstep, hconn, fun b hb => absurd hb List.not_mem_nil, fun i hi => ?_⟩
    have hok := (slotsOk_inductive _).invariant s hs
    rw [(accepted_fresh hok hstep.1 hstep.2.2 hi).2.2]
    rfl
  step := by
    rintro ⟨s, inp, msgs⟩ e ⟨t, inp', msgs'⟩ ⟨hs, ⟨i, hi⟩, hwhole, hoct⟩
      ⟨hstep, hgap, hconn, hinp, hmsgs⟩
    change inp' = inp ++ octetsRead s fd e at hinp
    change msgs' = msgs ++ handed s fd e at hmsgs
    subst hinp hmsgs
    have hok := (slotsOk_inductive _).invariant s hs
    refine ⟨hs.step hstep, hconn, fun b hb => ?_, fun j hj => ?_⟩
    · obtain ⟨k, hk⟩ := hconn
      rcases List.mem_append.mp hb with hb | hb
      · exact hwhole b hb
      · exact (pending_step hok hstep.1 hstep.2.2 hgap hi hk).2 b hb
    · have hpend := (pending_step hok hstep.1 hstep.2.2 hgap hi hj).1
      have hold : inp = msgs.flatten ++ received (s.clients i).rbuf := hoct i hi
      rw [hold, List.append_assoc, hpend, List.flatten_append, List.append_assoc]

/-- The frames of the octets, and what is left of them. -/
theorem Framed.frames {fd : Int} {p : Receiving} (h : Framed fd p) {i : Nat}
    (hi : At p.srv fd i) (more : Bytes) :
    msgFormat.frames (p.inp ++ more) =
        p.msgs ++ msgFormat.frames (received (p.srv.clients i).rbuf ++ more) ∧
      msgFormat.rest (p.inp ++ more) =
        msgFormat.rest (received (p.srv.clients i).rbuf ++ more) := by
  have hsized : ∀ b ∈ p.msgs, msgFormat.hdr ≤ b.length ∧ b.length = msgFormat.size b :=
    fun b hb => ⟨(h.whole b hb).hdr, (h.whole b hb).size⟩
  rw [h.octets i hi, List.append_assoc]
  exact msgFormat.frames_flatten hsized _

/-- **The pieces do not matter.** However the octets of a connection are cut and
whatever happens between the reads, the messages handed to `process_msg` are the
complete frames of the octets and the receive buffer holds the rest. The next event
hands on what it completes, and no header with a length that a message can have
ends the process. -/
theorem frames_handed {fd : Int} {p : Receiving} (hp : (receivingLts fd).Reachable p) {i : Nat}
    (hi : At p.srv fd i) :
    p.msgs = msgFormat.frames p.inp ∧
      received (p.srv.clients i).rbuf = msgFormat.rest p.inp ∧
      ∀ e : SrvEvent, e.Enabled p.srv → NoGap p.srv fd e →
        msgFormat.WellSized MSG_MAX_PAY_SIZE (p.inp ++ octetsRead p.srv fd e) →
        ¬ ExitsOn p.srv fd e ∧
          p.msgs ++ handed p.srv fd e = msgFormat.frames (p.inp ++ octetsRead p.srv fd e) := by
  have hinv := (framed_inductive fd).invariant p hp
  have hok := (slotsOk_inductive _).invariant p.srv hinv.srv
  have hpend := (hok.slot i hi.1).rbuf
  have hnow := hinv.frames hi []
  rw [List.append_nil, List.append_nil, hpend.frames_received, List.append_nil] at hnow
  have hrest : msgFormat.rest (received (p.srv.clients i).rbuf) =
      received (p.srv.clients i).rbuf := by
    have hall := msgFormat.flatten_frames_append_rest (received (p.srv.clients i).rbuf)
    rwa [hpend.frames_received, List.flatten_nil, List.nil_append] at hall
  refine ⟨hnow.1.symm, (hnow.2.trans hrest).symm, fun e hen hgap hsize => ?_⟩
  have hlocal : msgFormat.WellSized MSG_MAX_PAY_SIZE
      (received (p.srv.clients i).rbuf ++ octetsRead p.srv fd e) := by
    rw [← hrest, ← hnow.2]
    exact ((msgFormat.wellSized_append _ _ _).mp hsize).2
  obtain ⟨hexit, hhand⟩ := handed_step hok hen hgap hi hlocal
  exact ⟨hexit, by rw [hhand, (hinv.frames hi _).1]⟩

/-! ## A connection at work -/

/-- The step of `receivingLts` as a function. -/
def receivingTry (fd : Int) (p : Receiving) (e : SrvEvent) : Option Receiving :=
  (srvTry p.srv e).bind fun t =>
    if NoGap p.srv fd e ∧ Connected t fd then
      some ⟨t, p.inp ++ octetsRead p.srv fd e, p.msgs ++ handed p.srv fd e⟩
    else none

theorem receivingTry_step {fd : Int} {p q : Receiving} {e : SrvEvent}
    (h : receivingTry fd p e = some q) : (receivingLts fd).step p e q := by
  obtain ⟨t, ht, h⟩ := Option.bind_eq_some_iff.mp h
  split at h
  · rename_i hc
    cases h
    exact ⟨srvTry_step _ trivial ht, hc.1, hc.2, rfl, rfl⟩
  · cases h

/-- Nothing of interest in the environment. -/
def quietEnv : MsgEnv := { beyond := [], ntime := 0, db1 := .good, db2 := .good }

/-- A request arrives octet by octet at first; then a read would block, another client
is read from, and the rest comes with the first octets of the next message. -/
def piecesRun (b : Bytes) : List SrvEvent :=
  (b.take 3).map (fun x => .read 1 1 (.got [x]) quietEnv) ++
    [.read 1 1 (.failed false) quietEnv, .read 0 1 (.got [7]) quietEnv,
      .read 1 1 (.got ((b.drop 3).take 37)) quietEnv, .read 1 1 (.got (b.drop 40)) quietEnv,
      .read 1 2 (.got [0, 0x10]) quietEnv]

theorem frames_handed_ping :
    ∃ p : Receiving, (p.msgs = msgFormat.frames p.inp ∧
      received (p.srv.clients 1).rbuf = msgFormat.rest p.inp ∧
      ∀ e : SrvEvent, e.Enabled p.srv → NoGap p.srv 5 e →
        msgFormat.WellSized MSG_MAX_PAY_SIZE (p.inp ++ octetsRead p.srv 5 e) →
        ¬ ExitsOn p.srv 5 e ∧
          p.msgs ++ handed p.srv 5 e = msgFormat.frames (p.inp ++ octetsRead p.srv 5 e)) ∧
      p.msgs.length = 1 ∧ received (p.srv.clients 1).rbuf = [0, 0x10] := by
  have hexec : (Lts.exec srvTry (demoServer none) [.accept 4 true 1]).any (fun s =>
      (srvTry s (.accept 5 true 1)).any fun t => decide (Connected t 5) &&
        (Lts.exec (receivingTry 5) ⟨t, [], []⟩
          (piecesRun (requestOctets .loginReq .username (.str (ascii "tom"))))).any fun p =>
          decide (At p.srv 5 1) && p.msgs.length == 1 &&
            received (p.srv.clients 1).rbuf == [0, 0x10]) = true := by
    decide +kernel
  obtain ⟨s, hs, h₁⟩ := Lts.reachable_of_exec (fun _ _ _ => srvTry_step (fun _ => True) trivial)
    (demoServer_init (fun _ => True) trivial _) hexec
  obtain ⟨t, ht, h₂⟩ := (Option.any_eq_true _ _).mp h₁
  rw [Bool.and_eq_true, decide_eq_true_eq] at h₂
  obtain ⟨p, hp, h₃⟩ := Lts.reachable_of_exec (M := receivingLts 5)
    (fun _ _ _ => receivingTry_step) ⟨rfl, rfl, h₂.1, s, true, 1, hs, srvTry_step _ trivial ht⟩ h₂.2
  simp only [Bool.and_eq_true, decide_eq_true_eq, beq_iff_eq] at h₃
  exact ⟨p, frames_handed hp h₃.1.1, h₃.1.2, h₃.2⟩

end Frelay
