import Frelay.Client.Serve

/-!
# Omitted attributes of a GETFILE request

The protocol has OFFSET and SIZE default to 0 where they are omitted.

* `OptionalReq` — a request for a live offer, with or without an OFFSET and a SIZE;
* `getfile_defaults_iff` — when it is served with these defaults: not if there is a SIZE that
  asks for something and no OFFSET. Such a SIZE is taken for the OFFSET, and the request ends
  the transfer.
-/

namespace Frelay

open Lib

/-- The message `m` asks for the live offer `o`, with the optional attributes it has. -/
structure OptionalReq (c : Clt) (m : Mbuf) (o : Transfer) (oid : UInt64)
    (offset size : Option UInt64) : Prop where
  hdr : 40 ≤ m.bsize
  type : hdrGetType m = MsgType.code .getfileReq
  st : c.st = .authOk
  found : c.transfers.find? (fun o => o.Matches .offer (hdrGetSrcid m) oid) = some o
  attribs : attribs m = (MsgAttrib.code .offerid, be64 oid) :: rangeAttribs offset size

section Optional

variable {env : CltEnv} {c : Clt} {m : Mbuf} {o : Transfer} {oid : UInt64}
  {offset size : Option UInt64}

/-- The handler overlooks a SIZE without an OFFSET. -/
theorem OptionalReq.getfileReq (env : CltEnv) (h : OptionalReq c m o oid offset size) :
    GetfileReq env c m o (offset.getD 0) (if offset.isSome then size.getD 0 else 0) :=
  ⟨h.hdr, h.type, h.st, requestFields_of_attribs env offset size h.hdr h.attribs h.found⟩

/-- Without an OFFSET the request ends the transfer, whatever its SIZE. -/
theorem OptionalReq.ends (env : CltEnv) (h : OptionalReq c m o oid none size) :
    ∃ t r, RepliesWith env c m t r ∧ OfferEnds c t o ∧ HasData r o.oid [] := by
  rcases getfile_outcome (h.getfileReq env) with ⟨-, t, r, hreply, hserved⟩ | ⟨hbad, -⟩
  · cases hserved with
    | ended _ hends hdata => exact ⟨t, r, hreply, hends, hdata⟩
    | data hsize => exact absurd rfl hsize
    | refused hsize => exact absurd rfl hsize
  · exact absurd (.inl rfl) hbad

/-- A request answered with empty DATA was not served unless it asked for nothing. -/
theorem ServesRange.size_eq_zero {off sz : UInt64} {t : Clt} {r : Mbuf}
    (hserves : ServesRange env c m o off sz) (hreply : RepliesWith env c m t r)
    (hdata : HasData r o.oid []) : sz = 0 := by
  obtain ⟨t', r', hreply', hserved⟩ := hserves
  -- There is one answer, and it was empty.
  obtain rfl : t' = t := Option.some.inj (hreply'.step.symm.trans hreply.step)
  obtain rfl : r' = r :=
    List.singleton_inj.mp (List.append_cancel_left (hreply'.queued.symm.trans hreply.queued))
  cases hserved with
  | ended hsize => exact hsize
  | data _ _ _ _ _ hne _ hdata' =>
      have heq := hdata'.2.symm.trans hdata.2
      simp only [List.cons.injEq, Prod.mk.injEq, true_and, and_true] at heq
      exact absurd heq hne
  | refused _ _ _ htype =>
      rw [hdata.1] at htype
      exact absurd htype (by decide)

/-- **Optional attributes default to 0**, and a request is served accordingly, exactly if it
has no SIZE without an OFFSET, or none that matters, and can be served safely. -/
theorem getfile_defaults_iff (h : OptionalReq c m o oid offset size) :
    ServesRange env c m o (offset.getD 0) (size.getD 0) ↔
      (offset = none → size.getD 0 = 0) ∧
        ServedSafely env.toSysEnv c.disk o (offset.getD 0) (size.getD 0) := by
  have hreq := h.getfileReq env
  constructor
  · intro hserves
    have hnone : offset = none → size.getD 0 = 0 := by
      rintro rfl
      obtain ⟨t, r, hreply, -, hdata⟩ := h.ends env
      exact hserves.size_eq_zero hreply hdata
    refine ⟨hnone, ?_⟩
    by_cases hzero : size.getD 0 = 0
    · exact .inl hzero
    · -- There is an OFFSET, and the handler has read what the request says.
      have hsome : offset.isSome := Option.isSome_iff_ne_none.mpr fun h0 => hzero (hnone h0)
      rw [if_pos hsome] at hreq
      rcases getfile_outcome hreq with ⟨hsafe, -⟩ | ⟨-, hexit⟩
      · exact hsafe
      · obtain ⟨t, r, hreply, -⟩ := hserves
        exact absurd (hreply.step.symm.trans hexit) nofun
  · rintro ⟨hnone, hsafe⟩
    -- What the handler overlooks does not matter.
    have hsize : (if offset.isSome then size.getD 0 else 0) = size.getD 0 := by
      split
      · rfl
      · rename_i hns
        exact (hnone (Option.not_isSome_iff_eq_none.mp hns)).symm
    rw [hsize] at hreq
    exact (getfile_outcome hreq).elim And.right fun hexit => absurd hsafe hexit.1

end Optional

/-- The user 2 has offered a file of three octets to the peer 5, as the offer 2. -/
theorem exists_offering : ∃ c o, cltLts.Reachable c ∧ c.st = .authOk ∧
    c.transfers.find? (fun o => o.Matches .offer 5 2) = some o ∧
    offerContent demoEnv.toSysEnv c.disk o = some [1, 2, 3] := by
  have hexec : (Lts.exec cltTry (demoClient false [(ascii "f", [1, 2, 3])]) serveRun).any (fun c =>
      c.st == .authOk && (c.transfers.find? fun o => o.Matches .offer 5 2).any fun o =>
        offerContent demoEnv.toSysEnv c.disk o == some [1, 2, 3]) = true := by
    decide +kernel
  obtain ⟨c, hc, hp⟩ := Lts.reachable_of_exec (fun _ _ _ => cltTry_step)
    (demoClient_init false [(ascii "f", [1, 2, 3])]) hexec
  simp only [Bool.and_eq_true, beq_iff_eq, Option.any_eq_true] at hp
  obtain ⟨hst, o, hfound, hcontent⟩ := hp
  exact ⟨c, o, hc, hst, hfound, hcontent⟩

theorem getfile_defaults_iff_two : ∃ c m o, cltLts.Reachable c ∧
    (ServesRange demoEnv c m o 1 2 ↔ (some (1 : UInt64) = none → (2 : UInt64) = 0) ∧
      ServedSafely demoEnv.toSysEnv c.disk o 1 2) := by
  obtain ⟨c, o, hc, hst, hfound, -⟩ := exists_offering
  have hsrc : hdrGetSrcid ⟨getfileOctets 1 2, 0⟩ = 5 := by decide +kernel
  have hreq : OptionalReq c ⟨getfileOctets 1 2, 0⟩ o 2 (some 1) (some 2) :=
    ⟨by decide +kernel, by decide +kernel, hst, hsrc.symm ▸ hfound, by decide +kernel⟩
  exact ⟨c, ⟨getfileOctets 1 2, 0⟩, o, hc, getfile_defaults_iff hreq⟩

/-- The peer asks for two octets and omits the OFFSET: it gets none, and the offer is gone. -/
theorem size_alone_ends : ∃ c m o t r, cltLts.Reachable c ∧
    OptionalReq c m o 2 none (some 2) ∧ offerContent demoEnv.toSysEnv c.disk o = some [1, 2, 3] ∧
    RepliesWith demoEnv c m t r ∧ OfferEnds c t o ∧ HasData r o.oid [] ∧
    ¬ ServesRange demoEnv c m o 0 2 := by
  obtain ⟨c, o, hc, hst, hfound, hcontent⟩ := exists_offering
  generalize hm : Mbuf.mk (messageOctets .getfileReq 5 9 [(.offerid, .ui64 2), (.size, .ui64 2)]) 0 = m
  have hsrc : hdrGetSrcid m = 5 := by
    rw [← hm]
    decide +kernel
  have hreq : OptionalReq c m o 2 none (some 2) := by
    refine ⟨?_, ?_, hst, hsrc.symm ▸ hfound, ?_⟩ <;>
      · rw [← hm]
        decide +kernel
  obtain ⟨t, r, hreply, hends, hdata⟩ := hreq.ends demoEnv
  exact ⟨c, m, o, t, r, hc, hreq, hcontent, hreply, hends, hdata,
    fun hserves => absurd (hserves.size_eq_zero hreply hdata) (by decide)⟩

end Frelay
