import Frelay.Message.Mbuf

/-!
# Iterating over attributes

`mbuf_getnextattrib` once more, with the octets it looks at, and the iteration from
`mbuf_resetgetattrib` until a call fails. Lengths in the message are arbitrary.

* `getnextattrib_eq` — the call without its record is `mbufGetnextattrib`;
* `Call.ok` — a call looks at octets of the payload only, and returns such a range;
* `iteration_safe` — the iteration ends, and the ranges it returns lie apart.
-/

namespace Frelay

open Lib

/-- Octets of a buffer. -/
structure Span where
  off : Nat
  len : Nat
  deriving DecidableEq, Repr

/-- The first octet behind the range. -/
def Span.stop (s : Span) : Nat := s.off + s.len

/-- The range lies in the payload of the message. -/
def Span.InPayload (s : Span) (m : Mbuf) : Prop := MSG_HDR_SIZE ≤ s.off ∧ s.stop ≤ m.bsize

/-- The value octets an attribute stands for. -/
def AttrRef.value (a : AttrRef) : Span := ⟨a.av, a.al⟩

/-- A call of `mbuf_getnextattrib`: what it returns, the buffer afterwards, and the
octets it has looked at. -/
structure Call where
  result : Option AttrRef
  after : Mbuf
  reads : List Span
  deriving DecidableEq

/-- `mbuf_getnextattrib`, with the type and length fields as it looks at them. -/
def getnextattrib (m : Mbuf) : Call :=
  if m.bsize < m.boff + 8 then ⟨none, m, []⟩
  else
    let plen := (rd16 (peek m.b (m.boff + 2) 2)).toNat
    if m.bsize < m.boff + 8 + plen then ⟨none, m, [⟨m.boff + 2, 2⟩]⟩
    else
      let ptype := rd16 (peek m.b m.boff 2)
      ⟨some { at' := ptype, al := plen, av := m.boff + 8 },
        { m with boff := m.boff + 8 + roundup8 plen }, [⟨m.boff + 2, 2⟩, ⟨m.boff, 2⟩]⟩

/-- The successful calls of an iteration, and the one that ends it. -/
inductive Iterates : Mbuf → List Call → Call → Prop
  | stop {m : Mbuf} : (getnextattrib m).result = none → Iterates m [] (getnextattrib m)
  | next {m : Mbuf} {cs : List Call} {last : Call} : (getnextattrib m).result ≠ none →
      Iterates (getnextattrib m).after cs last → Iterates m (getnextattrib m :: cs) last

/-- The record adds nothing to what the call does. -/
theorem getnextattrib_eq (m : Mbuf) :
    mbufGetnextattrib m = (getnextattrib m).result.map fun a => (a, (getnextattrib m).after) := by
  unfold mbufGetnextattrib getnextattrib
  split
  · rfl
  · simp only
    split
    · rfl
    · rfl

/-! ## One call -/

/-- What a call does on the buffer `m`, whose offset is behind the header. -/
structure Call.Ok (c : Call) (m : Mbuf) : Prop where
  octets : c.after.b = m.b
  reads : ∀ s ∈ c.reads, s.InPayload m
  value : ∀ a, c.result = some a → a.value.InPayload m ∧ m.boff + 8 = a.av ∧
    a.value.stop ≤ c.after.boff
  failed : c.result = none → c.after = m

theorem Call.ok {m : Mbuf} (h : MSG_HDR_SIZE ≤ m.boff) : (getnextattrib m).Ok m := by
  unfold getnextattrib
  split
  · exact ⟨rfl, fun s hs => absurd hs List.not_mem_nil, nofun, fun _ => rfl⟩
  · rename_i hfix
    have hlen : (⟨m.boff + 2, 2⟩ : Span).InPayload m := ⟨by simp only; omega, by
      show m.boff + 2 + 2 ≤ m.bsize
      omega⟩
    have htype : (⟨m.boff, 2⟩ : Span).InPayload m := ⟨h, by
      show m.boff + 2 ≤ m.bsize
      omega⟩
    simp only
    split
    · refine ⟨rfl, fun s hs => ?_, nofun, fun _ => rfl⟩
      rw [List.mem_singleton.mp hs]
      exact hlen
    · rename_i hfits
      refine ⟨rfl, fun s hs => ?_, fun a ha => ?_, nofun⟩
      · rcases List.mem_cons.mp hs with rfl | hs
        · exact hlen
        · rw [List.mem_singleton.mp hs]
          exact htype
      · cases ha
        have hround := le_roundup8 (rd16 (peek m.b (m.boff + 2) 2)).toNat
        refine ⟨⟨by simp only [AttrRef.value]; omega, ?_⟩, rfl, ?_⟩
        · show m.boff + 8 + (rd16 (peek m.b (m.boff + 2) 2)).toNat ≤ m.bsize
          omega
        · show m.boff + 8 + (rd16 (peek m.b (m.boff + 2) 2)).toNat ≤ _
          exact Nat.add_le_add_left hround _

/-- A call that succeeds has its eight octets, and goes past them. -/
theorem getnextattrib_advances {m : Mbuf} (h : (getnextattrib m).result ≠ none) :
    m.boff + 8 ≤ m.bsize ∧ m.boff + 8 ≤ (getnextattrib m).after.boff := by
  unfold getnextattrib at h ⊢
  split
  · rename_i hshort
    rw [if_pos hshort] at h
    exact absurd rfl h
  · rename_i hfix
    rw [if_neg hfix] at h
    simp only at h ⊢
    split
    · rename_i hbad
      rw [if_pos hbad] at h
      exact absurd rfl h
    · exact ⟨by omega, Nat.le_add_right _ _⟩

/-! ## All calls -/

/-- The buffer of an iteration keeps its octets and stays behind the header. -/
theorem getnextattrib_behind {m : Mbuf} (h : MSG_HDR_SIZE ≤ m.boff) :
    MSG_HDR_SIZE ≤ (getnextattrib m).after.boff ∧ (getnextattrib m).after.bsize = m.bsize := by
  have hok := Call.ok h
  refine ⟨?_, congrArg List.length hok.octets⟩
  cases hres : (getnextattrib m).result with
  | none => rw [hok.failed hres]; exact h
  | some a =>
      have hadv := getnextattrib_advances (m := m) (by rw [hres]; nofun)
      omega

theorem Iterates.unique {m : Mbuf} {cs ds : List Call} {c d : Call} (hc : Iterates m cs c)
    (hd : Iterates m ds d) : cs = ds ∧ c = d := by
  induction hc generalizing ds d with
  | stop hnone =>
      cases hd with
      | stop _ => exact ⟨rfl, rfl⟩
      | next hsome _ => exact absurd hnone hsome
  | next hsome _ ih =>
      cases hd with
      | stop hnone => exact absurd hnone hsome
      | next _ hrest =>
          obtain ⟨hcs, hlast⟩ := ih hrest
          exact ⟨by rw [hcs], hlast⟩

/-- The iteration ends after at most one call for each eight octets that are left. -/
theorem iterates_exists (n : Nat) (m : Mbuf) (hn : m.bsize - m.boff < 8 * (n + 1)) :
    ∃ cs last, Iterates m cs last ∧ cs.length ≤ n := by
  induction n generalizing m with
  | zero =>
      cases hres : (getnextattrib m).result with
      | none => exact ⟨[], _, .stop hres, Nat.le_refl 0⟩
      | some a =>
          have hadv := getnextattrib_advances (m := m) (by rw [hres]; nofun)
          omega
  | succ n ih =>
      cases hres : (getnextattrib m).result with
      | none => exact ⟨[], _, .stop hres, Nat.zero_le _⟩
      | some a =>
          have hsome : (getnextattrib m).result ≠ none := by rw [hres]; nofun
          have hadv := getnextattrib_advances hsome
          have hsize : (getnextattrib m).after.bsize = m.bsize := by
            unfold getnextattrib
            simp only
            split
            · rfl
            · split <;> rfl
          obtain ⟨cs, last, hcs, hlen⟩ := ih (getnextattrib m).after (by omega)
          exact ⟨_ :: cs, last, .next hsome hcs, by rw [List.length_cons]; omega⟩

/-- What holds of an iteration over the buffer `m`. -/
structure IterOk (m : Mbuf) (cs : List Call) (last : Call) : Prop where
  succeed : ∀ c ∈ cs, c.result ≠ none
  fails : last.result = none
  reads : ∀ c, c ∈ cs ∨ c = last → ∀ s ∈ c.reads, s.InPayload m
  values : ∀ c ∈ cs, ∀ a, c.result = some a → a.value.InPayload m ∧ m.boff + 8 ≤ a.av
  apart : (cs.filterMap Call.result).Pairwise fun a b => a.value.stop ≤ b.value.off
  kept : last.after.boff = ((cs.getLast?.map Call.after).getD m).boff

theorem Iterates.ok {m : Mbuf} {cs : List Call} {last : Call} (h : Iterates m cs last)
    (hm : MSG_HDR_SIZE ≤ m.boff) : IterOk m cs last := by
  induction h with
  | @stop m hnone =>
      have hok := Call.ok hm
      refine ⟨nofun, hnone, ?_, nofun, .nil, ?_⟩
      · rintro c (hc | rfl)
        · exact absurd hc List.not_mem_nil
        · exact hok.reads
      · rw [hok.failed hnone]
        rfl
  | @next m cs last hsome _ ih =>
      obtain ⟨hbehind, hsize⟩ := getnextattrib_behind hm
      have hok := Call.ok hm
      have ih := ih hbehind
      -- The calls that follow read the same payload, from further on.
      have hback : ∀ s : Span, s.InPayload (getnextattrib m).after → s.InPayload m :=
        fun s hs => ⟨hs.1, hsize ▸ hs.2⟩
      refine ⟨?_, ih.fails, ?_, ?_, ?_, ?_⟩
      · intro c hc
        rcases List.mem_cons.mp hc with rfl | hc
        · exact hsome
        · exact ih.succeed c hc
      · rintro c (hc | rfl) s hs
        · rcases List.mem_cons.mp hc with rfl | hc
          · exact hok.reads s hs
          · exact hback s (ih.reads c (.inl hc) s hs)
        · exact hback s (ih.reads _ (.inr rfl) s hs)
      · intro c hc a ha
        rcases List.mem_cons.mp hc with rfl | hc
        · exact ⟨(hok.value a ha).1, Nat.le_of_eq (hok.value a ha).2.1⟩
        · obtain ⟨hin, hle⟩ := ih.values c hc a ha
          have hadv := getnextattrib_advances hsome
          exact ⟨hback _ hin, by omega⟩
      · obtain ⟨a, ha⟩ := Option.ne_none_iff_exists'.mp hsome
        rw [List.filterMap_cons, ha]
        refine List.pairwise_cons.mpr ⟨fun b hb => ?_, ih.apart⟩
        obtain ⟨c, hc, hcb⟩ := List.mem_filterMap.mp hb
        have hstop := (hok.value a ha).2.2
        have hle := (ih.values c hc b hcb).2
        show a.value.stop ≤ b.av
        omega
      · rw [ih.kept]
        cases cs with
        | nil => rfl
        | cons c cs => rw [List.getLast?_cons_cons, List.getLast?_cons]; rfl

/-- **Iteration is safe** on any buffer: it ends after at most one successful call
for each eight octets of the payload; every call looks at octets of the payload only;
the value ranges lie in the payload, in order and apart from each other; and the call
that fails leaves the offset where it was. -/
theorem iteration_safe (m : Mbuf) :
    ∃ cs last, Iterates (mbufResetgetattrib m) cs last ∧
      (∀ ds d, Iterates (mbufResetgetattrib m) ds d → ds = cs ∧ d = last) ∧
      cs.length ≤ (m.bsize - MSG_HDR_SIZE) / 8 ∧ IterOk (mbufResetgetattrib m) cs last := by
  obtain ⟨cs, last, hit, hlen⟩ := iterates_exists ((m.bsize - MSG_HDR_SIZE) / 8)
    (mbufResetgetattrib m) (by
      show m.bsize - MSG_HDR_SIZE < _
      omega)
  exact ⟨cs, last, hit, fun ds d hd => hd.unique hit, hlen, hit.ok (Nat.le_refl _)⟩

end Frelay
