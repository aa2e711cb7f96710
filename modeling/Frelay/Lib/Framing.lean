import Mathlib.Tactic.Common
import Mathlib.Data.List.Basic
import Mathlib.Algebra.Order.Group.Nat

/-!
# Length-prefixed framing

A byte stream carries frames back to back: a header of fixed length, which
announces the length of the payload that follows. `frames` cuts a stream into
its complete frames and `rest` is what remains, an incomplete frame.

A receiver sees the stream in pieces. It keeps the incomplete frame received so
far and never asks for more than is missing of it (`need`), so a piece never
crosses a frame boundary. `assemble` is that receiver, with the bound on the
payload length that makes it give up. The main result,
`assemble_eq`, says that its outcome does not depend on the pieces: it gives up
exactly when some complete header of the stream announces too much, and
otherwise has delivered exactly the frames of the stream.
-/

namespace Lib

/-- A frame format: the header length and the payload length a header announces. -/
structure FrameFormat (α : Type) where
  hdr : Nat
  hdr_pos : 0 < hdr
  len : List α → Nat

namespace FrameFormat

variable {α : Type} (F : FrameFormat α)

/-- Total length of the frame that starts `s`, read off its header. -/
def size (s : List α) : Nat := F.hdr + F.len (s.take F.hdr)

/-- `s` starts with a complete frame. -/
def Complete (s : List α) : Prop := F.hdr ≤ s.length ∧ F.size s ≤ s.length

instance (s : List α) : Decidable (F.Complete s) := inferInstanceAs (Decidable (_ ∧ _))

/-- Cut at most `n` frames off the front. -/
def cut : Nat → List α → List (List α) × List α
  | 0, s => ([], s)
  | n + 1, s =>
      if F.Complete s then
        let r := cut n (s.drop (F.size s))
        (s.take (F.size s) :: r.1, r.2)
      else ([], s)

/-- The complete frames at the front of a stream. -/
def frames (s : List α) : List (List α) := (F.cut s.length s).1

/-- What follows the complete frames of a stream. -/
def rest (s : List α) : List α := (F.cut s.length s).2

theorem size_pos (s : List α) : 0 < F.size s := by
  have := F.hdr_pos
  unfold size
  omega

/-- The header is all that `size` looks at. -/
theorem size_append {s : List α} (t : List α) (h : F.hdr ≤ s.length) :
    F.size (s ++ t) = F.size s := by
  rw [size, size, List.take_append_of_le_length h]

theorem Complete.append {s : List α} (h : F.Complete s) (t : List α) : F.Complete (s ++ t) := by
  refine ⟨?_, ?_⟩
  · rw [List.length_append]
    exact Nat.le_add_right_of_le h.1
  · rw [F.size_append t h.1, List.length_append]
    exact Nat.le_add_right_of_le h.2

/-- More fuel than octets changes nothing. -/
theorem cut_fuel (s : List α) : ∀ n, s.length ≤ n → F.cut n s = F.cut s.length s := by
  induction hk : s.length using Nat.strongRecOn generalizing s with
  | ind k ih =>
      intro n hn
      subst hk
      by_cases hc : F.Complete s
      · have hpos := F.size_pos s
        have hle := hc.2
        obtain ⟨n, rfl⟩ : ∃ m, n = m + 1 := ⟨n - 1, by omega⟩
        obtain ⟨k, hk⟩ : ∃ m, s.length = m + 1 := ⟨s.length - 1, by omega⟩
        have hdrop : (s.drop (F.size s)).length < s.length := by
          rw [List.length_drop]
          omega
        have h₁ := ih _ hdrop _ rfl n (by omega)
        have h₂ := ih _ hdrop _ rfl k (by omega)
        rw [hk, cut, cut, if_pos hc, if_pos hc, h₁, h₂]
      · cases n with
        | zero =>
            rw [Nat.le_zero.mp hn]
        | succ n =>
            cases hk : s.length with
            | zero => rw [cut, cut, if_neg hc]
            | succ k => rw [cut, cut, if_neg hc, if_neg hc]

theorem cut_of_complete {s : List α} (h : F.Complete s) :
    F.cut s.length s =
      (s.take (F.size s) :: F.frames (s.drop (F.size s)), F.rest (s.drop (F.size s))) := by
  have hpos := F.size_pos s
  have hle := h.2
  obtain ⟨k, hk⟩ : ∃ m, s.length = m + 1 := ⟨s.length - 1, by omega⟩
  have hfuel := F.cut_fuel (s.drop (F.size s)) k (by rw [List.length_drop]; omega)
  rw [hk, cut, if_pos h, hfuel]
  rfl

theorem frames_of_complete {s : List α} (h : F.Complete s) :
    F.frames s = s.take (F.size s) :: F.frames (s.drop (F.size s)) := by
  rw [frames, F.cut_of_complete h]

theorem rest_of_complete {s : List α} (h : F.Complete s) :
    F.rest s = F.rest (s.drop (F.size s)) := by
  rw [rest, F.cut_of_complete h]

theorem frames_of_not_complete {s : List α} (h : ¬ F.Complete s) : F.frames s = [] := by
  rw [frames]
  cases s.length with
  | zero => rfl
  | succ n => rw [cut, if_neg h]

theorem rest_of_not_complete {s : List α} (h : ¬ F.Complete s) : F.rest s = s := by
  rw [rest]
  cases s.length with
  | zero => rfl
  | succ n => rw [cut, if_neg h]

theorem not_complete_nil : ¬ F.Complete ([] : List α) := by
  intro h
  have := F.hdr_pos
  have := h.1
  simp at this
  omega

@[simp] theorem frames_nil : F.frames ([] : List α) = [] :=
  F.frames_of_not_complete F.not_complete_nil

@[simp] theorem rest_nil : F.rest ([] : List α) = [] :=
  F.rest_of_not_complete F.not_complete_nil

/-- Induction along the frames of a stream. -/
theorem stream_induction {P : List α → Prop} (s : List α)
    (done : ∀ s, ¬ F.Complete s → P s)
    (next : ∀ s, F.Complete s → P (s.drop (F.size s)) → P s) : P s := by
  induction hk : s.length using Nat.strongRecOn generalizing s with
  | ind k ih =>
      subst hk
      by_cases hc : F.Complete s
      · have hpos := F.size_pos s
        have hle := hc.2
        exact next s hc (ih _ (by rw [List.length_drop]; omega) _ rfl)
      · exact done s hc

/-- Cutting loses nothing. -/
theorem flatten_frames_append_rest (s : List α) : (F.frames s).flatten ++ F.rest s = s := by
  induction s using F.stream_induction with
  | done s h => simp [F.frames_of_not_complete h, F.rest_of_not_complete h]
  | next s h ih =>
      rw [F.frames_of_complete h, F.rest_of_complete h, List.flatten_cons, List.append_assoc, ih,
        List.take_append_drop]

/-- Every frame is as long as its own header says. -/
theorem size_of_mem_frames {s f : List α} (h : f ∈ F.frames s) :
    F.hdr ≤ f.length ∧ f.length = F.size f := by
  induction s using F.stream_induction with
  | done s hc =>
      rw [F.frames_of_not_complete hc] at h
      exact absurd h List.not_mem_nil
  | next s hc ih =>
      rw [F.frames_of_complete hc] at h
      rcases List.mem_cons.mp h with rfl | h
      · have hle := hc.2
        have hsz : F.hdr ≤ F.size s := by unfold size; omega
        have htake : (s.take (F.size s)).take F.hdr = s.take F.hdr := by
          rw [List.take_take, Nat.min_eq_left hsz]
        have hlen : (s.take (F.size s)).length = F.size s := by
          rw [List.length_take]
          omega
        refine ⟨by omega, ?_⟩
        calc (s.take (F.size s)).length = F.size s := hlen
          _ = F.hdr + F.len ((s.take (F.size s)).take F.hdr) := by rw [htake]; rfl
      · exact ih h

/-- A stream may be cut piecewise: what is left over of the first piece is
prepended to the second. -/
theorem frames_append (s t : List α) :
    F.frames (s ++ t) = F.frames s ++ F.frames (F.rest s ++ t) ∧
      F.rest (s ++ t) = F.rest (F.rest s ++ t) := by
  induction s using F.stream_induction with
  | done s h => simp [F.frames_of_not_complete h, F.rest_of_not_complete h]
  | next s h ih =>
      have hst := Complete.append F h t
      have hsz := F.size_append t h.1
      have hdrop : (s ++ t).drop (F.size s) = s.drop (F.size s) ++ t :=
        List.drop_append_of_le_length h.2
      have htake : (s ++ t).take (F.size s) = s.take (F.size s) :=
        List.take_append_of_le_length h.2
      rw [F.frames_of_complete hst, F.rest_of_complete hst, F.frames_of_complete h,
        F.rest_of_complete h, hsz, hdrop, htake, ih.1, ih.2]
      exact ⟨rfl, rfl⟩

/-- A list that is exactly one frame. -/
theorem frames_of_length_eq {s : List α} (h : F.hdr ≤ s.length) (hs : s.length = F.size s) :
    F.frames s = [s] ∧ F.rest s = [] := by
  have hc : F.Complete s := ⟨h, hs.ge⟩
  rw [F.frames_of_complete hc, F.rest_of_complete hc, ← hs, List.take_length, List.drop_length]
  simp

/-- Whole frames put back to back are cut apart again. -/
theorem frames_flatten {fs : List (List α)}
    (h : ∀ f ∈ fs, F.hdr ≤ f.length ∧ f.length = F.size f) (t : List α) :
    F.frames (fs.flatten ++ t) = fs ++ F.frames t ∧ F.rest (fs.flatten ++ t) = F.rest t := by
  induction fs with
  | nil => simp
  | cons f fs ih =>
      obtain ⟨hhdr, hsz⟩ := h f List.mem_cons_self
      obtain ⟨hf, hr⟩ := F.frames_of_length_eq hhdr hsz
      obtain ⟨h₁, h₂⟩ := ih fun g hg => h g (List.mem_cons_of_mem _ hg)
      rw [List.flatten_cons, List.append_assoc, (F.frames_append f _).1, (F.frames_append f _).2,
        hf, hr, List.nil_append, h₁, h₂]
      exact ⟨rfl, rfl⟩

/-! ## Bounded payload lengths -/

/-- Every complete header of the stream announces at most `max`. -/
def WellSized (max : Nat) (s : List α) : Prop :=
  (∀ f ∈ F.frames s, F.len (f.take F.hdr) ≤ max) ∧
    (F.hdr ≤ (F.rest s).length → F.len ((F.rest s).take F.hdr) ≤ max)

instance (max : Nat) (s : List α) : Decidable (F.WellSized max s) :=
  inferInstanceAs (Decidable (_ ∧ _))

theorem wellSized_nil (max : Nat) : F.WellSized max ([] : List α) := by
  refine ⟨by simp, ?_⟩
  intro h
  have := F.hdr_pos
  simp at h
  omega

theorem wellSized_append (max : Nat) (s t : List α) :
    F.WellSized max (s ++ t) ↔
      (∀ f ∈ F.frames s, F.len (f.take F.hdr) ≤ max) ∧ F.WellSized max (F.rest s ++ t) := by
  obtain ⟨h₁, h₂⟩ := F.frames_append s t
  simp only [WellSized, h₁, h₂, List.mem_append]
  constructor
  · rintro ⟨hf, hr⟩
    exact ⟨fun f h => hf f (.inl h), fun f h => hf f (.inr h), hr⟩
  · rintro ⟨hf, hg, hr⟩
    refine ⟨?_, hr⟩
    rintro f (h | h)
    · exact hf f h
    · exact hg f h

/-- A header that announces too much spoils every stream it starts. -/
theorem not_wellSized_of_header {max : Nat} {s : List α} (t : List α) (hs : F.hdr ≤ s.length)
    (h : max < F.len (s.take F.hdr)) : ¬ F.WellSized max (s ++ t) := by
  rintro ⟨hf, hr⟩
  have htake : (s ++ t).take F.hdr = s.take F.hdr := List.take_append_of_le_length hs
  by_cases hc : F.Complete (s ++ t)
  · have hsz : F.hdr ≤ F.size (s ++ t) := by unfold size; omega
    have := hf ((s ++ t).take (F.size (s ++ t))) (by
      rw [F.frames_of_complete hc]
      exact List.mem_cons_self)
    rw [List.take_take, Nat.min_eq_left hsz, htake] at this
    omega
  · rw [F.rest_of_not_complete hc] at hr
    have := hr (by rw [List.length_append]; omega)
    rw [htake] at this
    omega

/-! ## The receiver -/

/-- What is missing of the header, or of the frame once the header is there. -/
def need (p : List α) : Nat :=
  if p.length < F.hdr then F.hdr - p.length else F.size p - p.length

/-- One piece `c` arrives while `p` is pending: give up on an oversized header,
deliver a frame that is now complete, or keep waiting. -/
def absorb (max : Nat) (p c : List α) : Option (List (List α) × List α) :=
  if (p ++ c).length = F.hdr ∧ max < F.len (p ++ c) then none
  else if F.Complete (p ++ c) then some ([p ++ c], [])
  else some ([], p ++ c)

/-- All pieces in turn. -/
def assemble (max : Nat) : List α → List (List α) → Option (List (List α) × List α)
  | p, [] => some ([], p)
  | p, c :: cs =>
      (F.absorb max p c).bind fun r =>
        (assemble max r.2 cs).map fun q => (r.1 ++ q.1, q.2)

/-- The pieces a reader that asks for `need` octets can be given. -/
inductive Feasible : List α → List (List α) → Prop
  | nil (p : List α) : Feasible p []
  | cons {p c : List α} {cs : List (List α)} :
      c ≠ [] → c.length ≤ F.need p → Feasible (F.rest (p ++ c)) cs → Feasible p (c :: cs)

/-- A pending frame is incomplete and its header, if there, announces at most `max`. -/
def Pending (max : Nat) (p : List α) : Prop :=
  ¬ F.Complete p ∧ (F.hdr ≤ p.length → F.len (p.take F.hdr) ≤ max)

theorem pending_nil (max : Nat) : F.Pending max ([] : List α) := by
  refine ⟨F.not_complete_nil, ?_⟩
  intro h
  have := F.hdr_pos
  simp at h
  omega

/-- A piece that is not longer than what was asked for completes at most the
pending frame, and then exactly. -/
theorem length_eq_size_of_complete {p c : List α} (hp : ¬ F.Complete p)
    (hc : c.length ≤ F.need p) (h : F.Complete (p ++ c)) : (p ++ c).length = F.size (p ++ c) := by
  have hle := h.2
  have hhdr := h.1
  rw [List.length_append] at hle hhdr ⊢
  unfold need at hc
  split at hc
  · have : F.hdr ≤ F.size (p ++ c) := by unfold size; omega
    omega
  · rename_i hlt
    have hmore : ¬ F.size p ≤ p.length := fun h => hp ⟨by omega, h⟩
    rw [F.size_append c (by omega)] at hle ⊢
    omega

/-- What one piece does, in terms of the stream. -/
theorem absorb_eq {max : Nat} {p c : List α} (hp : F.Pending max p) (hne : c ≠ [])
    (hc : c.length ≤ F.need p) :
    F.absorb max p c =
      (if F.WellSized max (p ++ c) then some (F.frames (p ++ c), F.rest (p ++ c)) else none) ∧
    (F.WellSized max (p ++ c) → F.Pending max (F.rest (p ++ c))) := by
  have hcpos : 0 < c.length := List.length_pos_iff.mpr hne
  by_cases hbad : (p ++ c).length = F.hdr ∧ max < F.len (p ++ c)
  · -- The header completes here, and announces too much.
    have htake : (p ++ c).take F.hdr = p ++ c := by rw [← hbad.1, List.take_length]
    have hnot : ¬ F.WellSized max (p ++ c) := by
      have := F.not_wellSized_of_header (s := p ++ c) [] hbad.1.ge (by
        rw [htake]
        exact hbad.2)
      rwa [List.append_nil] at this
    refine ⟨?_, fun h => absurd h hnot⟩
    rw [absorb, if_pos hbad, if_neg hnot]
  · -- No header completes here, or one that announces little enough.
    have hok : F.hdr ≤ (p ++ c).length → F.len ((p ++ c).take F.hdr) ≤ max := by
      intro hlen
      by_cases hlt : p.length < F.hdr
      · have heq : (p ++ c).length = F.hdr := by
          unfold need at hc
          rw [if_pos hlt] at hc
          rw [List.length_append] at hlen ⊢
          omega
        have htake : (p ++ c).take F.hdr = p ++ c := by rw [← heq, List.take_length]
        rw [htake]
        by_contra hgt
        exact hbad ⟨heq, by omega⟩
      · rw [List.take_append_of_le_length (by omega)]
        exact hp.2 (by omega)
    by_cases hcomp : F.Complete (p ++ c)
    · -- A frame completes; nothing is left behind it.
      have hsz := F.length_eq_size_of_complete hp.1 hc hcomp
      obtain ⟨hf, hr⟩ := F.frames_of_length_eq hcomp.1 hsz
      have hws : F.WellSized max (p ++ c) := by
        refine ⟨?_, ?_⟩
        · rw [hf]
          intro f hmem
          rw [List.mem_singleton.mp hmem]
          exact hok hcomp.1
        · rw [hr]
          exact (F.wellSized_nil max).2 ∘ by simp
      refine ⟨?_, ?_⟩
      · rw [absorb, if_neg hbad, if_pos hcomp, if_pos hws, hf, hr]
      · intro _
        rw [hr]
        exact F.pending_nil max
    · have hf := F.frames_of_not_complete hcomp
      have hr := F.rest_of_not_complete hcomp
      have hws : F.WellSized max (p ++ c) := by
        refine ⟨?_, ?_⟩
        · rw [hf]
          simp
        · rw [hr]
          exact hok
      refine ⟨?_, ?_⟩
      · rw [absorb, if_neg hbad, if_neg hcomp, if_pos hws, hf, hr]
      · intro _
        rw [hr]
        exact ⟨hcomp, hok⟩

/-- **Fragmentation independence.** However a stream is cut into pieces, the
receiver gives up exactly when some complete header announces more than `max`,
and otherwise has delivered the frames of the stream and holds its rest. -/
theorem assemble_eq {max : Nat} {p : List α} {cs : List (List α)} (hp : F.Pending max p)
    (hcs : F.Feasible p cs) :
    F.assemble max p cs =
      if F.WellSized max (p ++ cs.flatten) then
        some (F.frames (p ++ cs.flatten), F.rest (p ++ cs.flatten))
      else none := by
  induction cs generalizing p with
  | nil =>
      have hws : F.WellSized max p := by
        refine ⟨?_, ?_⟩
        · rw [F.frames_of_not_complete hp.1]
          simp
        · rw [F.rest_of_not_complete hp.1]
          exact hp.2
      simp [assemble, hws, F.frames_of_not_complete hp.1, F.rest_of_not_complete hp.1]
  | cons c cs ih =>
      cases hcs with
      | cons hne hc hrest =>
          obtain ⟨habs, hpend⟩ := F.absorb_eq hp hne hc
          obtain ⟨hf, hr⟩ := F.frames_append (p ++ c) cs.flatten
          have happ := F.wellSized_append max (p ++ c) cs.flatten
          rw [assemble, habs, List.flatten_cons, ← List.append_assoc]
          by_cases hws : F.WellSized max (p ++ c)
          · have htail := ih (hpend hws) hrest
            rw [if_pos hws, Option.bind_some, htail]
            by_cases hall : F.WellSized max (F.rest (p ++ c) ++ cs.flatten)
            · rw [if_pos hall, if_pos (happ.mpr ⟨hws.1, hall⟩), Option.map_some, hf, hr]
            · rw [if_neg hall, if_neg fun h => hall (happ.mp h).2]
              rfl
          · -- The piece itself carries the header that announces too much.
            have hbad : ¬ F.WellSized max (p ++ c ++ cs.flatten) := by
              intro h
              apply hws
              refine ⟨(happ.mp h).1, ?_⟩
              intro hlen
              by_contra hgt
              exact F.not_wellSized_of_header cs.flatten hlen (by omega) (happ.mp h).2
            rw [if_neg hws, if_neg hbad]
            rfl

end FrameFormat

end Lib
