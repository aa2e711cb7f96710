import Mathlib.Data.List.Basic
import Mathlib.Data.List.Nodup
import Mathlib.Data.Finset.Card
import Mathlib.Logic.Function.Basic

/-!
# Linked queues on a heap

First-in first-out queues that are singly linked lists of heap blocks, each with a
pointer to its first and its last block. Operations follow pointers; following one
that is null or dangling has no result.

* `Holds` — the blocks from the head are the given ones, and the tail is the last;
* `Separate` — a family of such queues that share no block, with what they contain;
* one rule for each operation on one queue of the family (`Separate.enqueue`,
  `Separate.dequeue`, `Separate.store`, `Separate.free`, `Separate.move`, `Separate.empty`).
-/

namespace Lib

/-! ## The heap -/

/-- A block: a value and the pointer to the next block. -/
structure Block (α : Type*) where
  val : α
  next : Option Nat

/-- The allocated blocks. All addresses lie below `size`. -/
structure Heap (α : Type*) where
  block : Nat → Option (Block α)
  size : Nat
  bounded : ∀ a, size ≤ a → block a = none

namespace Heap

variable {α : Type*}

/-- No block at all. -/
def empty : Heap α := ⟨fun _ => none, 0, fun _ _ => rfl⟩

/-- Write a block. -/
def store (h : Heap α) (a : Nat) (b : Block α) : Heap α where
  block := Function.update h.block a (some b)
  size := max h.size (a + 1)
  bounded := by
    intro c hc
    have hne : c ≠ a := by omega
    rw [Function.update_of_ne hne]
    exact h.bounded c (by omega)

/-- Give a block back. -/
def free (h : Heap α) (a : Nat) : Heap α where
  block := Function.update h.block a none
  size := h.size
  bounded := by
    intro c hc
    by_cases hca : c = a
    · rw [hca, Function.update_self]
    · rw [Function.update_of_ne hca]
      exact h.bounded c hc

@[simp] theorem store_self (h : Heap α) (a : Nat) (b : Block α) :
    (h.store a b).block a = some b := Function.update_self _ _ _

theorem store_of_ne (h : Heap α) {a c : Nat} (b : Block α) (hc : c ≠ a) :
    (h.store a b).block c = h.block c := Function.update_of_ne hc _ _

theorem free_of_ne (h : Heap α) {a c : Nat} (hc : c ≠ a) : (h.free a).block c = h.block c :=
  Function.update_of_ne hc _ _

/-- Give back every block from `p` on. The number bounds the length of the list: a
cycle has no result, and neither has a pointer to no block. -/
def freeFrom : Nat → Heap α → Option Nat → Option (Heap α)
  | _, h, none => some h
  | 0, _, some _ => none
  | n + 1, h, some a => (h.block a).bind fun b => freeFrom n (h.free a) b.next

/-- Giving blocks back allocates none. -/
theorem freeFrom_none {n : Nat} {h h' : Heap α} {p : Option Nat} (hfree : h.freeFrom n p = some h')
    {c : Nat} (hc : h.block c = none) : h'.block c = none := by
  induction n generalizing h p with
  | zero =>
      cases p with
      | none => cases hfree; exact hc
      | some a => cases hfree
  | succ n ih =>
      cases p with
      | none => cases hfree; exact hc
      | some a =>
          obtain ⟨b, -, hrest⟩ := Option.bind_eq_some_iff.mp hfree
          refine ih hrest ?_
          by_cases hca : c = a
          · rw [hca]
            exact Function.update_self _ _ _
          · rw [free_of_ne h hca]
            exact hc

end Heap

/-! ## Chains -/

section Chains

variable {α : Type*} {h h' : Heap α}

/-- The list at the pointer consists of the given blocks, by address and value. -/
inductive Chain (h : Heap α) : Option Nat → List (Nat × α) → Prop
  | nil : Chain h none []
  | cons {a : Nat} {x : α} {p : Option Nat} {l : List (Nat × α)} :
      h.block a = some ⟨x, p⟩ → Chain h p l → Chain h (some a) ((a, x) :: l)

/-- A chain depends on its blocks only. -/
theorem Chain.frame {p : Option Nat} {l : List (Nat × α)} (hc : Chain h p l)
    (hsame : ∀ b ∈ l, h'.block b.1 = h.block b.1) : Chain h' p l := by
  induction hc with
  | nil => exact .nil
  | cons hb _ ih =>
      rw [← hsame _ List.mem_cons_self] at hb
      exact .cons hb (ih fun b hmem => hsame b (List.mem_cons_of_mem _ hmem))

/-- Its blocks hold the values. -/
theorem Chain.block {p : Option Nat} {l : List (Nat × α)} (hc : Chain h p l) {a : Nat} {x : α}
    (ha : (a, x) ∈ l) : ∃ n, h.block a = some ⟨x, n⟩ := by
  induction hc with
  | nil => cases ha
  | cons hb _ ih =>
      rcases List.mem_cons.mp ha with heq | ha
      · cases heq
        exact ⟨_, hb⟩
      · exact ih ha

theorem Chain.allocated {p : Option Nat} {l : List (Nat × α)} (hc : Chain h p l) {a : Nat}
    (ha : a ∈ l.map Prod.fst) : h.block a ≠ none := by
  obtain ⟨⟨c, x⟩, hmem, rfl⟩ := List.mem_map.mp ha
  obtain ⟨n, hn⟩ := hc.block hmem
  rw [hn]
  exact Option.some_ne_none _

/-- The pointer is null exactly if there is no block. -/
theorem Chain.eq_none_iff {p : Option Nat} {l : List (Nat × α)} (hc : Chain h p l) :
    p = none ↔ l = [] := by
  cases hc with
  | nil => simp
  | cons => simp

/-- Linking one more block to the last one. -/
theorem Chain.snoc {p : Option Nat} {l : List (Nat × α)} {a b : Nat} {x y : α}
    (hc : Chain h p (l ++ [(b, y)])) (hnodup : ((l ++ [(b, y)]).map Prod.fst).Nodup)
    (ha : h.block a = none) :
    Chain ((h.store a ⟨x, none⟩).store b ⟨y, some a⟩) p (l ++ [(b, y), (a, x)]) := by
  have hba : b ≠ a := by
    rintro rfl
    exact hc.allocated (by simp) ha
  induction l generalizing p with
  | nil =>
      cases hc with
      | cons hb hnil =>
          refine .cons (Heap.store_self _ _ _) (.cons ?_ .nil)
          rw [Heap.store_of_ne _ _ (Ne.symm hba), Heap.store_self]
  | cons c l ih =>
      cases hc with
      | @cons c z p l hb hc =>
          have hcb : c ≠ b := by
            rintro rfl
            rw [List.cons_append, List.map_cons, List.nodup_cons] at hnodup
            exact hnodup.1 (by simp)
          have hca : c ≠ a := by
            rintro rfl
            rw [hb] at ha
            cases ha
          refine .cons ?_ (ih hc (List.nodup_cons.mp hnodup).2)
          rw [Heap.store_of_ne _ _ hcb, Heap.store_of_ne _ _ hca]
          exact hb

theorem mem_addr {l : List (Nat × α)} {b : Nat × α} (hb : b ∈ l) : b.1 ∈ l.map Prod.fst :=
  List.mem_map_of_mem hb

/-- Giving a chain back leaves every other block alone. -/
theorem Chain.freeFrom {p : Option Nat} {l : List (Nat × α)} (hc : Chain h p l)
    (hnodup : (l.map Prod.fst).Nodup) {n : Nat} (hn : l.length ≤ n) :
    ∃ h', h.freeFrom n p = some h' ∧ ∀ a, a ∉ l.map Prod.fst → h'.block a = h.block a := by
  induction l generalizing h p n with
  | nil =>
      cases hc
      exact ⟨h, by cases n <;> rfl, fun _ _ => rfl⟩
  | cons b l ih =>
      cases hc with
      | @cons a x p _ hb hc =>
          obtain ⟨hmem, hnodup⟩ := List.nodup_cons.mp hnodup
          have hframe : Chain (h.free a) p l := by
            refine hc.frame fun b hbl => Heap.free_of_ne _ ?_
            intro hba
            have hin := mem_addr hbl
            rw [hba] at hin
            exact hmem hin
          obtain ⟨m, rfl⟩ : ∃ m, n = m + 1 := ⟨n - 1, by simp at hn; omega⟩
          obtain ⟨h', hfree, hothers⟩ := ih hframe hnodup (by simpa using hn)
          refine ⟨h', by rw [Heap.freeFrom, hb]; exact hfree, ?_⟩
          intro c hcl
          rw [List.map_cons, List.mem_cons, not_or] at hcl
          rw [hothers c hcl.2, Heap.free_of_ne _ hcl.1]

/-- A chain without repetition is no longer than the heap. -/
theorem Chain.length_le {p : Option Nat} {l : List (Nat × α)} (hc : Chain h p l)
    (hnodup : (l.map Prod.fst).Nodup) : l.length ≤ h.size := by
  have hsub : (l.map Prod.fst).toFinset ⊆ Finset.range h.size := by
    intro a ha
    rw [Finset.mem_range]
    by_contra hge
    exact hc.allocated (List.mem_toFinset.mp ha) (h.bounded a (not_lt.mp hge))
  have hcard := Finset.card_le_card hsub
  rwa [List.toFinset_card_of_nodup hnodup, List.length_map, Finset.card_range] at hcard

end Chains

/-! ## One queue -/

/-- The pointers to the first and the last block. -/
structure Queue where
  head : Option Nat
  tail : Option Nat

namespace Queue

variable {α : Type*}

/-- Append the value in the block `a`. -/
def enqueue (h : Heap α) (q : Queue) (a : Nat) (x : α) : Option (Heap α × Queue) :=
  let h := h.store a ⟨x, none⟩
  let q' : Queue := { head := if q.head = none then some a else q.head, tail := some a }
  match q.tail with
  | none => some (h, q')
  | some b => (h.block b).map fun blk => (h.store b { blk with next := some a }, q')

/-- Remove the first block. -/
def dequeue (h : Heap α) (q : Queue) : Option (Heap α × Queue) :=
  q.head.bind fun a => (h.block a).map fun b =>
    (h.free a, { head := b.next, tail := if q.tail = q.head then none else q.tail })

/-- The queue consists of the given blocks. -/
structure Holds (h : Heap α) (q : Queue) (l : List (Nat × α)) : Prop where
  chain : Chain h q.head l
  tail : q.tail = l.getLast?.map Prod.fst
  nodup : (l.map Prod.fst).Nodup

variable {h h' : Heap α} {q : Queue} {l : List (Nat × α)}

theorem Holds.nil (h : Heap α) : Holds h ⟨none, none⟩ [] := ⟨.nil, rfl, List.nodup_nil⟩

theorem Holds.frame (hq : q.Holds h l) (hsame : ∀ b ∈ l, h'.block b.1 = h.block b.1) :
    q.Holds h' l := ⟨hq.chain.frame hsame, hq.tail, hq.nodup⟩

/-- Both pointers are null together. -/
theorem Holds.head_eq_none_iff (hq : q.Holds h l) : q.head = none ↔ q.tail = none := by
  rw [hq.chain.eq_none_iff, hq.tail]
  simp

theorem Holds.enqueue (hq : q.Holds h l) {a : Nat} (ha : h.block a = none) (x : α) :
    ∃ h' q', q.enqueue h a x = some (h', q') ∧ q'.Holds h' (l ++ [(a, x)]) ∧
      ∀ c, c ≠ a → c ∉ l.map Prod.fst → h'.block c = h.block c := by
  have hnew : a ∉ l.map Prod.fst := fun hmem => hq.chain.allocated hmem ha
  have hnodup : ((l ++ [(a, x)]).map Prod.fst).Nodup := by
    rw [List.map_append]
    exact List.nodup_append'.mpr ⟨hq.nodup, List.nodup_singleton a, by simpa using hnew⟩
  rcases List.eq_nil_or_concat' l with rfl | ⟨l, ⟨b, y⟩, rfl⟩
  · have hhead : q.head = none := hq.chain.eq_none_iff.mpr rfl
    have htail : q.tail = none := hq.tail
    refine ⟨_, _, by rw [Queue.enqueue, htail], ⟨?_, rfl, hnodup⟩, ?_⟩
    · rw [if_pos hhead]
      exact .cons (Heap.store_self _ _ _) .nil
    · exact fun c hc _ => Heap.store_of_ne _ _ hc
  · have htail : q.tail = some b := by rw [hq.tail]; simp
    have hba : b ≠ a := by
      rintro rfl
      exact hnew (by simp)
    have hhead : q.head ≠ none := fun h0 => by
      have := hq.chain.eq_none_iff.mp h0
      simp at this
    obtain ⟨n, hblk⟩ := hq.chain.block (a := b) (x := y) (by simp)
    have hblk' : (h.store a ⟨x, none⟩).block b = some ⟨y, n⟩ := by
      rw [Heap.store_of_ne _ _ hba, hblk]
    refine ⟨(h.store a ⟨x, none⟩).store b ⟨y, some a⟩,
      { head := if q.head = none then some a else q.head, tail := some a }, ?_, ⟨?_, ?_, hnodup⟩, ?_⟩
    · rw [Queue.enqueue, htail]
      simp only [hblk', Option.map_some]
    · rw [if_neg hhead, List.append_assoc]
      exact hq.chain.snoc hq.nodup ha
    · simp
    · intro c hca hcl
      have hcb : c ≠ b := by
        rintro rfl
        exact hcl (by simp)
      rw [Heap.store_of_ne _ _ hcb, Heap.store_of_ne _ _ hca]

/-- The first block of a queue that is not empty can be followed. -/
theorem Holds.first {a : Nat} {x : α} (hq : q.Holds h ((a, x) :: l)) :
    q.head = some a ∧ ∃ n, h.block a = some ⟨x, n⟩ := by
  cases hq with
  | mk chain tail nodup =>
      generalize hp : q.head = p at chain
      cases chain with
      | cons hb _ => exact ⟨rfl, _, hb⟩

theorem Holds.dequeue {a : Nat} {x : α} (hq : q.Holds h ((a, x) :: l)) :
    ∃ h' q', q.dequeue h = some (h', q') ∧ q'.Holds h' l ∧
      ∀ c, c ≠ a → h'.block c = h.block c := by
  obtain ⟨hhead, n, hblk⟩ := hq.first
  have hchain := hq.chain
  rw [hhead] at hchain
  obtain ⟨hmem, hnodup⟩ := List.nodup_cons.mp hq.nodup
  refine ⟨_, _, by rw [Queue.dequeue, hhead, Option.bind_some, hblk, Option.map_some], ⟨?_, ?_, hnodup⟩,
    fun c hc => Heap.free_of_ne _ hc⟩
  · cases hchain with
    | cons hb hrest =>
        rw [hblk] at hb
        cases hb
        refine hrest.frame fun b hb => Heap.free_of_ne _ ?_
        intro hba
        have hin := mem_addr hb
        rw [hba] at hin
        exact hmem hin
  · rw [hq.tail]
    cases l with
    | nil => simp
    | cons b l =>
        have hne : ((a, x) :: b :: l).getLast?.map Prod.fst ≠ some a := by
          rw [List.getLast?_cons_cons]
          intro heq
          obtain ⟨c, hc, hca⟩ := Option.map_eq_some_iff.mp heq
          have hin := mem_addr (List.mem_of_getLast? hc)
          rw [hca] at hin
          exact hmem hin
        rw [if_neg hne, List.getLast?_cons_cons]

/-- Writing the value of the first block. -/
theorem Holds.store {a : Nat} {x y : α} (hq : q.Holds h ((a, x) :: l)) {n : Option Nat}
    (hblk : h.block a = some ⟨x, n⟩) :
    q.Holds (h.store a ⟨y, n⟩) ((a, y) :: l) := by
  obtain ⟨hhead, -⟩ := hq.first
  have hchain := hq.chain
  rw [hhead] at hchain
  obtain ⟨hmem, hnodup⟩ := List.nodup_cons.mp hq.nodup
  refine ⟨?_, ?_, hq.nodup⟩
  · rw [hhead]
    cases hchain with
    | cons hb hrest =>
        rw [hblk] at hb
        cases hb
        refine .cons (Heap.store_self _ _ _) (hrest.frame fun b hb => Heap.store_of_ne _ _ ?_)
        intro hba
        have hin := mem_addr hb
        rw [hba] at hin
        exact hmem hin
  · rw [hq.tail]
    cases l with
    | nil => rfl
    | cons b l => rw [List.getLast?_cons_cons, List.getLast?_cons_cons]

/-- Giving all blocks of the queue back. -/
theorem Holds.freeAll (hq : q.Holds h l) :
    ∃ h', h.freeFrom h.size q.head = some h' ∧
      ∀ a, a ∉ l.map Prod.fst → h'.block a = h.block a :=
  hq.chain.freeFrom hq.nodup (hq.chain.length_le hq.nodup)

end Queue

/-! ## A family of queues -/

/-- The queues of the live indices consist of the given blocks and share none. -/
structure Separate {ι α : Type*} (live : ι → Prop) (h : Heap α) (q : ι → Queue)
    (l : ι → List (Nat × α)) : Prop where
  holds : ∀ i, live i → (q i).Holds h (l i)
  disjoint : ∀ i j, live i → live j → i ≠ j → ∀ a ∈ (l i).map Prod.fst, a ∉ (l j).map Prod.fst

namespace Separate

variable {ι α : Type*} {live live' : ι → Prop} {h : Heap α} {q : ι → Queue}
  {l : ι → List (Nat × α)}

/-- Fewer indices. -/
theorem mono (hs : Separate live h q l) (hsub : ∀ i, live' i → live i) : Separate live' h q l :=
  ⟨fun i hi => hs.holds i (hsub i hi),
    fun i j hi hj hij => hs.disjoint i j (hsub i hi) (hsub j hj) hij⟩

/-- A queue is given back, and its index is no longer live. -/
theorem free (hs : Separate live h q l) {i : ι} (hi : live i) :
    ∃ h', h.freeFrom h.size (q i).head = some h' ∧ Separate (fun j => live j ∧ j ≠ i) h' q l := by
  obtain ⟨h', heq, hframe⟩ := (hs.holds i hi).freeAll
  refine ⟨h', heq, ?_, ?_⟩
  · rintro j ⟨hj, hji⟩
    exact (hs.holds j hj).frame fun b hb =>
      hframe b.1 (hs.disjoint j i hj hi hji b.1 (mem_addr hb))
  · rintro j k ⟨hj, -⟩ ⟨hk, -⟩
    exact hs.disjoint j k hj hk

variable [DecidableEq ι]

/-- One queue is changed in its own blocks, or in new ones. -/
theorem update (hs : Separate live h q l) {i : ι} {h' : Heap α} {q' : Queue}
    {l' : List (Nat × α)} (hq : q'.Holds h' l')
    (hnew : ∀ j, live j → j ≠ i → ∀ a ∈ l'.map Prod.fst, a ∉ (l j).map Prod.fst)
    (hsame : ∀ j, live j → j ≠ i → ∀ a ∈ (l j).map Prod.fst, h'.block a = h.block a) :
    Separate live h' (Function.update q i q') (Function.update l i l') := by
  constructor
  · intro j hj
    by_cases hji : j = i
    · rw [hji, Function.update_self, Function.update_self]
      exact hq
    · rw [Function.update_of_ne hji, Function.update_of_ne hji]
      exact (hs.holds j hj).frame fun b hb => hsame j hj hji b.1 (mem_addr hb)
  · intro j k hj hk hjk a ha
    by_cases hji : j = i
    · have hki : k ≠ i := fun hki => hjk (hji.trans hki.symm)
      rw [hji, Function.update_self] at ha
      rw [Function.update_of_ne hki]
      exact hnew k hk hki a ha
    · rw [Function.update_of_ne hji] at ha
      by_cases hki : k = i
      · rw [hki, Function.update_self]
        exact fun ha' => hnew j hj hji a ha' ha
      · rw [Function.update_of_ne hki]
        exact hs.disjoint j k hj hk hjk a ha

theorem enqueue (hs : Separate live h q l) {i : ι} (hi : live i) {a : Nat} (ha : h.block a = none)
    (x : α) : ∃ h' q', (q i).enqueue h a x = some (h', q') ∧
      Separate live h' (Function.update q i q') (Function.update l i (l i ++ [(a, x)])) := by
  obtain ⟨h', q', heq, hq, hframe⟩ := (hs.holds i hi).enqueue ha x
  refine ⟨h', q', heq, hs.update hq ?_ ?_⟩
  · intro j hj hji b hb
    rw [List.map_append, List.mem_append] at hb
    rcases hb with hb | hb
    · exact hs.disjoint i j hi hj (Ne.symm hji) b hb
    · rw [List.mem_singleton.mp hb]
      exact fun hmem => (hs.holds j hj).chain.allocated hmem ha
  · intro j hj hji b hb
    refine hframe b ?_ (hs.disjoint j i hj hi hji b hb)
    rintro rfl
    exact (hs.holds j hj).chain.allocated hb ha

theorem dequeue (hs : Separate live h q l) {i : ι} (hi : live i) {a : Nat} {x : α}
    {r : List (Nat × α)} (hl : l i = (a, x) :: r) : ∃ h' q', (q i).dequeue h = some (h', q') ∧
      Separate live h' (Function.update q i q') (Function.update l i r) := by
  have hi' := hs.holds i hi
  rw [hl] at hi'
  obtain ⟨h', q', heq, hq, hframe⟩ := hi'.dequeue
  have hdis := fun j hj hji => hs.disjoint i j hi hj hji
  rw [hl] at hdis
  refine ⟨h', q', heq, hs.update hq ?_ ?_⟩
  · intro j hj hji b hb
    exact hdis j hj (Ne.symm hji) b (List.mem_cons_of_mem _ hb)
  · intro j hj hji b hb
    refine hframe b ?_
    rintro rfl
    exact hdis j hj (Ne.symm hji) b List.mem_cons_self hb

theorem store (hs : Separate live h q l) {i : ι} (hi : live i) {a : Nat} {x y : α}
    {r : List (Nat × α)} (hl : l i = (a, x) :: r) {n : Option Nat}
    (hblk : h.block a = some ⟨x, n⟩) :
    Separate live (h.store a ⟨y, n⟩) q (Function.update l i ((a, y) :: r)) := by
  have hi' := hs.holds i hi
  rw [hl] at hi'
  have hdis := fun j hj hji => hs.disjoint i j hi hj hji
  rw [hl] at hdis
  have hq : Function.update q i (q i) = q := Function.update_eq_self i q
  rw [← hq]
  refine hs.update (hi'.store hblk) (fun j hj hji => hdis j hj (Ne.symm hji)) ?_
  intro j hj hji b hb
  refine Heap.store_of_ne _ _ ?_
  rintro rfl
  exact hdis j hj (Ne.symm hji) b List.mem_cons_self hb

/-- An index becomes live with an empty queue. -/
theorem empty (hs : Separate live h q l) {i : ι} (hlive : ∀ j, live' j → j ≠ i → live j) :
    Separate live' h (Function.update q i ⟨none, none⟩) (Function.update l i []) := by
  constructor
  · intro j hj
    by_cases hji : j = i
    · rw [hji, Function.update_self, Function.update_self]
      exact Queue.Holds.nil h
    · rw [Function.update_of_ne hji, Function.update_of_ne hji]
      exact hs.holds j (hlive j hj hji)
  · intro j k hj hk hjk a ha
    by_cases hji : j = i
    · rw [hji, Function.update_self] at ha
      cases ha
    · rw [Function.update_of_ne hji] at ha
      by_cases hki : k = i
      · rw [hki, Function.update_self]
        exact List.not_mem_nil
      · rw [Function.update_of_ne hki]
        exact hs.disjoint j k (hlive j hj hji) (hlive k hk hki) hjk a ha

/-- The queue of `i` moves to `j`. -/
theorem move (hs : Separate live h q l) {i j : ι} (hi : live i)
    (hlive : ∀ k, live' k → k ≠ j → live k ∧ k ≠ i) :
    Separate live' h (Function.update q j (q i)) (Function.update l j (l i)) := by
  constructor
  · intro k hk
    by_cases hkj : k = j
    · rw [hkj, Function.update_self, Function.update_self]
      exact hs.holds i hi
    · rw [Function.update_of_ne hkj, Function.update_of_ne hkj]
      exact hs.holds k (hlive k hk hkj).1
  · intro k m hk hm hkm a ha
    by_cases hkj : k = j
    · rw [hkj, Function.update_self] at ha
      have hmj : m ≠ j := fun hmj => hkm (hkj.trans hmj.symm)
      obtain ⟨hm', hmi⟩ := hlive m hm hmj
      rw [Function.update_of_ne hmj]
      exact hs.disjoint i m hi hm' (Ne.symm hmi) a ha
    · rw [Function.update_of_ne hkj] at ha
      obtain ⟨hk', hki⟩ := hlive k hk hkj
      by_cases hmj : m = j
      · rw [hmj, Function.update_self]
        exact hs.disjoint k i hk' hi hki a ha
      · rw [Function.update_of_ne hmj]
        exact hs.disjoint k m hk' (hlive m hm hmj).1 hkm a ha

end Separate

end Lib
