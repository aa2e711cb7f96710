import Frelay.Lib.Scanf
import Frelay.Client.Io

/-!
# Removing transfers by a mask

`transfer_remove` only invalidates the entries its mask matches; they stay in the list, with
their ids 0, until `transfer_upkeep` drops them. `transfer_list` does not show them, but the
loop of `transfer_remove` meets them again.

* `removeStr_spec` — what the loop leaves and counts;
* `remove_listed_iff` — when it removes what is listed, and nothing else.
-/

namespace Frelay

open Lib

/-! ## The mask -/

/-- `toupper` in the C locale. -/
def toupper (c : UInt8) : UInt8 := if 97 ≤ c ∧ c ≤ 122 then c - 32 else c

def chAsterisk : UInt8 := 0x2a

def chComma : UInt8 := 0x2c

/-- The set `*0-9a-fA-F`. -/
def isMaskChar (c : UInt8) : Bool := c == chAsterisk || isxdigit c

/-- The format of `transfer_remove`. -/
def maskFormat : List ScanDir :=
  [.space, .char, .lit chComma, .set 16 isMaskChar, .lit chComma, .set 16 isMaskChar, .space]

/-- A part of the mask that stands for an id. -/
def maskId (ids : Bytes) : Option UInt64 :=
  if ids.head? = some chAsterisk then none else some (strtoull16 ids).1

/-- The type a letter of the mask stands for. -/
def maskType (t : UInt8) : Option TransferType :=
  if t = 0x44 then some .download else if t = 0x4f then some .offer else none

/-- The mask a string stands for, if it is one. -/
def removeMask (s : Bytes) : Option RemoveMask :=
  match scan maskFormat s with
  | [.char t, .str rids, .str oids] =>
      if (chAsterisk ≠ toupper t ∧ 0x4f ≠ toupper t ∧ 0x44 ≠ toupper t) ∨
          (chAsterisk ∈ rids ∧ rids.length ≠ 1) ∨ (chAsterisk ∈ oids ∧ oids.length ≠ 1) then none
      else some { type := maskType (toupper t), rid := maskId rids, oid := maskId oids }
  | _ => none

/-! ## The loop -/

/-- The loop of `transfer_remove`, with the number of entries so far. -/
def removeLoop (m : RemoveMask) : Disk → List Transfer → Nat → Disk × List Transfer × Nat
  | k, [], n => (k, [], n)
  | k, t :: ts, n =>
      if m.selects t then
        let p := transferInvalidate k t
        let q := removeLoop m p.1 ts (n + 1)
        (q.1, p.2 :: q.2.1, q.2.2)
      else
        let q := removeLoop m k ts n
        (q.1, t :: q.2.1, q.2.2)

/-- `transfer_remove`. -/
def transferRemoveStr (s : Bytes) (k : Disk) (ts : List Transfer) : Disk × List Transfer × Int :=
  match removeMask s with
  | none => (k, ts, -1)
  | some m =>
      let r := removeLoop m k ts 0
      (r.1, r.2.1, r.2.2)

/-- The loop does to the list what the command does, and counts. -/
theorem removeLoop_eq (m : RemoveMask) (k : Disk) (ts : List Transfer) (n : Nat) :
    removeLoop m k ts n = ((transferRemove m k ts).1, (transferRemove m k ts).2,
      n + (ts.filter m.selects).length) := by
  induction ts generalizing k n with
  | nil => rfl
  | cons t ts ih =>
      unfold removeLoop transferRemove
      by_cases hsel : m.selects t = true
      · simp only [if_pos hsel, ih, List.filter_cons_of_pos hsel, List.length_cons]
        congr 2
        omega
      · simp only [if_neg hsel, ih, List.filter_cons_of_neg hsel]

/-- The entries the mask selects are invalidated, the others stay as they are. -/
theorem transferRemove_list (m : RemoveMask) (k : Disk) (ts : List Transfer) :
    (transferRemove m k ts).2 = ts.map fun t => if m.selects t then t.invalid else t := by
  induction ts generalizing k with
  | nil => rfl
  | cons t ts ih =>
      unfold transferRemove
      by_cases hsel : m.selects t = true
      · simp only [if_pos hsel, List.map_cons, ih]
        rfl
      · simp only [if_neg hsel, List.map_cons, ih]

/-- **What the loop leaves and counts.** -/
theorem removeStr_spec {s : Bytes} {m : RemoveMask} (hm : removeMask s = some m) (k : Disk)
    (ts : List Transfer) :
    (transferRemoveStr s k ts).2.1 = (ts.map fun t => if m.selects t then t.invalid else t) ∧
      (transferRemoveStr s k ts).2.2 = (ts.filter m.selects).length := by
  unfold transferRemoveStr
  rw [hm]
  dsimp only
  rw [removeLoop_eq, transferRemove_list, Nat.zero_add]
  exact ⟨rfl, rfl⟩

/-! ## What is listed -/

/-- `transfer_list` shows the entry. -/
def Transfer.Listed (t : Transfer) : Prop := t.rid ≠ 0 ∧ t.oid ≠ 0 ∧ t.tact ≠ 0

instance (t : Transfer) : Decidable t.Listed := inferInstanceAs (Decidable (_ ∧ _))

/-- The listed entries the mask selects are invalidated and counted, and all others stay as
they are. -/
structure RemovesListed (m : RemoveMask) (ts : List Transfer)
    (r : Disk × List Transfer × Int) : Prop where
  entries : r.2.1 = ts.map fun t => if t.Listed ∧ m.selects t = true then t.invalid else t
  count : r.2.2 = (ts.filter fun t => decide t.Listed && m.selects t).length

/-- **When exactly what is listed is removed**: the mask selects nothing that is not listed. -/
theorem remove_listed_iff {s : Bytes} {m : RemoveMask} (hm : removeMask s = some m) (k : Disk)
    (ts : List Transfer) :
    RemovesListed m ts (transferRemoveStr s k ts) ↔
      ∀ t ∈ ts, m.selects t = true → t.Listed := by
  obtain ⟨hlist, hcount⟩ := removeStr_spec hm k ts
  constructor
  · intro h t ht hsel
    have hlen : ((ts.filter m.selects).filter fun t => decide t.Listed).length =
        (ts.filter m.selects).length := by
      rw [List.filter_filter]
      exact Int.ofNat_inj.mp (h.count.symm.trans hcount)
    have hall := List.length_filter_eq_length_iff.mp hlen
    exact of_decide_eq_true (hall t (List.mem_filter.mpr ⟨ht, hsel⟩))
  · intro h
    refine ⟨?_, ?_⟩
    · rw [hlist]
      refine List.map_congr_left fun t ht => ?_
      by_cases hsel : m.selects t = true
      · rw [if_pos hsel, if_pos ⟨h t ht hsel, hsel⟩]
      · rw [if_neg hsel, if_neg fun hl => hsel hl.2]
    · rw [hcount]
      congr 2
      refine List.filter_congr fun t ht => ?_
      by_cases hsel : m.selects t = true
      · rw [hsel, Bool.and_true, decide_eq_true (h t ht hsel)]
      · rw [eq_false_of_ne_true hsel, Bool.and_false]

/-- The mask that selects everything. -/
def allMask : RemoveMask := { type := none, rid := none, oid := none }

theorem removeMask_all : removeMask (ascii "*,*,*") = some allMask := by decide

/-- Offers to the peers 5 and 6 as `offer_new` leaves them, and the mask of the first in small
letters. -/
theorem remove_listed_offer :
    removeMask (ascii " o,5,2") = some ⟨some .offer, some 5, some 2⟩ ∧
      ∀ k, RemovesListed ⟨some .offer, some 5, some 2⟩
        [{ transferNew 1 0 .offer with rid := 5, oid := 2 },
          { transferNew 1 1 .offer with rid := 6, oid := 3 }]
        (transferRemoveStr (ascii " o,5,2") k
          [{ transferNew 1 0 .offer with rid := 5, oid := 2 },
            { transferNew 1 1 .offer with rid := 6, oid := 3 }]) := by
  have hm : removeMask (ascii " o,5,2") = some ⟨some .offer, some 5, some 2⟩ := by decide
  exact ⟨hm, fun k => (remove_listed_iff hm k _).mpr (by decide)⟩

/-- The user offers a file, and removes everything. -/
def removeRun : List CltEvent :=
  loginRun ++ [.cmd (.offer 5 (ascii "a")) demoEnv, .cmd (.remove allMask) demoEnv]

/-- Nothing is listed any more, but `*,*,*` removes one transfer again. -/
theorem remove_again :
    ∃ c, cltLts.Reachable c ∧ (∀ t ∈ c.transfers, ¬ t.Listed) ∧
      (transferRemoveStr (ascii "*,*,*") c.disk c.transfers).2.2 = 1 ∧
      ¬ RemovesListed allMask c.transfers
        (transferRemoveStr (ascii "*,*,*") c.disk c.transfers) := by
  have hexec : (Lts.exec cltTry (demoClient false [(ascii "a", [1, 2])]) removeRun).any
      (fun c => c.transfers.length == 1 && c.transfers.all fun t => decide ¬ t.Listed) = true := by
    decide +kernel
  obtain ⟨c, hc, hp⟩ := Lts.reachable_of_exec (fun _ _ _ => cltTry_step)
    (demoClient_init false [(ascii "a", [1, 2])]) hexec
  simp only [Bool.and_eq_true, beq_iff_eq, List.all_eq_true, decide_eq_true_eq] at hp
  obtain ⟨hlen, hlisted⟩ := hp
  obtain ⟨t, ht⟩ := List.length_eq_one_iff.mp hlen
  have hcount : (transferRemoveStr (ascii "*,*,*") c.disk c.transfers).2.2 = 1 := by
    rw [(removeStr_spec removeMask_all c.disk c.transfers).2, ht]
    rfl
  refine ⟨c, hc, hlisted, hcount, fun h => ?_⟩
  have hnone : (c.transfers.filter fun t => decide t.Listed && allMask.selects t) = [] := by
    refine List.filter_eq_nil_iff.mpr fun u hu => ?_
    rw [decide_eq_false (hlisted u hu)]
    exact Bool.false_ne_true
  have hzero := h.count.symm.trans hcount
  rw [hnone] at hzero
  cases hzero

end Frelay
