import Frelay.Client.Entries
import Mathlib.Data.List.Nodup

/-!
# The list of transfers

`TableOk` is what every operation on the list keeps: entries are told apart by
their numbers, no two of them share a descriptor, and every entry is in order
(`EntryOk`). `Shrinks` compares two lists by the downloads in them: some may be
gone, closed or invalidated, but nothing else is different.
-/

namespace Frelay

open Lib

/-- The list `ts` with the files `k`, when `next` is the next number to give out. -/
structure TableOk (k : Disk) (ts : List Transfer) (next : Nat) : Prop where
  nodup : (ts.map Transfer.addr).Nodup
  below : ∀ t ∈ ts, t.addr < next
  logged : ∀ a ∈ k.log, a.addr < next
  entry : ∀ t ∈ ts, EntryOk k t
  apart : ∀ t ∈ ts, ∀ u ∈ ts, t.addr ≠ u.addr → 0 ≤ t.fd → t.fd ≠ u.fd

/-- The download `addr` can still be found, under the ids `rid` and `oid`. -/
def LiveDownload (ts : List Transfer) (addr : Nat) (rid oid : UInt64) : Prop :=
  ∃ d ∈ ts, d.addr = addr ∧ d.Matches .download rid oid

/-- `d'` is what is left of the entry `d`: it may be closed or invalidated. -/
structure Transfer.Keeps (d d' : Transfer) : Prop where
  addr : d'.addr = d.addr
  names : d'.name = d.name ∧ d'.partname = d.partname
  extent : d'.size = d.size ∧ d'.offset = d.offset
  fd : d'.fd = d.fd ∨ d'.fd = -1
  live : 0 < d'.tact → 0 < d.tact ∧ d'.rid = d.rid ∧ d'.oid = d.oid

/-- Every download in `ts'` is what is left of one in `ts`. -/
def Shrinks (ts ts' : List Transfer) : Prop :=
  ∀ d' ∈ ts', d'.type = .download → ∃ d ∈ ts, d.type = .download ∧ d.Keeps d'

/-- The log has grown by actions that open and alter nothing. -/
def Noted (k k' : Disk) : Prop :=
  ∃ acts, k'.log = acts ++ k.log ∧ ∀ a ∈ acts, ¬ a.Alters ∧ a.opens = none

theorem Transfer.Keeps.refl (d : Transfer) : d.Keeps d where
  addr := rfl
  names := ⟨rfl, rfl⟩
  extent := ⟨rfl, rfl⟩
  fd := .inl rfl
  live := fun h => ⟨h, rfl, rfl⟩

theorem Shrinks.refl (ts : List Transfer) : Shrinks ts ts := fun d hd htype => ⟨d, hd, htype, .refl d⟩

/-- What is alive in the smaller list was alive in the larger one, under the same ids. -/
theorem Shrinks.live {ts ts' : List Transfer} (h : Shrinks ts ts') {addr : Nat} {rid oid : UInt64}
    (hl : LiveDownload ts' addr rid oid) : LiveDownload ts addr rid oid := by
  obtain ⟨d', hd', haddr, htype, hoid, hrid, htact⟩ := hl
  obtain ⟨d, hd, hdt, hk⟩ := h d' hd' htype.symm
  obtain ⟨hpos, hr, ho⟩ := hk.live htact
  exact ⟨d, hd, hk.addr.symm.trans haddr, hdt.symm, hoid.trans ho, hrid.trans hr, hpos⟩

theorem Noted.refl (k : Disk) : Noted k k := ⟨[], rfl, fun _ h => absurd h List.not_mem_nil⟩

theorem Noted.of_log {k k' : Disk} (h : k'.log = k.log) : Noted k k' :=
  ⟨[], h, fun _ h => absurd h List.not_mem_nil⟩

theorem Noted.trans {k k' k'' : Disk} (h₁ : Noted k k') (h₂ : Noted k' k'') : Noted k k'' := by
  obtain ⟨as, has, hna⟩ := h₁
  obtain ⟨bs, hbs, hnb⟩ := h₂
  refine ⟨bs ++ as, by rw [hbs, has, List.append_assoc], ?_⟩
  intro a ha
  rcases List.mem_append.mp ha with h | h
  · exact hnb a h
  · exact hna a h

theorem noted_invalidate (k : Disk) (t : Transfer) : Noted k (transferInvalidate k t).1 := by
  refine ⟨[.invalidated t.addr], rfl, ?_⟩
  intro a ha
  rw [List.mem_singleton.mp ha]
  exact ⟨id, rfl⟩

/-- Actions for other entries open nothing for this one. -/
theorem lastOpened_append {acts log : List TransferAct} {addr : Nat}
    (h : ∀ a ∈ acts, a.addr ≠ addr) : lastOpened (acts ++ log) addr = lastOpened log addr := by
  induction acts with
  | nil => rfl
  | cons a acts ih =>
      rw [List.cons_append, lastOpened, if_neg (h a List.mem_cons_self)]
      exact ih fun b hb => h b (List.mem_cons_of_mem _ hb)

/-- An entry another one's operations did not touch. -/
theorem OnEntry.other {w : Prop} {k k' : Disk} {t t' u : Transfer} (h : OnEntry w k t k' t')
    (hne : u.addr ≠ t.addr) (hfd : 0 ≤ u.fd → u.fd ≠ t.fd) (hu : EntryOk k u) : EntryOk k' u := by
  obtain ⟨acts, hlog, hown⟩ := h.log
  have hother : ∀ a ∈ acts, a.addr ≠ u.addr := fun a ha heq => hne ((hown a ha).1 ▸ heq).symm
  refine ⟨?_, ?_⟩
  · intro h0
    obtain ⟨f, hf, hlast⟩ := hu.held h0
    refine ⟨f, h.others _ f h0 (hfd h0) hf, ?_⟩
    rw [hlog, lastOpened_append hother, hlast]
  · intro hmem
    rw [hlog] at hmem
    rcases List.mem_append.mp hmem with hact | hold
    · exact absurd rfl (hother _ hact)
    · exact hu.dead hold

/-- The descriptor of a touched entry is not that of another one. -/
theorem OnEntry.fd_ne {w : Prop} {k k' : Disk} {t t' u : Transfer} (h : OnEntry w k t k' t')
    (hfd : 0 ≤ t.fd → t.fd ≠ u.fd) (hu : EntryOk k u) (h0 : 0 ≤ t'.fd) : t'.fd ≠ u.fd := by
  intro heq
  rcases h.fd h0 with hsame | hfree
  · exact hfd (hsame ▸ h0) (hsame ▸ heq)
  · obtain ⟨f, hf, -⟩ := hu.held (heq ▸ h0)
    rw [heq, hf] at hfree
    cases hfree

/-! ## Membership -/

theorem mem_putTransfer {t u : Transfer} {ts : List Transfer} (h : u ∈ putTransfer t ts) :
    u = t ∨ (u ∈ ts ∧ u.addr ≠ t.addr) := by
  obtain ⟨v, hv, rfl⟩ := List.mem_map.mp h
  split
  · exact .inl rfl
  · rename_i hne
    exact .inr ⟨hv, hne⟩

theorem mem_putTransfer_self {t t' : Transfer} {ts : List Transfer} (ht : t ∈ ts)
    (haddr : t'.addr = t.addr) : t' ∈ putTransfer t' ts :=
  List.mem_map.mpr ⟨t, ht, if_pos haddr.symm⟩

theorem map_addr_putTransfer (t : Transfer) (ts : List Transfer) :
    (putTransfer t ts).map Transfer.addr = ts.map Transfer.addr := by
  rw [putTransfer, List.map_map]
  refine List.map_congr_left fun u _ => ?_
  simp only [Function.comp_apply]
  split
  · rename_i h
    exact h.symm
  · rfl

/-- In a list whose entries are told apart, putting one back replaces it. -/
theorem putTransfer_append {t t' : Transfer} {pre suf : List Transfer} (h : t'.addr = t.addr)
    (hnd : ((pre ++ t :: suf).map Transfer.addr).Nodup) :
    putTransfer t' (pre ++ t :: suf) = pre ++ t' :: suf := by
  rw [List.map_append, List.map_cons, List.nodup_append] at hnd
  obtain ⟨-, hsuf, hdisj⟩ := hnd
  have hkeep : ∀ l : List Transfer, (∀ u ∈ l, u.addr ≠ t'.addr) →
      l.map (fun u => if u.addr = t'.addr then t' else u) = l := by
    intro l hl
    conv_rhs => rw [← List.map_id l]
    refine List.map_congr_left fun u hu => ?_
    rw [if_neg (hl u hu)]
    rfl
  rw [putTransfer, List.map_append, List.map_cons, if_pos h.symm, hkeep pre, hkeep suf]
  · intro u hu heq
    exact (List.nodup_cons.mp hsuf).1 (List.mem_map.mpr ⟨u, hu, heq.trans h⟩)
  · intro u hu heq
    exact hdisj u.addr (List.mem_map.mpr ⟨u, hu, rfl⟩) t.addr List.mem_cons_self (heq.trans h)

/-- An entry that is found is found again when it is put back, if it still fits. -/
theorem find_putTransfer {p : Transfer → Bool} {t t' : Transfer} {ts : List Transfer}
    (hnd : (ts.map Transfer.addr).Nodup) (hfind : ts.find? p = some t) (haddr : t'.addr = t.addr)
    (hp : p t' = true) : (putTransfer t' ts).find? p = some t' := by
  obtain ⟨-, pre, suf, rfl, hpre⟩ := List.find?_eq_some_iff_append.mp hfind
  rw [putTransfer_append haddr hnd]
  exact List.find?_eq_some_iff_append.mpr ⟨hp, pre, suf, rfl, hpre⟩

/-- What `transfer_match` returns is an entry of the list, with a new time. -/
theorem transferMatch_eq_some {now : Int} {type : TransferType} {rid oid : UInt64}
    {ts : List Transfer} {t : Transfer} (h : transferMatch now type rid oid ts = some t) :
    ∃ u ∈ ts, u.Matches type rid oid ∧ t = { u with tact := now } := by
  obtain ⟨u, hu, rfl⟩ := Option.map_eq_some_iff.mp h
  exact ⟨u, List.mem_of_find?_eq_some hu, matches_of_find hu, rfl⟩

/-- Renewing the time of an entry that is alive is a step on this entry. -/
theorem OnEntry.renew {w : Prop} {k : Disk} {u : Transfer} (now : Int) (h : 0 < u.tact) :
    OnEntry w k u k { u with tact := now } :=
  .fields rfl rfl rfl fun _ => h

/-! ## Keeping the list in order -/

namespace TableOk

variable {w : Prop} {k k' : Disk} {ts : List Transfer} {next : Nat}

theorem put (h : TableOk k ts next) {t t' : Transfer} (ht : t ∈ ts)
    (hon : OnEntry w k t k' t') : TableOk k' (putTransfer t' ts) next where
  nodup := by
    rw [map_addr_putTransfer]
    exact h.nodup
  below := by
    intro u hu
    rcases mem_putTransfer hu with rfl | ⟨hu, -⟩
    · rw [hon.addr]
      exact h.below t ht
    · exact h.below u hu
  logged := by
    intro a ha
    obtain ⟨acts, hlog, hown⟩ := hon.log
    rw [hlog] at ha
    rcases List.mem_append.mp ha with hact | hold
    · rw [(hown a hact).1]
      exact h.below t ht
    · exact h.logged a hold
  entry := by
    intro u hu
    rcases mem_putTransfer hu with rfl | ⟨hu, hne⟩
    · exact hon.ok (h.entry t ht)
    · rw [hon.addr] at hne
      exact hon.other hne (fun h0 => h.apart u hu t ht hne h0) (h.entry u hu)
  apart := by
    intro u hu v hv hne h0
    rcases mem_putTransfer hu with rfl | ⟨hu, hut⟩ <;>
      rcases mem_putTransfer hv with rfl | ⟨hv, hvt⟩
    · exact absurd rfl hne
    · rw [hon.addr] at hvt
      exact hon.fd_ne (h.apart t ht v hv (Ne.symm hvt)) (h.entry v hv) h0
    · rw [hon.addr] at hut
      rename_i humem
      intro heq
      exact hon.fd_ne (h.apart t ht u humem (Ne.symm hut)) (h.entry u humem) (heq ▸ h0) heq.symm
    · exact h.apart u hu v hv hne h0

/-- A new entry that starts without a descriptor. -/
theorem push (h : TableOk k ts next) {t t' : Transfer} (haddr : t.addr = next) (hfd : t.fd = -1)
    (hon : OnEntry w k t k' t') : TableOk k' (t' :: ts) (next + 1) := by
  have hneg : ¬ 0 ≤ t.fd := by
    rw [hfd]
    decide
  have hnew : t'.addr = next := hon.addr.trans haddr
  -- The address is new, and the entry has no descriptor that another could share.
  have hold : ∀ u ∈ ts, u.addr ≠ t.addr := by
    intro u hu heq
    have := h.below u hu
    omega
  have hfdne : ∀ u ∈ ts, 0 ≤ u.fd → u.fd ≠ t.fd := by
    intro u _ h0 heq
    exact hneg (heq ▸ h0)
  have hok : EntryOk k t := by
    refine ⟨fun h0 => absurd h0 hneg, fun hmem => ?_⟩
    have : t.addr < next := h.logged _ hmem
    omega
  refine ⟨?_, ?_, ?_, ?_, ?_⟩
  · rw [List.map_cons, List.nodup_cons]
    refine ⟨?_, h.nodup⟩
    intro hmem
    obtain ⟨u, hu, heq⟩ := List.mem_map.mp hmem
    exact hold u hu (heq.trans hon.addr)
  · intro u hu
    rcases List.mem_cons.mp hu with rfl | hu
    · omega
    · have := h.below u hu
      omega
  · intro a ha
    obtain ⟨acts, hlog, hown⟩ := hon.log
    rw [hlog] at ha
    rcases List.mem_append.mp ha with hact | hlogged
    · have := (hown a hact).1
      omega
    · have := h.logged a hlogged
      omega
  · intro u hu
    rcases List.mem_cons.mp hu with rfl | hu
    · exact hon.ok hok
    · exact hon.other (hold u hu) (hfdne u hu) (h.entry u hu)
  · intro u hu v hv hne h0
    rcases List.mem_cons.mp hu with rfl | hu <;> rcases List.mem_cons.mp hv with rfl | hv
    · exact absurd rfl hne
    · exact hon.fd_ne (fun h => absurd h hneg) (h.entry v hv) h0
    · rename_i humem
      intro heq
      exact hon.fd_ne (fun h => absurd h hneg) (h.entry u humem) (heq ▸ h0) heq.symm
    · exact h.apart u hu v hv hne h0

/-- Dropping entries and closing descriptors that none of the rest uses. -/
theorem drop (h : TableOk k ts next) {ts' : List Transfer} {fds : List Int}
    (hsub : (ts'.map Transfer.addr).Sublist (ts.map Transfer.addr))
    (hfrom : ∀ u ∈ ts', u.fd = -1 ∨ (u ∈ ts ∧ (0 ≤ u.fd → u.fd ∉ fds)))
    (hsame : ∀ u ∈ ts', ∃ v ∈ ts, v.addr = u.addr ∧ v.tact = u.tact) :
    TableOk (k.closeMany fds) ts' next where
  nodup := h.nodup.sublist hsub
  below := by
    intro u hu
    obtain ⟨v, hv, haddr, -⟩ := hsame u hu
    rw [← haddr]
    exact h.below v hv
  logged := h.logged
  entry := by
    intro u hu
    refine ⟨?_, ?_⟩
    · intro h0
      rcases hfrom u hu with hneg | ⟨hmem, hnot⟩
      · rw [hneg] at h0
        exact absurd h0 (by decide)
      · obtain ⟨f, hf, hlast⟩ := (h.entry u hmem).held h0
        refine ⟨f, ?_, hlast⟩
        change (k.fs.closeMany fds).fds u.fd = some f
        rw [Files.closeMany_of_not_mem _ (hnot h0), hf]
    · intro hmem
      obtain ⟨v, hv, haddr, htact⟩ := hsame u hu
      rw [← htact]
      exact (h.entry v hv).dead (haddr ▸ hmem)
  apart := by
    intro u hu v hv hne h0
    rcases hfrom u hu with hneg | ⟨hu, -⟩
    · rw [hneg] at h0
      exact absurd h0 (by decide)
    · rcases hfrom v hv with hneg | ⟨hv, -⟩
      · rw [hneg]
        intro heq
        rw [heq] at h0
        exact absurd h0 (by decide)
      · exact h.apart u hu v hv hne h0

theorem closeall (h : TableOk k ts next) :
    TableOk (transferCloseall k ts).1 (transferCloseall k ts).2 next := by
  refine h.drop ?_ ?_ ?_
  · have hmap : (transferCloseall k ts).2.map Transfer.addr = ts.map Transfer.addr := by
      rw [transferCloseall, List.map_map]
      refine List.map_congr_left fun u _ => ?_
      simp only [Function.comp_apply]
      split <;> rfl
    rw [hmap]
  · intro u hu
    obtain ⟨v, hv, rfl⟩ := List.mem_map.mp hu
    split
    · exact .inl rfl
    · rename_i hneg
      exact .inr ⟨hv, fun h0 => absurd h0 hneg⟩
  · intro u hu
    obtain ⟨v, hv, rfl⟩ := List.mem_map.mp hu
    refine ⟨v, hv, ?_⟩
    split <;> exact ⟨rfl, rfl⟩

/-- Distinct entries of the list have distinct numbers. -/
theorem eq_of_addr (h : TableOk k ts next) {t u : Transfer} (ht : t ∈ ts) (hu : u ∈ ts)
    (heq : t.addr = u.addr) : t = u :=
  List.inj_on_of_nodup_map h.nodup ht hu heq

theorem upkeep (h : TableOk k ts next) (now timeout : Int) :
    TableOk (transferUpkeep now timeout k ts).1 (transferUpkeep now timeout k ts).2 next := by
  refine h.drop ?_ ?_ ?_
  · exact List.filter_sublist.map _
  · intro u hu
    obtain ⟨hu, hkeep⟩ := List.mem_filter.mp hu
    refine .inr ⟨hu, fun h0 hmem => ?_⟩
    obtain ⟨v, hv, hfd⟩ := List.mem_map.mp hmem
    obtain ⟨hv, hexp⟩ := List.mem_filter.mp hv
    by_cases haddr : v.addr = u.addr
    · rw [h.eq_of_addr hv hu haddr] at hexp
      rw [hexp] at hkeep
      cases hkeep
    · exact h.apart u hu v hv (Ne.symm haddr) h0 hfd.symm
  · intro u hu
    exact ⟨u, (List.mem_filter.mp hu).1, rfl, rfl⟩

private theorem removeFrom (m : RemoveMask) (pre suf : List Transfer)
    (h : TableOk k (pre ++ suf) next) :
    TableOk (transferRemove m k suf).1 (pre ++ (transferRemove m k suf).2) next := by
  induction suf generalizing k pre with
  | nil => exact h
  | cons t suf ih =>
      unfold transferRemove
      split
      · have hput := h.put (t := t) (by simp) (OnEntry.invalidate (w := False) (k := k) (t := t))
        have happ : putTransfer (transferInvalidate k t).2 (pre ++ t :: suf) =
            pre ++ (transferInvalidate k t).2 :: suf := putTransfer_append rfl h.nodup
        rw [happ] at hput
        have := ih (k := (transferInvalidate k t).1) (pre ++ [(transferInvalidate k t).2])
          (by simpa using hput)
        simpa using this
      · have := ih (k := k) (pre ++ [t]) (by simpa using h)
        simpa using this

theorem remove (h : TableOk k ts next) (m : RemoveMask) :
    TableOk (transferRemove m k ts).1 (transferRemove m k ts).2 next :=
  removeFrom m [] ts h

/-- Other programs do not touch descriptors. -/
theorem outside (h : TableOk k ts next) {fs : Files Bytes UInt8} (hfs : Files.Outside k.fs fs) :
    TableOk { k with fs := fs } ts next where
  nodup := h.nodup
  below := h.below
  logged := h.logged
  entry := by
    intro u hu
    refine ⟨?_, (h.entry u hu).dead⟩
    intro h0
    obtain ⟨f, hf, hlast⟩ := (h.entry u hu).held h0
    exact ⟨f, by rw [hfs.fds]; exact hf, hlast⟩
  apart := h.apart

theorem cd (h : TableOk k ts next) (cwd : Bytes) : TableOk { k with cwd := cwd } ts next where
  nodup := h.nodup
  below := h.below
  logged := h.logged
  entry := fun u hu => ⟨(h.entry u hu).held, (h.entry u hu).dead⟩
  apart := h.apart

end TableOk

/-! ## What is left of the downloads -/

theorem shrinks_closeall (k : Disk) (ts : List Transfer) :
    Shrinks ts (transferCloseall k ts).2 := by
  intro u hu htype
  obtain ⟨v, hv, rfl⟩ := List.mem_map.mp hu
  by_cases h0 : 0 ≤ v.fd
  · rw [if_pos h0] at htype ⊢
    exact ⟨v, hv, htype, rfl, ⟨rfl, rfl⟩, ⟨rfl, rfl⟩, .inr rfl, fun h => ⟨h, rfl, rfl⟩⟩
  · rw [if_neg h0] at htype ⊢
    exact ⟨v, hv, htype, .refl v⟩

theorem shrinks_upkeep (now timeout : Int) (k : Disk) (ts : List Transfer) :
    Shrinks ts (transferUpkeep now timeout k ts).2 :=
  fun u hu htype => ⟨u, (List.mem_filter.mp hu).1, htype, .refl u⟩

/-- An entry that is not alive matches nothing. -/
theorem Transfer.invalid_matches {t : Transfer} {type : TransferType} {rid oid : UInt64} :
    ¬ t.invalid.Matches type rid oid := fun h => absurd h.2.2.2 (Int.lt_irrefl 0)

theorem Transfer.keeps_invalid (d : Transfer) : d.Keeps d.invalid where
  addr := rfl
  names := ⟨rfl, rfl⟩
  extent := ⟨rfl, rfl⟩
  fd := .inr rfl
  live := fun h => absurd h (Int.lt_irrefl 0)

/-- `transfer_remove` only invalidates. -/
theorem transferRemove_shrinks (m : RemoveMask) (k : Disk) (ts : List Transfer) :
    Noted k (transferRemove m k ts).1 ∧ Shrinks ts (transferRemove m k ts).2 := by
  induction ts generalizing k with
  | nil => exact ⟨.refl k, .refl []⟩
  | cons t ts ih =>
      unfold transferRemove
      split
      · obtain ⟨hnoted, hshrinks⟩ := ih (transferInvalidate k t).1
        refine ⟨(noted_invalidate k t).trans hnoted, ?_⟩
        intro u hu htype
        rcases List.mem_cons.mp hu with rfl | hu
        · exact ⟨t, List.mem_cons_self, htype, t.keeps_invalid⟩
        · obtain ⟨v, hv, hrest⟩ := hshrinks u hu htype
          exact ⟨v, List.mem_cons_of_mem _ hv, hrest⟩
      · obtain ⟨hnoted, hshrinks⟩ := ih k
        refine ⟨hnoted, ?_⟩
        intro u hu htype
        rcases List.mem_cons.mp hu with rfl | hu
        · exact ⟨u, List.mem_cons_self, htype, .refl u⟩
        · obtain ⟨v, hv, hrest⟩ := hshrinks u hu htype
          exact ⟨v, List.mem_cons_of_mem _ hv, hrest⟩

/-- Putting back an entry that is no download. -/
theorem shrinks_put {ts : List Transfer} {t : Transfer} (h : t.type ≠ .download) :
    Shrinks ts (putTransfer t ts) := by
  intro u hu htype
  rcases mem_putTransfer hu with rfl | ⟨hu, -⟩
  · exact absurd htype h
  · exact ⟨u, hu, htype, .refl u⟩

/-- A new entry that is no download. -/
theorem shrinks_cons {ts : List Transfer} {t : Transfer} (h : t.type ≠ .download) :
    Shrinks ts (t :: ts) := by
  intro u hu htype
  rcases List.mem_cons.mp hu with rfl | hu
  · exact absurd htype h
  · exact ⟨u, hu, htype, .refl u⟩

end Frelay
