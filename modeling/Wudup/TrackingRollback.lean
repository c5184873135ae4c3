import Wudup.TrackingRepair

/-! What a tracking repair leaves of the Compose file and its backup, however it ends. -/
namespace Wudup
open Library Library.Program Library.Versioned

namespace TrackingRepair
variable {β Hash : Type} {x : TrackingSetting β Hash}

abbrev RepairWorld (β Hash : Type) := World β Hash (RepairState Hash)

/-- A plan made for some request from some text of the Compose file. -/
def Built (x : TrackingSetting β Hash) (approved : TrackingRepairPlan Hash) : Prop :=
  ∃ request target source rendered text runtimeImageId, x.encoding.decode source = some text ∧
    approved = plan x request target source rendered text runtimeImageId

/-- What holds from the start of a job until it ends. -/
structure Inv (x : TrackingSetting β Hash) (approved : TrackingRepairPlan Hash) (w : RepairWorld β Hash) :
    Prop where
  approved : ∀ before after, .rewrote before after ∈ w.compose.history → x.sha256 before = approved.sourceHash
  own : RestoresOwn w.compose.history
  written : w.writtenHashes = [] ↔ lastRewrite w.compose.history = none
  named : ∀ c, lastRewrite w.compose.history = some c →
    ∃ p, w.locals.plan = some p ∧ p.renderedHash = x.sha256 c ∧ w.locals.record.isSome = true
  kept : w.locals.backup = true → ∃ c, w.compose.backup = some c
  unheld : w.locals.backup = false → lastRewrite w.compose.history = none
  unended : w.locals.status ≠ .failure

variable {approved : TrackingRepairPlan Hash}

theorem Inv.edited {w : RepairWorld β Hash} (h : Inv x approved w) (c : β) :
    Inv x approved (w.record (.edited c)) where
  approved := fun b a hm => h.approved b a (by simpa using hm)
  own := h.own
  written := h.written
  named := h.named
  kept := h.kept
  unheld := h.unheld
  unended := h.unended

theorem Inv.stable : Stable (Inv x approved) :=
  Stable.of_edit (fun _ _ h => ⟨h.approved,h.own,h.written,h.named,h.kept,h.unheld,h.unended⟩)
    fun _ c h => h.edited c

/-- A condition on the variables alone is stable. -/
theorem stable_locals (p : RepairState Hash → Prop) : Stable fun w : RepairWorld β Hash => p w.locals :=
  Stable.of_edit (fun _ _ h => h) fun _ _ h => h

section
variable {P : RepairWorld β Hash → Prop}

theorem tryId_keeps (hP : Stable P) : Keeps P tryId :=
  Keeps.except (Keeps.bind (step_ends hP) fun _ => Keeps.pure) fun _ => Keeps.pure

theorem containerIds_keeps (hP : Stable P) : Keeps P containerIds :=
  Keeps.bind (step_ends hP) fun _ => Keeps.pure

theorem matchingRuntimeImageId_keeps (hP : Stable P) : Keeps P matchingRuntimeImageId := by
  refine Keeps.bind (Keeps.except (Keeps.bind (containerIds_keeps hP) fun _ => Keeps.pure) fun _ => Keeps.pure) ?_
  rintro (_ | _ | ⟨id,_ | _⟩)
  · exact Keeps.pure
  · exact Keeps.pure
  · refine Keeps.bind (tryId_keeps hP) fun running => Keeps.ite Keeps.pure ?_
    exact Keeps.bind (tryId_keeps hP) fun _ => Keeps.pure
  · exact Keeps.pure

variable [DecidableEq Hash]

theorem requireApprovedComposeSource_keeps (hP : Stable P) (h : Hash) :
    Keeps P (requireApprovedComposeSource x h) := by
  refine Keeps.bind (Keeps.except (step_ends hP) fun _ => Keeps.throw) fun _ => Ends.get_bind fun w hw => ?_
  refine Ends.start (P := P) ?_ hw
  exact Keeps.ite Keeps.throw Keeps.pure

theorem verifyRecreatedService_keeps (hP : Stable P) (expectedImageId : Str) (h : Hash) :
    Keeps P (verifyRecreatedService x expectedImageId h) := by
  refine Keeps.bind (requireApprovedComposeSource_keeps hP h) fun _ => ?_
  refine Keeps.bind (Keeps.except (containerIds_keeps hP) fun _ => Keeps.pure) ?_
  rintro (_ | ⟨id,_ | _⟩)
  · exact Keeps.throw
  · exact Keeps.bind (tryId_keeps hP) fun _ => Keeps.ite Keeps.throw Keeps.pure
  · exact Keeps.throw

/-- The text that is rendered has the expected hash. -/
theorem renderComposeTrackingLabel_ends (hP : Stable P) (target : TrackingTarget) (currentRegex proposedRegex : Str)
    (expected : Hash) :
    Ends P (renderComposeTrackingLabel x target currentRegex proposedRegex expected)
      (fun rendered w => P w ∧ ∃ source, x.sha256 source = expected ∧
        x.render target currentRegex proposedRegex target.serviceTransform source = .ok rendered) (fun _ => P) := by
  refine Ends.bind (step_ends hP) fun _ => Ends.get_bind fun w hw => Ends.ite (fun _ => ?_) fun hs => ?_
  · exact Ends.throw (by rintro _ rfl; exact hw)
  · cases hr : x.render target currentRegex proposedRegex target.serviceTransform w.compose.content with
    | error e => exact Ends.throw (by rintro _ rfl; exact hw)
    | ok rendered => exact Ends.pure (by rintro _ rfl; exact ⟨hw,_,not_not.mp hs,hr⟩)

/-- A preview renders the text it read. -/
theorem previewTrackingLabel_ends (hash : Function.Injective x.sha256) (hP : Stable P)
    (request : TrackingRepairRequest) (target : TrackingTarget) :
    Ends P (previewTrackingLabel x request target) (fun r w => P w ∧ x.encoding.decode r.1 = some r.2.1 ∧
      x.render target target.currentRegex request.regex target.serviceTransform r.1 = .ok r.2.2) (fun _ => P) := by
  refine Ends.except (F := fun _ => P) ?_ (fun _ _ => Ends.throw fun _ h => h) fun _ _ _ h => h
  refine Ends.bind (step_ends hP) fun _ => Ends.get_bind fun w hw => ?_
  refine Ends.start (P := P) ?_ hw
  cases hd : x.encoding.decode w.compose.content with
  | none => exact Ends.throw fun _ h => h
  | some text =>
    refine Ends.bind (renderComposeTrackingLabel_ends hP _ _ _ _) fun rendered => Ends.pure ?_
    rintro v ⟨hv,source,hs,hr⟩
    rw [hash hs] at hr
    exact ⟨hv,hd,hr⟩

/-- How a plan was made: from a text whose rendering has the plan's hash. -/
def Made (x : TrackingSetting β Hash) (request : TrackingRepairRequest) (p : TrackingRepairPlan Hash)
    (target : TrackingTarget) : Prop :=
  ∃ source rendered text runtimeImageId, x.encoding.decode source = some text ∧
    x.render target p.currentRegex p.proposedRegex target.serviceTransform source = .ok rendered ∧
    p = plan x request target source rendered text runtimeImageId

theorem buildTrackingRepairPlan_ends (hash : Function.Injective x.sha256) (hP : Stable P)
    (request : TrackingRepairRequest) :
    Ends P (buildTrackingRepairPlan x request) (fun r w => P w ∧ Made x request r.1 r.2) (fun _ => P) := by
  refine Ends.bind (step_ends hP) fun c => ?_
  cases (x.records c.listing).filter (·.targetId = request.targetId) with
  | nil => exact Ends.throw fun _ h => h
  | cons target others =>
    cases others with
    | cons second rest => exact Ends.throw fun _ h => h
    | nil =>
    refine Ends.ite (fun _ => Ends.throw fun _ h => h) fun _ => ?_
    refine Ends.bind (previewTrackingLabel_ends hash hP request target) fun (source,text,rendered) => ?_
    refine Ends.assume fun hr => ?_
    have hid : Keeps P (plannedImageId target) := Keeps.ite (matchingRuntimeImageId_keeps hP) Keeps.pure
    refine Ends.bind hid fun runtimeImageId => Ends.pure fun w hw => ⟨hw,?_⟩
    exact ⟨source,rendered,text,runtimeImageId,hr.1,hr.2,rfl⟩

/-- A revalidated plan has the approved id. -/
theorem revalidateTrackingRepair_ends (hash : Function.Injective x.sha256) (hP : Stable P)
    (request : TrackingRepairRequest) (planId : Hash) :
    Ends P (revalidateTrackingRepair x request planId)
      (fun r w => P w ∧ Made x request r.1 r.2.1 ∧ r.1.planId = planId) (fun _ => P) := by
  refine Ends.bind (buildTrackingRepairPlan_ends hash hP request) fun (p,target) => Ends.assume fun hm => ?_
  refine Ends.ite (fun _ => Ends.throw fun _ h => h) fun hid => ?_
  obtain ⟨hid,-⟩ := not_or.mp hid
  refine Ends.bind (matchingRuntimeImageId_keeps hP) fun _ => Ends.ite (fun _ => Ends.throw fun _ h => h) fun _ => ?_
  refine Ends.bind (ask_keeps hP) fun _ => Ends.ite (fun _ => Ends.throw fun _ h => h) fun _ => ?_
  refine Ends.bind (ask_keeps hP) fun _ => Ends.ite (fun _ => ?_) fun _ => Ends.throw fun _ h => h
  exact Ends.pure fun w hw => ⟨hw,hm,not_not.mp hid⟩

end

/-- Plans with one id were made from one text. -/
theorem sourceHash_of_planId (ids : Function.Injective x.planHash) {request : TrackingRepairRequest}
    {p : TrackingRepairPlan Hash} {target : TrackingTarget} (hb : Built x approved) (hm : Made x request p target)
    (hid : p.planId = approved.planId) : p.sourceHash = approved.sourceHash := by
  obtain ⟨request',target',source',rendered',text',image',hd',rfl⟩ := hb
  obtain ⟨source,rendered,text,image,hd,-,rfl⟩ := hm
  have hfields := ids hid
  simp only [List.cons.injEq] at hfields
  obtain ⟨-,-,-,-,rfl,-⟩ := hfields
  rw [plan,plan,x.encoding.injective _ _ _ hd hd']

/-- While a job carries out a plan: the plan, the target and whether the backup is held. -/
structure Going (x : TrackingSetting β Hash) (approved : TrackingRepairPlan Hash) (p : TrackingRepairPlan Hash)
    (target : TrackingTarget) (held : Bool) (w : RepairWorld β Hash) : Prop extends Inv x approved w where
  plan_eq : w.locals.plan = some p
  record_eq : w.locals.record = some target
  backup_eq : w.locals.backup = held

variable {p : TrackingRepairPlan Hash} {target : TrackingTarget} {held : Bool}

theorem Going.stable : Stable (Going x approved p target held) := by
  refine Stable.of_edit (fun _ _ h => ?_) fun _ c h => ⟨h.toInv.edited c,h.plan_eq,h.record_eq,h.backup_eq⟩
  exact ⟨⟨h.approved,h.own,h.written,h.named,h.kept,h.unheld,h.unended⟩,h.plan_eq,h.record_eq,h.backup_eq⟩

/-- A backup is held only when it is complete. -/
theorem backupCompose_ends :
    Ends (Going x approved p target false) backupCompose
      (fun _ w => Going x approved p target false w ∧ ∃ c, w.compose.backup = some c)
      (fun _ => Inv x approved) := by
  have hs : Stable fun w : RepairWorld β Hash => ∃ c, w.compose.backup = some c :=
    Stable.of_edit (fun _ _ h => h) fun _ _ h => h
  have hkeep : ∀ (w : RepairWorld β Hash) (c : Change β), (c = .removed ∨ ∃ d, c = .saved d) →
      Going x approved p target false w → Inv x approved (w.record c) := by
    intro w c hc h
    have hnone : lastRewrite w.compose.history = none := h.unheld h.backup_eq
    have hbackup : w.locals.backup ≠ true := by simp [h.backup_eq]
    rcases hc with rfl | ⟨d,rfl⟩ <;>
      exact ⟨fun b a hm => h.approved b a (by simpa using hm),h.own,h.written,h.named,
        fun hb => absurd hb hbackup,fun _ => hnone,h.unended⟩
  refine Ends.bind (Keeps.ends (step_ends Going.stable) fun _ _ h => h.toInv) fun _ => ?_
  refine Ends.bind (R := fun _ w => Going x approved p target false w ∧ ∃ c, w.compose.backup = some c)
    (Ends.modify fun w h => ?_) fun _ => ?_
  · exact ⟨⟨hkeep w _ (.inr ⟨_,rfl⟩) h,h.plan_eq,h.record_eq,h.backup_eq⟩,_,rfl⟩
  · refine Ends.except (Keeps.bind (step_ends (Going.stable.and hs)) fun _ => Keeps.pure) (fun e _ => ?_)
      fun _ _ _ h => h.1.toInv
    refine Ends.bind (R := fun _ => Inv x approved) (Ends.modify fun w h => ?_) fun _ => Ends.throw fun _ h => h
    exact hkeep w _ (.inl rfl) h.1

variable [DecidableEq Hash]

/-- The label is written over the plan's text, and what is written has the plan's hash. -/
theorem applyComposeTrackingLabel_ends (hash : Function.Injective x.sha256) {request : TrackingRepairRequest}
    (hm : Made x request p target) (hp : p.sourceHash = approved.sourceHash) :
    Ends (Going x approved p target true)
      (applyComposeTrackingLabel x target p.currentRegex p.proposedRegex p.sourceHash)
      (fun _ => Going x approved p target true) (fun _ => Going x approved p target true) := by
  refine Ends.bind (renderComposeTrackingLabel_ends Going.stable _ _ _ _) fun rendered => Ends.assume ?_
  rintro ⟨source,hs,hr⟩
  have hrendered : p.renderedHash = x.sha256 rendered := by
    obtain ⟨source',rendered',text,image,-,hr',rfl⟩ := hm
    rw [hash hs,hr'] at hr
    rw [plan,Except.ok.inj hr]
  refine Ends.bind ((atomicReplaceCompose_ends Going.stable Going.stable ?_).mono (fun _ h => h) (fun _ _ h => h)
    fun _ _ h => h.elim id id) fun _ => Keeps.pure
  intro w h hc
  refine ⟨⟨fun b a hb => ?_,h.own,?_,fun c hl => ?_,h.kept,fun hb => ?_,h.unended⟩,h.plan_eq,h.record_eq,
    h.backup_eq⟩
  · rcases List.mem_cons.mp (show _ ∈ _ :: _ from hb) with he | hb
    · obtain ⟨rfl,rfl⟩ := Change.rewrote.inj he
      rw [hc,hp]
    · exact h.approved b a hb
  · simp [replaced,Writer.change,lastRewrite]
  · obtain rfl : rendered = c := Option.some.inj hl
    exact ⟨p,h.plan_eq,hrendered,by simp [replaced,h.record_eq]⟩
  · exact absurd (h.backup_eq.symm.trans hb) (by simp)

theorem repairSteps_ends (hash : Function.Injective x.sha256) (ids : Function.Injective x.planHash)
    (hb : Built x approved) (request : TrackingRepairRequest) :
    Ends (fun w => Inv x approved w ∧ w.locals.backup = false) (repairSteps x request approved.planId)
      (fun _ => Inv x approved) (fun _ => Inv x approved) := by
  have hstart : Stable fun w : RepairWorld β Hash => Inv x approved w ∧ w.locals.backup = false :=
    Inv.stable.and (stable_locals fun s => s.backup = false)
  refine Ends.bind ((revalidateTrackingRepair_ends hash hstart request approved.planId).mono (fun _ h => h)
    (fun _ _ h => h) fun _ _ h => h.1) fun (p,target,expectedImageId) => Ends.assume ?_
  rintro ⟨hm,hid⟩
  have hp := sourceHash_of_planId ids hb hm hid
  have hgoing : ∀ {held : Bool} {γ : Type} {op : Op β Hash γ}, Keeps (Going x approved p target held) op →
      Ends (Going x approved p target held) op (fun _ => Going x approved p target held)
        fun _ => Inv x approved := fun h => Keeps.ends h fun _ _ h => h.toInv
  refine Ends.bind (R := fun _ => Going x approved p target false) (assign_ends ?_) fun _ => ?_
  · rintro w ⟨h,hback⟩
    have hnone := h.unheld hback
    refine ⟨⟨h.approved,h.own,h.written,fun c hc => ?_,h.kept,h.unheld,h.unended⟩,rfl,rfl,hback⟩
    exact absurd (hnone.symm.trans hc) (by simp)
  refine Ends.bind (hgoing (step_ends Going.stable)) fun _ => ?_
  refine Ends.bind (R := fun _ => Going x approved p target false) (assign_ends ?_) fun _ => ?_
  · intro w h
    exact ⟨⟨h.approved,h.own,h.written,h.named,h.kept,h.unheld,h.unended⟩,h.plan_eq,h.record_eq,h.backup_eq⟩
  refine Ends.bind backupCompose_ends fun _ => ?_
  refine Ends.bind (R := fun _ => Going x approved p target true) (assign_ends ?_) fun _ => ?_
  · rintro w ⟨h,hc⟩
    refine ⟨⟨h.approved,h.own,h.written,h.named,fun _ => hc,fun hn => absurd hn (by simp),h.unended⟩,h.plan_eq,
      h.record_eq,rfl⟩
  refine Ends.bind ((applyComposeTrackingLabel_ends hash hm hp).mono (fun _ h => h) (fun _ _ h => h)
    fun _ _ h => h.toInv) fun _ => ?_
  have hheld : Stable (Going x approved p target true) := Going.stable
  have hrequire := hgoing (requireApprovedComposeSource_keeps (x := x) hheld p.renderedHash)
  refine Ends.bind hrequire fun _ => Ends.bind (hgoing (matchingRuntimeImageId_keeps Going.stable)) fun _ => ?_
  refine Ends.ite (fun _ => Ends.throw fun _ h => h.toInv) fun _ => Ends.bind hrequire fun _ => ?_
  refine Ends.bind (R := fun _ => Going x approved p target true) (assign_ends ?_) fun _ => ?_
  · intro w h
    exact ⟨⟨h.approved,h.own,h.written,h.named,h.kept,h.unheld,h.unended⟩,h.plan_eq,h.record_eq,h.backup_eq⟩
  refine Ends.bind (hgoing (step_ends Going.stable)) fun _ => ?_
  refine Ends.bind (hgoing (verifyRecreatedService_keeps Going.stable _ _)) fun _ => ?_
  refine Ends.bind (hgoing (step_ends Going.stable)) fun _ => assign_ends fun w h => ?_
  exact ⟨h.approved,h.own,h.written,h.named,h.kept,h.unheld,by simp⟩

/-- The old file was put back and the folder it is in was synced. -/
def BackOnDisk (w : RepairWorld β Hash) : Prop := w.locals.restoredOnDisk = true ∧ PutBack w.compose.history

omit [DecidableEq Hash] in
theorem BackOnDisk.stable : Stable (BackOnDisk : RepairWorld β Hash → Prop) :=
  Stable.of_edit (fun _ _ h => h) fun _ _ h => h

/-- A rollback without an error text leaves the old file on disk. -/
theorem rollbackTrackingRepair_ends (hash : Function.Injective x.sha256) (p : TrackingRepairPlan Hash) :
    Ends (fun w => Inv x approved w ∧ w.locals.plan = some p ∧ lastRewrite w.compose.history ≠ none)
      (rollbackTrackingRepair x p) (fun r w => Inv x approved w ∧ (r = "" → BackOnDisk w))
      (fun _ => Inv x approved) := by
  have hstart : Stable fun w : RepairWorld β Hash =>
      Inv x approved w ∧ w.locals.plan = some p ∧ lastRewrite w.compose.history ≠ none :=
    Inv.stable.and ((stable_locals fun s => s.plan = some p).and (Stable.of_edit (fun _ _ h => h) fun _ _ h => h))
  have hback : Stable fun w : RepairWorld β Hash => Inv x approved w ∧ PutBack w.compose.history :=
    Inv.stable.and (Stable.of_edit (fun _ _ h => h) fun _ _ h => h)
  have hrestore : Ends (fun w => Inv x approved w ∧ w.locals.plan = some p ∧ lastRewrite w.compose.history ≠ none)
      (restoreComposeBackup x.sha256 p.renderedHash) (fun _ w => Inv x approved w ∧ PutBack w.compose.history)
      (fun _ => Inv x approved) := by
    refine (restoreComposeBackup_ends hstart hback ?_).mono (fun _ h => h) (fun _ _ h => h)
      fun _ _ h => h.elim (·.1) (·.1)
    rintro w c ⟨h,hp,hl⟩ hc hs
    obtain ⟨d,hd⟩ := Option.ne_none_iff_exists'.mp hl
    obtain ⟨q,hq,hdq,-⟩ := h.named d hd
    obtain rfl : p = q := Option.some.inj (hp.symm.trans hq)
    have hown : lastRewrite w.compose.history = some w.compose.content := by
      rw [hd,hash (hdq.symm.trans hs.symm)]
    have hsaved := savedIn_of_backup hc
    exact ⟨⟨fun b a hm => h.approved b a (by simpa using hm),⟨⟨hown,hsaved⟩,h.own⟩,h.written,h.named,h.kept,
      h.unheld,h.unended⟩,hsaved⟩
  have hagain : ∀ onDisk, Stable fun w : RepairWorld β Hash =>
      (Inv x approved w ∧ PutBack w.compose.history) ∧ w.locals.restoredOnDisk = onDisk := fun onDisk =>
    hback.and (stable_locals fun s => s.restoredOnDisk = onDisk)
  have hrecreate : Ends (fun w => Inv x approved w ∧ w.locals.plan = some p ∧
      lastRewrite w.compose.history ≠ none) (except (do
        let restoredOnDisk ← restoreComposeBackup x.sha256 p.renderedHash
        assign fun s => { s with restoredOnDisk }
        let w ← get
        if w.locals.recreateStarted then
          if (← tryId) ≠ w.locals.expectedImageId then throw .runtimeError
          else
            let _ ← step
            return some restoredOnDisk
        else
          return some restoredOnDisk) Exn.isException fun _ => return none)
      (fun r w => Inv x approved w ∧ (r = some true → BackOnDisk w)) (fun _ => Inv x approved) := by
    refine Ends.except (F := fun _ => Inv x approved) ?_ (fun _ _ => Ends.pure fun _ h => ⟨h,by simp⟩)
      fun _ _ _ h => h
    refine Ends.bind hrestore fun onDisk => ?_
    have hdone : ∀ w : RepairWorld β Hash, ((Inv x approved w ∧ PutBack w.compose.history) ∧
        w.locals.restoredOnDisk = onDisk) → Inv x approved w ∧ (some onDisk = some true → BackOnDisk w) :=
      fun w h => ⟨h.1.1,fun he => ⟨h.2.trans (Option.some.inj he),h.1.2⟩⟩
    refine Ends.bind (R := fun _ w => (Inv x approved w ∧ PutBack w.compose.history) ∧
      w.locals.restoredOnDisk = onDisk) (assign_ends fun w h => ?_) fun _ => Ends.get_bind fun w hw => ?_
    · exact ⟨⟨⟨h.1.approved,h.1.own,h.1.written,h.1.named,h.1.kept,h.1.unheld,h.1.unended⟩,h.2⟩,rfl⟩
    refine Ends.start (P := fun w => (Inv x approved w ∧ PutBack w.compose.history) ∧
      w.locals.restoredOnDisk = onDisk) ?_ hw
    refine Ends.ite (fun _ => ?_) fun _ => Ends.pure hdone
    refine Ends.bind (Keeps.ends (tryId_keeps (hagain onDisk)) fun _ _ h => h.1.1) fun _ => ?_
    refine Ends.ite (fun _ => Ends.throw fun _ h => h.1.1) fun _ => ?_
    exact Ends.bind (Keeps.ends (step_ends (hagain onDisk)) fun _ _ h => h.1.1) fun _ => Ends.pure hdone
  refine Ends.bind hrecreate fun r => Ends.pure fun w h => ⟨h.1,?_⟩
  rcases r with _ | _ | _
  · simp
  · simp
  · exact fun _ => h.2 rfl

/-- What a job leaves: a job that ends in failure after a rewrite has its backup, or the old file is
back on disk. -/
structure Left (x : TrackingSetting β Hash) (approved : TrackingRepairPlan Hash) (w : RepairWorld β Hash) :
    Prop where
  approved : ∀ before after, .rewrote before after ∈ w.compose.history → x.sha256 before = approved.sourceHash
  own : RestoresOwn w.compose.history
  recoverable : w.locals.status = .failure → lastRewrite w.compose.history ≠ none →
    w.compose.backup ≠ none ∨ BackOnDisk w

omit [DecidableEq Hash] in
theorem Inv.left {w : RepairWorld β Hash} (h : Inv x approved w) : Left x approved w :=
  ⟨h.approved,h.own,fun hf => absurd hf h.unended⟩

/-- After a failed job is finished its backup is held, or needed no more. -/
structure Finished (x : TrackingSetting β Hash) (approved : TrackingRepairPlan Hash) (retain : Bool)
    (w : RepairWorld β Hash) : Prop where
  approved : ∀ before after, .rewrote before after ∈ w.compose.history → x.sha256 before = approved.sourceHash
  own : RestoresOwn w.compose.history
  kept : w.locals.backup = true → ∃ c, w.compose.backup = some c
  unheld : w.locals.backup = false → lastRewrite w.compose.history = none
  spare : retain = false → lastRewrite w.compose.history ≠ none → BackOnDisk w

omit [DecidableEq Hash] in
theorem Finished.stable (retain : Bool) : Stable (Finished x approved retain) := by
  refine Stable.of_edit (fun _ _ h => ⟨h.approved,h.own,h.kept,h.unheld,h.spare⟩) fun _ c h => ?_
  exact ⟨fun b a hm => h.approved b a (by simpa using hm),h.own,h.kept,h.unheld,h.spare⟩

omit [DecidableEq Hash] in
theorem Finished.left {retain : Bool} {w : RepairWorld β Hash} (h : Finished x approved retain w) :
    Left x approved w := by
  refine ⟨h.approved,h.own,fun _ hl => .inl ?_⟩
  cases hb : w.locals.backup with
  | false => exact absurd (h.unheld hb) hl
  | true =>
    obtain ⟨c,hc⟩ := h.kept hb
    simp [hc]

theorem rollbackIfChanged_ends (hash : Function.Injective x.sha256) :
    Ends (Inv x approved) (rollbackIfChanged x)
      (fun r w => Inv x approved w ∧ (r = "" → lastRewrite w.compose.history ≠ none → BackOnDisk w))
      (fun _ => Inv x approved) := by
  refine Ends.get_bind fun w hw => ?_
  cases hp : w.locals.plan with
  | none =>
    refine Ends.pure ?_
    rintro _ rfl
    refine ⟨hw,fun _ hl => ?_⟩
    obtain ⟨c,hc⟩ := Option.ne_none_iff_exists'.mp hl
    obtain ⟨p,hp',-⟩ := hw.named c hc
    exact absurd (hp.symm.trans hp') (by simp)
  | some p =>
    refine Ends.ite (fun hc => ?_) fun hc => Ends.pure ?_
    · have hl : lastRewrite w.compose.history ≠ none := by
        apply hw.written.not.mp
        intro hn
        simp [hn] at hc
      exact ((rollbackTrackingRepair_ends hash p).mono (fun _ h => h)
        (fun _ _ h => ⟨h.1,fun hr _ => h.2 hr⟩) fun _ _ h => h).start ⟨hw,hp,hl⟩
    · rintro v rfl
      refine ⟨hw,fun _ hl => ?_⟩
      obtain ⟨c,hlast⟩ := Option.ne_none_iff_exists'.mp hl
      obtain ⟨q,-,-,hrecord⟩ := hw.named c hlast
      have hwritten : v.writtenHashes ≠ [] := mt hw.written.mp hl
      have hbackup : v.locals.backup = true := by
        by_contra hn
        exact hl (hw.unheld (by simpa using hn))
      exact absurd (by simp [hwritten,hbackup,hrecord]) hc

theorem finishFailedTrackingRepair_ends (hash : Function.Injective x.sha256) :
    Ends (Inv x approved) (finishFailedTrackingRepair x) (Finished x approved) (fun _ => Inv x approved) := by
  refine Ends.bind (rollbackIfChanged_ends hash) fun r => ?_
  have hs : Stable fun w : RepairWorld β Hash =>
      Inv x approved w ∧ (r = "" → lastRewrite w.compose.history ≠ none → BackOnDisk w) :=
    Inv.stable.and (Stable.of_edit (fun _ _ h => h) fun _ _ h => h)
  refine Ends.get_bind fun w hw => Ends.start (P := fun w => Inv x approved w ∧
    (r = "" → lastRewrite w.compose.history ≠ none → BackOnDisk w)) ?_ hw
  refine Ends.bind (Keeps.ends (whenever_keeps (Ends.suppress (progress_keeps hs))) fun _ _ h => h.1) fun _ => ?_
  refine Ends.bind (R := fun _ => Finished x approved (decide (r ≠ ""))) (assign_ends fun w h => ?_) fun _ =>
    Ends.pure fun _ h => h
  exact ⟨h.1.approved,h.1.own,h.1.kept,h.1.unheld,fun hr hl => h.2 (by simpa using hr) hl⟩

omit [DecidableEq Hash] in
/-- The backup is removed only where it is not needed. -/
theorem dropBackup_ends {retain : Bool} :
    Ends (fun w => Finished x approved retain w ∧ w.locals.retainBackup = retain) dropBackup
      (fun _ => Left x approved) (fun _ => Left x approved) := by
  refine Ends.get_bind fun w hw => Ends.ite (fun hc => ?_) fun _ => Ends.pure ?_
  · obtain rfl : retain = false := by simp_all
    refine Ends.start (P := Finished x approved false) ?_ hw.1
    refine Ends.bind (Keeps.ends (step_ends (Finished.stable false)) fun _ _ h => h.left) fun _ => Ends.modify ?_
    exact fun v h => ⟨fun b a hm => h.approved b a (by simpa using hm),h.own,fun _ hl => .inr (h.spare rfl hl)⟩
  · rintro _ rfl
    exact hw.1.left

omit [DecidableEq Hash] in
/-- A job that did not end in failure removes its backup. -/
theorem dropBackup_unfailed :
    Ends (Inv x approved) dropBackup (fun _ => Left x approved) (fun _ => Left x approved) := by
  refine Ends.get_bind fun w hw => Ends.ite (fun _ => ?_) fun _ => Ends.pure ?_
  · refine Ends.start (P := Inv x approved) ?_ hw
    refine Ends.bind (Keeps.ends (step_ends Inv.stable) fun _ _ h => h.left) fun _ => Ends.modify fun v h => ?_
    exact ⟨fun b a hm => h.approved b a (by simpa using hm),h.own,fun hf => absurd hf h.unended⟩
  · rintro _ rfl
    exact hw.left

/-- A whole job, however it ends. -/
theorem runTrackingRepair_ends (hash : Function.Injective x.sha256) (ids : Function.Injective x.planHash)
    (hb : Built x approved) (request : TrackingRepairRequest) :
    Ends (fun w => Inv x approved w ∧ w.locals.backup = false)
      (runTrackingRepair x request approved.planId) (fun _ => Left x approved) (fun _ => Left x approved) := by
  refine Ends.bind (R := fun _ w => Inv x approved w ∧ w.locals.backup = false) (assign_ends fun w h => ?_) ?_
  · exact ⟨⟨h.1.approved,h.1.own,h.1.written,h.1.named,h.1.kept,h.1.unheld,by simp⟩,h.2⟩
  intro _
  refine Ends.finish (R := fun _ w => Inv x approved w ∨
    ∃ retain, Finished x approved retain w ∧ w.locals.retainBackup = retain) (F := fun _ => Inv x approved)
    (Ends.except ((repairSteps_ends hash ids hb request).mono (fun _ h => h) (fun _ _ h => .inl h) fun _ _ h => h)
      (fun _ _ => ?_) fun _ _ _ h => h) (fun _ => ?_) fun _ => dropBackup_unfailed
  · refine Ends.bind (finishFailedTrackingRepair_ends hash) fun retain => assign_ends fun w h => ?_
    exact .inr ⟨retain,⟨h.approved,h.own,h.kept,h.unheld,h.spare⟩,rfl⟩
  · rintro w (h | ⟨retain,h⟩)
    · exact dropBackup_unfailed w h
    · exact dropBackup_ends w h

/-- The world when a job starts. -/
def atStart (content : β) (schedule : List (Choice β)) : RepairWorld β Hash :=
  { compose := { initial := content }, schedule, locals := {} }

omit [DecidableEq Hash] in
theorem atStart_inv (content : β) (schedule : List (Choice β)) :
    Inv x approved (atStart content schedule : RepairWorld β Hash) where
  approved := by simp [atStart]
  own := trivial
  written := by simp [atStart,lastRewrite]
  named := fun c h => absurd h (by simp [atStart,lastRewrite])
  kept := fun h => absurd h (by simp [atStart])
  unheld := fun _ => rfl
  unended := by simp [atStart]

/-- A tracking repair leaves Compose recoverable, whatever the outside answers and whenever it edits the
file: the label is written only over the content the approved plan names; a job that ends in failure
after the write has its backup, or the rollback put the backed-up content back and synced its folder, and
only edits from outside came after; and the rollback replaces only what the repair wrote. -/
theorem tracking_repair_recoverable (x : TrackingSetting β Hash) (hash : Function.Injective x.sha256)
    (ids : Function.Injective x.planHash) (approved : TrackingRepairPlan Hash) (hb : Built x approved)
    (request : TrackingRepairRequest) (content : β) (schedule : List (Choice β)) :
    let (_,w) := exec (runTrackingRepair x request approved.planId) (atStart content schedule)
    (∀ before after, .rewrote before after ∈ w.compose.history → x.sha256 before = approved.sourceHash) ∧
      (w.locals.status = .failure → lastRewrite w.compose.history ≠ none →
        w.compose.Recoverable ∧ (w.compose.backup = none → w.locals.restoredOnDisk = true)) ∧
      RestoresOwn w.compose.history := by
  have h := runTrackingRepair_ends hash ids hb request (atStart content schedule)
    ⟨atStart_inv content schedule,rfl⟩
  have hleft : ∀ w : RepairWorld β Hash, Left x approved w →
      (∀ before after, .rewrote before after ∈ w.compose.history → x.sha256 before = approved.sourceHash) ∧
      (w.locals.status = .failure → lastRewrite w.compose.history ≠ none →
        w.compose.Recoverable ∧ (w.compose.backup = none → w.locals.restoredOnDisk = true)) ∧
      RestoresOwn w.compose.history := by
    intro w h
    refine ⟨h.approved,fun hf hl => ?_,h.own⟩
    have hr := h.recoverable hf hl
    exact ⟨recoverable (hr.imp_right (·.2)),fun hn => (hr.resolve_left (not_not.mpr hn)).1⟩
  cases hx : exec (runTrackingRepair x request approved.planId) (atStart content schedule) with
  | mk r w =>
    rw [hx] at h
    cases r with
    | ok u => exact hleft w h
    | error e => exact hleft w h

/-- One running service, over a renderer that appends the new expression to the text. -/
def oneService : TrackingSetting Str (Str × List Str) where
  sha256 text := (text,[])
  planHash texts := ([],texts)
  encoding := ⟨some,fun _ _ _ ha hb => (Option.some.inj ha).trans (Option.some.inj hb).symm⟩
  records _ := [⟨['t'],['s'],"app:1".toList,[],[],true,false⟩]
  validRegex _ _ := true
  render _ _ regex _ source := .ok (source ++ regex)

def oneRequest : TrackingRepairRequest := ⟨['t'],"^1$".toList⟩

def oneApproved : TrackingRepairPlan (Str × List Str) :=
  plan oneService oneRequest ⟨['t'],['s'],"app:1".toList,[],[],true,false⟩ ['c'] "c^1$".toList ['c'] ['i']

/-- The recreate fails once the label is written; an edit may come after the old file is back. -/
def failedRecreate (edit : Option Str) : List (Choice Str) :=
  let answer : Choice Str := { listing := [("i","")] }
  List.replicate 22 answer ++ { raise := some .commandError } ::
    (List.replicate 6 answer ++ [{ listing := [("i","")], edit }])

theorem failedRecreate_recoverable :
    let (_,w) := exec (runTrackingRepair oneService oneRequest oneApproved.planId) (atStart ['c'] (failedRecreate none))
    w.compose.Recoverable ∧ (w.compose.backup = none → w.locals.restoredOnDisk = true) :=
  (tracking_repair_recoverable oneService (fun _ _ h => (Prod.mk.inj h).1) (fun _ _ h => (Prod.mk.inj h).2)
    oneApproved ⟨_,_,_,_,_,_,rfl,rfl⟩ oneRequest ['c'] (failedRecreate none)).2.1 (by decide) (by decide)

/-- An edit between the restore and the removal of the backup: the file holds the edit and the
backed-up content is gone. -/
theorem late_edit_loses_label_backup :
    let (_,w) := exec (runTrackingRepair oneService oneRequest oneApproved.planId)
      (atStart ['c'] (failedRecreate (some ['m'])))
    w.locals.status = .failure ∧ lastRewrite w.compose.history = some "c^1$".toList ∧
      savedIn w.compose.history = some ['c'] ∧ w.compose.backup = none ∧ w.compose.content = ['m'] := by decide

end TrackingRepair
end Wudup
