import Mathlib.Data.List.Induction
import Wudup.RetagApply

/-! Atomicity of a retag: the Compose file, its backup and the known-image records after any
sequence of failures. -/
namespace Wudup
open Library Library.Program Library.Versioned

namespace RetagApply
variable {β Hash : Type} {sha256 : β → Hash} {clock : RetagPlanUpdate → Str}

/-- Only the rows of recordable updates change. -/
theorem recordedRows_of_not_mem {rows : KnownImages} {updates : List RetagPlanUpdate} {key : Str}
    (h : key ∉ (recordable updates).map (·.serviceKey)) : recordedRows clock rows updates key = rows key := by
  unfold recordedRows
  generalize recordable updates = items at h ⊢
  induction items generalizing rows with
  | nil => rfl
  | cons item rest ih =>
    simp only [List.map_cons,List.mem_cons,not_or] at h
    rw [List.foldl_cons,ih h.2,upsertKnownImage,Function.update_of_ne h.1]

theorem recordedRows_of_mem (clock : RetagPlanUpdate → Str) (rows : KnownImages) {updates : List RetagPlanUpdate}
    {key : Str} (h : key ∈ (recordable updates).map (·.serviceKey)) :
    ∃ row, recordedRows clock rows updates key = some row := by
  unfold recordedRows
  generalize recordable updates = items at h ⊢
  induction items using List.reverseRecOn with
  | nil => simp at h
  | append_singleton rest item ih =>
    rw [List.foldl_append,List.foldl_cons,List.foldl_nil,upsertKnownImage]
    by_cases hk : key = item.serviceKey
    · exact ⟨_,by rw [hk,Function.update_self]⟩
    · rw [Function.update_of_ne hk]
      exact ih (by simpa [hk] using h)

theorem restore_of_not_mem {changes : List RetagKnownImageChange} {rows : KnownImages} {key : Str}
    (h : key ∉ changes.map (·.serviceKey)) : restoreRetagKnownImages changes rows key = rows key := by
  unfold restoreRetagKnownImages
  induction changes generalizing rows with
  | nil => rfl
  | cons c rest ih =>
    simp only [List.map_cons,List.mem_cons,not_or] at h
    rw [List.foldl_cons,ih h.2,restoreKnownImage]
    split
    · rfl
    · exact Function.update_of_ne h.1 _ _

/-- A row that still holds what was recorded goes back to what it replaced. -/
theorem restore_of_mem {changes : List RetagKnownImageChange} {rows : KnownImages}
    (hn : (changes.map (·.serviceKey)).Nodup)
    (hr : ∀ c ∈ changes, rows c.serviceKey = some c.recorded) {c : RetagKnownImageChange}
    (hc : c ∈ changes) : restoreRetagKnownImages changes rows c.serviceKey = c.previous := by
  unfold restoreRetagKnownImages
  induction changes generalizing rows with
  | nil => simp at hc
  | cons d rest ih =>
    rw [List.map_cons,List.nodup_cons] at hn
    have hd : restoreKnownImage rows d = Function.update rows d.serviceKey d.previous := by
      simp [restoreKnownImage,hr d (by simp)]
    rw [List.foldl_cons,hd]
    rcases List.mem_cons.mp hc with rfl | hc
    · exact (restore_of_not_mem hn.1).trans (Function.update_self _ _ _)
    · refine ih hn.2 (fun e he => ?_) hc
      have hne : e.serviceKey ≠ d.serviceKey := by
        rintro heq
        exact hn.1 (heq ▸ List.mem_map_of_mem he)
      rw [Function.update_of_ne hne]
      exact hr e (by simp [he])

theorem knownImageChanges_keys (clock : RetagPlanUpdate → Str) (rows : KnownImages) (updates : List RetagPlanUpdate) :
    (knownImageChanges clock rows updates).map (·.serviceKey) =
      orderedUnique ((recordable updates).map (·.serviceKey)) := by
  unfold knownImageChanges
  rw [List.map_filterMap]
  refine (List.filterMap_congr fun key hk => ?_).trans List.filterMap_some
  obtain ⟨row,hrow⟩ := recordedRows_of_mem clock rows (mem_orderedUnique.mp hk)
  simp [hrow]

/-- Restoring right after recording gives back every row as it was. -/
theorem restore_recorded (clock : RetagPlanUpdate → Str) (rows : KnownImages) (updates : List RetagPlanUpdate) :
    restoreRetagKnownImages (knownImageChanges clock rows updates) (recordedRows clock rows updates) =
      rows := by
  have hkeys := knownImageChanges_keys clock rows updates
  funext key
  by_cases hk : key ∈ (recordable updates).map (·.serviceKey)
  · obtain ⟨row,hrow⟩ := recordedRows_of_mem clock rows hk
    have hc : ⟨key,rows key,row⟩ ∈ knownImageChanges clock rows updates :=
      List.mem_filterMap.mpr ⟨key,mem_orderedUnique.mpr hk,by simp [hrow]⟩
    refine restore_of_mem (by rw [hkeys]; exact nodup_orderedUnique _) (fun c hc => ?_) hc
    obtain ⟨k,-,hk⟩ := List.mem_filterMap.mp hc
    obtain ⟨r,hr,rfl⟩ := Option.map_eq_some_iff.mp hk
    exact hr
  · rw [restore_of_not_mem (by rw [hkeys]; simpa using hk),recordedRows_of_not_mem hk]

abbrev RetagWorld (β Hash : Type) := World β Hash (RetagState Hash)

/-- One apply: its plan, the hash and the clock it uses, and what the stores held when it began. -/
structure Setting (β Hash : Type) where
  sha256 : β → Hash
  clock : RetagPlanUpdate → Str
  plan : RetagStackPlan Hash
  rows : KnownImages
  done : List RetagPlanUpdate

namespace Setting
variable (x : Setting β Hash)

/-- Every rewrite was of the content the plan was approved for. -/
def RewritesApproved (w : RetagWorld β Hash) : Prop :=
  ∀ before after, .rewrote before after ∈ w.compose.history → x.plan.approvedSourceHash = some (x.sha256 before)

/-- The records are those found, or those this retag writes. -/
def Records (w : RetagWorld β Hash) : Prop :=
  (w.locals.knownImageChanges = [] ∧ w.locals.knownImages = x.rows) ∨
    (w.locals.knownImageChanges = knownImageChanges x.clock x.rows x.plan.stackUpdates ∧
      w.locals.knownImages = recordedRows x.clock x.rows x.plan.stackUpdates)

/-- What holds of the stores at every point up to the reconcile. -/
structure Core (w : RetagWorld β Hash) : Prop where
  approved : x.RewritesApproved w
  hashes : w.writtenHashes.getLast? = (lastRewrite w.compose.history).map x.sha256
  hashed : w.locals.backupHash = none ∨ w.locals.backupHash = (savedIn w.compose.history).map x.sha256
  records : x.Records w
  traced : w.locals.knownImageChanges ≠ [] →
    lastRewrite w.compose.history ≠ none ∧ w.locals.backupHash ≠ none
  done : w.locals.successfulUpdates = x.done

/-- What holds while the apply runs and while it is rolled back. -/
structure Inv (w : RetagWorld β Hash) : Prop extends Core x w where
  kept : w.locals.backup = true → ∃ c, w.compose.backup = some c
  unheld : w.locals.backup = false → lastRewrite w.compose.history = none

/-- Before anything is recorded. -/
def Working (w : RetagWorld β Hash) : Prop :=
  x.Inv w ∧ w.locals.knownImageChanges = [] ∧ w.locals.knownImages = x.rows

/-- The rewritten file has its backup, or its old content back. -/
def Recoverable (w : RetagWorld β Hash) : Prop :=
  lastRewrite w.compose.history ≠ none → w.compose.backup ≠ none ∨ PutBack w.compose.history

variable {x}

theorem Core.congr {w v : RetagWorld β Hash} (h : x.Core w) (hc : v.compose = w.compose)
    (hw : v.writtenHashes = w.writtenHashes) (hb : v.locals.backupHash = w.locals.backupHash)
    (hi : v.locals.knownImages = w.locals.knownImages)
    (hk : v.locals.knownImageChanges = w.locals.knownImageChanges)
    (hd : v.locals.successfulUpdates = w.locals.successfulUpdates) : x.Core v where
  approved := by unfold RewritesApproved; rw [hc]; exact h.approved
  hashes := by rw [hc,hw]; exact h.hashes
  hashed := by rw [hc,hb]; exact h.hashed
  records := by unfold Records; rw [hi,hk]; exact h.records
  traced := by rw [hc,hk,hb]; exact h.traced
  done := by rw [hd]; exact h.done

theorem Core.edited {w : RetagWorld β Hash} (h : x.Core w) (c : β) : x.Core (w.record (.edited c)) where
  approved := fun b a hm => h.approved b a (by simpa using hm)
  hashes := h.hashes
  hashed := h.hashed
  records := h.records
  traced := h.traced
  done := h.done

theorem Core.stable : Stable x.Core :=
  Stable.of_edit (fun _ _ h => h.congr rfl rfl rfl rfl rfl rfl) fun _ c h => h.edited c

theorem Inv.stable : Stable x.Inv :=
  Stable.of_edit (fun _ _ h => ⟨h.toCore.congr rfl rfl rfl rfl rfl rfl,h.kept,h.unheld⟩)
    fun _ c h => ⟨h.toCore.edited c,h.kept,h.unheld⟩

theorem Recoverable.stable : Stable (Recoverable : RetagWorld β Hash → Prop) :=
  Stable.of_edit (fun _ _ h => h) fun _ _ h => h

theorem Inv.recoverable {w : RetagWorld β Hash} (h : x.Inv w) : Recoverable w := by
  intro hr
  cases hb : w.locals.backup with
  | false => exact absurd (h.unheld hb) hr
  | true =>
    obtain ⟨c,hc⟩ := h.kept hb
    exact .inl (by simp [hc])

theorem Working.stable : Stable x.Working := Inv.stable.and (Stable.of_edit (fun _ _ h => h) fun _ _ h => h)

/-- A condition on the variables alone is stable. -/
theorem stable_locals (p : RetagState Hash → Prop) : Stable fun w : RetagWorld β Hash => p w.locals :=
  Stable.of_edit (fun _ _ h => h) fun _ _ h => h

/-- A rewrite of approved content keeps the invariant while the backup is held. -/
theorem Working.replaced {w : RetagWorld β Hash} (h : x.Working w) (hb : w.locals.backup = true)
    (ha : x.plan.approvedSourceHash = some (x.sha256 w.compose.content)) (rendered : β) :
    x.Working (replaced x.sha256 .rewrite rendered true w) := by
  obtain ⟨hi,hr⟩ := h
  refine ⟨⟨⟨fun b a hm => ?_,?_,hi.hashed,hi.records,fun hn => absurd hr.1 hn,hi.done⟩,hi.kept,fun hn => ?_⟩,hr⟩
  · rcases List.mem_cons.mp (show _ ∈ _ :: _ from hm) with he | hm
    · obtain ⟨rfl,rfl⟩ := Change.rewrote.inj he
      exact ha
    · exact hi.approved b a hm
  · simp [Wudup.replaced,Writer.change,lastRewrite]
  · exact absurd (hb.symm.trans hn) (by simp)

theorem revalidateRetagRuntime_keeps {P : RetagWorld β Hash → Prop} (hP : Stable P) :
    Keeps P (revalidateRetagRuntime x.plan) :=
  Keeps.ite Keeps.pure (Keeps.bind (ask_keeps hP) fun _ => Keeps.bind (step_ends hP) fun _ =>
    Keeps.ite Keeps.pure Keeps.throw)

theorem composeUpRetagServices_keeps {P : RetagWorld β Hash → Prop} (hP : Stable P) (mode : UpdateMode) :
    Keeps P (composeUpRetagServices mode) :=
  Keeps.bind (Keeps.ite Keeps.pure (ask_keeps hP)) fun _ => Keeps.bind (step_ends hP) fun _ => Keeps.pure

theorem waitForRetagHealth_keeps {P : RetagWorld β Hash → Prop} (hP : Stable P) :
    Keeps P waitForRetagHealth :=
  Keeps.bind (progress_keeps hP) fun _ => Keeps.bind (ask_keeps hP) fun _ =>
    Keeps.ite (progress_keeps hP) (Keeps.bind (progress_keeps hP) fun _ => Keeps.throw)

theorem prepareRetagServices_keeps {P : RetagWorld β Hash → Prop} (hP : Stable P) (mode : UpdateMode) :
    Keeps P (prepareRetagServices mode) := by
  cases mode with
  | live => exact Keeps.pure
  | pause => exact Keeps.bind (command_ends hP) fun _ => Keeps.pure
  | stop => exact Keeps.bind (command_ends hP) fun _ => Keeps.pure

theorem upAndUnpause_keeps {P : RetagWorld β Hash → Prop} (hP : Stable P) (mode : UpdateMode) :
    Keeps P (upAndUnpause mode) := by
  refine Keeps.ite (Keeps.bind (Keeps.except (composeUpRetagServices_keeps hP mode) fun _ => ?_) fun _ => ?_)
    (composeUpRetagServices_keeps hP mode)
  · exact Keeps.bind (progress_keeps hP) fun _ => Keeps.throw
  · exact Keeps.bind (progress_keeps hP) fun _ => Keeps.pure

theorem recreateRetagServices_keeps {P : RetagWorld β Hash → Prop} (hP : Stable P) (mode : UpdateMode) :
    Keeps P (recreateRetagServices mode) := by
  refine Keeps.bind (progress_keeps hP) fun _ => Keeps.bind (prepareRetagServices_keeps hP mode) fun _ => ?_
  refine Keeps.bind (upAndUnpause_keeps hP mode) fun _ => Keeps.ite Keeps.throw ?_
  exact Keeps.bind (progress_keeps hP) fun _ => Keeps.ite (progress_keeps hP) (waitForRetagHealth_keeps hP)

/-- Before the backup is taken. -/
def Begun (x : Setting β Hash) (w : RetagWorld β Hash) : Prop :=
  x.Working w ∧ w.locals.backup = false ∧ w.locals.backupHash = none

theorem Begun.stable : Stable x.Begun :=
  Working.stable.and (stable_locals fun s => s.backup = false ∧ s.backupHash = none)

theorem backupCompose_ends :
    Ends x.Begun backupCompose (fun _ w => x.Begun w ∧ ∃ c, w.compose.backup = some c) (fun _ => x.Inv) := by
  have hs : Stable fun w : RetagWorld β Hash => ∃ c, w.compose.backup = some c :=
    Stable.of_edit (fun _ _ h => h) fun _ _ h => h
  refine Ends.bind (Keeps.ends (step_ends Begun.stable) fun _ _ h => h.1.1) fun _ => ?_
  refine Ends.bind (R := fun _ w => x.Begun w ∧ ∃ c, w.compose.backup = some c) (Ends.modify ?_) fun _ => ?_
  · rintro w ⟨⟨h,hr⟩,hb,hh⟩
    refine ⟨⟨⟨⟨⟨fun b a hm => h.approved b a (by simpa using hm),h.hashes,.inl hh,h.records,h.traced,h.done⟩,
      fun hk => ?_,h.unheld⟩,hr⟩,hb,hh⟩,_,rfl⟩
    exact absurd (hb.symm.trans hk) (by simp)
  · refine Ends.except (Keeps.bind (step_ends (Begun.stable.and hs)) fun _ => Keeps.pure) (fun e _ => ?_)
      fun _ _ _ h => h.1.1.1
    refine Ends.bind (R := fun _ => x.Inv) (Ends.modify ?_) fun _ => Ends.throw fun _ h => h
    rintro w ⟨⟨⟨h,hr⟩,hb,hh⟩,-⟩
    refine ⟨⟨fun b a hm => h.approved b a (by simpa using hm),h.hashes,.inl hh,h.records,h.traced,h.done⟩,
      fun hk => ?_,h.unheld⟩
    exact absurd (hb.symm.trans hk) (by simp)

/-- While the backup is held and its hash is known. -/
def Held (x : Setting β Hash) (w : RetagWorld β Hash) : Prop :=
  (x.Working w ∧ w.locals.backup = true) ∧ w.locals.backupHash ≠ none

theorem Held.stable : Stable x.Held :=
  (Working.stable.and (stable_locals fun s => s.backup = true)).and
    (stable_locals fun s => s.backupHash ≠ none)

theorem backUp_ends : Ends x.Begun (backUp x.sha256) (fun _ => x.Held) (fun _ => x.Inv) := by
  have hh : Stable fun w : RetagWorld β Hash => x.Working w ∧ w.locals.backup = true :=
    Working.stable.and (stable_locals fun s => s.backup = true)
  refine Ends.bind backupCompose_ends fun _ => Ends.bind
    (R := fun _ w => x.Working w ∧ w.locals.backup = true) (assign_ends ?_) fun _ => ?_
  · rintro w ⟨⟨⟨h,hr⟩,hb,hn⟩,hc⟩
    refine ⟨⟨⟨h.toCore.congr rfl rfl rfl rfl rfl rfl,fun _ => hc,fun hk => ?_⟩,hr⟩,rfl⟩
    exact absurd hk (by simp)
  · refine Ends.bind (Keeps.ends (step_ends hh) fun _ _ h => h.1.1) fun _ => Ends.get_bind fun w hw => ?_
    cases hc : w.compose.backup with
    | none => exact Ends.throw (by rintro _ rfl; exact hw.1.1)
    | some c =>
      refine assign_ends ?_
      rintro _ rfl
      obtain ⟨⟨h,hr⟩,hb⟩ := hw
      have hsaved := savedIn_of_backup hc
      exact ⟨⟨⟨⟨⟨h.approved,h.hashes,.inr (by simp [hsaved]),h.records,fun hn => absurd hr.1 hn,h.done⟩,
        h.kept,h.unheld⟩,hr⟩,hb⟩,by simp⟩

variable [DecidableEq Hash]

/-- The backup is held and the file was rewritten. -/
def Retagged (x : Setting β Hash) (w : RetagWorld β Hash) : Prop :=
  x.Held w ∧ lastRewrite w.compose.history ≠ none

omit [DecidableEq Hash] in
theorem Retagged.stable : Stable x.Retagged :=
  Held.stable.and (Stable.of_edit (fun _ _ h => h) fun _ _ h => h)

theorem rewriteRetag_ends (render : Renderers β) {approved : Hash}
    (ha : x.plan.approvedSourceHash = some approved) :
    Ends x.Held (rewriteRetag x.sha256 render x.plan approved) (fun _ => x.Retagged) (fun _ => x.Inv) := by
  have h : ∀ r : β → Except Exn (β × List AppliedDigestPinUpdate),
      Ends x.Held (applyRendered x.sha256 (always r) approved) (fun _ => x.Retagged) (fun _ => x.Inv) := by
    intro r
    refine (applyAlways_ends Held.stable Retagged.stable fun w rendered hw hc => ?_).mono
      (fun _ h => h) (fun _ _ h => h) fun _ _ h => h.elim (·.1.1.1) (·.1.1.1.1)
    exact ⟨⟨⟨hw.1.1.replaced hw.1.2 (hc ▸ ha) rendered,hw.1.2⟩,hw.2⟩,
      by simp [Wudup.replaced,Writer.change,lastRewrite]⟩
  exact Ends.ite (fun _ => h _) fun _ => h _

omit [DecidableEq Hash] in
/-- The records are written only where nothing was recorded before. -/
theorem recordKnownImages_ends :
    Ends x.Retagged (recordKnownImages x.clock x.plan)
      (fun _ w => x.Inv w ∧ w.locals.backup = true) (fun _ => x.Inv) := by
  refine Ends.bind (Keeps.ends (step_ends Retagged.stable) fun _ _ h => h.1.1.1.1) fun _ => assign_ends ?_
  rintro w ⟨⟨⟨⟨h,-,hr⟩,hb⟩,hh⟩,ht⟩
  exact ⟨⟨⟨h.approved,h.hashes,h.hashed,.inr ⟨by simp [hr],by simp [hr]⟩,fun _ => ⟨ht,hh⟩,h.done⟩,h.kept,
    h.unheld⟩,hb⟩

/-- The steps of the apply: every rewrite is of approved content, and the updates count as done only
when all steps went through. -/
theorem applySteps_ends (render : Renderers β) :
    Ends x.Begun (applySteps x.sha256 render x.clock x.plan)
      (fun _ w => x.RewritesApproved w ∧ w.locals.successfulUpdates = x.done ++ x.plan.stackUpdates)
      (fun _ => x.Inv) := by
  refine Ends.bind (Keeps.ends (revalidateRetagRuntime_keeps Begun.stable) fun _ _ h => h.1.1) fun _ => ?_
  refine Ends.bind (R := fun _ => x.Begun) (assign_ends ?_) fun _ => ?_
  · rintro w ⟨⟨h,hr⟩,hb⟩
    exact ⟨⟨⟨h.toCore.congr rfl rfl rfl rfl rfl rfl,h.kept,h.unheld⟩,hr⟩,hb⟩
  refine Ends.bind (Keeps.ends (progress_keeps Begun.stable) fun _ _ h => h.1.1) fun _ => ?_
  refine Ends.bind backUp_ends fun _ => ?_
  cases ha : x.plan.approvedSourceHash with
  | none => exact Ends.throw fun _ h => h.1.1.1
  | some approved =>
    refine Ends.get_bind fun w hw => Ends.ite (fun _ => ?_) fun _ => Ends.start (P := x.Held) ?_ hw
    · exact Ends.throw (by rintro _ rfl; exact hw.1.1.1)
    have hp : Ends x.Retagged progress (fun _ => x.Retagged) fun _ => x.Inv :=
      Keeps.ends (progress_keeps Retagged.stable) fun _ _ h => h.1.1.1.1
    refine Ends.bind (rewriteRetag_ends render ha) fun _ => Ends.ite (fun _ => ?_) fun _ => ?_
    · exact Ends.throw fun _ h => h.1.1.1.1
    refine Ends.bind hp fun _ => Ends.bind (Keeps.ends (step_ends Retagged.stable) fun _ _ h => h.1.1.1.1) ?_
    refine fun _ => Ends.bind hp fun _ => Ends.bind (R := fun _ => x.Retagged) (assign_ends ?_) fun _ => ?_
    · rintro w ⟨⟨⟨⟨h,hr⟩,hb⟩,hh⟩,ht⟩
      exact ⟨⟨⟨⟨⟨h.toCore.congr rfl rfl rfl rfl rfl rfl,h.kept,h.unheld⟩,hr⟩,hb⟩,hh⟩,ht⟩
    refine Ends.bind (Keeps.ends (recreateRetagServices_keeps Retagged.stable _) fun _ _ h => h.1.1.1.1) ?_
    intro _
    refine Ends.bind recordKnownImages_ends fun _ => ?_
    have hb : Stable fun w : RetagWorld β Hash => x.Inv w ∧ w.locals.backup = true :=
      Inv.stable.and (stable_locals fun s => s.backup = true)
    refine Ends.bind (R := fun _ => x.Core) (Ends.bind (Keeps.ends (step_ends hb) fun _ _ h => h.1) fun _ =>
      Ends.modify fun w h => ?_) fun _ => assign_ends fun w h => ?_
    · exact ⟨fun b a hm => h.1.approved b a (by simpa using hm),h.1.hashes,h.1.hashed,h.1.records,h.1.traced,h.1.done⟩
    · exact ⟨h.approved,by simp [h.done]⟩

/-- While a rewritten file is rolled back. -/
def RollingBack (x : Setting β Hash) (w : RetagWorld β Hash) : Prop :=
  x.Inv w ∧ w.locals.backup = true ∧ PutBack w.compose.history

omit [DecidableEq Hash] in
theorem RollingBack.stable : Stable x.RollingBack :=
  Inv.stable.and ((stable_locals fun s => s.backup = true).and
    (Stable.of_edit (fun _ _ h => h) fun _ _ h => h))

theorem restoreBackup_ends (h : Hash) :
    Ends (fun w => x.Inv w ∧ w.locals.backup = true) (restoreComposeBackup x.sha256 h)
      (fun _ => x.RollingBack) (fun _ => x.Inv) := by
  refine (restoreComposeBackup_ends (Inv.stable.and (stable_locals fun s => s.backup = true))
    RollingBack.stable ?_).mono (fun _ h => h) (fun _ _ h => h) fun _ _ h => h.elim (·.1) (·.1)
  rintro w c ⟨h,hb⟩ hc -
  exact ⟨⟨⟨fun b a hm => h.approved b a (by simpa using hm),h.hashes,h.hashed,h.records,h.traced,h.done⟩,
    h.kept,h.unheld⟩,hb,savedIn_of_backup hc⟩

omit [DecidableEq Hash] in
theorem rollBackGroup_keeps {P : RetagWorld β Hash → Prop} (services : List Str) {op : Op β Hash Unit}
    (h : Keeps P op) : Keeps P (rollBackGroup services op) :=
  Keeps.ite Keeps.pure (Keeps.except (Keeps.bind h fun _ => Keeps.pure) fun _ => Keeps.pure)

omit [DecidableEq Hash] in
theorem recreateRetagServicesStopped_keeps {P : RetagWorld β Hash → Prop} (hP : Stable P) :
    Keeps P recreateRetagServicesStopped :=
  Keeps.bind (runComposeUpNoStart_keeps hP) fun _ => Keeps.ite Keeps.pure Keeps.throw

omit [DecidableEq Hash] in
theorem rollBackRunning_keeps {P : RetagWorld β Hash → Prop} (hP : Stable P) (mode : UpdateMode) :
    Keeps P (rollBackRunning mode) :=
  Keeps.bind (composeUpRetagServices_keeps hP mode) fun _ =>
    Keeps.ite Keeps.pure (waitForRetagHealth_keeps hP)

omit [DecidableEq Hash] in
/-- The backup goes only after the old content was put back. -/
theorem settleRetagRollbackBackup_ends (restoredOnDisk : Bool) :
    Ends x.RollingBack (settleRetagRollbackBackup restoredOnDisk)
      (fun failed w => if failed then x.RollingBack w else x.Core w ∧ PutBack w.compose.history)
      (fun _ => x.Inv) := by
  refine Ends.ite (fun _ => ?_) fun _ => ?_
  · refine Ends.except (F := fun _ => x.RollingBack) ?_ (fun _ _ => Ends.pure fun _ h => h) fun _ _ _ h => h.1
    refine Ends.bind (R := fun _ w => x.Core w ∧ PutBack w.compose.history) ?_ fun _ => Ends.pure fun _ h => h
    refine Ends.bind (step_ends RollingBack.stable) fun _ => Ends.modify ?_
    rintro w ⟨h,-,hp⟩
    exact ⟨⟨fun b a hm => h.approved b a (by simpa using hm),h.hashes,h.hashed,h.records,h.traced,h.done⟩,hp⟩
  · refine Ends.bind (Keeps.ends (progress_keeps RollingBack.stable) fun _ _ h => h.1) fun _ => ?_
    exact Ends.pure fun _ h => ⟨h.1.toCore,h.2.2⟩

theorem restoreRetagCompose_ends (h : Hash) :
    Ends (fun w => x.Inv w ∧ w.locals.backup = true) (restoreRetagCompose x.sha256 x.plan h)
      (fun _ w => x.Core w ∧ PutBack w.compose.history) (fun _ => x.Inv) := by
  refine Ends.get_bind fun w hw => Ends.start (P := fun w => x.Inv w ∧ w.locals.backup = true) ?_ hw
  refine Ends.bind (Ends.except (restoreBackup_ends h) (fun _ _ => Ends.throw fun _ h => h)
    fun _ _ _ h => h) fun onDisk => ?_
  have hk := fun services (op : Op β Hash Unit) (h : Keeps x.RollingBack op) =>
    Keeps.ends (E := fun _ => x.Inv) (rollBackGroup_keeps services h) fun _ _ h => h.1
  refine Ends.bind (hk _ _ (recreateRetagServicesStopped_keeps RollingBack.stable)) fun _ => ?_
  refine Ends.bind (hk _ _ (rollBackRunning_keeps RollingBack.stable _)) fun _ => ?_
  refine Ends.ite (fun _ => Ends.throw fun _ h => h.1) fun _ => ?_
  refine Ends.bind (settleRetagRollbackBackup_ends onDisk) fun failed => Ends.ite (fun hf => ?_) fun hf => ?_
  · exact Ends.throw fun w h => by simp only [hf,if_true] at h; exact h.1
  · exact Ends.pure fun w h => by simpa [hf] using h

/-- The Compose file held `c` when it was last read; only edits from outside came after. -/
def ReadAs (w : RetagWorld β Hash) (c : β) : Prop :=
  ∃ later seen, w.compose.history = later ++ seen ∧ (∀ e ∈ later, ∃ d, e = .edited d) ∧
    contentAfter w.compose.initial seen = c

/-- The records of a failed stack, for each thing its reconcile can find in the Compose file. -/
def Settles (x : Setting β Hash) (w : RetagWorld β Hash) : KnownImageOutcome → Prop
  | .unreadable => w.locals.knownImages = recordedRows x.clock x.rows x.plan.stackUpdates
  | .stillRetagged => (∃ c, ReadAs w c ∧ lastRewrite w.compose.history = some c) ∧
      w.locals.knownImages = recordedRows x.clock x.rows x.plan.stackUpdates
  | .changedElsewhere => (∃ c, ReadAs w c ∧ lastRewrite w.compose.history ≠ some c ∧
      savedIn w.compose.history ≠ some c) ∧
      w.locals.knownImages = recordedRows x.clock x.rows x.plan.stackUpdates
  | .resetFailed => (∃ c, ReadAs w c ∧ lastRewrite w.compose.history ≠ some c ∧
      savedIn w.compose.history = some c) ∧
      w.locals.knownImages = recordedRows x.clock x.rows x.plan.stackUpdates
  | .reset => (∃ c, ReadAs w c ∧ lastRewrite w.compose.history ≠ some c ∧
      savedIn w.compose.history = some c) ∧ w.locals.knownImages = x.rows

/-- What every failure leaves of the Compose file and of the list of successful updates. -/
def Leaves (x : Setting β Hash) (w : RetagWorld β Hash) : Prop :=
  x.RewritesApproved w ∧ Recoverable w ∧ w.locals.successfulUpdates = x.done

/-- What a failure reported by the apply leaves of the records. -/
def Reported (x : Setting β Hash) (w : RetagWorld β Hash) : Prop :=
  (w.locals.knownImageChanges = [] → w.locals.knownImages = x.rows) ∧
    (w.locals.knownImageChanges ≠ [] → ∃ o, w.locals.outcome = some o ∧ x.Settles w o)

/-- How an apply fails: with its own error, or with an interrupt. -/
def Fails (x : Setting β Hash) (e : Exn) (w : RetagWorld β Hash) : Prop :=
  x.Leaves w ∧ (e.isException = true → e = .retagApplyFailed ∧ x.Reported w)

omit [DecidableEq Hash] in
theorem Core.leaves {w : RetagWorld β Hash} (h : x.Core w) (hr : Recoverable w) : x.Leaves w :=
  ⟨h.approved,hr,h.done⟩

omit [DecidableEq Hash] in
theorem Core.rows_of_unchanged {w : RetagWorld β Hash} (h : x.Core w)
    (hc : w.locals.knownImageChanges = []) : w.locals.knownImages = x.rows := by
  rcases h.records with ⟨-,hr⟩ | ⟨hk,hr⟩
  · exact hr
  · have hs := restore_recorded x.clock x.rows x.plan.stackUpdates
    rw [← hk,hc] at hs
    rw [hr]
    exact hs

omit [DecidableEq Hash] in
theorem Core.rows_of_changed {w : RetagWorld β Hash} (h : x.Core w)
    (hc : w.locals.knownImageChanges ≠ []) :
    w.locals.knownImages = recordedRows x.clock x.rows x.plan.stackUpdates := by
  rcases h.records with ⟨hk,-⟩ | ⟨-,hr⟩
  · exact absurd hk hc
  · exact hr

omit [DecidableEq Hash] in
theorem ReadAs.stable (c : β) : Stable fun w : RetagWorld β Hash => ReadAs w c := by
  refine Stable.of_edit (fun _ _ h => h) fun w d h => ?_
  obtain ⟨later,seen,hs,hl,hc⟩ := h
  refine ⟨.edited d :: later,seen,by simp [hs],fun e he => ?_,hc⟩
  rcases List.mem_cons.mp he with rfl | he
  · exact ⟨d,rfl⟩
  · exact hl e he

/-- The stores once a failed stack's Compose file has been read. -/
def Reconciling (x : Setting β Hash) (c : β) (w : RetagWorld β Hash) : Prop :=
  (x.Core w ∧ Recoverable w) ∧ w.locals.knownImageChanges ≠ [] ∧ ReadAs w c

omit [DecidableEq Hash] in
theorem Reconciling.stable (c : β) : Stable (x.Reconciling c) :=
  (Core.stable.and Recoverable.stable).and ((stable_locals fun s => s.knownImageChanges ≠ []).and
    (ReadAs.stable c))

omit [DecidableEq Hash] in
/-- Noting the outcome of a reconcile that leaves the records as they are. -/
theorem settle_ends {P : RetagWorld β Hash → Prop} {E : Exn → RetagWorld β Hash → Prop}
    {o : KnownImageOutcome} (retained : List RetagPlanUpdate)
    (h : ∀ w, P w → x.Leaves w ∧ w.locals.knownImageChanges ≠ [] ∧ x.Settles w o) :
    Ends P (settle o retained : Op β Hash Unit) (fun _ w => x.Leaves w ∧ x.Reported w) E := by
  refine assign_ends fun w hw => ?_
  obtain ⟨hl,hc,hs⟩ := h w hw
  refine ⟨hl,fun hn => absurd hn hc,fun _ => ⟨o,rfl,?_⟩⟩
  cases o <;> exact hs

omit [DecidableEq Hash] in
theorem Core.wrote_iff {w : RetagWorld β Hash} (hash : Function.Injective x.sha256) (h : x.Core w) {c : β} :
    w.writtenHashes.getLast? = some (x.sha256 c) ↔ lastRewrite w.compose.history = some c := by
  rw [h.hashes]
  cases lastRewrite w.compose.history <;> simp [hash.eq_iff]

omit [DecidableEq Hash] in
theorem Core.saved_iff {w : RetagWorld β Hash} (hash : Function.Injective x.sha256) (h : x.Core w) {c : β}
    (hc : w.locals.knownImageChanges ≠ []) :
    w.locals.backupHash = some (x.sha256 c) ↔ savedIn w.compose.history = some c := by
  rw [h.hashed.resolve_left (h.traced hc).2]
  cases savedIn w.compose.history <;> simp [hash.eq_iff]

/-- The reconcile resets the records exactly where it read the old content back. -/
theorem reconcileRetagKnownImages_ends (hash : Function.Injective x.sha256) :
    Ends (fun w => (x.Core w ∧ Recoverable w) ∧ w.locals.knownImageChanges ≠ [])
      (reconcileRetagKnownImages x.sha256 x.plan) (fun _ w => x.Leaves w ∧ x.Reported w)
      (fun e w => x.Leaves w ∧ e.isException = false) := by
  refine Ends.get_bind fun w₀ hw₀ => ?_
  have hsame : Stable fun w : RetagWorld β Hash =>
      w.writtenHashes = w₀.writtenHashes ∧ w.locals.backupHash = w₀.locals.backupHash :=
    Stable.of_edit (fun _ _ h => h) fun _ _ h => h
  have hstart : Stable fun w : RetagWorld β Hash => ((x.Core w ∧ Recoverable w) ∧
      w.locals.knownImageChanges ≠ []) ∧ w.writtenHashes = w₀.writtenHashes ∧
      w.locals.backupHash = w₀.locals.backupHash :=
    ((Core.stable.and Recoverable.stable).and (stable_locals fun s => s.knownImageChanges ≠ [])).and hsame
  refine Ends.start (P := fun w => ((x.Core w ∧ Recoverable w) ∧ w.locals.knownImageChanges ≠ []) ∧
    w.writtenHashes = w₀.writtenHashes ∧ w.locals.backupHash = w₀.locals.backupHash) ?_ ⟨hw₀,rfl,rfl⟩
  refine Ends.bind (R := fun r w => r.elim ((x.Core w ∧ Recoverable w) ∧ w.locals.knownImageChanges ≠ [])
      fun h => ∃ c, x.sha256 c = h ∧ x.Reconciling c w ∧ w.writtenHashes = w₀.writtenHashes ∧
        w.locals.backupHash = w₀.locals.backupHash)
    (Ends.except (F := fun _ w => (x.Core w ∧ Recoverable w) ∧ w.locals.knownImageChanges ≠ []) ?_
      (fun _ _ => Ends.pure fun _ h => h) fun e w he h => ⟨h.1.1.leaves h.1.2,he⟩) fun r => ?_
  · refine Ends.bind (Keeps.ends (step_ends hstart) fun _ _ h => h.1) fun _ => Ends.get_bind fun w hw => ?_
    refine Ends.bind (R := fun _ v => x.Reconciling w.compose.content v ∧
      v.writtenHashes = w₀.writtenHashes ∧ v.locals.backupHash = w₀.locals.backupHash) (assign_ends ?_)
      fun _ => Ends.pure fun _ h => ⟨_,rfl,h⟩
    rintro _ rfl
    obtain ⟨⟨⟨h,hr⟩,hc⟩,hs⟩ := hw
    exact ⟨⟨⟨h.congr rfl rfl rfl rfl rfl rfl,hr⟩,hc,[],_,rfl,by simp,rfl⟩,hs⟩
  cases r with
  | none => exact settle_ends _ fun w h => ⟨h.1.1.leaves h.1.2,h.2,h.1.1.rows_of_changed h.2⟩
  | some h =>
    refine Ends.exists_pre fun c => Ends.pre (O := fun w => x.sha256 c = h ∧ x.Reconciling c w ∧
      w.writtenHashes = w₀.writtenHashes ∧ w.locals.backupHash = w₀.locals.backupHash) ?_ fun _ h => h
    refine Ends.ite (fun hw => ?_) fun hw => Ends.ite (fun hb => ?_) fun hb => ?_
    · refine settle_ends _ ?_
      rintro w ⟨rfl,⟨⟨hc,hr⟩,hn,hread⟩,hs,-⟩
      rw [← hs] at hw
      exact ⟨hc.leaves hr,hn,⟨c,hread,(hc.wrote_iff hash).mp hw⟩,hc.rows_of_changed hn⟩
    · refine settle_ends _ ?_
      rintro w ⟨rfl,⟨⟨hc,hr⟩,hn,hread⟩,hs,hs'⟩
      rw [← hs] at hw
      rw [← hs'] at hb
      exact ⟨hc.leaves hr,hn,⟨c,hread,mt (hc.wrote_iff hash).mpr hw,mt (hc.saved_iff hash hn).mpr hb⟩,
        hc.rows_of_changed hn⟩
    · have hpre : ∀ w, (x.sha256 c = h ∧ x.Reconciling c w ∧ w.writtenHashes = w₀.writtenHashes ∧
          w.locals.backupHash = w₀.locals.backupHash) → x.Reconciling c w ∧
            lastRewrite w.compose.history ≠ some c ∧ savedIn w.compose.history = some c := by
        rintro w ⟨rfl,⟨⟨hc,hr⟩,hn,hread⟩,hs,hs'⟩
        rw [← hs] at hw
        rw [← hs',not_not] at hb
        exact ⟨⟨⟨hc,hr⟩,hn,hread⟩,mt (hc.wrote_iff hash).mpr hw,(hc.saved_iff hash hn).mp hb⟩
      have hst : Stable fun w : RetagWorld β Hash => x.Reconciling c w ∧
          lastRewrite w.compose.history ≠ some c ∧ savedIn w.compose.history = some c :=
        (Reconciling.stable c).and (Stable.of_edit (fun _ _ h => h) fun _ _ h => h)
      refine Ends.pre (Ends.except (F := fun _ w => x.Reconciling c w ∧
        lastRewrite w.compose.history ≠ some c ∧ savedIn w.compose.history = some c) ?_ (fun _ _ => ?_)
        fun e w he h => ⟨h.1.1.1.leaves h.1.1.2,he⟩) hpre
      · refine Ends.bind (step_ends hst) fun _ => Ends.bind (R := fun _ w => x.Leaves w ∧
          w.locals.knownImageChanges ≠ [] ∧ x.Settles w .reset) (assign_ends ?_) fun _ =>
            settle_ends _ fun _ h => h
        rintro w ⟨⟨⟨hc,hr⟩,hn,hread⟩,hl,hsv⟩
        refine ⟨hc.leaves hr,hn,⟨c,hread,hl,hsv⟩,?_⟩
        rcases hc.records with ⟨hk,-⟩ | ⟨hk,hi⟩
        · exact absurd hk hn
        · simp only [World.assign_locals,hk,hi]
          exact restore_recorded x.clock x.rows x.plan.stackUpdates
      · refine settle_ends _ ?_
        rintro w ⟨⟨⟨hc,hr⟩,hn,hread⟩,hl,hsv⟩
        exact ⟨hc.leaves hr,hn,⟨c,hread,hl,hsv⟩,hc.rows_of_changed hn⟩

theorem retagStackFailure_ends (hash : Function.Injective x.sha256) :
    Ends (fun w => x.Core w ∧ Recoverable w) (retagStackFailure x.sha256 x.plan)
      (fun _ _ => False) x.Fails := by
  refine Ends.get_bind fun w hw => Ends.ite (fun hn => Ends.throw ?_) fun hn => ?_
  · rintro _ rfl
    exact ⟨hw.1.leaves hw.2,fun _ => ⟨rfl,fun _ => hw.1.rows_of_unchanged hn,fun hc => absurd hn hc⟩⟩
  · refine Ends.bind (((reconcileRetagKnownImages_ends hash).mono (fun _ h => h) (fun _ _ h => h) ?_).start
      ⟨hw,hn⟩) fun _ => Ends.throw fun _ h => ⟨h.1,fun _ => ⟨rfl,h.2⟩⟩
    exact fun e w h => ⟨h.1,fun he => absurd (h.2.symm.trans he) (by simp)⟩

omit [DecidableEq Hash] in
theorem Inv.unrecorded {w : RetagWorld β Hash} (h : x.Inv w) (hl : lastRewrite w.compose.history = none) :
    x.Reported w := by
  have hn : w.locals.knownImageChanges = [] := by
    by_contra hn
    exact (h.traced hn).1 hl
  exact ⟨fun _ => h.rows_of_unchanged hn,fun hc => absurd hn hc⟩

omit [DecidableEq Hash] in
theorem forget_ends {P : RetagWorld β Hash → Prop} {E : Exn → RetagWorld β Hash → Prop}
    (h : ∀ w, P w → x.Core w ∧ Recoverable w) :
    Ends P (assign fun s => { s with backup := false } : Op β Hash Unit)
      (fun _ w => x.Core w ∧ Recoverable w) E :=
  assign_ends fun w hw => ⟨(h w hw).1.congr rfl rfl rfl rfl rfl rfl,(h w hw).2⟩

/-- The rollback always ends in a failure, which leaves the file recoverable and the records settled. -/
theorem rollBackAndFail_ends (hash : Function.Injective x.sha256) :
    Ends x.Inv (rollBackAndFail x.sha256 x.plan) (fun _ _ => False) x.Fails := by
  have hfail := retagStackFailure_ends hash
  have hinterrupt : ∀ (e : Exn) w, Exn.isException e = false → x.Inv w → x.Fails e w := fun e w he h =>
    ⟨h.toCore.leaves h.recoverable,fun ht => absurd (he.symm.trans ht) (by simp)⟩
  refine Ends.get_bind fun w hw => Ends.ite (fun hb => ?_) fun _ => ?_
  · cases hl : w.writtenHashes.getLast? with
    | some h =>
      refine Ends.start (P := fun w => x.Inv w ∧ w.locals.backup = true) ?_ ⟨hw,hb⟩
      refine Ends.bind (R := fun _ w => x.Core w ∧ Recoverable w) (Ends.except (F := fun _ => x.Inv)
        ((restoreRetagCompose_ends h).mono (fun _ h => h) (fun _ w h => ⟨h.1,fun _ => .inr h.2⟩) fun _ _ h => h)
        (fun _ _ => ?_) hinterrupt) fun _ => Ends.bind (forget_ends fun _ h => h) fun _ => hfail
      exact hfail.mono (fun w h => ⟨h.toCore,h.recoverable⟩) (fun _ _ h => h.elim) fun _ _ h => h
    | none =>
      have hnone : lastRewrite w.compose.history = none := by
        have := hw.hashes
        rw [hl] at this
        cases hr : lastRewrite w.compose.history with
        | none => rfl
        | some a => simp [hr] at this
      have hs : Stable fun w : RetagWorld β Hash => x.Inv w ∧ lastRewrite w.compose.history = none :=
        Inv.stable.and (Stable.of_edit (fun _ _ h => h) fun _ _ h => h)
      refine Ends.start (P := fun w => x.Inv w ∧ lastRewrite w.compose.history = none) ?_ ⟨hw,hnone⟩
      refine Ends.bind (R := fun _ w => x.Core w ∧ Recoverable w) (Ends.except
        (F := fun _ w => x.Inv w ∧ lastRewrite w.compose.history = none)
        (Ends.bind (step_ends hs) fun _ => Ends.modify ?_) (fun _ _ => Ends.throw fun w h => ?_)
        fun e w he h => hinterrupt e w he h.1) fun _ => Ends.bind (forget_ends fun _ h => h) fun _ => hfail
      · rintro w ⟨h,hn⟩
        exact ⟨⟨fun b a hm => h.approved b a (by simpa using hm),h.hashes,h.hashed,h.records,h.traced,h.done⟩,
          fun hr => absurd hn hr⟩
      · exact ⟨h.1.toCore.leaves h.1.recoverable,fun _ => ⟨rfl,h.1.unrecorded h.2⟩⟩
  · exact hfail.start ⟨hw.toCore,hw.recoverable⟩

/-- A whole apply of one stack. -/
theorem applyRetagStack_ends (hash : Function.Injective x.sha256) (render : Renderers β) :
    Ends x.Begun (applyRetagStack x.sha256 render x.clock x.plan)
      (fun _ w => x.RewritesApproved w ∧ w.locals.successfulUpdates = x.done ++ x.plan.stackUpdates) x.Fails := by
  refine Ends.except (applySteps_ends render) (fun _ _ => ?_) fun e w he h => ?_
  · exact (rollBackAndFail_ends hash).mono (fun _ h => h) (fun _ _ h => h.elim) fun _ _ h => h
  · exact ⟨h.toCore.leaves h.recoverable,fun ht => absurd (he.symm.trans ht) (by simp)⟩

/-- The world when the apply begins. -/
def atStart (x : Setting β Hash) (content : β) (schedule : List (Choice β)) : RetagWorld β Hash :=
  { compose := { initial := content }, schedule,
    locals := { knownImages := x.rows, successfulUpdates := x.done } }

omit [DecidableEq Hash] in
theorem atStart_begun (content : β) (schedule : List (Choice β)) : x.Begun (x.atStart content schedule) :=
  ⟨⟨⟨⟨by simp [RewritesApproved,atStart],rfl,.inl rfl,.inl ⟨rfl,rfl⟩,fun h => absurd rfl h,rfl⟩,
    fun h => absurd h (by simp [atStart]),fun _ => rfl⟩,rfl,rfl⟩,rfl,rfl⟩

/-- Atomicity of one retag, whatever the outside answers and whenever it edits the Compose file: the
file is rewritten only where it holds the approved content; a failure after a rewrite leaves the
backup, or the old content put back; the records match what the failed apply last read from the file;
and the updates count as successful exactly when the apply returns. -/
theorem applyRetagStack_atomic (x : Setting β Hash) (hash : Function.Injective x.sha256)
    (render : Renderers β) (content : β) (schedule : List (Choice β)) :
    let (r,w) := exec (applyRetagStack x.sha256 render x.clock x.plan) (x.atStart content schedule)
    (∀ before after, .rewrote before after ∈ w.compose.history →
        x.plan.approvedSourceHash = some (x.sha256 before)) ∧
      (∀ e, r = .error e → lastRewrite w.compose.history ≠ none → w.compose.Recoverable) ∧
      (∀ e, r = .error e → e.isException = true → e = .retagApplyFailed ∧
        (w.locals.knownImageChanges = [] → w.locals.knownImages = x.rows) ∧
        (w.locals.knownImageChanges ≠ [] → ∃ o, w.locals.outcome = some o ∧ x.Settles w o)) ∧
      (r = .ok () → w.locals.successfulUpdates = x.done ++ x.plan.stackUpdates) ∧
      (∀ e, r = .error e → w.locals.successfulUpdates = x.done) := by
  have h := applyRetagStack_ends hash render (x.atStart content schedule) (atStart_begun content schedule)
  cases hx : exec (applyRetagStack x.sha256 render x.clock x.plan) (x.atStart content schedule) with
  | mk r w =>
    rw [hx] at h
    cases r with
    | ok u => exact ⟨h.1,by simp,by simp,fun _ => h.2,by simp⟩
    | error e =>
      obtain ⟨⟨ha,hr,hd⟩,hc⟩ := h
      refine ⟨ha,fun _ _ hl => recoverable (hr hl),?_,by simp,fun _ _ => hd⟩
      rintro _ ⟨⟩ he
      exact hc he

end Setting

/-- A retag of one service, over renderers that write the next number. -/
def oneRetag : RetagPlanUpdate where
  targetId := ['t']
  serviceKey := ['k']
  update := ⟨"app:1".toList,['2'],"app:2".toList,['d'],"app:2".toList,['2'],[],[],[],[['s']]⟩
  allowStart := true

def nextRetag : Renderers ℕ where
  tags _ n := .ok (some (n+1),[])
  digestPins _ n := .ok (n+1,[])
  retags updates n := .ok (n+1,updates.map fun u => { u with replacements := 1 })
  digestUnpins _ n := .ok (n+1,[])

def oneSetting : Setting ℕ ℕ where
  sha256 := id
  clock _ := ['n']
  plan := { stackUpdates := [oneRetag], approvedSourceHash := some 0 }
  rows _ := none
  done := []

/-- The backup cannot be removed once the records are written; an edit may come after the rolled
back file was read again. -/
def stuckBackup (edit : Option ℕ) : List (Choice ℕ) :=
  List.replicate 19 ({} : Choice ℕ) ++ ({ raise := some .osError } : Choice ℕ) ::
    (List.replicate 7 ({} : Choice ℕ) ++ [({ edit } : Choice ℕ)])

theorem stuckBackup_settles :
    let (_,w) := exec (applyRetagStack id nextRetag oneSetting.clock oneSetting.plan)
      (oneSetting.atStart 0 (stuckBackup none))
    ∃ o, w.locals.outcome = some o ∧ oneSetting.Settles w o :=
  ((Setting.applyRetagStack_atomic oneSetting Function.injective_id nextRetag 0
    (stuckBackup none)).2.2.1 .retagApplyFailed rfl rfl).2.2 (by decide)

/-- An edit that writes the retagged content again after the reconcile read the restored file: the
records are reset, the backup is gone, and the file declares the retagged images. -/
theorem late_edit_after_reconcile :
    let (r,w) := exec (applyRetagStack id nextRetag oneSetting.clock oneSetting.plan)
      (oneSetting.atStart 0 (stuckBackup (some 1)))
    r.isOk = false ∧ lastRewrite w.compose.history = some 1 ∧ savedIn w.compose.history = some 0 ∧
      w.compose.content = 1 ∧ w.compose.backup = none ∧ w.locals.knownImageChanges ≠ [] ∧
      w.locals.knownImages ['k'] = none := by decide

end RetagApply
end Wudup
