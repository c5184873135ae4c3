import Wudup.StackUpdate

/-! Rollback safety of a stack update: whatever the outside does, the update replaces only Compose
content it knows, and it ends with the backup in place or the old content put back. -/
namespace Wudup
open Library Library.Program Library.Versioned

namespace StackUpdate
variable {β Hash : Type} (sha256 : β → Hash)

abbrev UpdateWorld (β Hash : Type) := World β Hash StackUpdateState

/-- What holds at every point of a stack update. -/
structure Inv (w : UpdateWorld β Hash) : Prop where
  own : RewritesOwn w.compose.history
  hashes : w.writtenHashes.getLast? = (lastRewrite w.compose.history).map sha256
  kept : w.locals.composeBackup = true → ∃ c, w.compose.backup = some c
  unheld : w.locals.composeBackup = false → lastRewrite w.compose.history = none
  putBack : w.locals.composeRestored = true → PutBack w.compose.history

/-- What holds while the update goes on: nothing was put back, and a rewrite left its mark. -/
structure Ongoing (w : UpdateWorld β Hash) : Prop extends Inv sha256 w where
  unrestored : w.locals.composeRestored = false
  marked : lastRewrite w.compose.history ≠ none → applied w.locals = true

/-- An update that ends in success was verified, or never rewrote the Compose file. -/
def Settled (st : StackStatus) (w : UpdateWorld β Hash) : Prop :=
  Inv sha256 w ∧ (st.status = .success → w.locals.healthVerified = true ∨
    lastRewrite w.compose.history = none)

/-- What is left behind by an update that ended in success or not. -/
def Left (success : Prop) (w : UpdateWorld β Hash) : Prop :=
  RewritesOwn w.compose.history ∧ (lastRewrite w.compose.history ≠ none → ¬success →
    w.locals.healthVerified = false → w.compose.backup ≠ none ∨ PutBack w.compose.history)

/-- While the update goes on, apart from the mark its last rewrite leaves. -/
def Rewriting (w : UpdateWorld β Hash) : Prop :=
  Inv sha256 w ∧ w.locals.composeRestored = false ∧ w.locals.composeBackup = true

variable {sha256}

theorem Inv.congr {w v : UpdateWorld β Hash} (h : Inv sha256 w) (hc : v.compose = w.compose)
    (hw : v.writtenHashes = w.writtenHashes) (hb : v.locals.composeBackup = w.locals.composeBackup)
    (hr : v.locals.composeRestored = w.locals.composeRestored) : Inv sha256 v where
  own := by rw [hc]; exact h.own
  hashes := by rw [hc,hw]; exact h.hashes
  kept := by rw [hc,hb]; exact h.kept
  unheld := by rw [hc,hb]; exact h.unheld
  putBack := by rw [hc,hr]; exact h.putBack

theorem Inv.edited {w : UpdateWorld β Hash} (h : Inv sha256 w) (c : β) :
    Inv sha256 (w.record (.edited c)) where
  own := h.own
  hashes := h.hashes
  kept := h.kept
  unheld := h.unheld
  putBack := h.putBack

theorem Inv.stable : Stable (Inv sha256 : UpdateWorld β Hash → Prop) :=
  Stable.of_edit (fun _ _ h => h.congr rfl rfl rfl rfl) fun _ c h => h.edited c

theorem Ongoing.stable : Stable (Ongoing sha256 : UpdateWorld β Hash → Prop) :=
  Stable.of_edit (fun _ _ h => ⟨h.toInv.congr rfl rfl rfl rfl,h.unrestored,h.marked⟩)
    fun _ c h => ⟨h.toInv.edited c,h.unrestored,h.marked⟩

theorem Rewriting.stable : Stable (Rewriting sha256 : UpdateWorld β Hash → Prop) :=
  Inv.stable.and (Stable.of_edit (fun _ _ h => h) fun _ _ h => h)

theorem Settled.stable (st : StackStatus) : Stable (Settled sha256 st : UpdateWorld β Hash → Prop) :=
  Inv.stable.and (Stable.of_edit (fun _ _ h => h) fun _ _ h => h)

theorem Left.stable (p : Prop) : Stable (Left p : UpdateWorld β Hash → Prop) :=
  Stable.of_edit (fun _ _ h => h) fun _ _ h => h

/-- An update that still holds its backup leaves it, whatever happens next. -/
theorem Inv.left {w : UpdateWorld β Hash} (h : Inv sha256 w) (p : Prop) : Left p w := by
  refine ⟨h.own,fun hr _ _ => .inl ?_⟩
  cases hb : w.locals.composeBackup with
  | false => exact absurd (h.unheld hb) hr
  | true =>
    obtain ⟨c,hc⟩ := h.kept hb
    simp [hc]

theorem Inv.failed {w : UpdateWorld β Hash} (h : Inv sha256 w) (reason : String) :
    Settled sha256 ⟨.failure,reason⟩ w := ⟨h,by simp⟩

/-- Putting the backup back over the content written last keeps the invariant. -/
theorem Inv.restored {w : UpdateWorld β Hash} (hash : Function.Injective sha256) (h : Inv sha256 w)
    {c : β} (hb : w.compose.backup = some c) (hc : w.writtenHashes.getLast? = some (sha256 w.compose.content)) :
    Inv sha256 (w.record (.restored w.compose.content c)) where
  own := by
    refine ⟨.inr ?_,h.own⟩
    have hl := h.hashes
    rw [hc] at hl
    cases hr : lastRewrite w.compose.history with
    | none => simp [hr] at hl
    | some a =>
      have : sha256 w.compose.content = sha256 a := by simpa [hr] using hl
      rw [hash this]
  hashes := h.hashes
  kept := h.kept
  unheld := h.unheld
  putBack := fun _ => savedIn_of_backup hb

/-- The hash a rewrite expects: of the content written last, or else of the backup. -/
def Expects (sha256 : β → Hash) (h : Hash) (w : UpdateWorld β Hash) : Prop :=
  w.writtenHashes.getLast? = some h ∨ ∃ c, w.compose.backup = some c ∧ sha256 c = h

theorem Expects.stable (h : Hash) : Stable (Expects sha256 h : UpdateWorld β Hash → Prop) :=
  Stable.of_edit (fun _ _ h => h) fun _ _ h => h

/-- A rewrite over content with the expected hash keeps the invariant. -/
theorem Rewriting.replaced {w : UpdateWorld β Hash} (hash : Function.Injective sha256)
    (h : Rewriting sha256 w) (he : Expects sha256 (sha256 w.compose.content) w) (rendered : β) :
    Rewriting sha256 (replaced sha256 .rewrite rendered true w) := by
  obtain ⟨hi,hr,hb⟩ := h
  refine ⟨⟨⟨?_,hi.own⟩,?_,hi.kept,fun h => ?_,fun h => ?_⟩,hr,hb⟩
  · rcases he with he | ⟨c,hc,he⟩
    · have hl := hi.hashes
      rw [he] at hl
      cases hw : lastRewrite w.compose.history with
      | none => simp [hw] at hl
      | some a =>
        have : sha256 w.compose.content = sha256 a := by simpa [hw] using hl
        exact .inr (by rw [hash this])
    · exact .inl (by rw [← hash he]; exact savedIn_of_backup hc)
  · simp [Wudup.replaced,Writer.change,lastRewrite]
  · exact absurd (hb.symm.trans h) (by simp)
  · exact absurd (hr.symm.trans h) (by simp)

theorem recordFailure_keeps (phase reason : String) :
    Keeps (Inv sha256) (recordFailure phase reason : Op β Hash Unit) :=
  assign_ends fun _ h => h.congr rfl rfl rfl rfl

/-- The end of a failure path: the failure is recorded and returned. -/
theorem fail_ends {phase reason reason' : String} :
    Ends (Inv sha256) (do recordFailure phase reason; return ⟨.failure,reason'⟩ : Op β Hash StackStatus)
      (fun st => Settled sha256 st) (fun _ => Inv sha256) :=
  Ends.bind (recordFailure_keeps phase reason) fun _ => Ends.pure fun _ h => h.failed reason'

theorem restoreTagUpdateServices_keeps {P : UpdateWorld β Hash → Prop} (hP : Stable P)
    (plan : StackUpdatePlan) : Keeps P (restoreTagUpdateServices plan) := by
  refine Keeps.bind (Keeps.ite Keeps.pure (runComposeUpNoStart_keeps hP)) fun _ => ?_
  refine Keeps.bind (Keeps.ite Keeps.pure (runComposeUp_keeps hP _)) fun _ => ?_
  refine Keeps.bind (Keeps.ite (verifyServicesStopped_keeps hP) Keeps.pure) fun _ => ?_
  exact Keeps.ite (waitForHealth_keeps hP) Keeps.pure

theorem progress_inv : Keeps (Inv sha256) (progress : Op β Hash Unit) :=
  progress_keeps Inv.stable

section
variable [DecidableEq Hash] (hash : Function.Injective sha256)
include hash

/-- Restoring the backup over the written version keeps the invariant and puts the content back. -/
theorem restoreBackup_ends (h : Hash) :
    Ends (fun w => Inv sha256 w ∧ w.writtenHashes.getLast? = some h)
      (restoreComposeBackup (S := StackUpdateState) sha256 h)
      (fun _ w => Inv sha256 w ∧ PutBack w.compose.history) (fun _ => Inv sha256) := by
  have hs : Stable fun w : UpdateWorld β Hash => w.writtenHashes.getLast? = some h :=
    Stable.of_edit (fun _ _ h => h) fun _ _ h => h
  have hq : Stable fun w : UpdateWorld β Hash => PutBack w.compose.history :=
    Stable.of_edit (fun _ _ h => h) fun _ _ h => h
  refine (restoreComposeBackup_ends (Inv.stable.and hs) (Inv.stable.and hq) ?_).mono (fun _ h => h)
    (fun _ _ h => h) fun _ _ h => h.elim (·.1) (·.1)
  rintro w c ⟨hi,hw⟩ hb hc
  exact ⟨hi.restored hash hb (hc ▸ hw),savedIn_of_backup hb⟩

theorem restore_keeps (h : Hash) :
    Ends (fun w => Inv sha256 w ∧ w.writtenHashes.getLast? = some h)
      (do let synced ← restoreComposeBackup (S := StackUpdateState) sha256 h
          assign fun s => { s with composeRestored := synced })
      (fun _ => Inv sha256) (fun _ => Inv sha256) :=
  Ends.bind (restoreBackup_ends hash h) fun _ =>
    assign_ends fun _ h => ⟨h.1.own,h.1.hashes,h.1.kept,h.1.unheld,fun _ => h.2⟩

theorem restoreWritten_keeps : Keeps (Inv sha256) (restoreWritten sha256) := by
  refine Ends.get_bind fun w hw => ?_
  cases hl : w.writtenHashes.getLast? with
  | none => exact Ends.pure (by rintro _ rfl; exact hw)
  | some h => exact (restore_keeps hash h).start ⟨hw,hl⟩

theorem handleTagUpdateFailure_ends (plan : StackUpdatePlan) (reason phase : String) :
    Ends (Inv sha256) (handleTagUpdateFailure sha256 plan reason phase) (fun st => Settled sha256 st)
      (fun _ => Inv sha256) := by
  refine Ends.bind progress_inv fun _ => Ends.bind (R := fun _ => Inv sha256) ?_ fun _ => ?_
  · refine Keeps.except (Keeps.bind (restoreWritten_keeps hash) fun _ => ?_) fun _ => progress_inv
    exact Keeps.bind (restoreTagUpdateServices_keeps Inv.stable plan) fun _ => progress_inv
  · refine Ends.bind (recordFailure_keeps phase reason) fun _ => ?_
    refine Ends.bind (Keeps.except progress_inv fun _ => progress_inv) fun _ => ?_
    exact Ends.pure fun _ h => h.failed reason

theorem handleComposeRewriteFailure_ends (plan : StackUpdatePlan) (reason phase : String) :
    Ends (Inv sha256) (handleComposeRewriteFailure sha256 plan reason phase) (fun st => Settled sha256 st)
      (fun _ => Inv sha256) := by
  refine Ends.get_bind fun w hw => Ends.ite (fun _ => ?_) fun _ => ?_
  · exact (handleTagUpdateFailure_ends hash plan reason phase).start hw
  · exact Ends.pure (by rintro _ rfl; exact hw.failed reason)

theorem failUpdate_ends (plan : StackUpdatePlan) (reason phase : String) :
    Ends (Inv sha256) (failUpdate sha256 plan reason phase) (fun st => Settled sha256 st)
      (fun _ => Inv sha256) := by
  refine Ends.get_bind fun w hw => Ends.ite (fun _ => ?_) fun _ => ?_
  · exact (handleComposeRewriteFailure_ends hash plan reason phase).start hw
  · exact (Ends.bind progress_inv fun _ => fail_ends).start hw

theorem failTagRewrite_ends (plan : StackUpdatePlan) :
    Ends (Inv sha256) (failTagRewrite sha256 plan) (fun st => Settled sha256 st) (fun _ => Inv sha256) := by
  refine Ends.bind progress_inv fun _ => Ends.get_bind fun w hw => Ends.ite (fun _ => ?_) fun _ => ?_
  · exact (handleComposeRewriteFailure_ends hash plan _ _).start hw
  · exact fail_ends.start hw

/-- The result of one step: a status that ends the update, or the update goes on. -/
def Stepped (sha256 : β → Hash) : Option StackStatus → UpdateWorld β Hash → Prop
  | none => Ongoing sha256
  | some st => Settled sha256 st

omit [DecidableEq Hash] hash in
/-- A step that ends the update ends it with what its failure path leaves. -/
theorem some_ends {x : Op β Hash StackStatus}
    (h : Ends (Inv sha256) x (fun st => Settled sha256 st) fun _ => Inv sha256) :
    Ends (Inv sha256) (do return some (← x)) (Stepped sha256) (fun _ => Inv sha256) :=
  Ends.bind h fun _ => Ends.pure fun _ h => h

theorem checkRewrite_ends {α : Type} (plan : StackUpdatePlan) (validate : List α → List (Str × Str) → Bool)
    (refreshReason refreshPhase validationReason validationPhase : String) (updates : List α) :
    Ends (Ongoing sha256) (checkRewrite sha256 plan validate refreshReason refreshPhase validationReason
      validationPhase updates) (Stepped sha256) (fun _ => Inv sha256) := by
  have hp : Keeps (Ongoing sha256) (progress : Op β Hash Unit) :=
    progress_keeps Ongoing.stable
  have hfail := fun reason phase => some_ends (handleComposeRewriteFailure_ends hash plan reason phase)
  refine Ends.bind (Keeps.ends hp fun _ _ h => h.toInv) fun _ => ?_
  refine Ends.bind (R := fun _ => Ongoing sha256) (Keeps.ends ?_ fun _ _ h => h.toInv) fun images => ?_
  · refine Keeps.except (Keeps.bind (step_ends Ongoing.stable) fun _ => Keeps.pure) fun _ => ?_
    exact Keeps.bind hp fun _ => Keeps.pure
  · cases images with
    | none => exact (hfail _ _).pre fun _ h => h.toInv
    | some images =>
      refine Ends.ite (fun _ => Ends.pure fun _ h => h) fun _ => ?_
      exact (hfail _ _).pre fun _ h => h.toInv

omit [DecidableEq Hash] hash in
/-- Before the first rewrite the Compose file is backed up. -/
theorem backupCompose_ends :
    Ends (fun w => Ongoing sha256 w ∧ w.locals.composeBackup = false) (backupCompose : Op β Hash Unit)
      (fun _ w => (Inv sha256 w ∧ w.locals.composeRestored = false) ∧ ∃ c, w.compose.backup = some c)
      (fun _ => Inv sha256) := by
  have hb : Stable fun w : UpdateWorld β Hash => w.locals.composeBackup = false :=
    Stable.of_edit (fun _ _ h => h) fun _ _ h => h
  have hr : Stable fun w : UpdateWorld β Hash => w.locals.composeRestored = false :=
    Stable.of_edit (fun _ _ h => h) fun _ _ h => h
  have hs : Stable fun w : UpdateWorld β Hash => ∃ c, w.compose.backup = some c :=
    Stable.of_edit (fun _ _ h => h) fun _ _ h => h
  refine Ends.bind (Keeps.ends (step_ends (Ongoing.stable.and hb)) fun _ _ h => h.1.toInv) fun _ => ?_
  refine Ends.bind (R := fun _ w => (Inv sha256 w ∧ w.locals.composeRestored = false) ∧
    (∃ c, w.compose.backup = some c) ∧ w.locals.composeBackup = false) (Ends.modify ?_) fun _ => ?_
  · rintro w ⟨h,hb⟩
    refine ⟨⟨⟨h.own,h.hashes,fun hk => ?_,h.unheld,fun hp => ?_⟩,h.unrestored⟩,⟨_,rfl⟩,hb⟩
    · exact absurd (hb.symm.trans hk) (by simp)
    · exact absurd (h.unrestored.symm.trans hp) (by simp)
  · have hi : Stable (Inv sha256 : UpdateWorld β Hash → Prop) := Inv.stable
    have hk := (hi.and hr).and (hs.and hb)
    refine Ends.except ((Keeps.bind (step_ends hk) fun _ => Keeps.pure).mono (fun _ h => h)
      (fun _ _ h => ⟨h.1,h.2.1⟩) fun _ _ h => h) (fun e _ => ?_) fun _ _ _ h => h.1.1
    refine Ends.bind (R := fun _ => Inv sha256) (Ends.modify ?_) fun _ => Ends.throw fun _ h => h
    rintro w ⟨⟨h,hr⟩,-,hb⟩
    refine ⟨h.own,h.hashes,fun hk => ?_,h.unheld,fun hp => ?_⟩
    · exact absurd (hb.symm.trans hk) (by simp)
    · exact absurd (hr.symm.trans hp) (by simp)

omit [DecidableEq Hash] hash in
theorem ensureComposeBackup_ends :
    Ends (Ongoing sha256) (ensureComposeBackup : Op β Hash (Option StackStatus))
      (fun r => r.elim (Rewriting sha256) (Settled sha256)) (fun _ => Inv sha256) := by
  refine Ends.get_bind fun w hw => Ends.ite (fun hb => ?_) fun hb => ?_
  · exact Ends.pure (by rintro _ rfl; exact ⟨hw.toInv,hw.unrestored,hb⟩)
  · refine Ends.except (F := fun _ => Inv sha256) ?_ (fun _ _ => ?_) fun _ _ _ h => h
    · have hu : w.locals.composeBackup = false := by simpa using hb
      refine Ends.bind (backupCompose_ends.start ⟨hw,hu⟩) fun _ => ?_
      refine Ends.bind (R := fun _ => Rewriting sha256) (assign_ends ?_) fun _ => Ends.pure fun _ h => h
      rintro v ⟨⟨h,hr⟩,hc⟩
      refine ⟨⟨h.own,h.hashes,fun _ => hc,fun hk => ?_,h.putBack⟩,hr,rfl⟩
      exact absurd hk (by simp)
    · exact Ends.bind progress_inv fun _ => Ends.bind (recordFailure_keeps _ _) fun _ =>
        Ends.pure fun _ h => h.failed _

omit [DecidableEq Hash] hash in
theorem expectedComposeHash_ends :
    Ends (Rewriting sha256) (expectedComposeHash sha256)
      (fun h w => Rewriting sha256 w ∧ Expects sha256 h w) (fun _ => Inv sha256) := by
  refine Ends.get_bind fun w hw => ?_
  cases hl : w.writtenHashes.getLast? with
  | some h => exact Ends.pure (by rintro _ rfl; exact ⟨hw,.inl hl⟩)
  | none =>
    refine Ends.start (P := Rewriting sha256) ?_ hw
    refine Ends.bind (Keeps.ends (step_ends Rewriting.stable) fun _ _ h => h.1) fun _ => ?_
    refine Ends.get_bind fun v hv => ?_
    cases hc : v.compose.backup with
    | none => exact Ends.throw (by rintro _ rfl; exact hv.1)
    | some c => exact Ends.pure (by rintro _ rfl; exact ⟨hv,.inr ⟨c,hc,rfl⟩⟩)

/-- A rewrite over the expected content keeps what holds while rewriting, however it ends. -/
theorem applyRendered_rewriting {α : Type} (render : β → Except Exn (Option β × List α)) (h : Hash) :
    Ends (fun w => Rewriting sha256 w ∧ Expects sha256 h w) (applyRendered sha256 render h)
      (fun _ => Rewriting sha256) (fun _ => Rewriting sha256) := by
  refine (applyRendered_ends (Rewriting.stable.and (Expects.stable h)) Rewriting.stable ?_).mono
    (fun _ h => h) (fun _ _ h => h.elim (·.1) fun h => h) fun _ _ h => h.elim (·.1) fun h => h
  rintro w rendered ⟨hw,he⟩ hc
  exact hw.replaced hash (hc ▸ he) rendered

/-- The outcome of a rewrite: raised, or done with a mark where anything was applied. -/
def Rewritten {α : Type} (sha256 : β → Hash) : Option (List α) → UpdateWorld β Hash → Prop
  | none => Inv sha256
  | some updates => fun w => Rewriting sha256 w ∧ (updates ≠ [] → applied w.locals = true)

omit [DecidableEq Hash] hash in
/-- A rewrite whose result is stored in the update's state, with its errors turned into `none`. -/
theorem rewrite_ends {α : Type} {apply : Hash → Op β Hash (List α)}
    {store : List α → StackUpdateState → StackUpdateState}
    (ha : ∀ h, Ends (fun w => Rewriting sha256 w ∧ Expects sha256 h w) (apply h)
      (fun _ => Rewriting sha256) (fun _ => Rewriting sha256))
    (hb : ∀ us s, (store us s).composeBackup = s.composeBackup)
    (hr : ∀ us s, (store us s).composeRestored = s.composeRestored)
    (hm : ∀ us s, us ≠ [] → applied (store us s) = true) :
    Ends (Rewriting sha256) (except (do
      let h ← expectedComposeHash sha256
      let updates ← apply h
      assign (store updates)
      return some updates) Exn.isRewriteOrOsError fun _ => return none)
      (Rewritten sha256) (fun _ => Inv sha256) := by
  refine Ends.except (F := fun _ => Inv sha256) ?_ (fun _ _ => Ends.pure fun _ h => h) fun _ _ _ h => h
  refine Ends.bind expectedComposeHash_ends fun h => ?_
  refine Ends.bind ((ha h).mono (fun _ h => h) (fun _ _ h => h) fun _ _ h => h.1) fun updates => ?_
  refine Ends.bind (R := fun _ => Rewritten sha256 (some updates)) (assign_ends ?_)
    fun _ => Ends.pure fun _ h => h
  rintro w ⟨h,hres,hback⟩
  exact ⟨⟨h.congr rfl rfl (hb _ _) (hr _ _),(hr _ _).trans hres,(hb _ _).trans hback⟩,hm updates _⟩

omit [DecidableEq Hash] hash in
theorem Rewriting.ongoing {w : UpdateWorld β Hash} (h : Rewriting sha256 w)
    (hm : applied w.locals = true) : Ongoing sha256 w := ⟨h.1,h.2.1,fun _ => hm⟩

omit hash in
theorem applied_tags (us : List AppliedTagUpdate) (s : StackUpdateState) (h : us ≠ []) :
    applied { s with appliedTags := us } = true := by simp [applied,h]

theorem applyComposeTagUpdatesStep_ends (render : Renderers β) (plan : StackUpdatePlan) :
    Ends (Ongoing sha256) (applyComposeTagUpdatesStep sha256 render plan) (Stepped sha256)
      (fun _ => Inv sha256) := by
  refine Ends.ite (fun _ => Ends.pure fun _ h => h) fun _ => ?_
  refine Ends.bind (Keeps.ends (progress_keeps Ongoing.stable) fun _ _ h => h.toInv) fun _ => ?_
  refine Ends.bind ensureComposeBackup_ends fun r => ?_
  cases r with
  | some status => exact Ends.pure fun _ h => h
  | none =>
    refine Ends.bind (rewrite_ends (fun h => ?_) (fun _ _ => rfl) (fun _ _ => rfl)
      fun us s hu => applied_tags us s hu) fun r => ?_
    · refine Ends.ite (fun _ => Ends.pure fun _ h => h.1) fun _ => applyRendered_rewriting hash _ h
    · cases r with
      | none => exact some_ends (failTagRewrite_ends hash plan)
      | some updates =>
        refine Ends.ite (fun _ => ?_) fun hu => ?_
        · refine Ends.pre (O := Inv sha256) (Ends.bind progress_inv fun _ => ?_) fun _ h => h.1.1
          exact some_ends fail_ends
        · exact (checkRewrite_ends hash plan _ _ _ _ _ updates).pre fun _ h => h.1.ongoing (h.2 hu)

theorem applyDigestRewrite_ends {α : Type} {plan : StackUpdatePlan} {name : String}
    {apply : Hash → Op β Hash (List α)} {store : List α → StackUpdateState → StackUpdateState}
    {validate : List α → List (Str × Str) → Bool}
    (ha : ∀ h, Ends (fun w => Rewriting sha256 w ∧ Expects sha256 h w) (apply h)
      (fun _ => Rewriting sha256) (fun _ => Rewriting sha256))
    (hb : ∀ us s, (store us s).composeBackup = s.composeBackup)
    (hr : ∀ us s, (store us s).composeRestored = s.composeRestored)
    (hm : ∀ us s, us ≠ [] → applied (store us s) = true) :
    Ends (Ongoing sha256) (applyDigestRewrite sha256 plan name apply store validate) (Stepped sha256)
      (fun _ => Inv sha256) := by
  refine Ends.bind ensureComposeBackup_ends fun r => ?_
  cases r with
  | some status => exact Ends.pure fun _ h => h
  | none =>
    have hfail := some_ends (failUpdate_ends hash plan (name ++ "-failed") name)
    refine Ends.bind (rewrite_ends ha hb hr hm) fun r => ?_
    rcases r with _ | _ | ⟨u,us⟩
    · exact hfail
    · exact hfail.pre fun _ h => h.1.1
    · exact (checkRewrite_ends hash plan _ _ _ _ _ (u :: us)).pre fun _ h => h.1.ongoing (h.2 (by simp))

theorem applyComposeDigestPinUpdates_ends (render : Renderers β) (plan : StackUpdatePlan) :
    Ends (Ongoing sha256) (applyComposeDigestPinUpdates sha256 render plan) (Stepped sha256)
      (fun _ => Inv sha256) := by
  refine Ends.ite (fun _ => Ends.pure fun _ h => h) fun _ => Ends.bind
    (applyDigestRewrite_ends hash (applyRendered_rewriting hash _) (fun _ _ => rfl) (fun _ _ => rfl)
      fun us s hu => by simp [applied,hu]) fun r => ?_
  have hk : Keeps (Stepped sha256 r) (whenever r.isNone (progress : Op β Hash Unit)) := by
    cases r with
    | none => exact progress_keeps Ongoing.stable
    | some st => exact Keeps.pure
  refine Ends.bind (Keeps.ends hk fun _ _ h => ?_) fun _ => Ends.pure fun _ h => h
  cases r with
  | none => exact Ongoing.toInv h
  | some st => exact h.1

theorem applyComposeDigestUnpinUpdates_ends (render : Renderers β) (plan : StackUpdatePlan) :
    Ends (Ongoing sha256) (applyComposeDigestUnpinUpdates sha256 render plan) (Stepped sha256)
      (fun _ => Inv sha256) :=
  Ends.ite (fun _ => Ends.pure fun _ h => h) fun _ =>
    applyDigestRewrite_ends hash (applyRendered_rewriting hash _) (fun _ _ => rfl) (fun _ _ => rfl)
      fun us s hu => by simp [applied,hu]

theorem pullAndVerifyImages_ends (plan : StackUpdatePlan) :
    Ends (Ongoing sha256) (pullAndVerifyImages sha256 plan) (Stepped sha256) (fun _ => Inv sha256) := by
  have hp : Ends (Ongoing sha256) (progress : Op β Hash Unit) (fun _ => Ongoing sha256)
      fun _ => Inv sha256 := Keeps.ends (progress_keeps Ongoing.stable) fun _ _ h => h.toInv
  have hask : Ends (Ongoing sha256) (ask : Op β Hash Bool) (fun _ => Ongoing sha256)
      fun _ => Inv sha256 := Keeps.ends (ask_keeps Ongoing.stable) fun _ _ h => h.toInv
  have hfail := fun reason phase => (some_ends (failUpdate_ends hash plan reason phase)).pre
    fun _ (h : Ongoing sha256 _) => h.toInv
  refine Ends.bind hp fun _ => Ends.bind (Keeps.ends (command_ends Ongoing.stable) fun _ _ h => h.toInv)
    fun _ => Ends.ite (fun _ => hfail _ _) fun _ => Ends.bind hp fun _ => Ends.bind hask fun _ => ?_
  refine Ends.ite (fun _ => Ends.bind hask fun _ => hfail _ _) fun _ => ?_
  refine Ends.bind (Ends.ite (fun _ => Ends.pure fun _ h => h) fun _ => hask) fun _ => ?_
  exact Ends.ite (fun _ => Ends.pure fun _ h => h) fun _ => hfail _ _

omit [DecidableEq Hash] hash in
/-- Nothing is called current before its images were confirmed, and only when nothing was applied. -/
theorem finishPullPhase_ends (plan : StackUpdatePlan) :
    Ends (Ongoing sha256) (finishPullPhase plan) (Stepped sha256) (fun _ => Inv sha256) := by
  refine Ends.bind (Keeps.ends (progress_keeps Ongoing.stable) fun _ _ h => h.toInv) fun _ => ?_
  refine Ends.bind (Keeps.ends (ask_keeps Ongoing.stable) fun _ _ h => h.toInv) fun _ => ?_
  refine Ends.get_bind fun w hw => Ends.ite (fun _ => ?_) fun hn => ?_
  · exact Ends.pure (by rintro _ rfl; exact hw)
  have hun : lastRewrite w.compose.history = none := by
    by_contra hr
    have := hw.marked hr
    simp_all
  have hstable : Stable fun w : UpdateWorld β Hash => Ongoing sha256 w ∧
      lastRewrite w.compose.history = none :=
    Ongoing.stable.and (Stable.of_edit (fun _ _ h => h) fun _ _ h => h)
  have hask := Keeps.ends (ask_keeps hstable) (E := fun _ => Inv sha256) fun _ _ h => h.1.toInv
  have hp := Keeps.ends (progress_keeps hstable) (E := fun _ => Inv sha256) fun _ _ h => h.1.toInv
  refine Ends.start (P := fun w => Ongoing sha256 w ∧ lastRewrite w.compose.history = none) ?_ ⟨hw,hun⟩
  refine Ends.bind (R := fun r w => match r with
    | .inl _ => Ongoing sha256 w ∧ lastRewrite w.compose.history = none
    | .inr st => Settled sha256 st w) (Ends.ite (fun _ => Ends.pure fun _ h => h) fun _ => ?_) fun r => ?_
  · refine Ends.bind hask fun _ => Ends.ite (fun _ => Ends.bind hask fun _ => Ends.pure fun _ h => h) ?_
    intro _
    refine Ends.pre (O := Inv sha256) (Ends.bind (recordFailure_keeps _ _) fun _ => ?_) fun _ h => h.1.toInv
    exact Ends.bind progress_inv fun _ => Ends.pure fun _ h => h.failed _
  · rcases r with (_ | _) | st
    · exact Ends.bind hp fun _ => Ends.pure fun _ h => ⟨h.1.toInv,fun _ => .inr h.2⟩
    · exact Ends.pure fun _ h => h.1
    · exact Ends.pure fun _ h => h

/-- Once containers are recreated, the only success is one that was verified. -/
abbrev Finishes (sha256 : β → Hash) (x : Op β Hash StackStatus) : Prop :=
  Ends (Inv sha256) x (fun st => Settled sha256 st) (fun _ => Inv sha256)

theorem unpauseAfterRecreate_ends (plan : StackUpdatePlan) (up : UpResult) :
    Ends (Inv sha256) (unpauseAfterRecreate sha256 plan up)
      (fun r => r.elim (fun _ => Inv sha256) (Settled sha256)) (fun _ => Inv sha256) := by
  refine Ends.ite (fun _ => Ends.pure fun _ h => h) fun _ => Ends.bind progress_inv fun _ => ?_
  refine Ends.bind (command_ends Inv.stable) fun _ => Ends.ite (fun _ => Ends.pure fun _ h => h) fun _ => ?_
  exact Ends.bind (failUpdate_ends hash plan _ _) fun _ => Ends.pure fun _ h => h

omit [DecidableEq Hash] hash in
theorem restartServicesStoppedForUpdate_keeps (plan : StackUpdatePlan) :
    Keeps (Inv sha256) (restartServicesStoppedForUpdate plan : Op β Hash Unit) :=
  whenever_keeps (Keeps.bind (command_ends Inv.stable) fun _ => progress_inv)

theorem failRecreate_ends (plan : StackUpdatePlan) (stop : StopResult) (restart : Bool) :
    Finishes sha256 (failRecreate sha256 plan stop restart) := by
  refine Ends.get_bind fun w hw => Ends.ite (fun _ => ?_) fun _ => ?_
  · refine Ends.start (Ends.ite (fun _ => ?_) fun _ => ?_) hw <;>
      exact handleComposeRewriteFailure_ends hash plan _ _
  · refine Ends.start (P := Inv sha256) ?_ hw
    refine Ends.bind (whenever_keeps (restartServicesStoppedForUpdate_keeps plan)) fun _ => ?_
    refine Ends.bind (whenever_keeps (Keeps.bind progress_inv fun _ => recordFailure_keeps _ _)) fun _ => ?_
    refine Ends.bind (recordFailure_keeps _ _) fun _ => Ends.bind progress_inv fun _ => ?_
    exact Ends.pure fun _ h => h.failed _

theorem handleComposeUpFailure_ends (plan : StackUpdatePlan) (stop : StopResult) (up : UpResult)
    (prepared restartStopped : Bool) :
    Finishes sha256 (handleComposeUpFailure sha256 plan stop up prepared restartStopped) := by
  refine Ends.bind (Ends.ite (fun _ => unpauseAfterRecreate_ends hash plan up) fun _ =>
    Ends.pure fun _ h => h) fun r => ?_
  cases r with
  | inl up => exact failRecreate_ends hash plan stop _
  | inr st => exact Ends.pure fun _ h => h

omit [DecidableEq Hash] hash in
theorem verified_ends :
    Finishes sha256 (do
      (assign fun s => { s with healthVerified := true } : Op β Hash Unit)
      progress
      return ⟨.success,"updated"⟩) := by
  have hs : Stable fun w : UpdateWorld β Hash => Inv sha256 w ∧ w.locals.healthVerified = true :=
    Inv.stable.and (Stable.of_edit (fun _ _ h => h) fun _ _ h => h)
  refine Ends.bind (R := fun _ w => Inv sha256 w ∧ w.locals.healthVerified = true) (assign_ends ?_) fun _ => ?_
  · exact fun _ h => ⟨h.congr rfl rfl rfl rfl,rfl⟩
  · refine Ends.bind (Keeps.ends (progress_keeps hs) fun _ _ h => h.1) fun _ => ?_
    exact Ends.pure fun _ h => ⟨h.1,fun _ => .inl h.2⟩

theorem finishHealthAfterRecreate_ends (plan : StackUpdatePlan) (stop : StopResult) (up : UpResult) :
    Finishes sha256 (finishHealthAfterRecreate sha256 plan stop up) := by
  refine Ends.ite (fun _ => Ends.bind progress_inv fun _ => verified_ends) fun _ => ?_
  refine Ends.bind (R := fun _ => Inv sha256) ?_ fun _ => Ends.ite (fun _ => ?_) fun _ => ?_
  · exact Keeps.ite (Keeps.bind progress_inv fun _ => Keeps.pure) (waitForHealth_keeps Inv.stable)
  · exact Ends.ite (fun _ => failUpdate_ends hash plan _ _) fun _ => verified_ends
  · exact Ends.bind progress_inv fun _ => failUpdate_ends hash plan _ _

theorem verifyAndFinish_ends (plan : StackUpdatePlan) (stop : StopResult) (up : UpResult) :
    Finishes sha256 (verifyAndFinish sha256 plan stop up) := by
  refine Ends.bind progress_inv fun _ => Ends.bind (unpauseAfterRecreate_ends hash plan up) fun r => ?_
  cases r with
  | inl up => exact finishHealthAfterRecreate_ends hash plan stop up
  | inr st => exact Ends.pure fun _ h => h

theorem verifyPreserved_ends (plan : StackUpdatePlan) (stop : StopResult) (up : UpResult) :
    Finishes sha256 (verifyPreserved sha256 plan stop up) := by
  refine Ends.ite (fun _ => verifyAndFinish_ends hash plan stop up) fun _ => ?_
  refine Ends.bind (verifyServicesStopped_keeps Inv.stable) fun preserved => Ends.ite (fun _ => ?_) fun _ => ?_
  · exact verifyAndFinish_ends hash plan stop up
  · exact handleComposeUpFailure_ends hash plan stop preserved true false

omit [DecidableEq Hash] hash in
theorem prepareForRecreate_keeps (plan : StackUpdatePlan) :
    Keeps (Inv sha256) (prepareForRecreate plan : Op β Hash StopResult) := by
  refine Keeps.ite Keeps.pure ?_
  cases plan.mode with
  | live => exact Keeps.pure
  | pause => exact Keeps.bind (command_ends Inv.stable) fun _ => Keeps.pure
  | stop => exact Keeps.bind (command_ends Inv.stable) fun _ => Keeps.pure

theorem recreateRunning_ends (plan : StackUpdatePlan) : Finishes sha256 (recreateRunning sha256 plan) := by
  refine Ends.bind (prepareForRecreate_keeps plan) fun stop => Ends.ite (fun _ => ?_) fun _ => ?_
  · exact verifyPreserved_ends hash plan stop _
  · refine Ends.bind (runComposeUp_keeps Inv.stable _) fun up => Ends.ite (fun _ => ?_) fun _ => ?_
    · exact verifyPreserved_ends hash plan stop up
    · exact handleComposeUpFailure_ends hash plan stop up true true

theorem recreateAndVerifyStack_ends (plan : StackUpdatePlan) :
    Finishes sha256 (recreateAndVerifyStack sha256 plan) := by
  refine Ends.bind progress_inv fun _ => Ends.ite (fun _ => recreateRunning_ends hash plan) fun _ => ?_
  refine Ends.bind (runComposeUpNoStart_keeps Inv.stable) fun up => Ends.ite (fun _ => ?_) fun _ => ?_
  · exact recreateRunning_ends hash plan
  · exact handleComposeUpFailure_ends hash plan {} up false true

omit [DecidableEq Hash] hash in
/-- Steps that each end the update or let it go on do so in sequence. -/
theorem firstStatus_ends {steps : List (Op β Hash (Option StackStatus))}
    (h : ∀ x ∈ steps, Ends (Ongoing sha256) x (Stepped sha256) fun _ => Inv sha256) :
    Ends (Ongoing sha256) (firstStatus steps) (Stepped sha256) (fun _ => Inv sha256) := by
  induction steps with
  | nil => exact Ends.pure fun _ h => h
  | cons x rest ih =>
    refine Ends.bind (h x (by simp)) fun r => ?_
    cases r with
    | some st => exact Ends.pure fun _ h => h
    | none => exact ih fun y hy => h y (by simp [hy])

theorem runStackUpdateSteps_ends (render : Renderers β) (plan : StackUpdatePlan) :
    Ends (Ongoing sha256) (runStackUpdateSteps sha256 render plan) (fun st => Settled sha256 st)
      (fun _ => Inv sha256) := by
  refine Ends.bind (firstStatus_ends fun x hx => ?_) fun r => ?_
  · simp only [stackUpdateSteps,List.mem_cons,List.not_mem_nil,or_false] at hx
    rcases hx with rfl | rfl | rfl | rfl | rfl
    · exact applyComposeTagUpdatesStep_ends hash render plan
    · exact applyComposeDigestUnpinUpdates_ends hash render plan
    · exact pullAndVerifyImages_ends hash plan
    · exact applyComposeDigestPinUpdates_ends hash render plan
    · exact finishPullPhase_ends plan
  · cases r with
    | some st => exact Ends.pure fun _ h => h
    | none => exact (recreateAndVerifyStack_ends hash plan).pre fun _ h => h.toInv

theorem restoreComposeAfterAbort_keeps :
    Keeps (Inv sha256) (restoreComposeAfterAbort sha256 : Op β Hash Unit) := by
  refine Ends.get_bind fun w hw => ?_
  cases hl : w.writtenHashes.getLast? with
  | none => exact Ends.pure (by rintro _ rfl; exact hw)
  | some h =>
    refine Ends.ite (fun _ => Ends.pure (by rintro _ rfl; exact hw)) fun _ => ?_
    refine Ends.start (P := fun w => Inv sha256 w ∧ w.writtenHashes.getLast? = some h) ?_ ⟨hw,hl⟩
    refine Ends.except (F := fun _ => Inv sha256) ?_ (fun _ _ => progress_inv) fun _ _ _ h => h
    refine Ends.bind (restoreBackup_ends hash h) fun _ => Ends.bind (R := fun _ => Inv sha256) ?_
      fun _ => progress_inv
    exact assign_ends fun _ h => ⟨h.1.own,h.1.hashes,h.1.kept,h.1.unheld,fun _ => h.2⟩

/-- No backup is needed: nothing was rewritten, the old content was put back, or the new one was
verified. -/
def Spare (w : UpdateWorld β Hash) : Prop :=
  lastRewrite w.compose.history = none ∨ PutBack w.compose.history ∨ w.locals.healthVerified = true

omit [DecidableEq Hash] hash in
theorem Spare.stable : Stable (Spare : UpdateWorld β Hash → Prop) :=
  Stable.of_edit (fun _ _ h => h) fun _ _ h => h

omit [DecidableEq Hash] hash in
theorem Spare.left {w : UpdateWorld β Hash} (h : Spare w) (ho : RewritesOwn w.compose.history) (p : Prop) :
    Left p w := by
  refine ⟨ho,fun hr _ hv => .inr ?_⟩
  rcases h with h | h | h
  · exact absurd h hr
  · exact h
  · exact absurd (hv.symm.trans h) (by simp)

omit [DecidableEq Hash] hash in
/-- Where the update does not keep its backup, it is not needed. -/
theorem Settled.spare {st : StackStatus} {w : UpdateWorld β Hash} (h : Settled sha256 st w)
    (hk : ¬(st.status ≠ .success ∧ w.writtenHashes ≠ [] ∧ !w.locals.composeRestored ∧
      !w.locals.healthVerified)) : Spare w := by
  obtain ⟨hi,hs⟩ := h
  by_cases hst : st.status = .success
  · rcases hs hst with hv | hn
    · exact .inr (.inr hv)
    · exact .inl hn
  by_cases hw : w.writtenHashes = []
  · have hh := hi.hashes
    cases hl : lastRewrite w.compose.history with
    | none => exact .inl hl
    | some a => simp [hw,hl] at hh
  cases hr : w.locals.composeRestored with
  | true => exact .inr (.inl (hi.putBack hr))
  | false => exact .inr (.inr (by simpa [hst,hw,hr] using hk))

omit [DecidableEq Hash] hash in
/-- The backup is removed only where it is not needed. -/
theorem discardComposeBackup_ends (st : StackStatus) :
    Ends (Settled sha256 st) (discardComposeBackup st : Op β Hash Unit)
      (fun _ => Left (st.status = .success)) (fun _ => Left False) := by
  refine Ends.get_bind fun w hw => Ends.ite (fun _ => ?_) fun _ => Ends.ite (fun _ => ?_) fun hk => ?_
  · exact Ends.pure (by rintro _ rfl; exact hw.1.left _)
  · exact (progress_inv.mono (fun _ h => h) (fun _ _ h => h.left _) fun _ _ h => h.left _).start hw.1
  · have hg : Stable fun w : UpdateWorld β Hash => Inv sha256 w ∧ Spare w := Inv.stable.and Spare.stable
    refine Ends.except (F := fun _ w => Inv sha256 w ∧ Spare w) ?_ (fun _ _ => ?_)
      fun _ _ _ h => h.1.left _
    · refine Ends.start (P := fun w => Inv sha256 w ∧ Spare w) ?_ ⟨hw.1,hw.spare hk⟩
      refine Ends.bind (R := fun _ w => RewritesOwn w.compose.history ∧ Spare w)
        (Ends.bind (step_ends hg) fun _ => Ends.modify fun _ h => ⟨h.1.own,h.2⟩) fun _ => ?_
      exact assign_ends fun w h => (h.2.left h.1 (st.status = .success) :)
    · exact (progress_keeps hg).mono (fun _ h => h) (fun _ _ h => h.1.left _) fun _ _ h => h.1.left _

/-- A whole update of a stack, however it ends. -/
theorem updateStack_ends (render : Renderers β) (built : Except StackStatus StackUpdatePlan) :
    Ends (fun w => Ongoing sha256 w ∧ lastRewrite w.compose.history = none)
      (updateStack sha256 render built) (fun st => Left (st.status = .success)) (fun _ => Left False) := by
  have hs : Stable fun w : UpdateWorld β Hash => Ongoing sha256 w ∧ lastRewrite w.compose.history = none :=
    Ongoing.stable.and (Stable.of_edit (fun _ _ h => h) fun _ _ h => h)
  refine Ends.bind (Keeps.ends (progress_keeps hs) fun _ _ h => h.1.left _) fun _ => ?_
  cases built with
  | error st => exact Ends.pure fun _ h => h.1.left _
  | ok plan =>
    refine Ends.bind (R := Settled sha256) (Ends.tryCatch (F := fun _ => Inv sha256)
      ((runStackUpdateSteps_ends hash render plan).pre fun _ h => h.1) fun e => ?_) fun st => ?_
    · refine Ends.bind (R := fun _ => Inv sha256) ?_ fun _ => Ends.bind (R := fun _ => Left False) ?_
        fun _ => Ends.throw fun _ h => h
      · exact (Ends.suppress (restoreComposeAfterAbort_keeps hash)).mono (fun _ h => h) (fun _ _ h => h)
          fun _ _ h => h.left _
      · refine Ends.suppress (((discardComposeBackup_ends _).pre fun w h => h.failed _).mono
          (fun _ h => h) (fun _ w h => ?_) fun _ _ h => h)
        exact ⟨h.1,fun hr _ => h.2 hr (by simp)⟩
    · exact Ends.bind (discardComposeBackup_ends st) fun _ => Ends.pure fun _ h => h

/-- The world when an update starts: a Compose file, no backup, and the outside's answers. -/
def atStart (content : β) (schedule : List (Choice β)) : UpdateWorld β Hash :=
  { compose := { initial := content }, schedule, locals := {} }

omit [DecidableEq Hash] hash in
theorem atStart_ongoing (content : β) (schedule : List (Choice β)) :
    Ongoing sha256 (atStart content schedule : UpdateWorld β Hash) where
  own := trivial
  hashes := rfl
  kept := fun h => absurd h (by simp [atStart])
  unheld := fun _ => rfl
  putBack := fun h => absurd h (by simp [atStart])
  unrestored := rfl
  marked := fun h => absurd rfl h

def endedInSuccess : Except Exn StackStatus → Bool
  | .ok st => st.status == .success
  | .error _ => false

/-- Compose rollback safety: whatever the outside answers and whenever it edits the Compose file,
the update replaces only content it backed up or left by its last rewrite; and where it rewrote the
file without ending in success or a verified recreate, its backup is still there, or its last
replacement put the backed-up content back and only edits from outside came after that. -/
theorem updateStack_keeps_backup_or_puts_it_back (render : Renderers β)
    (built : Except StackStatus StackUpdatePlan) (content : β) (schedule : List (Choice β)) :
    let (r,w) := exec (updateStack sha256 render built) (atStart content schedule)
    RewritesOwn w.compose.history ∧
      (lastRewrite w.compose.history ≠ none → endedInSuccess r = false →
        w.locals.healthVerified = false → w.compose.Recoverable) := by
  have h := updateStack_ends hash render built (atStart content schedule)
    ⟨atStart_ongoing content schedule,rfl⟩
  cases hx : exec (updateStack sha256 render built) (atStart content schedule) with
  | mk r w =>
    rw [hx] at h
    cases r with
    | error e => exact ⟨h.1,fun hr _ hv => recoverable (h.2 hr not_false hv)⟩
    | ok st => exact ⟨h.1,fun hr hn hv => recoverable (h.2 hr (by simpa [endedInSuccess] using hn) hv)⟩

end

/-- A plan with one tag update, over renderers that write the next number. -/
def onePlan : StackUpdatePlan := { composeTagUpdates := [⟨"app:1".toList,['2'],"app:2".toList,[]⟩] }

def nextNumber : Renderers ℕ where
  tags updates n := .ok (some (n+1),updates.map fun u => { u with replacements := 1 })
  digestPins _ n := .ok (n+1,[])
  retags _ n := .ok (n+1,[])
  digestUnpins _ n := .ok (n+1,[])

/-- The pull fails after the tag was rewritten; an edit may come once the old file is back. -/
def failedPull (edit : Option ℕ) : List (Choice ℕ) :=
  List.replicate 11 ({} : Choice ℕ) ++ ({ raise := some .commandError } : Choice ℕ) ::
    (List.replicate 4 ({} : Choice ℕ) ++ [({ edit } : Choice ℕ)])

theorem failedPull_puts_back :
    let (_,w) := exec (updateStack id nextNumber (.ok onePlan)) (atStart 0 (failedPull none))
    w.compose.Recoverable :=
  (updateStack_keeps_backup_or_puts_it_back Function.injective_id nextNumber (.ok onePlan) 0
    (failedPull none)).2 (by decide) (by decide) (by decide)

/-- An edit between the restore and the removal of the backup: the file holds the edit and the
backed-up content is gone. -/
theorem late_edit_loses_backup :
    let (r,w) := exec (updateStack id nextNumber (.ok onePlan)) (atStart 0 (failedPull (some 7)))
    r.toOption = some ⟨.failure,"pull-failed"⟩ ∧ lastRewrite w.compose.history = some 1 ∧
      w.locals.healthVerified = false ∧ savedIn w.compose.history = some 0 ∧
      w.compose.backup = none ∧ w.compose.content = 7 := by decide

end StackUpdate
end Wudup
