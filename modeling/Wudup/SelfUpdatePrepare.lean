import Wudup.ComposeRewrite
import Wudup.DigestPlans
import Wudup.StackServices

/-! Preparing the update of WUDup's own image: the Compose rewrites before an outside recreate, and
the restore when one of them fails. -/
namespace Wudup
open Library Library.Program Library.Versioned

/-- A digest pin of a plan. -/
structure PlannedDigestPin where
  sourceImage : Str
  resolvedTag : Str
  plannedDigest : Str
  services : List Str
  deriving DecidableEq, Repr

/-- One stack of the plan for a self-update. -/
structure SelfUpdateStack where
  services : List Str
  tagUpdates : List TagUpdate
  digestPinUpdates : List PlannedDigestPin := []
  deriving DecidableEq, Repr

structure SelfUpdatePlan where
  ready : Bool := true
  canApply : Bool := true
  planStacks : List SelfUpdateStack
  deriving DecidableEq, Repr

/-- The variables that decide the backup's fate. -/
structure PrepareState where
  restoreSucceeded : Bool := true
  /-- What the restore returned: the folder with the old file was synced. -/
  restoredOnDisk : Bool := false
  deriving DecidableEq, Repr

namespace SelfUpdatePrepare
variable {β Hash : Type} [DecidableEq Hash]

abbrev Op (β Hash : Type) := Operation β Hash PrepareState

/-- The one stack of a plan that can be prepared. -/
def validateSelfUpdatePreparePlan (plan : SelfUpdatePlan) : Option SelfUpdateStack :=
  if plan.ready && plan.canApply then
    match plan.planStacks with
    | [stack] => if stack.tagUpdates ≠ [] && stack.services ≠ [] then some stack else none
    | _ => none
  else none

def digestPinUpdates (stack : SelfUpdateStack) : List DigestPinUpdate :=
  stack.digestPinUpdates.map fun item =>
    digestPinUpdateFromValues item.sourceImage item.resolvedTag item.plannedDigest item.services

/-- Each target must resolve, to the planned digest, which must verify. -/
def verifySelfUpdateDigestPinUpdates : List DigestPinUpdate → Op β Hash Unit
  | [] => return ()
  | _ :: rest => do
    if !(← ask) then throw .runtimeError
    else if !(← ask) then throw .runtimeError
    else if !(← ask) then throw .runtimeError
    else verifySelfUpdateDigestPinUpdates rest

section
variable (sha256 : β → Hash) (render : Renderers β)

def pinDigests (updates : List DigestPinUpdate) : Op β Hash Unit :=
  if updates = [] then return ()
  else do
    verifySelfUpdateDigestPinUpdates updates
    match (← get).writtenHashes.getLast? with
    -- `written_hashes[-1]` of an empty list
    | none => throw .runtimeError
    | some h => do
      let applied ← applyComposeDigestPins sha256 render updates h
      if applied = [] then throw .runtimeError else return ()

/-- The tag rewrite, the pull and the digest pins; any of them may raise. -/
def prepareSteps (stack : SelfUpdateStack) (backupHash : Hash) : Op β Hash Unit := do
  let applied ← applyComposeTagUpdates sha256 render stack.tagUpdates backupHash
  if applied = [] then throw .runtimeError
  else
    -- the pull
    let _ ← step
    pinDigests sha256 render (digestPinUpdates stack)

/-- Restores the Compose file; tells whether the backup can be deleted. -/
def restoreSelfUpdateCompose (writtenHash : Hash) : Op β Hash Bool :=
  except (do
    let restoredOnDisk ← restoreComposeBackup sha256 writtenHash
    assign fun s => { s with restoredOnDisk }
    return restoredOnDisk) Exn.isException fun _ => return false

def failPrepare : Op β Hash Unit := do
  match (← get).writtenHashes.getLast? with
  | none => throw .runtimeError
  | some h => do
    let restoreSucceeded ← restoreSelfUpdateCompose sha256 h
    assign fun s => { s with restoreSucceeded }
    throw .runtimeError

def deleteBackup : Op β Hash Unit := except unlinkBackup Exn.isOsError fun _ => return ()

/-- The backup goes unless a restore failed. -/
def dropBackup : Op β Hash Unit := do
  let w ← get
  whenever w.locals.restoreSucceeded deleteBackup

def prepareSelfUpdateTagUpdate (plan : SelfUpdatePlan) : Op β Hash Unit :=
  match validateSelfUpdatePreparePlan plan with
  | none => throw .runtimeError
  | some stack => do
    backupCompose
    let _ ← step
    match (← get).compose.backup with
    | none => throw .osError
    | some saved =>
      finish (except (prepareSteps sha256 render stack (sha256 saved)) Exn.isException fun _ =>
        failPrepare sha256) dropBackup

end

abbrev PrepareWorld (β Hash : Type) := World β Hash PrepareState

section
variable {sha256 : β → Hash} {render : Renderers β} {stack : SelfUpdateStack}

/-- What holds from the backup until the function ends. -/
structure Inv (sha256 : β → Hash) (saved : β) (w : PrepareWorld β Hash) : Prop where
  own : RewritesOwn w.compose.history
  hashes : w.writtenHashes.getLast? = (lastRewrite w.compose.history).map sha256
  kept : w.compose.backup = some saved
  saved : savedIn w.compose.history = some saved

/-- The last rewrite wrote the tag rendering of the backed-up content. -/
def TagsRendered (render : Renderers β) (stack : SelfUpdateStack) (saved : β) (w : PrepareWorld β Hash) : Prop :=
  undisturbed w.compose.history = true → ∀ c, lastRewrite w.compose.history = some c →
    ∃ applied, render.tags stack.tagUpdates saved = .ok (some c,applied)

/-- The last rewrite wrote the digest-pin rendering of the tag rendering of the backed-up content. -/
def PinsRendered (render : Renderers β) (stack : SelfUpdateStack) (saved : β) (w : PrepareWorld β Hash) : Prop :=
  undisturbed w.compose.history = true → ∀ c, lastRewrite w.compose.history = some c →
    ∃ tagged applied, render.tags stack.tagUpdates saved = .ok (some tagged,applied) ∧
      if digestPinUpdates stack = [] then c = tagged
      else ∃ pinned, render.digestPins (digestPinUpdates stack) tagged = .ok (c,pinned)

variable {saved : β}

omit [DecidableEq Hash] in
theorem Inv.stable : Stable (Inv sha256 saved) :=
  Stable.of_edit (fun _ _ h => ⟨h.own,h.hashes,h.kept,h.saved⟩) fun _ _ h => ⟨h.own,h.hashes,h.kept,h.saved⟩

omit [DecidableEq Hash] in
theorem TagsRendered.stable : Stable fun w : PrepareWorld β Hash => TagsRendered render stack saved w :=
  Stable.of_edit (fun _ _ h => h) fun _ _ h => h

omit [DecidableEq Hash] in
theorem PinsRendered.stable : Stable fun w : PrepareWorld β Hash => PinsRendered render stack saved w :=
  Stable.of_edit (fun _ _ h => h) fun _ _ h => h

omit [DecidableEq Hash] in
/-- A rewrite of own content keeps the invariant. -/
theorem Inv.replaced {w : PrepareWorld β Hash} (h : Inv sha256 saved w) {rendered : β}
    (ho : w.compose.content = saved ∨ lastRewrite w.compose.history = some w.compose.content) :
    Inv sha256 saved (replaced sha256 .rewrite rendered true w) where
  own := ⟨ho.imp_left fun hs => h.saved.trans (congrArg some hs.symm),h.own⟩
  hashes := by simp [Wudup.replaced,Writer.change,lastRewrite]
  kept := h.kept
  saved := h.saved

theorem applyComposeTagUpdates_ends (hash : Function.Injective sha256) :
    Ends (fun w => Inv sha256 saved w ∧ lastRewrite w.compose.history = none)
      (applyComposeTagUpdates sha256 render stack.tagUpdates (sha256 saved))
      (fun _ w => Inv sha256 saved w ∧ TagsRendered render stack saved w) (fun _ => Inv sha256 saved) := by
  have hnone : Stable fun w : PrepareWorld β Hash => Inv sha256 saved w ∧ lastRewrite w.compose.history = none :=
    Inv.stable.and (Stable.of_edit (fun _ _ h => h) fun _ _ h => h)
  have hstart : ∀ w : PrepareWorld β Hash, (Inv sha256 saved w ∧ lastRewrite w.compose.history = none) →
      Inv sha256 saved w ∧ TagsRendered render stack saved w :=
    fun w h => ⟨h.1,fun _ c hc => absurd (h.2.symm.trans hc) (by simp)⟩
  refine Ends.ite (fun _ => Ends.pure hstart) fun _ => ?_
  refine (applyRendered_loads hnone (Inv.stable.and TagsRendered.stable) ?_).mono (fun _ h => h)
    (fun _ w h => h.elim (fun h => hstart w h.1) id) fun _ _ h => h.elim (·.1) (·.1)
  intro w₀ w rendered applied h hs hr hc
  have hcontent : w.compose.content = saved := hash hc
  refine ⟨h.1.replaced (.inl hcontent),fun hu c hl => ?_⟩
  obtain rfl : rendered = c := Option.some.inj hl
  rw [← hs.content hu,hcontent] at hr
  exact ⟨applied,hr⟩

omit [DecidableEq Hash] in
theorem verifySelfUpdateDigestPinUpdates_keeps {P : PrepareWorld β Hash → Prop} (hP : Stable P)
    (updates : List DigestPinUpdate) : Keeps P (verifySelfUpdateDigestPinUpdates updates) := by
  induction updates with
  | nil => exact Keeps.pure
  | cons update rest ih =>
    refine Keeps.bind (ask_keeps hP) fun _ => Keeps.ite Keeps.throw ?_
    refine Keeps.bind (ask_keeps hP) fun _ => Keeps.ite Keeps.throw ?_
    exact Keeps.bind (ask_keeps hP) fun _ => Keeps.ite Keeps.throw ih

theorem pinDigests_ends (hash : Function.Injective sha256) :
    Ends (fun w => Inv sha256 saved w ∧ TagsRendered render stack saved w)
      (pinDigests sha256 render (digestPinUpdates stack))
      (fun _ w => Inv sha256 saved w ∧ PinsRendered render stack saved w) (fun _ => Inv sha256 saved) := by
  have htags : Stable fun w : PrepareWorld β Hash => Inv sha256 saved w ∧ TagsRendered render stack saved w :=
    Inv.stable.and TagsRendered.stable
  refine Ends.ite (fun hn => Ends.pure fun w h => ⟨h.1,fun hu c hc => ?_⟩) fun hn => ?_
  · obtain ⟨applied,ha⟩ := h.2 hu c hc
    exact ⟨c,applied,ha,by rw [if_pos hn]⟩
  refine Ends.bind (Keeps.ends (verifySelfUpdateDigestPinUpdates_keeps htags _) fun _ _ h => h.1) fun _ => ?_
  refine Ends.get_bind fun w hw => ?_
  cases hl : w.writtenHashes.getLast? with
  | none => exact Ends.throw (by rintro _ rfl; exact hw.1)
  | some h =>
    have hwritten : Stable fun w : PrepareWorld β Hash =>
        (Inv sha256 saved w ∧ TagsRendered render stack saved w) ∧ w.writtenHashes.getLast? = some h :=
      htags.and (Stable.of_edit (fun _ _ h => h) fun _ _ h => h)
    refine Ends.start (P := fun w => (Inv sha256 saved w ∧ TagsRendered render stack saved w) ∧
      w.writtenHashes.getLast? = some h) ?_ ⟨hw,hl⟩
    refine Ends.bind (R := fun _ w => Inv sha256 saved w ∧ PinsRendered render stack saved w)
      ((applyAlways_loads hwritten (Inv.stable.and PinsRendered.stable) ?_).mono (fun _ h => h) (fun _ _ h => h)
        fun _ _ h => h.elim (·.1.1) (·.1)) fun _ => Ends.ite (fun _ => Ends.throw fun _ h => h.1) fun _ =>
          Ends.pure fun _ h => h
    rintro w₀ w rendered applied ⟨⟨hi,ht⟩,hw⟩ hs hr hc
    -- the hash that is expected is that of the last rewrite
    have hlast : lastRewrite w.compose.history = some w.compose.content := by
      have hh := hi.hashes
      rw [hw] at hh
      obtain ⟨c,hc',hd⟩ := Option.map_eq_some_iff.mp hh.symm
      rw [hc',hash (hd.trans hc.symm)]
    refine ⟨hi.replaced (.inr hlast),fun hu c hl => ?_⟩
    obtain rfl : rendered = c := Option.some.inj hl
    obtain ⟨tagged,ha⟩ := ht (by simp_all [Wudup.replaced,Writer.change,undisturbed]) _ hlast
    rw [← hs.content hu] at hr
    exact ⟨_,tagged,ha,by rw [if_neg hn]; exact ⟨applied,hr⟩⟩

/-- The old file was put back and the folder it is in was synced. -/
def BackOnDisk (w : PrepareWorld β Hash) : Prop := w.locals.restoredOnDisk = true ∧ PutBack w.compose.history

omit [DecidableEq Hash] in
theorem BackOnDisk.stable : Stable (BackOnDisk : PrepareWorld β Hash → Prop) :=
  Stable.of_edit (fun _ _ h => h) fun _ _ h => h

/-- A failed rewrite leaves the backup, or the old file on disk. -/
def Restored (w : PrepareWorld β Hash) : Prop :=
  w.locals.restoreSucceeded = true → lastRewrite w.compose.history ≠ none → BackOnDisk w

omit [DecidableEq Hash] in
theorem Restored.stable : Stable (Restored : PrepareWorld β Hash → Prop) :=
  Stable.of_edit (fun _ _ h => h) fun _ _ h => h

theorem restoreSelfUpdateCompose_ends (hash : Function.Injective sha256) (h : Hash) :
    Ends (fun w => Inv sha256 saved w ∧ w.writtenHashes.getLast? = some h) (restoreSelfUpdateCompose sha256 h)
      (fun r w => Inv sha256 saved w ∧ (r = true → BackOnDisk w))
      (fun e w => Inv sha256 saved w ∧ (e.isException = true → Restored w)) := by
  have hstart : Stable fun w : PrepareWorld β Hash => Inv sha256 saved w ∧ w.writtenHashes.getLast? = some h :=
    Inv.stable.and (Stable.of_edit (fun _ _ h => h) fun _ _ h => h)
  have hback : Stable fun w : PrepareWorld β Hash => Inv sha256 saved w ∧ PutBack w.compose.history :=
    Inv.stable.and (Stable.of_edit (fun _ _ h => h) fun _ _ h => h)
  refine Ends.except (F := fun _ => Inv sha256 saved) ?_ (fun _ _ => Ends.pure fun _ h => ⟨h,by simp⟩)
    fun e w he h => ⟨h,fun ht => absurd (he.symm.trans ht) (by simp)⟩
  refine Ends.bind ((restoreComposeBackup_ends hstart hback ?_).mono (fun _ h => h) (fun _ _ h => h)
    fun _ _ h => h.elim (·.1) (·.1)) fun restoredOnDisk => ?_
  · rintro w c ⟨hi,hw⟩ hc hs
    obtain rfl : saved = c := Option.some.inj (hi.kept.symm.trans hc)
    have hown : lastRewrite w.compose.history = some w.compose.content := by
      have hh := hi.hashes
      rw [hw] at hh
      obtain ⟨d,hd,he⟩ := Option.map_eq_some_iff.mp hh.symm
      rw [hd,hash (he.trans hs.symm)]
    exact ⟨⟨⟨.inr hown,hi.own⟩,hi.hashes,hi.kept,hi.saved⟩,hi.saved⟩
  · refine Ends.bind (R := fun _ w => Inv sha256 saved w ∧ (restoredOnDisk = true → BackOnDisk w))
      (assign_ends fun w h => ?_) fun _ => Ends.pure fun _ h => h
    exact ⟨⟨h.1.own,h.1.hashes,h.1.kept,h.1.saved⟩,fun hr => ⟨hr,h.2⟩⟩

theorem prepareSteps_ends (hash : Function.Injective sha256) :
    Ends (fun w => Inv sha256 saved w ∧ lastRewrite w.compose.history = none)
      (prepareSteps sha256 render stack (sha256 saved))
      (fun _ w => Inv sha256 saved w ∧ PinsRendered render stack saved w) (fun _ => Inv sha256 saved) := by
  refine Ends.bind (applyComposeTagUpdates_ends hash) fun _ => Ends.ite (fun _ => Ends.throw fun _ h => h.1) ?_
  intro _
  refine Ends.bind (Keeps.ends (step_ends (Inv.stable.and TagsRendered.stable)) fun _ _ h => h.1) fun _ => ?_
  exact pinDigests_ends hash

theorem failPrepare_ends (hash : Function.Injective sha256) :
    Ends (Inv sha256 saved) (failPrepare sha256) (fun _ _ => False)
      (fun e w => Inv sha256 saved w ∧ (e.isException = true → Restored w)) := by
  refine Ends.get_bind fun w hw => ?_
  cases hl : w.writtenHashes.getLast? with
  | none =>
    refine Ends.throw ?_
    rintro _ rfl
    refine ⟨hw,fun _ _ hr => absurd ?_ hr⟩
    have hh := hw.hashes
    rw [hl] at hh
    exact Option.map_eq_none_iff.mp hh.symm
  | some h =>
    refine Ends.bind (R := fun r w => Inv sha256 saved w ∧ (r = true → BackOnDisk w)) ?_ fun r => ?_
    · exact (restoreSelfUpdateCompose_ends hash h).start ⟨hw,hl⟩
    · refine Ends.bind (R := fun _ w => Inv sha256 saved w ∧ Restored w) (assign_ends fun w h => ?_) fun _ =>
        Ends.throw fun _ h => ⟨h.1,fun _ => h.2⟩
      exact ⟨⟨h.1.own,h.1.hashes,h.1.kept,h.1.saved⟩,fun hr _ => h.2 hr⟩

/-- How the function fails: a failure reported as an exception leaves the backup, or the old file on disk. -/
def Fails (e : Exn) (w : PrepareWorld β Hash) : Prop :=
  RewritesOwn w.compose.history ∧ (e.isException = true → lastRewrite w.compose.history ≠ none →
    w.compose.backup ≠ none ∨ BackOnDisk w)

omit [DecidableEq Hash] in
theorem Inv.fails {w : PrepareWorld β Hash} (h : Inv sha256 saved w) (e : Exn) : Fails e w :=
  ⟨h.own,fun _ _ => .inl (by simp [h.kept])⟩

omit [DecidableEq Hash] in
/-- The backup is removed only after the old file was put back, or where nothing failed. -/
theorem dropBackup_ends {P : PrepareWorld β Hash → Prop} {Q : Unit → PrepareWorld β Hash → Prop}
    (hP : Stable P) (hi : ∀ w, P w → Inv sha256 saved w) (hkeep : ∀ w, P w → Q () w)
    (hdrop : ∀ w, P w → w.locals.restoreSucceeded = true → Q () (w.record .removed)) :
    Ends P dropBackup Q Fails := by
  refine Ends.get_bind fun w hw => Ends.ite (fun hc => ?_) fun _ => Ends.pure (by rintro _ rfl; exact hkeep _ hw)
  have hs : Stable fun w : PrepareWorld β Hash => P w ∧ w.locals.restoreSucceeded = true :=
    hP.and (Stable.of_edit (fun _ _ h => h) fun _ _ h => h)
  refine Ends.start (P := fun w => P w ∧ w.locals.restoreSucceeded = true) ?_ ⟨hw,hc⟩
  refine Ends.except (F := fun _ w => P w ∧ w.locals.restoreSucceeded = true) ?_
    (fun _ _ => Ends.pure fun w h => hkeep w h.1) fun e w _ h => (hi w h.1).fails e
  refine Ends.bind (step_ends hs) fun _ => Ends.modify fun w h => hdrop w h.1 h.2

/-- Before anything is written. -/
structure Fresh (w : PrepareWorld β Hash) : Prop where
  own : RewritesOwn w.compose.history
  unwritten : lastRewrite w.compose.history = none
  unhashed : w.writtenHashes = []

omit [DecidableEq Hash] in
theorem Fresh.stable : Stable (Fresh : PrepareWorld β Hash → Prop) :=
  Stable.of_edit (fun _ _ h => ⟨h.own,h.unwritten,h.unhashed⟩) fun _ _ h => ⟨h.own,h.unwritten,h.unhashed⟩

omit [DecidableEq Hash] in
theorem Fresh.fails {w : PrepareWorld β Hash} (h : Fresh w) (e : Exn) : Fails e w :=
  ⟨h.own,fun _ hl => absurd h.unwritten hl⟩

/-- The backup is complete and nothing was written yet. -/
def BackedUp (sha256 : β → Hash) (w : PrepareWorld β Hash) : Prop :=
  ∃ saved, Inv sha256 saved w ∧ lastRewrite w.compose.history = none

omit [DecidableEq Hash] in
theorem BackedUp.stable : Stable (BackedUp sha256) :=
  Stable.of_edit (fun _ _ ⟨saved,h,hl⟩ => ⟨saved,⟨h.own,h.hashes,h.kept,h.saved⟩,hl⟩)
    fun _ _ ⟨saved,h,hl⟩ => ⟨saved,⟨h.own,h.hashes,h.kept,h.saved⟩,hl⟩

omit [DecidableEq Hash] in
theorem BackedUp.fails {w : PrepareWorld β Hash} (h : BackedUp sha256 w) (e : Exn) : Fails e w :=
  ⟨h.choose_spec.1.own,fun _ hl => absurd h.choose_spec.2 hl⟩

omit [DecidableEq Hash] in
theorem backupCompose_ends : Ends Fresh backupCompose (fun _ => BackedUp sha256) Fails := by
  refine Ends.bind (Keeps.ends (step_ends Fresh.stable) fun e _ h => h.fails e) fun _ => ?_
  refine Ends.bind (R := fun _ => BackedUp sha256) (Ends.modify fun w h => ?_) fun _ => ?_
  · exact ⟨w.compose.content,⟨h.own,by simp [h.unhashed,h.unwritten,lastRewrite],rfl,rfl⟩,h.unwritten⟩
  · refine Ends.except (F := fun _ => BackedUp sha256)
      (Keeps.bind (step_ends BackedUp.stable) fun _ => Keeps.pure) (fun e _ => ?_) fun e _ _ h => h.fails e
    refine Ends.bind (R := fun _ w => RewritesOwn w.compose.history ∧ lastRewrite w.compose.history = none)
      (Ends.modify fun w h => ⟨h.choose_spec.1.own,h.choose_spec.2⟩) fun _ => Ends.throw fun w h => ?_
    exact ⟨h.1,fun _ hl => absurd h.2 hl⟩

/-- What a preparation leaves when it returns. -/
def Prepared (render : Renderers β) (plan : SelfUpdatePlan) (w : PrepareWorld β Hash) : Prop :=
  RewritesOwn w.compose.history ∧ ∃ stack, validateSelfUpdatePreparePlan plan = some stack ∧
    ∃ saved, savedIn w.compose.history = some saved ∧ PinsRendered render stack saved w

theorem prepareSelfUpdateTagUpdate_ends (hash : Function.Injective sha256) (plan : SelfUpdatePlan) :
    Ends Fresh (prepareSelfUpdateTagUpdate sha256 render plan) (fun _ => Prepared render plan) Fails := by
  unfold prepareSelfUpdateTagUpdate
  cases hv : validateSelfUpdatePreparePlan plan with
  | none => exact Ends.throw fun w h => h.fails _
  | some stack =>
    refine Ends.bind (R := fun _ => BackedUp sha256) backupCompose_ends fun _ => ?_
    refine Ends.bind (Keeps.ends (step_ends BackedUp.stable) fun e _ h => h.fails e) fun _ => ?_
    refine Ends.get_bind fun w ⟨saved,hi,hl⟩ => ?_
    simp only [hi.kept]
    refine Ends.start (P := fun w => Inv sha256 saved w ∧ lastRewrite w.compose.history = none) ?_ ⟨hi,hl⟩
    refine Ends.finish (R := fun _ w => Inv sha256 saved w ∧ PinsRendered render stack saved w)
      (F := fun e w => Inv sha256 saved w ∧ (e.isException = true → Restored w)) ?_ (fun _ => ?_) fun e => ?_
    · refine Ends.except (prepareSteps_ends hash) (fun _ _ => ?_) fun e w he h => ?_
      · exact (failPrepare_ends hash).mono (fun _ h => h) (fun _ _ h => h.elim) fun _ _ h => h
      · exact ⟨h,fun ht => absurd (he.symm.trans ht) (by simp)⟩
    · exact dropBackup_ends (Inv.stable.and PinsRendered.stable) (fun _ h => h.1)
        (fun _ h => ⟨h.1.own,stack,hv,saved,h.1.saved,h.2⟩) fun _ h _ => ⟨h.1.own,stack,hv,saved,h.1.saved,h.2⟩
    · have hs : Stable fun w : PrepareWorld β Hash =>
          Inv sha256 saved w ∧ (e.isException = true → Restored w) :=
        Inv.stable.and fun w h he => Restored.stable w (h he)
      refine dropBackup_ends (Q := fun _ => Fails e) hs (fun _ h => h.1) (fun _ h => h.1.fails e) fun w h hr => ?_
      exact ⟨h.1.own,fun he hl => .inr (h.2 he hr hl)⟩

/-- The world when a preparation starts. -/
def atStart (content : β) (schedule : List (Choice β)) : PrepareWorld β Hash :=
  { compose := { initial := content }, schedule, locals := {} }

end

/-- A plan with one tag update and one digest pin, over renderers that add to a number. -/
def onePlan : SelfUpdatePlan where
  planStacks := [{
    services := [['s']]
    tagUpdates := [⟨"app:1".toList,['2'],"app:2".toList,[['s']]⟩]
    digestPinUpdates := [⟨"app:1".toList,['2'],['d'],[['s']]⟩] }]

def addNumber : Renderers ℕ where
  tags updates n := .ok (some (n+1),updates.map fun u => { u with replacements := 1 })
  digestPins updates n := .ok (n+10,updates.map fun u => { u with replacements := 1 })
  retags _ n := .ok (n+1,[])
  digestUnpins _ n := .ok (n+1,[])

/-- The pull raises once the tag is rewritten; an edit may come after the old file is back. -/
def raisedPull (e : Exn) (edit : Option ℕ) : List (Choice ℕ) :=
  List.replicate 6 ({} : Choice ℕ) ++ { raise := some e } ::
    (List.replicate 3 ({} : Choice ℕ) ++ [({ edit } : Choice ℕ)])

end SelfUpdatePrepare
end Wudup
