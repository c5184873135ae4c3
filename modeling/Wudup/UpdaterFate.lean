import Wudup.UpdaterEntries

/-! The fate of todo entries over a whole updater run: an entry that was taken out is missing at the end
only if it finished, was found stale, or was to be removed. -/
namespace Wudup
open Library Library.Program

namespace UpdaterRun

theorem step_ends {P : UpdaterRun → Prop} (hP : Steady P) : Keeps P step := by
  refine Ends.get_bind fun w hw => Ends.bind (R := fun _ => P) (Ends.modify ?_) fun _ => ?_
  · rintro _ rfl
    exact hP.advance hw
  · cases (w.schedule.headD {}).raise with
    | none => exact Ends.pure fun _ h => h
    | some e => exact Ends.throw fun _ h => h

theorem progress_ends {P : UpdaterRun → Prop} (hP : Steady P) : Keeps P progress :=
  Keeps.bind (step_ends hP) fun _ => Keeps.pure

theorem progressSteps_ends {P : UpdaterRun → Prop} (hP : Steady P) (n : ℕ) : Keeps P (progressSteps n) := by
  induction n with
  | zero => exact Keeps.pure
  | succ n ih => exact Keeps.bind (progress_ends hP) fun _ => ih

/-- A rewrite takes a condition to another one, or leaves the file as it was. -/
theorem rewriteLocked_ends {P Q : UpdaterRun → Prop} {transform : Str → Str} {record : UpdaterRun → UpdaterRun}
    (hP : Steady P) (hQ : Steady Q)
    (h : ∀ w, P w → Q (record { w with wudFile := transform w.wudFile })) :
    Ends P (rewriteLocked transform record) (fun _ => Q) fun _ w => P w ∨ Q w := by
  refine Ends.bind ((progress_ends hP).ends fun _ _ => .inl) fun _ => ?_
  refine Ends.bind (R := fun _ => Q) (Ends.modify h) fun _ => ?_
  exact (progress_ends hQ).ends fun _ _ => .inr

section
variable {planner : Planner} {text : Str} {parsed audit : List WudLine}

/-- What the run has left when it stops with an exception. -/
def Stopped (planner : Planner) (text : Str) (w : UpdaterRun) : Prop :=
  (w.inFlightPending = none ∧ Done planner text w) ∨ ∃ parsed audit, Flying planner text parsed audit w

abbrev Untouched (planner : Planner) (text : Str) (parsed : List WudLine) (w : UpdaterRun) : Prop :=
  Intact planner text parsed w ∧ w.inFlightPending = none

theorem Untouched.steady : Steady (Untouched planner text parsed) :=
  Steady.and Intact.steady fun _ _ _ h => h

theorem Untouched.stopped {w : UpdaterRun} (h : Untouched planner text parsed w) : Stopped planner text w :=
  .inl ⟨h.2,.inr ⟨parsed,h.1.settled⟩⟩

/-- The entries are on record as in flight, and still in the file. -/
abbrev Launched (planner : Planner) (text : Str) (parsed audit : List WudLine) (w : UpdaterRun) : Prop :=
  Intact planner text parsed w ∧ AuditOf text parsed audit w ∧ w.inFlightPending =
    some ⟨audit,(planner.plan parsed).matched,(planner.plan parsed).exclusionUpdates⟩

theorem Launched.steady : Steady (Launched planner text parsed audit) :=
  Steady.and Intact.steady (Steady.and AuditOf.steady fun _ _ _ h => h)

theorem Launched.flying {w : UpdaterRun} (h : Launched planner text parsed audit w) :
    Flying planner text parsed audit w := ⟨h.1.held h.2.1,h.2.2⟩

theorem auditParsedFile_ends :
    Ends (Untouched planner text parsed) (auditParsedFile (planner.plan parsed) parsed)
      (fun audit w => Untouched planner text parsed w ∧ AuditOf text parsed audit w)
      fun _ => Stopped planner text := by
  refine Ends.ite (fun _ => Ends.pure fun w h => ⟨h,h.1.audit_parsed⟩) fun _ => ?_
  refine Ends.bind ((progress_ends Untouched.steady).ends fun _ _ => Untouched.stopped) fun _ => ?_
  refine Ends.get_bind fun w h => Ends.pure ?_
  rintro _ rfl
  exact ⟨h,h.1.audit_wudFile⟩

theorem prepareMutation_ends :
    Ends (Untouched planner text parsed) (prepareMutation (planner.plan parsed) parsed)
      (fun inFlight w => ∃ audit, inFlight =
          ⟨audit,(planner.plan parsed).matched,(planner.plan parsed).exclusionUpdates⟩ ∧
        Flying planner text parsed audit w)
      fun _ => Stopped planner text := by
  refine Ends.bind ((progress_ends Untouched.steady).ends fun _ _ => Untouched.stopped) fun _ => ?_
  refine Ends.bind auditParsedFile_ends fun audit => ?_
  have hsteady : Steady fun w => Untouched planner text parsed w ∧ AuditOf text parsed audit w :=
    Steady.and Untouched.steady AuditOf.steady
  have hstopped : ∀ (_ : Exn) w, Untouched planner text parsed w ∧ AuditOf text parsed audit w →
      Stopped planner text w := fun _ _ h => h.1.stopped
  refine Ends.bind ((progressSteps_ends hsteady 6).ends hstopped) fun _ => ?_
  refine Ends.bind ((progress_ends hsteady).ends hstopped) fun _ => ?_
  refine Ends.bind (R := fun _ => Launched planner text parsed audit) (Ends.modify ?_) fun _ => ?_
  · rintro w ⟨⟨hi,-⟩,ha⟩
    exact ⟨⟨⟨hi.parsed_eq,hi.partial_eq,hi.original_ge,hi.original_le,hi.upper⟩,hi.total_le,hi.extended⟩,
      ⟨ha.clean,ha.extends_parsed,ha.original_le⟩,rfl⟩
  refine Ends.bind (R := fun _ => Flying planner text parsed audit) ?_ fun _ => ?_
  · refine Ends.ite (fun _ => ?_) fun hn => ?_
    · exact (progress_ends Launched.steady).mono (fun _ h => h) (fun _ _ h => h.flying) fun _ _ h =>
        .inr ⟨parsed,audit,h.flying⟩
    · refine (rewriteLocked_ends Launched.steady Flying.steady fun w h => ?_).mono (fun _ h => h)
        (fun _ _ h => h) fun _ _ h => .inr ⟨parsed,audit,h.elim (·.flying) id⟩
      exact ⟨h.1.remove h.2.1 rfl hn,h.2.2⟩
  · refine Ends.bind ((progress_ends Flying.steady).ends fun _ _ h => .inr ⟨parsed,audit,h⟩) fun _ => ?_
    exact Ends.pure fun w h => ⟨audit,rfl,h⟩

/-- The outcomes of the work are recorded; the entries stay in flight. -/
theorem record_ends {f : UpdaterRun → UpdaterRun}
    (hf : ∀ w, Flying planner text parsed audit w → Flying planner text parsed audit (f w)) :
    Keeps (Flying planner text parsed audit) (modify f : Op Unit) := Ends.modify hf

theorem preflightStacks_ends (composeStacks : List ComposeStack) :
    Keeps (Flying planner text parsed audit) (preflightStacks composeStacks) := by
  induction composeStacks with
  | nil => exact Keeps.pure
  | cons stack rest ih =>
    refine Keeps.bind (step_ends Flying.steady) fun c => ?_
    refine Keeps.bind (record_ends fun w h => h.of_same rfl rfl rfl rfl rfl) fun _ => ?_
    exact Keeps.bind (progress_ends Flying.steady) fun _ => Keeps.bind ih fun _ => Keeps.pure

theorem applyExclusions_ends (updates : List TagExclusionUpdate) :
    Keeps (Flying planner text parsed audit) (applyExclusions updates) := by
  induction updates with
  | nil => exact Keeps.pure
  | cons update rest ih =>
    exact Keeps.bind (step_ends Flying.steady) fun c => Keeps.bind ih fun _ => Keeps.pure

theorem updateStacks_ends (composeStacks : List ComposeStack) :
    Keeps (Flying planner text parsed audit) (updateStacks composeStacks) := by
  induction composeStacks with
  | nil => exact Keeps.pure
  | cons stack rest ih =>
    refine Keeps.bind (step_ends Flying.steady) fun c => ?_
    refine Keeps.bind (record_ends fun w h => h.of_same rfl rfl rfl rfl rfl) fun _ => ?_
    refine Keeps.bind (step_ends Flying.steady) fun done => ?_
    exact Keeps.bind (record_ends fun w h => h.of_same rfl rfl rfl rfl rfl) fun _ => ih

theorem applyUpdates_ends (plan : RunPlan) : Keeps (Flying planner text parsed audit) (applyUpdates plan) := by
  refine Keeps.bind (preflightStacks_ends _) fun stale => ?_
  refine Keeps.bind (record_ends fun w h => h.of_same rfl rfl rfl rfl rfl) fun _ => ?_
  refine Ends.get_bind fun w hw => Ends.start ?_ hw
  refine Keeps.bind (applyExclusions_ends _) fun applied => ?_
  refine Keeps.bind (record_ends fun w h => h.of_same rfl rfl rfl rfl rfl) fun _ => ?_
  exact updateStacks_ends _

/-- A restore leads from a condition to the one its record makes of it, or stops in between. -/
theorem restoreLocked_ends {P Q : UpdaterRun → Prop} (audit : List WudLine) (lines : List ℕ)
    (record : UpdaterRun → UpdaterRun) (hP : Steady P) (hQ : Steady Q)
    (h : ∀ w, P w → Q (record { w with wudFile := restoreFailedLines audit lines w.wudFile })) :
    Ends P (restoreLocked audit lines record) (fun _ => Q) fun _ w => P w ∨ Q w := by
  refine Ends.ite (fun hn => Ends.modify fun w hw => ?_) fun _ => rewriteLocked_ends hP hQ h
  have := h w hw
  rwa [restoreFailedLines_of_none hn] at this

theorem reconcilePendingEntries_ends :
    Ends (Flying planner text parsed audit)
      (reconcilePendingEntries (planner.plan parsed)
        ⟨audit,(planner.plan parsed).matched,(planner.plan parsed).exclusionUpdates⟩)
      (fun _ w => Flying planner text parsed audit w ∧ Kept planner parsed w)
      fun _ => Flying planner text parsed audit := by
  refine Ends.bind (progress_ends Flying.steady) fun _ => ?_
  refine Ends.bind (R := fun _ w => Flying planner text parsed audit w ∧
    w.staleFailedLines = w.staleFailed (planner.plan parsed)) (Ends.modify ?_) fun _ => ?_
  · exact fun w h => ⟨h.of_same rfl rfl rfl rfl rfl,rfl⟩
  refine Ends.get_bind fun w ⟨hw,hs⟩ => ?_
  have hc : Covers planner parsed (w.restoreLineNumbers (planner.plan parsed)) w := fun n hn =>
    mem_restoreLineNumbers hs hw.partial_eq hn
  refine Ends.start (P := fun v => Flying planner text parsed audit v ∧
    Covers planner parsed (w.restoreLineNumbers (planner.plan parsed)) v) ?_ ⟨hw,hc⟩
  refine Ends.bind (R := fun _ w => Flying planner text parsed audit w ∧ Kept planner parsed w) ?_ fun _ => ?_
  · refine (restoreLocked_ends _ _ _ (Flying.steady.and Covers.steady) (Flying.steady.and Kept.steady)
      ?_).mono (fun _ h => h) (fun _ _ h => h) fun _ _ h => h.elim (·.1) (·.1)
    exact fun v hv => ⟨⟨hv.1.toHeld.restore _,hv.1.pending⟩,hv.1.toHeld.kept hv.2⟩
  · exact (progressSteps_ends (Flying.steady.and Kept.steady) 6).ends fun _ _ h => h.1

/-- While the abort has not yet written, the restore counts as cut off. -/
theorem tryRestore_ends (lines : List ℕ) :
    Ends (fun w => Held planner text parsed audit w ∧ Covers planner parsed lines w ∧ w.restoreCut = true)
      (tryRestore audit lines) (fun _ => Settled planner text parsed) fun _ => Settled planner text parsed := by
  have hcut : ∀ w, Held planner text parsed audit w ∧ Covers planner parsed lines w ∧ w.restoreCut = true →
      Settled planner text parsed w := fun w h => h.1.settled fun hc => by simp [h.2.2] at hc
  have hrestore := restoreLocked_ends audit lines (fun w => { w with restoreCut := false })
    (Held.steady.and (Covers.steady.and fun _ _ _ h => h)) Settled.steady
    (fun w (h : Held planner text parsed audit w ∧ Covers planner parsed lines w ∧ w.restoreCut = true) => by
      obtain ⟨⟨hp,ha,hl⟩,hk⟩ := And.intro (h.1.restore lines) (h.1.kept h.2.1)
      exact ⟨⟨hp.parsed_eq,hp.partial_eq,hp.original_ge,hp.original_le,hp.upper⟩,hl,fun _ => hk⟩)
  refine Ends.except (Ends.bind hrestore fun _ => Ends.pure fun _ h => h) (fun _ _ => ?_) ?_
  · refine Ends.bind (R := fun _ => Settled planner text parsed) ?_ fun _ => Ends.pure fun _ h => h
    exact (progress_ends Settled.steady).pre fun w h => h.elim (hcut w) id
  · exact fun _ w _ h => h.elim (hcut w) id

theorem restoreUnfinishedPending_ends :
    Ends (Held planner text parsed audit)
      (restoreUnfinishedPending
        ⟨audit,(planner.plan parsed).matched,(planner.plan parsed).exclusionUpdates⟩)
      (fun _ => Settled planner text parsed) fun _ => Settled planner text parsed := by
  refine Ends.get_bind fun w hw => ?_
  have hc : Covers planner parsed
      (w.unfinished (planner.plan parsed).matched (planner.plan parsed).exclusionUpdates ++
        w.partiallySelected) w := fun n hn => hw.partial_eq ▸ mem_unfinished hn
  refine Ends.ite (fun hn => Ends.pure ?_) fun _ => ?_
  · rintro _ rfl
    refine hw.settled fun _ raw => ?_
    rw [hn] at hc
    exact (selected_mono hc parsed raw).trans (by simp [selected_nil])
  · refine Ends.bind (Ends.modify ?_) fun _ => Ends.bind (tryRestore_ends _) fun done => ?_
    · rintro _ rfl
      obtain ⟨⟨h1,h2,h3,h4,h5⟩,⟨h6,h7,h8⟩,h9⟩ := hw
      exact ⟨⟨⟨h1,h2,h3,h4,h5⟩,⟨h6,h7,h8⟩,h9⟩,hc,rfl⟩
    · exact Ends.ite (fun _ => progress_ends Settled.steady) fun _ => Keeps.pure

theorem andFinally_ends {P I : UpdaterRun → Prop} {x y : Op Unit} (hx : Ends P x (fun _ => I) fun _ => I)
    (hy : Keeps I y) : Ends P (andFinally x y) (fun _ => I) fun _ => I := by
  refine Ends.bind (R := fun _ => I) (Ends.tryCatch hx fun e => ?_) fun _ => hy
  exact Ends.bind (hy.ends fun _ _ h => h) fun _ => Keeps.throw

theorem abortRun_ends :
    Ends (Stopped planner text) abortRun (fun _ => Done planner text) fun _ => Done planner text := by
  have hdone : Keeps (Done planner text) (andFinally progress progress) :=
    andFinally_ends (progress_ends Done.steady) (progress_ends Done.steady)
  refine Ends.get_bind fun w hw => ?_
  rcases hw with ⟨hn,hd⟩ | ⟨parsed,audit,hf⟩
  · refine Ends.bind (R := fun _ => Done planner text) (Ends.modify ?_) fun _ => andFinally_ends ?_ hdone
    · rintro _ rfl
      rcases hd with h | ⟨parsed,⟨h1,h2,h3,h4,h5⟩,h6,h7⟩
      · exact .inl h
      · exact .inr ⟨parsed,⟨h1,h2,h3,h4,h5⟩,h6,h7⟩
    · rw [hn]
      exact Keeps.pure
  · refine Ends.bind (R := fun _ => Held planner text parsed audit) (Ends.modify ?_) fun _ =>
      andFinally_ends ?_ hdone
    · rintro _ rfl
      obtain ⟨⟨h1,h2,h3,h4,h5⟩,⟨h6,h7,h8⟩,h9⟩ := hf.toHeld
      exact ⟨⟨h1,h2,h3,h4,h5⟩,⟨h6,h7,h8⟩,h9⟩
    · rw [hf.pending]
      have hclean : Ends (Held planner text parsed audit)
          (cleanUp ⟨audit,(planner.plan parsed).matched,(planner.plan parsed).exclusionUpdates⟩)
          (fun _ => Settled planner text parsed) fun _ => Settled planner text parsed := by
        refine Ends.bind (R := fun _ => Settled planner text parsed) ?_ fun _ =>
          Ends.suppress (progress_ends Settled.steady)
        exact Ends.except restoreUnfinishedPending_ends (fun _ _ => Keeps.pure) fun _ _ _ h => h
      exact hclean.mono (fun _ h => h) (fun _ _ h => .inr ⟨parsed,h⟩) fun _ _ h => .inr ⟨parsed,h⟩

/-- The file is not yet parsed: lines were added at most. -/
structure Unread (text : Str) (w : UpdaterRun) : Prop where
  parsed_eq : w.parsed = none
  pending : w.inFlightPending = none
  lines : splitLines w.wudFile = splitLines text ++ w.appended

theorem Unread.steady : Steady (Unread text) := by
  intro w rest added h
  refine ⟨h.parsed_eq,h.pending,?_⟩
  exact (splitLines_appendLines _ _).trans (by rw [h.lines,List.append_assoc]; rfl)

theorem Unread.copies {w : UpdaterRun} (h : Unread text w) (raw : Str) :
    copies raw w.wudFile = total text w raw := by
  simp [Wudup.copies,h.lines,total]

theorem Unread.stopped {w : UpdaterRun} (h : Unread text w) : Stopped planner text w :=
  .inl ⟨h.pending,.inl ⟨h.parsed_eq,h.copies⟩⟩

theorem Unread.parse {w : UpdaterRun} (h : Unread text w) :
    Untouched planner text (wudLines w.wudFile)
      { w with
        parsed := some (wudLines w.wudFile)
        partiallySelected := (planner.plan (wudLines w.wudFile)).partiallySelected } := by
  refine ⟨⟨⟨rfl,rfl,fun raw => ?_,fun raw => ?_,fun raw => (h.copies raw).le⟩,fun raw => (h.copies raw).ge,
    ⟨w.wudFile,[],rfl,(List.append_nil _).symm⟩⟩,h.pending⟩
  · rw [original_wudLines,h.copies]
    exact Nat.le_add_right _ _
  · rw [original_wudLines]
    exact (h.copies raw).le

theorem body_ends :
    Ends (Unread text) (body planner) (fun _ => Done planner text) fun _ => Stopped planner text := by
  refine Ends.bind (R := fun parsed w => Unread text w ∧ parsed = wudLines w.wudFile) ?_ fun parsed => ?_
  · refine Ends.bind ((progress_ends Unread.steady).ends fun _ _ => Unread.stopped) fun _ => ?_
    refine Ends.get_bind fun w hw => Ends.pure ?_
    rintro _ rfl
    exact ⟨hw,rfl⟩
  refine Ends.bind (R := fun _ => Untouched planner text parsed) (Ends.modify ?_) fun _ => ?_
  · rintro w ⟨hw,rfl⟩
    exact hw.parse
  refine Ends.bind ((step_ends Untouched.steady).ends fun _ _ => Untouched.stopped) fun c => ?_
  refine Ends.ite (fun _ => ?_) fun _ => Ends.pure fun w hw => .inr ⟨parsed,hw.1.settled⟩
  refine Ends.bind prepareMutation_ends fun inFlight => Ends.exists_pre fun audit => ?_
  have hstopped : ∀ (_ : Exn) w, Flying planner text parsed audit w → Stopped planner text w :=
    fun _ _ h => .inr ⟨parsed,audit,h⟩
  by_cases hi : inFlight =
      ⟨audit,(planner.plan parsed).matched,(planner.plan parsed).exclusionUpdates⟩
  · subst hi
    refine Ends.bind (((applyUpdates_ends _).ends hstopped).pre fun _ h => h.2) fun _ => ?_
    refine Ends.bind (reconcilePendingEntries_ends.mono (fun _ h => h) (fun _ _ h => h) hstopped) fun _ => ?_
    refine Ends.bind (R := fun _ w => w.inFlightPending = none ∧ Settled planner text parsed w)
      (Ends.modify ?_) fun _ => ?_
    · rintro w ⟨hf,hk⟩
      obtain ⟨⟨h1,h2,h3,h4,h5⟩,h6,h7⟩ := hf.toHeld.settled fun _ => hk
      exact ⟨rfl,⟨h1,h2,h3,h4,h5⟩,h6,h7⟩
    · exact (progressSteps_ends (Steady.and (fun _ _ _ h => h) Settled.steady) 6).mono (fun _ h => h)
        (fun _ _ h => .inr ⟨parsed,h.2⟩) fun _ _ h => .inl ⟨h.1,.inr ⟨parsed,h.2⟩⟩
  · exact fun w h => absurd h.1 hi

theorem run_ends :
    Ends (Unread text) (run planner) (fun _ => Done planner text) fun _ => Done planner text :=
  Ends.tryCatch body_ends fun _ => Ends.bind abortRun_ends fun _ => Keeps.throw

end

/-- However a run ends and whatever it raises on the way: an entry of the parsed file is missing at the
end only if it was taken out and finished, or the reconcile found its digests stale, or it was an
unmatched line to be removed, or the abort itself failed before it wrote the file. No text is there more
often than it was and than others added it. -/
theorem run_keeps_pending (planner : Planner) (text : Str) (schedule : List RunChoice) :
    let w := (exec (run planner) { wudFile := text, schedule := schedule }).2
    (∀ raw, copies raw w.wudFile ≤ copies raw text + w.appended.count raw) ∧
      (w.parsed = none → ∀ raw, copies raw text ≤ copies raw w.wudFile) ∧
      ∀ parsed, w.parsed = some parsed →
        let plan := planner.plan parsed
        (∀ raw, copies raw text ≤ original parsed raw) ∧
        (∀ line ∈ parsed, line.raw ∉ splitLines w.wudFile → line.lineNo ∈ plan.inFlightLines ∧
          (w.finished plan line.lineNo ∨ w.reconciledStale plan line.lineNo ∨
            removedOnRequest plan line.lineNo ∨ w.restoreCut)) ∧
        (w.restoreCut = false → ∀ raw,
          selected parsed (w.pendingAgain plan) raw ≤ copies raw w.wudFile) := by
  intro w
  have hstart : Unread text { wudFile := text, schedule := schedule } :=
    ⟨rfl,rfl,(List.append_nil _).symm⟩
  have hdone : Done planner text w := by
    have h := @run_ends planner text _ hstart
    revert h
    cases hx : exec (run planner) { wudFile := text, schedule := schedule } with
    | mk r v => cases r <;> exact fun h => by simpa [w,hx] using h
  rcases hdone with ⟨hp,h⟩ | ⟨parsed,h⟩
  · refine ⟨fun raw => (h raw).le,fun _ raw => ?_,fun _ hs => by simp [hp] at hs⟩
    rw [h raw]
    exact Nat.le_add_right _ _
  · refine ⟨h.upper,fun hn => by simp [h.parsed_eq] at hn,fun parsed' hs => ?_⟩
    obtain rfl : parsed = parsed' := by simpa [h.parsed_eq] using hs
    refine ⟨h.original_ge,fun line hl hm => ⟨h.inFlight hl hm,?_⟩,h.kept⟩
    cases hc : w.restoreCut with
    | true => simp
    | false =>
      have he := h.excused hc hl hm
      simp only [Bool.or_eq_true] at he
      tauto

section
-- A file of one entry that matches one service.
def onlyEntry : Str := "nginx:1\n".toList

def onlyMatch : Match :=
  { stack :=
      { index := 1, directory := "/srv/web".toList, file := "compose.yaml".toList, name := "web".toList
        images := ["nginx:1".toList], serviceImages := [⟨"web".toList,"nginx:1".toList,[],[]⟩] }
    target :=
      { lineNo := 1, raw := "nginx:1".toList, first := "nginx:1".toList, key := "nginx:1".toList
        repo := "nginx".toList, hasTag := true, allowRepo := false, digest := [], desiredTag := [] }
    resolved := "nginx:1".toList, composeImage := "nginx:1".toList, service := "web".toList }

def onlyPlan : RunPlan :=
  { allMatches := [onlyMatch], matched := [onlyMatch], exclusionUpdates := [], exclusionFailures := []
    removeLines := [], targetLines := [1] }

def onlyPlanner : Planner where
  plan parsed := if parsed = [] then ⟨[],[],[],[],[],[]⟩ else onlyPlan
  lines_parsed parsed := by
    cases parsed with
    | nil => decide
    | cons line rest =>
      intro lineNo hn
      obtain rfl : lineNo = 1 := by simpa [RunPlan.inFlightLines,onlyPlan,onlyMatch,orderedUnique] using hn
      simp

def quiet : RunChoice := {}

/-- The stack's update raises, and so does the read of the file in the abort that follows. -/
def failsTwice : List RunChoice :=
  List.replicate 16 quiet ++ [{ raise := some .commandError },{ raise := some .osError }]

/-- When the abort cannot write the file, an entry that neither finished nor was stale is lost. -/
theorem abort_cannot_restore :
    let w := (exec (run onlyPlanner) { wudFile := onlyEntry, schedule := failsTwice }).2
    w.parsed = some (wudLines onlyEntry) ∧ onlyPlan.inFlightLines = [1] ∧ w.wudFile = [] ∧
      w.finished onlyPlan 1 = false ∧ w.staleFailedLines = [] ∧ removedOnRequest onlyPlan 1 = false := by
  decide

def failsOnce : UpdaterRun :=
  { wudFile := onlyEntry, schedule := List.replicate 16 quiet ++ [{ raise := some .commandError }] }

theorem failsOnce_ends : (exec (run onlyPlanner) failsOnce).2.parsed = some (wudLines onlyEntry) ∧
    (exec (run onlyPlanner) failsOnce).2.restoreCut = false := by
  decide

/-- With a working abort the entry is in the file again. -/
theorem abort_restores :
    selected (wudLines onlyEntry) ((exec (run onlyPlanner) failsOnce).2.pendingAgain onlyPlan)
        "nginx:1".toList ≤ copies "nginx:1".toList (exec (run onlyPlanner) failsOnce).2.wudFile :=
  have h := (run_keeps_pending onlyPlanner onlyEntry failsOnce.schedule).2.2
  (h (wudLines onlyEntry) failsOnce_ends.1).2.2 failsOnce_ends.2 _

end
end UpdaterRun
end Wudup
