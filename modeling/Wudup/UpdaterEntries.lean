import Wudup.UpdaterRun

/-! What is known of the todo file while entries are taken out of it and put back. -/
namespace Wudup
open Library Library.Program

theorem splitLines_appendLines (text : Str) (added : List Line) :
    splitLines (appendLines text added) = splitLines text ++ added.map (·.val) := by
  unfold appendLines
  split
  · rename_i h
    simp [h]
  · refine splitLines_joinLines fun line hl => ?_
    rcases List.mem_append.mp hl with hl | hl
    · exact newline_not_mem_of_mem_splitLines hl
    · obtain ⟨l,_,rfl⟩ := List.mem_map.mp hl
      exact l.2

theorem copies_appendLines (text raw : Str) (added : List Line) :
    copies raw (appendLines text added) = copies raw text + (added.map (·.val)).count raw := by
  unfold copies
  rw [splitLines_appendLines,List.count_append]

theorem wudLines_of_splitLines_append {text more : Str} {extra : List Str}
    (h : splitLines more = splitLines text ++ extra) :
    wudLines more = wudLines text ++
      (extra.zipIdx (splitLines text).length).map fun (raw,i) => ⟨i+1,actionable raw,raw⟩ := by
  unfold wudLines
  rw [h,List.zipIdx_append,List.map_append,Nat.zero_add]

theorem selected_append (parsed extra : List WudLine) (lines : List ℕ) (raw : Str) :
    selected (parsed ++ extra) lines raw = selected parsed lines raw + selected extra lines raw := by
  simp [selected,neededLines]

theorem selected_mono {few many : List ℕ} (h : ∀ n ∈ few, n ∈ many) (parsed : List WudLine) (raw : Str) :
    selected parsed few raw ≤ selected parsed many raw := by
  refine List.Sublist.count_le raw (List.Sublist.map _ ?_)
  refine List.monotone_filter_right parsed fun line hl => ?_
  simp only [List.contains_iff_mem] at hl ⊢
  exact h _ hl

namespace UpdaterRun
variable {α β : Type}

/-- The lines of the file at the start and those added since. -/
def total (text : Str) (w : UpdaterRun) (raw : Str) : ℕ := copies raw text + w.appended.count raw

/-- The outside's move: some lines are added, an answer is used up. -/
def land (w : UpdaterRun) (rest : List RunChoice) (added : List Line) : UpdaterRun :=
  { w with
    schedule := rest
    wudFile := appendLines w.wudFile added
    appended := w.appended ++ added.map (·.val) }

/-- A condition no move of the outside breaks. -/
def Steady (P : UpdaterRun → Prop) : Prop := ∀ w rest added, P w → P (w.land rest added)

theorem Steady.advance {P : UpdaterRun → Prop} (hP : Steady P) {w : UpdaterRun} (hw : P w) : P w.advance := by
  unfold UpdaterRun.advance
  split
  · exact hw
  · exact hP w _ _ hw

section
variable (planner : Planner) (text : Str)

/-- What is known once the file is parsed. -/
structure Parsing (parsed : List WudLine) (w : UpdaterRun) : Prop where
  parsed_eq : w.parsed = some parsed
  partial_eq : w.partiallySelected = (planner.plan parsed).partiallySelected
  original_ge : ∀ raw, copies raw text ≤ original parsed raw
  original_le : ∀ raw, original parsed raw ≤ total text w raw
  upper : ∀ raw, copies raw w.wudFile ≤ total text w raw

/-- Nothing was taken out yet. -/
structure Intact (parsed : List WudLine) (w : UpdaterRun) : Prop extends Parsing planner text parsed w where
  total_le : ∀ raw, total text w raw ≤ copies raw w.wudFile
  extended : ∃ before extra, parsed = wudLines before ∧ Appends before w.wudFile extra

/-- What an audit parse has of the parsed lines: all of them, with their numbers, and only lines that
the file held. -/
structure AuditOf (parsed audit : List WudLine) (w : UpdaterRun) : Prop where
  clean : Parsed audit
  extends_parsed : ∃ extra, audit = parsed ++ extra ∧ ∀ line ∈ extra, parsed.length < line.lineNo
  original_le : ∀ raw, original audit raw ≤ total text w raw

/-- Entries are out of the file; only those in flight may be missing. -/
structure Held (parsed audit : List WudLine) (w : UpdaterRun) : Prop extends
    Parsing planner text parsed w where
  audit_of : AuditOf text parsed audit w
  lower : ∀ raw, total text w raw ≤
    copies raw w.wudFile + selected parsed (planner.plan parsed).inFlightLines raw

end

section
variable {planner : Planner} {text : Str} {parsed audit : List WudLine}

theorem total_land (w : UpdaterRun) (rest : List RunChoice) (added : List Line) (raw : Str) :
    total text (w.land rest added) raw = total text w raw + (added.map (·.val)).count raw := by
  simp [total,land,Nat.add_assoc]

theorem copies_land (w : UpdaterRun) (rest : List RunChoice) (added : List Line) (raw : Str) :
    copies raw (w.land rest added).wudFile = copies raw w.wudFile + (added.map (·.val)).count raw :=
  copies_appendLines _ _ _

theorem Parsing.steady : Steady (Parsing planner text parsed) := by
  intro w rest added h
  refine ⟨h.parsed_eq,h.partial_eq,h.original_ge,fun raw => ?_,fun raw => ?_⟩
  · rw [total_land]
    exact (h.original_le raw).trans (Nat.le_add_right _ _)
  · rw [total_land,copies_land]
    have := h.upper raw
    omega

theorem Intact.steady : Steady (Intact planner text parsed) := by
  intro w rest added h
  refine ⟨Parsing.steady w rest added h.toParsing,fun raw => ?_,?_⟩
  · rw [total_land,copies_land]
    have := h.total_le raw
    omega
  · obtain ⟨before,extra,hb,he⟩ := h.extended
    refine ⟨before,extra ++ added.map (·.val),hb,?_⟩
    exact (splitLines_appendLines _ _).trans (by rw [he,List.append_assoc])

theorem AuditOf.steady : Steady (AuditOf text parsed audit) := by
  intro w rest added h
  refine ⟨h.clean,h.extends_parsed,fun raw => ?_⟩
  rw [total_land]
  have := h.original_le raw
  omega

theorem Held.steady : Steady (Held planner text parsed audit) := by
  intro w rest added h
  refine ⟨Parsing.steady w rest added h.toParsing,AuditOf.steady w rest added h.audit_of,fun raw => ?_⟩
  rw [total_land,copies_land]
  have := h.lower raw
  omega

theorem Steady.and {P Q : UpdaterRun → Prop} (hP : Steady P) (hQ : Steady Q) :
    Steady fun w => P w ∧ Q w := fun w rest added h => ⟨hP w rest added h.1,hQ w rest added h.2⟩

/-- The file as it is now, parsed, extends the lines parsed before. -/
theorem Intact.audit_wudFile {w : UpdaterRun} (h : Intact planner text parsed w) :
    AuditOf text parsed (wudLines w.wudFile) w := by
  refine ⟨wudLines_parsed _,?_,fun raw => ?_⟩
  · obtain ⟨before,extra,rfl,he⟩ := h.extended
    refine ⟨_,wudLines_of_splitLines_append he,fun line hl => ?_⟩
    obtain ⟨⟨raw,i⟩,hm,rfl⟩ := List.mem_map.mp hl
    have := List.le_snd_of_mem_zipIdx hm
    simp only [wudLines,List.length_map,List.length_zipIdx]
    omega
  · rw [original_wudLines]
    exact h.upper raw

theorem Intact.audit_parsed {w : UpdaterRun} (h : Intact planner text parsed w) :
    AuditOf text parsed parsed w := by
  obtain ⟨before,extra,rfl,he⟩ := h.extended
  refine ⟨wudLines_parsed _,⟨[],by simp,by simp⟩,fun raw => ?_⟩
  rw [original_wudLines]
  have := h.upper raw
  have := he.copies raw
  omega

/-- Taking lines out of an intact file leaves all but those lines. -/
theorem Intact.remove {w : UpdaterRun} (h : Intact planner text parsed w)
    (ha : AuditOf text parsed audit w) {lines : List ℕ} (hl : lines = (planner.plan parsed).inFlightLines)
    (hn : lines ≠ []) :
    Held planner text parsed audit { w with wudFile := removeLinesBeforeRun audit lines w.wudFile } := by
  have hc := fun raw => copies_removeLinesBeforeRun ha.clean hn w.wudFile raw
  have htotal : ∀ raw, copies raw w.wudFile = total text w raw := fun raw =>
    Nat.le_antisymm (h.upper raw) (h.total_le raw)
  refine ⟨⟨h.parsed_eq,h.partial_eq,h.original_ge,h.original_le,fun raw => ?_⟩,
    ⟨ha.clean,ha.extends_parsed,ha.original_le⟩,fun raw => ?_⟩
  · have := hc raw
    have := ha.original_le raw
    have := htotal raw
    simp only [total] at *
    omega
  · have hsel : selected audit lines raw = selected parsed lines raw := by
      obtain ⟨extra,rfl,he⟩ := ha.extends_parsed
      rw [selected_append]
      have hnone : selected extra lines raw = 0 := by
        unfold selected neededLines
        rw [List.filter_eq_nil_iff.mpr,List.map_nil,List.count_nil]
        intro line hline hc
        have h1 := he line hline
        have h2 := planner.lines_parsed parsed line.lineNo (by
          rw [← hl]
          simpa using hc)
        omega
      omega
    subst hl
    have := hc raw
    have := ha.original_le raw
    have := htotal raw
    simp only [total] at *
    omega

/-- Putting lines back adds none that was not there before. -/
theorem Held.restore {w : UpdaterRun} (h : Held planner text parsed audit w) (lines : List ℕ) :
    Held planner text parsed audit { w with wudFile := restoreFailedLines audit lines w.wudFile } := by
  have hc := fun raw => copies_restoreFailedLines h.audit_of.clean lines w.wudFile raw
  refine ⟨⟨h.parsed_eq,h.partial_eq,h.original_ge,h.original_le,fun raw => ?_⟩,
    ⟨h.audit_of.clean,h.audit_of.extends_parsed,h.audit_of.original_le⟩,fun raw => ?_⟩
  · have := hc raw
    have := h.upper raw
    have := h.audit_of.original_le raw
    have := selected_le_original audit lines raw
    simp only [total] at *
    omega
  · have := hc raw
    have := h.lower raw
    simp only [total] at *
    omega

theorem Intact.original_le_copies {w : UpdaterRun} (h : Intact planner text parsed w) (raw : Str) :
    original parsed raw ≤ copies raw w.wudFile := by
  obtain ⟨before,extra,rfl,he⟩ := h.extended
  rw [original_wudLines,he.copies]
  omega

theorem Intact.held {w : UpdaterRun} (h : Intact planner text parsed w)
    (ha : AuditOf text parsed audit w) : Held planner text parsed audit w :=
  ⟨h.toParsing,ha,fun raw => (h.total_le raw).trans (Nat.le_add_right _ _)⟩

end

section
variable {w : UpdaterRun} {plan : RunPlan} {lineNo : ℕ}

theorem mem_unfinished_of_match {m : Match} (hm : m ∈ plan.matched)
    (hf : succeeded (w.stackStatuses m.stack.index) = false) :
    m.target.lineNo ∈ w.unfinished plan.matched plan.exclusionUpdates := by
  refine List.mem_append_left _ (List.mem_filter.mpr ⟨?_,?_⟩)
  · rw [List.mem_insertionSort,mem_orderedUnique]
    exact List.mem_map_of_mem hm
  · exact List.any_eq_true.mpr ⟨m,hm,by simp [hf]⟩

theorem mem_unfinished_of_exclusion {u : TagExclusionUpdate} (hu : u ∈ plan.exclusionUpdates)
    (hf : succeeded (w.exclusionStatuses (u.stack.index,u.sourceLine)) = false) :
    u.sourceLine ∈ w.unfinished plan.matched plan.exclusionUpdates := by
  refine List.mem_append_right _ ?_
  rw [List.mem_insertionSort,mem_orderedUnique]
  exact List.mem_map_of_mem (List.mem_filter.mpr ⟨hu,by simp [hf]⟩)

/-- A line taken out that neither finished nor was to be removed has an outcome that is no success. -/
theorem mem_unfinished (hn : lineNo ∈ w.pendingAgain plan) :
    lineNo ∈ w.unfinished plan.matched plan.exclusionUpdates ++ plan.partiallySelected := by
  obtain ⟨hin,hn⟩ := List.mem_filter.mp hn
  by_contra hnot
  obtain ⟨hu,hp⟩ := not_or.mp (mt List.mem_append.mpr hnot)
  have hmatched : ∀ m ∈ plan.matched, m.target.lineNo = lineNo → succeeded (w.stackStatuses m.stack.index) := by
    intro m hm hl
    by_contra hf
    exact hu (hl ▸ mem_unfinished_of_match hm (by simpa using hf))
  have hexcluded : ∀ u ∈ plan.exclusionUpdates, u.sourceLine = lineNo →
      succeeded (w.exclusionStatuses (u.stack.index,u.sourceLine)) := by
    intro u hm hl
    by_contra hf
    exact hu (hl ▸ mem_unfinished_of_exclusion hm (by simpa using hf))
  cases ht : (plan.matched.map (·.target.lineNo) ++ plan.exclusionUpdates.map (·.sourceLine)).contains lineNo with
  | true =>
    have hf : w.finished plan lineNo = true := by
      unfold finished
      rw [ht]
      simp only [Bool.true_and,Bool.and_eq_true,List.all_eq_true,Bool.or_eq_true,decide_eq_true_eq,
        Bool.not_eq_true',List.contains_eq_mem,decide_eq_false_iff_not]
      exact ⟨⟨fun m hm => Decidable.or_iff_not_imp_left.mpr fun hl => hmatched m hm (not_not.mp hl),
        fun u hm => Decidable.or_iff_not_imp_left.mpr fun hl => hexcluded u hm (not_not.mp hl)⟩,hp⟩
    simp [hf] at hn
  | false =>
    have hr : lineNo ∈ plan.removeLines := by
      have hin := mem_orderedUnique.mp ((List.mem_insertionSort _).mp hin)
      simp only [List.contains_eq_mem,decide_eq_false_iff_not,List.mem_append,not_or] at ht
      simpa [ht.1,ht.2] using hin
    have hrequest : removedOnRequest plan lineNo = true := by
      rw [removedOnRequest,ht]
      simpa using hr
    simp [hrequest] at hn

/-- The reconcile restores every line that has to be in the file again. -/
theorem mem_restoreLineNumbers (hs : w.staleFailedLines = w.staleFailed plan)
    (hp : w.partiallySelected = plan.partiallySelected) (hn : lineNo ∈ w.pendingAgain plan) :
    lineNo ∈ w.restoreLineNumbers plan := by
  have hu := mem_unfinished hn
  unfold restoreLineNumbers
  rw [hp]
  rcases List.mem_append.mp hu with hu | hu
  · refine List.mem_append_left _ (List.mem_filter.mpr ⟨hu,?_⟩)
    obtain ⟨-,hn⟩ := List.mem_filter.mp hn
    by_contra hstale
    have hstale : lineNo ∈ w.staleFailed plan := by simpa using hstale
    have hr := (List.mem_filter.mp hstale).2
    simp only [Bool.and_eq_true] at hr
    simp [reconciledStale,hs,hstale,hr.1] at hn
  · exact List.mem_append_right _ hu

end

section
variable (planner : Planner) (text : Str)

/-- The file at the end: what was taken out and has to be there again is there, unless the abort was
itself cut off. -/
structure Settled (parsed : List WudLine) (w : UpdaterRun) : Prop extends Parsing planner text parsed w where
  lower : ∀ raw, total text w raw ≤
    copies raw w.wudFile + selected parsed (planner.plan parsed).inFlightLines raw
  kept : w.restoreCut = false → ∀ raw,
    selected parsed (w.pendingAgain (planner.plan parsed)) raw ≤ copies raw w.wudFile

/-- The file was never parsed, or it is settled. -/
def Done (w : UpdaterRun) : Prop :=
  (w.parsed = none ∧ ∀ raw, copies raw w.wudFile = total text w raw) ∨ ∃ parsed, Settled planner text parsed w

/-- Entries are out of the file and on record. -/
structure Flying (parsed audit : List WudLine) (w : UpdaterRun) : Prop extends
    Held planner text parsed audit w where
  pending : w.inFlightPending =
    some ⟨audit,(planner.plan parsed).matched,(planner.plan parsed).exclusionUpdates⟩

end

section
variable {planner : Planner} {text : Str} {parsed audit : List WudLine}

theorem Settled.steady : Steady (Settled planner text parsed) := by
  intro w rest added h
  refine ⟨Parsing.steady w rest added h.toParsing,fun raw => ?_,fun hc raw => ?_⟩
  · rw [total_land,copies_land]
    have := h.lower raw
    omega
  · rw [copies_land]
    exact (h.kept hc raw).trans (Nat.le_add_right _ _)

theorem Done.steady : Steady (Done planner text) := by
  rintro w rest added (⟨hp,h⟩ | ⟨parsed,h⟩)
  · refine .inl ⟨hp,fun raw => ?_⟩
    rw [total_land,copies_land,h raw]
  · exact .inr ⟨parsed,Settled.steady w rest added h⟩

theorem Flying.steady : Steady (Flying planner text parsed audit) := fun w rest added h =>
  ⟨Held.steady w rest added h.toHeld,h.pending⟩

/-- Recording an outcome leaves the file and the entries in flight alone. -/
theorem Flying.of_same {w v : UpdaterRun} (h : Flying planner text parsed audit w)
    (hf : v.wudFile = w.wudFile) (ha : v.appended = w.appended) (hp : v.parsed = w.parsed)
    (hs : v.partiallySelected = w.partiallySelected) (hi : v.inFlightPending = w.inFlightPending) :
    Flying planner text parsed audit v := by
  obtain ⟨⟨⟨h1,h2,h3,h4,h5⟩,⟨h6,h7,h8⟩,h9⟩,h10⟩ := h
  have ht : total text v = total text w := by
    funext raw
    rw [total,total,ha]
  refine ⟨⟨⟨by rw [hp,h1],by rw [hs,h2],h3,by rwa [ht],by rwa [ht,hf]⟩,⟨h6,h7,by rwa [ht]⟩,?_⟩,by rw [hi,h10]⟩
  rwa [ht,hf]

theorem Intact.settled {w : UpdaterRun} (h : Intact planner text parsed w) : Settled planner text parsed w :=
  ⟨h.toParsing,fun raw => (h.total_le raw).trans (Nat.le_add_right _ _),fun _ raw =>
    (selected_le_original _ _ _).trans (h.original_le_copies raw)⟩

/-- The lines to restore cover what has to be in the file again. -/
def Covers (planner : Planner) (parsed : List WudLine) (lines : List ℕ) (w : UpdaterRun) : Prop :=
  ∀ n ∈ w.pendingAgain (planner.plan parsed), n ∈ lines

/-- What has to be in the file again is there. -/
def Kept (planner : Planner) (parsed : List WudLine) (w : UpdaterRun) : Prop :=
  ∀ raw, selected parsed (w.pendingAgain (planner.plan parsed)) raw ≤ copies raw w.wudFile

theorem Covers.steady {lines : List ℕ} : Steady (Covers planner parsed lines) := fun _ _ _ h => h

theorem Kept.steady : Steady (Kept planner parsed) := by
  intro w rest added h raw
  rw [copies_land]
  exact (h raw).trans (Nat.le_add_right _ _)

theorem AuditOf.selected_le {w : UpdaterRun} (h : AuditOf text parsed audit w) (lines : List ℕ) (raw : Str) :
    selected parsed lines raw ≤ selected audit lines raw := by
  obtain ⟨extra,rfl,-⟩ := h.extends_parsed
  rw [selected_append]
  omega

/-- Putting covering lines back keeps what has to be kept. -/
theorem Held.kept {w : UpdaterRun} (h : Held planner text parsed audit w) {lines : List ℕ}
    (hc : Covers planner parsed lines w) :
    Kept planner parsed { w with wudFile := restoreFailedLines audit lines w.wudFile } := by
  intro raw
  refine (selected_mono hc parsed raw).trans ((h.audit_of.selected_le lines raw).trans ?_)
  rw [copies_restoreFailedLines h.audit_of.clean]
  exact Nat.le_max_right _ _

theorem restoreFailedLines_of_none {lines : List ℕ} (h : neededLines audit lines = []) (file : Str) :
    restoreFailedLines audit lines file = file := by
  rw [restoreFailedLines,if_pos h]

theorem Held.settled {w : UpdaterRun} (h : Held planner text parsed audit w)
    (hk : w.restoreCut = false → Kept planner parsed w) : Settled planner text parsed w :=
  ⟨h.toParsing,h.lower,hk⟩

/-- A text that is missing had all its lines taken out. -/
theorem Settled.inFlight {w : UpdaterRun} (h : Settled planner text parsed w) {line : WudLine}
    (hl : line ∈ parsed) (hm : line.raw ∉ splitLines w.wudFile) :
    line.lineNo ∈ (planner.plan parsed).inFlightLines := by
  have hzero : Wudup.copies line.raw w.wudFile = 0 := List.count_eq_zero.mpr hm
  have hlower := h.lower line.raw
  have hle := h.original_le line.raw
  have hp := count_preserved parsed (planner.plan parsed).inFlightLines line.raw
  have hnone : line.raw ∉
      (parsed.filter fun l => !(planner.plan parsed).inFlightLines.contains l.lineNo).map (·.raw) :=
    List.count_eq_zero.mp (by omega)
  by_contra hn
  exact hnone (List.mem_map_of_mem (List.mem_filter.mpr ⟨hl,by simpa using hn⟩))

theorem Settled.excused {w : UpdaterRun} (h : Settled planner text parsed w) (hc : w.restoreCut = false)
    {line : WudLine} (hl : line ∈ parsed) (hm : line.raw ∉ splitLines w.wudFile) :
    (w.finished (planner.plan parsed) line.lineNo || w.reconciledStale (planner.plan parsed) line.lineNo ||
      removedOnRequest (planner.plan parsed) line.lineNo) = true := by
  have hzero : Wudup.copies line.raw w.wudFile = 0 := List.count_eq_zero.mpr hm
  have hkept := h.kept hc line.raw
  have hnone : line.raw ∉ neededLines parsed (w.pendingAgain (planner.plan parsed)) :=
    List.count_eq_zero.mp (by unfold selected at hkept; omega)
  by_contra hn
  refine hnone (List.mem_map_of_mem (List.mem_filter.mpr ⟨hl,?_⟩))
  simp only [List.contains_iff_mem]
  exact List.mem_filter.mpr ⟨h.inFlight hl hm,by simpa using hn⟩

end
end UpdaterRun
end Wudup
