import Wudup.ComposeSource

/-! The lines of a source: where they start and stop, and in what order they come. -/
namespace Wudup
open Library

theorem lineBreakEnds_bounds {offset e : ℕ} {text : Str} (h : e ∈ lineBreakEnds offset text) :
    offset < e ∧ e ≤ offset + text.length ∧ text[e - 1 - offset]? = some '\n' := by
  induction text generalizing offset with
  | nil => cases h
  | cons c text ih =>
    have hlater : e ∈ lineBreakEnds (offset + 1) text →
        offset < e ∧ e ≤ offset + (c :: text).length ∧ (c :: text)[e - 1 - offset]? = some '\n' := by
      intro h
      obtain ⟨hlt,hle,hget⟩ := ih h
      have hindex : e - 1 - offset = e - 1 - (offset + 1) + 1 := by omega
      rw [hindex,List.getElem?_cons_succ,List.length_cons]
      exact ⟨by omega,by omega,hget⟩
    rw [lineBreakEnds] at h
    split_ifs at h with hc
    · obtain rfl | h := List.mem_cons.mp h
      · simp [hc]
      · exact hlater h
    · exact hlater h

theorem mem_lineBreakEnds {i : ℕ} {text : Str} (offset : ℕ) (h : text[i]? = some '\n') :
    offset + i + 1 ∈ lineBreakEnds offset text := by
  induction text generalizing offset i with
  | nil => simp at h
  | cons c text ih =>
    rw [lineBreakEnds]
    cases i with
    | zero =>
      obtain rfl : c = '\n' := by simpa using h
      simp
    | succ i =>
      have hmem := ih (offset + 1) (i := i) (by simpa using h)
      rw [show offset + 1 + i + 1 = offset + (i + 1) + 1 by omega] at hmem
      split_ifs
      · exact List.mem_cons_of_mem _ hmem
      · exact hmem

theorem lineBreakEnds_sorted (offset : ℕ) (text : Str) : (lineBreakEnds offset text).Pairwise (· < ·) := by
  induction text generalizing offset with
  | nil => exact .nil
  | cons c text ih =>
    rw [lineBreakEnds]
    split_ifs
    · exact .cons (fun e he => (lineBreakEnds_bounds he).1) (ih _)
    · exact ih _

theorem lineStartOffsets_sorted (source : Str) : (lineStartOffsets source).Pairwise (· < ·) :=
  .cons (fun _ he => (lineBreakEnds_bounds he).1) (lineBreakEnds_sorted 0 source)

theorem lineStart_lt {source : Str} {n m a b : ℕ} (ha : (lineStartOffsets source)[n]? = some a)
    (hb : (lineStartOffsets source)[m]? = some b) (h : n < m) : a < b := by
  obtain ⟨hn,rfl⟩ := List.getElem?_eq_some_iff.mp ha
  obtain ⟨hm,rfl⟩ := List.getElem?_eq_some_iff.mp hb
  exact List.pairwise_iff_getElem.mp (lineStartOffsets_sorted source) n m hn hm h

/-- A line that is not the first starts behind a line feed. -/
theorem lineStart_behind {source : Str} {n start : ℕ} (h : (lineStartOffsets source)[n]? = some start)
    (hn : 0 < n) : 0 < start ∧ start ≤ source.length ∧ source[start - 1]? = some '\n' := by
  obtain ⟨m,rfl⟩ : ∃ m, n = m + 1 := ⟨n - 1,by omega⟩
  have hmem : start ∈ lineBreakEnds 0 source := List.mem_of_getElem? h
  simpa using lineBreakEnds_bounds hmem

theorem lineStart_le_length {source : Str} {n start : ℕ} (h : (lineStartOffsets source)[n]? = some start) :
    start ≤ source.length := by
  cases n with
  | zero =>
    obtain rfl : 0 = start := by simpa [lineStartOffsets] using h
    exact Nat.zero_le _
  | succ n => exact (lineStart_behind h (Nat.succ_pos n)).2.1

/-- A line of a source: its text lies between its offsets, without a line feed but up to one or to the end. -/
structure IsLine (source : Str) (n : ℕ) (line : SourceLine) (ending rest : Str) : Prop where
  text : source.drop line.start = line.body ++ (ending ++ rest)
  carriage : ∀ c ∈ ending, c = '\r'
  stop : line.stop = line.start + (line.body.length + ending.length)
  noBreak : '\n' ∉ line.body
  start : (lineStartOffsets source)[n]? = some line.start
  rest : ∀ c ∈ rest.head?, c = '\n'

theorem isLine {source : Str} {n : ℕ} {line : SourceLine} (h : sourceLine source n = some line) :
    ∃ ending rest, IsLine source n line ending rest := by
  unfold sourceLine at h
  obtain ⟨start,hstart,rfl⟩ := Option.map_eq_some_iff.mp h
  have hsplit := List.takeWhile_append_dropWhile (p := fun c => decide (c ≠ '\n')) (l := source.drop start)
  have hno : '\n' ∉ (source.drop start).takeWhile fun c => decide (c ≠ '\n') := fun hmem => by
    simpa using List.mem_takeWhile_imp hmem
  have hrest : ∀ c ∈ ((source.drop start).dropWhile fun c => decide (c ≠ '\n')).head?, c = '\n' := by
    intro c hc
    have := List.head?_dropWhile_not (fun c => decide (c ≠ '\n')) (source.drop start)
    rw [hc] at this
    simpa using this
  generalize (source.drop start).takeWhile (fun c => decide (c ≠ '\n')) = taken at hsplit hno ⊢
  generalize (source.drop start).dropWhile (fun c => decide (c ≠ '\n')) = behind at hsplit hrest
  by_cases hreturn : taken.getLast? = some '\r'
  · obtain ⟨body,rfl⟩ := List.getLast?_eq_some_iff.mp hreturn
    refine ⟨['\r'],behind,?_,?_,?_,?_,hstart,hrest⟩
    · rw [← hsplit]
      simp
    · simp
    · simp
    · simp only [hreturn,if_true]
      exact fun hmem => hno ((List.dropLast_sublist _).subset hmem)
  · refine ⟨[],behind,?_,?_,?_,?_,hstart,hrest⟩
    · simp only [hreturn,if_false]
      exact hsplit.symm
    · simp
    · simp [hreturn]
    · simpa only [hreturn,if_false] using hno

section
variable {source ending rest : Str} {n : ℕ} {line : SourceLine}

theorem IsLine.length (h : IsLine source n line ending rest) :
    line.start + (line.body.length + (ending.length + rest.length)) = source.length := by
  have hle := lineStart_le_length h.start
  have hlength := congrArg List.length h.text
  simp only [List.length_drop,List.length_append] at hlength
  omega

theorem IsLine.stop_le (h : IsLine source n line ending rest) : line.stop ≤ source.length := by
  rw [h.stop,← h.length]
  omega

theorem IsLine.drop_stop (h : IsLine source n line ending rest) : source.drop line.stop = rest := by
  rw [h.stop,← List.drop_drop,h.text,← List.append_assoc]
  exact List.drop_left' (by simp)

/-- No line feed stands between the start and the stop of a line. -/
theorem IsLine.stop_lt {start : ℕ} (h : IsLine source n line ending rest)
    (hstart : line.start < start) (hbreak : source[start - 1]? = some '\n') : line.stop < start := by
  by_contra hle
  have hindex : start - 1 - line.start < (line.body ++ ending).length := by
    rw [List.length_append]
    have := h.stop
    omega
  have hget : ((line.body ++ ending) ++ rest)[start - 1 - line.start]? = some '\n' := by
    rw [List.append_assoc,← h.text,List.getElem?_drop,Nat.add_sub_cancel' (by omega)]
    exact hbreak
  rw [List.getElem?_append_left hindex] at hget
  obtain hbody | hending := List.mem_append.mp (List.mem_of_getElem? hget)
  · exact h.noBreak hbody
  · exact absurd (h.carriage _ hending) (by decide)

theorem IsLine.stop_lt_start {m : ℕ} {behind : SourceLine} {ending' rest' : Str}
    (h : IsLine source n line ending rest) (h' : IsLine source m behind ending' rest') (hlt : n < m) :
    line.stop < behind.start :=
  h.stop_lt (lineStart_lt h.start h'.start hlt) (lineStart_behind h'.start (by omega)).2.2

/-- The line behind a line starts behind its line feed. -/
theorem IsLine.next_start {behind : SourceLine} {ending' rest' : Str} (h : IsLine source n line ending rest)
    (h' : IsLine source (n + 1) behind ending' rest') : behind.start = line.stop + 1 := by
  have hlt := h.stop_lt_start h' (Nat.lt_succ_self n)
  have hle := lineStart_le_length h'.start
  have hbreak : source[line.stop]? = some '\n' := by
    have hget : source[line.stop]? = rest.head? := by
      rw [← h.drop_stop,List.head?_drop]
    have hsome : line.stop < source.length := by omega
    rw [List.getElem?_eq_getElem hsome] at hget ⊢
    rw [h.rest _ hget.symm]
  have hmem := mem_lineBreakEnds 0 hbreak
  rw [Nat.zero_add] at hmem
  obtain ⟨j,hj⟩ := List.mem_iff_getElem?.mp (List.mem_cons_of_mem 0 hmem)
  have hj' : (lineStartOffsets source)[j]? = some (line.stop + 1) := hj
  -- The offset behind the line feed is that of a later line, and of the first one.
  obtain hn | hn := Nat.lt_or_ge n j
  · obtain rfl | hlater := Nat.eq_or_lt_of_le hn
    · exact Option.some.inj (h'.start.symm.trans hj')
    · have := lineStart_lt h'.start hj' hlater
      omega
  · have hstop := h.stop
    obtain rfl | hbefore := Nat.eq_or_lt_of_le hn
    · have := Option.some.inj (h.start.symm.trans hj')
      omega
    · have := lineStart_lt hj' h.start hbefore
      omega

end

theorem le_lineIndentWidth {blanks : Str} (h : blanks.all isBlank = true) (rest : Str) :
    blanks.length ≤ lineIndentWidth (blanks ++ rest) := by
  unfold lineIndentWidth
  rw [List.takeWhile_append_of_pos (List.all_eq_true.mp h),List.length_append]
  exact Nat.le_add_right _ _

/-- A rewrite within one line of the source. -/
def InLine (source : Str) (start stop : ℕ) : Prop :=
  ∃ n line, sourceLine source n = some line ∧ line.start ≤ start ∧ stop ≤ line.stop

/-- No line starts inside another one. -/
theorem lineStart_apart {source : Str} {n start stop : ℕ} {line : SourceLine} (h : sourceLine source n = some line)
    (hline : InLine source start stop) : line.start ≤ start ∨ stop ≤ line.start := by
  obtain ⟨m,other,hother,hstart,hstop⟩ := hline
  obtain ⟨_,_,h⟩ := isLine h
  obtain ⟨_,_,hother⟩ := isLine hother
  have hle := h.stop
  obtain hlt | rfl | hlt := Nat.lt_trichotomy n m
  · have := h.stop_lt_start hother hlt
    omega
  · have := Option.some.inj (h.start.symm.trans hother.start)
    omega
  · have := hother.stop_lt_start h hlt
    omega

theorem filterMap_range {β γ : Type} (f : β → γ) (xs : List β) :
    ((List.range xs.length).filterMap fun n => xs[n]?.map f) = xs.map f := by
  induction xs with
  | nil => rfl
  | cons x xs ih =>
    rw [List.length_cons,List.range_succ_eq_map,List.filterMap_cons,List.filterMap_map]
    exact congrArg (f x :: ·) ih

theorem getElem?_lines (source : Str) (n : ℕ) :
    ((List.range (lineStartOffsets source).length).filterMap (sourceLine source))[n]? = sourceLine source n := by
  unfold sourceLine
  rw [filterMap_range,List.getElem?_map]

/-- Where a block below a key stops: at the end, or at the first line that is not indented deeper. -/
theorem yamlBlockEndOffset_spec (source : Str) (key : Location) :
    yamlBlockEndOffset source key = source.length ∨ ∃ n line, key.line < n ∧ sourceLine source n = some line ∧
      yamlBlockEndOffset source key = line.start ∧ lineIndentWidth line.body ≤ key.col ∧
      ∀ m before, key.line < m → m < n → sourceLine source m = some before → strip before.body ≠ [] →
        key.col < lineIndentWidth before.body := by
  unfold yamlBlockEndOffset
  dsimp only
  split
  · next line hfind =>
    obtain ⟨hline,i,hi,hget,hbefore⟩ := List.find?_eq_some_iff_getElem.mp hfind
    right
    simp only [Bool.and_eq_true,decide_eq_true_eq] at hline
    have hlines : sourceLine source (key.line + 1 + i) = some line := by
      rw [← getElem?_lines,← List.getElem?_drop,List.getElem?_eq_getElem hi,hget]
    refine ⟨key.line + 1 + i,line,by omega,hlines,rfl,hline.2,?_⟩
    intro m before hlt hm hsource hstrip
    obtain ⟨j,rfl⟩ : ∃ j, m = key.line + 1 + j := ⟨m - (key.line + 1),by omega⟩
    have hj : j < i := by omega
    rw [← getElem?_lines,← List.getElem?_drop] at hsource
    obtain ⟨_,hget'⟩ := List.getElem?_eq_some_iff.mp hsource
    have hnot := hbefore j hj
    rw [hget'] at hnot
    by_contra hle
    simp [hstrip] at hnot
    omega
  · exact .inl rfl

theorem blockEnd_apart_line {source : Str} {start stop : ℕ} (key : Location) (h : InLine source start stop) :
    yamlBlockEndOffset source key ≤ start ∨ stop ≤ yamlBlockEndOffset source key := by
  obtain hend | ⟨n,line,_,hline,hoffset,_⟩ := yamlBlockEndOffset_spec source key
  · obtain ⟨_,line,hline,_,hstop⟩ := h
    obtain ⟨_,_,hline⟩ := isLine hline
    exact .inr (hend ▸ hstop.trans hline.stop_le)
  · exact hoffset ▸ lineStart_apart hline h

/-- A block does not stop between a line and a deeper one behind it, unless its key is on the first of them:
what ends it at the deeper line would have ended it at the line before. -/
theorem blockEnd_apart_lines {source : Str} {key : Location} {n : ℕ} {first second : SourceLine}
    (hfirst : sourceLine source n = some first) (hsecond : sourceLine source (n + 1) = some second)
    (hstrip : strip first.body ≠ []) (hdeeper : lineIndentWidth first.body < lineIndentWidth second.body)
    (hkey : key.line ≠ n) :
    yamlBlockEndOffset source key ≤ first.start ∨ second.stop ≤ yamlBlockEndOffset source key := by
  obtain ⟨_,_,hisFirst⟩ := isLine hfirst
  obtain ⟨_,_,hisSecond⟩ := isLine hsecond
  obtain hend | ⟨m,line,hbehind,hline,hoffset,hindent,hbefore⟩ := yamlBlockEndOffset_spec source key
  · exact .inr (hend ▸ hisSecond.stop_le)
  rw [hoffset]
  obtain ⟨_,_,hisLine⟩ := isLine hline
  have hstop := hisLine.stop
  obtain hlt | hge := Nat.lt_or_ge m n
  · have := hisLine.stop_lt_start hisFirst hlt
    omega
  obtain rfl | hlt := Nat.eq_or_lt_of_le hge
  · obtain rfl := Option.some.inj (hfirst.symm.trans hline)
    exact .inl (Nat.le_refl _)
  obtain rfl | hlt := Nat.eq_or_lt_of_le (Nat.succ_le_of_lt hlt)
  · obtain rfl := Option.some.inj (hsecond.symm.trans hline)
    have := hbefore n first (by omega) (Nat.lt_succ_self n) hfirst hstrip
    omega
  · have := hisSecond.stop_lt_start hisLine hlt
    omega

end Wudup
