import Wudup.Library.Unicode

/-! Lines of a text: what they hold, and texts that are made of some of the lines. -/
namespace Library

/-- What the lines of a text hold, blank lines apart. -/
def lineContents (text : List Char) : List (List Char) :=
  (text.splitOnP lineEnds.contains).filter (· ≠ [])

/-- A line that has its end. -/
def EndsLine (line : List Char) : Prop := ∃ front, ∃ c ∈ lineEnds, line = front ++ [c]

theorem flatten_keepLines (text : List Char) : (keepLines text).flatten = text := by
  fun_induction keepLines text with
  | case1 => rfl
  | case2 rest ih => rw [List.flatten_cons,ih,List.cons_append,List.singleton_append]
  | case3 c rest _ _ ih => rw [List.flatten_cons,ih,List.singleton_append]
  | case4 c rest _ _ hnone ih =>
    rw [hnone] at ih
    rw [← ih]
    rfl
  | case5 c rest _ _ line lines hlines ih =>
    rw [hlines] at ih
    rw [← ih]
    rfl

/-- What a line holds stands before its end. -/
theorem exists_content_of_mem_keepLines {text line : List Char} (h : line ∈ keepLines text) :
    ∃ content ending : List Char, line = content ++ ending ∧ (∀ c ∈ content, c ∉ lineEnds) ∧
      ∀ c ∈ ending, c ∈ lineEnds := by
  fun_induction keepLines text generalizing line with
  | case1 => cases h
  | case2 rest ih =>
    obtain rfl | h := List.mem_cons.mp h
    · exact ⟨[],['\r','\n'],rfl,by simp,forall_mem_of_all (by decide)⟩
    · exact ih h
  | case3 c rest _ hc ih =>
    obtain rfl | h := List.mem_cons.mp h
    · exact ⟨[],[c],rfl,by simp,by simpa using hc⟩
    · exact ih h
  | case4 c rest _ hc hnone ih =>
    obtain rfl := List.mem_singleton.mp h
    exact ⟨[c],[],rfl,by simpa using hc,by simp⟩
  | case5 c rest _ hc first lines hlines ih =>
    rw [hlines] at ih
    obtain rfl | h := List.mem_cons.mp h
    · obtain ⟨content,ending,rfl,hcontent,hending⟩ := ih List.mem_cons_self
      refine ⟨c :: content,ending,rfl,?_,hending⟩
      intro d hd
      obtain rfl | hd := List.mem_cons.mp hd
      · simpa using hc
      · exact hcontent d hd
    · exact ih (List.mem_cons_of_mem _ h)

theorem EndsLine.cons {line : List Char} (h : EndsLine line) (c : Char) : EndsLine (c :: line) := by
  obtain ⟨front,d,hd,rfl⟩ := h
  exact ⟨c :: front,d,hd,rfl⟩

/-- Every line but the last has its end. -/
theorem pairwise_keepLines (text : List Char) : (keepLines text).Pairwise fun line _ => EndsLine line := by
  fun_induction keepLines text with
  | case1 => exact .nil
  | case2 rest ih =>
    exact .cons (fun _ _ => ⟨['\r'],'\n',by decide,rfl⟩) ih
  | case3 c rest _ hc ih => exact .cons (fun _ _ => ⟨[],c,by simpa using hc,rfl⟩) ih
  | case4 => exact List.pairwise_singleton _ _
  | case5 c rest _ _ line lines hlines ih =>
    rw [hlines] at ih
    obtain ⟨hline,hrest⟩ := List.pairwise_cons.mp ih
    exact .cons (fun other hother => (hline other hother).cons c) hrest

theorem lineContents_append {line : List Char} (h : EndsLine line) (rest : List Char) :
    lineContents (line ++ rest) = lineContents line ++ lineContents rest := by
  obtain ⟨front,c,hc,rfl⟩ := h
  have hend : lineEnds.contains c = true := by simpa using hc
  have hfront : lineContents (front ++ [c]) = lineContents front := by
    unfold lineContents
    rw [List.splitOnP_append_cons front [] hend,List.filter_append]
    simp
  rw [hfront,List.append_assoc,List.singleton_append]
  unfold lineContents
  rw [List.splitOnP_append_cons front rest hend,List.filter_append]

/-- A text made of lines holds what they hold. -/
theorem lineContents_flatten {lines : List (List Char)} (h : lines.Pairwise fun line _ => EndsLine line) :
    lineContents lines.flatten = lines.flatMap lineContents := by
  induction lines with
  | nil => rfl
  | cons line rest ih =>
    obtain ⟨hline,hrest⟩ := List.pairwise_cons.mp h
    rw [List.flatten_cons,List.flatMap_cons,← ih hrest]
    cases rest with
    | nil =>
      rw [List.flatten_nil,List.append_nil]
      exact (List.append_nil _).symm
    | cons next rest => exact lineContents_append (hline next List.mem_cons_self) _

theorem lineContents_ends {ending : List Char} (h : ∀ c ∈ ending, c ∈ lineEnds) : lineContents ending = [] := by
  induction ending with
  | nil => rfl
  | cons c rest ih =>
    have hc : EndsLine [c] := ⟨[],c,h c List.mem_cons_self,rfl⟩
    have hempty : lineContents [c] = [] := by
      unfold lineContents
      rw [List.splitOnP_cons_eq_if_modifyHead,if_pos (by simpa using h c List.mem_cons_self)]
      rfl
    rw [← List.singleton_append,lineContents_append hc,hempty,ih fun d hd => h d (List.mem_cons_of_mem _ hd)]
    rfl

theorem lineContents_line {content ending : List Char} (hcontent : ∀ c ∈ content, c ∉ lineEnds)
    (hending : ∀ c ∈ ending, c ∈ lineEnds) :
    lineContents (content ++ ending) = if content = [] then [] else [content] := by
  have hplain : lineContents content = if content = [] then [] else [content] := by
    unfold lineContents
    rw [List.splitOnP_eq_singleton (by simpa using hcontent)]
    by_cases hne : content = []
    · simp [hne]
    · simp [hne]
  cases ending with
  | nil => rw [List.append_nil,hplain]
  | cons c rest =>
    have hend : EndsLine (content ++ [c]) := ⟨content,c,hending c List.mem_cons_self,rfl⟩
    have hrest := lineContents_ends fun d hd => hending d (List.mem_cons_of_mem c hd)
    have hcut : lineContents (content ++ [c]) = lineContents content := by
      unfold lineContents
      rw [List.splitOnP_append_cons content [] (by simpa using hending c List.mem_cons_self),List.filter_append]
      simp
    rw [List.append_cons,lineContents_append hend,hcut,hrest,List.append_nil,hplain]

/-- What a text holds, line by line. -/
theorem lineContents_eq_flatMap (text : List Char) :
    lineContents text = (keepLines text).flatMap lineContents := calc
  lineContents text = lineContents (keepLines text).flatten := by rw [flatten_keepLines]
  _ = (keepLines text).flatMap lineContents := lineContents_flatten (pairwise_keepLines text)

theorem flatMap_filter {α β : Type} {f : α → List β} {p : α → Bool} {q : β → Bool} {xs : List α}
    (h : ∀ x ∈ xs, (f x).filter q = if p x then f x else []) :
    (xs.filter p).flatMap f = (xs.flatMap f).filter q := by
  induction xs with
  | nil => rfl
  | cons x rest ih =>
    have hrest := ih fun y hy => h y (List.mem_cons_of_mem x hy)
    rw [List.flatMap_cons,List.filter_append,h x List.mem_cons_self,List.filter_cons,← hrest]
    split
    · rw [List.flatMap_cons]
    · rw [List.nil_append]

/-- The lines that pass a test of what they hold, put together again, hold what passes it. -/
theorem lineContents_filter {p : List Char → Bool} (hp : ∀ content ending : List Char,
    (∀ c ∈ ending, c ∈ lineEnds) → p (content ++ ending) = p content) (text : List Char) :
    lineContents ((keepLines text).filter p).flatten = (lineContents text).filter p := by
  rw [lineContents_flatten ((pairwise_keepLines text).filter p),lineContents_eq_flatMap text]
  apply flatMap_filter
  intro line hline
  obtain ⟨content,ending,rfl,hcontent,hending⟩ := exists_content_of_mem_keepLines hline
  rw [lineContents_line hcontent hending,hp _ _ hending]
  by_cases hne : content = []
  · simp [hne]
  · by_cases hpass : p content = true
    · simp [hne,hpass]
    · simp [hne,hpass]

/-- No line of such a text fails the test, although the end of one line and the next line may now be one line. -/
theorem all_keepLines_filter {p : List Char → Bool} (hp : ∀ content ending : List Char,
    (∀ c ∈ ending, c ∈ lineEnds) → p (content ++ ending) = p content) (hblank : p [] = true) {text line : List Char}
    (h : line ∈ keepLines ((keepLines text).filter p).flatten) : p line = true := by
  obtain ⟨content,ending,rfl,hcontent,hending⟩ := exists_content_of_mem_keepLines h
  rw [hp _ _ hending]
  by_cases hne : content = []
  · rw [hne,hblank]
  · have hheld : content ∈ lineContents ((keepLines text).filter p).flatten := by
      rw [lineContents_eq_flatMap]
      refine List.mem_flatMap.mpr ⟨_,h,?_⟩
      rw [lineContents_line hcontent hending,if_neg hne]
      exact List.mem_singleton_self content
    rw [lineContents_filter hp] at hheld
    exact (List.mem_filter.mp hheld).2

theorem keepLines_line {content : List Char} (h : ∀ c ∈ content, c ∉ lineEnds) :
    keepLines (content ++ ['\n']) = [content ++ ['\n']] := by
  induction content with
  | nil => rfl
  | cons c rest ih =>
    have hc : c ≠ '\r' := by
      rintro rfl
      exact h '\r' List.mem_cons_self (by decide)
    have hplain : ¬ lineEnds.contains c = true := by simpa using h c List.mem_cons_self
    rw [List.cons_append,keepLines,if_neg hplain,ih fun d hd => h d (List.mem_cons_of_mem c hd)]
    exact fun _ heq _ => hc heq

end Library
