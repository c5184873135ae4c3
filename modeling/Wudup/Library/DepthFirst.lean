import Mathlib.Data.List.Basic
import Mathlib.Data.List.Nodup
import Mathlib.Data.List.Infix
import Mathlib.Logic.Relation
import Mathlib.Data.Nat.Notation

/-! Depth-first walks: what they reach, and in which order. -/
namespace Library
variable {α : Type} [BEq α] [LawfulBEq α] {next : α → List α}

/-- The vertices in the order they are reached first, after those found before; `none` where the walk
nests deeper than its bound. -/
def depthFirst (next : α → List α) (depth : ℕ) (found : List α) (v : α) : Option (List α) :=
  if v ∈ found then some found
  else match depth with
    | 0 => none
    | depth + 1 => (next v).foldlM (depthFirst next depth) (found ++ [v])

theorem depthFirst_of_mem {depth : ℕ} {found : List α} {v : α} (h : v ∈ found) :
    depthFirst next depth found v = some found := by
  cases depth <;> simp [depthFirst,h]

theorem depthFirst_zero {found : List α} {v : α} (h : v ∉ found) : depthFirst next 0 found v = none := by
  simp [depthFirst,h]

theorem depthFirst_succ {depth : ℕ} {found : List α} {v : α} (h : v ∉ found) :
    depthFirst next (depth + 1) found v = (next v).foldlM (depthFirst next depth) (found ++ [v]) := by
  simp [depthFirst,h]

/-- One step from a vertex to a successor. -/
def Leads (next : α → List α) (v w : α) : Prop := w ∈ next v

/-- What a walk from the roots makes of the vertices found before. A vertex that is no root is
entered after one that leads to it. -/
structure Walked (next : α → List α) (found roots result : List α) : Prop where
  kept : found <+: result
  nodup : found.Nodup → result.Nodup
  rooted : ∀ v ∈ roots, v ∈ result
  closed : ∀ v ∈ result, v ∉ found → ∀ w ∈ next v, w ∈ result
  reached : ∀ v ∈ result, v ∉ found → ∃ r ∈ roots, Relation.ReflTransGen (Leads next) r v
  entered : ∀ v ∈ result, v ∉ found → v ∉ roots → ∃ p ∈ result, v ∈ next p ∧ result.idxOf p < result.idxOf v

namespace Walked
variable {found roots rest mid result : List α} {v : α}

omit [LawfulBEq α] in
theorem nil : Walked next found [] found := by
  constructor
  · exact List.prefix_rfl
  · exact fun h => h
  · simp
  all_goals
    intro v hv hn
    exact absurd hv hn

omit [LawfulBEq α] in
theorem seen (h : v ∈ found) : Walked next found [v] found := by
  constructor
  · exact List.prefix_rfl
  · exact fun h => h
  · simpa using h
  all_goals
    intro w hw hn
    exact absurd hw hn

/-- Walks from some roots and then from others make one walk. -/
theorem append (h : Walked next found roots mid) (h' : Walked next mid rest result) :
    Walked next found (roots ++ rest) result := by
  constructor
  · exact h.kept.trans h'.kept
  · exact fun hn => h'.nodup (h.nodup hn)
  · intro v hv
    rcases List.mem_append.mp hv with hv | hv
    · exact h'.kept.mem (h.rooted v hv)
    · exact h'.rooted v hv
  · intro v hv hn w hw
    by_cases hm : v ∈ mid
    · exact h'.kept.mem (h.closed v hm hn w hw)
    · exact h'.closed v hv hm w hw
  · intro v hv hn
    by_cases hm : v ∈ mid
    · obtain ⟨r,hr,hrv⟩ := h.reached v hm hn
      exact ⟨r,List.mem_append_left _ hr,hrv⟩
    · obtain ⟨r,hr,hrv⟩ := h'.reached v hv hm
      exact ⟨r,List.mem_append_right _ hr,hrv⟩
  · intro v hv hn hroot
    obtain ⟨h1,h2⟩ := not_or.mp (mt List.mem_append.mpr hroot)
    by_cases hm : v ∈ mid
    · obtain ⟨p,hp,hpv,hlt⟩ := h.entered v hm hn h1
      refine ⟨p,h'.kept.mem hp,hpv,?_⟩
      rwa [h'.kept.idxOf_eq_of_mem hp,h'.kept.idxOf_eq_of_mem hm] at hlt
    · exact h'.entered v hv hm h2

/-- A walk enters a new vertex and then walks from its successors. -/
theorem enter (hv : v ∉ found) (h : Walked next (found ++ [v]) (next v) result) :
    Walked next found [v] result := by
  have hmem : v ∈ result := h.kept.mem (by simp)
  have hnew : ∀ w ∈ result, w ∉ found → w ≠ v → w ∉ found ++ [v] := by
    intro w _ hn hne
    simp [hn,hne]
  constructor
  · exact (List.prefix_append found [v]).trans h.kept
  · intro hn
    apply h.nodup
    rw [List.nodup_append]
    refine ⟨hn,List.nodup_singleton v,?_⟩
    rintro a ha b hb rfl
    rw [List.mem_singleton.mp hb] at ha
    exact hv ha
  · simpa using hmem
  · intro w hw hn u hu
    by_cases hwv : w = v
    · subst hwv
      exact h.rooted u hu
    · exact h.closed w hw (hnew w hw hn hwv) u hu
  · intro w hw hn
    refine ⟨v,by simp,?_⟩
    by_cases hwv : w = v
    · rw [hwv]
    · obtain ⟨r,hr,hrw⟩ := h.reached w hw (hnew w hw hn hwv)
      exact Relation.ReflTransGen.head hr hrw
  · intro w hw hn hroot
    have hwv : w ≠ v := by simpa using hroot
    have hw' := hnew w hw hn hwv
    by_cases hs : w ∈ next v
    · refine ⟨v,hmem,hs,?_⟩
      have h1 := h.kept.idxOf_eq_of_mem (a := v) (by simp)
      have h2 := (h.kept.mem_iff_idxOf_lt_length v).mp (by simp)
      have h3 := mt (h.kept.mem_iff_idxOf_lt_length w).mpr hw'
      omega
    · exact h.entered w hw hw' hs

end Walked

theorem walked_foldlM {step : List α → α → Option (List α)}
    (h : ∀ found v result, step found v = some result → Walked next found [v] result) {roots found result : List α}
    (hr : roots.foldlM step found = some result) : Walked next found roots result := by
  induction roots generalizing found with
  | nil =>
    cases hr
    exact .nil
  | cons v rest ih =>
    rw [List.foldlM_cons] at hr
    obtain ⟨mid,hm,hr⟩ := Option.bind_eq_some_iff.mp hr
    exact (h found v mid hm).append (ih hr)

theorem walked_depthFirst {depth : ℕ} {found result : List α} {v : α}
    (h : depthFirst next depth found v = some result) : Walked next found [v] result := by
  induction depth generalizing found v result with
  | zero =>
    by_cases hv : v ∈ found
    · rw [depthFirst_of_mem hv] at h
      cases h
      exact .seen hv
    · rw [depthFirst_zero hv] at h
      cases h
  | succ depth ih =>
    by_cases hv : v ∈ found
    · rw [depthFirst_of_mem hv] at h
      cases h
      exact .seen hv
    · rw [depthFirst_succ hv] at h
      exact .enter hv (walked_foldlM (fun _ _ _ => ih) h)

/-! A bound above the number of vertices that can be entered is never reached. -/

omit [BEq α] [LawfulBEq α] in
theorem foldlM_of_step {β : Type} {f g : List α → β → Option (List α)}
    (h : ∀ found v result, f found v = some result → g found v = some result) {roots : List β}
    {found result : List α} (hr : roots.foldlM f found = some result) : roots.foldlM g found = some result := by
  induction roots generalizing found with
  | nil => exact hr
  | cons v rest ih =>
    rw [List.foldlM_cons] at hr ⊢
    obtain ⟨mid,hm,hr⟩ := Option.bind_eq_some_iff.mp hr
    exact Option.bind_eq_some_iff.mpr ⟨mid,h _ _ _ hm,ih hr⟩

/-- A larger bound changes no walk that ends. -/
theorem depthFirst_mono {depth bound : ℕ} (hd : depth ≤ bound) {found result : List α} {v : α}
    (h : depthFirst next depth found v = some result) : depthFirst next bound found v = some result := by
  by_cases hv : v ∈ found
  · rwa [depthFirst_of_mem hv] at h ⊢
  · induction depth generalizing bound found v result with
    | zero =>
      rw [depthFirst_zero hv] at h
      cases h
    | succ depth ih =>
      obtain ⟨bound,rfl⟩ : ∃ b, bound = b + 1 := ⟨bound - 1,by omega⟩
      rw [depthFirst_succ hv] at h ⊢
      refine foldlM_of_step (fun found' w result' hw => ?_) h
      by_cases hw' : w ∈ found'
      · rwa [depthFirst_of_mem hw'] at hw ⊢
      · exact ih (by omega) hw hw'

/-- How many vertices are left to enter. -/
def unfound (vertices found : List α) : ℕ := vertices.countP (· ∉ found)

theorem unfound_le {vertices found result : List α} (h : found <+: result) :
    unfound vertices result ≤ unfound vertices found := by
  apply List.countP_mono_left
  intro v _ hv
  simp only [decide_eq_true_eq] at hv ⊢
  exact fun hf => hv (h.mem hf)

theorem unfound_lt {vertices found result : List α} {v : α} (h : found <+: result) (hu : v ∈ vertices)
    (hv : v ∉ found) (hr : v ∈ result) : unfound vertices result < unfound vertices found := by
  rw [unfound,unfound,List.countP_eq_length_filter,List.countP_eq_length_filter]
  have hs : (vertices.filter (· ∉ result)).Sublist (vertices.filter (· ∉ found)) := by
    apply List.monotone_filter_right
    intro w hw
    simp only [decide_eq_true_eq] at hw ⊢
    exact fun hf => hw (h.mem hf)
  refine lt_of_le_of_ne hs.length_le fun he => ?_
  have hmem : v ∈ vertices.filter (· ∉ result) := by
    rw [hs.eq_of_length he]
    simp [hu,hv]
  simp [hr] at hmem

variable {vertices : List α}

theorem exists_foldlM {n : ℕ} {f : List α → α → Option (List α)}
    (hw : ∀ found v result, f found v = some result → Walked next found [v] result)
    (h : ∀ found v, v ∈ vertices → unfound vertices found ≤ n → ∃ result, f found v = some result)
    {roots found : List α} (hr : ∀ v ∈ roots, v ∈ vertices) (hd : unfound vertices found ≤ n) :
    ∃ result, roots.foldlM f found = some result := by
  induction roots generalizing found with
  | nil => exact ⟨found,rfl⟩
  | cons v rest ih =>
    obtain ⟨mid,hm⟩ := h found v (hr v (by simp)) hd
    have hle : unfound vertices mid ≤ unfound vertices found := unfound_le (hw _ _ _ hm).kept
    obtain ⟨result,hresult⟩ := ih (fun w hw => hr w (List.mem_cons_of_mem _ hw)) (hle.trans hd)
    refine ⟨result,?_⟩
    rw [List.foldlM_cons,hm]
    exact hresult

theorem exists_depthFirst (hu : ∀ v, ∀ w ∈ next v, w ∈ vertices) {depth : ℕ} {found : List α} {v : α}
    (hd : unfound vertices found < depth ∨ v ∈ vertices ∧ unfound vertices found ≤ depth) :
    ∃ result, depthFirst next depth found v = some result := by
  by_cases hv : v ∈ found
  · exact ⟨found,depthFirst_of_mem hv⟩
  have hlt := fun hm : v ∈ vertices => unfound_lt (List.prefix_append found [v]) hm hv (by simp)
  induction depth generalizing found v with
  | zero =>
    obtain ⟨hm,hd⟩ := hd.resolve_left (by omega)
    have := hlt hm
    omega
  | succ depth ih =>
    rw [depthFirst_succ hv]
    refine exists_foldlM (n := depth) (fun _ _ _ => walked_depthFirst) (fun found' w hw hle => ?_) (hu v) ?_
    · by_cases hw' : w ∈ found'
      · exact ⟨found',depthFirst_of_mem hw'⟩
      · exact ih (.inr ⟨hw,hle⟩) hw' fun hm => unfound_lt (List.prefix_append found' [w]) hm hw' (by simp)
    · rcases hd with hd | ⟨hm,hd⟩
      · exact (unfound_le (List.prefix_append found [v])).trans (by omega)
      · have := hlt hm
        omega

/-- Every walk ends, with the same result under every bound above the number of successors. -/
theorem exists_walk (hu : ∀ v, ∀ w ∈ next v, w ∈ vertices) (roots : List α) :
    ∃ result, ∀ depth, vertices.length < depth → roots.foldlM (depthFirst next depth) [] = some result := by
  have hwalk : ∀ found, ∃ result, roots.foldlM (depthFirst next (vertices.length + 1)) found = some result := by
    induction roots with
    | nil => exact fun found => ⟨found,rfl⟩
    | cons v rest ih =>
      intro found
      have hle : unfound vertices found ≤ vertices.length := List.countP_le_length
      have hd : unfound vertices found < vertices.length + 1 := by omega
      obtain ⟨mid,hm⟩ := exists_depthFirst hu (v := v) (.inl hd)
      obtain ⟨result,hr⟩ := ih mid
      refine ⟨result,?_⟩
      rw [List.foldlM_cons,hm]
      exact hr
  obtain ⟨result,hr⟩ := hwalk []
  exact ⟨result,fun depth hd => foldlM_of_step (fun _ _ _ => depthFirst_mono (by omega)) hr⟩

/-! In a forest a vertex comes after its parent unless it was taken as a root first. -/

/-- No vertex has two parents. -/
def Forest (next : α → List α) : Prop := ∀ p q v, v ∈ next p → v ∈ next q → p = q

def Below (next : α → List α) (v a : α) : Prop := Relation.TransGen (Leads next) a v

/-- Every vertex comes after its parent. -/
def ParentsFirst (next : α → List α) (result : List α) : Prop :=
  ∀ p ∈ result, ∀ v ∈ next p, result.idxOf p < result.idxOf v

/-- A root below other roots comes after one that it is below. -/
def RootsOrdered (next : α → List α) (roots : List α) : Prop :=
  ∀ v ∈ roots, ∀ a ∈ roots, Below next v a → ∃ b ∈ roots, Below next v b ∧ roots.idxOf b < roots.idxOf v

omit [LawfulBEq α] in
theorem Walked.closed_of_reaches {roots result : List α} (h : Walked next [] roots result) {a v : α}
    (ha : a ∈ result) (hav : Relation.ReflTransGen (Leads next) a v) : v ∈ result := by
  induction hav with
  | refl => exact ha
  | tail _ hs ih => exact h.closed _ ih (by simp) _ hs

omit [LawfulBEq α] in
/-- A walk from nothing finds what can be reached from its roots. -/
theorem Walked.mem_iff {roots result : List α} (h : Walked next [] roots result) {v : α} :
    v ∈ result ↔ ∃ r ∈ roots, Relation.ReflTransGen (Leads next) r v := by
  constructor
  · exact fun hv => h.reached v hv (by simp)
  · rintro ⟨r,hr,hrv⟩
    exact h.closed_of_reaches (h.rooted r hr) hrv

/-- The walk from the roots before a root, and what the rest adds. -/
theorem walk_before {depth : ℕ} {roots result : List α} {v : α}
    (h : roots.foldlM (depthFirst next depth) [] = some result) (hv : v ∈ roots) :
    ∃ found, Walked next [] (roots.take (roots.idxOf v)) found ∧ found <+: result ∧
      (v ∉ found → found ++ [v] <+: result) := by
  have hsplit : roots = roots.take (roots.idxOf v) ++ v :: roots.drop (roots.idxOf v + 1) := by
    have hdrop := List.drop_eq_getElem_cons (List.idxOf_lt_length_of_mem hv)
    rw [List.getElem_idxOf] at hdrop
    rw [← hdrop,List.take_append_drop]
  rw [hsplit,List.foldlM_append] at h
  obtain ⟨found,hf,h⟩ := Option.bind_eq_some_iff.mp h
  rw [List.foldlM_cons] at h
  obtain ⟨mid,hm,h⟩ := Option.bind_eq_some_iff.mp h
  have hmid := walked_depthFirst hm
  have hrest := walked_foldlM (fun _ _ _ => walked_depthFirst) h
  refine ⟨found,walked_foldlM (fun _ _ _ => walked_depthFirst) hf,hmid.kept.trans hrest.kept,fun hn => ?_⟩
  refine List.IsPrefix.trans ?_ hrest.kept
  cases depth with
  | zero =>
    rw [depthFirst_zero hn] at hm
    cases hm
  | succ depth =>
    rw [depthFirst_succ hn] at hm
    exact (walked_foldlM (fun _ _ _ => walked_depthFirst) hm).kept

theorem parentsFirst_of_rootsOrdered (hf : Forest next) {depth : ℕ} {roots result : List α}
    (h : roots.foldlM (depthFirst next depth) [] = some result) (ho : RootsOrdered next roots) :
    ParentsFirst next result := by
  intro p hp v hv
  have hw := walked_foldlM (fun _ _ _ => walked_depthFirst) h
  have hvr : v ∈ result := hw.closed p hp (by simp) v hv
  by_cases hroot : v ∈ roots
  · obtain ⟨r,hr,hrp⟩ := hw.reached p hp (by simp)
    obtain ⟨b,hb,hbv,hlt⟩ := ho v hroot r hr (.tail' hrp hv)
    obtain ⟨found,hfw,hpre,-⟩ := walk_before h hroot
    have hbf : b ∈ found := hfw.rooted b ((List.mem_take_iff_idxOf_lt hb).mpr hlt)
    have hvf : v ∈ found := hfw.closed_of_reaches hbf hbv.to_reflTransGen
    have hnot : v ∉ roots.take (roots.idxOf v) := by
      rw [List.mem_take_iff_idxOf_lt hroot]
      omega
    obtain ⟨q,hq,hqv,hlt⟩ := hfw.entered v hvf (by simp) hnot
    rw [hf q p v hqv hv] at hlt hq
    rwa [hpre.idxOf_eq_of_mem hq,hpre.idxOf_eq_of_mem hvf] at hlt
  · obtain ⟨q,-,hqv,hlt⟩ := hw.entered v hvr (by simp) hroot
    rwa [hf q p v hqv hv] at hlt

theorem rootsOrdered_of_parentsFirst {depth : ℕ} {roots result : List α}
    (h : roots.foldlM (depthFirst next depth) [] = some result) (hp : ParentsFirst next result) :
    RootsOrdered next roots := by
  intro v hv a ha hav
  have hw := walked_foldlM (fun _ _ _ => walked_depthFirst) h
  obtain ⟨found,hfw,hpre,hnew⟩ := walk_before h hv
  by_cases hvf : v ∈ found
  · -- a root before `v` reaches it
    obtain ⟨b,hb,hbv⟩ := hfw.reached v hvf (by simp)
    have hbr : b ∈ roots := List.mem_of_mem_take hb
    have hlt := (List.mem_take_iff_idxOf_lt hbr).mp hb
    refine ⟨b,hbr,?_,hlt⟩
    rcases Relation.reflTransGen_iff_eq_or_transGen.mp hbv with rfl | hbv
    · omega
    · exact hbv
  · -- `v` is entered as a root, so its parent is found, and with it `v`
    obtain ⟨p,hap,hpv⟩ := Relation.TransGen.tail'_iff.mp hav
    have hpr := hw.closed_of_reaches (hw.rooted a ha) hap
    have hlt := hp p hpr v hpv
    have hidx := (hnew hvf).idxOf_eq_of_mem (a := v) (by simp)
    rw [← hidx,List.idxOf_append_of_notMem hvf,List.idxOf_cons_self] at hlt
    have hpf : p ∈ found := (hpre.mem_iff_idxOf_lt_length p).mpr (by omega)
    exact absurd (hfw.closed p hpf (by simp) v hpv) hvf

/-- A walk through a forest puts parents first exactly where its roots are ordered. -/
theorem parentsFirst_iff_rootsOrdered (hf : Forest next) {depth : ℕ} {roots result : List α}
    (h : roots.foldlM (depthFirst next depth) [] = some result) :
    ParentsFirst next result ↔ RootsOrdered next roots :=
  ⟨rootsOrdered_of_parentsFirst h,parentsFirst_of_rootsOrdered hf h⟩

/-- What comes before in a list comes after in its reverse. -/
theorem idxOf_reverse_lt {xs : List α} (hn : xs.Nodup) {a b : α} (ha : a ∈ xs) (hb : b ∈ xs) :
    xs.reverse.idxOf b < xs.reverse.idxOf a ↔ xs.idxOf a < xs.idxOf b := by
  have hrev : ∀ {c}, c ∈ xs → xs.reverse.idxOf c = xs.length - 1 - xs.idxOf c := by
    intro c hc
    have hlt := List.idxOf_lt_length_of_mem hc
    have hlt' : xs.length - 1 - xs.idxOf c < xs.reverse.length := by
      rw [List.length_reverse]
      omega
    have hget := (List.nodup_reverse.mpr hn).idxOf_getElem _ hlt'
    rw [List.getElem_reverse] at hget
    have he : xs.length - 1 - (xs.length - 1 - xs.idxOf c) = xs.idxOf c := by omega
    simpa [he] using hget
  have h1 := List.idxOf_lt_length_of_mem ha
  have h2 := List.idxOf_lt_length_of_mem hb
  rw [hrev ha,hrev hb]
  omega

end Library
