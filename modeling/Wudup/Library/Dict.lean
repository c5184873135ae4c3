import Mathlib.Data.List.Nodup
import Mathlib.Data.List.Pairwise

/-! Collections that keep insertion order. -/
namespace Library
variable {α κ : Type} [DecidableEq α] [DecidableEq κ]

/-- The distinct elements in the order of their first occurrence. -/
def orderedUnique : List α → List α
  | [] => []
  | x :: xs => x :: (orderedUnique xs).filter (· ≠ x)

@[simp] theorem mem_orderedUnique {x : α} {xs : List α} : x ∈ orderedUnique xs ↔ x ∈ xs := by
  induction xs with
  | nil => simp [orderedUnique]
  | cons y ys ih =>
    by_cases h : x = y
    · simp [orderedUnique,h]
    · simp [orderedUnique,h,ih]

theorem nodup_orderedUnique (xs : List α) : (orderedUnique xs).Nodup := by
  induction xs with
  | nil => exact List.nodup_nil
  | cons x xs ih =>
    rw [orderedUnique,List.nodup_cons]
    exact ⟨by simp,ih.filter _⟩

theorem orderedUnique_eq_singleton {x : α} {xs : List α} (hx : x ∈ xs) (h : ∀ y ∈ xs, y = x) :
    orderedUnique xs = [x] := by
  cases xs with
  | nil => cases hx
  | cons y rest =>
    obtain rfl := h y List.mem_cons_self
    rw [orderedUnique,List.filter_eq_nil_iff.mpr]
    intro z hz
    simpa using h z (List.mem_cons_of_mem _ (mem_orderedUnique.mp hz))

theorem orderedUnique_filter (p : α → Bool) (xs : List α) :
    orderedUnique (xs.filter p) = (orderedUnique xs).filter p := by
  induction xs with
  | nil => rfl
  | cons x rest ih =>
    by_cases hx : p x = true
    · rw [List.filter_cons_of_pos hx,orderedUnique,ih,orderedUnique,List.filter_cons_of_pos hx,List.filter_comm]
    · rw [List.filter_cons_of_neg hx,ih,orderedUnique,List.filter_cons_of_neg hx,List.filter_filter]
      apply List.filter_congr
      intro y hy
      by_cases hyx : y = x
      · simp [hyx,hx]
      · simp [hyx]

theorem orderedUnique_append (xs ys : List α) :
    orderedUnique (xs ++ ys) = orderedUnique xs ++ (orderedUnique ys).filter (· ∉ xs) := by
  induction xs with
  | nil => simp [orderedUnique]
  | cons x rest ih =>
    rw [List.cons_append,orderedUnique,ih,List.filter_append,orderedUnique,List.cons_append,List.filter_filter]
    congr 2
    apply List.filter_congr
    intro y hy
    simp [not_or]

/-- What elements give, given once for each element, gives the same in the same order. -/
theorem orderedUnique_flatMap {β : Type} [DecidableEq β] (f : α → List β) (xs : List α) :
    orderedUnique ((orderedUnique xs).flatMap f) = orderedUnique (xs.flatMap f) := by
  induction xs with
  | nil => rfl
  | cons x rest ih =>
    have hdrop : ∀ ys : List α, ((ys.filter (· ≠ x)).flatMap f).filter (· ∉ f x) =
        (ys.flatMap f).filter (· ∉ f x) := by
      intro ys
      induction ys with
      | nil => rfl
      | cons y ys ihy =>
        by_cases hy : y = x
        · subst hy
          have hnone : (f y).filter (· ∉ f y) = [] := by
            apply List.filter_eq_nil_iff.mpr
            intro z hz
            simpa using hz
          rw [List.filter_cons_of_neg (by simp),ihy,List.flatMap_cons,List.filter_append,hnone,List.nil_append]
        · rw [List.filter_cons_of_pos (by simpa using hy),List.flatMap_cons,List.flatMap_cons,List.filter_append,
            List.filter_append,ihy]
    rw [orderedUnique,List.flatMap_cons,List.flatMap_cons,orderedUnique_append,orderedUnique_append,
      ← orderedUnique_filter,hdrop,orderedUnique_filter,ih]

/-- No element comes twice if no two of the lists share one. -/
theorem nodup_flatMap_iff {ι β : Type} {f : ι → List β} {parts : List ι} (hp : parts.Nodup)
    (hf : ∀ p ∈ parts, (f p).Nodup) :
    (parts.flatMap f).Nodup ↔ ∀ p ∈ parts, ∀ q ∈ parts, ∀ x ∈ f p, x ∈ f q → p = q := by
  rw [List.nodup_flatMap]
  constructor
  · intro ⟨_,hd⟩ p hpm q hqm x hx hy
    have hsymm : Std.Symm (Function.onFun List.Disjoint f) := ⟨fun _ _ h x hx hy => h hy hx⟩
    by_contra hne
    exact hd.forall hpm hqm hne hx hy
  · intro h
    refine ⟨hf,?_⟩
    refine hp.pairwise_of_forall_ne ?_
    intro p hpm q hqm hne x hx hy
    exact hne (h p hpm q hqm x hx hy)

/-- Keys of the elements that are kept are keys of all elements. -/
theorem map_filterMap_sublist {β γ ι : Type} {f : ι → Option β} {g : β → γ} {h : ι → γ}
    (hf : ∀ x y, f x = some y → g y = h x) (xs : List ι) : ((xs.filterMap f).map g).Sublist (xs.map h) := by
  induction xs with
  | nil => simp
  | cons x xs ih =>
    cases hx : f x with
    | none =>
      rw [List.filterMap_cons_none hx,List.map_cons]
      exact ih.cons _
    | some y =>
      rw [List.filterMap_cons_some hx,List.map_cons,List.map_cons,hf x y hx]
      exact ih.cons_cons _

theorem mem_of_lookup {ι β : Type} [BEq ι] [LawfulBEq ι] {entries : List (ι × β)} {k : ι} {v : β}
    (h : entries.lookup k = some v) : (k,v) ∈ entries := by
  obtain ⟨before,after,heq,-⟩ := List.lookup_eq_some_iff.mp h
  rw [heq]
  exact List.mem_append_right _ List.mem_cons_self

/-- With distinct keys a lookup finds what the list contains. -/
theorem lookup_eq_some_iff_mem {ι β : Type} [BEq ι] [LawfulBEq ι] {entries : List (ι × β)}
    (hn : (entries.map (·.1)).Nodup) {k : ι} {v : β} : entries.lookup k = some v ↔ (k,v) ∈ entries := by
  induction entries with
  | nil => simp
  | cons entry rest ih =>
    obtain ⟨k',v'⟩ := entry
    rw [List.map_cons,List.nodup_cons] at hn
    obtain ⟨hk,hn⟩ := hn
    rw [List.lookup_cons]
    by_cases h : k = k'
    · subst h
      have hnot : (k,v) ∉ rest := fun hm => hk (List.mem_map.mpr ⟨_,hm,rfl⟩)
      simp [hnot,eq_comm]
    · have hne : (k == k') = false := by simpa using h
      simp [hne,h,ih hn]

/-- The elements of a key not seen before, in order. -/
def freshBy (key : α → κ) : List κ → List α → List α
  | _, [] => []
  | seen, x :: xs =>
    if key x ∈ seen then freshBy key seen xs else x :: freshBy key (seen ++ [key x]) xs

section
variable {α : Type} {key : α → κ}

theorem freshBy_append (seen : List κ) (xs ys : List α) :
    freshBy key seen (xs ++ ys) =
      freshBy key seen xs ++ freshBy key (seen ++ (freshBy key seen xs).map key) ys := by
  induction xs generalizing seen with
  | nil => simp [freshBy]
  | cons x xs ih =>
    rw [List.cons_append,freshBy,freshBy]
    split
    · exact ih seen
    · rw [ih]
      simp

theorem freshBy_congr {seen seen' : List κ} {xs : List α} (h : ∀ x ∈ xs, key x ∈ seen ↔ key x ∈ seen') :
    freshBy key seen xs = freshBy key seen' xs := by
  induction xs generalizing seen seen' with
  | nil => rfl
  | cons x xs ih =>
    have hx := h x (by simp)
    rw [freshBy,freshBy]
    by_cases hs : key x ∈ seen
    · rw [if_pos hs,if_pos (hx.mp hs)]
      exact ih fun y hy => h y (by simp [hy])
    · rw [if_neg hs,if_neg (mt hx.mpr hs)]
      rw [ih fun y hy => ?_]
      have := h y (by simp [hy])
      simp [this]

theorem freshBy_sublist (seen : List κ) (xs : List α) : (freshBy key seen xs).Sublist xs := by
  induction xs generalizing seen with
  | nil => exact List.Sublist.refl _
  | cons x xs ih =>
    rw [freshBy]
    split
    · exact (ih seen).cons x
    · exact (ih _).cons_cons x

/-- No key comes twice, and none that was seen before. -/
theorem nodup_freshBy (seen : List κ) (xs : List α) :
    ((freshBy key seen xs).map key).Nodup ∧ ∀ x ∈ freshBy key seen xs, key x ∉ seen := by
  induction xs generalizing seen with
  | nil => simp [freshBy]
  | cons x xs ih =>
    rw [freshBy]
    split
    · exact ih seen
    · rename_i hx
      obtain ⟨hn,hs⟩ := ih (seen ++ [key x])
      refine ⟨?_,?_⟩
      · rw [List.map_cons,List.nodup_cons]
        refine ⟨fun hm => ?_,hn⟩
        obtain ⟨y,hy,he⟩ := List.mem_map.mp hm
        exact hs y hy (by simp [he])
      · intro y hy
        rcases List.mem_cons.mp hy with rfl | hy
        · exact hx
        · exact fun hm => hs y hy (by simp [hm])

/-- The keys that are kept are those not seen before. -/
theorem mem_keys_freshBy {seen : List κ} {xs : List α} {k : κ} :
    k ∈ (freshBy key seen xs).map key ↔ k ∈ xs.map key ∧ k ∉ seen := by
  induction xs generalizing seen with
  | nil => simp [freshBy]
  | cons x xs ih =>
    rw [freshBy,List.map_cons,List.mem_cons]
    by_cases hx : key x ∈ seen
    · rw [if_pos hx,ih]
      constructor
      · exact fun h => ⟨.inr h.1,h.2⟩
      · rintro ⟨rfl | h,hs⟩
        · exact absurd hx hs
        · exact ⟨h,hs⟩
    · rw [if_neg hx,List.map_cons,List.mem_cons,ih,List.mem_append,List.mem_singleton]
      by_cases hk : k = key x
      · subst hk
        simp [hx]
      · simp [hk]

/-- What is kept of a list filtered to some elements: the first of its key, if none was seen. -/
theorem mem_freshBy_filterMap {β : Type} {f : β → Option α} {seen : List κ} {xs : List β} {y : α} :
    y ∈ freshBy key seen (xs.filterMap f) ↔ ∃ before x after, xs = before ++ x :: after ∧ f x = some y ∧
      key y ∉ seen ∧ ∀ w ∈ before, ∀ z, f w = some z → key z ≠ key y := by
  induction xs generalizing seen with
  | nil => simp [freshBy]
  | cons x xs ih =>
    constructor
    · intro h
      cases hx : f x with
      | none =>
        rw [List.filterMap_cons_none hx] at h
        obtain ⟨before,x',after,rfl,hy,hs,hb⟩ := ih.mp h
        exact ⟨x :: before,x',after,rfl,hy,hs,by simpa [hx] using hb⟩
      | some z =>
        rw [List.filterMap_cons_some hx,freshBy] at h
        split at h
        · rename_i hz
          obtain ⟨before,x',after,rfl,hy,hs,hb⟩ := ih.mp h
          have hzy : key z ≠ key y := fun he => hs (he ▸ hz)
          exact ⟨x :: before,x',after,rfl,hy,hs,by simpa [hx,hzy] using hb⟩
        · rename_i hz
          rcases List.mem_cons.mp h with rfl | h
          · exact ⟨[],x,xs,rfl,hx,hz,by simp⟩
          · obtain ⟨before,x',after,rfl,hy,hs,hb⟩ := ih.mp h
            simp only [List.mem_append,List.mem_singleton,not_or] at hs
            exact ⟨x :: before,x',after,rfl,hy,hs.1,by simpa [hx,Ne.symm hs.2] using hb⟩
    · rintro ⟨before,x',after,he,hy,hs,hb⟩
      cases before with
      | nil =>
        obtain ⟨rfl,rfl⟩ := List.cons.inj he
        simp [List.filterMap_cons_some hy,freshBy,hs]
      | cons w before =>
        obtain ⟨rfl,rfl⟩ := List.cons.inj he
        have hrest : ∀ w ∈ before, ∀ z, f w = some z → key z ≠ key y := fun w hw => hb w (by simp [hw])
        cases hx : f x with
        | none =>
          rw [List.filterMap_cons_none hx]
          exact ih.mpr ⟨before,x',after,rfl,hy,hs,hrest⟩
        | some z =>
          have hz : key z ≠ key y := hb x (by simp) z hx
          rw [List.filterMap_cons_some hx,freshBy]
          split
          · exact ih.mpr ⟨before,x',after,rfl,hy,hs,hrest⟩
          · apply List.mem_cons_of_mem
            exact ih.mpr ⟨before,x',after,rfl,hy,by simp [hs,Ne.symm hz],hrest⟩

/-- Parts that share no key are taken one by one. -/
theorem freshBy_flatMap {ι : Type} {f : ι → List α} {parts : List ι} {seen : List κ}
    (hd : parts.Pairwise fun p q => ∀ x ∈ f p, ∀ y ∈ f q, key x ≠ key y)
    (hs : ∀ p ∈ parts, ∀ x ∈ f p, key x ∉ seen) :
    freshBy key seen (parts.flatMap f) = parts.flatMap fun p => freshBy key [] (f p) := by
  induction parts generalizing seen with
  | nil => rfl
  | cons p parts ih =>
    obtain ⟨hp,hd⟩ := List.pairwise_cons.mp hd
    rw [List.flatMap_cons,List.flatMap_cons,freshBy_append]
    have hfirst : freshBy key seen (f p) = freshBy key [] (f p) :=
      freshBy_congr fun x hx => by simp [hs p (by simp) x hx]
    rw [hfirst,ih hd]
    intro q hq y hy hm
    rcases List.mem_append.mp hm with hm | hm
    · exact hs q (by simp [hq]) y hy hm
    · obtain ⟨x,hx,he⟩ := List.mem_map.mp hm
      exact hp q hq x ((freshBy_sublist [] (f p)).subset hx) y hy he

/-- A part keeps some of its elements if the parts before it lack one of its keys. -/
theorem exists_fresh_of_part {ι : Type} {f : ι → List α} {owner : α → ι} {before after : List ι} {p : ι}
    (hn : (before ++ p :: after).Nodup) (ho : ∀ q ∈ before ++ p :: after, ∀ x ∈ f q, owner x = q) :
    (∃ x ∈ freshBy key [] ((before ++ p :: after).flatMap f), owner x = p) ↔
      ∃ x ∈ f p, ∀ q ∈ before, ∀ y ∈ f q, key y ≠ key x := by
  have howner : ∀ {parts : List ι} {x : α}, (∀ q ∈ parts, q ∈ before ++ p :: after) → x ∈ parts.flatMap f →
      owner x ∈ parts := by
    intro parts x hparts hx
    obtain ⟨q,hq,hx⟩ := List.mem_flatMap.mp hx
    rw [ho q (hparts q hq) x hx]
    exact hq
  have hbefore : p ∉ before := fun h => (List.nodup_append.mp hn).2.2 p h p List.mem_cons_self rfl
  have hafter : p ∉ after := (List.nodup_cons.mp (List.nodup_append.mp hn).2.1).1
  rw [List.flatMap_append,List.flatMap_cons,freshBy_append,freshBy_append]
  have hkeys : ∀ {k : κ}, k ∈ [] ++ (freshBy key [] (before.flatMap f)).map key ↔
      ∃ q ∈ before, ∃ y ∈ f q, key y = k := by
    intro k
    rw [List.nil_append,mem_keys_freshBy,and_iff_left List.not_mem_nil,List.mem_map]
    constructor
    · intro ⟨y,hy,he⟩
      obtain ⟨q,hq,hy⟩ := List.mem_flatMap.mp hy
      exact ⟨q,hq,y,hy,he⟩
    · intro ⟨q,hq,y,hy,he⟩
      exact ⟨y,List.mem_flatMap.mpr ⟨q,hq,hy⟩,he⟩
  constructor
  · intro ⟨x,hx,hp⟩
    rcases List.mem_append.mp hx with hx | hx
    · have hin := howner (fun q hq => List.mem_append_left _ hq) ((freshBy_sublist _ _).subset hx)
      exact absurd (hp ▸ hin) hbefore
    · rcases List.mem_append.mp hx with hx | hx
      · refine ⟨x,(freshBy_sublist _ _).subset hx,?_⟩
        intro q hq y hy he
        exact (nodup_freshBy _ _).2 x hx (hkeys.mpr ⟨q,hq,y,hy,he⟩)
      · have hin := howner (fun q hq => List.mem_append_right _ (List.mem_cons_of_mem p hq))
          ((freshBy_sublist _ _).subset hx)
        exact absurd (hp ▸ hin) hafter
  · intro ⟨x,hx,hnew⟩
    have hkey : key x ∈ (freshBy key ([] ++ (freshBy key [] (before.flatMap f)).map key) (f p)).map key := by
      refine mem_keys_freshBy.mpr ⟨List.mem_map_of_mem hx,?_⟩
      intro hseen
      obtain ⟨q,hq,y,hy,he⟩ := hkeys.mp hseen
      exact hnew q hq y hy he
    obtain ⟨y,hy,-⟩ := List.mem_map.mp hkey
    refine ⟨y,List.mem_append_right _ (List.mem_append_left _ hy),?_⟩
    exact ho p (by simp) y ((freshBy_sublist _ _).subset hy)

/-- Appending an element unless its key was seen. -/
def appendIfNew (key : α → κ) (state : List α × List κ) (x : α) : List α × List κ :=
  if key x ∈ state.2 then state else (state.1 ++ [x],state.2 ++ [key x])

theorem foldl_appendIfNew (state : List α × List κ) (xs : List α) :
    xs.foldl (appendIfNew key) state =
      (state.1 ++ freshBy key state.2 xs,state.2 ++ (freshBy key state.2 xs).map key) := by
  induction xs generalizing state with
  | nil => simp [freshBy]
  | cons x xs ih =>
    rw [List.foldl_cons,ih,freshBy,appendIfNew]
    split <;> simp

/-- Every element's key is there afterwards. -/
theorem exists_foldl_appendIfNew {found xs : List α} {x : α} (hx : x ∈ xs) :
    ∃ y ∈ (xs.foldl (appendIfNew key) (found,found.map key)).1, key y = key x := by
  rw [foldl_appendIfNew]
  have hkey : key x ∈ found.map key ∨ key x ∈ (freshBy key (found.map key) xs).map key := by
    rw [mem_keys_freshBy]
    by_cases hseen : key x ∈ found.map key
    · exact .inl hseen
    · exact .inr ⟨List.mem_map_of_mem hx,hseen⟩
  rw [← List.mem_append,← List.map_append] at hkey
  exact List.mem_map.mp hkey

end

/-! Groups of the elements of each key. -/

section
variable {ι β : Type} [BEq ι] [LawfulBEq ι] {key : β → ι} {k : ι}

/-- An element joins the group of its key, or starts it at the end. -/
def joinGroup (key : β → ι) : List (ι × List β) → β → List (ι × List β)
  | [],x => [(key x,[x])]
  | (k,group) :: groups,x =>
    if k == key x then (k,group ++ [x]) :: groups else (k,group) :: joinGroup key groups x

def groupsOf (key : β → ι) (xs : List β) : List (ι × List β) := xs.foldl (joinGroup key) []

theorem lookup_joinGroup (groups : List (ι × List β)) (x : β) :
    ((joinGroup key groups x).lookup k).getD [] = (groups.lookup k).getD [] ++ [x].filter (key · == k) := by
  induction groups with
  | nil =>
    by_cases h : k = key x
    · simp [joinGroup,h]
    · have hne : (k == key x) = false := beq_false_of_ne h
      have hne' : (key x == k) = false := beq_false_of_ne (Ne.symm h)
      simp [joinGroup,List.lookup_cons,hne,hne']
  | cons entry groups ih =>
    obtain ⟨k',group⟩ := entry
    rw [joinGroup]
    by_cases hx : k' = key x
    · subst hx
      rw [if_pos (by simp),List.lookup_cons,List.lookup_cons]
      by_cases h : k = key x
      · simp [h]
      · have hne : (k == key x) = false := beq_false_of_ne h
        have hne' : (key x == k) = false := beq_false_of_ne (Ne.symm h)
        simp [hne,hne']
    · rw [if_neg (by simpa using hx),List.lookup_cons,List.lookup_cons]
      by_cases h : k = k'
      · subst h
        have hne : (key x == k) = false := beq_false_of_ne (Ne.symm hx)
        simp [hne]
      · have hne : (k == k') = false := beq_false_of_ne h
        simpa [hne] using ih

/-- The group of a key is what has the key, in order. -/
theorem lookup_groupsOf (xs : List β) : ((groupsOf key xs).lookup k).getD [] = xs.filter (key · == k) := by
  have hfold : ∀ groups : List (ι × List β),
      ((xs.foldl (joinGroup key) groups).lookup k).getD [] = (groups.lookup k).getD [] ++ xs.filter (key · == k) := by
    induction xs with
    | nil => simp
    | cons x xs ih =>
      intro groups
      rw [List.foldl_cons,ih,lookup_joinGroup,List.append_assoc,← List.filter_append]
      rfl
  exact hfold []

theorem mem_keys_joinGroup {groups : List (ι × List β)} {x : β} :
    k ∈ (joinGroup key groups x).map (·.1) ↔ k ∈ groups.map (·.1) ∨ k = key x := by
  induction groups with
  | nil => simp [joinGroup]
  | cons entry groups ih =>
    obtain ⟨k',group⟩ := entry
    rw [joinGroup]
    split
    · rename_i hx
      have hx : k' = key x := by simpa using hx
      rw [List.map_cons,List.mem_cons,List.map_cons,List.mem_cons,hx]
      exact ⟨.inl,fun h => h.elim id .inl⟩
    · rw [List.map_cons,List.mem_cons,ih,List.map_cons,List.mem_cons,or_assoc]

theorem mem_keys_groupsOf {xs : List β} : k ∈ (groupsOf key xs).map (·.1) ↔ k ∈ xs.map key := by
  have hfold : ∀ groups : List (ι × List β),
      k ∈ (xs.foldl (joinGroup key) groups).map (·.1) ↔ k ∈ groups.map (·.1) ∨ k ∈ xs.map key := by
    induction xs with
    | nil => simp
    | cons x xs ih =>
      intro groups
      rw [List.foldl_cons,ih,mem_keys_joinGroup,List.map_cons,List.mem_cons,or_assoc]
  simpa [groupsOf] using hfold []

/-- Blocks that each hold elements of one key, laid end to end: the elements of a key are its block. -/
theorem filter_flatMap_key {keys : List ι} {block : ι → List β} (hn : keys.Nodup)
    (hb : ∀ k ∈ keys, ∀ x ∈ block k, key x = k) (hk : k ∉ keys → block k = []) :
    (keys.flatMap block).filter (key · == k) = block k := by
  induction keys with
  | nil => exact (hk List.not_mem_nil).symm
  | cons k' keys ih =>
    obtain ⟨hk',hn⟩ := List.nodup_cons.mp hn
    have hrest : ∀ k ∈ keys, ∀ x ∈ block k, key x = k := fun k h => hb k (List.mem_cons_of_mem _ h)
    have hfirst := hb k' List.mem_cons_self
    rw [List.flatMap_cons,List.filter_append]
    by_cases he : k = k'
    · subst he
      have hnone : (keys.flatMap block).filter (key · == k) = [] := by
        rw [List.filter_eq_nil_iff]
        intro x hx hxk
        obtain ⟨other,ho,hx⟩ := List.mem_flatMap.mp hx
        have hother : other = k := (hrest other ho x hx).symm.trans (by simpa using hxk)
        exact hk' (hother ▸ ho)
      rw [hnone,List.append_nil,List.filter_eq_self]
      intro x hx
      simpa using hfirst x hx
    · have hnone : (block k').filter (key · == k) = [] := by
        rw [List.filter_eq_nil_iff]
        intro x hx hxk
        exact he ((by simpa using hxk : key x = k).symm.trans (hfirst x hx))
      rw [hnone,List.nil_append]
      exact ih hn hrest fun hnot => hk (by simp [he,hnot])

end

end Library
