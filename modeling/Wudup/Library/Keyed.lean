import Mathlib.Data.List.Basic
import Mathlib.Data.List.Count
import Mathlib.Data.List.Nodup
import Mathlib.Data.List.Sort

/-! Dictionaries of records that carry their key, in the order of insertion. -/
namespace Library.Keyed
variable {α κ : Type}

section
/-! Records that someone works on -/

/-- The owned records are active, and there are no more owners than active records. -/
structure Owned (key : α → κ) (active : α → Bool) (xs : List α) (owners : List κ) : Prop where
  nodup : (xs.map key).Nodup
  length_le : owners.length ≤ xs.countP active
  active_of : ∀ k ∈ owners, ∀ x ∈ xs, key x = k → active x = true

variable {key : α → κ} {active : α → Bool} {xs : List α} {owners : List κ} {k : κ}

theorem Owned.free (hn : (xs.map key).Nodup) : Owned key active xs [] := ⟨hn,by simp,by simp⟩

theorem Owned.idle (h : Owned key active xs owners) (h0 : xs.countP active = 0) : owners = [] :=
  List.eq_nil_of_length_eq_zero (Nat.le_zero.mp (h0 ▸ h.length_le))

/-- The owner of the only active record is the only owner. -/
theorem Owned.only (h : Owned key active xs owners) (h1 : xs.countP active ≤ 1) (hk : k ∈ owners) :
    owners = [k] := by
  have hlength := h.length_le
  match owners,hk with
  | [owner],hk =>
    rw [List.mem_singleton.mp hk]
  | _ :: _ :: _,_ =>
    simp only [List.length_cons] at hlength
    omega

end

variable [DecidableEq κ] (key : α → κ)

/-- A record replaces the one of its key, or comes last. -/
def set (x : α) : List α → List α
  | [] => [x]
  | y :: ys => if key y = key x then x :: ys else y :: set x ys

def find (k : κ) (xs : List α) : Option α := xs.find? (key · = k)

def modify (k : κ) (f : α → α) (xs : List α) : List α := xs.map fun x => if key x = k then f x else x

def remove (k : κ) (xs : List α) : List α := xs.filter (key · ≠ k)

/-- The oldest records that have ended are dropped, up to a number of them. -/
def evict (ended : α → Bool) (count : ℕ) (xs : List α) : List α :=
  xs.filter fun x => key x ∉ ((xs.filter ended).map key).take count

variable {key} {k : κ} {x y : α} {xs : List α} {f : α → α} {p ended : α → Bool} {count : ℕ}

/-! Members -/

theorem mem_set (hn : (xs.map key).Nodup) : y ∈ set key x xs ↔ y = x ∨ y ∈ xs ∧ key y ≠ key x := by
  induction xs with
  | nil => simp [set]
  | cons z zs ih =>
    obtain ⟨hz,hn⟩ := List.nodup_cons.mp hn
    rw [set]
    split
    · rename_i he
      have hne : y ∈ zs → key y ≠ key x := by
        intro hy heq
        exact hz (he.trans heq.symm ▸ List.mem_map_of_mem hy)
      constructor
      · intro hy
        rcases List.mem_cons.mp hy with rfl | hy
        · exact .inl rfl
        · exact .inr ⟨List.mem_cons_of_mem _ hy,hne hy⟩
      · rintro (rfl | ⟨hy,hyx⟩)
        · simp
        · rcases List.mem_cons.mp hy with rfl | hy
          · exact absurd he hyx
          · exact List.mem_cons_of_mem _ hy
    · rename_i he
      rw [List.mem_cons,ih hn,List.mem_cons]
      constructor
      · rintro (rfl | rfl | ⟨hy,hyx⟩)
        · exact .inr ⟨.inl rfl,he⟩
        · exact .inl rfl
        · exact .inr ⟨.inr hy,hyx⟩
      · rintro (rfl | ⟨rfl | hy,hyx⟩)
        · exact .inr (.inl rfl)
        · exact .inl rfl
        · exact .inr (.inr ⟨hy,hyx⟩)

theorem eq_or_mem_of_mem_set (h : y ∈ set key x xs) : y = x ∨ y ∈ xs := by
  induction xs with
  | nil => exact .inl (by simpa [set] using h)
  | cons z zs ih =>
    rw [set] at h
    split at h
    · rcases List.mem_cons.mp h with rfl | h
      · exact .inl rfl
      · exact .inr (List.mem_cons_of_mem _ h)
    · rcases List.mem_cons.mp h with rfl | h
      · exact .inr List.mem_cons_self
      · exact (ih h).imp_right (List.mem_cons_of_mem _)

theorem nodup_set (hn : (xs.map key).Nodup) : ((set key x xs).map key).Nodup := by
  induction xs with
  | nil => simp [set]
  | cons z zs ih =>
    obtain ⟨hz,hn'⟩ := List.nodup_cons.mp hn
    rw [set]
    split
    · rename_i he
      rw [List.map_cons,List.nodup_cons]
      exact ⟨he ▸ hz,hn'⟩
    · rename_i he
      rw [List.map_cons,List.nodup_cons]
      refine ⟨?_,ih hn'⟩
      intro hm
      obtain ⟨w,hw,hk⟩ := List.mem_map.mp hm
      rcases (mem_set hn').mp hw with rfl | ⟨hw,-⟩
      · exact he hk.symm
      · exact hz (hk ▸ List.mem_map_of_mem hw)

theorem length_set_le : (set key x xs).length ≤ xs.length + 1 := by
  induction xs with
  | nil => simp [set]
  | cons z zs ih =>
    rw [set]
    split
    · simp
    · simpa using ih

theorem mem_set_self : x ∈ set key x xs := by
  induction xs with
  | nil => simp [set]
  | cons z zs ih =>
    rw [set]
    split
    · simp
    · exact List.mem_cons_of_mem _ ih

/-- A record that satisfies the predicate is the only one if none did before. -/
theorem countP_set (hp : p x = true) (hxs : ∀ y ∈ xs, p y = false) : (set key x xs).countP p = 1 := by
  induction xs with
  | nil => simp [set,hp]
  | cons z zs ih =>
    have hzs : zs.countP p = 0 := by
      rw [List.countP_eq_zero]
      intro y hy
      simp [hxs y (by simp [hy])]
    rw [set]
    split
    · rw [List.countP_cons_of_pos hp,hzs]
    · rw [List.countP_cons_of_neg (by simp [hxs z (by simp)])]
      exact ih fun y hy => hxs y (by simp [hy])

theorem mem_modify : y ∈ modify key k f xs ↔ ∃ x ∈ xs, (if key x = k then f x else x) = y := by
  rw [modify,List.mem_map]

theorem exists_mem_modify (hf : ∀ x, key (f x) = key x) (hx : x ∈ xs) :
    ∃ y ∈ modify key k f xs, key y = key x := by
  refine ⟨_,mem_modify.mpr ⟨x,hx,rfl⟩,?_⟩
  split
  · exact hf x
  · rfl

theorem map_modify (hf : ∀ x, key (f x) = key x) : (modify key k f xs).map key = xs.map key := by
  rw [modify,List.map_map]
  apply List.map_congr_left
  intro x _
  by_cases hx : key x = k <;> simp [hx,hf]

/-- The number of records with a property stays when the change keeps it. -/
theorem countP_modify (h : ∀ x ∈ xs, key x = k → p (f x) = p x) :
    (modify key k f xs).countP p = xs.countP p := by
  rw [modify,List.countP_map]
  apply List.countP_congr
  intro x hx
  by_cases hk : key x = k
  · simp [hk,h x hx hk]
  · simp [hk]

theorem countP_modify_le (h : ∀ x ∈ xs, key x = k → p (f x) = true → p x = true) :
    (modify key k f xs).countP p ≤ xs.countP p := by
  rw [modify,List.countP_map]
  apply List.countP_mono_left
  intro x hx
  by_cases hk : key x = k
  · simpa [hk] using h x hx hk
  · simp [hk]

theorem remove_sublist : (remove key k xs).Sublist xs := List.filter_sublist

theorem mem_remove : y ∈ remove key k xs ↔ y ∈ xs ∧ key y ≠ k := by simp [remove]

theorem evict_sublist : (evict key ended count xs).Sublist xs := List.filter_sublist

/-- What has not ended is not evicted. -/
theorem mem_evict (hn : (xs.map key).Nodup) (hx : x ∈ xs) (he : ended x = false) :
    x ∈ evict key ended count xs := by
  rw [evict,List.mem_filter]
  refine ⟨hx,?_⟩
  rw [decide_eq_true_eq]
  intro hm
  obtain ⟨y,hy,hk⟩ := List.mem_map.mp (List.mem_of_mem_take hm)
  obtain ⟨hy,hended⟩ := List.mem_filter.mp hy
  obtain rfl := List.inj_on_of_nodup_map hn hy hx hk
  exact absurd (he.symm.trans hended) (by decide)

/-- When all have ended, as many go as asked for. -/
theorem length_evict_le (h : ∀ x ∈ xs, ended x = true) : (evict key ended count xs).length ≤ xs.length - count := by
  have hall : xs.filter ended = xs := List.filter_eq_self.mpr h
  have hsub : (evict key ended count xs).Sublist (xs.drop count) := by
    rw [evict,hall]
    conv_lhs => rw [← List.take_append_drop count xs]
    rw [List.filter_append]
    have hnone : (xs.take count).filter (fun x =>
        key x ∉ ((xs.take count ++ xs.drop count).map key).take count) = [] := by
      rw [List.filter_eq_nil_iff]
      intro x hx
      have hkey : key x ∈ (xs.map key).take count := by
        rw [← List.map_take]
        exact List.mem_map_of_mem hx
      simpa [List.take_append_drop] using hkey
    rw [hnone,List.nil_append]
    exact List.filter_sublist
  simpa using hsub.length_le

/-! Lookups -/

theorem find_set : find key k (set key x xs) = if key x = k then some x else find key k xs := by
  induction xs with
  | nil => by_cases hx : key x = k <;> simp [set,find,hx]
  | cons z zs ih =>
    rw [set]
    by_cases he : key z = key x
    · rw [if_pos he]
      by_cases hx : key x = k
      · simp [find,hx]
      · have hz : key z ≠ k := fun h => hx (he ▸ h)
        simp [find,hx,hz]
    · rw [if_neg he]
      by_cases hz : key z = k
      · have hx : key x ≠ k := fun h => he (hz.trans h.symm)
        simp [find,hx,hz]
      · simpa [find,hz] using ih

theorem find_modify (hf : ∀ x, key (f x) = key x) : find key k (modify key k f xs) = (find key k xs).map f := by
  induction xs with
  | nil => rfl
  | cons z zs ih =>
    by_cases hz : key z = k
    · simp [find,modify,hz,hf]
    · simpa [find,modify,hz] using ih

theorem find_modify_ne {k' : κ} (hf : ∀ x, key (f x) = key x) (hk : k' ≠ k) :
    find key k' (modify key k f xs) = find key k' xs := by
  induction xs with
  | nil => rfl
  | cons z zs ih =>
    by_cases hz : key z = k
    · have hz' : key z ≠ k' := fun h => hk (h.symm.trans hz)
      simpa [find,modify,hz,hf,hz',hk.symm] using ih
    · by_cases hz' : key z = k'
      · simp [find,modify,hz',hk]
      · simpa [find,modify,hz,hz'] using ih

theorem mem_of_find (h : find key k xs = some x) : x ∈ xs ∧ key x = k :=
  ⟨List.mem_of_find?_eq_some h,by simpa using List.find?_some h⟩

theorem find_of_mem (hn : (xs.map key).Nodup) (hx : x ∈ xs) : find key (key x) xs = some x := by
  have hsome : (find key (key x) xs).isSome := by
    rw [find,List.find?_isSome]
    exact ⟨x,hx,by simp⟩
  obtain ⟨y,hy⟩ := Option.isSome_iff_exists.mp hsome
  obtain ⟨hmem,hkey⟩ := mem_of_find hy
  rw [hy,List.inj_on_of_nodup_map hn hmem hx hkey]

/-- With keys that occur once, a lookup in what is left of a dictionary tests what it finds. -/
theorem find_filter (hn : (xs.map key).Nodup) : find key k (xs.filter p) = (find key k xs).filter p := by
  induction xs with
  | nil => rfl
  | cons z zs ih =>
    obtain ⟨hz,hzs⟩ := List.nodup_cons.mp hn
    by_cases hk : key z = k
    · have hnone : find key k (zs.filter p) = none := by
        apply List.find?_eq_none.mpr
        intro y hy hyk
        apply hz
        rw [hk,← of_decide_eq_true hyk]
        exact List.mem_map_of_mem (List.mem_of_mem_filter hy)
      cases hp : p z with
      | true => simp [find,hk,hp,Option.filter]
      | false =>
        rw [List.filter_cons_of_neg (by simp [hp]),hnone]
        simp [find,hk,hp,Option.filter]
    · cases hp : p z with
      | true => simpa [find,hk,hp] using ih hzs
      | false => simpa [find,hk,hp] using ih hzs

theorem find_of_sublist {ys : List α} (hn : (xs.map key).Nodup) (hs : ys.Sublist xs) (h : find key k ys = some x) :
    find key k xs = some x := by
  obtain ⟨hx,rfl⟩ := mem_of_find h
  exact find_of_mem hn (hs.mem hx)

theorem find_none_of_sublist {ys : List α} (hs : ys.Sublist xs) (h : find key k xs = none) : find key k ys = none := by
  apply List.find?_eq_none.mpr
  exact fun y hy => List.find?_eq_none.mp h y (hs.mem hy)

/-- A lookup in what a test of the keys leaves of a dictionary. -/
theorem find_filter_key (q : κ → Bool) :
    find key k (xs.filter fun x => q (key x)) = if q k then find key k xs else none := by
  rw [find,find,List.find?_filter]
  split
  · rename_i hq
    congr 1
    funext x
    by_cases hx : key x = k <;> simp [hx,hq]
  · rename_i hq
    apply List.find?_eq_none.mpr
    intro x _ hx
    obtain ⟨hq',hk⟩ := of_decide_eq_true hx
    exact hq (of_decide_eq_true hk ▸ hq')

theorem find_remove {k' : κ} : find key k (remove key k' xs) = if k = k' then none else find key k xs := by
  rw [remove,find_filter_key fun other => decide (other ≠ k')]
  by_cases hk : k = k' <;> simp [hk]

theorem find_eq_none_iff : find key k xs = none ↔ ∀ x ∈ xs, key x ≠ k := by
  rw [find,List.find?_eq_none]
  simp only [decide_eq_true_eq]

theorem remove_eq_self_iff : remove key k xs = xs ↔ find key k xs = none := by
  rw [remove,List.filter_eq_self,find_eq_none_iff]
  simp only [decide_eq_true_eq]

/-- Without the key of a record it does not matter that the record was put in. -/
theorem remove_set : remove key (key x) (set key x xs) = remove key (key x) xs := by
  induction xs with
  | nil => simp [set,remove]
  | cons z zs ih =>
    rw [set]
    split
    · rename_i he
      simp [remove,he]
    · rename_i he
      rw [remove,remove,List.filter_cons_of_pos (by simpa using he),List.filter_cons_of_pos (by simpa using he)]
      exact congrArg (z :: ·) ih

@[simp] theorem evict_zero : evict key ended 0 xs = xs := by simp [evict]

/-- Some record goes when one has ended and any are to go. -/
theorem exists_not_mem_evict (hx : x ∈ xs) (he : ended x = true) (hcount : 0 < count) :
    ∃ y ∈ xs, y ∉ evict key ended count xs := by
  obtain ⟨y,rest,hended⟩ := List.exists_cons_of_ne_nil (List.ne_nil_of_mem (List.mem_filter.mpr ⟨hx,he⟩))
  refine ⟨y,(List.mem_filter.mp (hended ▸ List.mem_cons_self)).1,?_⟩
  intro hy
  rw [evict,List.mem_filter,hended,List.map_cons] at hy
  obtain ⟨n,rfl⟩ := Nat.exists_eq_succ_of_ne_zero hcount.ne'
  simp at hy

/-- What is left after an eviction was there before. -/
theorem find_of_evict (h : find key k (evict key ended count xs) = some x) : find key k xs = some x := by
  rw [evict,find_filter_key fun k => decide (k ∉ ((xs.filter ended).map key).take count)] at h
  split at h
  · exact h
  · cases h

/-! Owned records -/

variable {active : α → Bool} {owners : List κ}

/-- A new record starts with an owner when no other is active. -/
theorem Owned.start (hn : (xs.map key).Nodup) (hx : active x = true) (hxs : ∀ y ∈ xs, active y = false) :
    Owned key active (set key x xs) [key x] := by
  constructor
  · exact nodup_set hn
  · rw [countP_set hx hxs]
    simp
  · intro k hk y hy he
    rcases (mem_set hn).mp hy with rfl | ⟨-,hne⟩
    · exact hx
    · exact absurd (he.trans (List.mem_singleton.mp hk)) hne

/-- An owner may change its record and keep it active. -/
theorem Owned.modify (h : Owned key active xs owners) (hk : k ∈ owners) (hf : ∀ x, key (f x) = key x)
    (ha : ∀ x ∈ xs, active x = true → active (f x) = true) :
    Owned key active (modify key k f xs) owners ∧ (Keyed.modify key k f xs).countP active = xs.countP active := by
  have hcount : (Keyed.modify key k f xs).countP active = xs.countP active := by
    apply countP_modify
    intro x hx he
    have hactive := h.active_of k hk x hx he
    rw [hactive,ha x hx hactive]
  refine ⟨⟨?_,?_,?_⟩,hcount⟩
  · rw [map_modify hf]
    exact h.nodup
  · rw [hcount]
    exact h.length_le
  · intro k' hk' y hy he
    obtain ⟨x,hx,rfl⟩ := mem_modify.mp hy
    split at he
    · rw [hf] at he
      rw [if_pos (by assumption)]
      exact ha x hx (h.active_of k' hk' x hx he)
    · rw [if_neg (by assumption)]
      exact h.active_of k' hk' x hx he

theorem countP_evict (hn : (xs.map key).Nodup) (hp : ∀ x, p x = true → ended x = false) :
    (evict key ended count xs).countP p = xs.countP p := by
  rw [evict,List.countP_filter]
  apply List.countP_congr
  intro x hx
  have hkept : p x = true → key x ∉ ((xs.filter ended).map key).take count := by
    intro hpx
    have hmem : x ∈ evict key ended count xs := mem_evict hn hx (hp x hpx)
    simpa [evict,hx] using hmem
  constructor
  · intro h
    exact (Bool.and_eq_true_iff.mp h).1
  · intro h
    simp [h,hkept h]

/-- Evictions leave what is owned. -/
theorem Owned.evict (h : Owned key active xs owners) (ha : ∀ x, active x = true → ended x = false) :
    Owned key active (evict key ended count xs) owners := by
  constructor
  · exact (evict_sublist.map _).nodup h.nodup
  · rw [countP_evict h.nodup ha]
    exact h.length_le
  · exact fun k hk x hx he => h.active_of k hk x (evict_sublist.subset hx) he

section
/-! Records in the order of their keys -/
variable {κ : Type} [LinearOrder κ] (key : α → κ)

def sortedBy (xs : List α) : List α := xs.insertionSort fun a b => key a ≤ key b

theorem sortedBy_perm (xs : List α) : (sortedBy key xs).Perm xs := List.perm_insertionSort _ xs

variable {key}

/-- The sorted list is the same for all orders of a list without two records of one key. -/
theorem sortedBy_eq_of_perm {xs ys : List α} (h : xs.Perm ys)
    (hkey : ∀ a ∈ xs, ∀ b ∈ xs, key a = key b → a = b) : sortedBy key xs = sortedBy key ys := by
  have hperm : (sortedBy key xs).Perm (sortedBy key ys) :=
    (sortedBy_perm key xs).trans (h.trans (sortedBy_perm key ys).symm)
  refine hperm.eq_of_pairwise ?_ (List.pairwise_insertionSort _ xs) (List.pairwise_insertionSort _ ys)
  intro a b ha hb hab hba
  have ha := (sortedBy_perm key xs).subset ha
  have hb := h.symm.subset ((sortedBy_perm key ys).subset hb)
  exact hkey a ha b hb (le_antisymm hab hba)

theorem perm_of_sortedBy_eq {xs ys : List α} (h : sortedBy key xs = sortedBy key ys) : xs.Perm ys :=
  (sortedBy_perm key xs).symm.trans ((List.Perm.of_eq h).trans (sortedBy_perm key ys))

/-- Sorted elements without a repetition ascend. -/
theorem pairwise_insertionSort_of_nodup {xs : List κ} (h : xs.Nodup) :
    (xs.insertionSort (· ≤ ·)).Pairwise (· < ·) := by
  have hn : (xs.insertionSort (· ≤ ·)).Nodup := (List.perm_insertionSort _ xs).nodup_iff.mpr h
  exact ((List.pairwise_insertionSort (· ≤ ·) xs).and hn).imp fun h => lt_of_le_of_ne h.1 h.2

end

end Library.Keyed
