import Mathlib.Data.List.Sort
import Mathlib.Data.List.Perm.Subperm
import Mathlib.Data.Prod.Lex

/-! Rows that are ranked by a stamp and then by an id, the newest first, of which only some are kept. -/
namespace Library
namespace Recent
variable {α τ : Type} [LinearOrder τ] (stamp : α → τ) (id : α → ℕ)

def rank (row : α) : τ ×ₗ ℕ := toLex (stamp row,id row)

def newestFirst (rows : List α) : List α := rows.insertionSort fun a b => rank stamp id b ≤ rank stamp id a

def newest (rows : List α) : Option α := (newestFirst stamp id rows).head?

/-- Of the rows of a kind only the newest ones are kept. -/
def prune (kind : α → Bool) (keep : ℕ) (rows : List α) : List α :=
  rows.filter fun row => !kind row || ((newestFirst stamp id (rows.filter kind)).take keep).any (id · = id row)

/-- The next id is past all that are in use. -/
def nextId (rows : List α) : ℕ := (rows.map id).foldr max 0 + 1

/-- Every row is as new as the ones before it. -/
def Chronological (rows : List α) : Prop := rows.Pairwise fun a b => stamp a ≤ stamp b ∧ id a < id b

/-- The last elements of a list. -/
def lastOf (n : ℕ) (xs : List α) : List α := xs.drop (xs.length - n)

variable {stamp id} {rows : List α} {kind other : α → Bool} {keep : ℕ}

theorem lt_nextId {row : α} (h : row ∈ rows) : id row < nextId id rows := by
  induction rows with
  | nil => cases h
  | cons first rows ih =>
    simp only [nextId,List.map_cons,List.foldr_cons] at ih ⊢
    rcases List.mem_cons.mp h with rfl | h
    · omega
    · have := ih h
      omega

theorem newestFirst_perm (rows : List α) : (newestFirst stamp id rows).Perm rows := List.perm_insertionSort _ rows

theorem newestFirst_sorted (rows : List α) :
    (newestFirst stamp id rows).Pairwise fun a b => rank stamp id b ≤ rank stamp id a :=
  List.pairwise_insertionSort _ rows

theorem newest_spec {row : α} (h : newest stamp id rows = some row) :
    row ∈ rows ∧ ∀ older ∈ rows, rank stamp id older ≤ rank stamp id row := by
  have hsorted : (newestFirst stamp id rows).Pairwise fun a b => rank stamp id b ≤ rank stamp id a :=
    newestFirst_sorted rows
  obtain ⟨rest,hrest⟩ := List.head?_eq_some_iff.mp h
  have hmem : ∀ {r : α}, r ∈ rows ↔ r ∈ row :: rest := by
    intro r
    rw [← hrest]
    exact (newestFirst_perm rows).mem_iff.symm
  refine ⟨hmem.mpr (by simp),fun older ho => ?_⟩
  rw [hrest,List.pairwise_cons] at hsorted
  rcases List.mem_cons.mp (hmem.mp ho) with rfl | ho
  · exact le_refl _
  · exact hsorted.1 older ho

theorem newest_eq_none : newest stamp id rows = none ↔ rows = [] := by
  rw [newest,List.head?_eq_none_iff]
  constructor
  · intro h
    have hperm : (newestFirst stamp id rows).Perm rows := newestFirst_perm rows
    rw [h] at hperm
    exact hperm.symm.eq_nil
  · rintro rfl
    rfl

theorem rank_lt {a b : α} (h : stamp a ≤ stamp b ∧ id a < id b) : rank stamp id a < rank stamp id b := by
  rw [rank,rank,Prod.Lex.toLex_lt_toLex]
  rcases h.1.lt_or_eq with hlt | heq
  · exact .inl hlt
  · exact .inr ⟨heq,h.2⟩

theorem Chronological.sublist {fewer : List α} (h : Chronological stamp id rows) (hs : fewer.Sublist rows) :
    Chronological stamp id fewer := List.Pairwise.sublist hs h

theorem Chronological.ids (h : Chronological stamp id rows) : (rows.map id).Nodup :=
  List.pairwise_map.mpr (h.imp fun hab => Nat.ne_of_lt hab.2)

theorem eq_of_id (h : (rows.map id).Nodup) {a b : α} (ha : a ∈ rows) (hb : b ∈ rows) (he : id a = id b) : a = b :=
  List.inj_on_of_nodup_map h ha hb he

theorem newestFirst_of_chronological (h : Chronological stamp id rows) :
    newestFirst stamp id rows = rows.reverse := by
  have hreverse : rows.reverse.Pairwise fun a b => rank stamp id b ≤ rank stamp id a :=
    List.pairwise_reverse.mpr (h.imp fun hab => (rank_lt hab).le)
  apply List.Perm.eq_of_pairwise _ (newestFirst_sorted rows) hreverse
    ((newestFirst_perm rows).trans rows.reverse_perm.symm)
  intro a b ha hb hab hba
  have ha : a ∈ rows := (newestFirst_perm rows).mem_iff.mp ha
  have hb : b ∈ rows := List.mem_reverse.mp hb
  exact eq_of_id h.ids ha hb (congrArg (fun pair => (ofLex pair).2) (le_antisymm hba hab))

theorem newest_of_chronological (h : Chronological stamp id rows) : newest stamp id rows = rows.getLast? := by
  rw [newest,newestFirst_of_chronological h,List.head?_reverse]

/-! What is left after the older rows of a kind are dropped. -/

theorem prune_sublist : (prune stamp id kind keep rows).Sublist rows := List.filter_sublist

theorem filter_prune_other (h : ∀ row, other row = true → kind row = false) :
    (prune stamp id kind keep rows).filter other = rows.filter other := by
  rw [prune,List.filter_filter]
  apply List.filter_congr
  intro row _
  cases ho : other row with
  | false => rfl
  | true => simp [h row ho]

theorem filter_prune (rows : List α) : (prune stamp id kind keep rows).filter kind =
    (rows.filter kind).filter fun row => ((newestFirst stamp id (rows.filter kind)).take keep).any (id · = id row) := by
  rw [prune,List.filter_filter,List.filter_filter]
  apply List.filter_congr
  intro row _
  cases kind row <;> simp

theorem filter_prune_of_chronological (h : Chronological stamp id (rows.filter kind)) :
    (prune stamp id kind keep rows).filter kind = lastOf keep (rows.filter kind) := by
  rw [filter_prune,newestFirst_of_chronological h,lastOf]
  generalize rows.filter kind = all at h ⊢
  rw [List.take_reverse]
  generalize hn : all.length - keep = n
  have hsplit : all = all.take n ++ all.drop n := (List.take_append_drop n all).symm
  have hapart : ∀ old ∈ all.take n, ∀ kept ∈ all.drop n, id old < id kept := by
    have hpairs := h
    rw [Chronological,hsplit,List.pairwise_append] at hpairs
    exact fun old ho kept hk => (hpairs.2.2 old ho kept hk).2
  have hold : (all.take n).filter (fun row => (all.drop n).reverse.any (id · = id row)) = [] := by
    rw [List.filter_eq_nil_iff]
    intro old ho hany
    obtain ⟨kept,hk,he⟩ := List.any_eq_true.mp hany
    have hlt := hapart old ho kept (List.mem_reverse.mp hk)
    rw [decide_eq_true_eq] at he
    omega
  have hkept : (all.drop n).filter (fun row => (all.drop n).reverse.any (id · = id row)) = all.drop n := by
    rw [List.filter_eq_self]
    intro kept hk
    exact List.any_eq_true.mpr ⟨kept,List.mem_reverse.mpr hk,by simp⟩
  calc all.filter (fun row => (all.drop n).reverse.any (id · = id row))
      = (all.take n ++ all.drop n).filter fun row => (all.drop n).reverse.any (id · = id row) := by rw [← hsplit]
    _ = all.drop n := by rw [List.filter_append,hold,hkept,List.nil_append]

theorem length_filter_prune (h : (rows.map id).Nodup) :
    ((prune stamp id kind keep rows).filter kind).length ≤ keep := by
  rw [filter_prune]
  generalize hall : rows.filter kind = all
  have hnodup : (all.map id).Nodup := by
    rw [← hall]
    exact h.sublist (List.filter_sublist.map id)
  generalize hkept : all.filter (fun row => ((newestFirst stamp id all).take keep).any (id · = id row)) = kept
  have hsub : kept.map id ⊆ ((newestFirst stamp id all).take keep).map id := by
    intro n hn
    obtain ⟨row,hrow,rfl⟩ := List.mem_map.mp hn
    rw [← hkept,List.mem_filter] at hrow
    obtain ⟨found,hfound,he⟩ := List.any_eq_true.mp hrow.2
    rw [decide_eq_true_eq] at he
    exact List.mem_map.mpr ⟨found,hfound,he⟩
  have hfew : (kept.map id).Nodup := by
    rw [← hkept]
    exact hnodup.sublist (List.filter_sublist.map id)
  have hle := (List.subperm_of_subset hfew hsub).length_le
  rw [List.length_map,List.length_map,List.length_take] at hle
  omega

end Recent
end Library
