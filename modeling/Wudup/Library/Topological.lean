import Mathlib.Data.Fintype.Card
import Mathlib.Data.Fintype.Sets
import Mathlib.Data.Fintype.EquivFin
import Mathlib.Data.List.Lex
import Mathlib.Data.List.Nodup
import Mathlib.Data.List.Perm.Basic
import Mathlib.Data.Set.Insert
import Mathlib.Logic.Relation
import Mathlib.Order.WellFounded

/-! Orders of finitely many elements in which each comes after those it depends on. -/
namespace Library
variable {α : Type} {deps : α → List α} {names : List α}

/-- The element is still to come, and all it depends on has come. -/
def Ready (deps : α → List α) (names : List α) (done : Set α) (v : α) : Prop :=
  v ∈ names ∧ v ∉ done ∧ ∀ d ∈ deps v, d ∈ done

/-- Each listed element is ready when its turn comes. -/
def ReadyOrder (deps : α → List α) (names : List α) : Set α → List α → Prop
  | _, [] => True
  | done, v :: rest => Ready deps names done v ∧ ReadyOrder deps names (insert v done) rest

/-- One element depends on another, both of them among the names. -/
def DependsOn (deps : α → List α) (names : List α) (d v : α) : Prop := d ∈ names ∧ v ∈ names ∧ d ∈ deps v

/-- Some element depends on itself, over others or at once. -/
def Cyclic (deps : α → List α) (names : List α) : Prop := ∃ v, Relation.TransGen (DependsOn deps names) v v

theorem cyclic_congr {names' : List α} (h : ∀ v, v ∈ names ↔ v ∈ names') : Cyclic deps names ↔ Cyclic deps names' := by
  have hsame : DependsOn deps names = DependsOn deps names' := by
    funext d v
    simp only [DependsOn,h]
  rw [Cyclic,hsame,Cyclic]

theorem Ready.insert {done : Set α} {v w : α} (h : Ready deps names done v) (hne : v ≠ w) :
    Ready deps names (insert w done) v := by
  refine ⟨h.1,?_,?_⟩
  · rw [Set.mem_insert_iff]
    exact not_or_intro hne h.2.1
  · intro d hd
    exact Set.mem_insert_of_mem w (h.2.2 d hd)

namespace ReadyOrder
variable {done : Set α} {order : List α} {v : α}

theorem not_mem_done (h : ReadyOrder deps names done order) (hv : v ∈ order) : v ∉ done := by
  induction order generalizing done with
  | nil => cases hv
  | cons w rest ih =>
    rcases List.mem_cons.mp hv with rfl | hv
    · exact h.1.2.1
    · intro hd
      exact ih h.2 hv (Set.mem_insert_of_mem w hd)

theorem mem_names (h : ReadyOrder deps names done order) (hv : v ∈ order) : v ∈ names := by
  induction order generalizing done with
  | nil => cases hv
  | cons w rest ih =>
    rcases List.mem_cons.mp hv with rfl | hv
    · exact h.1.1
    · exact ih h.2 hv

theorem nodup (h : ReadyOrder deps names done order) : order.Nodup := by
  induction order generalizing done with
  | nil => exact List.nodup_nil
  | cons w rest ih =>
    rw [List.nodup_cons]
    refine ⟨?_,ih h.2⟩
    intro hw
    exact h.2.not_mem_done hw (Set.mem_insert w done)

/-- An element that is ready may come at once. -/
theorem insert_erase [DecidableEq α] (h : ReadyOrder deps names done order) (hv : Ready deps names done v) :
    ReadyOrder deps names (insert v done) (order.erase v) := by
  induction order generalizing done with
  | nil => trivial
  | cons w rest ih =>
    by_cases heq : w = v
    · subst heq
      rw [List.erase_cons_head]
      exact h.2
    · rw [List.erase_cons_tail (by simpa using heq)]
      refine ⟨h.1.insert heq,?_⟩
      rw [Set.insert_comm]
      exact ih h.2 (hv.insert (Ne.symm heq))

end ReadyOrder

section
variable [DecidableEq α]

/-- Every element comes after all it depends on. -/
def DependenciesFirst (deps : α → List α) (order : List α) : Prop :=
  ∀ v ∈ order, ∀ d ∈ deps v, order.idxOf d < order.idxOf v

theorem readyOrder_of_first {done : Set α} {order : List α} (hn : order.Nodup)
    (hnames : ∀ v ∈ order, v ∈ names) (hdone : ∀ v ∈ order, v ∉ done)
    (hfirst : ∀ v ∈ order, ∀ d ∈ deps v, d ∈ done ∨ order.idxOf d < order.idxOf v) :
    ReadyOrder deps names done order := by
  induction order generalizing done with
  | nil => trivial
  | cons w rest ih =>
    obtain ⟨hw,hn⟩ := List.nodup_cons.mp hn
    refine ⟨⟨hnames w List.mem_cons_self,hdone w List.mem_cons_self,?_⟩,?_⟩
    · intro d hd
      rcases hfirst w List.mem_cons_self d hd with h | h
      · exact h
      · rw [List.idxOf_cons_self] at h
        omega
    · apply ih hn
      · intro v hv
        exact hnames v (List.mem_cons_of_mem w hv)
      · intro v hv
        rw [Set.mem_insert_iff]
        exact not_or_intro (fun h => hw (h ▸ hv)) (hdone v (List.mem_cons_of_mem w hv))
      · intro v hv d hd
        have hvw : w ≠ v := fun h => hw (h ▸ hv)
        by_cases hdw : w = d
        · exact .inl (hdw ▸ Set.mem_insert w done)
        · rcases hfirst v (List.mem_cons_of_mem w hv) d hd with h | h
          · exact .inl (Set.mem_insert_of_mem w h)
          · rw [List.idxOf_cons_ne _ hdw,List.idxOf_cons_ne _ hvw] at h
            exact .inr (by omega)

theorem ReadyOrder.first {done : Set α} {order : List α} (h : ReadyOrder deps names done order) :
    ∀ v ∈ order, ∀ d ∈ deps v, d ∈ done ∨ order.idxOf d < order.idxOf v := by
  induction order generalizing done with
  | nil => simp
  | cons w rest ih =>
    intro v hv d hd
    by_cases hvw : w = v
    · subst hvw
      exact .inl (h.1.2.2 d hd)
    · have hv : v ∈ rest := (List.mem_cons.mp hv).resolve_left (Ne.symm hvw)
      rw [List.idxOf_cons_ne _ hvw]
      by_cases hdw : w = d
      · subst hdw
        rw [List.idxOf_cons_self]
        exact .inr (Nat.succ_pos _)
      · rw [List.idxOf_cons_ne _ hdw]
        rcases ih h.2 v hv d hd with h | h
        · exact .inl ((Set.mem_insert_iff.mp h).resolve_left (Ne.symm hdw))
        · exact .inr (Nat.succ_lt_succ h)

/-- What comes before can not come after. -/
theorem DependenciesFirst.not_cyclic {order : List α} (h : DependenciesFirst deps order)
    (hnames : ∀ v ∈ names, v ∈ order) : ¬ Cyclic deps names := by
  have hlt : ∀ d v, Relation.TransGen (DependsOn deps names) d v → order.idxOf d < order.idxOf v := by
    intro d v hpath
    induction hpath with
    | single hd => exact h _ (hnames _ hd.2.1) _ hd.2.2
    | tail _ hd ih => exact ih.trans (h _ (hnames _ hd.2.1) _ hd.2.2)
  intro ⟨v,hv⟩
  exact lt_irrefl _ (hlt v v hv)

/-- Without a cycle some element of each set depends on none of them. -/
theorem exists_free_of_not_cyclic (h : ¬ Cyclic deps names) (left : Set α) (hleft : left.Nonempty)
    (hnames : ∀ v ∈ left, v ∈ names) : ∃ v ∈ left, ∀ d ∈ deps v, d ∉ left := by
  let below : {v // v ∈ names} → {v // v ∈ names} → Prop :=
    fun d v => Relation.TransGen (DependsOn deps names) d.1 v.1
  have htrans : IsTrans _ below := ⟨fun _ _ _ => Relation.TransGen.trans⟩
  have hirrefl : Std.Irrefl below := ⟨fun v hv => h ⟨v.1,hv⟩⟩
  have hfinite : Finite {v // v ∈ names} := Finite.of_fintype _
  have hwf : WellFounded below := Finite.wellFounded_of_trans_of_irrefl below
  obtain ⟨v,hv⟩ := hleft
  obtain ⟨least,hl,hmin⟩ := hwf.has_min {u | u.1 ∈ left} ⟨⟨v,hnames v hv⟩,hv⟩
  refine ⟨least.1,hl,?_⟩
  intro d hd hleft
  exact hmin ⟨d,hnames d hleft⟩ hleft (.single ⟨hnames d hleft,least.2,hd⟩)

end

section
variable [LinearOrder α]

/-- The least ready element comes next, as long as there is one. -/
inductive LeastFirst (deps : α → List α) (names : List α) : Set α → List α → Prop
  | stop {done : Set α} : (∀ v, ¬ Ready deps names done v) → LeastFirst deps names done []
  | take {done : Set α} {v : α} {rest : List α} : Ready deps names done v →
      (∀ w, Ready deps names done w → v ≤ w) → LeastFirst deps names (insert v done) rest →
      LeastFirst deps names done (v :: rest)

/-- The order of all elements that comes first by the alphabet of those that keep the dependencies. -/
structure LeastOrder (deps : α → List α) (names order : List α) : Prop where
  perm : order.Perm names
  first : DependenciesFirst deps order
  least : ∀ other : List α, other.Perm names → DependenciesFirst deps other → order ≤ other

theorem LeastOrder.unique {first second : List α} (h : LeastOrder deps names first)
    (h' : LeastOrder deps names second) : first = second :=
  le_antisymm (h.least second h'.perm h'.first) (h'.least first h.perm h.first)

theorem LeastOrder.not_cyclic {order : List α} (h : LeastOrder deps names order) : ¬ Cyclic deps names :=
  h.first.not_cyclic fun _ hv => h.perm.mem_iff.mpr hv

namespace LeastFirst
variable {done : Set α} {order other : List α}

theorem readyOrder (h : LeastFirst deps names done order) : ReadyOrder deps names done order := by
  induction h with
  | stop _ => trivial
  | take hv _ _ ih => exact ⟨hv,ih⟩

/-- Where the elements can all be ordered, the least order lists them all. -/
theorem perm_and_le (h : LeastFirst deps names done order) (hother : ReadyOrder deps names done other)
    (hall : ∀ v ∈ names, v ∉ done → v ∈ other) : order.Perm other ∧ order ≤ other := by
  induction h generalizing other with
  | stop hstop =>
    cases other with
    | nil => exact ⟨.refl _,le_refl _⟩
    | cons w rest => exact absurd hother.1 (hstop w)
  | @take done v rest hv hleast _ ih =>
    have hmem : v ∈ other := hall v hv.1 hv.2.1
    obtain ⟨hperm,hle⟩ := ih (hother.insert_erase hv) (by
      intro u hu hd
      rw [Set.mem_insert_iff,not_or] at hd
      exact (List.mem_erase_of_ne hd.1).mpr (hall u hu hd.2))
    refine ⟨(hperm.cons v).trans (List.perm_cons_erase hmem).symm,?_⟩
    cases other with
    | nil => cases hmem
    | cons w tail =>
      rcases (hleast w hother.1).eq_or_lt with rfl | hlt
      · rw [List.erase_cons_head] at hle
        exact List.cons_le_cons v hle
      · exact le_of_lt (List.cons_lt_cons_iff.mpr (.inl hlt))

/-- An element that is left over waits for another one. -/
theorem waits (h : LeastFirst deps names done order) {v : α} (hv : v ∈ names) (hd : v ∉ done)
    (ho : v ∉ order) : ∃ d ∈ deps v, d ∉ done ∧ d ∉ order := by
  induction h with
  | @stop done hstop =>
    by_contra hnone
    apply hstop v
    refine ⟨hv,hd,?_⟩
    intro d hdep
    by_contra hnot
    exact hnone ⟨d,hdep,hnot,List.not_mem_nil⟩
  | @take done w rest hw _ _ ih =>
    rw [List.mem_cons,not_or] at ho
    obtain ⟨d,hdep,hnot,hrest⟩ := ih (by
      rw [Set.mem_insert_iff,not_or]
      exact ⟨ho.1,hd⟩) ho.2
    rw [Set.mem_insert_iff,not_or] at hnot
    refine ⟨d,hdep,hnot.2,?_⟩
    rw [List.mem_cons,not_or]
    exact ⟨hnot.1,hrest⟩

theorem perm_of_length (h : LeastFirst deps names ∅ order) (hl : names.length ≤ order.length) :
    order.Perm names :=
  ((h.readyOrder.nodup.subperm fun _ => h.readyOrder.mem_names).perm_of_length_le hl)

theorem leastOrder (h : LeastFirst deps names ∅ order) (hl : names.length ≤ order.length) :
    LeastOrder deps names order := by
  have hperm := h.perm_of_length hl
  refine ⟨hperm,?_,?_⟩
  · intro v hv d hd
    exact (h.readyOrder.first v hv d hd).resolve_left (Set.notMem_empty d)
  · intro other hother hfirst
    have hn : other.Nodup := (hperm.trans hother.symm).nodup h.readyOrder.nodup
    refine (h.perm_and_le ?_ fun v hv _ => hother.mem_iff.mpr hv).2
    exact readyOrder_of_first hn (fun v hv => hother.mem_iff.mp hv) (fun v _ => Set.notMem_empty v)
      fun v hv d hd => .inr (hfirst v hv d hd)

/-- All elements are listed unless there is a cycle. -/
theorem complete_iff (h : LeastFirst deps names ∅ order) (hn : names.Nodup)
    (hdeps : ∀ v ∈ names, ∀ d ∈ deps v, d ∈ names) :
    order.length = names.length ↔ ¬ Cyclic deps names := by
  constructor
  · intro hl
    exact (h.leastOrder hl.ge).not_cyclic
  · intro hacyclic
    have hall : ∀ v ∈ names, v ∈ order := by
      by_contra hnot
      push Not at hnot
      obtain ⟨v,hv,ho⟩ := hnot
      obtain ⟨w,hw,hfree⟩ := exists_free_of_not_cyclic hacyclic {u | u ∈ names ∧ u ∉ order}
        ⟨v,hv,ho⟩ fun u hu => hu.1
      obtain ⟨d,hd,-,hdo⟩ := h.waits hw.1 (Set.notMem_empty w) hw.2
      exact hfree d hd ⟨hdeps w hw.1 d hd,hdo⟩
    exact le_antisymm (h.readyOrder.nodup.subperm fun _ => h.readyOrder.mem_names).length_le
      (hn.subperm hall).length_le

end LeastFirst

end

end Library
