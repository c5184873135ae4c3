import Wudup.Library.JsonText
import Mathlib.Data.List.Sort
import Mathlib.Data.List.Lex
import Mathlib.Data.List.Nodup

/-! Data whose JSON value determines it: records with their fields sorted by name, lists and mappings. -/
namespace Library

namespace JsonValue

/-- The fields in the order of their names. -/
def sortFields (fields : List (List Char × JsonValue)) : List (List Char × JsonValue) :=
  fields.insertionSort fun a b => a.1 ≤ b.1

def record (fields : List (List Char × JsonValue)) : JsonValue := .object (sortFields fields)

/-- Records of the same names have the same fields when their sorted fields are the same. -/
theorem record_inj {fs gs : List (List Char × JsonValue)} (h : record fs = record gs)
    (hk : fs.map (·.1) = gs.map (·.1)) (hn : (fs.map (·.1)).Nodup) : fs = gs := by
  have hsort : sortFields fs = sortFields gs := JsonValue.object.inj h
  have hperm : fs.Perm gs :=
    (List.perm_insertionSort _ fs).symm.trans ((List.Perm.of_eq hsort).trans (List.perm_insertionSort _ gs))
  have hlength : fs.length = gs.length := hperm.length_eq
  apply List.ext_getElem hlength
  intro i hi hj
  have hkey : fs[i].1 = gs[i].1 := by
    have := List.getElem_of_eq hk (i := i) (by simpa using hi)
    simpa using this
  exact List.inj_on_of_nodup_map (hk ▸ hn) (hperm.subset (List.getElem_mem hi)) (List.getElem_mem hj) hkey

mutual

/-- The keys of all objects stand in their order. -/
def ordered : JsonValue → Prop
  | .array values => orderedElements values
  | .object fields => orderedFields fields
  | _ => True

def orderedElements : List JsonValue → Prop
  | [] => True
  | value :: rest => value.ordered ∧ orderedElements rest

def orderedFields : List (List Char × JsonValue) → Prop
  | [] => True
  | (key,value) :: rest => (∀ other ∈ rest, key < other.1) ∧ value.ordered ∧ orderedFields rest

end

end JsonValue

/-- Data with a JSON value that no other datum of its type has. -/
class JsonField (α : Type) where
  toJson : α → JsonValue
  inj : Function.Injective toJson

/-- Data that is never written as null. -/
class JsonData (α : Type) extends JsonField α where
  ne_null : ∀ a : α, toJson a ≠ .null

export JsonField (toJson)

theorem toJson_inj {α : Type} [JsonField α] {a b : α} : toJson a = toJson b ↔ a = b := JsonField.inj.eq_iff

instance : JsonData (List Char) where
  toJson := .string
  inj _ _ h := JsonValue.string.inj h
  ne_null _ := by simp

instance : JsonData Bool where
  toJson := .bool
  inj _ _ h := JsonValue.bool.inj h
  ne_null _ := by simp

instance : JsonData ℤ where
  toJson := .int
  inj _ _ h := JsonValue.int.inj h
  ne_null _ := by simp

instance : JsonData ℕ where
  toJson n := .int n
  inj _ _ h := Int.ofNat.inj (JsonValue.int.inj h)
  ne_null _ := by simp

instance {α : Type} [JsonField α] : JsonData (List α) where
  toJson values := .array (values.map toJson)
  inj _ _ h := List.map_injective_iff.mpr JsonField.inj (JsonValue.array.inj h)
  ne_null _ := by simp

instance {α : Type} [JsonData α] : JsonField (Option α) where
  toJson value := value.elim .null toJson
  inj a b h := by
    cases a with
    | none =>
      cases b with
      | none => rfl
      | some b => exact absurd h.symm (JsonData.ne_null b)
    | some a =>
      cases b with
      | none => exact absurd h (JsonData.ne_null a)
      | some b => exact congrArg some (JsonField.inj h)

/-- Data that is written as a record is known from its fields. -/
@[reducible] def JsonData.ofFields {α : Type} (fields : α → List (List Char × JsonValue))
    (hk : ∀ a b, (fields a).map (·.1) = (fields b).map (·.1)) (hn : ∀ a, ((fields a).map (·.1)).Nodup)
    (hinj : Function.Injective fields) : JsonData α where
  toJson a := .record (fields a)
  inj a b h := hinj (JsonValue.record_inj h (hk a b) (hn a))
  ne_null _ := by simp [JsonValue.record]

/-- A field with its name. -/
def field {α : Type} [JsonField α] (name : String) (value : α) : List Char × JsonValue := (name.toList,toJson value)

theorem field_inj {α : Type} [JsonField α] {name : String} {a b : α} : field name a = field name b ↔ a = b := by
  rw [field,field,Prod.mk.injEq,toJson_inj]
  exact and_iff_right rfl

/-- A mapping, as its items in the order of their keys: mappings are equal whatever order they were filled in. -/
structure OrderedItems (κ υ : Type) [LT κ] where
  items : List (κ × υ)
  ordered : items.Pairwise fun a b => a.1 < b.1

namespace OrderedItems
variable {κ υ : Type} [LT κ]

theorem ext_items {m n : OrderedItems κ υ} (h : m.items = n.items) : m = n := by
  cases m
  cases n
  cases h
  rfl

def filter (p : κ → Bool) (m : OrderedItems κ υ) : OrderedItems κ υ where
  items := m.items.filter fun item => p item.1
  ordered := m.ordered.sublist List.filter_sublist

instance : EmptyCollection (OrderedItems κ υ) := ⟨[],List.Pairwise.nil⟩

end OrderedItems

/-- The keys of a mapping from numbers are written as text, in the order of the numbers. -/
instance {υ : Type} [JsonField υ] : JsonData (OrderedItems ℤ υ) where
  toJson m := .object (m.items.map fun item => (item.1.repr.toList,toJson item.2))
  inj m n h := by
    apply OrderedItems.ext_items
    refine List.map_injective_iff.mpr ?_ (JsonValue.object.inj h)
    rintro ⟨j,v⟩ ⟨k,w⟩ h
    obtain ⟨hjk,hvw⟩ := Prod.mk.inj h
    exact Prod.ext (Int.repr_injective (String.toList_inj.mp hjk)) (JsonField.inj hvw)
  ne_null _ := by simp

/-- A mapping to values of any kind, its own keys and theirs in order. -/
structure JsonDetails where
  fields : List (List Char × JsonValue)
  ordered : (JsonValue.object fields).ordered

instance : EmptyCollection JsonDetails := ⟨[],by simp [JsonValue.ordered,JsonValue.orderedFields]⟩

instance : JsonData JsonDetails where
  toJson details := .object details.fields
  inj a b h := by
    cases a
    cases b
    cases JsonValue.object.inj h
    rfl
  ne_null _ := by simp

end Library
