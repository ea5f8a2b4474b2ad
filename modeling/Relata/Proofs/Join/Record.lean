import Mathlib.Data.List.Nodup
import Relata.Proofs.Value.Sameness
import Relata.Relation.Join

/-!
# Rows read by name

A record is a row with the column of every value beside it. Under a name it holds the value
of the first column that bears the name. Two records agree if what they hold under a common
name is identical.
-/

namespace Relata

/-- The first column with a name. -/
def Column.named? (columns : List Column) (name : Text) : Option Column :=
  columns.find? fun column => column.name = name

/-- Items with the column of each beside it. -/
abbrev Labelled (α : Type) := List (Column × α)

/-- A row with the column of every value beside it. -/
abbrev Record := Labelled Value

namespace Labelled

variable {α : Type}

def value? (items : Labelled α) (name : Text) : Option α :=
  (items.find? fun item => item.1.name = name).map Prod.snd

theorem value?_append (a b : Labelled α) (name : Text) :
    value? (a ++ b) name = (a.value? name).or (b.value? name) := by
  unfold value?
  rw [List.find?_append]
  cases a.find? fun item => item.1.name = name <;> rfl

theorem value?_eq_none_iff {items : Labelled α} {name : Text} :
    items.value? name = none ↔ name ∉ items.map fun item => item.1.name := by
  simp only [value?, Option.map_eq_none_iff, List.find?_eq_none, decide_eq_true_eq,
    List.mem_map, not_exists, not_and]

theorem value?_isSome_iff {items : Labelled α} {name : Text} :
    (items.value? name).isSome ↔ name ∈ items.map fun item => item.1.name := by
  rw [← Option.ne_none_iff_isSome, ne_eq, value?_eq_none_iff, not_not]

theorem mem_names_of_value? {items : Labelled α} {name : Text} {v : α}
    (h : items.value? name = some v) : name ∈ items.map fun item => item.1.name :=
  value?_isSome_iff.1 (Option.isSome_of_eq_some h)

theorem value?_filter (p : Text → Bool) (items : Labelled α) (name : Text) :
    value? (items.filter fun item => p item.1.name) name =
      if p name then items.value? name else none := by
  induction items with
  | nil => simp [value?]
  | cons item items ih =>
      unfold value? at ih ⊢
      by_cases hname : item.1.name = name
      · by_cases hp : p name
        · simp [hname, hp]
        · simp only [Bool.not_eq_true] at hp
          simpa [hname, hp] using ih
      · by_cases hp : p item.1.name
        · simpa [hname, hp] using ih
        · simpa [hname, hp] using ih

theorem value?_zip (columns : List Column) (xs : List α) (name : Text) :
    value? (columns.zip xs) name = (Column.index? columns name).bind (xs[·]?) := by
  induction columns generalizing xs with
  | nil => rfl
  | cons column columns ih =>
      cases xs with
      | nil => simp [value?]
      | cons x xs =>
          have hrest := ih xs
          unfold value? Column.index? at hrest ⊢
          by_cases hname : column.name = name
          · simp [hname, List.findIdx?_cons]
          · simp only [List.zip_cons_cons, hname, decide_false, List.find?_cons, hrest,
              List.findIdx?_cons]
            cases columns.findIdx? fun column => column.name = name <;> simp

theorem map_name_zip {columns : List Column} {xs : List α} (hlength : xs.length = columns.length) :
    ((columns.zip xs).map fun item => item.1.name) = columns.map Column.name := by
  have hfst : (columns.zip xs).map Prod.fst = columns :=
    List.map_fst_zip (Nat.le_of_eq hlength.symm)
  conv => rhs; rw [← hfst, List.map_map]
  rfl

theorem value?_zip_self (columns : List Column) (name : Text) :
    value? (columns.zip columns) name = Column.named? columns name := by
  induction columns with
  | nil => rfl
  | cons column columns ih =>
      unfold value? Column.named? at ih ⊢
      by_cases hname : column.name = name <;> simp [hname, ih]

end Labelled

namespace Record

/-- Identical values under every common name. -/
def Agree (a b : Record) : Prop :=
  ∀ name v w, a.value? name = some v → b.value? name = some w → v.identical w = true

theorem Agree.symm {a b : Record} (h : Agree a b) : Agree b a :=
  fun name v w hv hw => Value.identical_symm (h name w v hw hv)

theorem agree_iff_forall_mem {a b : Record} :
    Agree a b ↔ ∀ cell ∈ a, ∀ v w, a.value? cell.1.name = some v →
      b.value? cell.1.name = some w → v.identical w = true := by
  constructor
  · intro h cell _
    exact h cell.1.name
  · intro h name v w hv hw
    obtain ⟨cell, hcell, rfl⟩ := List.mem_map.1 (Labelled.mem_names_of_value? hv)
    exact h cell hcell v w hv hw

/-- Agreement, decided name by name. -/
def agrees (a b : Record) : Bool :=
  a.all fun cell => (a.value? cell.1.name).all fun v =>
    (b.value? cell.1.name).all fun w => v.identical w

theorem agrees_iff {a b : Record} : agrees a b = true ↔ Agree a b := by
  simp only [agrees, List.all_eq_true, Option.all_eq_true, agree_iff_forall_mem]
  exact ⟨fun h cell hcell v w hv hw => h cell hcell v hv w hw,
    fun h cell hcell v hv w hw => h cell hcell v w hv hw⟩

instance (a b : Record) : Decidable (Agree a b) :=
  decidable_of_iff _ agrees_iff

end Record

end Relata
