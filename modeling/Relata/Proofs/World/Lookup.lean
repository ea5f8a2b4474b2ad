import Relata.Catalog

/-!
# Looking tables up

A name that is put or taken out of a catalog answers to the change, and every other name
answers as before. Putting the table that is there already changes nothing. The entries need
not be in order for this.
-/

namespace Relata

namespace Catalog

variable {catalog : Catalog} {entries : List (Text × Relation)} {name other : Text}
variable {relation : Relation}

theorem get_eq_ok_iff : catalog.get name = .ok relation ↔ catalog.find? name = some relation := by
  unfold get
  cases catalog.find? name <;> simp

theorem find?_nil (name : Text) : find? ⟨[]⟩ name = none := rfl

theorem find?_cons (entry : Text × Relation) (entries : List (Text × Relation)) (name : Text) :
    find? ⟨entry :: entries⟩ name =
      if entry.1 = name then some entry.2 else find? ⟨entries⟩ name := by
  by_cases h : entry.1 = name <;> simp [find?, h]

/-! ## Entries -/

theorem find?_replaceEntry_self (h : find? ⟨entries⟩ name ≠ none) (relation : Relation) :
    find? ⟨replaceEntry name relation entries⟩ name = some relation := by
  induction entries with
  | nil => exact absurd (find?_nil name) h
  | cons entry entries ih =>
      by_cases hentry : entry.1 = name
      · simp [replaceEntry, hentry, find?_cons]
      · simp only [find?_cons, if_neg hentry] at h
        simp [replaceEntry, hentry, find?_cons, ih h]

theorem find?_replaceEntry_of_ne (hne : other ≠ name) (relation : Relation)
    (entries : List (Text × Relation)) :
    find? ⟨replaceEntry name relation entries⟩ other = find? ⟨entries⟩ other := by
  induction entries with
  | nil => rfl
  | cons entry entries ih =>
      by_cases hentry : entry.1 = name
      · simp [replaceEntry, hentry, find?_cons, hne.symm]
      · simp [replaceEntry, hentry, find?_cons, ih]

theorem replaceEntry_of_find? (h : find? ⟨entries⟩ name = some relation) :
    replaceEntry name relation entries = entries := by
  induction entries with
  | nil => rfl
  | cons entry entries ih =>
      rw [find?_cons] at h
      by_cases hentry : entry.1 = name
      · rw [if_pos hentry] at h
        rw [replaceEntry, if_pos hentry, ← hentry, ← Option.some.inj h]
      · rw [if_neg hentry] at h
        rw [replaceEntry, if_neg hentry, ih h]

theorem find?_insertEntry_self (h : find? ⟨entries⟩ name = none) (relation : Relation) :
    find? ⟨insertEntry name relation entries⟩ name = some relation := by
  induction entries with
  | nil => simp [insertEntry, find?_cons]
  | cons entry entries ih =>
      have hentry : entry.1 ≠ name := by
        intro hentry
        simp [find?_cons, hentry] at h
      rw [find?_cons, if_neg hentry] at h
      rw [insertEntry]
      split
      · simp [find?_cons]
      · rw [find?_cons, if_neg hentry, ih h]

theorem find?_insertEntry_of_ne (hne : other ≠ name) (relation : Relation)
    (entries : List (Text × Relation)) :
    find? ⟨insertEntry name relation entries⟩ other = find? ⟨entries⟩ other := by
  induction entries with
  | nil => simp [insertEntry, find?_cons, hne.symm]
  | cons entry entries ih =>
      rw [insertEntry]
      split
      · rw [find?_cons, if_neg hne.symm]
      · rw [find?_cons, find?_cons, ih]

/-! ## Catalogs -/

theorem find?_put_self (catalog : Catalog) (name : Text) (relation : Relation) :
    (catalog.put name relation).find? name = some relation := by
  unfold put
  cases h : catalog.find? name with
  | none => exact find?_insertEntry_self h relation
  | some found => exact find?_replaceEntry_self (by simp [h]) relation

theorem find?_put_of_ne (catalog : Catalog) {name other : Text} (relation : Relation)
    (hne : other ≠ name) : (catalog.put name relation).find? other = catalog.find? other := by
  unfold put
  split
  · exact find?_replaceEntry_of_ne hne relation catalog.entries
  · exact find?_insertEntry_of_ne hne relation catalog.entries

theorem find?_put (catalog : Catalog) (name other : Text) (relation : Relation) :
    (catalog.put name relation).find? other =
      if other = name then some relation else catalog.find? other := by
  by_cases h : other = name
  · rw [if_pos h, h, find?_put_self]
  · rw [if_neg h, find?_put_of_ne catalog relation h]

theorem put_of_find? (h : catalog.find? name = some relation) :
    catalog.put name relation = catalog := by
  rw [put, h]
  exact congrArg mk (replaceEntry_of_find? h)

theorem find?_without (catalog : Catalog) (name other : Text) :
    (catalog.without name).find? other =
      if other = name then none else catalog.find? other := by
  unfold find? without
  rw [List.find?_filter]
  by_cases h : other = name
  · subst h
    simp
  · rw [if_neg h]
    congr 2
    funext entry
    by_cases hentry : entry.1 = other <;> simp [hentry, h]

theorem without_of_find?_eq_none (h : catalog.find? name = none) :
    catalog.without name = catalog := by
  rw [find?, Option.map_eq_none_iff, List.find?_eq_none] at h
  exact congrArg mk (List.filter_eq_self.2 (by simpa using h))

end Catalog

end Relata
