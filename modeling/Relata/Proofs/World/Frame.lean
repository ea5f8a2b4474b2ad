import Relata.Proofs.Storage.Tree
import Relata.Proofs.World.Effect

/-!
# What a query leaves alone

A query that fails leaves the whole world as it was. One that succeeds changes at most the
table that its statement writes, and at most the file of the table that it stores.
-/

namespace Relata

def Statement.writes? : Statement → Option Text
  | .createTable name _ => some name
  | .createFrom name _ => some name
  | .load name => some name
  | .drop name => some name
  | .insert name _ => some name
  | .store _ => none
  | .print _ => none
  | .select _ => none

namespace World

/-- The place of the file that a store writes: the file of the table that it names. -/
def storePlace? (w : World) : Statement → Option Place
  | .store name => (w.table? name).bind fun relation =>
      w.files.place? (w.database.settings.path relation.name)
  | _ => none

/-- Two worlds that differ at most in what a statement writes. -/
structure Frame (w : World) (statement : Statement) (next : World) : Prop where
  settings : next.database.settings = w.database.settings
  /-- Every table but the one that is written is as before. -/
  tables : ∀ name, statement.writes? ≠ some name → next.table? name = w.table? name
  /-- A statement that writes no table leaves all tables as they are. -/
  catalog : statement.writes? = none → next.database.catalog = w.database.catalog
  workingDirectory : next.files.workingDirectory = w.files.workingDirectory
  /-- Every path leads where it led. -/
  places : ∀ path, next.files.place? path = w.files.place? path
  /-- Every place but that of the stored file holds what it held. -/
  entries : ∀ place, w.storePlace? statement ≠ some place →
    next.files.node? place = w.files.node? place

theorem frame_withTable (w : World) {statement : Statement} {name : Text} (relation : Relation)
    (hwrites : statement.writes? = some name) : Frame w statement (w.withTable name relation) where
  settings := rfl
  tables other hother := by
    have hne : other ≠ name := fun h => hother (h ▸ hwrites)
    exact Catalog.find?_put_of_ne w.database.catalog relation hne
  catalog hnone := by simp [hwrites] at hnone
  workingDirectory := rfl
  places _ := rfl
  entries _ _ := rfl

theorem frame_withoutTable (w : World) {statement : Statement} {name : Text}
    (hwrites : statement.writes? = some name) : Frame w statement (w.withoutTable name) where
  settings := rfl
  tables other hother := by
    have hne : other ≠ name := fun h => hother (h ▸ hwrites)
    exact (Catalog.find?_without w.database.catalog name other).trans (if_neg hne)
  catalog hnone := by simp [hwrites] at hnone
  workingDirectory := rfl
  places _ := rfl
  entries _ _ := rfl

theorem frame_stored (w : World) {name : Text} {relation : Relation}
    (found : w.table? name = some relation) :
    Frame w (.store name) { w with files := (w.stored relation).2 } where
  settings := rfl
  tables _ _ := rfl
  catalog _ := rfl
  workingDirectory := w.files.workingDirectory_write _ _
  places path := FileTree.laws.places w.files _ _ path
  entries place hplace := by
    refine FileTree.laws.elsewhere w.files _ _ place fun htarget => hplace ?_
    rw [storePlace?, found, Option.bind_some, htarget]

theorem Frame.refl (w : World) (statement : Statement) : Frame w statement w :=
  ⟨rfl, fun _ _ => rfl, fun _ => rfl, rfl, fun _ => rfl, fun _ _ => rfl⟩

theorem Effect.frame {w next : World} {statement : Statement} {output : Output}
    (h : Effect w statement output next) : Frame w statement next := by
  cases h with
  | createTable => exact frame_withTable w _ rfl
  | createFrom => exact frame_withTable w _ rfl
  | load => exact frame_withTable w _ rfl
  | insert => exact frame_withTable w _ rfl
  | drop => exact frame_withoutTable w rfl
  | print => exact Frame.refl w _
  | select => exact Frame.refl w _
  | @store name relation files found written =>
      have hfiles : (w.stored relation).2 = files := congrArg Prod.snd written
      exact hfiles ▸ frame_stored w found

theorem perform_frame (w : World) (statement : Statement) :
    Frame w statement (w.perform statement).2 := by
  rcases perform_spec w statement with ⟨e, he⟩ | ⟨output, next, heffect⟩
  · rw [he]
    exact Frame.refl w statement
  · rw [heffect.perform_eq]
    exact heffect.frame

/-- A query changes nothing if it fails, and if it succeeds no more than it writes. -/
theorem execute_frame (w : World) (query : Text) :
    (∀ e, (w.execute query).1 = .error e → (w.execute query).2 = w) ∧
      ∀ output, (w.execute query).1 = .ok output → ∃ statement,
        Statement.read query = .ok statement ∧ Frame w statement (w.execute query).2 := by
  constructor
  · intro e he
    exact execute_error (Prod.ext he rfl)
  · intro output houtput
    obtain ⟨statement, hread, heffect⟩ := execute_eq_ok_iff.1 (Prod.ext houtput rfl)
    exact ⟨statement, hread, heffect.frame⟩

end World

end Relata
