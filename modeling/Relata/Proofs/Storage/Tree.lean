import Relata.Storage.FileTree

/-!
# What is relied on of files

A table is stored in one file and loaded from it later on. This relies on few properties of
the files: a write that fails changes nothing, one that succeeds is read back, and it changes
no other place. They are stated of any way to find, read and write files; a file tree has them.
-/

namespace Relata

/-- The properties of files that queries rely on, between which nobody else writes. -/
structure FileLaws (place? : σ → Text → Option Place) (node? : σ → Place → Option Entry)
    (read : σ → Text → Option Bytes) (write : σ → Text → Bytes → Bool × σ) : Prop where
  /-- A write that fails leaves the files as they were. -/
  failed : ∀ files path content, (write files path content).1 = false →
    (write files path content).2 = files
  /-- What has been written is read back. -/
  written : ∀ files path content, (write files path content).1 = true →
    read (write files path content).2 path = some content
  /-- Every path leads where it led. -/
  places : ∀ files path content other,
    place? (write files path content).2 other = place? files other
  /-- Every place but that of the written file holds what it held. -/
  elsewhere : ∀ files path content place, place? files path ≠ some place →
    node? (write files path content).2 place = node? files place

namespace FileTree

theorem node?_root (tree : FileTree) : tree.node? [] = some .directory :=
  rfl

theorem node?_put_self (tree : FileTree) {place : Place} (hne : place ≠ []) (entry : Entry) :
    (tree.put place entry).node? place = some entry := by
  simp [node?, put, hne]

theorem node?_put_of_ne (tree : FileTree) {place other : Place} (hne : other ≠ place)
    (entry : Entry) : (tree.put place entry).node? other = tree.node? other := by
  unfold node? put
  by_cases hroot : other = []
  · rw [if_pos hroot, if_pos hroot]
  · have hplace : ¬place = other := fun h => hne h.symm
    rw [if_neg hroot, if_neg hroot, List.find?_cons_of_neg (by simpa using hplace),
      List.find?_filter]
    congr 2
    funext item
    by_cases hitem : item.1 = other <;> simp [hitem, hne]

theorem walk_congr {tree other : FileTree}
    (h : ∀ place, other.node? place = some .directory ↔ tree.node? place = some .directory)
    (place : Place) (names : List Text) : other.walk place names = tree.walk place names := by
  induction names generalizing place with
  | nil => rfl
  | cons name names ih => simp only [walk, h, ih]

section Write

variable (tree : FileTree) (path : Text) (content : Bytes)

/-- A write fails, or puts a file where no directory stands. -/
theorem write_cases :
    tree.write path content = (false, tree) ∨ ∃ place, tree.place? path = some place ∧
      tree.node? place ≠ some .directory ∧
        tree.write path content = (true, tree.put place (.file content)) := by
  unfold write
  cases tree.place? path with
  | none => exact .inl rfl
  | some place =>
      by_cases hdirectory : tree.node? place = some .directory
      · exact .inl (if_pos hdirectory)
      · exact .inr ⟨place, rfl, hdirectory, if_neg hdirectory⟩

variable {tree path}

theorem place?_put {place : Place} (hdirectory : tree.node? place ≠ some .directory)
    (other : Text) : (tree.put place (.file content)).place? other = tree.place? other := by
  -- a file takes no directory away and is none, so every way leads where it led
  have hsame : ∀ spot, (tree.put place (.file content)).node? spot = some .directory ↔
      tree.node? spot = some .directory := by
    intro spot
    by_cases hat : spot = place
    · subst hat
      have hroot : spot ≠ [] := fun h => hdirectory (h ▸ tree.node?_root)
      simp [node?_put_self tree hroot, hdirectory]
    · rw [node?_put_of_ne tree hat]
  unfold place?
  split
  · exact walk_congr hsame _ _
  · rfl

end Write

theorem workingDirectory_write (tree : FileTree) (path : Text) (content : Bytes) :
    (tree.write path content).2.workingDirectory = tree.workingDirectory := by
  rcases tree.write_cases path content with h | ⟨place, -, -, h⟩ <;> rw [h]
  rfl

theorem laws : FileLaws place? node? read write where
  failed tree path content h := by
    rcases tree.write_cases path content with hwrite | ⟨place, -, -, hwrite⟩
    · rw [hwrite]
    · rw [hwrite] at h
      cases h
  written tree path content h := by
    rcases tree.write_cases path content with hwrite | ⟨place, hplace, hdirectory, hwrite⟩
    · rw [hwrite] at h
      cases h
    · have hroot : place ≠ [] := fun h => hdirectory (h ▸ tree.node?_root)
      rw [hwrite, read, place?_put content hdirectory, hplace, Option.bind_some,
        node?_put_self tree hroot]
  places tree path content other := by
    rcases tree.write_cases path content with hwrite | ⟨place, -, hdirectory, hwrite⟩
    · rw [hwrite]
    · rw [hwrite, place?_put content hdirectory]
  elsewhere tree path content place hplace := by
    rcases tree.write_cases path content with hwrite | ⟨target, htarget, -, hwrite⟩
    · rw [hwrite]
    · have hne : place ≠ target := fun h => hplace (h ▸ htarget)
      rw [hwrite, node?_put_of_ne tree hne]

theorem read_write {tree written : FileTree} {path : Text} {content : Bytes}
    (h : tree.write path content = (true, written)) : written.read path = some content := by
  have hread := laws.written tree path content (congrArg Prod.fst h)
  rwa [h] at hread

end FileTree

end Relata
