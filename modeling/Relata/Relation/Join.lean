import Relata.Relation.Basic

/-!
# Natural join

Two relations are joined on the names they share. Each row of the left one is put beside
each row of the right one, and the pair is kept if the values under every shared name are
identical; of a shared name only the left value stays. The shared columns come first, then
the left ones, then the right ones. A list of relations is joined from the front.
-/

namespace Relata

namespace Relation

def sharedNames (left right : Relation) : List Text :=
  (left.columns.map Column.name).filter fun name =>
    (Column.index? right.columns name).isSome

def bears (names : List Text) (column : Column) : Bool :=
  names.contains column.name

/-- The rows of the left relation beside the rows of the right one, left-major. -/
def product (left right : List Row) : List Row :=
  left.flatMap fun l => right.map fun r => l ++ r

/-- The two positions of each shared name in a row of the left beside one of the right. -/
def sharedPositions (left right : Relation) : List (Nat × Nat) :=
  (sharedNames left right).filterMap fun name =>
    match Column.index? left.columns name, Column.index? right.columns name with
    | some l, some r => some (l, left.columns.length + r)
    | _, _ => none

/-- The positions to keep: of the shared names, then of all other columns. -/
def joinLayout (left right : Relation) : List Nat :=
  let columns := left.columns ++ right.columns
  let shared := sharedNames left right
  (sharedPositions left right).map Prod.fst ++
    (List.range columns.length).filter fun i => !(columns[i]?).any (bears shared)

def itemAt (items : List α) (i : Nat) : Except Error α :=
  match items[i]? with
  | some item => .ok item
  | none => .error .outOfRange

def agrees (row : Row) : List (Nat × Nat) → Except Error Bool
  | [] => .ok true
  | (l, r) :: rest => do
      let left ← itemAt row l
      let right ← itemAt row r
      if left.identical right then agrees row rest else return false

/-- Lays a row of the left beside one of the right out anew, if it agrees at all pairs. -/
def joinRow (pairs : List (Nat × Nat)) (layout : List Nat) (row : Row) :
    Except Error (Option Row) := do
  if ← agrees row pairs then
    return some (← layout.mapM (itemAt row))
  else
    return none

/-- The rows of the product that agree at all pairs, left-major and in the layout given. -/
def joinRows (pairs : List (Nat × Nat)) (layout : List Nat) (left right : List Row) :
    Except Error (List Row) :=
  left.flatMapM fun l => right.filterMapM fun r => joinRow pairs layout (l ++ r)

theorem filterMapM_beside (f : Row → Except Error (Option Row)) (l : Row)
    (right rest : List Row) :
    ((right.map fun r => l ++ r) ++ rest).filterMapM f = do
      let here ← right.filterMapM fun r => f (l ++ r)
      let there ← rest.filterMapM f
      return here ++ there := by
  induction right with
  | nil => simp
  | cons r right ih =>
      cases h : f (l ++ r) with
      | error e => simp [List.filterMapM_cons, h, bind, Except.bind]
      | ok joined? =>
          simp only [List.map_cons, List.cons_append, List.filterMapM_cons, h, ih]
          cases joined? <;>
            cases right.filterMapM (fun r => f (l ++ r)) <;>
              cases rest.filterMapM f <;> rfl

/-- The rows of a join are those of the product, each laid out anew or passed over. -/
theorem joinRows_eq_product (pairs : List (Nat × Nat)) (layout : List Nat)
    (left right : List Row) :
    joinRows pairs layout left right =
      (product left right).filterMapM (joinRow pairs layout) := by
  induction left with
  | nil => rfl
  | cons l left ih =>
      simp only [joinRows, product] at ih
      simp only [joinRows, product, List.flatMapM_cons, List.flatMap_cons, filterMapM_beside,
        ih]

/-- The natural join of two relations; it has no name. -/
def naturalJoin (left right : Relation) : Except Error Relation :=
  let columns := left.columns ++ right.columns
  if sharedNames left right = [] then .ok ⟨[], columns, product left.rows right.rows⟩
  else do
    let layout := joinLayout left right
    let columns ← layout.mapM (itemAt columns)
    let rows ← joinRows (sharedPositions left right) layout left.rows right.rows
    return ⟨[], columns, rows⟩

/-- Joins a relation with those that follow it, one after the other. -/
def joinWith (first : Relation) (rest : List Relation) : Except Error Relation :=
  rest.foldlM naturalJoin first

/-- Joins a list of relations; a single one stays as it is, and of none there is no join. -/
def joinAll : List Relation → Except Error (Option Relation)
  | [] => .ok none
  | first :: rest => some <$> joinWith first rest

end Relation

end Relata
