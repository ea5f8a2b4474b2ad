import Relata.Database

/-!
# A database and its files

A database together with the tree that holds its files: the state that a run of queries
goes through. Queries are answered one after the other, each in the state that the earlier
ones left.
-/

namespace Relata

/-- A database with the files that it sees. -/
structure World where
  database : Database
  files : FileTree
  deriving DecidableEq

namespace World

def start (settings : FileSettings) (files : FileTree) : World :=
  ⟨Database.empty settings, files⟩

def answer (w : World) (request : FileRequest (α × Database)) : α × World :=
  let ((result, database), files) := request.answer w.files
  (result, ⟨database, files⟩)

def perform (w : World) (statement : Statement) : Except Error Output × World :=
  w.answer (w.database.perform statement)

def execute (w : World) (query : Text) : Except Error Output × World :=
  w.answer (w.database.execute query)

def transact (w : World) (query : Text) : Text × World :=
  w.answer (w.database.transact query)

def run (w : World) (queries : List Text) : World :=
  queries.foldl (fun w query => (w.transact query).2) w

theorem transact_eq (w : World) (query : Text) :
    w.transact query = (Output.told (w.execute query).1, (w.execute query).2) := by
  simp only [transact, answer, execute, Database.transact, FileRequest.answer_map]

theorem run_append (w : World) (first second : List Text) :
    w.run (first ++ second) = (w.run first).run second := by
  simp [run]

end World

end Relata
