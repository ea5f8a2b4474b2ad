import Relata.Storage.FileTree

/-!
# Requests to a file system

A query reads one file, writes one file, or needs no file at all. What it wants of the
file system is a value, with what to do next; the file system that answers may be a tree
or the real one.
-/

namespace Relata

/-- A result that may wait for one answer of the file system. -/
inductive FileRequest (α : Type) where
  | done (result : α)
  /-- Asks for the content of a file; none if it cannot be read. -/
  | read (path : Text) (next : Option Bytes → α)
  /-- Asks to write a file; false if it cannot be written. -/
  | write (path : Text) (content : Bytes) (next : Bool → α)

namespace FileRequest

def map (f : α → β) : FileRequest α → FileRequest β
  | done result => .done (f result)
  | read path next => .read path fun answer => f (next answer)
  | write path content next => .write path content fun answer => f (next answer)

def answer (tree : FileTree) : FileRequest α → α × FileTree
  | done result => (result, tree)
  | read path next => (next (tree.read path), tree)
  | write path content next =>
      let (written, after) := tree.write path content
      (next written, after)

theorem answer_map (tree : FileTree) (f : α → β) (request : FileRequest α) :
    (request.map f).answer tree = (f (request.answer tree).1, (request.answer tree).2) := by
  cases request <;> rfl

end FileRequest

end Relata
