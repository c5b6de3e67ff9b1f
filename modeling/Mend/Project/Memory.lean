import Mend.Project.Basic

/-!
# The experience of a project

The experience of a project is saved in a database next to its backups. Left out: that others may be
using the database, and that it may not be written to.
-/

namespace Mend

namespace Project

/-- The name of the file of the database. -/
def databaseName : RawText := "learning.db"

/-- The location of the database. -/
def database (p : Project) : Location := p.keep ++ [databaseName]

/-- The saved rows. An empty file is a database without rows. -/
def savedRows (p : Project) : Except DatabaseError (List Row) :=
  match p.tree.get? p.database with
  | none => .ok []
  | some (.database rows) => .ok rows
  | some (.file []) => .ok []
  | some (.file _) => .error .noDatabase
  | some .folder => .error .unopenable

/-- Opens the store of a project, which is begun if there is none. The project is answered also if
that fails. -/
def openStore (p : Project) : Except ProjectError Store × Project :=
  match p.prepare with
  | .error e => (.error e, p)
  | .ok p =>
    match p.savedRows with
    | .error e => (.error (.database e), p)
    | .ok rows =>
      let p := { p with tree := p.tree.set p.database (.database rows) }
      match Store.ofRows rows with
      | .error _ => (.error (.database .malformedTime), p)
      | .ok store => (.ok store, p)

/-- A project in which the records of a store are saved, if the store is persistent. -/
def saveStore (p : Project) (s : Store) : Project :=
  match s.saved with
  | none => p
  | some rows => { p with tree := p.tree.set p.database (.database rows) }

end Project

end Mend
