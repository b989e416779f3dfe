import ClusterController.Lib.ApiServer

/-!
# An OVSDB server

A database holds rows in tables. A transaction is a list of operations that is carried
out as a whole or not at all. After the operations

* rows of tables that are not roots go when no strong reference points to them any more,
* a strong reference to a missing row makes the transaction fail,
* so does a value that two rows have in a column that is an index,
* weak references to missing rows are dropped.

Answers are JSON values in the wire form of the protocol: a set with one element is that
element, any other set is `["set", [..]]`, a uuid is `["uuid", u]` and a map is
`["map", [[k, v], ..]]`.
-/

namespace Ovsdb

open ApiServer (StringMap)

/-- A JSON value. A number with a fraction or an exponent is a `real`. -/
inductive Json : Type
  | null
  | bool (b : Bool)
  | num (n : Int)
  | real (mantissa exponent : Int)
  | str (s : String)
  | arr (l : List Json)
  | obj (fields : List (String × Json))

namespace Json

/-- The elements of an array. -/
def asArray : Json → Option (List Json)
  | .arr l => some l
  | _ => none

/-- The fields of an object. -/
def asObject : Json → Option (List (String × Json))
  | .obj fields => some fields
  | _ => none

/-- The content of a string. -/
def asStr : Json → Option String
  | .str s => some s
  | _ => none

end Json

/-- How an operation names a row: by its uuid, or by the name that an insert of the same
transaction gave it. -/
inductive Ref : Type
  | uuid (u : String)
  | named (n : String)
deriving DecidableEq

/-- The content of a column: a set of strings, a set of references or a map. -/
inductive Datum (ρ : Type) : Type
  | strings (l : List String)
  | refs (l : List ρ)
  | map (m : StringMap)
deriving DecidableEq

namespace Datum

/-- The references in a column. -/
def uuids {ρ : Type} : Datum ρ → List ρ
  | .refs l => l
  | _ => []

/-- Replace references by uuids. -/
def resolve (find : Ref → Option String) : Datum Ref → Option (Datum String)
  | .strings l => some (.strings l)
  | .refs l => (l.mapM find).map .refs
  | .map m => some (.map m)

/-- Keep some references only. -/
def keep (p : String → Bool) : Datum String → Datum String
  | .refs l => .refs (l.filter p)
  | d => d

/-- The wire form. -/
def encode : Datum String → Json
  | .strings [s] => .str s
  | .strings l => .arr [.str "set", .arr (l.map .str)]
  | .refs [u] => .arr [.str "uuid", .str u]
  | .refs l => .arr [.str "set", .arr (l.map fun u => .arr [.str "uuid", .str u])]
  | .map m => .arr [.str "map", .arr (m.map fun e => .arr [.str e.1, .str e.2])]

end Datum

/-- The columns of a row. -/
abbrev Columns (ρ : Type) := List (String × Datum ρ)

/-- A stored row. -/
structure Row where
  uuid : String
  columns : Columns String
deriving DecidableEq

namespace Row

/-- The content of a column. -/
def get (r : Row) (column : String) : Option (Datum String) := List.lookup column r.columns

/-- The references in a column. -/
def refs (r : Row) (column : String) : List String := ((r.get column).map Datum.uuids).getD []

/-- Change one column, if the row has it. -/
def modify (r : Row) (column : String) (f : Datum String → Datum String) : Row :=
  { r with columns := r.columns.map fun e => if e.1 = column then (e.1, f e.2) else e }

/-- Overwrite columns. -/
def write (r : Row) (columns : Columns String) : Row :=
  columns.foldl (fun r e => r.modify e.1 fun _ => e.2) r

/-- The columns that a select asks for, in the wire form. -/
def encode (r : Row) (columns : List String) : Json :=
  .obj (columns.filterMap fun c =>
    if c = "_uuid" then some ("_uuid", .arr [.str "uuid", .str r.uuid])
    else (r.get c).map fun d => (c, d.encode))

end Row

/-- A column that refers to the rows of a table. -/
structure Reference where
  table : String
  column : String
  target : String
  strong : Bool

/-- The tables with the defaults of their columns, the tables whose rows stay without a
reference, the reference columns, and the columns that are indexes. -/
structure Schema where
  columns : String → Columns String
  isRoot : String → Bool
  references : List Reference
  indexes : List (String × String)

/-- The rows of all tables. -/
abbrev Database := String → List Row

/-- A change of a reference column. -/
structure Mutation where
  column : String
  insert : Bool
  refs : List Ref
deriving DecidableEq

/-- The operations of a transaction. `update`, `mutate` and `delete` are about the row
with the given uuid, `select` is about all rows. -/
inductive Operation : Type
  | insert (table : String) (row : Columns Ref) (uuidName : Option String)
  | update (table uuid : String) (row : Columns Ref)
  | mutate (table uuid : String) (mutations : List Mutation)
  | delete (table uuid : String)
  | select (table : String) (columns : List String)
deriving DecidableEq

namespace Database

/-- The row with a uuid. -/
def find? (db : Database) (table uuid : String) : Option Row :=
  (db table).find? fun r => r.uuid = uuid

/-- Change the rows of one table. -/
def modify (db : Database) (table : String) (f : List Row → List Row) : Database :=
  Function.update db table (f (db table))

/-- Change one row. -/
def modifyRow (db : Database) (table uuid : String) (f : Row → Row) : Database :=
  db.modify table fun rows => rows.map fun r => if r.uuid = uuid then f r else r

/-- Some row holds a strong reference to the row. -/
def referenced (S : Schema) (db : Database) (table uuid : String) : Bool :=
  S.references.any fun ref => ref.strong && ref.target = table &&
    (db ref.table).any fun r => (r.refs ref.column).contains uuid

/-- Remove the rows that nothing keeps. -/
def sweep (S : Schema) (db : Database) : Database := fun table =>
  if S.isRoot table then db table
  else (db table).filter fun r => db.referenced S table r.uuid

/-- Every strong reference points to a row. -/
def integral (S : Schema) (db : Database) : Bool :=
  S.references.all fun ref => !ref.strong ||
    (db ref.table).all fun r => (r.refs ref.column).all fun u => (db.find? ref.target u).isSome

/-- No two rows have the same value in an index. -/
def distinct (S : Schema) (db : Database) : Bool :=
  S.indexes.all fun i => ((db i.1).map fun r => r.get i.2).Nodup

/-- Drop the weak references that point to no row. -/
def forget (S : Schema) (db : Database) : Database := fun table =>
  S.references.foldl (fun rows ref =>
    if ref.table = table && !ref.strong then
      rows.map fun r => r.modify ref.column (Datum.keep fun u => (db.find? ref.target u).isSome)
    else rows) (db table)

end Database

namespace Operation

/-- The name that an insert gives its row. -/
def inserted : Operation → Option (Option String)
  | .insert _ _ name => some name
  | _ => none

/-- Apply a mutation to a row. -/
def applyMutation (find : Ref → Option String) (r : Row) (m : Mutation) : Option Row := do
  let uuids ← m.refs.mapM find
  if m.insert then
    some (r.modify m.column fun d => .refs (d.uuids ++ uuids.filter (! d.uuids.contains ·)))
  else
    some (r.modify m.column fun d => .refs (d.uuids.filter (! uuids.contains ·)))

/-- Resolve the columns of a row to write. -/
def resolveColumns (find : Ref → Option String) (columns : Columns Ref) : Option (Columns String) :=
  columns.mapM fun e => (e.2.resolve find).map fun d => (e.1, d)

/-- Carry out one operation. `fresh` holds the uuids of the rows still to be inserted. -/
def run (S : Schema) (find : Ref → Option String) (db : Database) (fresh : List String) :
    Operation → Option (Json × Database × List String)
  | .insert table row _ => do
    let columns ← resolveColumns find row
    match fresh with
    | [] => none
    | u :: fresh =>
      some (.obj [("uuid", .arr [.str "uuid", .str u])],
        db.modify table fun rows => rows ++ [Row.write ⟨u, S.columns table⟩ columns], fresh)
  | .update table uuid row => do
    let columns ← resolveColumns find row
    some (.obj [("count", .num (if (db.find? table uuid).isSome then 1 else 0))],
      db.modifyRow table uuid fun r => r.write columns, fresh)
  | .mutate table uuid mutations => do
    match db.find? table uuid with
    | none => some (.obj [("count", .num 0)], db, fresh)
    | some r =>
      let r' ← mutations.foldlM (applyMutation find) r
      some (.obj [("count", .num 1)], db.modifyRow table uuid fun _ => r', fresh)
  | .delete table uuid =>
    some (.obj [("count", .num (if (db.find? table uuid).isSome then 1 else 0))],
      db.modify table fun rows => rows.filter fun r => r.uuid ≠ uuid, fresh)
  | .select table columns =>
    some (.obj [("rows", .arr ((db table).map fun r => r.encode columns))], db, fresh)

/-- Carry out a list of operations. -/
def runAll (S : Schema) (find : Ref → Option String) :
    Database → List String → List Operation → Option (List Json × Database)
  | db, _, [] => some ([], db)
  | db, fresh, op :: ops => do
    let (answer, db, fresh) ← op.run S find db fresh
    let (answers, db) ← runAll S find db fresh ops
    some (answer :: answers, db)

end Operation

namespace Database

/-- The uuids that named references of a transaction stand for: the inserts take the
fresh uuids in order. -/
def names : List Operation → List String → List (String × String)
  | op :: ops, fresh =>
    match op.inserted, fresh with
    | some (some n), u :: fresh => (n, u) :: names ops fresh
    | some none, _ :: fresh => names ops fresh
    | some _, [] => []
    | none, fresh => names ops fresh
  | [], _ => []

/-- The uuid that a reference stands for. -/
def lookup (names : List (String × String)) : Ref → Option String
  | .uuid u => some u
  | .named n => List.lookup n names

/-- No row of any of the tables has one of the uuids. -/
def unused (S : Schema) (db : Database) (fresh : List String) : Bool :=
  S.references.all fun ref => fresh.all fun u =>
    (db.find? ref.table u).isNone && (db.find? ref.target u).isNone

/-- Carry out a transaction, in which the inserted rows get the given uuids. `none` means
that it fails and changes nothing. -/
def transact (S : Schema) (db : Database) (fresh : List String) (ops : List Operation) :
    Option (List Json × Database) :=
  let bound := names ops fresh
  if (bound.map Prod.fst).Nodup ∧ fresh.Nodup ∧ db.unused S fresh = true then
    match Operation.runAll S (lookup bound) db fresh ops with
    | none => none
    | some (answers, db) =>
      let db := db.sweep S
      if db.integral S && db.distinct S then some (answers, db.forget S) else none
  else none

end Database

end Ovsdb
