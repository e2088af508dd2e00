/-!
# TOML documents

A TOML document is a tree of tables. It can be written in several ways – under
headers, with dotted keys, inline – and the ways may be mixed only so far: a table
may not be defined twice, and dotted keys may not reach into a table that a header
has defined. `JavaGenerics.TableKind` remembers how a table came about, which is
all that these rules look at.

Entries stand in the order in which they were written. A table that was only
implied, as the parent of another, takes its place when its own header appears.
-/

namespace JavaGenerics

/-- How a table came about. -/
inductive TableKind where
  /-- By a header of its own. -/
  | defined
  /-- As a parent in the header of another table. -/
  | implied
  /-- By dotted keys. -/
  | dotted
  /-- In braces, and complete with them. -/
  | inline
deriving DecidableEq, Repr

/-- A value of a TOML document. Numbers and times are kept as they are written. -/
inductive Toml where
  | text (s : String)
  | boolean (b : Bool)
  | number (written : String)
  | moment (written : String)
  | array (elems : List Toml)
  | table (kind : TableKind) (entries : List (String × Toml))
  /-- The tables that repeated headers in double brackets define. -/
  | tables (elems : List (List (String × Toml)))

namespace Toml

/-- The entries of a table, in order. -/
abbrev Entries := List (String × Toml)

/-- Puts a value in the place of the one under a key. -/
def replace (key : String) (value : Toml) (es : Entries) : Entries :=
  es.map fun e => if e.1 == key then (key, value) else e

/-- Adds a value under a dotted key, of which `path` are the parts before the last.
The key must be new, and so must be the tables on the way, unless they were made by
dotted keys too; on the way to those, implied tables may be crossed. -/
def insertAt (value : Toml) (key : String) : (path : List String) → Entries → Option Entries
  | [], es => if (es.lookup key).isSome then none else some (es ++ [(key, value)])
  | k :: ks, es =>
    match es.lookup k with
    | none => do return es ++ [(k, .table .dotted (← insertAt value key ks []))]
    | some (.table kind inner) =>
      if kind = .dotted ∨ kind = .implied ∧ ks ≠ [] then do
        return replace k (.table kind (← insertAt value key ks inner)) es
      else none
    | some (.tables elems) =>
      match ks, elems.getLast? with
      | _ :: _, some last => do
        return replace k (.tables (elems.dropLast ++ [← insertAt value key ks last])) es
      | _, _ => none
    | some _ => none

/-- Changes the table that a header reaches by `path`. Missing tables on the way are
implied; of the tables in an array, the last is meant. -/
def updateAt (f : Entries → Option Entries) : (path : List String) → Entries → Option Entries
  | [], es => f es
  | k :: ks, es =>
    match es.lookup k with
    | none => do return es ++ [(k, .table .implied (← updateAt f ks []))]
    | some (.table .inline _) => none
    | some (.table kind inner) => do return replace k (.table kind (← updateAt f ks inner)) es
    | some (.tables elems) =>
      match elems.getLast? with
      | some last => do
        return replace k (.tables (elems.dropLast ++ [← updateAt f ks last])) es
      | none => none
    | some _ => none

/-- Defines a table under a key that is new or only implied; `body` fills it. -/
def define (key : String) (body : Entries → Option Entries) (es : Entries) : Option Entries :=
  match es.lookup key with
  | none => do return es ++ [(key, .table .defined (← body []))]
  | some (.table .implied inner) => do
    return es.filter (·.1 != key) ++ [(key, .table .defined (← body inner))]
  | some _ => none

/-- Adds a table to the array of tables under a key; `body` fills it. -/
def append (key : String) (body : Entries → Option Entries) (es : Entries) : Option Entries :=
  match es.lookup key with
  | none => do return es ++ [(key, .tables [← body []])]
  | some (.tables elems) => do return replace key (.tables (elems ++ [← body []])) es
  | some _ => none

/-! ### Documents -/

/-- A key and a value, as they are written; `path` are the parts of a dotted key
before the last. -/
structure Pair where
  path : List String
  key : String
  value : Toml

/-- Adds pairs in the order in which they are written. -/
def insertAll (pairs : List Pair) (es : Entries) : Option Entries :=
  pairs.foldlM (fun es p => insertAt p.value p.key p.path es) es

/-- A line of a document. -/
inductive Line where
  | blank
  /-- A header in single brackets. -/
  | header (path : List String) (key : String)
  /-- A header in double brackets. -/
  | arrayHeader (path : List String) (key : String)
  | pair (p : Pair)

/-- The pairs before the next header. -/
def leadingPairs : List Line → List Pair
  | .blank :: lines => leadingPairs lines
  | .pair p :: lines => p :: leadingPairs lines
  | _ => []

/-- Adds what the headers in some lines define; each header takes the pairs that
follow it. -/
def addSections : List Line → Entries → Option Entries
  | [], es => some es
  | .header path key :: lines, es => do
    addSections lines (← updateAt (define key (insertAll (leadingPairs lines))) path es)
  | .arrayHeader path key :: lines, es => do
    addSections lines (← updateAt (append key (insertAll (leadingPairs lines))) path es)
  | _ :: lines, es => addSections lines es

/-- The document that some lines make up. -/
def ofLines (lines : List Line) : Option Entries := do
  addSections lines (← insertAll (leadingPairs lines) [])

end Toml

end JavaGenerics
