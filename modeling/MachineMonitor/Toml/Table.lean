/-!
# Values and tables

How tables come about decides what may be added to them later. A table in braces is closed. One
opened by its header takes keys under that header alone. One that is only implied by a longer
header may still be opened by its own. One made by dotted keys takes more of them.
-/

namespace MachineMonitor.Toml

/-- How a table came about. -/
inductive Origin where
  | inline
  | header
  | implied
  | dotted
  deriving DecidableEq, Repr

/-- A value of a document. -/
inductive Value where
  | string (s : String)
  | integer (n : Int)
  | float
  | boolean (b : Bool)
  | datetime
  | array (elements : List Value)
  | table (origin : Origin) (entries : List (String × Value))
  | tables (elements : List (List (String × Value)))
  deriving Repr

/-- The entries of a table, in the order in which their keys first occur. -/
abbrev Entries := List (String × Value)

/-- A path of keys that leads to a table, and the key of an entry there. -/
structure KeyPath where
  path : List String
  key : String
  deriving DecidableEq, Repr

/-- Parts of a dotted key as a path. -/
def KeyPath.ofParts? (parts : List String) : Option KeyPath :=
  match parts.getLast? with
  | some key => some ⟨parts.dropLast, key⟩
  | none => none

namespace Entries

/-- Stores the value of a key, in its old place if it has one. -/
def put (key : String) (v : Value) : Entries → Entries
  | [] => [(key, v)]
  | (k, w) :: es => if k = key then (k, v) :: es else (k, w) :: put key v es

/-- Changes the last table of an array of tables. -/
def changeLast? (change : Entries → Option Entries) (elements : List Entries) :
    Option (List Entries) :=
  match elements.getLast? with
  | some last => (change last).map fun last => elements.dropLast ++ [last]
  | none => none

/-! ### Keys -/

/-- Adds an entry under a path of dotted keys. Tables on the way are made as needed; one that has
a header of its own, or braces, must not be entered, and the last one must take keys, which
`takesKeys` says of the table where the path starts. No key may be given twice. -/
def assign? (key : String) (v : Value) : List String → Bool → Entries → Option Entries
  | [], takesKeys, es => if takesKeys && (es.lookup key).isNone then some (put key v es) else none
  | k :: path, _, es =>
    match es.lookup k with
    | none => (assign? key v path true []).map fun inner => put k (.table .dotted inner) es
    | some (.table .dotted inner) =>
      (assign? key v path true inner).map fun inner => put k (.table .dotted inner) es
    | some (.table .implied inner) =>
      (assign? key v path false inner).map fun inner => put k (.table .implied inner) es
    | some (.tables elements) =>
      (changeLast? (assign? key v path false) elements).map fun elements =>
        put k (.tables elements) es
    | some _ => none

/-- Adds entries one by one. -/
def assignAll? (assignments : List (KeyPath × Value)) (es : Entries) : Option Entries :=
  assignments.foldlM (fun es (dest, v) => assign? dest.key v dest.path true es) es

/-! ### Headers -/

/-- Stores what `store?` makes of the value under a key, at the end of a path of headers. Tables on
the way are made as needed, and of an array of tables the last one is entered. -/
def place? (key : String) (store? : Option Value → Option Value) :
    List String → Entries → Option Entries
  | [], es => (store? (es.lookup key)).map fun v => put key v es
  | k :: path, es =>
    match es.lookup k with
    | none => (place? key store? path []).map fun inner => put k (.table .implied inner) es
    | some (.table .inline _) => none
    | some (.table origin inner) =>
      (place? key store? path inner).map fun inner => put k (.table origin inner) es
    | some (.tables elements) =>
      (changeLast? (place? key store? path) elements).map fun elements =>
        put k (.tables elements) es
    | some _ => none

/-- Opens a table by its header and adds entries to it. -/
def openTable? (assignments : List (KeyPath × Value)) : Option Value → Option Value
  | none => (assignAll? assignments []).map (.table .header)
  | some (.table .implied es) => (assignAll? assignments es).map (.table .header)
  | some _ => none

/-- Adds one more table with these entries to an array of tables. -/
def appendTable? (assignments : List (KeyPath × Value)) : Option Value → Option Value
  | none => (assignAll? assignments []).map fun es => .tables [es]
  | some (.tables elements) =>
    (assignAll? assignments []).map fun es => .tables (elements ++ [es])
  | some _ => none

end Entries

/-- What a header opens. -/
inductive HeaderKind where
  | table
  | arrayElement
  deriving DecidableEq, Repr

/-- A header and the assignments under it. -/
structure Section where
  kind : HeaderKind
  header : KeyPath
  assignments : List (KeyPath × Value)
  deriving Repr

/-- Adds a section to the tables made so far. -/
def Section.addTo? (s : Section) (root : Entries) : Option Entries :=
  let store? :=
    match s.kind with
    | .table => Entries.openTable? s.assignments
    | .arrayElement => Entries.appendTable? s.assignments
  Entries.place? s.header.key store? s.header.path root

/-- The tables of a whole document: the assignments before the first header, and the sections. -/
def Entries.ofDocument? (top : List (KeyPath × Value)) (sections : List Section) :
    Option Entries := do
  sections.foldlM (fun root s => s.addTo? root) (← assignAll? top [])

end MachineMonitor.Toml
