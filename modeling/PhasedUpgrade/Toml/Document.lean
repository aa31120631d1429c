import PhasedUpgrade.Collections.NameMap
import PhasedUpgrade.Toml.Literal

/-!
# TOML documents

A document is a sequence of statements: headers of tables, headers of elements of arrays of tables,
and entries. The table of a header takes the entries up to the next header. No table may be begun
twice, and a path may add only to what paths made.
-/

namespace PhasedUpgrade.Toml

/-- A line of a document that says something. -/
inductive Statement where
  | header (path : List String)
  | element (path : List String)
  | entry (path : List String) (value : Value)

def readStatement (depth : Nat) : Reader Statement
  | '[' :: '[' :: rest => do
      let (path, rest) ← readPath rest
      let rest ← dropMark? ']' rest
      let rest ← dropMark? ']' rest
      return (.element path, ← endOfLine? rest)
  | '[' :: rest => do
      let (path, rest) ← readPath rest
      return (.header path, ← endOfLine? (← dropMark? ']' rest))
  | chars => do
      let (path, rest) ← readPath chars
      let (value, rest) ← readValue depth (dropBlanks (← dropMark? '=' rest))
      return (.entry path value, ← endOfLine? rest)

/-- Whether a line that begins with a character says nothing. -/
def isSilent (c : Char) : Bool :=
  c == '#' || c == '\n' || c == '\r'

def readStatements (depth : Nat) : Nat → List Char → Option (List Statement)
  | 0, _ => none
  | lines + 1, chars =>
      match dropBlanks chars with
      | [] => some []
      | c :: rest =>
          if isSilent c then do readStatements depth lines (← endOfLine? (c :: rest))
          else do
            let (statement, rest) ← readStatement depth (c :: rest)
            return statement :: (← readStatements depth lines rest)

/-- What brought a table about: a header, a longer path of one, or the path of an entry. -/
inductive Origin where
  | header
  | path
  | dotted
deriving DecidableEq

inductive Node where
  | leaf (value : Value)
  | table (origin : Origin) (entries : List (String × Node))
  | elements (tables : List (List (String × Node)))

/-- The entries of a table in the making, in the order of their first mention. -/
abbrev Entries : Type := List (String × Node)

namespace Node

mutual

def toValue : Node → Value
  | .leaf value => value
  | .table _ entries => .table (toEntries entries)
  | .elements tables => .array (toTables tables)

def toEntries : List (String × Node) → List (String × Value)
  | [] => []
  | (key, node) :: rest => (key, toValue node) :: toEntries rest

def toTables : List (List (String × Node)) → List Value
  | [] => []
  | entries :: rest => .table (toEntries entries) :: toTables rest

end

/--
Change the table at the end of a path and find something out about it. Tables that are missing on
the way are made; of an array of tables the last element is meant. The path of an entry cannot lead
through a table with a header.
-/
def within {α : Type} (isEntry : Bool) (change : Origin → Entries → Option (α × Entries)) :
    List String → Origin → Entries → Option (α × Entries)
  | [], origin, entries => change origin entries
  | key :: path, _, entries =>
      match entries.lookup key with
      | none => do
          let origin := if isEntry then Origin.dotted else Origin.path
          let (found, inner) ← within isEntry change path origin []
          return (found, entries ++ [(key, .table origin inner)])
      | some (.leaf _) => none
      | some (.table origin inner) =>
          if isEntry ∧ origin = .header then none
          else do
            let (found, inner) ← within isEntry change path origin inner
            return (found, InlineNode.replace key (.table origin inner) entries)
      | some (.elements tables) => do
          let (found, last) ← within isEntry change path .header (← tables.getLast?)
          return (found, InlineNode.replace key (.elements (tables.dropLast ++ [last])) entries)

end Node

def splitLast (path : List String) : Option (List String × String) :=
  path.getLast?.map fun key => (path.dropLast, key)

/-- A document in the making: what is finished, and the table that entries go into. -/
structure Draft where
  root : Entries
  path : List String
  /-- Whether the current table is an element of an array of tables. -/
  isElement : Bool
  current : Entries

namespace Draft

def empty : Draft := ⟨[], [], false, []⟩

/-- Put the current table into its place. -/
def settle (draft : Draft) : Option Entries :=
  match splitLast draft.path with
  | none => some draft.current
  | some (front, key) =>
      let place (_ : Origin) (entries : Entries) : Option (Unit × Entries) :=
        match entries.lookup key, draft.isElement with
        | none, false => some ((), entries ++ [(key, .table .header draft.current)])
        | none, true => some ((), entries ++ [(key, .elements [draft.current])])
        | some (.elements tables), true =>
            some ((), InlineNode.replace key (.elements (tables ++ [draft.current])) entries)
        | _, _ => none
      (Node.within false place front .header draft.root).map Prod.snd

/-- Begin the table of a header; one that so far only paths of headers brought about goes on. -/
def beginTable (draft : Draft) (path : List String) : Option Draft := do
  let (front, key) ← splitLast path
  let takeOut (_ : Origin) (entries : Entries) : Option (Entries × Entries) :=
    match entries.lookup key with
    | none => some ([], entries)
    | some (.table .path inner) => some (inner, entries.filter (·.1 != key))
    | some _ => none
  let (current, root) ← Node.within false takeOut front .header (← draft.settle)
  return ⟨root, path, false, current⟩

/-- Begin an element of an array of tables. -/
def beginElement (draft : Draft) (path : List String) : Option Draft := do
  let (front, key) ← splitLast path
  let makeRoom (_ : Origin) (entries : Entries) : Option (Unit × Entries) :=
    match entries.lookup key with
    | none => some ((), entries ++ [(key, .elements [])])
    | some (.elements _) => some ((), entries)
    | some _ => none
  let ((), root) ← Node.within false makeRoom front .header (← draft.settle)
  return ⟨root, path, true, []⟩

def addEntry (draft : Draft) (path : List String) (value : Value) : Option Draft := do
  let (front, key) ← splitLast path
  let add (origin : Origin) (entries : Entries) : Option (Unit × Entries) :=
    if (origin = .dotted) = front.isEmpty ∨ (entries.lookup key).isSome then none
    else some ((), entries ++ [(key, .leaf value)])
  let ((), current) ← Node.within true add front .header draft.current
  return { draft with current := current }

def take (draft : Draft) : Statement → Option Draft
  | .header path => draft.beginTable path
  | .element path => draft.beginElement path
  | .entry path value => draft.addEntry path value

end Draft

/-- Without the byte order mark that may stand in front. -/
def dropMark : List Char → List Char
  | '\ufeff' :: rest => rest
  | chars => chars

/-- The entries of a document with values nested at most `depth` deep, if the text is one. -/
def read? (text : String) (depth : Nat := maxDepth) : Option (List (String × Value)) := do
  let chars := dropMark text.toList
  let statements ← readStatements depth (chars.length + 1) chars
  let draft ← statements.foldlM Draft.take Draft.empty
  return Node.toEntries (← draft.settle)

namespace Value

def standForDate (entries : List (String × Value)) : Bool :=
  entries.head?.any fun entry => entry.1 == dateKey

/-- The date that entries stand for, by the text of the first of them. -/
def dateOf? : List (String × Value) → Option DateTime
  | (_, .string text) :: _ => DateTime.ofText? text
  | _ => none

mutual

/--
The value as it is kept: tables list their entries in the order of the keys, and dates take the
place of tables that stand for them. There is none if such a table does not spell a date.
-/
def kept? : Value → Option Value
  | .array items => (keptItems? items).map .array
  | .table entries =>
      if standForDate entries then (dateOf? entries).map .dateTime
      else (keptEntries? entries).map fun kept => .table (NameMap.ofList kept).entries
  | value => some value

def keptItems? : List Value → Option (List Value)
  | [] => some []
  | item :: rest => do return (← kept? item) :: (← keptItems? rest)

def keptEntries? : List (String × Value) → Option (List (String × Value))
  | [] => some []
  | (key, value) :: rest => do return (key, ← kept? value) :: (← keptEntries? rest)

end

end Value

end PhasedUpgrade.Toml
