import PhasedUpgrade.Text.Split

/-!
# Releases

A release file identifies the running system by lines of the form `KEY=value`. Values may be quoted;
of several lines for a key the last counts; comments, blank lines and lines without a `=` are passed
over.
-/

namespace PhasedUpgrade.Upgrade

structure Release where
  id : String
  name : String
  version : String
deriving DecidableEq

/-- A key that a release file should have and has not. -/
structure MissingKey where
  key : String
deriving DecidableEq

def MissingKey.message (missing : MissingKey) : String :=
  "missing " ++ missing.key

namespace Release

/-- The characters between two quotes of one kind that enclose them. -/
def insideQuotes? (quote : Char) : List Char → Option (List Char)
  | [] => none
  | c :: rest =>
      if c = quote ∧ rest.getLast? = some quote then some rest.dropLast else none

def unquote (value : String) : String :=
  match insideQuotes? '"' value.toList <|> insideQuotes? '\'' value.toList with
  | some inside => .ofList inside
  | none => value

def binding? (line : String) : Option (String × String) :=
  let line := Text.trim line
  if line.toList.head? = some '#' then none
  else (Text.cut '=' line).map fun (key, value) => (Text.trim key, unquote (Text.trim value))

/-- The bindings of a text, from the last line to the first. -/
def bindings (text : String) : List (String × String) :=
  ((Text.lines text).filterMap binding?).reverse

/-- Read a release file; a missing name is empty. -/
def ofText (text : String) : Except MissingKey Release := do
  let found := bindings text
  let required (key : String) : Except MissingKey String :=
    match found.lookup key with
    | some value => .ok value
    | none => .error ⟨key⟩
  return {
    id := ← required "ID"
    name := (found.lookup "NAME").getD ""
    version := ← required "VERSION_ID" }

end Release

end PhasedUpgrade.Upgrade
