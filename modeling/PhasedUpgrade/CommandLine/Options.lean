import PhasedUpgrade.Text.Split

/-!
# Options of command lines

Options are named in full behind two dashes. A value follows behind `=` or as the next word, which
must not begin with a dash. Words that belong to no option are refused, as is everything behind a
lone pair of dashes. A usage error is what keeps a command line from being obeyed: it asks for help,
or it is at fault.
-/

namespace PhasedUpgrade.CommandLine

inductive UsageError where
  | help
  | version
  | nothingAsked
  | unknownCommand
  | unknownArgument
  /-- An option that may be given once is given twice. -/
  | givenTwice
  | missingValue
  /-- A value for an option that takes none. -/
  | surplusValue
  | missingArgument
deriving DecidableEq

namespace UsageError

def kind : UsageError → String
  | help => "DisplayHelp"
  | version => "DisplayVersion"
  | nothingAsked => "DisplayHelpOnMissingArgumentOrSubcommand"
  | unknownCommand => "InvalidSubcommand"
  | unknownArgument => "UnknownArgument"
  | givenTwice => "ArgumentConflict"
  | missingValue => "InvalidValue"
  | surplusValue => "TooManyValues"
  | missingArgument => "MissingRequiredArgument"

def exitCode : UsageError → Nat
  | help | version => 0
  | _ => 2

end UsageError

/-- How often an option may be given, and whether a value belongs to it. -/
inductive OptionForm where
  | switch
  | single
  | repeated
  | help
deriving DecidableEq

inductive Word where
  /-- Two dashes. -/
  | separator
  | long (name : String) (value : Option String)
  | short (letter : Char)
  | plain (text : String)
deriving DecidableEq

/-- What a word is. A lone dash is plain, and of several short options only the first counts. -/
def Word.ofText (text : String) : Word :=
  match text.toList with
  | ['-', '-'] => .separator
  | '-' :: '-' :: rest =>
      match Text.cutChars '=' rest with
      | some (name, value) => .long (.ofList name) (some (.ofList value))
      | none => .long (.ofList rest) none
  | '-' :: letter :: _ => .short letter
  | _ => .plain text

structure Given where
  name : String
  value : String
deriving DecidableEq

/-- The options read so far; the last one may still need a value, or be taken in at all. -/
structure Progress where
  given : List Given
  pending : Option (String × Option String)

namespace Progress

def start : Progress := ⟨[], none⟩

/-- Take an option in, unless it was given before and may not be repeated. -/
def enter (forms : List (String × OptionForm)) (progress : Progress) (given : Given) :
    Except UsageError Progress :=
  if forms.lookup given.name ≠ some .repeated ∧ progress.given.any (·.name = given.name) then
    .error .givenTwice
  else .ok { progress with given := progress.given ++ [given] }

/-- Take in the option that is pending, if there is one. -/
def settle (forms : List (String × OptionForm)) (progress : Progress) :
    Except UsageError Progress :=
  match progress.pending with
  | none => .ok progress
  | some (_, none) => .error .missingValue
  | some (name, some value) => enter forms ⟨progress.given, none⟩ ⟨name, value⟩

def take (forms : List (String × OptionForm)) (progress : Progress) :
    Word → Except UsageError Progress
  | .separator => .error .unknownArgument
  | .long name value =>
      match forms.lookup name, value with
      | none, _ => .error .unknownArgument
      | some .help, none => do
          let _ ← progress.settle forms
          throw .help
      | some .switch, none => do enter forms (← progress.settle forms) ⟨name, ""⟩
      | some .help, some _ | some .switch, some _ => .error .surplusValue
      | some .single, some value | some .repeated, some value => do
          enter forms (← progress.settle forms) ⟨name, value⟩
      | some .single, none | some .repeated, none => do
          return { ← progress.settle forms with pending := some (name, none) }
  | .short letter => do
      if letter = 'h' then
        let _ ← progress.settle forms
        throw .help
      throw .unknownArgument
  | .plain text =>
      match progress.pending with
      | some (name, none) => .ok { progress with pending := some (name, some text) }
      | _ => .error .unknownArgument

end Progress

def readOptions (forms : List (String × OptionForm)) :
    List String → Progress → Except UsageError (List Given)
  | [], progress => do return (← progress.settle forms).given
  | text :: rest, progress =>
      match Word.ofText text, rest with
      | .separator, [] => do return (← progress.settle forms).given
      | word, _ => do readOptions forms rest (← progress.take forms word)

def valuesOf (given : List Given) (name : String) : List String :=
  (given.filter (·.name = name)).map Given.value

end PhasedUpgrade.CommandLine
