import PhasedUpgrade.Collections.NameMap
import PhasedUpgrade.Decimal.FloatText
import PhasedUpgrade.Reading.Misfit
import PhasedUpgrade.Toml.Value

/-!
# Typed values from TOML

Readers turn a TOML value into a typed one or say why it does not fit. A date counts as a table.
-/

namespace PhasedUpgrade.Toml.Value

open Reading

def found : Value → Found
  | .string value => .string value
  | .integer value => .integer value
  | .float value => .float (Decimal.FloatStyle.written.text value)
  | .boolean value => .boolean value
  | .array _ => .sequence
  | .dateTime _ | .table _ => .map

def readString : Value → Except Misfit String
  | .string value => .ok value
  | other => .error (.wrongType other.found .string)

def readPath : Value → Except Misfit String
  | .string value => .ok value
  | other => .error (.wrongType other.found .path)

def readBoolean : Value → Except Misfit Bool
  | .boolean value => .ok value
  | other => .error (.wrongType other.found .boolean)

/-- An array, item by item; the first item that does not fit is reported. -/
def readList {α : Type} (item : Value → Except Misfit α) : Value → Except Misfit (List α)
  | .array items => items.mapM item
  | other => .error (.wrongType other.found .sequence)

/-- A table, entry by entry; the first value that does not fit is reported. -/
def readMap {α : Type} (item : Value → Except Misfit α) (value : Value) :
    Except Misfit (NameMap α) :=
  match value.entries? with
  | none => .error (.wrongType value.found .map)
  | some entries => do
      let entries ← entries.mapM fun (key, value) => do return (key, ← item value)
      return .ofList entries

end PhasedUpgrade.Toml.Value
