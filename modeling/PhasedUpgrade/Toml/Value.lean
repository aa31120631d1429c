import PhasedUpgrade.Toml.DateTime

/-!
# TOML values

The values of answers and of the configuration. A table lists its entries in the order they are
given; tables that are kept list them by increasing key.
-/

namespace PhasedUpgrade.Toml

inductive Value where
  | string (text : String)
  | integer (value : Int)
  | float (value : Float)
  | boolean (value : Bool)
  | dateTime (value : DateTime)
  | array (items : List Value)
  | table (entries : List (String × Value))
deriving Inhabited

namespace Value

/-- The key that a date holds its text under where a table is asked for. A table that begins with
it stands for a date where any value is asked for. -/
def dateKey : String := "$__toml_private_datetime"

/-- The entries of a value that is a table, or of a date taken as one. -/
def entries? : Value → Option (List (String × Value))
  | .table entries => some entries
  | .dateTime value => some [(dateKey, .string value.text)]
  | _ => none

mutual

/-- Whether two values are equal; a NaN equals nothing. -/
def same : Value → Value → Bool
  | .string a, .string b => a == b
  | .integer a, .integer b => a == b
  | .float a, .float b => a == b
  | .boolean a, .boolean b => a == b
  | .dateTime a, .dateTime b => a == b
  | .array a, .array b => sameItems a b
  | .table a, .table b => sameEntries a b
  | _, _ => false

def sameItems : List Value → List Value → Bool
  | [], [] => true
  | a :: as, b :: bs => same a b && sameItems as bs
  | _, _ => false

def sameEntries : List (String × Value) → List (String × Value) → Bool
  | [], [] => true
  | (n, a) :: as, (m, b) :: bs => n == m && same a b && sameEntries as bs
  | _, _ => false

end

end Value

end PhasedUpgrade.Toml
