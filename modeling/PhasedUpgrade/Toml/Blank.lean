/-!
# Blanks and comments of TOML

What may stand between the parts of a document.
-/

namespace PhasedUpgrade.Toml

/-- Reads something off the front of a text. -/
abbrev Reader (α : Type) : Type := List Char → Option (α × List Char)

def isBlank (c : Char) : Bool :=
  c == ' ' || c == '\t'

/-- Whether a character may stand in a comment or, unless it is a quote, in a literal string. -/
def isPlain (c : Char) : Bool :=
  c == '\t' || (0x20 ≤ c.val && c.val != 0x7F)

def dropBlanks (chars : List Char) : List Char :=
  chars.dropWhile isBlank

/-- Without a line feed in front, perhaps after a carriage return. -/
def dropNewline? : List Char → Option (List Char)
  | '\n' :: rest => some rest
  | '\r' :: '\n' :: rest => some rest
  | _ => none

def dropComment : List Char → List Char
  | '#' :: rest => rest.dropWhile isPlain
  | chars => chars

/-- What follows the line that ends here, after blanks and a comment at most. -/
def endOfLine? (chars : List Char) : Option (List Char) :=
  match dropComment (dropBlanks chars) with
  | [] => some []
  | chars => dropNewline? chars

/-- Without blanks, comments and line ends; a comment must end with its line. -/
def dropGap : List Char → Option (List Char)
  | [] => some []
  | '\n' :: rest => dropGap rest
  | '\r' :: '\n' :: rest => dropGap rest
  | c :: rest =>
      if isBlank c then dropGap rest
      else if c = '#' then inComment rest
      else some (c :: rest)
where
  /-- Without the rest of a comment and the gap that follows it. -/
  inComment : List Char → Option (List Char)
    | [] => some []
    | '\n' :: rest => dropGap rest
    | '\r' :: '\n' :: rest => dropGap rest
    | c :: rest => if isPlain c then inComment rest else none

end PhasedUpgrade.Toml
