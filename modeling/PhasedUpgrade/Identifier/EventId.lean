import PhasedUpgrade.Digest.Sha256
import PhasedUpgrade.Text.Hexadecimal

/-!
# Event identifiers

An audit event is named by a UUID: 128 bits, written as 32 hexadecimal digits in five groups. The
reader also takes the digits without hyphens, or the groups in braces or after `urn:uuid:`.
-/

namespace PhasedUpgrade

structure EventId where
  value : BitVec 128
deriving DecidableEq

namespace EventId

instance : Inhabited EventId := ⟨⟨0⟩⟩

/-- The 16 bytes, the highest first. -/
def bytes (id : EventId) : List UInt8 :=
  Digest.Sha256.bigEndian 16 id.value.toNat

/-- Cut 32 digits into groups of 8, 4, 4, 4 and 12. -/
def grouped (digits : List Char) : List Char :=
  digits.take 8 ++ '-' :: (digits.drop 8).take 4 ++ '-' :: (digits.drop 12).take 4 ++
    '-' :: (digits.drop 16).take 4 ++ '-' :: digits.drop 20

def ungrouped (chars : List Char) : Option (List Char) :=
  if chars.length = 36 ∧ chars[8]? = some '-' ∧ chars[13]? = some '-' ∧ chars[18]? = some '-' ∧
      chars[23]? = some '-' then
    some (chars.take 8 ++ (chars.drop 9).take 4 ++ (chars.drop 14).take 4 ++
      (chars.drop 19).take 4 ++ chars.drop 24)
  else none

def text (id : EventId) : String :=
  .ofList (grouped (Text.hexChars 32 id.value.toNat))

/-- The mark in front of the groups in the form of a name; it may have capital letters. -/
def namePrefix : List Char :=
  ['u', 'r', 'n', ':', 'u', 'u', 'i', 'd', ':']

def digits? (chars : List Char) : Option (List Char) :=
  if chars.length = 32 then some chars
  else if chars.length = 36 then ungrouped chars
  else if chars.length = 38 ∧ chars.head? = some '\x7b' ∧ chars.getLast? = some '\x7d' then
    ungrouped ((chars.drop 1).take 36)
  else if chars.length = 45 ∧ (chars.take 9).map Char.toLower = namePrefix then
    ungrouped (chars.drop 9)
  else none

def ofText? (text : String) : Option EventId := do
  let value ← Text.hexNumber? 0 (← digits? text.toList)
  return ⟨.ofNat 128 value⟩

end EventId

end PhasedUpgrade
