import PhasedUpgrade.Text.Hexadecimal

/-!
# Digests

A digest is 32 bytes, written as 64 hexadecimal digits.
-/

namespace PhasedUpgrade

/-- The result of hashing: 32 bytes. -/
structure Digest where
  bytes : List UInt8
  length_bytes : bytes.length = 32
deriving DecidableEq

namespace Digest

/-- The digest that stands before the first link of a chain. -/
def zero : Digest := ⟨List.replicate 32 0, by simp⟩

instance : Inhabited Digest := ⟨zero⟩

/-- Two hexadecimal digits per byte. -/
def bytesText (bytes : List UInt8) : String :=
  .ofList (bytes.flatMap fun byte => Text.hexChars 2 byte.toNat)

def text (digest : Digest) : String :=
  bytesText digest.bytes

def bytesOfChars? : List Char → Option (List UInt8)
  | [] => some []
  | [_] => none
  | high :: low :: rest => do
      let byte := 16 * (← Text.hexValue? high) + (← Text.hexValue? low)
      return .ofNat byte :: (← bytesOfChars? rest)

def ofText? (text : String) : Option Digest := do
  let bytes ← bytesOfChars? text.toList
  if h : bytes.length = 32 then some ⟨bytes, h⟩ else none

end Digest

end PhasedUpgrade
