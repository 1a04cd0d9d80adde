import Asn1.Text.Unprintable

/-!
Characters and texts between quotes, on one line whatever they hold.
-/

namespace Asn1.Text

def lowerHexDigits (n : Nat) : List Char :=
  Nat.toDigits 16 n

/-- A character as it stands between two `quote`s: the quote, the backslash and
four controls have short escapes, other unprintable characters their number. -/
def escape (quote c : Char) : List Char :=
  if c = '\x00' then ['\\', '0']
  else if c = '\t' then ['\\', 't']
  else if c = '\r' then ['\\', 'r']
  else if c = '\n' then ['\\', 'n']
  else if c = '\\' ∨ c = quote then ['\\', c]
  else if isUnprintable c then ['\\', 'u', '\x7b'] ++ lowerHexDigits c.toNat ++ ['\x7d']
  else [c]

def quoteChar (c : Char) : String :=
  String.ofList (['\''] ++ escape '\'' c ++ ['\''])

def quote (text : String) : String :=
  String.ofList (['"'] ++ text.toList.flatMap (escape '"') ++ ['"'])

end Asn1.Text
