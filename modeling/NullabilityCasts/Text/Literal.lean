/-!
# Escapes in quoted literals

A quoted literal holds its text with backslash escapes for the backslash, the line break, the
carriage return, the tab, the quote and, by number, every other control character.
-/

set_option autoImplicit false

namespace NullabilityCasts.Text

/-- The characters of the general category Cc. -/
def isControl (c : Char) : Bool := c.val < 0x20 || (0x7f ≤ c.val && c.val < 0xa0)

def hex4 (n : Nat) : List Char :=
  [n / 4096, n / 256, n / 16, n].map fun digit => (digit % 16).digitChar

def escapeChar (quote c : Char) : List Char :=
  if c = '\\' then ['\\', '\\']
  else if c = '\n' then ['\\', 'n']
  else if c = '\r' then ['\\', 'r']
  else if c = '\t' then ['\\', 't']
  else if c = quote then ['\\', c]
  else if isControl c then '\\' :: 'u' :: hex4 c.toNat
  else [c]

def escape (quote : Char) (text : String) : String :=
  String.ofList (text.toList.flatMap (escapeChar quote))

def quoted (quote : Char) (text : String) : String :=
  quote.toString ++ escape quote text ++ quote.toString

end NullabilityCasts.Text
