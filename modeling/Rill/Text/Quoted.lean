import Rill.Text.Extender
import Rill.Text.Hidden

/-!
# Quoted text

A quoted text stands between double quotes and shows every character so that it can be told
apart on a page: a few by a short name, those without a glyph of their own by number, and all
others as themselves.
-/

set_option autoImplicit false

namespace Rill.Text

/-- The characters a quoted text shows by a backslash and one letter or mark. -/
def shortEscape : Char → Option Char
  | '\x00' => some '0'
  | '\t' => some 't'
  | '\r' => some 'r'
  | '\n' => some 'n'
  | '"' => some '"'
  | '\\' => some '\\'
  | _ => none

def isPlain (c : Char) : Bool :=
  if c.toNat < 127 then 32 ≤ c.toNat else !(hidden.holds c || extenders.holds c)

def quoteChar (c : Char) : String :=
  match shortEscape c with
  | some mark => String.ofList ['\\', mark]
  | none =>
      if isPlain c then String.singleton c
      else "\\u\x7b" ++ String.ofList (Nat.toDigits 16 c.toNat) ++ "\x7d"

def quote (text : String) : String :=
  "\"" ++ String.join (text.toList.map quoteChar) ++ "\""

end Rill.Text
