/-!
# Classes of characters

A class of characters is given by the sorted bounds at which membership changes: a code point is
in the class when an odd number of bounds lie at or below it.
-/

set_option autoImplicit false

namespace Rill.Text

/-- A set of code points, as the sorted list of code points where membership changes. -/
structure CharClass where
  bounds : List Nat

namespace CharClass

/-- Whether a code point lies after an odd number of bounds. `inside` says whether the bounds
already passed put it in the class. -/
def containsFrom (inside : Bool) : List Nat → Nat → Bool
  | [], _ => inside
  | bound :: rest, code =>
      if code < bound then inside else containsFrom (!inside) rest code

def contains (cls : CharClass) (code : Nat) : Bool :=
  containsFrom false cls.bounds code

/-- The class holds a character when it holds the character's code point. -/
def holds (cls : CharClass) (c : Char) : Bool :=
  cls.contains c.toNat

end CharClass

end Rill.Text
