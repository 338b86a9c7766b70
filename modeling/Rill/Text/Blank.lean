import Rill.Text.CharClass

/-!
# Blanks

The code points with the `White_Space` property, as a sorted list of bounds.
-/

set_option autoImplicit false

namespace Rill.Text

def blanks : CharClass where
  bounds := [
    9, 14, 32, 33, 133, 134, 160, 161, 5760, 5761, 8192, 8203, 8232, 8234, 8239, 8240, 8287,
    8288, 12288, 12289]

end Rill.Text
