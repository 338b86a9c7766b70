/-!
# Positions in a source text

Lines and columns count from one. A line feed goes to the first column of the next line and every
other character moves one column on. Line zero stands for "nowhere": nodes and calls that have no
source text of their own carry it. Counts may be as large as they come or kept in 32 bits.
-/

set_option autoImplicit false

namespace Rill

/-- A way to count: what a count comes to when so many more are added. -/
structure Tally where
  add : Nat → Nat → Nat

namespace Tally

def exact : Tally := ⟨Nat.add⟩

/-- In 32 bits a sum wraps around, and what is added is at most the largest count. -/
def narrow : Tally := ⟨fun count more => (UInt32.ofNat count + UInt32.ofNatClamp more).toNat⟩

@[simp] theorem exact_add (count more : Nat) : exact.add count more = count + more := rfl

end Tally

structure Position where
  line : Nat
  column : Nat
deriving DecidableEq, Inhabited

namespace Position

def unknown : Position := ⟨0, 0⟩

def start : Position := ⟨1, 1⟩

def isKnown (pos : Position) : Bool := pos.line != 0

def step (pos : Position) (c : Char) (tally : Tally := .exact) : Position :=
  if c = '\n' then ⟨tally.add pos.line 1, 1⟩ else ⟨pos.line, tally.add pos.column 1⟩

def after (pos : Position) (chars : List Char) (tally : Tally := .exact) : Position :=
  chars.foldl (fun pos c => pos.step c tally) pos

/-- Over many characters at once: the line feeds, and the characters after the last of them. -/
def leap (pos : Position) (chars : List Char) (tally : Tally := .exact) : Position :=
  if '\n' ∈ chars then
    ⟨tally.add pos.line (chars.count '\n'),
      tally.add 1 (chars.reverse.takeWhile (· ≠ '\n')).length⟩
  else ⟨pos.line, tally.add pos.column chars.length⟩

/-- The same position with line and column at least one, where a reading may start. -/
def clamp (pos : Position) : Position := ⟨max pos.line 1, max pos.column 1⟩

def render (pos : Position) : String :=
  pos.line.repr ++ ":" ++ pos.column.repr

variable (pos : Position) (tally : Tally)

@[simp] theorem after_nil : pos.after [] tally = pos := rfl

@[simp] theorem after_cons (c : Char) (rest : List Char) :
    pos.after (c :: rest) tally = (pos.step c tally).after rest tally := rfl

theorem after_append (front back : List Char) :
    pos.after (front ++ back) tally = (pos.after front tally).after back tally := by
  simp [after]

end Position

end Rill
