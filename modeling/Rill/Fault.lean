import Rill.Grammar.Error
import Rill.Limiter
import Rill.Number.Format
import Rill.Syntax.Operator
import Rill.Value

/-!
# Faults

Why a run stops, where it did, and which calls were active. The cause says what happened; its
wording is derived from it.
-/

set_option autoImplicit false

namespace Rill

/-- Ways in which a value of the wrong kind was used. -/
inductive Mismatch where
  | binary (op : BinaryOp) (left right : ValueType)
  | unary (op : UnaryOp) (operand : ValueType)
  | pipedValues
  | readMember (name : String) (owner : ValueType)
  | writeMember (name : String) (owner : ValueType)
  | index (owner key : ValueType)
  | fractionalIndex (place : Float)
  | recordKey (key : ValueType)
  | looseSpread
  | spreadIntoList (source : ValueType)
  | spreadIntoRecord (source : ValueType)
  | partialCall (callee : ValueType)
  | destructureArray (source : ValueType)
  | destructureRecord (source : ValueType)
  | iterate (source : ValueType)
  | assignment
  | extend (child parent : String) (found : ValueType)
  /-- A function that wants another argument; no type when there was none. -/
  | argument (function wanted : String) (found : Option ValueType)
  | emptyReduce
  /-- A host function that refused. -/
  | refused (message : String)

namespace Mismatch

def message : Mismatch → String
  | binary op left right =>
      "operator `" ++ op.symbol ++ "` cannot be applied to " ++ left.name ++ " and " ++ right.name
  | unary op operand => "operator `" ++ op.symbol ++ "` cannot be applied to " ++ operand.name
  | pipedValues => "`|>` needs a function call and cannot be applied to two values"
  | readMember name owner => "cannot read member `" ++ name ++ "` of " ++ owner.name
  | writeMember name owner => "cannot set member `" ++ name ++ "` on " ++ owner.name
  | index owner key => "cannot index " ++ owner.name ++ " with " ++ key.name
  | fractionalIndex place => "index " ++ Number.write .bare place ++ " is not an integer"
  | recordKey key => "record keys must be strings, got " ++ key.name
  | looseSpread => "`...` is only allowed in array literals, record literals and call arguments"
  | spreadIntoList source => "cannot spread " ++ source.name ++ " into a list"
  | spreadIntoRecord source => "cannot spread " ++ source.name ++ " into a record"
  | partialCall callee => "cannot partially apply " ++ callee.name
  | destructureArray source => "cannot destructure " ++ source.name ++ " as an array"
  | destructureRecord source => "cannot destructure " ++ source.name ++ " as a record"
  | iterate source => "cannot iterate over " ++ source.name
  | assignment => "invalid assignment target"
  | extend child parent found =>
      "`" ++ child ++ "` cannot extend `" ++ parent ++ "`: it is a " ++ found.name
        ++ ", not a blueprint"
  | argument function wanted found =>
      "`" ++ function ++ "` expects " ++ wanted ++ ", got "
        ++ (found.map ValueType.name).getD "nothing"
  | emptyReduce => "`reduce` of an empty array needs an initial value"
  | refused message => message

end Mismatch

inductive ImportProblem where
  | noLoader (path : String)
  | notFound (path : String)
  | denied (path : String)
  | notText (path : String)
  | unreadable (path reason : String)
  | syntaxError (key : String) (error : ParseError)
  | cycle (keys : List String)

namespace ImportProblem

def message : ImportProblem → String
  | noLoader path => "cannot import `" ++ path ++ "`: no module loader configured"
  | notFound path => "module `" ++ path ++ "` not found"
  | denied path => "permission denied reading `" ++ path ++ "`"
  | notText path => "`" ++ path ++ "` contains invalid UTF-8 data"
  | unreadable path reason => "error reading `" ++ path ++ "`: " ++ reason
  | syntaxError key error => key ++ ": " ++ error.render
  | cycle keys => "import cycle: " ++ " -> ".intercalate keys

end ImportProblem

inductive SuperProblem where
  | outsideMethod
  | noParent (owner : String)
  | noMethod (parent name : String)

namespace SuperProblem

def message : SuperProblem → String
  | outsideMethod => "`super` used outside a method"
  | noParent owner => "`" ++ owner ++ "` has no parent blueprint"
  | noMethod parent name => "parent `" ++ parent ++ "` has no method `" ++ name ++ "`"

end SuperProblem

inductive Cause where
  | undeclared (name : String)
  | constant (name : String)
  | declaredTwice (name : String)
  | mismatch (mismatch : Mismatch)
  | outOfRange (index : Int) (length : Nat)
  | noKey (key : String)
  | noField (blueprint name : String)
  | noMember (type : ValueType) (name : String)
  | dividedByZero
  | moduloZero
  | notCallable (type : ValueType)
  | limit (breach : Breach)
  /-- A thrown value and how it is shown. -/
  | thrown (value : Value) (shown : String)
  | noMatch (shown : String)
  | badImport (problem : ImportProblem)
  | badSuper (problem : SuperProblem)

namespace Cause

/-- The name of the kind of a cause, as programs see it. -/
def kind : Cause → String
  | undeclared _ => "UndeclaredVariable"
  | constant _ => "ImmutableBinding"
  | declaredTwice _ => "AlreadyDeclared"
  | mismatch _ => "TypeMismatch"
  | outOfRange _ _ => "IndexOutOfRange"
  | noKey _ | noField _ _ | noMember _ _ => "KeyNotFound"
  | dividedByZero | moduloZero => "DivisionByZero"
  | notCallable _ => "NotCallable"
  | limit _ => "LimitExceeded"
  | thrown _ _ => "Thrown"
  | noMatch _ => "NoMatch"
  | badImport _ => "Import"
  | badSuper _ => "InvalidSuper"

def message : Cause → String
  | undeclared name => "undeclared variable `" ++ name ++ "`"
  | constant name => "cannot assign to constant `" ++ name ++ "`"
  | declaredTwice name => "`" ++ name ++ "` is already declared in this scope"
  | mismatch m => m.message
  | outOfRange index length =>
      "index " ++ toString index ++ " out of range for length " ++ length.repr
  | noKey key => "key `" ++ key ++ "` not found"
  | noField blueprint name => "`" ++ blueprint ++ "` instance has no member `" ++ name ++ "`"
  | noMember type name => type.name ++ " has no member `" ++ name ++ "`"
  | dividedByZero => "division by zero"
  | moduloZero => "modulo by zero"
  | notCallable type => "value of type " ++ type.name ++ " is not callable"
  | limit breach => breach.message
  | thrown _ shown => "uncaught throw: " ++ shown
  | noMatch shown => "no match arm accepts " ++ shown
  | badImport problem => problem.message
  | badSuper problem => problem.message

end Cause

/-- A cause, the innermost known position it passed through, and the calls that were active, the
innermost first. -/
structure Fault where
  cause : Cause
  position : Option Position
  backtrace : List String

namespace Fault

def of (cause : Cause) : Fault := ⟨cause, none, []⟩

/-- A refusal of the limiter, which knows its place and the active calls. -/
def ofBreach (breach : Breach) (calls : List String) : Fault :=
  ⟨.limit breach, breach.location, calls⟩

def message (fault : Fault) : String := fault.cause.message

/-- Note a position, unless a position inside it is noted already. -/
def locate (fault : Fault) (pos : Position) : Fault :=
  if fault.position.isNone && pos.isKnown then { fault with position := some pos } else fault

/-- Note the active calls, unless some are noted already. -/
def trace (fault : Fault) (calls : List String) : Fault :=
  if fault.backtrace.isEmpty then { fault with backtrace := calls } else fault

end Fault

end Rill
