import Rill.Heap.Frames
import Rill.Number.Whole
import Rill.Text.Search

/-!
# Members and indices

Records and instances answer to the names of their fields, arrays and texts to the names of what
they can do. Arrays and texts are indexed by whole numbers, a negative one counting from the end;
records and instances by texts. A key that is missing is a fault, not nil.
-/

set_option autoImplicit false

namespace Rill

namespace Access

/-- The place in `0 .. length - 1` that a number stands for, if it stands for one. -/
def place (n : Float) (length : Nat) : Except Cause Nat :=
  if Number.isWhole n then
    let raw := Number.toInt n
    let index := if raw < 0 then raw + length else raw
    if 0 ≤ index ∧ index < length then .ok index.toNat else .error (.outOfRange raw length)
  else .error (.mismatch (.fractionalIndex n))

/-- The member of an instance, which is a variable of its frame. -/
def objectMember? (heap : Heap) (id : Nat) (name : String) : Option Value :=
  match heap.objects[id]? with
  | some object => heap.getLocal? object.frame name
  | none => none

def getMember (owner : Value) (name : String) : Store Value := do
  match owner with
  | .record id =>
      match (← Store.record id).get? name with
      | some value => return value
      | none => Store.fail (.noKey name)
  | .object id =>
      match ← Store.read (objectMember? · id name) with
      | some value => return value
      | none => Store.fail (.noField (← Store.read (·.objectName id)) name)
  | .array id =>
      match ArrayMethod.ofName? name with
      | some method => Store.newNative (.ofArray method name id)
      | none => Store.fail (.noMember .array name)
  | .text text =>
      match TextMethod.ofName? name with
      | some method => Store.newNative (.ofText method name text)
      | none => Store.fail (.noMember .text name)
  | _ => Store.mismatch (.readMember name owner.type)

def setMember (owner : Value) (name : String) (value : Value) : Store Unit := do
  match owner with
  | .record id => Store.changeRecord id (·.insert name value)
  | .object id =>
      match ← Store.read (·.objects[id]?) with
      | some object => Store.define object.frame name value
      | none => return ()
  | _ => Store.mismatch (.writeMember name owner.type)

def getIndex (owner key : Value) : Store Value := do
  match owner, key with
  | .array id, .number n =>
      let items ← Store.array id
      match place n items.size with
      | .ok index => return items[index]?.getD .nil
      | .error cause => Store.fail cause
  | .text text, .number n =>
      let chars := text.toList
      match place n chars.length with
      | .ok index => return (chars[index]?.map fun c => .text (String.singleton c)).getD .nil
      | .error cause => Store.fail cause
  | .record _, .text name => getMember owner name
  | .object _, .text name => getMember owner name
  | _, _ => Store.mismatch (.index owner.type key.type)

def setIndex (owner key value : Value) : Store Unit := do
  match owner, key with
  | .array id, .number n =>
      match place n (← Store.read fun heap => (heap.array id).size) with
      | .ok index => Store.changeArray id (·.setIfInBounds index value)
      | .error cause => Store.fail cause
  | .record _, .text name => setMember owner name value
  | .object _, .text name => setMember owner name value
  | _, _ => Store.mismatch (.index owner.type key.type)

def keyText (key : Value) : Store String :=
  match key with
  | .text text => return text
  | .number _ | .bool _ => Store.display key
  | _ => Store.mismatch (.recordKey key.type)

def spreadItems (value : Value) : Store (List Value) := do
  match value with
  | .array id => return (← Store.array id).toList
  | .text text => return (Text.characters text).map .text
  | _ => Store.mismatch (.spreadIntoList value.type)

def spreadFields (value : Value) : Store (List (String × Value)) := do
  match value with
  | .record id => return (← Store.record id).entries
  | .nil => return []
  | _ => Store.mismatch (.spreadIntoRecord value.type)

/-- What a comprehension walks over: elements, keys or characters, as they are now. -/
def elements (value : Value) : Store (List Value) := do
  match value with
  | .array id => return (← Store.array id).toList
  | .record id => return (← Store.record id).names.map .text
  | .text text => return (Text.characters text).map .text
  | _ => Store.mismatch (.iterate value.type)

end Access

end Rill
