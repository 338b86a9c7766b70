import Rill.Heap.Store

/-!
# Frames

Frames form trees: a name is looked up in a frame, then in the frame around it, and so on outward.
A frame is older than every frame that hangs off it, so the way outward ends.
-/

set_option autoImplicit false

namespace Rill

namespace Heap

def localVariable? (heap : Heap) (env : FrameId) (name : String) : Option Variable :=
  match heap.frames[env]? with
  | some frame => frame.vars.get? name
  | none => none

def nearest? (frames : Array Frame) (test : Frame → Bool) (env : FrameId) : Option FrameId :=
  match frames[env]? with
  | none => none
  | some frame =>
      if test frame then some env
      else
        match frame.parent with
        | none => none
        | some parent => if _older : parent < env then nearest? frames test parent else none
termination_by env

def holder? (heap : Heap) (env : FrameId) (name : String) : Option FrameId :=
  nearest? heap.frames (·.vars.contains name) env

def lookup? (heap : Heap) (env : FrameId) (name : String) : Option Variable :=
  match heap.holder? env name with
  | some frame => heap.localVariable? frame name
  | none => none

def get? (heap : Heap) (env : FrameId) (name : String) : Option Value :=
  (heap.lookup? env name).map Variable.value

def getLocal? (heap : Heap) (env : FrameId) (name : String) : Option Value :=
  (heap.localVariable? env name).map Variable.value

def changeFrame (heap : Heap) (env : FrameId) (f : Frame → Frame) : Heap :=
  { heap with frames := heap.frames.modify env f }

def bind (heap : Heap) (env : FrameId) (name : String) (variable_ : Variable) : Heap :=
  heap.changeFrame env fun frame =>
    { frame with vars := frame.vars.insert name variable_ }

def dir (heap : Heap) (env : FrameId) : String := (heap.frames[env]?.map Frame.dir).getD "."

def bindings (heap : Heap) (env : FrameId) : List (String × Value) :=
  match heap.frames[env]? with
  | some frame => frame.vars.sorted.map fun (name, variable_) => (name, variable_.value)
  | none => []

/-- One frame in a line: the names it holds, its directory, and whether there is a frame around
it. -/
def listing (heap : Heap) (env : FrameId) : String :=
  let names := (heap.bindings env).map fun (name, _) => Text.quote name
  let hasParent := (heap.frames[env]?.bind Frame.parent).isSome
  "Environment \x7b bindings: [" ++ ", ".intercalate names ++ "], dir: " ++ Text.quote (heap.dir env)
    ++ ", has_parent: " ++ (if hasParent then "true" else "false") ++ " \x7d"

def methodFrame? (heap : Heap) (env : FrameId) : Option (FrameId × MethodRef) :=
  match nearest? heap.frames (·.method.isSome) env with
  | none => none
  | some found =>
      match heap.frames[found]? with
      | some frame => frame.method.map fun ref => (found, ref)
      | none => none

end Heap

namespace Store

def newRoot (dir : String) : Store FrameId := fun heap =>
  (.ok heap.frames.size,
    { heap with frames := heap.frames.push ⟨.empty, none, dir, none⟩ })

/-- A frame that hangs off another one and starts imports where that one does. -/
def child (env : FrameId) : Store FrameId := fun heap =>
  let dir := heap.dir env
  (.ok heap.frames.size,
    { heap with frames := heap.frames.push ⟨.empty, some env, dir, none⟩ })

def define (env : FrameId) (name : String) (value : Value) : Store Unit :=
  change (·.bind env name ⟨value, false⟩)

/-- Declare a variable in one frame. A constant of that frame cannot be declared again. -/
def set (env : FrameId) (name : String) (value : Value) : Store Unit := do
  match ← read (·.localVariable? env name) with
  | some ⟨_, true⟩ => fail (.declaredTwice name)
  | _ => change (·.bind env name ⟨value, false⟩)

/-- Declare a constant in one frame, which must not hold the name yet. -/
def setConst (env : FrameId) (name : String) (value : Value) : Store Unit := do
  match ← read (·.localVariable? env name) with
  | some _ => fail (.declaredTwice name)
  | none => change (·.bind env name ⟨value, true⟩)

def declare (constant : Bool) (env : FrameId) (name : String) (value : Value) : Store Unit :=
  if constant then setConst env name value else set env name value

def update (env : FrameId) (name : String) (value : Value) : Store Unit := do
  match ← read (·.holder? env name) with
  | none => fail (.undeclared name)
  | some holder =>
      match ← read (·.localVariable? holder name) with
      | some ⟨_, true⟩ => fail (.constant name)
      | _ => change (·.bind holder name ⟨value, false⟩)

def get (env : FrameId) (name : String) : Store Value := do
  match ← read (·.get? env name) with
  | some value => return value
  | none => fail (.undeclared name)

def setDir (env : FrameId) (dir : String) : Store Unit :=
  change (·.changeFrame env fun frame => { frame with dir })

def setMethod (env : FrameId) (method : Option MethodRef) : Store Unit :=
  change (·.changeFrame env fun frame => { frame with method })

end Store

end Rill
