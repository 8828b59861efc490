import Lisplet.Failure
import Lisplet.Value

/-!
# The store

Frames bind names to values.  Every frame but a global one has an outer frame, and the
chain of outer frames is where a name is looked up.  Frames are never copied or removed:
a closure keeps the place of the frame it was made in, so an assignment through one
closure is seen by all.  The store also hands out identities.
-/

namespace Lisplet

/-- The bindings of one frame, in the order in which the names were first bound. -/
abbrev Bindings := List (String × Value)

namespace Bindings

def get? (bindings : Bindings) (name : String) : Option Value :=
  List.lookup name bindings

/-- Binds a name: a new name goes to the end, a known one keeps its place. -/
def put (bindings : Bindings) (name : String) (value : Value) : Bindings :=
  match bindings with
  | [] => [(name, value)]
  | (other, old) :: rest =>
    if other == name then (name, value) :: rest else (other, old) :: put rest name value

end Bindings

structure Frame where
  bindings : Bindings
  outer : Option FrameId
deriving Inhabited

structure Store where
  frames : Array Frame
  nextIdentity : Identity
deriving Inhabited

/-- What a computation on the store answers; the store is kept when it fails. -/
abbrev Computation := EStateM Failure Store

namespace Store

/-- The store before anything was made; identity `0` is never handed out. -/
def empty : Store := ⟨#[], 1⟩

/-- The frames at which a name is looked up from a frame, innermost first.  An outer
frame is older than its inner one, so a chain from place `n` has at most `n + 1`
frames. -/
def chain (store : Store) (start : FrameId) : List FrameId :=
  go (start + 1) start
where
  go : Nat → FrameId → List FrameId
    | 0, _ => []
    | steps + 1, place =>
      match store.frames[place]? with
      | none => []
      | some frame =>
        place :: match frame.outer with
          | none => []
          | some outer => go steps outer

/-- The value that a name has in one frame. -/
def bound? (store : Store) (place : FrameId) (name : String) : Option Value :=
  (store.frames[place]?).bind fun frame => frame.bindings.get? name

/-- The innermost frame on the chain that binds a name. -/
def find? (store : Store) (place : FrameId) (name : String) : Option FrameId :=
  (store.chain place).find? fun frame => (store.bound? frame name).isSome

/-- The value that a name has at a frame: that of the innermost binding. -/
def lookup? (store : Store) (place : FrameId) (name : String) : Option Value :=
  (store.find? place name).bind fun frame => store.bound? frame name

def define (store : Store) (place : FrameId) (name : String) (value : Value) : Store :=
  { store with
    frames := store.frames.modify place fun frame =>
      { frame with bindings := frame.bindings.put name value } }

/-- Changes the innermost binding of a name; `none` when it has none. -/
def assign? (store : Store) (place : FrameId) (name : String) (value : Value) : Option Store :=
  (store.find? place name).map fun frame => store.define frame name value

def allocate (store : Store) (frame : Frame) : FrameId × Store :=
  (store.frames.size, { store with frames := store.frames.push frame })

end Store

namespace Computation

/-- Takes an identity that was not handed out before. -/
def freshIdentity : Computation Identity :=
  modifyGet fun store => (store.nextIdentity, { store with nextIdentity := store.nextIdentity + 1 })

def newList (items : List Value) : Computation Value := do
  return .list (← freshIdentity) items

/-- Makes a value of a datum, with new lists. -/
def load (d : Datum) : Computation Value :=
  modifyGet fun store =>
    let (value, next) := d.load store.nextIdentity
    (value, { store with nextIdentity := next })

def newFrame (outer : Option FrameId) : Computation FrameId :=
  modifyGet fun store => store.allocate ⟨[], outer⟩

/-- Fails with a cause that shows a value; when there is no room to write the value
down, that is the failure instead. -/
def refuse {α : Type} (room : Nat) (value : Value) (cause : Datum → Failure) : Computation α :=
  let shown := value.datum
  throw (if shown.writingDepth ≤ room then cause shown else .depthExceeded)

def lookup (place : FrameId) (name : String) : Computation Value := do
  match (← get).lookup? place name with
  | some value => return value
  | none => throw (.unbound name)

def find (place : FrameId) (name : String) : Computation FrameId := do
  match (← get).find? place name with
  | some frame => return frame
  | none => throw (.unbound name)

/-- Binds a name in one frame; only a symbol can be a name. -/
def define (room : Nat) (place : FrameId) (name value : Value) : Computation Unit :=
  match name with
  | .symbol name => modify fun store => store.define place name value
  | other => refuse room other .cannotDefine

/-- Changes the innermost binding of a name, which has to be a symbol that is bound. -/
def assign (room : Nat) (place : FrameId) (name value : Value) : Computation Unit :=
  match name with
  | .symbol name => do
    match (← get).assign? place name value with
    | some store => set store
    | none => throw (.unbound name)
  | other => refuse room other .cannotAssign

/-- Adds a binding to a list of pairs: a key that is there already keeps its place and
takes the new value. -/
def mergePair (pairs : List (Value × Value)) (pair : Value × Value) : List (Value × Value) :=
  match pairs with
  | [] => [pair]
  | (key, value) :: rest =>
    if key.same pair.1 then (key, pair.2) :: rest else (key, value) :: mergePair rest pair

/-- Binds several names in one frame.  A name that comes twice is bound once, at its
first place and to its last value; the pairs before one that is no name stay bound. -/
def defineAll (room : Nat) (place : FrameId) (pairs : List (Value × Value)) : Computation Unit :=
  (pairs.foldl mergePair []).forM fun (name, value) => define room place name value

/-- The bindings of parameters to arguments, or the first parameter that is no symbol. -/
def bindingsOf (parameters arguments : List Value) (bindings : Bindings) : Except Value Bindings :=
  match parameters, arguments with
  | .symbol name :: parameters, argument :: arguments =>
    bindingsOf parameters arguments (bindings.put name argument)
  | other :: _, _ :: _ => .error other
  | _, _ => .ok bindings

/-- Adds a frame that binds parameters to arguments position by position. -/
def bindParameters (room : Nat) (parameters arguments : List Value) (outer : Option FrameId) :
    Computation FrameId :=
  if parameters.length = arguments.length then
    match bindingsOf parameters arguments [] with
    | .error other => refuse room other .boundNotSymbol
    | .ok bindings => modifyGet fun store => store.allocate ⟨bindings, outer⟩
  else
    refuse room (.list 0 parameters) (.parameterCount parameters.length arguments.length)

/-- Binds every primitive to its name in one frame, each time as a new procedure. -/
def registerPrimitives (room : Nat) (place : FrameId) : Computation Unit := do
  let pairs ← Primitive.all.mapM fun operation => do
    return (.symbol operation.name, .primitive (← freshIdentity) operation)
  defineAll room place pairs

def newGlobalFrame (room : Nat) : Computation FrameId := do
  let place ← newFrame none
  registerPrimitives room place
  return place

end Computation

namespace Store

/-- The bindings of one frame between braces, unless there is no room to write a value
down. -/
def writeFrame (room : Nat) (frame : Frame) : Except Failure String := do
  let entries ← frame.bindings.mapM fun (name, value) => do
    return name ++ ": " ++ (← value.datum.write room)
  return "\x7b" ++ String.intercalate ", " entries ++ "\x7d"

/-- One frame, with a mark if there are outer ones. -/
def describe (store : Store) (room : Nat) (place : FrameId) : Except Failure String :=
  match store.frames[place]? with
  | none => return ""
  | some frame => do
    return (← writeFrame room frame) ++ (if frame.outer.isSome then " -> ..." else "")

/-- All frames of a chain, innermost first. -/
def describeChain (store : Store) (room : Nat) (place : FrameId) : Except Failure String := do
  let frames ← ((store.chain place).filterMap (store.frames[·]?)).mapM (writeFrame room)
  return "<Environment chain: " ++ String.intercalate " -> " frames ++ ">"

end Store

end Lisplet
