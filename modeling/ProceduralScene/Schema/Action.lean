import ProceduralScene.Schema.Reading

/-!
Actions in their normal form. Every dialect of schema documents is folded into these before a scene is built.
-/

set_option autoImplicit false

namespace ProceduralScene

/-- The fields that all actions have: a label, a transform and the visibility, all of them unevaluated. -/
structure Frame where
  id : Value
  position : Value
  rotation : Value
  scale : Value
  visible : Value

inductive Action where
  | group (frame : Frame) (children : List Action)
  /-- A subtree with parameters of its own, which can be changed and rebuilt apart from the rest. -/
  | template (frame : Frame) (parameters expressions : Bindings) (body : List Action)
  | repetition (frame : Frame) (count : Value) (distribution : Option Bindings) (instanceParameters : Bindings)
      (children : List Action)
  | loop (frame : Frame) (counter : String) (start stop step : Value) (body : List Action)
  | conditional (frame : Frame) (condition : Value) (accepted refused : List Action)
  | helper (frame : Frame) (name : String) (params : Bindings) (material : Value) (store : Option String)
  | reference (frame : Frame) (target : String) (material : Value)
  /-- A named shape with dimensions that are evaluated. -/
  | geometry (frame : Frame) (shape : String) (dimensions material : Value)

namespace Action

def frame : Action → Frame
  | .group frame _ | .template frame _ _ _ | .repetition frame _ _ _ _ | .loop frame _ _ _ _ _
  | .conditional frame _ _ _ | .helper frame _ _ _ _ | .reference frame _ _ | .geometry frame _ _ _ => frame

/-- The name of the kind of an action. -/
def title : Action → String
  | .group _ _ => "GroupAction"
  | .template _ _ _ _ => "TemplateAction"
  | .repetition _ _ _ _ _ => "RepeatAction"
  | .loop _ _ _ _ _ _ => "LoopAction"
  | .conditional _ _ _ _ => "IfAction"
  | .helper _ _ _ _ _ => "HelperAction"
  | .reference _ _ _ => "ReferenceAction"
  | .geometry _ _ _ _ => "GeometryAction"

/-- The fields that all actions have, under their names in a document. -/
def frameFields (frame : Frame) : Bindings :=
  [("id", frame.id), ("position", frame.position), ("rotation", frame.rotation), ("scale", frame.scale),
   ("visible", frame.visible)]

mutual
/-- The document of an action in its normal form, with every field. -/
def toValue : Action → Value
  | .group frame children =>
    Bindings.toMap (("type", .text "group") :: frameFields frame ++ [("children", .list (toValues children))])
  | .template frame parameters expressions body =>
    Bindings.toMap (("type", .text "template") :: frameFields frame ++
      [("parameters", parameters.toMap), ("expressions", expressions.toMap), ("template", .list (toValues body))])
  | .repetition frame count distribution parameters children =>
    Bindings.toMap (("type", .text "repeat") :: frameFields frame ++
      [("count", count), ("distribution", (distribution.map Bindings.toMap).getD .null),
       ("instance_parameters", parameters.toMap), ("children", .list (toValues children))])
  | .loop frame counter start stop step body =>
    Bindings.toMap (("type", .text "loop") :: frameFields frame ++
      [("var", .text counter), ("from", start), ("to", stop), ("step", step), ("body", .list (toValues body))])
  | .conditional frame condition accepted refused =>
    Bindings.toMap (("type", .text "if") :: frameFields frame ++
      [("condition", condition), ("then", .list (toValues accepted)), ("else", .list (toValues refused))])
  | .helper frame name params material store =>
    Bindings.toMap (("type", .text "helper") :: frameFields frame ++
      [("helper", .text name), ("params", params.toMap), ("material", material),
       ("as", (store.map Value.text).getD .null)])
  | .reference frame target material =>
    Bindings.toMap (("type", .text "reference") :: frameFields frame ++
      [("target", .text target), ("material", material)])
  | .geometry frame shape dimensions material =>
    Bindings.toMap (("type", .text "geometry") :: frameFields frame ++
      [("shape", .text shape), ("dimensions", dimensions), ("material", material)])

def toValues : List Action → List Value
  | [] => []
  | action :: rest => toValue action :: toValues rest
end

/-- The fields of a document that hold actions. -/
def nestedFields : List String := ["children", "template", "body", "then", "else"]

/-- A field that may hold anything. -/
def free (names : List String) (missing : Value) (entries : List (Key × Value)) : Value :=
  ((names.filterMap fun name => Value.entry? name entries).head?).getD missing

def readFrame (entries : List (Key × Value)) : Frame where
  id := free ["id"] .null entries
  position := free ["position"] .null entries
  rotation := free ["rotation"] .null entries
  scale := free ["scale"] .null entries
  visible := free ["visible"] (.bool true) entries

/-- The field `type`, where it is given, has to name the kind that is read. -/
def readType (expected : String) (entries : List (Key × Value)) : Reading Unit :=
  Reading.field ["type"] (.ok ()) (fun value =>
    match value with
    | .text s => if s == expected then .ok () else Reading.misfit
    | _ => Reading.misfit) entries

def readGroup (entries : List (Key × Value)) (children : List Action) : Reading Action := do
  readType "group" entries
  return .group (readFrame entries) children

def readTemplate (entries : List (Key × Value)) (body : List Action) : Reading Action :=
  let parameters := Reading.field ["parameters"] (.ok []) Reading.bindings entries
  let expressions := Reading.field ["expressions"] (.ok []) Reading.bindings entries
  match parameters, expressions with
  | .ok parameters, .ok expressions => .ok (.template (readFrame entries) parameters expressions body)
  | _, _ => .error (parameters.faults ++ expressions.faults)

def readRepetition (entries : List (Key × Value)) (children : List Action) : Reading Action :=
  let type := readType "repeat" entries
  let distribution := Reading.field ["distribution"] (.ok none) (Reading.optional Reading.bindings) entries
  let parameters := Reading.field ["instance_parameters"] (.ok []) Reading.bindings entries
  match type, distribution, parameters with
  | .ok _, .ok distribution, .ok parameters =>
    .ok (.repetition (readFrame entries) (free ["count"] (.int 0) entries) distribution parameters children)
  | _, _, _ => .error (type.faults ++ distribution.faults ++ parameters.faults)

def readLoop (entries : List (Key × Value)) (body : List Action) : Reading Action :=
  let type := readType "loop" entries
  let counter := Reading.field ["var"] (.ok "i") Reading.text entries
  match type, counter with
  | .ok _, .ok counter =>
    .ok (.loop (readFrame entries) counter (free ["from", "from_"] (.int 0) entries)
      (free ["to"] (.int 0) entries) (free ["step"] (.int 1) entries) body)
  | _, _ => .error (type.faults ++ counter.faults)

def readConditional (entries : List (Key × Value)) (accepted refused : List Action) : Reading Action := do
  readType "if" entries
  return .conditional (readFrame entries) (free ["condition"] (.bool false) entries) accepted refused

def readHelper (entries : List (Key × Value)) : Reading Action :=
  let name := Reading.required "helper" Reading.text entries
  let params := Reading.field ["params"] (.ok []) Reading.bindings entries
  let store := Reading.field ["as", "store"] (.ok none) (Reading.optional Reading.text) entries
  match name, params, store with
  | .ok name, .ok params, .ok store =>
    .ok (.helper (readFrame entries) name params (free ["material"] .null entries) store)
  | _, _, _ => .error (name.faults ++ params.faults ++ store.faults)

def readReference (entries : List (Key × Value)) : Reading Action := do
  let target ← Reading.required "target" Reading.text entries
  return .reference (readFrame entries) target (free ["material"] .null entries)

def readGeometry (entries : List (Key × Value)) (shape : Value) : Reading Action := do
  let shape ← Reading.under "shape" (Reading.text shape)
  return .geometry (readFrame entries) shape (free ["dimensions"] .null entries) (free ["material"] .null entries)

end Action

end ProceduralScene
