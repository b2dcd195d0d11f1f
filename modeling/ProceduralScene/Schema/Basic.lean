import ProceduralScene.Schema.Reading

/-!
A schema document: parameters and constants, materials, definitions, fonts, and the actions that build a scene,
either as one list or as the steps of procedures. Actions stay raw values here.
-/

set_option autoImplicit false

namespace ProceduralScene

structure MaterialSpec where
  color : String
  roughness : Float
  metalness : Float
  transparent : Bool
  opacity : Float

structure Procedure where
  name : Option String
  steps : List Value

structure Schema where
  version : Float
  intent : Option String
  materials : List (String × MaterialSpec)
  globalParameters : Bindings
  context : Bindings
  definitions : Bindings
  fonts : List String
  actions : Option (List Value)
  template : Option (List Value)
  procedures : List Procedure

/-- The two generations of documents: one list of actions, or procedures with steps. -/
inductive Dialect where
  | actions
  | procedures
  deriving DecidableEq, Repr

namespace MaterialSpec

/-- An integer color as at least six hexadecimal digits. -/
def colorDigits (n : Int) : String :=
  let digits := Nat.toDigits 16 n.natAbs
  let width := if n < 0 then 5 else 6
  (if n < 0 then "-" else "") ++ String.ofList (List.replicate (width - digits.length) '0' ++ digits)

def readColor : Value → Reading String
  | .int n => .ok ("#" ++ colorDigits n)
  | value => Reading.text value

def read : Value → Reading MaterialSpec
  | .map entries =>
    let color := Reading.field ["color"] (.ok "#cccccc") readColor entries
    let roughness := Reading.field ["roughness"] (.ok 0.5) Reading.float entries
    let metalness := Reading.field ["metalness"] (.ok 0.0) Reading.float entries
    let transparent := Reading.field ["transparent"] (.ok false) Reading.bool entries
    let opacity := Reading.field ["opacity"] (.ok 1.0) Reading.float entries
    match color, roughness, metalness, transparent, opacity with
    | .ok color, .ok roughness, .ok metalness, .ok transparent, .ok opacity =>
      .ok ⟨color, roughness, metalness, transparent, opacity⟩
    | _, _, _, _, _ =>
      .error (color.faults ++ roughness.faults ++ metalness.faults ++ transparent.faults ++ opacity.faults)
  | _ => Reading.misfit

end MaterialSpec

namespace Procedure

def readStep (step : Value) : Reading Value := do
  return Bindings.toMap (← Reading.bindings step)

def read : Value → Reading Procedure
  | .map entries =>
    let name := Reading.field ["name"] (.ok none) (Reading.optional Reading.text) entries
    let steps := Reading.field ["steps"] (.ok [])
      (fun value => do Reading.byPosition readStep (← Reading.list value)) entries
    match name, steps with
    | .ok name, .ok steps => .ok ⟨name, steps⟩
    | _, _ => .error (name.faults ++ steps.faults)
  | _ => Reading.misfit

end Procedure

namespace Schema

/-- The leading two parts of a version text, after any `v`. -/
def versionHead (s : String) : String :=
  let number := s.toList.dropWhile fun c => c == 'v' || c == 'V'
  ".".intercalate (((String.ofList number).splitOn ".").take 2)

def readVersion : Value → Reading Float
  | .null => .ok 4.0
  | .text s =>
    match Value.parseFloat? (versionHead s) with
    | some x => .ok x
    | none => Reading.misfit
  | value => Reading.float value

/-- Fonts as a list, or as the values of a map. -/
def readFonts : Value → Reading (List String)
  | .null => .ok []
  | .map entries => Reading.byPosition Reading.text (entries.map (·.2))
  | value => do Reading.byPosition Reading.text (← Reading.list value)

def readProcedures (value : Value) : Reading (List Procedure) :=
  match value with
  | .null => .ok []
  | _ => do Reading.byPosition Procedure.read (← Reading.list value)

/-- Reads a document. One that has no actions, no template and no procedure is refused as a whole. -/
def read (entries : List (Key × Value)) : Reading Schema :=
  let version := Reading.field ["version"] (.ok 4.0) readVersion entries
  let intent := Reading.field ["intent"] (.ok none) (Reading.optional Reading.text) entries
  let materials := Reading.field ["materials"] (.ok []) (Reading.mapOf MaterialSpec.read) entries
  let parameters := Reading.field ["globalParameters", "global_parameters"] (.ok []) Reading.bindings entries
  let context := Reading.field ["context"] (.ok []) Reading.bindings entries
  let definitions := Reading.field ["definitions"] (.ok []) Reading.bindings entries
  let fonts := Reading.field ["fonts"] (.ok []) readFonts entries
  let actions := Reading.field ["actions"] (.ok none) (Reading.optional Reading.list) entries
  let template := Reading.field ["template"] (.ok none) (Reading.optional Reading.list) entries
  let procedures := Reading.field ["procedures"] (.ok []) readProcedures entries
  match version, intent, materials, parameters, context with
  | .ok version, .ok intent, .ok materials, .ok parameters, .ok context =>
    match definitions, fonts, actions, template, procedures with
    | .ok definitions, .ok fonts, .ok actions, .ok template, .ok procedures =>
      if actions.isNone && template.isNone && procedures.isEmpty then Reading.misfit
      else .ok ⟨version, intent, materials, parameters, context, definitions, fonts, actions, template, procedures⟩
    | _, _, _, _, _ =>
      .error (definitions.faults ++ fonts.faults ++ actions.faults ++ template.faults ++ procedures.faults)
  | _, _, _, _, _ =>
    .error (version.faults ++ intent.faults ++ materials.faults ++ parameters.faults ++ context.faults ++
      definitions.faults ++ fonts.faults ++ actions.faults ++ template.faults ++ procedures.faults)

/-- The dialect of a document: the current one from version four on, unless only the other one has a body. -/
def dialect (schema : Schema) : Dialect :=
  let modern := schema.actions.isSome || schema.template.isSome
  if 4.0 ≤ schema.version then
    if modern || schema.procedures.isEmpty then .actions else .procedures
  else if !schema.procedures.isEmpty || !modern then .procedures
  else .actions

end Schema

end ProceduralScene
