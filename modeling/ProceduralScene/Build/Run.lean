import ProceduralScene.Build.Place
import ProceduralScene.Build.Walk
import ProceduralScene.Schema.Load
import ProceduralScene.Schema.Normalize

/-!
Running a schema: execute builds its scene anew, parameters can be changed globally or for one template, and
regenerate rebuilds the subtree at a path and leaves the rest alone.
-/

set_option autoImplicit false

namespace ProceduralScene

namespace Session

def log (session : Session) : DiagnosticLog := session.evaluator.log

def paths (session : Session) : List String := session.registry.paths

def freshLog (limits : Limits) (policy : WarningPolicy) : DiagnosticLog :=
  DiagnosticLog.new policy limits.messages.toNat

def freshEvaluator (limits : Limits) (policy : WarningPolicy) (functions : List (String × Expression.Function)) :
    Evaluator :=
  Expression.evaluator functions [] limits.conditionalPasses.toNat (freshLog limits policy)

/-- A session that has not run anything. -/
def new (limits : Limits) (policy : WarningPolicy) (functions : List (String × Expression.Function))
    (loadFont : String → Except Failure Value) (factories : FactoryTable) (scene : Scene) : Session where
  limits := limits
  policy := policy
  functions := functions
  loadFont := loadFont
  baseFactories := factories
  evaluator := freshEvaluator limits policy functions
  factories := factories
  scene := scene
  registry := Registry.empty
  materials := []
  stored := []
  fonts := []
  schema := none
  parameters := []
  pathOverrides := []
  globals := [[]]
  root := none

/-- The session before its next run: the scene and the counts of function calls stay. -/
def renewed (session : Session) : Session :=
  let next := new session.limits session.policy session.functions session.loadFont session.baseFactories session.scene
  { next with evaluator := { next.evaluator with calls := session.evaluator.calls } }

/-- The scene without the nodes of the run before. -/
def cleared (session : Session) : Session :=
  if session.root.isSome then
    let (registry, scene) := session.registry.clear session.scene
    { session with registry := registry, scene := scene }
  else session

def setLog (log : DiagnosticLog) (session : Session) : Session :=
  { session with evaluator := { session.evaluator with log := log } }

/-- The global context of the current parameters. -/
def rebuildGlobals (session : Session) : Session :=
  let parameters := (session.schema.map (·.globalParameters)).getD []
  let constants := (session.schema.map (·.context)).getD []
  { session with globals := Context.globals parameters constants session.parameters }

/-- Changes a parameter, of the whole schema or of the template at a path only. -/
def setParameter (name : String) (value : Value) (path : Option String) (session : Session) : Session :=
  let changed := match path with
    | none => { session with parameters := session.parameters.put name value }
    | some path =>
      let overrides := ((session.pathOverrides.lookup path).getD []).put name value
      { session with pathOverrides := (path, overrides) :: session.pathOverrides.filter (·.1 != path) }
  { changed with evaluator := changed.evaluator.clearMemo }

end Session

namespace SessionAction

/-- Loads one font; a failure is recorded. -/
def preloadFont (path : String) : SessionAction Unit := do
  match (← get).loadFont path with
  | .error failure =>
    record "A01" ("font " ++ Text.quoted path ++ " failed to load: " ++ failure.message) none
  | .ok .null => record "A01" ("font " ++ Text.quoted path ++ " loaded nothing") none
  | .ok font => modify fun session => { session with fonts := session.fonts.put path font }

def createRoot (name : String) : SessionAction NodeId := do
  let root ← onScene (SceneAction.createContainer name)
  modify fun session => { session with root := some root }
  return root

/-- Takes over the declarations of a schema. -/
def adopt (schema : Schema) (parameters : Bindings) : SessionAction Unit :=
  modify fun session =>
    let (materials, store) := MaterialTable.ofSpecs schema.materials session.scene.store
    { session with
      schema := some schema, parameters := parameters, materials := materials
      scene := { session.scene with store := store } }

def normalize (schema : Schema) : SessionAction (List Action) := do
  let session ← get
  let (result, log) := (Normalize.schema session.scene.store schema).run.run session.log
  set (session.setLog log)
  lift result

/-- The name of the root of a schema. -/
def rootName (intent : Option String) : String :=
  match intent with
  | some name => if name == "" then "Generated" else name
  | none => "Generated"

/-- Takes over a schema, creates its root and walks its actions. -/
def prepare (schema : Schema) (parameters : Bindings) : SessionAction (NodeId × List Blueprint) := do
  adopt schema parameters
  schema.fonts.forM preloadFont
  modify fun session => session.setLog (FactoryTable.recordDefinitions schema.definitions session.log)
  modify Session.rebuildGlobals
  let actions ← normalize schema
  let root ← createRoot (rootName schema.intent)
  return (root, ← Walk.all actions (← get).globals "")

/-- Walks and places the actions of a schema. -/
def build (schema : Schema) (parameters : Bindings) : SessionAction NodeId := do
  let (root, blueprints) ← prepare schema parameters
  Place.placeAll root "" blueprints
  return root

/-- Runs a schema and gives its root. A schema that cannot be loaded is recorded and gives an empty root. -/
def execute (source : SchemaSource) (parameters : Bindings) : SessionAction NodeId := do
  modify fun session => session.cleared.renewed
  match source.schema with
  | .ok schema => build schema parameters
  | .error (.badSchema reason) =>
    modify fun session => session.setLog (session.log.add ⟨"error", "S01", reason, none⟩)
    createRoot "Generated"
  | .error failure => throw failure

/-- Disposes the subtree at a path and walks its action again. Gives the new blueprint, if there is one, and the node
that it belongs under. -/
def remake (path : String) (entry : Entry Blueprint) : SessionAction (Option NodeId × Option Blueprint) := do
  modify fun session => { session with evaluator := session.evaluator.clearMemo }
  let parent := (← store).parentOf entry.node
  let _ ← releasePath path
  modify Session.rebuildGlobals
  let session ← get
  let ctx := Context.stack session.globals entry.build.scope
  let rebuilt ← Walk.again entry.build.source ctx entry.parentPath entry.build.name entry.build.instanceIndex
  return (parent.or session.root, rebuilt)

/-- Disposes and rebuilds the subtree at a path. Gives the new node, if there is one. -/
def regenerate (path : String) : SessionAction (Option NodeId) := do
  match (← get).registry.get? path with
  | none => throw (.unresolved ("nothing materialized at path " ++ Text.quoted path))
  | some entry =>
    match ← remake path entry with
    | (some parent, some blueprint) => Place.place parent entry.parentPath blueprint
    | _ => return none

end SessionAction

end ProceduralScene
