import ProceduralScene.Build.Blueprint
import ProceduralScene.Expression.Library
import ProceduralScene.Factory.Table
import ProceduralScene.Scene.MaterialTable
import ProceduralScene.Scene.Registry

/-!
The state of a run: evaluator, factories, scene, registry, and everything that rebuilding a subtree needs. The
operations on it keep what was done before a failure.
-/

set_option autoImplicit false

namespace ProceduralScene

structure Limits where
  loop : Int
  repetition : Int
  conditionalPasses : Int
  messages : Int

def Limits.standard : Limits := ⟨1000, 10000, 10, 200⟩

structure Session where
  limits : Limits
  policy : WarningPolicy
  /-- The functions that were added to the stock ones. -/
  functions : List (String × Expression.Function)
  /-- Gives the font at a path. -/
  loadFont : String → Except Failure Value
  baseFactories : FactoryTable
  evaluator : Evaluator
  factories : FactoryTable
  scene : Scene
  registry : Registry Blueprint
  materials : MaterialTable
  /-- Results by the names under which actions stored them. -/
  stored : Bindings
  fonts : Bindings
  schema : Option Schema
  parameters : Bindings
  /-- Parameters that were changed for the template at a path only. -/
  pathOverrides : List (String × Bindings)
  globals : Context
  root : Option NodeId

abbrev SessionAction := ExceptT Failure (StateM Session)

namespace SessionAction

def lift {α : Type} (result : Except Failure α) : SessionAction α :=
  match result with
  | .ok value => pure value
  | .error failure => throw failure

/-- Runs an operation on the evaluator. -/
def onEvaluator {α : Type} (action : Evaluation α) : SessionAction α := do
  let session ← get
  let (result, evaluator) := action.run.run session.evaluator
  set { session with evaluator := evaluator }
  lift result

/-- Runs an operation on the scene. -/
def onScene {α : Type} (action : SceneAction α) : SessionAction α := do
  let session ← get
  let (result, scene) := action.run.run session.scene
  set { session with scene := scene }
  lift result

def record (code text : String) (path : Option String) : SessionAction Unit :=
  modify fun session =>
    { session with
      evaluator := { session.evaluator with log := session.evaluator.log.record code text path } }

/-- The result of an operation, or the failure that it ended with. -/
def attempt {α : Type} (action : SessionAction α) : SessionAction (Except Failure α) :=
  tryCatch (do return .ok (← action)) fun failure => return .error failure

def store : SessionAction Store := return (← get).scene.store

def evaluate (expression : Value) (ctx : Context) (path : Option String) : SessionAction Value := do
  let nodeText := (← store).describe
  onEvaluator (Evaluator.evaluate nodeText expression ctx path)

def render (label : Value) (ctx : Context) (path : Option String) : SessionAction Value := do
  let nodeText := (← store).describe
  onEvaluator (Evaluator.render nodeText label ctx path)

/-- The plain text of a value. -/
def plainText (value : Value) : SessionAction String := do
  lift (value.plainText (← store).describe)

/-- The shown text of a value. -/
def shown (value : Value) : SessionAction String := do
  lift (value.display (← store).describe)

/-- The factory that a value names. -/
def findFactory (name : Value) : SessionAction (String × Factory) := do
  let session ← get
  lift (session.factories.find session.scene.store.describe name)

def releasePath (path : String) : SessionAction Nat :=
  modifyGet fun session =>
    let (count, registry, scene) := session.registry.release path session.scene
    (count, { session with registry := registry, scene := scene })

end SessionAction

end ProceduralScene
