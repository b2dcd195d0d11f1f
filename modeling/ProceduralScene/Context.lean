import ProceduralScene.Value.Basic

/-!
Layered symbol tables. A context is a stack of layers, innermost first; a name means its binding in the innermost
layer that has it, and a write touches only the innermost layer.
-/

set_option autoImplicit false

namespace ProceduralScene

/-- The layers of a symbol table, innermost first. -/
abbrev Context := List Bindings

namespace Context

def ofBindings (bindings : Bindings) : Context := [bindings]

def get? (name : String) : Context → Option Value
  | [] => none
  | layer :: outer => layer.get? name <|> get? name outer

def has (name : String) (ctx : Context) : Bool :=
  ctx.any (·.has name)

/-- One table with the inner bindings written over the outer ones. -/
def flatten : Context → Bindings
  | [] => []
  | layer :: outer => Bindings.overlay (flatten outer) layer

/-- A new layer over the context. -/
def child (bindings : Bindings) (ctx : Context) : Context :=
  Bindings.overlay [] bindings :: ctx

def set (name : String) (value : Value) : Context → Context
  | [] => [[(name, value)]]
  | layer :: outer => layer.put name value :: outer

/-- One detached layer with the current bindings. -/
def freeze (ctx : Context) : Context := [ctx.flatten]

/-- The layers stacked on `root`, outermost first. -/
def layersAbove (ctx root : Context) : List Bindings :=
  (ctx.take (ctx.length - root.length)).reverse

/-- The layers laid over `root` again, outermost first. -/
def stack (root : Context) (layers : List Bindings) : Context :=
  layers.foldl (fun ctx layer => ctx.child layer) root

end Context

/-- The literal default of a parameter specification. -/
def parameterDefault : Value → Value
  | .map entries => (Value.entry? "value" entries).getD .null
  | spec => spec

namespace Context

def bindMissing (bindings : Bindings) (entry : String × Value) : Bindings :=
  if bindings.has entry.1 then bindings else bindings ++ [entry]

/-- A declared parameter with the caller's value, or else with its default. -/
def bindDeclared (overrides bindings : Bindings) (entry : String × Value) : Bindings :=
  match overrides.get? entry.1 with
  | none | some .null => bindings.put entry.1 (parameterDefault entry.2)
  | some value => bindings.put entry.1 value

/-- Global parameters with the caller's values, then the other values of the caller, then the constants of the
schema. A constant never replaces a parameter of the same name. -/
def globals (parameters constants overrides : Bindings) : Context :=
  let declared := parameters.foldl (bindDeclared overrides) []
  [constants.foldl bindMissing (overrides.foldl bindMissing declared)]

end Context

/-- Contexts that share layers: each has a layer of its own and may stand on another one, so that a write to a
context is seen by those that stand on it. -/
structure ContextForest where
  cells : Array (Bindings × Option Nat)

namespace ContextForest

def empty : ContextForest := ⟨#[]⟩

def bindingsOf (forest : ContextForest) (id : Nat) : Bindings :=
  ((forest.cells[id]?).map (·.1)).getD []

def parentOf (forest : ContextForest) (id : Nat) : Option Nat :=
  (forest.cells[id]?).bind (·.2)

/-- The contexts from `id` down to the one that stands on none. -/
def chainFrom (forest : ContextForest) : Nat → Nat → List Nat
  | 0, id => [id]
  | fuel + 1, id =>
    match forest.parentOf id with
    | none => [id]
    | some parent => id :: chainFrom forest fuel parent

def chain (forest : ContextForest) (id : Nat) : List Nat :=
  forest.chainFrom forest.cells.size id

/-- What a context shows. -/
def view (forest : ContextForest) (id : Nat) : Context :=
  (forest.chain id).map forest.bindingsOf

def create (bindings : Bindings) (parent : Option Nat) (forest : ContextForest) : Nat × ContextForest :=
  (forest.cells.size, ⟨forest.cells.push (Bindings.overlay [] bindings, parent)⟩)

def update (id : Nat) (change : Bindings → Bindings) (forest : ContextForest) : ContextForest :=
  ⟨forest.cells.modify id fun cell => (change cell.1, cell.2)⟩

def set (id : Nat) (name : String) (value : Value) (forest : ContextForest) : ContextForest :=
  forest.update id (·.put name value)

/-- What a block that shadows a name has to put back when it is left. -/
structure Shadow where
  name : String
  previous : Option Value

/-- Enters a block in which `name` is bound to `value`. -/
def bind (id : Nat) (name : String) (value : Value) (forest : ContextForest) : Shadow × ContextForest :=
  (⟨name, (forest.bindingsOf id).get? name⟩, forest.set id name value)

/-- Leaves a block: the binding, or its absence, is as it was on entry. -/
def restore (id : Nat) (shadow : Shadow) (forest : ContextForest) : ContextForest :=
  match shadow.previous with
  | some value => forest.set id shadow.name value
  | none => forest.update id (·.erase shadow.name)

/-- The layers of a context above `root`, outermost first; all of them when it does not stand on `root`. -/
def layersAbove (forest : ContextForest) (id root : Nat) : List Bindings :=
  (((forest.chain id).takeWhile (· != root)).map forest.bindingsOf).reverse

end ContextForest

end ProceduralScene
