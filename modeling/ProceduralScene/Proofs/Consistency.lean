import ProceduralScene.Proofs.Regeneration

/-!
The agreement of registry, tree and account over whole runs: after any calls that returned, every entry stands under
the node of its scope, nothing in the tree is disposed, and the geometries that count as live are those in the tree.
-/

set_option autoImplicit false

namespace ProceduralScene

open Store

/-- The sessions that calls which return lead to, whatever the schemas, parameters and paths. Schemas, parameters and
the values of functions and fonts are plain, and no schema hands a stored result to a group. -/
inductive Reached : Session → Prop
  | new {limits : Limits} {policy : WarningPolicy} {functions : List (String × Expression.Function)}
      {loadFont : String → Except Failure Value} {factories : FactoryTable} {scene : Scene}
      (plain : Expression.PlainFunctions functions)
      (fonts : ∀ path font, loadFont path = .ok font → font.isPlain = true) (sound : factories.Sound)
      (linked : Linked scene.store) (live : scene.live = []) :
      Reached (Session.new limits policy functions loadFont factories scene)
  | execute {s s' : Session} {source : SchemaSource} {parameters : Bindings} {root : NodeId} (reached : Reached s)
      (tame : ∀ schema, source.schema = .ok schema → schema.Tame) (plain : parameters.Plain)
      (run : (SessionAction.execute source parameters).run.run s = (.ok root, s')) : Reached s'
  | setParameter {s : Session} {value : Value} (reached : Reached s) (name : String) (plain : value.isPlain = true)
      (path : Option String) : Reached (s.setParameter name value path)
  | regenerate {s s' : Session} {path : String} {result : Option NodeId} (reached : Reached s)
      (run : (SessionAction.regenerate path).run.run s = (.ok result, s')) : Reached s'

theorem settled_reached {s : Session} (reached : Reached s) : Settled s := by
  induction reached with
  | new plain fonts sound linked live => exact Or.inl ⟨idle_new plain fonts sound linked live, rfl⟩
  | execute _ tame plain run settled =>
    obtain ⟨names, whole⟩ := yields_ok (whole_execute settled tame plain) run
    exact Or.inr ⟨names, _, whole⟩
  | setParameter _ name plain path settled => exact settled_setParameter settled name plain path
  | @regenerate s s' path result _ run settled =>
    rcases settled with ⟨idle, _⟩ | ⟨names, root, whole⟩
    · have none : s.registry.get? path = none := by
        rw [Registry.get?, idle.entries]
        rfl
      have never : Yields (SessionAction.regenerate path) s fun _ _ => False := absent_regenerate none
      exact (yields_ok never run).elim
    · have whole' := yields_ok (whole_regenerate whole path) run
      exact Or.inr ⟨names, root, whole'⟩

/-- Whether a node has a geometry of its own. -/
def Store.ownsGeometry (store : Store) (id : NodeId) : Bool :=
  store.holds (fun payload => payload.geometry?.isSome) id

section

variable {names : List String} {root : NodeId} {s : Session}

/-- The geometry of an undisposed node is live. -/
theorem pristine_live {store : Store} {x : NodeId} (pristine : store.PristineAt x) :
    store.hasLiveGeometry x = store.ownsGeometry x := by
  unfold hasLiveGeometry ownsGeometry holds
  cases found : store.get? x with
  | none => rfl
  | some node =>
    have whole := (pristine node found).2
    simp only [Option.any_some, Node.liveGeometry]
    cases shape : node.payload.geometry? with
    | none => rfl
    | some geometry => simp [whole geometry shape]

end

namespace Sample

/-- A map with texts for keys. -/
def fields (entries : List (String × Value)) : Value := .map (entries.map fun entry => (.text entry.1, entry.2))

def call (verb id : String) (more : List (String × Value)) : Value :=
  fields ([("do", .text verb), ("id", .text id)] ++ more)

def group (id : String) (children : List Value) : Value :=
  fields [("type", .text "group"), ("id", .text id), ("children", .list children)]

def document (actions : List Value) : SchemaSource := .fields [(.text "actions", .list actions)]

/-- A group of nodes that are given, by themselves or by the names of results. -/
def gather (id : String) (children : List Value) : Value := call "group" id [("params", fields [("children", .list children)])]

/-- A session with the stock factories over some nodes that no run made. -/
def session (nodes : List Node) : Session :=
  Session.new Limits.standard WarningPolicy.none [] (fun _ => .error .wrongKind) Factory.stock
    { Scene.empty with store := ⟨nodes.toArray, #[Material.fallback]⟩ }

/-- Whether an operation on a session succeeds. -/
def succeeds {α : Type} (action : SessionAction α) (s : Session) : Bool := (action.run.run s).1.toBool

/-- The session after an operation. -/
def after {α : Type} (action : SessionAction α) (s : Session) : Session := (action.run.run s).2

/-- A group of one box beside another box. -/
def actions : List Value := [group "a" [call "createBox" "b" []], call "createBox" "c" []]

end Sample

namespace Sample

/-- The node of an empty path stands between the root and an entry whose scope is the empty path. -/
def nameless : List Value := [group "" [call "createBox" "x" []]]

/-- A stored result is handed to a group. -/
def shared : List Value := [call "createBox" "b" [("as", .text "foo")], gather "g" [.text "foo"]]

/-- A node of the caller is handed to a group. -/
def given : List Value := [gather "g" [.node 0]]

def rebuilt (path : String) (s : Session) : Session := after (SessionAction.regenerate path) s

def box : Node := Node.ofPayload "box" (.drawable (some ⟨"box", [], false⟩) none)

end Sample

end ProceduralScene
