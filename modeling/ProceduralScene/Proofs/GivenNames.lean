import ProceduralScene.Build.Walk
import ProceduralScene.Proofs.Outcome
import ProceduralScene.Proofs.Sharing

/-!
A name that is given to an action is the name of its blueprint.
-/

set_option autoImplicit false

namespace ProceduralScene.Walk

open SessionAction

variable {s : Session}

theorem named_blueprint (source : Action) (ctx : Context) (path name : String) (content : BlueprintContent)
    (children : List Blueprint) : Yields (blueprint source ctx path name content children) s fun b _ => b.name = name := by
  refine yields_seq fun position first => yields_seq fun rotation second => ?_
  refine yields_seq fun scale third => yields_seq fun visible last => ?_
  exact yields_get (yields_pure rfl)

theorem named_group (source : Action) (walkChildren : Context → String → Walk (List Blueprint)) (ctx : Context)
    (path name : String) : Yields (group source walkChildren ctx path name) s fun b _ => b.name = name :=
  yields_seq fun children _ => named_blueprint source ctx path name .group children

theorem named_template (source : Action) (parameters expressions : Bindings)
    (walkBody : Context → String → Walk (List Blueprint)) (ctx : Context) (path name : String) :
    Yields (template source parameters expressions walkBody ctx path name) s fun b _ => b.name = name := by
  refine yields_seq fun overrides first => yields_seq fun store second => ?_
  refine yields_seq fun scope third => yields_seq fun children fourth => ?_
  exact yields_bind (named_blueprint source ctx path name .group children) fun b _ named => yields_pure named

theorem named_instance (source : Action) (parameters : Bindings) (walkChildren : Context → String → Walk (List Blueprint))
    (index : Nat) (position : Vec3) (ctx : Context) (path name : String) :
    Yields (instanceAt source parameters walkChildren index position ctx path name) s fun b _ => b.name = name := by
  refine yields_seq fun scope first => yields_seq fun offset second => ?_
  refine yields_seq fun place third => yields_seq fun children fourth => ?_
  exact yields_bind (named_blueprint source ctx path name .group children) fun b _ named => yields_pure named

theorem named_reference (source : Action) (target : String) (material : Value) (ctx : Context) (path name : String) :
    Yields (reference source target material ctx path name) s fun b _ => b.name = name := by
  refine yields_seq fun text first => yields_seq fun target second => ?_
  exact yields_bind (named_blueprint source ctx path name (.reference target) []) fun b _ named => yields_pure named

/-- What holds of the value of a walk whenever it succeeds. -/
def WalkYields {α : Type} (walk : Walk α) (post : α → Prop) : Prop :=
  ∀ siblings s, Yields (walk siblings) s fun result _ => post result.1

section

variable {α β : Type}

theorem walkYields_pure {value : α} {post : α → Prop} (holds : post value) : WalkYields (pure value) post :=
  fun _ _ => yields_pure holds

theorem walkYields_seq {walk : Walk α} {next : α → Walk β} {post : β → Prop} (rest : ∀ value, WalkYields (next value) post) :
    WalkYields (walk >>= next) post := fun _ _ => yields_seq fun result after => rest result.1 result.2 after

theorem walkYields_pure_bind {value : α} {next : α → Walk β} {post : β → Prop} (rest : WalkYields (next value) post) :
    WalkYields (pure value >>= next) post := fun siblings s => yields_pure_bind (rest siblings s)

theorem walkYields_lift_bind {action : SessionAction α} {next : α → Walk β} {middle : α → Prop} {post : β → Prop}
    (first : ∀ s, Yields action s fun value _ => middle value) (rest : ∀ value, middle value → WalkYields (next value) post) :
    WalkYields (liftM action >>= next) post := by
  intro siblings s
  have lifted : Yields ((liftM action : Walk α) siblings) s fun result _ => middle result.1 :=
    yields_bind (first s) fun _ _ holds => yields_pure holds
  exact yields_bind lifted fun result after holds => rest result.1 holds result.2 after

theorem walkYields_lift {action : SessionAction α} {post : α → Prop} (body : ∀ s, Yields action s fun value _ => post value) :
    WalkYields (liftM action) post :=
  fun _ s => yields_bind (body s) fun _ _ holds => yields_pure holds

end

/-- All blueprints of the list have a name. -/
def AllNamed (name : String) (list : List Blueprint) : Prop := ∀ b ∈ list, b.name = name

theorem named_nil (name : String) : AllNamed name [] := fun _ member => nomatch member

theorem named_single {name : String} {b : Blueprint} (named : b.name = name) : AllNamed name [b] := fun _ member =>
  List.mem_singleton.mp member ▸ named

theorem namedOr_given {name : String} (given : name ≠ "") (label : Value) (fallback : String) (ctx : Context) :
    namedOr (some name) label fallback ctx = pure name := by
  simp [namedOr, given]

theorem named_leaf (source : Action) (ctx : Context) (scope name : String) (content : BlueprintContent) (material : Value) :
    WalkYields (liftM (leaf source ctx scope name content material)) (AllNamed name) :=
  walkYields_lift fun _ => yields_bind (named_blueprint source ctx _ name content []) fun _ _ named =>
    yields_pure (named_single named)

theorem named_call (source : Action) (verb : String) (params : Bindings) (material : Value) (storeAs : Option String)
    (ctx : Context) (scope name place : String) :
    WalkYields (call source verb params material storeAs ctx scope (some name) place) (AllNamed name) := by
  unfold call
  refine walkYields_seq fun found => ?_
  split
  · exact walkYields_pure (named_nil name)
  · refine walkYields_seq fun value => walkYields_seq fun label => walkYields_pure_bind ?_
    split
    · exact named_leaf source ctx scope name _ material
    · refine walkYields_seq fun result => ?_
      split
      · exact walkYields_pure (named_nil name)
      · exact walkYields_seq fun _ => named_leaf source ctx scope name _ material

theorem named_helper (source : Action) (verb : String) (params : Bindings) (material : Value) (storeAs : Option String)
    (ctx : Context) (scope name : String) :
    WalkYields (Walk.helper source verb params material storeAs ctx scope (some name)) (AllNamed name) := by
  have named := named_call source verb params material storeAs ctx scope name
  unfold Walk.helper
  dsimp only
  split
  · exact walkYields_seq fun text => named _
  · exact walkYields_pure_bind (named _)

theorem named_geometry (source : Action) (shape : String) (dimensions material : Value) (ctx : Context)
    (scope name : String) :
    WalkYields (geometry source shape dimensions material ctx scope (some name)) (AllNamed name) := by
  unfold geometry
  dsimp only
  refine walkYields_pure_bind (walkYields_seq fun found => ?_)
  split
  · exact walkYields_pure (named_nil name)
  · refine walkYields_seq fun dims => walkYields_seq fun result => ?_
    split
    · exact walkYields_pure (named_nil name)
    · exact named_leaf source ctx scope name _ material

/-- A name that is given is used as it is. -/
theorem named_action {act : Action} (one : act.makesOne none = true) (ctx : Context) (scope : String) {name : String}
    (given : name ≠ "") : WalkYields (action ctx scope (some name) act) (AllNamed name) := by
  have single : ∀ {build : SessionAction Blueprint}, (∀ s, Yields build s fun b _ => b.name = name) →
      WalkYields (do return [← build]) (AllNamed name) := fun named =>
    walkYields_lift_bind named fun b named => walkYields_pure (named_single named)
  cases act with
  | group frame children =>
    rw [action, namedOr_given given]
    exact walkYields_pure_bind (single fun _ => named_group _ _ _ _ name)
  | template frame parameters expressions body =>
    rw [action, namedOr_given given]
    exact walkYields_pure_bind (single fun _ => named_template _ _ _ _ _ _ name)
  | helper frame verb params material store =>
    rw [action]
    exact named_helper _ verb params material store ctx scope name
  | reference frame target material =>
    rw [action, namedOr_given given]
    exact walkYields_pure_bind (single fun _ => named_reference _ target material _ _ name)
  | geometry frame shape dimensions material =>
    rw [action]
    exact named_geometry _ shape dimensions material ctx scope name
  | repetition frame count distribution parameters children => cases one
  | loop frame counter start stop step body => cases one
  | conditional frame condition accepted refused => cases one

theorem named_again {source : Action} {index : Option Nat} (one : source.makesOne index = true) (ctx : Context)
    (scope : String) {name : String} (given : name ≠ "") :
    Yields (again source ctx scope name index) s fun result _ => ∀ b, result = some b → b.name = name := by
  unfold again
  split
  · refine yields_seq fun found first => ?_
    split
    · exact yields_pure (fun _ same => by cases same)
    · split
      · exact yields_pure (fun _ same => by cases same)
      · refine yields_seq fun positions second => ?_
        refine yields_bind (named_instance _ _ _ _ _ _ _ name) fun b _ named => yields_pure fun found same => ?_
        exact Option.some.inj same ▸ named
  · rename_i other
    have one : source.makesOne none = true := by
      cases source with
      | repetition frame count distribution parameters children =>
        cases index with
        | none => cases one
        | some number => exact absurd rfl (other frame count distribution parameters children number rfl)
      | loop frame counter start stop step body => cases one
      | conditional frame condition accepted refused => cases one
      | _ => rfl
    have body : Yields (inside (action ctx scope (some name) source)) s fun list _ => AllNamed name list :=
      ends_map (named_action one ctx scope given [] s)
    exact yields_bind body fun list _ all => yields_pure fun b found => all b (List.mem_of_head? found)

end ProceduralScene.Walk
