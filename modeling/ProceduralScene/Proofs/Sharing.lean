import ProceduralScene.Build.Parameter
import ProceduralScene.Proofs.PlainValue

/-!
Which actions hand a stored result to a group. A stored result is one node however often it is named, and the stock
factory of groups moves the nodes that it is given; everything else copies a node that stands elsewhere already.
-/

set_option autoImplicit false

namespace ProceduralScene

open SessionAction

/-- The name that a nested helper gives. -/
def nestedName (entries : List (Key × Value)) : Value :=
  if ((Value.entry? "helper" entries).getD .null).truthy then (Value.entry? "helper" entries).getD .null
  else (Value.entry? "do" entries).getD .null

/-- The parameters that a nested helper gives. -/
def nestedParams (entries : List (Key × Value)) : Value :=
  if ((Value.entry? "params" entries).getD .null).truthy then (Value.entry? "params" entries).getD .null else .map []

/-- Whether a map stands for something of its own: the result of a nested helper or a reference. -/
def standsApart (entries : List (Key × Value)) : Bool :=
  isHelperDescriptor entries || (referenceTarget? entries).isSome

namespace Value

mutual
/-- Whether one of the names is among the texts that a parameter evaluates where they stand. -/
def mentions (names : List String) : Value → Bool
  | .text s => names.contains s
  | .list items => itemsMention names items
  | .map entries => !standsApart entries && entriesMention names entries
  | _ => false

def itemsMention (names : List String) : List Value → Bool
  | [] => false
  | x :: rest => mentions names x || itemsMention names rest

def entriesMention (names : List String) : List (Key × Value) → Bool
  | [] => false
  | (key, x) :: rest => key != .text "kind" && mentions names x || entriesMention names rest
end

/-- Whether some parameters give a result stored under one of the names as `children`. -/
def handsOver (names : List String) : Value → Bool
  | .map entries => !standsApart entries && ((Value.entry? "children" entries).map (mentions names)).getD false
  | value => value.mentions names

mutual
/-- Whether no nested group in a parameter is handed a result stored under one of the names. -/
def isSparing (names : List String) : Value → Bool
  | .list items => itemsSparing names items
  | .map entries =>
    !(isHelperDescriptor entries && (nestedName entries).same (.text "group") &&
        (nestedParams entries).handsOver names) && entriesSparing names entries
  | _ => true

def itemsSparing (names : List String) : List Value → Bool
  | [] => true
  | x :: rest => isSparing names x && itemsSparing names rest

def entriesSparing (names : List String) : List (Key × Value) → Bool
  | [] => true
  | (_, x) :: rest => isSparing names x && entriesSparing names rest
end

theorem entriesSparing_iff (names : List String) (entries : List (Key × Value)) :
    entriesSparing names entries = true ↔ ∀ entry ∈ entries, entry.2.isSparing names = true := by
  induction entries with
  | nil => simp [entriesSparing]
  | cons entry rest ih => simp [entriesSparing, ih]

theorem sparing_entries {names : List String} {entries : List (Key × Value)}
    (sparing : (Value.map entries).isSparing names = true) : entriesSparing names entries = true := by
  rw [isSparing, Bool.and_eq_true] at sparing
  exact sparing.2

theorem sparing_entry {names : List String} {name : String} {entries : List (Key × Value)} {value : Value}
    (sparing : entriesSparing names entries = true) (found : Value.entry? name entries = some value) :
    value.isSparing names = true := (entriesSparing_iff names entries).mp sparing _ (lookup_mem found)

/-- A nested group keeps off the stored results. -/
theorem sparing_group {names : List String} {entries : List (Key × Value)}
    (sparing : (Value.map entries).isSparing names = true) (helper : isHelperDescriptor entries = true)
    (group : nestedName entries = .text "group") : (nestedParams entries).handsOver names = false := by
  rw [isSparing, Bool.and_eq_true, group, helper] at sparing
  have same : (Value.text "group").same (.text "group") = true := by simp [Value.same, Value.scalar?, Value.sameElement]
  simpa [same] using sparing.1

end Value

/-- Whether all values of some bindings are plain. -/
def Bindings.isPlain (bindings : Bindings) : Bool := bindings.all fun entry => entry.2.isPlain

theorem Bindings.isPlain_iff (bindings : Bindings) : bindings.isPlain = true ↔ bindings.Plain := by
  simp only [isPlain, List.all_eq_true, Plain]

namespace Action

def framePlain (frame : Frame) : Bool :=
  frame.id.isPlain && frame.position.isPlain && frame.rotation.isPlain && frame.scale.isPlain && frame.visible.isPlain

mutual
/-- The names under which an action and those inside it store results. -/
def storedNames : Action → List String
  | .group _ children => allStoredNames children
  | .template _ _ _ body => allStoredNames body
  | .repetition _ _ _ _ children => allStoredNames children
  | .loop _ _ _ _ _ body => allStoredNames body
  | .conditional _ _ accepted refused => allStoredNames accepted ++ allStoredNames refused
  | .helper _ _ _ _ store => store.toList
  | .reference _ _ _ | .geometry _ _ _ _ => []

def allStoredNames : List Action → List String
  | [] => []
  | first :: rest => storedNames first ++ allStoredNames rest
end

mutual
/-- Whether an action holds plain values, stores results under the names only, and hands none of them to a group. -/
def isTame (names : List String) : Action → Bool
  | .group frame children => framePlain frame && allTame names children
  | .template frame parameters expressions body =>
    framePlain frame && parameters.isPlain && expressions.isPlain && allTame names body
  | .repetition frame count distribution parameters children =>
    framePlain frame && count.isPlain && (distribution.all Bindings.isPlain) && parameters.isPlain &&
      allTame names children
  | .loop frame _ start stop step body =>
    framePlain frame && start.isPlain && stop.isPlain && step.isPlain && allTame names body
  | .conditional frame condition accepted refused =>
    framePlain frame && condition.isPlain && allTame names accepted && allTame names refused
  | .helper frame name params material store =>
    framePlain frame && params.isPlain && material.isPlain && params.toMap.isSparing names &&
      (name != "group" || !params.toMap.handsOver names) && store.all names.contains
  | .reference frame _ material => framePlain frame && material.isPlain
  | .geometry frame _ dimensions material => framePlain frame && dimensions.isPlain && material.isPlain

def allTame (names : List String) : List Action → Bool
  | [] => true
  | first :: rest => isTame names first && allTame names rest
end

/-- Whether the walk of an action gives one blueprint that is made from the action itself; an instance of a repetition
is made from the repetition and its number. -/
def makesOne : Action → Option Nat → Bool
  | .repetition _ _ _ _ _, index => index.isSome
  | .loop _ _ _ _ _ _, _ | .conditional _ _ _ _, _ => false
  | _, index => index.isNone

end Action

end ProceduralScene
