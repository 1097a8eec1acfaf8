import BehaviorTree.Definition
import BehaviorTree.Node.Editing
import BehaviorTree.Registry

/-! From definitions to nodes. A registered type is built by the registry; any other type is a
reference to a tree of the source, which is loaded in place and then takes the reference's label,
cooldown and gate. A tree that is being loaded cannot be referred to again, so loading ends. -/

set_option autoImplicit false

namespace BehaviorTree

inductive LoadError where
  | missingTree (name : String)
  | missingNode (type : String)
  | missingGate (name : String)
  | rejectedArgument (name : String) (argument : Option String)
  | emptyComposite (node : String)
  | selfReference (tree : String)
  | rejectedChild (error : EditError) (type : String)
  deriving Repr, DecidableEq

def displayArgument : Option String → String
  | none => "None"
  | some text => "Some(" ++ Text.quoted text ++ ")"

def LoadError.message : LoadError → String
  | .missingTree name => "tree " ++ Text.quoted name ++ " does not exist"
  | .missingNode type => "node type or subtree name not found " ++ Text.quoted type
  | .missingGate name => "precondition type not found " ++ Text.quoted name
  | .rejectedArgument name argument =>
    "precondition " ++ Text.quoted name ++ " rejected its argument " ++ displayArgument argument
  | .emptyComposite node => "composite " ++ Text.quoted node ++ " has no children"
  | .selfReference tree => "subtree " ++ Text.quoted tree ++ " refers to itself"
  | .rejectedChild error type => error.message ++ " while loading " ++ type

def Loading (W α : Type) : Type := W → Except LoadError α × W

namespace Loading

variable {W α β : Type}

protected def pure (value : α) : Loading W α := fun world => (.ok value, world)

protected def bind (first : Loading W α) (next : α → Loading W β) : Loading W β := fun world =>
  match first world with
  | (.ok value, world) => next value world
  | (.error error, world) => (.error error, world)

instance : Monad (Loading W) where
  pure := Loading.pure
  bind := Loading.bind

def fail (error : LoadError) : Loading W α := fun world => (.error error, world)

def lift (run : W → α × W) : Loading W α := fun world =>
  let (value, world) := run world
  (.ok value, world)

@[simp] theorem pure_apply (value : α) (world : W) :
    (pure value : Loading W α) world = (.ok value, world) := rfl

theorem bind_apply (first : Loading W α) (next : α → Loading W β) (world : W) :
    (first >>= next) world =
      match first world with
      | (.ok value, world) => next value world
      | (.error error, world) => (.error error, world) := rfl

end Loading

variable {W A P : Type}

def Condition.load (registry : Registry W A P) : Condition → Loading W (Gate P)
  | .atom name argument =>
    match registry.gate? name with
    | none => Loading.fail (.missingGate name)
    | some construct => do
      match ← Loading.lift (construct argument) with
      | some gate => pure gate
      | none => Loading.fail (.rejectedArgument name argument)
  | .not operand => do
    let operand ← operand.load registry
    pure (.not operand)
  | .and left right => do
    let left ← left.load registry
    let right ← right.load registry
    pure (.and left right)
  | .or left right => do
    let left ← left.load registry
    let right ← right.load registry
    pure (.or left right)

namespace Definition

/-- What a definition says about a node that is already built. A node that carries a gate has to
pass it before the definition's own. -/
def dress (label : Option String) (cooldown : Option Float) (gate : Option (Gate P)) (node : Node A P) :
    Node A P :=
  let node := (label.map node.withName).getD node
  let node := (cooldown.map node.withCooldown).getD node
  node.withGate (Gate.both node.state.gate gate)

def loadGate (registry : Registry W A P) : Option Condition → Loading W (Option (Gate P))
  | none => pure none
  | some condition => do
    let gate ← condition.load registry
    pure (some gate)

def adopt [Host W] (type : String) (parent child : Node A P) : Loading W (Node A P) := fun world =>
  match parent.addChild child world with
  | (.ok parent, world) => (.ok parent, world)
  | (.error error, world) => (.error (.rejectedChild error type), world)

def checkChildren (node : Node A P) : Loading W (Node A P) :=
  if node.children.length < node.minChildren then Loading.fail (.emptyComposite node.name)
  else pure node

end Definition

inductive Target (W A : Type) where
  | kind (construct : W → Kind A × W)
  | tree (tree : TreeDefinition)

namespace Source

/-- A registered type is a kind even if a tree has its name. A reference to a tree is a complete
node, so it can have no children of its own. -/
def target (source : Source) (registry : Registry W A P) (loading : List String) (type : String)
    (childless : Bool) : Except LoadError (Target W A) :=
  match registry.kind? type, source.find? type with
  | some construct, _ => .ok (.kind construct)
  | none, none => .error (.missingNode type)
  | none, some tree =>
    if loading.contains type then .error (.selfReference type)
    else if childless then .ok (.tree tree)
    else .error (.rejectedChild (.addToFull type) type)

def remaining (source : Source) (loading : List String) : Nat :=
  (source.trees.filter fun tree => !loading.contains tree.name).length

theorem remaining_lt {source : Source} {loading : List String} {name : String} {tree : TreeDefinition}
    (found : source.find? name = some tree) (free : loading.contains name = false) :
    source.remaining (name :: loading) < source.remaining loading := by
  have member : tree ∈ source.trees := List.mem_of_find?_eq_some found
  have same : tree.name = name := by simpa using List.find?_some found
  have split : source.trees.filter (fun other => !(name :: loading).contains other.name) =
      (source.trees.filter fun other => !loading.contains other.name).filter
        fun other => !(other.name == name) := by
    rw [List.filter_filter]
    apply List.filter_congr
    intro other _
    rw [List.contains_cons, Bool.not_or]
  rw [remaining, remaining, split, List.length_filter_lt_length_iff_exists]
  exact ⟨tree, List.mem_filter.mpr ⟨member, by rw [same, free]; rfl⟩, by simp [same]⟩

theorem remaining_lt_of_target {source : Source} {registry : Registry W A P} {loading : List String}
    {type : String} {childless : Bool} {tree : TreeDefinition}
    (found : source.target registry loading type childless = .ok (.tree tree)) :
    source.remaining (type :: loading) < source.remaining loading := by
  unfold target at found
  split at found
  · cases found
  · cases found
  · next reference =>
    split at found
    · cases found
    · next free => exact remaining_lt reference (by simpa using free)

mutual

/-- The node of one definition, while the named trees are being loaded. -/
def loadNode [Host W] (source : Source) (registry : Registry W A P) (loading : List String) :
    Definition → Loading W (Node A P)
  | ⟨type, label, when, cooldown, children⟩ => do
    let node ← (
      match found : source.target registry loading type children.isEmpty with
      | .error error => Loading.fail error
      | .ok (.kind construct) => do
        let kind ← Loading.lift construct
        pure (Node.fresh type kind)
      | .ok (.tree tree) => do
        have := remaining_lt_of_target found
        let node ← source.loadNode registry (type :: loading) tree.root
        pure (node.withName type))
    let gate ← Definition.loadGate registry when
    let node ← source.loadChildren registry loading type (Definition.dress label cooldown gate node) children
    Definition.checkChildren node
termination_by definition => (source.remaining loading, sizeOf definition)
decreasing_by
  · exact Prod.Lex.left _ _ this
  · apply Prod.Lex.right
    simp only [Definition.mk.sizeOf_spec]
    omega

/-- Loads children one after another and adds each to the node before the next is loaded. -/
def loadChildren [Host W] (source : Source) (registry : Registry W A P) (loading : List String)
    (type : String) (node : Node A P) : List Definition → Loading W (Node A P)
  | [] => pure node
  | child :: rest => do
    let child ← source.loadNode registry loading child
    let node ← Definition.adopt type node child
    source.loadChildren registry loading type node rest
termination_by definitions => (source.remaining loading, sizeOf definitions)
decreasing_by
  all_goals
    apply Prod.Lex.right
    simp only [List.cons.sizeOf_spec]
    omega

end

def load [Host W] (source : Source) (registry : Registry W A P) (name : String) : Loading W (Node A P) :=
  match source.find? name with
  | none => Loading.fail (.missingTree name)
  | some tree => source.loadNode registry [tree.name] tree.root

end Source

end BehaviorTree
