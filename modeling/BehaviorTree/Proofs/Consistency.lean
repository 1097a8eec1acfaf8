import BehaviorTree.Proofs.Plan
import Mathlib.Data.List.Nodup

/-! Loading with constructors that answer the same on every call. It ends alike in every environment: with one
node, up to what the constructors may vary, or with one error. What is loaded depends on a source only by what the
names in it refer to, so the order of its trees does not matter as long as their names are distinct. -/

set_option autoImplicit false

namespace BehaviorTree

variable {W A B P Q : Type}

namespace Loading

variable {α β γ δ : Type} {view : α → γ} {shown : β → δ}

/-- Two computations end alike, each in any environment: with values that look the same, or with one error. -/
def Alike (view : α → γ) (first second : Loading W α) : Prop :=
  ∀ one other, (first one).1.map view = (second other).1.map view

theorem alike_pure {value same : α} (equal : view value = view same) :
    Alike view (pure value : Loading W α) (pure same) := fun _ _ => congrArg Except.ok equal

theorem alike_fail (error : LoadError) : Alike view (fail error : Loading W α) (fail error) := fun _ _ => rfl

theorem alike_lift {run again : W → α × W} (equal : ∀ one other, view (run one).1 = view (again other).1) :
    Alike view (lift run) (lift again) := fun one other => congrArg Except.ok (equal one other)

theorem Alike.bind {first second : Loading W α} {next more : α → Loading W β} (begun : Alike view first second)
    (goes : ∀ value same, view value = view same → Alike shown (next value) (more same)) :
    Alike shown (first >>= next) (second >>= more) := by
  intro one other
  have ends := begun one other
  rw [bind_apply, bind_apply]
  rcases ran : first one with ⟨error | value, during⟩ <;> rcases again : second other with ⟨failed | same, later⟩ <;>
    rw [ran, again] at ends
  · cases ends
    rfl
  · cases ends
  · cases ends
  · exact goes value same (Except.ok.inj ends) during later

theorem Alike.of_ok {run : Loading W α} (alike : Alike view run run) {world after : W} {value : α}
    (ended : run world = (.ok value, after)) (other : W) :
    ∃ same later, run other = (.ok same, later) ∧ view same = view value := by
  have ends := alike other world
  rw [ended] at ends
  rcases ran : run other with ⟨error | same, later⟩ <;> rw [ran] at ends
  · cases ends
  · exact ⟨same, later, rfl, Except.ok.inj ends⟩

end Loading

section Alike

open Loading

variable {registry : Registry W A P} {action : A → B} {probe : P → Q}

theorem Condition.load_alike (consistent : registry.Consistent action probe) (condition : Condition) :
    Alike (Gate.map probe) (condition.load registry) (condition.load registry) := by
  induction condition with
  | atom name argument =>
    unfold Condition.load
    cases known : registry.gate? name with
    | none => exact alike_fail _
    | some construct =>
      refine (alike_lift (consistent.gates name construct known argument)).bind fun gate same equal => ?_
      rcases gate with _ | gate <;> rcases same with _ | same
      · exact alike_fail _
      · cases equal
      · cases equal
      · exact alike_pure (Option.some.inj equal)
  | not operand ih => exact ih.bind fun gate same equal => alike_pure (congrArg Gate.not equal)
  | and left right ihl ihr =>
    exact ihl.bind fun one same first => ihr.bind fun other again second => alike_pure (congrArg₂ Gate.and first second)
  | or left right ihl ihr =>
    exact ihl.bind fun one same first => ihr.bind fun other again second => alike_pure (congrArg₂ Gate.or first second)

theorem Definition.loadGate_alike (consistent : registry.Consistent action probe) (condition : Option Condition) :
    Alike (Option.map (Gate.map probe)) (loadGate registry condition) (loadGate registry condition) := by
  cases condition with
  | none => exact alike_pure rfl
  | some condition => exact (condition.load_alike consistent).bind fun gate same equal => alike_pure (congrArg some equal)

variable [Host W] {parent twin child second : Node A P}

theorem Node.addChild_alike (parents : parent.exchange action probe = twin.exchange action probe)
    (children : child.exchange action probe = second.exchange action probe) (one other : W) :
    (parent.addChild child one).1.map (Node.exchange action probe) =
      (twin.addChild second other).1.map (Node.exchange action probe) := by
  have lengths := congrArg (fun node => node.children.length) parents
  have limits := congrArg Node.maxChildren parents
  have names := congrArg Node.name parents
  simp only [length_children_exchange, maxChildren_exchange, name_exchange] at lengths limits names
  unfold Node.addChild
  rw [lengths, limits, names]
  split
  · obtain ⟨state, nodes⟩ := parent
    obtain ⟨held, others⟩ := twin
    rw [exchange_mk, exchange_mk] at parents
    obtain ⟨states, below⟩ := Node.mk.inj parents
    simp [Except.map, states, below, children]
  · split <;> rfl

theorem Definition.adopt_alike (type : String) (parents : parent.exchange action probe = twin.exchange action probe)
    (children : child.exchange action probe = second.exchange action probe) :
    Alike (Node.exchange action probe) (adopt type parent child : Loading W (Node A P)) (adopt type twin second) := by
  intro one other
  have ends := Node.addChild_alike parents children one other
  unfold Definition.adopt
  rcases added : parent.addChild child one with ⟨error | grown, after⟩ <;>
    rcases again : twin.addChild second other with ⟨failed | same, later⟩ <;> rw [added, again] at ends
  · cases ends
    rfl
  · cases ends
  · cases ends
  · exact congrArg Except.ok (Except.ok.inj ends)

omit [Host W] in
theorem Definition.checkChildren_alike (parents : parent.exchange action probe = twin.exchange action probe) :
    Alike (Node.exchange action probe) (checkChildren parent : Loading W (Node A P)) (checkChildren twin) := by
  have lengths := congrArg (fun node => node.children.length) parents
  have limits := congrArg Node.minChildren parents
  have names := congrArg Node.name parents
  simp only [Node.length_children_exchange, Node.minChildren_exchange, Node.name_exchange] at lengths limits names
  unfold Definition.checkChildren
  rw [lengths, limits, names]
  split
  · exact alike_fail _
  · exact alike_pure parents

end Alike

namespace Source

open Loading

variable [Host W] {source : Source} {registry : Registry W A P} {action : A → B} {probe : P → Q}
variable {loading : List String}

theorem loadChildren_alike {children : List Definition}
    (each : ∀ child ∈ children, Alike (Node.exchange action probe) (source.loadNode registry loading child)
      (source.loadNode registry loading child)) (type : String) {parent twin : Node A P}
    (parents : parent.exchange action probe = twin.exchange action probe) :
    Alike (Node.exchange action probe) (source.loadChildren registry loading type parent children)
      (source.loadChildren registry loading type twin children) := by
  induction children generalizing parent twin with
  | nil =>
    rw [loadChildren, loadChildren]
    exact alike_pure parents
  | cons child rest ih =>
    rw [loadChildren, loadChildren]
    refine (each child List.mem_cons_self).bind fun first second children => ?_
    refine (Definition.adopt_alike type parents children).bind fun grown same equal => ?_
    exact ih (fun other member => each other (List.mem_cons_of_mem _ member)) equal

theorem complete_alike (consistent : registry.Consistent action probe) {definition : Definition}
    (each : ∀ child ∈ definition.children, Alike (Node.exchange action probe)
      (source.loadNode registry loading child) (source.loadNode registry loading child)) {node twin : Node A P}
    (nodes : node.exchange action probe = twin.exchange action probe) :
    Alike (Node.exchange action probe) (source.complete registry loading definition node)
      (source.complete registry loading definition twin) := by
  refine (Definition.loadGate_alike consistent definition.when).bind fun gate same gates => ?_
  have dressed : (Definition.dress definition.label definition.cooldown gate node).exchange action probe =
      (Definition.dress definition.label definition.cooldown same twin).exchange action probe := by
    rw [Definition.exchange_dress, Definition.exchange_dress, nodes, gates]
  exact (loadChildren_alike each definition.type dressed).bind fun parent other parents =>
    Definition.checkChildren_alike parents

theorem loadNode_alike (consistent : registry.Consistent action probe) (loading : List String)
    (definition : Definition) : Alike (Node.exchange action probe) (source.loadNode registry loading definition)
      (source.loadNode registry loading definition) := by
  induction loading, definition using load_induction source registry with
  | step loading definition below referred =>
    rw [loadNode_eq]
    refine Alike.bind ?_ fun node twin nodes => complete_alike consistent below nodes
    rcases target : source.target registry loading definition.type definition.children.isEmpty with
      error | construct | tree
    · exact alike_fail error
    · have kinds := consistent.kinds _ construct (target_eq_kind.mp target)
      refine (alike_lift kinds).bind fun kind same equal => alike_pure ?_
      rw [Node.exchange_fresh, Node.exchange_fresh, equal]
    · refine (referred tree target).bind fun node twin nodes => alike_pure ?_
      rw [Node.exchange_withName, Node.exchange_withName, nodes]

/-- Loading a tree ends with one node or one error, whatever the environment. -/
theorem load_alike (consistent : registry.Consistent action probe) (source : Source) (name : String) :
    Alike (Node.exchange action probe) (source.load registry name) (source.load registry name) := by
  unfold load
  cases source.find? name with
  | none => exact alike_fail _
  | some tree => exact loadNode_alike consistent [tree.name] tree.root

/-! What a source has under each name is all that loading asks of it. -/

theorem loadChildren_congr {other : Source} {children : List Definition}
    (each : ∀ child ∈ children, source.loadNode registry loading child = other.loadNode registry loading child)
    (type : String) (node : Node A P) :
    source.loadChildren registry loading type node children = other.loadChildren registry loading type node children := by
  induction children generalizing node with
  | nil => rw [loadChildren, loadChildren]
  | cons child rest ih =>
    rw [loadChildren, loadChildren, each child List.mem_cons_self]
    refine congrArg _ (funext fun first => congrArg _ (funext fun grown => ?_))
    exact ih (fun other member => each other (List.mem_cons_of_mem _ member)) grown

theorem complete_congr {other : Source} {definition : Definition} (each : ∀ child ∈ definition.children,
    source.loadNode registry loading child = other.loadNode registry loading child) (node : Node A P) :
    source.complete registry loading definition node = other.complete registry loading definition node := by
  unfold complete
  refine congrArg _ (funext fun gate => ?_)
  rw [loadChildren_congr each]

section Lookup

variable {other : Source} (same : ∀ name, source.find? name = other.find? name)
include same

omit [Host W] in
theorem target_congr (registry : Registry W A P) (loading : List String) (type : String) (childless : Bool) :
    source.target registry loading type childless = other.target registry loading type childless := by
  unfold target
  rw [same type]

theorem loadNode_congr (registry : Registry W A P) (loading : List String) (definition : Definition) :
    source.loadNode registry loading definition = other.loadNode registry loading definition := by
  induction loading, definition using load_induction source registry with
  | step loading definition below referred =>
    rw [loadNode_eq, loadNode_eq, ← target_congr same]
    have completed := funext (complete_congr below)
    rw [completed]
    refine congrArg (fun first => first >>= other.complete registry loading definition) ?_
    rcases target : source.target registry loading definition.type definition.children.isEmpty with
      error | construct | tree
    · rfl
    · rfl
    · exact congrArg (fun run => run >>= fun node => pure (node.withName definition.type)) (referred tree target)

theorem load_congr (registry : Registry W A P) (name : String) :
    source.load registry name = other.load registry name := by
  unfold load
  rw [same name]
  cases other.find? name with
  | none => rfl
  | some tree => exact loadNode_congr same registry [tree.name] tree.root

end Lookup

/-! Where names are distinct, a name refers to the one tree that has it. -/

theorem find?_eq_some_iff {source : Source} (distinct : (source.trees.map TreeDefinition.name).Nodup) {name : String}
    {tree : TreeDefinition} : source.find? name = some tree ↔ tree ∈ source.trees ∧ tree.name = name := by
  constructor
  · intro found
    exact ⟨List.mem_of_find?_eq_some found, by simpa using List.find?_some found⟩
  · rintro ⟨member, rfl⟩
    obtain ⟨other, found⟩ : ∃ other, source.find? tree.name = some other :=
      Option.isSome_iff_exists.mp (List.find?_isSome.mpr ⟨tree, member, by simp⟩)
    have named : other.name = tree.name := by simpa using List.find?_some found
    rw [found, List.inj_on_of_nodup_map distinct (List.mem_of_find?_eq_some found) member named]

theorem find?_of_perm {source other : Source} (distinct : (source.trees.map TreeDefinition.name).Nodup)
    (reordered : source.trees.Perm other.trees) (name : String) : source.find? name = other.find? name := by
  have also := (reordered.map TreeDefinition.name).nodup_iff.mp distinct
  ext tree
  rw [find?_eq_some_iff distinct, find?_eq_some_iff also, reordered.mem_iff]

end Source

end BehaviorTree
