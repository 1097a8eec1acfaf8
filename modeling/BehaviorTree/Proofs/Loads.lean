import BehaviorTree.Loading
import BehaviorTree.Proofs.Subtree

/-! What loading does, case by case. A definition loads if its type stands for something, its gate and
its children load, and it has as many children as its kind takes. The relations name the loadings of
children and of trees that are referred to; later proofs follow these cases and do not open the loader
again. -/

set_option autoImplicit false

namespace BehaviorTree

variable {W A P : Type}

namespace Loading

variable {α β : Type}

theorem bind_eq_ok {first : Loading W α} {next : α → Loading W β} {world after : W} {value : β} :
    (first >>= next) world = (.ok value, after) ↔
      ∃ inner during, first world = (.ok inner, during) ∧ next inner during = (.ok value, after) := by
  rw [bind_apply]
  constructor
  · intro ends
    split at ends
    · next inner during ran => exact ⟨inner, during, ran, ends⟩
    · cases ends
  · rintro ⟨inner, during, ran, ends⟩
    rw [ran]
    exact ends

theorem bind_eq_error {first : Loading W α} {next : α → Loading W β} {world after : W} {error : LoadError} :
    (first >>= next) world = (.error error, after) ↔ first world = (.error error, after) ∨
      ∃ inner during, first world = (.ok inner, during) ∧ next inner during = (.error error, after) := by
  rw [bind_apply]
  constructor
  · intro ends
    split at ends
    · next inner during ran => exact .inr ⟨inner, during, ran, ends⟩
    · next ran =>
      cases ends
      exact .inl ran
  · rintro (ran | ⟨inner, during, ran, ends⟩)
    · rw [ran]
    · rw [ran]
      exact ends

end Loading

namespace Condition

variable {registry : Registry W A P}

theorem load_atom (registry : Registry W A P) (name : String) (argument : Option String) (world : W) :
    (Condition.atom name argument).load registry world =
      match registry.gate? name with
      | none => (.error (.missingGate name), world)
      | some construct =>
        match construct argument world with
        | (some gate, after) => (.ok gate, after)
        | (none, after) => (.error (.rejectedArgument name argument), after) := by
  rw [load]
  cases registry.gate? name with
  | none => rfl
  | some construct =>
    simp only [Loading.bind_apply, Loading.lift]
    rcases construct argument world with ⟨_ | gate, after⟩ <;> rfl

theorem load_atom_eq_ok {name : String} {argument : Option String} {gate : Gate P} {world after : W} :
    (Condition.atom name argument).load registry world = (.ok gate, after) ↔
      ∃ construct, registry.gate? name = some construct ∧ construct argument world = (some gate, after) := by
  rw [load_atom]
  cases registry.gate? name with
  | none => simp
  | some construct => rcases built : construct argument world with ⟨_ | gate, after⟩ <;> simp [built]

end Condition

namespace ChildLimit

theorem le_of_lt_succ {count : Nat} {limit : ChildLimit} :
    (finite (count + 1)).le limit = (finite count).lt limit := by
  cases limit with
  | infinite => rfl
  | finite most =>
    rw [Bool.eq_iff_iff]
    simp only [le, lt, compare?, Bool.or_eq_true, beq_iff_eq, Option.some.injEq, Nat.compare_eq_lt, Nat.compare_eq_eq]
    omega

theorem zero_le (limit : ChildLimit) : (finite 0).le limit = true := by
  cases limit with
  | infinite => rfl
  | finite most => cases most <;> rfl

theorem le_trans_lt {count most : Nat} {limit : ChildLimit} (below : count < most)
    (bounded : (finite most).le limit = true) : (finite count).lt limit = true := by
  cases limit with
  | infinite => rfl
  | finite bound =>
    simp only [le, lt, compare?, Bool.or_eq_true, beq_iff_eq, Option.some.injEq, Nat.compare_eq_lt,
      Nat.compare_eq_eq] at bounded ⊢
    omega

end ChildLimit

namespace Source

variable [Host W] {source : Source} {registry : Registry W A P} {loading : List String}

omit [Host W] in
/-- The loader goes from a definition to its children, and from a reference to the tree that it names. -/
theorem load_induction (source : Source) (registry : Registry W A P) {motive : List String → Definition → Prop}
    (step : ∀ loading definition, (∀ child ∈ definition.children, motive loading child) →
      (∀ tree, source.target registry loading definition.type definition.children.isEmpty = .ok (.tree tree) →
        motive (definition.type :: loading) tree.root) → motive loading definition)
    (loading : List String) (definition : Definition) : motive loading definition :=
  step loading definition (fun child _ => load_induction source registry step loading child)
    fun tree _ => load_induction source registry step (definition.type :: loading) tree.root
termination_by (source.remaining loading, sizeOf definition)
decreasing_by
  · apply Prod.Lex.right
    cases definition
    rename_i member
    have smaller := List.sizeOf_lt_of_mem member
    simp only [Definition.mk.sizeOf_spec] at smaller ⊢
    omega
  · rename_i found
    exact Prod.Lex.left _ _ (remaining_lt_of_target found)

inductive LoadsEach (source : Source) (registry : Registry W A P) (loading : List String) :
    List Definition → W → List (Node A P) → W → Prop where
  | nil {world : W} : LoadsEach source registry loading [] world [] world
  | cons {definition : Definition} {rest : List Definition} {node : Node A P} {nodes : List (Node A P)}
      {world during after : W} : source.loadNode registry loading definition world = (.ok node, during) →
      LoadsEach source registry loading rest during nodes after →
      LoadsEach source registry loading (definition :: rest) world (node :: nodes) after

theorem LoadsEach.length_eq {definitions : List Definition} {world after : W} {nodes : List (Node A P)}
    (loads : LoadsEach source registry loading definitions world nodes after) : nodes.length = definitions.length := by
  induction loads with
  | nil => rfl
  | cons _ _ ih => rw [List.length_cons, List.length_cons, ih]

theorem LoadsEach.of_mem {definitions : List Definition} {world after : W} {nodes : List (Node A P)}
    (loads : LoadsEach source registry loading definitions world nodes after) {definition : Definition}
    (member : definition ∈ definitions) :
    ∃ before node later, source.loadNode registry loading definition before = (.ok node, later) := by
  induction loads with
  | nil => cases member
  | cons loaded _ ih =>
    rcases List.mem_cons.mp member with rfl | member
    · exact ⟨_, _, _, loaded⟩
    · exact ih member

theorem adopt_of_room {type : String} {parent child : Node A P}
    (room : (ChildLimit.finite parent.children.length).lt parent.maxChildren = true) (world : W) :
    Definition.adopt type parent child world = (.ok (.mk parent.state (parent.children ++ [child])), world) := by
  simp only [Definition.adopt, Node.addChild, room, if_true]

theorem adopt_of_full (type : String) {parent : Node A P} (child : Node A P)
    (full : (ChildLimit.finite parent.children.length).lt parent.maxChildren = false) (world : W) :
    ∃ cause later, Definition.adopt type parent child world = (.error (.rejectedChild cause type), later) := by
  obtain ⟨cause, later, rejected⟩ : ∃ cause later, parent.addChild child world = (.error cause, later) := by
    simp only [Node.addChild, full, Bool.false_eq_true, if_false]
    split <;> exact ⟨_, _, rfl⟩
  exact ⟨cause, later, by simp only [Definition.adopt, rejected]⟩

theorem adopt_eq_ok {type : String} {parent child node : Node A P} {world after : W} :
    Definition.adopt type parent child world = (.ok node, after) ↔
      (ChildLimit.finite parent.children.length).lt parent.maxChildren = true ∧
        node = .mk parent.state (parent.children ++ [child]) ∧ after = world := by
  cases room : (ChildLimit.finite parent.children.length).lt parent.maxChildren with
  | true => simp [adopt_of_room room, eq_comm]
  | false =>
    obtain ⟨cause, later, failed⟩ := adopt_of_full type child room world
    simp [failed]

theorem adopt_eq_error {type : String} {parent child : Node A P} {world after : W} {error : LoadError}
    (failed : Definition.adopt type parent child world = (.error error, after)) :
    (ChildLimit.finite parent.children.length).lt parent.maxChildren = false ∧
      ∃ cause, error = .rejectedChild cause type := by
  cases room : (ChildLimit.finite parent.children.length).lt parent.maxChildren with
  | true =>
    rw [adopt_of_room room] at failed
    cases failed
  | false =>
    obtain ⟨cause, later, rejected⟩ := adopt_of_full type child room world
    rw [rejected] at failed
    cases failed
    exact ⟨rfl, cause, rfl⟩

theorem loadChildren_eq_ok {type : String} {node parent : Node A P} {definitions : List Definition} {world after : W} :
    source.loadChildren registry loading type node definitions world = (.ok parent, after) ↔
      ∃ nodes, LoadsEach source registry loading definitions world nodes after ∧
        parent = .mk node.state (node.children ++ nodes) ∧
        (definitions = [] ∨ (ChildLimit.finite (node.children.length + nodes.length)).le node.maxChildren = true) := by
  induction definitions generalizing node world with
  | nil =>
    rw [loadChildren]
    constructor
    · intro ends
      cases ends
      exact ⟨[], .nil, by cases parent; simp, .inl rfl⟩
    · rintro ⟨nodes, loads, rfl, _⟩
      cases loads
      cases node
      simp
  | cons child rest ih =>
    rw [loadChildren, Loading.bind_eq_ok]
    simp only [Loading.bind_eq_ok, adopt_eq_ok]
    constructor
    · rintro ⟨first, during, loaded, grown, _, ⟨room, rfl, rfl⟩, ends⟩
      obtain ⟨nodes, loads, rfl, fits⟩ := ih.mp ends
      refine ⟨first :: nodes, .cons loaded loads, by simp, .inr ?_⟩
      -- Room for the last child is room for every child before it.
      rcases fits with rfl | fits
      · cases loads
        exact ChildLimit.le_of_lt_succ.trans room
      · simpa [Nat.add_assoc, Nat.add_comm 1, Node.maxChildren] using fits
    · rintro ⟨nodes, loads, rfl, fits⟩
      cases loads with
      | @cons _ _ first nodes _ during _ loaded loads =>
        have fits := fits.resolve_left (List.cons_ne_nil _ _)
        refine ⟨first, during, loaded, _, _, ⟨?_, rfl, rfl⟩, ih.mpr ⟨nodes, loads, by simp, .inr ?_⟩⟩
        · exact ChildLimit.le_trans_lt (by simp) fits
        · simpa [Nat.add_assoc, Nat.add_comm 1, Node.maxChildren] using fits

theorem loadChildren_eq_error {type : String} {node : Node A P} {definitions : List Definition} {world after : W}
    {error : LoadError}
    (failed : source.loadChildren registry loading type node definitions world = (.error error, after)) :
    (∃ child ∈ definitions, ∃ before later, source.loadNode registry loading child before = (.error error, later)) ∨
    ∃ count cause, node.children.length ≤ count ∧ count < node.children.length + definitions.length ∧
      (ChildLimit.finite count).lt node.maxChildren = false ∧ error = .rejectedChild cause type := by
  induction definitions generalizing node world with
  | nil =>
    rw [loadChildren] at failed
    cases failed
  | cons child rest ih =>
    rw [loadChildren, Loading.bind_eq_error] at failed
    rcases failed with unloaded | ⟨first, during, _, failed⟩
    · exact .inl ⟨child, List.mem_cons_self, world, after, unloaded⟩
    rw [Loading.bind_eq_error] at failed
    -- The child has loaded, but the node may have no room for it.
    rcases failed with rejected | ⟨grown, _, adopted, failed⟩
    · obtain ⟨full, cause, same⟩ := adopt_eq_error rejected
      exact .inr ⟨node.children.length, cause, Nat.le_refl _, by simp, full, same⟩
    · obtain ⟨_, rfl, rfl⟩ := adopt_eq_ok.mp adopted
      rcases ih failed with ⟨other, member, known⟩ | ⟨count, cause, above, below, full, same⟩
      · exact .inl ⟨other, List.mem_cons_of_mem _ member, known⟩
      · simp only [Node.children_mk, List.length_append, List.length_singleton] at above below
        exact .inr ⟨count, cause, by omega, by rw [List.length_cons]; omega, full, same⟩

/-! A definition as a whole. -/

omit [Host W] in
theorem target_eq_kind {type : String} {childless : Bool} {construct : W → Kind A × W} :
    source.target registry loading type childless = .ok (.kind construct) ↔ registry.kind? type = some construct := by
  simp only [target]
  split
  · next found => simp [found]
  · next unknown _ => simp [unknown]
  · next unknown _ =>
    rw [unknown]
    split
    · simp
    · split <;> simp

omit [Host W] in
theorem target_eq_tree {type : String} {childless : Bool} {tree : TreeDefinition} :
    source.target registry loading type childless = .ok (.tree tree) ↔
      registry.kind? type = none ∧ source.find? type = some tree ∧ type ∉ loading ∧ childless = true := by
  simp only [target]
  split
  · next found => simp [found]
  · next unknown missing => simp [unknown, missing]
  · next other unknown found =>
    by_cases busy : type ∈ loading
    · simp [busy]
    · cases childless <;> simp [unknown, found, busy]

/-- What is left to load once the type of a definition has become a node. -/
def complete (source : Source) (registry : Registry W A P) (loading : List String) (definition : Definition)
    (node : Node A P) : Loading W (Node A P) := do
  let gate ← Definition.loadGate registry definition.when
  let node ← source.loadChildren registry loading definition.type
    (Definition.dress definition.label definition.cooldown gate node) definition.children
  Definition.checkChildren node

theorem loadNode_eq (definition : Definition) : source.loadNode registry loading definition = (do
    let node ← (match source.target registry loading definition.type definition.children.isEmpty with
      | .error error => Loading.fail error
      | .ok (.kind construct) => do
        let kind ← Loading.lift construct
        pure (Node.fresh definition.type kind)
      | .ok (.tree tree) => do
        let node ← source.loadNode registry (definition.type :: loading) tree.root
        pure (node.withName definition.type))
    source.complete registry loading definition node) := by
  cases definition
  rw [loadNode]
  refine congrArg (fun first => first >>= _) ?_
  split <;> simp only [*]

theorem loadNode_of_error {definition : Definition} {error : LoadError}
    (refused : source.target registry loading definition.type definition.children.isEmpty = .error error) (world : W) :
    source.loadNode registry loading definition world = (.error error, world) := by
  rw [loadNode_eq, refused]
  rfl

theorem loadNode_of_kind {definition : Definition} {construct : W → Kind A × W}
    (known : registry.kind? definition.type = some construct) (world : W) :
    source.loadNode registry loading definition world =
      source.complete registry loading definition (Node.fresh definition.type (construct world).1)
        (construct world).2 := by
  rw [loadNode_eq, target_eq_kind.mpr known]
  rfl

theorem loadNode_of_tree {definition : Definition} {tree : TreeDefinition}
    (known : source.target registry loading definition.type definition.children.isEmpty = .ok (.tree tree)) (world : W) :
    source.loadNode registry loading definition world =
      (source.loadNode registry (definition.type :: loading) tree.root >>= fun node =>
        source.complete registry loading definition (node.withName definition.type)) world := by
  rw [loadNode_eq, known]
  simp only [Loading.bind_apply]
  rcases source.loadNode registry (definition.type :: loading) tree.root world with ⟨_ | _, _⟩ <;> rfl

theorem dress_eq (label : Option String) (cooldown : Option Float) (gate : Option (Gate P)) (node : Node A P) :
    Definition.dress label cooldown gate node = node.withState fun state => { state with
      name := label.getD state.name
      cooldown := cooldown.getD state.cooldown
      gate := Gate.both state.gate gate } := by
  cases label <;> cases cooldown <;> rfl

@[simp] theorem kind_dress (label : Option String) (cooldown : Option Float) (gate : Option (Gate P)) (node : Node A P) :
    (Definition.dress label cooldown gate node).state.kind = node.state.kind := by
  rw [dress_eq]
  rfl

@[simp] theorem children_dress (label : Option String) (cooldown : Option Float) (gate : Option (Gate P))
    (node : Node A P) : (Definition.dress label cooldown gate node).children = node.children := by
  rw [dress_eq]
  rfl

omit [Host W] in
theorem checkChildren_eq_ok {node other : Node A P} {world after : W} :
    Definition.checkChildren node world = (.ok other, after) ↔
      node.minChildren ≤ node.children.length ∧ other = node ∧ after = world := by
  by_cases few : node.children.length < node.minChildren
  · simp only [Definition.checkChildren, few, if_true, Nat.not_le_of_lt few, false_and, iff_false]
    exact nofun
  · simp only [Definition.checkChildren, few, if_false, Loading.pure_apply, Nat.le_of_not_lt few, true_and,
      Prod.mk.injEq, Except.ok.injEq, eq_comm]

omit [Host W] in
theorem checkChildren_eq_error {node : Node A P} {world after : W} {error : LoadError}
    (failed : Definition.checkChildren node world = (.error error, after)) :
    node.children.length < node.minChildren ∧ ∃ name, error = .emptyComposite name := by
  by_cases few : node.children.length < node.minChildren
  · simp only [Definition.checkChildren, few, if_true] at failed
    cases failed
    exact ⟨few, _, rfl⟩
  · simp only [Definition.checkChildren, few, if_false] at failed
    cases failed

theorem complete_eq_ok {definition : Definition} {node final : Node A P} {world after : W} :
    source.complete registry loading definition node world = (.ok final, after) ↔
      ∃ gate during nodes, Definition.loadGate registry definition.when world = (.ok gate, during) ∧
        LoadsEach source registry loading definition.children during nodes after ∧
        final = .mk (Definition.dress definition.label definition.cooldown gate node).state (node.children ++ nodes) ∧
        (definition.children = [] ∨
          (ChildLimit.finite (node.children.length + nodes.length)).le node.maxChildren = true) ∧
        node.minChildren ≤ node.children.length + nodes.length := by
  simp only [complete, Loading.bind_eq_ok, loadChildren_eq_ok, checkChildren_eq_ok, children_dress]
  constructor
  · rintro ⟨gate, during, gated, parent, _, ⟨nodes, loads, rfl, fits⟩, enough, rfl, rfl⟩
    simp only [Node.minChildren, Node.maxChildren, Node.state_mk, Node.children_mk, kind_dress,
      List.length_append] at fits enough
    exact ⟨gate, during, nodes, gated, loads, rfl, fits, enough⟩
  · rintro ⟨gate, during, nodes, gated, loads, rfl, fits, enough⟩
    refine ⟨gate, during, gated, _, after, ⟨nodes, loads, rfl, ?_⟩, ?_, rfl, rfl⟩
    · simpa only [Node.maxChildren, kind_dress] using fits
    · simpa only [Node.minChildren, Node.state_mk, Node.children_mk, kind_dress, List.length_append] using enough

theorem complete_eq_error {definition : Definition} {node : Node A P} {world after : W} {error : LoadError}
    (failed : source.complete registry loading definition node world = (.error error, after)) :
    Definition.loadGate registry definition.when world = (.error error, after) ∨
    (∃ child ∈ definition.children, ∃ before later,
      source.loadNode registry loading child before = (.error error, later)) ∨
    (∃ count cause, node.children.length ≤ count ∧ count < node.children.length + definition.children.length ∧
      (ChildLimit.finite count).lt node.maxChildren = false ∧ error = .rejectedChild cause definition.type) ∨
    (node.children.length + definition.children.length < node.minChildren ∧ ∃ name, error = .emptyComposite name) := by
  rw [complete, Loading.bind_eq_error] at failed
  rcases failed with ungated | ⟨gate, during, _, failed⟩
  · exact .inl ungated
  rw [Loading.bind_eq_error] at failed
  rcases failed with childless | ⟨parent, later, loaded, failed⟩
  · rcases loadChildren_eq_error childless with unloaded | ⟨count, cause, above, below, full, same⟩
    · exact .inr (.inl unloaded)
    · rw [children_dress] at above below
      rw [Node.maxChildren, kind_dress] at full
      exact .inr (.inr (.inl ⟨count, cause, above, below, full, same⟩))
  · obtain ⟨nodes, loads, rfl, _⟩ := loadChildren_eq_ok.mp loaded
    obtain ⟨few, name, same⟩ := checkChildren_eq_error failed
    simp only [Node.minChildren, Node.state_mk, Node.children_mk, kind_dress, children_dress, List.length_append,
      loads.length_eq] at few
    exact .inr (.inr (.inr ⟨few, name, same⟩))

theorem minChildren_le_of_complete {definition : Definition} {node final : Node A P} {world after : W}
    (completed : source.complete registry loading definition node world = (.ok final, after)) :
    final.minChildren ≤ final.children.length := by
  obtain ⟨gate, during, nodes, _, _, rfl, _, enough⟩ := complete_eq_ok.mp completed
  simpa only [Node.minChildren, Node.state_mk, Node.children_mk, kind_dress, List.length_append] using enough

omit [Host W] in
theorem target_eq_error {type : String} {childless : Bool} {error : LoadError}
    (refused : source.target registry loading type childless = .error error) : registry.kind? type = none ∧
      (source.find? type = none ∧ error = .missingNode type ∨
        type ∈ loading ∧ (source.find? type).isSome = true ∧ error = .selfReference type ∨
        childless = false ∧ error = .rejectedChild (.addToFull type) type) := by
  simp only [target] at refused
  split at refused
  · cases refused
  · next unknown missing =>
    cases refused
    exact ⟨unknown, .inl ⟨missing, rfl⟩⟩
  · next unknown found =>
    refine ⟨unknown, .inr ?_⟩
    split at refused
    · next busy =>
      cases refused
      exact .inl ⟨List.contains_iff_mem.mp busy, by rw [found]; rfl, rfl⟩
    · cases childless <;> cases refused
      exact .inr ⟨rfl, rfl⟩

/-- How a definition loads: a kind that is constructed and given its gate and children, or a tree that is
loaded and then takes what the reference says about it. -/
inductive Loads (source : Source) (registry : Registry W A P) (loading : List String) (definition : Definition)
    (world : W) : Node A P → W → Prop where
  | kind {construct : W → Kind A × W} {gate : Option (Gate P)} {nodes : List (Node A P)} {during after : W} :
      registry.kind? definition.type = some construct →
      Definition.loadGate registry definition.when (construct world).2 = (.ok gate, during) →
      LoadsEach source registry loading definition.children during nodes after →
      (construct world).1.minChildren ≤ nodes.length →
      (ChildLimit.finite nodes.length).le (construct world).1.maxChildren = true →
      Loads source registry loading definition world
        (.mk (Definition.dress definition.label definition.cooldown gate
          (Node.fresh definition.type (construct world).1)).state nodes) after
  | tree {tree : TreeDefinition} {gate : Option (Gate P)} {node : Node A P} {during after : W} :
      registry.kind? definition.type = none → source.find? definition.type = some tree →
      definition.type ∉ loading → definition.children = [] →
      source.loadNode registry (definition.type :: loading) tree.root world = (.ok node, during) →
      Definition.loadGate registry definition.when during = (.ok gate, after) →
      Loads source registry loading definition world
        (Definition.dress definition.label definition.cooldown gate (node.withName definition.type)) after

theorem loads_of_ok {definition : Definition} {node : Node A P} {world after : W}
    (loaded : source.loadNode registry loading definition world = (.ok node, after)) :
    Loads source registry loading definition world node after ∧ node.minChildren ≤ node.children.length := by
  rcases found : source.target registry loading definition.type definition.children.isEmpty with error | construct | tree
  · rw [loadNode_of_error found] at loaded
    cases loaded
  · rw [target_eq_kind] at found
    rw [loadNode_of_kind found] at loaded
    refine ⟨?_, minChildren_le_of_complete loaded⟩
    obtain ⟨gate, during, nodes, gated, loads, rfl, fits, enough⟩ := complete_eq_ok.mp loaded
    simp only [Node.fresh, Node.minChildren, Node.maxChildren, Node.children_mk, Node.state_mk, List.length_nil,
      Nat.zero_add] at fits enough
    refine .kind found gated loads enough (fits.elim (fun none => ?_) id)
    rw [none] at loads
    cases loads
    exact ChildLimit.zero_le _
  · rw [loadNode_of_tree found, Loading.bind_eq_ok] at loaded
    obtain ⟨inner, during, inside, loaded⟩ := loaded
    refine ⟨?_, minChildren_le_of_complete loaded⟩
    obtain ⟨unknown, reference, free, childless⟩ := target_eq_tree.mp found
    have leaf : definition.children = [] := List.isEmpty_iff.mp childless
    obtain ⟨gate, _, nodes, gated, loads, rfl, _, _⟩ := complete_eq_ok.mp loaded
    rw [leaf] at loads
    cases loads
    rw [List.append_nil, ← children_dress definition.label definition.cooldown gate, Node.mk_eta]
    exact .tree unknown reference free leaf inside gated

theorem loadNode_eq_ok {definition : Definition} {node : Node A P} {world after : W} :
    source.loadNode registry loading definition world = (.ok node, after) ↔
      Loads source registry loading definition world node after := by
  refine ⟨fun loaded => (loads_of_ok loaded).1, fun loads => ?_⟩
  cases loads with
  | kind known gated loads enough fits =>
    rw [loadNode_of_kind known, complete_eq_ok]
    refine ⟨_, _, _, gated, loads, rfl, .inr ?_, ?_⟩
    · simpa [Node.fresh, Node.maxChildren] using fits
    · simpa [Node.fresh, Node.minChildren] using enough
  | @tree tree gate inner during _ unknown reference free leaf inside gated =>
    have found := target_eq_tree.mpr ⟨unknown, reference, free, List.isEmpty_iff.mpr leaf⟩
    rw [loadNode_of_tree found, Loading.bind_eq_ok]
    refine ⟨inner, during, inside, complete_eq_ok.mpr ⟨gate, after, [], gated, leaf ▸ .nil, ?_, .inl leaf, ?_⟩⟩
    · rw [List.append_nil, ← children_dress definition.label definition.cooldown gate, Node.mk_eta]
    · exact (loads_of_ok inside).2

inductive Fails (source : Source) (registry : Registry W A P) (loading : List String) (definition : Definition) :
    LoadError → Prop where
  | type {error : LoadError} :
      source.target registry loading definition.type definition.children.isEmpty = .error error →
      Fails source registry loading definition error
  | tree {tree : TreeDefinition} {world after : W} {error : LoadError} :
      source.target registry loading definition.type definition.children.isEmpty = .ok (.tree tree) →
      source.loadNode registry (definition.type :: loading) tree.root world = (.error error, after) →
      Fails source registry loading definition error
  | gate {world after : W} {error : LoadError} :
      Definition.loadGate registry definition.when world = (.error error, after) →
      Fails source registry loading definition error
  | child {child : Definition} {world after : W} {error : LoadError} : child ∈ definition.children →
      source.loadNode registry loading child world = (.error error, after) →
      Fails source registry loading definition error
  | many {construct : W → Kind A × W} {world : W} {count : Nat} {cause : EditError} :
      registry.kind? definition.type = some construct → count < definition.children.length →
      (ChildLimit.finite count).lt (construct world).1.maxChildren = false →
      Fails source registry loading definition (.rejectedChild cause definition.type)
  | few {construct : W → Kind A × W} {world : W} {name : String} : registry.kind? definition.type = some construct →
      definition.children.length < (construct world).1.minChildren →
      Fails source registry loading definition (.emptyComposite name)

theorem loadNode_eq_error {definition : Definition} {world after : W} {error : LoadError}
    (failed : source.loadNode registry loading definition world = (.error error, after)) :
    Fails source registry loading definition error := by
  rcases found : source.target registry loading definition.type definition.children.isEmpty with other | construct | tree
  · rw [loadNode_of_error found] at failed
    cases failed
    exact .type found
  · rw [target_eq_kind] at found
    rw [loadNode_of_kind found] at failed
    rcases complete_eq_error failed with ungated | ⟨child, member, _, _, unloaded⟩ |
      ⟨count, cause, _, below, full, rfl⟩ | ⟨few, name, rfl⟩
    · exact .gate ungated
    · exact .child member unloaded
    · exact .many found (by simpa [Node.fresh] using below) full
    · exact .few found (by simpa [Node.fresh, Node.minChildren] using few)
  · have ⟨_, _, _, childless⟩ := target_eq_tree.mp found
    rw [loadNode_of_tree found, Loading.bind_eq_error] at failed
    rcases failed with unloaded | ⟨inner, during, inside, failed⟩
    · exact .tree found unloaded
    -- A reference brings no children of its own, and those of the tree have been counted.
    have leaf : definition.children = [] := List.isEmpty_iff.mp childless
    rcases complete_eq_error failed with ungated | ⟨child, member, _, _, unloaded⟩ |
      ⟨count, _, above, below, _, _⟩ | ⟨few, _, _⟩
    · exact .gate ungated
    · exact .child member unloaded
    · rw [leaf] at below
      exact absurd below (Nat.not_lt_of_le above)
    · rw [leaf] at few
      exact absurd (loads_of_ok inside).2 (Nat.not_le_of_lt few)

end Source

end BehaviorTree
