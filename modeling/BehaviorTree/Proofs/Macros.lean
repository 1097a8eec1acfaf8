import BehaviorTree.Proofs.Plan

/-! Loading a tree with references is loading its expansion. The loader dresses a node once for every
reference on the way to it; the expansion puts everything that is said on the way into one definition. -/

set_option autoImplicit false

namespace BehaviorTree

variable {W A B P Q : Type}

namespace Source

open Loading

variable [Host W] {source : Source} {registry : Registry W A P} {action : A → B} {probe : P → Q} {world : W}
variable {loading : List String}

theorem loadChildren_yields {expand : Definition → Definition} {children : List Definition}
    (each : ∀ child ∈ children, Yields (Node.exchange action probe) (source.loadNode registry loading child)
      ((expand child).nodeAt registry action probe world)) (type : String) (node : Node A P) :
    Yields (Node.exchange action probe) (source.loadChildren registry loading type node children)
      ((Definition.nodesAt registry action probe world (children.map expand)).bind
        (node.exchange action probe).grow) := by
  induction children generalizing node with
  | nil =>
    rw [loadChildren]
    exact yields_pure _ node
  | cons child rest ih =>
    have others := ih fun other member => each other (List.mem_cons_of_mem _ member)
    -- The loader gives the first child to the node before it loads the others.
    have turn : ((Definition.nodesAt registry action probe world ((child :: rest).map expand)).bind
        (node.exchange action probe).grow) =
          ((expand child).nodeAt registry action probe world).bind fun made =>
            ((node.exchange action probe).give made).bind fun grown =>
              (Definition.nodesAt registry action probe world (rest.map expand)).bind grown.grow := by
      rw [List.map_cons, Definition.nodesAt, Option.bind_assoc]
      refine congrArg _ (funext fun made => ?_)
      cases Definition.nodesAt registry action probe world (rest.map expand) with
      | none => exact (Option.bind_fun_none _).symm
      | some nodes => rfl
    rw [loadChildren, turn]
    exact (each child List.mem_cons_self).bind fun made =>
      (Definition.adopt_yields type node made).bind fun grown => others grown

theorem complete_yields (consistent : registry.Consistent action probe) {expand : Definition → Definition}
    {definition : Definition} (each : ∀ child ∈ definition.children,
      Yields (Node.exchange action probe) (source.loadNode registry loading child)
        ((expand child).nodeAt registry action probe world)) (node : Node A P) :
    Yields (Node.exchange action probe) (source.complete registry loading definition node)
      ((Definition.gateAt registry probe world definition.when).bind fun gate =>
        ((Definition.nodesAt registry action probe world (definition.children.map expand)).bind
          (Definition.dress definition.label definition.cooldown gate (node.exchange action probe)).grow).bind
            Node.filled) := by
  refine (Definition.loadGate_yields consistent world definition.when).bind fun gate => ?_
  rw [← Definition.exchange_dress]
  exact (loadChildren_yields each definition.type _).bind fun parent => Definition.checkChildren_yields parent

theorem complete_yields_of_leaf (consistent : registry.Consistent action probe) (world : W) {definition : Definition}
    (leaf : definition.children = []) (node : Node A P) :
    Yields (Node.exchange action probe)
      (source.complete registry loading definition (node.withName definition.type))
      ((Definition.gateAt registry probe world definition.when).bind fun gate =>
        (node.exchange action probe).filled.map (definition.redress gate)) := by
  have each : ∀ child ∈ definition.children, Yields (Node.exchange action probe)
      (source.loadNode registry loading child) ((id child).nodeAt registry action probe world) := by
    rw [leaf]
    exact nofun
  have completed := complete_yields consistent each (node.withName definition.type)
  rw [leaf, List.map_nil, Definition.nodesAt, Node.exchange_withName] at completed
  simp only [← Definition.filled_redress]
  exact completed

omit [Host W] in
theorem target_of_kept {definition : Definition} (unknown : registry.kind? definition.type = none)
    (free : definition.children = [] → source.find? definition.type = none) :
    ∃ error, source.target registry loading definition.type definition.children.isEmpty = .error error := by
  rcases target : source.target registry loading definition.type definition.children.isEmpty with
    error | construct | tree
  · exact ⟨error, rfl⟩
  · rw [target_eq_kind, unknown] at target
    cases target
  · obtain ⟨_, found, _, leaf⟩ := target_eq_tree.mp target
    rw [free (List.isEmpty_iff.mp leaf)] at found
    cases found

/-- The node of the expansion is what loads, whatever is being loaded on the way. -/
theorem loadNode_yields (consistent : registry.Consistent action probe) {name : String}
    (acyclic : NoCycle (source.Embeds registry) name) {definition expanded : Definition} {here : String}
    {rest : List String} {tree : TreeDefinition} (expands : source.Expands registry definition expanded)
    (path : Path (source.Embeds registry) name (here :: rest)) (found : source.find? here = some tree)
    (inside : definition ∈ tree.root.preorder) :
    Yields (Node.exchange action probe) (source.loadNode registry (here :: rest) definition)
      (expanded.nodeAt registry action probe world) := by
  induction expands generalizing here rest tree with
  | @kept definition expand free _ ih =>
    have each : ∀ child ∈ definition.children,
        Yields (Node.exchange action probe) (source.loadNode registry (here :: rest) child)
          ((expand child).nodeAt registry action probe world) :=
      fun child member => ih child member path found (Definition.mem_preorder_of_child inside member)
    rw [Definition.nodeAt_eq]
    intro other
    cases known : registry.kind? definition.type with
    | none =>
      -- The loader finds no tree, and the definition is kept with a type that no kind has.
      obtain ⟨error, refused⟩ := target_of_kept known (free known)
      rw [loadNode_of_error refused, Registry.kindAt, known]
      rfl
    | some construct =>
      have same := consistent.kinds _ construct known world other
      have completed :=
        complete_yields consistent each (Node.fresh definition.type (construct other).1) (construct other).2
      rw [Node.exchange_fresh, ← same] at completed
      rw [loadNode_of_kind known, completed, Registry.kindAt, known]
      rfl
  | @reference definition root referred unknown leaf known _ ih =>
    have embeds : source.Embeds registry here definition.type := ⟨tree, definition, found, inside, rfl, unknown, leaf⟩
    have target := target_eq_tree.mpr
      ⟨unknown, known, path.next_notMem acyclic embeds, List.isEmpty_iff.mpr leaf⟩
    have inner := ih (path.step embeds) known (Definition.mem_preorder_self _)
    -- The children of the root have been counted, and the reference brings none.
    have counted : ((root.nodeAt registry action probe world).bind fun node =>
        (Definition.gateAt registry probe world definition.when).bind fun gate =>
          some (definition.redress gate node)) =
        (root.nodeAt registry action probe world).bind fun node =>
          (Definition.gateAt registry probe world definition.when).bind fun gate =>
            node.filled.map (definition.redress gate) := by
      cases made : root.nodeAt registry action probe world with
      | none => rfl
      | some node =>
        rw [Option.bind_some, Option.bind_some, Definition.filled_of_nodeAt made]
        rfl
    intro other
    rw [loadNode_of_tree target, Definition.nodeAt_inPlaceOf, counted]
    exact inner.bind (fun node => complete_yields_of_leaf consistent world leaf node) other

variable {name : String} {expansion : Source}

theorem load_yields (consistent : registry.Consistent action probe) (acyclic : NoCycle (source.Embeds registry) name)
    {tree : TreeDefinition} {root : Definition} (found : source.find? name = some tree)
    (expands : source.Expands registry tree.root root) :
    Yields (Node.exchange action probe) (source.load registry name) (root.nodeAt registry action probe world) := by
  intro other
  rw [load_of_found found]
  exact loadNode_yields consistent acyclic expands .start found (Definition.mem_preorder_self tree.root) other

/-- Where no tree that is embedded leads back to itself, references are macros: there is one expansion of the
tree of a name, it is free of references, and it loads exactly if the original does. The loaded nodes are
then the same in their kinds, names, cooldowns, gates and children. -/
theorem load_expansion (consistent : registry.Consistent action probe)
    (acyclic : NoCycle (source.Embeds registry) name) :
    (∃ expansion, source.IsExpansion registry name expansion) ∧
    ∀ expansion, source.IsExpansion registry name expansion →
      (∀ other, source.IsExpansion registry name other → other.find? name = expansion.find? name) ∧
      (∀ tree, expansion.find? name = some tree → source.ReferenceFree registry tree.root) ∧
      ∀ one other : W, (source.load registry name one).1.toOption.map (Node.exchange action probe) =
        (expansion.load registry name other).1.toOption.map (Node.exchange action probe) := by
  refine ⟨exists_isExpansion acyclic, fun expansion expands =>
    ⟨fun other again => again.find?_eq expands, fun tree found => expands.referenceFree found, ?_⟩⟩
  intro one other
  cases found : source.find? name with
  | none =>
    rw [load, load, found, expands.names name found]
    rfl
  | some tree =>
    obtain ⟨root, same, replaced⟩ := expands.root tree found
    have free : expansion.ReferenceFree registry root := fun definition inside unknown leaf =>
      expands.names _ (expands.referenceFree same definition inside unknown leaf)
    have expanded : Yields (Node.exchange action probe) (expansion.load registry name)
        (root.nodeAt registry action probe one) := load_yields consistent expands.noCycle same free.expands
    exact (load_yields consistent acyclic found replaced one).trans (expanded other).symm

/-! A camp where one post is watched at night. -/

def post : TreeDefinition := ⟨"post", ⟨"Guard", none, some (.not (.atom "False" none)), some 2, []⟩⟩

def patrol : TreeDefinition := ⟨"patrol", ⟨"post", some "north", some (.atom "True" none), none, []⟩⟩

def night : Definition := ⟨"patrol", none, some (.atom "IsTrue" (some "dark")), some 5, []⟩

def day : Definition := ⟨"Sequence", none, none, none, [night, night]⟩

def camp : Source := ⟨[⟨"day", day⟩, patrol, post]⟩

def guard : Definition :=
  ⟨"Guard", some "patrol", some (.and (.and (.not (.atom "False" none)) (.atom "True" none))
    (.atom "IsTrue" (some "dark"))), some 5, []⟩

def quarters : Source := ⟨[⟨"day", ⟨"Sequence", none, none, none, [guard, guard]⟩⟩]⟩

theorem outpost_consistent : outpost.Consistent id id where
  kinds := by
    intro name construct known one other
    obtain ⟨kind, same⟩ := outpost_kind known
    rw [same, same]
  gates := by
    intro name construct known argument one other
    obtain ⟨answer, same⟩ := outpost_gate known
    rw [same, same]

theorem night_expands : camp.Expands outpost night guard := by
  have ends : camp.Expands outpost post.root post.root := ReferenceFree.expands (by
    intro other inside unknown
    obtain rfl | ⟨_, member, _⟩ := Definition.mem_preorder.mp inside
    · cases unknown
    · cases member)
  have referred : camp.Expands outpost patrol.root (post.root.inPlaceOf patrol.root) :=
    .reference rfl rfl (show camp.find? "post" = some post from rfl) ends
  exact .reference rfl rfl (show camp.find? "patrol" = some patrol from rfl) referred

theorem camp_expands : camp.IsExpansion outpost "day" quarters where
  names := by
    intro other missing
    have different : "day" ≠ other := by
      rintro rfl
      cases missing
    simp [quarters, find?, different]
  root := by
    intro tree found
    cases found
    have each : ∀ child ∈ day.children, camp.Expands outpost child ((fun _ => guard) child) := by
      intro child member
      obtain rfl : child = night := by simpa [day] using member
      exact night_expands
    have replaced : camp.Expands outpost day { day with children := day.children.map fun _ => guard } := by
      refine .kept (fun unknown => ?_) each
      cases unknown
    exact ⟨_, rfl, replaced⟩

theorem camp_load (world : World) : ∃ node, camp.load outpost "day" world = (.ok node, world) := by
  obtain ⟨_, posted⟩ : ∃ node, camp.loadNode outpost ["post", "patrol", "day"] post.root world = (.ok node, world) :=
    ⟨_, loadNode_eq_ok.mpr (.kind rfl rfl .nil (Nat.le_refl 0) rfl)⟩
  obtain ⟨_, patrolled⟩ : ∃ node, camp.loadNode outpost ["patrol", "day"] patrol.root world = (.ok node, world) :=
    ⟨_, loadNode_eq_ok.mpr (.tree rfl rfl (by decide) rfl posted rfl)⟩
  obtain ⟨_, watched⟩ : ∃ node, camp.loadNode outpost ["day"] night world = (.ok node, world) :=
    ⟨_, loadNode_eq_ok.mpr (.tree rfl rfl (by decide) rfl patrolled rfl)⟩
  rw [load_of_found rfl]
  exact ⟨_, loadNode_eq_ok.mpr (.kind rfl rfl (.cons watched (.cons watched .nil)) (Nat.le_succ 1) rfl)⟩

theorem camp_acyclic : NoCycle (camp.Embeds outpost) "day" := by
  obtain ⟨node, loaded⟩ := camp_load World.empty
  exact (acyclic_of_load loaded).mono fun _ _ embeds => embeds.refers

/-- The camp loads, and its quarters load to the same. -/
theorem camp_loads : outpost.Consistent id id ∧ NoCycle (camp.Embeds outpost) "day" ∧ ∀ one other : World,
    ∃ node, (camp.load outpost "day" one).1 = .ok node ∧ (quarters.load outpost "day" other).1 = .ok node := by
  refine ⟨outpost_consistent, camp_acyclic, fun one other => ?_⟩
  obtain ⟨_, _, same⟩ := (load_expansion outpost_consistent camp_acyclic).2 quarters camp_expands
  have whole : (Node.exchange id id : Node Script.Performer Script.Sensor → _) = id := funext Node.exchange_id
  obtain ⟨node, loaded⟩ := camp_load one
  have first : (camp.load outpost "day" one).1 = .ok node := congrArg Prod.fst loaded
  have second : (quarters.load outpost "day" other).1.toOption = some node := by
    have alike := same one other
    rw [first, whole, Option.map_id_apply, Option.map_id_apply] at alike
    exact alike.symm
  cases answer : (quarters.load outpost "day" other).1 with
  | ok twin =>
    rw [answer] at second
    exact ⟨node, first, congrArg Except.ok (Option.some.inj second)⟩
  | error _ =>
    rw [answer] at second
    cases second

end Source

end BehaviorTree
