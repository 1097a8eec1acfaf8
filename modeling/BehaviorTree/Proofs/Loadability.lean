import BehaviorTree.Proofs.Loads
import BehaviorTree.Script.Action
import Mathlib.Logic.Relation

/-! Which trees load. A tree refers to the trees that its definition names by types that are not registered.
It loads exactly if every definition that can be reached by references is valid by itself and no
reachable tree leads back to itself. Of a valid source the loader rejects only such a tree, and it names
one that does lead back to itself. -/

set_option autoImplicit false

namespace BehaviorTree

open Relation

variable {W A P : Type}

section Graph

variable {edge : String → String → Prop} {name : String}

/-- Nothing that can be reached leads back to itself. -/
def NoCycle (edge : String → String → Prop) (name : String) : Prop :=
  ∀ reached, ReflTransGen edge name reached → ¬ TransGen edge reached reached

theorem NoCycle.mono {narrow wide : String → String → Prop} (acyclic : NoCycle wide name)
    (within : ∀ here next, narrow here next → wide here next) : NoCycle narrow name :=
  fun reached path cycle => acyclic reached (ReflTransGen.mono within _ _ path) (TransGen.mono within _ _ cycle)

/-- The way to where one is, the last step first. -/
inductive Path (edge : String → String → Prop) (name : String) : List String → Prop where
  | start : Path edge name [name]
  | step {here next : String} {rest : List String} : Path edge name (here :: rest) → edge here next →
      Path edge name (next :: here :: rest)

theorem Path.reaches {here : String} {rest : List String} (path : Path edge name (here :: rest)) :
    ReflTransGen edge name here ∧ ∀ earlier ∈ here :: rest, ReflTransGen edge earlier here := by
  generalize whole : here :: rest = way at path
  induction path generalizing here rest with
  | start =>
    cases whole
    exact ⟨.refl, fun earlier member => List.mem_singleton.mp member ▸ .refl⟩
  | step _ next ih =>
    cases whole
    obtain ⟨begun, onward⟩ := ih rfl
    refine ⟨begun.tail next, fun earlier member => ?_⟩
    rcases List.mem_cons.mp member with rfl | member
    · exact .refl
    · exact (onward earlier member).tail next

theorem Path.next_notMem {here next : String} {rest : List String} (path : Path edge name (here :: rest))
    (acyclic : NoCycle edge name) (step : edge here next) : next ∉ here :: rest := by
  intro member
  obtain ⟨begun, onward⟩ := path.reaches
  exact acyclic next (begun.tail step) (.tail' (onward next member) step)

end Graph

namespace Condition

def atoms : Condition → List (String × Option String)
  | .atom name argument => [(name, argument)]
  | .not operand => operand.atoms
  | .and left right | .or left right => left.atoms ++ right.atoms

end Condition

namespace Registry

/-- A constructor may build something else each time, but what it builds takes as many children, and it
accepts the same arguments. -/
structure Uniform (registry : Registry W A P) : Prop where
  limits : ∀ name construct, registry.kind? name = some construct → ∀ one other : W,
    (construct one).1.minChildren = (construct other).1.minChildren ∧
      (construct one).1.maxChildren = (construct other).1.maxChildren
  accepts : ∀ name construct, registry.gate? name = some construct → ∀ argument (one other : W),
    (construct argument one).1.isSome = (construct argument other).1.isSome

def Accepts (registry : Registry W A P) (name : String) (argument : Option String) : Prop :=
  ∃ construct, registry.gate? name = some construct ∧ ∀ world, (construct argument world).1.isSome = true

def Decided (registry : Registry W A P) : Prop :=
  ∀ name construct, registry.gate? name = some construct → ∀ argument (one other : W),
    (construct argument one).1.isSome = (construct argument other).1.isSome

/-- The gates of the atoms, built one after the other. -/
inductive BuildsEach (registry : Registry W A P) :
    List (String × Option String) → W → List (Gate P) → W → Prop where
  | nil (world : W) : BuildsEach registry [] world [] world
  | cons {name : String} {argument : Option String} {construct : Option String → W → Option (Gate P) × W}
      {world during after : W} {gate : Gate P} {rest : List (String × Option String)} {gates : List (Gate P)}
      (known : registry.gate? name = some construct) (built : construct argument world = (some gate, during))
      (others : BuildsEach registry rest during gates after) :
      BuildsEach registry ((name, argument) :: rest) world (gate :: gates) after

def refusal (registry : Registry W A P) (name : String) (argument : Option String) : LoadError :=
  if (registry.gate? name).isSome then .rejectedArgument name argument else .missingGate name

variable {registry : Registry W A P}

theorem BuildsEach.append {first second : List (String × Option String)} {world during after : W}
    {gates more : List (Gate P)} (builds : BuildsEach registry first world gates during)
    (followed : BuildsEach registry second during more after) :
    BuildsEach registry (first ++ second) world (gates ++ more) after := by
  induction builds with
  | nil => exact followed
  | cons known built _ ih => exact .cons known built (ih followed)

theorem BuildsEach.accepts (decided : registry.Decided) {atoms : List (String × Option String)} {world after : W}
    {gates : List (Gate P)} (builds : BuildsEach registry atoms world gates after) :
    ∀ atom ∈ atoms, registry.Accepts atom.1 atom.2 := by
  induction builds with
  | nil => exact nofun
  | @cons name argument construct world _ _ _ _ _ known built _ ih =>
    refine List.forall_mem_cons.mpr ⟨⟨construct, known, fun other => ?_⟩, ih⟩
    rw [decided name construct known argument other world, built]
    rfl

end Registry

namespace Condition

inductive Makes : Condition → List (Gate P) → Gate P → Prop where
  | atom (name : String) (argument : Option String) (gate : Gate P) : Makes (.atom name argument) [gate] gate
  | not {operand : Condition} {gates : List (Gate P)} {gate : Gate P} (makes : Makes operand gates gate) :
      Makes (.not operand) gates (.not gate)
  | and {left right : Condition} {gates more : List (Gate P)} {first second : Gate P}
      (makesLeft : Makes left gates first) (makesRight : Makes right more second) :
      Makes (.and left right) (gates ++ more) (.and first second)
  | or {left right : Condition} {gates more : List (Gate P)} {first second : Gate P}
      (makesLeft : Makes left gates first) (makesRight : Makes right more second) :
      Makes (.or left right) (gates ++ more) (.or first second)

theorem Makes.length_eq {condition : Condition} {gates : List (Gate P)} {gate : Gate P}
    (makes : Makes condition gates gate) : gates.length = condition.atoms.length := by
  induction makes with
  | atom => rfl
  | not _ ih => exact ih
  | and _ _ ihl ihr | or _ _ ihl ihr => rw [List.length_append, ihl, ihr, atoms, List.length_append]

variable {registry : Registry W A P}

theorem makes_of_ok {condition : Condition} {world after : W} {gate : Gate P}
    (loaded : condition.load registry world = (.ok gate, after)) :
    ∃ gates, registry.BuildsEach condition.atoms world gates after ∧ Makes condition gates gate := by
  induction condition generalizing world after gate with
  | atom name argument =>
    obtain ⟨construct, known, built⟩ := load_atom_eq_ok.mp loaded
    exact ⟨[gate], .cons known built (.nil after), .atom name argument gate⟩
  | not operand ih =>
    rw [load, Loading.bind_eq_ok] at loaded
    obtain ⟨inner, during, loaded, ends⟩ := loaded
    obtain ⟨gates, builds, makes⟩ := ih loaded
    cases ends
    exact ⟨gates, builds, makes.not⟩
  | and left right ihl ihr | or left right ihl ihr =>
    simp only [load, Loading.bind_eq_ok] at loaded
    obtain ⟨first, during, loaded, second, _, loadedRight, ends⟩ := loaded
    obtain ⟨gates, builds, makes⟩ := ihl loaded
    obtain ⟨more, buildsRight, makesRight⟩ := ihr loadedRight
    cases ends
    refine ⟨gates ++ more, builds.append buildsRight, ?_⟩
    first
      | exact makes.and makesRight
      | exact makes.or makesRight

theorem refusal_of_error {condition : Condition} {world after : W} {error : LoadError}
    (failed : condition.load registry world = (.error error, after)) :
    ∃ front name argument rear, condition.atoms = front ++ (name, argument) :: rear ∧
      (∃ gates during, registry.BuildsEach front world gates during) ∧
      ¬ registry.Accepts name argument ∧ error = registry.refusal name argument := by
  induction condition generalizing world after with
  | atom name argument =>
    refine ⟨[], name, argument, [], rfl, ⟨[], world, .nil world⟩, ?_⟩
    rw [load_atom] at failed
    rw [Registry.refusal]
    cases known : registry.gate? name with
    | none =>
      rw [known] at failed
      cases failed
      refine ⟨?_, rfl⟩
      rintro ⟨construct, registered, _⟩
      rw [known] at registered
      cases registered
    | some construct =>
      rw [known] at failed
      rcases built : construct argument world with ⟨_ | gate, during⟩ <;> simp only [built] at failed <;> cases failed
      refine ⟨?_, rfl⟩
      rintro ⟨other, registered, accepts⟩
      rw [known] at registered
      cases registered
      simpa [built] using accepts world
  | not operand ih =>
    rw [load, Loading.bind_eq_error] at failed
    rcases failed with failed | ⟨_, _, _, failed⟩
    · exact ih failed
    · cases failed
  | and left right ihl ihr | or left right ihl ihr =>
    rw [load, Loading.bind_eq_error] at failed
    rcases failed with failed | ⟨first, during, loaded, failed⟩
    · obtain ⟨front, name, argument, rear, atoms_eq, rest⟩ := ihl failed
      refine ⟨front, name, argument, rear ++ right.atoms, ?_, rest⟩
      rw [atoms, atoms_eq, List.append_assoc, List.cons_append]
    rw [Loading.bind_eq_error] at failed
    rcases failed with failed | ⟨_, _, _, failed⟩
    -- The left operand was loaded, so all its atoms were built before the one that is refused.
    · obtain ⟨before, builds, _⟩ := makes_of_ok loaded
      obtain ⟨front, name, argument, rear, atoms_eq, ⟨more, later, buildsFront⟩, rest⟩ := ihr failed
      refine ⟨left.atoms ++ front, name, argument, rear, ?_, ⟨_, later, builds.append buildsFront⟩, rest⟩
      rw [atoms, atoms_eq, List.append_assoc]
    · cases failed

theorem not_accepts_of_error {condition : Condition} {world after : W} {error : LoadError}
    (failed : condition.load registry world = (.error error, after)) :
    (∃ atom ∈ condition.atoms, ¬ registry.Accepts atom.1 atom.2) ∧ ∀ tree, error ≠ .selfReference tree := by
  obtain ⟨front, name, argument, rear, atoms_eq, _, rejected, rfl⟩ := refusal_of_error failed
  refine ⟨⟨(name, argument), ?_, rejected⟩, fun tree => ?_⟩
  · rw [atoms_eq]
    exact List.mem_append_right _ List.mem_cons_self
  · rw [Registry.refusal]
    split <;> exact nofun

theorem accepts_of_ok (decided : registry.Decided) {condition : Condition} {world after : W} {gate : Gate P}
    (loaded : condition.load registry world = (.ok gate, after)) :
    ∀ atom ∈ condition.atoms, registry.Accepts atom.1 atom.2 := by
  obtain ⟨_, builds, _⟩ := makes_of_ok loaded
  exact builds.accepts decided

end Condition

/-- A definition taken by itself: a registered type has as many children as its kind takes, any other type
names a tree and has none, and the atoms of the condition can be built. -/
structure Definition.Valid (source : Source) (registry : Registry W A P) (definition : Definition) : Prop where
  kind : ∀ construct, registry.kind? definition.type = some construct → ∀ world : W,
    (construct world).1.minChildren ≤ definition.children.length ∧
      (ChildLimit.finite definition.children.length).le (construct world).1.maxChildren = true
  reference : registry.kind? definition.type = none →
    (source.find? definition.type).isSome = true ∧ definition.children = []
  gate : ∀ condition, definition.when = some condition → ∀ atom ∈ condition.atoms, registry.Accepts atom.1 atom.2

namespace Source

/-- A tree refers to every type in its definition that is not registered. -/
def Refers (source : Source) (registry : Registry W A P) (name other : String) : Prop :=
  ∃ tree definition, source.find? name = some tree ∧ definition ∈ tree.root.preorder ∧ definition.type = other ∧
    registry.kind? other = none

abbrev Reaches (source : Source) (registry : Registry W A P) : String → String → Prop :=
  ReflTransGen (source.Refers registry)

def Valid (source : Source) (registry : Registry W A P) (name : String) : Prop :=
  ∀ reached tree definition, source.Reaches registry name reached → source.find? reached = some tree →
    definition ∈ tree.root.preorder → definition.Valid source registry

/-- No tree that can be reached leads back to itself. -/
def Acyclic (source : Source) (registry : Registry W A P) (name : String) : Prop :=
  NoCycle (source.Refers registry) name

variable {source : Source} {registry : Registry W A P} {name : String}

/-- What an error tells: a tree that leads back to itself, or else a definition that is not valid. -/
def Blames (source : Source) (registry : Registry W A P) (name : String) : LoadError → Prop
  | .selfReference tree => (source.find? tree).isSome = true ∧ source.Reaches registry name tree ∧
      TransGen (source.Refers registry) tree tree
  | _ => ¬ source.Valid registry name

theorem blames_of_not_valid {error : LoadError} (invalid : ¬ source.Valid registry name)
    (other : ∀ tree, error ≠ .selfReference tree) : Blames source registry name error := by
  cases error with
  | selfReference tree => exact absurd rfl (other tree)
  | missingTree | missingNode | missingGate | rejectedArgument | emptyComposite | rejectedChild => exact invalid

theorem Blames.of_valid {error : LoadError} (blames : Blames source registry name error)
    (valid : source.Valid registry name) :
    ∃ tree, error = .selfReference tree ∧ source.Reaches registry name tree ∧
      TransGen (source.Refers registry) tree tree := by
  cases error with
  | selfReference tree => exact ⟨tree, rfl, blames.2⟩
  | missingTree | missingNode | missingGate | rejectedArgument | emptyComposite | rejectedChild =>
    exact absurd valid blames

variable [Host W]

theorem blames_of_error {loading : List String} {definition : Definition} {here : String} {rest : List String}
    {tree : TreeDefinition} (path : Path (source.Refers registry) name loading) (last : loading = here :: rest)
    (found : source.find? here = some tree) (inside : definition ∈ tree.root.preorder) {world after : W}
    {error : LoadError} (failed : source.loadNode registry loading definition world = (.error error, after)) :
    Blames source registry name error := by
  induction loading, definition using load_induction source registry generalizing here rest tree world after error with
  | step loading definition children reference =>
    subst last
    obtain ⟨begun, onward⟩ := path.reaches
    have reason := loadNode_eq_error failed
    have valid (valid : source.Valid registry name) : definition.Valid source registry :=
      valid here tree definition begun found inside
    -- The way to the definition shows that whatever is wrong with it can be reached.
    cases reason with
    | type refused =>
      obtain ⟨unknown, ⟨missing, rfl⟩ | ⟨busy, present, rfl⟩ | ⟨parent, rfl⟩⟩ := target_eq_error refused
      · intro sound
        have known := ((valid sound).reference unknown).1
        rw [missing] at known
        cases known
      · -- A tree that is still being loaded leads here, and the reference leads back to it.
        have refers : source.Refers registry here definition.type := ⟨tree, definition, found, inside, rfl, unknown⟩
        exact ⟨present, begun.tail refers, .tail' (onward definition.type busy) refers⟩
      · intro sound
        rw [((valid sound).reference unknown).2] at parent
        cases parent
    | tree target unloaded =>
      obtain ⟨unknown, known, _, _⟩ := target_eq_tree.mp target
      have refers : source.Refers registry here definition.type := ⟨tree, definition, found, inside, rfl, unknown⟩
      exact reference _ target (path.step refers) rfl known (Definition.mem_preorder_self _) unloaded
    | gate ungated =>
      cases condition : definition.when with
      | none =>
        rw [condition] at ungated
        cases ungated
      | some asked =>
        rw [condition, Definition.loadGate, Loading.bind_eq_error] at ungated
        rcases ungated with ungated | ⟨_, _, _, ended⟩
        · obtain ⟨⟨atom, member, rejected⟩, other⟩ := Condition.not_accepts_of_error ungated
          exact blames_of_not_valid (fun sound => rejected ((valid sound).gate asked condition atom member)) other
        · cases ended
    | child member unloaded =>
      exact children _ member path rfl found (Definition.mem_preorder_of_child inside member) unloaded
    | @many construct world count cause known below full =>
      intro sound
      have fits := ((valid sound).kind construct known world).2
      rw [ChildLimit.le_trans_lt below fits] at full
      cases full
    | @few construct world name known few =>
      intro sound
      exact absurd ((valid sound).kind construct known world).1 (Nat.not_le_of_lt few)

/-- A tree of this name loads after the trees that are being loaded. -/
def LoadsTree (source : Source) (registry : Registry W A P) (loading : List String) (name : String) : Prop :=
  ∃ tree world node after, source.find? name = some tree ∧
    source.loadNode registry (name :: loading) tree.root world = (.ok node, after)

theorem LoadsTree.of_reference {loading : List String} {definition other : Definition} {world after : W}
    {node : Node A P} (loaded : source.loadNode registry loading definition world = (.ok node, after))
    (inside : other ∈ definition.preorder) (unknown : registry.kind? other.type = none) :
    other.type ∉ loading ∧ LoadsTree source registry loading other.type := by
  induction definition using Definition.induction generalizing world after node with
  | mk definition ih =>
    have loads := loadNode_eq_ok.mp loaded
    rw [Definition.mem_preorder] at inside
    cases loads with
    | kind known _ each _ _ =>
      rcases inside with rfl | ⟨child, member, below⟩
      · rw [unknown] at known
        cases known
      · obtain ⟨before, inner, later, loaded⟩ := each.of_mem member
        exact ih child member loaded below
    | tree _ found free leaf within _ =>
      rcases inside with rfl | ⟨child, member, _⟩
      · exact ⟨free, _, _, _, _, found, within⟩
      · rw [leaf] at member
        cases member

theorem LoadsTree.refers {loading : List String} {here next : String} (loads : LoadsTree source registry loading here)
    (refers : source.Refers registry here next) :
    next ∉ here :: loading ∧ LoadsTree source registry (here :: loading) next := by
  obtain ⟨tree, world, node, after, found, loaded⟩ := loads
  obtain ⟨other, definition, same, inside, rfl, unknown⟩ := refers
  rw [found] at same
  cases same
  exact of_reference loaded inside unknown

theorem LoadsTree.reaches {loading : List String} {here there : String} (loads : LoadsTree source registry loading here)
    (reached : source.Reaches registry here there) :
    ∃ rest, LoadsTree source registry rest there ∧ here :: loading ⊆ there :: rest := by
  induction reached with
  | refl => exact ⟨loading, loads, List.Subset.refl _⟩
  | tail _ refers ih =>
    obtain ⟨rest, loads, kept⟩ := ih
    exact ⟨_, (loads.refers refers).2, fun name member => List.mem_cons_of_mem _ (kept member)⟩

theorem LoadsTree.not_transGen {loading : List String} {here : String} (loads : LoadsTree source registry loading here) :
    ¬ TransGen (source.Refers registry) here here := by
  -- A tree that loads does not lead back to itself: it would be found among those being loaded.
  intro cycle
  obtain ⟨last, reached, refers⟩ := TransGen.tail'_iff.mp cycle
  obtain ⟨rest, loads, kept⟩ := loads.reaches reached
  exact (loads.refers refers).1 (kept List.mem_cons_self)

theorem valid_of_ok (uniform : registry.Uniform) {loading : List String} {definition : Definition} {world after : W}
    {node : Node A P} (loaded : source.loadNode registry loading definition world = (.ok node, after)) :
    ∀ other ∈ definition.preorder, other.Valid source registry := by
  induction definition using Definition.induction generalizing world after node with
  | mk definition ih =>
    have gate {during later : W} {built : Option (Gate P)}
        (gated : Definition.loadGate registry definition.when during = (.ok built, later)) :
        ∀ condition, definition.when = some condition →
          ∀ atom ∈ condition.atoms, registry.Accepts atom.1 atom.2 := by
      intro condition asked
      rw [asked, Definition.loadGate, Loading.bind_eq_ok] at gated
      obtain ⟨_, _, built, _⟩ := gated
      exact Condition.accepts_of_ok uniform.accepts built
    have loads := loadNode_eq_ok.mp loaded
    intro other inside
    rw [Definition.mem_preorder] at inside
    cases loads with
    | @kind construct built nodes during _ known gated each enough fits =>
      rcases inside with rfl | ⟨child, member, below⟩
      · refine ⟨fun same registered elsewhere => ?_, fun unknown => ?_, gate gated⟩
        · rw [known] at registered
          cases registered
          -- Constructed again, the kind takes as many children as the one that was loaded.
          obtain ⟨least, most⟩ := uniform.limits _ construct known elsewhere world
          rw [least, most, ← each.length_eq]
          exact ⟨enough, fits⟩
        · rw [unknown] at known
          cases known
      · obtain ⟨before, inner, later, loaded⟩ := each.of_mem member
        exact ih child member loaded other below
    | tree unknown found _ leaf _ gated =>
      rcases inside with rfl | ⟨child, member, _⟩
      · refine ⟨fun construct known => ?_, fun _ => ⟨by rw [found]; rfl, leaf⟩, gate gated⟩
        rw [unknown] at known
        cases known
      · rw [leaf] at member
        cases member

theorem load_of_found {tree : TreeDefinition} (found : source.find? name = some tree) (world : W) :
    source.load registry name world = source.loadNode registry [name] tree.root world := by
  have same : tree.name = name := by simpa using List.find?_some found
  rw [load, found, ← same]

theorem loadsTree_of_load {world after : W} {node : Node A P}
    (loaded : source.load registry name world = (.ok node, after)) : LoadsTree source registry [] name := by
  cases found : source.find? name with
  | none =>
    rw [load, found] at loaded
    cases loaded
  | some tree =>
    rw [load_of_found found] at loaded
    exact ⟨tree, world, node, after, found, loaded⟩

theorem acyclic_of_load {world after : W} {node : Node A P}
    (loaded : source.load registry name world = (.ok node, after)) : source.Acyclic registry name := by
  intro reached path
  obtain ⟨rest, loads, _⟩ := (loadsTree_of_load loaded).reaches path
  exact loads.not_transGen

theorem valid_of_load (uniform : registry.Uniform) {world after : W} {node : Node A P}
    (loaded : source.load registry name world = (.ok node, after)) : source.Valid registry name := by
  intro reached tree definition path found inside
  obtain ⟨rest, ⟨other, _, _, _, same, loads⟩, _⟩ := (loadsTree_of_load loaded).reaches path
  rw [found] at same
  cases same
  exact valid_of_ok uniform loads definition inside

theorem blames_of_load {world after : W} {tree : TreeDefinition} {error : LoadError}
    (found : source.find? name = some tree) (failed : source.load registry name world = (.error error, after)) :
    Blames source registry name error := by
  rw [load_of_found found] at failed
  exact blames_of_error .start rfl found (Definition.mem_preorder_self _) failed

/-- Loading always ends. It ends with a node exactly if there is a tree of the name, every definition that the
name reaches is valid, and no tree that it reaches leads back to itself. Where only the last is wrong, the
error names a tree, and the tree that such an error names exists, is reached, and leads back to itself. -/
theorem load_iff (uniform : registry.Uniform) (name : String) (world : W) :
    ((∃ node after, source.load registry name world = (.ok node, after)) ↔
      (source.find? name).isSome = true ∧ source.Valid registry name ∧ source.Acyclic registry name) ∧
    ((source.find? name).isSome = true → source.Valid registry name → ¬ source.Acyclic registry name →
      ∃ tree after, source.load registry name world = (.error (.selfReference tree), after)) ∧
    (∀ tree after, source.load registry name world = (.error (.selfReference tree), after) →
      (source.find? tree).isSome = true ∧ source.Reaches registry name tree ∧
        TransGen (source.Refers registry) tree tree) := by
  have blames {error : LoadError} {after : W} (present : (source.find? name).isSome = true)
      (failed : source.load registry name world = (.error error, after)) : Blames source registry name error := by
    obtain ⟨tree, found⟩ := Option.isSome_iff_exists.mp present
    exact blames_of_load found failed
  refine ⟨⟨?_, ?_⟩, ?_, ?_⟩
  · rintro ⟨node, after, loaded⟩
    obtain ⟨tree, _, _, _, found, _⟩ := loadsTree_of_load loaded
    exact ⟨by rw [found]; rfl, valid_of_load uniform loaded, acyclic_of_load loaded⟩
  -- A load that failed would have a cycle to blame.
  · rintro ⟨present, valid, acyclic⟩
    rcases loaded : source.load registry name world with ⟨error | node, after⟩
    · obtain ⟨tree, _, reached, cycle⟩ := (blames present loaded).of_valid valid
      exact absurd cycle (acyclic tree reached)
    · exact ⟨node, after, rfl⟩
  · intro present valid cyclic
    rcases loaded : source.load registry name world with ⟨error | node, after⟩
    · obtain ⟨tree, rfl, _⟩ := (blames present loaded).of_valid valid
      exact ⟨tree, after, rfl⟩
    · exact absurd (acyclic_of_load loaded) cyclic
  · intro tree after failed
    cases found : source.find? name with
    | none =>
      rw [load, found] at failed
      cases failed
    | some _ => exact blames (by rw [found]; rfl) failed

/-! An outpost with two turns of one watch. -/

def outpost : Registry World Script.Performer Script.Sensor :=
  Registry.standard.registerKind "Guard" fun world => (.inert, world)

theorem outpost_kind {name : String} {construct : World → Kind Script.Performer × World}
    (known : outpost.kind? name = some construct) : ∃ kind, ∀ world, (construct world).1 = kind := by
  simp only [outpost, Registry.registerKind, Registry.standard, Registry.kind?, List.lookup_cons, List.lookup_nil] at known
  repeat' split at known
  all_goals cases known
  all_goals exact ⟨_, fun _ => rfl⟩

theorem outpost_gate {name : String} {construct : Option String → World → Option (Gate Script.Sensor) × World}
    (known : outpost.gate? name = some construct) :
    ∃ answer : Option String → Option (Gate Script.Sensor),
      ∀ argument world, (construct argument world).1 = answer argument := by
  simp only [outpost, Registry.registerKind, Registry.standard, Registry.gate?, List.lookup_cons, List.lookup_nil] at known
  repeat' split at known
  all_goals cases known
  all_goals exact ⟨_, fun _ _ => rfl⟩

theorem outpost_uniform : outpost.Uniform where
  limits := by
    intro name construct known one other
    obtain ⟨kind, same⟩ := outpost_kind known
    rw [same, same]
    exact ⟨rfl, rfl⟩
  accepts := by
    intro name construct known argument one other
    obtain ⟨answer, same⟩ := outpost_gate known
    rw [same, same]

def watch : Definition := ⟨"watch", none, none, none, []⟩

def shifts : Source :=
  ⟨[⟨"day", ⟨"Sequence", none, none, none, [watch, watch]⟩⟩, ⟨"watch", ⟨"Guard", none, none, none, []⟩⟩,
    ⟨"watch", ⟨"day", none, none, none, []⟩⟩]⟩

theorem shifts_acyclic : outpost.Uniform ∧ shifts.Valid outpost "day" ∧ shifts.Acyclic outpost "day" := by
  have guard (world : World) : ∃ node,
      shifts.loadNode outpost ["watch", "day"] ⟨"Guard", none, none, none, []⟩ world = (.ok node, world) :=
    ⟨_, loadNode_eq_ok.mpr (.kind rfl rfl .nil (Nat.le_refl 0) rfl)⟩
  have turn (world : World) : ∃ node, shifts.loadNode outpost ["day"] watch world = (.ok node, world) := by
    obtain ⟨node, loaded⟩ := guard world
    exact ⟨_, loadNode_eq_ok.mpr (.tree rfl rfl (by decide) rfl loaded rfl)⟩
  have day : ∃ node after, shifts.load outpost "day" World.empty = (.ok node, after) := by
    obtain ⟨node, loaded⟩ := turn World.empty
    rw [load_of_found rfl]
    exact ⟨_, _, loadNode_eq_ok.mpr (.kind rfl rfl (.cons loaded (.cons loaded .nil)) (Nat.le_succ 1) rfl)⟩
  exact ⟨outpost_uniform, ((load_iff outpost_uniform "day" World.empty).1.mp day).2⟩

end Source

end BehaviorTree
