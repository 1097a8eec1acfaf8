import BehaviorTree.Document
import BehaviorTree.Proofs.Consistency
import BehaviorTree.Proofs.Macros

/-! A document and a source that define the same trees. A node of a document denotes a definition if it says the
same, its condition as a text that is found to be the condition. A document keeps its trees in the order of their
names and a source in that in which they are written, and still both load the same nodes and the same errors. -/

set_option autoImplicit false

namespace BehaviorTree

namespace DocumentNode

mutual

/-- The node says what the definition says, and its children do. -/
inductive Denotes : DocumentNode → Definition → Prop where
  | mk {type : String} {name text : Option String} {when : Option Condition} {cooldown : Option Float}
      {children : List DocumentNode} {definitions : List Definition} :
      text.map Condition.ofText? = when.map some → DenotesEach children definitions →
      Denotes ⟨type, name, text, cooldown, children⟩ ⟨type, name, when, cooldown, definitions⟩

inductive DenotesEach : List DocumentNode → List Definition → Prop where
  | nil : DenotesEach [] []
  | cons {node : DocumentNode} {definition : Definition} {nodes : List DocumentNode} {definitions : List Definition} :
      Denotes node definition → DenotesEach nodes definitions →
      DenotesEach (node :: nodes) (definition :: definitions)

end

theorem readWhen_of_map_eq {text : Option String} {when : Option Condition}
    (same : text.map Condition.ofText? = when.map some) (type : String) : readWhen type text = .ok when := by
  cases text with
  | none =>
    cases when with
    | none => rfl
    | some condition => cases same
  | some text =>
    cases when with
    | none => cases same
    | some condition =>
      have found : Condition.ofText? text = some condition := Option.some.inj same
      rw [readWhen, found]

mutual

theorem Denotes.toDefinition_eq {node : DocumentNode} {definition : Definition} :
    node.Denotes definition → node.toDefinition = .ok definition
  | .mk same children => by
    rw [toDefinition, readWhen_of_map_eq same, children.toDefinitions_eq]
    rfl

theorem DenotesEach.toDefinitions_eq {nodes : List DocumentNode} {definitions : List Definition} :
    DenotesEach nodes definitions → toDefinitions nodes = .ok definitions
  | .nil => rfl
  | .cons first rest => by
    rw [toDefinitions, first.toDefinition_eq, rest.toDefinitions_eq]
    rfl

end

end DocumentNode

namespace Document

/-- A tree of the document, under the name of the other. -/
def Entitles (entry : String × DocumentNode) (tree : TreeDefinition) : Prop :=
  entry.1 = tree.name ∧ entry.2.Denotes tree.root

/-- The document has the trees of the source, be it in another order. -/
def Denotes (document : Document) (source : Source) : Prop :=
  ∃ trees, List.Forall₂ Entitles document.trees trees ∧ trees.Perm source.trees

theorem toTrees_of_forall₂ {entries : List (String × DocumentNode)} {trees : List TreeDefinition}
    (each : List.Forall₂ Entitles entries trees) : toTrees entries = .ok trees := by
  induction each with
  | nil => rfl
  | @cons entry tree entries trees here _ ih =>
    obtain ⟨name, node⟩ := entry
    obtain ⟨rfl, denotes⟩ := here
    rw [toTrees, denotes.toDefinition_eq, ih]
    rfl

theorem Denotes.toSource_eq {document : Document} {source : Source} (denotes : document.Denotes source) :
    ∃ converted, document.toSource = .ok converted ∧ converted.trees.Perm source.trees := by
  obtain ⟨trees, each, reordered⟩ := denotes
  refine ⟨⟨trees⟩, ?_, reordered⟩
  rw [toSource, toTrees_of_forall₂ each]
  rfl

end Document

variable {W A B P Q : Type} [Host W]

namespace Source

variable {source : Source} {registry : Registry W A P} {trees : List TreeDefinition}

/-- All trees are loaded under their names, each by a load of its own. -/
theorem loadAll_eq_ok {world after : W} {nodes : List (String × Node A P)}
    (loaded : source.loadAll registry trees world = (.ok nodes, after)) :
    nodes.map Prod.fst = trees.map TreeDefinition.name ∧
      ∀ entry ∈ nodes, ∃ before later, source.load registry entry.1 before = (.ok entry.2, later) := by
  induction trees generalizing world nodes with
  | nil =>
    cases loaded
    exact ⟨rfl, nofun⟩
  | cons tree rest ih =>
    rw [loadAll, Loading.bind_eq_ok] at loaded
    obtain ⟨node, during, first, loaded⟩ := loaded
    rw [Loading.bind_eq_ok] at loaded
    obtain ⟨others, later, further, ends⟩ := loaded
    cases ends
    obtain ⟨names, each⟩ := ih further
    exact ⟨congrArg (tree.name :: ·) names, List.forall_mem_cons.mpr ⟨⟨world, during, first⟩, each⟩⟩

theorem loadAll_of_each (each : ∀ tree ∈ trees, ∀ world, ∃ node after,
    source.load registry tree.name world = (.ok node, after)) (world : W) :
    ∃ nodes after, source.loadAll registry trees world = (.ok nodes, after) := by
  induction trees generalizing world with
  | nil => exact ⟨[], world, rfl⟩
  | cons tree rest ih =>
    obtain ⟨node, during, first⟩ := each tree List.mem_cons_self world
    obtain ⟨nodes, after, others⟩ := ih (fun other member => each other (List.mem_cons_of_mem _ member)) during
    refine ⟨(tree.name, node) :: nodes, after, ?_⟩
    rw [loadAll, Loading.bind_eq_ok]
    exact ⟨node, during, first, Loading.bind_eq_ok.mpr ⟨nodes, after, others, rfl⟩⟩

end Source

namespace Document

variable {registry : Registry W A P} {action : A → B} {probe : P → Q} {document : Document} {source : Source}

theorem load_eq_ok {converted : Source} (read : document.toSource = .ok converted) {world after : W}
    {nodes : List (String × Node A P)} : document.load registry world = (.ok nodes, after) ↔
      converted.loadAll registry converted.trees world = (.ok nodes, after) := by
  unfold Document.load
  rw [read]
  simp only
  rcases converted.loadAll registry converted.trees world with ⟨error | found, later⟩
  · constructor <;> exact nofun
  · simp

/-- A document and a source that define the same trees, in whatever order, agree. Under every name both load the
same node or fail with the same error, and leave the same environment. The document as a whole loads exactly if
every tree of the source does; it has their names then, and under each the node that the source loads. -/
theorem load_agrees (distinct : (source.trees.map TreeDefinition.name).Nodup) (denotes : document.Denotes source)
    (consistent : registry.Consistent action probe) :
    (∃ converted, document.toSource = .ok converted ∧ ∀ name, converted.load registry name = source.load registry name ∧
      ∀ one other : W, (converted.load registry name one).1.map (Node.exchange action probe) =
        (source.load registry name other).1.map (Node.exchange action probe)) ∧
    ∀ world : W,
      ((∃ nodes after, document.load registry world = (.ok nodes, after)) ↔
        ∀ tree ∈ source.trees, ∃ before node after, source.load registry tree.name before = (.ok node, after)) ∧
      ∀ nodes after, document.load registry world = (.ok nodes, after) →
        (nodes.map Prod.fst).Perm (source.trees.map TreeDefinition.name) ∧
        ∀ name node, (name, node) ∈ nodes → ∀ before, ∃ same later,
          source.load registry name before = (.ok same, later) ∧
            same.exchange action probe = node.exchange action probe := by
  -- The document converts to the same trees in another order, which no load depends on.
  obtain ⟨converted, read, reordered⟩ := denotes.toSource_eq
  have loads (name : String) : converted.load registry name = source.load registry name :=
    (Source.load_congr (Source.find?_of_perm distinct reordered.symm) registry name).symm
  have alike (name : String) := Source.load_alike consistent source name
  refine ⟨⟨converted, read, fun name => ⟨loads name, loads name ▸ alike name⟩⟩, fun world => ⟨?_, ?_⟩⟩
  · constructor
    · rintro ⟨nodes, after, loaded⟩ tree member
      obtain ⟨names, each⟩ := Source.loadAll_eq_ok ((load_eq_ok read).mp loaded)
      have named : tree.name ∈ nodes.map Prod.fst := by
        rw [names]
        exact List.mem_map_of_mem (reordered.mem_iff.mpr member)
      obtain ⟨entry, inside, same⟩ := List.mem_map.mp named
      obtain ⟨before, later, found⟩ := each entry inside
      rw [same, loads] at found
      exact ⟨before, entry.2, later, found⟩
    · intro each
      -- What loads in one environment loads in the one that the trees before it leave behind.
      have every : ∀ tree ∈ converted.trees, ∀ other, ∃ node after,
          converted.load registry tree.name other = (.ok node, after) := by
        intro tree member other
        obtain ⟨before, node, after, found⟩ := each tree (reordered.mem_iff.mp member)
        obtain ⟨same, later, again, _⟩ := (alike tree.name).of_ok found other
        exact ⟨same, later, loads tree.name ▸ again⟩
      obtain ⟨nodes, after, loaded⟩ := Source.loadAll_of_each every world
      exact ⟨nodes, after, (load_eq_ok read).mpr loaded⟩
  · intro nodes after loaded
    obtain ⟨names, each⟩ := Source.loadAll_eq_ok ((load_eq_ok read).mp loaded)
    refine ⟨names ▸ reordered.map TreeDefinition.name, fun name node member before => ?_⟩
    obtain ⟨earlier, later, found⟩ := each (name, node) member
    rw [loads] at found
    exact (alike name).of_ok found before

/-! The camp with its posts first, and as a document. -/

def barracks : Source := ⟨Source.camp.trees.reverse⟩

def orders : Document := ⟨[
  ("day", ⟨"Sequence", none, none, none,
    [⟨"patrol", none, some "IsTrue(\"dark\")", some 5, []⟩,
      ⟨"patrol", none, some " (IsTrue(\"dark\")) ", some 5, []⟩]⟩),
  ("patrol", ⟨"post", some "north", some "True", none, []⟩),
  ("post", ⟨"Guard", none, some "! False", some 2, []⟩)]⟩

theorem orders_denotes : orders.Denotes barracks := by
  have dark : Condition.ofText? "IsTrue(\"dark\")" = some (.atom "IsTrue" (some "dark")) := by decide +kernel
  have enclosed : Condition.ofText? " (IsTrue(\"dark\")) " = some (.atom "IsTrue" (some "dark")) := by decide +kernel
  have always : Condition.ofText? "True" = some (.atom "True" none) := by decide +kernel
  have watched : Condition.ofText? "! False" = some (.not (.atom "False" none)) := by decide +kernel
  refine ⟨Source.camp.trees, .cons ⟨rfl, ?_⟩ (.cons ⟨rfl, ?_⟩ (.cons ⟨rfl, ?_⟩ .nil)), (List.reverse_perm _).symm⟩
  · exact .mk rfl (.cons (.mk (congrArg some dark) .nil) (.cons (.mk (congrArg some enclosed) .nil) .nil))
  · exact .mk (congrArg some always) .nil
  · exact .mk (congrArg some watched) .nil

theorem orders_agree : (barracks.trees.map TreeDefinition.name).Nodup ∧ orders.Denotes barracks ∧
    Source.outpost.Consistent id id ∧ ∃ converted, orders.toSource = .ok converted ∧
      ∀ name, converted.load Source.outpost name = barracks.load Source.outpost name := by
  have distinct : (barracks.trees.map TreeDefinition.name).Nodup := by decide
  obtain ⟨⟨converted, read, agree⟩, _⟩ := load_agrees distinct orders_denotes Source.outpost_consistent
  exact ⟨distinct, orders_denotes, Source.outpost_consistent, converted, read, fun name => (agree name).1⟩

end Document

end BehaviorTree
