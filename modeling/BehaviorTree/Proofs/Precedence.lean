import BehaviorTree.Document.Decoding
import BehaviorTree.Proofs.Bytewise
import BehaviorTree.Proofs.Documents

/-! Which error a document that cannot be loaded is answered with. The conditions of all trees come before the
loads of any: the first that cannot be read is reported, tree by tree in the order of their names and each node
before its children. Only if all can be read the trees are loaded, in the same order, and the first that fails is
reported, whichever other trees it refers to. -/

set_option autoImplicit false

namespace BehaviorTree

namespace DocumentNode

mutual

def preorder : DocumentNode → List DocumentNode
  | ⟨type, name, text, cooldown, children⟩ => ⟨type, name, text, cooldown, children⟩ :: preorderAll children

def preorderAll : List DocumentNode → List DocumentNode
  | [] => []
  | node :: rest => node.preorder ++ preorderAll rest

end

def Rejects (node : DocumentNode) (text : String) : Prop :=
  node.when = some text ∧ Condition.ofText? text = none

def Accepted (node : DocumentNode) : Prop := ∀ text, ¬ node.Rejects text

inductive FirstRejected : List DocumentNode → DocumentNode → String → Prop where
  | here {node : DocumentNode} {rest : List DocumentNode} {text : String} :
      node.Rejects text → FirstRejected (node :: rest) node text
  | later {first node : DocumentNode} {rest : List DocumentNode} {text : String} :
      first.Accepted → FirstRejected rest node text → FirstRejected (first :: rest) node text

namespace FirstRejected

variable {nodes others : List DocumentNode} {node other : DocumentNode} {text further : String}

theorem mem_and_rejects (first : FirstRejected nodes node text) : node ∈ nodes ∧ node.Rejects text := by
  induction first with
  | here rejects => exact ⟨List.mem_cons_self, rejects⟩
  | later _ _ ih => exact ⟨List.mem_cons_of_mem _ ih.1, ih.2⟩

theorem append (first : FirstRejected nodes node text) : FirstRejected (nodes ++ others) node text := by
  induction first with
  | here rejects => exact .here rejects
  | later accepted _ ih => exact .later accepted ih

theorem of_accepted (accepted : ∀ node ∈ nodes, node.Accepted) (first : FirstRejected others node text) :
    FirstRejected (nodes ++ others) node text := by
  induction nodes with
  | nil => exact first
  | cons one rest ih =>
    obtain ⟨here, others⟩ := List.forall_mem_cons.mp accepted
    exact .later here (ih others)

theorem unique (first : FirstRejected nodes node text) (second : FirstRejected nodes other further) :
    node = other ∧ text = further := by
  induction first with
  | here rejects =>
    cases second with
    | here again => exact ⟨rfl, Option.some.inj (rejects.1.symm.trans again.1)⟩
    | later accepted _ => exact absurd rejects (accepted _)
  | later accepted _ ih =>
    cases second with
    | here rejects => exact absurd rejects (accepted _)
    | later _ second => exact ih second

end FirstRejected

/-- What some nodes are converted to: a value of the form asked for if all their conditions can be read, and else
the first that cannot. -/
inductive Converts {α : Type} (nodes : List DocumentNode) (form : α → Prop) : Except DocumentError α → Prop where
  | read {value : α} : (∀ node ∈ nodes, node.Accepted) → form value → Converts nodes form (.ok value)
  | rejected {node : DocumentNode} {text : String} : FirstRejected nodes node text →
      Converts nodes form (.error (.condition node.type text))

namespace Converts

variable {α β : Type} {nodes others : List DocumentNode} {form : α → Prop} {shape : β → Prop}

theorem pure {value : α} (holds : form value) : Converts [] form (pure value) := .read nofun holds

theorem bind {first : Except DocumentError α} {next : α → Except DocumentError β} (converts : Converts nodes form first)
    (further : ∀ value, form value → Converts others shape (next value)) :
    Converts (nodes ++ others) shape (first >>= next) := by
  cases converts with
  | rejected found => exact .rejected found.append
  | @read value accepted holds =>
    have converts := further value holds
    change Converts _ _ (next value)
    generalize next value = result at converts
    cases converts with
    | rejected found => exact .rejected (.of_accepted accepted found)
    | read others holds =>
      exact .read (fun node member => (List.mem_append.mp member).elim (accepted node) (others node)) holds

end Converts

theorem readWhen_converts (node : DocumentNode) :
    Converts [node] (fun when => node.when.map Condition.ofText? = when.map some) (readWhen node.type node.when) := by
  obtain ⟨type, name, text, cooldown, children⟩ := node
  cases text with
  | none => exact .read (by simp [Accepted, Rejects]) rfl
  | some text =>
    rw [readWhen]
    cases found : Condition.ofText? text with
    | none => exact .rejected (.here ⟨rfl, found⟩)
    | some condition => exact .read (by simp [Accepted, Rejects, found]) (by simp [found])

mutual

theorem toDefinition_converts : ∀ node : DocumentNode, Converts node.preorder node.Denotes node.toDefinition
  | ⟨type, name, text, cooldown, children⟩ => by
    -- One list of nodes for each of the three steps; the last takes none.
    rw [toDefinition, preorder, ← List.append_nil (preorderAll children)]
    refine (readWhen_converts ⟨type, name, text, cooldown, children⟩).bind fun when same => ?_
    exact (toDefinitions_converts children).bind fun definitions each => .pure (.mk same each)

theorem toDefinitions_converts : ∀ nodes : List DocumentNode,
    Converts (preorderAll nodes) (DenotesEach nodes) (toDefinitions nodes)
  | [] => by
    rw [toDefinitions, preorderAll]
    exact .pure .nil
  | node :: rest => by
    rw [toDefinitions, preorderAll, ← List.append_nil (preorderAll rest)]
    refine (toDefinition_converts node).bind fun definition here => ?_
    exact (toDefinitions_converts rest).bind fun definitions each => .pure (.cons here each)

end

end DocumentNode

namespace Document

def names (document : Document) : List String := document.trees.map Prod.fst

/-- Every name once, in the order of their bytes. -/
def Ordered (document : Document) : Prop :=
  document.trees.Pairwise fun one other => Text.bytes one.1 < Text.bytes other.1

/-! Whatever is decoded is ordered. -/

section Decoding

variable {trees found : List (String × DocumentNode)}

theorem mem_insert {name : String} {root : DocumentNode} {entry : String × DocumentNode}
    (member : entry ∈ insert name root trees) : entry = (name, root) ∨ entry ∈ trees := by
  induction trees with
  | nil => exact .inl (List.mem_singleton.mp member)
  | cons first rest ih =>
    rw [insert] at member
    split at member
    · exact List.mem_cons.mp member
    split at member
    · exact (List.mem_cons.mp member).imp_right (List.mem_cons_of_mem first)
    · rcases List.mem_cons.mp member with rfl | member
      · exact .inr List.mem_cons_self
      · exact (ih member).imp_right (List.mem_cons_of_mem first)

theorem insert_ordered (name : String) (root : DocumentNode) (ordered : Ordered ⟨trees⟩) :
    Ordered ⟨insert name root trees⟩ := by
  induction trees with
  | nil => exact List.pairwise_singleton _ _
  | cons first rest ih =>
    obtain ⟨above, sorted⟩ := List.pairwise_cons.mp ordered
    rw [insert]
    -- The name is less than the first one, or it is the first one, or its place is further on.
    split
    · next less =>
      have less : Text.bytes name < Text.bytes first.1 := Text.bytes_lt less
      refine List.pairwise_cons.mpr ⟨fun other member => ?_, ordered⟩
      rcases List.mem_cons.mp member with rfl | member
      · exact less
      · exact List.lt_trans less (above other member)
    split
    · next same =>
      subst same
      exact List.pairwise_cons.mpr ⟨above, sorted⟩
    · next other different =>
      have greater : Text.bytes first.1 < Text.bytes name :=
        Text.bytes_lt ((lt_trichotomy name first.1).resolve_left other |>.resolve_left different)
      refine List.pairwise_cons.mpr ⟨fun entry member => ?_, ih sorted⟩
      rcases mem_insert member with rfl | member
      · exact greater
      · exact above entry member

theorem decodeTrees?_ordered {depth : Nat} {entries : List (Yaml.Content × Yaml.Content)} (ordered : Ordered ⟨trees⟩)
    (decoded : decodeTrees? depth trees entries = some found) : Ordered ⟨found⟩ := by
  induction entries generalizing trees with
  | nil => exact Option.some.inj decoded ▸ ordered
  | cons entry rest ih =>
    simp only [decodeTrees?, Option.bind_eq_bind, Option.bind_eq_some_iff] at decoded
    obtain ⟨name, _, root, _, decoded⟩ := decoded
    exact ih (insert_ordered name root ordered) decoded

theorem decodeTreeMapping?_ordered {content : Yaml.Content} (decoded : decodeTreeMapping? content = some found) :
    Ordered ⟨found⟩ := by
  cases content with
  | mapping entries => exact decodeTrees?_ordered .nil decoded
  | _ => cases decoded

theorem optional?_ordered {content : Yaml.Content}
    (decoded : content.optional? decodeTreeMapping? = some (some found)) : Ordered ⟨found⟩ := by
  cases content with
  | scalar tag value =>
    rw [Yaml.Content.optional?, Option.bind_eq_bind, Option.bind_eq_some_iff] at decoded
    obtain ⟨empty, _, decoded⟩ := decoded
    cases empty <;> cases decoded
  | mapping entries =>
    obtain ⟨trees, read, same⟩ := Option.map_eq_some_iff.mp decoded
    exact decodeTreeMapping?_ordered (read.trans same)
  | _ => cases decoded

theorem decodeEntries?_ordered {field : Option (Option (List (String × DocumentNode)))}
    {entries : List (Yaml.Content × Yaml.Content)} (ordered : ∀ trees, field = some (some trees) → Ordered ⟨trees⟩)
    (decoded : decodeEntries? field entries = some (some found)) : Ordered ⟨found⟩ := by
  induction entries generalizing field with
  | nil => exact ordered found (Option.join_eq_some_iff.mp (Option.some.inj decoded))
  | cons entry rest ih =>
    simp only [decodeEntries?, Option.bind_eq_bind, Option.bind_eq_some_iff] at decoded
    obtain ⟨key, _, decoded⟩ := decoded
    split at decoded
    · obtain ⟨filled, fills, decoded⟩ := Option.bind_eq_some_iff.mp decoded
      refine ih (fun trees same => ?_) decoded
      rw [fill?] at fills
      split at fills
      · cases fills
      · obtain ⟨read, taken, rfl⟩ := Option.map_eq_some_iff.mp fills
        cases same
        exact optional?_ordered taken
    · exact ih ordered decoded

theorem ofText_ordered {text : String} {document : Document} (decoded : ofText text = .ok document) :
    document.Ordered := by
  unfold ofText at decoded
  split at decoded
  · cases decoded
  · cases decoded
  · next trees read =>
    cases decoded
    obtain ⟨content, _, read⟩ := Option.bind_eq_some_iff.mp read
    cases content with
    | mapping entries =>
      refine decodeEntries?_ordered ?_ read
      exact nofun
    | sequence items =>
      rcases items with _ | ⟨item, _ | ⟨other, rest⟩⟩
      · cases read
      · exact optional?_ordered read
      · cases read
    | _ => cases read

end Decoding

/-- The node is the first whose condition cannot be read: in its own tree, and in all trees with lesser names. -/
def FirstRejected (document : Document) (name : String) (node : DocumentNode) (text : String) : Prop :=
  (∃ root, (name, root) ∈ document.trees ∧ DocumentNode.FirstRejected root.preorder node text) ∧
    ∀ entry ∈ document.trees, Text.bytes entry.1 < Text.bytes name → ∀ other ∈ entry.2.preorder, other.Accepted

def Accepted (document : Document) : Prop := ∀ entry ∈ document.trees, ∀ node ∈ entry.2.preorder, node.Accepted

theorem toTrees_converts {document : Document} (ordered : document.Ordered) :
    (∃ trees, toTrees document.trees = .ok trees ∧ document.Accepted ∧ List.Forall₂ Entitles document.trees trees) ∨
      ∃ name node text, document.FirstRejected name node text ∧
        toTrees document.trees = .error (.condition node.type text) := by
  obtain ⟨entries⟩ := document
  induction entries with
  | nil => exact .inl ⟨[], rfl, nofun, .nil⟩
  | cons entry rest ih =>
    obtain ⟨name, root⟩ := entry
    obtain ⟨least, ordered⟩ := List.pairwise_cons.mp ordered
    have converts := root.toDefinition_converts
    simp only [toTrees]
    generalize root.toDefinition = result at converts
    cases converts with
    | rejected first =>
      -- No name is less than the first one, so nothing comes before its tree.
      refine .inr ⟨name, _, _, ⟨⟨root, List.mem_cons_self, first⟩, fun entry member less => ?_⟩, rfl⟩
      have greater : ∀ other ∈ rest.map Prod.fst, Text.bytes name < Text.bytes other := List.forall_mem_map.mpr least
      exact absurd less (Text.not_bytes_lt_of_mem_cons greater (List.mem_map_of_mem member))
    | @read definition accepted denotes =>
      rcases ih ordered with ⟨trees, converted, others, each⟩ | ⟨other, node, text, first, failed⟩
      · refine .inl ⟨⟨name, definition⟩ :: trees, ?_, ?_, .cons ⟨rfl, denotes⟩ each⟩
        · rw [converted]
          rfl
        · exact List.forall_mem_cons.mpr ⟨accepted, others⟩
      · obtain ⟨⟨tree, member, first⟩, before⟩ := first
        refine .inr ⟨other, node, text, ⟨⟨tree, List.mem_cons_of_mem _ member, first⟩, ?_⟩, ?_⟩
        · exact List.forall_mem_cons.mpr ⟨fun _ => accepted, before⟩
        · rw [failed]
          rfl

theorem Ordered.eq_of_name {document : Document} (ordered : document.Ordered) {one other : String × DocumentNode}
    (member : one ∈ document.trees) (present : other ∈ document.trees) (same : one.1 = other.1) : one = other := by
  have distinct : (document.trees.map Prod.fst).Nodup := by
    refine List.pairwise_map.mpr (ordered.imp fun {one other} less same => ?_)
    rw [same] at less
    exact List.lt_irrefl _ less
  exact List.inj_on_of_nodup_map distinct member present same

theorem FirstRejected.unique {document : Document} (ordered : document.Ordered) {name other : String}
    {node inner : DocumentNode} {text further : String} (first : document.FirstRejected name node text)
    (second : document.FirstRejected other inner further) : node = inner ∧ text = further := by
  obtain ⟨⟨root, member, found⟩, before⟩ := first
  obtain ⟨⟨tree, present, again⟩, earlier⟩ := second
  -- A tree before the other would have no condition that cannot be read.
  have notLess : ¬ Text.bytes name < Text.bytes other := fun less =>
    earlier (name, root) member less node found.mem_and_rejects.1 text found.mem_and_rejects.2
  have notGreater : ¬ Text.bytes other < Text.bytes name := fun less =>
    before (other, tree) present less inner again.mem_and_rejects.1 further again.mem_and_rejects.2
  obtain rfl := Text.eq_of_not_bytes_lt notLess notGreater
  obtain ⟨_, rfl⟩ := Prod.mk.inj (ordered.eq_of_name member present rfl)
  exact found.unique again

theorem toTrees_of_firstRejected {document : Document} (ordered : document.Ordered) {name : String}
    {node : DocumentNode} {text : String} (first : document.FirstRejected name node text) :
    toTrees document.trees = .error (.condition node.type text) := by
  rcases toTrees_converts ordered with ⟨_, _, accepted, _⟩ | ⟨_, _, _, again, failed⟩
  · obtain ⟨⟨root, member, found⟩, _⟩ := first
    obtain ⟨inside, rejects⟩ := found.mem_and_rejects
    exact absurd rejects (accepted _ member node inside text)
  · obtain ⟨rfl, rfl⟩ := first.unique ordered again
    exact failed

end Document

variable {W A P : Type} [Host W]

namespace Source

def worldAfter (source : Source) (registry : Registry W A P) (names : List String) (world : W) : W :=
  names.foldl (fun world name => (source.load registry name world).2) world

@[simp] theorem worldAfter_cons (source : Source) (registry : Registry W A P) (name : String) (names : List String)
    (world : W) : source.worldAfter registry (name :: names) world =
      source.worldAfter registry names (source.load registry name world).2 := rfl

/-- What a tree loads when its turn comes, after those of all lesser names. -/
def loadInTurn (source : Source) (registry : Registry W A P) (names : List String) (world : W) (name : String) :
    Except LoadError (Node A P) × W :=
  source.load registry name
    (source.worldAfter registry (names.filter fun other => Text.bytes other < Text.bytes name) world)

structure FirstFailing (source : Source) (registry : Registry W A P) (names : List String) (world : W)
    (name : String) (error : LoadError) (after : W) : Prop where
  member : name ∈ names
  fails : source.loadInTurn registry names world name = (.error error, after)
  before : ∀ other ∈ names, Text.bytes other < Text.bytes name →
    ∃ node later, source.loadInTurn registry names world other = (.ok node, later)

structure EachLoads (source : Source) (registry : Registry W A P) (names : List String) (world : W)
    (nodes : List (String × Node A P)) : Prop where
  named : nodes.map Prod.fst = names
  loads : ∀ entry ∈ nodes, ∃ later, source.loadInTurn registry names world entry.1 = (.ok entry.2, later)

variable {source : Source} {registry : Registry W A P} {first name : String} {rest : List String}

theorem loadInTurn_head (least : ∀ other ∈ rest, Text.bytes name < Text.bytes other) (world : W) :
    source.loadInTurn registry (name :: rest) world name = source.load registry name world := by
  have none : (name :: rest).filter (fun other => Text.bytes other < Text.bytes name) = [] := by
    refine List.filter_eq_nil_iff.mpr fun other member => ?_
    rw [decide_eq_true_eq]
    exact Text.not_bytes_lt_of_mem_cons least member
  rw [loadInTurn, none]
  rfl

theorem loadInTurn_tail (less : Text.bytes first < Text.bytes name) (world : W) :
    source.loadInTurn registry (first :: rest) world name =
      source.loadInTurn registry rest (source.load registry first world).2 name := by
  rw [loadInTurn, List.filter_cons, if_pos (decide_eq_true less), worldAfter_cons]
  rfl

/-! The first name is the least. It is loaded at once, and the others when their turns among the rest come. -/

section Cons

variable (least : ∀ other ∈ rest, Text.bytes first < Text.bytes other) {world during : W}
include least

theorem FirstFailing.head {error : LoadError} (fails : source.load registry first world = (.error error, during)) :
    source.FirstFailing registry (first :: rest) world first error during where
  member := List.mem_cons_self
  fails := (loadInTurn_head least world).trans fails
  before _ member less := absurd less (Text.not_bytes_lt_of_mem_cons least member)

variable {node : Node A P} (loads : source.load registry first world = (.ok node, during))
include loads

theorem loadInTurn_cons (member : name ∈ rest) :
    source.loadInTurn registry (first :: rest) world name = source.loadInTurn registry rest during name := by
  rw [loadInTurn_tail (least name member), loads]

theorem FirstFailing.cons {error : LoadError} {after : W}
    (failing : source.FirstFailing registry rest during name error after) :
    source.FirstFailing registry (first :: rest) world name error after where
  member := List.mem_cons_of_mem first failing.member
  fails := (loadInTurn_cons least loads failing.member).trans failing.fails
  before other member less := by
    rcases List.mem_cons.mp member with rfl | member
    · exact ⟨node, during, (loadInTurn_head least world).trans loads⟩
    · rw [loadInTurn_cons least loads member]
      exact failing.before other member less

theorem EachLoads.cons {nodes : List (String × Node A P)} (each : source.EachLoads registry rest during nodes) :
    source.EachLoads registry (first :: rest) world ((first, node) :: nodes) where
  named := congrArg (first :: ·) each.named
  loads := by
    refine List.forall_mem_cons.mpr ⟨⟨during, (loadInTurn_head least world).trans loads⟩, fun entry member => ?_⟩
    have inside : entry.1 ∈ rest := each.named ▸ List.mem_map_of_mem member
    rw [loadInTurn_cons least loads inside]
    exact each.loads entry member

end Cons

theorem loadAll_outcome (source : Source) (registry : Registry W A P) {trees : List TreeDefinition}
    (ordered : (trees.map TreeDefinition.name).Pairwise fun one other => Text.bytes one < Text.bytes other)
    (world : W) :
    (∃ nodes, source.EachLoads registry (trees.map TreeDefinition.name) world nodes ∧
      source.loadAll registry trees world =
        (.ok nodes, source.worldAfter registry (trees.map TreeDefinition.name) world)) ∨
      ∃ name error after, source.FirstFailing registry (trees.map TreeDefinition.name) world name error after ∧
        source.loadAll registry trees world = (.error error, after) := by
  induction trees generalizing world with
  | nil => exact .inl ⟨[], ⟨rfl, nofun⟩, rfl⟩
  | cons tree rest ih =>
    obtain ⟨least, ordered⟩ := List.pairwise_cons.mp ordered
    rcases loaded : source.load registry tree.name world with ⟨error | node, during⟩
    · exact .inr ⟨tree.name, error, during, .head least loaded, Loading.bind_eq_error.mpr (.inl loaded)⟩
    · rcases ih ordered during with ⟨nodes, each, loads⟩ | ⟨name, error, after, failing, fails⟩
      · refine .inl ⟨(tree.name, node) :: nodes, each.cons least loaded, ?_⟩
        refine Loading.bind_eq_ok.mpr ⟨node, during, loaded, Loading.bind_eq_ok.mpr ⟨nodes, _, loads, ?_⟩⟩
        rw [List.map_cons, worldAfter_cons, loaded]
        rfl
      · refine .inr ⟨name, error, after, failing.cons least loaded, ?_⟩
        exact Loading.bind_eq_error.mpr (.inr ⟨node, during, loaded, Loading.bind_eq_error.mpr (.inl fails)⟩)

variable {names : List String} {world : W}

theorem FirstFailing.unique {other : String} {error further : LoadError} {after later : W}
    (one : source.FirstFailing registry names world name error after)
    (two : source.FirstFailing registry names world other further later) : error = further ∧ after = later := by
  have notLess : ¬ Text.bytes name < Text.bytes other := fun less => by
    obtain ⟨node, during, loads⟩ := two.before name one.member less
    cases one.fails.symm.trans loads
  have notGreater : ¬ Text.bytes other < Text.bytes name := fun less => by
    obtain ⟨node, during, loads⟩ := one.before other two.member less
    cases two.fails.symm.trans loads
  obtain rfl := Text.eq_of_not_bytes_lt notLess notGreater
  cases one.fails.symm.trans two.fails
  exact ⟨rfl, rfl⟩

theorem EachLoads.not_firstFailing {nodes : List (String × Node A P)} {error : LoadError} {after : W}
    (each : source.EachLoads registry names world nodes) :
    ¬ source.FirstFailing registry names world name error after := by
  rintro ⟨member, fails, _⟩
  rw [← each.named] at member
  obtain ⟨entry, inside, rfl⟩ := List.mem_map.mp member
  obtain ⟨later, loads⟩ := each.loads entry inside
  cases fails.symm.trans loads

theorem EachLoads.unique {nodes others : List (String × Node A P)} (one : source.EachLoads registry names world nodes)
    (two : source.EachLoads registry names world others) : nodes = others := by
  have named : nodes.map Prod.fst = others.map Prod.fst := one.named.trans two.named.symm
  have long : nodes.length = others.length := by simpa using congrArg List.length named
  refine List.ext_getElem long fun index inside within => ?_
  have bound : index < (nodes.map Prod.fst).length := by rwa [List.length_map]
  have same : nodes[index].1 = others[index].1 := by simpa using List.getElem_of_eq named bound
  obtain ⟨_, found⟩ := one.loads nodes[index] (List.getElem_mem inside)
  obtain ⟨_, again⟩ := two.loads others[index] (List.getElem_mem within)
  rw [same] at found
  have loaded := found.symm.trans again
  exact Prod.ext same (Except.ok.inj (Prod.mk.inj loaded).1)

end Source

namespace Document

variable {registry : Registry W A P} {document : Document} {world : W}

/-- What a document is answered with: the first condition that cannot be read, or else the first load that fails,
or else a node under every name. -/
inductive Answers (document : Document) (registry : Registry W A P) (world : W) :
    Except DocumentError (List (String × Node A P)) × W → Prop where
  | condition {name text : String} {node : DocumentNode} : document.FirstRejected name node text →
      Answers document registry world (.error (.condition node.type text), world)
  | load {source : Source} {name : String} {error : LoadError} {after : W} : document.Accepted →
      List.Forall₂ Entitles document.trees source.trees →
      source.FirstFailing registry document.names world name error after →
      Answers document registry world (.error (.load error), after)
  | loaded {source : Source} {nodes : List (String × Node A P)} : document.Accepted →
      List.Forall₂ Entitles document.trees source.trees → source.EachLoads registry document.names world nodes →
      Answers document registry world (.ok nodes, source.worldAfter registry document.names world)

theorem names_eq {entries : List (String × DocumentNode)} {trees : List TreeDefinition}
    (each : List.Forall₂ Entitles entries trees) : trees.map TreeDefinition.name = entries.map Prod.fst := by
  induction each with
  | nil => rfl
  | cons here _ ih => rw [List.map_cons, List.map_cons, ih, here.1]

theorem load_of_error {error : DocumentError} (failed : toTrees document.trees = .error error)
    (registry : Registry W A P) (world : W) : document.load registry world = (.error error, world) := by
  rw [Document.load, toSource, failed]
  rfl

/-- The trees of a document whose conditions can be read are loaded in the order of their names. -/
theorem load_outcome (ordered : document.Ordered) {source : Source}
    (each : List.Forall₂ Entitles document.trees source.trees) (registry : Registry W A P) (world : W) :
    (∃ nodes, source.EachLoads registry document.names world nodes ∧
      document.load registry world = (.ok nodes, source.worldAfter registry document.names world)) ∨
    ∃ name error after, source.FirstFailing registry document.names world name error after ∧
      document.load registry world = (.error (.load error), after) := by
  have sorted : (source.trees.map TreeDefinition.name).Pairwise fun one other => Text.bytes one < Text.bytes other := by
    rw [names_eq each]
    exact List.pairwise_map.mpr ordered
  have outcome := source.loadAll_outcome registry sorted world
  rw [names_eq each, ← names] at outcome
  rw [Document.load, toSource, toTrees_of_forall₂ each]
  rcases outcome with ⟨nodes, loads, ends⟩ | ⟨name, error, after, failing, ends⟩
  · exact .inl ⟨nodes, loads, by simp [ends]⟩
  · exact .inr ⟨name, error, after, failing, by simp [ends]⟩

/-- A document has one answer. While a condition anywhere cannot be read, no load counts; a tree that fails on the
way of another has its own turn later. -/
theorem load_eq_iff (ordered : document.Ordered) {answer : Except DocumentError (List (String × Node A P)) × W} :
    document.load registry world = answer ↔ document.Answers registry world answer := by
  constructor
  · rintro rfl
    rcases toTrees_converts ordered with ⟨trees, _, accepted, each⟩ | ⟨name, node, text, first, failed⟩
    · obtain ⟨source, rfl⟩ : ∃ source : Source, source.trees = trees := ⟨⟨trees⟩, rfl⟩
      rcases load_outcome ordered each registry world with ⟨nodes, loads, ends⟩ | ⟨name, error, after, failing, ends⟩
      · rw [ends]
        exact .loaded accepted each loads
      · rw [ends]
        exact .load accepted each failing
    · rw [load_of_error failed]
      exact .condition first
  -- At most one of the three answers fits, so one that fits is the one that is given.
  · intro answers
    cases answers with
    | condition first => exact load_of_error (toTrees_of_firstRejected ordered first) registry world
    | @load source name error after _ each failing =>
      rcases load_outcome ordered each registry world with ⟨nodes, loads, _⟩ | ⟨other, further, later, again, ends⟩
      · exact absurd failing loads.not_firstFailing
      · obtain ⟨rfl, rfl⟩ := failing.unique again
        exact ends
    | @loaded source nodes _ each loads =>
      rcases load_outcome ordered each registry world with ⟨others, again, ends⟩ | ⟨_, _, _, failing, _⟩
      · rwa [loads.unique again]
      · exact absurd failing loads.not_firstFailing

/-- There is no tower, but it takes a load to find out. -/
def dispatch : Document := ⟨[
  ("alarm", ⟨"tower", none, none, none, []⟩),
  ("march", ⟨"Sequence", none, some "True", none, [⟨"Guard", none, some "True &&", none, []⟩]⟩)]⟩

theorem dispatch_ordered : dispatch.Ordered :=
  List.pairwise_pair.mpr (Text.bytes_lt (by decide))

theorem dispatch_firstRejected :
    dispatch.FirstRejected "march" ⟨"Guard", none, some "True &&", none, []⟩ "True &&" := by
  have always : Condition.ofText? "True" = some (.atom "True" none) := by decide +kernel
  have broken : Condition.ofText? "True &&" = none := by decide +kernel
  refine ⟨⟨_, List.mem_cons_of_mem _ List.mem_cons_self, .later ?_ (.here ⟨rfl, broken⟩)⟩, ?_⟩
  · rintro text ⟨same, none⟩
    cases same
    cases always.symm.trans none
  · refine List.forall_mem_cons.mpr ⟨?_, List.forall_mem_cons.mpr ⟨?_, nofun⟩⟩
    · intro _
      refine List.forall_mem_cons.mpr ⟨?_, nofun⟩
      rintro text ⟨same, _⟩
      cases same
    · exact fun less => absurd less (List.lt_irrefl _)

theorem dispatch_answered : dispatch.Ordered ∧
    dispatch.load Source.outpost World.empty = (.error (.condition "Guard" "True &&"), World.empty) :=
  ⟨dispatch_ordered, (load_eq_iff dispatch_ordered).mpr (.condition dispatch_firstRejected)⟩

end Document

end BehaviorTree
