import BehaviorTree.Proofs.Loadability
import Mathlib.Tactic.Choose

/-! References as macros. Each reference to a tree is replaced by the expanded root of that tree, which takes
the label, the cooldown and the condition of the reference. Where no tree leads back to itself there is
exactly one expansion, and what is left has no references. -/

set_option autoImplicit false

namespace BehaviorTree

open Relation

variable {W A P : Type}

namespace Condition

def both : Option Condition → Option Condition → Option Condition
  | some first, some second => some (.and first second)
  | some first, none => some first
  | none, second => second

end Condition

/-- The root of a tree where a reference to the tree stands. -/
def Definition.inPlaceOf (root reference : Definition) : Definition where
  type := root.type
  label := some (reference.label.getD reference.type)
  when := Condition.both root.when reference.when
  cooldown := reference.cooldown.or root.cooldown
  children := root.children

namespace Source

/-- `expanded` is what is left of a definition when all references in it are replaced. -/
inductive Expands (source : Source) (registry : Registry W A P) : Definition → Definition → Prop where
  | kept {definition : Definition} {expand : Definition → Definition} :
      (registry.kind? definition.type = none → definition.children = [] → source.find? definition.type = none) →
      (∀ child ∈ definition.children, Expands source registry child (expand child)) →
      Expands source registry definition { definition with children := definition.children.map expand }
  | reference {definition root : Definition} {tree : TreeDefinition} : registry.kind? definition.type = none →
      definition.children = [] → source.find? definition.type = some tree →
      Expands source registry tree.root root → Expands source registry definition (root.inPlaceOf definition)

/-- No definition stands for a tree of the source. -/
def ReferenceFree (source : Source) (registry : Registry W A P) (definition : Definition) : Prop :=
  ∀ other ∈ definition.preorder, registry.kind? other.type = none → other.children = [] →
    source.find? other.type = none

/-- The first tree of a name, with all references in it replaced, and no tree of a new name. -/
structure IsExpansion (source : Source) (registry : Registry W A P) (name : String) (expansion : Source) : Prop where
  names : ∀ other, source.find? other = none → expansion.find? other = none
  root : ∀ tree, source.find? name = some tree →
    ∃ root, expansion.find? name = some ⟨name, root⟩ ∧ source.Expands registry tree.root root

def Embeds (source : Source) (registry : Registry W A P) (name other : String) : Prop :=
  ∃ tree definition, source.find? name = some tree ∧ definition ∈ tree.root.preorder ∧ definition.type = other ∧
    registry.kind? other = none ∧ definition.children = []

variable {source : Source} {registry : Registry W A P} {name : String}

theorem Embeds.refers {here next : String} (embeds : source.Embeds registry here next) :
    source.Refers registry here next := by
  obtain ⟨tree, definition, found, inside, same, unknown, _⟩ := embeds
  exact ⟨tree, definition, found, inside, same, unknown⟩

theorem Expands.unique {definition expanded other : Definition} (first : source.Expands registry definition expanded)
    (second : source.Expands registry definition other) : expanded = other := by
  induction first generalizing other with
  | @kept definition expand free _ ih =>
    cases second with
    | kept _ each => rw [List.map_congr_left fun child member => ih child member (each child member)]
    | reference unknown childless found _ =>
      rw [free unknown childless] at found
      cases found
  | reference unknown childless found _ ih =>
    cases second with
    | kept free _ =>
      rw [free unknown childless] at found
      cases found
    | reference _ _ same inner =>
      rw [found] at same
      cases same
      rw [ih inner]

theorem Expands.referenceFree {definition expanded : Definition}
    (expands : source.Expands registry definition expanded) : source.ReferenceFree registry expanded := by
  induction expands with
  | @kept definition expand free _ ih =>
    intro other inside unknown childless
    rcases Definition.mem_preorder.mp inside with rfl | ⟨child, member, below⟩
    · exact free unknown (List.map_eq_nil_iff.mp childless)
    · obtain ⟨original, known, rfl⟩ := List.mem_map.mp member
      exact ih original known other below unknown childless
  | @reference _ root _ _ _ _ _ ih =>
    intro other inside unknown childless
    rcases Definition.mem_preorder.mp inside with rfl | below
    · exact ih root (Definition.mem_preorder_self root) unknown childless
    · exact ih other (Definition.mem_preorder.mpr (.inr below)) unknown childless

theorem ReferenceFree.expands {definition : Definition} (free : source.ReferenceFree registry definition) :
    source.Expands registry definition definition := by
  induction definition using Definition.induction with
  | mk definition ih =>
    have each : ∀ child ∈ definition.children, source.Expands registry child (id child) := fun child member =>
      ih child member fun other below => free other (Definition.mem_preorder.mpr (.inr ⟨child, member, below⟩))
    have kept := Expands.kept (free definition (Definition.mem_preorder_self definition)) each
    rw [List.map_id] at kept
    cases definition
    exact kept

theorem exists_expands {loading : List String} {definition : Definition} {here : String} {rest : List String}
    {tree : TreeDefinition} (acyclic : NoCycle (source.Embeds registry) name)
    (path : Path (source.Embeds registry) name loading) (last : loading = here :: rest)
    (found : source.find? here = some tree) (inside : definition ∈ tree.root.preorder) :
    ∃ expanded, source.Expands registry definition expanded := by
  induction loading, definition using load_induction source registry generalizing here rest tree with
  | step loading definition children reference =>
    subst last
    by_cases replaced : registry.kind? definition.type = none ∧ definition.children = [] ∧
        (source.find? definition.type).isSome = true
    · obtain ⟨unknown, leaf, present⟩ := replaced
      obtain ⟨referred, known⟩ := Option.isSome_iff_exists.mp present
      have embeds : source.Embeds registry here definition.type := ⟨tree, definition, found, inside, rfl, unknown, leaf⟩
      -- The loader goes on with the tree: if it were being loaded already, the way here would be a cycle.
      have target := target_eq_tree.mpr
        ⟨unknown, known, path.next_notMem acyclic embeds, List.isEmpty_iff.mpr leaf⟩
      obtain ⟨root, expands⟩ :=
        reference referred target (path.step embeds) rfl known (Definition.mem_preorder_self _)
      exact ⟨root.inPlaceOf definition, .reference unknown leaf known expands⟩
    · -- Equal children have one expansion, so a function of the child can name it.
      have : Nonempty Definition := ⟨definition⟩
      have each : ∀ child ∈ definition.children, ∃ expanded, source.Expands registry child expanded :=
        fun child member => children child member path rfl found (Definition.mem_preorder_of_child inside member)
      choose! expand expands using each
      refine ⟨_, .kept (fun unknown leaf => ?_) expands⟩
      rw [← Option.not_isSome_iff_eq_none]
      exact fun present => replaced ⟨unknown, leaf, present⟩

theorem find?_singleton (name : String) (root : Definition) :
    Source.find? ⟨[⟨name, root⟩]⟩ name = some ⟨name, root⟩ := by
  simp [find?]

variable {expansion : Source}

theorem exists_isExpansion (acyclic : NoCycle (source.Embeds registry) name) :
    ∃ expansion, source.IsExpansion registry name expansion := by
  cases found : source.find? name with
  | none => exact ⟨⟨[]⟩, fun _ _ => rfl, fun tree known => by rw [found] at known; cases known⟩
  | some tree =>
    obtain ⟨root, expands⟩ := exists_expands acyclic .start rfl found (Definition.mem_preorder_self tree.root)
    refine ⟨⟨[⟨name, root⟩]⟩, fun other missing => ?_, fun same known => ?_⟩
    · have different : name ≠ other := by
        rintro rfl
        rw [found] at missing
        cases missing
      simp [find?, different]
    · rw [found] at known
      cases known
      exact ⟨root, find?_singleton name root, expands⟩

theorem IsExpansion.find?_eq {other : Source} (first : source.IsExpansion registry name expansion)
    (second : source.IsExpansion registry name other) : expansion.find? name = other.find? name := by
  cases known : source.find? name with
  | none => rw [first.names name known, second.names name known]
  | some tree =>
    obtain ⟨root, found, expands⟩ := first.root tree known
    obtain ⟨again, same, expanded⟩ := second.root tree known
    rw [found, same, expands.unique expanded]

theorem IsExpansion.referenceFree (expands : source.IsExpansion registry name expansion) {tree : TreeDefinition}
    (found : expansion.find? name = some tree) : source.ReferenceFree registry tree.root := by
  cases known : source.find? name with
  | none =>
    rw [expands.names name known] at found
    cases found
  | some original =>
    obtain ⟨root, same, expanded⟩ := expands.root original known
    rw [found] at same
    cases same
    exact expanded.referenceFree

theorem exists_of_embeds {here next : String} (embeds : source.Embeds registry here next) :
    source.find? here ≠ none := by
  obtain ⟨tree, _, found, _⟩ := embeds
  rw [found]
  exact nofun

theorem IsExpansion.find?_of_embeds (expands : source.IsExpansion registry name expansion) {other : String}
    (embeds : expansion.Embeds registry name other) : expansion.find? other = none := by
  obtain ⟨tree, definition, found, inside, rfl, unknown, leaf⟩ := embeds
  exact expands.names _ (expands.referenceFree found definition inside unknown leaf)

/-- An expansion embeds only what does not exist, which embeds nothing. -/
theorem IsExpansion.noCycle (expands : source.IsExpansion registry name expansion) :
    NoCycle (expansion.Embeds registry) name := by
  have ends : ∀ reached, ReflTransGen (expansion.Embeds registry) name reached →
      reached = name ∨ expansion.find? reached = none := by
    intro reached path
    induction path with
    | refl => exact .inl rfl
    | tail _ embeds ih =>
      rcases ih with rfl | missing
      · exact .inr (expands.find?_of_embeds embeds)
      · exact absurd missing (exists_of_embeds embeds)
  intro reached path cycle
  obtain ⟨next, embeds, back⟩ := TransGen.head'_iff.mp cycle
  rcases ends reached path with rfl | missing
  · have missing := expands.find?_of_embeds embeds
    rcases back.cases_head with rfl | ⟨_, again, _⟩
    · exact exists_of_embeds embeds missing
    · exact exists_of_embeds again missing
  · exact exists_of_embeds embeds missing

end Source

end BehaviorTree
