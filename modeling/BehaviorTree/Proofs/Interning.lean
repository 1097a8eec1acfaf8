import BehaviorTree.World
import Mathlib.Data.List.Dedup
import Mathlib.Data.List.Find

/-! Symbols stand for their texts. A table holds every text once and never moves it, so two symbols of a table are
told apart by their addresses exactly if their texts differ. A blackboard whose keys are held by the table can
therefore be read by the texts of its keys, whatever is interned and stored in between. -/

set_option autoImplicit false

namespace BehaviorTree

namespace SymbolTable

variable {table : SymbolTable} {symbol other : Symbol} {text : String}

/-- No text stands twice in the table, and none shares its address. -/
structure Sound (table : SymbolTable) : Prop where
  distinct : table.texts.Nodup
  apart : Function.Injective table.place

def Holds (table : SymbolTable) (symbol : Symbol) : Prop :=
  ∃ position, table.texts[position]? = some symbol.text ∧ symbol.address = table.place position

@[simp] theorem intern_text (table : SymbolTable) (text : String) : (table.intern text).1.text = text := by
  unfold intern
  split <;> rfl

@[simp] theorem intern_place (table : SymbolTable) (text : String) : (table.intern text).2.place = table.place := by
  unfold intern
  split <;> rfl

theorem intern_texts (table : SymbolTable) (text : String) :
    (table.intern text).2.texts = if text ∈ table.texts then table.texts else table.texts ++ [text] := by
  unfold intern
  split
  · next found => rw [if_pos (List.isSome_idxOf?.mp (by rw [found]; rfl))]
  · next found => rw [if_neg (List.idxOf?_eq_none_iff.mp found)]

theorem mem_intern_texts {added : String} :
    text ∈ (table.intern added).2.texts ↔ text = added ∨ text ∈ table.texts := by
  rw [intern_texts]
  split
  · next present => exact ⟨.inr, fun either => either.elim (fun same => same ▸ present) id⟩
  · rw [List.mem_append, List.mem_singleton, or_comm]

theorem Sound.intern (sound : table.Sound) (text : String) : (table.intern text).2.Sound where
  distinct := by
    rw [intern_texts]
    split
    · exact sound.distinct
    · next absent => exact List.nodup_append.mpr ⟨sound.distinct, List.nodup_singleton text, by grind⟩
  apart := intern_place table text ▸ sound.apart

theorem intern_holds (table : SymbolTable) (text : String) : (table.intern text).2.Holds (table.intern text).1 := by
  unfold intern
  split
  · next position found =>
    obtain ⟨inside, same, _⟩ := List.idxOf?_eq_some_iff.mp found
    exact ⟨position, List.getElem?_eq_some_iff.mpr ⟨inside, same⟩, rfl⟩
  · exact ⟨table.texts.length, List.getElem?_concat_length, rfl⟩

theorem Holds.intern (holds : table.Holds symbol) (text : String) : (table.intern text).2.Holds symbol := by
  obtain ⟨position, placed, address⟩ := holds
  refine ⟨position, ?_, (intern_place table text).symm ▸ address⟩
  rw [intern_texts]
  split
  · exact placed
  · rw [List.getElem?_append_left (List.getElem?_eq_some_iff.mp placed).1]
    exact placed

theorem Sound.address_eq_iff (sound : table.Sound) (holds : table.Holds symbol) (present : table.Holds other) :
    symbol.address = other.address ↔ symbol.text = other.text := by
  obtain ⟨position, placed, address⟩ := holds
  obtain ⟨place, found, location⟩ := present
  obtain ⟨inside, _⟩ := List.getElem?_eq_some_iff.mp placed
  rw [address, location, sound.apart.eq_iff, ← List.getElem?_inj inside sound.distinct, placed, found,
    Option.some.injEq]

theorem Sound.intern_eq (sound : table.Sound) (holds : table.Holds symbol) :
    table.intern symbol.text = (symbol, table) := by
  obtain ⟨position, placed, address⟩ := holds
  unfold SymbolTable.intern
  split
  · next place found =>
    obtain ⟨inside, same, _⟩ := List.idxOf?_eq_some_iff.mp found
    have same : place = position := by
      rw [← List.getElem?_inj inside sound.distinct, placed, List.getElem?_eq_some_iff]
      exact ⟨inside, same⟩
    rw [same, ← address]
  · next absent => exact absurd (List.mem_of_getElem? placed) (List.idxOf?_eq_none_iff.mp absent)

theorem Sound.same_iff (sound : table.Sound) (holds : table.Holds symbol) (present : table.Holds other) :
    symbol.same other = true ↔ symbol.text = other.text := by
  rw [Symbol.same, beq_iff_eq, sound.address_eq_iff holds present]

theorem Sound.compare_iff (sound : table.Sound) (holds : table.Holds symbol) (present : table.Holds other) :
    symbol.compare other = .eq ↔ symbol.text = other.text := by
  rw [Symbol.compare, Nat.compare_eq_eq, sound.address_eq_iff holds present]

end SymbolTable

namespace Blackboard

variable {V : Type} {table : SymbolTable} {board : Blackboard V} {key symbol : Symbol} {text : String}

def at? (board : Blackboard V) (text : String) : Option V :=
  (board.entries.find? fun entry => entry.1.text == text).map (·.2)

def Kept (board : Blackboard V) (table : SymbolTable) : Prop := ∀ entry ∈ board.entries, table.Holds entry.1

theorem Kept.intern (kept : board.Kept table) (text : String) : board.Kept (table.intern text).2 :=
  fun entry member => (kept entry member).intern text

theorem Kept.remove (kept : board.Kept table) (key : Symbol) : (board.remove key).Kept table :=
  fun entry member => kept entry (List.mem_filter.mp member).1

theorem Kept.set (kept : board.Kept table) (holds : table.Holds key) (value : V) : (board.set key value).Kept table :=
  List.forall_mem_cons.mpr ⟨holds, kept.remove key⟩

theorem same_eq (sound : table.Sound) (kept : board.Kept table) (holds : table.Holds key) :
    ∀ entry ∈ board.entries, entry.1.same key = (entry.1.text == key.text) := by
  intro entry member
  rw [Bool.eq_iff_iff, sound.same_iff (kept entry member) holds, beq_iff_eq]

theorem get?_eq (sound : table.Sound) (kept : board.Kept table) (holds : table.Holds key) :
    board.get? key = board.at? key.text := by
  rw [get?, at?, List.find?_congr (same_eq sound kept holds)]

theorem at?_remove (sound : table.Sound) (kept : board.Kept table) (holds : table.Holds key) (text : String) :
    (board.remove key).at? text = if key.text = text then none else board.at? text := by
  rw [at?, remove, List.find?_filter]
  split
  · next same =>
    rw [Option.map_eq_none_iff, List.find?_eq_none]
    intro entry member
    simp [same_eq sound kept holds entry member, same]
  · next other =>
    rw [at?, List.find?_congr]
    intro entry member
    rw [same_eq sound kept holds entry member]
    grind

theorem at?_set (sound : table.Sound) (kept : board.Kept table) (holds : table.Holds key) (value : V) (text : String) :
    (board.set key value).at? text = if key.text = text then some value else board.at? text := by
  rw [at?, set, List.find?_cons]
  by_cases same : key.text = text
  · rw [if_pos same, beq_iff_eq.mpr same]
    rfl
  · rw [if_neg same, beq_eq_false_iff_ne.mpr same]
    exact (at?_remove sound kept holds text).trans (if_neg same)

end Blackboard

/-- Blackboards whose keys are interned in one table. -/
structure Store (V : Type) where
  symbols : SymbolTable
  boards : List (Blackboard V)

namespace Store

variable {V : Type}

def blank (place : Nat → Nat) (boards : Nat) : Store V := ⟨⟨[], place⟩, List.replicate boards .empty⟩

/-- What is asked of a store. All of it interns the text that it names. -/
inductive Access (V : Type) where
  | intern (text : String)
  | set (board : Nat) (key : String) (value : V)
  | remove (board : Nat) (key : String)
  | get (board : Nat) (key : String)

namespace Access

def text : Access V → String
  | intern text => text
  | set _ key _ => key
  | remove _ key => key
  | get _ key => key

def update (access : Access V) (symbol : Symbol) (number : Nat) (board : Blackboard V) : Blackboard V :=
  match access with
  | set other _ value => if other = number then board.set symbol value else board
  | remove other _ => if other = number then board.remove symbol else board
  | _ => board

def Touches (board : Nat) (key : String) : Access V → Prop
  | set other text _ => other = board ∧ text = key
  | remove other text => other = board ∧ text = key
  | _ => False

end Access

def get? (store : Store V) (board : Nat) (key : String) : Option V := do
  let found ← store.boards[board]?
  found.get? (store.symbols.intern key).1

def serve (store : Store V) (access : Access V) : Symbol × Store V :=
  let (symbol, symbols) := store.symbols.intern access.text
  (symbol, ⟨symbols, store.boards.mapIdx (access.update symbol)⟩)

def serveAll (store : Store V) : List (Access V) → List Symbol × Store V
  | [] => ([], store)
  | access :: rest =>
    let (symbol, store) := store.serve access
    let (symbols, store) := store.serveAll rest
    (symbol :: symbols, store)

end Store

/-! The contexts of an environment are such boards, with the table that it keeps. -/

namespace World

/-- What an environment keeps under symbols. -/
def store (world : World) : Store Value := ⟨world.symbols, world.contexts.map Context.blackboard⟩

theorem get?_eq_store (context : ContextId) (key : String) (world : World) :
    world.get? context key = world.store.get? context key := by
  rw [World.get?, Store.get?, store, List.getElem?_map]
  cases world.contexts[context]? <;> rfl

theorem changeBlackboard_store {context : ContextId} {key : String} {world : World}
    {change : Blackboard Value → Symbol → Blackboard Value} {access : Store.Access Value}
    (updates : ∀ number board, access.update (world.symbols.intern key).1 number board =
      if context = number then change board (world.symbols.intern key).1 else board) (text : access.text = key) :
    (world.changeBlackboard context key change).store = (world.store.serve access).2 := by
  subst text
  have boards : (world.contexts.modify context fun found =>
        { found with blackboard := change found.blackboard (world.symbols.intern access.text).1 }).map
          Context.blackboard =
      (world.contexts.map Context.blackboard).mapIdx (access.update (world.symbols.intern access.text).1) := by
    refine List.ext_getElem? fun number => ?_
    rw [List.getElem?_map, List.getElem?_modify, List.getElem?_mapIdx, List.getElem?_map]
    cases world.contexts[number]? with
    | none => rfl
    | some found =>
      simp only [Option.map_eq_map, Option.map_some, updates]
      split <;> rfl
  exact congrArg (Store.mk _) boards

theorem set_store (context : ContextId) (key : String) (value : Value) (world : World) :
    (world.set context key value).store = (world.store.serve (.set context key value)).2 :=
  changeBlackboard_store (fun _ _ => rfl) rfl

theorem remove_store (context : ContextId) (key : String) (world : World) :
    (world.remove context key).store = (world.store.serve (.remove context key)).2 :=
  changeBlackboard_store (fun _ _ => rfl) rfl

end World

namespace Store

variable {V : Type}

/-- The value was stored under the key, and it was neither stored anew nor removed since. -/
def Latest (accesses : List (Access V)) (board : Nat) (key : String) (value : V) : Prop :=
  ∃ earlier later, accesses = earlier ++ .set board key value :: later ∧ ∀ access ∈ later, ¬ access.Touches board key

structure Sound (store : Store V) : Prop where
  symbols : store.symbols.Sound
  kept : ∀ board ∈ store.boards, board.Kept store.symbols

variable {store : Store V} {board : Nat} {key : String} {value : V} {access : Access V} {accesses : List (Access V)}

theorem blank_sound {place : Nat → Nat} (apart : Function.Injective place) (boards : Nat) :
    (blank place boards : Store V).Sound where
  symbols := ⟨List.nodup_nil, apart⟩
  kept board member := by
    obtain rfl := List.eq_of_mem_replicate member
    exact nofun

theorem blank_get? (place : Nat → Nat) (boards board : Nat) (key : String) :
    (blank place boards : Store V).get? board key = none := by
  rw [get?, blank, List.getElem?_replicate]
  split <;> rfl

theorem Sound.get?_eq (sound : store.Sound) (board : Nat) (key : String) :
    store.get? board key = store.boards[board]?.bind fun found => found.at? key := by
  rw [get?, Option.bind_eq_bind]
  refine Option.bind_congr fun found here => ?_
  -- The key may be new. The table that it is interned in holds it, and it still holds all keys of the board.
  have kept := sound.kept found (List.mem_of_getElem? here)
  rw [Blackboard.get?_eq (sound.symbols.intern key) (kept.intern key) (store.symbols.intern_holds key),
    SymbolTable.intern_text]

section Update

variable {table : SymbolTable} {symbol : Symbol} {found : Blackboard V}

theorem update_kept (kept : found.Kept table) (holds : table.Holds symbol) (access : Access V) (number : Nat) :
    (access.update symbol number found).Kept table := by
  cases access with
  | set other text value =>
    rw [Access.update]
    split
    · exact kept.set holds value
    · exact kept
  | remove other text =>
    rw [Access.update]
    split
    · exact kept.remove symbol
    · exact kept
  | _ => exact kept

theorem update_at? (sound : table.Sound) (kept : found.Kept table) (holds : table.Holds symbol)
    (named : symbol.text = access.text) :
    (access.update symbol board found).at? key = some value ↔
      access = .set board key value ∨ ¬ access.Touches board key ∧ found.at? key = some value := by
  cases access with
  | set other text stored =>
    obtain rfl : symbol.text = text := named
    by_cases here : other = board
    · rw [Access.update, if_pos here, Blackboard.at?_set sound kept holds]
      by_cases same : symbol.text = key <;> simp [Access.Touches, here, same]
    · simp [Access.update, Access.Touches, here]
  | remove other text =>
    obtain rfl : symbol.text = text := named
    by_cases here : other = board
    · rw [Access.update, if_pos here, Blackboard.at?_remove sound kept holds]
      by_cases same : symbol.text = key <;> simp [Access.Touches, here, same]
    · simp [Access.update, Access.Touches, here]
  | _ => simp [Access.update, Access.Touches]

end Update

theorem Sound.serve (sound : store.Sound) (access : Access V) : (store.serve access).2.Sound where
  symbols := sound.symbols.intern access.text
  kept board member := by
    obtain ⟨number, inside, rfl⟩ := List.mem_mapIdx.mp member
    have kept := sound.kept store.boards[number] (List.getElem_mem inside)
    exact update_kept (kept.intern access.text) (store.symbols.intern_holds access.text) access number

@[simp] theorem length_serve (store : Store V) (access : Access V) :
    (store.serve access).2.boards.length = store.boards.length := List.length_mapIdx

/-- What a board has under a key after one access. -/
theorem Sound.serve_get? (sound : store.Sound) (access : Access V) {board : Nat} (inside : board < store.boards.length)
    (key : String) (value : V) :
    (store.serve access).2.get? board key = some value ↔
      access = .set board key value ∨ ¬ access.Touches board key ∧ store.get? board key = some value := by
  have here : store.boards[board]? = some store.boards[board] := List.getElem?_eq_getElem inside
  have later : (store.serve access).2.boards[board]? =
      some (access.update (store.symbols.intern access.text).1 board store.boards[board]) := by
    rw [Store.serve, List.getElem?_mapIdx, here]
    rfl
  rw [Sound.get?_eq (sound.serve access), sound.get?_eq, here, later]
  exact update_at? (sound.symbols.intern access.text)
    ((sound.kept store.boards[board] (List.getElem_mem inside)).intern access.text)
    (store.symbols.intern_holds access.text) (SymbolTable.intern_text _ _)

theorem latest_cons : Latest (access :: accesses) board key value ↔
    Latest accesses board key value ∨
      access = .set board key value ∧ ∀ later ∈ accesses, ¬ later.Touches board key := by
  simp only [Latest, List.cons_eq_append_iff]
  constructor
  · rintro ⟨_, later, ⟨rfl, same⟩ | ⟨earlier, rfl, split⟩, quiet⟩
    · obtain ⟨rfl, rfl⟩ := List.cons.inj same
      exact .inr ⟨rfl, quiet⟩
    · exact .inl ⟨earlier, later, split, quiet⟩
  · rintro (⟨earlier, later, split, quiet⟩ | ⟨rfl, quiet⟩)
    · exact ⟨access :: earlier, later, .inr ⟨earlier, rfl, split⟩, quiet⟩
    · exact ⟨[], accesses, .inl ⟨rfl, rfl⟩, quiet⟩

theorem Sound.serveAll_get? (sound : store.Sound) (accesses : List (Access V)) {board : Nat}
    (inside : board < store.boards.length) (key : String) (value : V) :
    (store.serveAll accesses).2.get? board key = some value ↔ Latest accesses board key value ∨
      (∀ access ∈ accesses, ¬ access.Touches board key) ∧ store.get? board key = some value := by
  induction accesses generalizing store with
  | nil => simp [serveAll, Latest]
  | cons access rest ih =>
    -- Later accesses decide first, then this one, then what the board had.
    rw [serveAll, ih (sound.serve access) (by rwa [length_serve]), sound.serve_get? access inside, latest_cons,
      List.forall_mem_cons]
    tauto

theorem Sound.serveAll (sound : store.Sound) (accesses : List (Access V)) : (store.serveAll accesses).2.Sound := by
  induction accesses generalizing store with
  | nil => exact sound
  | cons access rest ih => exact ih (sound.serve access)

theorem holds_serveAll {symbol : Symbol} (holds : store.symbols.Holds symbol) (accesses : List (Access V)) :
    (store.serveAll accesses).2.symbols.Holds symbol := by
  induction accesses generalizing store with
  | nil => exact holds
  | cons access rest ih =>
    have kept : (store.serve access).2.symbols.Holds symbol := holds.intern access.text
    exact ih kept

theorem serveAll_holds (store : Store V) (accesses : List (Access V)) :
    ∀ symbol ∈ (store.serveAll accesses).1, (store.serveAll accesses).2.symbols.Holds symbol := by
  induction accesses generalizing store with
  | nil => exact nofun
  | cons access rest ih =>
    refine List.forall_mem_cons.mpr ⟨?_, ih _⟩
    exact holds_serveAll (store.symbols.intern_holds access.text) rest

theorem serveAll_texts (store : Store V) (accesses : List (Access V)) :
    (store.serveAll accesses).1.map Symbol.text = accesses.map Access.text := by
  induction accesses generalizing store with
  | nil => rfl
  | cons access rest ih => exact congrArg₂ List.cons (SymbolTable.intern_text _ _) (ih _)

theorem mem_serveAll_texts {text : String} : text ∈ (store.serveAll accesses).2.symbols.texts ↔
    text ∈ accesses.map Access.text ∨ text ∈ store.symbols.texts := by
  induction accesses generalizing store with
  | nil => simp [serveAll]
  | cons access rest ih =>
    rw [serveAll, ih, serve, SymbolTable.mem_intern_texts, List.map_cons, List.mem_cons]
    tauto

theorem size_serveAll {place : Nat → Nat} (apart : Function.Injective place) (boards : Nat)
    (accesses : List (Access V)) :
    ((blank place boards).serveAll accesses).2.symbols.size = (accesses.map Access.text).dedup.length := by
  have sound := (blank_sound apart boards).serveAll accesses
  refine ((List.perm_ext_iff_of_nodup sound.symbols.distinct (List.nodup_dedup _)).mpr fun text => ?_).length_eq
  rw [mem_serveAll_texts, List.mem_dedup]
  exact or_iff_left List.not_mem_nil

theorem serve_intern (store : Store V) (text : String) :
    store.serve (.intern text) = ((store.symbols.intern text).1, ⟨(store.symbols.intern text).2, store.boards⟩) := by
  have boards : store.boards.mapIdx (Access.update (.intern text) (store.symbols.intern text).1) = store.boards :=
    List.mapIdx_eq_iff.mpr fun number => by cases store.boards[number]? <;> rfl
  exact congrArg (fun boards => ((store.symbols.intern text).1, Store.mk (store.symbols.intern text).2 boards)) boards

theorem serveAll_intern (store : Store V) (texts : List String) :
    store.serveAll (texts.map .intern) =
      ((store.symbols.internAll texts).1, ⟨(store.symbols.internAll texts).2, store.boards⟩) := by
  induction texts generalizing store with
  | nil => rfl
  | cons text rest ih => simp only [List.map_cons, serveAll, serve_intern, ih, SymbolTable.internAll]

/-- Whatever is interned, stored, removed and asked for, symbols are equal exactly if their texts are: compared,
ordered and hashed. A symbol stays what its text gives, and there is one for every text. Under a key a board has the
value that was last stored under a key with its text, unless one with its text was removed since. -/
theorem serveAll_as_map {place : Nat → Nat} (apart : Function.Injective place) (boards : Nat)
    (accesses : List (Access V)) {symbols : List Symbol} {store : Store V}
    (served : (blank place boards).serveAll accesses = (symbols, store)) :
    symbols.map Symbol.text = accesses.map Access.text ∧
    (∀ one ∈ symbols, ∀ other ∈ symbols,
      (one.same other = true ↔ one.text = other.text) ∧ (one.compare other = .eq ↔ one.text = other.text) ∧
        (one.hashed = other.hashed ↔ one.text = other.text)) ∧
    (∀ symbol ∈ symbols, store.symbols.intern symbol.text = (symbol, store.symbols)) ∧
    store.symbols.size = (accesses.map Access.text).dedup.length ∧
    ∀ board < boards, ∀ key value, store.get? board key = some value ↔ Latest accesses board key value := by
  have start : (blank place boards : Store V).Sound := blank_sound apart boards
  have table := (start.serveAll accesses).symbols
  have holds := serveAll_holds (blank place boards) accesses
  have texts := serveAll_texts (blank place boards) accesses
  have size := size_serveAll apart boards accesses
  have stored (board : Nat) (inside : board < boards) (key : String) (value : V) :
      store.get? board key = some value ↔ Latest accesses board key value := by
    have long : board < (blank place boards : Store V).boards.length := by rwa [blank, List.length_replicate]
    have found := start.serveAll_get? accesses long key value
    rw [served, blank_get?] at found
    rw [found, or_iff_left]
    exact fun later => nomatch later.2
  rw [served] at table holds texts size
  refine ⟨texts, fun one here other there => ?_, fun symbol here => table.intern_eq (holds symbol here), size, stored⟩
  have first := holds one here
  have second := holds other there
  exact ⟨table.same_iff first second, table.compare_iff first second, table.address_eq_iff first second⟩

def heap (position : Nat) : Nat := 16 * position

def errands : List (Access Nat) :=
  [.intern "enemy", .set 0 "target" 7, .set 1 "target" 8, .get 0 "enemy", .remove 0 "target", .set 0 "target" 9,
    .set 0 "enemy" 7, .remove 1 "target"]

theorem errands_stored : Function.Injective heap ∧ ((blank heap 2).serveAll errands).2.get? 0 "target" = some 9 := by
  have apart : Function.Injective heap := fun _ _ same => Nat.eq_of_mul_eq_mul_left (by decide) same
  have quiet : ∀ access ∈ [Access.set 0 "enemy" 7, .remove 1 "target"], ¬ access.Touches 0 "target" := by
    simp [Access.Touches]
  obtain ⟨_, _, _, _, stored⟩ := serveAll_as_map apart 2 errands rfl
  exact ⟨apart, (stored 0 (by decide) "target" 9).mpr ⟨errands.take 5, _, rfl, quiet⟩⟩

end Store

end BehaviorTree
