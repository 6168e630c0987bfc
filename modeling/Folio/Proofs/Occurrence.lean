import Folio.Layout.Plan
import Folio.Proofs.Translation
import Mathlib.Data.List.Sort

/-!
# What occurs in a model, and where

A model answers with commands; some of them walk trees, and the nodes of a tree may hold models
again. A place in all this is a path: the number of a command, the number of a node in the tree that
it walks, the number of a command of the model that the node holds, and so on inwards.

Results:
1. `Model.visits_enumerates`: `Model.visits` lists what occurs in a model, in the order of paths.
2. `Enumerates.unique`: there is only one such list.
3. `Occurs.node_around`: the nodes around a place occur themselves.
4. `Model.Unscripted.induction`: induction on models without scripts, by class.
-/

namespace Folio

variable {α : Type}

/-! ## Definitions -/

/-- What a layout can come past in a model. -/
inductive Visit.Content (α : Type) where
  | instruction (instruction : Instruction)
  | node (span : Span α) (node : Node α)

/-- A place in a model: the path to it, the spans of the model nodes around it from the outside in,
and what stands there. -/
structure Visit (α : Type) where
  path : List Nat
  enclosing : List (Span α)
  content : Visit.Content α

namespace Visit

/-- The place in a tree as one of the model whose command number `command` walks the tree. -/
def under (command : Nat) (v : Visit α) : Visit α := { v with path := command :: v.path }

/-- The place in a model as one of the tree whose node number `node` holds the model. -/
def inside (node : Nat) (span : Span α) (v : Visit α) : Visit α :=
  ⟨node :: v.path, span :: v.enclosing, v.content⟩

/-- Document order: a node before what lies inside it, and that before the next node. -/
def Before (v w : Visit α) : Prop := v.path < w.path

end Visit

/-- `Occurs m v`: the place `v` is one of `m`. -/
inductive Occurs : Model α → Visit α → Prop
  | instruction {m : Model α} {i : Nat} {x : Instruction} :
      m.commands[i]? = some (.instruct x) → Occurs m ⟨[i], [], .instruction x⟩
  | node {m : Model α} {i j : Nat} {items : List (Item α)} {span : Span α} {n : Node α} :
      m.commands[i]? = some (.walk items) → items[j]? = some ⟨span, n⟩ →
      Occurs m ⟨[i, j], [], .node span n⟩
  | inside {m sub : Model α} {i j : Nat} {items : List (Item α)} {span : Span α} {v : Visit α} :
      m.commands[i]? = some (.walk items) → items[j]? = some ⟨span, .model sub⟩ → Occurs sub v →
      Occurs m ((v.inside j span).under i)

/-- `visits` holds every place of `m` once, in document order. -/
def Enumerates (visits : List (Visit α)) (m : Model α) : Prop :=
  visits.Pairwise Visit.Before ∧ ∀ v, v ∈ visits ↔ Occurs m v

/-- `m.EveryModel P`: `P` holds of the model and of all models inside it. -/
def Model.EveryModel (P : Model α → Prop) (m : Model α) : Prop :=
  P m ∧ ∀ v span sub, Occurs m v → v.content = .node span (.model sub) → P sub

/-- `m.EverySpan P`: `P` holds of the spans of all nodes in the model, and of all that it and the
models inside it report. -/
def Model.EverySpan [Coordinate α] (P : Span α → Prop) (m : Model α) : Prop :=
  (m.EveryModel fun sub => sub.feedback.EverySpan P) ∧
    ∀ v span n, Occurs m v → v.content = .node span n → P span

mutual

/-- The places of a model, in document order. -/
def Model.visits : Model α → List (Visit α)
  | .call .macroCall _ _ => []
  | .call .function name args => [⟨[0], [], .instruction (.engine (.call name args))⟩]
  | .call .method name args => [⟨[0], [], .instruction (.engine (.call name args))⟩]
  | .body name items =>
    ⟨[0], [], .instruction (.engine (.opening name))⟩ ::
      ((Model.itemVisits 0 items).map (Visit.under 1) ++
        [⟨[2], [], .instruction (.engine (.closing name))⟩])
  | .tree items => (Model.itemVisits 0 items).map (Visit.under 0)
  | .aliasing => []
  | .shapeShifting => []
  | .script _ commands => Model.commandVisits 0 commands

/-- The places that commands lead to, the first of them being number `n`. -/
def Model.commandVisits (n : Nat) : List (Command α) → List (Visit α)
  | [] => []
  | command :: rest => command.visits n ++ Model.commandVisits (n + 1) rest

def Command.visits (n : Nat) : Command α → List (Visit α)
  | .instruct x => [⟨[n], [], .instruction x⟩]
  | .walk items => (Model.itemVisits 0 items).map (Visit.under n)

/-- The places in a tree, its first node being number `n`. -/
def Model.itemVisits (n : Nat) : List (Spanned α (Node α)) → List (Visit α)
  | [] => []
  | ⟨span, node⟩ :: rest => node.visits n span ++ Model.itemVisits (n + 1) rest

def Node.visits (n : Nat) (span : Span α) : Node α → List (Visit α)
  | .leaf content => [⟨[n], [], .node span (.leaf content)⟩]
  | .model m => ⟨[n], [], .node span (.model m)⟩ :: m.visits.map (Visit.inside n span)

end

/-- The places of a model are those its commands lead to. -/
theorem Model.visits_eq (m : Model α) : m.visits = Model.commandVisits 0 m.commands := by
  cases m with
  | call kind name args =>
    cases kind <;> simp [Model.visits, Model.commands, Model.commandVisits, Command.visits]
  | _ => simp [Model.visits, Model.commands, Model.commandVisits, Command.visits]

example (a b : Span Int) (x : Leaf) :
    (Model.body "f" [⟨a, .model (.tree [⟨b, .leaf x⟩])⟩]).visits.map Visit.path =
      [[0], [1, 0], [1, 0, 0, 0], [2]] := by
  rfl

/-! ## Induction on submodels -/

/-- What holds of a model once it holds of the models in the trees it walks, holds of all models. -/
theorem Model.submodelInduction {motive : Model α → Prop}
    (step : ∀ m : Model α,
      (∀ items span sub, .walk items ∈ m.commands → ⟨span, .model sub⟩ ∈ items → motive sub) →
      motive m)
    (m : Model α) : motive m := by
  refine step m fun items span sub walked held => ?_
  have smaller : sizeOf sub < sizeOf m := by
    have held := List.sizeOf_lt_of_mem held
    simp only [Spanned.mk.sizeOf_spec, Node.model.sizeOf_spec] at held
    cases m with
    | call kind name args => cases kind <;> simp [Model.commands] at walked
    | body name items =>
      simp only [Model.commands, List.mem_cons, Command.walk.injEq, reduceCtorEq, List.not_mem_nil,
        false_or, or_false] at walked
      subst walked
      simp only [Model.body.sizeOf_spec]
      omega
    | tree items =>
      simp only [Model.commands, List.mem_singleton, Command.walk.injEq] at walked
      subst walked
      simp only [Model.tree.sizeOf_spec]
      omega
    | aliasing => simp [Model.commands] at walked
    | shapeShifting => simp [Model.commands] at walked
    | script head commands =>
      have walked := List.sizeOf_lt_of_mem walked
      simp only [Model.commands, Command.walk.sizeOf_spec] at walked
      simp only [Model.script.sizeOf_spec]
      omega
  exact Model.submodelInduction step sub
termination_by sizeOf m

/-! ## The list of places -/

namespace OccurrenceLemmas

theorem mem_commandVisits {commands : List (Command α)} {n : Nat} {v : Visit α} :
    v ∈ Model.commandVisits n commands ↔
      ∃ (i : Nat) (command : Command α),
        commands[i]? = some command ∧ v ∈ command.visits (n + i) := by
  induction commands generalizing n with
  | nil => simp [Model.commandVisits]
  | cons command rest ih =>
    rw [Model.commandVisits, List.mem_append, ← Nat.or_exists_add_one, ih]
    simp [Nat.add_assoc, Nat.add_comm 1]

theorem mem_itemVisits {items : List (Item α)} {n : Nat} {v : Visit α} :
    v ∈ Model.itemVisits n items ↔
      ∃ (j : Nat) (span : Span α) (node : Node α),
        items[j]? = some ⟨span, node⟩ ∧ v ∈ node.visits (n + j) span := by
  induction items generalizing n with
  | nil => simp [Model.itemVisits]
  | cons item rest ih =>
    obtain ⟨span, node⟩ := item
    rw [Model.itemVisits, List.mem_append, ← Nat.or_exists_add_one, ih]
    simp [Nat.add_assoc, Nat.add_comm 1]

theorem path_of_mem_command {command : Command α} {n : Nat} {v : Visit α}
    (member : v ∈ command.visits n) :
    ∃ tail, v.path = n :: tail := by
  cases command with
  | instruct x =>
    simp only [Command.visits, List.mem_singleton] at member
    exact ⟨[], by rw [member]⟩
  | walk items =>
    simp only [Command.visits, List.mem_map] at member
    obtain ⟨w, _, rfl⟩ := member
    exact ⟨w.path, rfl⟩

theorem path_of_mem_node {node : Node α} {span : Span α} {n : Nat} {v : Visit α}
    (member : v ∈ node.visits n span) :
    ∃ tail, v.path = n :: tail := by
  cases node with
  | leaf content =>
    simp only [Node.visits, List.mem_singleton] at member
    exact ⟨[], by rw [member]⟩
  | model m =>
    simp only [Node.visits, List.mem_cons, List.mem_map] at member
    rcases member with rfl | ⟨w, _, rfl⟩
    · exact ⟨[], rfl⟩
    · exact ⟨w.path, rfl⟩

theorem path_of_mem_model {m : Model α} {v : Visit α} (member : v ∈ m.visits) :
    ∃ i tail, v.path = i :: tail := by
  rw [Model.visits_eq] at member
  obtain ⟨i, command, _, inCommand⟩ := mem_commandVisits.mp member
  obtain ⟨tail, path⟩ := path_of_mem_command inCommand
  exact ⟨0 + i, tail, path⟩

/-! ### Document order -/

/-- Places under different numbers are in the order of the numbers. -/
theorem before_of_lt {v w : Visit α} {i j : Nat} {s t : List Nat} (first : v.path = i :: s)
    (second : w.path = j :: t) (lt : i < j) : v.Before w := by
  rw [Visit.Before, first, second]
  exact List.cons_lt_cons_iff.mpr (.inl lt)

theorem before_under {v w : Visit α} {n : Nat} : (v.under n).Before (w.under n) ↔ v.Before w := by
  simp [Visit.Before, Visit.under]

theorem before_inside {v w : Visit α} {n : Nat} {span : Span α} :
    (v.inside n span).Before (w.inside n span) ↔ v.Before w := by
  simp [Visit.Before, Visit.inside]

theorem nodeVisits_pairwise {node : Node α} {n : Nat} {span : Span α}
    (inner : ∀ sub, node = .model sub → sub.visits.Pairwise Visit.Before) :
    (node.visits n span).Pairwise Visit.Before := by
  cases node with
  | leaf content => exact List.pairwise_singleton _ _
  | model m =>
    rw [Node.visits, List.pairwise_cons, List.pairwise_map]
    refine ⟨?_, (inner m rfl).imp before_inside.mpr⟩
    -- Every path in the model that the node holds goes on after the number of the node.
    intro v member
    obtain ⟨w, inModel, rfl⟩ := List.mem_map.mp member
    obtain ⟨i, tail, path⟩ := path_of_mem_model inModel
    simp [Visit.Before, Visit.inside, path]

theorem itemVisits_pairwise {items : List (Item α)}
    (inner : ∀ span sub, ⟨span, .model sub⟩ ∈ items → sub.visits.Pairwise Visit.Before) (n : Nat) :
    (Model.itemVisits n items).Pairwise Visit.Before := by
  induction items generalizing n with
  | nil => exact List.Pairwise.nil
  | cons item rest ih =>
    obtain ⟨span, node⟩ := item
    rw [Model.itemVisits, List.pairwise_append]
    refine ⟨nodeVisits_pairwise fun sub held => inner span sub (by simp [held]),
      ih (fun span sub held => inner span sub (by simp [held])) (n + 1), ?_⟩
    intro v first w later
    obtain ⟨s, pathV⟩ := path_of_mem_node first
    obtain ⟨j, span', node', _, inNode⟩ := mem_itemVisits.mp later
    obtain ⟨t, pathW⟩ := path_of_mem_node inNode
    exact before_of_lt pathV pathW (by omega)

theorem commandVisits_pairwise {commands : List (Command α)}
    (inner : ∀ items, .walk items ∈ commands → (Model.itemVisits 0 items).Pairwise Visit.Before)
    (n : Nat) :
    (Model.commandVisits n commands).Pairwise Visit.Before := by
  induction commands generalizing n with
  | nil => exact List.Pairwise.nil
  | cons command rest ih =>
    rw [Model.commandVisits, List.pairwise_append]
    refine ⟨?_, ih (fun items walked => inner items (by simp [walked])) (n + 1), ?_⟩
    · cases command with
      | instruct x => exact List.pairwise_singleton _ _
      | walk items =>
        rw [Command.visits, List.pairwise_map]
        exact (inner items (by simp)).imp before_under.mpr
    · intro v first w later
      obtain ⟨s, pathV⟩ := path_of_mem_command first
      obtain ⟨i, command', _, inCommand⟩ := mem_commandVisits.mp later
      obtain ⟨t, pathW⟩ := path_of_mem_command inCommand
      exact before_of_lt pathV pathW (by omega)

theorem visits_pairwise (m : Model α) : m.visits.Pairwise Visit.Before := by
  induction m using Model.submodelInduction with
  | step m ih =>
    rw [Model.visits_eq]
    exact commandVisits_pairwise
      (fun items walked => itemVisits_pairwise
        (fun span sub held => ih items span sub walked held) 0) 0

/-! ### Completeness -/

theorem mem_visits_of_occurs {m : Model α} {v : Visit α} (occurs : Occurs m v) : v ∈ m.visits := by
  induction occurs with
  | @instruction m i x command =>
    rw [Model.visits_eq]
    exact mem_commandVisits.mpr ⟨i, _, command, by simp [Command.visits]⟩
  | @node m i j items span n command item =>
    rw [Model.visits_eq]
    refine mem_commandVisits.mpr ⟨i, _, command, ?_⟩
    rw [Command.visits, Nat.zero_add]
    refine List.mem_map.mpr ⟨⟨[j], [], .node span n⟩, mem_itemVisits.mpr ⟨j, span, n, item, ?_⟩,
      rfl⟩
    rw [Nat.zero_add]
    cases n with
    | leaf content => exact List.mem_singleton_self _
    | model m => exact List.mem_cons_self
  | @inside m sub i j items span v command item _ ih =>
    rw [Model.visits_eq]
    refine mem_commandVisits.mpr ⟨i, _, command, ?_⟩
    rw [Command.visits, Nat.zero_add]
    refine List.mem_map.mpr ⟨v.inside j span, mem_itemVisits.mpr ⟨j, span, .model sub, item, ?_⟩,
      rfl⟩
    rw [Nat.zero_add]
    exact List.mem_cons_of_mem _ (List.mem_map_of_mem ih)

theorem occurs_of_mem_visits (m : Model α) : ∀ v ∈ m.visits, Occurs m v := by
  induction m using Model.submodelInduction with
  | step m ih =>
    intro v member
    rw [Model.visits_eq] at member
    obtain ⟨i, command, found, inCommand⟩ := mem_commandVisits.mp member
    rw [Nat.zero_add] at inCommand
    cases command with
    | instruct x =>
      rw [Command.visits, List.mem_singleton] at inCommand
      rw [inCommand]
      exact .instruction found
    | walk items =>
      obtain ⟨w, inTree, rfl⟩ := List.mem_map.mp inCommand
      obtain ⟨j, span, node, item, inNode⟩ := mem_itemVisits.mp inTree
      rw [Nat.zero_add] at inNode
      cases node with
      | leaf content =>
        rw [Node.visits, List.mem_singleton] at inNode
        rw [inNode]
        exact .node found item
      | model sub =>
        rw [Node.visits, List.mem_cons, List.mem_map] at inNode
        rcases inNode with rfl | ⟨u, inSub, rfl⟩
        · exact .node found item
        · have walked : .walk items ∈ m.commands := List.mem_of_getElem? found
          have held : ⟨span, .model sub⟩ ∈ items := List.mem_of_getElem? item
          exact .inside found item (ih items span sub walked held u inSub)

end OccurrenceLemmas

open OccurrenceLemmas

theorem Model.mem_visits_iff {m : Model α} {v : Visit α} : v ∈ m.visits ↔ Occurs m v :=
  ⟨occurs_of_mem_visits m v, mem_visits_of_occurs⟩

/-- The places of a model are listed completely and in document order. -/
theorem Model.visits_enumerates (m : Model α) : Enumerates m.visits m :=
  ⟨visits_pairwise m, fun _ => Model.mem_visits_iff⟩

/-- What can be read off the places of a model can be looked up in their list. -/
theorem Model.forall_visits_iff {β : Type} {view : Visit.Content α → Option β} {P : β → Prop}
    {m : Model α} :
    (∀ b ∈ m.visits.filterMap (view ·.content), P b) ↔
      ∀ v, Occurs m v → ∀ b, view v.content = some b → P b := by
  refine ⟨fun every v occurs b seen => ?_, fun every b member => ?_⟩
  · exact every b (List.mem_filterMap.mpr ⟨v, Model.mem_visits_iff.mpr occurs, seen⟩)
  · obtain ⟨v, visited, seen⟩ := List.mem_filterMap.mp member
    exact every v (Model.mem_visits_iff.mp visited) b seen

namespace Visit.Content

/-- The model that a node at a place holds, if it holds one. -/
def model? : Visit.Content α → Option (Model α)
  | .node _ (.model m) => some m
  | _ => none

/-- The span of the node at a place, if a node stands there. -/
def span? : Visit.Content α → Option (Span α)
  | .node span _ => some span
  | .instruction _ => none

/-- The node at a place with its span, if a node stands there. -/
def item? : Visit.Content α → Option (Item α)
  | .node span n => some ⟨span, n⟩
  | .instruction _ => none

variable {c : Visit.Content α}

theorem model?_eq_some_iff {m : Model α} :
    c.model? = some m ↔ ∃ span, c = .node span (.model m) := by
  cases c with
  | instruction x => simp [model?]
  | node span n => cases n <;> simp [model?]

theorem span?_eq_some_iff {span : Span α} : c.span? = some span ↔ ∃ n, c = .node span n := by
  cases c <;> simp [span?]

theorem item?_eq_some_iff {item : Item α} :
    c.item? = some item ↔ c = .node item.span item.value := by
  obtain ⟨span, n⟩ := item
  cases c <;> simp [item?]

end Visit.Content

/-- All models inside a model can be looked up in the list of its places. -/
theorem Model.everyModel_iff {P : Model α → Prop} {m : Model α} :
    m.EveryModel P ↔ P m ∧ ∀ sub ∈ m.visits.filterMap (·.content.model?), P sub := by
  rw [Model.forall_visits_iff]
  refine and_congr_right fun _ => ⟨fun every v occurs sub held => ?_,
    fun every v span sub occurs content => ?_⟩
  · obtain ⟨span, content⟩ := Visit.Content.model?_eq_some_iff.mp held
    exact every v span sub occurs content
  · exact every v occurs sub (Visit.Content.model?_eq_some_iff.mpr ⟨span, content⟩)

/-- All spans in a model can be looked up in the list of its places. -/
theorem Model.everySpan_iff [Coordinate α] {P : Span α → Prop} {m : Model α} :
    m.EverySpan P ↔
      (m.feedback.EverySpan P ∧ ∀ sub ∈ m.visits.filterMap (·.content.model?),
        sub.feedback.EverySpan P) ∧
      ∀ span ∈ m.visits.filterMap (·.content.span?), P span := by
  refine and_congr Model.everyModel_iff ?_
  rw [Model.forall_visits_iff]
  refine ⟨fun every v occurs span held => ?_, fun every v span n occurs content => ?_⟩
  · obtain ⟨n, content⟩ := Visit.Content.span?_eq_some_iff.mp held
    exact every v span n occurs content
  · exact every v occurs span (Visit.Content.span?_eq_some_iff.mpr ⟨n, content⟩)

/-- All nodes in a model can be looked up in the list of its places. -/
theorem Model.forall_node_iff {P : Span α → Node α → Prop} {m : Model α} :
    (∀ v span n, Occurs m v → v.content = .node span n → P span n) ↔
      ∀ item ∈ m.visits.filterMap (·.content.item?), P item.span item.value := by
  rw [Model.forall_visits_iff]
  refine ⟨fun every v occurs item held => ?_, fun every v span n occurs content => ?_⟩
  · exact every v item.span item.value occurs (Visit.Content.item?_eq_some_iff.mp held)
  · exact every v occurs ⟨span, n⟩ (Visit.Content.item?_eq_some_iff.mpr content)

/-- What occurs in a model, in document order, is one list only. -/
theorem Enumerates.unique {m : Model α} {visits other : List (Visit α)}
    (first : Enumerates visits m) (second : Enumerates other m) : visits = other := by
  have irreflexive : ∀ v : Visit α, ¬ v.Before v := fun v => List.lt_irrefl v.path
  have nodup : ∀ {l : List (Visit α)}, l.Pairwise Visit.Before → l.Nodup := by
    intro l ordered
    refine List.Pairwise.imp ?_ ordered
    intro v w before equal
    exact irreflexive w (equal ▸ before)
  have perm : visits.Perm other :=
    (List.perm_ext_iff_of_nodup (nodup first.1) (nodup second.1)).mpr
      fun v => (first.2 v).trans (second.2 v).symm
  refine perm.eq_of_pairwise ?_ first.1 second.1
  intro v w _ _ before after
  exact absurd (List.lt_trans before after) (irreflexive v)

/-- A path leads to one place only. -/
theorem Occurs.eq_of_path {m : Model α} {v w : Visit α} (first : Occurs m v) (second : Occurs m w)
    (path : v.path = w.path) : v = w := by
  have distinct : (m.visits.map Visit.path).Nodup := by
    refine List.pairwise_map.mpr ((visits_pairwise m).imp fun {v w} before equal => ?_)
    rw [Visit.Before, equal] at before
    exact List.lt_irrefl w.path before
  exact List.inj_on_of_nodup_map distinct (Model.mem_visits_iff.mpr first)
    (Model.mem_visits_iff.mpr second) path

/-- The model nodes around a place occur themselves, each inside those further out. -/
theorem Occurs.node_around {m : Model α} {v : Visit α} (occurs : Occurs m v)
    {outer inner : List (Span α)} {span : Span α} (around : v.enclosing = outer ++ span :: inner) :
    ∃ w sub, Occurs m w ∧ w.enclosing = outer ∧ w.content = .node span (.model sub) := by
  induction occurs generalizing outer with
  | instruction _ => simp at around
  | node _ _ => simp at around
  | @inside m sub i j items first v command item _ ih =>
    cases outer with
    | nil =>
      obtain ⟨rfl, _⟩ := List.cons.inj around
      exact ⟨_, sub, .node command item, rfl, rfl⟩
    | cons head outer =>
      obtain ⟨rfl, further⟩ := List.cons.inj around
      obtain ⟨w, held, inSub, rfl, content⟩ := ih further
      exact ⟨_, held, .inside command item inSub, rfl, content⟩

/-! ## Models that hold others -/

/-- The nodes of a tree that a model walks occur in it. -/
theorem Occurs.of_walked {m : Model α} {items : List (Item α)} {item : Item α}
    (walked : .walk items ∈ m.commands) (member : item ∈ items) :
    ∃ v, Occurs m v ∧ v.enclosing = [] ∧ v.content = .node item.span item.value := by
  obtain ⟨i, command⟩ := List.mem_iff_getElem?.mp walked
  obtain ⟨j, found⟩ := List.mem_iff_getElem?.mp member
  exact ⟨_, .node command found, rfl, rfl⟩

/-- What occurs in a model occurs in every model that holds it. -/
theorem Occurs.of_held {m sub : Model α} {items : List (Item α)} {span : Span α}
    (walked : .walk items ∈ m.commands) (held : ⟨span, .model sub⟩ ∈ items) {v : Visit α}
    (occurs : Occurs sub v) :
    ∃ w, Occurs m w ∧ w.enclosing = span :: v.enclosing ∧ w.content = v.content := by
  obtain ⟨i, command⟩ := List.mem_iff_getElem?.mp walked
  obtain ⟨j, found⟩ := List.mem_iff_getElem?.mp held
  exact ⟨_, .inside command found occurs, rfl, rfl⟩

theorem Model.EveryModel.held {P : Model α → Prop} {m sub : Model α} (every : m.EveryModel P)
    {items : List (Item α)} {span : Span α} (walked : .walk items ∈ m.commands)
    (held : ⟨span, .model sub⟩ ∈ items) : sub.EveryModel P := by
  constructor
  · obtain ⟨v, occurs, -, content⟩ := Occurs.of_walked walked held
    exact every.2 v span sub occurs content
  · intro v span inner occurs content
    obtain ⟨w, outside, -, same⟩ := Occurs.of_held walked held occurs
    exact every.2 w span inner outside (same.trans content)

def Model.isScript : Model α → Bool
  | .script _ _ => true
  | _ => false

/-- Neither the model nor any model inside it is a script. -/
def Model.Unscripted (m : Model α) : Prop := m.EveryModel fun sub => sub.isScript = false

/-- Without scripts the trees that are walked are the nodes that models hold. -/
theorem Model.walk_mem_commands {m : Model α} (plain : m.isScript = false)
    {items : List (Item α)} : .walk items ∈ m.commands ↔ m.items? = some items := by
  cases m with
  | call kind name args => cases kind <;> simp [Model.commands, Model.items?]
  | script head commands => cases plain
  | _ => simp [Model.commands, Model.items?, eq_comm]

/-- Induction on models without scripts: a case for each class, which may assume what is to be
proved of the models in the nodes held. -/
theorem Model.Unscripted.induction {motive : (m : Model α) → m.Unscripted → Prop}
    (call : ∀ kind name args plain, motive (.call kind name args) plain)
    (body : ∀ name items plain,
      (∀ span sub, ⟨span, .model sub⟩ ∈ items → ∃ inner, motive sub inner) →
      motive (.body name items) plain)
    (tree : ∀ items plain,
      (∀ span sub, ⟨span, .model sub⟩ ∈ items → ∃ inner, motive sub inner) →
      motive (.tree items) plain)
    (aliasing : ∀ plain, motive .aliasing plain)
    (shapeShifting : ∀ plain, motive .shapeShifting plain)
    (m : Model α) (plain : m.Unscripted) : motive m plain := by
  induction m using Model.submodelInduction with
  | step m ih =>
    have inner : ∀ items, m.items? = some items → ∀ span sub, ⟨span, .model sub⟩ ∈ items →
        ∃ inner, motive sub inner := by
      intro items holds span sub held
      have walked := (Model.walk_mem_commands plain.1).mpr holds
      exact ⟨plain.held walked held, ih items span sub walked held _⟩
    cases m with
    | call kind name args => exact call kind name args plain
    | body name items => exact body name items plain (inner items rfl)
    | tree items => exact tree items plain (inner items rfl)
    | aliasing => exact aliasing plain
    | shapeShifting => exact shapeShifting plain
    | script head commands => cases plain.1

end Folio
