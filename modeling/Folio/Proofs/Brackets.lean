import Folio.Proofs.Course

/-!
# Bodies stand in brackets

A body tells the engine where it opens and where it closes, like any other instruction, and in
between its nodes are walked, which may hold bodies again. However deep models are nested and
wherever the depth limit cuts them off, the brackets of a layout without scripts are balanced, and
those that are open when a node is handed out are the ones of the bodies around that node.

1. `Bracket.Balanced.openAfter`: balanced brackets leave open what was open before.
2. `Model.Unscripted.nests`: what one model does to the open brackets, in any frame.
3. `body_brackets_nest`: the brackets of whole layouts.
-/

namespace Folio

variable {α : Type}

/-! ## Brackets -/

/-- What a body puts around its nodes. -/
inductive Bracket where
  | opening (name : String)
  | closing (name : String)
deriving DecidableEq, Repr

namespace Bracket

/-- Every opening bracket has a closing one of its name behind it, and what stands between the two is
balanced by itself. -/
inductive Balanced : List Bracket → Prop
  | nil : Balanced []
  | pair {name : String} {inside rest : List Bracket} :
      Balanced inside → Balanced rest → Balanced (.opening name :: (inside ++ .closing name :: rest))

/-- The names of the open brackets after one more, the innermost first. A closing bracket has to fit
the innermost of them. -/
def step (names : List String) : Bracket → Option (List String)
  | .opening name => some (name :: names)
  | .closing name =>
    match names with
    | [] => none
    | innermost :: others => if innermost = name then some others else none

/-- The names of the brackets that are open at the end, the innermost first, where those in `names`
are open before. There are none if a closing bracket does not fit. -/
def openAfter (names : List String) (brackets : List Bracket) : Option (List String) :=
  brackets.foldlM step names

theorem openAfter_append (names : List String) (first second : List Bracket) :
    openAfter names (first ++ second) = (openAfter names first).bind (openAfter · second) :=
  List.foldlM_append

theorem openAfter_opening (names : List String) (name : String) (rest : List Bracket) :
    openAfter names (.opening name :: rest) = openAfter (name :: names) rest := rfl

theorem openAfter_closing (names : List String) (name : String) (rest : List Bracket) :
    openAfter (name :: names) (.closing name :: rest) = openAfter names rest := by
  simp [openAfter, step]

theorem Balanced.append {first second : List Bracket} (balanced : Balanced first)
    (balanced' : Balanced second) : Balanced (first ++ second) := by
  induction balanced with
  | nil => exact balanced'
  | pair inside _ _ ih =>
    rw [List.cons_append, List.append_assoc, List.cons_append]
    exact .pair inside ih

/-- Balanced brackets leave open what was open before. -/
theorem Balanced.openAfter {brackets : List Bracket} (balanced : Balanced brackets)
    (names : List String) : openAfter names brackets = some names := by
  induction balanced generalizing names with
  | nil => rfl
  | @pair name inside rest _ _ inner onward =>
    rw [openAfter_opening, openAfter_append, inner, Option.bind_some, openAfter_closing, onward]

end Bracket

/-- The bracket that a call of the sink hands over, if it hands over one. -/
def Event.bracket? : Event α → Option Bracket
  | .command (.engine (.opening name)) _ => some (.opening name)
  | .command (.engine (.closing name)) _ => some (.closing name)
  | _ => none

/-! ## Bodies around a place -/

def Model.bodyName? : Model α → Option String
  | .body name _ => some name
  | _ => none

mutual

/-- The names of the bodies around the place that a path leads to, from the outside in. -/
def Model.bodiesAround (m : Model α) : List Nat → List String
  | [] => []
  | i :: path =>
    m.bodyName?.toList ++
      match m.commands[i]? with
      | some (.walk items) => Model.bodiesIn items path
      | _ => []

/-- The same for a path that starts in a tree. -/
def Model.bodiesIn (items : List (Item α)) : List Nat → List String
  | [] => []
  | j :: path =>
    match items[j]? with
    | some ⟨_, .model m⟩ => m.bodiesAround path
    | _ => []

end

variable [Coordinate α]

/-- What the engine can observe at a place. -/
def Visit.event? (r : Request α) (v : Visit α) : Option (Event α) :=
  (v.move? r.limit r.rootFrame).bind Move.event?

namespace BracketsLemmas

open CourseLemmas

/-- The brackets that are handed over at places, in a frame. -/
def brackets (limit : α) (frame : Frame α) (visits : List (Visit α)) : List Bracket :=
  ((visits.filterMap (Visit.move? limit frame)).filterMap Move.event?).filterMap Event.bracket?

theorem brackets_append (limit : α) (frame : Frame α) (first second : List (Visit α)) :
    brackets limit frame (first ++ second) = brackets limit frame first ++ brackets limit frame second := by
  simp [brackets]

theorem brackets_under (limit : α) (frame : Frame α) (n : Nat) (visits : List (Visit α)) :
    brackets limit frame (visits.map (Visit.under n)) = brackets limit frame visits := by
  rw [brackets, List.filterMap_map]
  rfl

theorem brackets_inside (limit : α) (frame : Frame α) (n : Nat) (span : Span α)
    (visits : List (Visit α)) :
    brackets limit frame (visits.map (Visit.inside n span)) =
      if limit ≤ (frame.depth : α) then [] else brackets limit (frame.inner span) visits := by
  rw [brackets, MovesLemmas.filterMap_inside]
  split
  · rfl
  · rfl

/-- Nodes are no brackets. -/
theorem brackets_node (limit : α) (frame : Frame α) (path : List Nat) (span : Span α) (node : Node α) :
    brackets limit frame [⟨path, [], .node span node⟩] = [] := by
  cases node with
  | leaf content => rfl
  | model m =>
    by_cases deep : limit ≤ (frame.depth : α)
    · have made : Visit.move? limit frame ⟨path, [], .node span (.model m)⟩ =
          some (.skip frame span m.heading) := by
        simp [Visit.move?, Frame.descend?, Visit.Content.move, deep]
      simp [brackets, made, Move.event?]
    · have made : Visit.move? limit frame ⟨path, [], .node span (.model m)⟩ =
          some (.consult (frame.inner span) m.heading) := by
        simp [Visit.move?, Frame.descend?, Visit.Content.move, deep]
      cases said : m.heading.announces <;> simp [brackets, made, Move.event?, said, Event.bracket?]

theorem split_map {β γ : Type} {f : β → γ} {xs : List β} {before after : List γ} {y : γ}
    (split : xs.map f = before ++ y :: after) :
    ∃ first x rest, xs = first ++ x :: rest ∧ first.map f = before ∧ f x = y := by
  obtain ⟨first, tail, rfl, front, back⟩ := List.map_eq_append_iff.mp split
  obtain ⟨x, rest, rfl, here, _⟩ := List.map_eq_cons_iff.mp back
  exact ⟨first, x, rest, rfl, front, here⟩

/-- The place is that of a data node which a layout in this frame gets to. -/
def HandsOut (limit : α) (frame : Frame α) (v : Visit α) : Prop :=
  (∃ span content, v.content = .node span (.leaf content)) ∧ (v.move? limit frame).isSome

theorem HandsOut.of_inside {limit : α} {frame : Frame α} {n : Nat} {span : Span α} {v : Visit α}
    (handed : HandsOut limit frame (v.inside n span)) :
    ¬ limit ≤ (frame.depth : α) ∧ HandsOut limit (frame.inner span) v := by
  obtain ⟨leaf, reached⟩ := handed
  rw [MovesLemmas.move?_inside] at reached
  split at reached
  · cases reached
  next near => exact ⟨near, leaf, reached⟩

/-- An instruction is no data node. -/
theorem HandsOut.not_instruction {limit : α} {frame : Frame α} {v : Visit α}
    (handed : HandsOut limit frame v) {path : List Nat} {x : Instruction}
    {before after : List (Visit α)} (place : [⟨path, [], .instruction x⟩] = before ++ v :: after) :
    False := by
  have same : v ∈ [(⟨path, [], .instruction x⟩ : Visit α)] := by
    rw [place]
    simp
  obtain ⟨⟨_, _, leaf⟩, _⟩ := handed
  rw [List.mem_singleton.mp same] at leaf
  cases leaf

/-- What laying out a model does to the brackets that are open. -/
structure Nests (limit : α) (m : Model α) : Prop where
  balanced : ∀ frame, Bracket.Balanced (brackets limit frame m.visits)
  around : ∀ frame names before v after, m.visits = before ++ v :: after → HandsOut limit frame v →
    Bracket.openAfter names (brackets limit frame before) =
      some ((m.bodiesAround v.path).reverse ++ names)

theorem node_balanced {limit : α} {node : Node α} (inner : ∀ m, node = .model m → Nests limit m)
    (frame : Frame α) (n : Nat) (span : Span α) :
    Bracket.Balanced (brackets limit frame (node.visits n span)) := by
  cases node with
  | leaf content =>
    rw [Node.visits, brackets_node]
    exact .nil
  | model m =>
    rw [Node.visits, ← List.singleton_append, brackets_append, brackets_node, brackets_inside,
      List.nil_append]
    split
    · exact .nil
    · exact (inner m rfl).balanced (frame.inner span)

theorem items_balanced {limit : α} {items : List (Item α)}
    (inner : ∀ span m, ⟨span, .model m⟩ ∈ items → Nests limit m) (frame : Frame α) (n : Nat) :
    Bracket.Balanced (brackets limit frame (Model.itemVisits n items)) := by
  induction items generalizing n with
  | nil => exact .nil
  | cons item rest ih =>
    obtain ⟨span, node⟩ := item
    rw [Model.itemVisits, brackets_append]
    refine (node_balanced (fun m held => inner span m (by simp [held])) frame n span).append ?_
    exact ih (fun span m held => inner span m (by simp [held])) (n + 1)

theorem items_around {limit : α} {items : List (Item α)}
    (inner : ∀ span m, ⟨span, .model m⟩ ∈ items → Nests limit m) {frame : Frame α} {n : Nat}
    {before after : List (Visit α)} {v : Visit α}
    (split : Model.itemVisits n items = before ++ v :: after) (handed : HandsOut limit frame v)
    (names : List String) :
    ∃ j path, v.path = (n + j) :: path ∧
      Bracket.openAfter names (brackets limit frame before) =
        some ((Model.bodiesIn items (j :: path)).reverse ++ names) := by
  induction items generalizing n before with
  | nil => simp [Model.itemVisits] at split
  | cons item rest ih =>
    obtain ⟨span, node⟩ := item
    rw [Model.itemVisits] at split
    rcases split_append split with ⟨tail, first⟩ | ⟨skipped, rfl, later⟩
    · cases node with
      | leaf content =>
        rw [Node.visits] at first
        obtain ⟨rfl, rfl, _⟩ : before = [] ∧ _ ∧ _ := by
          cases before with
          | nil => exact ⟨rfl, (List.cons.inj first).1, (List.cons.inj first).2⟩
          | cons _ _ => simp at first
        exact ⟨0, [], rfl, rfl⟩
      | model m =>
        cases before with
        | nil =>
          -- The node of a model is no data node.
          rw [Node.visits] at first
          obtain ⟨rfl, _⟩ := List.cons.inj first
          obtain ⟨⟨_, _, leaf⟩, _⟩ := handed
          cases leaf
        | cons place before =>
          rw [Node.visits] at first
          obtain ⟨rfl, inside⟩ := List.cons.inj first
          obtain ⟨passed, w, further, visits, rfl, rfl⟩ := split_map inside
          obtain ⟨near, handed⟩ := handed.of_inside
          refine ⟨0, w.path, rfl, ?_⟩
          rw [← List.singleton_append, brackets_append, brackets_node, brackets_inside, if_neg near,
            List.nil_append]
          exact (inner span m (by simp)).around (frame.inner span) names passed w further visits handed
    · have closed : Bracket.openAfter names (brackets limit frame (node.visits n span)) = some names :=
        (node_balanced (fun m held => inner span m (by simp [held])) frame n span).openAfter names
      obtain ⟨j, path, place, around⟩ :=
        ih (fun span m held => inner span m (by simp [held])) later
      refine ⟨j + 1, path, by rw [place]; congr 1; omega, ?_⟩
      rw [brackets_append, Bracket.openAfter_append, closed, Option.bind_some, around]
      rfl

/-- The brackets that are open at a data node of a tree. -/
theorem tree_around {limit : α} {items : List (Item α)}
    (inner : ∀ span m, ⟨span, .model m⟩ ∈ items → Nests limit m) {frame : Frame α}
    {before after : List (Visit α)} {v : Visit α}
    (split : Model.itemVisits 0 items = before ++ v :: after) (handed : HandsOut limit frame v)
    (names : List String) :
    Bracket.openAfter names (brackets limit frame before) =
      some ((Model.bodiesIn items v.path).reverse ++ names) := by
  obtain ⟨j, path, place, around⟩ := items_around inner split handed names
  rw [place, Nat.zero_add]
  exact around

omit [Coordinate α] in
theorem bodiesAround_body (name : String) (items : List (Item α)) (path : List Nat) :
    (Model.body name items).bodiesAround (1 :: path) = name :: Model.bodiesIn items path := by
  simp [Model.bodiesAround, Model.bodyName?, Model.commands]

omit [Coordinate α] in
theorem bodiesAround_tree (items : List (Item α)) (path : List Nat) :
    (Model.tree items).bodiesAround (0 :: path) = Model.bodiesIn items path := by
  simp [Model.bodiesAround, Model.bodyName?, Model.commands]

theorem nests_body {limit : α} (name : String) {items : List (Item α)}
    (inner : ∀ span m, ⟨span, .model m⟩ ∈ items → Nests limit m) : Nests limit (.body name items) where
  balanced frame := by
    rw [Model.visits, ← List.singleton_append, brackets_append, brackets_append, brackets_under]
    exact .pair (items_balanced inner frame 0) .nil
  around frame names before v after split handed := by
    rw [Model.visits, ← List.singleton_append] at split
    -- The node stands neither at the opening bracket nor at the closing one.
    rcases split_append split with ⟨_, opening⟩ | ⟨before, rfl, rest⟩
    · exact (handed.not_instruction opening).elim
    · rcases split_append rest with ⟨_, walked⟩ | ⟨_, _, closing⟩
      · obtain ⟨passed, w, further, visits, rfl, rfl⟩ := split_map walked
        have opened : Bracket.openAfter names
            (brackets limit frame [⟨[0], [], .instruction (.engine (.opening name))⟩]) =
              some (name :: names) := rfl
        rw [brackets_append, brackets_under, Bracket.openAfter_append, opened, Option.bind_some,
          tree_around inner visits handed, Visit.under, bodiesAround_body, List.reverse_cons,
          List.append_assoc, List.singleton_append]
      · exact (handed.not_instruction closing).elim

theorem nests_tree {limit : α} {items : List (Item α)}
    (inner : ∀ span m, ⟨span, .model m⟩ ∈ items → Nests limit m) : Nests limit (.tree items) where
  balanced frame := by
    rw [Model.visits, brackets_under]
    exact items_balanced inner frame 0
  around frame names before v after split handed := by
    rw [Model.visits] at split
    obtain ⟨passed, w, further, visits, rfl, rfl⟩ := split_map split
    rw [brackets_under, tree_around inner visits handed, Visit.under, bodiesAround_tree]

theorem nests_call (limit : α) (kind : CallKind) (name : String) (args : List String) :
    Nests limit (.call kind name args) := by
  cases kind with
  | macroCall => exact ⟨fun _ => .nil, fun _ _ before _ _ split _ => by simp [Model.visits] at split⟩
  | function => exact ⟨fun _ => .nil, fun _ _ _ _ _ split handed => (handed.not_instruction split).elim⟩
  | method => exact ⟨fun _ => .nil, fun _ _ _ _ _ split handed => (handed.not_instruction split).elim⟩

end BracketsLemmas

open BracketsLemmas

/-- What a model without scripts does to the open brackets, in any frame. -/
theorem Model.Unscripted.nests (limit : α) {m : Model α} (plain : m.Unscripted) : Nests limit m := by
  induction m, plain using Model.Unscripted.induction with
  | call kind name args => exact nests_call limit kind name args
  | body name items plain ih =>
    exact nests_body name fun span sub held => (ih span sub held).elim fun _ nests => nests
  | tree items plain ih =>
    exact nests_tree fun span sub held => (ih span sub held).elim fun _ nests => nests
  | aliasing => exact ⟨fun _ => .nil, fun _ _ _ _ _ split _ => by simp [Model.visits] at split⟩
  | shapeShifting => exact ⟨fun _ => .nil, fun _ _ _ _ _ split _ => by simp [Model.visits] at split⟩

/-! ## Whole layouts -/

theorem Visit.events_eq (r : Request α) (visits : List (Visit α)) :
    visits.filterMap (Visit.event? r) =
      (visits.filterMap (Visit.move? r.limit r.rootFrame)).filterMap Move.event? :=
  List.filterMap_filterMap.symm

/-- All that can be observed of a layout without scripts are calls of the sink, which belong to places.
-/
theorem Request.events_eq_visits (r : Request α) (plain : r.model.Unscripted) :
    r.moves.filterMap Move.event? = r.model.visits.filterMap (Visit.event? r) := by
  have silent : r.model.heading.announces = none := by
    cases model : r.model with
    | script head commands =>
      have named := plain.1
      rw [model] at named
      cases named
    | _ => rfl
  rw [r.moves_eq_visits, List.filterMap_cons_none (by rw [Move.event?, silent]; rfl), Visit.events_eq]

/-- Only data nodes are handed out as nodes. -/
theorem Visit.handsOut_of_event (r : Request α) {v : Visit α} {span : Span α} {content : Leaf}
    {context : Context} (shown : v.event? r = some (.node span content context)) :
    (∃ place, v.content = .node place (.leaf content)) ∧ HandsOut r.limit r.rootFrame v := by
  obtain ⟨move, made, event⟩ := Option.bind_eq_some_iff.mp shown
  obtain ⟨frame, _, rfl⟩ := Option.map_eq_some_iff.mp made
  cases held : v.content with
  | instruction x =>
    rw [held] at event
    cases event
  | node place node =>
    rw [held] at event
    cases node with
    | leaf leaf =>
      cases event
      exact ⟨⟨place, rfl⟩, ⟨place, content, held⟩, by rw [made]; rfl⟩
    | model m =>
      rw [Visit.Content.move] at event
      split at event
      · cases event
      · obtain ⟨_, _, script⟩ := Option.map_eq_some_iff.mp event
        cases script

/-- The brackets of a layout without scripts are balanced, and each is closed under its own name. A
layout that is interrupted makes the first of these calls and no others. Whenever a node is handed
out, the open brackets are those of the bodies around it, the innermost last to be opened. -/
theorem body_brackets_nest (r : Request α) (plain : r.model.Unscripted) (visits : List (Visit α))
    (enumerated : Enumerates visits r.model) :
    Bracket.Balanced ((visits.filterMap (Visit.event? r)).filterMap Event.bracket?) ∧
    r.run.events <+: visits.filterMap (Visit.event? r) ∧
    (∀ feedback, r.run.result = .ok feedback → r.run.events = visits.filterMap (Visit.event? r)) ∧
    ∀ made span content context later,
      r.run.events = made ++ .node span content context :: later →
      ∃ before v after place, visits = before ++ v :: after ∧ v.content = .node place (.leaf content) ∧
        v.event? r = some (.node span content context) ∧ before.filterMap (Visit.event? r) = made ∧
        Bracket.openAfter [] (made.filterMap Event.bracket?) =
          some (r.model.bodiesAround v.path).reverse := by
  rw [enumerated.unique r.model.visits_enumerates]
  have nests := plain.nests r.limit
  have first : r.run.events <+: r.model.visits.filterMap (Visit.event? r) := by
    rw [← r.events_eq_visits plain, r.run_events]
    exact r.made_prefix.filterMap Move.event?
  refine ⟨?_, first, fun feedback succeeds => ?_, ?_⟩
  · rw [Visit.events_eq]
    exact nests.balanced r.rootFrame
  · rw [← r.events_eq_visits plain, r.run_events, (r.run_ok succeeds).1]
  · intro made span content context later events
    rw [events] at first
    obtain ⟨rest, whole⟩ := first
    rw [List.append_assoc, List.cons_append] at whole
    obtain ⟨passed, tail, visits, rfl, calls⟩ := List.filterMap_eq_append_iff.mp whole.symm
    obtain ⟨silent, v, after, rfl, unseen, shown, _⟩ := List.filterMap_eq_cons_iff.mp calls
    obtain ⟨⟨place, leaf⟩, handed⟩ := Visit.handsOut_of_event r shown
    -- Places where nothing is observed may lie between the last call and this one.
    have same : (passed ++ silent).filterMap (Visit.event? r) = passed.filterMap (Visit.event? r) := by
      rw [List.filterMap_append, List.filterMap_eq_nil_iff.mpr unseen, List.append_nil]
    have split : r.model.visits = (passed ++ silent) ++ v :: after := by
      rw [visits, List.append_assoc]
    refine ⟨passed ++ silent, v, after, place, split, leaf, shown, same, ?_⟩
    have around := nests.around r.rootFrame [] (passed ++ silent) v after split handed
    rw [← same, Visit.events_eq]
    rwa [List.append_nil] at around

/-- A box with a page in it, beside a line break, for a sink that fails when it is given the break. -/
def framedPage : Request Int where
  model := .tree
    [⟨.zero, .model (.body "box"
        [⟨.zero, .model (.tree
          [⟨.zero, .model (.body "page" [⟨.zero, .leaf .space⟩])⟩, ⟨.zero, .leaf .linebreak⟩])⟩])⟩]
  limit := 3
  sink := Sink.scripted none .unspecified (some 4) "full"

theorem framedPage_unscripted : framedPage.model.Unscripted := by
  rw [Model.Unscripted, Model.everyModel_iff]
  simp [framedPage, Model.visits, Model.itemVisits, Node.visits, Visit.under, Visit.inside,
    Visit.Content.model?, Model.isScript]

/-- The page is closed when the break is handed out, and only the box is still open; the tree between
the two is no body. The box would have been closed next. -/
theorem framedPage_brackets_nest :
    framedPage.model.Unscripted ∧ Enumerates framedPage.model.visits framedPage.model ∧
    framedPage.run.result = .error (.threw "full") ∧
    framedPage.run.events.filterMap Event.bracket? =
      [.opening "box", .opening "page", .closing "page"] ∧
    Bracket.Balanced [.opening "box", .opening "page", .closing "page", .closing "box"] ∧
    ∃ v place, Occurs framedPage.model v ∧ v.content = .node place (.leaf .linebreak) ∧
      framedPage.model.bodiesAround v.path = ["box"] := by
  have enumerated := framedPage.model.visits_enumerates
  obtain ⟨balanced, _, _, around⟩ :=
    body_brackets_nest framedPage framedPage_unscripted framedPage.model.visits enumerated
  refine ⟨framedPage_unscripted, enumerated, rfl, rfl, balanced, ?_⟩
  let within : Context := { nested := .bool true }
  obtain ⟨before, v, after, place, split, leaf, _, _, names⟩ := around
    [.command (.engine (.opening "box")) within, .command (.engine (.opening "page")) within,
      .node .zero .space within, .command (.engine (.closing "page")) within]
    .zero .linebreak within [] rfl
  have occurs : Occurs framedPage.model v := Model.mem_visits_iff.mp (by rw [split]; simp)
  have box : some ["box"] = some (framedPage.model.bodiesAround v.path).reverse := names
  exact ⟨v, place, occurs, leaf, (List.reverse_eq_iff.mp (Option.some.inj box).symm)⟩

end Folio
