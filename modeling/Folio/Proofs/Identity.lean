import Folio.Model.Equality
import Folio.Proofs.Occurrence

/-!
# Equality of models is structural identity

The comparison of models looks at one operand first and walks two lists side by side. It holds
exactly of models that are of one class and agree in everything they consist of, at every level.

Results:
1. `Model.beq_iff_eq`, `Node.beq_iff_eq`: comparing decides equality of the values.
2. `Model.same_iff_eq`, `Node.same_iff_eq`: so does agreement level by level.
3. `beq_structural`: what follows for the comparison.
-/

namespace Folio

variable {α : Type}

/-! ## Agreement level by level -/

mutual

/-- Nodes of one kind that agree at every level. -/
inductive Node.Same : Node α → Node α → Prop
  | leaf (content : Leaf) : Node.Same (.leaf content) (.leaf content)
  | model {a b : Model α} : Model.Same a b → Node.Same (.model a) (.model b)

/-- Models of one class that agree at every level. -/
inductive Model.Same : Model α → Model α → Prop
  | call {kind : CallKind} {name : String} {args args' : List String} :
      args.length = args'.length →
      (∀ (i : Nat) (arg arg' : String), args[i]? = some arg → args'[i]? = some arg' → arg = arg') →
      Model.Same (.call kind name args) (.call kind name args')
  | body {name : String} {items items' : List (Item α)} :
      Model.SameItems items items' → Model.Same (.body name items) (.body name items')
  | tree {items items' : List (Item α)} :
      Model.SameItems items items' → Model.Same (.tree items) (.tree items')
  | aliasing : Model.Same .aliasing .aliasing
  | shapeShifting : Model.Same .shapeShifting .shapeShifting

/-- As many nodes, with equal spans and nodes in equal places. -/
inductive Model.SameItems : List (Item α) → List (Item α) → Prop
  | each {items items' : List (Item α)} :
      items.length = items'.length →
      (∀ (i : Nat) (item item' : Item α), items[i]? = some item → items'[i]? = some item' →
        item.span = item'.span) →
      (∀ (i : Nat) (item item' : Item α), items[i]? = some item → items'[i]? = some item' →
        Node.Same item.value item'.value) →
      Model.SameItems items items'

end

/-- No script occurs in what the node holds. -/
def Node.Unscripted (n : Node α) : Prop := ∀ m, n = .model m → m.Unscripted

namespace IdentityLemmas

/-- Lists that agree in length and in every place are equal. -/
theorem eq_of_places {β : Type} {xs ys : List β} (length : xs.length = ys.length)
    (places : ∀ (i : Nat) (x y : β), xs[i]? = some x → ys[i]? = some y → x = y) : xs = ys := by
  refine List.ext_getElem length fun i inXs inYs => ?_
  exact places i _ _ (List.getElem?_eq_getElem inXs) (List.getElem?_eq_getElem inYs)

theorem eq_of_sameItems {items items' : List (Item α)} (same : Model.SameItems items items')
    (inner : ∀ span sub, ⟨span, .model sub⟩ ∈ items → ∀ other, sub.Same other → sub = other) :
    items = items' := by
  obtain ⟨length, spans, nodes⟩ := same
  refine eq_of_places length fun i item item' found found' => ?_
  have span := spans i item item' found found'
  have node := nodes i item item' found found'
  obtain ⟨s, n⟩ := item
  obtain ⟨s', n'⟩ := item'
  obtain rfl : s = s' := span
  cases node with
  | leaf content => rfl
  | @model a b same => rw [inner s a (List.mem_of_getElem? found) b same]

theorem sameItems_self {items : List (Item α)}
    (inner : ∀ span sub, ⟨span, .model sub⟩ ∈ items → sub.Same sub) :
    Model.SameItems items items := by
  have place : ∀ {i : Nat} {item item' : Item α}, items[i]? = some item → items[i]? = some item' →
      item = item' := fun found found' => Option.some.inj (found.symm.trans found')
  refine .each rfl (fun i item item' found found' => by rw [place found found']) ?_
  intro i item item' found found'
  rw [← place found found']
  obtain ⟨s, n⟩ := item
  cases n with
  | leaf content => exact .leaf content
  | model m => exact .model (inner s m (List.mem_of_getElem? found))

end IdentityLemmas

open IdentityLemmas

theorem Model.Same.eq {a b : Model α} (same : a.Same b) : a = b := by
  induction a using Model.submodelInduction generalizing b with
  | step a ih =>
    cases same with
    | call length args => rw [eq_of_places length args]
    | @body name items items' same =>
      rw [eq_of_sameItems same fun span sub held other =>
        ih items span sub (by simp [Model.commands]) held]
    | @tree items items' same =>
      rw [eq_of_sameItems same fun span sub held other =>
        ih items span sub (by simp [Model.commands]) held]
    | aliasing => rfl
    | shapeShifting => rfl

theorem Model.Unscripted.same_self {m : Model α} (plain : m.Unscripted) : m.Same m := by
  induction m, plain using Model.Unscripted.induction with
  | call kind name args plain =>
    exact .call rfl fun i arg arg' found found' => Option.some.inj (found.symm.trans found')
  | body name items plain ih =>
    exact .body (sameItems_self fun span sub held => (ih span sub held).2)
  | tree items plain ih =>
    exact .tree (sameItems_self fun span sub held => (ih span sub held).2)
  | aliasing => exact .aliasing
  | shapeShifting => exact .shapeShifting

/-- Models that agree at every level are the same value. -/
theorem Model.same_iff_eq {a b : Model α} (plain : a.Unscripted) : a.Same b ↔ a = b :=
  ⟨Model.Same.eq, fun equal => equal ▸ plain.same_self⟩

theorem Node.same_iff_eq {m n : Node α} (plain : m.Unscripted) : m.Same n ↔ m = n := by
  constructor
  · intro same
    cases same with
    | leaf content => rfl
    | model same => rw [same.eq]
  · rintro rfl
    cases m with
    | leaf content => exact .leaf content
    | model m => exact .model (plain m rfl).same_self

/-! ## The comparison -/

deriving instance ReflBEq, LawfulBEq for Position
deriving instance ReflBEq, LawfulBEq for Span

namespace IdentityLemmas

theorem beq_node_iff [BEq α] {m n : Node α}
    (inner : ∀ sub, m = .model sub → ∀ other, sub.beq other = true ↔ sub = other) :
    m.beq n = true ↔ m = n := by
  cases m with
  | leaf content => cases n <;> simp [Node.beq]
  | model a =>
    cases n with
    | leaf content => simp [Node.beq]
    | model b => rw [Node.beq, inner a rfl, Node.model.injEq]

theorem beqItems_iff [BEq α] [LawfulBEq α] {items items' : List (Item α)}
    (inner : ∀ span sub, ⟨span, .model sub⟩ ∈ items → ∀ other, sub.beq other = true ↔ sub = other) :
    Model.beqItems items items' = true ↔ items = items' := by
  induction items generalizing items' with
  | nil => cases items' <;> simp [Model.beqItems]
  | cons item rest ih =>
    obtain ⟨span, node⟩ := item
    cases items' with
    | nil => simp [Model.beqItems]
    | cons item' rest' =>
      obtain ⟨span', node'⟩ := item'
      have first : node.beq node' = true ↔ node = node' :=
        beq_node_iff fun sub held => inner span sub (by simp [held])
      have others : Model.beqItems rest rest' = true ↔ rest = rest' :=
        ih fun span sub held => inner span sub (by simp [held])
      rw [Model.beqItems, Bool.and_eq_true, Bool.and_eq_true, beq_iff_eq, first, others,
        List.cons.injEq, Spanned.mk.injEq]

end IdentityLemmas

variable [BEq α] [LawfulBEq α]

/-- Comparing models decides whether they are the same value. Scripts are left out: they are the
same when they were read from the same document. -/
theorem Model.beq_iff_eq {a b : Model α} (plain : a.Unscripted) : a.beq b = true ↔ a = b := by
  induction a, plain using Model.Unscripted.induction generalizing b with
  | call kind name args plain => cases b <;> simp [Model.beq, and_assoc]
  | body name items plain ih =>
    have inside : ∀ items', Model.beqItems items items' = true ↔ items = items' := fun _ =>
      beqItems_iff fun span sub held _ => (ih span sub held).2
    cases b <;> simp [Model.beq, inside]
  | tree items plain ih =>
    have inside : ∀ items', Model.beqItems items items' = true ↔ items = items' := fun _ =>
      beqItems_iff fun span sub held _ => (ih span sub held).2
    cases b <;> simp [Model.beq, inside]
  | aliasing => cases b <;> simp [Model.beq]
  | shapeShifting => cases b <;> simp [Model.beq]

theorem Node.beq_iff_eq {m n : Node α} (plain : m.Unscripted) : m.beq n = true ↔ m = n :=
  beq_node_iff fun sub held _ => Model.beq_iff_eq (plain sub held)

/-- Models that hold models of different classes in one place are not equal, whichever comes first.
-/
theorem Model.beq_false_of_place {a b : Model α} (plain : a.Unscripted) {v w : Visit α}
    (occurs : Occurs a v) (occurs' : Occurs b w) (place : v.path = w.path) {s t : Span α}
    {x y : Model α} (content : v.content = .node s (.model x))
    (content' : w.content = .node t (.model y)) (classes : x.modelClass ≠ y.modelClass) :
    a.beq b = false := by
  refine Bool.eq_false_iff.mpr fun equal => ?_
  obtain rfl := (Model.beq_iff_eq plain).mp equal
  obtain rfl := occurs.eq_of_path occurs' place
  have same := content.symm.trans content'
  simp only [Visit.Content.node.injEq, Node.model.injEq] at same
  exact classes (congrArg Model.modelClass same.2)

/-- Models are equal exactly if they are of one class and agree at every level, and nodes likewise.
So the comparison is an equivalence, and different classes, at the root or in any one place inside,
make it fail in both directions. -/
theorem beq_structural :
    (∀ a b : Model α, a.Unscripted → (a.beq b = true ↔ a.Same b)) ∧
    (∀ m n : Node α, m.Unscripted → (m.beq n = true ↔ m.Same n)) ∧
    Equivalence (fun a b : { m : Model α // m.Unscripted } => a.val.beq b.val = true) ∧
    Equivalence (fun m n : { n : Node α // n.Unscripted } => m.val.beq n.val = true) ∧
    (∀ a b : Model α, a.Unscripted → b.Unscripted → a.modelClass ≠ b.modelClass →
      a.beq b = false ∧ b.beq a = false) ∧
    ∀ (a b x y : Model α) (v w : Visit α) (s t : Span α), a.Unscripted → b.Unscripted →
      Occurs a v → Occurs b w → v.path = w.path →
      v.content = .node s (.model x) → w.content = .node t (.model y) →
      x.modelClass ≠ y.modelClass → a.beq b = false ∧ b.beq a = false := by
  refine ⟨fun a b plain => ?_, fun m n plain => ?_, ?_, ?_, ?_, ?_⟩
  · rw [Model.beq_iff_eq plain, Model.same_iff_eq plain]
  · rw [Node.beq_iff_eq plain, Node.same_iff_eq plain]
  · refine ⟨fun a => ?_, fun {a b} => ?_, fun {a b c} => ?_⟩
    · exact (Model.beq_iff_eq a.property).mpr rfl
    · rw [Model.beq_iff_eq a.property, Model.beq_iff_eq b.property]
      exact Eq.symm
    · rw [Model.beq_iff_eq a.property, Model.beq_iff_eq b.property, Model.beq_iff_eq a.property]
      exact Eq.trans
  · refine ⟨fun m => ?_, fun {m n} => ?_, fun {m n o} => ?_⟩
    · exact (Node.beq_iff_eq m.property).mpr rfl
    · rw [Node.beq_iff_eq m.property, Node.beq_iff_eq n.property]
      exact Eq.symm
    · rw [Node.beq_iff_eq m.property, Node.beq_iff_eq n.property, Node.beq_iff_eq m.property]
      exact Eq.trans
  · intro a b plain plain' classes
    have apart : a ≠ b := fun equal => classes (congrArg Model.modelClass equal)
    exact ⟨Bool.eq_false_iff.mpr (mt (Model.beq_iff_eq plain).mp apart),
      Bool.eq_false_iff.mpr (mt (Model.beq_iff_eq plain').mp apart.symm)⟩
  · intro a b x y v w s t plain plain' occurs occurs' place content content' classes
    exact ⟨Model.beq_false_of_place plain occurs occurs' place content content' classes,
      Model.beq_false_of_place plain' occurs' occurs place.symm content' content classes.symm⟩

/-- A document with a call of some kind inside a box. -/
def boxedPage (kind : CallKind) : Model Int :=
  .tree
    [⟨⟨⟨0, 0, 0⟩, ⟨1, 2, 13⟩⟩, .model (.body "box"
      [⟨⟨⟨0, 5, 5⟩, ⟨0, 8, 8⟩⟩, .leaf (.raw ["a", "b"])⟩,
        ⟨⟨⟨0, 8, 8⟩, ⟨1, 1, 12⟩⟩, .model (.call kind "page" ["a4"])⟩])⟩]

theorem boxedPage_unscripted (kind : CallKind) : (boxedPage kind).Unscripted := by
  rw [Model.Unscripted, Model.everyModel_iff]
  cases kind <;>
    simp [boxedPage, Model.visits, Model.itemVisits, Node.visits, Visit.under, Visit.inside,
      Visit.Content.model?, Model.isScript]

theorem boxedPage_occurs (kind : CallKind) :
    Occurs (boxedPage kind)
      ⟨[0, 0, 1, 1], [⟨⟨0, 0, 0⟩, ⟨1, 2, 13⟩⟩],
        .node ⟨⟨0, 8, 8⟩, ⟨1, 1, 12⟩⟩ (.model (.call kind "page" ["a4"]))⟩ :=
  .inside (i := 0) (j := 0) rfl rfl (.node (i := 1) (j := 1) rfl rfl)

/-- A function and a method with the same name and arguments make the whole documents differ. -/
theorem boxedPage_kinds_differ :
    (boxedPage .function).Unscripted ∧ (boxedPage .method).Unscripted ∧
    (boxedPage .function).Same (boxedPage .function) ∧
    (boxedPage .function).beq (boxedPage .function) = true ∧
    (boxedPage .function).beq (boxedPage .method) = false ∧
    (boxedPage .method).beq (boxedPage .function) = false := by
  obtain ⟨models, _, equivalence, _, _, places⟩ := beq_structural (α := Int)
  have plain := boxedPage_unscripted .function
  have equal := equivalence.refl ⟨boxedPage .function, plain⟩
  exact ⟨plain, boxedPage_unscripted .method, (models _ _ plain).mp equal, equal,
    places _ _ _ _ _ _ _ _ plain (boxedPage_unscripted .method) (boxedPage_occurs .function)
      (boxedPage_occurs .method) rfl rfl rfl (by decide)⟩

end Folio
