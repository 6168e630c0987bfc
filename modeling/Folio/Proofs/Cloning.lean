import Folio.Failure
import Folio.Log.Entry
import Folio.Proofs.Identity

/-!
# Checked copies

A copy is checked at every level, and the checks at the outer levels never find anything that those
further in have let pass. So copying a model fails exactly if some model in it breaks the contract
by itself, and what it reports and logs is the first of these in document order.

Main result: `copy_checked`.
-/

namespace Folio

variable {α : Type}

/-! ## The models in a model -/

/-- The model and all models inside it, in document order. -/
def Model.models (m : Model α) : List (Model α) := m :: m.visits.filterMap (·.content.model?)

/-- The models that a node holds, in document order. -/
def Node.models : Node α → List (Model α)
  | .leaf _ => []
  | .model m => m.models

namespace CloningLemmas

theorem itemVisits_models (n : Nat) (items : List (Item α)) :
    (Model.itemVisits n items).filterMap (·.content.model?) = items.flatMap (·.value.models) := by
  induction items generalizing n with
  | nil => rfl
  | cons item rest ih =>
    obtain ⟨span, node⟩ := item
    rw [Model.itemVisits, List.filterMap_append, ih, List.flatMap_cons]
    cases node with
    | leaf content => rfl
    | model m =>
      rw [Node.visits, List.filterMap_cons, List.filterMap_map]
      rfl

theorem models_body (name : String) (items : List (Item α)) :
    (Model.body name items).models = .body name items :: items.flatMap (·.value.models) := by
  rw [Model.models, Model.visits, List.filterMap_cons_none rfl, List.filterMap_append,
    List.filterMap_map, ← itemVisits_models 0]
  exact congrArg (_ :: ·) (List.append_nil _)

theorem models_tree (items : List (Item α)) :
    (Model.tree items).models = .tree items :: items.flatMap (·.value.models) := by
  rw [Model.models, Model.visits, List.filterMap_map, ← itemVisits_models 0]
  rfl

theorem models_call (kind : CallKind) (name : String) (args : List String) :
    (Model.call kind name args : Model α).models = [.call kind name args] := by
  cases kind <;> rfl

end CloningLemmas

/-- All models inside a model are among those listed. -/
theorem Model.everyModel_iff_models {P : Model α → Prop} {m : Model α} :
    m.EveryModel P ↔ ∀ sub ∈ m.models, P sub := by
  rw [Model.everyModel_iff, Model.models, List.forall_mem_cons]

/-! ## Copying one thing after another -/

/-- The bad copy that a model makes, if its class breaks the contract of copies. -/
def Model.badCopy? : Model α → Option BadCopy
  | .aliasing => some ⟨.aliasing, .sameInstance, .aliasing⟩
  | .shapeShifting => some ⟨.shapeShifting, .otherClass, .macroCall⟩
  | _ => none

/-- `c.Gives x bad`: copying gives `x` and logs nothing, or, if there is a bad copy, logs it and
fails with it. -/
def Copying.Gives {β : Type} (c : Copying β) (x : β) (bad : Option BadCopy) : Prop :=
  ∀ log, c.run log =
    match bad with
    | none => .ok x log
    | some b => .error b (log ++ [b])

namespace CloningLemmas

variable {β γ : Type}

theorem gives_pure (x : β) : Copying.Gives (pure x) x none := fun _ => rfl

theorem gives_refuse (x : β) (b : BadCopy) : Copying.Gives (Copying.refuse b) x (some b) :=
  fun _ => rfl

/-- The first bad copy counts, and nothing is done behind it. -/
theorem gives_bind {c : Copying β} {f : β → Copying γ} {x : β} {y : γ} {bad bad' : Option BadCopy}
    (first : c.Gives x bad) (second : (f x).Gives y bad') :
    Copying.Gives (c >>= f) y (bad.or bad') := by
  intro log
  rw [EStateM.run_bind, first log]
  cases bad with
  | none => exact second log
  | some b => rfl

theorem gives_map {c : Copying β} {x : β} {bad : Option BadCopy} (gives : c.Gives x bad)
    (f : β → γ) : Copying.Gives (do return f (← c)) (f x) bad := by
  rw [← Option.or_none (o := bad)]
  exact gives_bind gives (gives_pure (f x))

/-- A new instance of the same class passes the check. -/
theorem gives_verify {m c : Model α} (sameClass : c.modelClass = m.modelClass) :
    (m.verify (.fresh c)).Gives c none := by
  intro log
  rw [Model.verify, if_pos sameClass]
  rfl

theorem gives_copy_of_duplicate {m c : Model α} {bad : Option BadCopy}
    (handedOver : m.duplicate.Gives (.fresh c) bad) (sameClass : c.modelClass = m.modelClass) :
    m.copy.Gives c bad := by
  rw [Model.copy, ← Option.or_none (o := bad)]
  exact gives_bind handedOver (gives_verify sameClass)

theorem node_copy_model (m : Model α) : (Node.model m).copy = do return .model (← m.copy) := by
  rw [Node.copy, Model.copy, bind_assoc]

/-- A copy of nodes stops at the first bad copy among the models they hold. -/
theorem gives_copyItems {items : List (Item α)}
    (inner : ∀ span sub, ⟨span, .model sub⟩ ∈ items →
      sub.copy.Gives sub (sub.models.findSome? Model.badCopy?)) :
    (Model.copyItems items).Gives items
      ((items.flatMap (·.value.models)).findSome? Model.badCopy?) := by
  induction items with
  | nil => exact gives_pure []
  | cons item rest ih =>
    obtain ⟨span, node⟩ := item
    have others := ih fun span sub held => inner span sub (by simp [held])
    have own : node.copy.Gives node (node.models.findSome? Model.badCopy?) := by
      cases node with
      | leaf content => exact gives_pure _
      | model m =>
        rw [node_copy_model]
        exact gives_map (inner span m (by simp)) Node.model
    rw [Model.copyItems, List.flatMap_cons, List.findSome?_append]
    exact gives_bind own (gives_map others (⟨span, node⟩ :: ·))

end CloningLemmas

open CloningLemmas

/-- A copy of a model stops at the first bad copy among the models in it. -/
theorem Model.Unscripted.gives_copy {m : Model α} (plain : m.Unscripted) :
    m.copy.Gives m (m.models.findSome? Model.badCopy?) := by
  induction m, plain using Model.Unscripted.induction with
  | call kind name args plain =>
    rw [models_call]
    exact gives_copy_of_duplicate (gives_pure _) rfl
  | body name items plain ih =>
    rw [models_body, List.findSome?_cons_of_isNone rfl]
    have copied := gives_copyItems fun span sub held => (ih span sub held).2
    refine gives_copy_of_duplicate ?_ rfl
    rw [Model.duplicate, ← Option.or_none (o := List.findSome? _ _)]
    have checked : ((Model.tree items).verify (.fresh (.tree items))).Gives (.tree items) none :=
      gives_verify rfl
    exact gives_bind copied (gives_map checked fun _ => Duplicate.fresh (.body name items))
  | tree items plain ih =>
    rw [models_tree, List.findSome?_cons_of_isNone rfl]
    have copied := gives_copyItems fun span sub held => (ih span sub held).2
    refine gives_copy_of_duplicate ?_ rfl
    rw [Model.duplicate]
    exact gives_map copied fun items => Duplicate.fresh (.tree items)
  | aliasing => exact gives_bind (gives_pure _) (gives_refuse _ _)
  | shapeShifting => exact gives_bind (gives_pure _) (gives_refuse _ _)

/-! ## Copies equal their originals -/

/-- Every span in the model equals itself. Only a position that is no number does not. -/
def Model.SelfEqual [BEq α] (m : Model α) : Prop :=
  ∀ v span n, Occurs m v → v.content = .node span n → (span == span) = true

namespace CloningLemmas

variable [BEq α]

/-- Nodes equal themselves if their spans and the models that they hold do. -/
theorem beqItems_self_iff {items : List (Item α)} :
    Model.beqItems items items = true ↔
      (∀ item ∈ items, (item.span == item.span) = true) ∧
      ∀ span sub, ⟨span, .model sub⟩ ∈ items → sub.beq sub = true := by
  induction items with
  | nil => simp [Model.beqItems]
  | cons item rest ih =>
    obtain ⟨span, node⟩ := item
    have own : node.beq node = true ↔ ∀ sub, node = .model sub → sub.beq sub = true := by
      cases node <;> simp [Node.beq]
    rw [Model.beqItems, Bool.and_eq_true, Bool.and_eq_true, own, ih]
    constructor
    · rintro ⟨⟨first, inner⟩, spans, further⟩
      refine ⟨List.forall_mem_cons.mpr ⟨first, spans⟩, fun span' sub held => ?_⟩
      rcases List.mem_cons.mp held with here | later
      · cases here
        exact inner sub rfl
      · exact further span' sub later
    · rintro ⟨spans, inner⟩
      obtain ⟨first, others⟩ := List.forall_mem_cons.mp spans
      refine ⟨⟨first, fun sub same => ?_⟩, others, fun span' sub held => ?_⟩
      · exact inner span sub (same ▸ List.mem_cons_self)
      · exact inner span' sub (List.mem_cons_of_mem _ held)

/-- Of what a model consists, only the nodes that it holds can differ from themselves. -/
theorem beq_self_iff_items {m : Model α} (plain : m.isScript = false) :
    m.beq m = true ↔ ∀ items, .walk items ∈ m.commands → Model.beqItems items items = true := by
  simp only [Model.walk_mem_commands plain]
  cases m with
  | script head commands => cases plain
  | _ => simp [Model.beq, Model.items?]

end CloningLemmas

/-- A model equals itself exactly if all spans in it do. -/
theorem Model.Unscripted.beq_self_iff [BEq α] {m : Model α} (plain : m.Unscripted) :
    m.beq m = true ↔ m.SelfEqual := by
  constructor
  · intro equal v span n occurs content
    induction occurs with
    | instruction command => cases content
    | node command item =>
      cases content
      have items := (beq_self_iff_items plain.1).mp equal _ (List.mem_of_getElem? command)
      exact (beqItems_self_iff.mp items).1 _ (List.mem_of_getElem? item)
    | inside command item _ ih =>
      have walked := List.mem_of_getElem? command
      have held := List.mem_of_getElem? item
      have items := (beq_self_iff_items plain.1).mp equal _ walked
      exact ih (plain.held walked held) ((beqItems_self_iff.mp items).2 _ _ held) content
  · intro equal
    induction m using Model.submodelInduction with
    | step m ih =>
      refine (beq_self_iff_items plain.1).mpr fun items walked => beqItems_self_iff.mpr ⟨?_, ?_⟩
      · intro item member
        obtain ⟨v, occurs, -, content⟩ := Occurs.of_walked walked member
        exact equal v item.span item.value occurs content
      · intro span sub held
        refine ih items span sub walked held (plain.held walked held) ?_
        intro v inner n occurs content
        obtain ⟨w, outside, -, same⟩ := Occurs.of_held walked held occurs
        exact equal w inner n outside (same.trans content)

/-! ## The outcome of a copy -/

/-- The models of these two classes break the contract of copies. -/
def Model.Offends (m : Model α) : Prop := m = .aliasing ∨ m = .shapeShifting

theorem Model.badCopy?_eq_none_iff {m : Model α} : m.badCopy? = none ↔ ¬ m.Offends := by
  cases m <;> simp [Model.badCopy?, Model.Offends]

/-- A model can be copied exactly if no model in it breaks the contract. The copy has its class and
content and nothing is logged, and the two are equal exactly if all spans in the model equal
themselves. Otherwise the first model in document order that breaks the contract is the one that is
reported, and the only one that is logged. -/
theorem copy_checked [BEq α] (m : Model α) (plain : m.Unscripted) (log : List BadCopy) :
    ((∃ c after, m.copy.run log = .ok c after) ↔ m.EveryModel fun sub => ¬ sub.Offends) ∧
    (∀ c after, m.copy.run log = .ok c after →
      c.modelClass = m.modelClass ∧ c = m ∧ after = log ∧
      (c.beq m = true ↔ m.SelfEqual) ∧ (m.beq c = true ↔ m.SelfEqual)) ∧
    ∀ b after, m.copy.run log = .error b after →
      ∃ earlier bad later, ∃ breach : Breach, m.models = earlier ++ bad :: later ∧
        (∀ sub ∈ earlier, ¬ sub.Offends) ∧
        (bad = .aliasing ∧ breach = .sameInstance ∨ bad = .shapeShifting ∧ breach = .otherClass) ∧
        (b.failure : Failure α) = .brokenContract bad.modelClass.name breach.name ∧
        after = log ++ [b] ∧ b.entry.service = .model ∧ b.entry.level = .error ∧
        ∃ more, b.entry.fields = some (.obj (("model", .str bad.modelClass.name) :: more)) := by
  have outcome := plain.gives_copy log
  cases first : m.models.findSome? Model.badCopy? with
  | none =>
    rw [first] at outcome
    have clean : m.EveryModel fun sub => ¬ sub.Offends := by
      rw [Model.everyModel_iff_models]
      intro sub member
      exact Model.badCopy?_eq_none_iff.mp (List.findSome?_eq_none_iff.mp first sub member)
    rw [outcome]
    refine ⟨⟨fun _ => clean, fun _ => ⟨m, log, rfl⟩⟩, fun c after copied => ?_,
      fun b after failed => ?_⟩
    · cases copied
      exact ⟨rfl, rfl, rfl, plain.beq_self_iff, plain.beq_self_iff⟩
    · cases failed
  | some b =>
    rw [first] at outcome
    obtain ⟨earlier, bad, later, split, refused, before⟩ := List.findSome?_eq_some_iff.mp first
    have offends : bad.Offends := by
      by_contra innocent
      rw [Model.badCopy?_eq_none_iff.mpr innocent] at refused
      cases refused
    rw [outcome]
    refine ⟨⟨fun ⟨c, after, copied⟩ => ?_, fun clean => ?_⟩, fun c after copied => ?_,
      fun b after failed => ?_⟩
    · cases copied
    · rw [Model.everyModel_iff_models] at clean
      exact absurd offends (clean bad (by rw [split]; simp))
    · cases copied
    · cases failed
      have innocent : ∀ sub ∈ earlier, ¬ sub.Offends := fun sub member =>
        Model.badCopy?_eq_none_iff.mp (before sub member)
      rcases offends with rfl | rfl
      · cases refused
        exact ⟨earlier, .aliasing, later, .sameInstance, split, innocent, .inl ⟨rfl, rfl⟩, rfl, rfl,
          rfl, rfl, [], rfl⟩
      · cases refused
        exact ⟨earlier, .shapeShifting, later, .otherClass, split, innocent, .inr ⟨rfl, rfl⟩, rfl,
          rfl, rfl, rfl, [("copy", .str "MacroCall")], rfl⟩

/-- A box with a model in it that changes its class when it is copied, followed by one that hands
over itself as its copy. -/
def twoOffenders : Model Int :=
  .tree
    [⟨⟨⟨0, 0, 0⟩, ⟨0, 9, 9⟩⟩, .model (.body "box"
      [⟨⟨⟨0, 5, 5⟩, ⟨0, 6, 6⟩⟩, .leaf .space⟩, ⟨⟨⟨0, 6, 6⟩, ⟨0, 8, 8⟩⟩, .model .shapeShifting⟩])⟩,
      ⟨⟨⟨0, 9, 9⟩, ⟨0, 12, 12⟩⟩, .model .aliasing⟩]

theorem twoOffenders_unscripted : twoOffenders.Unscripted := by
  rw [Model.Unscripted, Model.everyModel_iff]
  simp [twoOffenders, Model.visits, Model.itemVisits, Node.visits, Visit.under, Visit.inside,
    Visit.Content.model?, Model.isScript]

/-- The model inside the box is the one that is reported and logged. A document without offenders
is copied and equals its copy. -/
theorem twoOffenders_first_reported :
    twoOffenders.Unscripted ∧
    twoOffenders.copy.run [] =
      .error ⟨.shapeShifting, .otherClass, .macroCall⟩ [⟨.shapeShifting, .otherClass, .macroCall⟩] ∧
    (∃ earlier later, twoOffenders.models = earlier ++ .shapeShifting :: later ∧
      ∀ sub ∈ earlier, ¬ sub.Offends) ∧
    (boxedPage .method).Unscripted ∧
    (boxedPage .method).copy.run [] = .ok (boxedPage .method) [] ∧
    (boxedPage .method).beq (boxedPage .method) = true := by
  have failed : twoOffenders.copy.run [] =
      .error ⟨.shapeShifting, .otherClass, .macroCall⟩
        [⟨.shapeShifting, .otherClass, .macroCall⟩] := rfl
  have copied : (boxedPage .method).copy.run [] = .ok (boxedPage .method) [] := rfl
  have equal : (boxedPage .method).SelfEqual := fun _ span _ _ _ => BEq.refl span
  obtain ⟨earlier, bad, later, breach, split, innocent, kind, failure, _⟩ :=
    (copy_checked twoOffenders twoOffenders_unscripted []).2.2 _ _ failed
  obtain ⟨_, _, _, same, _⟩ :=
    (copy_checked (boxedPage .method) (boxedPage_unscripted .method) []).2.1 _ _ copied
  refine ⟨twoOffenders_unscripted, failed, ?_, boxedPage_unscripted .method, copied,
    same.mpr equal⟩
  rcases kind with ⟨rfl, rfl⟩ | ⟨rfl, _⟩
  · simp [BadCopy.failure, Model.modelClass, ModelClass.name] at failure
  · exact ⟨earlier, later, split, innocent⟩

/-- A space on a line that is no number, the sum of one beyond all doubles and one before all. -/
def lostSpace : Model Float :=
  let down : Position Float := ⟨1e308, 0, 0⟩
  let up : Position Float := ⟨-1e308, 0, 0⟩
  let lost := (down.offsetBy down).offsetBy (up.offsetBy up)
  .tree [⟨⟨lost, lost⟩, .leaf .space⟩]

/-- Copied like any other, it differs from its copy both ways. -/
theorem lostSpace_unlike_copy :
    lostSpace.Unscripted ∧ (lostSpace.EveryModel fun sub => ¬ sub.Offends) ∧
    lostSpace.copy.run [] = .ok lostSpace [] ∧ lostSpace.beq lostSpace = false := by
  refine ⟨Model.everyModel_iff.mpr ⟨rfl, ?_⟩, Model.everyModel_iff.mpr ⟨?_, ?_⟩, rfl,
    by decide +kernel⟩
  · simp [lostSpace, Model.visits, Model.itemVisits, Node.visits, Visit.under, Visit.Content.model?]
  · simp [lostSpace, Model.Offends]
  · simp [lostSpace, Model.visits, Model.itemVisits, Node.visits, Visit.under, Visit.Content.model?]

end Folio
