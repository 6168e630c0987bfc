import Folio.Proofs.Contents
import Folio.Store.Clone

/-!
# New models and clones are made of new objects

Whether a model is made from scratch or cloned, the objects that are there stay as they are, and the
new ones lead to new ones only. A clone shows what its original shows.

1. `Store.Made`: what both come to.
2. `Store.made_newModel`: new models.
3. `Cloning.model_eq_ok`: clones that succeed.
-/

namespace Folio

variable {α : Type}

namespace Store

variable {h h₁ h' : Store α}

/-! ## Stores that grow -/

/-- `h.Keeps h'`: all objects stay. -/
def Keeps (h h' : Store α) : Prop := ∀ ⦃a : Address⦄ ⦃o : Object α⦄, h[a]? = some o → h'[a]? = some o

/-- `h.Extends h'`: all objects stay, and the new ones lead to new ones. -/
structure Extends (h h' : Store α) : Prop where
  kept : h.Keeps h'
  own : ∀ a b, h'.Refers a b → h.size ≤ a → h.size ≤ b ∧ b < h'.size

theorem lt_size_of_getElem? {a : Address} {o : Object α} (found : h[a]? = some o) : a < h.size :=
  (Array.getElem?_eq_some_iff.mp found).1

theorem keeps_push (h : Store α) (o : Object α) : h.Keeps (h.push o) := by
  intro a p found
  rw [Array.getElem?_push, if_neg (Nat.ne_of_lt (lt_size_of_getElem? found))]
  exact found

theorem Keeps.size_le (kept : h.Keeps h') : h.size ≤ h'.size := by
  refine Nat.le_of_not_lt fun less => ?_
  have there := kept (Array.getElem?_eq_getElem less)
  exact Nat.lt_irrefl _ (lt_size_of_getElem? there)

theorem Refers.lt_size {a b : Address} (refers : h.Refers a b) : a < h.size := by
  obtain ⟨o, found, _⟩ := refers
  exact lt_size_of_getElem? found

namespace Extends

theorem refl (h : Store α) : h.Extends h where
  kept _ _ found := found
  own _ _ refers new := absurd refers.lt_size (Nat.not_lt.mpr new)

theorem size_le (grown : h.Extends h') : h.size ≤ h'.size := grown.kept.size_le

/-- What was there is there in no other form. -/
theorem getElem?_eq (grown : h.Extends h') {a : Address} (old : a < h.size) : h'[a]? = h[a]? := by
  rw [Array.getElem?_eq_getElem old]
  exact grown.kept (Array.getElem?_eq_getElem old)

theorem trans (first : h.Extends h₁) (second : h₁.Extends h') : h.Extends h' where
  kept _ _ found := second.kept (first.kept found)
  own a b refers new := by
    rcases Nat.lt_or_ge a h₁.size with earlier | later
    · obtain ⟨o, found, member⟩ := refers
      rw [second.getElem?_eq earlier] at found
      obtain ⟨above, below⟩ := first.own a b ⟨o, found, member⟩ new
      exact ⟨above, Nat.lt_of_lt_of_le below second.size_le⟩
    · obtain ⟨above, below⟩ := second.own a b refers later
      exact ⟨Nat.le_trans first.size_le above, below⟩

/-- From new objects one comes to new objects only. -/
theorem reaches_new (grown : h.Extends h') {a b : Address} (new : h.size ≤ a) (there : a < h'.size)
    (reached : h'.Reaches a b) : h.size ≤ b ∧ b < h'.size := by
  induction reached with
  | refl => exact ⟨new, there⟩
  | tail _ refers ih => exact grown.own _ _ refers ih.1

end Extends

/-- `h.Made a h'`: a new object was made at `a`, with whatever it leads to. -/
structure Made (h : Store α) (a : Address) (h' : Store α) : Prop where
  grown : h.Extends h'
  new : h.size ≤ a
  there : a < h'.size

theorem Made.trans {a : Address} (made : h₁.Made a h') (grown : h.Extends h₁) : h.Made a h' :=
  ⟨grown.trans made.grown, Nat.le_trans grown.size_le made.new, made.there⟩

theorem Made.later {a : Address} (made : h.Made a h₁) (grown : h₁.Extends h') : h.Made a h' :=
  ⟨made.grown.trans grown, made.new, Nat.lt_of_lt_of_le made.there grown.size_le⟩

section

variable {o : Object α}

/-- An object that leads to new objects is one more new object. -/
theorem made_push (grown : h.Extends h₁) (leads : ∀ b ∈ o.references, h.Made b h₁) :
    h.Made h₁.size (h₁.push o) := by
  refine ⟨⟨fun a p found => h₁.keeps_push o (grown.kept found), fun a b refers new => ?_⟩,
    grown.size_le, ?_⟩
  · obtain ⟨p, found, member⟩ := refers
    rw [Array.size_push]
    rw [Array.getElem?_push] at found
    split at found
    · cases found
      exact ⟨(leads b member).new, Nat.lt_succ_of_lt (leads b member).there⟩
    · obtain ⟨above, below⟩ := grown.own a b ⟨p, found, member⟩ new
      exact ⟨above, Nat.lt_succ_of_lt below⟩
  · rw [Array.size_push]
    exact Nat.lt_succ_self _

theorem made_push_plain (h : Store α) (plain : o.references = []) : h.Made h.size (h.push o) :=
  made_push (.refl h) (by simp [plain])

theorem made_push_over {a : Address} (part : h.Made a h₁) (leads : o.references = [a]) :
    h.Made h₁.size (h₁.push o) :=
  made_push part.grown (by simpa [leads] using part)

theorem made_push_over_two {a b : Address} (first : h.Made a h₁) (second : h.Made b h₁)
    (leads : o.references = [a, b]) : h.Made h₁.size (h₁.push o) :=
  made_push first.grown (by simpa [leads] using And.intro first second)

end

/-! ## New models -/

theorem made_newSpan (s : Span α) (h : Store α) :
    h.Made ((newSpan s).run h).1 ((newSpan s).run h).2 := by
  have start := made_push_plain (o := .position s.start) h rfl
  have stop := made_push_plain (o := .position s.stop) (h.push (.position s.start)) rfl
  exact made_push_over_two (start.later stop.grown) (stop.trans start.grown) rfl

theorem made_newLeaf (leaf : Leaf) (h : Store α) :
    h.Made ((newLeaf leaf).run h).1 ((newLeaf leaf).run h).2 := by
  cases leaf with
  | raw lines => exact made_push_over (made_push_plain (o := .texts lines) h rfl) rfl
  | _ => exact made_push_plain h rfl

mutual

theorem made_newNode (n : Node α) (h : Store α) :
    h.Made ((newNode n).run h).1 ((newNode n).run h).2 := by
  cases n with
  | leaf content =>
    rw [newNode]
    exact made_newLeaf content h
  | model m =>
    rw [newNode]
    exact made_push_over (made_newModel m h) rfl

theorem made_newModel (m : Model α) (h : Store α) :
    h.Made ((newModel m).run h).1 ((newModel m).run h).2 := by
  cases m with
  | call kind name args =>
    rw [newModel]
    exact made_push_over (made_push_plain (o := .texts args) h rfl) rfl
  | body name items =>
    rw [newModel]
    obtain ⟨grown, made⟩ := made_newItems items h
    exact made_push_over (made_push (o := .tree _) grown made) rfl
  | tree items =>
    rw [newModel]
    obtain ⟨grown, made⟩ := made_newItems items h
    exact made_push (o := .tree _) grown made
  | aliasing => rw [newModel]; exact made_push_plain h rfl
  | shapeShifting => rw [newModel]; exact made_push_plain h rfl
  | script head commands => rw [newModel]; exact made_push_plain h rfl

theorem made_newItems (items : List (Item α)) (h : Store α) :
    h.Extends ((newItems items).run h).2 ∧
      ∀ a ∈ ((newItems items).run h).1, h.Made a ((newItems items).run h).2 := by
  cases items with
  | nil =>
    rw [newItems]
    exact ⟨.refl h, List.forall_mem_nil _⟩
  | cons item rest =>
    obtain ⟨s, n⟩ := item
    rw [newItems]
    have span := made_newSpan s h
    have node := made_newNode n ((newSpan s).run h).2
    have first := made_push_over_two (o := .item _ _) (span.later node.grown) (node.trans span.grown) rfl
    obtain ⟨grown, made⟩ := made_newItems rest (((newNode n).run ((newSpan s).run h).2).2.push (.item _ _))
    refine ⟨first.grown.trans grown, List.forall_mem_cons.mpr ⟨first.later grown, ?_⟩⟩
    exact fun a member => (made a member).trans first.grown

end

/-! ## What stays shown -/

/-- `h.Within n a m`: the object at the address is the model `m`, which has no more than `n` levels. -/
def Within (h : Store α) (n : Nat) (a : Address) (m : Model α) : Prop := h.modelWithin n a = some m

namespace Keeps

variable {n : Nat} {a : Address}

theorem keptFrom (kept : h.Keeps h') (a : Address) : h.KeptFrom a h' := fun _ _ _ found => kept found

theorem within (kept : h.Keeps h') {m : Model α} (shown : h.Within n a m) : h'.Within n a m :=
  modelWithin_mono (kept.keptFrom a) (Nat.le_refl n) shown

theorem spanAt (kept : h.Keeps h') {s : Span α} (shown : SpanAt h a s) : SpanAt h' a s :=
  shown.mono (kept.keptFrom a)

theorem nodeAt (kept : h.Keeps h') {v : Node α} (shown : NodeAt h (h.Within n) a v) :
    NodeAt h' (h'.Within n) a v :=
  shown.mono (kept.keptFrom a) fun _ _ _ _ => kept.within

theorem itemAt (kept : h.Keeps h') {v : Item α} (shown : ItemAt h (h.Within n) a v) :
    ItemAt h' (h'.Within n) a v :=
  shown.mono (kept.keptFrom a) fun _ _ _ _ => kept.within

end Keeps

end Store

/-! ## Clones -/

namespace Cloning

open Store

variable {β γ : Type} {d d' : Desk α} {a c x : Address}

/-! ### Steps that succeed -/

theorem bind_eq_ok {action : Cloning α β} {next : β → Cloning α γ} {z : γ}
    (ok : (action >>= next).run d = .ok z d') :
    ∃ y d₁, action.run d = .ok y d₁ ∧ (next y).run d₁ = .ok z d' := by
  rw [EStateM.run_bind] at ok
  split at ok
  next y d₁ first => exact ⟨y, d₁, first, ok⟩
  next => cases ok

theorem load_eq_ok {o : Object α} (ok : (load a).run d = .ok o d') :
    d' = d ∧ d.store[a]? = some o := by
  obtain ⟨_, _, first, ok⟩ := bind_eq_ok ok
  cases first
  split at ok
  next p found =>
    cases ok
    exact ⟨rfl, found⟩
  next => cases ok

theorem load_bind_eq_ok {next : Object α → Cloning α γ} {z : γ}
    (ok : (load a >>= next).run d = .ok z d') :
    ∃ o, d.store[a]? = some o ∧ (next o).run d = .ok z d' := by
  obtain ⟨o, _, loaded, rest⟩ := bind_eq_ok ok
  obtain ⟨rfl, found⟩ := load_eq_ok loaded
  exact ⟨o, found, rest⟩

theorem allot_eq_ok {o : Object α} (ok : (allot o).run d = .ok x d') :
    x = d.store.size ∧ d'.store = d.store.push o := by
  cases ok
  exact ⟨rfl, rfl⟩

theorem modelClass_eq_ok {k : ModelClass} (ok : (modelClass a).run d = .ok k d') :
    d' = d ∧ ∃ o, d.store[a]? = some o ∧ o.modelClass? = some k := by
  obtain ⟨o, found, rest⟩ := load_bind_eq_ok ok
  split at rest
  next known =>
    cases rest
    exact ⟨rfl, o, found, known⟩
  next => cases rest

/-- Only a new object of the same class passes for a clone. -/
theorem verify_eq_ok (ok : (verify a c).run d = .ok x d') :
    x = c ∧ d' = d ∧ c ≠ a ∧ ∃ o p, d.store[a]? = some o ∧ d.store[c]? = some p ∧
      p.modelClass? = o.modelClass? := by
  obtain ⟨original, _, first, rest⟩ := bind_eq_ok ok
  obtain ⟨rfl, o, found, known⟩ := modelClass_eq_ok first
  split at rest
  next => cases rest
  next other =>
    obtain ⟨copy, _, second, last⟩ := bind_eq_ok rest
    obtain ⟨rfl, p, there, knownToo⟩ := modelClass_eq_ok second
    split at last
    next same =>
      cases last
      exact ⟨rfl, rfl, other, o, p, found, there, by rw [known, knownToo, same]⟩
    next => cases last

/-! ### Class by class -/

/-- What the address `a` led to is now at `x` as well, in new objects; `At` tells what is where. -/
def Cloned (At : Store α → Address → β → Prop) (h : Store α) (a x : Address) (h' : Store α) : Prop :=
  h.Made x h' ∧ ∃ v, At h' a v ∧ At h' x v

/-- An object that leads nowhere is cloned by making it once more. -/
theorem plain_eq_ok {o : Object α} (plain : o.references = []) (found : d.store[a]? = some o)
    (ok : (allot o).run d = .ok x d') :
    d.store.Made x d'.store ∧ d'.store[a]? = some o ∧ d'.store[x]? = some o := by
  obtain ⟨rfl, stored⟩ := allot_eq_ok ok
  rw [stored]
  exact ⟨made_push_plain _ plain, keeps_push _ _ found, Array.getElem?_push_size⟩

theorem position_eq_ok (ok : (position a).run d = .ok x d') :
    Cloned (fun h b p => h[b]? = some (.position p)) d.store a x d'.store := by
  obtain ⟨o, found, ok⟩ := load_bind_eq_ok ok
  cases o with
  | position p =>
    obtain ⟨made, old, new⟩ := plain_eq_ok rfl found ok
    exact ⟨made, p, old, new⟩
  | _ => cases ok

theorem texts_eq_ok (ok : (texts a).run d = .ok x d') :
    Cloned (fun h b content => h[b]? = some (.texts content)) d.store a x d'.store := by
  obtain ⟨o, found, ok⟩ := load_bind_eq_ok ok
  cases o with
  | texts content =>
    obtain ⟨made, old, new⟩ := plain_eq_ok rfl found ok
    exact ⟨made, content, old, new⟩
  | _ => cases ok

theorem span_eq_ok (ok : (span a).run d = .ok x d') : Cloned SpanAt d.store a x d'.store := by
  obtain ⟨o, found, ok⟩ := load_bind_eq_ok ok
  cases o with
  | span b c =>
    obtain ⟨start, d₁, first, ok⟩ := bind_eq_ok ok
    obtain ⟨stop, d₂, second, ok⟩ := bind_eq_ok ok
    obtain ⟨rfl, stored⟩ := allot_eq_ok ok
    obtain ⟨madeStart, p, atStart, newStart⟩ := position_eq_ok first
    obtain ⟨madeStop, q, atStop, newStop⟩ := position_eq_ok second
    have later := madeStop.grown.kept
    have last := d₂.store.keeps_push (.span start stop)
    rw [stored]
    refine ⟨made_push_over_two (madeStart.later madeStop.grown) (madeStop.trans madeStart.grown) rfl,
      ⟨p, q⟩, ?_, ?_⟩
    · exact ⟨last (later (madeStart.grown.kept found)), last (later atStart), last atStop⟩
    · exact ⟨Array.getElem?_push_size, last (later newStart), last newStop⟩
  | _ => cases ok

section

variable {n : Nat} {model : Address → Cloning α Address}

/-- Clones of models with no more than `n` levels. -/
def ClonesWithin (n : Nat) (model : Address → Cloning α Address) : Prop :=
  ∀ a d x d', (model a).run d = .ok x d' → Cloned (Within · n) d.store a x d'.store

theorem node_eq_ok (inner : ClonesWithin n model) (ok : (node model a).run d = .ok x d') :
    Cloned (fun h => NodeAt h (h.Within n)) d.store a x d'.store := by
  obtain ⟨o, found, ok⟩ := load_bind_eq_ok ok
  cases o with
  | mark kind =>
    obtain ⟨made, old, new⟩ := plain_eq_ok rfl found ok
    exact ⟨made, _, .mark old, .mark new⟩
  | text content =>
    obtain ⟨made, old, new⟩ := plain_eq_ok rfl found ok
    exact ⟨made, _, .text old, .text new⟩
  | raw b =>
    obtain ⟨lines, d₁, first, ok⟩ := bind_eq_ok ok
    obtain ⟨rfl, stored⟩ := allot_eq_ok ok
    obtain ⟨made, content, atLines, newLines⟩ := texts_eq_ok first
    have last := d₁.store.keeps_push (.raw lines)
    rw [stored]
    refine ⟨made_push_over made rfl, .leaf (.raw content), ?_, ?_⟩
    · exact .raw (last (made.grown.kept found)) (last atLines)
    · exact .raw Array.getElem?_push_size (last newLines)
  | holder b =>
    obtain ⟨m, d₁, first, ok⟩ := bind_eq_ok ok
    obtain ⟨rfl, stored⟩ := allot_eq_ok ok
    obtain ⟨made, content, atModel, newModel⟩ := inner _ _ _ _ first
    have last := d₁.store.keeps_push (.holder m)
    rw [stored]
    refine ⟨made_push_over made rfl, .model content, ?_, ?_⟩
    · exact .holder (last (made.grown.kept found)) (last.within atModel)
    · exact .holder Array.getElem?_push_size (last.within newModel)
  | _ => cases ok

theorem item_eq_ok (inner : ClonesWithin n model) (ok : (item model a).run d = .ok x d') :
    Cloned (fun h => ItemAt h (h.Within n)) d.store a x d'.store := by
  obtain ⟨o, found, ok⟩ := load_bind_eq_ok ok
  cases o with
  | item b c =>
    obtain ⟨s, d₁, first, ok⟩ := bind_eq_ok ok
    obtain ⟨v, d₂, second, ok⟩ := bind_eq_ok ok
    obtain ⟨rfl, stored⟩ := allot_eq_ok ok
    obtain ⟨madeSpan, span, atSpan, newSpan⟩ := span_eq_ok first
    obtain ⟨madeNode, node, atNode, newNode⟩ := node_eq_ok inner second
    have later := madeNode.grown.kept
    have last := d₂.store.keeps_push (.item s v)
    rw [stored]
    refine ⟨made_push_over_two (madeSpan.later madeNode.grown) (madeNode.trans madeSpan.grown) rfl,
      ⟨span, node⟩, ?_, ?_⟩
    · exact ⟨last (later (madeSpan.grown.kept found)), last.spanAt (later.spanAt atSpan),
        last.nodeAt atNode⟩
    · exact ⟨Array.getElem?_push_size, last.spanAt (later.spanAt newSpan), last.nodeAt newNode⟩
  | _ => cases ok

/-- The clones of a list of nodes, one after the other. -/
theorem items_eq_ok (inner : ClonesWithin n model) {addresses copies : List Address}
    (ok : (addresses.mapM (item model)).run d = .ok copies d') :
    d.store.Extends d'.store ∧ (∀ c ∈ copies, d.store.Made c d'.store) ∧
      ∃ items, List.Forall₂ (ItemAt d'.store (d'.store.Within n)) addresses items ∧
        List.Forall₂ (ItemAt d'.store (d'.store.Within n)) copies items := by
  induction addresses generalizing d copies with
  | nil =>
    cases ok
    exact ⟨.refl _, List.forall_mem_nil _, [], .nil, .nil⟩
  | cons a rest ih =>
    rw [List.mapM_cons] at ok
    obtain ⟨copy, d₁, first, ok⟩ := bind_eq_ok ok
    obtain ⟨others, d₂, second, ok⟩ := bind_eq_ok ok
    cases ok
    obtain ⟨made, item, atItem, newItem⟩ := item_eq_ok inner first
    obtain ⟨grown, madeOthers, items, atItems, newItems⟩ := ih second
    refine ⟨made.grown.trans grown, List.forall_mem_cons.mpr ⟨made.later grown, ?_⟩, item :: items, ?_, ?_⟩
    · exact fun c member => (madeOthers c member).trans made.grown
    · exact .cons (grown.kept.itemAt atItem) atItems
    · exact .cons (grown.kept.itemAt newItem) newItems

end

/-- Only a tree is shown as a tree. -/
theorem tree_of_within {h : Store α} {n : Nat} {addresses : List Address} {m : Model α}
    (found : h[a]? = some (.tree addresses)) (shown : h.Within n a m) : ∃ items, m = .tree items := by
  cases n with
  | zero => cases shown
  | succ n =>
    cases modelBy_eq_some_iff.mp shown with
    | tree _ _ => exact ⟨_, rfl⟩
    | call other _ => cases found.symm.trans other
    | body other _ => cases found.symm.trans other
    | aliasing other => cases found.symm.trans other
    | shapeShifting other => cases found.symm.trans other
    | script other => cases found.symm.trans other

/-- A model that hands over a new object of its class hands over a clone. -/
theorem duplicate_eq_ok {n : Nat} {model : Address → Cloning α Address} {o o' p : Object α}
    (inner : ClonesWithin n model) (found : d.store[a]? = some o)
    (ok : (duplicate model a o).run d = .ok x d') (other : x ≠ a) (original : d'.store[a]? = some o')
    (copied : d'.store[x]? = some p) (same : p.modelClass? = o'.modelClass?) :
    Cloned (fun h => ModelAt h (h.Within n)) d.store a x d'.store := by
  cases o with
  | call kind name b =>
    obtain ⟨args, d₁, first, ok⟩ := bind_eq_ok ok
    obtain ⟨rfl, stored⟩ := allot_eq_ok ok
    obtain ⟨made, content, atArgs, newArgs⟩ := texts_eq_ok first
    have last := d₁.store.keeps_push (.call kind name args)
    rw [stored]
    refine ⟨made_push_over made rfl, .call kind name content, ?_, ?_⟩
    · exact .call (last (made.grown.kept found)) (last atArgs)
    · exact .call Array.getElem?_push_size (last newArgs)
  | body name b =>
    obtain ⟨held, atTree, ok⟩ := load_bind_eq_ok ok
    cases held with
    | tree addresses =>
      obtain ⟨tree, d₁, first, ok⟩ := bind_eq_ok ok
      obtain ⟨rfl, stored⟩ := allot_eq_ok ok
      obtain ⟨made, content, atModel, newModel⟩ := inner _ _ _ _ first
      obtain ⟨items, rfl⟩ := tree_of_within (made.grown.kept atTree) atModel
      have last := d₁.store.keeps_push (.body name tree)
      rw [stored]
      refine ⟨made_push_over made rfl, .body name items, ?_, ?_⟩
      · exact .body (last (made.grown.kept found)) (last.within atModel)
      · exact .body Array.getElem?_push_size (last.within newModel)
    | _ => cases ok
  | tree addresses =>
    obtain ⟨copies, d₁, first, ok⟩ := bind_eq_ok ok
    obtain ⟨rfl, stored⟩ := allot_eq_ok ok
    obtain ⟨grown, made, items, atItems, newItems⟩ := items_eq_ok inner first
    have last := d₁.store.keeps_push (.tree copies)
    rw [stored]
    refine ⟨made_push grown made, .tree items, ?_, ?_⟩
    · exact .tree (last (grown.kept found)) (atItems.imp fun _ _ => last.itemAt)
    · exact .tree Array.getElem?_push_size (newItems.imp fun _ _ => last.itemAt)
  | aliasing =>
    -- It hands over itself, and that is no new object.
    cases ok
    exact absurd rfl other
  | shapeShifting =>
    -- It hands over a call, and that is of another class.
    obtain ⟨args, d₁, first, ok⟩ := bind_eq_ok ok
    obtain ⟨rfl, stored⟩ := allot_eq_ok ok
    obtain ⟨rfl, storedArgs⟩ := allot_eq_ok first
    rw [stored, Array.getElem?_push_size] at copied
    rw [stored, storedArgs, keeps_push _ _ (keeps_push _ _ found)] at original
    cases copied
    cases original
    cases same
  | script head commands =>
    obtain ⟨made, old, new⟩ := plain_eq_ok rfl found ok
    exact ⟨made, _, .script old, .script new⟩
  | _ => cases ok

/-- A clone that passes shows what the original shows, in new objects. -/
theorem modelWithin_eq_ok (n : Nat) : ClonesWithin n (modelWithin (α := α) n) := by
  induction n with
  | zero =>
    intro a d x d' ok
    cases ok
  | succ n ih =>
    intro a d x d' ok
    obtain ⟨o, found, rest⟩ := load_bind_eq_ok ok
    obtain ⟨c, d₁, handed, checked⟩ := bind_eq_ok rest
    obtain ⟨rfl, rfl, other, o', p, original, copied, same⟩ := verify_eq_ok checked
    obtain ⟨made, m, atModel, newModel⟩ := duplicate_eq_ok ih found handed other original copied same
    exact ⟨made, m, modelBy_eq_some_iff.mpr atModel, modelBy_eq_some_iff.mpr newModel⟩

/-- Only what is there is cloned. -/
theorem lt_size_of_modelWithin {n : Nat} (ok : (modelWithin n a).run d = .ok x d') :
    a < d.store.size := by
  cases n with
  | zero => cases ok
  | succ n =>
    obtain ⟨o, found, _⟩ := load_bind_eq_ok ok
    exact lt_size_of_getElem? found

theorem lt_size_of_model (ok : (model a).run d = .ok x d') : a < d.store.size := by
  obtain ⟨_, _, first, rest⟩ := bind_eq_ok ok
  cases first
  exact lt_size_of_modelWithin rest

theorem model_eq_ok (ok : (model a).run d = .ok x d') :
    Cloned (fun h b m => h.model? b = some m) d.store a x d'.store := by
  obtain ⟨_, _, first, rest⟩ := bind_eq_ok ok
  cases first
  obtain ⟨made, m, atModel, newModel⟩ := modelWithin_eq_ok _ _ _ _ _ rest
  exact ⟨made, m, model?_eq_some_iff.mpr ⟨_, atModel⟩, model?_eq_some_iff.mpr ⟨_, newModel⟩⟩

end Cloning

end Folio
