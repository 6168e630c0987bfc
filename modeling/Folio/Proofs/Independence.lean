import Folio.Proofs.FreshObjects
import Folio.Session.Tree

/-!
# Clones are independent

A clone and its original have no object in common, and changes that are made through one model come
to no object that only the other leads to. So whatever is done to one of them, the other looks the
same.

1. `Edit.changed_of_result?`: what a change can do to the objects and to the ways between them.
2. `Store.Edited.frame`: what a sequence of changes leaves alone.
3. `TreeSession.Reached.closed`: in a session no address is without an object.

Main result: `clone_independent`.
-/

namespace Folio

variable {α : Type}

namespace Store

variable {h h₁ h' : Store α} {named held : List Address}

/-! ## One change -/

/-- `h.Changed named h'`: of the objects that were there only those at the named addresses are
different, and every new way leads to one of these or to a new object. -/
structure Changed (named : List Address) (h h' : Store α) : Prop where
  size_le : h.size ≤ h'.size
  kept : ∀ b < h.size, b ∉ named → h'[b]? = h[b]?
  refers : ∀ a b, h'.Refers a b → h.Refers a b ∨ b < h'.size ∧ (b ∈ named ∨ h.size ≤ b)

theorem Extends.refers_of_lt (grown : h.Extends h') {a b : Address} (old : a < h.size)
    (refers : h'.Refers a b) : h.Refers a b := by
  obtain ⟨o, found, member⟩ := refers
  exact ⟨o, (grown.getElem?_eq old).symm.trans found, member⟩

/-- New objects are a change of none that was there. -/
theorem Extends.changed (grown : h.Extends h') : Changed [] h h' where
  size_le := grown.size_le
  kept _ old _ := grown.getElem?_eq old
  refers a b refers := by
    rcases Nat.lt_or_ge a h.size with old | new
    · exact .inl (grown.refers_of_lt old refers)
    · obtain ⟨above, below⟩ := grown.own a b refers new
      exact .inr ⟨below, .inr above⟩

/-- Another object is put at a named address, after new ones have been made. -/
theorem changed_write {t : Address} {o : Object α} (grown : h.Extends h₁) (target : t ∈ named)
    (leads : ∀ b ∈ o.references, h.Refers t b ∨ b < h₁.size ∧ (b ∈ named ∨ h.size ≤ b)) :
    Changed named h (h₁.setIfInBounds t o) where
  size_le := by
    rw [Array.size_setIfInBounds]
    exact grown.size_le
  kept b old other := by
    have apart : t ≠ b := fun same => other (same ▸ target)
    rw [Array.getElem?_setIfInBounds_ne apart]
    exact grown.getElem?_eq old
  refers a b refers := by
    rw [Array.size_setIfInBounds]
    obtain ⟨p, found, member⟩ := refers
    rw [Array.getElem?_setIfInBounds] at found
    split at found
    next same =>
      subst same
      split at found
      next =>
        cases found
        exact leads b member
      next => cases found
    next =>
      rcases grown.changed.refers a b ⟨p, found, member⟩ with old | ⟨below, missing | above⟩
      · exact .inl old
      · cases missing
      · exact .inr ⟨below, .inr above⟩

end Store

/-- What a change can do. -/
theorem Edit.changed_of_result? {h h' : Store α} {e : Edit α} (done : e.result? h = some h') :
    Store.Changed e.named h h' := by
  cases e with
  | add tree item =>
    rw [result?] at done
    split at done
    next items found =>
      cases done
      obtain ⟨grown, made⟩ := Store.made_newItems [item] h
      refine Store.changed_write grown (by simp [named]) fun b member => ?_
      rcases List.mem_append.mp member with old | new
      · exact .inl ⟨_, found, old⟩
      · exact .inr ⟨(made b new).there, .inr (made b new).new⟩
    next => cases done
  | attach tree item =>
    rw [result?] at done
    split at done
    next items span node found there =>
      cases done
      refine Store.changed_write (.refl h) (by simp [named]) fun b member => ?_
      rcases List.mem_append.mp member with old | new
      · exact .inl ⟨_, found, old⟩
      · rw [List.mem_singleton.mp new]
        exact .inr ⟨Store.lt_size_of_getElem? there, .inl (by simp [named])⟩
    next => cases done
  | setName model name =>
    rw [result?] at done
    split at done
    next kind old args found =>
      cases done
      exact Store.changed_write (.refl h) (by simp [named]) fun b member => .inl ⟨_, found, member⟩
    next old tree found =>
      cases done
      exact Store.changed_write (.refl h) (by simp [named]) fun b member => .inl ⟨_, found, member⟩
    next => cases done
  | setTexts list texts =>
    rw [result?] at done
    split at done
    next =>
      cases done
      exact Store.changed_write (.refl h) (by simp [named]) (List.forall_mem_nil _)
    next => cases done
  | replaceTexts owner texts =>
    have made := Store.made_push_plain (o := .texts texts) h rfl
    have leads : h.size < (h.push (.texts texts)).size ∧ (h.size ∈ [owner] ∨ h.size ≤ h.size) :=
      ⟨made.there, .inr (Nat.le_refl _)⟩
    rw [result?] at done
    split at done
    next =>
      cases done
      exact Store.changed_write made.grown (by simp [named]) (List.forall_mem_singleton.mpr (.inr leads))
    next =>
      cases done
      exact Store.changed_write made.grown (by simp [named]) (List.forall_mem_singleton.mpr (.inr leads))
    next => cases done
  | setText node text =>
    rw [result?] at done
    split at done
    next =>
      cases done
      exact Store.changed_write (.refl h) (by simp [named]) (List.forall_mem_nil _)
    next => cases done
  | setPosition position field x =>
    rw [result?] at done
    split at done
    next =>
      cases done
      exact Store.changed_write (.refl h) (by simp [named]) (List.forall_mem_nil _)
    next => cases done

namespace Store

variable {h h₁ h' : Store α} {named held : List Address}

/-! ## Many changes -/

/-- `Edited held h h'`: the store is changed from `h` to `h'` through the held models. Every change
names addresses that can be reached from one of them when it is made. A model that is made on the way,
from scratch or as a clone of any other, is held from then on. -/
inductive Edited : List Address → Store α → Store α → Prop
  | refl (held : List Address) (h : Store α) : Edited held h h
  | change {held : List Address} {h h₁ h' : Store α} (e : Edit α) :
      (∀ a ∈ e.named, ∃ x ∈ held, h.Reaches x a) → e.result? h = some h₁ → Edited held h₁ h' →
      Edited held h h'
  | create {held : List Address} {h h' : Store α} (m : Model α) :
      Edited (((newModel m).run h).1 :: held) ((newModel m).run h).2 h' → Edited held h h'
  | clone {held : List Address} {h h' : Store α} {d : Desk α} {a x : Address} (log : List BadCopy) :
      (Cloning.model a).run ⟨h, log⟩ = .ok x d → Edited (x :: held) d.store h' → Edited held h h'

/-- After a change one comes from what is held to what one came to before, or to something new. -/
theorem Changed.reaches (changed : Changed named h h')
    (reachable : ∀ a ∈ named, ∃ x ∈ held, h.Reaches x a) {x b : Address} (start : x ∈ held)
    (reached : h'.Reaches x b) : (∃ y ∈ held, h.Reaches y b) ∨ h.size ≤ b := by
  induction reached with
  | refl => exact .inl ⟨x, start, .refl⟩
  | @tail b c _ refers ih =>
    -- The last step was there before, or it leads to a named address or to something new.
    rcases changed.refers b c refers with old | ⟨_, written | new⟩
    · rcases ih with ⟨y, member, earlier⟩ | later
      · exact .inl ⟨y, member, earlier.tail old⟩
      · exact absurd old.lt_size (Nat.not_lt.mpr later)
    · exact .inl (reachable c written)
    · exact .inr new

/-- `h.Avoids held P`: nothing with the property `P` can be reached from what is held. -/
def Avoids (h : Store α) (held : List Address) (P : Address → Prop) : Prop :=
  ∀ x ∈ held, ∀ b, h.Reaches x b → ¬ P b

section

variable {P : Address → Prop}

theorem Changed.avoids (changed : Changed named h h')
    (reachable : ∀ a ∈ named, ∃ x ∈ held, h.Reaches x a) (old : ∀ b, P b → b < h.size)
    (avoids : h.Avoids held P) : h'.Avoids held P := by
  intro x start b reached inside
  rcases changed.reaches reachable start reached with ⟨y, member, earlier⟩ | new
  · exact avoids y member b earlier inside
  · exact absurd (old b inside) (Nat.not_lt.mpr new)

/-- What is made on the way does not lead to anything that was there. -/
theorem Made.avoids {x : Address} (made : h.Made x h') (old : ∀ b, P b → b < h.size)
    (avoids : h.Avoids held P) : h'.Avoids (x :: held) P := by
  refine List.forall_mem_cons.mpr ⟨fun b reached inside => ?_, ?_⟩
  · have new := (made.grown.reaches_new made.new made.there reached).1
    exact absurd (old b inside) (Nat.not_lt.mpr new)
  · exact made.grown.changed.avoids (List.forall_mem_nil _) old avoids

/-- What is left alone after a new object has been made was left alone from the start. -/
theorem Made.frame {x : Address} (made : h.Made x h₁) (old : ∀ b, P b → b < h.size)
    (avoids : h.Avoids held P)
    (later : (∀ b, P b → b < h₁.size) → h₁.Avoids (x :: held) P → ∀ b, P b → h'[b]? = h₁[b]?) :
    ∀ b, P b → h'[b]? = h[b]? := by
  intro b inside
  rw [later (fun c there => Nat.lt_of_lt_of_le (old c there) made.grown.size_le)
    (made.avoids old avoids) b inside]
  exact made.grown.getElem?_eq (old b inside)

/-- Changes through what is held leave alone what cannot be reached from it. -/
theorem Edited.frame (edited : Edited held h h') (old : ∀ b, P b → b < h.size)
    (avoids : h.Avoids held P) : ∀ b, P b → h'[b]? = h[b]? := by
  induction edited with
  | refl => exact fun _ _ => rfl
  | @change held h h₁ h' e reachable done _ ih =>
    have changed := Edit.changed_of_result? done
    intro b inside
    -- All that is named can be reached, and this cannot.
    have other : b ∉ e.named := by
      intro member
      obtain ⟨x, start, reached⟩ := reachable b member
      exact avoids x start b reached inside
    rw [ih (fun c there => Nat.lt_of_lt_of_le (old c there) changed.size_le)
      (changed.avoids reachable old avoids) b inside]
    exact changed.kept b (old b inside) other
  | create m _ ih => exact (made_newModel m _).frame old avoids ih
  | clone log cloned _ ih => exact (Cloning.model_eq_ok cloned).1.frame old avoids ih

end

/-! ## Stores without dangling addresses -/

/-- `h.Closed`: every address that an object leads to has an object. -/
def Closed (h : Store α) : Prop := ∀ a b, h.Refers a b → b < h.size

theorem closed_empty : Closed (#[] : Store α) :=
  fun _ _ refers => absurd refers.lt_size (Nat.not_lt_zero _)

theorem Changed.closed (changed : Changed named h h') (closed : h.Closed) : h'.Closed := by
  intro a b refers
  rcases changed.refers a b refers with old | ⟨below, _⟩
  · exact Nat.lt_of_lt_of_le (closed a b old) changed.size_le
  · exact below

theorem Edited.closed (edited : Edited held h h') (closed : h.Closed) : h'.Closed := by
  induction edited with
  | refl => exact closed
  | change e _ done _ ih => exact ih ((Edit.changed_of_result? done).closed closed)
  | create m _ ih => exact ih ((made_newModel m _).grown.changed.closed closed)
  | clone log cloned _ ih => exact ih ((Cloning.model_eq_ok cloned).1.grown.changed.closed closed)

theorem Closed.reaches_lt (closed : h.Closed) {a b : Address} (there : a < h.size)
    (reached : h.Reaches a b) : b < h.size := by
  induction reached with
  | refl => exact there
  | tail _ refers _ => exact closed _ _ refers

theorem lt_size_of_model? {a : Address} {m : Model α} (shown : h.model? a = some m) : a < h.size := by
  unfold model? at shown
  cases size : h.size with
  | zero =>
    rw [size] at shown
    cases shown
  | succ n =>
    rw [size, modelWithin] at shown
    rw [← size]
    exact lt_size_of_modelAt (modelBy_eq_some_iff.mp shown)

/-- A model looks the same, object by object, after changes through models that share nothing with it. -/
theorem Edited.unchanged {y : Address} (edited : Edited held h h') (closed : h.Closed)
    (there : y < h.size) (avoids : h.Avoids held (h.Reaches y)) :
    (∀ b, h.Reaches y b → h'[b]? = h[b]?) ∧ h'.model? y = h.model? y := by
  have same := edited.frame (fun b => closed.reaches_lt there) avoids
  exact ⟨same, model?_congr same⟩

/-- What was there does not lead to what is new. -/
theorem Extends.reaches_old {y b : Address} (grown : h.Extends h') (closed : h.Closed)
    (there : y < h.size) (reached : h'.Reaches y b) : h.Reaches y b :=
  reaches_of_same (fun _ earlier => grown.getElem?_eq (closed.reaches_lt there earlier)) reached

/-- A new model shares nothing with one that was there. -/
theorem Made.apart {x y b : Address} (made : h.Made x h') (closed : h.Closed) (there : y < h.size)
    (fromNew : h'.Reaches x b) (fromOld : h'.Reaches y b) : False := by
  have new := (made.grown.reaches_new made.new made.there fromNew).1
  have old := closed.reaches_lt there (made.grown.reaches_old closed there fromOld)
  exact Nat.lt_irrefl _ (Nat.lt_of_lt_of_le old new)

theorem Extends.model?_eq {y : Address} (grown : h.Extends h') (closed : h.Closed) (there : y < h.size) :
    h'.model? y = h.model? y :=
  model?_congr fun _ reached => grown.getElem?_eq (closed.reaches_lt there reached)

end Store

/-! ## Sessions -/

namespace Store

variable {h : Store α} {a b : Address}

theorem Reaches.trans {c : Address} (first : h.Reaches a b) (second : h.Reaches b c) : h.Reaches a c :=
  Relation.ReflTransGen.trans first second

theorem Reaches.next {o : Object α} {root : Address} (reached : h.Reaches root a)
    (found : h[a]? = some o) (member : b ∈ o.references) : h.Reaches root b :=
  reached.tail ⟨o, found, member⟩

theorem reaches_tree? (found : h.tree? a = some b) : h.Reaches a b := by
  unfold tree? at found
  split at found
  next =>
    cases found
    exact .refl
  next there =>
    cases found
    exact Reaches.next .refl there (by simp [Object.references])
  next => cases found

theorem reaches_held? {items : List Address} {i : Nat} (held : h.held? a = some items)
    (found : items[i]? = some b) : h.Reaches a b := by
  obtain ⟨tree, atTree, shown⟩ := Option.bind_eq_some_iff.mp held
  unfold items? at shown
  split at shown
  next there =>
    cases shown
    exact (reaches_tree? atTree).next there (List.mem_of_getElem? found)
  next => cases shown

theorem reaches_parts? {span node : Address} (found : h.parts? a = some (span, node)) :
    h.Reaches a span ∧ h.Reaches a node := by
  unfold parts? at found
  split at found
  next there =>
    cases found
    exact ⟨Reaches.next .refl there (by simp [Object.references]),
      Reaches.next .refl there (by simp [Object.references])⟩
  next => cases found

theorem reaches_holds? (found : h.holds? a = some b) : h.Reaches a b := by
  obtain ⟨⟨span, node⟩, parts, found⟩ := Option.bind_eq_some_iff.mp found
  split at found
  next there =>
    cases found
    exact (reaches_parts? parts).2.next there (by simp [Object.references])
  next => cases found

/-- A path leads to something that can be reached. -/
theorem reaches_itemAt? {path : List Nat} (found : h.itemAt? a path = some b) : h.Reaches a b := by
  induction path generalizing a with
  | nil => cases found
  | cons i rest ih =>
    cases rest with
    | nil =>
      obtain ⟨items, held, found⟩ := Option.bind_eq_some_iff.mp found
      exact reaches_held? held found
    | cons j rest =>
      obtain ⟨items, held, found⟩ := Option.bind_eq_some_iff.mp found
      obtain ⟨item, atItem, found⟩ := Option.bind_eq_some_iff.mp found
      obtain ⟨inner, holds, found⟩ := Option.bind_eq_some_iff.mp found
      exact ((reaches_held? held atItem).trans (reaches_holds? holds)).trans (ih found)

theorem reaches_modelAt? {path : List Nat} (found : h.modelAt? a path = some b) : h.Reaches a b := by
  cases path with
  | nil =>
    cases found
    exact .refl
  | cons i rest =>
    obtain ⟨item, atItem, holds⟩ := Option.bind_eq_some_iff.mp found
    exact (reaches_itemAt? atItem).trans (reaches_holds? holds)

theorem reaches_end? {which : Span.End} (found : h.end? a which = some b) : h.Reaches a b := by
  obtain ⟨⟨span, node⟩, parts, found⟩ := Option.bind_eq_some_iff.mp found
  split at found
  next there _ =>
    cases found
    exact (reaches_parts? parts).1.next there (by simp [Object.references])
  next there _ =>
    cases found
    exact (reaches_parts? parts).1.next there (by simp [Object.references])
  next => cases found

end Store

namespace TreeSession

open Store

/-- A change is about addresses that can be reached from where its path starts. -/
theorem Change.reaches_named {c : Change α} {h : Store α} {root : Address} {path : List Nat} {e : Edit α}
    (found : c.edit? h root path = some e) : ∀ a ∈ e.named, h.Reaches root a := by
  cases c with
  | setText text =>
    obtain ⟨item, atItem, found⟩ := Option.bind_eq_some_iff.mp found
    obtain ⟨⟨span, node⟩, parts, found⟩ := Option.bind_eq_some_iff.mp found
    cases found
    exact List.forall_mem_singleton.mpr ((reaches_itemAt? atItem).trans (reaches_parts? parts).2)
  | pushLine line =>
    obtain ⟨item, atItem, found⟩ := Option.bind_eq_some_iff.mp found
    obtain ⟨⟨span, node⟩, parts, found⟩ := Option.bind_eq_some_iff.mp found
    split at found
    next there =>
      obtain ⟨content, _, found⟩ := Option.bind_eq_some_iff.mp found
      cases found
      refine List.forall_mem_singleton.mpr ?_
      exact ((reaches_itemAt? atItem).trans (reaches_parts? parts).2).next there (by simp [Object.references])
    next => cases found
  | pushArg arg =>
    obtain ⟨model, atModel, found⟩ := Option.bind_eq_some_iff.mp found
    split at found
    next there =>
      obtain ⟨content, _, found⟩ := Option.bind_eq_some_iff.mp found
      cases found
      exact List.forall_mem_singleton.mpr
        ((reaches_modelAt? atModel).next there (by simp [Object.references]))
    next => cases found
  | setName name =>
    obtain ⟨model, atModel, found⟩ := Option.bind_eq_some_iff.mp found
    cases found
    exact List.forall_mem_singleton.mpr (reaches_modelAt? atModel)
  | setSpan which field x =>
    obtain ⟨item, atItem, found⟩ := Option.bind_eq_some_iff.mp found
    obtain ⟨position, atEnd, found⟩ := Option.bind_eq_some_iff.mp found
    cases found
    exact List.forall_mem_singleton.mpr ((reaches_itemAt? atItem).trans (reaches_end? atEnd))

/-- The register through which a step changes objects. -/
def Step.through? : Step α → Option String
  | .add name _ _ => some name
  | .change name _ _ => some name
  | _ => none

/-- The model through which a step changes objects. -/
def State.through (s : State α) (step : Step α) : List Address :=
  (step.through?.bind fun name => s.registers.get? name).toList

theorem edited_of_change {e : Edit α} {h h' : Store α} {root : Address}
    (reachable : ∀ a ∈ e.named, h.Reaches root a) (done : e.result? h = some h') : Edited [root] h h' :=
  .change e (fun a member => ⟨root, by simp, reachable a member⟩) done (.refl _ _)

/-- A step changes objects through one register at most. -/
theorem edited_of_perform [Coordinate α] {s s' : State α} {step : Step α} {answer : Answer α}
    (done : perform s step = some (s', answer)) : Edited (s.through step) s.store s'.store := by
  cases step with
  | create target m =>
    obtain ⟨_, _, done⟩ := Option.bind_eq_some_iff.mp done
    cases done
    exact .create m (.refl _ _)
  | add name path item =>
    obtain ⟨model, atModel, done⟩ := Option.bind_eq_some_iff.mp done
    obtain ⟨tree, atTree, done⟩ := Option.bind_eq_some_iff.mp done
    obtain ⟨store, changed, done⟩ := Option.bind_eq_some_iff.mp done
    obtain ⟨_, _, done⟩ := Option.bind_eq_some_iff.mp done
    obtain ⟨root, found, atModel⟩ := Option.bind_eq_some_iff.mp atModel
    cases done
    simp only [State.through, Step.through?, Option.bind_some, found, Option.toList_some]
    refine edited_of_change (fun a member => ?_) changed
    rw [List.mem_singleton.mp member]
    exact (reaches_modelAt? atModel).trans (reaches_tree? atTree)
  | change name path c =>
    obtain ⟨root, found, done⟩ := Option.bind_eq_some_iff.mp done
    obtain ⟨e, atPath, done⟩ := Option.bind_eq_some_iff.mp done
    obtain ⟨store, changed, done⟩ := Option.bind_eq_some_iff.mp done
    obtain ⟨_, _, done⟩ := Option.bind_eq_some_iff.mp done
    cases done
    simp only [State.through, Step.through?, Option.bind_some, found, Option.toList_some]
    exact edited_of_change (Change.reaches_named atPath) changed
  | copy target name path =>
    obtain ⟨model, _, done⟩ := Option.bind_eq_some_iff.mp done
    split at done
    next c d cloned =>
      obtain ⟨_, _, done⟩ := Option.bind_eq_some_iff.mp done
      cases done
      exact .clone [] cloned (.refl _ _)
    next =>
      cases done
      exact .refl _ _
    next => cases done
  | copyNode name path =>
    obtain ⟨node, _, done⟩ := Option.bind_eq_some_iff.mp done
    split at done
    next =>
      obtain ⟨_, _, done⟩ := Option.bind_eq_some_iff.mp done
      cases done
      exact .refl _ _
    next =>
      cases done
      exact .refl _ _
    next => cases done
  | length name path =>
    obtain ⟨_, _, done⟩ := Option.bind_eq_some_iff.mp done
    obtain ⟨_, _, done⟩ := Option.bind_eq_some_iff.mp done
    cases done
    exact .refl _ _
  | equal a path b otherPath =>
    obtain ⟨_, _, done⟩ := Option.bind_eq_some_iff.mp done
    obtain ⟨_, _, done⟩ := Option.bind_eq_some_iff.mp done
    cases done
    exact .refl _ _
  | equalNodes a path b otherPath =>
    obtain ⟨_, _, done⟩ := Option.bind_eq_some_iff.mp done
    obtain ⟨_, _, done⟩ := Option.bind_eq_some_iff.mp done
    cases done
    exact .refl _ _
  | isClass name path c =>
    obtain ⟨_, _, done⟩ := Option.bind_eq_some_iff.mp done
    cases done
    exact .refl _ _
  | downcastNode name path c =>
    obtain ⟨_, _, done⟩ := Option.bind_eq_some_iff.mp done
    cases done
    exact .refl _ _
  | layout name path =>
    obtain ⟨_, _, done⟩ := Option.bind_eq_some_iff.mp done
    cases done
    exact .refl _ _
  | look name =>
    obtain ⟨_, _, done⟩ := Option.bind_eq_some_iff.mp done
    cases done
    exact .refl _ _

/-- The states that a session can come to. -/
inductive Reached [Coordinate α] : State α → Prop
  | start : Reached {}
  | step {s s' : State α} {step : Step α} {answer : Answer α} : Reached s →
      perform s step = some (s', answer) → Reached s'

/-- In a session no address is without an object. -/
theorem Reached.closed [Coordinate α] {s : State α} (reached : Reached s) : s.store.Closed := by
  induction reached with
  | start => exact closed_empty
  | step _ done ih => exact (edited_of_perform done).closed ih

end TreeSession

/-! ## Clones -/

namespace Store

/-- `h.Independent x y`: changes through `x`, and through any other models that share nothing with
`y`, leave every object of `y` as it is, and what it looks like. -/
def Independent (h : Store α) (x y : Address) : Prop :=
  ∀ (others : List Address) (h' : Store α), h.Avoids others (h.Reaches y) → Edited (x :: others) h h' →
    (∀ b, h.Reaches y b → h'[b]? = h[b]?) ∧ h'.model? y = h.model? y

/-- `h.HasClone m e`: `e` was once cloned from `m`, and neither of the two has been changed since. -/
def HasClone (h : Store α) (m e : Address) : Prop :=
  ∃ (h₀ : Store α) (log : List BadCopy) (d : Desk α) (held : List Address), h₀.Closed ∧
    (Cloning.model m).run ⟨h₀, log⟩ = .ok e d ∧ Edited held d.store h ∧
    d.store.Avoids held (d.store.Reaches m) ∧ d.store.Avoids held (d.store.Reaches e)

variable {h : Store α} {x y : Address}

theorem independent_of_apart (closed : h.Closed) (there : y < h.size)
    (apart : ∀ b, h.Reaches x b → ¬ h.Reaches y b) : h.Independent x y := by
  intro others h' avoids edited
  exact edited.unchanged closed there (List.forall_mem_cons.mpr ⟨apart, avoids⟩)

/-- An old clone still looks like its original. -/
theorem HasClone.model?_eq {m e : Address} (has : h.HasClone m e) :
    ∃ v, h.model? m = some v ∧ h.model? e = some v := by
  obtain ⟨h₀, log, d, held, closed, cloned, edited, avoidsOriginal, avoidsClone⟩ := has
  obtain ⟨made, v, original, copy⟩ := Cloning.model_eq_ok cloned
  have still := made.grown.changed.closed closed
  refine ⟨v, ?_, ?_⟩
  · rw [(edited.unchanged still (lt_size_of_model? original) avoidsOriginal).2, original]
  · rw [(edited.unchanged still made.there avoidsClone).2, copy]

end Store

open Store in
/-- A clone looks like its original and is independent of it, and the original of the clone. In
particular the original keeps looking like each of its earlier clones when the last one is changed. -/
theorem clone_independent {h : Store α} {m c : Address} {log : List BadCopy} {d : Desk α}
    (closed : h.Closed) (cloned : (Cloning.model m).run ⟨h, log⟩ = .ok c d) :
    (∃ v, h.model? m = some v ∧ d.store.model? m = some v ∧ d.store.model? c = some v) ∧
    d.store.Independent c m ∧ d.store.Independent m c ∧
    ∀ (e : Address) (others : List Address) (h' : Store α), h.HasClone m e →
      d.store.Avoids others (d.store.Reaches m) → d.store.Avoids others (d.store.Reaches e) →
      Edited (c :: others) d.store h' →
      ∃ v, h.model? m = some v ∧ h'.model? m = some v ∧ h'.model? e = some v := by
  obtain ⟨made, v, original, copy⟩ := Cloning.model_eq_ok cloned
  have there : m < h.size := Cloning.lt_size_of_model cloned
  have still := made.grown.changed.closed closed
  have before : d.store.model? m = h.model? m := made.grown.model?_eq closed there
  -- All of the clone is new, and nothing that was there leads to it.
  have apart : ∀ y, y < h.size → ∀ b, d.store.Reaches c b → ¬ d.store.Reaches y b :=
    fun y old b fromNew fromOld => made.apart closed old fromNew fromOld
  refine ⟨⟨v, before ▸ original, original, copy⟩, ?_, ?_, ?_⟩
  · exact independent_of_apart still (Nat.lt_of_lt_of_le there made.grown.size_le) (apart m there)
  · exact independent_of_apart still made.there fun b fromOld fromNew => apart m there b fromNew fromOld
  · intro e others h' has avoidsOriginal avoidsClone edited
    obtain ⟨w, shown, shownToo⟩ := has.model?_eq
    have earlier : e < h.size := lt_size_of_model? shownToo
    have sameOriginal := edited.unchanged still (Nat.lt_of_lt_of_le there made.grown.size_le)
      (List.forall_mem_cons.mpr ⟨apart m there, avoidsOriginal⟩)
    have sameClone := edited.unchanged still (Nat.lt_of_lt_of_le earlier made.grown.size_le)
      (List.forall_mem_cons.mpr ⟨apart e earlier, avoidsClone⟩)
    refine ⟨w, shown, ?_, ?_⟩
    · rw [sameOriginal.2, before, shown]
    · rw [sameClone.2, made.grown.model?_eq closed earlier, shownToo]

/-- A tree with one call. -/
def oneCall : Model Int := .tree [⟨⟨⟨1, 1, 0⟩, ⟨1, 5, 4⟩⟩, .model (.call .function "f" ["x"])⟩]

/-- The objects of `oneCall`. The tree is at 7, its call at 4. -/
def oneCallStore : Store Int := ((Store.newModel oneCall).run #[]).2

/-- The objects of `oneCall` and of its clone, which has its tree at 15 and its call at 12. -/
def oneCallCloned : Store Int :=
  oneCallStore ++ #[.position ⟨1, 1, 0⟩, .position ⟨1, 5, 4⟩, .span 8 9, .texts ["x"],
    .call .function "f" 11, .holder 12, .item 10 13, .tree [14]]

/-- Another call and one more node, put into the clone. -/
def oneCallEdits : List (Edit Int) :=
  [.setName 12 "g", .setTexts 11 ["x", "y"], .setPosition 8 .offset 2,
    .add 15 ⟨⟨⟨1, 5, 4⟩, ⟨1, 6, 5⟩⟩, .leaf .space⟩]

open Store in
/-- The clone is changed at each level, and the original is not. -/
theorem oneCall_undisturbed :
    oneCallStore.Closed ∧ (Cloning.model 7).run ⟨oneCallStore, []⟩ = .ok 15 ⟨oneCallCloned, []⟩ ∧
    ∃ h', oneCallEdits.foldlM (fun h e => e.result? h) oneCallCloned = some h' ∧
      h'.model? 15 = some (.tree [⟨⟨⟨1, 1, 2⟩, ⟨1, 5, 4⟩⟩, .model (.call .function "g" ["x", "y"])⟩,
        ⟨⟨⟨1, 5, 4⟩, ⟨1, 6, 5⟩⟩, .leaf .space⟩]) ∧
      h'.model? 7 = some oneCall := by
  have closed : oneCallStore.Closed := (made_newModel oneCall #[]).grown.changed.closed closed_empty
  have cloned : (Cloning.model 7).run ⟨oneCallStore, []⟩ = .ok 15 ⟨oneCallCloned, []⟩ := rfl
  refine ⟨closed, cloned, _, rfl, rfl, ?_⟩
  have independent := (clone_independent closed cloned).2.1
  refine (independent [] _ (List.forall_mem_nil _) ?_).2.trans rfl
  have reachable {h : Store Int} {a : Address} (reached : h.Reaches 15 a) :
      ∀ b ∈ [a], ∃ x ∈ [15], h.Reaches x b :=
    List.forall_mem_singleton.mpr ⟨15, List.mem_singleton.mpr rfl, reached⟩
  have item {h : Store Int} {b : Address} (tree : h[15]? = some (.tree [14]))
      (parts : h[14]? = some (.item 10 13)) (member : b ∈ [10, 13]) : h.Reaches 15 b :=
    (Reaches.next .refl tree (b := 14) (by decide)).next (o := .item 10 13) parts member
  have call {h : Store Int} (tree : h[15]? = some (.tree [14])) (parts : h[14]? = some (.item 10 13))
      (holder : h[13]? = some (.holder 12)) : h.Reaches 15 12 :=
    (item tree parts (b := 13) (by decide)).next holder (by decide)
  refine .change (.setName 12 "g") (reachable (call rfl rfl rfl)) rfl ?_
  refine .change (.setTexts 11 ["x", "y"]) (reachable ?_) rfl ?_
  · exact (call rfl rfl rfl).next (o := .call .function "g" 11) rfl (by decide)
  refine .change (.setPosition 8 .offset 2) (reachable ?_) rfl ?_
  · exact (item rfl rfl (b := 10) (by decide)).next (o := .span 8 9) rfl (by decide)
  exact .change (.add 15 ⟨⟨⟨1, 5, 4⟩, ⟨1, 6, 5⟩⟩, .leaf .space⟩) (reachable .refl) rfl (.refl _ _)

end Folio
