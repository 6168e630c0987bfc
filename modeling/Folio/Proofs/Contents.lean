import Folio.Store.Basic
import Mathlib.Data.List.Forall2
import Mathlib.Data.List.Perm.Subperm
import Mathlib.Logic.Relation

/-!
# What a store shows

A model in a store is made of the objects that can be reached from it, so what it looks like hangs on
these and on no others.

1. `Store.modelBy_eq_some_iff`: one level of a model, case by case.
2. `Store.modelWithin_mono`: what is shown stays so as long as the objects that are reached stay.
3. `Store.model?_eq_some_iff`: as many levels as there are objects are enough for every model.
-/

namespace Folio

namespace Store

variable {α : Type} {h h' : Store α}

/-! ## Reach -/

/-- `h.Refers a b`: the object at `a` leads to `b`. -/
def Refers (h : Store α) (a b : Address) : Prop := ∃ o, h[a]? = some o ∧ b ∈ o.references

/-- `h.Reaches a b`: one comes from `a` to `b` along references. -/
def Reaches (h : Store α) : Address → Address → Prop := Relation.ReflTransGen h.Refers

/-- `h.KeptFrom a h'`: the objects that can be reached from `a` are in the other store as they are. -/
def KeptFrom (h : Store α) (a : Address) (h' : Store α) : Prop :=
  ∀ b o, h.Reaches a b → h[b]? = some o → h'[b]? = some o

theorem KeptFrom.here {a : Address} {o : Object α} (kept : h.KeptFrom a h') (found : h[a]? = some o) :
    h'[a]? = some o :=
  kept a o Relation.ReflTransGen.refl found

theorem KeptFrom.next {a b : Address} {o : Object α} (kept : h.KeptFrom a h')
    (found : h[a]? = some o) (member : b ∈ o.references) : h.KeptFrom b h' := by
  intro c p reached there
  exact kept c p (Relation.ReflTransGen.head ⟨o, found, member⟩ reached) there

/-! ## One level -/

theorem position?_eq_some_iff {a : Address} {p : Position α} :
    h.position? a = some p ↔ h[a]? = some (.position p) := by
  unfold position?
  split <;> simp_all

theorem texts?_eq_some_iff {a : Address} {content : List String} :
    h.texts? a = some content ↔ h[a]? = some (.texts content) := by
  unfold texts?
  split <;> simp_all

/-- The span at an address, and where its ends are. -/
inductive SpanAt (h : Store α) : Address → Span α → Prop
  | mk {a b c : Address} {s : Span α} : h[a]? = some (.span b c) →
      h[b]? = some (.position s.start) → h[c]? = some (.position s.stop) → SpanAt h a s

/-- The node at an address, when `R` tells the models. -/
inductive NodeAt (h : Store α) (R : Address → Model α → Prop) : Address → Node α → Prop
  | mark {a : Address} {kind : Mark} : h[a]? = some (.mark kind) → NodeAt h R a (.leaf kind.leaf)
  | text {a : Address} {content : String} : h[a]? = some (.text content) →
      NodeAt h R a (.leaf (.text content))
  | raw {a b : Address} {lines : List String} : h[a]? = some (.raw b) →
      h[b]? = some (.texts lines) → NodeAt h R a (.leaf (.raw lines))
  | holder {a b : Address} {m : Model α} : h[a]? = some (.holder b) → R b m →
      NodeAt h R a (.model m)

/-- The node at an address with its span. -/
inductive ItemAt (h : Store α) (R : Address → Model α → Prop) : Address → Item α → Prop
  | mk {a b c : Address} {s : Span α} {n : Node α} : h[a]? = some (.item b c) → SpanAt h b s →
      NodeAt h R c n → ItemAt h R a ⟨s, n⟩

/-- The model at an address, when `R` tells those that it holds. -/
inductive ModelAt (h : Store α) (R : Address → Model α → Prop) : Address → Model α → Prop
  | call {a b : Address} {kind : CallKind} {name : String} {args : List String} :
      h[a]? = some (.call kind name b) → h[b]? = some (.texts args) →
      ModelAt h R a (.call kind name args)
  | body {a b : Address} {name : String} {items : List (Item α)} : h[a]? = some (.body name b) →
      R b (.tree items) → ModelAt h R a (.body name items)
  | tree {a : Address} {addresses : List Address} {items : List (Item α)} :
      h[a]? = some (.tree addresses) → List.Forall₂ (ItemAt h R) addresses items →
      ModelAt h R a (.tree items)
  | aliasing {a : Address} : h[a]? = some .aliasing → ModelAt h R a .aliasing
  | shapeShifting {a : Address} : h[a]? = some .shapeShifting → ModelAt h R a .shapeShifting
  | script {a : Address} {head : Script α} {commands : List (Command α)} :
      h[a]? = some (.script head commands) → ModelAt h R a (.script head commands)

section

variable {f : Address → Option (Model α)}

theorem span?_eq_some_iff {a : Address} {s : Span α} : h.span? a = some s ↔ SpanAt h a s := by
  constructor
  · intro shown
    unfold span? at shown
    split at shown
    next b c found =>
      obtain ⟨start, atStart, rest⟩ := Option.bind_eq_some_iff.mp shown
      obtain ⟨stop, atStop, same⟩ := Option.bind_eq_some_iff.mp rest
      cases same
      exact ⟨found, position?_eq_some_iff.mp atStart, position?_eq_some_iff.mp atStop⟩
    next => cases shown
  · rintro ⟨found, atStart, atStop⟩
    unfold span?
    rw [found]
    simp [position?_eq_some_iff.mpr atStart, position?_eq_some_iff.mpr atStop]

theorem nodeBy_eq_some_iff {a : Address} {n : Node α} :
    h.nodeBy f a = some n ↔ NodeAt h (fun b m => f b = some m) a n := by
  constructor
  · intro shown
    unfold nodeBy at shown
    split at shown
    next kind found =>
      cases shown
      exact .mark found
    next content found =>
      cases shown
      exact .text found
    next b found =>
      obtain ⟨lines, atLines, rfl⟩ := Option.map_eq_some_iff.mp shown
      exact .raw found (texts?_eq_some_iff.mp atLines)
    next b found =>
      obtain ⟨m, atModel, rfl⟩ := Option.map_eq_some_iff.mp shown
      exact .holder found atModel
    next => cases shown
  · intro shown
    unfold nodeBy
    cases shown with
    | mark found => rw [found]
    | text found => rw [found]
    | raw found atLines => simp only [found, texts?_eq_some_iff.mpr atLines, Option.map_some]
    | holder found atModel => simp only [found, atModel, Option.map_some]

theorem itemBy_eq_some_iff {a : Address} {item : Item α} :
    h.itemBy f a = some item ↔ ItemAt h (fun b m => f b = some m) a item := by
  constructor
  · intro shown
    unfold itemBy at shown
    split at shown
    next b c found =>
      obtain ⟨s, atSpan, rest⟩ := Option.bind_eq_some_iff.mp shown
      obtain ⟨n, atNode, same⟩ := Option.bind_eq_some_iff.mp rest
      cases same
      exact ⟨found, span?_eq_some_iff.mp atSpan, nodeBy_eq_some_iff.mp atNode⟩
    next => cases shown
  · rintro ⟨found, atSpan, atNode⟩
    unfold itemBy
    rw [found]
    simp [span?_eq_some_iff.mpr atSpan, nodeBy_eq_some_iff.mpr atNode]

theorem mapM_itemBy_eq_some_iff {addresses : List Address} {items : List (Item α)} :
    addresses.mapM (h.itemBy f) = some items ↔
      List.Forall₂ (ItemAt h fun b m => f b = some m) addresses items := by
  induction addresses generalizing items with
  | nil => cases items <;> simp
  | cons a rest ih =>
    rw [List.mapM_cons]
    constructor
    · intro shown
      obtain ⟨item, first, later⟩ := Option.bind_eq_some_iff.mp shown
      obtain ⟨others, found, same⟩ := Option.bind_eq_some_iff.mp later
      cases same
      exact .cons (itemBy_eq_some_iff.mp first) (ih.mp found)
    · rintro (_ | ⟨first, later⟩)
      simp [itemBy_eq_some_iff.mpr first, ih.mpr later]

/-- What one level of a model can be. -/
theorem modelBy_eq_some_iff {a : Address} {m : Model α} :
    h.modelBy f a = some m ↔ ModelAt h (fun b m => f b = some m) a m := by
  constructor
  · intro shown
    unfold modelBy at shown
    split at shown
    next kind name b found =>
      obtain ⟨args, atArgs, rfl⟩ := Option.map_eq_some_iff.mp shown
      exact .call found (texts?_eq_some_iff.mp atArgs)
    next name b found =>
      split at shown
      next items atTree =>
        cases shown
        exact .body found atTree
      next => cases shown
    next addresses found =>
      obtain ⟨items, atItems, rfl⟩ := Option.map_eq_some_iff.mp shown
      exact .tree found (mapM_itemBy_eq_some_iff.mp atItems)
    next found =>
      cases shown
      exact .aliasing found
    next found =>
      cases shown
      exact .shapeShifting found
    next head commands found =>
      cases shown
      exact .script found
    next => cases shown
  · intro shown
    unfold modelBy
    cases shown with
    | call found atArgs => simp only [found, texts?_eq_some_iff.mpr atArgs, Option.map_some]
    | body found atTree => simp only [found, atTree]
    | tree found atItems => simp only [found, mapM_itemBy_eq_some_iff.mpr atItems, Option.map_some]
    | aliasing found => rw [found]
    | shapeShifting found => rw [found]
    | script found => rw [found]

end

/-! ## Kept objects show what they showed -/

theorem SpanAt.mono {a : Address} {s : Span α} (kept : h.KeptFrom a h') (shown : SpanAt h a s) :
    SpanAt h' a s := by
  obtain ⟨found, atStart, atStop⟩ := shown
  exact ⟨kept.here found, (kept.next found (by simp [Object.references])).here atStart,
    (kept.next found (by simp [Object.references])).here atStop⟩

section

variable {R R' : Address → Model α → Prop}

theorem NodeAt.mono {a : Address} {n : Node α} (kept : h.KeptFrom a h')
    (inner : ∀ b m, h.KeptFrom b h' → sizeOf m < sizeOf n → R b m → R' b m)
    (shown : NodeAt h R a n) : NodeAt h' R' a n := by
  cases shown with
  | mark found => exact .mark (kept.here found)
  | text found => exact .text (kept.here found)
  | raw found atLines =>
    exact .raw (kept.here found) ((kept.next found (by simp [Object.references])).here atLines)
  | holder found atModel =>
    refine .holder (kept.here found) (inner _ _ (kept.next found ?_) ?_ atModel)
    · simp [Object.references]
    · simp

theorem ItemAt.mono {a : Address} {item : Item α} (kept : h.KeptFrom a h')
    (inner : ∀ b m, h.KeptFrom b h' → sizeOf m < sizeOf item → R b m → R' b m)
    (shown : ItemAt h R a item) : ItemAt h' R' a item := by
  obtain ⟨found, atSpan, atNode⟩ := shown
  refine ⟨kept.here found, atSpan.mono (kept.next found (by simp [Object.references])), ?_⟩
  refine atNode.mono (kept.next found (by simp [Object.references])) fun b m keptThere smaller => ?_
  refine inner b m keptThere (Nat.lt_trans smaller ?_)
  rw [Spanned.mk.sizeOf_spec]
  omega

theorem ItemAt.mono_all {addresses : List Address} {items : List (Item α)}
    (kept : ∀ a ∈ addresses, h.KeptFrom a h')
    (inner : ∀ b m, h.KeptFrom b h' → sizeOf m < sizeOf items → R b m → R' b m)
    (shown : List.Forall₂ (ItemAt h R) addresses items) :
    List.Forall₂ (ItemAt h' R') addresses items := by
  induction shown with
  | nil => exact .nil
  | cons first later ih =>
    rw [List.cons.sizeOf_spec] at inner
    refine .cons (first.mono (kept _ (by simp)) fun b m keptThere smaller => ?_)
      (ih (fun a member => kept a (by simp [member])) fun b m keptThere smaller => ?_)
    · exact inner b m keptThere (by omega)
    · exact inner b m keptThere (by omega)

/-- One level of a model stays as it is if the models in it do. These are smaller. -/
theorem ModelAt.mono {a : Address} {m : Model α} (kept : h.KeptFrom a h')
    (inner : ∀ b w, h.KeptFrom b h' → sizeOf w < sizeOf m → R b w → R' b w)
    (shown : ModelAt h R a m) : ModelAt h' R' a m := by
  cases shown with
  | call found atArgs =>
    exact .call (kept.here found) ((kept.next found (by simp [Object.references])).here atArgs)
  | @body _ name items found atTree =>
    refine .body (kept.here found) (inner _ _ (kept.next found ?_) ?_ atTree)
    · simp [Object.references]
    · have named : 0 < sizeOf name := by
        cases name
        rw [String.ofByteArray.sizeOf_spec]
        exact Nat.add_pos_left Nat.one_pos _
      rw [Model.tree.sizeOf_spec, Model.body.sizeOf_spec]
      omega
  | tree found atItems =>
    rw [Model.tree.sizeOf_spec] at inner
    refine .tree (kept.here found) (ItemAt.mono_all (fun b member => kept.next found member) ?_ atItems)
    exact fun b w keptThere smaller => inner b w keptThere (by omega)
  | aliasing found => exact .aliasing (kept.here found)
  | shapeShifting found => exact .shapeShifting (kept.here found)
  | script found => exact .script (kept.here found)

end

/-- More levels, and a store that keeps what is reached, show the same. -/
theorem modelWithin_mono {n k : Nat} {a : Address} {m : Model α} (kept : h.KeptFrom a h')
    (more : n ≤ k) (shown : h.modelWithin n a = some m) : h'.modelWithin k a = some m := by
  induction n generalizing k a m with
  | zero => cases shown
  | succ n ih =>
    obtain ⟨k, rfl⟩ := Nat.exists_eq_add_of_le' (Nat.le_trans (Nat.succ_le_succ (Nat.zero_le n)) more)
    rw [modelWithin, modelBy_eq_some_iff] at shown ⊢
    exact shown.mono kept fun b w keptThere _ => ih keptThere (Nat.le_of_succ_le_succ more)

/-! ## Enough levels -/

theorem keptFrom_self (h : Store α) (a : Address) : h.KeptFrom a h := fun _ _ _ found => found

/-- An address shows one model only. -/
theorem modelWithin_unique {n k : Nat} {a : Address} {m w : Model α}
    (first : h.modelWithin n a = some m) (second : h.modelWithin k a = some w) : m = w := by
  have one := modelWithin_mono (h.keptFrom_self a) (Nat.le_max_left n k) first
  have other := modelWithin_mono (h.keptFrom_self a) (Nat.le_max_right n k) second
  exact Option.some.inj (one.symm.trans other)

theorem lt_size_of_modelAt {R : Address → Model α → Prop} {a : Address} {m : Model α}
    (shown : ModelAt h R a m) : a < h.size := by
  have there : ∃ o, h[a]? = some o := by
    cases shown with
    | call found _ => exact ⟨_, found⟩
    | body found _ => exact ⟨_, found⟩
    | tree found _ => exact ⟨_, found⟩
    | aliasing found => exact ⟨_, found⟩
    | shapeShifting found => exact ⟨_, found⟩
    | script found => exact ⟨_, found⟩
  obtain ⟨o, found⟩ := there
  exact (Array.getElem?_eq_some_iff.mp found).1

/-- The models around a model are larger, so no address among theirs comes twice, and there are fewer
of them than objects. -/
theorem modelWithin_of_around {n : Nat} {a : Address} {m : Model α}
    (shown : h.modelWithin n a = some m) (around : List Address) (distinct : around.Nodup)
    (larger : ∀ b ∈ around, b < h.size ∧ ∃ k w, h.modelWithin k b = some w ∧ sizeOf m < sizeOf w) :
    h.modelWithin (h.size - around.length) a = some m := by
  induction n generalizing a m around with
  | zero => cases shown
  | succ n ih =>
    have level := modelBy_eq_some_iff.mp shown
    have apart : a ∉ around := by
      intro member
      obtain ⟨_, k, w, other, more⟩ := larger a member
      rw [modelWithin_unique shown other] at more
      exact Nat.lt_irrefl _ more
    have next : (a :: around).Nodup := List.nodup_cons.mpr ⟨apart, distinct⟩
    have bounded : ∀ b ∈ a :: around, b < h.size := by
      intro b member
      rcases List.mem_cons.mp member with rfl | later
      · exact lt_size_of_modelAt level
      · exact (larger b later).1
    have room : (a :: around).length ≤ h.size := by
      have within := List.subperm_of_subset next fun b member => List.mem_range.mpr (bounded b member)
      exact Nat.le_trans within.length_le (Nat.le_of_eq List.length_range)
    rw [List.length_cons] at room
    have levels : h.size - around.length = (h.size - (a :: around).length) + 1 := by
      rw [List.length_cons]
      omega
    rw [levels, modelWithin, modelBy_eq_some_iff]
    -- For the models one level further in, this one is around as well.
    refine level.mono (h.keptFrom_self a) fun b w _ smaller inside => ?_
    refine ih inside (a :: around) next fun c member => ⟨bounded c member, ?_⟩
    rcases List.mem_cons.mp member with rfl | later
    · exact ⟨n + 1, m, shown, smaller⟩
    · obtain ⟨_, k, v, other, more⟩ := larger c later
      exact ⟨k, v, other, Nat.lt_trans smaller more⟩

/-- `h.Shows a m`: the object at the address is the model `m`, with all that this holds. -/
def Shows (h : Store α) (a : Address) (m : Model α) : Prop := ∃ n, h.modelWithin n a = some m

/-- Every model has no more levels than there are objects. -/
theorem model?_eq_some_iff {a : Address} {m : Model α} : h.model? a = some m ↔ h.Shows a m := by
  constructor
  · exact fun shown => ⟨h.size, shown⟩
  · rintro ⟨n, shown⟩
    exact modelWithin_of_around shown [] .nil (by simp)

/-! ## Reach decides -/

theorem Shows.mono {a : Address} {m : Model α} (kept : h.KeptFrom a h') (shown : h.Shows a m) :
    h'.Shows a m := by
  obtain ⟨n, within⟩ := shown
  exact ⟨n, modelWithin_mono kept (Nat.le_refl n) within⟩

/-- Along objects that are the same in both stores, one comes to the same addresses. -/
theorem reaches_of_same {a b : Address} (same : ∀ c, h.Reaches a c → h'[c]? = h[c]?)
    (reached : h'.Reaches a b) : h.Reaches a b := by
  induction reached with
  | refl => exact Relation.ReflTransGen.refl
  | tail _ refers ih =>
    obtain ⟨o, found, member⟩ := refers
    rw [same _ ih] at found
    exact Relation.ReflTransGen.tail ih ⟨o, found, member⟩

/-- A model looks the same in two stores that agree on what can be reached from it. -/
theorem model?_congr {a : Address} (same : ∀ b, h.Reaches a b → h'[b]? = h[b]?) :
    h'.model? a = h.model? a := by
  have there : h.KeptFrom a h' := fun b o reached found => (same b reached).trans found
  have back : h'.KeptFrom a h := fun b o reached found =>
    (same b (reaches_of_same same reached)).symm.trans found
  refine Option.ext fun m => ?_
  rw [model?_eq_some_iff, model?_eq_some_iff]
  exact ⟨Shows.mono back, Shows.mono there⟩

end Store

end Folio
