import Folio.Proofs.FreshObjects

/-!
# Clones in a store are copies

A clone that is made object by object succeeds exactly if the copy of what it shows does, is refused
for the same reason and logs the same.

Main result: `Cloning.model_run_of_copy`.
-/

namespace Folio

namespace Cloning

open Store

variable {α β γ δ ε : Type} {h : Store α}

/-! ## Two runs that agree -/

/-- What copying the value `v` comes to, and what making a clone comes to: both succeed, or both are
refused for the same reason, and they log the same. -/
inductive Agree (h : Store α) (v : β) :
    EStateM.Result BadCopy (List BadCopy) β → EStateM.Result CloneFailure (Desk α) γ → Prop
  | ok (x : γ) (d : Desk α) : h.Keeps d.store → Agree h v (.ok v d.log) (.ok x d)
  | refused (b : BadCopy) (d : Desk α) : Agree h v (.error b d.log) (.error (.refused b) d)

/-- `Mirrors h v copy clone`: the two agree wherever the objects of `h` are kept. -/
def Mirrors (h : Store α) (v : β) (copy : Copying β) (clone : Cloning α γ) : Prop :=
  ∀ d : Desk α, h.Keeps d.store → Agree h v (copy.run d.log) (clone.run d)

theorem Mirrors.bind {v : β} {w : δ} {copy : Copying β} {clone : Cloning α γ} {f : β → Copying δ}
    {g : γ → Cloning α ε} (first : Mirrors h v copy clone) (second : ∀ x, Mirrors h w (f v) (g x)) :
    Mirrors h w (copy >>= f) (clone >>= g) := by
  intro d kept
  have agree := first d kept
  rw [EStateM.run_bind, EStateM.run_bind]
  generalize copy.run d.log = copied at agree ⊢
  generalize clone.run d = cloned at agree ⊢
  cases agree with
  | ok x d' later => exact second x d' later
  | refused b d' => exact .refused b d'

theorem Agree.of_ok {v w : β} {log : List BadCopy} {cloned : EStateM.Result CloneFailure (Desk α) γ}
    (agree : Agree h v (.ok w log) cloned) :
    w = v ∧ ∃ x d, cloned = .ok x d ∧ d.log = log ∧ h.Keeps d.store := by
  cases agree with
  | ok x d kept => exact ⟨rfl, x, d, rfl, rfl, kept⟩

theorem Agree.of_error {v : β} {b : BadCopy} {log : List BadCopy}
    {cloned : EStateM.Result CloneFailure (Desk α) γ} (agree : Agree h v (.error b log) cloned) :
    ∃ d, cloned = .error (.refused b) d ∧ d.log = log := by
  cases agree with
  | refused b d => exact ⟨d, rfl, rfl⟩

/-- What is made of a copy tells the copy. -/
theorem Mirrors.of_map {v : β} {c : β → δ} {copy : Copying β} {clone : Cloning α γ}
    (injective : Function.Injective c) (mirrors : Mirrors h (c v) (do return c (← copy)) clone) :
    Mirrors h v copy clone := by
  intro d kept
  have agree := mirrors d kept
  rw [EStateM.run_bind] at agree
  generalize copy.run d.log = copied at agree ⊢
  generalize clone.run d = cloned at agree ⊢
  cases copied with
  | ok w log =>
    obtain ⟨same, x, d', rfl, rfl, later⟩ := Agree.of_ok agree
    rw [injective same]
    exact .ok x d' later
  | error b log =>
    obtain ⟨d', rfl, rfl⟩ := Agree.of_error agree
    exact .refused b d'

/-! ## Steps without a counterpart -/

/-- `Quiet h clone`: the step succeeds and logs nothing. -/
def Quiet (h : Store α) (clone : Cloning α γ) : Prop :=
  ∀ d : Desk α, h.Keeps d.store → ∃ x d', clone.run d = .ok x d' ∧ h.Keeps d'.store ∧ d'.log = d.log

theorem Quiet.mirrors {v : β} {copy : Copying β} {clone : Cloning α γ} {g : γ → Cloning α ε}
    (quiet : Quiet h clone) (rest : ∀ x, Mirrors h v copy (g x)) : Mirrors h v copy (clone >>= g) := by
  intro d kept
  obtain ⟨x, d', ok, later, same⟩ := quiet d kept
  rw [EStateM.run_bind, ok, ← same]
  exact rest x d' later

theorem Quiet.bind {clone : Cloning α γ} {g : γ → Cloning α ε} (quiet : Quiet h clone)
    (rest : ∀ x, Quiet h (g x)) : Quiet h (clone >>= g) := by
  intro d kept
  obtain ⟨x, d', ok, later, same⟩ := quiet d kept
  obtain ⟨y, d'', okRest, last, sameRest⟩ := rest x d' later
  refine ⟨y, d'', ?_, last, sameRest.trans same⟩
  rw [EStateM.run_bind, ok]
  exact okRest

theorem quiet_allot (o : Object α) : Quiet h (allot o) :=
  fun _ kept => ⟨_, _, rfl, fun _ _ found => keeps_push _ _ (kept found), rfl⟩

theorem run_load {a : Address} {o : Object α} {d : Desk α} (found : d.store[a]? = some o) :
    (load a).run d = .ok o d := by
  simp [load, EStateM.run_bind, EStateM.run_get, found]

theorem mirrors_load {a : Address} {o : Object α} {v : β} {copy : Copying β} {g : Object α → Cloning α γ}
    (found : h[a]? = some o) (rest : Mirrors h v copy (g o)) : Mirrors h v copy (load a >>= g) := by
  intro d kept
  rw [EStateM.run_bind, run_load (kept found)]
  exact rest d kept

theorem quiet_load {a : Address} {o : Object α} {g : Object α → Cloning α γ} (found : h[a]? = some o)
    (rest : Quiet h (g o)) : Quiet h (load a >>= g) := by
  intro d kept
  rw [EStateM.run_bind, run_load (kept found)]
  exact rest d kept

theorem quiet_texts {a : Address} {content : List String} (found : h[a]? = some (.texts content)) :
    Quiet h (texts a) :=
  quiet_load found (quiet_allot _)

theorem quiet_position {a : Address} {p : Position α} (found : h[a]? = some (.position p)) :
    Quiet h (position a) :=
  quiet_load found (quiet_allot _)

theorem quiet_span {a : Address} {s : Span α} (shown : SpanAt h a s) : Quiet h (span a) := by
  obtain ⟨found, atStart, atStop⟩ := shown
  refine quiet_load found ((quiet_position atStart).bind fun start => ?_)
  exact (quiet_position atStop).bind fun stop => quiet_allot _

/-! ## Class by class -/

theorem mirrors_pure (v : β) {clone : Cloning α γ} (quiet : Quiet h clone) :
    Mirrors h v (pure v) clone := by
  intro d kept
  obtain ⟨x, d', ok, later, same⟩ := quiet d kept
  rw [ok, ← same]
  exact .ok x d' later

section

variable {R : Address → Model α → Prop} {model : Address → Cloning α Address}

theorem mirrors_node (inner : ∀ b m, R b m → Mirrors h m m.copy (model b)) {a : Address} {n : Node α}
    (shown : NodeAt h R a n) : Mirrors h n n.copy (node model a) := by
  cases shown with
  | mark found =>
    rw [Node.copy]
    exact mirrors_load found (mirrors_pure _ (quiet_allot _))
  | text found =>
    rw [Node.copy]
    exact mirrors_load found (mirrors_pure _ (quiet_allot _))
  | raw found atLines =>
    rw [Node.copy]
    exact mirrors_load found (mirrors_pure _ ((quiet_texts atLines).bind fun _ => quiet_allot _))
  | holder found atModel =>
    rw [Node.copy, ← bind_assoc]
    exact mirrors_load found ((inner _ _ atModel).bind fun _ => mirrors_pure _ (quiet_allot _))

theorem mirrors_item (inner : ∀ b m, R b m → Mirrors h m m.copy (model b)) {a : Address} {s : Span α}
    {n : Node α} (shown : ItemAt h R a ⟨s, n⟩) :
    Mirrors h (⟨s, n⟩ : Item α) (do return ⟨s, ← n.copy⟩) (item model a) := by
  cases shown with
  | mk found atSpan atNode =>
    refine mirrors_load found ((quiet_span atSpan).mirrors fun _ => ?_)
    exact (mirrors_node inner atNode).bind fun _ => mirrors_pure _ (quiet_allot _)

theorem mirrors_items (inner : ∀ b m, R b m → Mirrors h m m.copy (model b)) {addresses : List Address}
    {items : List (Item α)} (shown : List.Forall₂ (ItemAt h R) addresses items) :
    Mirrors h items (Model.copyItems items) (addresses.mapM (item model)) := by
  induction shown with
  | nil => exact fun d kept => .ok [] d kept
  | @cons a i rest items first later ih =>
    obtain ⟨s, n⟩ := i
    have grouped : Model.copyItems (⟨s, n⟩ :: items) = (do
        let copied ← (do return (⟨s, ← n.copy⟩ : Item α))
        let others ← Model.copyItems items
        return copied :: others) := by
      simp only [Model.copyItems, bind_assoc, pure_bind]
    rw [grouped, List.mapM_cons]
    exact (mirrors_item inner first).bind fun _ => ih.bind fun _ d kept => .ok _ d kept

end

theorem run_modelClass {a : Address} {o : Object α} {k : ModelClass} {d : Desk α}
    (found : d.store[a]? = some o) (known : o.modelClass? = some k) :
    (modelClass a).run d = .ok k d := by
  simp [modelClass, EStateM.run_bind, run_load found, known]

/-- A model that hands over itself is refused. -/
theorem run_verify_itself {a : Address} {o : Object α} {k : ModelClass} {d : Desk α}
    (found : d.store[a]? = some o) (known : o.modelClass? = some k) :
    (verify a a).run d = (refuse ⟨k, .sameInstance, k⟩ : Cloning α Address).run d := by
  simp [verify, EStateM.run_bind, run_modelClass found known]

/-- A new object passes if it is of the same class. -/
theorem run_verify_allot {a : Address} {o p : Object α} {k l : ModelClass} {d : Desk α}
    (found : d.store[a]? = some o) (known : o.modelClass? = some k) (copied : p.modelClass? = some l) :
    (allot p >>= verify a).run d =
      (if l = k then pure d.store.size else refuse ⟨k, .otherClass, l⟩ : Cloning α Address).run
        { d with store := d.store.push p } := by
  have there := keeps_push d.store p found
  have other : d.store.size ≠ a := (Nat.ne_of_lt (lt_size_of_getElem? found)).symm
  show (verify a d.store.size).run { d with store := d.store.push p } = _
  rw [verify, EStateM.run_bind, run_modelClass there known]
  dsimp only
  rw [if_neg other, EStateM.run_bind, run_modelClass Array.getElem?_push_size copied]

theorem quiet_allot_verify {a : Address} {o p : Object α} {k : ModelClass} (found : h[a]? = some o)
    (known : o.modelClass? = some k) (copied : p.modelClass? = some k) :
    Quiet h (allot p >>= verify a) := by
  intro d kept
  rw [run_verify_allot (kept found) known copied, if_pos rfl]
  exact ⟨_, _, rfl, fun _ _ earlier => keeps_push _ _ (kept earlier), rfl⟩

theorem mirrors_refuse (v : β) (b : BadCopy) :
    Mirrors h v (Copying.refuse b) (refuse b : Cloning α γ) :=
  fun d _ => .refused b { d with log := d.log ++ [b] }

theorem copy_tree (items : List (Item α)) :
    (Model.tree items).copy = do return .tree (← Model.copyItems items) := by
  rw [Model.copy, Model.duplicate, bind_assoc]
  simp [Model.verify, Model.modelClass]

theorem copy_body (name : String) (items : List (Item α)) :
    (Model.body name items).copy = do return .body name (← Model.copyItems items) := by
  rw [Model.copy, Model.duplicate, bind_assoc]
  simp [Model.verify, Model.modelClass]

/-- The check is made of a copy as it is of a clone, class by class. -/
theorem mirrors_model {R : Address → Model α → Prop} {model : Address → Cloning α Address}
    (inner : ∀ b m, R b m → Mirrors h m m.copy (model b))
    (trees : ∀ b items, R b (.tree items) → ∃ addresses, h[b]? = some (.tree addresses))
    {a : Address} {m : Model α} (shown : ModelAt h R a m) :
    Mirrors h m m.copy (do verify a (← duplicate model a (← load a))) := by
  cases shown with
  | @call b kind name args found atArgs =>
    have copied : (Model.call kind name args : Model α).copy = pure (.call kind name args) := by
      simp [Model.copy, Model.duplicate, Model.verify]
    rw [copied]
    refine mirrors_load found (mirrors_pure _ ?_)
    rw [duplicate, bind_assoc]
    refine (quiet_texts atArgs).bind fun _ => ?_
    cases kind <;> exact quiet_allot_verify found rfl rfl
  | @body b name items found atTree =>
    obtain ⟨addresses, there⟩ := trees b items atTree
    -- The tree is cloned as a model, and copied as a list of nodes.
    have copied : Mirrors h items (Model.copyItems items) (model b) :=
      .of_map (fun _ _ same => Model.tree.inj same) (copy_tree items ▸ inner b _ atTree)
    rw [copy_body]
    refine mirrors_load found ?_
    rw [duplicate, bind_assoc]
    refine mirrors_load there ?_
    dsimp only
    rw [bind_assoc]
    exact copied.bind fun _ => mirrors_pure _ (quiet_allot_verify found rfl rfl)
  | tree found atItems =>
    rw [copy_tree]
    refine mirrors_load found ?_
    rw [duplicate, bind_assoc]
    exact (mirrors_items inner atItems).bind fun _ => mirrors_pure _ (quiet_allot_verify found rfl rfl)
  | aliasing found =>
    refine mirrors_load found fun d kept => ?_
    show Agree h _ (Model.aliasing.copy.run d.log) ((verify a a).run d)
    rw [run_verify_itself (kept found) rfl]
    exact mirrors_refuse _ _ d kept
  | shapeShifting found =>
    refine mirrors_load found ?_
    rw [duplicate, bind_assoc]
    refine (quiet_allot _).mirrors fun args d kept => ?_
    rw [run_verify_allot (kept found) rfl rfl, if_neg (by decide)]
    exact mirrors_refuse _ _ { d with store := _ } fun _ _ earlier => keeps_push _ _ (kept earlier)
  | @script head commands found =>
    have copied : (Model.script head commands).copy = pure (.script head commands) := by
      simp [Model.copy, Model.duplicate, Model.verify]
    rw [copied]
    exact mirrors_load found (mirrors_pure _ (quiet_allot_verify found rfl rfl))

theorem mirrors_modelWithin {n : Nat} {a : Address} {m : Model α} (shown : h.Within n a m) :
    Mirrors h m m.copy (modelWithin n a) := by
  induction n generalizing a m with
  | zero => cases shown
  | succ n ih =>
    refine mirrors_model (fun b w inside => ih inside) (fun b items inside => ?_)
      (modelBy_eq_some_iff.mp shown)
    cases n with
    | zero => cases inside
    | succ n =>
      cases modelBy_eq_some_iff.mp inside with
      | tree there _ => exact ⟨_, there⟩

theorem mirrors_stored {a : Address} {m : Model α} (shown : h.model? a = some m) :
    Mirrors h m m.copy (model a) := by
  intro d kept
  show Agree h m (m.copy.run d.log) ((modelWithin d.store.size a).run d)
  have enough : h.Within d.store.size a m := modelWithin_mono (h.keptFrom_self a) kept.size_le shown
  exact mirrors_modelWithin enough d kept

/-- A clone comes to what a copy of the model that the store shows comes to. -/
theorem model_run_of_copy {a : Address} {m : Model α} (shown : h.model? a = some m) (log : List BadCopy) :
    (∀ v after, m.copy.run log = .ok v after → ∃ x d, (model a).run ⟨h, log⟩ = .ok x d ∧
      d.log = after ∧ d.store.model? x = some v) ∧
    ∀ b after, m.copy.run log = .error b after →
      ∃ d, (model a).run ⟨h, log⟩ = .error (.refused b) d ∧ d.log = after := by
  have agree := mirrors_stored shown ⟨h, log⟩ fun _ _ found => found
  refine ⟨fun v after copied => ?_, fun b after failed => ?_⟩
  · rw [copied] at agree
    obtain ⟨rfl, x, d, cloned, logged, kept⟩ := agree.of_ok
    obtain ⟨_, w, original, copy⟩ := model_eq_ok cloned
    have still : d.store.model? a = some v :=
      model?_eq_some_iff.mpr ((model?_eq_some_iff.mp shown).mono (kept.keptFrom a))
    rw [still] at original
    cases original
    exact ⟨x, d, cloned, logged, copy⟩
  · rw [failed] at agree
    exact agree.of_error

end Cloning

end Folio
