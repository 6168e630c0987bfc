/-!
What sessions have in common: named places that their steps read and change, and the states that
steps lead to.
-/

namespace Folio

/-- Values by name. -/
abbrev Registers (β : Type) := List (String × β)

namespace Registers

variable {β : Type}

def get? (name : String) : Registers β → Option β
  | [] => none
  | (n, v) :: rest => if n == name then some v else get? name rest

def set (name : String) (v : β) : Registers β → Registers β
  | [] => [(name, v)]
  | (n, old) :: rest => if n == name then (n, v) :: rest else (n, old) :: set name v rest

theorem get?_set_self (name : String) (v : β) (r : Registers β) : (r.set name v).get? name = some v := by
  induction r with
  | nil => simp [set, get?]
  | cons entry rest ih => by_cases same : entry.1 == name <;> simp_all [set, get?]

theorem get?_set_other {name other : String} (distinct : (name == other) = false) (v : β) (r : Registers β) :
    (r.set name v).get? other = r.get? other := by
  induction r with
  | nil => simp [set, get?, distinct]
  | cons entry rest ih => by_cases same : entry.1 == name <;> simp_all [set, get?]

end Registers

section

variable {σ ι ρ : Type} (perform : σ → ι → σ × ρ)

/-- The state that steps lead to one after another, when each of them also gives an answer. -/
def stateAfter (s : σ) (steps : List ι) : σ := steps.foldl (fun s step => (perform s step).1) s

@[simp] theorem stateAfter_nil (s : σ) : stateAfter perform s [] = s := rfl

@[simp] theorem stateAfter_cons (s : σ) (step : ι) (steps : List ι) :
    stateAfter perform s (step :: steps) = stateAfter perform (perform s step).1 steps := rfl

@[simp] theorem stateAfter_append (s : σ) (steps more : List ι) :
    stateAfter perform s (steps ++ more) = stateAfter perform (stateAfter perform s steps) more :=
  List.foldl_append

end

end Folio
