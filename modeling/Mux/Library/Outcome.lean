import Mathlib.Logic.Basic

/-!
# Outcomes of imperative calls

A call on an object returns normally, throws an exception and leaves the
object as it was at that point, or has no defined behaviour. Statements in
sequence are composed by `Outcome.bind`: nothing after a throw is executed. A loop over
a list of items is `Outcome.forEach`, with the rule of its invariant.
-/

universe u v w

/-- How a call ended, with the state it left behind. -/
inductive Outcome (ε : Type u) (σ : Type v) where
  | ok (state : σ)
  | throws (exception : ε) (state : σ)
  | undefined

namespace Outcome

variable {ε : Type u} {σ : Type v}

/-- The next statement runs only after a normal return. -/
def bind (outcome : Outcome ε σ) (next : σ → Outcome ε σ) : Outcome ε σ :=
  match outcome with
  | .ok state => next state
  | .throws exception state => .throws exception state
  | .undefined => .undefined

/-- The call returned normally. -/
def Returns (outcome : Outcome ε σ) : Prop := ∃ state, outcome = .ok state

@[simp] theorem bind_ok (state : σ) (next : σ → Outcome ε σ) :
    (ok state : Outcome ε σ).bind next = next state := rfl

@[simp] theorem bind_throws (exception : ε) (state : σ) (next : σ → Outcome ε σ) :
    (throws exception state).bind next = throws exception state := rfl

@[simp] theorem bind_undefined (next : σ → Outcome ε σ) :
    (undefined : Outcome ε σ).bind next = undefined := rfl

/-- A sequence returns normally exactly when each of its parts does. -/
theorem bind_eq_ok {outcome : Outcome ε σ} {next : σ → Outcome ε σ} {finish : σ} :
    outcome.bind next = .ok finish ↔ ∃ state, outcome = .ok state ∧ next state = .ok finish := by
  cases outcome with
  | ok state => simp
  | throws exception state => simp
  | undefined => simp

/-- Wherever the call returns normally, it leaves a state with the property. -/
def Ensures (outcome : Outcome ε σ) (P : σ → Prop) : Prop := ∀ state, outcome = .ok state → P state

variable {outcome : Outcome ε σ} {next : σ → Outcome ε σ} {P Q : σ → Prop}

@[simp] theorem ensures_ok {state : σ} : (ok state : Outcome ε σ).Ensures P ↔ P state := by
  simp [Ensures]

theorem Ensures.bind (first : outcome.Ensures P) (second : ∀ s, P s → (next s).Ensures Q) :
    (outcome.bind next).Ensures Q := by
  intro finish returned
  obtain ⟨state, before, after⟩ := bind_eq_ok.mp returned
  exact second state (first state before) finish after

/-- The body of a loop runs for one item after the other. -/
def forEach {ι : Type w} (body : ι → σ → Outcome ε σ) : List ι → σ → Outcome ε σ
  | [], state => .ok state
  | item :: items, state => (body item state).bind (forEach body items)

/-- An invariant of the items that are done holds of all of them when the loop returns. -/
theorem forEach_ensures {ι : Type w} {body : ι → σ → Outcome ε σ} {I : List ι → σ → Prop}
    (preserved : ∀ done item state, I done state → (body item state).Ensures (I (done ++ [item])))
    {state : σ} (start : I [] state) (items : List ι) :
    (forEach body items state).Ensures (I items) := by
  have onward (todo done : List ι) (state : σ) (here : I done state) :
      (forEach body todo state).Ensures (I (done ++ todo)) := by
    induction todo generalizing done state with
    | nil => rwa [forEach, ensures_ok, List.append_nil]
    | cons item todo ih =>
        refine (preserved done item state here).bind fun later reached => ?_
        have rest := ih (done ++ [item]) later reached
        rwa [List.append_assoc, List.singleton_append] at rest
  exact onward items [] state start

end Outcome
