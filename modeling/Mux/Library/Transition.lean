import Mathlib.Logic.Basic

/-!
# Runs of a deterministic step function

A run takes the inputs of a list one after the other. What an environment
promises about an input may depend on the state in which it is taken, so such
a promise is a predicate along the run and not on the list alone. A safety
property is one that holds throughout a run: at the first state, at the last
one and between any two inputs. What has happened since an event is a property
of the history, the list of the past events.
-/

namespace Transition

universe u v w

variable {σ : Type u} {ι : Type v} {τ : Type w}
variable {step : σ → ι → σ} {P P' : σ → ι → Prop} {Q I : σ → Prop}

/-- The state after all inputs, taken in order. -/
def run (step : σ → ι → σ) (s : σ) (inputs : List ι) : σ := inputs.foldl step s

@[simp] theorem run_nil (step : σ → ι → σ) (s : σ) : run step s [] = s := rfl

@[simp] theorem run_cons (step : σ → ι → σ) (s : σ) (i : ι) (inputs : List ι) :
    run step s (i :: inputs) = run step (step s i) inputs := rfl

/-- Every input meets `P` at the state in which it is taken. -/
def Along (step : σ → ι → σ) (P : σ → ι → Prop) : σ → List ι → Prop
  | _, [] => True
  | s, i :: inputs => P s i ∧ Along step P (step s i) inputs

@[simp] theorem along_nil (s : σ) : Along step P s [] := trivial

@[simp] theorem along_cons (s : σ) (i : ι) (inputs : List ι) :
    Along step P s (i :: inputs) ↔ P s i ∧ Along step P (step s i) inputs := Iff.rfl

theorem run_append (s : σ) (first later : List ι) :
    run step s (first ++ later) = run step (run step s first) later := List.foldl_append

theorem along_append {s : σ} {first later : List ι} :
    Along step P s (first ++ later) ↔
      Along step P s first ∧ Along step P (run step s first) later := by
  induction first generalizing s with
  | nil => simp
  | cons i first ih => rw [List.cons_append, along_cons, along_cons, ih, and_assoc, run_cons]

/-- A predicate that holds in every state of an invariant holds along every run that
keeps its promises. -/
theorem Along.of_invariant (preserved : ∀ s i, I s → P s i → I (step s i))
    (holds : ∀ s i, I s → P s i → P' s i) {s : σ} {inputs : List ι} (start : I s)
    (along : Along step P s inputs) : Along step P' s inputs := by
  induction inputs generalizing s with
  | nil => trivial
  | cons i inputs ih =>
      exact ⟨holds s i start along.1, ih (preserved s i start along.1) along.2⟩

/-- A promise that does not depend on the states. -/
theorem along_mem_iff {E : ι → Prop} {s : σ} {inputs : List ι} :
    Along step (fun _ i => E i) s inputs ↔ ∀ i ∈ inputs, E i := by
  induction inputs generalizing s with
  | nil => simp
  | cons i inputs ih => rw [along_cons, ih, List.forall_mem_cons]

theorem Along.of_mem {E : ι → Prop} {s : σ} {inputs : List ι} (member : ∀ i ∈ inputs, E i) :
    Along step (fun _ i => E i) s inputs := along_mem_iff.mpr member

/-- A fact about every input, and one that depends on the states. -/
theorem Along.and_mem {E : ι → Prop} {s : σ} {inputs : List ι} (member : ∀ i ∈ inputs, E i)
    (along : Along step P s inputs) : Along step (fun s i => E i ∧ P s i) s inputs := by
  induction inputs generalizing s with
  | nil => trivial
  | cons i inputs ih =>
      exact ⟨⟨member i List.mem_cons_self, along.1⟩,
        ih (fun j later => member j (List.mem_cons_of_mem _ later)) along.2⟩

/-- `Q` holds at the first state, at the last one and between any two inputs. -/
def Throughout (step : σ → ι → σ) (Q : σ → Prop) : σ → List ι → Prop
  | s, [] => Q s
  | s, i :: inputs => Q s ∧ Throughout step Q (step s i) inputs

@[simp] theorem throughout_nil (s : σ) : Throughout step Q s [] ↔ Q s := Iff.rfl

@[simp] theorem throughout_cons (s : σ) (i : ι) (inputs : List ι) :
    Throughout step Q s (i :: inputs) ↔ Q s ∧ Throughout step Q (step s i) inputs := Iff.rfl

theorem Throughout.initial {s : σ} {inputs : List ι} (h : Throughout step Q s inputs) : Q s := by
  cases inputs with
  | nil => exact h
  | cons => exact h.1

/-- The induction behind every invariant of a run: the first state satisfies
it, and each input that keeps the environment's promise preserves it. -/
theorem run_invariant (preserved : ∀ s i, I s → P s i → I (step s i))
    {s : σ} {inputs : List ι} (start : I s) (along : Along step P s inputs) :
    I (run step s inputs) := by
  induction inputs generalizing s with
  | nil => exact start
  | cons i inputs ih => exact ih (preserved s i start along.1) along.2

/-- The unconditional rule, for inputs of which nothing is promised but
membership in the list. -/
theorem run_preserves {inputs : List ι} (preserved : ∀ s, ∀ i ∈ inputs, I s → I (step s i))
    {s : σ} (start : I s) : I (run step s inputs) := by
  induction inputs generalizing s with
  | nil => exact start
  | cons i inputs ih =>
      exact ih (fun s j member => preserved s j (List.mem_cons_of_mem _ member))
        (preserved s i List.mem_cons_self start)

/-- An input that is not taken any more. -/
theorem run_fixed {s : σ} (fixed : ∀ i, step s i = s) (inputs : List ι) :
    run step s inputs = s := by
  induction inputs with
  | nil => rfl
  | cons i inputs ih => rw [run_cons, fixed, ih]

theorem Throughout.fixed {s : σ} (fixed : ∀ i, step s i = s) (h : Q s) (inputs : List ι) :
    Throughout step Q s inputs := by
  induction inputs with
  | nil => exact h
  | cons i inputs ih => exact ⟨h, by rw [fixed]; exact ih⟩

theorem Throughout.of_invariant (preserved : ∀ s i, I s → P s i → I (step s i))
    (safe : ∀ s, I s → Q s) {s : σ} {inputs : List ι} (start : I s)
    (along : Along step P s inputs) : Throughout step Q s inputs := by
  induction inputs generalizing s with
  | nil => exact safe s start
  | cons i inputs ih => exact ⟨safe s start, ih (preserved s i start along.1) along.2⟩

/-- Two predicates that agree in every state of an invariant hold along the same
runs, when the second one keeps the invariant. -/
theorem along_iff_along {A : σ → ι → Prop} (agree : ∀ s i, I s → A s i → (P s i ↔ P' s i))
    (preserved : ∀ s i, I s → A s i → P' s i → I (step s i)) {s : σ} {inputs : List ι}
    (start : I s) (promised : Along step A s inputs) :
    Along step P s inputs ↔ Along step P' s inputs := by
  induction inputs generalizing s with
  | nil => exact Iff.rfl
  | cons i inputs ih =>
      rw [along_cons, along_cons, agree s i start promised.1]
      refine and_congr_right fun kept => ?_
      exact ih (preserved s i start promised.1 kept) promised.2

/-- An abstract machine that follows the concrete one input by input is in a
related state at the end of every run. -/
theorem run_simulation {absStep : τ → ι → τ} {R : σ → τ → Prop} {A : σ → ι → Prop}
    {C : τ → ι → Prop}
    (simulates : ∀ s t i, R s t → A s i → C t i → R (step s i) (absStep t i))
    {s : σ} {t : τ} {inputs : List ι} (related : R s t) (promised : Along step A s inputs)
    (condition : Along absStep C t inputs) : R (run step s inputs) (run absStep t inputs) := by
  induction inputs generalizing s t with
  | nil => exact related
  | cons i inputs ih =>
      exact ih (simulates s t i related promised.1 condition.1) promised.2 condition.2

/-- A safety property of the concrete machine, decided on the abstract one: an input
that meets the condition `C` keeps the two related, and any other input breaks the
property at once. -/
theorem throughout_iff_along {absStep : τ → ι → τ} {R : σ → τ → Prop} {A : σ → ι → Prop}
    {C : τ → ι → Prop} (related : ∀ s t, R s t → Q s)
    (kept : ∀ s t i, R s t → A s i → C t i → R (step s i) (absStep t i))
    (broken : ∀ s t i, R s t → A s i → ¬ C t i → ¬ Q (step s i)) {s : σ} {t : τ}
    {inputs : List ι} (start : R s t) (promised : Along step A s inputs) :
    Throughout step Q s inputs ↔ Along absStep C t inputs := by
  induction inputs generalizing s t with
  | nil => exact iff_of_true (related s t start) trivial
  | cons i inputs ih =>
      rw [throughout_cons, along_cons]
      by_cases condition : C t i
      · rw [ih (kept s t i start promised.1 condition) promised.2]
        exact and_congr_left fun _ => iff_of_true (related s t start) condition
      · refine iff_of_false ?_ fun h => condition h.1
        rintro ⟨-, rest⟩
        exact broken s t i start promised.1 condition rest.initial

/-- `Q` holds in every state of a run, of the state and of the inputs still to be
taken. -/
def Remaining (step : σ → ι → σ) (Q : σ → List ι → Prop) : σ → List ι → Prop
  | s, [] => Q s []
  | s, i :: inputs => Q s (i :: inputs) ∧ Remaining step Q (step s i) inputs

/-- An invariant may speak about the inputs that are left. -/
theorem Remaining.of_invariant {J Q : σ → List ι → Prop}
    (preserved : ∀ s i inputs, J s (i :: inputs) → P s i → J (step s i) inputs)
    (safe : ∀ s inputs, J s inputs → Q s inputs) {s : σ} {inputs : List ι} (start : J s inputs)
    (along : Along step P s inputs) : Remaining step Q s inputs := by
  induction inputs generalizing s with
  | nil => exact safe s [] start
  | cons i inputs ih =>
      exact ⟨safe s _ start, ih (preserved s i inputs start along.1) along.2⟩

theorem Remaining.along {Q : σ → List ι → Prop}
    (holds : ∀ s i inputs, Q s (i :: inputs) → P s i → P' s i) {s : σ} {inputs : List ι}
    (remaining : Remaining step Q s inputs) (along : Along step P s inputs) :
    Along step P' s inputs := by
  induction inputs generalizing s with
  | nil => trivial
  | cons i inputs ih => exact ⟨holds s i inputs remaining.1 along.1, ih remaining.2 along.2⟩

theorem Remaining.final {Q : σ → List ι → Prop} {s : σ} {inputs : List ι}
    (remaining : Remaining step Q s inputs) : Q (run step s inputs) [] := by
  induction inputs generalizing s with
  | nil => exact remaining
  | cons i inputs ih => exact ih remaining.2

/-! ## Histories -/

section History

variable {mark : List ι → ι → Prop} {quiet : ι → Prop} {history : List ι} {last : ι}

/-- An event of the history is marked, and all later ones are quiet. -/
def Since (mark : List ι → ι → Prop) (quiet : ι → Prop) (history : List ι) : Prop :=
  ∃ before event behind, history = before ++ event :: behind ∧ mark before event ∧
    ∀ later ∈ behind, quiet later

@[simp] theorem not_since_nil : ¬ Since mark quiet [] := by
  rintro ⟨before, event, behind, split, -⟩
  simp at split

/-- A history that goes on by one event. -/
theorem since_concat :
    Since mark quiet (history ++ [last]) ↔
      mark history last ∨ Since mark quiet history ∧ quiet last := by
  constructor
  · rintro ⟨before, event, behind, split, marked, unbroken⟩
    obtain rfl | ⟨behind, end_, rfl⟩ := behind.eq_nil_or_concat
    · obtain ⟨rfl, same⟩ := List.append_inj' split rfl
      obtain rfl := List.singleton_inj.mp same
      exact .inl marked
    · rw [List.concat_eq_append, ← List.cons_append, ← List.append_assoc] at split
      obtain ⟨rfl, same⟩ := List.append_inj' split rfl
      obtain rfl := List.singleton_inj.mp same
      refine .inr ⟨⟨before, event, behind, rfl, marked, fun later member => ?_⟩, ?_⟩
      · exact unbroken later (by simp [member])
      · exact unbroken _ (by simp)
  · rintro (marked | ⟨⟨before, event, behind, rfl, marked, unbroken⟩, still⟩)
    · exact ⟨history, last, [], rfl, marked, List.forall_mem_nil _⟩
    · refine ⟨before, event, behind ++ [last], by simp, marked, fun later member => ?_⟩
      obtain member | member := List.mem_append.mp member
      · exact unbroken later member
      · obtain rfl := List.mem_singleton.mp member
        exact still

/-- An invariant may speak about the inputs that were taken. -/
theorem run_history {J : List ι → σ → Prop}
    (preserved : ∀ history s i, J history s → P s i → J (history ++ [i]) (step s i)) {s : σ}
    {history inputs taken : List ι} (start : J history s) (along : Along step P s inputs)
    (first : taken <+: inputs) : J (history ++ taken) (run step s taken) := by
  induction taken generalizing s history inputs with
  | nil => rwa [List.append_nil]
  | cons i taken ih =>
      obtain ⟨rest, rfl⟩ := first
      have onward := ih (preserved history s i start along.1) along.2 ⟨rest, rfl⟩
      rwa [List.append_assoc] at onward

end History

end Transition
