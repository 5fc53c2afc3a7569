import Mathlib.Data.Seq.Defs

/-!
# Coroutines

A coroutine body is a function from its suspension points: resumed at one of them, it
yields a value and is suspended at the next, returns, or throws. The values that it
yields from a point on form a sequence, which need not end.
-/

universe u v w

/-- What a body does until it is suspended again or ends. -/
inductive Resumption (σ : Type u) (α : Type v) (ε : Type w) where
  | yields (value : α) (next : σ)
  | returns
  | throws (exception : ε)

/-- A handle of a coroutine, which is suspended at a point or at its end. -/
inductive CoroutineHandle (σ : Type u) where
  | suspended (point : σ)
  | finished

namespace CoroutineHandle

variable {σ : Type u}

def done : CoroutineHandle σ → Bool
  | .suspended _ => false
  | .finished => true

@[simp] theorem done_suspended (point : σ) : (suspended point).done = false := rfl

@[simp] theorem done_finished : (finished : CoroutineHandle σ).done = true := rfl

end CoroutineHandle

namespace Coroutine

open Stream'

variable {σ : Type u} {α : Type v} {ε : Type w}

/-- The values that a body yields from a point on. -/
def yielded (body : σ → Resumption σ α ε) : σ → Seq α :=
  Seq.corec fun point =>
    match body point with
    | .yields value next => some (value, next)
    | .returns => none
    | .throws _ => none

/-- The body throws after a number of values. -/
def ThrowsAfter (body : σ → Resumption σ α ε) : Nat → σ → Prop
  | 0, point => ∃ exception, body point = .throws exception
  | n + 1, point => ∃ value next, body point = .yields value next ∧ ThrowsAfter body n next

variable {body : σ → Resumption σ α ε} {point next : σ} {value : α}

theorem yielded_yields (h : body point = .yields value next) :
    yielded body point = Seq.cons value (yielded body next) :=
  Seq.corec_cons (by simp only [h])

theorem yielded_returns (h : body point = .returns) : yielded body point = Seq.nil :=
  Seq.corec_nil _ _ (by simp only [h])

theorem yielded_throws {exception : ε} (h : body point = .throws exception) :
    yielded body point = Seq.nil :=
  Seq.corec_nil _ _ (by simp only [h])

/-- The values depend only on what the body does next. -/
theorem yielded_congr {point' : σ} (h : body point = body point') :
    yielded body point = yielded body point' := by
  cases resumed : body point' with
  | yields value next =>
      rw [yielded_yields resumed, yielded_yields (h.trans resumed)]
  | returns => rw [yielded_returns resumed, yielded_returns (h.trans resumed)]
  | throws exception => rw [yielded_throws resumed, yielded_throws (h.trans resumed)]

theorem throwsAfter_succ (h : body point = .yields value next) {n : Nat} :
    ThrowsAfter body (n + 1) point ↔ ThrowsAfter body n next := by
  constructor
  · rintro ⟨value', next', same, later⟩
    obtain ⟨rfl, rfl⟩ := Resumption.yields.inj (h.symm.trans same)
    exact later
  · exact fun later => ⟨value, next, h, later⟩

theorem not_throwsAfter_zero (h : body point = .yields value next) :
    ¬ ThrowsAfter body 0 point := by
  rintro ⟨exception, same⟩
  rw [h] at same
  cases same

theorem not_throwsAfter_of_returns (h : body point = .returns) (n : Nat) :
    ¬ ThrowsAfter body n point := by
  intro throws
  cases n with
  | zero =>
      obtain ⟨exception, same⟩ := throws
      rw [h] at same
      cases same
  | succ n =>
      obtain ⟨value, next, same, -⟩ := throws
      rw [h] at same
      cases same

/-- A body without a point at which it throws. -/
theorem not_throwsAfter (silent : ∀ point exception, body point ≠ .throws exception) (n : Nat)
    (point : σ) : ¬ ThrowsAfter body n point := by
  induction n generalizing point with
  | zero =>
      rintro ⟨exception, throws⟩
      exact silent point exception throws
  | succ n ih =>
      rintro ⟨value, next, -, later⟩
      exact ih next later

end Coroutine
