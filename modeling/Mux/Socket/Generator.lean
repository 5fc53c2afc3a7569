import Mathlib.Tactic.NormNum.NatFib
import Mux.Library.Coroutine
import Mux.Library.Outcome
import Mux.Library.Transition

/-!
# Generators

A `Generator` is tested by `operator bool`, which runs the coroutine to its next value
and keeps it, and read by `operator()`, which hands the value out. `full_` says whether
a value, or the end, has been reached and not been handed out. An exception of the body
is thrown again before `full_` is set, at a moment when the coroutine has ended.
-/

namespace Mux.Socket

open Coroutine Transition
open Stream' (Seq)

structure Promise (α ε : Type) where
  value_ : α
  exception_ : Option ε

/-- `resumptions` counts how often the handle was resumed. -/
structure Generator (σ α ε : Type) where
  h_ : CoroutineHandle σ
  promise : Promise α ε
  full_ : Bool := false
  resumptions : Nat := 0

inductive GeneratorCall where
  | operatorBool
  | operatorCall
  deriving DecidableEq, Repr

/-- How a call of the generator ended. Behind an undefined one nothing is known any
more. -/
inductive Reply (α ε : Type) where
  | ready (more : Bool)
  | value (x : α)
  | rethrown (exception : ε)
  | undefined
  deriving DecidableEq, Repr

namespace Generator

variable {σ α ε : Type} (body : σ → Resumption σ α ε) (moved : α → α)

/-- `h_()`, with what the promise does at a `co_yield` and at an exception. A coroutine
that has ended must not be resumed. -/
def resume (g : Generator σ α ε) : Option (Generator σ α ε) :=
  match g.h_ with
  | .finished => none
  | .suspended point =>
      let g := { g with resumptions := g.resumptions + 1 }
      match body point with
      | .yields value next =>
          some { g with h_ := .suspended next, promise := { g.promise with value_ := value } }
      | .returns => some { g with h_ := .finished }
      | .throws exception =>
          some { g with
            h_ := .finished
            promise := { g.promise with exception_ := some exception } }

def fill (g : Generator σ α ε) : Outcome ε (Generator σ α ε) :=
  if g.full_ then .ok g
  else match g.resume body with
    | none => .undefined
    | some g =>
        match g.promise.exception_ with
        | some exception => .throws exception g
        | none => .ok { g with full_ := true }

/-- The two operators. The value is moved out of the promise, which keeps what the move
leaves. -/
def call (g : Generator σ α ε) (c : GeneratorCall) : Reply α ε × Generator σ α ε :=
  match g.fill body with
  | .undefined => (.undefined, g)
  | .throws exception g => (.rethrown exception, g)
  | .ok g =>
      match c with
      | .operatorBool => (.ready (!g.h_.done), g)
      | .operatorCall =>
          (.value g.promise.value_, { g with
            full_ := false
            promise := { g.promise with value_ := moved g.promise.value_ } })

end Generator

/-! ## A caller and what it was told -/

section Replies

variable {α ε : Type}

def Reply.isValue : Reply α ε → Bool
  | .value _ => true
  | _ => false

def Reply.isUndefined : Reply α ε → Bool
  | .undefined => true
  | _ => false

/-- Whether a value is known to be there, after one more reply. -/
def Reply.test (known : Bool) : Reply α ε → Bool
  | .ready true => true
  | .value _ => false
  | _ => known

/-- The number of values handed out. -/
def taken (replies : List (Reply α ε)) : Nat := replies.countP Reply.isValue

/-- `operator bool` has returned true since the last value was handed out. -/
def tested (replies : List (Reply α ε)) : Bool := replies.foldl Reply.test false

/-- The last call was an `operator bool` that returned. -/
def Asked (replies : List (Reply α ε)) : Prop := ∃ more, replies.getLast? = some (.ready more)

@[simp] theorem taken_concat (replies : List (Reply α ε)) (reply : Reply α ε) :
    taken (replies ++ [reply]) = taken replies + if reply.isValue then 1 else 0 := by
  simp [taken, List.countP_append, List.countP_singleton]

@[simp] theorem tested_concat (replies : List (Reply α ε)) (reply : Reply α ε) :
    tested (replies ++ [reply]) = reply.test (tested replies) := by
  simp [tested, List.foldl_append]

@[simp] theorem asked_concat (replies : List (Reply α ε)) (reply : Reply α ε) :
    Asked (replies ++ [reply]) ↔ ∃ more, reply = .ready more := by
  simp [Asked]

end Replies

structure Session (σ α ε : Type) where
  generator : Generator σ α ε
  replies : List (Reply α ε) := []

namespace Session

variable {σ α ε : Type} (body : σ → Resumption σ α ε) (moved : α → α)

/-- A generator that was not called yet; its coroutine is suspended at its beginning, and
the value of the promise is not initialised. -/
def start (beginning : σ) (value_ : α) : Session σ α ε :=
  { generator := { h_ := .suspended beginning, promise := { value_, exception_ := none } } }

def step (t : Session σ α ε) (c : GeneratorCall) : Session σ α ε :=
  if t.replies.any Reply.isUndefined then t
  else
    let (reply, generator) := t.generator.call body moved c
    { generator, replies := t.replies ++ [reply] }

/-- A value is only taken when there is known to be one. -/
def Follows (t : Session σ α ε) (c : GeneratorCall) : Prop :=
  c = .operatorCall → tested t.replies = true

theorem follows_operatorBool (t : Session σ α ε) : t.Follows .operatorBool := by
  intro impossible
  cases impossible

/-- The call is answered as the sequence of the values demands. A test that repeats the last
call, or that comes behind the end, does not resume the coroutine. -/
def Delivers (values : Seq α) (t : Session σ α ε) : GeneratorCall → Prop
  | .operatorBool =>
      (t.step body moved .operatorBool).replies =
        t.replies ++ [.ready (values.get? (taken t.replies)).isSome] ∧
      (Asked t.replies ∨ .ready false ∈ t.replies →
        (t.step body moved .operatorBool).generator.resumptions = t.generator.resumptions) ∧
      (.ready false ∈ t.replies →
        (t.step body moved .operatorBool).replies = t.replies ++ [.ready false])
  | .operatorCall => ∃ x, values.get? (taken t.replies) = some x ∧
      (t.step body moved .operatorCall).replies = t.replies ++ [.value x]

end Session

/-! ## The look-ahead -/

section Stage

variable {σ α ε : Type} {body : σ → Resumption σ α ε} (moved : α → α)

/-- Where a generator is, when the values up to `point` have been handed out. -/
inductive Stage (body : σ → Resumption σ α ε) (point : σ) : Generator σ α ε → Prop where
  | awaiting (v : α) (n : Nat) : Stage body point ⟨.suspended point, ⟨v, none⟩, false, n⟩
  | ahead {x : α} {next : σ} (yields : body point = .yields x next) (n : Nat) :
      Stage body point ⟨.suspended next, ⟨x, none⟩, true, n⟩
  | ended (returns : body point = .returns) (v : α) (n : Nat) :
      Stage body point ⟨.finished, ⟨v, none⟩, true, n⟩
  | failed {exception : ε} (throws : body point = .throws exception) (v : α) (n : Nat) :
      Stage body point ⟨.finished, ⟨v, some exception⟩, false, n⟩

variable {g : Generator σ α ε} {point next : σ} {x : α}

/-- A test in front of a value. -/
theorem Stage.test_yields (stage : Stage body point g) (yields : body point = .yields x next) :
    ∃ g', g.call body moved .operatorBool = (.ready true, g') ∧ Stage body point g' ∧
      g'.full_ = true ∧ (g.full_ = true → g' = g) := by
  cases stage with
  | awaiting v n =>
      refine ⟨_, ?_, .ahead yields (n + 1), rfl, fun full => by cases full⟩
      simp [Generator.call, Generator.fill, Generator.resume, yields]
  | ahead yields' n => exact ⟨_, rfl, .ahead yields' n, rfl, fun _ => rfl⟩
  | ended returns v n =>
      rw [yields] at returns
      cases returns
  | failed throws v n =>
      rw [yields] at throws
      cases throws

/-- A test behind the last value. -/
theorem Stage.test_returns (stage : Stage body point g) (returns : body point = .returns) :
    ∃ g', g.call body moved .operatorBool = (.ready false, g') ∧ Stage body point g' ∧
      g'.full_ = true ∧ (g.full_ = true → g' = g) := by
  cases stage with
  | awaiting v n =>
      refine ⟨_, ?_, .ended returns v (n + 1), rfl, fun full => by cases full⟩
      simp [Generator.call, Generator.fill, Generator.resume, returns]
  | ahead yields n =>
      rw [returns] at yields
      cases yields
  | ended _ v n => exact ⟨_, rfl, .ended returns v n, rfl, fun _ => rfl⟩
  | failed throws v n =>
      rw [returns] at throws
      cases throws

/-- A test where the body throws: the first one throws again, and the next one resumes a
coroutine that has ended. -/
theorem Stage.test_throws {exception : ε} (stage : Stage body point g)
    (throws : body point = .throws exception) : g.full_ = false ∧
      ((g.h_.done = false ∧ ∃ g', g.call body moved .operatorBool = (.rethrown exception, g') ∧
        Stage body point g' ∧ g'.h_.done = true) ∨
      g.h_.done = true ∧ (g.call body moved .operatorBool).1 = .undefined) := by
  cases stage with
  | awaiting v n =>
      refine ⟨rfl, .inl ⟨rfl, _, ?_, .failed throws v (n + 1), rfl⟩⟩
      simp [Generator.call, Generator.fill, Generator.resume, throws]
  | ahead yields n =>
      rw [throws] at yields
      cases yields
  | ended returns v n =>
      rw [throws] at returns
      cases returns
  | failed throws' v n => exact ⟨rfl, .inr ⟨rfl, rfl⟩⟩

/-- The value that was reached is handed out, and the next one is not looked for. -/
theorem Stage.take (stage : Stage body point g) (yields : body point = .yields x next)
    (full : g.full_ = true) :
    ∃ g', g.call body moved .operatorCall = (.value x, g') ∧ Stage body next g' ∧
      g'.h_.done = false := by
  cases stage with
  | awaiting v n => cases full
  | ahead yields' n =>
      obtain ⟨rfl, rfl⟩ := Resumption.yields.inj (yields.symm.trans yields')
      exact ⟨_, rfl, .awaiting _ n, rfl⟩
  | ended returns v n =>
      rw [yields] at returns
      cases returns
  | failed throws v n => cases full

end Stage

/-! ## The Fibonacci generator -/

section Fibonacci

/-- Where `fibonacci_sequence` is suspended: at its beginning, or behind one of its
`co_yield`s. -/
inductive FibonacciPoint where
  | beginning
  | zero
  | one
  | loop (i : Nat) (a b s : UInt64)
  deriving DecidableEq, Repr

/-- From the test of the loop to the next `co_yield`. -/
def fibonacciLoop (n i : Nat) (a b : UInt64) : Resumption FibonacciPoint UInt64 String :=
  if i < n then .yields (a + b) (.loop i a b (a + b)) else .returns

def fibonacci_sequence (n : Nat) : FibonacciPoint → Resumption FibonacciPoint UInt64 String
  | .beginning =>
      if n = 0 then .returns
      else if n > 94 then .throws "Too big Fibonacci sequence. Elements would overflow."
      else .yields 0 .zero
  | .zero => if n = 1 then .returns else .yields 1 .one
  | .one => if n = 2 then .returns else fibonacciLoop n 2 0 1
  | .loop i _ b s => fibonacciLoop n (i + 1) b s

theorem fibonacci_silent {n : Nat} (fits : n ≤ 94) (point : FibonacciPoint) (what : String) :
    fibonacci_sequence n point ≠ .throws what := by
  have loop (i : Nat) (a b : UInt64) : fibonacciLoop n i a b ≠ .throws what := by
    unfold fibonacciLoop
    split <;> simp
  fun_cases fibonacci_sequence n point with
  | case1 => simp
  | case2 zero big => omega
  | case3 => simp
  | case4 => simp
  | case5 => simp
  | case6 => simp
  | case7 => exact loop _ _ _
  | case8 => exact loop _ _ _

/-- The number with an index, in the type of the generator's values. -/
def fibonacci (k : Nat) : UInt64 := .ofNat (Nat.fib k)

theorem fibonacci_add_two (k : Nat) : fibonacci k + fibonacci (k + 1) = fibonacci (k + 2) := by
  rw [fibonacci, fibonacci, fibonacci, ← UInt64.ofNat_add, Nat.fib_add_two]

/-- The values of the loop, with the last two numbers in hand. -/
theorem yielded_fibonacciLoop (n k j : Nat) (a : UInt64) :
    (yielded (fibonacci_sequence n)
      (.loop (j + 1) a (fibonacci j) (fibonacci (j + 1)))).get? k =
        if j + 2 + k < n then some (fibonacci (j + 2 + k)) else none := by
  have resumed : fibonacci_sequence n (.loop (j + 1) a (fibonacci j) (fibonacci (j + 1))) =
      fibonacciLoop n (j + 2) (fibonacci j) (fibonacci (j + 1)) := rfl
  by_cases more : j + 2 < n
  · rw [fibonacciLoop, if_pos more, fibonacci_add_two] at resumed
    rw [yielded_yields resumed]
    cases k with
    | zero => rw [Seq.get?_cons_zero, Nat.add_zero, if_pos more]
    | succ k =>
        rw [Seq.get?_cons_succ, yielded_fibonacciLoop n k (j + 1),
          show j + 1 + 2 + k = j + 2 + (k + 1) by omega]
  · rw [fibonacciLoop, if_neg more] at resumed
    rw [yielded_returns resumed, Seq.get?_nil, if_neg (by omega)]

/-- Up to the bound that the generator checks, it yields the first `n` Fibonacci numbers. -/
theorem yielded_fibonacci {n : Nat} (fits : n ≤ 94) (k : Nat) :
    (yielded (fibonacci_sequence n) .beginning).get? k =
      if k < n then some (fibonacci k) else none := by
  have bound : ¬ n > 94 := by omega
  by_cases none : n = 0
  · have resumed : fibonacci_sequence n .beginning = .returns := if_pos none
    rw [yielded_returns resumed, Seq.get?_nil, if_neg (by omega)]
  · have resumed : fibonacci_sequence n .beginning = .yields 0 .zero := by
      rw [fibonacci_sequence, if_neg none, if_neg bound]
    rw [yielded_yields resumed]
    match k with
    | 0 => rw [Seq.get?_cons_zero, if_pos (by omega)]; rfl
    | k + 1 =>
        rw [Seq.get?_cons_succ]
        by_cases single : n = 1
        · have resumed : fibonacci_sequence n .zero = .returns := if_pos single
          rw [yielded_returns resumed, Seq.get?_nil, if_neg (by omega)]
        · have resumed : fibonacci_sequence n .zero = .yields 1 .one := if_neg single
          rw [yielded_yields resumed]
          match k with
          | 0 => rw [Seq.get?_cons_zero, if_pos (by omega)]; rfl
          | k + 1 =>
              -- Behind the first two numbers the body is where the loop would be.
              have loop : fibonacci_sequence n .one =
                  fibonacci_sequence n (.loop 1 0 (fibonacci 0) (fibonacci 1)) := by
                change (if n = 2 then .returns else fibonacciLoop n 2 0 1) = fibonacciLoop n 2 0 1
                by_cases two : n = 2
                · rw [if_pos two, fibonacciLoop, if_neg (by omega)]
                · rw [if_neg two]
              rw [Seq.get?_cons_succ, yielded_congr loop, yielded_fibonacciLoop n k 0,
                show 0 + 2 + k = k + 1 + 1 by omega]

theorem toNat_fibonacci {k : Nat} (fits : Nat.fib k < 2 ^ 64) :
    (fibonacci k).toNat = Nat.fib k := by
  rw [fibonacci, UInt64.toNat_ofNat']
  exact Nat.mod_eq_of_lt fits

/-- The check of the generator is exact: it yields the first `n` Fibonacci numbers as they are,
or one of them overflows and it throws before the first one. -/
theorem fibonacci_sequence_exact (n : Nat) :
    (∀ k < n, Nat.fib k < 2 ^ 64) ∧
        (∀ k, ((yielded (fibonacci_sequence n) .beginning).get? k).map UInt64.toNat =
          if k < n then some (Nat.fib k) else none) ∨
      (∃ k < n, 2 ^ 64 ≤ Nat.fib k) ∧
        ∃ what, fibonacci_sequence n .beginning = .throws what := by
  have largest : Nat.fib 93 < 2 ^ 64 := by norm_num
  have next : 2 ^ 64 ≤ Nat.fib 94 := by norm_num
  by_cases fits : n ≤ 94
  · have below (k : Nat) (early : k < n) : Nat.fib k < 2 ^ 64 := by
      have le : Nat.fib k ≤ Nat.fib 93 := Nat.fib_mono (by omega)
      exact le.trans_lt largest
    refine .inl ⟨below, fun k => ?_⟩
    rw [yielded_fibonacci fits]
    by_cases early : k < n
    · rw [if_pos early, if_pos early, Option.map_some, toNat_fibonacci (below k early)]
    · rw [if_neg early, if_neg early, Option.map_none]
  · have big : n > 94 := by omega
    have some_ : ¬ n = 0 := by omega
    exact .inr ⟨⟨94, big, next⟩, _, (if_neg some_).trans (if_pos big)⟩

end Fibonacci

/-! ## Runs of a caller -/

namespace Session

variable {σ α ε : Type} {body : σ → Resumption σ α ε} {moved : α → α}
  {t : Session σ α ε} {beginning point next : σ} {value_ x : α}

/-- What the replies say about the generator. `point` is where the values end that have been
handed out. -/
structure InStep (body : σ → Resumption σ α ε) (beginning point : σ) (t : Session σ α ε) :
    Prop where
  stage : Stage body point t.generator
  defined : .undefined ∉ t.replies
  position : ∀ k, (yielded body beginning).get? (taken t.replies + k) =
    (yielded body point).get? k
  known : tested t.replies = true →
    t.generator.full_ = true ∧ ∃ x next, body point = .yields x next
  asked : Asked t.replies → t.generator.full_ = true
  ended : .ready false ∈ t.replies → t.generator.full_ = true ∧ body point = .returns

theorem start_inStep (beginning : σ) (value_ : α) :
    InStep body beginning beginning (start beginning value_ : Session σ α ε) where
  stage := .awaiting value_ 0
  defined := List.not_mem_nil
  position k := by rw [start, taken, List.countP_nil, Nat.zero_add]
  known impossible := by cases impossible
  asked := by
    rintro ⟨more, last⟩
    cases last
  ended member := by cases member

theorem step_defined (defined : .undefined ∉ t.replies) {c : GeneratorCall} {reply : Reply α ε}
    {g : Generator σ α ε} (called : t.generator.call body moved c = (reply, g)) :
    t.step body moved c = { generator := g, replies := t.replies ++ [reply] } := by
  have known : ¬ t.replies.any Reply.isUndefined = true := by
    rw [List.any_eq_true]
    rintro ⟨reply, member, undefined⟩
    cases reply with
    | undefined => exact defined member
    | ready more => cases undefined
    | value x => cases undefined
    | rethrown exception => cases undefined
  rw [step, if_neg known, called]

/-- After an undefined reply there is nothing more to say. -/
theorem step_undefined (undefined : .undefined ∈ t.replies) (c : GeneratorCall) :
    t.step body moved c = t :=
  if_pos (List.any_eq_true.mpr ⟨_, undefined, rfl⟩)

namespace InStep

/-- A test in front of a value finds it, and resumes only when it is the first one. -/
theorem test_yields (moved : α → α) (h : InStep body beginning point t)
    (yields : body point = .yields x next) :
    InStep body beginning point (t.step body moved .operatorBool) ∧
      (t.step body moved .operatorBool).replies = t.replies ++ [.ready true] ∧
      (t.generator.full_ = true →
        (t.step body moved .operatorBool).generator = t.generator) ∧
      (t.step body moved .operatorBool).generator.full_ = true := by
  obtain ⟨g, called, stage, full, same⟩ := h.stage.test_yields moved yields
  rw [step_defined h.defined called]
  refine ⟨⟨stage, ?_, ?_, fun _ => ⟨full, x, next, yields⟩, fun _ => full, ?_⟩, rfl, same, full⟩
  · simp [h.defined]
  · simpa [Reply.isValue] using h.position
  · intro member
    have returns := (h.ended (by simpa using member)).2
    rw [yields] at returns
    cases returns

/-- A test behind the last value finds the end, and resumes only when it is the first one. -/
theorem test_returns (moved : α → α) (h : InStep body beginning point t)
    (returns : body point = .returns) :
    InStep body beginning point (t.step body moved .operatorBool) ∧
      (t.step body moved .operatorBool).replies = t.replies ++ [.ready false] ∧
      (t.generator.full_ = true →
        (t.step body moved .operatorBool).generator = t.generator) ∧
      (t.step body moved .operatorBool).generator.full_ = true := by
  obtain ⟨g, called, stage, full, same⟩ := h.stage.test_returns moved returns
  rw [step_defined h.defined called]
  refine ⟨⟨stage, ?_, ?_, ?_, fun _ => full, fun _ => ⟨full, returns⟩⟩, rfl, same, full⟩
  · simp [h.defined]
  · simpa [Reply.isValue] using h.position
  · intro known
    obtain ⟨-, x, next, yields⟩ := h.known (by simpa [Reply.test] using known)
    rw [returns] at yields
    cases yields

/-- The value that a test has found is taken. -/
theorem take (moved : α → α) (h : InStep body beginning point t)
    (known : tested t.replies = true) :
    ∃ x next, body point = .yields x next ∧
      InStep body beginning next (t.step body moved .operatorCall) ∧
      (t.step body moved .operatorCall).generator.h_.done = false ∧
      (t.step body moved .operatorCall).replies = t.replies ++ [.value x] := by
  obtain ⟨full, x, next, yields⟩ := h.known known
  obtain ⟨g, called, stage, suspended⟩ := h.stage.take moved yields full
  refine ⟨x, next, yields, ?_, ?_⟩
  · rw [step_defined h.defined called]
    refine ⟨stage, ?_, fun k => ?_, ?_, ?_, ?_⟩
    · simp [h.defined]
    · have later := h.position (k + 1)
      rw [yielded_yields yields, Seq.get?_cons_succ] at later
      simpa [Reply.isValue, Nat.add_assoc, Nat.add_comm 1] using later
    · intro known
      simp [Reply.test] at known
    · rintro last
      simp at last
    · intro member
      have returns := (h.ended (by simpa using member)).2
      rw [yields] at returns
      cases returns
  · rw [step_defined h.defined called]
    exact ⟨suspended, rfl⟩

end InStep

/-- The generator is in step, and the body does not throw any more. -/
def Quiet (body : σ → Resumption σ α ε) (beginning : σ) (t : Session σ α ε) : Prop :=
  ∃ point, InStep body beginning point t ∧ ∀ n, ¬ ThrowsAfter body n point

theorem Quiet.step {c : GeneratorCall} (quiet : Quiet body beginning t) (follows : t.Follows c) :
    Quiet body beginning (t.step body moved c) := by
  obtain ⟨point, inStep, silent⟩ := quiet
  cases c with
  | operatorBool =>
      cases resumed : body point with
      | yields x next => exact ⟨point, (inStep.test_yields moved resumed).1, silent⟩
      | returns => exact ⟨point, (inStep.test_returns moved resumed).1, silent⟩
      | throws exception => exact absurd ⟨exception, resumed⟩ (silent 0)
  | operatorCall =>
      obtain ⟨x, next, yields, later, -, -⟩ := inStep.take moved (follows rfl)
      exact ⟨next, later, fun n throws => silent (n + 1) ((throwsAfter_succ yields).mpr throws)⟩

theorem Quiet.delivers {c : GeneratorCall} (quiet : Quiet body beginning t)
    (follows : t.Follows c) : t.Delivers body moved (yielded body beginning) c := by
  obtain ⟨point, inStep, silent⟩ := quiet
  have here := inStep.position 0
  rw [Nat.add_zero] at here
  cases c with
  | operatorBool =>
      cases resumed : body point with
      | yields x next =>
          obtain ⟨-, replies, same, -⟩ := inStep.test_yields moved resumed
          rw [yielded_yields resumed, Seq.get?_cons_zero] at here
          have goesOn : .ready false ∉ t.replies := fun member => by
            have returns := (inStep.ended member).2
            rw [resumed] at returns
            cases returns
          refine ⟨by rw [replies, here]; rfl, fun before => ?_, fun member => absurd member goesOn⟩
          rw [same (inStep.asked (before.resolve_right goesOn))]
      | returns =>
          obtain ⟨-, replies, same, -⟩ := inStep.test_returns moved resumed
          rw [yielded_returns resumed, Seq.get?_nil] at here
          refine ⟨by rw [replies, here]; rfl, fun before => ?_, fun _ => replies⟩
          rw [same (before.elim inStep.asked fun member => (inStep.ended member).1)]
      | throws exception => exact absurd ⟨exception, resumed⟩ (silent 0)
  | operatorCall =>
      obtain ⟨x, next, yields, -, -, replies⟩ := inStep.take moved (follows rfl)
      rw [yielded_yields yields, Seq.get?_cons_zero] at here
      exact ⟨x, here, replies⟩

/-- Every caller that tests before it takes is told exactly the values of a body that does not
throw. -/
theorem delivers_along (body : σ → Resumption σ α ε) (moved : α → α) (beginning : σ) (value_ : α)
    (silent : ∀ n, ¬ ThrowsAfter body n beginning) (calls : List GeneratorCall)
    (follows : Along (step body moved) Follows (start beginning value_) calls) :
    Along (step body moved) (Delivers body moved (yielded body beginning))
      (start beginning value_) calls :=
  Along.of_invariant (I := Quiet body beginning) (fun _ _ quiet follows => quiet.step follows)
    (fun _ _ quiet follows => quiet.delivers follows)
    ⟨beginning, start_inStep beginning value_, silent⟩ follows

/-- The first Fibonacci number, tested twice and taken, and one test more. -/
theorem fibonacci_delivers : Along (step (fibonacci_sequence 2) id)
    (Delivers (fibonacci_sequence 2) id (yielded (fibonacci_sequence 2) .beginning))
    (start .beginning 0) [.operatorBool, .operatorBool, .operatorCall, .operatorBool] := by
  refine delivers_along (fibonacci_sequence 2) id .beginning 0
    (fun n => not_throwsAfter (fibonacci_silent (by decide)) n .beginning) _ ?_
  exact ⟨follows_operatorBool _, follows_operatorBool _, fun _ => rfl, follows_operatorBool _,
    trivial⟩

/-! ## Behind an exception -/

/-- A test that comes when `n` values have been taken is the last call. -/
def LastAfter (n : Nat) (calls : List GeneratorCall) : Prop :=
  ∀ before behind, calls = before ++ .operatorBool :: behind →
    before.count .operatorCall = n → behind = []

theorem lastAfter_bool {n : Nat} {calls : List GeneratorCall} :
    LastAfter n (.operatorBool :: calls) ↔ (n = 0 → calls = []) ∧ LastAfter n calls := by
  constructor
  · refine fun last => ⟨fun zero => ?_, fun before behind split count => ?_⟩
    · exact last [] calls rfl zero.symm
    · exact last (.operatorBool :: before) behind (by rw [split]; rfl) (by simpa using count)
  · rintro ⟨first, later⟩ before behind split count
    cases before with
    | nil =>
        obtain ⟨-, rfl⟩ := List.cons.inj split
        exact first count.symm
    | cons c before =>
        obtain ⟨rfl, rfl⟩ := List.cons.inj split
        exact later before behind rfl (by simpa using count)

theorem lastAfter_call {n : Nat} {calls : List GeneratorCall} :
    LastAfter (n + 1) (.operatorCall :: calls) ↔ LastAfter n calls := by
  constructor
  · intro last before behind split count
    exact last (.operatorCall :: before) behind (by rw [split]; rfl) (by simpa using count)
  · intro last before behind split count
    cases before with
    | nil => cases split
    | cons c before =>
        obtain ⟨rfl, rfl⟩ := List.cons.inj split
        exact last before behind rfl (by simpa using count)

/-- No call has resumed a coroutine that has ended. -/
def Defined (t : Session σ α ε) : Prop := .undefined ∉ t.replies

/-- The coroutine has not ended, or the generator knows that it has. -/
def Guarded (t : Session σ α ε) : Prop := t.generator.h_.done = true → t.generator.full_ = true

theorem run_undefined (undefined : .undefined ∈ t.replies) (calls : List GeneratorCall) :
    ¬ Defined (run (step body moved) t calls) := by
  rw [run_fixed (step_undefined undefined) calls]
  exact fun defined => defined undefined

namespace InStep

variable {exception : ε}

/-- The first test where the body throws leaves a coroutine that has ended, and no value is
known to be there. -/
theorem test_throws (moved : α → α) (h : InStep body beginning point t) (guarded : t.Guarded)
    (throws : body point = .throws exception) :
    InStep body beginning point (t.step body moved .operatorBool) ∧
      (t.step body moved .operatorBool).generator.h_.done = true ∧
      tested (t.step body moved .operatorBool).replies = false := by
  obtain ⟨empty, ⟨-, g, called, stage, ended⟩ | ⟨ended, -⟩⟩ :=
    h.stage.test_throws moved throws
  · have unknown : tested t.replies = false := by
      cases known : tested t.replies with
      | false => rfl
      | true =>
          have full := (h.known known).1
          rw [empty] at full
          cases full
    have goesOn : .ready false ∉ t.replies := fun member => by
      have full := (h.ended member).1
      rw [empty] at full
      cases full
    rw [step_defined h.defined called]
    refine ⟨⟨stage, ?_, ?_, ?_, ?_, ?_⟩, ended, ?_⟩
    · simp [h.defined]
    · simpa [Reply.isValue] using h.position
    · simp [Reply.test, unknown]
    · simp
    · simp [goesOn]
    · simp [Reply.test, unknown]
  · rw [guarded ended] at empty
    cases empty

/-- The second one resumes it. -/
theorem test_over (h : InStep body beginning point t) (throws : body point = .throws exception)
    (ended : t.generator.h_.done = true) :
    .undefined ∈ (t.step body moved .operatorBool).replies := by
  obtain ⟨-, ⟨suspended, -⟩ | ⟨-, undefined⟩⟩ := h.stage.test_throws moved throws
  · rw [ended] at suspended
    cases suspended
  · rw [step_defined h.defined (Prod.ext undefined rfl)]
    simp

/-- The exception that a test throws again is the last thing that the caller may see. -/
theorem defined_thrown {calls : List GeneratorCall} (h : InStep body beginning point t)
    (guarded : t.Guarded) (throws : body point = .throws exception)
    (follows : Along (step body moved) Follows (t.step body moved .operatorBool) calls) :
    Defined (run (step body moved) (t.step body moved .operatorBool) calls) ↔ calls = [] := by
  obtain ⟨stays, ended, unknown⟩ := h.test_throws moved guarded throws
  cases calls with
  | nil => exact iff_of_true stays.defined rfl
  | cons c calls =>
      refine iff_of_false ?_ (List.cons_ne_nil c calls)
      cases c with
      | operatorBool => exact run_undefined (stays.test_over throws ended) calls
      | operatorCall =>
          have known := follows.1 rfl
          rw [unknown] at known
          cases known

end InStep

/-- From any point of a run at which the end of the coroutine is not overlooked. -/
theorem InStep.defined_iff {calls : List GeneratorCall} (h : InStep body beginning point t)
    (guarded : t.Guarded) (follows : Along (step body moved) Follows t calls) :
    Defined (run (step body moved) t calls) ↔
      ∀ n, ThrowsAfter body n point → LastAfter n calls := by
  induction calls generalizing t point with
  | nil =>
      refine iff_of_true h.defined fun n _ before behind split => ?_
      simp at split
  | cons c calls ih =>
      obtain ⟨here, later⟩ := follows
      rw [run_cons]
      cases c with
      | operatorBool =>
          simp only [lastAfter_bool]
          cases resumed : body point with
          | yields x next =>
              obtain ⟨stays, -, -, full⟩ := h.test_yields moved resumed
              rw [ih stays (fun _ => full) later]
              refine forall₂_congr fun n throws => (and_iff_right fun zero => ?_).symm
              rw [zero] at throws
              exact absurd throws (not_throwsAfter_zero resumed)
          | returns =>
              obtain ⟨stays, -, -, full⟩ := h.test_returns moved resumed
              rw [ih stays (fun _ => full) later]
              exact forall₂_congr fun n throws =>
                absurd throws (not_throwsAfter_of_returns resumed n)
          | throws exception =>
              rw [h.defined_thrown guarded resumed later]
              constructor
              · rintro rfl n -
                exact ⟨fun _ => rfl, fun before behind split => by simp at split⟩
              · exact fun last => (last 0 ⟨exception, resumed⟩).1 rfl
      | operatorCall =>
          obtain ⟨x, next, yields, stays, suspended, -⟩ := h.take moved (here rfl)
          rw [ih stays (fun ended => by rw [suspended] at ended; cases ended) later]
          constructor
          · intro last n throws
            cases n with
            | zero => exact absurd throws (not_throwsAfter_zero yields)
            | succ n => exact lastAfter_call.mpr (last n ((throwsAfter_succ yields).mp throws))
          · intro last n throws
            exact lastAfter_call.mp (last (n + 1) ((throwsAfter_succ yields).mpr throws))

/-- A caller that tests before it takes never makes the generator resume a coroutine that has
ended, exactly when it makes no call behind the one that throws the body's exception again. -/
theorem defined_iff_lastAfter (body : σ → Resumption σ α ε) (moved : α → α) (beginning : σ)
    (value_ : α) (calls : List GeneratorCall)
    (follows : Along (step body moved) Follows (start beginning value_) calls) :
    Defined (run (step body moved) (start beginning value_) calls) ↔
      ∀ n, ThrowsAfter body n beginning → LastAfter n calls :=
  (start_inStep beginning value_).defined_iff (fun ended => by cases ended) follows

/-- Two tests of a generator that throws at once. -/
def twoTests : List GeneratorCall := [.operatorBool, .operatorBool]

theorem fibonacci_defined_iff :
    Defined (run (step (fibonacci_sequence 95) id) (start .beginning 0) twoTests) ↔
      ∀ n, ThrowsAfter (fibonacci_sequence 95) n .beginning → LastAfter n twoTests := by
  refine defined_iff_lastAfter (fibonacci_sequence 95) id .beginning 0 twoTests ?_
  exact ⟨follows_operatorBool _, follows_operatorBool _, trivial⟩

/-- The first test throws the exception of the body again, and the second one resumes it. -/
theorem fibonacci_not_defined :
    Along (step (fibonacci_sequence 95) id) Follows (start .beginning 0) twoTests ∧
      ¬ Defined (run (step (fibonacci_sequence 95) id) (start .beginning 0) twoTests) := by
  refine ⟨⟨follows_operatorBool _, follows_operatorBool _, trivial⟩, fun defined => defined ?_⟩
  exact List.mem_cons_of_mem _ List.mem_cons_self

end Session

end Mux.Socket
