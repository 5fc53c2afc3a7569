import Mathlib.Algebra.BigOperators.Fin
import Mathlib.Algebra.Order.Group.Multiset
import Mathlib.Tactic.Abel
import Mux.Library.Transition

/-!
# The thread pool

Workers, producers, task bodies and the destructor take steps in any order; a
step is a critical section of `queueMutex_` or lies outside of all of them. A
task body may add tasks itself, also while the pool shuts down. Since a waiting
worker may wake up at any time, notifications do not restrict the schedules.
-/

namespace Mux.Socket

open Transition

variable {Body : Type} {n : Nat}

/-- One call of `addTask`: its position among all of them, the function, whether a running
task made the call, and whether `stop_` was set at that moment. -/
structure Task (Body : Type) where
  id : Nat
  body : Body
  byTask : Bool
  stopping : Bool
  deriving DecidableEq, Repr

/-- Where a worker is: before its critical section, asleep in `condition_.wait`, with a task
it has taken, in the body of this task, or out of its loop. -/
inductive Worker (Body : Type) where
  | ready
  | waiting
  | holding (task : Task Body)
  | running (task : Task Body)
  | exited
  deriving DecidableEq, Repr

/-- The task was added from outside of the pool after the destructor had begun. -/
def Task.Late (task : Task Body) : Prop := task.byTask = false ∧ task.stopping = true

namespace Worker

/-- The task a worker has taken from the queue and not finished. -/
def held : Worker Body → Multiset (Task Body)
  | holding task => {task}
  | running task => {task}
  | _ => 0

end Worker

/-- `joined` counts the threads that the destructor has joined, once it has begun. The last
three fields record all tasks ever added, taken from the queue, and executed. -/
structure ThreadPool (Body : Type) (n : Nat) where
  tasks_ : List (Task Body) := []
  stop_ : Bool := false
  workers : Fin n → Worker Body := fun _ => .ready
  joined : Option Nat := none
  added : List (Task Body) := []
  taken : List (Task Body) := []
  executed : List (Task Body) := []

namespace ThreadPool

inductive Step (Body : Type) (n : Nat) where
  | addTask (body : Body)
  | section_ (i : Fin n)
  | start (i : Fin n)
  | addFromTask (i : Fin n) (body : Body)
  | finish (i : Fin n)
  | stop
  | join
  deriving DecidableEq, Repr

def setWorker (p : ThreadPool Body n) (i : Fin n) (worker : Worker Body) : ThreadPool Body n :=
  { p with workers := Function.update p.workers i worker }

/-- The critical section of `addTask`. -/
def addTask (p : ThreadPool Body n) (byTask : Bool) (body : Body) : ThreadPool Body n :=
  let task : Task Body := { id := p.added.length, body, byTask, stopping := p.stop_ }
  { p with tasks_ := p.tasks_ ++ [task], added := p.added ++ [task] }

/-- The critical section of `workerThread`: the predicate of the wait, the exit condition,
and the front of the queue. -/
def workerThread (p : ThreadPool Body n) (i : Fin n) : ThreadPool Body n :=
  if !(!p.tasks_.isEmpty || p.stop_) then p.setWorker i .waiting
  else if p.stop_ && p.tasks_.isEmpty then p.setWorker i .exited
  else match p.tasks_ with
    | [] => p
    | task :: tasks_ =>
        { p.setWorker i (.holding task) with tasks_, taken := p.taken ++ [task] }

/-- The destructor joins the threads in order. -/
def join (p : ThreadPool Body n) : ThreadPool Body n :=
  match p.joined with
  | none => p
  | some j =>
      if h : j < n then
        match p.workers ⟨j, h⟩ with
        | .exited => { p with joined := some (j + 1) }
        | _ => p
      else p

/-- The destructor has returned. -/
def Destroyed (p : ThreadPool Body n) : Prop := p.joined = some n

instance (p : ThreadPool Body n) : Decidable p.Destroyed :=
  inferInstanceAs (Decidable (p.joined = some n))

/-- One step of a schedule. A step that is not possible in the state changes nothing. -/
def step (p : ThreadPool Body n) : Step Body n → ThreadPool Body n
  | .addTask body => if p.Destroyed then p else p.addTask false body
  | .section_ i =>
      match p.workers i with
      | .ready => p.workerThread i
      | .waiting => p.workerThread i
      | _ => p
  | .start i =>
      match p.workers i with
      | .holding task => p.setWorker i (.running task)
      | _ => p
  | .addFromTask i body =>
      match p.workers i with
      | .running _ => p.addTask true body
      | _ => p
  | .finish i =>
      match p.workers i with
      | .running task => { p.setWorker i .ready with executed := p.executed ++ [task] }
      | _ => p
  | .stop => if p.joined = none then { p with stop_ := true, joined := some 0 } else p
  | .join => p.join

/-! ## What a step does -/

/-- The effects that a step can have. -/
inductive Effect (p : ThreadPool Body n) : ThreadPool Body n → Prop where
  | none : Effect p p
  | added (byTask : Bool) (body : Body)
      (caller : byTask = true → ∃ i task, p.workers i = .running task) :
      Effect p (p.addTask byTask body)
  | waits (i : Fin n) (outside : p.workers i = .ready ∨ p.workers i = .waiting) :
      Effect p (p.setWorker i .waiting)
  | leaves (i : Fin n) (outside : p.workers i = .ready ∨ p.workers i = .waiting)
      (stopped : p.stop_ = true) (empty : p.tasks_ = []) : Effect p (p.setWorker i .exited)
  | takes (i : Fin n) (outside : p.workers i = .ready ∨ p.workers i = .waiting)
      (task : Task Body) (rest : List (Task Body)) (front : p.tasks_ = task :: rest) :
      Effect p
        { p.setWorker i (.holding task) with tasks_ := rest, taken := p.taken ++ [task] }
  | starts (i : Fin n) (task : Task Body) (holding : p.workers i = .holding task) :
      Effect p (p.setWorker i (.running task))
  | finishes (i : Fin n) (task : Task Body) (running : p.workers i = .running task) :
      Effect p { p.setWorker i .ready with executed := p.executed ++ [task] }
  | stops (alive : p.joined = Option.none) :
      Effect p { p with stop_ := true, joined := some 0 }
  | joins (j : Nat) (bound : j < n) (joined : p.joined = some j)
      (exited : p.workers ⟨j, bound⟩ = .exited) : Effect p { p with joined := some (j + 1) }

theorem workerThread_effect {p : ThreadPool Body n} {i : Fin n}
    (outside : p.workers i = .ready ∨ p.workers i = .waiting) : Effect p (p.workerThread i) := by
  unfold workerThread
  cases front : p.tasks_ with
  | nil =>
      cases stopped : p.stop_ with
      | false => exact .waits i outside
      | true => exact .leaves i outside stopped front
  | cons task rest =>
      have taken := Effect.takes i outside task rest front
      cases p.stop_ <;> exact taken

theorem step_effect (p : ThreadPool Body n) (s : Step Body n) : Effect p (p.step s) := by
  cases s with
  | addTask body =>
      rw [step]
      split
      · exact .none
      · exact .added false body nofun
  | section_ i =>
      rw [step]
      split
      · next ready => exact workerThread_effect (.inl ready)
      · next waiting => exact workerThread_effect (.inr waiting)
      · exact .none
  | start i =>
      rw [step]
      split
      · next task holding => exact .starts i task holding
      · exact .none
  | addFromTask i body =>
      rw [step]
      split
      · next task running => exact .added true body fun _ => ⟨i, task, running⟩
      · exact .none
  | finish i =>
      rw [step]
      split
      · next task running => exact .finishes i task running
      · exact .none
  | stop =>
      rw [step]
      split
      · next alive => exact .stops alive
      · exact .none
  | join =>
      rw [step, join]
      split
      · exact .none
      · next j joined =>
          split
          · next bound =>
              split
              · next exited => exact .joins j bound joined exited
              · exact .none
          · exact .none

/-! ## The invariant -/

/-- The tasks that the workers hold. -/
def held (workers : Fin n → Worker Body) : Multiset (Task Body) := ∑ i, (workers i).held

theorem held_update (workers : Fin n → Worker Body) (i : Fin n) (worker : Worker Body) :
    held (Function.update workers i worker) + (workers i).held = held workers + worker.held := by
  have shares : (fun j => (Function.update workers i worker j).held) =
      Function.update (fun j => (workers j).held) i worker.held := by
    funext j
    exact Function.apply_update (fun _ => Worker.held) workers i worker j
  have rest := Finset.add_sum_erase Finset.univ (fun j => (workers j).held) (Finset.mem_univ i)
  rw [held, shares, Finset.sum_update_of_mem (Finset.mem_univ i), held, ← rest,
    Finset.sdiff_singleton_eq_erase]
  abel

/-- A step that lets a worker neither take nor drop a task. -/
theorem held_same {workers : Fin n → Worker Body} {i : Fin n} {worker : Worker Body}
    (same : worker.held = (workers i).held) :
    held (Function.update workers i worker) = held workers := by
  have moved := held_update workers i worker
  rw [same] at moved
  exact add_right_cancel moved

/-- The books of the pool balance. Once every worker has left its loop, what is still in
the queue was added too late. -/
structure Accounted (p : ThreadPool Body n) : Prop where
  order : p.taken ++ p.tasks_ = p.added
  shares : (p.taken : Multiset (Task Body)) = held p.workers + (p.executed : Multiset (Task Body))
  ids : p.added.map Task.id = List.range p.added.length
  exited : ∀ i, p.workers i = .exited → p.stop_ = true
  deserted : 0 < n → (∀ i, p.workers i = .exited) → ∀ task ∈ p.tasks_, task.Late
  joined : ∀ j, p.joined = some j → ∀ i : Fin n, i < j → p.workers i = .exited

theorem new_accounted : Accounted ({} : ThreadPool Body n) where
  order := rfl
  shares := by simp [held, Worker.held]
  ids := rfl
  exited i h := by cases h
  deserted _ _ task member := by cases member
  joined j h := by cases h

variable {p p' : ThreadPool Body n} {i : Fin n} {worker : Worker Body}

/-- A worker that is in its loop and stays there. -/
theorem exited_update (before : p.workers i ≠ .exited) (after : worker ≠ .exited) (j : Fin n) :
    Function.update p.workers i worker j = .exited ↔ p.workers j = .exited := by
  by_cases same : j = i
  · subst same
    rw [Function.update_self]
    exact iff_of_false after before
  · rw [Function.update_of_ne same]

theorem not_all_exited (after : worker ≠ .exited) :
    ¬ ∀ j, Function.update p.workers i worker j = .exited := by
  intro all
  have here := all i
  rw [Function.update_self] at here
  exact after here

theorem ready_ne_exited : (.ready : Worker Body) ≠ .exited := nofun

theorem holding_ne_exited (task : Task Body) : Worker.holding task ≠ .exited := nofun

theorem running_ne_exited {task : Task Body} (running : p.workers i = .running task) :
    p.workers i ≠ .exited := by
  rw [running]
  nofun

theorem not_exited_of_outside (outside : p.workers i = .ready ∨ p.workers i = .waiting) :
    p.workers i ≠ .exited := by
  obtain ready | waiting := outside
  · rw [ready]
    nofun
  · rw [waiting]
    nofun

theorem held_outside (outside : p.workers i = .ready ∨ p.workers i = .waiting) :
    (p.workers i).held = 0 := by
  obtain ready | waiting := outside
  · rw [ready]
    rfl
  · rw [waiting]
    rfl

theorem Accounted.added (h : Accounted p) (byTask : Bool) (body : Body)
    (caller : byTask = true → ∃ i task, p.workers i = .running task) :
    Accounted (p.addTask byTask body) where
  order := by
    simp only [addTask, ← List.append_assoc, h.order]
  shares := h.shares
  ids := by
    simp [addTask, h.ids, List.range_succ]
  exited := h.exited
  deserted := by
    intro positive all task member
    obtain before | new := List.mem_append.mp member
    · exact h.deserted positive all task before
    · obtain rfl := List.mem_singleton.mp new
      refine ⟨?_, h.exited ⟨0, positive⟩ (all _)⟩
      cases byTask with
      | false => rfl
      | true =>
          obtain ⟨i, task, running⟩ := caller rfl
          have left := all i
          rw [addTask, running] at left
          cases left
  joined := h.joined

/-- A worker moves on inside its loop, and keeps the task it has. -/
theorem Accounted.moved (h : Accounted p) (before : p.workers i ≠ .exited)
    (after : worker ≠ .exited) (same : worker.held = (p.workers i).held) :
    Accounted (p.setWorker i worker) where
  order := h.order
  shares := h.shares.trans (congrArg (· + _) (held_same same).symm)
  ids := h.ids
  exited j left := h.exited j ((exited_update before after j).mp left)
  deserted _ all := absurd all (not_all_exited after)
  joined j joined i' low := (exited_update before after i').mpr (h.joined j joined i' low)

theorem Accounted.leaves (h : Accounted p)
    (outside : p.workers i = .ready ∨ p.workers i = .waiting) (stopped : p.stop_ = true)
    (empty : p.tasks_ = []) : Accounted (p.setWorker i .exited) where
  order := h.order
  shares := by
    have same : Worker.exited.held = (p.workers i).held := (held_outside outside).symm
    exact h.shares.trans (congrArg (· + _) (held_same same).symm)
  ids := h.ids
  exited _ _ := stopped
  deserted _ _ task member := by
    simp only [setWorker, empty] at member
    cases member
  joined j joined i' low := by
    have left := h.joined j joined i' low
    by_cases same : i' = i
    · rw [same]
      exact Function.update_self i _ p.workers
    · exact (Function.update_of_ne same _ p.workers).trans left

theorem Accounted.takes (h : Accounted p)
    (outside : p.workers i = .ready ∨ p.workers i = .waiting) {task : Task Body}
    {rest : List (Task Body)} (front : p.tasks_ = task :: rest) :
    Accounted
      { p.setWorker i (.holding task) with tasks_ := rest, taken := p.taken ++ [task] } where
  order := by
    have order := h.order
    rw [front] at order
    simpa [setWorker] using order
  shares := by
    have moved := held_update p.workers i (.holding task)
    rw [held_outside outside, add_zero] at moved
    simp only [setWorker, moved, Worker.held]
    rw [← Multiset.coe_add, h.shares, Multiset.coe_singleton]
    abel
  ids := h.ids
  exited j left := by
    have stays := exited_update (not_exited_of_outside outside) (holding_ne_exited task) j
    exact h.exited j (stays.mp left)
  deserted _ all := absurd all (not_all_exited (holding_ne_exited task))
  joined j joined i' low := by
    have stays := exited_update (not_exited_of_outside outside) (holding_ne_exited task) i'
    exact stays.mpr (h.joined j joined i' low)

theorem Accounted.finishes (h : Accounted p) {task : Task Body}
    (running : p.workers i = .running task) :
    Accounted { p.setWorker i .ready with executed := p.executed ++ [task] } where
  order := h.order
  shares := by
    have moved := held_update p.workers i .ready
    rw [running] at moved
    simp only [Worker.held, add_zero] at moved
    simp only [setWorker]
    rw [h.shares, ← moved, ← Multiset.coe_add, Multiset.coe_singleton]
    abel
  ids := h.ids
  exited j left := by
    have stays := exited_update (running_ne_exited running) ready_ne_exited j
    exact h.exited j (stays.mp left)
  deserted _ all := absurd all (not_all_exited ready_ne_exited)
  joined j joined i' low := by
    have stays := exited_update (running_ne_exited running) ready_ne_exited i'
    exact stays.mpr (h.joined j joined i' low)

theorem Accounted.effect (h : Accounted p) (effect : Effect p p') : Accounted p' := by
  cases effect with
  | none => exact h
  | added byTask body caller => exact h.added byTask body caller
  | waits i outside =>
      exact h.moved (not_exited_of_outside outside) nofun (held_outside outside).symm
  | leaves i outside stopped empty => exact h.leaves outside stopped empty
  | takes i outside task rest front => exact h.takes outside front
  | starts i task holding =>
      exact h.moved (by rw [holding]; nofun) nofun (by rw [holding]; rfl)
  | finishes i task running => exact h.finishes running
  | stops alive =>
      refine ⟨h.order, h.shares, h.ids, fun _ _ => rfl, h.deserted, ?_⟩
      intro j joined i low
      obtain rfl := Option.some.inj joined
      exact absurd low (Nat.not_lt_zero _)
  | joins j bound joined exited =>
      refine ⟨h.order, h.shares, h.ids, h.exited, h.deserted, ?_⟩
      intro j' joined' i low
      obtain rfl := Option.some.inj joined'
      obtain before | rfl := Nat.lt_succ_iff_lt_or_eq.mp low
      · exact h.joined j joined i before
      · exact exited

/-- The state after a schedule, from a new pool. -/
def after (n : Nat) (schedule : List (Step Body n)) : ThreadPool Body n := run step {} schedule

theorem after_accounted (schedule : List (Step Body n)) : Accounted (after n schedule) :=
  run_preserves (fun p s _ h => h.effect (p.step_effect s)) new_accounted

/-! ## The calls of `addTask` -/

namespace Step

/-- The call of `addTask` that a step is, if the pool can be called: from outside until the
destructor has returned, and from a task while a worker runs it. -/
def addedBody (p : ThreadPool Body n) : Step Body n → Option (Bool × Body)
  | .addTask body => if p.Destroyed then none else some (false, body)
  | .addFromTask i body =>
      match p.workers i with
      | .running _ => some (true, body)
      | _ => none
  | _ => none

/-- The destructor has begun once this step has been taken. -/
def begins : Step Body n → Bool
  | .stop => true
  | _ => false

end Step

/-- The tasks that a schedule adds, in the order of the calls. They are read off its steps:
`count` calls came before, and `begun` says whether the destructor has begun. -/
def requests (p : ThreadPool Body n) (count : Nat) (begun : Bool) :
    List (Step Body n) → List (Task Body)
  | [] => []
  | s :: schedule =>
      match s.addedBody p with
      | some (byTask, body) =>
          ⟨count, body, byTask, begun⟩ ::
            requests (p.step s) (count + 1) (begun || s.begins) schedule
      | none => requests (p.step s) count (begun || s.begins) schedule

/-- The tasks that a schedule adds to a new pool. -/
def requested (n : Nat) (schedule : List (Step Body n)) : List (Task Body) :=
  requests {} 0 false schedule

/-- The pool knows whether its destructor has begun. -/
structure Begun (p : ThreadPool Body n) (begun : Bool) : Prop where
  stop_ : p.stop_ = begun
  joined : p.joined = none ↔ begun = false

/-- A step that is neither a call of `addTask` nor the beginning of the destructor. -/
structure Quiet (p p' : ThreadPool Body n) : Prop where
  added : p'.added = p.added
  stop_ : p'.stop_ = p.stop_
  joined : p'.joined = none ↔ p.joined = none

theorem Quiet.refl (p : ThreadPool Body n) : Quiet p p := ⟨rfl, rfl, Iff.rfl⟩

theorem Quiet.begun {begun : Bool} (quiet : Quiet p p') (h : Begun p begun) : Begun p' begun :=
  ⟨quiet.stop_.trans h.stop_, quiet.joined.trans h.joined⟩

theorem quiet_workerThread (p : ThreadPool Body n) (i : Fin n) : Quiet p (p.workerThread i) := by
  unfold workerThread
  split
  · exact ⟨rfl, rfl, Iff.rfl⟩
  · split
    · exact ⟨rfl, rfl, Iff.rfl⟩
    · split
      · exact .refl p
      · exact ⟨rfl, rfl, Iff.rfl⟩

theorem quiet_join (p : ThreadPool Body n) : Quiet p p.join := by
  unfold join
  split
  · exact .refl p
  · next j joined =>
      split
      · split
        · exact ⟨rfl, rfl, by simp [joined]⟩
        · exact .refl p
      · exact .refl p

/-- A step adds the task that it asks for, with the next number, and nothing else. -/
theorem step_added {begun : Bool} (h : Begun p begun) (s : Step Body n) :
    Begun (p.step s) (begun || s.begins) ∧
      (p.step s).added = p.added ++
        ((s.addedBody p).map fun call => ⟨p.added.length, call.2, call.1, begun⟩).toList := by
  have quiet (same : s.begins = false) (none : s.addedBody p = none)
      (still : Quiet p (p.step s)) : Begun (p.step s) (begun || s.begins) ∧
        (p.step s).added = p.added ++
          ((s.addedBody p).map fun call => ⟨p.added.length, call.2, call.1, begun⟩).toList := by
    rw [same, none, Bool.or_false]
    exact ⟨still.begun h, by simpa using still.added⟩
  cases s with
  | addTask body =>
      by_cases destroyed : p.Destroyed
      · refine quiet rfl (if_pos destroyed) ?_
        rw [step, if_pos destroyed]
        exact .refl p
      · have same : (begun || (Step.addTask body : Step Body n).begins) = begun :=
          Bool.or_false begun
        rw [step, Step.addedBody, if_neg destroyed, if_neg destroyed, same]
        exact ⟨⟨h.stop_, h.joined⟩, by simp [addTask, h.stop_]⟩
  | section_ i =>
      refine quiet rfl rfl ?_
      rw [step]
      split
      · exact quiet_workerThread p i
      · exact quiet_workerThread p i
      · exact .refl p
  | start i =>
      refine quiet rfl rfl ?_
      rw [step]
      split
      · exact ⟨rfl, rfl, Iff.rfl⟩
      · exact .refl p
  | addFromTask i body =>
      have same : (begun || (Step.addFromTask i body : Step Body n).begins) = begun :=
        Bool.or_false begun
      rw [step, Step.addedBody, same]
      split
      · exact ⟨⟨h.stop_, h.joined⟩, by simp [addTask, h.stop_]⟩
      · exact ⟨h, by simp⟩
  | finish i =>
      refine quiet rfl rfl ?_
      rw [step]
      split
      · exact ⟨rfl, rfl, Iff.rfl⟩
      · exact .refl p
  | stop =>
      rw [step, Step.begins, Bool.or_true]
      refine ⟨?_, ?_⟩
      · split
        · exact ⟨rfl, by simp⟩
        · next joined =>
            have begun' : begun = true := by simpa [h.joined] using joined
            rw [← begun']
            exact h
      · split <;> simp [Step.addedBody]
  | join => exact quiet rfl rfl (quiet_join p)

/-- What is added in a run is what its schedule asks for. -/
theorem run_added {begun : Bool} (h : Begun p begun) (schedule : List (Step Body n)) :
    (run step p schedule).added = p.added ++ requests p p.added.length begun schedule := by
  induction schedule generalizing p begun with
  | nil => simp [requests]
  | cons s schedule ih =>
      obtain ⟨later, added⟩ := step_added h s
      rw [run_cons, ih later, added, requests]
      cases asked : s.addedBody p with
      | none => simp
      | some call => simp

theorem after_added (schedule : List (Step Body n)) :
    (after n schedule).added = requested n schedule :=
  run_added ⟨rfl, by simp⟩ schedule

/-! ## Nothing is lost or repeated -/

theorem Accounted.executed_nodup (h : Accounted p) : (p.executed.map Task.id).Nodup := by
  have added : (p.added.map Task.id).Nodup := by
    rw [h.ids]
    exact List.nodup_range
  rw [← h.order, List.map_append] at added
  have taken : ((p.taken : Multiset (Task Body)).map Task.id).Nodup :=
    Multiset.coe_nodup.mpr (List.nodup_append.mp added).1
  rw [h.shares, Multiset.map_add] at taken
  exact Multiset.coe_nodup.mp (Multiset.nodup_add.mp taken).2.1

/-- When all threads are joined, every task that was not added too late is executed. -/
theorem Accounted.executed_of_destroyed (h : Accounted p) (positive : 0 < n)
    (destroyed : p.Destroyed) {task : Task Body} (member : task ∈ p.added)
    (early : ¬ task.Late) : task ∈ p.executed := by
  have left (i : Fin n) : p.workers i = .exited := h.joined n destroyed i i.isLt
  have idle : held p.workers = 0 := by
    refine Finset.sum_eq_zero fun i _ => ?_
    rw [left i]
    rfl
  rw [← h.order] at member
  obtain taken | queued := List.mem_append.mp member
  · have share : task ∈ (p.taken : Multiset (Task Body)) := taken
    rw [h.shares, idle, zero_add] at share
    exact share
  · exact absurd (h.deserted positive left task queued) early

/-- The account of a state for the tasks that were asked for: where they are, in which order
they leave the queue, how often they were executed, when a worker leaves its loop, and what is
done in the end. -/
structure KeepsTasks (tasks : List (Task Body)) (p : ThreadPool Body n) : Prop where
  shares : (tasks : Multiset (Task Body)) =
    (p.tasks_ : Multiset (Task Body)) + held p.workers + (p.executed : Multiset (Task Body))
  fifo : ∃ left : List (Task Body), left ++ p.tasks_ = tasks ∧
    (left : Multiset (Task Body)) = held p.workers + (p.executed : Multiset (Task Body))
  once : (p.executed.map Task.id).Nodup
  leaves : ∀ s i, p.workers i ≠ .exited → (p.step s).workers i = .exited →
    p.stop_ = true ∧ p.tasks_ = []
  done : 0 < n → p.Destroyed → ∀ task ∈ tasks, task.byTask = true ∨ task.stopping = false →
    (p.executed.map Task.id).count task.id = 1

theorem leaves_loop (p : ThreadPool Body n) (s : Step Body n) (i : Fin n)
    (before : p.workers i ≠ .exited) (after : (p.step s).workers i = .exited) :
    p.stop_ = true ∧ p.tasks_ = [] := by
  have stays {j : Fin n} {worker : Worker Body} (inside : worker ≠ .exited) :
      Function.update p.workers j worker i ≠ .exited := by
    by_cases same : i = j
    · rw [same, Function.update_self]
      exact inside
    · rw [Function.update_of_ne same]
      exact before
  have effect := p.step_effect s
  generalize p.step s = p' at effect after
  cases effect with
  | none => exact absurd after before
  | added => exact absurd after before
  | waits => exact absurd after (stays nofun)
  | leaves j outside stopped empty => exact ⟨stopped, empty⟩
  | takes => exact absurd after (stays nofun)
  | starts => exact absurd after (stays nofun)
  | finishes => exact absurd after (stays nofun)
  | stops => exact absurd after before
  | joins => exact absurd after before

/-- Under every schedule the pool loses and repeats none of the tasks that the schedule adds. -/
theorem after_keepsTasks (schedule : List (Step Body n)) :
    KeepsTasks (requested n schedule) (after n schedule) := by
  have accounted := after_accounted schedule
  rw [← after_added]
  generalize after n schedule = p at accounted
  refine ⟨?_, ⟨p.taken, accounted.order, accounted.shares⟩, accounted.executed_nodup,
    p.leaves_loop, ?_⟩
  · rw [← accounted.order, ← Multiset.coe_add, accounted.shares]
    abel
  · intro positive destroyed task member early
    have notLate : ¬ task.Late := by
      rintro ⟨outside, stopping⟩
      obtain inside | before := early
      · rw [inside] at outside
        cases outside
      · rw [before] at stopping
        cases stopping
    refine List.count_eq_one_of_mem accounted.executed_nodup ?_
    exact List.mem_map_of_mem (accounted.executed_of_destroyed positive destroyed member notLate)

/-- One worker: the task 10 from outside adds the task 11 after the destructor has begun. -/
def shutdown : List (Step Nat 1) :=
  [.addTask 10, .section_ 0, .start 0, .stop, .addFromTask 0 11, .finish 0, .section_ 0, .start 0,
    .finish 0, .section_ 0, .join]

/-- Both are executed when the thread is joined. -/
theorem shutdown_keepsTasks : KeepsTasks (requested 1 shutdown) (after 1 shutdown) ∧
    (after 1 shutdown).Destroyed ∧
    requested 1 shutdown = [⟨0, 10, false, false⟩, ⟨1, 11, true, true⟩] ∧
    (after 1 shutdown).executed = requested 1 shutdown :=
  ⟨after_keepsTasks shutdown, by decide, by decide, by decide⟩

end ThreadPool

end Mux.Socket
