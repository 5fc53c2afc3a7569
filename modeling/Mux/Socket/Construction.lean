import Mux.Socket.Consistency
import Mux.Socket.Syscalls

/-!
# Construction and destruction of the server

The constructor of `SocketBase` gives up at the first step that fails, and the
destructor runs on whatever it has made by then. Up to the step that creates the
poller the field `poller_ni_` holds what was in its memory before, which is an
argument here. The destructor closes the number -1, which is no descriptor, and
the number in `poller_ni_`; it does not close the listening socket.
-/

namespace Mux.Socket

open Transition

/-- The outcomes of the steps of the constructor, in source order. -/
structure ConstructorCalls where
  socket : Int
  setReuseAddress : Bool
  getfl : Option Nat
  setfl : Bool
  bind : Bool
  kqueue : Int
  addReader : Bool
  addWriter : Bool
  listen : Bool
  deriving DecidableEq, Repr

namespace ConstructorCalls

def created (calls : ConstructorCalls) : Bool := 0 ≤ calls.socket

/-- The constructor gets as far as to ask for a poller. -/
def reachesPoller (calls : ConstructorCalls) : Bool :=
  calls.created && calls.setReuseAddress && calls.getfl.isSome && calls.setfl && calls.bind

/-- The descriptors that the constructor obtains. -/
def obtained (calls : ConstructorCalls) : List Int :=
  (if calls.created then [calls.socket] else []) ++
    if calls.reachesPoller && 0 ≤ calls.kqueue then [calls.kqueue] else []

end ConstructorCalls

/-- The effect of `socket` and of `kqueue` when they return `fd`. -/
def Kernel.create (k : Kernel) (conn : Nat) (fd : Int) : Kernel :=
  if 0 ≤ fd then k.setDescriptor fd (some { conn }) else k

/-- Both filters in one change list: the second change is not made when the first one
fails. -/
def setPollerReadableWritable (k : Kernel) (socket_ : Int) (addReader addWriter : Bool) :
    Bool × Kernel :=
  match k.kevent socket_ .read .add addReader with
  | (false, k) => (false, k)
  | (true, k) => k.kevent socket_ .write .add addWriter

/-- The fields of `SocketBase` that its loop works on, and the one for the poller. -/
structure Server where
  base : SocketBase
  poller_ni_ : Int

namespace Server

/-- The constructor. `memory` is what the field for the poller holds before it, and `stream`
whether the type of the socket is `SOCK_STREAM`. -/
def new (memory : Int) (stream : Bool) (k : Kernel) (conn : Nat) (calls : ConstructorCalls) :
    Server :=
  let made (k : Kernel) (poller_ni_ : Int) : Server :=
    ⟨{ socket_ := calls.socket, clientFds_ := .empty, kernel := k, nextId := conn + 2 }, poller_ni_⟩
  let k := k.create conn calls.socket
  if calls.socket < 0 then made k memory
  else if !calls.setReuseAddress then made k memory
  else
    match calls.getfl with
    | none => made k memory
    | some flags =>
        if !calls.setfl then made k memory
        else
          let k := k.setFlags calls.socket (flags ||| O_NONBLOCK)
          if !calls.bind then made k memory
          else
            let k := k.create (conn + 1) calls.kqueue
            if calls.kqueue = -1 then made k calls.kqueue
            else
              match setPollerReadableWritable k calls.socket calls.addReader calls.addWriter with
              | (false, k) => made k calls.kqueue
              | (true, k) =>
                  if stream && !calls.listen then made k calls.kqueue else made k calls.kqueue

/-- A call of the loop, which is given the number of the poller. -/
def handler {χ : Type} (handle : Interest → HandleOperation χ) (s : Server)
    (batch : Option (List (Occurrence χ))) : Server :=
  { s with base := s.base.pollingHandler handle batch }

/-- The outcomes of the calls of the destructor: those for each client that is left, and
those of its two calls of `::close`. -/
structure DestructorCalls where
  clients : Int → CloseCalls
  close : Bool
  closePoller : Bool

/-- The map drops its pointers, in some order. -/
def clear (k : Kernel) (pairs : List (Int × ClientPtr)) (calls : Int → CloseCalls) : Kernel :=
  pairs.foldl (fun k entry =>
    match entry.2 with
    | none => k
    | some c => c.destroy k (calls entry.1)) k

def destroy (s : Server) (order : s.base.clientFds_.Listing) (calls : DestructorCalls) : Kernel :=
  let k := clear s.base.kernel order.pairs calls.clients
  let k := (k.close (-1) calls.close).2
  if s.poller_ni_ ≠ -1 then (k.close s.poller_ni_ calls.closePoller).2 else k

/-- No client is open any more. -/
def Deserted (w : SocketBase) : Prop :=
  ∀ fd c, w.clientFds_.find? fd = some (some c) → c.isConnected_ = false

/-- The destructor closes each descriptor that the constructor obtained exactly once, and
no other number that a descriptor can have. -/
def Balanced (s : Server) (obtained : List Int) (order : s.base.clientFds_.Listing)
    (calls : DestructorCalls) : Prop :=
  ∀ fd, 0 ≤ fd → (s.destroy order calls).trace.count (.close fd) =
    s.base.kernel.trace.count (.close fd) + if fd ∈ obtained then 1 else 0

/-! ## What the constructor makes and the destructor closes -/

variable {memory : Int} {stream : Bool} {k : Kernel} {conn : Nat} {calls : ConstructorCalls}

/-- The field for the poller is assigned by the step that creates it. -/
theorem new_poller (memory : Int) (stream : Bool) (k : Kernel) (conn : Nat)
    (calls : ConstructorCalls) : (new memory stream k conn calls).poller_ni_ =
      if calls.reachesPoller then calls.kqueue else memory := by
  unfold new ConstructorCalls.reachesPoller ConstructorCalls.created
  by_cases negative : calls.socket < 0
  · have missing : ¬ 0 ≤ calls.socket := by omega
    simp [negative, missing]
  · have valid : 0 ≤ calls.socket := by omega
    cases calls.setReuseAddress with
    | false => simp [negative]
    | true =>
        cases calls.getfl with
        | none => simp [negative]
        | some flags =>
            cases calls.setfl with
            | false => simp [negative]
            | true =>
                cases calls.bind with
                | false => simp [negative]
                | true =>
                    simp only [negative, valid, if_false, Bool.not_true, Bool.false_eq_true,
                      decide_true, Option.isSome_some, Bool.and_self, if_true]
                    split
                    · rfl
                    · split
                      · rfl
                      · split <;> rfl

theorem clear_deserted {k : Kernel} {pairs : List (Int × ClientPtr)} {calls : Int → CloseCalls}
    (deserted : ∀ fd c, (fd, some c) ∈ pairs → c.isConnected_ = false) :
    clear k pairs calls = k := by
  induction pairs generalizing k with
  | nil => rfl
  | cons entry pairs ih =>
      obtain ⟨fd, client⟩ := entry
      have rest := @ih k fun fd c later => deserted fd c (List.mem_cons_of_mem _ later)
      cases client with
      | none => exact rest
      | some c =>
          have dropped := c.destroy_disconnected k (calls fd) (deserted fd c List.mem_cons_self)
          rw [clear, List.foldl_cons]
          simp only [dropped]
          exact rest

/-- The destructor of a server without clients makes at most one call of `::close` on a
number that a descriptor can have. -/
theorem destroy_closes {s : Server} (deserted : Deserted s.base)
    (order : s.base.clientFds_.Listing) (calls : DestructorCalls) {fd : Int} (valid : 0 ≤ fd) :
    (s.destroy order calls).trace.count (.close fd) =
      s.base.kernel.trace.count (.close fd) + if s.poller_ni_ = fd then 1 else 0 := by
  have cleared : clear s.base.kernel order.pairs calls.clients = s.base.kernel :=
    clear_deserted fun x c member => deserted x c ((order.mem_iff x (some c)).mp member)
  have first := s.base.kernel.count_close (-1) fd calls.close
  rw [if_neg (by omega)] at first
  simp only [destroy, cleared]
  by_cases none : s.poller_ni_ = -1
  · rw [if_neg (not_not.mpr none), first, none, if_neg (by omega)]
  · rw [if_pos none, Kernel.count_close, first, Nat.add_zero]

theorem balanced_iff_closes {s : Server} (deserted : Deserted s.base) {obtained : List Int}
    (order : s.base.clientFds_.Listing) (calls : DestructorCalls) :
    s.Balanced obtained order calls ↔ ∀ fd, 0 ≤ fd → (s.poller_ni_ = fd ↔ fd ∈ obtained) := by
  refine forall_congr' fun fd => forall_congr' fun valid => ?_
  rw [destroy_closes deserted order calls valid]
  by_cases closed : s.poller_ni_ = fd <;> by_cases member : fd ∈ obtained <;> simp [closed, member]

/-! ## Balance over a life of the object -/

theorem mem_obtained {fd : Int} : fd ∈ calls.obtained ↔
    (calls.created = true ∧ fd = calls.socket) ∨
      (calls.reachesPoller = true ∧ 0 ≤ calls.kqueue ∧ fd = calls.kqueue) := by
  unfold ConstructorCalls.obtained
  cases calls.created <;> cases calls.reachesPoller <;> by_cases valid : 0 ≤ calls.kqueue <;>
    simp [valid]

theorem reachesPoller_created (reached : calls.reachesPoller = true) : calls.created = true := by
  simp only [ConstructorCalls.reachesPoller, Bool.and_eq_true] at reached
  exact reached.1.1.1.1

/-- Once there may be a poller, the destructor closes its number and not that of the
listening socket. -/
theorem reached_not_balanced (reached : calls.reachesPoller = true)
    (fresh : 0 ≤ calls.kqueue → calls.kqueue ≠ calls.socket) :
    ¬ ∀ fd, 0 ≤ fd → (calls.kqueue = fd ↔ fd ∈ calls.obtained) := by
  intro balanced
  have created := reachesPoller_created reached
  have valid : 0 ≤ calls.socket := of_decide_eq_true created
  have same := (balanced calls.socket valid).mpr (mem_obtained.mpr (.inl ⟨created, rfl⟩))
  exact fresh (by omega) same

theorem run_handler_poller {χ : Type} (handle : Interest → HandleOperation χ) (s : Server)
    (batches : List (Option (List (Occurrence χ)))) :
    (run (handler handle) s batches).poller_ni_ = s.poller_ni_ := by
  have kept (later : Server) (batch : Option (List (Occurrence χ))) :
      (handler handle later batch).poller_ni_ = later.poller_ni_ := rfl
  exact run_preserves (I := fun later => later.poller_ni_ = s.poller_ni_)
    (fun later batch _ same => (kept later batch).trans same) rfl

/-- The object is balanced only when the constructor has failed before the poller, and the
memory of the field happens to hold what has to be closed: the number of the listening
socket, or no descriptor. -/
theorem balanced_iff_memory {χ : Type} (handle : Interest → HandleOperation χ) (memory : Int)
    (stream : Bool) (k : Kernel) (conn : Nat) (calls : ConstructorCalls)
    (batches : List (Option (List (Occurrence χ))))
    (fresh : calls.reachesPoller = true → 0 ≤ calls.kqueue → calls.kqueue ≠ calls.socket)
    (deserted : Deserted (run (handler handle) (new memory stream k conn calls) batches).base)
    (order : (run (handler handle)
      (new memory stream k conn calls) batches).base.clientFds_.Listing)
    (closing : DestructorCalls) :
    (run (handler handle) (new memory stream k conn calls) batches).Balanced calls.obtained order
        closing ↔
      calls.reachesPoller = false ∧
        if calls.created then memory = calls.socket else memory < 0 := by
  rw [balanced_iff_closes deserted order closing, run_handler_poller, new_poller]
  cases reached : calls.reachesPoller with
  | true =>
      simp only [if_true, Bool.true_eq_false, false_and, iff_false]
      exact reached_not_balanced reached (fresh reached)
  | false =>
      have member (fd : Int) : fd ∈ calls.obtained ↔ calls.created = true ∧ fd = calls.socket := by
        simp [mem_obtained, reached]
      simp only [Bool.false_eq_true, if_false, true_and, member]
      cases made : calls.created with
      | true =>
          have valid : 0 ≤ calls.socket := of_decide_eq_true made
          simp only [true_and, if_true]
          constructor
          · exact fun balanced => (balanced calls.socket valid).mpr rfl
          · rintro rfl fd -
            exact eq_comm
      | false =>
          simp only [Bool.false_eq_true, false_and, iff_false, if_false]
          constructor
          · intro balanced
            by_contra valid
            exact balanced memory (by omega) rfl
          · intro negative fd valid
            omega

end Server

namespace ConstructorCalls

/-- All steps succeed. -/
def succeeds (socket kqueue : Int) : ConstructorCalls where
  socket := socket
  setReuseAddress := true
  getfl := some O_RDWR
  setfl := true
  bind := true
  kqueue := kqueue
  addReader := true
  addWriter := true
  listen := true

end ConstructorCalls

namespace Server

def blank : Kernel where
  opened _ := none

def succeed : DestructorCalls where
  clients _ := .succeeds
  close := true
  closePoller := true

/-- The address cannot be bound, and the memory of the field holds the number of the
socket. -/
theorem unbound_balanced :
    (run (handler scripted)
      (new 3 true blank 0 { ConstructorCalls.succeeds 3 4 with bind := false })
      [none]).Balanced [3] .empty succeed :=
  (balanced_iff_memory scripted 3 true blank 0 { ConstructorCalls.succeeds 3 4 with bind := false }
    [none] (by decide) (fun _ _ found => by cases found) .empty succeed).mpr (by decide)

/-- When all steps succeed and nobody connects, the listening socket stays open. -/
theorem listening_not_balanced :
    ¬ (run (handler scripted) (new 0 true blank 0 (.succeeds 3 4)) []).Balanced
      (ConstructorCalls.succeeds 3 4).obtained .empty succeed := by
  intro balanced
  have once := balanced 3 (by decide)
  revert once
  decide

end Server

end Mux.Socket
