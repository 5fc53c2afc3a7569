import Mux.Socket.Readiness

/-!
# The server over epoll

`pollingHandler` with the epoll back end. A batch has at most one event for each
descriptor, with a mask of flags. This is what the registry of clients needs: an
event can only remove its own client, so that no event that is still to come has
lost the client it is about.
-/

namespace Mux.Socket

open Transition

namespace Epoll

def EPOLLIN : Nat := 0x001

def EPOLLOUT : Nat := 0x004

def EPOLLERR : Nat := 0x008

def EPOLLHUP : Nat := 0x010

/-- A `struct epoll_event`. -/
structure Event where
  fd : Int
  events : Nat
  deriving DecidableEq, Repr

def Event.has (e : Event) (flag : Nat) : Bool := e.events &&& flag ≠ 0

/-- What the loop reads off the mask. -/
def Event.readiness (e : Event) : Readiness where
  fd := e.fd
  failed := e.has EPOLLERR || e.has EPOLLHUP
  readable := e.has EPOLLIN
  writable := e.has EPOLLOUT

/-- An event of a batch, and what happens while it is worked off. -/
structure Occurrence (χ : Type) where
  event : Event
  outcomes : Outcomes χ

section Loop

variable {χ : Type} (handle : Interest → HandleOperation χ)

/-- The body of the loop. -/
def pollEvent (w : SocketBase) (o : Occurrence χ) : SocketBase :=
  w.serve handle o.event.readiness o.outcomes

/-- `epoll_wait` failed, or it returned a batch. -/
def pollingHandler (w : SocketBase) : Option (List (Occurrence χ)) → SocketBase
  | none => w.resume
  | some events => run (pollEvent handle) w.resume events

end Loop

/-- The events that epoll may return together: one for each registered descriptor at
most. -/
structure Legal (k : Kernel) (events : List (Occurrence Script)) : Prop where
  registered : ∀ o ∈ events, ∃ i, k.Registered o.event.fd i
  nodup : (events.map fun o => o.event.fd).Nodup

/-- `accept` returns `-1` or a positive descriptor that is not open, and `close` closes
the descriptor. -/
def Assumed (w : SocketBase) (o : Occurrence Script) : Prop :=
  w.Assumed o.event.readiness o.outcomes

/-- A legal batch each event of which meets the assumptions when it is worked off. -/
def Promised (w : SocketBase) : Option (List (Occurrence Script)) → Prop
  | none => True
  | some events => Legal w.kernel events ∧ Along (pollEvent scripted) Assumed w.resume events

/-! ## The registry of clients -/

/-- The registry invariant, with the events of the batch that are still to come. -/
structure Sound (w : SocketBase) (pending : List (Occurrence Script)) : Prop where
  running : w.status = .running
  entries : ∀ fd entry, w.clientFds_.find? fd = some entry → ∃ c, entry = some c ∧ c.getFd = fd
  pending : ∀ o ∈ pending, o.event.fd ≠ w.socket_ →
    ∃ c, w.clientFds_.find? o.event.fd = some (some c)
  handlers : ∀ i fd client, .handle i fd client ∈ w.calls → client ≠ none

/-- The event carries an error or a hang-up, or a handler that it calls fails. -/
def Closing (o : Occurrence Script) : Prop :=
  o.event.has EPOLLERR = true ∨ o.event.has EPOLLHUP = true ∨
    (o.event.has EPOLLIN = true ∧ o.outcomes.read.result < 0) ∨
    (o.event.has EPOLLOUT = true ∧ o.outcomes.write.result ≤ 0)

instance (o : Occurrence Script) : Decidable (Closing o) := inferInstanceAs (Decidable (_ ∨ _))

/-- The event removes its own client if it is closing, and no client otherwise. -/
def RemovesClosing (w : SocketBase) (o : Occurrence Script) : Prop :=
  ∀ fd c, w.clientFds_.find? fd = some (some c) →
    if fd = o.event.fd ∧ Closing o then (pollEvent scripted w o).clientFds_.find? fd = none
    else ∃ c', (pollEvent scripted w o).clientFds_.find? fd = some (some c') ∧ c'.id = c.id

/-- In every state of the batch the registry is sound, and every event removes what it
should. -/
def SoundBatch (w : SocketBase) : Option (List (Occurrence Script)) → Prop
  | none => Sound w.resume []
  | some events =>
      Remaining (pollEvent scripted) Sound w.resume events ∧
        Along (pollEvent scripted) RemovesClosing w.resume events

/-- `Sound` made inductive: the registry covers what is registered, and no two events
that are still to come have the same number. -/
structure Pending (w : SocketBase) (pending : List (Occurrence Script)) : Prop where
  registry : SocketBase.Registry w
  held : ∀ o ∈ pending, o.event.fd ≠ w.socket_ →
    ∃ c, w.clientFds_.find? o.event.fd = some (some c)
  nodup : (pending.map fun o => o.event.fd).Nodup
  handlers : ∀ i fd client, .handle i fd client ∈ w.calls → client ≠ none

variable {w : SocketBase} {o : Occurrence Script} {pending : List (Occurrence Script)}

theorem removes_iff : SocketBase.Removes o.event.readiness o.outcomes ↔ Closing o := by
  simp only [SocketBase.Removes, Closing, Event.readiness, Bool.or_eq_true, or_assoc]

theorem Pending.sound (h : Pending w pending) : Sound w pending where
  running := h.registry.running
  entries fd entry found := by
    obtain ⟨c, stored, clientFd, -⟩ := (h.registry.good h.handlers).entries fd entry found
    exact ⟨c, stored, clientFd⟩
  pending := h.held
  handlers := h.handlers

/-- The next event of the batch finds its client. -/
theorem Pending.serve (h : Pending w (o :: pending)) (assumed : Assumed w o) :
    SocketBase.Served w o.event.readiness o.outcomes (pollEvent scripted w o) :=
  h.registry.serve assumed (h.held o List.mem_cons_self)

theorem Pending.pollEvent (h : Pending w (o :: pending)) (assumed : Assumed w o) :
    Pending (pollEvent scripted w o) pending := by
  have served := h.serve assumed
  obtain ⟨first, later⟩ := List.nodup_cons.mp h.nodup
  refine ⟨served.registry, ?_, later, ?_⟩
  · intro o' member client
    rw [served.socket] at client
    obtain ⟨c, entry⟩ := h.held o' (List.mem_cons_of_mem _ member) client
    have other : o'.event.fd ≠ o.event.fd := by
      intro same
      exact first (List.mem_map.mpr ⟨o', member, same⟩)
    have leaves := served.leaves o'.event.fd c entry
    rw [if_neg fun both => other both.1] at leaves
    obtain ⟨c', entry', -⟩ := leaves
    exact ⟨c', entry'⟩
  · intro i fd client member
    obtain before | live := served.calls i fd client member
    · exact h.handlers i fd client before
    · exact live

theorem Pending.removes (h : Pending w (o :: pending)) (assumed : Assumed w o) :
    RemovesClosing w o := by
  intro fd c entry
  have leaves := (h.serve assumed).leaves fd c entry
  simp only [removes_iff] at leaves
  exact leaves

/-- What epoll reports is the listening socket or a client. -/
theorem pending_of_legal (registry : SocketBase.Registry w) (legal : Legal w.kernel pending) :
    Pending w.resume pending where
  registry := registry.resume
  held o member client := by
    obtain ⟨i, on⟩ := legal.registered o member
    exact (registry.covered o.event.fd i on).resolve_left client
  nodup := legal.nodup
  handlers := nofun

theorem registry_pollingHandler {batch : Option (List (Occurrence Script))}
    (registry : SocketBase.Registry w) (promised : Promised w batch) :
    SoundBatch w batch ∧ SocketBase.Registry (pollingHandler scripted w batch) := by
  cases batch with
  | none =>
      have none_left (o : Occurrence Script) : o ∉ [] := List.not_mem_nil
      have start : Pending w.resume [] :=
        ⟨registry.resume, fun o left => absurd left (none_left o), List.nodup_nil, nofun⟩
      exact ⟨start.sound, registry.resume⟩
  | some events =>
      obtain ⟨legal, along⟩ := promised
      have start : Pending w.resume events := pending_of_legal registry legal
      have preserved (w : SocketBase) (o : Occurrence Script) (rest : List (Occurrence Script))
          (h : Pending w (o :: rest)) (assumed : Assumed w o) :
          Pending (pollEvent scripted w o) rest := h.pollEvent assumed
      have remaining : Remaining (pollEvent scripted) Pending w.resume events :=
        Remaining.of_invariant (J := Pending) (P := Assumed) preserved (fun w rest h => h) start
          along
      refine ⟨⟨?_, ?_⟩, remaining.final.registry⟩
      · exact Remaining.of_invariant (J := Pending) (P := Assumed) preserved
          (fun w rest h => h.sound) start along
      · refine remaining.along (P := Assumed) ?_ along
        intro w o rest h assumed
        exact h.removes assumed

/-- In every run from an empty map the registry is sound in every state, between any two
events, and a client is removed by its closing event and by no other. -/
theorem soundBatch_along {batches : List (Option (List (Occurrence Script)))}
    (start : SocketBase.Start w) (promised : Along (pollingHandler scripted) Promised w batches) :
    Along (pollingHandler scripted) SoundBatch w batches := by
  refine Along.of_invariant (I := SocketBase.Registry) ?_ ?_ start.registry promised
  · intro w batch registry promised
    exact (registry_pollingHandler registry promised).2
  · intro w batch registry promised
    exact (registry_pollingHandler registry promised).1

/-- A connection that arrives and is accepted under the number `fd`. -/
def incoming (fd : Int) : Occurrence Script where
  event := { fd := 3, events := EPOLLIN }
  outcomes :=
    { accept := .succeeds fd, read := ⟨[], 0⟩, setWriter := true, write := ⟨[], 0⟩,
      removeWriter := true, close := .succeeds, destroy := .succeeds }

/-- A client that is ready in both directions, with the results of its two handlers. -/
def ready (fd : Int) (read write : Int) : Occurrence Script where
  event := { fd, events := EPOLLIN ||| EPOLLOUT }
  outcomes :=
    { accept := .succeeds 0, read := ⟨[], read⟩, setWriter := true, write := ⟨[], write⟩,
      removeWriter := true, close := .succeeds, destroy := .succeeds }

/-- A client is accepted, served, and closed when a write sends nothing. -/
theorem soundBatch_closed : Along (pollingHandler scripted) SoundBatch SocketBase.listener
    [some [incoming 5], some [ready 5 1 1], some [ready 5 1 0]] := by
  refine soundBatch_along SocketBase.listener_start ?_
  have client (r w : Int) (b : SocketBase) (apart : (5 : Int) ≠ b.socket_) :
      Assumed b (ready 5 r w) := ⟨fun listening => absurd listening apart, rfl, rfl⟩
  refine ⟨⟨⟨by decide, by decide⟩, ?_, trivial⟩, ⟨⟨by decide, by decide⟩, ?_, trivial⟩,
    ⟨⟨by decide, by decide⟩, ?_, trivial⟩, trivial⟩
  · exact ⟨fun _ _ => .inr ⟨by decide, rfl⟩, rfl, rfl⟩
  · exact client 1 1 _ (by decide)
  · exact client 1 0 _ (by decide)

end Epoll

end Mux.Socket
