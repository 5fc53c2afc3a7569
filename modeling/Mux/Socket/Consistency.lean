import Mux.Socket.Server

/-!
# Runs of the server

A run takes the batches that the kernel returns one after the other. A batch is
legal when it holds events of registered descriptor and filter pairs only, each
pair at most once. What is promised about the system calls of an event depends
on the state in which it is worked off. In every run in which `accept` returns
free numbers only, each client in the map stays the owner of its descriptor.
-/

namespace Mux.Socket

open Transition

namespace SocketBase

/-- A listening server before its first batch: nothing but the listening socket is
registered. -/
structure Start (w : SocketBase) : Prop where
  clients : w.clientFds_ = .empty
  running : w.status = .running
  listening : w.kernel.owner w.socket_ ≠ none
  registered : ∀ fd i, w.kernel.Registered fd i → fd = w.socket_
  conns : ∀ fd n, w.kernel.owner fd = some n → n < w.nextId

/-- The events that the kernel may return together. -/
structure Legal {χ : Type} (k : Kernel) (events : List (Occurrence χ)) : Prop where
  numbers : ∀ o ∈ events, 0 ≤ o.event.ident
  registered : ∀ o ∈ events, ∃ i, o.event.filter = .interest i ∧ k.Registered o.event.ident i
  nodup : (events.map fun o => (o.event.ident, o.event.filter)).Nodup

instance {χ : Type} (k : Kernel) (events : List (Occurrence χ)) : Decidable (Legal k events) :=
  decidable_of_iff
    ((∀ o ∈ events, 0 ≤ o.event.ident) ∧
      (∀ o ∈ events, ∃ i, o.event.filter = .interest i ∧ k.Registered o.event.ident i) ∧
      (events.map fun o => (o.event.ident, o.event.filter)).Nodup)
    ⟨fun h => ⟨h.1, h.2.1, h.2.2⟩, fun h => ⟨h.numbers, h.registered, h.nodup⟩⟩

def LegalBatch {χ : Type} (w : SocketBase) : Option (List (Occurrence χ)) → Prop
  | none => True
  | some events => Legal w.kernel events

instance {χ : Type} (w : SocketBase) : (batch : Option (List (Occurrence χ))) →
    Decidable (LegalBatch w batch)
  | none => .isTrue trivial
  | some events => inferInstanceAs (Decidable (Legal w.kernel events))

/-- A legal batch each event of which meets `A` when it is worked off. -/
def Promised (A : SocketBase → Occurrence Script → Prop) (w : SocketBase) :
    Option (List (Occurrence Script)) → Prop
  | none => True
  | some events => Legal w.kernel events ∧ Along (pollEvent scripted) A w.resume events

/-- A readiness event of a number that a descriptor can have. -/
def Ordinary (o : Occurrence Script) : Prop :=
  o.event.ident ≠ -1 ∧ ∃ i, o.event.filter = .interest i

/-- `accept` fails and leaves the descriptor table as it was, or it returns a number
that was not open. -/
def AcceptsFree (w : SocketBase) (o : Occurrence Script) : Prop :=
  o.event.ident = w.socket_ →
    let accepted := (ClientSocket.new w.nextId).accept w.kernel o.accept
    (accepted.result = -1 ∧
        (accepted.client.destroy accepted.kernel o.destroy).opened = w.kernel.opened) ∨
      (0 ≤ accepted.result ∧ w.kernel.opened accepted.result = none)

theorem AcceptsFree.client {w : SocketBase} {o : Occurrence Script}
    (client : o.event.ident ≠ w.socket_) : AcceptsFree w o :=
  fun listening => absurd listening client

/-- A client in the map: it is connected, and its descriptor is the key and names
its connection. -/
structure Live (k : Kernel) (fd : Int) (c : ClientSocket) : Prop where
  clientFd : c.clientFd_ = fd
  isConnected : c.isConnected_ = true
  owner : k.owner fd = some c.id

structure Consistent (w : SocketBase) : Prop where
  clients : ∀ fd c, w.clientFds_.find? fd = some (some c) → Live w.kernel fd c
  apart : ∀ fd c, w.clientFds_.find? fd = some (some c) → fd ≠ w.socket_
  listening : w.kernel.owner w.socket_ ≠ none
  conns : ∀ fd n, w.kernel.owner fd = some n → n < w.nextId

variable {w : SocketBase} {o : Occurrence Script}

theorem Start.consistent (h : Start w) : Consistent w where
  clients fd c found := by simp [h.clients] at found
  apart fd c found := by simp [h.clients] at found
  listening := h.listening
  conns := h.conns

theorem resume_status (h : w.status ≠ .returned) : w.resume.status = w.status := if_neg h

theorem Consistent.resume (h : Consistent w) : Consistent w.resume :=
  ⟨h.clients, h.apart, h.listening, h.conns⟩

theorem Legal.ordinary {k : Kernel} {events : List (Occurrence Script)} (legal : Legal k events) :
    ∀ o ∈ events, Ordinary o := by
  intro o member
  have number := legal.numbers o member
  obtain ⟨i, filter, -⟩ := legal.registered o member
  exact ⟨by omega, i, filter⟩

/-! ## One event -/

/-- Everything but the registrations of the client's descriptor and its flags is as
before the handler. -/
theorem Live.served {k : Kernel} {fd : Int} {c : ClientSocket} (live : Live k fd c)
    (ops : List ClientSocket.Operation) :
    Live (c.performAll k ops).2 fd (c.performAll k ops).1 ∧
      (c.performAll k ops).1.id = c.id ∧ k.Keeps fd (c.performAll k ops).2 := by
  have frame := c.performAll_local k ops
  have keeps := frame.keeps
  rw [live.clientFd] at keeps
  refine ⟨⟨frame.fd.trans live.clientFd, frame.connected.trans live.isConnected, ?_⟩, frame.id,
    keeps⟩
  rw [keeps.owner, live.owner, frame.id]

/-- A free number that `accept` returns is the one `::accept` returned; no client is
under it, so that nothing is dropped. -/
theorem acceptClient_free (h : Consistent w) {calls : AcceptCalls} {later : CloseCalls}
    (valid : 0 ≤ ((ClientSocket.new w.nextId).accept w.kernel calls).result)
    (free : w.kernel.opened ((ClientSocket.new w.nextId).accept w.kernel calls).result = none) :
    calls.admitted = true ∧ w.kernel.opened calls.accept = none ∧
    ∃ k, k.opened = Function.update w.kernel.opened calls.accept
        (some { accepted w.nextId with readable := true, writable := true }) ∧
      w.acceptClient calls later = { w with
        nextId := w.nextId + 1
        clientFds_ := w.clientFds_.insert calls.accept
          (some (ClientSocket.established w.nextId calls.accept))
        kernel := k } := by
  have admitted := ClientSocket.accept_fresh valid free
  obtain ⟨result, client, opened⟩ := ClientSocket.accept_admitted w.nextId w.kernel admitted
  rw [result] at valid free
  refine ⟨admitted, free, _, opened, ?_⟩
  have former (c : ClientSocket) : w.clientFds_.find? calls.accept ≠ some (some c) := by
    intro found
    have owner := (h.clients calls.accept c found).owner
    simp [Kernel.owner, free] at owner
  have returned : calls.accept ≠ -1 := by omega
  -- `former` selects the branch that drops nothing
  simp only [acceptClient, result, client, if_neg returned]

/-- An event of the listening socket that changes no descriptor. -/
theorem Consistent.rejected (h : Consistent w) {k : Kernel} (same : k.opened = w.kernel.opened) :
    Consistent { w with nextId := w.nextId + 1, kernel := k } := by
  have owners : k.owner = w.kernel.owner := by
    funext fd
    simp only [Kernel.owner, same]
  refine ⟨?_, h.apart, ?_, ?_⟩
  · intro fd c found
    obtain ⟨clientFd, connected, owner⟩ := h.clients fd c found
    exact ⟨clientFd, connected, (congrFun owners fd).trans owner⟩
  · simp only [owners]
    exact h.listening
  · intro fd n owner
    exact Nat.lt_succ_of_lt (h.conns fd n ((congrFun owners fd).symm.trans owner))

/-- A new client under a number that was free. -/
theorem Consistent.admitted (h : Consistent w) {fd : Int} {k : Kernel} {d : Descriptor}
    (free : w.kernel.opened fd = none)
    (opened : k.opened = Function.update w.kernel.opened fd (some d)) (conn : d.conn = w.nextId) :
    Consistent { w with
      nextId := w.nextId + 1
      clientFds_ := w.clientFds_.insert fd (some (ClientSocket.established w.nextId fd))
      kernel := k } := by
  have owner_self : k.owner fd = some w.nextId := by simp [Kernel.owner, opened, conn]
  have owner_other (x : Int) (other : x ≠ fd) : k.owner x = w.kernel.owner x := by
    simp only [Kernel.owner, opened, Function.update_of_ne other]
  have apart : w.socket_ ≠ fd := by
    intro same
    have listening := h.listening
    simp [Kernel.owner, same, free] at listening
  refine ⟨?_, ?_, ?_, ?_⟩
  · intro x c found
    obtain ⟨rfl, stored⟩ | ⟨other, before⟩ := UnorderedMap.find?_insert_eq_some.mp found
    · obtain rfl := Option.some.inj stored
      exact ⟨rfl, rfl, owner_self⟩
    · obtain ⟨clientFd, connected, owner⟩ := h.clients x c before
      exact ⟨clientFd, connected, (owner_other x other).trans owner⟩
  · intro x c found
    obtain ⟨same, -⟩ | ⟨-, before⟩ := UnorderedMap.find?_insert_eq_some.mp found
    · rw [same]
      exact apart.symm
    · exact h.apart x c before
  · simp only [owner_other _ apart]
    exact h.listening
  · intro x n owner
    by_cases same : x = fd
    · subst same
      obtain rfl := Option.some.inj (owner_self.symm.trans owner)
      exact Nat.lt_succ_self _
    · exact Nat.lt_succ_of_lt (h.conns x n ((owner_other x same).symm.trans owner))

theorem Consistent.accept (h : Consistent w) (listening : o.event.ident = w.socket_)
    (free : AcceptsFree w o) : Consistent (w.acceptClient o.accept o.destroy) := by
  obtain ⟨rejected, same⟩ | ⟨valid, unused⟩ := free listening
  · rw [acceptClient_rejected rejected]
    exact h.rejected same
  · obtain ⟨-, unused, k, opened, accepted⟩ := acceptClient_free h valid unused
    rw [accepted]
    exact h.admitted unused opened rfl

theorem Consistent.served (h : Consistent w) {fd : Int} {c : ClientSocket}
    (entry : w.clientFds_.find? fd = some (some c)) (i : Interest) (script : Script) :
    Consistent (w.served i fd c script) := by
  obtain ⟨live, -, keeps⟩ := (h.clients fd c entry).served script.ops
  have owners : (w.served i fd c script).kernel.owner = w.kernel.owner := keeps.owners
  refine ⟨?_, ?_, ?_, ?_⟩
  · intro x c' found
    obtain ⟨rfl, stored⟩ | ⟨-, before⟩ := find?_served.mp found
    · obtain rfl := Option.some.inj stored
      exact live
    · obtain ⟨clientFd, connected, owner⟩ := h.clients x c' before
      exact ⟨clientFd, connected, (congrFun owners x).trans owner⟩
  · intro x c' found
    obtain ⟨c₀, before⟩ := served_client entry found
    exact h.apart x c₀ before
  · rw [owners]
    exact h.listening
  · intro x n owner
    rw [owners] at owner
    exact h.conns x n owner

/-- Closing a client changes no other number. -/
theorem dropped_releases {c : ClientSocket} (live : Live w.kernel o.event.ident c) (i : Interest) :
    (w.served i o.event.ident c o.handler).kernel.Releases o.event.ident
      (w.dropped i o.event.ident c o).kernel := by
  obtain ⟨⟨clientFd, -, -⟩, -, -⟩ := live.served o.handler.ops
  have releases := (c.performAll w.kernel o.handler.ops).1.close_releases
    (c.performAll w.kernel o.handler.ops).2 o.close
  rw [clientFd] at releases
  exact releases

theorem Consistent.dropped (h : Consistent w) {c : ClientSocket}
    (entry : w.clientFds_.find? o.event.ident = some (some c)) (i : Interest) :
    Consistent (w.dropped i o.event.ident c o) := by
  have served := h.served entry i o.handler
  have releases := dropped_releases (h.clients o.event.ident c entry) i
  have kept {x : Int} {c' : ClientSocket}
      (found : (w.dropped i o.event.ident c o).clientFds_.find? x = some (some c')) :
      x ≠ o.event.ident ∧
        (w.served i o.event.ident c o.handler).clientFds_.find? x = some (some c') := by
    obtain ⟨other, before⟩ := find?_dropped.mp found
    exact ⟨other, find?_served.mpr (.inr ⟨other, before⟩)⟩
  refine ⟨?_, ?_, ?_, ?_⟩
  · intro x c' found
    obtain ⟨other, before⟩ := kept found
    obtain ⟨clientFd, connected, owner⟩ := served.clients x c' before
    exact ⟨clientFd, connected, (releases.owner_ne other).trans owner⟩
  · intro x c' found
    exact served.apart x c' (kept found).2
  · have apart := h.apart o.event.ident c entry
    have same : (w.dropped i o.event.ident c o).kernel.owner w.socket_ =
        (w.served i o.event.ident c o.handler).kernel.owner w.socket_ :=
      releases.owner_ne apart.symm
    exact same ▸ served.listening
  · intro x n owner
    exact served.conns x n (releases.inherited owner)

theorem Consistent.idled (h : Consistent w) (i : Interest) (fd : Int) :
    Consistent (w.idled i fd) where
  clients x c found := h.clients x c (idled_client found)
  apart x c found := h.apart x c (idled_client found)
  listening := h.listening
  conns := h.conns

/-! ## Batches -/

/-- An invariant of single events holds after every promised batch. `E` is what an
event of a legal batch satisfies, in whatever state it is worked off. -/
theorem pollingHandler_preserves {I : SocketBase → Prop} {A : SocketBase → Occurrence Script → Prop}
    {E : Occurrence Script → Prop} (resume : ∀ w, I w → I w.resume)
    (legal : ∀ w events, I w → Legal w.kernel events → ∀ o ∈ events, E o)
    (event : ∀ w o, I w → E o → A w o → I (w.pollEvent scripted o)) {w : SocketBase}
    {batch : Option (List (Occurrence Script))} (start : I w) (promised : Promised A w batch) :
    I (w.pollingHandler scripted batch) := by
  cases batch with
  | none => exact resume w start
  | some events =>
      refine run_invariant (P := fun w o => E o ∧ A w o) ?_ (resume w start)
        (promised.2.and_mem (legal w events start promised.1))
      intro w o inv ⟨ordinary, allowed⟩
      exact event w o inv ordinary allowed

/-- A server whose batch was not ended early is consistent while it runs. -/
structure Sound (w : SocketBase) : Prop where
  complete : w.status ≠ .returned
  consistent : w.status = .running → Consistent w

theorem Sound.stopped (complete : w.status ≠ .returned) (stopped : w.status ≠ .running) : Sound w :=
  ⟨complete, fun running => absurd running stopped⟩

theorem Start.sound (h : Start w) : Sound w :=
  ⟨by simp [h.running], fun _ => h.consistent⟩

theorem Sound.resume (h : Sound w) : Sound w.resume where
  complete := by
    rw [resume_status h.complete]
    exact h.complete
  consistent running := by
    rw [resume_status h.complete] at running
    exact (h.consistent running).resume

/-- Whatever an ordinary event does, it keeps the server consistent or ends it. -/
theorem Works.sound {w' : SocketBase} (works : Works w o w') (h : Consistent w)
    (running : w.status = .running) (free : AcceptsFree w o) : Sound w' := by
  have complete : w.status ≠ .returned := by simp [running]
  cases works with
  | accept listening =>
      rw [← (w.acceptClient_frame o.accept o.destroy).2.1] at complete
      exact ⟨complete, fun _ => h.accept listening free⟩
  | keep i c client entry kept =>
      exact ⟨complete, fun _ => h.served entry i o.handler⟩
  | close i c client entry refused positive =>
      exact ⟨complete, fun _ => h.dropped entry i⟩
  | exit i c w' client entry refused server status calls =>
      exact .stopped (by simp [status]) (by simp [status])
  | idle i client vacant untouched kept =>
      exact ⟨complete, fun _ => h.idled i o.event.ident⟩
  | crash i w' client vacant touched status calls =>
      exact .stopped (by simp [status]) (by simp [status])
  | closeNull i w' client vacant untouched refused status calls =>
      by_cases positive : 0 < o.event.ident
      · exact .stopped (by simp [status, positive]) (by simp [status, positive])
      · exact .stopped (by simp [status, positive]) (by simp [status, positive])

theorem Sound.pollEvent (h : Sound w) (ordinary : Ordinary o) (free : AcceptsFree w o) :
    Sound (w.pollEvent scripted o) := by
  by_cases running : w.status = .running
  · obtain ⟨valid, i, filter⟩ := ordinary
    exact (pollEvent_works running valid filter).sound (h.consistent running) running free
  · rw [pollEvent_stopped running]
    exact h

/-! ## A small server -/

/-- A server that listens on the descriptor 3. -/
def listener : SocketBase where
  socket_ := 3
  clientFds_ := .empty
  kernel :=
    { opened :=
        Function.update (fun _ => none) 3
          (some { conn := 0, nonblocking := true, readable := true, writable := true }) }
  nextId := 1

theorem listener_start : Start listener where
  clients := rfl
  running := rfl
  listening := by decide
  registered fd i on := by
    obtain ⟨d, found, -⟩ := on
    by_contra other
    simp only [listener] at found other
    rw [Function.update_of_ne other] at found
    cases found
  conns fd n owner := by
    by_cases same : fd = 3
    · subst same
      have first : listener.kernel.owner 3 = some 0 := rfl
      obtain rfl := Option.some.inj (first.symm.trans owner)
      decide
    · simp [Kernel.owner, listener, Function.update_of_ne same] at owner

/-- The server with one client, under the number 5. -/
def serving : SocketBase := listener.acceptClient (.succeeds 5) .succeeds

theorem serving_entry {fd : Int} {entry : ClientPtr}
    (found : serving.clientFds_.find? fd = some entry) :
    fd = 5 ∧ entry = some (ClientSocket.established 1 5) := by
  have map : serving.clientFds_ =
      UnorderedMap.empty.insert 5 (some (ClientSocket.established 1 5)) := rfl
  rw [map] at found
  obtain ⟨same, stored⟩ | ⟨-, impossible⟩ := UnorderedMap.find?_insert_eq_some.mp found
  · exact ⟨same, stored.symm⟩
  · simp at impossible

/-- A connection that arrives and is accepted under the number `fd`. -/
def incoming (fd : Int) : Occurrence Script where
  event := { ident := 3, filter := .interest .read }
  accept := .succeeds fd
  handler := ⟨[], 0⟩
  close := .succeeds
  destroy := .succeeds

/-- A descriptor is ready, and the handler does nothing but return `result`. -/
def ready (fd : Int) (i : Interest) (result : Int) : Occurrence Script where
  event := { ident := fd, filter := .interest i }
  accept := .succeeds 0
  handler := ⟨[], result⟩
  close := .succeeds
  destroy := .succeeds

end SocketBase

end Mux.Socket
