import Mux.Socket.Holder

/-!
# The client registry

Every entry of the client map should be a connected client stored under its own
descriptor, and every handler should be given a client. The lookup enters a null
pointer for a number without an entry, so this holds exactly as long as no batch
has an event of a number that an earlier event of the batch has closed.
-/

namespace Mux.Socket

open Transition

namespace SocketBase

variable {w w' : SocketBase} {o : Occurrence Script} {k₀ : Kernel} {bound : Nat} {socket_ : Int}
variable {t : Holders}

/-- `accept` fails with `-1` or returns a positive number that was not open, and `close`
closes the descriptor. -/
structure ClientAssumed (w : SocketBase) (o : Occurrence Script) : Prop where
  free : AcceptsFree w o
  positive : o.event.ident = w.socket_ →
    ((ClientSocket.new w.nextId).accept w.kernel o.accept).result ≠ 0
  shutdown : o.close.safetyClose.shutdown = true
  close : o.close.safetyClose.close = true

/-- The registry invariant. -/
structure Good (w : SocketBase) : Prop where
  entries : ∀ fd entry, w.clientFds_.find? fd = some entry →
    ∃ c, entry = some c ∧ c.getFd = fd ∧ c.isConnected_ = true
  calls : ∀ i fd client, .handle i fd client ∈ w.calls → client ≠ none

/-- The invariant before the first event of a batch, after the last one and between any
two of them. -/
def GoodBatch (w : SocketBase) : Option (List (Occurrence Script)) → Prop
  | none => True
  | some events => Throughout (pollEvent scripted) Good w.resume events

/-- The number of a readiness event is held by a connection. -/
def Occupied (socket_ : Int) : Holders → Occurrence Script → Prop
  | none, _ => True
  | some holders, o => o.event.ident ≠ socket_ → holders o.event.ident ≠ .vacant

def OccupiedBatch (w : SocketBase) : Option (List (Occurrence Script)) → Prop
  | none => True
  | some events => Along (Holders.follow w.socket_) (Occupied w.socket_) w.snapshot events

/-- What the registry invariant needs to be inductive: whatever is registered is the
listening socket or a client of the map. -/
structure Registry (w : SocketBase) : Prop where
  running : w.status = .running
  consistent : Consistent w
  filled : ∀ fd, w.clientFds_.find? fd ≠ some none
  positive : ∀ fd c, w.clientFds_.find? fd = some (some c) → 0 < fd
  covered : ∀ fd i, w.kernel.Registered fd i →
    fd = w.socket_ ∨ ∃ c, w.clientFds_.find? fd = some (some c)

theorem Start.registry (h : Start w) : Registry w where
  running := h.running
  consistent := h.consistent
  filled fd := by simp [h.clients]
  positive fd c found := by simp [h.clients] at found
  covered fd i on := .inl (h.registered fd i on)

theorem Registry.sound (h : Registry w) : Sound w :=
  ⟨by simp [h.running], fun _ => h.consistent⟩

theorem Registry.resume (h : Registry w) : Registry w.resume where
  running := (resume_status h.sound.complete).trans h.running
  consistent := h.consistent.resume
  filled := h.filled
  positive := h.positive
  covered := h.covered

theorem Registry.good (h : Registry w)
    (calls : ∀ i fd client, .handle i fd client ∈ w.calls → client ≠ none) : Good w where
  entries fd entry found := by
    cases entry with
    | none => exact absurd found (h.filled fd)
    | some c =>
        have live := h.consistent.clients fd c found
        exact ⟨c, rfl, live.clientFd, live.isConnected⟩
  calls := calls

/-- A new client under a positive number that was free. -/
theorem Registry.admitted (h : Registry w) {calls : AcceptCalls} {later : CloseCalls}
    (positive : 0 < ((ClientSocket.new w.nextId).accept w.kernel calls).result)
    (free : w.kernel.opened ((ClientSocket.new w.nextId).accept w.kernel calls).result = none) :
    Registry (w.acceptClient calls later) := by
  obtain ⟨admitted, unused, k, opened, step⟩ : _ ∧ _ ∧ ∃ k, _ ∧ w.acceptClient calls later = _ :=
    acceptClient_free h.consistent (Int.le_of_lt positive) free
  rw [(ClientSocket.accept_admitted w.nextId w.kernel admitted).1] at positive
  rw [step]
  refine ⟨h.running, h.consistent.admitted unused opened rfl, insert_filled h.filled _ _, ?_, ?_⟩
  · intro fd c found
    obtain ⟨rfl, -⟩ | ⟨-, before⟩ := UnorderedMap.find?_insert_eq_some.mp found
    · exact positive
    · exact h.positive fd c before
  · rintro fd i ⟨d, found, on⟩
    by_cases same : fd = calls.accept
    · exact .inr ⟨_, UnorderedMap.find?_insert_eq_some.mpr (.inl ⟨same, rfl⟩)⟩
    · simp only [opened, Function.update_of_ne same] at found
      obtain listening | ⟨c, client⟩ := h.covered fd i ⟨d, found, on⟩
      · exact .inl listening
      · exact .inr ⟨c, UnorderedMap.find?_insert_eq_some.mpr (.inr ⟨same, client⟩)⟩

theorem Registry.accept (h : Registry w) (listening : o.event.ident = w.socket_)
    (assumed : ClientAssumed w o) : Registry (w.acceptClient o.accept o.destroy) := by
  obtain ⟨rejected, same⟩ | ⟨valid, unused⟩ := assumed.free listening
  · have consistent := h.consistent.accept listening assumed.free
    rw [acceptClient_rejected rejected] at consistent ⊢
    refine ⟨h.running, consistent, h.filled, h.positive, ?_⟩
    rintro fd i ⟨d, found, on⟩
    exact h.covered fd i ⟨d, by rw [← same]; exact found, on⟩
  · have nonzero := assumed.positive listening
    exact h.admitted (by omega) unused

theorem Registry.served (h : Registry w) {fd : Int} {c : ClientSocket}
    (entry : w.clientFds_.find? fd = some (some c)) (i : Interest) (script : Script) :
    Registry (w.served i fd c script) := by
  obtain ⟨-, -, keeps⟩ := (h.consistent.clients fd c entry).served script.ops
  refine ⟨h.running, h.consistent.served entry i script, insert_filled h.filled fd _, ?_, ?_⟩
  · intro x c' found
    obtain ⟨c₀, before⟩ := served_client entry found
    exact h.positive x c₀ before
  · intro x j on
    by_cases same : x = fd
    · exact .inr ⟨_, find?_served.mpr (.inl ⟨same, rfl⟩)⟩
    · have before := (keeps.registered on).resolve_left same
      obtain listening | ⟨c', client⟩ := h.covered x j before
      · exact .inl listening
      · exact .inr ⟨c', find?_served.mpr (.inr ⟨same, client⟩)⟩

/-- Under the assumptions on `close` the number of a client that is closed is free. -/
theorem dropped_closed {c : ClientSocket} (live : Live w.kernel o.event.ident c)
    (positive : 0 < o.event.ident) (i : Interest) (assumed : ClientAssumed w o) :
    (w.dropped i o.event.ident c o).kernel.opened o.event.ident = none := by
  obtain ⟨⟨clientFd, connected, owner⟩, -, -⟩ := live.served o.handler.ops
  have valid : 0 ≤ (c.performAll w.kernel o.handler.ops).1.clientFd_ := by
    rw [clientFd]
    omega
  have isOpen : ((c.performAll w.kernel o.handler.ops).2.opened
      (c.performAll w.kernel o.handler.ops).1.clientFd_).isSome = true := by
    obtain ⟨d, found, -⟩ := Option.map_eq_some_iff.mp owner
    rw [clientFd, found]
    rfl
  obtain ⟨-, -, closed, -⟩ :=
    ClientSocket.close_closed connected valid isOpen assumed.shutdown assumed.close
  rw [clientFd] at closed
  exact closed

theorem Registry.dropped (h : Registry w) {c : ClientSocket}
    (entry : w.clientFds_.find? o.event.ident = some (some c)) (i : Interest)
    (assumed : ClientAssumed w o) : Registry (w.dropped i o.event.ident c o) := by
  have live := h.consistent.clients o.event.ident c entry
  have releases := dropped_releases live i
  have closed := dropped_closed live (h.positive o.event.ident c entry) i assumed
  refine ⟨h.running, h.consistent.dropped entry i, ?_, ?_, ?_⟩
  · exact fun x null => h.filled x (find?_dropped.mp null).2
  · exact fun x c' found => h.positive x c' (find?_dropped.mp found).2
  · intro x j on
    have other : x ≠ o.event.ident := by
      rintro rfl
      exact Kernel.not_registered_of_free closed j on
    obtain listening | ⟨c', client⟩ :=
      (h.served entry i o.handler).covered x j (releases.registered on)
    · exact .inl listening
    · have before := (find?_served.mp client).resolve_left fun same => other same.1
      exact .inr ⟨c', find?_dropped.mpr before⟩

/-- An event of a number that is held keeps the registry. -/
theorem Registry.works (h : Registry w) (works : Works w o w') (assumed : ClientAssumed w o)
    (occupied : o.event.ident ≠ w.socket_ → ¬ w.Vacant o.event.ident) : Registry w' := by
  cases works with
  | accept listening => exact h.accept listening assumed
  | keep i c client entry kept => exact h.served entry i o.handler
  | close i c client entry refused positive => exact h.dropped entry i assumed
  | exit i c w' client entry refused server status calls =>
      have positive := h.positive o.event.ident c entry
      omega
  | idle i client vacant untouched kept => exact absurd vacant (occupied client)
  | crash i w' client vacant touched status calls => exact absurd vacant (occupied client)
  | closeNull i w' client vacant untouched refused status calls =>
      exact absurd vacant (occupied client)

/-- The registry and the holders, between any two events. -/
structure InStep (k₀ : Kernel) (bound : Nat) (socket_ : Int) (w : SocketBase) (t : Holders) :
    Prop where
  registry : Registry w
  follows : Follows k₀ bound socket_ w t
  calls : ∀ i fd client, .handle i fd client ∈ w.calls → client ≠ none

theorem Registry.inStep (h : Registry w) :
    InStep w.kernel w.nextId w.socket_ w.resume w.snapshot :=
  ⟨h.resume, h.sound.follows, nofun⟩

/-- The holders have not ended, and know which numbers are vacant. -/
theorem InStep.following (h : InStep k₀ bound socket_ w t) :
    ∃ holders, t = some holders ∧ Following k₀ bound socket_ w holders := by
  cases t with
  | none => exact absurd h.registry.running h.follows.1
  | some holders => exact ⟨holders, rfl, h.follows⟩

theorem InStep.pollEvent (h : InStep k₀ bound socket_ w t) (ordinary : Ordinary o)
    (assumed : ClientAssumed w o) (occupied : Occupied socket_ t o) :
    InStep k₀ bound socket_ (w.pollEvent scripted o) (Holders.follow socket_ t o) := by
  have follows := h.follows.pollEvent ordinary assumed.free
  obtain ⟨holders, rfl, following⟩ := h.following
  obtain ⟨valid, i, filter⟩ := ordinary
  have works := pollEvent_works h.registry.running valid filter
  have held (client : o.event.ident ≠ w.socket_) : ¬ w.Vacant o.event.ident := by
    rw [(following.held o.event.ident).vacant_iff]
    exact occupied (following.socket ▸ client)
  refine ⟨h.registry.works works assumed held, follows, ?_⟩
  intro i fd client member
  obtain earlier | ⟨other, ⟨c, -, ⟨j, called⟩ | ⟨c', -, called⟩⟩ | ⟨vacant, -⟩⟩ :=
    works.added member
  · exact h.calls i fd client earlier
  · cases called
    exact nofun
  · cases called
  · exact absurd vacant (held other)

/-- An event of a vacant number hands a null pointer to a handler. -/
theorem InStep.not_good (h : InStep k₀ bound socket_ w t) (ordinary : Ordinary o)
    (stale : ¬ Occupied socket_ t o) : ¬ Good (w.pollEvent scripted o) := by
  intro good
  obtain ⟨holders, rfl, following⟩ := h.following
  obtain ⟨valid, i, filter⟩ := ordinary
  refine stale fun client vacant => ?_
  have works := pollEvent_works h.registry.running valid filter
  have client' : o.event.ident ≠ w.socket_ := following.socket ▸ client
  have vacant' := (following.held o.event.ident).vacant_iff.mpr vacant
  obtain ⟨i, c, entry, -⟩ | ⟨-, i, called⟩ := works.handles client'
  · exact vacant'.not_client entry
  · exact good.calls i o.event.ident none called rfl

theorem goodBatch_iff (h : Registry w) {batch : Option (List (Occurrence Script))}
    (promised : Promised ClientAssumed w batch) : GoodBatch w batch ↔ OccupiedBatch w batch := by
  cases batch with
  | none => exact Iff.rfl
  | some events =>
      refine throughout_iff_along (A := fun w o => Ordinary o ∧ ClientAssumed w o)
        (R := InStep w.kernel w.nextId w.socket_)
        (fun w' t inStep => inStep.registry.good inStep.calls) ?_ ?_ h.inStep
        (promised.2.and_mem promised.1.ordinary)
      · intro w' t o inStep ⟨ordinary, assumed⟩ occupied
        exact inStep.pollEvent ordinary assumed occupied
      · intro w' t o inStep ⟨ordinary, _⟩ stale
        exact inStep.not_good ordinary stale

theorem Registry.pollingHandler (h : Registry w) {batch : Option (List (Occurrence Script))}
    (promised : Promised ClientAssumed w batch) (occupied : OccupiedBatch w batch) :
    Registry (w.pollingHandler scripted batch) := by
  cases batch with
  | none => exact h.resume
  | some events =>
      have final : InStep w.kernel w.nextId w.socket_ (w.pollingHandler scripted (some events))
          (run (Holders.follow w.socket_) w.snapshot events) := by
        refine run_simulation (A := fun w o => Ordinary o ∧ ClientAssumed w o)
          (C := Occupied w.socket_) ?_ h.inStep (promised.2.and_mem promised.1.ordinary) occupied
        intro w' t o inStep ⟨ordinary, assumed⟩ occupied
        exact inStep.pollEvent ordinary assumed occupied
      exact final.registry

/-- In every run from an empty map the registry invariant holds in every state, between
any two events, exactly when no batch has an event of a number that has lost its
connection earlier in the batch and not been given to another one. -/
theorem good_iff_occupied {batches : List (Option (List (Occurrence Script)))} (start : Start w)
    (promised : Along (pollingHandler scripted) (Promised ClientAssumed) w batches) :
    Along (pollingHandler scripted) GoodBatch w batches ↔
      Along (pollingHandler scripted) OccupiedBatch w batches := by
  refine along_iff_along (I := Registry) (fun w batch registry => goodBatch_iff registry) ?_
    start.registry promised
  intro w batch registry promised occupied
  exact registry.pollingHandler promised occupied

theorem ClientAssumed.client (client : o.event.ident ≠ w.socket_)
    (shutdown : o.close.safetyClose.shutdown = true) (close : o.close.safetyClose.close = true) :
    ClientAssumed w o where
  free := .client client
  positive listening := absurd listening client
  shutdown := shutdown
  close := close

/-- A client is accepted, served, and closed when a read fails. -/
theorem good_closed : Along (pollingHandler scripted) GoodBatch listener
    [some [incoming 5], some [ready 5 .write 1, ready 5 .read (-1)]] := by
  refine (good_iff_occupied listener_start ?_).mpr ?_
  · refine ⟨⟨by decide, ?_, trivial⟩, ⟨by decide, ?_, ?_, trivial⟩, trivial⟩
    · exact ⟨fun _ => .inr ⟨by decide, rfl⟩, fun _ => by decide, rfl, rfl⟩
    · exact .client (by decide) rfl rfl
    · exact .client (by decide) rfl rfl
  · exact ⟨⟨fun client => absurd rfl client, trivial⟩,
      ⟨fun _ => by decide, fun _ => by decide, trivial⟩, trivial⟩

/-- The client under 5 is ready for reading and for writing in one batch, and the read
fails. -/
def stale : List (Option (List (Occurrence Script))) :=
  [some [incoming 5], some [ready 5 .read (-1), ready 5 .write 1]]

/-- The write handler is given a null pointer, and the map an entry without a client. -/
theorem stale_not_good :
    Start listener ∧ Along (pollingHandler scripted) (Promised ClientAssumed) listener stale ∧
      ¬ Along (pollingHandler scripted) GoodBatch listener stale := by
  refine ⟨listener_start, ?_, ?_⟩
  · refine ⟨⟨by decide, ?_, trivial⟩, ⟨by decide, ?_, ?_, trivial⟩, trivial⟩
    · exact ⟨fun _ => .inr ⟨by decide, rfl⟩, fun _ => by decide, rfl, rfl⟩
    · exact .client (by decide) rfl rfl
    · exact .client (by decide) rfl rfl
  · rintro ⟨-, ⟨-, -, good⟩, -⟩
    exact good.calls .write 5 none (by decide) rfl

end SocketBase

end Mux.Socket
