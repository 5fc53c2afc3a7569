import Mux.Socket.Consistency

/-!
# What can stop the server

`closeSocket` takes every number that is not positive for the server. A client
event can name such a number only when the descriptor 0 is registered, and only
`accept` registers it: when the kernel hands out 0 itself, or when
`defaultAcception` gives up on a connection and hands out the `0` that
`safetyClose` returned. As long as neither happens, no client event ends the
program, whatever the system calls and the handlers return.
-/

namespace Mux.Socket

open Transition

namespace SocketBase

variable {w w' : SocketBase} {o : Occurrence Script} {socket_ : Int}

/-- The event makes `accept` register the descriptor 0. -/
def RegistersZero (w : SocketBase) (o : Occurrence Script) : Prop :=
  o.event.ident = w.socket_ ∧ o.accept.addReader = true ∧
    ((o.accept.configured = true ∧ o.accept.accept = 0) ∨
      (o.accept.abandoned = true ∧ o.accept.accept ≠ 0 ∧ (w.kernel.opened 0).isSome = true))

/-- The server has not taken its own close branch for anything but `closeSocket(-1)`. -/
def OnlyExplicit (w : SocketBase) : Prop := ∀ client, w.status = .exited client → client = -1

def OnlyExplicitBatch (w : SocketBase) : Option (List (Occurrence Script)) → Prop
  | none => True
  | some events => Throughout (pollEvent scripted) OnlyExplicit w.resume events

/-- The numbers that an event or a client can have. -/
structure Positive (socket_ : Int) (w : SocketBase) : Prop where
  socket : w.socket_ = socket_
  registered : ∀ fd i, w.kernel.Registered fd i → fd = socket_ ∨ 0 < fd
  clients : ∀ fd c, w.clientFds_.find? fd = some (some c) → 0 < c.clientFd_

theorem Start.positive (h : Start w) : Positive w.socket_ w where
  socket := rfl
  registered fd i on := .inl (h.registered fd i on)
  clients fd c found := by simp [h.clients] at found

/-- What `defaultAcception` hands out is positive when it can be registered. -/
theorem handed_positive {n : Int} {k₁ : Kernel} (listening : o.event.ident = w.socket_)
    (h : ¬ RegistersZero w o) (handed : defaultAcception w.kernel w.nextId o.accept = (n, k₁))
    (returned : n ≠ -1) (addReader : o.accept.addReader = true)
    (live : (k₁.opened n).isSome = true) : 0 < n := by
  have acception := defaultAcception_acception w.kernel w.nextId o.accept
  rw [handed] at acception
  obtain failed | ⟨configured, valid⟩ | ⟨abandoned, zero, opened⟩ := acception.result
  · exact absurd failed returned
  · have same : n = o.accept.accept := (Prod.mk.inj (acception.of_configured configured)).1
    have nonzero : o.accept.accept ≠ 0 := by
      intro zero
      exact h ⟨listening, addReader, .inl ⟨configured, zero⟩⟩
    omega
  · simp only at zero opened
    subst zero
    refine absurd ⟨listening, addReader, .inr ⟨abandoned, ?_, ?_⟩⟩ h
    · intro same
      rw [opened, same, Function.update_self] at live
      cases live
    · by_cases same : (0 : Int) = o.accept.accept
      · rw [opened, ← same, Function.update_self] at live
        cases live
      · rwa [opened, Function.update_of_ne same] at live

theorem Positive.accept (h : Positive socket_ w) (listening : o.event.ident = w.socket_)
    (nonzero : ¬ RegistersZero w o) :
    Positive socket_ (w.acceptClient o.accept o.destroy) := by
  rcases handed : defaultAcception w.kernel w.nextId o.accept with ⟨n, k₁⟩
  have registered {x : Int} {i : Interest}
      (on : ((ClientSocket.new w.nextId).accept w.kernel o.accept).kernel.Registered x i) :
      x = socket_ ∨ 0 < x := by
    obtain before | ⟨rfl, returned, addReader, live⟩ := ClientSocket.accept_registered handed on
    · exact h.registered x i before
    · exact .inr (handed_positive listening nonzero handed returned addReader live)
  by_cases rejected : ((ClientSocket.new w.nextId).accept w.kernel o.accept).result = -1
  · rw [acceptClient_rejected rejected]
    refine ⟨h.socket, fun fd i on => ?_, h.clients⟩
    exact registered ((ClientSocket.destroy_releases _ _ _).registered on)
  · obtain ⟨addReader, -, number, client, d, live, -⟩ :=
      ClientSocket.accept_returned handed rejected
    have positive : 0 < n := by
      refine handed_positive listening nonzero handed ?_ addReader (by rw [live]; rfl)
      rw [← number]
      exact rejected
    obtain ⟨k, kernel, stored⟩ := acceptClient_stored o.destroy rejected
    rw [stored]
    refine ⟨h.socket, ?_, ?_⟩
    · intro fd i on
      obtain rfl | ⟨former, -, rfl⟩ := kernel
      · exact registered on
      · exact registered ((ClientSocket.destroy_releases _ _ _).registered on)
    · intro fd c found
      rw [number, client] at found
      obtain ⟨-, stored⟩ | ⟨-, before⟩ := UnorderedMap.find?_insert_eq_some.mp found
      · obtain rfl := Option.some.inj stored
        exact positive
      · exact h.clients fd c before

theorem Positive.served (h : Positive socket_ w) {fd : Int} {c : ClientSocket}
    (entry : w.clientFds_.find? fd = some (some c)) (i : Interest) (script : Script) :
    Positive socket_ (w.served i fd c script) := by
  have frame := c.performAll_local w.kernel script.ops
  have positive := h.clients fd c entry
  refine ⟨h.socket, ?_, ?_⟩
  · intro x j on
    obtain same | before := frame.keeps.registered on
    · exact .inr (by rw [same]; exact positive)
    · exact h.registered x j before
  · intro x c' found
    obtain ⟨-, stored⟩ | ⟨-, before⟩ := find?_served.mp found
    · obtain rfl := Option.some.inj stored
      rw [frame.fd]
      exact positive
    · exact h.clients x c' before

theorem Positive.dropped (h : Positive socket_ w) {c : ClientSocket}
    (entry : w.clientFds_.find? o.event.ident = some (some c)) (i : Interest) :
    Positive socket_ (w.dropped i o.event.ident c o) := by
  have served := h.served entry i o.handler
  refine ⟨h.socket, ?_, ?_⟩
  · intro x j on
    exact served.registered x j ((ClientSocket.close_releases _ _ _).registered on)
  · intro x c' found
    exact h.clients x c' (find?_dropped.mp found).2

theorem Positive.idled (h : Positive socket_ w) (i : Interest) (fd : Int) :
    Positive socket_ (w.idled i fd) where
  socket := h.socket
  registered := h.registered
  clients x c found := h.clients x c (idled_client found)

/-- A running server has registered positive numbers only, and one that ended was not
ended by a client. -/
structure Guarded (socket_ : Int) (w : SocketBase) : Prop where
  complete : w.status ≠ .returned
  explicit : OnlyExplicit w
  positive : w.status = .running → Positive socket_ w

theorem Start.guarded (h : Start w) : Guarded w.socket_ w where
  complete := by simp [h.running]
  explicit client exited := by simp [h.running] at exited
  positive _ := h.positive

theorem Guarded.resume (h : Guarded socket_ w) : Guarded socket_ w.resume where
  complete := by
    rw [resume_status h.complete]
    exact h.complete
  explicit client exited := by
    rw [resume_status h.complete] at exited
    exact h.explicit client exited
  positive running := by
    rw [resume_status h.complete] at running
    have positive := h.positive running
    exact ⟨positive.socket, positive.registered, positive.clients⟩

theorem Positive.guarded (h : Positive socket_ w) (running : w.status = .running) :
    Guarded socket_ w where
  complete := by simp [running]
  explicit client exited := by simp [running] at exited
  positive _ := h

theorem Guarded.crashed (h : w.status = .crashed) : Guarded socket_ w where
  complete := by simp [h]
  explicit client exited := by simp [h] at exited
  positive running := by simp [h] at running

theorem Positive.works (h : Positive socket_ w) (running : w.status = .running)
    (works : Works w o w') (number : o.event.ident = socket_ ∨ 0 < o.event.ident)
    (nonzero : ¬ RegistersZero w o) : Guarded socket_ w' := by
  have positive (client : o.event.ident ≠ w.socket_) : 0 < o.event.ident :=
    number.resolve_left fun same => client (same.trans h.socket.symm)
  cases works with
  | accept listening =>
      refine (h.accept listening nonzero).guarded ?_
      exact (w.acceptClient_frame o.accept o.destroy).2.1.trans running
  | keep i c client entry kept => exact (h.served entry i o.handler).guarded running
  | close i c client entry refused _ => exact (h.dropped entry i).guarded running
  | exit i c w' client entry refused server status calls =>
      have client := positive client
      omega
  | idle i client vacant untouched kept => exact (h.idled i o.event.ident).guarded running
  | crash i w' client vacant touched status calls => exact .crashed status
  | closeNull i w' client vacant untouched refused status calls =>
      rw [if_pos (positive client)] at status
      exact .crashed status

theorem Guarded.pollEvent (h : Guarded socket_ w) (ordinary : Ordinary o)
    (number : o.event.ident = socket_ ∨ 0 < o.event.ident) (nonzero : ¬ RegistersZero w o) :
    Guarded socket_ (w.pollEvent scripted o) := by
  by_cases running : w.status = .running
  · obtain ⟨valid, i, filter⟩ := ordinary
    exact (h.positive running).works running (pollEvent_works running valid filter) number nonzero
  · rw [pollEvent_stopped running]
    exact h

/-- The environment of a batch: any outcome of any system call, as long as `accept`
does not register the descriptor 0. -/
def Unzeroed : SocketBase → Option (List (Occurrence Script)) → Prop :=
  Promised fun w o => ¬ RegistersZero w o

/-- The events of a batch name the listening socket or a positive number. -/
theorem Positive.numbers (h : Positive socket_ w) {events : List (Occurrence Script)}
    (legal : Legal w.kernel events) :
    ∀ o ∈ events, Ordinary o ∧ (o.event.ident = socket_ ∨ 0 < o.event.ident) := by
  intro o member
  obtain ⟨i, -, on⟩ := legal.registered o member
  exact ⟨legal.ordinary o member, h.registered o.event.ident i on⟩

theorem Guarded.batch (h : Guarded socket_ w) {batch : Option (List (Occurrence Script))}
    (promised : Unzeroed w batch) :
    OnlyExplicitBatch w batch ∧ Guarded socket_ (w.pollingHandler scripted batch) := by
  cases batch with
  | none => exact ⟨trivial, h.resume⟩
  | some events =>
      by_cases running : w.status = .running
      · have promises := promised.2.and_mem ((h.positive running).numbers promised.1)
        have event (w : SocketBase) (o : Occurrence Script) (guarded : Guarded socket_ w)
            (allowed : (Ordinary o ∧ (o.event.ident = socket_ ∨ 0 < o.event.ident)) ∧
              ¬ RegistersZero w o) : Guarded socket_ (w.pollEvent scripted o) :=
          guarded.pollEvent allowed.1.1 allowed.1.2 allowed.2
        exact ⟨.of_invariant event (fun w guarded => guarded.explicit) h.resume promises,
          run_invariant event h.resume promises⟩
      · have stopped (o : Occurrence Script) : w.resume.pollEvent scripted o = w.resume :=
          pollEvent_stopped (by rw [resume_status h.complete]; exact running)
        refine ⟨.fixed stopped h.resume.explicit events, ?_⟩
        have final : w.pollingHandler scripted (some events) = w.resume :=
          run_fixed stopped events
        rw [final]
        exact h.resume

/-- In every run in which no `accept` registers the descriptor 0, no state is reached in
which the server was closed for a client event. -/
theorem onlyExplicit_of_unzeroed {batches : List (Option (List (Occurrence Script)))}
    (start : Start w) (promised : Along (pollingHandler scripted) Unzeroed w batches) :
    Along (pollingHandler scripted) OnlyExplicitBatch w batches :=
  Along.of_invariant (I := Guarded w.socket_)
    (fun _ _ guarded promised => (guarded.batch promised).2)
    (fun _ _ guarded promised => (guarded.batch promised).1) start.guarded promised

/-- Where the descriptor 0 is a client, an event of it with a failing handler ends the
program. -/
theorem exits_of_zero {i : Interest} (running : w.status = .running) (zero : o.event.ident = 0)
    (client : o.event.ident ≠ w.socket_) (filter : o.event.filter = .interest i)
    (untouched : o.handler.ops = []) (refused : o.handler.result < 0) :
    (w.pollEvent scripted o).status = .exited 0 := by
  have works := pollEvent_works running (by omega) filter
  generalize w.pollEvent scripted o = w' at works
  cases works with
  | accept listening => exact absurd listening client
  | keep i c _ entry kept => omega
  | close i c _ entry _ positive => omega
  | exit i c w' _ entry _ server status calls => rw [status, zero]
  | idle i _ vacant _ kept => omega
  | crash i w' _ vacant touched status calls => exact absurd untouched touched
  | closeNull i w' _ vacant _ _ status calls => rw [status, zero, if_neg (by decide)]

/-- A connection is accepted, served and closed. -/
theorem onlyExplicit_closed : Along (pollingHandler scripted) OnlyExplicitBatch listener
    [some [incoming 5], some [ready 5 .read (-1)]] := by
  refine onlyExplicit_of_unzeroed listener_start ?_
  refine ⟨⟨by decide, ?_, trivial⟩, ⟨by decide, ?_, trivial⟩, trivial⟩
  · rintro ⟨-, -, ⟨-, zero⟩ | ⟨abandoned, -⟩⟩
    · exact absurd zero (by decide)
    · exact absurd abandoned (by decide)
  · rintro ⟨listening, -⟩
    exact absurd listening (by decide)

/-- The listener of a process whose standard input is open under 0. -/
def listenerWithInput : SocketBase :=
  { listener with
    kernel := listener.kernel.setDescriptor 0 (some { conn := 1 })
    nextId := 2 }

theorem listenerWithInput_start : Start listenerWithInput where
  clients := rfl
  running := rfl
  listening := by decide
  registered fd i on := by
    refine listener_start.registered fd i (Kernel.registered_setDescriptor ?_ on)
    intro j
    cases j <;> rfl
  conns fd n owner := by
    by_cases same : fd = 0
    · subst same
      have input : listenerWithInput.kernel.owner 0 = some 1 := rfl
      obtain rfl := Option.some.inj (input.symm.trans owner)
      decide
    · have before : listener.kernel.owner fd = some n := by
        rw [← owner]
        simp [Kernel.owner, listenerWithInput, Function.update_of_ne same]
      exact Nat.lt_succ_of_lt (listener_start.conns fd n before)

/-- A connection is accepted under 5 and `TCP_NODELAY` fails; then a read on the
descriptor 0 fails. -/
def abandoned : List (Option (List (Occurrence Script))) :=
  [some [{ incoming 5 with accept := { AcceptCalls.succeeds 5 with setsockopt := false } }],
    some [ready 0 .read (-1)]]

/-- The cleanup returns 0, standard input becomes a client, and closing this client
closes the server. -/
theorem abandoned_not_onlyExplicit :
    Start listenerWithInput ∧
      Along (pollingHandler scripted) (Promised fun _ _ => True) listenerWithInput abandoned ∧
      ¬ Along (pollingHandler scripted) OnlyExplicitBatch listenerWithInput abandoned := by
  refine ⟨listenerWithInput_start, ?_, ?_⟩
  · exact ⟨⟨by decide, trivial, trivial⟩, ⟨by decide, trivial, trivial⟩, trivial⟩
  · rintro ⟨-, ⟨-, explicit⟩, -⟩
    have exited := explicit 0 rfl
    exact absurd exited (by decide)

end SocketBase

end Mux.Socket
