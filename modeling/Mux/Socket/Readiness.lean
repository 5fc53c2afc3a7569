import Mux.Socket.Registry

/-!
# The loop body of the Linux back ends

The loops over epoll and over io_uring work off an event in the same way: a
failure closes the client, the listening socket accepts, and a client that is
ready in both directions has both handlers called. A handler whose result is good
enough is followed by a change of the client's registration for writing.
-/

namespace Mux.Socket

open Transition

/-- What the body reads off an event. -/
structure Readiness where
  fd : Int
  failed : Bool
  readable : Bool
  writable : Bool
  deriving DecidableEq, Repr

/-- What happens while an event is worked off: the calls of `accept`, what the two
handlers are up to, the calls behind them, those of `closeSocket`, and those of the
destructor of an object that the loop drops. -/
structure Outcomes (χ : Type) where
  accept : AcceptCalls
  read : χ
  setWriter : Bool
  write : χ
  removeWriter : Bool
  close : CloseCalls
  destroy : CloseCalls

/-- `close` closes the descriptor. -/
def Outcomes.Closes (o : Outcomes Script) : Prop :=
  o.close.safetyClose.shutdown = true ∧ o.close.safetyClose.close = true

namespace SocketBase

section Body

variable {χ : Type} (handle : Interest → HandleOperation χ)

/-- A handler call. A result that passes `keeps` is followed by `op` on the same client,
and the loop goes on with it; any other result is followed by `close` and ends the
event. -/
def attend (w : SocketBase) (i : Interest) (fd : Int) (clientSock : ClientPtr) (script : χ)
    (keeps : Int → Bool) (op : ClientSocket.Operation) (close : SocketBase → SocketBase) :
    SocketBase × Option ClientPtr :=
  let w := w.logged (.handle i fd clientSock)
  match handle i script clientSock w.kernel with
  | none => ({ w with status := .crashed }, none)
  | some handled =>
      let w := { w with
        clientFds_ := w.clientFds_.insert fd handled.client
        kernel := handled.kernel }
      if keeps handled.result then
        match handled.client with
        | none => ({ w with status := .crashed }, none)
        | some c =>
            let changed := c.perform w.kernel op
            ({ w with
              clientFds_ := w.clientFds_.insert fd (some changed.client)
              kernel := changed.kernel }, some (some changed.client))
      else (close w, none)

/-- `closeSocket` as the loop calls it. -/
def closes (fd : Int) (o : Outcomes χ) (w : SocketBase) : SocketBase :=
  (w.closeSocket fd o.close o.destroy).2

def attendRead (w : SocketBase) (fd : Int) (clientSock : ClientPtr) (o : Outcomes χ) :
    SocketBase × Option ClientPtr :=
  w.attend handle .read fd clientSock o.read (fun result => 0 ≤ result) (.setWriter o.setWriter)
    (closes fd o)

def attendWrite (w : SocketBase) (fd : Int) (clientSock : ClientPtr) (o : Outcomes χ) :
    SocketBase × Option ClientPtr :=
  w.attend handle .write fd clientSock o.write (fun result => 0 < result)
    (.removeWriter o.removeWriter) (closes fd o)

/-- The two directions of one event; the write handler is not called after a failed
read. -/
def attendBoth (w : SocketBase) (e : Readiness) (clientSock : ClientPtr) (o : Outcomes χ) :
    SocketBase :=
  match if e.readable then w.attendRead handle e.fd clientSock o else (w, some clientSock) with
  | (w, none) => w
  | (w, some clientSock) =>
      if e.writable then (w.attendWrite handle e.fd clientSock o).1 else w

/-- The body of the loop. -/
def serve (w : SocketBase) (e : Readiness) (o : Outcomes χ) : SocketBase :=
  if w.status ≠ .running then w
  else if e.failed then w.closes e.fd o
  else if e.fd = w.socket_ then w.acceptClient o.accept o.destroy
  else
    let (clientSock, clientFds_) := w.clientFds_.subscript none e.fd
    { w with clientFds_ }.attendBoth handle e clientSock o

end Body

/-- What decides whether a client that has this event is removed. -/
def Removes (e : Readiness) (o : Outcomes Script) : Prop :=
  e.failed = true ∨ (e.readable = true ∧ o.read.result < 0) ∨
    (e.writable = true ∧ o.write.result ≤ 0)

instance (e : Readiness) (o : Outcomes Script) : Decidable (Removes e o) :=
  inferInstanceAs (Decidable (_ ∨ _))

variable {w w' w'' : SocketBase} {e : Readiness} {o : Outcomes Script} {c : ClientSocket} {fd : Int}

/-- A scripted handler on a live client. What follows a good result is one more operation
on the client. -/
theorem attend_live (w : SocketBase) (i : Interest) (fd : Int) (c : ClientSocket) (script : Script)
    (keeps : Int → Bool) (op : ClientSocket.Operation) (close : SocketBase → SocketBase) :
    w.attend scripted i fd (some c) script keeps op close =
      if keeps script.result then
        (w.served i fd c ⟨script.ops ++ [op], script.result⟩,
          some (some (c.performAll w.kernel (script.ops ++ [op])).1))
      else (close (w.served i fd c script), none) := by
  have performed : c.performAll w.kernel (script.ops ++ [op]) =
      (((c.performAll w.kernel script.ops).1.perform
          (c.performAll w.kernel script.ops).2 op).client,
        ((c.performAll w.kernel script.ops).1.perform
          (c.performAll w.kernel script.ops).2 op).kernel) := by
    simp only [ClientSocket.performAll, run, List.foldl_append, List.foldl_cons, List.foldl_nil]
  by_cases kept : keeps script.result = true
  · simp only [attend, scripted, kept, if_true, served, performed, UnorderedMap.insert_insert,
      logged]
  · simp only [attend, scripted, kept, served, logged]
    rfl

/-- An event of a client without a failure. -/
theorem serve_attends {χ : Type} {handle : Interest → HandleOperation χ} {o : Outcomes χ}
    (running : w.status = .running) (whole : e.failed = false) (client : e.fd ≠ w.socket_)
    (entry : w.clientFds_.find? e.fd = some (some c)) :
    w.serve handle e o = w.attendBoth handle e (some c) o := by
  unfold serve
  rw [if_neg (by simp [running]), if_neg (by simp [whole]), if_neg client,
    UnorderedMap.subscript_present entry]

/-! ## The registry -/

theorem Registry.relogged (h : Registry w) (calls : List Call) : Registry { w with calls } :=
  ⟨h.running,
    ⟨h.consistent.clients, h.consistent.apart, h.consistent.listening, h.consistent.conns⟩,
    h.filled, h.positive, h.covered⟩

/-- What working off an event of the client `c` under `fd` does to the registry: the
client is removed, or it is still there; no other entry changes. -/
structure Serves (w : SocketBase) (fd : Int) (c : ClientSocket) (removed : Prop)
    (w' : SocketBase) : Prop where
  registry : Registry w'
  socket : w'.socket_ = w.socket_
  gone : removed → w'.clientFds_.find? fd = none
  kept : ¬ removed → ∃ c', w'.clientFds_.find? fd = some (some c') ∧ c'.id = c.id
  elsewhere : ∀ x, x ≠ fd → w'.clientFds_.find? x = w.clientFds_.find? x
  calls : ∀ i x client, .handle i x client ∈ w'.calls →
    .handle i x client ∈ w.calls ∨ client ≠ none

namespace Serves

variable {removed removed' : Prop}

theorem refl (h : Registry w) (entry : w.clientFds_.find? fd = some (some c)) :
    Serves w fd c False w where
  registry := h
  socket := rfl
  gone := False.elim
  kept _ := ⟨c, entry, rfl⟩
  elsewhere _ _ := rfl
  calls _ _ _ member := .inl member

theorem congr (h : Serves w fd c removed w') (same : removed ↔ removed') :
    Serves w fd c removed' w' :=
  ⟨h.registry, h.socket, fun gone => h.gone (same.mpr gone),
    fun kept => h.kept fun gone => kept (same.mp gone), h.elsewhere, h.calls⟩

/-- A client that was kept is served once more. -/
theorem trans {c' : ClientSocket} (first : Serves w fd c False w')
    (entry : w'.clientFds_.find? fd = some (some c')) (second : Serves w' fd c' removed w'') :
    Serves w fd c removed w'' where
  registry := second.registry
  socket := second.socket.trans first.socket
  gone := second.gone
  kept stays := by
    obtain ⟨c₁, entry₁, same₁⟩ := first.kept not_false
    obtain ⟨c₂, entry₂, same₂⟩ := second.kept stays
    obtain rfl := client_unique entry entry₁
    exact ⟨c₂, entry₂, same₂.trans same₁⟩
  elsewhere x other := (second.elsewhere x other).trans (first.elsewhere x other)
  calls i x client member := by
    obtain before | live := second.calls i x client member
    · exact first.calls i x client before
    · exact .inr live

end Serves

theorem Registry.serves_served (h : Registry w) (entry : w.clientFds_.find? fd = some (some c))
    (i : Interest) (script : Script) : Serves w fd c False (w.served i fd c script) where
  registry := h.served entry i script
  socket := rfl
  gone := False.elim
  kept _ := ⟨_, find?_served.mpr (.inl ⟨rfl, rfl⟩), (c.performAll_local w.kernel script.ops).id⟩
  elsewhere x other := UnorderedMap.find?_insert_ne _ _ other
  calls j x client member := by
    simp only [SocketBase.served, logged, List.mem_append, List.mem_singleton] at member
    obtain before | called := member
    · exact .inl before
    · cases called
      refine .inr ?_
      intro null
      cases null

/-- Closing a client without a handler call before it. -/
theorem Registry.serves_closeSocket (h : Registry w)
    (entry : w.clientFds_.find? fd = some (some c)) (closing : o.Closes) :
    Serves w fd c True (w.closes fd o) := by
  have closed := closeSocket_client entry (h.positive fd c entry) o.close o.destroy
  -- the same as after a handler that did nothing, but for the list of calls
  let event : Occurrence Script :=
    { event := { ident := fd, filter := .interest .read }, accept := o.accept,
      handler := ⟨[], 0⟩, close := o.close, destroy := o.destroy }
  have assumed : ClientAssumed w event :=
    .client (h.consistent.apart fd c entry) closing.1 closing.2
  have registry := (h.dropped entry .read assumed).relogged
    (w.calls ++ [.closeSocket fd (some (some c))])
  have same : w.closes fd o = { w.dropped .read fd c event with
      calls := w.calls ++ [.closeSocket fd (some (some c))] } := by
    rw [SocketBase.closes, closed]
    simp only [SocketBase.dropped, SocketBase.served, logged, event, ClientSocket.performAll,
      run_nil, UnorderedMap.insert_of_find? entry]
  refine ⟨same ▸ registry, ?_, fun _ => ?_, fun kept => absurd trivial kept, ?_, ?_⟩
  · rw [SocketBase.closes, closed]
    rfl
  · rw [SocketBase.closes, closed]
    exact UnorderedMap.find?_erase _ _
  · intro x other
    rw [SocketBase.closes, closed]
    exact UnorderedMap.find?_erase_ne _ other
  · intro i x client member
    rw [SocketBase.closes, closed] at member
    simp only [logged, List.mem_append, List.mem_singleton] at member
    obtain before | called := member
    · exact .inl before
    · cases called

/-- One direction of an event of a live client. -/
theorem Registry.attend (h : Registry w) (entry : w.clientFds_.find? fd = some (some c))
    (closing : o.Closes) (i : Interest) (script : Script) (keeps : Int → Bool)
    (op : ClientSocket.Operation) :
    Serves w fd c (keeps script.result = false)
        (w.attend scripted i fd (some c) script keeps op (closes fd o)).1 ∧
      ((keeps script.result = false ∧
          (w.attend scripted i fd (some c) script keeps op (closes fd o)).2 = none) ∨
        keeps script.result = true ∧ ∃ c',
          (w.attend scripted i fd (some c) script keeps op (closes fd o)).1.clientFds_.find? fd =
            some (some c') ∧
          (w.attend scripted i fd (some c) script keeps op (closes fd o)).2 = some (some c')) := by
  rw [attend_live]
  cases kept : keeps script.result with
  | true =>
      have served := h.serves_served entry i ⟨script.ops ++ [op], script.result⟩
      exact ⟨served.congr (by simp), .inr ⟨rfl, _, find?_served.mpr (.inl ⟨rfl, rfl⟩), rfl⟩⟩
  | false =>
      have served := h.serves_served entry i script
      have stored : (w.served i fd c script).clientFds_.find? fd =
          some (some (c.performAll w.kernel script.ops).1) := find?_served.mpr (.inl ⟨rfl, rfl⟩)
      have closed := served.registry.serves_closeSocket stored closing
      exact ⟨(served.trans stored closed).congr (by simp), .inl ⟨rfl, rfl⟩⟩

/-- An event of a live client removes it exactly for the reasons of `Removes`. -/
theorem Registry.serve_client (h : Registry w)
    (entry : w.clientFds_.find? e.fd = some (some c)) (closing : o.Closes) :
    Serves w e.fd c (Removes e o) (w.serve scripted e o) := by
  have client : e.fd ≠ w.socket_ := h.consistent.apart e.fd c entry
  by_cases failed : e.failed = true
  · have closed := h.serves_closeSocket entry closing
    have step : w.serve scripted e o = w.closes e.fd o := by
      simp only [serve, h.running, ne_eq, not_true_eq_false, if_false, failed, if_true]
    rw [step]
    exact closed.congr (by simp [Removes, failed])
  rw [serve_attends h.running (by simpa using failed) client entry, attendBoth]
  -- the write half, in whatever state the read half leaves the client
  have write (w₁ : SocketBase) (c₁ : ClientSocket) (h₁ : Registry w₁)
      (entry₁ : w₁.clientFds_.find? e.fd = some (some c₁)) :
      Serves w₁ e.fd c₁ (e.writable = true ∧ o.write.result ≤ 0)
        (if e.writable then (w₁.attendWrite scripted e.fd (some c₁) o).1 else w₁) := by
    by_cases writable : e.writable = true
    · rw [if_pos writable]
      exact (h₁.attend entry₁ closing .write o.write _ _).1.congr (by simp [writable])
    · rw [if_neg writable]
      exact (Serves.refl h₁ entry₁).congr (by simp [writable])
  by_cases readable : e.readable = true
  · rw [if_pos readable]
    obtain ⟨serves, ⟨refused, gone⟩ | ⟨kept, c₁, entry₁, next⟩⟩ :=
      h.attend entry closing .read o.read (fun result => 0 ≤ result) (.setWriter o.setWriter)
    · have ended : w.attendRead scripted e.fd (some c) o =
          ((w.attendRead scripted e.fd (some c) o).1, none) := Prod.ext rfl gone
      rw [ended]
      refine serves.congr (iff_of_true refused ?_)
      simp only [decide_eq_false_iff_not, Int.not_le] at refused
      exact .inr (.inl ⟨readable, refused⟩)
    · have continued : w.attendRead scripted e.fd (some c) o =
          ((w.attendRead scripted e.fd (some c) o).1, some (some c₁)) := Prod.ext rfl next
      rw [continued]
      have first : Serves w e.fd c False _ := serves.congr (by simpa using kept)
      refine (first.trans entry₁ (write _ c₁ serves.registry entry₁)).congr ?_
      simp only [decide_eq_true_eq] at kept
      have passed : ¬ o.read.result < 0 := by omega
      simp [Removes, failed, passed]
  · rw [if_neg readable]
    exact (write w c h entry).congr (by simp [Removes, failed, readable])

/-! ## Accepting -/

/-- A number that was open is as before, and a number that was free is at most left to
the connection that was refused, without a registration. -/
def Spares (w : SocketBase) (k : Kernel) : Prop :=
  ∀ x, k.opened x = w.kernel.opened x ∨
    (w.kernel.opened x = none ∧
      ∃ d, k.opened x = some d ∧ d.conn = w.nextId ∧ ∀ i, d.watches i = false)

/-- `accept` returns `-1` and spares the open descriptors, or a positive number that was
not open. -/
def AcceptsPositive (w : SocketBase) (o : Outcomes Script) : Prop :=
  let accepted := (ClientSocket.new w.nextId).accept w.kernel o.accept
  (accepted.result = -1 ∧ w.Spares (accepted.client.destroy accepted.kernel o.destroy)) ∨
    (0 < accepted.result ∧ w.kernel.opened accepted.result = none)

theorem Registry.spared (h : Registry w) {k : Kernel} (spares : w.Spares k) :
    Registry { w with nextId := w.nextId + 1, kernel := k } := by
  -- a number that named a connection still does, and a new name is the refused one
  have kept {x : Int} {n : Nat} (names : w.kernel.owner x = some n) : k.owner x = some n := by
    obtain same | ⟨free, -⟩ := spares x
    · simpa only [Kernel.owner, same] using names
    · simp [Kernel.owner, free] at names
  have named {x : Int} {n : Nat} (names : k.owner x = some n) :
      w.kernel.owner x = some n ∨ n = w.nextId := by
    obtain same | ⟨-, d, left, conn, -⟩ := spares x
    · exact .inl (by simpa only [Kernel.owner, same] using names)
    · simp only [Kernel.owner, left, Option.map_some, Option.some.injEq] at names
      exact .inr (names.symm.trans conn)
  refine ⟨h.running, ⟨?_, h.consistent.apart, ?_, ?_⟩, h.filled, h.positive, ?_⟩
  · intro fd c found
    obtain ⟨clientFd, connected, owner⟩ := h.consistent.clients fd c found
    exact ⟨clientFd, connected, kept owner⟩
  · obtain ⟨n, owner⟩ := Option.ne_none_iff_exists'.mp h.consistent.listening
    simp only [kept owner]
    exact Option.some_ne_none n
  · intro fd n names
    show n < w.nextId + 1
    obtain before | rfl := named names
    · have bound := h.consistent.conns fd n before
      omega
    · omega
  · rintro fd i ⟨d, found, on⟩
    obtain same | ⟨-, d', left, -, off⟩ := spares fd
    · exact h.covered fd i ⟨d, by rw [← same]; exact found, on⟩
    · obtain rfl := Option.some.inj (left.symm.trans found)
      rw [off i] at on
      cases on

/-- The event of the listening socket keeps every client and calls no handler. -/
theorem Registry.acceptClient (h : Registry w) (assumed : AcceptsPositive w o) :
    Registry (w.acceptClient o.accept o.destroy) ∧
      (w.acceptClient o.accept o.destroy).socket_ = w.socket_ ∧
      ∀ x c, w.clientFds_.find? x = some (some c) →
        (w.acceptClient o.accept o.destroy).clientFds_.find? x = some (some c) := by
  obtain ⟨rejected, spares⟩ | ⟨positive, free⟩ := assumed
  · rw [acceptClient_rejected rejected]
    exact ⟨h.spared spares, rfl, fun x c found => found⟩
  · have admitted : Registry (w.acceptClient o.accept o.destroy) := h.admitted positive free
    obtain ⟨-, unused, k, -, step⟩ : _ ∧ _ ∧ ∃ k, _ ∧ w.acceptClient o.accept o.destroy = _ :=
      acceptClient_free (w := w) h.consistent (Int.le_of_lt positive) free
    rw [step] at admitted ⊢
    refine ⟨admitted, rfl, fun x c found => ?_⟩
    refine UnorderedMap.find?_insert_eq_some.mpr (.inr ⟨?_, found⟩)
    rintro rfl
    have owner := (h.consistent.clients _ c found).owner
    simp [Kernel.owner, unused] at owner

/-- An error on the listening socket: there is no client under its number. -/
theorem Registry.serve_failed (h : Registry w) (listening : e.fd = w.socket_)
    (failed : e.failed = true) :
    w.serve scripted e o = w.logged (.closeSocket e.fd (w.clientFds_.find? e.fd)) := by
  have absent : w.clientFds_.find? e.fd = none := by
    rcases found : w.clientFds_.find? e.fd with _ | _ | c
    · rfl
    · exact absurd found (h.filled e.fd)
    · exact absurd listening (h.consistent.apart e.fd c found)
  unfold serve
  rw [if_neg (by simp [h.running]), if_pos failed]
  simp only [closes, closeSocket, absent]

theorem serve_accept (running : w.status = .running) (listening : e.fd = w.socket_)
    (whole : e.failed = false) :
    w.serve scripted e o = w.acceptClient o.accept o.destroy := by
  unfold serve
  rw [if_neg (by simp [running]), if_neg (by simp [whole]), if_pos listening]

/-! ## One event -/

/-- `accept` and `close` do as they promise. -/
structure Assumed (w : SocketBase) (e : Readiness) (o : Outcomes Script) : Prop where
  accept : e.fd = w.socket_ → e.failed = false → AcceptsPositive w o
  closing : o.Closes

/-- What an event leaves of the clients: the one that has it may go, for the reasons of
`Removes` alone, and every other one stays. -/
def Leaves (w : SocketBase) (e : Readiness) (o : Outcomes Script) (w' : SocketBase) : Prop :=
  ∀ fd c, w.clientFds_.find? fd = some (some c) →
    if fd = e.fd ∧ Removes e o then w'.clientFds_.find? fd = none
    else ∃ c', w'.clientFds_.find? fd = some (some c') ∧ c'.id = c.id

/-- What one event does to the registry. -/
structure Served (w : SocketBase) (e : Readiness) (o : Outcomes Script) (w' : SocketBase) :
    Prop where
  registry : Registry w'
  socket : w'.socket_ = w.socket_
  calls : ∀ i x client, .handle i x client ∈ w'.calls →
    .handle i x client ∈ w.calls ∨ client ≠ none
  leaves : Leaves w e o w'

theorem Serves.served (h : Serves w e.fd c (Removes e o) w')
    (entry : w.clientFds_.find? e.fd = some (some c)) : Served w e o w' where
  registry := h.registry
  socket := h.socket
  calls := h.calls
  leaves fd c' found := by
    by_cases same : fd = e.fd
    · subst same
      obtain rfl := client_unique entry found
      by_cases removes : Removes e o
      · rw [if_pos ⟨rfl, removes⟩]
        exact h.gone removes
      · rw [if_neg fun both => removes both.2]
        exact h.kept removes
    · rw [if_neg fun both => same both.1, h.elsewhere fd same]
      exact ⟨c', found, rfl⟩

/-- An event of the listening socket leaves every client where it is. -/
theorem Registry.leaves_all (h : Registry w) (listening : e.fd = w.socket_)
    (kept : ∀ x c, w.clientFds_.find? x = some (some c) →
      w'.clientFds_.find? x = some (some c)) : Leaves w e o w' := by
  intro fd c found
  have apart : fd ≠ e.fd := by
    rw [listening]
    exact h.consistent.apart fd c found
  rw [if_neg fun both => apart both.1]
  exact ⟨c, kept fd c found, rfl⟩

/-- An event of the listening socket or of a client in the map. -/
theorem Registry.serve (h : Registry w) (assumed : Assumed w e o)
    (held : e.fd ≠ w.socket_ → ∃ c, w.clientFds_.find? e.fd = some (some c)) :
    Served w e o (w.serve scripted e o) := by
  by_cases listening : e.fd = w.socket_
  · cases failed : e.failed with
    | true =>
        rw [h.serve_failed listening failed]
        refine ⟨h.relogged _, rfl, ?_, h.leaves_all listening fun x c found => found⟩
        intro i x client member
        simp only [logged, List.mem_append, List.mem_singleton] at member
        obtain before | called := member
        · exact .inl before
        · cases called
    | false =>
        obtain ⟨registry, socket, kept⟩ := h.acceptClient (assumed.accept listening failed)
        rw [serve_accept h.running listening failed]
        refine ⟨registry, socket, ?_, h.leaves_all listening kept⟩
        intro i x client member
        rw [(w.acceptClient_frame o.accept o.destroy).1] at member
        exact .inl member
  · obtain ⟨c, entry⟩ := held listening
    exact (h.serve_client entry assumed.closing).served entry

end SocketBase

end Mux.Socket
