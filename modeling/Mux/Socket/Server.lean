import Mux.Library.UnorderedMap
import Mux.Socket.Acceptance

/-!
# The server over kqueue

`SocketBase` with the kqueue back end of `pollingHandler`. The batch of events
that `kevent` returns is an argument; with each event come the outcomes of the
system calls made while it is worked off, and what the handlers do. A handler
is given the shared pointer of the client; dereferencing null ends the program.
`calls` lists the calls of handlers and of `closeSocket` in the current batch.
-/

namespace Mux.Socket

open Transition

/-- A `shared_ptr<ClientSocket>`. -/
abbrev ClientPtr := Option ClientSocket

inductive Filter where
  | interest (i : Interest)
  | other
  deriving DecidableEq, Repr

/-- The fields of a `struct kevent` that the loop reads. -/
structure Event where
  ident : Int
  filter : Filter
  eof : Bool := false
  error : Bool := false
  deriving DecidableEq, Repr

/-- An event of a batch, and what happens while it is worked off: the calls of
`accept`, what the handler is up to, the calls of `closeSocket`, and those of
the destructor of an object that the loop drops. -/
structure Occurrence (χ : Type) where
  event : Event
  accept : AcceptCalls
  handler : χ
  close : CloseCalls
  destroy : CloseCalls

/-- What a handler returns, with the client and the kernel behind it. -/
structure Handled where
  result : Int
  client : ClientPtr
  kernel : Kernel

/-- A handler; there is no result when it dereferences null. -/
abbrev HandleOperation (χ : Type) := χ → ClientPtr → Kernel → Option Handled

inductive Call where
  | handle (i : Interest) (fd : Int) (client : ClientPtr)
  | closeSocket (fd : Int) (entry : Option ClientPtr)
  deriving DecidableEq, Repr

/-- `returned` ends a batch early, the other two end the program; `exited` keeps
the argument of the `closeSocket` that called `exit`. -/
inductive Status where
  | running
  | returned
  | exited (client : Int)
  | crashed
  deriving DecidableEq, Repr

structure SocketBase where
  socket_ : Int
  clientFds_ : UnorderedMap Int ClientPtr
  kernel : Kernel
  nextId : Nat := 0
  calls : List Call := []
  status : Status := .running

namespace SocketBase

def logged (w : SocketBase) (call : Call) : SocketBase := { w with calls := w.calls ++ [call] }

/-- Any number that is not positive stands for the server. `exit` ends the
program, and the kernel closes what it still had open. -/
def closeSocket (w : SocketBase) (client : Int) (calls later : CloseCalls) : Bool × SocketBase :=
  let entry := w.clientFds_.find? client
  let w := w.logged (.closeSocket client entry)
  match entry with
  | none => (true, w)
  | some clientSock =>
      if client > 0 then
        match clientSock with
        | none => (false, { w with status := .crashed })
        | some c =>
            let closed := c.close w.kernel calls
            -- the loop drops the last pointer to the object, closed or not
            let kernel := closed.client.destroy closed.kernel later
            (0 ≤ closed.result, { w with clientFds_ := w.clientFds_.erase client, kernel })
      else
        (true, { w with
          socket_ := -1
          clientFds_ := .empty
          kernel := { w.kernel with opened := fun _ => none }
          status := .exited client })

/-- The event of the listening socket: a new object accepts one connection. The
object is dropped when that fails; a former object under the number is dropped
when it succeeds. -/
def acceptClient (w : SocketBase) (calls : AcceptCalls) (later : CloseCalls) : SocketBase :=
  let accepted := (ClientSocket.new w.nextId).accept w.kernel calls
  let w := { w with nextId := w.nextId + 1 }
  if accepted.result = -1 then
    { w with kernel := accepted.client.destroy accepted.kernel later }
  else
    let kernel := match w.clientFds_.find? accepted.result with
      | some (some former) => former.destroy accepted.kernel later
      | _ => accepted.kernel
    { w with clientFds_ := w.clientFds_.insert accepted.result (some accepted.client), kernel }

variable {χ : Type} (handle : Interest → HandleOperation χ)

/-- A handler call, and `closeSocket` when it reports a failure. The object that
the handler worked on is the one in the map. -/
def handleClient (w : SocketBase) (i : Interest) (fd : Int) (clientSock : ClientPtr)
    (o : Occurrence χ) : SocketBase :=
  let w := w.logged (.handle i fd clientSock)
  match handle i o.handler clientSock w.kernel with
  | none => { w with status := .crashed }
  | some handled =>
      let w := { w with
        clientFds_ := w.clientFds_.insert fd handled.client
        kernel := handled.kernel }
      if handled.result < 0 then (w.closeSocket fd o.close o.destroy).2 else w

/-- Any other filter with `EV_EOF` or `EV_ERROR` closes the client, then the server,
and returns. -/
def unexpected (w : SocketBase) (fd : Int) (o : Occurrence χ) : SocketBase :=
  if o.event.eof || o.event.error then
    let (closed, w) := w.closeSocket fd o.close o.destroy
    if w.status = .running ∧ closed = true then
      let (_, w) := w.closeSocket (-1) o.close o.destroy
      if w.status = .running then { w with status := .returned } else w
    else w
  else w

/-- The body of the loop. The descriptor of the listening socket was passed to the
loop by value; the field only changes when the program ends. -/
def pollEvent (w : SocketBase) (o : Occurrence χ) : SocketBase :=
  if w.status ≠ .running then w
  else
    let fd := o.event.ident
    if fd = w.socket_ then w.acceptClient o.accept o.destroy
    else if fd = -1 then w
    else
      -- the lookup enters a null pointer for a number without an entry
      let (clientSock, clientFds_) := w.clientFds_.subscript none fd
      let w := { w with clientFds_ }
      match o.event.filter with
      | .interest i => w.handleClient handle i fd clientSock o
      | .other => w.unexpected fd o

/-- A new call of the loop: an early return of the last one is over. -/
def resume (w : SocketBase) : SocketBase :=
  { w with calls := [], status := if w.status = .returned then .running else w.status }

/-- `kevent` failed, or it returned a batch. -/
def pollingHandler (w : SocketBase) : Option (List (Occurrence χ)) → SocketBase
  | none => w.resume
  | some events => run (pollEvent handle) w.resume events

end SocketBase

/-- A handler that performs any operations on the client and returns anything. It
leaves closing to the server, and does not touch a null pointer unless it has
an operation to perform. -/
structure Script where
  ops : List ClientSocket.Operation
  result : Int
  deriving DecidableEq, Repr

def scripted (_ : Interest) : HandleOperation Script := fun script client k =>
  match client with
  | none => if script.ops = [] then some ⟨script.result, none, k⟩ else none
  | some c =>
      some ⟨script.result, some (c.performAll k script.ops).1, (c.performAll k script.ops).2⟩

/-! ## The bytes sent -/

namespace SocketBase

theorem closeSocket_sent (w : SocketBase) (client : Int) (calls later : CloseCalls) :
    (w.closeSocket client calls later).2.kernel.sent = w.kernel.sent := by
  unfold closeSocket
  simp only
  split
  · rfl
  · split
    · split
      · rfl
      · simp only [logged, ClientSocket.destroy_close, ClientSocket.close_sent]
    · rfl

theorem acceptClient_rejected {w : SocketBase} {calls : AcceptCalls} {later : CloseCalls}
    (h : ((ClientSocket.new w.nextId).accept w.kernel calls).result = -1) :
    w.acceptClient calls later = { w with
      nextId := w.nextId + 1
      kernel := ((ClientSocket.new w.nextId).accept w.kernel calls).client.destroy
        ((ClientSocket.new w.nextId).accept w.kernel calls).kernel later } := by
  simp only [acceptClient, if_pos h]

/-- The kernel is the one of the new object, or a former object under the number has
been dropped in it. -/
theorem acceptClient_stored {w : SocketBase} {calls : AcceptCalls} (later : CloseCalls)
    (h : ((ClientSocket.new w.nextId).accept w.kernel calls).result ≠ -1) :
    ∃ k, (k = ((ClientSocket.new w.nextId).accept w.kernel calls).kernel ∨
        ∃ former : ClientSocket,
          w.clientFds_.find? ((ClientSocket.new w.nextId).accept w.kernel calls).result =
            some (some former) ∧
          k = former.destroy ((ClientSocket.new w.nextId).accept w.kernel calls).kernel later) ∧
      w.acceptClient calls later = { w with
        nextId := w.nextId + 1
        clientFds_ := w.clientFds_.insert
          ((ClientSocket.new w.nextId).accept w.kernel calls).result
          (some ((ClientSocket.new w.nextId).accept w.kernel calls).client)
        kernel := k } := by
  simp only [acceptClient, if_neg h]
  split
  · next former found => exact ⟨_, .inr ⟨former, found, rfl⟩, rfl⟩
  · exact ⟨_, .inl rfl, rfl⟩

theorem acceptClient_sent (w : SocketBase) (calls : AcceptCalls) (later : CloseCalls) :
    (w.acceptClient calls later).kernel.sent = w.kernel.sent := by
  by_cases rejected : ((ClientSocket.new w.nextId).accept w.kernel calls).result = -1
  · rw [acceptClient_rejected rejected, ClientSocket.destroy_sent, ClientSocket.accept_sent]
  · obtain ⟨k, rfl | ⟨former, -, rfl⟩, stored⟩ := acceptClient_stored later rejected
    · rw [stored, ClientSocket.accept_sent]
    · rw [stored, ClientSocket.destroy_sent, ClientSocket.accept_sent]

/-- Reporting the end of a stream or an error closes sockets, and sends nothing. -/
theorem unexpected_sent {χ : Type} (w : SocketBase) (fd : Int) (o : Occurrence χ) :
    (w.unexpected fd o).kernel.sent = w.kernel.sent := by
  have client := w.closeSocket_sent fd o.close o.destroy
  have server := (w.closeSocket fd o.close o.destroy).2.closeSocket_sent (-1) o.close o.destroy
  unfold unexpected
  split
  · simp only
    split
    · split
      · exact server.trans client
      · exact server.trans client
    · exact client
  · rfl

variable {χ : Type} {handle : Interest → HandleOperation χ} {P : (Nat → Str) → Prop}
  {o : Occurrence χ} {w : SocketBase}

theorem handleClient_sent {i : Interest} {fd : Int} {client : ClientPtr}
    (handles : ∀ handled, handle i o.handler client w.kernel = some handled →
      P handled.kernel.sent) (before : P w.kernel.sent) :
    P (w.handleClient handle i fd client o).kernel.sent := by
  unfold handleClient
  simp only
  split
  · exact before
  · next handled call =>
      have after := handles handled call
      split
      · rw [closeSocket_sent]
        exact after
      · exact after

/-- Only a handler adds to the bytes sent. -/
theorem pollEvent_sent (handles : ∀ i client k handled,
    handle i o.handler client k = some handled → P k.sent → P handled.kernel.sent)
    (before : P w.kernel.sent) : P (w.pollEvent handle o).kernel.sent := by
  unfold pollEvent
  split
  · exact before
  · simp only
    split
    · rw [acceptClient_sent]
      exact before
    · split
      · exact before
      · split
        · next i filter =>
            exact handleClient_sent (fun handled call => handles i _ _ handled call before) before
        · rw [unexpected_sent]
          exact before

end SocketBase

/-! ## What one event does -/

namespace SocketBase

variable {w w' : SocketBase} {o : Occurrence Script} {i : Interest} {c : ClientSocket}

/-- The handler has worked on the client `c` stored under `fd`. -/
def served (w : SocketBase) (i : Interest) (fd : Int) (c : ClientSocket) (script : Script) :
    SocketBase :=
  { w.logged (.handle i fd (some c)) with
    clientFds_ := w.clientFds_.insert fd (some (c.performAll w.kernel script.ops).1)
    kernel := (c.performAll w.kernel script.ops).2 }

/-- After the handler, the client `c` was closed and erased. -/
def dropped (w : SocketBase) (i : Interest) (fd : Int) (c : ClientSocket) (o : Occurrence Script) :
    SocketBase :=
  { (w.served i fd c o.handler).logged
      (.closeSocket fd (some (some (c.performAll w.kernel o.handler.ops).1))) with
    clientFds_ := (w.served i fd c o.handler).clientFds_.erase fd
    kernel := ((c.performAll w.kernel o.handler.ops).1.close
      (c.performAll w.kernel o.handler.ops).2 o.close).kernel }

/-- The handler was given a null pointer and has not touched it. -/
def idled (w : SocketBase) (i : Interest) (fd : Int) : SocketBase :=
  { w.logged (.handle i fd none) with clientFds_ := w.clientFds_.insert fd none }

theorem find?_served {fd x : Int} {script : Script} {entry : ClientPtr} :
    (w.served i fd c script).clientFds_.find? x = some entry ↔
      (x = fd ∧ some (c.performAll w.kernel script.ops).1 = entry) ∨
        (x ≠ fd ∧ w.clientFds_.find? x = some entry) := UnorderedMap.find?_insert_eq_some

/-- A client in the map behind a handler was there before, under the same number. -/
theorem served_client {fd x : Int} {c' : ClientSocket} {script : Script}
    (entry : w.clientFds_.find? fd = some (some c))
    (found : (w.served i fd c script).clientFds_.find? x = some (some c')) :
    ∃ before, w.clientFds_.find? x = some (some before) := by
  obtain ⟨rfl, -⟩ | ⟨-, before⟩ := find?_served.mp found
  · exact ⟨c, entry⟩
  · exact ⟨c', before⟩

/-- A map without null pointers still has none when a client is stored. -/
theorem insert_filled {clients : UnorderedMap Int ClientPtr}
    (filled : ∀ x, clients.find? x ≠ some none) (fd : Int) (c : ClientSocket) (x : Int) :
    (clients.insert fd (some c)).find? x ≠ some none := by
  intro found
  obtain ⟨-, impossible⟩ | ⟨-, before⟩ := UnorderedMap.find?_insert_eq_some.mp found
  · cases impossible
  · exact filled x before

theorem find?_dropped {fd x : Int} {entry : ClientPtr} :
    (w.dropped i fd c o).clientFds_.find? x = some entry ↔
      x ≠ fd ∧ w.clientFds_.find? x = some entry := by
  simp only [dropped, UnorderedMap.find?_erase_eq_some, find?_served]
  constructor
  · rintro ⟨other, ⟨same, -⟩ | ⟨-, found⟩⟩
    · exact absurd same other
    · exact ⟨other, found⟩
  · rintro ⟨other, found⟩
    exact ⟨other, .inr ⟨other, found⟩⟩

theorem find?_idled {fd x : Int} {entry : ClientPtr} :
    (w.idled i fd).clientFds_.find? x = some entry ↔
      (x = fd ∧ none = entry) ∨ (x ≠ fd ∧ w.clientFds_.find? x = some entry) :=
  UnorderedMap.find?_insert_eq_some

theorem idled_client {fd x : Int} {c' : ClientSocket}
    (found : (w.idled i fd).clientFds_.find? x = some (some c')) :
    w.clientFds_.find? x = some (some c') := by
  obtain ⟨-, impossible⟩ | ⟨-, before⟩ := find?_idled.mp found
  · cases impossible
  · exact before

/-- There is no client under `fd`: no entry, or a null pointer. -/
def Vacant (w : SocketBase) (fd : Int) : Prop :=
  w.clientFds_.find? fd = none ∨ w.clientFds_.find? fd = some none

/-- The ways in which a running server works off an event of the listening socket or
a readiness event of another descriptor. -/
inductive Works (w : SocketBase) (o : Occurrence Script) : SocketBase → Prop where
  | accept (listening : o.event.ident = w.socket_) :
      Works w o (w.acceptClient o.accept o.destroy)
  | keep (i : Interest) (c : ClientSocket) (client : o.event.ident ≠ w.socket_)
      (entry : w.clientFds_.find? o.event.ident = some (some c)) (kept : 0 ≤ o.handler.result) :
      Works w o (w.served i o.event.ident c o.handler)
  | close (i : Interest) (c : ClientSocket) (client : o.event.ident ≠ w.socket_)
      (entry : w.clientFds_.find? o.event.ident = some (some c)) (refused : o.handler.result < 0)
      (positive : 0 < o.event.ident) : Works w o (w.dropped i o.event.ident c o)
  | exit (i : Interest) (c : ClientSocket) (w' : SocketBase) (client : o.event.ident ≠ w.socket_)
      (entry : w.clientFds_.find? o.event.ident = some (some c)) (refused : o.handler.result < 0)
      (server : o.event.ident ≤ 0) (status : w'.status = .exited o.event.ident)
      (calls : w'.calls = w.calls ++ [.handle i o.event.ident (some c), .closeSocket o.event.ident
        (some (some (c.performAll w.kernel o.handler.ops).1))]) : Works w o w'
  | idle (i : Interest) (client : o.event.ident ≠ w.socket_) (vacant : w.Vacant o.event.ident)
      (untouched : o.handler.ops = []) (kept : 0 ≤ o.handler.result) :
      Works w o (w.idled i o.event.ident)
  | crash (i : Interest) (w' : SocketBase) (client : o.event.ident ≠ w.socket_)
      (vacant : w.Vacant o.event.ident) (touched : o.handler.ops ≠ [])
      (status : w'.status = .crashed)
      (calls : w'.calls = w.calls ++ [.handle i o.event.ident none]) : Works w o w'
  | closeNull (i : Interest) (w' : SocketBase) (client : o.event.ident ≠ w.socket_)
      (vacant : w.Vacant o.event.ident) (untouched : o.handler.ops = [])
      (refused : o.handler.result < 0)
      (status : w'.status = if 0 < o.event.ident then .crashed else .exited o.event.ident)
      (calls : w'.calls = w.calls ++
        [.handle i o.event.ident none, .closeSocket o.event.ident (some none)]) : Works w o w'

theorem pollEvent_stopped {χ : Type} {handle : Interest → HandleOperation χ}
    {o : Occurrence χ} (stopped : w.status ≠ .running) : w.pollEvent handle o = w := if_pos stopped

theorem pollEvent_accept {χ : Type} {handle : Interest → HandleOperation χ}
    {o : Occurrence χ} (running : w.status = .running) (listening : o.event.ident = w.socket_) :
    w.pollEvent handle o = w.acceptClient o.accept o.destroy := by
  simp only [pollEvent, running, ne_eq, not_true_eq_false, if_false, listening, if_true]

theorem pollEvent_client {χ : Type} {handle : Interest → HandleOperation χ}
    {o : Occurrence χ} (running : w.status = .running) (client : o.event.ident ≠ w.socket_)
    (valid : o.event.ident ≠ -1) (filter : o.event.filter = .interest i) :
    w.pollEvent handle o =
      handleClient handle
        { w with clientFds_ := (w.clientFds_.subscript none o.event.ident).2 } i o.event.ident
        (w.clientFds_.subscript none o.event.ident).1 o := by
  simp only [pollEvent, running, ne_eq, not_true_eq_false, if_false, client, valid, filter]

theorem pollEvent_other {χ : Type} {handle : Interest → HandleOperation χ}
    {o : Occurrence χ} (running : w.status = .running) (client : o.event.ident ≠ w.socket_)
    (valid : o.event.ident ≠ -1) (filter : o.event.filter = .other) :
    w.pollEvent handle o =
      unexpected { w with clientFds_ := (w.clientFds_.subscript none o.event.ident).2 }
        o.event.ident o := by
  simp only [pollEvent, running, ne_eq, not_true_eq_false, if_false, client, valid, filter]

theorem closeSocket_client {fd : Int} (entry : w.clientFds_.find? fd = some (some c))
    (positive : 0 < fd) (calls later : CloseCalls) :
    (w.closeSocket fd calls later).2 =
      { w.logged (.closeSocket fd (some (some c))) with
        clientFds_ := w.clientFds_.erase fd
        kernel := (c.close w.kernel calls).kernel } := by
  simp only [closeSocket, entry, if_pos positive, logged, ClientSocket.destroy_close]

theorem closeSocket_null {fd : Int} (entry : w.clientFds_.find? fd = some none)
    (calls later : CloseCalls) :
    (w.closeSocket fd calls later).2.status = (if 0 < fd then .crashed else .exited fd) ∧
      (w.closeSocket fd calls later).2.calls = w.calls ++ [.closeSocket fd (some none)] := by
  by_cases positive : 0 < fd
  · simp [closeSocket, entry, positive, logged]
  · simp [closeSocket, entry, positive, logged]

theorem closeSocket_exit {fd : Int} {entry : ClientPtr} (found : w.clientFds_.find? fd = some entry)
    (server : fd ≤ 0) (calls later : CloseCalls) :
    (w.closeSocket fd calls later).2.status = .exited fd ∧
      (w.closeSocket fd calls later).2.calls = w.calls ++ [.closeSocket fd (some entry)] := by
  have nonpositive : ¬ 0 < fd := by omega
  simp [closeSocket, found, nonpositive, logged]

/-- A scripted handler on a live client. -/
theorem handleClient_live (client : o.event.ident ≠ w.socket_) (i : Interest)
    (entry : w.clientFds_.find? o.event.ident = some (some c)) :
    Works w o (handleClient scripted w i o.event.ident (some c) o) := by
  have stored : (w.served i o.event.ident c o.handler).clientFds_.find? o.event.ident =
      some (some (c.performAll w.kernel o.handler.ops).1) := UnorderedMap.find?_insert _ _ _
  have handled : handleClient scripted w i o.event.ident (some c) o =
      if o.handler.result < 0 then
        ((w.served i o.event.ident c o.handler).closeSocket o.event.ident o.close o.destroy).2
      else w.served i o.event.ident c o.handler := rfl
  rw [handled]
  by_cases refused : o.handler.result < 0
  · rw [if_pos refused]
    by_cases positive : 0 < o.event.ident
    · rw [closeSocket_client stored positive]
      exact .close i c client entry refused positive
    · obtain ⟨status, calls⟩ := closeSocket_exit stored (by omega) o.close o.destroy
      refine .exit i c _ client entry refused (by omega) status ?_
      rw [calls]
      simp [served, logged]
  · rw [if_neg refused]
    exact .keep i c client entry (by omega)

/-- A scripted handler on a null pointer. -/
theorem handleClient_null (client : o.event.ident ≠ w.socket_) (i : Interest)
    (vacant : w.Vacant o.event.ident) :
    Works w o (handleClient scripted
      { w with clientFds_ := w.clientFds_.insert o.event.ident none } i o.event.ident none o) := by
  by_cases untouched : o.handler.ops = []
  · have stored : (w.idled i o.event.ident).clientFds_.find? o.event.ident = some none :=
      UnorderedMap.find?_insert _ _ _
    have handled : handleClient scripted
        { w with clientFds_ := w.clientFds_.insert o.event.ident none } i o.event.ident none o =
        if o.handler.result < 0 then
          ((w.idled i o.event.ident).closeSocket o.event.ident o.close o.destroy).2
        else w.idled i o.event.ident := by
      simp [handleClient, scripted, untouched, idled, logged]
    rw [handled]
    by_cases refused : o.handler.result < 0
    · rw [if_pos refused]
      obtain ⟨status, calls⟩ := closeSocket_null stored o.close o.destroy
      refine .closeNull i _ client vacant untouched refused status ?_
      rw [calls]
      simp [idled, logged]
    · rw [if_neg refused]
      exact .idle i client vacant untouched (by omega)
  · refine .crash i _ client vacant untouched ?_ ?_
    · simp [handleClient, scripted, untouched]
    · simp [handleClient, scripted, untouched, logged]

theorem handleClient_works (client : o.event.ident ≠ w.socket_) (i : Interest) :
    Works w o (handleClient scripted
      { w with clientFds_ := (w.clientFds_.subscript none o.event.ident).2 } i o.event.ident
      (w.clientFds_.subscript none o.event.ident).1 o) := by
  rcases entry : w.clientFds_.find? o.event.ident with _ | _ | c
  · rw [UnorderedMap.subscript_absent entry]
    exact handleClient_null client i (.inl entry)
  · rw [UnorderedMap.subscript_present entry]
    have works := handleClient_null client i (.inr entry)
    rw [UnorderedMap.insert_of_find? entry] at works
    exact works
  · rw [UnorderedMap.subscript_present entry]
    exact handleClient_live client i entry

theorem pollEvent_works (running : w.status = .running) (valid : o.event.ident ≠ -1)
    (filter : o.event.filter = .interest i) : Works w o (w.pollEvent scripted o) := by
  by_cases listening : o.event.ident = w.socket_
  · rw [pollEvent_accept running listening]
    exact .accept listening
  · rw [pollEvent_client running listening valid filter]
    exact handleClient_works listening i

/-- The event takes one identity, and the fields that it does not name are as before. -/
theorem acceptClient_frame (w : SocketBase) (calls : AcceptCalls) (later : CloseCalls) :
    (w.acceptClient calls later).calls = w.calls ∧
      (w.acceptClient calls later).status = w.status ∧
      (w.acceptClient calls later).socket_ = w.socket_ ∧
      (w.acceptClient calls later).nextId = w.nextId + 1 := by
  by_cases rejected : ((ClientSocket.new w.nextId).accept w.kernel calls).result = -1
  · rw [acceptClient_rejected rejected]
    exact ⟨rfl, rfl, rfl, rfl⟩
  · obtain ⟨k, -, stored⟩ := acceptClient_stored later rejected
    rw [stored]
    exact ⟨rfl, rfl, rfl, rfl⟩

theorem client_unique {fd : Int} {c' : ClientSocket}
    (entry : w.clientFds_.find? fd = some (some c))
    (entry' : w.clientFds_.find? fd = some (some c')) : c = c' :=
  Option.some.inj (Option.some.inj (entry.symm.trans entry'))

theorem Vacant.not_client {fd : Int} (h : w.Vacant fd) :
    w.clientFds_.find? fd ≠ some (some c) := by
  intro entry
  obtain none | null := h
  · rw [entry] at none
    cases none
  · rw [entry] at null
    cases null

/-- The calls that an event adds are about its number: a handler call with the client
stored there, a `closeSocket` of this client, or the same with a null pointer. -/
theorem Works.added (works : Works w o w') {call : Call} (member : call ∈ w'.calls) :
    call ∈ w.calls ∨
    o.event.ident ≠ w.socket_ ∧
      ((∃ c, w.clientFds_.find? o.event.ident = some (some c) ∧
          ((∃ i, call = .handle i o.event.ident (some c)) ∨
            ∃ c', c'.id = c.id ∧ call = .closeSocket o.event.ident (some (some c')))) ∨
        (w.Vacant o.event.ident ∧
          ((∃ i, call = .handle i o.event.ident none) ∨
            (o.handler.ops = [] ∧ o.handler.result < 0 ∧
              call = .closeSocket o.event.ident (some none))))) := by
  have same (c : ClientSocket) : (c.performAll w.kernel o.handler.ops).1.id = c.id :=
    (c.performAll_local w.kernel o.handler.ops).id
  cases works with
  | accept listening =>
      rw [(w.acceptClient_frame o.accept o.destroy).1] at member
      exact .inl member
  | keep i c client entry kept =>
      simp only [served, logged, List.mem_append, List.mem_singleton] at member
      refine member.imp_right fun handled => ⟨client, .inl ⟨c, entry, .inl ⟨i, handled⟩⟩⟩
  | close i c client entry refused positive =>
      simp only [dropped, served, logged, List.mem_append, List.mem_singleton] at member
      obtain (before | handled) | closed := member
      · exact .inl before
      · exact .inr ⟨client, .inl ⟨c, entry, .inl ⟨i, handled⟩⟩⟩
      · exact .inr ⟨client, .inl ⟨c, entry, .inr ⟨_, same c, closed⟩⟩⟩
  | exit i c w' client entry refused server status calls =>
      simp only [calls, List.mem_append, List.mem_cons, List.not_mem_nil, or_false] at member
      obtain before | handled | closed := member
      · exact .inl before
      · exact .inr ⟨client, .inl ⟨c, entry, .inl ⟨i, handled⟩⟩⟩
      · exact .inr ⟨client, .inl ⟨c, entry, .inr ⟨_, same c, closed⟩⟩⟩
  | idle i client vacant untouched kept =>
      simp only [idled, logged, List.mem_append, List.mem_singleton] at member
      exact member.imp_right fun handled => ⟨client, .inr ⟨vacant, .inl ⟨i, handled⟩⟩⟩
  | crash i w' client vacant touched status calls =>
      simp only [calls, List.mem_append, List.mem_singleton] at member
      exact member.imp_right fun handled => ⟨client, .inr ⟨vacant, .inl ⟨i, handled⟩⟩⟩
  | closeNull i w' client vacant untouched refused status calls =>
      simp only [calls, List.mem_append, List.mem_cons, List.not_mem_nil, or_false] at member
      obtain before | handled | closed := member
      · exact .inl before
      · exact .inr ⟨client, .inr ⟨vacant, .inl ⟨i, handled⟩⟩⟩
      · exact .inr ⟨client, .inr ⟨vacant, .inr ⟨untouched, refused, closed⟩⟩⟩

/-- A readiness event calls a handler, with the client stored under its number or with
a null pointer. -/
theorem Works.handles (works : Works w o w') (client : o.event.ident ≠ w.socket_) :
    (∃ i c, w.clientFds_.find? o.event.ident = some (some c) ∧
        .handle i o.event.ident (some c) ∈ w'.calls) ∨
      (w.Vacant o.event.ident ∧ ∃ i, .handle i o.event.ident none ∈ w'.calls) := by
  cases works with
  | accept listening => exact absurd listening client
  | keep i c _ entry kept => exact .inl ⟨i, c, entry, by simp [served, logged]⟩
  | close i c _ entry refused positive =>
      exact .inl ⟨i, c, entry, by simp [dropped, served, logged]⟩
  | exit i c w' _ entry refused server status calls =>
      exact .inl ⟨i, c, entry, by simp [calls]⟩
  | idle i _ vacant untouched kept => exact .inr ⟨vacant, i, by simp [idled, logged]⟩
  | crash i w' _ vacant touched status calls => exact .inr ⟨vacant, i, by simp [calls]⟩
  | closeNull i w' _ vacant untouched refused status calls =>
      exact .inr ⟨vacant, i, by simp [calls]⟩

/-- A failure that is reported on an untouched null pointer reaches `closeSocket`. -/
theorem Works.closes_null (works : Works w o w') (client : o.event.ident ≠ w.socket_)
    (vacant : w.Vacant o.event.ident) (untouched : o.handler.ops = [])
    (refused : o.handler.result < 0) : .closeSocket o.event.ident (some none) ∈ w'.calls := by
  cases works with
  | accept listening => exact absurd listening client
  | keep i c _ entry kept => exact absurd entry vacant.not_client
  | close i c _ entry refused positive => exact absurd entry vacant.not_client
  | exit i c w' _ entry refused server status calls => exact absurd entry vacant.not_client
  | idle i _ vacant untouched kept => omega
  | crash i w' _ vacant touched status calls => exact absurd untouched touched
  | closeNull i w' _ vacant untouched refused status calls => simp [calls]

end SocketBase

end Mux.Socket
