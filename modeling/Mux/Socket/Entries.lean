import Mux.Socket.AcceptOutcomes
import Mux.Socket.Consistency

/-!
# The entries of the client map

What holds of every entry of `clientFds_` in every run: it has to hold of what
`accept` stores, of the null pointer that a lookup enters, and of what a handler
makes of an entry. One such fact is that no entry is under the number -1. That
number stands for the server, and `closeSocket` asks the map first: the branch
that closes the server is never taken for it.
-/

namespace Mux.Socket

open Transition

namespace SocketBase

variable {χ : Type} {handle : Interest → HandleOperation χ} {w : SocketBase} {o : Occurrence χ}
variable {P : Int → ClientPtr → Prop}

/-- Every entry of the map, and the number that it is stored under, meet `P`. -/
def Entries (P : Int → ClientPtr → Prop) (w : SocketBase) : Prop :=
  ∀ fd entry, w.clientFds_.find? fd = some entry → P fd entry

/-- What every entry that an event makes meets, when the others do. -/
structure Admits (handle : Interest → HandleOperation χ) (P : Int → ClientPtr → Prop) : Prop where
  accepted : ∀ id fd, 0 ≤ fd → P fd (some (ClientSocket.established id fd))
  entered : ∀ fd, fd ≠ -1 → P fd none
  handled : ∀ i script fd client k handled, handle i script client k = some handled →
    P fd client → P fd handled.client

theorem Entries.of_empty (fresh : w.clientFds_ = .empty) : Entries P w := by
  intro fd entry found
  rw [fresh, UnorderedMap.find?_empty] at found
  cases found

theorem Entries.insert (h : Entries P w) {w' : SocketBase} {fd : Int} {entry : ClientPtr}
    (this : P fd entry) (stored : w'.clientFds_ = w.clientFds_.insert fd entry) : Entries P w' := by
  intro x entry' found
  rw [stored] at found
  obtain ⟨rfl, rfl⟩ | ⟨-, before⟩ := UnorderedMap.find?_insert_eq_some.mp found
  · exact this
  · exact h x entry' before

theorem Entries.subscript (h : Entries P w) {fd : Int} (null : P fd none) :
    Entries P { w with clientFds_ := (w.clientFds_.subscript none fd).2 } ∧
      P fd (w.clientFds_.subscript none fd).1 := by
  cases found : w.clientFds_.find? fd with
  | none =>
      rw [UnorderedMap.subscript_absent found]
      exact ⟨h.insert null rfl, null⟩
  | some entry =>
      rw [UnorderedMap.subscript_present found]
      exact ⟨h, h fd entry found⟩

theorem Entries.acceptClient (h : Entries P w)
    (accepted : ∀ id fd, 0 ≤ fd → P fd (some (ClientSocket.established id fd)))
    (calls : AcceptCalls) (later : CloseCalls) : Entries P (w.acceptClient calls later) := by
  by_cases rejected : ((ClientSocket.new w.nextId).accept w.kernel calls).result = -1
  · rw [acceptClient_rejected rejected]
    exact h
  · obtain ⟨k, -, stored⟩ := acceptClient_stored later rejected
    obtain ⟨-, client⟩ := ClientSocket.accept_client w.nextId w.kernel rejected
    rw [stored, client]
    exact h.insert (accepted w.nextId _ (ClientSocket.accept_valid rejected)) rfl

/-- `closeSocket` only removes entries. -/
theorem Entries.closeSocket (h : Entries P w) (client : Int) (calls later : CloseCalls) :
    Entries P (w.closeSocket client calls later).2 := by
  rcases entry : w.clientFds_.find? client with _ | clientSock
  · simp only [SocketBase.closeSocket, entry]
    exact h
  · by_cases positive : 0 < client
    · cases clientSock with
      | none =>
          simp only [SocketBase.closeSocket, entry, gt_iff_lt, if_pos positive]
          exact h
      | some c =>
          rw [closeSocket_client entry positive]
          exact fun x entry' found => h x entry' (UnorderedMap.find?_erase_eq_some.mp found).2
    · simp only [SocketBase.closeSocket, entry, gt_iff_lt, if_neg positive]
      exact .of_empty rfl

theorem Entries.handleClient (h : Entries P w) {i : Interest} {fd : Int} {client : ClientPtr}
    (handled : ∀ r, handle i o.handler client w.kernel = some r → P fd r.client) :
    Entries P (w.handleClient handle i fd client o) := by
  unfold SocketBase.handleClient
  cases call : handle i o.handler client w.kernel with
  | none =>
      simp only [logged, call]
      exact h
  | some r =>
      let after : SocketBase := { w.logged (.handle i fd client) with
        clientFds_ := w.clientFds_.insert fd r.client
        kernel := r.kernel }
      have stored : Entries P after := h.insert (handled r call) rfl
      simp only [logged, call]
      split
      · exact stored.closeSocket fd o.close o.destroy
      · exact stored

theorem Entries.unexpected (h : Entries P w) (fd : Int) (o : Occurrence χ) :
    Entries P (w.unexpected fd o) := by
  have client := h.closeSocket fd o.close o.destroy
  have server := client.closeSocket (-1) o.close o.destroy
  unfold SocketBase.unexpected
  split
  · dsimp only
    split
    · split
      · exact server
      · exact server
    · exact client
  · exact h

theorem Entries.pollEvent (h : Entries P w) (admits : Admits handle P) :
    Entries P (w.pollEvent handle o) := by
  by_cases running : w.status = .running
  · by_cases listening : o.event.ident = w.socket_
    · rw [pollEvent_accept running listening]
      exact h.acceptClient admits.accepted o.accept o.destroy
    · by_cases valid : o.event.ident = -1
      · simp only [SocketBase.pollEvent, running, ne_eq, not_true_eq_false, if_false, listening,
          if_pos valid]
        exact h
      · obtain ⟨entered, entry⟩ := h.subscript (admits.entered o.event.ident valid)
        cases filter : o.event.filter with
        | interest i =>
            rw [pollEvent_client running listening valid filter]
            refine entered.handleClient fun r call => ?_
            exact admits.handled i o.handler o.event.ident _ _ r call entry
        | other =>
            rw [pollEvent_other running listening valid filter]
            exact entered.unexpected o.event.ident o
  · rw [pollEvent_stopped running]
    exact h

theorem Entries.pollingHandler (h : Entries P w) (admits : Admits handle P)
    (batch : Option (List (Occurrence χ))) : Entries P (w.pollingHandler handle batch) := by
  cases batch with
  | none => exact h
  | some events =>
      have resumed : Entries P w.resume := h
      exact run_preserves (I := Entries P) (fun w o _ h => h.pollEvent admits) resumed

/-! ## Closing the server -/

/-- What a program does with its server: it calls the loop once more, the loop works off an
event, or a socket is closed. -/
inductive Use (χ : Type) where
  | resume
  | event (o : Occurrence χ)
  | close (client : Int) (calls later : CloseCalls)

/-- Nothing is done any more after `exit` or a crash. -/
def use (handle : Interest → HandleOperation χ) (w : SocketBase) : Use χ → SocketBase
  | .resume => w.resume
  | .event o => w.pollEvent handle o
  | .close client calls later =>
      if w.status = .running ∨ w.status = .returned then (w.closeSocket client calls later).2 else w

/-- `closeSocket(-1)` closes the listening descriptor that the object holds, and empties the
map. -/
def Stops (w : SocketBase) : Prop :=
  ∀ calls later : CloseCalls,
    (w.closeSocket (-1) calls later).2.kernel.opened w.socket_ = none ∧
      (w.closeSocket (-1) calls later).2.clientFds_ = .empty

/-- There is nothing to stop. -/
def Stopped (w : SocketBase) : Prop :=
  w.kernel.opened w.socket_ = none ∧ w.clientFds_ = .empty

/-- Without an entry `closeSocket` returns before it has done anything. -/
theorem closeSocket_absent {client : Int} (absent : w.clientFds_.find? client = none)
    (calls later : CloseCalls) :
    w.closeSocket client calls later = (true, w.logged (.closeSocket client none)) := by
  simp only [closeSocket, absent]

/-- No entry is under the number that stands for the server. -/
def Unnumbered : SocketBase → Prop := Entries fun fd _ => fd ≠ -1

theorem admits_unnumbered (handle : Interest → HandleOperation χ) :
    Admits handle fun fd _ => fd ≠ -1 where
  accepted _ fd valid := by omega
  entered _ valid := valid
  handled _ _ _ _ _ _ _ valid := valid

theorem Unnumbered.use (h : Unnumbered w) (u : Use χ) : Unnumbered (w.use handle u) := by
  cases u with
  | resume => exact h
  | event o => exact Entries.pollEvent h (admits_unnumbered handle)
  | close client calls later =>
      simp only [SocketBase.use]
      split
      · exact Entries.closeSocket h client calls later
      · exact h

theorem Unnumbered.absent (h : Unnumbered w) : w.clientFds_.find? (-1) = none := by
  cases found : w.clientFds_.find? (-1) with
  | none => rfl
  | some entry => exact absurd rfl (h (-1) entry found)

theorem Unnumbered.stops_iff (h : Unnumbered w) : Stops w ↔ Stopped w := by
  have nothing := closeSocket_absent (w := w) h.absent
  constructor
  · intro stops
    have both := stops .succeeds .succeeds
    rw [nothing] at both
    exact both
  · intro stopped calls later
    rw [nothing]
    exact stopped

/-- In every state that a program can bring its server into, whatever the handlers and the
system calls return, `closeSocket(-1)` stops the server exactly when there is nothing to
stop. -/
theorem stops_iff_stopped {uses : List (Use χ)} (fresh : w.clientFds_ = .empty) :
    Throughout (use handle) (fun w => Stops w ↔ Stopped w) w uses := by
  have start : Unnumbered w := .of_empty fresh
  refine Throughout.of_invariant (P := fun _ _ => True) (fun w u h _ => h.use u)
    (fun w h => h.stops_iff) start ?_
  exact .of_mem fun _ _ => trivial

/-- As long as the listening socket is open, the server is not stopped. -/
theorem Consistent.not_stops (consistent : Consistent w) (h : Unnumbered w) : ¬ Stops w := by
  rw [h.stops_iff]
  rintro ⟨closed, -⟩
  apply consistent.listening
  rw [Kernel.owner, closed, Option.map_none]

/-- A client is accepted, and `closeSocket(-1)` is called. -/
theorem accepted_stops_iff :
    Throughout (use scripted) (fun w => Stops w ↔ Stopped w) listener [.event (incoming 5)] :=
  stops_iff_stopped rfl

/-- The listening socket of the new server stays open. -/
theorem accepted_not_stops : ¬ Throughout (use scripted) Stops listener [.event (incoming 5)] := by
  rintro ⟨stops, -⟩
  have closed := (stops .succeeds .succeeds).1
  exact absurd (congrArg Option.isSome closed) (by decide)

end SocketBase

end Mux.Socket
