import Mux.Programs.Kqueue
import Mux.Socket.Entries

/-!
# Reads that would block

`recv` reports bytes, the end of the stream, or an error, and one kind of error
says no more than that there is nothing to read yet. `ClientSocket::read` returns
0 for this kind and for the end of the stream alike. The read handler asks `errno`
only behind a negative result, so it takes a client that would block for one that
has gone, and the loop closes it.
-/

namespace Mux.Kqueue

open Socket Transition

/-- What `recv` reports about a descriptor. One that is not open is a bad one. -/
def reported (k : Kernel) (fd : Int) (outcome : RecvOutcome) : RecvOutcome :=
  if (k.opened fd).isSome then outcome else .failed (.other 9)

/-- There is nothing to read yet. -/
def WouldBlock (report : RecvOutcome) : Prop :=
  report = .failed .EAGAIN ∨ report = .failed .EWOULDBLOCK

/-- The end of the stream, or any other error. -/
def Ended (report : RecvOutcome) : Prop :=
  report = .received [] ∨ ∃ code, report = .failed (.other code)

/-- The server works off a read event of the client `c`. -/
structure ReadEvent (w : SocketBase) (o : Occurrence HandlerCalls) (c : ClientSocket) : Prop where
  running : w.status = .running
  client : o.event.ident ≠ w.socket_
  filter : o.event.filter = .interest .read
  entry : w.clientFds_.find? o.event.ident = some (some c)

/-- A client that would block is kept, with its connection, and one that has ended is
closed. -/
def ToldApart (w : SocketBase) (o : Occurrence HandlerCalls) : Prop :=
  ∀ c, ReadEvent w o c →
    let report := reported w.kernel c.clientFd_ o.handler.read.recv
    let after := w.pollEvent handlers o
    (WouldBlock report →
      (∃ c', after.clientFds_.find? o.event.ident = some (some c') ∧ c'.id = c.id) ∧
        after.kernel.owner o.event.ident = w.kernel.owner o.event.ident) ∧
    (Ended report →
      after.clientFds_.find? o.event.ident = none ∧ after.kernel.opened o.event.ident = none)

/-- No client would block, and `closeSocket` manages to close the descriptor of one that
has ended. -/
def Distinct (w : SocketBase) (o : Occurrence HandlerCalls) : Prop :=
  ∀ c, ReadEvent w o c →
    let report := reported w.kernel c.clientFd_ o.handler.read.recv
    ¬ WouldBlock report ∧
      (Ended report → 0 < o.event.ident → (w.kernel.opened o.event.ident).isSome = true →
        o.close.safetyClose.shutdown = true ∧ o.close.safetyClose.close = true)

def ToldApartBatch (w : SocketBase) : Option (List (Occurrence HandlerCalls)) → Prop
  | none => True
  | some events => Along (SocketBase.pollEvent handlers) ToldApart w.resume events

def DistinctBatch (w : SocketBase) : Option (List (Occurrence HandlerCalls)) → Prop
  | none => True
  | some events => Along (SocketBase.pollEvent handlers) Distinct w.resume events

/-! ## The handlers -/

/-- A client that would block and one that has ended get the same answer. -/
theorem handleRead_refuses (id : Nat) {fd : Int} {k : Kernel} {calls : HandlerCalls}
    (report : WouldBlock (reported k fd calls.read.recv) ∨ Ended (reported k fd calls.read.recv)) :
    ∃ k', handleRead calls (some (ClientSocket.established id fd)) k =
        some ⟨-1, some (ClientSocket.established id fd), k'⟩ ∧ k'.opened = k.opened := by
  have opened := k.recv_opened fd (default_buffer_size - 1) calls.read.recv
  obtain ⟨off | off, -⟩ | ⟨-, -, received⟩ := (ClientSocket.established id fd).read_cases k
    (default_buffer_size - 1) calls.read
  · cases off
  · cases off
  · refine ⟨(k.recv fd (default_buffer_size - 1) calls.read.recv).2.2, ?_, opened⟩
    have number : (ClientSocket.established id fd).clientFd_ = fd := rfl
    rw [number] at received
    cases live : k.opened fd with
    | none => simp [handleRead, received, Kernel.recv, live, ClientSocket.wouldBlock]
    | some d =>
        simp only [reported, live, Option.isSome_some, if_true] at report
        obtain (again | again) | end_ | ⟨code, error⟩ := report
        · simp [handleRead, received, Kernel.recv, live, again, ClientSocket.wouldBlock]
        · simp [handleRead, received, Kernel.recv, live, again, ClientSocket.wouldBlock]
        · simp [handleRead, received, Kernel.recv, live, end_]
        · simp [handleRead, received, Kernel.recv, live, error, ClientSocket.wouldBlock]

theorem respond_client (c : ClientSocket) (k : Kernel) (calls : HandlerCalls) :
    (respond c k calls).client = some c :=
  congrArg some (c.write_client k response calls.write).1

/-- The handlers leave the object as it is. -/
theorem handlers_client {i : Interest} {calls : HandlerCalls} {client : ClientPtr} {k : Kernel}
    {handled : Handled} (call : handlers i calls client k = some handled) :
    handled.client = client := by
  cases i with
  | write =>
      obtain rfl := Option.some.inj call
      rfl
  | read =>
      cases client with
      | none => cases call
      | some c =>
          have same := (c.read_client k (default_buffer_size - 1) calls.read).1
          simp only [handlers, handleRead] at call
          split at call
          · obtain rfl := Option.some.inj call
            rw [respond_client, same]
          · split at call
            · obtain rfl := Option.some.inj call
              exact congrArg some same
            · split at call
              · obtain rfl := Option.some.inj call
                rw [respond_client, same]
              · obtain rfl := Option.some.inj call
                exact congrArg some same

/-- The clients of this program are as `accept` made them, until they are closed. -/
def Established : SocketBase → Prop :=
  SocketBase.Entries fun fd entry =>
    fd ≠ -1 ∧ ∀ c, entry = some c → 0 ≤ fd ∧ c = ClientSocket.established c.id fd

theorem admits_established : SocketBase.Admits handlers fun fd entry =>
    fd ≠ -1 ∧ ∀ c, entry = some c → 0 ≤ fd ∧ c = ClientSocket.established c.id fd where
  accepted id fd valid := by
    refine ⟨by omega, fun c same => ⟨valid, ?_⟩⟩
    obtain rfl := Option.some.inj same
    rfl
  entered fd valid := ⟨valid, fun c same => by cases same⟩
  handled i script fd client k handled call before := by
    rw [handlers_client call]
    exact before

/-! ## A refused read -/

variable {w : SocketBase} {o : Occurrence HandlerCalls} {c : ClientSocket}

/-- The entry is removed, and the descriptor is closed if `closeSocket` can close it. The
number 0 stands for the server: the program ends, and everything is closed. -/
theorem closeSocket_established {fd : Int} (stored : w.clientFds_.find? fd = some (some c))
    (valid : 0 ≤ fd) (established : c = ClientSocket.established c.id fd)
    (calls later : CloseCalls) :
    (w.closeSocket fd calls later).2.clientFds_.find? fd = none ∧
      ((w.closeSocket fd calls later).2.kernel.opened fd = none ↔
        (0 < fd → (w.kernel.opened fd).isSome = true →
          calls.safetyClose.shutdown = true ∧ calls.safetyClose.close = true)) := by
  have clientFd : c.clientFd_ = fd := by rw [established]; rfl
  have connected : c.isConnected_ = true := by rw [established]; rfl
  subst clientFd
  by_cases positive : 0 < c.clientFd_
  · rw [SocketBase.closeSocket_client stored positive]
    refine ⟨UnorderedMap.find?_erase _ _, ?_⟩
    show (c.close w.kernel calls).kernel.opened c.clientFd_ = none ↔ _
    by_cases live : (w.kernel.opened c.clientFd_).isSome = true
    · rw [c.close_opened_iff connected valid live calls]
      exact ⟨fun both _ _ => both, fun both => both positive live⟩
    · refine iff_of_true ?_ fun _ open_ => absurd open_ live
      apply Option.eq_none_iff_forall_ne_some.mpr
      intro d found
      obtain ⟨before, found', -⟩ := (c.close_releases w.kernel calls).within d found
      exact live (by rw [found']; rfl)
  · simp only [SocketBase.closeSocket, stored, gt_iff_lt, if_neg positive,
      UnorderedMap.find?_empty, true_and]
    exact iff_of_true trivial fun positive' => absurd positive' positive

/-- The handler refuses the client, and the server closes it. -/
theorem pollEvent_refused (h : Established w) (event : ReadEvent w o c)
    (report : WouldBlock (reported w.kernel c.clientFd_ o.handler.read.recv) ∨
      Ended (reported w.kernel c.clientFd_ o.handler.read.recv)) :
    (w.pollEvent handlers o).clientFds_.find? o.event.ident = none ∧
      ((w.pollEvent handlers o).kernel.opened o.event.ident = none ↔
        (0 < o.event.ident → (w.kernel.opened o.event.ident).isSome = true →
          o.close.safetyClose.shutdown = true ∧ o.close.safetyClose.close = true)) := by
  obtain ⟨number, clients⟩ := h o.event.ident (some c) event.entry
  obtain ⟨valid, established⟩ := clients c rfl
  have clientFd : c.clientFd_ = o.event.ident := by rw [established]; rfl
  rw [clientFd] at report
  obtain ⟨k', refused, opened⟩ := handleRead_refuses c.id report
  rw [← established] at refused
  let handled : SocketBase := { w.logged (.handle .read o.event.ident (some c)) with
    clientFds_ := w.clientFds_.insert o.event.ident (some c)
    kernel := k' }
  have stored : handled.clientFds_.find? o.event.ident = some (some c) :=
    UnorderedMap.find?_insert _ _ _
  have after : w.pollEvent handlers o =
      (handled.closeSocket o.event.ident o.close o.destroy).2 := by
    rw [SocketBase.pollEvent_client event.running event.client number event.filter,
      UnorderedMap.subscript_present event.entry]
    simp [SocketBase.handleClient, handlers, SocketBase.logged, refused, handled]
  rw [after, ← opened]
  exact closeSocket_established stored valid established o.close o.destroy

theorem toldApart_iff (h : Established w) : ToldApart w o ↔ Distinct w o := by
  refine forall_congr' fun c => forall_congr' fun event => ?_
  constructor
  · rintro ⟨kept, closed⟩
    refine ⟨fun blocks => ?_, fun ended => ?_⟩
    · obtain ⟨⟨c', found, -⟩, -⟩ := kept blocks
      rw [(pollEvent_refused h event (.inl blocks)).1] at found
      cases found
    · exact (pollEvent_refused h event (.inr ended)).2.mp (closed ended).2
  · rintro ⟨never, closes⟩
    refine ⟨fun blocks => absurd blocks never, fun ended => ?_⟩
    obtain ⟨gone, closed⟩ := pollEvent_refused h event (.inr ended)
    exact ⟨gone, closed.mpr (closes ended)⟩

theorem toldApartBatch_iff (h : Established w)
    (batch : Option (List (Occurrence HandlerCalls))) :
    ToldApartBatch w batch ↔ DistinctBatch w batch := by
  cases batch with
  | none => exact Iff.rfl
  | some events =>
      have resumed : Established w.resume := h
      exact along_iff_along (I := Established) (A := fun _ _ => True)
        (fun w o h _ => toldApart_iff h) (fun w o h _ _ => h.pollEvent admits_established) resumed
        (.of_mem fun _ _ => trivial)

/-- In every run of the program the two kinds of reads are told apart exactly when no read
of a client would block, and the calls that close a client which has ended succeed. -/
theorem toldApart_iff_distinct {batches : List (Option (List (Occurrence HandlerCalls)))}
    (fresh : w.clientFds_ = .empty) :
    Along (SocketBase.pollingHandler handlers) ToldApartBatch w batches ↔
      Along (SocketBase.pollingHandler handlers) DistinctBatch w batches := by
  have start : Established w := .of_empty fresh
  exact along_iff_along (I := Established) (A := fun _ _ => True)
    (fun w batch h _ => toldApartBatch_iff h batch)
    (fun w batch h _ _ => h.pollingHandler admits_established batch) start
    (.of_mem fun _ _ => trivial)

/-- The client under 5 is ready to be read, with the given outcome of `recv`. -/
def reads (recv : RecvOutcome) : Occurrence HandlerCalls :=
  { asked 77 with handler := ⟨⟨true, recv⟩, ⟨true, .accepted 77⟩⟩ }

/-- The client closes its side, and `closeSocket` closes the connection. -/
theorem toldApart_ended : Along (SocketBase.pollingHandler handlers) ToldApartBatch
    SocketBase.listener [some [arrives], some [reads (.received [])]] := by
  refine (toldApart_iff_distinct rfl).mpr ⟨⟨?_, trivial⟩, ⟨?_, trivial⟩, trivial⟩
  · intro c event
    exact absurd event.client (by decide)
  · intro c event
    obtain rfl : ClientSocket.established 1 5 = c :=
      Option.some.inj (Option.some.inj event.entry)
    refine ⟨?_, fun _ _ _ => ⟨rfl, rfl⟩⟩
    rintro (again | again)
    · cases again
    · cases again

/-- The client has sent nothing yet, and its connection is closed. -/
theorem blocked_not_toldApart :
    SocketBase.Start SocketBase.listener ∧
      Along (SocketBase.pollingHandler handlers) SocketBase.LegalBatch SocketBase.listener
        [some [arrives], some [reads (.failed .EAGAIN)]] ∧
      ¬ Along (SocketBase.pollingHandler handlers) ToldApartBatch SocketBase.listener
        [some [arrives], some [reads (.failed .EAGAIN)]] := by
  refine ⟨SocketBase.listener_start, ⟨by decide, by decide, trivial⟩, ?_⟩
  rintro ⟨-, ⟨apart, -⟩, -⟩
  have kept := (apart (ClientSocket.established 1 5) ⟨rfl, by decide, rfl, rfl⟩).1 (.inl rfl)
  exact absurd kept.2 (by decide)

end Mux.Kqueue
