import Mux.Socket.Consistency

/-!
# The kqueue server program

The two handlers of the program: the read handler reads and answers every read
with one fixed response, the write handler does nothing. A response is written
by one `send`, and the number of bytes that were accepted is not looked at.
-/

namespace Mux.Kqueue

open Socket Transition

/-- The outcomes of the calls that the read handler makes. -/
structure HandlerCalls where
  read : ReadCalls
  write : WriteCalls
  deriving DecidableEq, Repr

def default_buffer_size : Nat := 4096

def response : Str :=
  "HTTP/1.1 200 OK\r\nContent-Type: text/plain\r\nContent-Length: 12\r\n\r\nHello World!".toList

/-- The second half of the read handler. -/
def respond (c : ClientSocket) (k : Kernel) (calls : HandlerCalls) : Handled :=
  let written := c.write k response calls.write
  ⟨if written.result < 0 then -1 else 1, some written.client, written.kernel⟩

def handleRead : HandleOperation HandlerCalls := fun calls client k =>
  match client with
  | none => none
  | some c =>
      let (got, _) := c.read k (default_buffer_size - 1) calls.read
      if got.result > 0 then some (respond got.client got.kernel calls)
      else if got.result = 0 then some ⟨-1, some got.client, got.kernel⟩
      else if got.kernel.errno = .EAGAIN ∨ got.kernel.errno = .EWOULDBLOCK then
        some (respond got.client got.kernel calls)
      else some ⟨-1, some got.client, got.kernel⟩

def handleWrite : HandleOperation HandlerCalls := fun _ client k => some ⟨1, client, k⟩

/-- The handlers that `main` passes to the server in its endless loop. -/
def handlers : Interest → HandleOperation HandlerCalls
  | .read => handleRead
  | .write => handleWrite

/-! ## Whole responses -/

/-- The bytes of `n` whole responses. -/
def responses (n : Nat) : Str := (List.replicate n response).flatten

theorem length_response : response.length = 77 := by decide

theorem responses_succ (n : Nat) : responses (n + 1) = responses n ++ response := by
  simp [responses, List.replicate_succ']

theorem length_responses (n : Nat) : (responses n).length = n * response.length := by
  simp [responses]

/-- The bytes accepted for a connection are whole responses; the last one may be cut
short when the connection is closed. -/
def Whole (k : Kernel) (conn : Nat) : Prop :=
  ∃ n, k.sent conn = responses n ∨
    ∃ part, part <+: response ∧ k.sent conn = responses n ++ part ∧ ∀ fd, k.owner fd ≠ some conn

/-- The responses of every connection, between any two events of a batch. -/
def WholeBatch (w : SocketBase) : Option (List (Occurrence HandlerCalls)) → Prop
  | none => True
  | some events =>
      Throughout (SocketBase.pollEvent handlers) (fun w => ∀ conn, Whole w.kernel conn)
        w.resume events

/-- A `send` of a response accepts all of it or nothing. -/
def SendsWhole (o : Occurrence HandlerCalls) : Prop :=
  ∀ count, o.handler.write.send = .accepted count → count = 0 ∨ response.length ≤ count

def SendsWholeBatch : Option (List (Occurrence HandlerCalls)) → Prop
  | none => True
  | some events => ∀ o ∈ events, SendsWhole o

/-- Every connection has been sent whole responses only. -/
def AllWhole (sent : Nat → Str) : Prop := ∀ conn, ∃ n, sent conn = responses n

theorem AllWhole.whole {k : Kernel} (h : AllWhole k.sent) (conn : Nat) : Whole k conn := by
  obtain ⟨n, sent⟩ := h conn
  exact ⟨n, .inl sent⟩

theorem respond_sent {o : Occurrence HandlerCalls} (sends : SendsWhole o) (c : ClientSocket)
    {k : Kernel} (before : AllWhole k.sent) :
    AllWhole (respond c k o.handler).kernel.sent := by
  obtain same | ⟨conn, count, accepted, sent⟩ := c.write_sent k response o.handler.write
  · simp only [respond, same]
    exact before
  · intro x
    obtain ⟨n, whole⟩ := before x
    simp only [respond, sent]
    by_cases here : x = conn
    · subst here
      rw [Function.update_self, whole]
      obtain none | all := sends count accepted
      · exact ⟨n, by rw [none, List.take_zero, List.append_nil]⟩
      · exact ⟨n + 1, by rw [List.take_of_length_le all, responses_succ]⟩
    · exact ⟨n, by rw [Function.update_of_ne here, whole]⟩

theorem handleRead_sent {o : Occurrence HandlerCalls} (sends : SendsWhole o) {client : ClientPtr}
    {k : Kernel} {handled : Handled} (call : handleRead o.handler client k = some handled)
    (before : AllWhole k.sent) : AllWhole handled.kernel.sent := by
  cases client with
  | none => cases call
  | some c =>
      have read := c.read_sent k (default_buffer_size - 1) o.handler.read
      have got : AllWhole (c.read k (default_buffer_size - 1) o.handler.read).1.kernel.sent := by
        rw [read]
        exact before
      simp only [handleRead] at call
      split at call
      · obtain rfl := Option.some.inj call
        exact respond_sent sends _ got
      · split at call
        · obtain rfl := Option.some.inj call
          exact got
        · split at call
          · obtain rfl := Option.some.inj call
            exact respond_sent sends _ got
          · obtain rfl := Option.some.inj call
            exact got

theorem pollEvent_allWhole {w : SocketBase} {o : Occurrence HandlerCalls} (sends : SendsWhole o)
    (before : AllWhole w.kernel.sent) : AllWhole (w.pollEvent handlers o).kernel.sent := by
  refine SocketBase.pollEvent_sent ?_ before
  intro i client k handled call whole
  cases i with
  | read => exact handleRead_sent sends call whole
  | write =>
      obtain rfl := Option.some.inj call
      exact whole

theorem batch_allWhole {w : SocketBase} {batch : Option (List (Occurrence HandlerCalls))}
    (sends : SendsWholeBatch batch) (before : AllWhole w.kernel.sent) :
    WholeBatch w batch ∧ AllWhole (w.pollingHandler handlers batch).kernel.sent := by
  cases batch with
  | none => exact ⟨trivial, before⟩
  | some events =>
      have event (w : SocketBase) (o : Occurrence HandlerCalls) (whole : AllWhole w.kernel.sent)
          (sends : SendsWhole o) : AllWhole (w.pollEvent handlers o).kernel.sent :=
        pollEvent_allWhole sends whole
      have promised :
          Along (SocketBase.pollEvent handlers) (fun _ o => SendsWhole o) w.resume events :=
        .of_mem sends
      exact ⟨.of_invariant event (fun w whole => whole.whole) before promised,
        run_invariant (I := fun w : SocketBase => AllWhole w.kernel.sent) event before promised⟩

/-- In every run of the program in which no `send` accepts a part of a response, every
connection has been sent whole responses at any time. -/
theorem whole_of_sendsWhole {w : SocketBase}
    {batches : List (Option (List (Occurrence HandlerCalls)))}
    (fresh : ∀ conn, w.kernel.sent conn = []) (sends : ∀ batch ∈ batches, SendsWholeBatch batch) :
    Along (SocketBase.pollingHandler handlers) WholeBatch w batches := by
  refine Along.of_invariant (I := fun w : SocketBase => AllWhole w.kernel.sent)
    (P := fun _ batch => SendsWholeBatch batch) ?_ ?_ ?_ (.of_mem sends)
  · exact fun w batch before sends => (batch_allWhole sends before).2
  · exact fun w batch before sends => (batch_allWhole sends before).1
  · exact fun conn => ⟨0, fresh conn⟩

/-- The client under 5 has sent a byte, and `send` accepts `count` bytes of the response. -/
def asked (count : Nat) : Occurrence HandlerCalls where
  event := { ident := 5, filter := .interest .read }
  accept := .succeeds 0
  handler := ⟨⟨true, .received ['x']⟩, ⟨true, .accepted count⟩⟩
  close := .succeeds
  destroy := .succeeds

/-- A connection that arrives and is accepted under the number 5. -/
def arrives : Occurrence HandlerCalls where
  event := { ident := 3, filter := .interest .read }
  accept := .succeeds 5
  handler := ⟨⟨true, .received []⟩, ⟨true, .accepted 0⟩⟩
  close := .succeeds
  destroy := .succeeds

/-- The condition cannot be weakened: after a `send` that accepts a part of a response
the connection is open, and what it was sent is no longer whole. -/
theorem part_not_whole {c : ClientSocket} {k : Kernel} {calls : HandlerCalls} {conn n count : Nat}
    (before : k.sent conn = responses n) (owner : k.owner c.clientFd_ = some conn)
    (connected : c.isConnected_ = true) (writer : c.isWriter_ = true)
    (accepted : calls.write.send = .accepted count) (some_ : 0 < count)
    (part : count < response.length) : ¬ Whole (respond c k calls).kernel conn := by
  obtain ⟨d, live, rfl⟩ := Option.map_eq_some_iff.mp owner
  have written : (respond c k calls).kernel =
      (k.send c.clientFd_ response (.accepted count)).2 := by
    simp [respond, ClientSocket.write, ClientSocket.setWriter, ClientSocket.setInterest,
      ClientSocket.interest, connected, writer, accepted]
  have keeps := k.send_keeps c.clientFd_ response (.accepted count)
  have sent : (k.send c.clientFd_ response (.accepted count)).2.sent d.conn =
      responses n ++ response.take count := by
    simp [Kernel.send, live, before]
  rintro ⟨m, all | ⟨rest, -, -, closed⟩⟩
  · rw [written, sent] at all
    have lengths := congrArg List.length all
    rw [List.length_append, length_responses, length_responses, List.length_take_of_le part.le,
      length_response] at lengths
    rw [length_response] at part
    omega
  · rw [written, keeps.owners] at closed
    exact closed c.clientFd_ owner

/-- A client that asks twice and is answered twice. -/
theorem whole_asked_twice : Along (SocketBase.pollingHandler handlers) WholeBatch
    SocketBase.listener [some [arrives], some [asked 77], some [asked 77]] := by
  have none : SendsWhole arrives :=
    fun count accepted => .inl (SendOutcome.accepted.inj accepted).symm
  have all : SendsWhole (asked 77) := by
    intro count accepted
    obtain rfl := SendOutcome.accepted.inj accepted
    exact .inr length_response.le
  refine whole_of_sendsWhole (fun _ => rfl) ?_
  simp only [List.forall_mem_cons, SendsWholeBatch, List.not_mem_nil, false_imp_iff, implies_true,
    and_true]
  exact ⟨none, all, all⟩

/-- The first response is accepted up to its tenth byte, and the second one follows. -/
theorem glued_not_whole :
    SocketBase.Start SocketBase.listener ∧
      Along (SocketBase.pollingHandler handlers) SocketBase.LegalBatch SocketBase.listener
        [some [arrives], some [asked 10], some [asked 77]] ∧
      ¬ Along (SocketBase.pollingHandler handlers) WholeBatch SocketBase.listener
        [some [arrives], some [asked 10], some [asked 77]] := by
  refine ⟨SocketBase.listener_start, ?_, ?_⟩
  · exact ⟨by decide, by decide, by decide, trivial⟩
  · rintro ⟨-, -, ⟨-, whole⟩, -⟩
    obtain ⟨n, all | ⟨part, -, -, closed⟩⟩ := whole 1
    · have lengths := congrArg List.length all
      rw [length_responses, length_response] at lengths
      have sent : 87 = n * 77 := lengths
      omega
    · exact closed 5 rfl

end Mux.Kqueue
