import Mux.Programs.WouldBlock
import Mux.Socket.ReduceEvents

/-!
# The handlers of the program in generators

The read handler looks at `errno`, which all calls share. In front of each look it has made a
call of its own that has failed, as long as its client is connected and registered for reading
and writing. Every client of the program is, so the handlers act on their own client only.
-/

namespace Mux.Kqueue

open Socket Transition

section Own

variable {w : SocketBase} {k k' : Kernel} {handled handled' : Handled} {calls : HandlerCalls}
variable {id : Nat} {fd : Int}

/-- Neither handler changes a descriptor. -/
theorem handlers_opened {i : Interest} {client : ClientPtr}
    (call : handlers i calls client k = some handled) : handled.kernel.opened = k.opened := by
  cases i with
  | write =>
      obtain rfl := Option.some.inj call
      rfl
  | read =>
      cases client with
      | none => cases call
      | some c =>
          obtain ⟨-, opened⟩ := c.read_client k (default_buffer_size - 1) calls.read
          have answered := (ClientSocket.write_client
            (c.read k (default_buffer_size - 1) calls.read).1.client
            (c.read k (default_buffer_size - 1) calls.read).1.kernel response calls.write).2
          simp only [handlers, handleRead] at call
          split at call
          · obtain rfl := Option.some.inj call
            exact answered.trans opened
          · split at call
            · obtain rfl := Option.some.inj call
              exact opened
            · split at call
              · obtain rfl := Option.some.inj call
                exact answered.trans opened
              · obtain rfl := Option.some.inj call
                exact opened

/-- What a call of `send` returns is decided by the descriptor, and after a failure `errno` is. -/
theorem send_congr (buff : Str) (outcome : SendOutcome) (same : k'.opened fd = k.opened fd) :
    (k'.send fd buff outcome).1 = (k.send fd buff outcome).1 ∧
      ((k.send fd buff outcome).1 = -1 →
        (k'.send fd buff outcome).2.errno = (k.send fd buff outcome).2.errno) := by
  rw [Kernel.send.eq_def, Kernel.send.eq_def, same]
  cases k.opened fd with
  | none => exact ⟨rfl, fun _ => rfl⟩
  | some d =>
      cases outcome with
      | accepted count =>
          refine ⟨rfl, fun failed => ?_⟩
          dsimp only at failed
          omega
      | failed errno => exact ⟨rfl, fun _ => rfl⟩

/-- What `write` returns is decided by the descriptor. -/
theorem respond_congr (same : k'.opened fd = k.opened fd) :
    (respond (ClientSocket.established id fd) k' calls).result =
      (respond (ClientSocket.established id fd) k calls).result := by
  have sent (k : Kernel) : (ClientSocket.established id fd).write k response calls.write =
      ⟨if (k.send fd response calls.write.send).1 = -1 then
          ClientSocket.wouldBlock (k.send fd response calls.write.send).2
        else (k.send fd response calls.write.send).1, ClientSocket.established id fd,
          (k.send fd response calls.write.send).2⟩ := by
    obtain ⟨off | off, -⟩ | ⟨-, -, sent⟩ :=
      (ClientSocket.established id fd).write_cases k response calls.write
    · cases off
    · cases off
    · exact sent
  obtain ⟨result, errno⟩ := send_congr response calls.write.send same
  rw [respond, respond, sent, sent]
  dsimp only
  rw [result]
  split
  · next failed => rw [ClientSocket.wouldBlock, ClientSocket.wouldBlock, errno failed]
  · rfl

/-- Bytes from the client are answered. -/
theorem handleRead_answers {bytes : Str} (live : (k.opened fd).isSome = true)
    (received : calls.read.recv = .received bytes) (some_ : bytes ≠ []) :
    handleRead calls (some (ClientSocket.established id fd)) k =
      some (respond (ClientSocket.established id fd)
        (k.recv fd (default_buffer_size - 1) calls.read.recv).2.2 calls) := by
  obtain ⟨d, live⟩ := Option.isSome_iff_exists.mp live
  obtain ⟨byte, bytes, rfl⟩ := List.exists_cons_of_ne_nil some_
  obtain ⟨off | off, -⟩ | ⟨-, -, read⟩ := (ClientSocket.established id fd).read_cases k
    (default_buffer_size - 1) calls.read
  · cases off
  · cases off
  · have number : (ClientSocket.established id fd).clientFd_ = fd := rfl
    rw [number] at read
    have count : (k.recv fd (default_buffer_size - 1) calls.read.recv).1 =
        ((byte :: bytes).take (default_buffer_size - 1)).length := by
      simp [Kernel.recv, live, received]
    have positive : (0 : Int) < ((byte :: bytes).take (default_buffer_size - 1)).length := by
      simp [default_buffer_size]
    have valid : (((byte :: bytes).take (default_buffer_size - 1)).length : Int) ≠ -1 := by omega
    rw [count, if_neg valid] at read
    simp only [handleRead, read, gt_iff_lt, if_pos positive]

/-- What the read handler returns is decided by the descriptor. -/
theorem handleRead_congr (same : k'.opened fd = k.opened fd)
    (call : handleRead calls (some (ClientSocket.established id fd)) k = some handled)
    (call' : handleRead calls (some (ClientSocket.established id fd)) k' = some handled') :
    handled'.result = handled.result := by
  by_cases refused : WouldBlock (reported k fd calls.read.recv) ∨
      Ended (reported k fd calls.read.recv)
  · have refused' : WouldBlock (reported k' fd calls.read.recv) ∨
        Ended (reported k' fd calls.read.recv) := by rwa [reported, same, ← reported]
    obtain ⟨_, refusal, -⟩ := handleRead_refuses id refused
    obtain ⟨_, refusal', -⟩ := handleRead_refuses id refused'
    obtain rfl := Option.some.inj (call.symm.trans refusal)
    obtain rfl := Option.some.inj (call'.symm.trans refusal')
    rfl
  · obtain ⟨live, bytes, received, some_⟩ : (k.opened fd).isSome = true ∧
        ∃ bytes, calls.read.recv = .received bytes ∧ bytes ≠ [] := by
      cases live : (k.opened fd).isSome with
      | false => exact absurd (.inr (.inr ⟨9, by simp [reported, live]⟩)) refused
      | true =>
          rw [reported, live, if_pos rfl] at refused
          cases outcome : calls.read.recv with
          | received bytes =>
              refine ⟨rfl, bytes, rfl, ?_⟩
              rintro rfl
              exact refused (.inr (.inl outcome))
          | failed errno =>
              cases errno with
              | EAGAIN => exact absurd (.inl (.inl outcome)) refused
              | EWOULDBLOCK => exact absurd (.inl (.inr outcome)) refused
              | other code => exact absurd (.inr (.inr ⟨code, outcome⟩)) refused
    have live' : (k'.opened fd).isSome = true := by rwa [same]
    rw [handleRead_answers live received some_] at call
    rw [handleRead_answers live' received some_] at call'
    obtain rfl := Option.some.inj call
    obtain rfl := Option.some.inj call'
    refine respond_congr ?_
    rw [Kernel.recv_opened, Kernel.recv_opened, same]

/-- The clients are as `accept` made them, so the handlers act on their own one. -/
theorem handlers_actsOnOwn (h : Established w) : SocketBase.ActsOnOwn handlers w where
  keeps fd c entry i calls k := by
    have returns : ∃ handled, handlers i calls (some c) k = some handled := by
      cases i with
      | write => exact ⟨_, rfl⟩
      | read =>
          simp only [handlers, handleRead]
          split
          · exact ⟨_, rfl⟩
          · split
            · exact ⟨_, rfl⟩
            · split <;> exact ⟨_, rfl⟩
    obtain ⟨handled, call⟩ := returns
    refine ⟨handled, c, call, handlers_client call, rfl, fun x _ => ?_⟩
    rw [handlers_opened call]
  own fd c entry i calls k k' handled handled' same call call' := by
    have kept := (handlers_client call').trans (handlers_client call).symm
    refine ⟨?_, kept⟩
    cases i with
    | write =>
        obtain rfl := Option.some.inj call
        obtain rfl := Option.some.inj call'
        rfl
    | read =>
        obtain ⟨-, established⟩ := (h fd (some c) entry).2 c rfl
        rw [established] at same call call'
        exact handleRead_congr same call call'

/-- In every state that the program reaches, whatever its batches. -/
theorem actsOnOwn_reachable (fresh : w.clientFds_ = .empty)
    (batches : List (Option (List (Occurrence HandlerCalls)))) :
    SocketBase.ActsOnOwn handlers (run (SocketBase.pollingHandler handlers) w batches) :=
  handlers_actsOnOwn <| run_preserves (I := Established)
    (fun _ batch _ h => h.pollingHandler admits_established batch) (.of_empty fresh)

end Own

/-! ## A batch in turns -/

/-- The program has accepted a client under the number 5. -/
def serving : SocketBase := run (SocketBase.pollingHandler handlers) SocketBase.listener
  [some [arrives]]

/-- Another connection arrives while that client is ready to be read. -/
def busy : List (Occurrence HandlerCalls) := [{ arrives with accept := .succeeds 7 }, asked 77]

theorem serving_batch : SocketBase.Batch serving busy := by
  have map : serving.clientFds_ =
      UnorderedMap.empty.insert 5 (some (ClientSocket.established 1 5)) := rfl
  refine ⟨rfl, ?_, ?_, ?_, by decide, ?_, ?_⟩
  · intro fd entry found
    rw [map] at found
    obtain ⟨rfl, rfl⟩ | ⟨-, impossible⟩ := UnorderedMap.find?_insert_eq_some.mp found
    · exact ⟨_, rfl, rfl⟩
    · simp at impossible
  · simp [busy, arrives, asked]
  · simp [busy, arrives, asked]
  · intro o member client
    simp only [busy, List.mem_cons, List.not_mem_nil, or_false] at member
    obtain rfl | rfl := member
    · exact absurd rfl client
    · rfl
  · intro o member listening o' member'
    simp only [busy, List.mem_cons, List.not_mem_nil, or_false] at member member'
    obtain rfl | rfl := member
    · obtain rfl | rfl := member' <;> decide
    · cases listening

end Mux.Kqueue

namespace Mux.Socket.SocketBase

open Transition

/-- A connection arrives while a read from the only client fails. -/
theorem serving_batch : Batch serving [incoming 7, ready 5 .read (-1)] := by
  refine ⟨rfl, ?_, ?_, ?_, by decide, ?_, ?_⟩
  · intro fd entry found
    obtain ⟨rfl, rfl⟩ := serving_entry found
    exact ⟨_, rfl, rfl⟩
  · simp [incoming, ready]
  · simp [incoming, ready]
  · intro o member client
    obtain rfl | rfl : o = incoming 7 ∨ o = ready 5 .read (-1) := by simpa using member
    · exact absurd rfl client
    · rfl
  · intro o member listening o' member'
    obtain rfl | rfl : o = incoming 7 ∨ o = ready 5 .read (-1) := by simpa using member
    · obtain rfl | rfl : o' = incoming 7 ∨ o' = ready 5 .read (-1) := by simpa using member'
      · decide
      · decide
    · cases listening

/-- With scripted handlers, and with those of the program: the two generators of a batch are resumed
in turns. -/
theorem refines_interleaved :
    Refines scripted serving [incoming 7, ready 5 .read (-1)]
      (run (resumeAt scripted [incoming 7, ready 5 .read (-1)]) (serving.generators 2)
        [1, 0, 1, 0, 1]).server ∧
    Refines Kqueue.handlers Kqueue.serving Kqueue.busy
      (run (resumeAt Kqueue.handlers Kqueue.busy) (Kqueue.serving.generators 2)
        ([1, 0, 1, 0, 1] : List (Fin 2))).server :=
  ⟨refines_pollingHandler serving_batch (scripted_actsOnOwn _) _ (by decide),
    refines_pollingHandler Kqueue.serving_batch (Kqueue.actsOnOwn_reachable rfl _) _ (by decide)⟩

end Mux.Socket.SocketBase
