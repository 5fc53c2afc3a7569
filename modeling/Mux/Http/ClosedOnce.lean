import Mux.Http.EventLoop
import Mux.Socket.Syscalls

/-!
# Closing a client of the plain HTTP server

Three parts of the loop close the client they have just served: the function that
finds nothing to answer, the reader that it leaves behind, and the body of the
loop. An exception skips the last one. The handle that passes the buffer is taken
to do no more than that.
-/

namespace Mux.Http

open Transition
open Mux.Socket (Kernel Syscall RecvOutcome)

/-- `::close` is only called on a number that is open. -/
def ClosesOpen (k : Kernel) (call : Syscall) : Prop :=
  ∀ fd, call = .close fd → (k.opened fd).isSome = true

namespace Socket

/-- Both calls of `destroy` leave the program as it is. -/
def PassesBuffer : Activity → Prop
  | .failed _ => True
  | .events notifications => ∀ n ∈ notifications,
      n.connection.survivesReader = true ∧ n.connection.survivesDestroy = true

/-- The loop reaches an event of a client that is ready to be read. -/
def Serves (s : Socket) (n : Notification) : Prop :=
  s.status = .serving ∧ n.readable = true ∧ n.ident ≠ s.m_serverSocket

/-- Serving the client closes its descriptor once, and no number that is not open. -/
def ClosesOnce (b : Backend) (s : Socket) (n : Notification) : Prop :=
  s.Serves n →
    (s.processEvent b n).kernel.trace.count (.close n.ident) =
      s.kernel.trace.count (.close n.ident) + 1 ∧
    s.kernel.MakesOnly ClosesOpen (s.processEvent b n).kernel

/-- The descriptor is open, and `read` reports an error on it. -/
def OpenReadFails (s : Socket) (n : Notification) : Prop :=
  (s.kernel.opened n.ident).isSome = true ∧ ∃ errno, n.connection.read = .failed errno

/-- Every event of the batch has the property when it is worked off. -/
def EachEvent (b : Backend) (P : Socket → Notification → Prop) (s : Socket) : Activity → Prop
  | .failed _ => True
  | .events notifications => Along (processEvent b) P s notifications

end Socket

/-! ## What serving a client does -/

variable {k : Kernel} {fd : Int} {calls : ConnectionCalls}

theorem recv_closes (k : Kernel) (fd : Int) (size : Nat) (outcome : RecvOutcome) :
    (k.recv fd size outcome).2.2.trace.count (.close fd) = k.trace.count (.close fd) :=
  (k.recv_keeps fd size outcome).closes fd

/-- After an error, only the reader closes the client. -/
theorem handleConnection_threw (fails : Socket.ReadFails k fd calls.read) :
    handleConnection k fd calls = .throws (.runtime_error "Socket read error")
      ((k.recv fd 1023 calls.read).2.2.close fd calls.closeReader).2 := by
  have negative := (recv_negative k fd 1023 calls.read).mpr fails
  simp [handleConnection, SocketReader.call, negative]

/-- The reader closes the client last when the function returns. -/
theorem handleConnection_returned (reads : ¬ Socket.ReadFails k fd calls.read)
    (passes : calls.survivesReader = true ∧ calls.survivesDestroy = true) :
    ∃ k₁ : Kernel, k.trace.count (.close fd) ≤ k₁.trace.count (.close fd) ∧
      handleConnection k fd calls = .ok (k₁.close fd calls.closeReader).2 := by
  have received := recv_closes k fd 1023 calls.read
  have valid := mt (recv_negative k fd 1023 calls.read).mp reads
  simp only [handleConnection, SocketReader.call, if_neg valid, passes.1, passes.2, if_true,
    Bool.not_true, Bool.false_eq_true, if_false]
  by_cases empty :
      (if (k.recv fd 1023 calls.read).1 > 0 then (k.recv fd 1023 calls.read).2.1 else []) = []
  · refine ⟨_, ?_, if_pos empty⟩
    rw [Kernel.count_close, received]
    omega
  · refine ⟨_, ?_, if_neg empty⟩
    rw [(Kernel.send_keeps _ _ _ _).closes, received]

namespace Socket

variable {b : Backend} {s : Socket} {n : Notification}

theorem processEvent_threw {exception : Exception} (served : s.Serves n)
    (threw : handleConnection s.kernel n.ident n.connection = .throws exception k) :
    (s.processEvent b n).kernel = k := by
  obtain ⟨serving, readable, client⟩ := served
  simp [processEvent, serving, readable, client, threw]

theorem processEvent_returned (served : s.Serves n)
    (returned : handleConnection s.kernel n.ident n.connection = .ok k) :
    (s.processEvent b n).kernel = (k.close n.ident n.close).2 := by
  obtain ⟨serving, readable, client⟩ := served
  simp [processEvent, serving, readable, client, returned]

/-- A client from which bytes or the end of the stream are read is closed by the reader
and once more by the loop. -/
theorem returned_not_closesOnce (served : s.Serves n)
    (passes : n.connection.survivesReader = true ∧ n.connection.survivesDestroy = true)
    (reads : ¬ ReadFails s.kernel n.ident n.connection.read) : ¬ ClosesOnce b s n := by
  intro closes
  obtain ⟨k₁, before, returned⟩ := handleConnection_returned reads passes
  have once := (closes served).1
  rw [processEvent_returned served returned, Kernel.count_close, Kernel.count_close,
    if_pos rfl] at once
  omega

/-- A number that is not open stays so, and may not be closed. -/
theorem closed_not_closesOnce (served : s.Serves n) (closed : s.kernel.opened n.ident = none) :
    ¬ ClosesOnce b s n := by
  intro closes
  obtain ⟨once, only⟩ := closes served
  have unopened := only.preserves (I := fun k => k.opened n.ident = none ∧
      k.trace.count (.close n.ident) = s.kernel.trace.count (.close n.ident))
    (fun k call k' allowed made ⟨shut, same⟩ => by
      refine ⟨made.stays_closed shut, ?_⟩
      have other : call ≠ .close n.ident := by
        intro close
        have live := allowed n.ident close
        rw [shut] at live
        cases live
      rw [made.trace, List.count_append, same, List.count_singleton, if_neg (by simpa using other),
        Nat.add_zero])
    ⟨closed, rfl⟩
  omega

/-- After an error on an open descriptor, the reader closes it and the loop is left. -/
theorem failed_closesOnce (served : s.Serves n) (fails : OpenReadFails s n) : ClosesOnce b s n := by
  intro _
  obtain ⟨live, errno, failed⟩ := fails
  have left := processEvent_threw (b := b) served
    (handleConnection_threw (.inr ⟨errno, failed⟩))
  rw [left]
  constructor
  · rw [Kernel.count_close, recv_closes, if_pos rfl]
  · have received : s.kernel.MakesOnly ClosesOpen
        (s.kernel.recv n.ident 1023 n.connection.read).2.2 :=
      .one (.recv _ _ _ _) fun x same => by cases same
    refine received.trans (.one (.close _ _ _) ?_)
    rintro x ⟨⟩
    rw [Kernel.recv_opened]
    exact live

theorem closesOnce_iff_failed
    (passes : n.connection.survivesReader = true ∧ n.connection.survivesDestroy = true) :
    ClosesOnce b s n ↔ (s.Serves n → s.OpenReadFails n) := by
  by_cases served : s.Serves n
  · rw [forall_prop_of_true served]
    constructor
    · intro closes
      have live : s.kernel.opened n.ident ≠ none :=
        fun closed => closed_not_closesOnce served closed closes
      by_cases reads : ReadFails s.kernel n.ident n.connection.read
      · exact ⟨Option.isSome_iff_ne_none.mpr live, reads.resolve_left live⟩
      · exact absurd closes (returned_not_closesOnce served passes reads)
    · exact failed_closesOnce served
  · exact iff_of_true (fun reached => absurd reached served) fun reached => absurd reached served

theorem eachEvent_iff {activity : Activity} (passes : PassesBuffer activity) :
    EachEvent b (ClosesOnce b) s activity ↔
      EachEvent b (fun s n => s.Serves n → s.OpenReadFails n) s activity := by
  cases activity with
  | failed close => exact Iff.rfl
  | events notifications =>
      exact along_iff_along (I := fun _ => True)
        (A := fun _ n =>
          n.connection.survivesReader = true ∧ n.connection.survivesDestroy = true)
        (fun _ _ _ passes => closesOnce_iff_failed passes) (fun _ _ _ _ _ => trivial) trivial
        (.of_mem passes)

/-- The loop closes each client once exactly in the runs in which every client that it
serves is open and has an error to report. -/
theorem closesOnce_iff_openReadFails (b : Backend) (s : Socket) (register : Bool)
    (activities : List Activity) (passes : ∀ activity ∈ activities, PassesBuffer activity) :
    Along (handleActivity b) (EachEvent b (ClosesOnce b)) (s.enter register) activities ↔
      Along (handleActivity b) (EachEvent b fun s n => s.Serves n → s.OpenReadFails n)
        (s.enter register) activities :=
  along_iff_along (I := fun _ => True) (A := fun _ activity => PassesBuffer activity)
    (fun _ _ _ passes => eachEvent_iff passes) (fun _ _ _ _ _ => trivial) trivial
    (.of_mem passes)

/-- The only client is reset. -/
theorem reset_closesOnce : Along (handleActivity .kqueue) (EachEvent .kqueue (ClosesOnce .kqueue))
    (listening.enter true) [.events [arrival 5],
      .events [readyClient 5 (.failed (.other 104))]] := by
  refine (closesOnce_iff_openReadFails .kqueue listening true _ ?_).mpr ?_
  · simp [PassesBuffer, arrival, readyClient]
  · refine ⟨⟨?_, trivial⟩, ⟨fun _ => ⟨rfl, _, rfl⟩, trivial⟩, trivial⟩
    rintro ⟨-, -, client⟩
    exact absurd rfl client

/-- A client that sends one byte. -/
def oneByte : List Activity := [.events [arrival 5], .events [readyClient 5 (.received ['x'])]]

/-- The client is closed twice, over either poller. -/
theorem oneByte_not_closesOnce :
    ¬ Along (handleActivity .kqueue) (EachEvent .kqueue (ClosesOnce .kqueue))
        (listening.enter true) oneByte ∧
      ¬ Along (handleActivity .epoll) (EachEvent .epoll (ClosesOnce .epoll))
        (listening.enter true) oneByte := by
  constructor
  · rintro ⟨-, ⟨closes, -⟩, -⟩
    have once := (closes ⟨rfl, rfl, by decide⟩).1
    revert once
    decide
  · rintro ⟨-, ⟨closes, -⟩, -⟩
    have once := (closes ⟨rfl, rfl, by decide⟩).1
    revert once
    decide

end Socket

end Mux.Http
