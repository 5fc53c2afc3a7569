import Mathlib.Data.Finset.Lattice.Basic
import Mux.Http.EventLoop
import Mux.Socket.Syscalls

/-!
# The bookkeeping for `select`

`acceptNewConnections` and `handleExistingConnections` of the plain HTTP server. They
share the set of the descriptors to watch and a number that bounds the scan of a set of
ready ones. A descriptor is put into the set when it is accepted and leaves it when it is
handled; the bound only grows.
-/

namespace Mux.Http

open Transition
open Mux.Socket (Kernel RecvOutcome Syscall)

/-- The server with the sets of the caller. -/
structure SelectServer where
  m_serverSocket : Int
  kernel : Kernel
  master : Finset Int
  max_sd : Int
  nextConn : Nat := 0

/-- A call of the bookkeeping, with the outcomes of the calls that it makes. -/
inductive SelectCall where
  | acceptNewConnections (accept : Int)
  | handleExistingConnections (readfds : Finset Int) (connection : Int → ConnectionCalls)
      (close : Int → Bool)

namespace SelectServer

/-- Before the first call, only the server socket is watched. -/
def start (m_serverSocket : Int) (kernel : Kernel) : SelectServer where
  m_serverSocket := m_serverSocket
  kernel := kernel
  master := {m_serverSocket}
  max_sd := m_serverSocket

def acceptNewConnections (s : SelectServer) (accept : Int) : SelectServer :=
  let s := { s with kernel := s.kernel.accept s.nextConn accept, nextConn := s.nextConn + 1 }
  if accept < 0 then s
  else { s with master := insert accept s.master, max_sd := max s.max_sd accept }

/-- The body of the scan. -/
def handleDescriptor (readfds : Finset Int) (connection : Int → ConnectionCalls)
    (close : Int → Bool) (i : Int) (s : SelectServer) : Outcome Exception SelectServer :=
  if i ∈ readfds ∧ i ≠ s.m_serverSocket then
    match handleConnection s.kernel i (connection i) with
    | .ok k =>
        .ok { s with kernel := (k.close i (close i)).2, master := s.master.erase i }
    | .throws exception k => .throws exception { s with kernel := k }
    | .undefined => .undefined
  else .ok s

/-- The numbers from zero up to a bound. -/
def upTo (max_sd : Int) : List Int := (List.range (max_sd + 1).toNat).map Int.ofNat

def handleExistingConnections (s : SelectServer) (readfds : Finset Int)
    (connection : Int → ConnectionCalls) (close : Int → Bool) : Outcome Exception SelectServer :=
  Outcome.forEach (handleDescriptor readfds connection close) (upTo s.max_sd) s

def perform (s : SelectServer) : SelectCall → Outcome Exception SelectServer
  | .acceptNewConnections accept => .ok (s.acceptNewConnections accept)
  | .handleExistingConnections readfds connection close =>
      s.handleExistingConnections readfds connection close

/-- The calls go on after each one that returns normally. -/
def step (s : Outcome Exception SelectServer) (call : SelectCall) :
    Outcome Exception SelectServer := s.bind (·.perform call)

end SelectServer

/-! ## What the bookkeeping is for -/

/-- `accept` returns the descriptor to the call. -/
def SelectCall.Accepts (fd : Int) : SelectCall → Prop
  | .acceptNewConnections accept => accept = fd ∧ 0 ≤ accept
  | .handleExistingConnections _ _ _ => False

/-- The descriptor is reported as ready to the call. -/
def SelectCall.Reports (fd : Int) : SelectCall → Prop
  | .acceptNewConnections _ => False
  | .handleExistingConnections readfds _ _ => fd ∈ readfds

/-- Among the calls so far, the descriptor was accepted, and not reported as ready since. -/
def Pending (calls : List SelectCall) (fd : Int) : Prop :=
  Since (fun _ call => call.Accepts fd) (fun call => ¬ call.Reports fd) calls

/-- The system calls of handling a client once: what it sends is read and answered, or its end
of file is followed by a first `::close`; the reader and the scan close it in any case. -/
def served (fd : Int) (read : RecvOutcome) : List Syscall :=
  [.recv fd, if read = .received [] then .close fd else .send fd, .close fd, .close fd]

namespace SelectServer

/-- The bound covers the watched descriptors, and these are the server socket and the clients
that are accepted and not yet handled. -/
structure Tracks (m_serverSocket : Int) (calls : List SelectCall) (s : SelectServer) : Prop where
  server : s.m_serverSocket = m_serverSocket
  bounded : ∀ fd ∈ s.master, fd ≤ s.max_sd
  watched : ∀ fd, fd ∈ s.master ↔ fd = m_serverSocket ∨ Pending calls fd

/-- A client that is ready to be read. -/
def Ready (s : SelectServer) (readfds : Finset Int) (fd : Int) : Prop :=
  fd ∈ readfds ∧ fd ≠ s.m_serverSocket

instance (s : SelectServer) (readfds : Finset Int) (fd : Int) : Decidable (s.Ready readfds fd) :=
  inferInstanceAs (Decidable (_ ∧ _))

/-- Each ready client is handled once and not watched any more, and all system calls are about
ready clients. -/
structure HandlesReady (s : SelectServer) (readfds : Finset Int)
    (connection : Int → ConnectionCalls) (s' : SelectServer) : Prop where
  handled : ∃ fds : List Int, fds.Nodup ∧ (∀ fd, fd ∈ fds ↔ s.Ready readfds fd) ∧
    s'.kernel.trace = s.kernel.trace ++ fds.flatMap fun fd => served fd (connection fd).read
  removed : ∀ fd, fd ∈ s'.master ↔ fd ∈ s.master ∧ ¬ s.Ready readfds fd
  untouched : s.kernel.MakesOnly (fun _ call => s.Ready readfds call.fd) s'.kernel

/-- Only watched descriptors are reported as ready. -/
def Promised (s : SelectServer) : SelectCall → Prop
  | .acceptNewConnections _ => True
  | .handleExistingConnections readfds _ _ => readfds ⊆ s.master

/-- A call that returns normally handles what is ready. -/
def Handles (s : SelectServer) : SelectCall → Prop
  | .acceptNewConnections _ => True
  | .handleExistingConnections readfds connection close =>
      (s.handleExistingConnections readfds connection close).Ensures
        (s.HandlesReady readfds connection)

/-! ## One call -/

section Calls

variable {s s' : SelectServer} {fd m_serverSocket : Int} {calls : List SelectCall}

theorem pending_concat {call : SelectCall} : Pending (calls ++ [call]) fd ↔
    call.Accepts fd ∨ Pending calls fd ∧ ¬ call.Reports fd := since_concat

theorem mem_upTo {max_sd : Int} : fd ∈ upTo max_sd ↔ 0 ≤ fd ∧ fd ≤ max_sd := by
  simp only [upTo, List.mem_map, List.mem_range]
  constructor
  · rintro ⟨n, small, rfl⟩
    exact ⟨Int.natCast_nonneg n, by change (n : Int) ≤ max_sd; omega⟩
  · rintro ⟨lower, upper⟩
    exact ⟨fd.toNat, by omega, Int.toNat_of_nonneg lower⟩

theorem upTo_nodup (max_sd : Int) : (upTo max_sd).Nodup :=
  List.nodup_range.map fun _ _ => Int.ofNat.inj

/-- What is read from a connection that `read` does not report an error for. -/
theorem recv_received {k : Kernel} {outcome : RecvOutcome} (size : Nat)
    (reads : ¬ Socket.ReadFails k fd outcome) : ∃ bytes, outcome = .received bytes ∧
      (k.recv fd size outcome).1 = (bytes.take size).length ∧
      (k.recv fd size outcome).2.1 = bytes.take size := by
  rw [Socket.ReadFails, not_or] at reads
  obtain ⟨d, live⟩ := Option.ne_none_iff_exists'.mp reads.1
  cases outcome with
  | failed errno => exact absurd ⟨errno, rfl⟩ reads.2
  | received bytes => exact ⟨bytes, rfl, by simp [Kernel.recv, live], by simp [Kernel.recv, live]⟩

/-- A connection that is handled normally is read once, then answered or closed, and closed by
its reader; all of these calls are about its client. -/
theorem handleConnection_serves {k k' : Kernel} {calls : ConnectionCalls}
    (returned : handleConnection k fd calls = .ok k') :
    k.MakesOnly (fun _ call => call.fd = fd) k' ∧
      k'.trace = k.trace ++
        [.recv fd, if calls.read = .received [] then .close fd else .send fd, .close fd] := by
  obtain ⟨-, _, threw⟩ | ⟨-, -, ended⟩ | ⟨reads, reader, destroy, -⟩ :=
    handleConnection_cases k fd calls
  · rw [threw] at returned
    cases returned
  · rw [ended] at returned
    cases returned
  · have valid := mt (recv_negative k fd 1023 calls.read).mp reads
    have received := Kernel.Makes.recv k fd 1023 calls.read
    obtain ⟨bytes, came, count, buffer⟩ := recv_received 1023 reads
    have nothing :
        (if (k.recv fd 1023 calls.read).1 > 0 then (k.recv fd 1023 calls.read).2.1 else []) = [] ↔
          calls.read = .received [] := by
      rw [count, buffer, came]
      cases bytes <;> simp
    simp only [handleConnection, SocketReader.call, if_neg valid, reader, destroy, if_true,
      Bool.not_true, Bool.false_eq_true, if_false] at returned
    by_cases empty : calls.read = .received []
    · rw [if_pos (nothing.mpr empty), Outcome.ok.injEq] at returned
      have closed := Kernel.Makes.close (k.recv fd 1023 calls.read).2.2 fd calls.closeClient
      have again := Kernel.Makes.close ((k.recv fd 1023 calls.read).2.2.close fd
        calls.closeClient).2 fd calls.closeReader
      rw [← returned, if_pos empty]
      refine ⟨((Kernel.MakesOnly.one received rfl).trans (.one closed rfl)).trans
        (.one again rfl), ?_⟩
      rw [again.trace, closed.trace, received.trace]
      simp
    · rw [if_neg (mt nothing.mp empty), Outcome.ok.injEq] at returned
      rw [← returned, if_neg empty]
      generalize createHttpResponse _ defaultContentType = response
      have sent := Kernel.Makes.send (k.recv fd 1023 calls.read).2.2 fd response calls.send
      have closed := Kernel.Makes.close ((k.recv fd 1023 calls.read).2.2.send fd response
        calls.send).2 fd calls.closeReader
      refine ⟨((Kernel.MakesOnly.one received rfl).trans (.one sent rfl)).trans
        (.one closed rfl), ?_⟩
      rw [closed.trace, sent.trace, received.trace]
      simp

/-- The scan of some numbers has handled those of them that are ready. -/
structure Scanned (s : SelectServer) (readfds : Finset Int) (connection : Int → ConnectionCalls)
    (fds : List Int) (u : SelectServer) : Prop where
  server : u.m_serverSocket = s.m_serverSocket
  max_sd : u.max_sd = s.max_sd
  master : ∀ fd, fd ∈ u.master ↔ fd ∈ s.master ∧ ¬ (fd ∈ fds ∧ s.Ready readfds fd)
  trace : u.kernel.trace = s.kernel.trace ++
    (fds.filter (s.Ready readfds)).flatMap fun fd => served fd (connection fd).read
  kernel : s.kernel.MakesOnly (fun _ call => s.Ready readfds call.fd) u.kernel

variable {readfds : Finset Int} {connection : Int → ConnectionCalls} {close : Int → Bool}
variable {fds : List Int} {u : SelectServer}

theorem Scanned.handleDescriptor (h : Scanned s readfds connection fds u) (i : Int) :
    (u.handleDescriptor readfds connection close i).Ensures
      (Scanned s readfds connection (fds ++ [i])) := by
  have same : (i ∈ readfds ∧ i ≠ u.m_serverSocket) ↔ s.Ready readfds i := by
    rw [h.server]
    rfl
  have member (fd : Int) : (fd ∈ fds ++ [i] ∧ s.Ready readfds fd) ↔
      (fd ∈ fds ∧ s.Ready readfds fd) ∨ fd = i ∧ s.Ready readfds i := by
    rw [List.mem_append, List.mem_singleton, or_and_right]
    exact or_congr_right (and_congr_right fun here => by rw [here])
  unfold SelectServer.handleDescriptor
  by_cases ready : s.Ready readfds i
  · rw [if_pos (same.mpr ready)]
    intro next returned
    cases answered : handleConnection u.kernel i (connection i) with
    | throws exception k =>
        rw [answered] at returned
        cases returned
    | undefined =>
        rw [answered] at returned
        cases returned
    | ok k =>
        rw [answered] at returned
        obtain rfl := Outcome.ok.inj returned
        obtain ⟨about, trace⟩ := handleConnection_serves answered
        have closed := Kernel.Makes.close k i (close i)
        have calls : u.kernel.MakesOnly (fun _ call => call.fd = i) (k.close i (close i)).2 :=
          about.trans (.one closed rfl)
        refine ⟨h.server, h.max_sd, fun fd => ?_, ?_, ?_⟩
        · rw [Finset.mem_erase, h.master, member]
          tauto
        · rw [closed.trace, trace, h.trace]
          simp [List.filter_append, ready, served]
        · exact h.kernel.trans (calls.mono fun _ call about => by rw [about]; exact ready)
  · rw [if_neg (mt same.mp ready), Outcome.ensures_ok]
    refine ⟨h.server, h.max_sd, fun fd => ?_, ?_, h.kernel⟩
    · rw [h.master, member]
      tauto
    · simp [h.trace, List.filter_append, ready]

/-- What every run of the bookkeeping keeps: the clients have no negative numbers. -/
structure Sound (m_serverSocket : Int) (calls : List SelectCall) (s : SelectServer) : Prop
    extends Tracks m_serverSocket calls s where
  positive : ∀ fd ∈ s.master, fd ≠ m_serverSocket → 0 ≤ fd

/-- The numbers up to the bound include every ready client. -/
theorem Sound.handleExistingConnections (h : Sound m_serverSocket calls s)
    (subset : readfds ⊆ s.master) :
    (s.handleExistingConnections readfds connection close).Ensures fun s' =>
      Sound m_serverSocket (calls ++ [.handleExistingConnections readfds connection close]) s' ∧
        s.HandlesReady readfds connection s' := by
  have start : Scanned s readfds connection [] s :=
    ⟨rfl, rfl, fun fd => by simp, by simp, .refl _⟩
  have covers (fd : Int) (ready : s.Ready readfds fd) : fd ∈ upTo s.max_sd := by
    have client : fd ≠ m_serverSocket := h.server ▸ ready.2
    exact mem_upTo.mpr ⟨h.positive fd (subset ready.1) client, h.bounded fd (subset ready.1)⟩
  intro s' returned
  have scanned := Outcome.forEach_ensures (fun _ i _ before => before.handleDescriptor i) start
    (upTo s.max_sd) s' returned
  have removed (fd : Int) : fd ∈ s'.master ↔ fd ∈ s.master ∧ ¬ s.Ready readfds fd := by
    rw [scanned.master]
    exact and_congr_right fun _ => not_congr (and_iff_right_of_imp (covers fd))
  refine ⟨⟨⟨scanned.server.trans h.server, fun fd member => ?_, fun fd => ?_⟩,
    fun fd member => ?_⟩, ⟨⟨_, (upTo_nodup _).filter _, fun fd => ?_, scanned.trace⟩, removed,
    scanned.kernel⟩⟩
  · rw [scanned.max_sd]
    exact h.bounded fd ((removed fd).mp member).1
  · rw [removed, h.watched, pending_concat, Ready, h.server, SelectCall.Accepts,
      SelectCall.Reports]
    tauto
  · exact h.positive fd ((removed fd).mp member).1
  · rw [List.mem_filter, decide_eq_true_eq]
    exact and_iff_right_of_imp (covers fd)

theorem Sound.acceptNewConnections (h : Sound m_serverSocket calls s) (accept : Int) :
    Sound m_serverSocket (calls ++ [.acceptNewConnections accept])
      (s.acceptNewConnections accept) := by
  have pending (fd : Int) : Pending (calls ++ [.acceptNewConnections accept]) fd ↔
      (accept = fd ∧ 0 ≤ accept) ∨ Pending calls fd :=
    pending_concat.trans (or_congr_right (and_iff_left id))
  unfold SelectServer.acceptNewConnections
  simp only
  split
  · next failed =>
      refine ⟨⟨h.server, h.bounded, fun fd => ?_⟩, h.positive⟩
      have refused : ¬ (accept = fd ∧ 0 ≤ accept) := fun accepted => not_lt.mpr accepted.2 failed
      rw [h.watched, pending, or_iff_right refused]
  · next valid =>
      refine ⟨⟨h.server, fun fd member => ?_, fun fd => ?_⟩, fun fd member client => ?_⟩
      · obtain rfl | member := Finset.mem_insert.mp member
        · exact le_max_right _ _
        · exact le_max_of_le_left (h.bounded fd member)
      · rw [Finset.mem_insert, h.watched, pending, and_iff_left (not_lt.mp valid),
          eq_comm (a := accept)]
        exact or_left_comm
      · obtain rfl | member := Finset.mem_insert.mp member
        · exact not_lt.mp valid
        · exact h.positive fd member client

theorem Sound.perform (h : Sound m_serverSocket calls s) (call : SelectCall)
    (promised : s.Promised call) :
    (s.perform call).Ensures (Sound m_serverSocket (calls ++ [call])) := by
  cases call with
  | acceptNewConnections accept => exact Outcome.ensures_ok.mpr (h.acceptNewConnections accept)
  | handleExistingConnections readfds connection close =>
      exact fun s' returned => (h.handleExistingConnections promised s' returned).1

theorem start_sound (m_serverSocket : Int) (kernel : Kernel) :
    Sound m_serverSocket [] (start m_serverSocket kernel) := by
  refine ⟨⟨rfl, fun fd member => ?_, fun fd => ?_⟩, fun fd member client => ?_⟩
  · exact (Finset.mem_singleton.mp member).le
  · have none : ¬ Pending [] fd := not_since_nil
    rw [or_iff_left none]
    exact Finset.mem_singleton
  · exact absurd (Finset.mem_singleton.mp member) client

end Calls

/-! ## Every run -/

/-- In every run whose calls return normally, the bound covers the watched descriptors, these are
the server socket and the clients that are accepted and not yet handled, and each scan handles
and removes exactly the ready clients, once each. -/
theorem tracks_handles (m_serverSocket : Int) (kernel : Kernel) (calls : List SelectCall)
    (promised : Along step (fun s call => s.Ensures (·.Promised call))
      (.ok (start m_serverSocket kernel)) calls) :
    (∀ before, before <+: calls →
      (run step (.ok (start m_serverSocket kernel)) before).Ensures
        (Tracks m_serverSocket before)) ∧
      Along step (fun s call => s.Ensures (·.Handles call)) (.ok (start m_serverSocket kernel))
        calls := by
  have begun : (Outcome.ok (start m_serverSocket kernel) : Outcome Exception _).Ensures
      (Sound m_serverSocket []) := Outcome.ensures_ok.mpr (start_sound m_serverSocket kernel)
  have preserved (history : List SelectCall) (s : Outcome Exception SelectServer)
      (call : SelectCall) (sound : s.Ensures (Sound m_serverSocket history))
      (promised : s.Ensures (·.Promised call)) :
      (step s call).Ensures (Sound m_serverSocket (history ++ [call])) := by
    rintro s' returned
    obtain ⟨state, before, after⟩ := Outcome.bind_eq_ok.mp returned
    exact (sound state before).perform call (promised state before) s' after
  constructor
  · intro before first state returned
    exact (run_history preserved begun promised first state returned).toTracks
  · refine .of_invariant (I := fun s => ∃ history, s.Ensures (Sound m_serverSocket history))
      (fun s call ⟨history, sound⟩ promised => ⟨_, preserved history s call sound promised⟩)
      (fun s call ⟨history, sound⟩ promised state here => ?_) ⟨[], begun⟩ promised
    cases call with
    | acceptNewConnections accept => trivial
    | handleExistingConnections readfds connection close =>
        intro s' returned
        exact ((sound state here).handleExistingConnections (promised state here) s' returned).2

/-- A client is accepted as 5 and sends one byte. -/
def oneClient : List SelectCall :=
  [.acceptNewConnections 5,
    .handleExistingConnections {5} (fun _ => (Socket.readyClient 5 (.received ['x'])).connection)
      fun _ => true]

/-- Both calls return normally: the client is read, answered and closed, and the server socket
is watched again. -/
theorem oneClient_tracks_handles :
    ((∀ before, before <+: oneClient →
      (run step (.ok (start 3 Socket.listening.kernel)) before).Ensures (Tracks 3 before)) ∧
      Along step (fun s call => s.Ensures (·.Handles call))
        (.ok (start 3 Socket.listening.kernel)) oneClient) ∧
    ∃ s, run step (.ok (start 3 Socket.listening.kernel)) oneClient = .ok s ∧ s.master = {3} ∧
      s.kernel.trace = [.recv 5, .send 5, .close 5, .close 5] := by
  refine ⟨tracks_handles 3 Socket.listening.kernel oneClient ⟨fun _ _ => trivial, ?_, trivial⟩,
    ⟨_, rfl, by decide, by decide⟩⟩
  rintro s ⟨⟩
  show ({5} : Finset Int) ⊆ {5, 3}
  decide

end SelectServer

end Mux.Http
