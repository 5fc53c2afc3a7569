import Mux.Http.CreateHttpResponse
import Mux.Http.Request
import Mux.Library.Transition
import Mux.Socket.Kernel

/-!
# The event loop of the plain HTTP server

`Socket::handleAndResumeConnections` for its two pollers. A client event runs
`handleConnection`, and that the `SocketReader`, whose call throws when `read`
reports an error; the loop does not catch, `main` does. The reader makes a
coroutine handle for an object that is no coroutine. What `destroy` on such a
handle does is undefined: whether the program survives it is an argument.
-/

namespace Mux.Http

open Transition
open Mux.Socket (Kernel RecvOutcome SendOutcome)

inductive Backend where
  | kqueue
  | epoll
  deriving DecidableEq, Repr

/-- The outcomes of the calls of `handleConnection`, in source order. -/
structure ConnectionCalls where
  read : RecvOutcome
  survivesReader : Bool
  survivesDestroy : Bool
  send : SendOutcome
  closeClient : Bool
  closeReader : Bool
  deriving DecidableEq, Repr

/-- An event, whether it reports readability, and the outcomes of the calls made for
it. -/
structure Notification where
  ident : Int
  readable : Bool
  accept : Int
  register : Bool
  connection : ConnectionCalls
  close : Bool
  deriving DecidableEq, Repr

inductive LoopStatus where
  | serving
  | pollFailed
  | threw (exception : Exception)
  | undefined
  deriving DecidableEq, Repr

/-- `processed` lists the descriptors of the events that the loop has reached. -/
structure Socket where
  m_serverSocket : Int
  kernel : Kernel
  nextConn : Nat := 0
  processed : List Int := []
  status : LoopStatus := .serving

/-- What the wait for events returns. -/
inductive Activity where
  | failed (close : Bool)
  | events (notifications : List Notification)
  deriving DecidableEq, Repr

/-- `SocketReader::operator()` with the handle; the buffer takes 1023 bytes. -/
def SocketReader.call (k : Kernel) (m_socket_ : Int) (calls : ConnectionCalls) :
    Outcome Exception (Str × Kernel) :=
  let (bytesRead, buffer, k) := k.recv m_socket_ 1023 calls.read
  if bytesRead < 0 then .throws (.runtime_error "Socket read error") ([], k)
  else if calls.survivesReader then .ok (if bytesRead > 0 then buffer else [], k)
  else .undefined

/-- The reader is a local object: leaving the function closes the client, also by an
exception. -/
def handleConnection (k : Kernel) (clientSocket : Int) (calls : ConnectionCalls) :
    Outcome Exception Kernel :=
  match SocketReader.call k clientSocket calls with
  | .undefined => .undefined
  | .throws exception (_, k) => .throws exception (k.close clientSocket calls.closeReader).2
  | .ok (buffer, k) =>
      if !calls.survivesDestroy then .undefined
      else if buffer = [] then
        let (_, k) := k.close clientSocket calls.closeClient
        .ok (k.close clientSocket calls.closeReader).2
      else
        let (_, k) := k.send clientSocket (createHttpResponse buffer defaultContentType) calls.send
        .ok (k.close clientSocket calls.closeReader).2

namespace Socket

/-- An event of the server socket. The kqueue loop registers the result also when
`accept` failed. -/
def acceptNew (b : Backend) (s : Socket) (n : Notification) : Socket :=
  let k := s.kernel.accept s.nextConn n.accept
  let s := { s with kernel := k, nextConn := s.nextConn + 1 }
  match b with
  | .kqueue => { s with kernel := (k.kevent n.accept .read .add n.register).2 }
  | .epoll =>
      if n.accept < 0 then s else { s with kernel := (k.kevent n.accept .read .add n.register).2 }

/-- The body of the loop over one batch. An exception leaves the loop. -/
def processEvent (b : Backend) (s : Socket) (n : Notification) : Socket :=
  if s.status ≠ .serving then s
  else
    let s := { s with processed := s.processed ++ [n.ident] }
    if !n.readable then s
    else if n.ident = s.m_serverSocket then s.acceptNew b n
    else
      match handleConnection s.kernel n.ident n.connection with
      | .ok k => { s with kernel := (k.close n.ident n.close).2 }
      | .throws exception k => { s with kernel := k, status := .threw exception }
      | .undefined => { s with status := .undefined }

/-- One turn of the endless loop. A failed wait ends it and closes the server socket. -/
def handleActivity (b : Backend) (s : Socket) : Activity → Socket
  | .failed close =>
      if s.status ≠ .serving then s
      else { s with kernel := (s.kernel.close s.m_serverSocket close).2, status := .pollFailed }
  | .events notifications => run (processEvent b) s notifications

/-- The server socket is registered before the loop. -/
def enter (s : Socket) (register : Bool) : Socket :=
  { s with kernel := (s.kernel.kevent s.m_serverSocket .read .add register).2 }

/-- `read` on a descriptor reports an error. -/
def ReadFails (k : Kernel) (fd : Int) (outcome : RecvOutcome) : Prop :=
  k.opened fd = none ∨ ∃ errno, outcome = .failed errno

end Socket

theorem recv_negative (k : Kernel) (fd : Int) (size : Nat) (outcome : RecvOutcome) :
    (k.recv fd size outcome).1 < 0 ↔ Socket.ReadFails k fd outcome := by
  unfold Kernel.recv Socket.ReadFails
  cases live : k.opened fd with
  | none => simp
  | some d =>
      cases outcome with
      | received bytes => simp
      | failed errno => simp

/-- The three ways out of `handleConnection`. -/
theorem handleConnection_cases (k : Kernel) (fd : Int) (calls : ConnectionCalls) :
    (Socket.ReadFails k fd calls.read ∧
      ∃ k', handleConnection k fd calls = .throws (.runtime_error "Socket read error") k') ∨
    (¬ Socket.ReadFails k fd calls.read ∧
      (calls.survivesReader = false ∨ calls.survivesDestroy = false) ∧
      handleConnection k fd calls = .undefined) ∨
    (¬ Socket.ReadFails k fd calls.read ∧ calls.survivesReader = true ∧
      calls.survivesDestroy = true ∧ ∃ k', handleConnection k fd calls = .ok k') := by
  have negative := recv_negative k fd 1023 calls.read
  rcases received : k.recv fd 1023 calls.read with ⟨bytesRead, buffer, k₁⟩
  rw [received] at negative
  simp only at negative
  by_cases failed : bytesRead < 0
  · refine .inl ⟨negative.mp failed, (k₁.close fd calls.closeReader).2, ?_⟩
    simp [handleConnection, SocketReader.call, received, failed]
  · have read := mt negative.mpr failed
    refine .inr ?_
    cases reader : calls.survivesReader with
    | false =>
        exact .inl ⟨read, .inl rfl,
          by simp [handleConnection, SocketReader.call, received, failed, reader]⟩
    | true =>
        cases destroy : calls.survivesDestroy with
        | false =>
            exact .inl ⟨read, .inr rfl,
              by simp [handleConnection, SocketReader.call, received, failed, reader, destroy]⟩
        | true =>
            refine .inr ⟨read, rfl, rfl, ?_⟩
            simp only [handleConnection, SocketReader.call, received, if_neg failed, reader,
              destroy, if_true, Bool.not_true, Bool.false_eq_true, if_false]
            by_cases empty : (if bytesRead > 0 then buffer else []) = []
            · exact ⟨_, if_pos empty⟩
            · exact ⟨_, if_neg empty⟩

namespace Socket

variable {b : Backend} {s : Socket} {n : Notification}

/-- A server that listens on 3. -/
def listening : Socket where
  m_serverSocket := 3
  kernel := { opened := Function.update (fun _ => none) 3 (some { conn := 0 }) }
  nextConn := 1

/-- A connection that arrives and is accepted under `fd`. -/
def arrival (fd : Int) : Notification where
  ident := 3
  readable := true
  accept := fd
  register := true
  connection := ⟨.received [], true, true, .accepted 0, true, true⟩
  close := true

/-- A client is ready, with the given outcome of `read`. The program survives whatever
`destroy` does. -/
def readyClient (fd : Int) (read : RecvOutcome) : Notification where
  ident := fd
  readable := true
  accept := -1
  register := true
  connection := ⟨read, true, true, .accepted 1024, true, true⟩
  close := true

end Socket

end Mux.Http
