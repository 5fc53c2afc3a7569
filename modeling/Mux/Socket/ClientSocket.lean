import Mux.Library.Transition
import Mux.Socket.Kernel

/-!
# Client sockets

A `ClientSocket` keeps the number of its descriptor and mirrors the two
registrations in flags. The operations follow the source statement by statement;
the outcome of each system call is an argument, in the order of the calls.
Two fields never change after construction, the poller and the listening socket,
and are left out. `id` names the object: it is the connection that a successful
`::accept` of this object creates.
-/

namespace Mux.Socket

structure ClientSocket where
  id : Nat
  clientFd_ : Int := -1
  isReader_ : Bool := false
  isWriter_ : Bool := false
  isConnected_ : Bool := false
  deriving DecidableEq, Repr

/-- What a member function returns, with the object and the kernel behind it. -/
structure Returned where
  result : Int
  client : ClientSocket
  kernel : Kernel

structure SafetyCloseCalls where
  shutdown : Bool
  close : Bool
  deriving DecidableEq, Repr

/-- A failed `shutdown` keeps the descriptor open. -/
def safetyClose (k : Kernel) (clientSocket : Int) (calls : SafetyCloseCalls) : Int × Kernel :=
  match k.shutdown clientSocket calls.shutdown with
  | (false, k) => (-1, k)
  | (true, k) => k.close clientSocket calls.close

structure ReadCalls where
  addReader : Bool
  recv : RecvOutcome
  deriving DecidableEq, Repr

structure WriteCalls where
  addWriter : Bool
  send : SendOutcome
  deriving DecidableEq, Repr

/-- The calls of `accept`. `getfl` is `none` when `F_GETFL` fails; `cleanup` is
the `safetyClose` of `defaultAcception` and `undo` the one of `accept`. -/
structure AcceptCalls where
  accept : Int
  getfl : Option Nat
  setfl : Bool
  setsockopt : Bool
  cleanup : SafetyCloseCalls
  addReader : Bool
  addWriter : Bool
  undo : SafetyCloseCalls
  deriving DecidableEq, Repr

structure CloseCalls where
  deleteReader : Bool
  deleteWriter : Bool
  safetyClose : SafetyCloseCalls
  deriving DecidableEq, Repr

/-- `::accept`, then the modes of the new descriptor. -/
def defaultAcception (k : Kernel) (conn : Nat) (calls : AcceptCalls) : Int × Kernel :=
  if calls.accept < 0 then (-1, k)
  else
    let k := k.accept conn calls.accept
    match calls.getfl with
    | none => safetyClose k calls.accept calls.cleanup
    | some flags =>
        if flags &&& O_RDWR = 0 then (-1, k)
        else if !calls.setfl then safetyClose k calls.accept calls.cleanup
        else
          let k := k.setFlags calls.accept (flags ||| O_NONBLOCK)
          if !calls.setsockopt then safetyClose k calls.accept calls.cleanup
          else (calls.accept, k.setNodelay calls.accept)

namespace ClientSocket

/-- The constructor. -/
def new (id : Nat) : ClientSocket := { id }

def getFd (c : ClientSocket) : Int := c.clientFd_

/-- The flag that mirrors the registration for `i`. -/
def interest (c : ClientSocket) : Interest → Bool
  | .read => c.isReader_
  | .write => c.isWriter_

def withInterest (c : ClientSocket) (i : Interest) (on : Bool) : ClientSocket :=
  match i with
  | .read => { c with isReader_ := on }
  | .write => { c with isWriter_ := on }

def setInterest (c : ClientSocket) (k : Kernel) (i : Interest) (ok : Bool) : Returned :=
  if c.interest i then ⟨1, c, k⟩
  else
    match k.kevent c.clientFd_ i .add ok with
    | (false, k) => ⟨-1, c, k⟩
    | (true, k) => ⟨1, c.withInterest i true, k⟩

def removeInterest (c : ClientSocket) (k : Kernel) (i : Interest) (ok : Bool) : Returned :=
  if !c.interest i then ⟨1, c, k⟩
  else
    match k.kevent c.clientFd_ i .delete ok with
    | (false, k) => ⟨-1, c, k⟩
    | (true, k) => ⟨1, c.withInterest i false, k⟩

def setReader (c : ClientSocket) (k : Kernel) (ok : Bool) : Returned := c.setInterest k .read ok

def setWriter (c : ClientSocket) (k : Kernel) (ok : Bool) : Returned := c.setInterest k .write ok

def removeReader (c : ClientSocket) (k : Kernel) (ok : Bool) : Returned :=
  c.removeInterest k .read ok

def removeWriter (c : ClientSocket) (k : Kernel) (ok : Bool) : Returned :=
  c.removeInterest k .write ok

/-- `-1` from the system call is `0` for the caller when the call would block. -/
def wouldBlock (k : Kernel) : Int := if k.errno = .EAGAIN ∨ k.errno = .EWOULDBLOCK then 0 else -1

/-- The second component is the filled part of the caller's buffer. -/
def read (c : ClientSocket) (k : Kernel) (size : Nat) (calls : ReadCalls) : Returned × Str :=
  if !c.isConnected_ || !c.isReader_ then (⟨-1, c, k⟩, [])
  else
    let ready := c.setReader k calls.addReader
    if ready.result = -1 then (⟨-1, ready.client, ready.kernel⟩, [])
    else
      let c := { ready.client with isConnected_ := true }
      let (bytesRead, buff, k) := ready.kernel.recv c.clientFd_ size calls.recv
      (⟨if bytesRead = -1 then wouldBlock k else bytesRead, c, k⟩, buff)

def write (c : ClientSocket) (k : Kernel) (buff : Str) (calls : WriteCalls) : Returned :=
  if !c.isConnected_ || !c.isWriter_ then ⟨-1, c, k⟩
  else
    let ready := c.setWriter k calls.addWriter
    if ready.result = -1 then ⟨-1, ready.client, ready.kernel⟩
    else
      let (bytesWritten, k) := ready.kernel.send ready.client.clientFd_ buff calls.send
      ⟨if bytesWritten = -1 then wouldBlock k else bytesWritten, ready.client, k⟩

def accept (c : ClientSocket) (k : Kernel) (calls : AcceptCalls) : Returned :=
  let (clientFD, k) := defaultAcception k c.id calls
  if clientFD = -1 then ⟨-1, c, k⟩
  else
    let c := { c with isConnected_ := true, clientFd_ := clientFD }
    let reader := c.setReader k calls.addReader
    if reader.result = -1 then
      ⟨-1, reader.client, (safetyClose reader.kernel clientFD calls.undo).2⟩
    else
      let writer := reader.client.setWriter reader.kernel calls.addWriter
      if writer.result = -1 then
        ⟨-1, writer.client, (safetyClose writer.kernel clientFD calls.undo).2⟩
      else ⟨clientFD, { writer.client with isConnected_ := true }, writer.kernel⟩

/-- The two deregistrations of `close`; the second is skipped when the first
fails. -/
def deregister (c : ClientSocket) (k : Kernel) (calls : CloseCalls) : ClientSocket × Kernel :=
  let reader := c.removeReader k calls.deleteReader
  if reader.result < 0 then (reader.client, reader.kernel)
  else
    let writer := reader.client.removeWriter reader.kernel calls.deleteWriter
    (writer.client, writer.kernel)

def close (c : ClientSocket) (k : Kernel) (calls : CloseCalls) : Returned :=
  if !c.isConnected_ || c.clientFd_ < 0 then ⟨1, c, k⟩
  else
    let (c, k) := c.deregister k calls
    let c := { c with isConnected_ := false }
    let (result, k) := safetyClose k c.clientFd_ calls.safetyClose
    ⟨result, c, k⟩

/-- The destructor. -/
def destroy (c : ClientSocket) (k : Kernel) (calls : CloseCalls) : Kernel :=
  if c.isConnected_ then (c.close k calls).kernel else k

/-! ## Operations that do not close -/

/-- An operation of `c` changed nothing but the registrations of its own
descriptor and the flags that mirror them. -/
structure Local (c : ClientSocket) (k : Kernel) (c' : ClientSocket) (k' : Kernel) : Prop where
  id : c'.id = c.id
  fd : c'.clientFd_ = c.clientFd_
  connected : c'.isConnected_ = c.isConnected_
  keeps : k.Keeps c.clientFd_ k'

namespace Local

variable {c c' c'' : ClientSocket} {k k' k'' : Kernel}

theorem refl (c : ClientSocket) (k : Kernel) : Local c k c k :=
  ⟨rfl, rfl, rfl, Kernel.Keeps.refl c.clientFd_ k⟩

theorem trans (h₁ : Local c k c' k') (h₂ : Local c' k' c'' k'') : Local c k c'' k'' where
  id := h₂.id.trans h₁.id
  fd := h₂.fd.trans h₁.fd
  connected := h₂.connected.trans h₁.connected
  keeps := h₁.keeps.trans (h₁.fd ▸ h₂.keeps)

/-- A system call that keeps the descriptor table, behind a local operation. -/
theorem call (h : Local c k c' k') (keeps : k'.Keeps c'.clientFd_ k'') : Local c k c' k'' :=
  h.trans ⟨rfl, rfl, rfl, keeps⟩

end Local

@[simp] theorem withInterest_id (c : ClientSocket) (i : Interest) (on : Bool) :
    (c.withInterest i on).id = c.id := by cases i <;> rfl

@[simp] theorem withInterest_clientFd (c : ClientSocket) (i : Interest) (on : Bool) :
    (c.withInterest i on).clientFd_ = c.clientFd_ := by cases i <;> rfl

@[simp] theorem withInterest_isConnected (c : ClientSocket) (i : Interest) (on : Bool) :
    (c.withInterest i on).isConnected_ = c.isConnected_ := by cases i <;> rfl

/-- What `setInterest` and `removeInterest` return: nothing is done when the flag is as
wanted; otherwise the kernel is asked, and the flag follows its answer. -/
inductive Changes (c : ClientSocket) (k : Kernel) (i : Interest) (change : Change) (ok : Bool) :
    Returned → Prop where
  | same (flag : c.interest i = decide (change = .add)) : Changes c k i change ok ⟨1, c, k⟩
  | refused (k' : Kernel) (flag : c.interest i ≠ decide (change = .add))
      (call : k.kevent c.clientFd_ i change ok = (false, k')) :
      Changes c k i change ok ⟨-1, c, k'⟩
  | applied (k' : Kernel) (flag : c.interest i ≠ decide (change = .add))
      (call : k.kevent c.clientFd_ i change ok = (true, k')) :
      Changes c k i change ok ⟨1, c.withInterest i (change = .add), k'⟩

theorem setInterest_changes (c : ClientSocket) (k : Kernel) (i : Interest) (ok : Bool) :
    Changes c k i .add ok (c.setInterest k i ok) := by
  unfold setInterest
  split
  · next flag => exact .same flag
  · next flag =>
      rcases call : k.kevent c.clientFd_ i .add ok with ⟨_ | _, k'⟩
      · exact .refused k' flag call
      · exact .applied k' flag call

theorem removeInterest_changes (c : ClientSocket) (k : Kernel) (i : Interest) (ok : Bool) :
    Changes c k i .delete ok (c.removeInterest k i ok) := by
  unfold removeInterest
  split
  · next flag => exact .same (by simpa using flag)
  · next flag =>
      rcases call : k.kevent c.clientFd_ i .delete ok with ⟨_ | _, k'⟩
      · exact .refused k' (by simpa using flag) call
      · exact .applied k' (by simpa using flag) call

namespace Changes

variable {c : ClientSocket} {k : Kernel} {i : Interest} {change : Change} {ok : Bool} {r : Returned}

/-- What holds of the kernel before and after every `kevent` holds of the operation. -/
theorem kernel {R : Kernel → Kernel → Prop} (h : Changes c k i change ok r) (refl : R k k)
    (kevent : R k (k.kevent c.clientFd_ i change ok).2) : R k r.kernel := by
  cases h with
  | same flag => exact refl
  | refused k' flag call =>
      rw [call] at kevent
      exact kevent
  | applied k' flag call =>
      rw [call] at kevent
      exact kevent

theorem sent (h : Changes c k i change ok r) : r.kernel.sent = k.sent :=
  h.kernel (R := fun k k' => k'.sent = k.sent) rfl (k.kevent_sent c.clientFd_ i change ok)

theorem frame (h : Changes c k i change ok r) : Local c k r.client r.kernel := by
  have keeps : k.Keeps c.clientFd_ r.kernel :=
    h.kernel (.refl c.clientFd_ k) (k.kevent_keeps c.clientFd_ i change ok)
  cases h with
  | same flag => exact ⟨rfl, rfl, rfl, keeps⟩
  | refused k' flag call => exact ⟨rfl, rfl, rfl, keeps⟩
  | applied k' flag call => exact ⟨by simp, by simp, by simp, keeps⟩

end Changes

theorem removeInterest_sent (c : ClientSocket) (k : Kernel) (i : Interest) (ok : Bool) :
    (c.removeInterest k i ok).kernel.sent = k.sent := (c.removeInterest_changes k i ok).sent

theorem setInterest_local (c : ClientSocket) (k : Kernel) (i : Interest) (ok : Bool) :
    Local c k (c.setInterest k i ok).client (c.setInterest k i ok).kernel :=
  (c.setInterest_changes k i ok).frame

theorem removeInterest_local (c : ClientSocket) (k : Kernel) (i : Interest) (ok : Bool) :
    Local c k (c.removeInterest k i ok).client (c.removeInterest k i ok).kernel :=
  (c.removeInterest_changes k i ok).frame

/-- A connected object with the flag set asks the kernel for nothing but the bytes. -/
theorem read_cases (c : ClientSocket) (k : Kernel) (size : Nat) (calls : ReadCalls) :
    ((c.isConnected_ = false ∨ c.isReader_ = false) ∧
      c.read k size calls = (⟨-1, c, k⟩, [])) ∨
    (c.isConnected_ = true ∧ c.isReader_ = true ∧ c.read k size calls =
      (⟨if (k.recv c.clientFd_ size calls.recv).1 = -1 then
          wouldBlock (k.recv c.clientFd_ size calls.recv).2.2
        else (k.recv c.clientFd_ size calls.recv).1, c, (k.recv c.clientFd_ size calls.recv).2.2⟩,
        (k.recv c.clientFd_ size calls.recv).2.1)) := by
  cases connected : c.isConnected_ with
  | false => exact .inl ⟨.inl rfl, by simp [read, connected]⟩
  | true =>
      cases reader : c.isReader_ with
      | false => exact .inl ⟨.inr rfl, by simp [read, reader]⟩
      | true =>
          have ready : c.setReader k calls.addReader = ⟨1, c, k⟩ := if_pos reader
          refine .inr ⟨rfl, rfl, ?_⟩
          obtain ⟨id, clientFd_, isReader_, isWriter_, isConnected_⟩ := c
          obtain rfl : isConnected_ = true := connected
          obtain rfl : isReader_ = true := reader
          simp [read, ready]

theorem write_cases (c : ClientSocket) (k : Kernel) (buff : Str) (calls : WriteCalls) :
    ((c.isConnected_ = false ∨ c.isWriter_ = false) ∧ c.write k buff calls = ⟨-1, c, k⟩) ∨
    (c.isConnected_ = true ∧ c.isWriter_ = true ∧ c.write k buff calls =
      ⟨if (k.send c.clientFd_ buff calls.send).1 = -1 then
          wouldBlock (k.send c.clientFd_ buff calls.send).2
        else (k.send c.clientFd_ buff calls.send).1,
          c, (k.send c.clientFd_ buff calls.send).2⟩) := by
  cases connected : c.isConnected_ with
  | false => exact .inl ⟨.inl rfl, by simp [write, connected]⟩
  | true =>
      cases writer : c.isWriter_ with
      | false => exact .inl ⟨.inr rfl, by simp [write, writer]⟩
      | true =>
          have ready : c.setWriter k calls.addWriter = ⟨1, c, k⟩ := if_pos writer
          exact .inr ⟨rfl, rfl, by simp [write, connected, writer, ready]⟩

theorem read_local (c : ClientSocket) (k : Kernel) (size : Nat) (calls : ReadCalls) :
    Local c k (c.read k size calls).1.client (c.read k size calls).1.kernel := by
  obtain ⟨-, refused⟩ | ⟨-, -, received⟩ := c.read_cases k size calls
  · rw [refused]
    exact Local.refl c k
  · rw [received]
    exact (Local.refl c k).call (k.recv_keeps c.clientFd_ size calls.recv)

theorem write_local (c : ClientSocket) (k : Kernel) (buff : Str) (calls : WriteCalls) :
    Local c k (c.write k buff calls).client (c.write k buff calls).kernel := by
  obtain ⟨-, refused⟩ | ⟨-, -, sent⟩ := c.write_cases k buff calls
  · rw [refused]
    exact Local.refl c k
  · rw [sent]
    exact (Local.refl c k).call (k.send_keeps c.clientFd_ buff calls.send)

theorem read_sent (c : ClientSocket) (k : Kernel) (size : Nat) (calls : ReadCalls) :
    (c.read k size calls).1.kernel.sent = k.sent := by
  obtain ⟨-, refused⟩ | ⟨-, -, received⟩ := c.read_cases k size calls
  · rw [refused]
  · rw [received]
    exact k.recv_sent c.clientFd_ size calls.recv

/-- A `write` adds nothing, or a prefix of the buffer to one connection. -/
theorem write_sent (c : ClientSocket) (k : Kernel) (buff : Str) (calls : WriteCalls) :
    (c.write k buff calls).kernel.sent = k.sent ∨
    ∃ conn count, calls.send = .accepted count ∧ (c.write k buff calls).kernel.sent =
      Function.update k.sent conn (k.sent conn ++ buff.take count) := by
  obtain ⟨-, refused⟩ | ⟨-, -, sent⟩ := c.write_cases k buff calls
  · rw [refused]
    exact .inl rfl
  · rw [sent]
    exact k.send_sent c.clientFd_ buff calls.send

/-- A member call other than `accept` and `close`, with the outcomes of its system
calls. -/
inductive Operation where
  | read (size : Nat) (calls : ReadCalls)
  | write (buff : Str) (calls : WriteCalls)
  | setReader (ok : Bool)
  | setWriter (ok : Bool)
  | removeReader (ok : Bool)
  | removeWriter (ok : Bool)
  deriving DecidableEq, Repr

def perform (c : ClientSocket) (k : Kernel) : Operation → Returned
  | .read size calls => (c.read k size calls).1
  | .write buff calls => c.write k buff calls
  | .setReader ok => c.setReader k ok
  | .setWriter ok => c.setWriter k ok
  | .removeReader ok => c.removeReader k ok
  | .removeWriter ok => c.removeWriter k ok

theorem perform_local (c : ClientSocket) (k : Kernel) (op : Operation) :
    Local c k (c.perform k op).client (c.perform k op).kernel := by
  cases op with
  | read size calls => exact c.read_local k size calls
  | write buff calls => exact c.write_local k buff calls
  | setReader ok => exact c.setInterest_local k .read ok
  | setWriter ok => exact c.setInterest_local k .write ok
  | removeReader ok => exact c.removeInterest_local k .read ok
  | removeWriter ok => exact c.removeInterest_local k .write ok

/-- Operations in sequence, whatever each of them returns. -/
def performAll (c : ClientSocket) (k : Kernel) (ops : List Operation) : ClientSocket × Kernel :=
  Transition.run
    (fun s op => ((s.1.perform s.2 op).client, (s.1.perform s.2 op).kernel)) (c, k) ops

theorem performAll_local (c : ClientSocket) (k : Kernel) (ops : List Operation) :
    Local c k (c.performAll k ops).1 (c.performAll k ops).2 :=
  Transition.run_preserves (I := fun s : ClientSocket × Kernel => Local c k s.1 s.2)
    (fun s op _ before => before.trans (s.1.perform_local s.2 op)) (Local.refl c k)

/-! ## What decides an operation -/

/-- Two calls that leave the same object and the same state of its descriptor `fd`. -/
structure Alike (fd : Int) (r r' : Returned) : Prop where
  client : r'.client = r.client
  opened : r'.kernel.opened fd = r.kernel.opened fd

variable {k k' : Kernel}

theorem setInterest_congr (c : ClientSocket)
    (same : k'.opened c.clientFd_ = k.opened c.clientFd_) (i : Interest) (ok : Bool) :
    Alike c.clientFd_ (c.setInterest k i ok) (c.setInterest k' i ok) := by
  obtain ⟨answer, opened⟩ := Kernel.kevent_congr same i .add ok
  unfold setInterest
  split
  · exact ⟨rfl, same⟩
  · rcases call : k.kevent c.clientFd_ i .add ok with ⟨_ | _, k₁⟩ <;>
    rcases call' : k'.kevent c.clientFd_ i .add ok with ⟨_ | _, k₁'⟩ <;>
    rw [call, call'] at answer opened
    · exact ⟨rfl, opened⟩
    · cases answer
    · cases answer
    · exact ⟨rfl, opened⟩

theorem removeInterest_congr (c : ClientSocket)
    (same : k'.opened c.clientFd_ = k.opened c.clientFd_) (i : Interest) (ok : Bool) :
    Alike c.clientFd_ (c.removeInterest k i ok) (c.removeInterest k' i ok) := by
  obtain ⟨answer, opened⟩ := Kernel.kevent_congr same i .delete ok
  unfold removeInterest
  split
  · exact ⟨rfl, same⟩
  · rcases call : k.kevent c.clientFd_ i .delete ok with ⟨_ | _, k₁⟩ <;>
    rcases call' : k'.kevent c.clientFd_ i .delete ok with ⟨_ | _, k₁'⟩ <;>
    rw [call, call'] at answer opened
    · exact ⟨rfl, opened⟩
    · cases answer
    · cases answer
    · exact ⟨rfl, opened⟩

theorem read_client (c : ClientSocket) (k : Kernel) (size : Nat) (calls : ReadCalls) :
    (c.read k size calls).1.client = c ∧ (c.read k size calls).1.kernel.opened = k.opened := by
  obtain ⟨-, refused⟩ | ⟨-, -, received⟩ := c.read_cases k size calls
  · rw [refused]
    exact ⟨rfl, rfl⟩
  · rw [received]
    exact ⟨rfl, k.recv_opened c.clientFd_ size calls.recv⟩

theorem write_client (c : ClientSocket) (k : Kernel) (buff : Str) (calls : WriteCalls) :
    (c.write k buff calls).client = c ∧ (c.write k buff calls).kernel.opened = k.opened := by
  obtain ⟨-, refused⟩ | ⟨-, -, sent⟩ := c.write_cases k buff calls
  · rw [refused]
    exact ⟨rfl, rfl⟩
  · rw [sent]
    exact ⟨rfl, k.send_opened c.clientFd_ buff calls.send⟩

theorem perform_congr (c : ClientSocket) (same : k'.opened c.clientFd_ = k.opened c.clientFd_)
    (op : Operation) : Alike c.clientFd_ (c.perform k op) (c.perform k' op) := by
  cases op with
  | read size calls =>
      obtain ⟨client, opened⟩ := c.read_client k size calls
      obtain ⟨client', opened'⟩ := c.read_client k' size calls
      exact ⟨client'.trans client.symm, by simp only [perform, opened, opened', same]⟩
  | write buff calls =>
      obtain ⟨client, opened⟩ := c.write_client k buff calls
      obtain ⟨client', opened'⟩ := c.write_client k' buff calls
      exact ⟨client'.trans client.symm, by simp only [perform, opened, opened', same]⟩
  | setReader ok => exact c.setInterest_congr same .read ok
  | setWriter ok => exact c.setInterest_congr same .write ok
  | removeReader ok => exact c.removeInterest_congr same .read ok
  | removeWriter ok => exact c.removeInterest_congr same .write ok

/-- The object depends on its own descriptor only, whatever is done with it. -/
theorem performAll_congr (c : ClientSocket) (same : k'.opened c.clientFd_ = k.opened c.clientFd_)
    (ops : List Operation) : (c.performAll k' ops).1 = (c.performAll k ops).1 := by
  induction ops generalizing c k k' with
  | nil => rfl
  | cons op ops ih =>
      obtain ⟨client, opened⟩ := c.perform_congr same op
      have fd := (c.perform_local k op).fd
      show ((c.perform k' op).client.performAll (c.perform k' op).kernel ops).1 =
        ((c.perform k op).client.performAll (c.perform k op).kernel ops).1
      rw [client]
      refine ih _ ?_
      rw [fd]
      exact opened

end ClientSocket

end Mux.Socket
