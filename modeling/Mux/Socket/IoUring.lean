import Mux.Socket.Entries
import Mux.Socket.Readiness

/-!
# Completions of io_uring

The completion queue holds what the kernel has posted and the program has not
consumed; only `io_uring_cqe_seen` moves its head. `pollingHandler` walks from the
head to the tail, and `IoUringSocket` takes the entry at the head again and again.
`processed` and `consumed` list the entries that the loop body was entered for and
those that the head has passed.
-/

namespace Mux.Socket

open Transition

namespace IoUring

def POLLIN : Nat := 0x001

def POLLOUT : Nat := 0x004

def IORING_CQE_F_MORE : Nat := 0x002

/-- A completion queue entry. The number of the descriptor it is about is what both loops
read from it, one as `user_data` and one as `fd`. -/
structure Cqe where
  fd : Nat
  res : Int
  flags : Nat := 0
  deriving DecidableEq, Repr

/-- A server and its completion queue, from the head to the tail. -/
structure Ring where
  server : SocketBase
  pending : List Cqe := []
  posted : List Cqe := []
  processed : List Cqe := []
  consumed : List Cqe := []

namespace Ring

/-- The kernel posts completions at the tail. -/
def post (s : Ring) (cqes : List Cqe) : Ring :=
  { s with pending := s.pending ++ cqes, posted := s.posted ++ cqes }

/-- A new call begins, with the completions that the kernel posts until it ends. -/
def receive (s : Ring) (posted : List Cqe) : Ring :=
  { s with server := s.server.resume }.post posted

/-- The loop body is entered for an entry. -/
def enter (s : Ring) (cqe : Cqe) : Ring := { s with processed := s.processed ++ [cqe] }

def io_uring_cqe_seen (s : Ring) : Ring :=
  match s.pending with
  | [] => s
  | cqe :: pending => { s with pending, consumed := s.consumed ++ [cqe] }

end Ring

section Loops

variable {χ : Type} (handle : Interest → HandleOperation χ)

/-! ## The loop of the server -/

/-- What `pollingHandler` reads off an entry. -/
def Cqe.readiness (cqe : Cqe) : Readiness where
  fd := cqe.fd
  failed := cqe.res < 0
  readable := cqe.res.toNat &&& POLLIN ≠ 0
  writable := cqe.res.toNat &&& POLLOUT ≠ 0

/-- The body of the loop of `pollingHandler`. A stopped program enters it no more. -/
def pollCompletion (outcomes : Nat → Outcomes χ) (s : Ring) (cqe : Cqe) : Ring :=
  if s.server.status ≠ .running then s
  else
    let o := outcomes s.processed.length
    { s.enter cqe with server := s.server.serve handle cqe.readiness o }

/-- One call. `io_uring_for_each_cqe` walks from the head to the tail. -/
def pollingHandler (outcomes : Nat → Outcomes χ) (s : Ring) (posted : List Cqe) : Ring :=
  run (pollCompletion handle outcomes) (s.receive posted) (s.receive posted).pending

/-! ## The loop of `IoUringSocket` -/

/-- `IoUringSocket::closeSocket`. A client whose `close` fails stays in the map. `cleared`
is the kernel behind the destructors of all clients, for a number that stands for the
server. -/
def closeSocket (w : SocketBase) (client : Int) (calls : CloseCalls) (cleared : Kernel) :
    Bool × SocketBase :=
  let entry := w.clientFds_.find? client
  let w := w.logged (.closeSocket client entry)
  match entry with
  | none => (true, w)
  | some clientSock =>
      if client ≥ 0 then
        match clientSock with
        | none => (false, { w with status := .crashed })
        | some c =>
            let closed := c.close w.kernel calls
            if closed.result = -1 then
              (false, { w with
                clientFds_ := w.clientFds_.insert client (some closed.client)
                kernel := closed.kernel })
            else
              (true, { w with clientFds_ := w.clientFds_.erase client, kernel := closed.kernel })
      else
        -- `::close` is given the `-1` that `socket_` was just set to
        (false, { w with socket_ := -1, clientFds_ := .empty, kernel := cleared })

/-- `removeWriter` through the pointer that the loop holds, after `closeSocket` for the
same client: on the object as `close` left it, in the map or not. -/
def removeWriterClosed (w : SocketBase) (fd : Int) (client : ClientPtr) (before : Kernel)
    (o : Outcomes χ) : SocketBase :=
  match client with
  | none => { w with status := .crashed }
  | some c =>
      let changed := (c.close before o.close).client.removeWriter w.kernel o.removeWriter
      { w with
        clientFds_ := if w.clientFds_.contains fd then w.clientFds_.insert fd (some changed.client)
          else w.clientFds_
        kernel := changed.kernel }

/-- The write branch: a result that is not positive closes the client, and `removeWriter`
follows in any case. -/
def writeCompletion (w : SocketBase) (fd : Int) (clientSock : ClientPtr) (o : Outcomes χ)
    (cleared : Kernel) : SocketBase :=
  let w := w.logged (.handle .write fd clientSock)
  match handle .write o.write clientSock w.kernel with
  | none => { w with status := .crashed }
  | some handled =>
      let w := { w with
        clientFds_ := w.clientFds_.insert fd handled.client
        kernel := handled.kernel }
      if handled.result ≤ 0 then
        let closed := (closeSocket w fd o.close cleared).2
        if closed.status ≠ .running then closed
        else removeWriterClosed closed fd handled.client w.kernel o
      else
        match handled.client with
        | none => { w with status := .crashed }
        | some c =>
            let changed := c.removeWriter w.kernel o.removeWriter
            { w with
              clientFds_ := w.clientFds_.insert fd (some changed.client)
              kernel := changed.kernel }

/-- The statements behind a call that leaves the server as `w`. They are not reached when
the call has ended the program. -/
def Ring.after (s : Ring) (w : SocketBase) (rest : Ring → Ring) : Ring :=
  let s := { s with server := w }
  if w.status = .running then rest s else s

/-- The branches of the body for a completion of a client that is not an error.
`IORING_CQE_F_MISS` is not defined in the sources. -/
def clientCompletion (IORING_CQE_F_MISS : Nat) (s : Ring) (cqe : Cqe) (o : Outcomes χ)
    (cleared : Kernel) : Ring :=
  let (clientSock, clientFds_) := s.server.clientFds_.subscript none (cqe.fd : Int)
  let w := { s.server with clientFds_ }
  if cqe.flags &&& IORING_CQE_F_MORE ≠ 0 then
    -- behind `closeSocket` for a negative result, and behind `setWriter` for any other
    s.after (w.attend handle .read cqe.fd clientSock o.read (fun result => 0 ≤ result)
        (.setWriter o.setWriter) (fun w => (closeSocket w cqe.fd o.close cleared).2)).1
      Ring.io_uring_cqe_seen
  else if cqe.flags &&& IORING_CQE_F_MISS ≠ 0 then
    s.after (writeCompletion handle w cqe.fd clientSock o cleared) Ring.io_uring_cqe_seen
  else s.after (closeSocket w cqe.fd o.close cleared).2 Ring.io_uring_cqe_seen

/-- The body of the loop of `IoUringSocket::handler`. An error of the listening socket
consumes its entry and returns. -/
def complete (IORING_CQE_F_MISS : Nat) (s : Ring) (cqe : Cqe) (o : Outcomes χ)
    (cleared : Kernel) : Ring :=
  let w := s.server
  if cqe.res < 0 then
    if (cqe.fd : Int) ≠ w.socket_ then
      s.after (closeSocket w cqe.fd o.close cleared).2 Ring.io_uring_cqe_seen
    else
      s.after (closeSocket w (-1) o.close cleared).2 fun s =>
        { s.io_uring_cqe_seen with server := { s.server with status := .returned } }
  else if (cqe.fd : Int) = w.socket_ then
    -- both when `accept` fails and when it returns a descriptor
    s.after (w.acceptClient o.accept o.destroy) Ring.io_uring_cqe_seen
  else clientCompletion handle IORING_CQE_F_MISS s cqe o cleared

/-- One turn of the loop: `io_uring_wait_cqe` hands out the entry at the head. Without an
entry it fails or goes on waiting, and a call that has returned or a program that has
ended makes no further turn. -/
def turn (IORING_CQE_F_MISS : Nat) (outcomes : Nat → Outcomes χ) (cleared : Nat → Kernel)
    (s : Ring) (_ : Unit) : Ring :=
  if s.server.status ≠ .running then s
  else
    match s.pending with
    | [] => s
    | cqe :: _ =>
        complete handle IORING_CQE_F_MISS (s.enter cqe) cqe (outcomes s.processed.length)
          (cleared s.processed.length)

/-- The completions that a call can take out of the queue. -/
def turns (s : Ring) : List Unit := List.replicate s.pending.length ()

/-- One call. -/
def handler (IORING_CQE_F_MISS : Nat) (outcomes : Nat → Outcomes χ) (cleared : Nat → Kernel)
    (s : Ring) (posted : List Cqe) : Ring :=
  run (turn handle IORING_CQE_F_MISS outcomes cleared) (s.receive posted) (turns (s.receive posted))

end Loops

/-! ## Exactly once -/

/-- Every completion has passed through the body once, in the order of the queue, and was
consumed; only an early return leaves entries for the next call. -/
structure ExactlyOnce (s : Ring) : Prop where
  taken : s.processed ++ s.pending = s.posted
  consumed : s.consumed = s.processed
  left : s.pending = [] ∨ s.server.status = .returned

/-- A running server whose map has no null pointer, and an empty queue. -/
structure Start (s : Ring) : Prop where
  running : s.server.status = .running
  filled : ∀ fd, s.server.clientFds_.find? fd ≠ some none
  pending : s.pending = []
  posted : s.posted = []
  processed : s.processed = []
  consumed : s.consumed = []

/-- A turn that finds a client under the number of its completion. An error needs none. -/
def Served (s : Ring) (_ : Unit) : Prop :=
  s.server.status = .running → ∀ cqe ∈ s.pending.head?,
    0 ≤ cqe.res → (cqe.fd : Int) ≠ s.server.socket_ → ¬ s.server.Vacant cqe.fd

/-- The two loops over completions. -/
inductive Loop where
  | pollingHandler
  | ioUringSocket

section Claim

variable (IORING_CQE_F_MISS : Nat) (outcomes : Nat → Outcomes Script) (cleared : Nat → Kernel)

/-- One call of the loop. -/
def Loop.call : Loop → Ring → List Cqe → Ring
  | .pollingHandler => IoUring.pollingHandler scripted outcomes
  | .ioUringSocket => handler scripted IORING_CQE_F_MISS outcomes cleared

/-- When a call treats its completions as it should: the one loop if there are none, the
other if each finds its client. -/
def Loop.Condition : Loop → Ring → List Cqe → Prop
  | .pollingHandler, _, posted => posted = []
  | .ioUringSocket, s, posted =>
      Along (turn scripted IORING_CQE_F_MISS outcomes cleared) Served (s.receive posted)
        (turns (s.receive posted))

end Claim

/-! ## What a statement leaves of the server -/

/-- Every entry of the map is a client. -/
def Filled (w : SocketBase) : Prop := ∀ fd, w.clientFds_.find? fd ≠ some none

variable {w : SocketBase} {fd : Int} {c : ClientSocket} {s : Ring} {cqe : Cqe} {rest : List Cqe}
variable {o : Outcomes Script} {cleared : Kernel} {miss : Nat}

theorem Filled.insert (h : Filled w) (fd : Int) (c : ClientSocket) :
    ∀ x, (w.clientFds_.insert fd (some c)).find? x ≠ some none :=
  SocketBase.insert_filled h fd c

theorem Filled.closeSocket (h : Filled w) (client : Int) (calls : CloseCalls) (cleared : Kernel) :
    (closeSocket w client calls cleared).2.status = w.status ∧
      Filled (closeSocket w client calls cleared).2 := by
  unfold IoUring.closeSocket
  rcases found : w.clientFds_.find? client with _ | _ | c
  · exact ⟨rfl, h⟩
  · exact absurd found (h client)
  · by_cases positive : client ≥ 0
    · simp only [if_pos positive]
      split
      · exact ⟨rfl, h.insert client _⟩
      · exact ⟨rfl, fun x found => h x (UnorderedMap.find?_erase_eq_some.mp found).2⟩
    · simp only [if_neg positive]
      exact ⟨rfl, fun x => by simp⟩

theorem closeSocket_null (found : w.clientFds_.find? fd = some none) (number : 0 ≤ fd)
    (calls : CloseCalls) : (closeSocket w fd calls cleared).2.status = .crashed := by
  simp only [closeSocket, found, ge_iff_le, if_pos number]

theorem Filled.served (h : Filled w) (i : Interest) (fd : Int) (c : ClientSocket)
    (script : Script) : Filled (w.served i fd c script) := h.insert fd _

theorem filled_iff_entries : Filled w ↔ w.Entries fun _ entry => entry ≠ none := by
  constructor
  · rintro h fd entry found rfl
    exact h fd found
  · intro h fd found
    exact h fd none found rfl

theorem Filled.acceptClient (h : Filled w) (calls : AcceptCalls) (later : CloseCalls) :
    Filled (w.acceptClient calls later) :=
  filled_iff_entries.mpr <|
    (filled_iff_entries.mp h).acceptClient (fun _ _ _ => Option.some_ne_none _) calls later

/-- The read branch for a client. -/
theorem Filled.attend (h : Filled w) (fd : Int) (c : ClientSocket) (i : Interest)
    (script : Script) (keeps : Int → Bool) (op : ClientSocket.Operation) (calls : CloseCalls)
    (cleared : Kernel) :
    let attended := (w.attend scripted i fd (some c) script keeps op
      fun w => (IoUring.closeSocket w fd calls cleared).2).1
    attended.status = w.status ∧ Filled attended := by
  rw [SocketBase.attend_live]
  split
  · exact ⟨rfl, h.served i fd c _⟩
  · exact (h.served i fd c script).closeSocket fd calls cleared

/-- A handler that is given a null pointer ends the program, itself or through the
statement behind it. -/
theorem attend_null {i : Interest} {script : Script} {keeps : Int → Bool}
    {op : ClientSocket.Operation} {close : SocketBase → SocketBase}
    (closes : ∀ w, w.clientFds_.find? fd = some none → (close w).status = .crashed) :
    (w.attend scripted i fd none script keeps op close).1.status = .crashed := by
  by_cases untouched : script.ops = []
  · simp only [SocketBase.attend, scripted, if_pos untouched]
    split
    · rfl
    · exact closes _ (UnorderedMap.find?_insert _ _ _)
  · simp only [SocketBase.attend, scripted, if_neg untouched]

theorem Filled.removeWriterClosed (h : Filled w) (fd : Int) (c : ClientSocket) (before : Kernel)
    (o : Outcomes Script) :
    (removeWriterClosed w fd (some c) before o).status = w.status ∧
      Filled (removeWriterClosed w fd (some c) before o) := by
  refine ⟨rfl, ?_⟩
  simp only [IoUring.removeWriterClosed, Filled]
  split
  · exact h.insert fd _
  · exact h

theorem Filled.writeCompletion (h : Filled w) (running : w.status = .running) (fd : Int)
    (c : ClientSocket) (o : Outcomes Script) (cleared : Kernel) :
    (IoUring.writeCompletion scripted w fd (some c) o cleared).status = .running ∧
      Filled (IoUring.writeCompletion scripted w fd (some c) o cleared) := by
  have served := h.served .write fd c o.write
  obtain ⟨status, closed⟩ :
      (IoUring.closeSocket (w.served .write fd c o.write) fd o.close cleared).2.status =
      w.status ∧ Filled (IoUring.closeSocket (w.served .write fd c o.write) fd o.close cleared).2 :=
    served.closeSocket fd o.close cleared
  have handled : IoUring.writeCompletion scripted w fd (some c) o cleared =
      if o.write.result ≤ 0 then
        if (IoUring.closeSocket (w.served .write fd c o.write) fd o.close cleared).2.status ≠
            .running then
          (IoUring.closeSocket (w.served .write fd c o.write) fd o.close cleared).2
        else
          IoUring.removeWriterClosed
            (IoUring.closeSocket (w.served .write fd c o.write) fd o.close cleared).2
            fd (some (c.performAll w.kernel o.write.ops).1) (c.performAll w.kernel o.write.ops).2 o
      else
        { w.served .write fd c o.write with
          clientFds_ := (w.served .write fd c o.write).clientFds_.insert fd
            (some ((c.performAll w.kernel o.write.ops).1.removeWriter
              (c.performAll w.kernel o.write.ops).2 o.removeWriter).client)
          kernel := ((c.performAll w.kernel o.write.ops).1.removeWriter
            (c.performAll w.kernel o.write.ops).2 o.removeWriter).kernel } := rfl
  rw [handled]
  split
  · rw [if_neg (by simp [status, running])]
    obtain ⟨same, filled⟩ := closed.removeWriterClosed fd
      (c.performAll w.kernel o.write.ops).1 (c.performAll w.kernel o.write.ops).2 o
    exact ⟨same.trans (status.trans running), filled⟩
  · exact ⟨running, served.insert fd _⟩

theorem writeCompletion_null (number : 0 ≤ fd) :
    (writeCompletion scripted w fd none o cleared).status = .crashed := by
  by_cases untouched : o.write.ops = []
  · simp only [writeCompletion, scripted, if_pos untouched]
    split
    · rw [if_pos]
      · exact closeSocket_null (UnorderedMap.find?_insert _ _ _) number o.close
      · rw [closeSocket_null (UnorderedMap.find?_insert _ _ _) number o.close]
        intro running
        cases running
    · rfl
  · simp only [writeCompletion, scripted, if_neg untouched]

/-! ## One turn -/

/-- The body has consumed the entry at the head, and the server goes on or returns. -/
def Consumes (s : Ring) (cqe : Cqe) (rest : List Cqe) (s' : Ring) : Prop :=
  ∃ w, (w.status = .running ∨ w.status = .returned) ∧ Filled w ∧
    s' = { s with server := w, pending := rest, consumed := s.consumed ++ [cqe] }

/-- The body has ended the program before it came to consuming its entry. -/
def Crashes (s s' : Ring) : Prop :=
  ∃ w : SocketBase, w.status = .crashed ∧ s' = { s with server := w }

theorem seen_head (head : s.pending = cqe :: rest) :
    s.io_uring_cqe_seen = { s with pending := rest, consumed := s.consumed ++ [cqe] } := by
  simp only [Ring.io_uring_cqe_seen, head]

theorem after_consumes (head : s.pending = cqe :: rest) (running : w.status = .running)
    (filled : Filled w) : Consumes s cqe rest (s.after w Ring.io_uring_cqe_seen) := by
  refine ⟨w, .inl running, filled, ?_⟩
  have head' : { s with server := w }.pending = cqe :: rest := head
  simp only [Ring.after, if_pos running, seen_head head']

theorem after_crashes {next : Ring → Ring} (crashed : w.status = .crashed) :
    Crashes s (s.after w next) := by
  refine ⟨w, crashed, ?_⟩
  simp only [Ring.after, crashed, reduceCtorEq, if_false]

/-- The branches for a client that is there. -/
theorem clientCompletion_consumes (filled : Filled s.server) (running : s.server.status = .running)
    (head : s.pending = cqe :: rest)
    (entry : s.server.clientFds_.find? (cqe.fd : Int) = some (some c)) :
    Consumes s cqe rest (clientCompletion scripted miss s cqe o cleared) := by
  unfold clientCompletion
  rw [UnorderedMap.subscript_present entry]
  simp only
  split
  · obtain ⟨status, attended⟩ := filled.attend cqe.fd c .read o.read (fun result => 0 ≤ result)
      (.setWriter o.setWriter) o.close cleared
    exact after_consumes head (status.trans running) attended
  · split
    · obtain ⟨status, written⟩ := filled.writeCompletion running cqe.fd c o cleared
      exact after_consumes head status written
    · obtain ⟨status, closed⟩ := filled.closeSocket cqe.fd o.close cleared
      exact after_consumes head (status.trans running) closed

/-- The branches for a number without a client: each of them dereferences the null pointer
that the lookup has entered. -/
theorem clientCompletion_crashes (filled : Filled s.server)
    (vacant : s.server.Vacant cqe.fd) :
    Crashes s (clientCompletion scripted miss s cqe o cleared) := by
  have number : (0 : Int) ≤ cqe.fd := Int.natCast_nonneg _
  have absent : s.server.clientFds_.find? (cqe.fd : Int) = none :=
    vacant.resolve_right (filled cqe.fd)
  unfold clientCompletion
  rw [UnorderedMap.subscript_absent absent]
  simp only
  split
  · exact after_crashes (attend_null fun w found => closeSocket_null found number o.close)
  · split
    · exact after_crashes (writeCompletion_null number)
    · exact after_crashes (closeSocket_null (UnorderedMap.find?_insert _ _ _) number o.close)

theorem complete_consumes (miss : Nat) (o : Outcomes Script) (cleared : Kernel)
    (filled : Filled s.server) (running : s.server.status = .running)
    (head : s.pending = cqe :: rest)
    (named : 0 ≤ cqe.res → (cqe.fd : Int) ≠ s.server.socket_ → ¬ s.server.Vacant cqe.fd) :
    Consumes s cqe rest (complete scripted miss s cqe o cleared) := by
  unfold complete
  simp only
  split
  · split
    · obtain ⟨status, closed⟩ := filled.closeSocket cqe.fd o.close cleared
      exact after_consumes head (status.trans running) closed
    · obtain ⟨status, closed⟩ := filled.closeSocket (-1) o.close cleared
      have running' := status.trans running
      have head' : { s with server := (closeSocket s.server (-1) o.close cleared).2 }.pending =
          cqe :: rest := head
      refine ⟨{ (closeSocket s.server (-1) o.close cleared).2 with status := .returned },
        .inr rfl, closed, ?_⟩
      simp only [Ring.after, if_pos running', seen_head head']
  · next whole =>
      split
      · have same := (s.server.acceptClient_frame o.accept o.destroy).2.1
        exact after_consumes head (same.trans running) (filled.acceptClient o.accept o.destroy)
      · next client =>
          have occupied := named (Int.not_lt.mp whole) client
          rcases entry : s.server.clientFds_.find? (cqe.fd : Int) with _ | _ | c
          · exact absurd (.inl entry) occupied
          · exact absurd (.inr entry) occupied
          · exact clientCompletion_consumes filled running head entry

theorem complete_crashes (miss : Nat) (o : Outcomes Script) (cleared : Kernel)
    (filled : Filled s.server) (whole : 0 ≤ cqe.res)
    (client : (cqe.fd : Int) ≠ s.server.socket_) (vacant : s.server.Vacant cqe.fd) :
    Crashes s (complete scripted miss s cqe o cleared) := by
  unfold complete
  simp only
  rw [if_neg (Int.not_lt.mpr whole), if_neg client]
  exact clientCompletion_crashes filled vacant

/-! ## Runs -/

/-- `ExactlyOnce` made inductive, in the middle of a call as well. -/
structure Accounted (s : Ring) : Prop where
  taken : s.processed ++ s.pending = s.posted
  consumed : s.consumed = s.processed
  filled : Filled s.server
  alive : s.server.status = .running ∨ s.server.status = .returned

/-- The program has ended in the middle of the body. -/
structure Lost (s : Ring) : Prop where
  crashed : s.server.status = .crashed
  consumed : s.consumed ≠ s.processed

theorem Start.accounted (h : Start s) : Accounted s where
  taken := by rw [h.processed, h.pending, h.posted]; rfl
  consumed := by rw [h.consumed, h.processed]
  filled := h.filled
  alive := .inl h.running

theorem Start.exactlyOnce (h : Start s) : ExactlyOnce s :=
  ⟨h.accounted.taken, h.accounted.consumed, .inl h.pending⟩

theorem Accounted.receive (h : Accounted s) (posted : List Cqe) : Accounted (s.receive posted) := by
  refine ⟨?_, h.consumed, h.filled, .inl ?_⟩
  · show s.processed ++ (s.pending ++ posted) = s.posted ++ posted
    rw [← List.append_assoc, h.taken]
  · show (if s.server.status = .returned then Status.running else s.server.status) = .running
    obtain running | returned := h.alive
    · rw [running]
      rfl
    · rw [if_pos returned]

section Turns

variable (miss : Nat) (outcomes : Nat → Outcomes Script) (clearedBy : Nat → Kernel)

theorem turn_stopped (stopped : s.server.status ≠ .running) :
    turn scripted miss outcomes clearedBy s () = s := if_pos stopped

theorem turn_empty (empty : s.pending = []) : turn scripted miss outcomes clearedBy s () = s := by
  unfold turn
  split
  · rfl
  · rw [empty]

theorem turn_head (running : s.server.status = .running) (head : s.pending = cqe :: rest) :
    turn scripted miss outcomes clearedBy s () =
      complete scripted miss (s.enter cqe) cqe (outcomes s.processed.length)
        (clearedBy s.processed.length) := by
  simp only [turn, running, ne_eq, not_true_eq_false, if_false, head]

/-- A turn that finds its client consumes the entry that it takes. -/
theorem Accounted.turn (h : Accounted s) (served : Served s ()) :
    Accounted (turn scripted miss outcomes clearedBy s ()) ∧
      ((turn scripted miss outcomes clearedBy s ()).server.status = .returned ∨
        (turn scripted miss outcomes clearedBy s ()).pending = s.pending.tail) := by
  by_cases running : s.server.status = .running
  · rcases head : s.pending with _ | ⟨cqe, rest⟩
    · rw [turn_empty miss outcomes clearedBy head]
      exact ⟨h, .inr head⟩
    · have named := served running cqe (by rw [head]; rfl)
      obtain ⟨w, alive, filled, step⟩ :=
        complete_consumes (s := s.enter cqe) miss (outcomes s.processed.length)
          (clearedBy s.processed.length) h.filled running head named
      rw [turn_head miss outcomes clearedBy running head, step]
      refine ⟨⟨?_, ?_, filled, alive⟩, .inr rfl⟩
      · have taken := h.taken
        rw [head] at taken
        simpa [Ring.enter] using taken
      · show s.consumed ++ [cqe] = s.processed ++ [cqe]
        rw [h.consumed]
  · rw [turn_stopped miss outcomes clearedBy running]
    exact ⟨h, .inl (h.alive.resolve_left running)⟩

/-- A turn that does not find its client leaves the entry that it takes. -/
theorem Accounted.lost (h : Accounted s) (stale : ¬ Served s ()) :
    Lost (IoUring.turn scripted miss outcomes clearedBy s ()) := by
  unfold Served at stale
  push Not at stale
  obtain ⟨running, cqe, first, whole, client, vacant⟩ := stale
  obtain ⟨rest, head⟩ : ∃ rest, s.pending = cqe :: rest := by
    rcases pending : s.pending with _ | ⟨first', rest⟩
    · rw [pending] at first
      cases first
    · rw [pending] at first
      obtain rfl := Option.some.inj first
      exact ⟨rest, rfl⟩
  obtain ⟨w, crashed, step⟩ :=
    complete_crashes (s := s.enter cqe) miss (outcomes s.processed.length)
      (clearedBy s.processed.length) h.filled whole client vacant
  rw [turn_head miss outcomes clearedBy running head, step]
  refine ⟨crashed, ?_⟩
  show s.consumed ≠ s.processed ++ [cqe]
  rw [h.consumed]
  intro same
  have lengths := congrArg List.length same
  simp at lengths

theorem Lost.turns (h : Lost s) (ticks : List Unit) :
    run (turn scripted miss outcomes clearedBy) s ticks = s := by
  have stopped : s.server.status ≠ .running := by simp [h.crashed]
  exact run_fixed (fun _ => turn_stopped miss outcomes clearedBy stopped) ticks

/-- A call whose turns all find their clients consumes what is there, unless it returns. -/
theorem Accounted.turns (h : Accounted s) {ticks : List Unit}
    (enough : s.pending.length ≤ ticks.length)
    (served : Along (IoUring.turn scripted miss outcomes clearedBy) Served s ticks) :
    Accounted (run (IoUring.turn scripted miss outcomes clearedBy) s ticks) ∧
      ((run (IoUring.turn scripted miss outcomes clearedBy) s ticks).pending = [] ∨
        (run (IoUring.turn scripted miss outcomes clearedBy) s ticks).server.status =
          .returned) := by
  induction ticks generalizing s with
  | nil =>
      have empty : s.pending = [] := List.length_eq_zero_iff.mp (Nat.le_zero.mp enough)
      exact ⟨h, .inl empty⟩
  | cons tick ticks ih =>
      obtain ⟨accounted, returned | rest⟩ := h.turn miss outcomes clearedBy served.1
      · have stopped :
            (IoUring.turn scripted miss outcomes clearedBy s ()).server.status ≠ .running := by
          simp [returned]
        have stays := run_fixed (fun _ => turn_stopped miss outcomes clearedBy stopped) ticks
        rw [run_cons, stays]
        exact ⟨accounted, .inr returned⟩
      · refine ih accounted ?_ served.2
        rw [rest, List.length_tail]
        simp only [List.length_cons] at enough
        omega

theorem Accounted.lost_turns (h : Accounted s) {ticks : List Unit}
    (stale : ¬ Along (IoUring.turn scripted miss outcomes clearedBy) Served s ticks) :
    Lost (run (IoUring.turn scripted miss outcomes clearedBy) s ticks) := by
  induction ticks generalizing s with
  | nil => exact absurd trivial stale
  | cons tick ticks ih =>
      by_cases served : Served s ()
      · exact ih (h.turn miss outcomes clearedBy served).1 fun rest => stale ⟨served, rest⟩
      · rw [run_cons, (h.lost miss outcomes clearedBy served).turns miss outcomes clearedBy ticks]
        exact h.lost miss outcomes clearedBy served

end Turns

/-! ## The walk of `pollingHandler` -/

theorem pollCompletion_consumed (outcomes : Nat → Outcomes Script) (s : Ring) (cqe : Cqe) :
    (pollCompletion scripted outcomes s cqe).consumed = s.consumed := by
  unfold pollCompletion
  split <;> rfl

theorem pollCompletion_processed (outcomes : Nat → Outcomes Script) (s : Ring) (cqe : Cqe) :
    (pollCompletion scripted outcomes s cqe).processed =
      if s.server.status ≠ .running then s.processed else s.processed ++ [cqe] := by
  unfold pollCompletion
  split <;> rfl

theorem Start.receive_running (h : Start s) (posted : List Cqe) :
    (s.receive posted).server.status = .running := by
  show s.server.resume.status = .running
  rw [SocketBase.resume_status (by simp [h.running]), h.running]

theorem Start.receive_pending (h : Start s) (posted : List Cqe) :
    (s.receive posted).pending = posted := by
  show s.pending ++ posted = posted
  rw [h.pending, List.nil_append]

/-- A completion is worked off, and stays where it is. -/
theorem Start.replays (h : Start s) (outcomes : Nat → Outcomes Script) {posted : List Cqe}
    (nonempty : posted ≠ []) : ¬ ExactlyOnce (pollingHandler scripted outcomes s posted) := by
  obtain ⟨cqe, rest, rfl⟩ := List.exists_cons_of_ne_nil nonempty
  intro once
  have unconsumed : (pollingHandler scripted outcomes s (cqe :: rest)).consumed = [] := by
    refine run_preserves (I := fun s : Ring => s.consumed = []) ?_ h.consumed
    intro s cqe _ before
    rw [pollCompletion_consumed, before]
  have entered : (pollingHandler scripted outcomes s (cqe :: rest)).processed ≠ [] := by
    unfold pollingHandler
    rw [h.receive_pending, run_cons]
    refine run_preserves (I := fun s : Ring => s.processed ≠ []) ?_ ?_
    · intro s cqe _ before
      rw [pollCompletion_processed]
      split
      · exact before
      · simp
    · rw [pollCompletion_processed, h.receive_running]
      simp
  exact entered (once.consumed.symm.trans unconsumed)

/-- A call without a completion changes nothing. -/
theorem Start.idle (h : Start s) (outcomes : Nat → Outcomes Script) :
    Start (pollingHandler scripted outcomes s []) := by
  unfold pollingHandler
  rw [h.receive_pending, run_nil]
  refine ⟨h.receive_running [], h.filled, h.receive_pending [], ?_, h.processed, h.consumed⟩
  show s.posted ++ [] = []
  rw [h.posted, List.nil_append]

/-! ## Both loops -/

/-- What holds between two calls as long as their condition was met. -/
def Loop.Between : Loop → Ring → Prop
  | .pollingHandler, s => Start s
  | .ioUringSocket, s => Accounted s ∧ (s.pending = [] ∨ s.server.status = .returned)

theorem Start.between (h : Start s) (loop : Loop) : loop.Between s := by
  cases loop with
  | pollingHandler => exact h
  | ioUringSocket => exact ⟨h.accounted, .inl h.pending⟩

section Both

variable {loop : Loop} {posted : List Cqe} {outcomes : Nat → Outcomes Script}
  {clearedBy : Nat → Kernel}

theorem Loop.Between.exactlyOnce (h : loop.Between s) : ExactlyOnce s := by
  cases loop with
  | pollingHandler => exact h.exactlyOnce
  | ioUringSocket => exact ⟨h.1.taken, h.1.consumed, h.2⟩

theorem Loop.Between.call (h : loop.Between s)
    (condition : loop.Condition miss outcomes clearedBy s posted) :
    loop.Between (loop.call miss outcomes clearedBy s posted) := by
  cases loop with
  | pollingHandler =>
      obtain rfl : posted = [] := condition
      exact Start.idle h outcomes
  | ioUringSocket =>
      refine (h.1.receive posted).turns miss outcomes clearedBy ?_ condition
      rw [IoUring.turns, List.length_replicate]

theorem Loop.Between.not_exactlyOnce (h : loop.Between s)
    (stale : ¬ loop.Condition miss outcomes clearedBy s posted) :
    ¬ ExactlyOnce (loop.call miss outcomes clearedBy s posted) := by
  cases loop with
  | pollingHandler => exact Start.replays h outcomes stale
  | ioUringSocket =>
      intro once
      exact ((h.1.receive posted).lost_turns miss outcomes clearedBy stale).consumed once.consumed

end Both

/-- After every call of a run each completion has been worked off and consumed once exactly
when the calls meet the condition of their loop: none has a completion to walk over, or
each completion that is not an error finds its client. -/
theorem exactlyOnce_iff (loop : Loop) (IORING_CQE_F_MISS : Nat) (outcomes : Nat → Outcomes Script)
    (cleared : Nat → Kernel) {calls : List (List Cqe)} (start : Start s) :
    Throughout (loop.call IORING_CQE_F_MISS outcomes cleared) ExactlyOnce s calls ↔
      Along (loop.call IORING_CQE_F_MISS outcomes cleared)
        (loop.Condition IORING_CQE_F_MISS outcomes cleared) s calls := by
  refine throughout_iff_along (R := fun s t => s = t ∧ loop.Between s) (A := fun _ _ => True)
    ?_ ?_ ?_ ⟨rfl, start.between loop⟩ (Along.of_mem fun _ _ => trivial)
  · rintro s _ ⟨rfl, between⟩
    exact between.exactlyOnce
  · rintro s _ posted ⟨rfl, between⟩ - condition
    exact ⟨rfl, between.call condition⟩
  · rintro s _ posted ⟨rfl, between⟩ - stale
    exact between.not_exactlyOnce stale

/-- A listening server with an empty queue. -/
def listener : Ring where
  server := SocketBase.listener

theorem listener_start : Start listener where
  running := rfl
  filled fd := by simp [listener, SocketBase.listener]
  pending := rfl
  posted := rfl
  processed := rfl
  consumed := rfl

/-- Every `accept` returns 5, and every handler reports success. -/
def smooth (_ : Nat) : Outcomes Script where
  accept := .succeeds 5
  read := ⟨[], 1⟩
  setWriter := true
  write := ⟨[], 1⟩
  removeWriter := true
  close := .succeeds
  destroy := .succeeds

def incoming : Cqe := { fd := 3, res := 1 }

/-- `IoUringSocket` accepts a client and reads from it. -/
theorem exactlyOnce_served :
    Throughout (Loop.ioUringSocket.call 0x10 smooth fun _ => { opened := fun _ => none })
      ExactlyOnce listener [[incoming], [{ fd := 5, res := 1, flags := IORING_CQE_F_MORE }]] := by
  refine (exactlyOnce_iff .ioUringSocket 0x10 smooth _ listener_start).mpr ?_
  refine ⟨⟨?_, trivial⟩, ⟨?_, trivial⟩, trivial⟩
  · intro _ cqe first _ client
    obtain rfl : incoming = cqe := Option.some.inj first
    exact absurd rfl client
  · intro _ cqe first _ _
    obtain rfl := Option.some.inj first
    unfold SocketBase.Vacant
    decide

/-- `pollingHandler` accepts the same connection in every call. -/
theorem incoming_replayed :
    Start listener ∧
      ¬ Throughout (Loop.pollingHandler.call 0x10 smooth fun _ => { opened := fun _ => none })
        ExactlyOnce listener [[incoming], []] ∧
      (run (Loop.pollingHandler.call 0x10 smooth fun _ => { opened := fun _ => none }) listener
        [[incoming], []]).processed = [incoming, incoming] := by
  refine ⟨listener_start, ?_, by decide⟩
  rintro ⟨-, once, -⟩
  exact absurd once.consumed (by decide)

end IoUring

end Mux.Socket
