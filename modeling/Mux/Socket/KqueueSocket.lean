import Mux.Socket.IoUring

/-!
# The loop of KqueueSocket

`KqueueSocket` and `IoUringSocket` share their text, down to `closeSocket`: an event
of kqueue takes the branches of a completion of io_uring. They part where the
listening socket hangs up. The check that leads to the return asks for a descriptor
other than the listening socket twice, so that its second branch is never taken.
-/

namespace Mux.Socket

open Transition

namespace KqueueSocket

/-- An event of a batch, what happens while it is worked off, and the kernel behind
the destructors of all clients. -/
structure Occurrence (χ : Type) where
  event : Event
  outcomes : Outcomes χ
  cleared : Kernel

/-- `KqueueSocket::closeSocket` has the text of the one of `IoUringSocket`. -/
def closeSocket (w : SocketBase) (client : Int) (calls : CloseCalls) (cleared : Kernel) :
    Bool × SocketBase :=
  IoUring.closeSocket w client calls cleared

section Loop

variable {χ : Type} (handle : Interest → HandleOperation χ)

/-- The body of the loop. -/
def handleEvent (w : SocketBase) (o : Occurrence χ) : SocketBase :=
  if w.status ≠ .running then w
  else
    let fd := o.event.ident
    if o.event.eof ∧ fd ≠ w.socket_ then
      if fd ≠ w.socket_ then (closeSocket w fd o.outcomes.close o.cleared).2
      else { (closeSocket w (-1) o.outcomes.close o.cleared).2 with status := .returned }
    else if fd = w.socket_ then w.acceptClient o.outcomes.accept o.outcomes.destroy
    else
      let (clientSock, clientFds_) := w.clientFds_.subscript none fd
      let w := { w with clientFds_ }
      match o.event.filter with
      | .interest .read =>
          (w.attend handle .read fd clientSock o.outcomes.read (fun result => 0 ≤ result)
            (.setWriter o.outcomes.setWriter)
            (fun w => (closeSocket w fd o.outcomes.close o.cleared).2)).1
      | .interest .write =>
          -- `removeWriter` follows a failed write on the closed client
          IoUring.writeCompletion handle w fd clientSock o.outcomes o.cleared
      | .other => (closeSocket w fd o.outcomes.close o.cleared).2

/-- `kevent` failed, or it returned a batch. -/
def handler (w : SocketBase) : Option (List (Occurrence χ)) → SocketBase
  | none => w.resume
  | some events => run (handleEvent handle) w.resume events

end Loop

variable {χ : Type} (handle : Interest → HandleOperation χ) {w : SocketBase} {o : Occurrence χ}

/-! ## What an event leaves -/

/-- The statement goes on as before, or it ends the program. -/
def Continues (w w' : SocketBase) : Prop := w'.status = w.status ∨ w'.status = .crashed

theorem closeSocket_continues (w : SocketBase) (client : Int) (calls : CloseCalls)
    (cleared : Kernel) : Continues w (closeSocket w client calls cleared).2 := by
  unfold closeSocket IoUring.closeSocket Continues
  rcases w.clientFds_.find? client with _ | _ | c
  · exact .inl rfl
  · dsimp only
    split
    · exact .inr rfl
    · exact .inl rfl
  · dsimp only
    split
    · split
      · exact .inl rfl
      · exact .inl rfl
    · exact .inl rfl

theorem attend_continues (w : SocketBase) (i : Interest) (fd : Int) (clientSock : ClientPtr)
    (script : χ) (keeps : Int → Bool) (op : ClientSocket.Operation)
    {close : SocketBase → SocketBase} (closes : ∀ w, Continues w (close w)) :
    Continues w (w.attend handle i fd clientSock script keeps op close).1 := by
  unfold SocketBase.attend
  dsimp only
  split
  · exact .inr rfl
  · split
    · split
      · exact .inr rfl
      · exact .inl rfl
    · exact closes _

theorem writeCompletion_continues (w : SocketBase) (fd : Int) (clientSock : ClientPtr)
    (outcomes : Outcomes χ) (cleared : Kernel) :
    Continues w (IoUring.writeCompletion handle w fd clientSock outcomes cleared) := by
  unfold IoUring.writeCompletion
  dsimp only
  split
  · exact .inr rfl
  · next handled _ =>
      split
      · have closed := closeSocket_continues
          { w.logged (.handle .write fd clientSock) with
            clientFds_ := (w.logged (.handle .write fd clientSock)).clientFds_.insert fd
              handled.client
            kernel := handled.kernel } fd outcomes.close cleared
        split
        · exact closed
        · unfold IoUring.removeWriterClosed
          split
          · exact .inr rfl
          · exact closed
      · split
        · exact .inr rfl
        · exact .inl rfl

theorem handleEvent_continues (w : SocketBase) (o : Occurrence χ) :
    Continues w (handleEvent handle w o) := by
  unfold handleEvent
  split
  · exact .inl rfl
  · dsimp only
    split
    · next hung =>
        rw [if_pos hung.2]
        exact closeSocket_continues w _ _ _
    · split
      · exact .inl (w.acceptClient_frame o.outcomes.accept o.outcomes.destroy).2.1
      · split
        · exact attend_continues _ _ _ _ _ _ _ _ fun w => closeSocket_continues w _ _ _
        · exact writeCompletion_continues _ _ _ _ _ _
        · exact closeSocket_continues _ _ _ _

theorem handleEvent_stopped (stopped : w.status ≠ .running) (o : Occurrence χ) :
    handleEvent handle w o = w := if_pos stopped

/-- A batch is worked off to its end, or it ends the program. -/
theorem run_continues (w : SocketBase) (events : List (Occurrence χ)) :
    Continues w (run (handleEvent handle) w events) :=
  run_preserves (I := Continues w)
    (fun w' o _ before => by
      obtain same | crashed := before
      · obtain onward | crashed := handleEvent_continues handle w' o
        · exact .inl (onward.trans same)
        · exact .inr crashed
      · rw [handleEvent_stopped handle (by simp [crashed])]
        exact .inr crashed)
    (.inl rfl)

/-- Only the entry of one number changes. -/
structure Elsewhere (fd : Int) (w w' : SocketBase) : Prop where
  socket : w'.socket_ = w.socket_
  entries : ∀ x, x ≠ fd → w'.clientFds_.find? x = w.clientFds_.find? x

namespace Elsewhere

variable {fd : Int} {w' w'' : SocketBase}

theorem trans (first : Elsewhere fd w w') (second : Elsewhere fd w' w'') : Elsewhere fd w w'' :=
  ⟨second.socket.trans first.socket,
    fun x other => (second.entries x other).trans (first.entries x other)⟩

theorem unchanged (socket : w'.socket_ = w.socket_) (clients : w'.clientFds_ = w.clientFds_) :
    Elsewhere fd w w' where
  socket := socket
  entries x _ := by rw [clients]

theorem insert {entry : ClientPtr} (socket : w'.socket_ = w.socket_)
    (stored : w'.clientFds_ = w.clientFds_.insert fd entry) : Elsewhere fd w w' where
  socket := socket
  entries x other := by
    rw [stored]
    exact UnorderedMap.find?_insert_ne _ _ other

theorem subscript : Elsewhere fd w
    { w with clientFds_ := (w.clientFds_.subscript none fd).2 } := by
  cases entry : w.clientFds_.find? fd with
  | none =>
      rw [UnorderedMap.subscript_absent entry]
      exact .insert rfl rfl
  | some client =>
      rw [UnorderedMap.subscript_present entry]
      exact .unchanged rfl rfl

theorem closeSocket (number : 0 ≤ fd) (calls : CloseCalls) (cleared : Kernel) :
    Elsewhere fd w (closeSocket w fd calls cleared).2 := by
  unfold KqueueSocket.closeSocket IoUring.closeSocket
  rcases w.clientFds_.find? fd with _ | _ | c
  · exact .unchanged rfl rfl
  · dsimp only
    rw [if_pos number]
    exact .unchanged rfl rfl
  · dsimp only
    rw [if_pos number]
    split
    · exact .insert rfl rfl
    · exact ⟨rfl, fun x other => UnorderedMap.find?_erase_ne _ other⟩

theorem attend (i : Interest) (clientSock : ClientPtr) (script : χ) (keeps : Int → Bool)
    (op : ClientSocket.Operation) {close : SocketBase → SocketBase}
    (closes : ∀ w, Elsewhere fd w (close w)) :
    Elsewhere fd w (w.attend handle i fd clientSock script keeps op close).1 := by
  unfold SocketBase.attend
  dsimp only
  split
  · exact .unchanged rfl rfl
  · next handled _ =>
      have served : Elsewhere fd w { w.logged (.handle i fd clientSock) with
          clientFds_ := (w.logged (.handle i fd clientSock)).clientFds_.insert fd handled.client
          kernel := handled.kernel } := .insert rfl rfl
      split
      · split
        · exact ⟨rfl, served.entries⟩
        · exact served.trans (.insert rfl rfl)
      · exact served.trans (closes _)

theorem removeWriterClosed (client : ClientPtr) (before : Kernel) (outcomes : Outcomes χ) :
    Elsewhere fd w (IoUring.removeWriterClosed w fd client before outcomes) := by
  unfold IoUring.removeWriterClosed
  split
  · exact .unchanged rfl rfl
  · dsimp only
    split
    · exact .insert rfl rfl
    · exact .unchanged rfl rfl

theorem writeCompletion (number : 0 ≤ fd) (clientSock : ClientPtr) (outcomes : Outcomes χ)
    (cleared : Kernel) :
    Elsewhere fd w (IoUring.writeCompletion handle w fd clientSock outcomes cleared) := by
  unfold IoUring.writeCompletion
  dsimp only
  split
  · exact .unchanged rfl rfl
  · next handled _ =>
      have served : Elsewhere fd w { w.logged (.handle .write fd clientSock) with
          clientFds_ := (w.logged (.handle .write fd clientSock)).clientFds_.insert fd
            handled.client
          kernel := handled.kernel } := .insert rfl rfl
      split
      · have closed := served.trans (.closeSocket number outcomes.close cleared)
        split
        · exact closed
        · exact closed.trans (.removeWriterClosed _ _ _)
      · split
        · exact ⟨rfl, served.entries⟩
        · exact served.trans (.insert rfl rfl)

end Elsewhere

/-- An event of a client changes no entry but that of its own number. -/
theorem handleEvent_elsewhere (number : 0 ≤ o.event.ident) (client : o.event.ident ≠ w.socket_) :
    Elsewhere o.event.ident w (handleEvent handle w o) := by
  unfold handleEvent
  split
  · exact .unchanged rfl rfl
  · dsimp only
    rw [if_pos client, if_neg client]
    split
    · exact .closeSocket number _ _
    · split
      · exact Elsewhere.subscript.trans <|
          .attend handle _ _ _ _ _ fun w => .closeSocket number _ _
      · exact Elsewhere.subscript.trans (.writeCompletion handle number _ _ _)
      · exact Elsewhere.subscript.trans (.closeSocket number _ _)

/-- No client is stored under a number that stands for the server. -/
theorem handleEvent_absent (number : 0 ≤ o.event.ident)
    (absent : w.clientFds_.find? (-1) = none) :
    (handleEvent handle w o).clientFds_.find? (-1) = none := by
  by_cases listens : o.event.ident = w.socket_
  · have onward : ¬ (o.event.eof = true ∧ o.event.ident ≠ w.socket_) := fun hung =>
      hung.2 listens
    unfold handleEvent
    split
    · exact absent
    · dsimp only
      rw [if_neg onward, if_pos listens]
      by_cases rejected :
          ((ClientSocket.new w.nextId).accept w.kernel o.outcomes.accept).result = -1
      · rw [SocketBase.acceptClient_rejected rejected]
        exact absent
      · obtain ⟨k, -, stored⟩ := SocketBase.acceptClient_stored o.outcomes.destroy rejected
        rw [stored]
        exact (UnorderedMap.find?_insert_ne _ _ (Ne.symm rejected)).trans absent
  · have elsewhere := handleEvent_elsewhere (w := w) handle number listens
    rw [elsewhere.entries (-1) (by omega), absent]

/-! ## The same batch as completions -/

/-- The completion with which `IoUringSocket` takes the same branch. -/
def Occurrence.completion (miss : Nat) (o : Occurrence χ) : IoUring.Cqe where
  fd := o.event.ident.toNat
  res := if o.event.eof then -1 else 0
  flags := match o.event.filter with
    | .interest .read => IoUring.IORING_CQE_F_MORE
    | .interest .write => miss
    | .other => 0

/-- The listening socket hangs up. -/
def HangsUp (w : SocketBase) (o : Occurrence χ) : Prop :=
  w.status = .running ∧ o.event.eof = true ∧ o.event.ident = w.socket_

variable {miss : Nat} {s : IoUring.Ring}

theorem completion_res : (o.completion miss).res < 0 ↔ o.event.eof = true := by
  have failed : (if o.event.eof then -1 else 0 : Int) < 0 ↔ o.event.eof = true := by
    cases o.event.eof <;> decide
  exact failed

theorem complete_completion (tells : miss ≠ 0 ∧ miss &&& IoUring.IORING_CQE_F_MORE = 0)
    (running : s.server.status = .running) (number : 0 ≤ o.event.ident)
    (stays : ¬ HangsUp s.server o) :
    IoUring.complete handle miss s (o.completion miss) o.outcomes o.cleared =
      s.after (handleEvent handle s.server o) IoUring.Ring.io_uring_cqe_seen := by
  have same : ((o.completion miss).fd : Int) = o.event.ident := Int.toNat_of_nonneg number
  unfold IoUring.complete handleEvent
  rw [if_neg (not_not_intro running), same]
  dsimp only
  by_cases eof : o.event.eof = true
  · have client : o.event.ident ≠ s.server.socket_ := fun listens => stays ⟨running, eof, listens⟩
    rw [if_pos (completion_res.mpr eof), if_pos client, if_pos ⟨eof, client⟩, if_pos client]
    rfl
  · have onward : ¬ (o.event.eof = true ∧ o.event.ident ≠ s.server.socket_) := fun hung =>
      eof hung.1
    rw [if_neg (mt completion_res.mp eof), if_neg onward]
    by_cases listens : o.event.ident = s.server.socket_
    · rw [if_pos listens, if_pos listens]
    · rw [if_neg listens, if_neg listens, IoUring.clientCompletion, same]
      dsimp only
      cases filter : o.event.filter with
      | interest i =>
          cases i with
          | read =>
              have flags : (o.completion miss).flags = IoUring.IORING_CQE_F_MORE := by
                rw [Occurrence.completion, filter]
              rw [flags, if_pos (by decide)]
              rfl
          | write =>
              have flags : (o.completion miss).flags = miss := by
                rw [Occurrence.completion, filter]
              have written : miss &&& miss ≠ 0 := by
                rw [Nat.and_self]
                exact tells.1
              rw [flags, if_neg (not_not_intro tells.2), if_pos written]
      | other =>
          have flags : (o.completion miss).flags = 0 := by
            rw [Occurrence.completion, filter]
          rw [flags, Nat.zero_and, Nat.zero_and, if_neg (not_not_intro rfl),
            if_neg (not_not_intro rfl)]
          rfl

/-- The two servers have the same listening socket, the same clients and the same kernel. -/
structure SameServer (w w' : SocketBase) : Prop where
  socket_ : w.socket_ = w'.socket_
  clientFds_ : w.clientFds_ = w'.clientFds_
  kernel : w.kernel = w'.kernel

/-- `closeSocket` finds no client under the number of the server, and the call ends. -/
theorem complete_hangsUp (hangs : HangsUp s.server o) (number : 0 ≤ o.event.ident)
    (absent : s.server.clientFds_.find? (-1) = none) :
    let s' := IoUring.complete handle miss s (o.completion miss) o.outcomes o.cleared
    s'.server.status = .returned ∧ SameServer s'.server s.server := by
  obtain ⟨running, eof, listens⟩ := hangs
  have same : ((o.completion miss).fd : Int) = s.server.socket_ :=
    (Int.toNat_of_nonneg number).trans listens
  have closed : (IoUring.closeSocket s.server (-1) o.outcomes.close o.cleared).2 =
      s.server.logged (.closeSocket (-1) none) := by
    unfold IoUring.closeSocket
    rw [absent]
  have alive : (s.server.logged (.closeSocket (-1) none)).status = .running := running
  unfold IoUring.complete
  dsimp only
  rw [if_pos (completion_res.mpr eof), if_neg (not_not_intro same), closed, IoUring.Ring.after,
    if_pos alive]
  exact ⟨rfl, rfl, rfl, rfl⟩

/-- The outcomes that the loop over completions meets are those of the events. -/
def Follows (outcomes : Nat → Outcomes χ) (cleared : Nat → Kernel) (first : Nat)
    (events : List (Occurrence χ)) : Prop :=
  ∀ k o, events[k]? = some o → outcomes (first + k) = o.outcomes ∧ cleared (first + k) = o.cleared

section Turns

variable (outcomes : Nat → Outcomes χ) (cleared : Nat → Kernel) {events : List (Occurrence χ)}

theorem after_server (s : IoUring.Ring) (w : SocketBase) :
    (s.after w IoUring.Ring.io_uring_cqe_seen).server = w := by
  unfold IoUring.Ring.after IoUring.Ring.io_uring_cqe_seen
  dsimp only
  split
  · split <;> rfl
  · rfl

theorem turn_of_stopped (miss : Nat) (stopped : s.server.status ≠ .running) :
    IoUring.turn handle miss outcomes cleared s () = s := if_pos stopped

theorem turns_of_stopped (miss : Nat) (stopped : s.server.status ≠ .running) (ticks : List Unit) :
    run (IoUring.turn handle miss outcomes cleared) s ticks = s :=
  run_fixed (fun _ => turn_of_stopped handle outcomes cleared miss stopped) ticks

/-- A turn of the one loop and a round of the other. -/
theorem turn_completion {rest : List IoUring.Cqe}
    (tells : miss ≠ 0 ∧ miss &&& IoUring.IORING_CQE_F_MORE = 0)
    (running : s.server.status = .running) (number : 0 ≤ o.event.ident)
    (absent : s.server.clientFds_.find? (-1) = none)
    (head : s.pending = o.completion miss :: rest)
    (follows : outcomes s.processed.length = o.outcomes ∧ cleared s.processed.length = o.cleared) :
    let s' := IoUring.turn handle miss outcomes cleared s ()
    (HangsUp s.server o → s'.server.status = .returned ∧ SameServer s'.server s.server) ∧
      (¬ HangsUp s.server o → s'.server = handleEvent handle s.server o ∧
        (s'.server.status = .running →
          s'.pending = rest ∧ s'.processed.length = s.processed.length + 1)) := by
  have step : IoUring.turn handle miss outcomes cleared s () =
      IoUring.complete handle miss (s.enter (o.completion miss)) (o.completion miss) o.outcomes
        o.cleared := by
    rw [IoUring.turn, if_neg (not_not_intro running), head]
    dsimp only
    rw [follows.1, follows.2]
  rw [step]
  have entered := complete_completion (s := s.enter (o.completion miss)) handle tells running number
  refine ⟨fun hangs => complete_hangsUp handle hangs number absent, fun stays => ?_⟩
  rw [entered stays, after_server]
  refine ⟨rfl, fun onward => ?_⟩
  have head' : (s.enter (o.completion miss)).pending = o.completion miss :: rest := head
  rw [IoUring.Ring.after, if_pos onward]
  unfold IoUring.Ring.io_uring_cqe_seen
  dsimp only
  rw [head']
  exact ⟨rfl, by rw [IoUring.Ring.enter, List.length_append]; rfl⟩

/-- `before` are the events in front of the first hang-up of the listening socket. -/
structure FirstHangUp (w : SocketBase) (events before after : List (Occurrence χ)) : Prop where
  split : events = before ++ after
  stays : Along (handleEvent handle) (fun w o => ¬ HangsUp w o) w before
  hangs : ∀ o ∈ after.head?, HangsUp (run (handleEvent handle) w before) o

theorem FirstHangUp.cons {before after : List (Occurrence χ)} (stays : ¬ HangsUp w o)
    (first : FirstHangUp handle (handleEvent handle w o) events before after) :
    FirstHangUp handle w (o :: events) (o :: before) after where
  split := congrArg (o :: ·) first.split
  stays := ⟨stays, first.stays⟩
  hangs := first.hangs

/-- The two loops side by side, up to the first hang-up of the listening socket. It ends the
one over completions. -/
theorem turns_completion (tells : miss ≠ 0 ∧ miss &&& IoUring.IORING_CQE_F_MORE = 0)
    (numbers : ∀ o ∈ events, 0 ≤ o.event.ident)
    (absent : s.server.clientFds_.find? (-1) = none)
    (pending : s.server.status = .running → s.pending = events.map (Occurrence.completion miss))
    (follows : s.server.status = .running →
      Follows outcomes cleared s.processed.length events) :
    ∃ before after, FirstHangUp handle s.server events before after ∧
      SameServer
        (run (IoUring.turn handle miss outcomes cleared) s
          (List.replicate events.length ())).server
        (run (handleEvent handle) s.server before) := by
  induction events generalizing s with
  | nil => exact ⟨[], [], ⟨rfl, trivial, by simp⟩, ⟨rfl, rfl, rfl⟩⟩
  | cons o events ih =>
      obtain ⟨number, numbers⟩ := List.forall_mem_cons.mp numbers
      rw [List.length_cons, List.replicate_succ, run_cons]
      by_cases running : s.server.status = .running
      · have step := turn_completion handle outcomes cleared tells running number absent
          (pending running) (follows running 0 o rfl)
        dsimp only at step
        by_cases hangs : HangsUp s.server o
        · obtain ⟨returned, same⟩ := step.1 hangs
          rw [turns_of_stopped handle outcomes cleared miss (by simp [returned])]
          exact ⟨[], o :: events, ⟨rfl, trivial, by simpa using hangs⟩, same⟩
        · obtain ⟨server, onward⟩ := step.2 hangs
          have absent' := handleEvent_absent handle number absent
          rw [← server] at absent'
          obtain ⟨before, after, first, same⟩ := ih
            (s := IoUring.turn handle miss outcomes cleared s ()) numbers absent'
            (fun running' => (onward running').1) fun running' k o found => by
              have here := follows running (k + 1) o found
              rwa [(onward running').2, Nat.add_assoc, Nat.add_comm 1 k]
          rw [server] at first same
          exact ⟨o :: before, after, first.cons handle hangs, same⟩
      · have still := turn_of_stopped handle outcomes cleared miss running (s := s)
        have stopped := handleEvent_stopped handle running o
        obtain ⟨before, after, first, same⟩ := ih (s := s) numbers absent
          (fun running' => absurd running' running) (fun running' => absurd running' running)
        rw [← stopped] at first
        refine ⟨o :: before, after, first.cons handle fun hangs => running hangs.1, ?_⟩
        rw [still, run_cons, stopped]
        exact same

/-- Where the listening socket hangs up, `KqueueSocket` accepts a client. -/
theorem handleEvent_hangsUp (hangs : HangsUp w o) :
    handleEvent handle w o = w.acceptClient o.outcomes.accept o.outcomes.destroy := by
  obtain ⟨running, -, listens⟩ := hangs
  unfold handleEvent
  rw [if_neg (not_not_intro running)]
  dsimp only
  rw [if_neg fun hung => hung.2 listens, if_pos listens]

/-- The two handlers do the same with the events in front of the first hang-up of the listening
socket. There the one over completions ends, and leaves the server as it is, while the other
one accepts a client and goes on. -/
theorem handler_ioUring (tells : miss ≠ 0 ∧ miss &&& IoUring.IORING_CQE_F_MORE = 0)
    (numbers : ∀ o ∈ events, 0 ≤ o.event.ident)
    (absent : s.server.clientFds_.find? (-1) = none) (empty : s.pending = [])
    (follows : Follows outcomes cleared s.processed.length events) :
    ∃ before after, FirstHangUp handle s.server.resume events before after ∧
      SameServer
        (IoUring.handler handle miss outcomes cleared s
          (events.map (Occurrence.completion miss))).server
        (handler handle s.server (some before)) ∧
      ∀ o rest, after = o :: rest → handler handle s.server (some events) =
        run (handleEvent handle)
          ((handler handle s.server (some before)).acceptClient o.outcomes.accept
            o.outcomes.destroy) rest := by
  have pending : (s.receive (events.map (Occurrence.completion miss))).pending =
      events.map (Occurrence.completion miss) := by
    show s.pending ++ events.map (Occurrence.completion miss) = _
    rw [empty, List.nil_append]
  obtain ⟨before, after, first, same⟩ := turns_completion
    (s := s.receive (events.map (Occurrence.completion miss))) handle outcomes cleared tells numbers
    absent (fun _ => pending) (fun _ => follows)
  refine ⟨before, after, first, ?_, ?_⟩
  · rw [IoUring.handler, IoUring.turns, pending, List.length_map]
    exact same
  · rintro o rest rfl
    rw [handler, first.split, run, List.foldl_append]
    exact congrArg (fun w => run (handleEvent handle) w rest)
      (handleEvent_hangsUp handle (first.hangs o rfl))

end Turns

/-- An event of a readable descriptor on which everything succeeds. -/
def arrived (ident : Int) (eof : Bool) : Occurrence Script where
  event := { ident, filter := .interest .read, eof }
  outcomes := IoUring.smooth 0
  cleared := { opened := fun _ => none }

/-- The listening socket hangs up, and the next event is of the number 5. -/
def hangUps : List (Occurrence Script) := [arrived 3 true, arrived 5 false]

/-- `IoUringSocket` returns before, and `KqueueSocket` has accepted a client under that number. -/
theorem handler_ioUring_listener :
    (∃ before after, FirstHangUp scripted SocketBase.listener.resume hangUps before after ∧
      SameServer
        (IoUring.handler scripted 0x10 IoUring.smooth (fun _ => { opened := fun _ => none })
          IoUring.listener (hangUps.map (Occurrence.completion 0x10))).server
        (handler scripted SocketBase.listener (some before)) ∧
      ∀ o rest, after = o :: rest → handler scripted SocketBase.listener (some hangUps) =
        run (handleEvent scripted)
          ((handler scripted SocketBase.listener (some before)).acceptClient o.outcomes.accept
            o.outcomes.destroy) rest) ∧
    (IoUring.handler scripted 0x10 IoUring.smooth (fun _ => { opened := fun _ => none })
      IoUring.listener (hangUps.map (Occurrence.completion 0x10))).server.clientFds_.contains 5 =
        false ∧
    (handler scripted SocketBase.listener (some hangUps)).clientFds_.contains 5 = true := by
  refine ⟨handler_ioUring (s := IoUring.listener) scripted IoUring.smooth _ (by decide)
    (by decide) (by decide) rfl ?_, by decide, by decide⟩
  intro k o found
  have member := List.mem_of_getElem? found
  simp only [hangUps, List.mem_cons, List.not_mem_nil, or_false] at member
  obtain rfl | rfl := member <;> exact ⟨rfl, rfl⟩

/-! ## Null pointers -/

/-- The event finds a client where it needs one. -/
def Found (w : SocketBase) (o : Occurrence χ) : Prop :=
  w.status = .running → o.event.eof = false → o.event.ident ≠ w.socket_ →
    ¬ w.Vacant o.event.ident

section Scripts

variable {o : Occurrence Script} {events : List (Occurrence Script)}

theorem handleEvent_found (filled : IoUring.Filled w) (running : w.status = .running)
    (found : Found w o) :
    (handleEvent scripted w o).status = .running ∧ IoUring.Filled (handleEvent scripted w o) := by
  have closed := filled.closeSocket o.event.ident o.outcomes.close o.cleared
  rw [running] at closed
  unfold handleEvent
  rw [if_neg (not_not_intro running)]
  dsimp only
  split
  · next hung =>
      rw [if_pos hung.2]
      exact closed
  · next onward =>
      split
      · have same := (w.acceptClient_frame o.outcomes.accept o.outcomes.destroy).2.1
        exact ⟨same.trans running, filled.acceptClient o.outcomes.accept o.outcomes.destroy⟩
      · next client =>
          have whole : o.event.eof = false :=
            Bool.eq_false_iff.mpr fun eof => onward ⟨eof, client⟩
          have occupied := found running whole client
          rcases entry : w.clientFds_.find? o.event.ident with _ | _ | c
          · exact absurd (.inl entry) occupied
          · exact absurd (.inr entry) occupied
          · rw [UnorderedMap.subscript_present entry]
            dsimp only
            split
            · have attended := filled.attend o.event.ident c .read o.outcomes.read
                (fun result => 0 ≤ result) (.setWriter o.outcomes.setWriter) o.outcomes.close
                o.cleared
              exact ⟨attended.1.trans running, attended.2⟩
            · exact filled.writeCompletion running o.event.ident c o.outcomes o.cleared
            · exact closed

theorem handleEvent_lost (filled : IoUring.Filled w) (number : 0 ≤ o.event.ident)
    (stale : ¬ Found w o) : (handleEvent scripted w o).status = .crashed := by
  unfold Found at stale
  push Not at stale
  obtain ⟨running, whole, client, vacant⟩ := stale
  have absent : w.clientFds_.find? o.event.ident = none := vacant.resolve_right (filled _)
  have onward : ¬ (o.event.eof = true ∧ o.event.ident ≠ w.socket_) := fun hung =>
    Bool.eq_false_iff.mp whole hung.1
  unfold handleEvent
  rw [if_neg (not_not_intro running)]
  dsimp only
  rw [if_neg onward, if_neg client, UnorderedMap.subscript_absent absent]
  dsimp only
  split
  · exact IoUring.attend_null fun w found => IoUring.closeSocket_null found number _
  · exact IoUring.writeCompletion_null number
  · exact IoUring.closeSocket_null (UnorderedMap.find?_insert _ _ _) number _

/-- A batch is survived exactly if each event finds its client. -/
theorem run_running_iff (filled : IoUring.Filled w) (running : w.status = .running)
    (numbers : ∀ o ∈ events, 0 ≤ o.event.ident) :
    (run (handleEvent scripted) w events).status = .running ↔
      Along (handleEvent scripted) Found w events := by
  induction events generalizing w with
  | nil => exact iff_of_true running trivial
  | cons o events ih =>
      obtain ⟨number, numbers⟩ := List.forall_mem_cons.mp numbers
      rw [run_cons, along_cons]
      by_cases found : Found w o
      · obtain ⟨onward, filled'⟩ := handleEvent_found filled running found
        rw [ih filled' onward numbers]
        exact (and_iff_right found).symm
      · have crashed := handleEvent_lost filled number found
        have stopped : (handleEvent scripted w o).status ≠ .running := by simp [crashed]
        rw [run_fixed (fun o => handleEvent_stopped scripted stopped o)]
        exact iff_of_false stopped fun along => found along.1

/-- Each event of the batch finds its client. -/
def Survives (w : SocketBase) : Option (List (Occurrence Script)) → Prop
  | none => True
  | some events => Along (handleEvent scripted) Found w.resume events

theorem resume_running (running : w.status = .running) : w.resume.status = .running := by
  rw [SocketBase.resume, running]
  rfl

theorem handler_crashed (crashed : w.status = .crashed)
    (batch : Option (List (Occurrence Script))) : (handler scripted w batch).status = .crashed := by
  have start : w.resume.status = .crashed := by
    rw [SocketBase.resume, crashed]
    rfl
  cases batch with
  | none => exact start
  | some events =>
      obtain same | ended := run_continues scripted w.resume events
      · exact same.trans start
      · exact ended

/-- A batch in which an event does not find its client. -/
theorem handler_lost (filled : IoUring.Filled w) (running : w.status = .running)
    {batch : Option (List (Occurrence Script))}
    (numbers : ∀ events ∈ batch, ∀ o ∈ events, 0 ≤ o.event.ident) (stale : ¬ Survives w batch) :
    (handler scripted w batch).status = .crashed := by
  have start := resume_running running
  cases batch with
  | none => exact absurd trivial stale
  | some events =>
      have lost := mt (run_running_iff (w := w.resume) filled start (numbers events rfl)).mp stale
      obtain same | crashed := run_continues scripted w.resume events
      · exact absurd (same.trans start) lost
      · exact crashed

theorem handler_filled (filled : IoUring.Filled w) (running : w.status = .running)
    {batch : Option (List (Occurrence Script))} (survives : Survives w batch) :
    (handler scripted w batch).status = .running ∧ IoUring.Filled (handler scripted w batch) := by
  have start := resume_running running
  cases batch with
  | none => exact ⟨start, filled⟩
  | some events =>
      exact run_invariant
        (fun w o (alive : w.status = .running ∧ IoUring.Filled w) found =>
          handleEvent_found alive.2 alive.1 found)
        ⟨start, filled⟩ survives

/-- The server goes on through all calls exactly if each event finds its client; otherwise
a null pointer is dereferenced. -/
theorem calls_running_iff {batches : List (Option (List (Occurrence Script)))}
    (filled : IoUring.Filled w) (running : w.status = .running)
    (numbers : ∀ events, some events ∈ batches → ∀ o ∈ events, 0 ≤ o.event.ident) :
    (run (handler scripted) w batches).status = .running ↔
      Along (handler scripted) Survives w batches := by
  induction batches generalizing w with
  | nil => exact iff_of_true running trivial
  | cons batch batches ih =>
      have numbers' : ∀ events, some events ∈ batches → ∀ o ∈ events, 0 ≤ o.event.ident :=
        fun events member => numbers events (List.mem_cons_of_mem _ member)
      rw [run_cons, along_cons]
      by_cases survives : Survives w batch
      · obtain ⟨onward, filled'⟩ := handler_filled filled running survives
        rw [ih filled' onward numbers']
        exact (and_iff_right survives).symm
      · have crashed := handler_lost filled running
          (fun events found => numbers events (found ▸ List.mem_cons_self)) survives
        have ended : (run (handler scripted) (handler scripted w batch) batches).status =
            .crashed :=
          run_preserves (I := fun w : SocketBase => w.status = .crashed)
            (fun _ batch _ crashed => handler_crashed crashed batch) crashed
        exact iff_of_false (by simp [ended]) fun along => survives along.1

/-- A client connects, and the next call reads from it. -/
theorem calls_running_listener :
    (run (handler scripted) SocketBase.listener
      [some [arrived 3 false], some [arrived 5 false]]).status = .running := by
  refine (calls_running_iff (fun fd => by simp [SocketBase.listener]) rfl ?_).mpr
    ⟨⟨?_, trivial⟩, ⟨?_, trivial⟩, trivial⟩
  · intro events member
    obtain rfl | rfl : events = [arrived 3 false] ∨ events = [arrived 5 false] := by
      simpa using member
    · decide
    · decide
  · exact fun _ _ client => absurd rfl client
  · intro _ _ _
    unfold SocketBase.Vacant
    decide

end Scripts

end KqueueSocket

end Mux.Socket
