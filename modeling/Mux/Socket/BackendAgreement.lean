import Mux.Socket.Epoll

/-!
# The two back ends on the same notifications

The same server interface sits on the loop over kqueue and on the loop over epoll.
Both are given the same notifications, one in each batch, and the handlers do the
same under both. The loops draw the line between a good and a bad result of the
write handler in different places: `0` keeps the client under kqueue, and closes it
under epoll.
-/

namespace Mux.Socket

open Transition

/-- A client is ready in one direction. The handler does the same under both back ends;
the outcomes of the system calls around it are each back end's own. -/
structure Notification where
  fd : Int
  interest : Interest
  handler : Script
  kqueueClose : CloseCalls
  kqueueDestroy : CloseCalls
  epollClose : CloseCalls
  epollDestroy : CloseCalls
  epollWriter : Bool

namespace Notification

/-- The event as `kevent` returns it. There is nothing to accept. -/
def kqueue (n : Notification) : Occurrence Script where
  event := { ident := n.fd, filter := .interest n.interest }
  accept := .succeeds n.fd
  handler := n.handler
  close := n.kqueueClose
  destroy := n.kqueueDestroy

def mask : Interest → Nat
  | .read => Epoll.EPOLLIN
  | .write => Epoll.EPOLLOUT

/-- The event as `epoll_wait` returns it. -/
def epoll (n : Notification) : Epoll.Occurrence Script where
  event := { fd := n.fd, events := mask n.interest }
  outcomes :=
    { accept := .succeeds n.fd, read := n.handler, setWriter := n.epollWriter, write := n.handler,
      removeWriter := n.epollWriter, close := n.epollClose, destroy := n.epollDestroy }

/-- Whether the loop over epoll closes the client. -/
def EpollCloses (n : Notification) : Prop :=
  (n.interest = .read ∧ n.handler.result < 0) ∨ (n.interest = .write ∧ n.handler.result ≤ 0)

instance (n : Notification) : Decidable n.EpollCloses := inferInstanceAs (Decidable (_ ∨ _))

/-- The write handler reports that nothing was written and nothing went wrong. -/
def WritesNothing (n : Notification) : Prop := n.interest = .write ∧ n.handler.result = 0

instance (n : Notification) : Decidable n.WritesNothing := inferInstanceAs (Decidable (_ ∧ _))

end Notification

namespace SocketBase

/-- The same notification, in a batch of its own, for a server over kqueue and for one over
epoll. -/
def notify (s : SocketBase × SocketBase) (n : Notification) : SocketBase × SocketBase :=
  (s.1.pollingHandler scripted (some [n.kqueue]),
    Epoll.pollingHandler scripted s.2 (some [n.epoll]))

/-- The handler calls of the last batch, each with the client that it was given. -/
def handlerCalls (w : SocketBase) : List (Interest × Int × Option Nat) :=
  w.calls.filterMap fun
    | .handle i fd client => some (i, fd, client.map ClientSocket.id)
    | .closeSocket _ _ => none

/-- The client that is open under a number. -/
def clientAt (w : SocketBase) (fd : Int) : Option (Option Nat) :=
  (w.clientFds_.find? fd).map (Option.map ClientSocket.id)

/-- The last batch called the same handlers on both sides, and the same clients are
open. -/
def Agree (s : SocketBase × SocketBase) : Prop :=
  s.1.handlerCalls = s.2.handlerCalls ∧ ∀ fd, s.1.clientAt fd = s.2.clientAt fd

/-- The number is that of a client, on both sides. -/
def Notified (s : SocketBase × SocketBase) (n : Notification) : Prop :=
  (∃ c, s.1.clientFds_.find? n.fd = some (some c)) ∧
    ∃ c, s.2.clientFds_.find? n.fd = some (some c)

/-- A running server whose map holds clients under numbers that a descriptor can have. -/
structure Clients (w : SocketBase) : Prop where
  running : w.status = .running
  filled : ∀ fd, w.clientFds_.find? fd ≠ some none
  numbers : ∀ fd c, w.clientFds_.find? fd = some (some c) → 0 ≤ fd ∧ fd ≠ w.socket_

variable {w w' : SocketBase} {c c' : ClientSocket} {fd : Int} {n : Notification}
variable {s : SocketBase × SocketBase}

/-! ## One notification -/

/-- What a loop does with a client after the handler: it goes on, or it closes. -/
def settle (w : SocketBase) (i : Interest) (fd : Int) (c : ClientSocket) (script : Script)
    (closes : Prop) [Decidable closes] (calls later : CloseCalls) : SocketBase :=
  if closes then ((w.served i fd c script).closeSocket fd calls later).2
  else w.served i fd c script

theorem kqueue_settle (running : w.status = .running) (client : n.fd ≠ w.socket_) (valid : 0 ≤ n.fd)
    (entry : w.clientFds_.find? n.fd = some (some c)) :
    w.pollEvent scripted n.kqueue =
      w.settle n.interest n.fd c n.handler (n.handler.result < 0) n.kqueueClose
        n.kqueueDestroy := by
  have number : n.kqueue.event.ident ≠ -1 := by
    show n.fd ≠ -1
    omega
  rw [pollEvent_client running client number rfl]
  show handleClient scripted { w with clientFds_ := (w.clientFds_.subscript none n.fd).2 }
    n.interest n.fd (w.clientFds_.subscript none n.fd).1 n.kqueue = _
  rw [UnorderedMap.subscript_present entry]
  rfl

theorem epoll_readiness (n : Notification) : n.epoll.event.readiness =
    { fd := n.fd, failed := false, readable := n.interest = .read,
      writable := n.interest = .write } := by
  cases i : n.interest <;>
    simp [Notification.epoll, Notification.mask, i, Epoll.Event.readiness, Epoll.Event.has,
      Epoll.EPOLLIN, Epoll.EPOLLOUT, Epoll.EPOLLERR, Epoll.EPOLLHUP]

/-- A handler call under epoll, whatever the loop asks the kernel for behind it. -/
theorem attend_settle (i : Interest) (script : Script) (keeps : Int → Bool)
    (op : ClientSocket.Operation) (o : Outcomes Script) {closing : Prop} [Decidable closing]
    (limit : closing ↔ keeps script.result = false) :
    ∃ script', (w.attend scripted i fd (some c) script keeps op (closes fd o)).1 =
      w.settle i fd c script' closing o.close o.destroy := by
  rw [attend_live]
  cases kept : keeps script.result with
  | true =>
      have stays : ¬ closing := by simp [limit, kept]
      exact ⟨_, (if_neg stays).symm⟩
  | false => exact ⟨_, (if_pos (limit.mpr kept)).symm⟩

theorem epoll_settle (running : w.status = .running) (client : n.fd ≠ w.socket_)
    (entry : w.clientFds_.find? n.fd = some (some c)) :
    ∃ script, Epoll.pollEvent scripted w n.epoll =
      w.settle n.interest n.fd c script n.EpollCloses n.epollClose n.epollDestroy := by
  show ∃ script, w.serve scripted n.epoll.event.readiness n.epoll.outcomes = _
  rw [epoll_readiness, serve_attends running rfl client entry]
  cases i : n.interest with
  | read =>
      have only : w.attendBoth scripted ⟨n.fd, false, true, false⟩ (some c) n.epoll.outcomes =
          (w.attendRead scripted n.fd (some c) n.epoll.outcomes).1 := by
        simp only [attendBoth, if_true]
        rcases w.attendRead scripted n.fd (some c) n.epoll.outcomes with ⟨w', _ | client⟩ <;> rfl
      obtain ⟨script, step⟩ := attend_settle (w := w) (c := c) .read n.handler
        (fun result => 0 ≤ result) (.setWriter n.epollWriter) n.epoll.outcomes
        (by simp [Notification.EpollCloses, i] : n.EpollCloses ↔ _)
      exact ⟨script, only.trans step⟩
  | write =>
      exact attend_settle .write n.handler (fun result => 0 < result)
        (.removeWriter n.epollWriter) n.epoll.outcomes (by simp [Notification.EpollCloses, i])

/-! ## The two sides -/

/-- The same handler calls, and the same clients under the same numbers. The objects
themselves differ in the registrations that the loops ask for. -/
structure Alike (w w' : SocketBase) : Prop where
  status : w.status = w'.status
  socket : w.socket_ = w'.socket_
  clients : ∀ fd, w.clientAt fd = w'.clientAt fd
  handled : w.handlerCalls = w'.handlerCalls

/-- The map holds clients under numbers that a descriptor can have, and is empty when the
program has ended. -/
structure Peopled (w : SocketBase) : Prop where
  filled : ∀ fd, w.clientFds_.find? fd ≠ some none
  numbers : ∀ fd c, w.clientFds_.find? fd = some (some c) → 0 ≤ fd ∧ fd ≠ w.socket_
  ended : w.status ≠ .running → ∀ fd c, w.clientFds_.find? fd ≠ some (some c)

theorem clientAt_client (entry : w.clientFds_.find? fd = some (some c)) :
    w.clientAt fd = some (some c.id) := by
  simp only [clientAt, entry, Option.map_some]

theorem clientAt_served (w : SocketBase) (i : Interest) (fd x : Int) (c : ClientSocket)
    (script : Script) : (w.served i fd c script).clientAt x =
      if x = fd then some (some c.id) else w.clientAt x := by
  have same := (c.performAll_local w.kernel script.ops).id
  by_cases here : x = fd
  · rw [if_pos here, here, ← same]
    exact clientAt_client (UnorderedMap.find?_insert _ _ _)
  · rw [if_neg here]
    simp only [clientAt, served, logged, UnorderedMap.find?_insert_ne _ _ here]

/-- Closing a client that is there: it is gone, and with a number that stands for the
server the program ends. -/
theorem closeSocket_clientAt (entry : w.clientFds_.find? fd = some (some c))
    (calls later : CloseCalls) (x : Int) : (w.closeSocket fd calls later).2.clientAt x =
      if x = fd ∨ fd ≤ 0 then none else w.clientAt x := by
  by_cases positive : 0 < fd
  · have rest : ¬ fd ≤ 0 := by omega
    simp only [closeSocket_client entry positive, clientAt, rest, or_false]
    by_cases here : x = fd
    · rw [if_pos here, here, UnorderedMap.find?_erase, Option.map_none]
    · rw [if_neg here, UnorderedMap.find?_erase_ne _ here]
  · rw [if_pos (.inr (by omega))]
    simp only [closeSocket, entry, positive, if_false, clientAt, UnorderedMap.find?_empty,
      Option.map_none]

theorem closeSocket_state (entry : w.clientFds_.find? fd = some (some c))
    (calls later : CloseCalls) :
    (w.closeSocket fd calls later).2.status = (if 0 < fd then w.status else .exited fd) ∧
    (w.closeSocket fd calls later).2.socket_ = (if 0 < fd then w.socket_ else -1) ∧
    (w.closeSocket fd calls later).2.handlerCalls = w.handlerCalls := by
  by_cases positive : 0 < fd
  · rw [closeSocket_client entry positive, if_pos positive, if_pos positive]
    exact ⟨rfl, rfl, by simp [handlerCalls, logged]⟩
  · simp [closeSocket, entry, positive, handlerCalls, logged]

theorem find?_closeSocket {entry : ClientPtr} {x : Int}
    (stored : w.clientFds_.find? fd = some (some c)) {calls later : CloseCalls}
    (found : (w.closeSocket fd calls later).2.clientFds_.find? x = some entry) :
    0 < fd ∧ w.clientFds_.find? x = some entry := by
  by_cases positive : 0 < fd
  · rw [closeSocket_client stored positive] at found
    exact ⟨positive, (UnorderedMap.find?_erase_eq_some.mp found).2⟩
  · simp [closeSocket, stored, positive] at found

namespace Alike

theorem resume (h : Alike w w') : Alike w.resume w'.resume where
  status := by simp only [SocketBase.resume, h.status]
  socket := h.socket
  clients := h.clients
  handled := rfl

theorem served (h : Alike w w') (entry : w.clientFds_.find? fd = some (some c))
    (entry' : w'.clientFds_.find? fd = some (some c')) (i : Interest) (script script' : Script) :
    Alike (w.served i fd c script) (w'.served i fd c' script') := by
  have same : c.id = c'.id := by
    have both := h.clients fd
    rw [clientAt_client entry, clientAt_client entry'] at both
    exact Option.some.inj (Option.some.inj both)
  refine ⟨h.status, h.socket, ?_, ?_⟩
  · intro x
    rw [clientAt_served, clientAt_served, same, h.clients x]
  · have handled := h.handled
    simp only [handlerCalls] at handled
    simp [handlerCalls, SocketBase.served, logged, handled, same]

theorem closeSocket (h : Alike w w') (entry : w.clientFds_.find? fd = some (some c))
    (entry' : w'.clientFds_.find? fd = some (some c')) (calls later calls' later' : CloseCalls) :
    Alike (w.closeSocket fd calls later).2 (w'.closeSocket fd calls' later').2 := by
  obtain ⟨status, socket, handled⟩ := closeSocket_state entry calls later
  obtain ⟨status', socket', handled'⟩ := closeSocket_state entry' calls' later'
  refine ⟨?_, ?_, ?_, ?_⟩
  · rw [status, status', h.status]
  · rw [socket, socket', h.socket]
  · intro x
    rw [closeSocket_clientAt entry, closeSocket_clientAt entry', h.clients x]
  · rw [handled, handled', h.handled]

end Alike

theorem find?_stored (w : SocketBase) (i : Interest) (fd : Int) (c : ClientSocket)
    (script : Script) : (w.served i fd c script).clientFds_.find? fd =
      some (some (c.performAll w.kernel script.ops).1) := UnorderedMap.find?_insert _ _ _

theorem Alike.settle (h : Alike w w') (entry : w.clientFds_.find? fd = some (some c))
    (entry' : w'.clientFds_.find? fd = some (some c')) (i : Interest) (script script' : Script)
    {closes closes' : Prop} [Decidable closes] [Decidable closes'] (same : closes ↔ closes')
    (calls later calls' later' : CloseCalls) :
    Alike (w.settle i fd c script closes calls later)
      (w'.settle i fd c' script' closes' calls' later') := by
  have served := h.served entry entry' i script script'
  unfold SocketBase.settle
  by_cases close : closes
  · rw [if_pos close, if_pos (same.mp close)]
    exact served.closeSocket (find?_stored w i fd c script) (find?_stored w' i fd c' script')
      calls later calls' later'
  · rw [if_neg close, if_neg fun close' => close (same.mpr close')]
    exact served

namespace Peopled

theorem resume (h : Peopled w) : Peopled w.resume where
  filled := h.filled
  numbers := h.numbers
  ended stopped := by
    refine h.ended fun running => stopped ?_
    rw [resume_status (by simp [running])]
    exact running

theorem served (h : Peopled w) (entry : w.clientFds_.find? fd = some (some c)) (i : Interest)
    (script : Script) : Peopled (w.served i fd c script) := by
  refine ⟨insert_filled h.filled fd _, ?_, ?_⟩
  · intro x c' found
    obtain ⟨c₀, before⟩ := served_client entry found
    exact h.numbers x c₀ before
  · intro stopped
    exact absurd entry (h.ended stopped fd c)

theorem closeSocket (h : Peopled w) (entry : w.clientFds_.find? fd = some (some c))
    (calls later : CloseCalls) : Peopled (w.closeSocket fd calls later).2 := by
  obtain ⟨status, socket, -⟩ := closeSocket_state entry calls later
  refine ⟨fun x found => h.filled x (find?_closeSocket entry found).2, ?_, ?_⟩
  · intro x c' found
    obtain ⟨positive, before⟩ := find?_closeSocket entry found
    rw [socket, if_pos positive]
    exact h.numbers x c' before
  · intro stopped x c' found
    obtain ⟨positive, before⟩ := find?_closeSocket entry found
    rw [status, if_pos positive] at stopped
    exact h.ended stopped x c' before

theorem settle (h : Peopled w) (entry : w.clientFds_.find? fd = some (some c)) (i : Interest)
    (script : Script) (closes : Prop) [Decidable closes] (calls later : CloseCalls) :
    Peopled (w.settle i fd c script closes calls later) := by
  have served := h.served entry i script
  unfold SocketBase.settle
  split
  · exact served.closeSocket (find?_stored w i fd c script) calls later
  · exact served

end Peopled

/-- The two sides between any two notifications. -/
structure Related (s : SocketBase × SocketBase) : Prop where
  alike : Alike s.1 s.2
  peopled : Peopled s.1

theorem Related.agree (h : Related s) : Agree s := ⟨h.alike.handled, h.alike.clients⟩

theorem Clients.related (h : Clients w) : Related (w, w) where
  alike := ⟨rfl, rfl, fun _ => rfl, rfl⟩
  peopled := ⟨h.filled, h.numbers, fun stopped => absurd h.running stopped⟩

/-- Both loops serve the client and then go on with it or close it. -/
theorem Related.notify_eq (h : Related s) (entry : s.1.clientFds_.find? n.fd = some (some c))
    (entry' : s.2.clientFds_.find? n.fd = some (some c')) :
    ∃ script', notify s n =
      (s.1.resume.settle n.interest n.fd c n.handler (n.handler.result < 0) n.kqueueClose
          n.kqueueDestroy,
        s.2.resume.settle n.interest n.fd c' script' n.EpollCloses n.epollClose
          n.epollDestroy) := by
  obtain ⟨valid, client⟩ := h.peopled.numbers n.fd c entry
  have running : s.1.status = .running := by
    by_contra stopped
    exact h.peopled.ended stopped n.fd c entry
  have running₁ : s.1.resume.status = .running := by
    rw [resume_status (by simp [running]), running]
  have running₂ : s.2.resume.status = .running := by
    rw [← h.alike.resume.status, running₁]
  have client₂ : n.fd ≠ s.2.resume.socket_ := by
    rw [← h.alike.resume.socket]
    exact client
  obtain ⟨script', epoll⟩ := epoll_settle running₂ client₂ entry'
  refine ⟨script', ?_⟩
  rw [← epoll, ← kqueue_settle running₁ client valid entry]
  rfl

theorem Related.notify (h : Related s) (notified : Notified s n) (writes : ¬ n.WritesNothing) :
    Related (SocketBase.notify s n) := by
  obtain ⟨⟨c, entry⟩, ⟨c', entry'⟩⟩ := notified
  obtain ⟨script', step⟩ := h.notify_eq entry entry'
  have same : n.handler.result < 0 ↔ n.EpollCloses := by
    unfold Notification.EpollCloses
    unfold Notification.WritesNothing at writes
    cases i : n.interest with
    | read => simp
    | write =>
        have nonzero : n.handler.result ≠ 0 := fun zero => writes ⟨i, zero⟩
        simp only [reduceCtorEq, false_and, true_and, false_or]
        omega
  rw [step]
  exact ⟨h.alike.resume.settle entry entry' _ _ _ same _ _ _ _,
    h.peopled.resume.settle entry _ _ _ _ _⟩

/-- After a write of nothing the client is open on one side only. -/
theorem Related.not_agree (h : Related s) (notified : Notified s n) (writes : n.WritesNothing) :
    ¬ Agree (SocketBase.notify s n) := by
  obtain ⟨⟨c, entry⟩, ⟨c', entry'⟩⟩ := notified
  obtain ⟨script', step⟩ := h.notify_eq entry entry'
  obtain ⟨write, zero⟩ := writes
  have kept : ¬ n.handler.result < 0 := by omega
  have closed : n.EpollCloses := .inr ⟨write, by omega⟩
  rintro ⟨-, clients⟩
  have under := clients n.fd
  rw [step] at under
  simp only [SocketBase.settle, if_neg kept, if_pos closed] at under
  rw [clientAt_served, if_pos rfl, closeSocket_clientAt (find?_stored _ _ _ _ _),
    if_pos (.inl rfl)] at under
  cases under

/-- From any map of clients, the two back ends call the same handlers and keep the same
clients after every notification exactly when no write handler returns `0`. -/
theorem agree_iff_writes {notifications : List Notification} (start : Clients w)
    (notified : Along notify Notified (w, w) notifications) :
    Throughout notify Agree (w, w) notifications ↔ ∀ n ∈ notifications, ¬ n.WritesNothing := by
  have decided : Throughout notify Agree (w, w) notifications ↔
      Along (fun (_ : Unit) (_ : Notification) => ()) (fun _ n => ¬ n.WritesNothing) ()
        notifications := by
    refine throughout_iff_along (R := fun s _ => Related s) (A := Notified) ?_ ?_ ?_
      start.related notified
    · exact fun s _ h => h.agree
    · exact fun s _ n h notified writes => h.notify notified writes
    · intro s _ n h notified writes
      exact h.not_agree notified (Classical.not_not.mp writes)
  rw [decided, along_mem_iff]

theorem serving_clients : Clients serving where
  running := rfl
  filled fd found := by
    obtain ⟨-, impossible⟩ := serving_entry found
    cases impossible
  numbers fd c found := by
    obtain ⟨rfl, -⟩ := serving_entry found
    exact ⟨by decide, by decide⟩

/-- The client under 5 is ready, and the handler does nothing but return `result`. -/
def notification (interest : Interest) (result : Int) : Notification where
  fd := 5
  interest := interest
  handler := ⟨[], result⟩
  kqueueClose := .succeeds
  kqueueDestroy := .succeeds
  epollClose := .succeeds
  epollDestroy := .succeeds
  epollWriter := true

/-- A request is read and answered, and the next read finds the connection gone. -/
theorem agree_answered : Throughout notify Agree (serving, serving)
    [notification .read 20, notification .write 4, notification .read (-1)] := by
  refine (agree_iff_writes serving_clients ?_).mpr (by decide)
  exact ⟨⟨⟨_, rfl⟩, ⟨_, rfl⟩⟩, ⟨⟨_, rfl⟩, ⟨_, rfl⟩⟩, ⟨⟨_, rfl⟩, ⟨_, rfl⟩⟩, trivial⟩

/-- The send buffer is full and the write handler returns `0`: the client stays open under
kqueue and is closed under epoll. -/
theorem full_not_agree :
    Clients serving ∧ Along notify Notified (serving, serving) [notification .write 0] ∧
      ¬ Throughout notify Agree (serving, serving) [notification .write 0] := by
  refine ⟨serving_clients, ⟨⟨⟨_, rfl⟩, ⟨_, rfl⟩⟩, trivial⟩, ?_⟩
  rintro ⟨-, -, clients⟩
  exact absurd (clients 5) (by decide)

end SocketBase

end Mux.Socket
