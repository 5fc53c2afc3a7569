import Mathlib.Data.List.FinRange
import Mux.Socket.AcceptOutcomes
import Mux.Socket.Consistency

/-!
# The loop body as a coroutine

`reduceEvents` does for one event what the loop over kqueue does, and is suspended
after the handler call and after the close. The generators of a batch may be resumed
in any order. Each of them works on the entry, the descriptor and the object of its
own client, so that every order ends where the loop does.
-/

namespace Mux.Socket

open Transition

/-- Where a generator is suspended. `handled` keeps the status that the handler
returned. -/
inductive Suspended where
  | created
  | accepted
  | handled (status : Int)
  | closed
  | done
  deriving DecidableEq, Repr

/-- How many resumptions are left at most. -/
def Suspended.left : Suspended → Nat
  | .created => 3
  | .handled _ => 2
  | .accepted => 1
  | .closed => 1
  | .done => 0

/-- The number that a call is about. -/
def Call.fd : Call → Int
  | .handle _ fd _ => fd
  | .closeSocket fd _ => fd

namespace SocketBase

/-- The calls about one number. -/
def callsOf (w : SocketBase) (fd : Int) : List Call := w.calls.filter fun call => call.fd = fd

section Coroutine

variable {χ : Type} (handle : Interest → HandleOperation χ)

/-- From the first resumption to the first suspension. -/
def startEvent (w : SocketBase) (o : Occurrence χ) : Suspended × SocketBase :=
  let clientID := o.event.ident
  if clientID = w.socket_ then
    let accepted := (ClientSocket.new w.nextId).accept w.kernel o.accept
    (if accepted.result = -1 then .done else .accepted, w.acceptClient o.accept o.destroy)
  else
    let (clientSock, clientFds_) := w.clientFds_.subscript none clientID
    let w := { w with clientFds_ }
    match o.event.filter with
    | .interest i =>
        let w := w.logged (.handle i clientID clientSock)
        match handle i o.handler clientSock w.kernel with
        | none => (.created, { w with status := .crashed })
        | some handled =>
            (.handled handled.result, { w with
              clientFds_ := w.clientFds_.insert clientID handled.client
              kernel := handled.kernel })
    | .other => (.done, w)

/-- One resumption. A program that has ended resumes nothing. -/
def reduceEvents (o : Occurrence χ) (s : Suspended × SocketBase) : Suspended × SocketBase :=
  if s.2.status ≠ .running then s
  else
    match s.1 with
    | .created => s.2.startEvent handle o
    | .accepted => (.done, s.2)
    | .handled status =>
        if status < 0 then (.closed, (s.2.closeSocket o.event.ident o.close o.destroy).2)
        else (.done, s.2)
    | .closed => (.done, s.2)
    | .done => s

/-- A batch with one generator for each of its events. -/
structure Generators (n : Nat) where
  suspended : Fin n → Suspended
  server : SocketBase

/-- The generators have been created, and none was resumed. -/
def generators (w : SocketBase) (n : Nat) : Generators n where
  suspended := fun _ => .created
  server := w.resume

/-- One generator is resumed. -/
def resumeAt (events : List (Occurrence χ)) (s : Generators events.length)
    (i : Fin events.length) : Generators events.length :=
  let r := reduceEvents handle (events.get i) (s.suspended i, s.server)
  { suspended := Function.update s.suspended i r.1, server := r.2 }

end Coroutine

/-- A handler that is given a client of the map touches this client and its descriptor: it keeps
the number of the client and every other descriptor, and what it does depends on nothing else. -/
structure ActsOnOwn {χ : Type} (handle : Interest → HandleOperation χ) (w : SocketBase) :
    Prop where
  keeps : ∀ fd c, w.clientFds_.find? fd = some (some c) → ∀ i script k,
    ∃ handled c', handle i script (some c) k = some handled ∧
      handled.client = some c' ∧ c'.clientFd_ = c.clientFd_ ∧
      ∀ x, x ≠ c.clientFd_ → handled.kernel.opened x = k.opened x
  own : ∀ fd c, w.clientFds_.find? fd = some (some c) → ∀ i script k k' handled handled',
    k'.opened c.clientFd_ = k.opened c.clientFd_ →
    handle i script (some c) k = some handled → handle i script (some c) k' = some handled' →
    handled'.result = handled.result ∧ handled'.client = handled.client

/-- A map of live clients and a batch of readiness events on distinct positive numbers, each
of them the listening socket or a key of the map. The number of a new connection is not in
the batch. -/
structure Batch {χ : Type} (w : SocketBase) (events : List (Occurrence χ)) : Prop where
  running : w.status = .running
  clients : ∀ fd entry, w.clientFds_.find? fd = some entry →
    ∃ c, entry = some c ∧ c.clientFd_ = fd
  filters : ∀ o ∈ events, ∃ i, o.event.filter = .interest i
  positive : ∀ o ∈ events, 0 < o.event.ident
  nodup : (events.map fun o => o.event.ident).Nodup
  keys : ∀ o ∈ events, o.event.ident ≠ w.socket_ → w.clientFds_.contains o.event.ident = true
  accepts : ∀ o ∈ events, o.event.ident = w.socket_ →
    ∀ o' ∈ events, o'.event.ident ≠ o.accept.accept

/-! ## One generator by itself -/

variable {χ : Type} {handle : Interest → HandleOperation χ} {w w' : SocketBase}
  {o : Occurrence χ} {i : Interest}

theorem reduceEvents_stopped {s : Suspended × SocketBase} (stopped : s.2.status ≠ .running) :
    reduceEvents handle o s = s := if_pos stopped

theorem reduceEvents_done (w : SocketBase) : reduceEvents handle o (.done, w) = (.done, w) := by
  unfold reduceEvents
  split <;> rfl

/-- Behind an accept, a close and the end nothing is left to do. -/
theorem reduceEvents_idle (w : SocketBase) {at_ : Suspended}
    (idle : at_ = .accepted ∨ at_ = .closed ∨ at_ = .done) :
    ∃ next, (next = .accepted ∨ next = .closed ∨ next = .done) ∧
      reduceEvents handle o (at_, w) = (next, w) := by
  by_cases running : w.status = .running
  · refine ⟨.done, by simp, ?_⟩
    obtain rfl | rfl | rfl := idle <;> simp [reduceEvents, running]
  · exact ⟨at_, idle, reduceEvents_stopped running⟩

theorem reduceEvents_created (running : w.status = .running) :
    reduceEvents handle o (.created, w) = w.startEvent handle o := by
  simp [reduceEvents, running]

/-- The second half of an event. -/
theorem reduceEvents_handled (running : w.status = .running) (status : Int) :
    reduceEvents handle o (.handled status, w) =
      if status < 0 then (.closed, (w.closeSocket o.event.ident o.close o.destroy).2)
      else (.done, w) := by
  simp [reduceEvents, running]

theorem startEvent_accept (listening : o.event.ident = w.socket_) : w.startEvent handle o =
    (if ((ClientSocket.new w.nextId).accept w.kernel o.accept).result = -1 then .done
      else .accepted, w.acceptClient o.accept o.destroy) := if_pos listening

theorem startEvent_client (client : o.event.ident ≠ w.socket_)
    (filter : o.event.filter = .interest i) : w.startEvent handle o =
      match handle i o.handler (w.clientFds_.subscript none o.event.ident).1 w.kernel with
      | none => (.created,
          { (w.logged (.handle i o.event.ident (w.clientFds_.subscript none o.event.ident).1)) with
            clientFds_ := (w.clientFds_.subscript none o.event.ident).2, status := .crashed })
      | some handled => (.handled handled.result,
          { (w.logged (.handle i o.event.ident (w.clientFds_.subscript none o.event.ident).1)) with
            clientFds_ := (w.clientFds_.subscript none o.event.ident).2.insert o.event.ident
              handled.client
            kernel := handled.kernel }) := by
  simp only [startEvent, if_neg client, filter, logged]

/-- A generator that is resumed until it is done does what the loop does. -/
theorem reduceEvents_pollEvent (w : SocketBase) (valid : o.event.ident ≠ -1)
    (filter : o.event.filter = .interest i) :
    (reduceEvents handle o (reduceEvents handle o (reduceEvents handle o (.created, w)))).2 =
      w.pollEvent handle o := by
  by_cases running : w.status = .running
  case neg =>
    rw [pollEvent_stopped running]
    simp only [reduceEvents_stopped (s := (.created, w)) running]
  have once (at_ : Suspended) (w' : SocketBase)
      (idle : at_ = .accepted ∨ at_ = .closed ∨ at_ = .done) :
      (reduceEvents handle o (at_, w')).2 = w' := by
    obtain ⟨next, -, step⟩ : ∃ next, _ ∧ reduceEvents handle o (at_, w') = (next, w') :=
      reduceEvents_idle w' idle
    rw [step]
  have twice (at_ : Suspended) (w' : SocketBase)
      (idle : at_ = .accepted ∨ at_ = .closed ∨ at_ = .done) :
      (reduceEvents handle o (reduceEvents handle o (at_, w'))).2 = w' := by
    obtain ⟨next, idle', step⟩ : ∃ next, _ ∧ reduceEvents handle o (at_, w') = (next, w') :=
      reduceEvents_idle w' idle
    rw [step, once next w' idle']
  rw [reduceEvents_created running]
  by_cases listening : o.event.ident = w.socket_
  · rw [startEvent_accept listening, pollEvent_accept running listening]
    refine twice _ _ ?_
    split <;> simp
  · rw [startEvent_client listening filter, pollEvent_client running listening valid filter]
    rcases call : handle i o.handler (w.clientFds_.subscript none o.event.ident).1 w.kernel with
      _ | handled
    · have crashed (w' : SocketBase) (status : w'.status = .crashed) :
          (reduceEvents handle o (reduceEvents handle o (.created, w'))).2 = w' := by
        have stopped : w'.status ≠ .running := by simp [status]
        simp only [reduceEvents_stopped (s := (.created, w')) stopped]
      simp only [handleClient, logged, call]
      exact crashed _ rfl
    · have halves (w' : SocketBase) (running' : w'.status = .running) (status : Int) :
          (reduceEvents handle o (reduceEvents handle o (.handled status, w'))).2 =
            if status < 0 then (w'.closeSocket o.event.ident o.close o.destroy).2 else w' := by
        rw [reduceEvents_handled running']
        by_cases refused : status < 0
        · rw [if_pos refused, if_pos refused]
          exact once _ _ (.inr (.inl rfl))
        · rw [if_neg refused, if_neg refused]
          exact once _ _ (.inr (.inr rfl))
      simp only [handleClient, logged, call]
      apply halves
      exact running

/-! ## One client -/

/-- What a batch holds for an event of a client: the client in the map, and what its handler
makes of it. -/
structure Turn (handle : Interest → HandleOperation χ) (w : SocketBase) (o : Occurrence χ) where
  interest : Interest
  client : ClientSocket
  handled : Handled
  after : ClientSocket
  filter : o.event.filter = .interest interest
  entry : w.clientFds_.find? o.event.ident = some (some client)
  call : handle interest o.handler (some client) w.kernel = some handled
  stored : handled.client = some after
  clientFd : client.clientFd_ = o.event.ident
  afterFd : after.clientFd_ = o.event.ident

theorem Batch.turn {events : List (Occurrence χ)} (batch : Batch w events)
    (acts : ActsOnOwn handle w) (member : o ∈ events) (client : o.event.ident ≠ w.socket_) :
    Nonempty (Turn handle w o) := by
  obtain ⟨i, filter⟩ := batch.filters o member
  obtain ⟨entry, found⟩ := Option.isSome_iff_exists.mp (batch.keys o member client)
  obtain ⟨c, rfl, clientFd⟩ := batch.clients o.event.ident entry found
  obtain ⟨handled, after, call, stored, afterFd, -⟩ := acts.keeps _ c found i o.handler w.kernel
  exact ⟨⟨i, c, handled, after, filter, found, call, stored, clientFd, afterFd.trans clientFd⟩⟩

/-- Nothing about the number `x` has changed. -/
structure SameAt (x : Int) (w w' : SocketBase) : Prop where
  entry : w'.clientFds_.find? x = w.clientFds_.find? x
  opened : w'.kernel.opened x = w.kernel.opened x
  calls : w'.callsOf x = w.callsOf x

theorem SameAt.refl (x : Int) (w : SocketBase) : SameAt x w w := ⟨rfl, rfl, rfl⟩

theorem callsOf_logged (w : SocketBase) {call : Call} {x : Int} (about : call.fd = x) :
    (w.logged call).callsOf x = w.callsOf x ++ [call] := by
  simp [callsOf, logged, List.filter_append, about]

theorem callsOf_logged_ne (w : SocketBase) {call : Call} {x : Int} (other : x ≠ call.fd) :
    (w.logged call).callsOf x = w.callsOf x := by
  simp [callsOf, logged, List.filter_append, other.symm]

namespace Turn

variable {w₀ : SocketBase} (t : Turn handle w₀ o)

/-- The handler call of the event. -/
def handles : Call := .handle t.interest o.event.ident (some t.client)

/-- The close behind a failed handler call. -/
def closes : Call := .closeSocket o.event.ident (some (some t.after))

/-- The calls of the event, once it has been worked off. -/
def calls : List Call := if t.handled.result < 0 then [t.handles, t.closes] else [t.handles]

/-- The entry of the client, once the event has been worked off. -/
def remains : Option ClientPtr := if t.handled.result < 0 then none else some (some t.after)

/-- The client where its generator is suspended: before the first half its own entry and
descriptor are as they were in the beginning. -/
def At : Suspended → SocketBase → Prop
  | .created, w => w.clientFds_.find? o.event.ident = some (some t.client) ∧
      w.kernel.opened o.event.ident = w₀.kernel.opened o.event.ident ∧
      w.callsOf o.event.ident = []
  | .accepted, _ => False
  | .handled status, w => status = t.handled.result ∧
      w.clientFds_.find? o.event.ident = some (some t.after) ∧
      w.callsOf o.event.ident = [t.handles]
  | .closed, w => t.handled.result < 0 ∧ w.clientFds_.find? o.event.ident = none ∧
      w.callsOf o.event.ident = [t.handles, t.closes]
  | .done, w => w.clientFds_.find? o.event.ident = t.remains ∧
      w.callsOf o.event.ident = t.calls

variable {t} {at_ : Suspended}

theorem At.congr (h : t.At at_ w) (same : SameAt o.event.ident w w') : t.At at_ w' := by
  cases at_ with
  | created => exact ⟨same.entry.trans h.1, same.opened.trans h.2.1, same.calls.trans h.2.2⟩
  | accepted => exact h
  | handled status => exact ⟨h.1, same.entry.trans h.2.1, same.calls.trans h.2.2⟩
  | closed => exact ⟨h.1, same.entry.trans h.2.1, same.calls.trans h.2.2⟩
  | done => exact ⟨same.entry.trans h.1, same.calls.trans h.2⟩

/-- What one resumption of the generator of a client does. -/
structure Advances (t : Turn handle w₀ o) (at_ : Suspended) (w : SocketBase)
    (r : Suspended × SocketBase) : Prop where
  here : t.At r.1 r.2
  left : r.1.left ≤ at_.left - 1
  status : r.2.status = w.status
  socket : r.2.socket_ = w.socket_
  nextId : r.2.nextId = w.nextId
  elsewhere : ∀ x, x ≠ o.event.ident → SameAt x w r.2

/-- The first half: the handler is given the client as it was in the beginning. -/
theorem advances_created (acts : ActsOnOwn handle w₀) (running : w.status = .running)
    (client : o.event.ident ≠ w.socket_) (here : t.At .created w) :
    Advances t .created w (reduceEvents handle o (.created, w)) := by
  obtain ⟨entry, opened, calls⟩ := here
  obtain ⟨handled, -, call, -, -, kept⟩ :=
    acts.keeps _ t.client t.entry t.interest o.handler w.kernel
  obtain ⟨result, stored⟩ :
      handled.result = t.handled.result ∧ handled.client = t.handled.client := by
    refine acts.own _ t.client t.entry t.interest o.handler w₀.kernel w.kernel t.handled handled
      ?_ t.call call
    rw [t.clientFd, opened]
  rw [t.clientFd] at kept
  rw [reduceEvents_created running, startEvent_client client t.filter,
    UnorderedMap.subscript_present entry, call]
  refine ⟨⟨result, ?_, ?_⟩, Nat.le_refl 2, rfl, rfl, rfl, ?_⟩
  · simp only [UnorderedMap.find?_insert, stored, t.stored]
  · show (w.logged t.handles).callsOf o.event.ident = [t.handles]
    rw [w.callsOf_logged (show t.handles.fd = o.event.ident from rfl), calls, List.nil_append]
  · intro x other
    refine ⟨UnorderedMap.find?_insert_ne _ _ other, kept x other, ?_⟩
    exact w.callsOf_logged_ne (show x ≠ t.handles.fd from other)

/-- The second half: a failure closes the client. -/
theorem advances_handled (running : w.status = .running) (positive : 0 < o.event.ident)
    {status : Int} (here : t.At (.handled status) w) :
    Advances t (.handled status) w (reduceEvents handle o (.handled status, w)) := by
  obtain ⟨rfl, entry, calls⟩ := here
  rw [reduceEvents_handled running]
  by_cases refused : t.handled.result < 0
  · rw [if_pos refused, closeSocket_client entry positive]
    have released := t.after.close_releases w.kernel o.close
    rw [t.afterFd] at released
    refine ⟨⟨refused, UnorderedMap.find?_erase _ _, ?_⟩, Nat.le_refl 1, rfl, rfl, rfl, ?_⟩
    · show (w.logged t.closes).callsOf o.event.ident = [t.handles, t.closes]
      rw [w.callsOf_logged (show t.closes.fd = o.event.ident from rfl), calls,
        List.singleton_append]
    · intro x other
      refine ⟨UnorderedMap.find?_erase_ne _ other, released.elsewhere x other, ?_⟩
      exact w.callsOf_logged_ne (show x ≠ t.closes.fd from other)
  · rw [if_neg refused]
    refine ⟨⟨?_, ?_⟩, Nat.zero_le _, rfl, rfl, rfl, fun x _ => .refl x w⟩
    · rw [remains, if_neg refused]
      exact entry
    · rw [Turn.calls, if_neg refused]
      exact calls

theorem advances (acts : ActsOnOwn handle w₀) (running : w.status = .running)
    (client : o.event.ident ≠ w.socket_) (positive : 0 < o.event.ident) (here : t.At at_ w) :
    Advances t at_ w (reduceEvents handle o (at_, w)) := by
  cases at_ with
  | created => exact advances_created acts running client here
  | accepted => exact here.elim
  | handled status => exact advances_handled running positive here
  | closed =>
      obtain ⟨refused, entry, calls⟩ := here
      have step : reduceEvents handle o (.closed, w) = (.done, w) := by
        simp [reduceEvents, running]
      rw [step]
      refine ⟨⟨?_, ?_⟩, Nat.le_refl 0, rfl, rfl, rfl, fun x _ => .refl x w⟩
      · rw [remains, if_pos refused]
        exact entry
      · rw [Turn.calls, if_pos refused]
        exact calls
  | done =>
      rw [reduceEvents_done]
      exact ⟨here, Nat.le_refl 0, rfl, rfl, rfl, fun x _ => .refl x w⟩

end Turn

/-! ## The listening socket -/

/-- The number that the event of the listening socket gives to a new client. -/
def acceptResult (w : SocketBase) (o : Occurrence χ) : Int :=
  ((ClientSocket.new w.nextId).accept w.kernel o.accept).result

/-- The entry of `x` when the event has been worked off. -/
def acceptedAt (w : SocketBase) (o : Occurrence χ) (x : Int) : Option ClientPtr :=
  if w.acceptResult o ≠ -1 ∧ x = w.acceptResult o then
    some (some (ClientSocket.established w.nextId (w.acceptResult o)))
  else w.clientFds_.find? x

theorem acceptClient_find? (w : SocketBase) (o : Occurrence χ) (x : Int) :
    (w.acceptClient o.accept o.destroy).clientFds_.find? x = w.acceptedAt o x := by
  by_cases failed : w.acceptResult o = -1
  · rw [acceptClient_rejected failed, acceptedAt, if_neg fun returned => returned.1 failed]
  · obtain ⟨-, client⟩ := ClientSocket.accept_client w.nextId w.kernel failed
    obtain ⟨k, -, stored⟩ := acceptClient_stored o.destroy failed
    rw [stored, client]
    by_cases here : x = w.acceptResult o
    · rw [acceptedAt, if_pos ⟨failed, here⟩, here]
      exact UnorderedMap.find?_insert _ _ _
    · rw [acceptedAt, if_neg fun returned => here returned.2]
      exact UnorderedMap.find?_insert_ne _ _ here

/-- The numbers of the batch keep their descriptors. -/
theorem acceptClient_opened (w : SocketBase) (o : Occurrence χ) {x : Int}
    (numbered : ∀ c, w.clientFds_.find? (w.acceptResult o) = some (some c) →
      c.clientFd_ = w.acceptResult o)
    (other : x ≠ o.accept.accept) (positive : 0 < x) :
    (w.acceptClient o.accept o.destroy).kernel.opened x = w.kernel.opened x := by
  obtain ⟨accepted, destroyed⟩ :=
    ClientSocket.accept_elsewhere w.nextId w.kernel o.accept o.destroy other positive
  by_cases failed : w.acceptResult o = -1
  · rw [acceptClient_rejected failed]
    exact destroyed
  · obtain ⟨number, -⟩ := ClientSocket.accept_client w.nextId w.kernel failed
    obtain ⟨k, rfl | ⟨former, found, rfl⟩, stored⟩ := acceptClient_stored o.destroy failed
    · rw [stored]
      exact accepted
    · have apart : x ≠ former.clientFd_ := by
        rw [numbered former found, acceptResult]
        omega
      rw [stored, (former.destroy_releases _ _).elsewhere x apart]
      exact accepted

/-! ## All generators -/

variable {events : List (Occurrence χ)} {s s' : Generators events.length}

/-- The numbers that no event of a client is about. -/
def Outside (w : SocketBase) (events : List (Occurrence χ)) (x : Int) : Prop :=
  ∀ o ∈ events, o.event.ident ≠ w.socket_ → x ≠ o.event.ident

/-- Where the generators stand, from the state `w₀` in which they were created. -/
structure Progress (handle : Interest → HandleOperation χ) (w₀ : SocketBase)
    (events : List (Occurrence χ)) (s : Generators events.length) : Prop where
  running : s.server.status = .running
  socket : s.server.socket_ = w₀.socket_
  clients : ∀ j, (events.get j).event.ident ≠ w₀.socket_ →
    ∀ t : Turn handle w₀ (events.get j), t.At (s.suspended j) s.server
  waiting : (∀ j, (events.get j).event.ident = w₀.socket_ → s.suspended j = .created) →
    s.server.nextId = w₀.nextId ∧ s.server.kernel.opened 0 = w₀.kernel.opened 0 ∧
      ∀ x, Outside w₀ events x → s.server.clientFds_.find? x = w₀.clientFds_.find? x
  accepted : ∀ j, (events.get j).event.ident = w₀.socket_ → s.suspended j ≠ .created →
    (s.suspended j = .accepted ∨ s.suspended j = .done) ∧
      s.server.nextId = w₀.nextId + 1 ∧
      ∀ x, Outside w₀ events x →
        s.server.clientFds_.find? x = w₀.acceptedAt (events.get j) x
  silent : ∀ x, Outside w₀ events x → s.server.callsOf x = []

theorem Batch.resume (batch : Batch w events) : Batch w.resume events where
  running := by
    rw [show w.resume.status = w.status from if_neg (by simp [batch.running]), batch.running]
  clients := batch.clients
  filters := batch.filters
  positive := batch.positive
  nodup := batch.nodup
  keys := batch.keys
  accepts := batch.accepts

theorem Batch.progress (batch : Batch w events) :
    Progress handle w.resume events (w.generators events.length) where
  running := batch.resume.running
  socket := rfl
  clients _ _ t := ⟨t.entry, rfl, rfl⟩
  waiting _ := ⟨rfl, rfl, fun _ _ => rfl⟩
  accepted _ _ started := absurd rfl started
  silent _ _ := rfl

/-- Two events of a batch have different numbers. -/
theorem Batch.apart (batch : Batch w events) {i j : Fin events.length}
    (same : (events.get i).event.ident = (events.get j).event.ident) : i = j := by
  have injective := List.nodup_iff_injective_get.mp batch.nodup
  have lengths : (events.map fun o => o.event.ident).length = events.length := List.length_map _
  have eq : Fin.cast lengths.symm i = Fin.cast lengths.symm j := by
    apply injective
    simpa using same
  exact Fin.cast_injective _ eq

/-- The event of the listening socket does not touch the numbers of the clients. -/
theorem Batch.outside_accept (batch : Batch w events) (member : o ∈ events)
    (listening : o.event.ident = w.socket_) : Outside w events (w.acceptResult o) := by
  intro o' member' _ same
  have positive := batch.positive o' member'
  have apart := batch.accepts o member listening o' member'
  by_cases failed : ((ClientSocket.new w.nextId).accept w.kernel o.accept).result = -1
  · simp only [acceptResult, failed] at same
    omega
  · obtain ⟨number, -⟩ := ClientSocket.accept_client w.nextId w.kernel failed
    unfold acceptResult at same
    omega

theorem Batch.acceptResult_congr {w₀ : SocketBase} (h : w.nextId = w₀.nextId)
    (zero : w.kernel.opened 0 = w₀.kernel.opened 0) : w.acceptResult o = w₀.acceptResult o := by
  unfold acceptResult
  rw [h]
  exact ClientSocket.accept_result_congr w₀.nextId zero

theorem Progress.resume_client {w₀ : SocketBase} (batch : Batch w₀ events)
    (acts : ActsOnOwn handle w₀) (h : Progress handle w₀ events s) {i : Fin events.length}
    (client : (events.get i).event.ident ≠ w₀.socket_) :
    Progress handle w₀ events (resumeAt handle events s i) ∧
      ((resumeAt handle events s i).suspended i).left ≤ (s.suspended i).left - 1 := by
  have member := List.get_mem events i
  have positive := batch.positive _ member
  have advances (t : Turn handle w₀ (events.get i)) :
      Turn.Advances t (s.suspended i) s.server
        (reduceEvents handle (events.get i) (s.suspended i, s.server)) :=
    Turn.advances acts h.running (by rw [h.socket]; exact client) positive (h.clients i client t)
  obtain ⟨t⟩ := batch.turn acts member client
  have step := advances t
  have apart (j : Fin events.length) (other : j ≠ i) :
      (events.get j).event.ident ≠ (events.get i).event.ident :=
    fun same => other (batch.apart same)
  -- the generator of the listening socket is another one
  have listens (j : Fin events.length) (listening : (events.get j).event.ident = w₀.socket_) :
      (resumeAt handle events s i).suspended j = s.suspended j := by
    refine Function.update_of_ne ?_ _ _
    rintro rfl
    exact client listening
  refine ⟨⟨step.status.trans h.running, step.socket.trans h.socket, ?_, ?_, ?_, ?_⟩, ?_⟩
  · intro j client' t'
    by_cases same : j = i
    · subst same
      simp only [resumeAt, Function.update_self]
      exact (advances t').here
    · simp only [resumeAt, Function.update_of_ne same]
      exact (h.clients j client' t').congr (step.elsewhere _ (apart j same))
  · intro waiting
    obtain ⟨nextId, zero, entries⟩ := h.waiting fun j listening => by
      rw [← listens j listening]
      exact waiting j listening
    refine ⟨step.nextId.trans nextId, ?_, ?_⟩
    · exact (step.elsewhere 0 (by omega)).opened.trans zero
    · intro x outside
      exact (step.elsewhere x (outside _ member client)).entry.trans (entries x outside)
  · intro j listening started
    rw [listens j listening] at started ⊢
    obtain ⟨idle, nextId, entries⟩ := h.accepted j listening started
    refine ⟨idle, step.nextId.trans nextId, ?_⟩
    intro x outside
    exact (step.elsewhere x (outside _ member client)).entry.trans (entries x outside)
  · intro x outside
    exact (step.elsewhere x (outside _ member client)).calls.trans (h.silent x outside)
  · simp only [resumeAt, Function.update_self]
    exact step.left

/-- Accepting leaves a client of the batch as it is. The number of a former object
under the new one is that of no event. -/
theorem Batch.accept_spares {w₀ : SocketBase} (batch : Batch w₀ events) {o' : Occurrence χ}
    (member : o ∈ events) (listening : o.event.ident = w₀.socket_) (member' : o' ∈ events)
    (client : o'.event.ident ≠ w₀.socket_) (result : w.acceptResult o = w₀.acceptResult o)
    (former : w.clientFds_.find? (w₀.acceptResult o) = w₀.clientFds_.find? (w₀.acceptResult o)) :
    SameAt o'.event.ident w (w.acceptClient o.accept o.destroy) := by
  have apart : o'.event.ident ≠ w₀.acceptResult o :=
    fun same => batch.outside_accept member listening _ member' client same.symm
  refine ⟨?_, ?_, ?_⟩
  · rw [acceptClient_find?, acceptedAt, result, if_neg fun here => apart here.2]
  · refine acceptClient_opened w o ?_ (batch.accepts _ member listening _ member')
      (batch.positive _ member')
    intro c found
    rw [result, former] at found
    obtain ⟨c', stored, number⟩ := batch.clients _ _ found
    obtain rfl := Option.some.inj stored
    rw [result]
    exact number
  · simp only [callsOf, (w.acceptClient_frame o.accept o.destroy).1]

theorem resumeAt_accept {i : Fin events.length} (running : s.server.status = .running)
    (listening : (events.get i).event.ident = s.server.socket_)
    (created : s.suspended i = .created) :
    (resumeAt handle events s i).server =
        s.server.acceptClient (events.get i).accept (events.get i).destroy ∧
      ((resumeAt handle events s i).suspended i = .accepted ∨
        (resumeAt handle events s i).suspended i = .done) := by
  simp only [resumeAt, created, Function.update_self]
  rw [reduceEvents_created running, startEvent_accept listening]
  refine ⟨rfl, ?_⟩
  dsimp only
  split
  · exact .inr rfl
  · exact .inl rfl

/-- The first resumption for the listening socket accepts. -/
theorem Progress.resume_created {w₀ : SocketBase} (batch : Batch w₀ events)
    (h : Progress handle w₀ events s) {i : Fin events.length}
    (listening : (events.get i).event.ident = w₀.socket_) (created : s.suspended i = .created) :
    Progress handle w₀ events (resumeAt handle events s i) ∧
      ((resumeAt handle events s i).suspended i).left ≤ 2 := by
  have member := List.get_mem events i
  have only (j : Fin events.length) (listening' : (events.get j).event.ident = w₀.socket_) :
      j = i := batch.apart (listening'.trans listening.symm)
  obtain ⟨nextId, zero, entries⟩ := h.waiting fun j listening' => by
    rw [only j listening']
    exact created
  have result : s.server.acceptResult (events.get i) = w₀.acceptResult (events.get i) :=
    Batch.acceptResult_congr nextId zero
  have accepted (x : Int) (free : Outside w₀ events x) :
      s.server.acceptedAt (events.get i) x = w₀.acceptedAt (events.get i) x := by
    simp only [acceptedAt, result, nextId, entries x free]
  obtain ⟨server, suspended⟩ :=
    resumeAt_accept h.running (by rw [h.socket]; exact listening) created
  obtain ⟨calls, status, socket, identities⟩ :=
    s.server.acceptClient_frame (events.get i).accept (events.get i).destroy
  refine ⟨⟨?_, ?_, ?_, ?_, ?_, ?_⟩, ?_⟩
  · rw [server, status, h.running]
  · rw [server, socket, h.socket]
  · intro j client t
    have other : j ≠ i := by
      rintro rfl
      exact client listening
    rw [server]
    simp only [resumeAt, Function.update_of_ne other]
    refine (h.clients j client t).congr ?_
    exact batch.accept_spares member listening (List.get_mem events j) client result
      (entries _ (batch.outside_accept member listening))
  · intro waiting
    obtain started | started := suspended
    · cases started.symm.trans (waiting i listening)
    · cases started.symm.trans (waiting i listening)
  · intro j listening' _
    obtain rfl := only j listening'
    refine ⟨suspended, ?_, ?_⟩
    · rw [server, identities, nextId]
    · intro x free
      rw [server, acceptClient_find?, accepted x free]
  · intro x free
    rw [server, callsOf, calls]
    exact h.silent x free
  · obtain started | started := suspended
    · rw [started]
      decide
    · rw [started]
      decide

/-- Any later resumption for the listening socket leaves the server as it is. -/
theorem Progress.resume_started {w₀ : SocketBase} (batch : Batch w₀ events)
    (h : Progress handle w₀ events s) {i : Fin events.length}
    (listening : (events.get i).event.ident = w₀.socket_) (started : s.suspended i ≠ .created) :
    Progress handle w₀ events (resumeAt handle events s i) ∧
      ((resumeAt handle events s i).suspended i).left ≤ (s.suspended i).left - 1 := by
  obtain ⟨idle, nextId, entries⟩ := h.accepted i listening started
  have step : reduceEvents handle (events.get i) (s.suspended i, s.server) = (.done, s.server) := by
    obtain at_ | at_ := idle
    · rw [at_]
      simp [reduceEvents, h.running]
    · rw [at_]
      exact reduceEvents_done s.server
  have finished : (resumeAt handle events s i).suspended i = .done := by
    simp only [resumeAt, step, Function.update_self]
  have server : (resumeAt handle events s i).server = s.server := by
    simp only [resumeAt, step]
  refine ⟨⟨?_, ?_, ?_, ?_, ?_, ?_⟩, ?_⟩
  · rw [server, h.running]
  · rw [server, h.socket]
  · intro j client t
    have other : j ≠ i := by
      rintro rfl
      exact client listening
    rw [server]
    simp only [resumeAt, Function.update_of_ne other]
    exact h.clients j client t
  · intro waiting
    cases finished.symm.trans (waiting i listening)
  · intro j listening' _
    obtain rfl : j = i := batch.apart (listening'.trans listening.symm)
    rw [server]
    exact ⟨.inr finished, nextId, entries⟩
  · intro x free
    rw [server]
    exact h.silent x free
  · rw [finished]
    exact Nat.zero_le _

/-- One resumption of any generator. -/
theorem Progress.resumed {w₀ : SocketBase} (batch : Batch w₀ events) (acts : ActsOnOwn handle w₀)
    (h : Progress handle w₀ events s) (i : Fin events.length) :
    Progress handle w₀ events (resumeAt handle events s i) ∧
      ((resumeAt handle events s i).suspended i).left ≤ (s.suspended i).left - 1 := by
  by_cases listening : (events.get i).event.ident = w₀.socket_
  · by_cases created : s.suspended i = .created
    · rw [created]
      exact h.resume_created batch listening created
    · exact h.resume_started batch listening created
  · exact h.resume_client batch acts listening

/-! ## Schedules -/

theorem Progress.scheduled {w₀ : SocketBase} (batch : Batch w₀ events) (acts : ActsOnOwn handle w₀)
    (h : Progress handle w₀ events s) (schedule : List (Fin events.length)) :
    Progress handle w₀ events (run (resumeAt handle events) s schedule) ∧
      ∀ i, ((run (resumeAt handle events) s schedule).suspended i).left ≤
        (s.suspended i).left - schedule.count i := by
  induction schedule generalizing s with
  | nil => exact ⟨h, fun i => Nat.le_refl _⟩
  | cons j schedule ih =>
      obtain ⟨progress, left⟩ := h.resumed batch acts j
      obtain ⟨final, bound⟩ := ih progress
      refine ⟨final, fun i => (bound i).trans ?_⟩
      by_cases same : j = i
      · subst same
        rw [List.count_cons_self]
        omega
      · have kept : (resumeAt handle events s j).suspended i = s.suspended i :=
          Function.update_of_ne (Ne.symm same) _ _
        rw [kept, List.count_cons_of_ne same]

theorem Suspended.done_of_left {at_ : Suspended} (none_left : at_.left ≤ 0) : at_ = .done := by
  cases at_ with
  | done => rfl
  | created => cases none_left
  | accepted => cases none_left
  | handled status => cases none_left
  | closed => cases none_left

/-- Each generator is resumed until it is done before the next one is started. -/
def inTurn {n : Nat} (order : List (Fin n)) : List (Fin n) := order.flatMap fun i => [i, i, i]

theorem count_inTurn {n : Nat} {order : List (Fin n)} {i : Fin n} (member : i ∈ order) :
    3 ≤ (inTurn order).count i := by
  induction order with
  | nil => cases member
  | cons j order ih =>
      rw [inTurn, List.flatMap_cons, List.count_append]
      by_cases same : j = i
      · subst same
        simp
      · have later := ih ((List.mem_cons.mp member).resolve_left (Ne.symm same))
        rw [inTurn] at later
        omega

/-- The loop works off the events in the order of the batch. -/
theorem run_inTurn (ordinary : ∀ o ∈ events, o.event.ident ≠ -1 ∧ ∃ i, o.event.filter = .interest i)
    {order : List (Fin events.length)} (nodup : order.Nodup)
    (created : ∀ i ∈ order, s.suspended i = .created) :
    (run (resumeAt handle events) s (inTurn order)).server =
      run (pollEvent handle) s.server (order.map events.get) := by
  induction order generalizing s with
  | nil => rfl
  | cons i order ih =>
      obtain ⟨valid, interest, filter⟩ := ordinary _ (List.get_mem events i)
      obtain ⟨fresh, rest⟩ := List.nodup_cons.mp nodup
      have alone : _ = s.server.pollEvent handle (events.get i) :=
        reduceEvents_pollEvent s.server valid filter
      rw [← created i List.mem_cons_self] at alone
      have steps : inTurn (i :: order) = i :: i :: i :: inTurn order := rfl
      rw [steps, run_cons, run_cons, run_cons, List.map_cons, run_cons, ih rest]
      · rw [← alone]
        simp only [resumeAt, Function.update_self]
      · intro j member
        have other : j ≠ i := by
          rintro rfl
          exact fresh member
        simp only [resumeAt, Function.update_of_ne other]
        exact created j (List.mem_cons_of_mem _ member)

/-- The generators in the order of the batch do what the loop does. -/
theorem pollingHandler_inTurn (batch : Batch w events) :
    (run (resumeAt handle events) (w.generators events.length)
        (inTurn (List.finRange events.length))).server =
      w.pollingHandler handle (some events) := by
  have ordinary : ∀ o ∈ events, o.event.ident ≠ -1 ∧ ∃ i, o.event.filter = .interest i := by
    intro o member
    have positive := batch.positive o member
    exact ⟨by omega, batch.filters o member⟩
  have all : (List.finRange events.length).map events.get = events :=
    List.ofFn_eq_map.symm.trans (List.ofFn_get events)
  rw [run_inTurn ordinary (List.nodup_finRange _) fun _ _ => rfl, all]
  rfl

/-! ## Every schedule -/

/-- What working off the batch means: the same map, the same calls about every number and as
many accepts as in the loop, where the calls of each event are its handler call and, exactly
when the handler failed, the close of its client. -/
structure Refines (handle : Interest → HandleOperation χ) (w : SocketBase)
    (events : List (Occurrence χ)) (w' : SocketBase) : Prop where
  clients : w'.clientFds_ = (w.pollingHandler handle (some events)).clientFds_
  calls : ∀ fd, w'.callsOf fd = (w.pollingHandler handle (some events)).callsOf fd
  accepts : w'.nextId = (w.pollingHandler handle (some events)).nextId
  handled : ∀ o ∈ events, o.event.ident ≠ w.socket_ → ∃ i c handled,
    o.event.filter = .interest i ∧ w.clientFds_.find? o.event.ident = some (some c) ∧
    handle i o.handler (some c) w.kernel = some handled ∧
    w'.callsOf o.event.ident = .handle i o.event.ident (some c) ::
      if handled.result < 0 then [.closeSocket o.event.ident (some handled.client)] else []
  accepted : (∃ o ∈ events, o.event.ident = w.socket_) → w'.nextId = w.nextId + 1

/-- Two orders in which all generators were resumed to the end. -/
theorem Progress.agree {w₀ : SocketBase} (batch : Batch w₀ events) (acts : ActsOnOwn handle w₀)
    (h : Progress handle w₀ events s) (h' : Progress handle w₀ events s')
    (done : ∀ i, s.suspended i = .done) (done' : ∀ i, s'.suspended i = .done) :
    s.server.clientFds_ = s'.server.clientFds_ ∧
      (∀ fd, s.server.callsOf fd = s'.server.callsOf fd) ∧ s.server.nextId = s'.server.nextId := by
  have at_ (o : Occurrence χ) (member : o ∈ events) (client : o.event.ident ≠ w₀.socket_) :
      s.server.clientFds_.find? o.event.ident = s'.server.clientFds_.find? o.event.ident ∧
        s.server.callsOf o.event.ident = s'.server.callsOf o.event.ident := by
    obtain ⟨i, rfl⟩ := List.get_of_mem member
    obtain ⟨t⟩ := batch.turn acts member client
    have here := h.clients i client t
    have here' := h'.clients i client t
    rw [done i] at here
    rw [done' i] at here'
    exact ⟨here.1.trans here'.1.symm, here.2.trans here'.2.symm⟩
  have outside (x : Int) (free : ¬ Outside w₀ events x) :
      ∃ o ∈ events, o.event.ident ≠ w₀.socket_ ∧ x = o.event.ident := by
    simpa [Outside] using free
  have elsewhere : s.server.nextId = s'.server.nextId ∧
      ∀ x, Outside w₀ events x → s.server.clientFds_.find? x = s'.server.clientFds_.find? x := by
    by_cases listens : ∃ i : Fin events.length, (events.get i).event.ident = w₀.socket_
    · obtain ⟨i, listening⟩ := listens
      obtain ⟨-, nextId, entries⟩ := h.accepted i listening (by rw [done i]; nofun)
      obtain ⟨-, nextId', entries'⟩ := h'.accepted i listening (by rw [done' i]; nofun)
      exact ⟨nextId.trans nextId'.symm, fun x free => (entries x free).trans (entries' x free).symm⟩
    · obtain ⟨nextId, -, entries⟩ := h.waiting fun j listening => absurd ⟨j, listening⟩ listens
      obtain ⟨nextId', -, entries'⟩ := h'.waiting fun j listening => absurd ⟨j, listening⟩ listens
      exact ⟨nextId.trans nextId'.symm, fun x free => (entries x free).trans (entries' x free).symm⟩
  refine ⟨UnorderedMap.ext fun x => ?_, fun x => ?_, elsewhere.1⟩
  · by_cases free : Outside w₀ events x
    · exact elsewhere.2 x free
    · obtain ⟨o, member, client, rfl⟩ := outside x free
      exact (at_ o member client).1
  · by_cases free : Outside w₀ events x
    · rw [h.silent x free, h'.silent x free]
    · obtain ⟨o, member, client, rfl⟩ := outside x free
      exact (at_ o member client).2

/-- However the generators of a batch are resumed to their ends, they make the calls of the
loop, each once, and end with its map. -/
theorem refines_pollingHandler (batch : Batch w events) (acts : ActsOnOwn handle w)
    (schedule : List (Fin events.length))
    (complete : ∀ i,
      (run (resumeAt handle events) (w.generators events.length) schedule).suspended i = .done) :
    Refines handle w events
      (run (resumeAt handle events) (w.generators events.length) schedule).server := by
  have start : Progress handle w.resume events (w.generators events.length) := batch.progress
  have acts : ActsOnOwn handle w.resume := ⟨acts.keeps, acts.own⟩
  have h := (start.scheduled batch.resume acts schedule).1
  obtain ⟨h', left⟩ := start.scheduled batch.resume acts (inTurn (List.finRange events.length))
  have done' (i : Fin events.length) : (run (resumeAt handle events) (w.generators events.length)
      (inTurn (List.finRange events.length))).suspended i = .done := by
    refine Suspended.done_of_left ((left i).trans ?_)
    have thrice := count_inTurn (List.mem_finRange i)
    show 3 - _ ≤ 0
    omega
  obtain ⟨clients, calls, accepts⟩ := h.agree batch.resume acts h' complete done'
  rw [pollingHandler_inTurn batch] at clients calls accepts
  refine ⟨clients, calls, accepts, ?_, ?_⟩
  · intro o member client
    obtain ⟨i, rfl⟩ := List.get_of_mem member
    obtain ⟨t⟩ := batch.resume.turn acts member client
    have here := h.clients i client t
    rw [complete i] at here
    refine ⟨t.interest, t.client, t.handled, t.filter, t.entry, t.call, here.2.trans ?_⟩
    unfold Turn.calls
    rw [t.stored]
    split <;> rfl
  · rintro ⟨o, member, listening⟩
    obtain ⟨i, rfl⟩ := List.get_of_mem member
    exact (h.accepted i listening (by rw [complete i]; nofun)).2.1

/-- Whatever a scripted handler does, it does with its own client. -/
theorem scripted_actsOnOwn (w : SocketBase) : ActsOnOwn scripted w where
  keeps _ c _ i script k := by
    have frame := c.performAll_local k script.ops
    exact ⟨_, _, rfl, rfl, frame.fd, frame.keeps.elsewhere⟩
  own _ c _ i script k k' handled handled' same call call' := by
    obtain rfl := Option.some.inj call
    obtain rfl := Option.some.inj call'
    exact ⟨rfl, congrArg some (c.performAll_congr same script.ops)⟩

end SocketBase

end Mux.Socket
