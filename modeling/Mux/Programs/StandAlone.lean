import Mux.Library.Transition
import Mux.Socket.Server

/-!
# The stand-alone server

The server of `Socket.cc` keeps its clients in a vector and is woken by an event
queue of its own. A change array is applied from its front, and `kevent` fails at
the first entry that cannot be applied. For every connection the loop builds an
array of two entries, and gives `kevent` another one of that length: the entry of
the listening socket and whatever stands behind it in memory. So a client
that is stored is not watched, and as long as that memory asks for no client either,
none is answered or closed.
-/

namespace Mux.StandAlone

open Socket Transition

/-- An entry of a change array. The flags ask for a registration to be added or to
be deleted, or for neither; an added one is enabled. -/
structure Kevent where
  ident : Int
  filter : Filter
  flags : Option Change
  deriving DecidableEq, Repr

/-- Only the two filters of a socket are followed; an entry for anything else has an
outcome and no effect. -/
def Kevent.apply (entry : Kevent) (k : Kernel) (ok : Bool) : Bool × Kernel :=
  match entry.filter, entry.flags with
  | .interest i, some change => k.kevent entry.ident i change ok
  | _, _ => (ok, k)

/-- `kevent` with a change array, each entry with its outcome. The entries in front of
one that fails stay applied. -/
def kevent (k : Kernel) : List (Kevent × Bool) → Bool × Kernel
  | [] => (true, k)
  | (entry, ok) :: changes =>
      match entry.apply k ok with
      | (true, k) => kevent k changes
      | (false, k) => (false, k)

def Response200 : Str :=
  "HTTP/1.1 200 OK\r\nContent-Type: text/plain\r\nContent-Length: ".toList

/-- `change`, the entry that registers the listening socket. -/
def change (serverFd : Int) : Kevent := ⟨serverFd, .interest .read, some .add⟩

/-- `clientChanges`, the array that is built for a new connection. -/
def clientChanges (clientFd : Int) : List Kevent :=
  [⟨clientFd, .interest .read, some .add⟩, ⟨clientFd, .interest .write, some .add⟩]

/-- The variables of `main`, and the number of connections so far. -/
structure Program where
  serverFd : Int
  kernel : Kernel
  clientFds : List Int := []
  nextConn : Nat

/-- An event, and what happens while it is worked off: what `accept` returns, the
entry that stands behind `change` in memory, the outcomes of the two changes, and
those of `recv`, `send` and `close`. -/
structure Turn where
  ident : Int
  accept : Int
  behind : Kevent
  first : Bool
  second : Bool
  recv : RecvOutcome
  send : SendOutcome
  close : Bool
  deriving DecidableEq, Repr

namespace Program

/-- The part of `main` in front of the loop. When the listening socket cannot be
registered, the program ends. -/
def listening (serverFd : Int) (kernel : Kernel) (nextConn : Nat) (ok : Bool) : Option Program :=
  match kevent kernel [(change serverFd, ok)] with
  | (true, kernel) => some { serverFd, kernel, nextConn }
  | (false, _) => none

/-- `close`, and `erase` behind `remove`. -/
def dropClient (s : Program) (fd : Int) (ok : Bool) : Program :=
  { s with kernel := (s.kernel.close fd ok).2, clientFds := s.clientFds.filter (· ≠ fd) }

/-- The body of the loop. -/
def processEvent (s : Program) (t : Turn) : Program :=
  let fd := t.ident
  if fd = s.serverFd then
    let clientFd := t.accept
    if clientFd = -1 then s
    else
      -- `clientChanges` is filled here, and `&change` is passed below
      let kernel := s.kernel.accept s.nextConn clientFd
      let nextConn := s.nextConn + 1
      match kevent kernel [(change s.serverFd, t.first), (t.behind, t.second)] with
      | (true, kernel) => { s with kernel, nextConn, clientFds := s.clientFds ++ [clientFd] }
      | (false, kernel) => { s with kernel := (kernel.close clientFd t.close).2, nextConn }
  else
    let (bytesRead, _, kernel) := s.kernel.recv fd 1024 t.recv
    if bytesRead > 0 then { s with kernel := (kernel.send fd Response200 t.send).2 }
    else if bytesRead = 0 then
      { s with kernel := (kernel.send fd Response200 t.send).2 }.dropClient fd t.close
    else { s with kernel }.dropClient fd t.close

/-- The events of one wait, in order. A wait that fails gives none. -/
def processEvents (s : Program) (events : List Turn) : Program := run processEvent s events

end Program

/-- The kernel can apply the entry behind the one of the listening socket, at a time
when `clientFd` is open but not registered. -/
def Applies (k : Kernel) (serverFd clientFd : Int) (entry : Kevent) : Prop :=
  match entry.filter, entry.flags with
  | .interest i, some request =>
      (entry.ident = clientFd ∨ (k.opened entry.ident).isSome = true) ∧
        (request = .add ∨ k.Registered entry.ident i ∨ entry.ident = serverFd ∧ i = .read)
  | _, _ => True

namespace Program

/-- `accept` returns an error or a number that is free. -/
def Legal (s : Program) (t : Turn) : Prop :=
  t.ident = s.serverFd → t.accept = -1 ∨ 0 ≤ t.accept ∧ s.kernel.opened t.accept = none

/-- A connection is accepted, and `kevent` applies the array that it is given. -/
structure Stores (s : Program) (t : Turn) : Prop where
  incoming : t.ident = s.serverFd
  accepted : t.accept ≠ -1
  first : t.first = true
  second : t.second = true
  applies : Applies s.kernel s.serverFd t.accept t.behind

/-- The descriptor of every client is open, and occurs once. -/
def OpenOnce (s : Program) : Prop :=
  ∀ fd ∈ s.clientFds, (s.kernel.opened fd).isSome = true ∧ s.clientFds.count fd = 1

/-- Every client is watched for both filters. -/
def Watched (s : Program) : Prop :=
  ∀ fd ∈ s.clientFds, (s.kernel.opened fd).isSome = true ∧ s.clientFds.count fd = 1 ∧
    ∀ i, s.kernel.Registered fd i

def LegalEvents (s : Program) (events : List Turn) : Prop := Along processEvent Legal s events

def OpenOnceEvents (s : Program) (events : List Turn) : Prop :=
  Throughout processEvent OpenOnce s events

def WatchedEvents (s : Program) (events : List Turn) : Prop :=
  Throughout processEvent Watched s events

/-- No event of the batch stores a client. -/
def UnstoredEvents (s : Program) (events : List Turn) : Prop :=
  Along processEvent (fun s t => ¬ Stores s t) s events

end Program

/-! ## Change arrays -/

section ChangeArrays

variable {k : Kernel} {fd : Int} {i : Interest} {entry : Kevent} {ok : Bool}

theorem Kevent.apply_owner (entry : Kevent) (k : Kernel) (ok : Bool) :
    (entry.apply k ok).2.owner = k.owner := by
  unfold Kevent.apply
  split
  · exact (k.kevent_keeps _ _ _ ok).owners
  · rfl

theorem Kevent.apply_sent (entry : Kevent) (k : Kernel) (ok : Bool) :
    (entry.apply k ok).2.sent = k.sent := by
  unfold Kevent.apply
  split
  · exact k.kevent_sent _ _ _ ok
  · rfl

/-- An entry registers no pair but the one it asks for. -/
theorem Kevent.apply_registered (on : (entry.apply k ok).2.Registered fd i) :
    k.Registered fd i ∨ entry = ⟨fd, .interest i, some .add⟩ := by
  obtain ⟨ident, filter, flags⟩ := entry
  unfold Kevent.apply at on
  split at on
  · next j request same asks =>
      obtain rfl : filter = .interest j := same
      obtain rfl : flags = some request := asks
      cases request with
      | delete => exact .inl ((k.kevent_delete_releases ident j ok).registered on)
      | add =>
          cases applied : (k.kevent ident j .add ok).1 with
          | false =>
              obtain ⟨d, found, watched⟩ := on
              rw [Kernel.kevent_refused applied] at found
              exact .inl ⟨d, found, watched⟩
          | true =>
              obtain ⟨rfl, live, -⟩ := (k.kevent_applies_iff ident j .add ok).mp applied
              obtain before | ⟨rfl, rfl⟩ := (Kernel.registered_kevent_add live fd i).mp on
              · exact .inl before
              · exact .inr rfl
  · exact .inl on

theorem kevent_cons (entry : Kevent) (ok : Bool) (changes : List (Kevent × Bool)) (k : Kernel) :
    kevent k ((entry, ok) :: changes) =
      if (entry.apply k ok).1 then kevent (entry.apply k ok).2 changes
      else (false, (entry.apply k ok).2) := by
  rw [kevent]
  split
  · next k' applied => simp [applied]
  · next k' refused => simp [refused]

theorem kevent_owner (k : Kernel) (changes : List (Kevent × Bool)) :
    (kevent k changes).2.owner = k.owner := by
  induction changes generalizing k with
  | nil => rfl
  | cons head changes ih =>
      obtain ⟨entry, ok⟩ := head
      rw [kevent_cons]
      split
      · rw [ih, entry.apply_owner]
      · exact entry.apply_owner k ok

theorem kevent_sent (k : Kernel) (changes : List (Kevent × Bool)) :
    (kevent k changes).2.sent = k.sent := by
  induction changes generalizing k with
  | nil => rfl
  | cons head changes ih =>
      obtain ⟨entry, ok⟩ := head
      rw [kevent_cons]
      split
      · rw [ih, entry.apply_sent]
      · exact entry.apply_sent k ok

theorem kevent_isSome (k : Kernel) (changes : List (Kevent × Bool)) (fd : Int) :
    ((kevent k changes).2.opened fd).isSome = (k.opened fd).isSome :=
  Kernel.isSome_of_owner (congrFun (kevent_owner k changes) fd)

/-- Behind a change array a pair is registered only if it was before, or if an entry
asks for it. -/
theorem kevent_registered (k : Kernel) (changes : List (Kevent × Bool)) {fd : Int} {i : Interest}
    (on : (kevent k changes).2.Registered fd i) :
    k.Registered fd i ∨ ⟨fd, .interest i, some .add⟩ ∈ changes.map Prod.fst := by
  induction changes generalizing k with
  | nil => exact .inl on
  | cons head changes ih =>
      obtain ⟨entry, ok⟩ := head
      have behind : (entry.apply k ok).2.Registered fd i →
          k.Registered fd i ∨
            ⟨fd, .interest i, some .add⟩ ∈ ((entry, ok) :: changes).map Prod.fst := by
        intro on
        obtain before | rfl := Kevent.apply_registered on
        · exact .inl before
        · exact .inr List.mem_cons_self
      rw [kevent_cons] at on
      split at on
      · obtain before | later := ih _ on
        · exact behind before
        · exact .inr (List.mem_cons_of_mem _ later)
      · exact behind on

theorem kevent_cons_applied {changes : List (Kevent × Bool)} :
    (kevent k ((entry, ok) :: changes)).1 = true ↔
      (entry.apply k ok).1 = true ∧ (kevent (entry.apply k ok).2 changes).1 = true := by
  rw [kevent_cons]
  cases (entry.apply k ok).1 <;> simp

/-- The array that is built, and never passed, would register the new connection for
both filters. -/
theorem clientChanges_registered {clientFd : Int} {first second : Bool}
    (applied : (kevent k ((clientChanges clientFd).zip [first, second])).1 = true)
    (i : Interest) :
    (kevent k ((clientChanges clientFd).zip [first, second])).2.Registered clientFd i := by
  simp only [clientChanges, List.zip_cons_cons, List.zip_nil_left] at applied ⊢
  obtain ⟨one, two⟩ := kevent_cons_applied.mp applied
  obtain ⟨two, -⟩ := kevent_cons_applied.mp two
  rw [kevent_cons, if_pos one, kevent_cons, if_pos two]
  obtain ⟨rfl, live, -⟩ := (k.kevent_applies_iff clientFd .read .add first).mp one
  obtain ⟨rfl, live', -⟩ := (Kernel.kevent_applies_iff _ clientFd .write .add second).mp two
  refine (Kernel.registered_kevent_add live' clientFd i).mpr ?_
  cases i with
  | read => exact .inl ((Kernel.registered_kevent_add live clientFd .read).mpr (.inr ⟨rfl, rfl⟩))
  | write => exact .inr ⟨rfl, rfl⟩

theorem Kevent.apply_applied :
    (entry.apply k ok).1 = true ↔ ok = true ∧
      match entry.filter, entry.flags with
      | .interest i, some request =>
          (k.opened entry.ident).isSome = true ∧ (request = .add ∨ k.Registered entry.ident i)
      | _, _ => True := by
  unfold Kevent.apply
  split
  · exact k.kevent_applies_iff _ _ _ ok
  · simp

end ChangeArrays

/-! ## The loop -/

namespace Program

variable {s s' : Program} {t : Turn}

/-- The answer of `kevent` to the array that is passed for a new connection. -/
def passed (s : Program) (t : Turn) : Bool × Kernel :=
  kevent (s.kernel.accept s.nextConn t.accept) [(change s.serverFd, t.first), (t.behind, t.second)]

/-- A connection arrives and is accepted under a free number. -/
structure Arrives (s : Program) (t : Turn) : Prop where
  incoming : t.ident = s.serverFd
  valid : 0 ≤ t.accept
  free : s.kernel.opened t.accept = none

theorem Legal.arrives (legal : Legal s t) (incoming : t.ident = s.serverFd) :
    t.accept = -1 ∨ Arrives s t := by
  obtain failed | ⟨valid, free⟩ := legal incoming
  · exact .inl failed
  · exact .inr ⟨incoming, valid, free⟩

theorem Arrives.accepted (arrives : Arrives s t) : t.accept ≠ -1 := by
  have valid := arrives.valid
  omega

theorem processEvent_failed (incoming : t.ident = s.serverFd) (failed : t.accept = -1) :
    s.processEvent t = s := by
  simp [processEvent, incoming, failed]

theorem processEvent_arrives (arrives : Arrives s t) :
    s.processEvent t =
      if (s.passed t).1 then
        { s with
          kernel := (s.passed t).2
          nextConn := s.nextConn + 1
          clientFds := s.clientFds ++ [t.accept] }
      else
        { s with
          kernel := ((s.passed t).2.close t.accept t.close).2
          nextConn := s.nextConn + 1 } := by
  simp only [processEvent, passed, if_pos arrives.incoming, if_neg arrives.accepted]
  split
  · next kernel applied => simp [applied]
  · next kernel refused => simp [refused]

/-- Accepting the connection and asking `kevent` opens its descriptor, and no other. -/
theorem passed_isSome (arrives : Arrives s t) (fd : Int) :
    ((s.passed t).2.opened fd).isSome = true ↔
      fd = t.accept ∨ (s.kernel.opened fd).isSome = true := by
  rw [passed, kevent_isSome, Kernel.accept_isSome arrives.valid]

/-- The kernel between the two entries of the array that is passed. -/
def between (s : Program) (t : Turn) : Kernel :=
  ((change s.serverFd).apply (s.kernel.accept s.nextConn t.accept) t.first).2

theorem between_isSome (arrives : Arrives s t) (fd : Int) :
    ((s.between t).opened fd).isSome = true ↔
      fd = t.accept ∨ (s.kernel.opened fd).isSome = true := by
  have owner := (change s.serverFd).apply_owner (s.kernel.accept s.nextConn t.accept) t.first
  rw [between, Kernel.isSome_of_owner (congrFun owner fd), Kernel.accept_isSome arrives.valid]

theorem between_registered (arrives : Arrives s t)
    (live : (s.kernel.opened s.serverFd).isSome = true) (first : t.first = true) (fd : Int)
    (i : Interest) : (s.between t).Registered fd i ↔
      s.kernel.Registered fd i ∨ fd = s.serverFd ∧ i = .read := by
  have live' : ((s.kernel.accept s.nextConn t.accept).opened s.serverFd).isSome = true :=
    (Kernel.accept_isSome arrives.valid _).mpr (.inr live)
  rw [between, first]
  refine (Kernel.registered_kevent_add live' fd i).trans (or_congr_left ?_)
  exact Kernel.accept_registered arrives.valid arrives.free fd i

/-- When the entry behind the one of the listening socket is applied. -/
theorem behind_applied (arrives : Arrives s t)
    (live : (s.kernel.opened s.serverFd).isSome = true) (first : t.first = true) :
    (t.behind.apply (s.between t) t.second).1 = true ↔
      t.second = true ∧ Applies s.kernel s.serverFd t.accept t.behind := by
  rw [Kevent.apply_applied]
  refine and_congr_right fun _ => ?_
  unfold Applies
  split
  · rw [between_isSome arrives, between_registered arrives live first]
  · rfl

/-- When `kevent` applies the array that is passed. -/
theorem passed_applied (arrives : Arrives s t)
    (live : (s.kernel.opened s.serverFd).isSome = true) :
    (s.passed t).1 = true ↔ Stores s t := by
  have one : ((change s.serverFd).apply (s.kernel.accept s.nextConn t.accept) t.first).1 = true ↔
      t.first = true := by
    refine Kevent.apply_applied.trans (and_iff_left ?_)
    exact ⟨(Kernel.accept_isSome arrives.valid _).mpr (.inr live), .inl rfl⟩
  have two := behind_applied arrives live
  rw [passed, kevent_cons_applied, one, kevent_cons_applied]
  constructor
  · rintro ⟨first, second, -⟩
    obtain ⟨second, applies⟩ := (two first).mp second
    exact ⟨arrives.incoming, arrives.accepted, first, second, applies⟩
  · intro stores
    exact ⟨stores.first, (two stores.first).mpr ⟨stores.second, stores.applies⟩, rfl⟩

/-- A registration behind the array that is passed was there before, or is the one of
the listening socket, or is what the entry behind it asks for. -/
theorem passed_registered (arrives : Arrives s t) {fd : Int} {i : Interest}
    (on : (s.passed t).2.Registered fd i) :
    s.kernel.Registered fd i ∨ fd = s.serverFd ∨ t.behind = ⟨fd, .interest i, some .add⟩ := by
  obtain before | asks := kevent_registered _ _ on
  · exact .inl ((Kernel.accept_registered arrives.valid arrives.free fd i).mp before)
  · simp only [List.map_cons, List.map_nil, List.mem_cons, List.not_mem_nil, or_false] at asks
    obtain listener | asks := asks
    · exact .inr (.inl (congrArg Kevent.ident listener))
    · exact .inr (.inr asks.symm)

/-- The array that is passed names another descriptor first, and its second entry can
ask for one filter. -/
theorem passed_unwatched (arrives : Arrives s t) (other : s.serverFd ≠ t.accept) :
    ¬ ∀ i, (s.passed t).2.Registered t.accept i := by
  intro on
  have asked (i : Interest) : t.behind = ⟨t.accept, .interest i, some .add⟩ := by
    obtain before | same | asks := passed_registered arrives (on i)
    · exact absurd before (Kernel.not_registered_of_free arrives.free i)
    · exact absurd same.symm other
    · exact asks
  have both := (asked .read).symm.trans (asked .write)
  simp at both

/-- What is true at any time, registrations aside. -/
structure Sound (s : Program) : Prop where
  listening : (s.kernel.opened s.serverFd).isSome = true
  opened : ∀ fd ∈ s.clientFds, (s.kernel.opened fd).isSome = true
  nodup : s.clientFds.Nodup

/-- What an event does: it keeps the clients and every open descriptor, it stores a new
client, or it drops the client that it is about. -/
inductive Processed (s : Program) (t : Turn) : Program → Prop where
  | kept (kernel : Kernel) (nextConn : Nat) (unstored : ¬ Stores s t)
      (stays : ∀ fd, (s.kernel.opened fd).isSome = true → (kernel.opened fd).isSome = true) :
      Processed s t { s with kernel, nextConn }
  | stored (kernel : Kernel) (nextConn : Nat) (stores : Stores s t)
      (fresh : s.kernel.opened t.accept = none)
      (opened : ∀ fd, (kernel.opened fd).isSome = true ↔
        fd = t.accept ∨ (s.kernel.opened fd).isSome = true)
      (unwatched : ¬ ∀ i, kernel.Registered t.accept i) :
      Processed s t { s with kernel, nextConn, clientFds := s.clientFds ++ [t.accept] }
  | dropped (kernel : Kernel) (client : t.ident ≠ s.serverFd)
      (stays : ∀ fd, fd ≠ t.ident → (s.kernel.opened fd).isSome = true →
        (kernel.opened fd).isSome = true) :
      Processed s t { s with kernel, clientFds := s.clientFds.filter (· ≠ t.ident) }

theorem close_stays {k k' : Kernel} {fd : Int} (same : k'.opened = k.opened) (ok : Bool) :
    ∀ x, x ≠ fd → (k.opened x).isSome = true → ((k'.close fd ok).2.opened x).isSome = true := by
  intro x other live
  obtain kept | closed := k'.close_opened fd ok
  · rwa [kept, same]
  · rwa [closed, Function.update_of_ne other, same]

/-- An event of the listening socket. -/
theorem processEvent_incoming (live : (s.kernel.opened s.serverFd).isSome = true)
    (legal : Legal s t) (incoming : t.ident = s.serverFd) : Processed s t (s.processEvent t) := by
  obtain failed | arrives := legal.arrives incoming
  · rw [processEvent_failed incoming failed]
    exact .kept s.kernel s.nextConn (fun stores => stores.accepted failed) fun _ live => live
  · have opened := passed_isSome arrives
    have applied := passed_applied arrives live
    rw [processEvent_arrives arrives]
    split
    · next stored =>
        have other := Kernel.ne_of_free live arrives.free
        exact .stored _ _ (applied.mp stored) arrives.free opened (passed_unwatched arrives other)
    · next refused =>
        refine .kept _ _ (fun stores => refused (applied.mpr stores)) fun x live => ?_
        have other := Kernel.ne_of_free live arrives.free
        exact close_stays rfl t.close x other ((opened x).mpr (.inr live))

/-- An event of any other descriptor. -/
theorem processEvent_client (client : t.ident ≠ s.serverFd) :
    Processed s t (s.processEvent t) := by
  have received := s.kernel.recv_opened t.ident 1024 t.recv
  have none : ¬ Stores s t := fun stores => client stores.incoming
  simp only [processEvent, if_neg client]
  generalize s.kernel.recv t.ident 1024 t.recv = r at received ⊢
  obtain ⟨bytesRead, _, kernel⟩ := r
  have answered := kernel.send_opened t.ident Response200 t.send
  split
  · refine .kept _ _ none fun x live => ?_
    rwa [answered, received]
  · split
    · exact .dropped _ client (close_stays (answered.trans received) t.close)
    · exact .dropped _ client (close_stays received t.close)

theorem processEvent_processed (live : (s.kernel.opened s.serverFd).isSome = true)
    (legal : Legal s t) : Processed s t (s.processEvent t) := by
  by_cases incoming : t.ident = s.serverFd
  · exact processEvent_incoming live legal incoming
  · exact processEvent_client incoming

theorem Sound.processed (sound : Sound s) (h : Processed s t s') : Sound s' := by
  cases h with
  | kept kernel nextConn _ stays =>
      exact ⟨stays _ sound.listening, fun fd member => stays fd (sound.opened fd member),
        sound.nodup⟩
  | stored kernel nextConn _ fresh opened =>
      have unknown : t.accept ∉ s.clientFds := fun member =>
        Kernel.ne_of_free (sound.opened _ member) fresh rfl
      refine ⟨(opened _).mpr (.inr sound.listening), fun fd member => (opened fd).mpr ?_, ?_⟩
      · obtain member | same := List.mem_append.mp member
        · exact .inr (sound.opened fd member)
        · exact .inl (List.mem_singleton.mp same)
      · exact List.concat_eq_append ▸ sound.nodup.concat unknown
  | dropped kernel client stays =>
      refine ⟨stays _ client.symm sound.listening, fun fd member => ?_, sound.nodup.filter _⟩
      obtain ⟨member, other⟩ := List.mem_filter.mp member
      exact stays fd (of_decide_eq_true other) (sound.opened fd member)

theorem Sound.openOnce (sound : Sound s) : OpenOnce s := fun fd member =>
  ⟨sound.opened fd member, List.count_eq_one_of_mem sound.nodup member⟩

/-- The new client is not watched. -/
theorem Processed.not_watched (h : Processed s t s') (stores : Stores s t) : ¬ Watched s' := by
  intro watched
  cases h with
  | kept _ _ unstored => exact unstored stores
  | stored kernel _ _ _ _ unwatched =>
      exact unwatched (watched t.accept (List.mem_append_right _ List.mem_cons_self)).2.2
  | dropped _ client => exact client stores.incoming

/-! ## Runs -/

theorem Sound.processEvent (s : Program) (t : Turn) (sound : Sound s) (legal : Legal s t) :
    Sound (s.processEvent t) :=
  sound.processed (processEvent_processed sound.listening legal)

theorem Sound.processEvents (s : Program) (events : List Turn) (sound : Sound s)
    (legal : LegalEvents s events) : Sound (s.processEvents events) :=
  run_invariant Sound.processEvent sound legal

/-- No client has been stored so far. -/
structure Idle (s : Program) : Prop where
  sound : Sound s
  clients : s.clientFds = []

theorem Idle.watched (idle : Idle s) : Watched s := by
  intro fd member
  rw [idle.clients] at member
  cases member

theorem Idle.processEvent (idle : Idle s) (legal : Legal s t) (unstored : ¬ Stores s t) :
    Idle (s.processEvent t) := by
  have processed := processEvent_processed idle.sound.listening legal
  refine ⟨idle.sound.processed processed, ?_⟩
  generalize s.processEvent t = s' at processed ⊢
  cases processed with
  | kept => exact idle.clients
  | stored _ _ stores => exact absurd stores unstored
  | dropped => simp [idle.clients]

theorem listening_idle {serverFd : Int} {k : Kernel} {conn : Nat} {ok : Bool}
    (started : listening serverFd k conn ok = some s) : Idle s := by
  have opened := kevent_isSome k [(change serverFd, ok)]
  have applied : (kevent k [(change serverFd, ok)]).1 = true ↔ _ := kevent_cons_applied
  unfold listening at started
  generalize kevent k [(change serverFd, ok)] = r at opened applied started
  obtain ⟨_ | _, kernel⟩ := r
  · cases started
  · obtain rfl := Option.some.inj started
    obtain ⟨one, -⟩ := applied.mp rfl
    obtain ⟨-, live, -⟩ := Kevent.apply_applied.mp one
    exact ⟨⟨(opened serverFd).trans live, List.forall_mem_nil _, List.nodup_nil⟩, rfl⟩

/-- In a batch that starts without clients, the clients are watched throughout if and only
if none is stored. -/
theorem watchedEvents_iff (idle : Idle s) {events : List Turn} (legal : LegalEvents s events) :
    WatchedEvents s events ↔ UnstoredEvents s events := by
  refine throughout_iff_along (R := fun s s' : Program => s = s' ∧ Idle s) (A := Legal) ?_ ?_ ?_
    ⟨rfl, idle⟩ legal
  · rintro s _ ⟨-, idle⟩
    exact idle.watched
  · rintro s _ t ⟨rfl, idle⟩ legal unstored
    exact ⟨rfl, idle.processEvent legal unstored⟩
  · rintro s _ t ⟨rfl, idle⟩ legal stores
    exact (processEvent_processed idle.sound.listening legal).not_watched (not_not.mp stores)

theorem Idle.processEvents (idle : Idle s) {events : List Turn} (legal : LegalEvents s events)
    (unstored : UnstoredEvents s events) : Idle (s.processEvents events) := by
  have related := run_simulation (R := fun s s' : Program => s = s' ∧ Idle s)
    (A := Legal) (C := fun s t => ¬ Stores s t) ?_ ⟨rfl, idle⟩ legal unstored
  · exact related.2
  · rintro s _ t ⟨rfl, idle⟩ legal unstored
    exact ⟨rfl, idle.processEvent legal unstored⟩

theorem openOnceEvents (sound : Sound s) {events : List Turn} (legal : LegalEvents s events) :
    OpenOnceEvents s events :=
  .of_invariant Sound.processEvent (fun _ sound => sound.openOnce) sound legal

/-- In every run the descriptors of the clients are open, and each occurs once. They are
watched for both filters as long as none has been stored, and no longer. -/
theorem watched_iff_unstored {serverFd : Int} {k : Kernel} {conn : Nat} {ok : Bool}
    (started : listening serverFd k conn ok = some s) {batches : List (List Turn)}
    (legal : Along processEvents LegalEvents s batches) :
    Along processEvents OpenOnceEvents s batches ∧
      (Along processEvents WatchedEvents s batches ↔
        Along processEvents UnstoredEvents s batches) := by
  have idle := listening_idle started
  constructor
  · exact .of_invariant Sound.processEvents (fun s events sound legal => openOnceEvents sound legal)
      idle.sound legal
  · refine along_iff_along (I := Idle) ?_ ?_ idle legal
    · intro s events idle legal
      exact watchedEvents_iff idle legal
    · intro s events idle legal unstored
      exact idle.processEvents legal unstored

/-- A listening socket under the number 3. -/
def booted : Kernel where
  opened := Function.update (fun _ => none) 3 (some { conn := 0 })

/-- A connection is accepted under the number 5. Behind `change` stands the event of the
listening socket, as `kevent` has left it in `events`. -/
def arrival (second : Bool) : Turn where
  ident := 3
  accept := 5
  behind := change 3
  first := true
  second
  recv := .received []
  send := .accepted 0
  close := true

theorem arrival_legal {s : Program} (started : listening 3 booted 1 true = some s)
    (second : Bool) : Along processEvents LegalEvents s [[arrival second]] := by
  obtain rfl := Option.some.inj started
  have valid : (0 : Int) ≤ 5 := by decide
  exact ⟨⟨fun _ => .inr ⟨valid, rfl⟩, trivial⟩, trivial⟩

/-- The new connection is closed, and there is still nothing to watch. -/
theorem refused_watched_iff : ∃ s, listening 3 booted 1 true = some s ∧
    Along processEvents OpenOnceEvents s [[arrival false]] ∧
      (Along processEvents WatchedEvents s [[arrival false]] ↔
        Along processEvents UnstoredEvents s [[arrival false]]) := by
  have started : listening 3 booted 1 true = some _ := rfl
  exact ⟨_, started, watched_iff_unstored started (arrival_legal started false)⟩

/-- The new connection is stored and not watched. -/
theorem arrival_not_watched : ∃ s, listening 3 booted 1 true = some s ∧
    Along processEvents LegalEvents s [[arrival true]] ∧
      ¬ Along processEvents WatchedEvents s [[arrival true]] := by
  refine ⟨_, rfl, arrival_legal rfl true, ?_⟩
  rintro ⟨⟨-, watched⟩, -⟩
  have readable := (watched 5 (by decide)).2.2 .read
  revert readable
  decide

/-! ## Clients that are stored and not watched -/

/-- Only the listening socket is registered. -/
structure Deaf (s : Program) : Prop where
  sound : Sound s
  registered : ∀ fd i, s.kernel.Registered fd i → fd = s.serverFd

/-- Between two states no client has left or lost its connection, and no byte was sent. -/
structure Neglects (s s' : Program) : Prop where
  serverFd : s'.serverFd = s.serverFd
  clients : s.clientFds <+: s'.clientFds
  owner : ∀ fd ∈ s.clientFds, s'.kernel.owner fd = s.kernel.owner fd
  sent : s'.kernel.sent = s.kernel.sent

theorem Neglects.refl (s : Program) : Neglects s s :=
  ⟨rfl, List.prefix_refl _, fun _ _ => rfl, rfl⟩

theorem Neglects.trans {s'' : Program} (h : Neglects s s') (h' : Neglects s' s'') :
    Neglects s s'' where
  serverFd := h'.serverFd.trans h.serverFd
  clients := h.clients.trans h'.clients
  owner fd member := (h'.owner fd (h.clients.subset member)).trans (h.owner fd member)
  sent := h'.sent.trans h.sent

/-- The entry in memory does not ask for a registration of another socket. -/
def OnlyListener (serverFd : Int) (entry : Kevent) : Prop :=
  ∀ fd i, entry = ⟨fd, .interest i, some .add⟩ → fd = serverFd

/-- The kernel returns events of registered descriptors. -/
def WokenEvents (s : Program) (events : List Turn) : Prop :=
  LegalEvents s events ∧ ∀ t ∈ events, (∃ i, s.kernel.Registered t.ident i) ∧
    OnlyListener s.serverFd t.behind

theorem Deaf.incoming (deaf : Deaf s) (legal : Legal s t) (incoming : t.ident = s.serverFd)
    (only : OnlyListener s.serverFd t.behind) :
    Deaf (s.processEvent t) ∧ Neglects s (s.processEvent t) := by
  have sound := deaf.sound.processEvent s t legal
  obtain failed | arrives := legal.arrives incoming
  · rw [processEvent_failed incoming failed]
    exact ⟨deaf, .refl s⟩
  · have unknown (fd : Int) (member : fd ∈ s.clientFds) : fd ≠ t.accept :=
      Kernel.ne_of_free (deaf.sound.opened fd member) arrives.free
    have registered (fd : Int) (i : Interest) (on : (s.passed t).2.Registered fd i) :
        fd = s.serverFd := by
      obtain before | same | asks := passed_registered arrives on
      · exact deaf.registered fd i before
      · exact same
      · exact only fd i asks
    have owner (fd : Int) (member : fd ∈ s.clientFds) :
        (s.passed t).2.owner fd = s.kernel.owner fd := by
      rw [passed, kevent_owner]
      exact Kernel.accept_owner arrives.valid (unknown fd member)
    have sent : (s.passed t).2.sent = s.kernel.sent := by
      rw [passed, kevent_sent, Kernel.accept_sent]
    rw [processEvent_arrives arrives] at sound ⊢
    split at sound
    · next stored =>
        rw [if_pos stored]
        exact ⟨⟨sound, registered⟩, rfl, List.prefix_append _ _, owner, sent⟩
    · next refused =>
        rw [if_neg refused]
        have releases := (s.passed t).2.close_releases t.accept t.close
        refine ⟨⟨sound, fun fd i on => registered fd i (releases.registered on)⟩, rfl,
          List.prefix_refl _, fun fd member => ?_, (Kernel.close_sent _ _ _).trans sent⟩
        exact (releases.owner_ne (unknown fd member)).trans (owner fd member)

theorem Deaf.processEvents (deaf : Deaf s) {events : List Turn} (woken : WokenEvents s events) :
    Deaf (s.processEvents events) ∧ Neglects s (s.processEvents events) := by
  have member (t : Turn) (member : t ∈ events) :
      t.ident = s.serverFd ∧ OnlyListener s.serverFd t.behind := by
    obtain ⟨⟨i, on⟩, only⟩ := woken.2 t member
    exact ⟨deaf.registered _ i on, only⟩
  refine run_invariant (I := fun s' => Deaf s' ∧ Neglects s s') ?_ ⟨deaf, .refl s⟩
    (woken.1.and_mem member)
  rintro s' t ⟨deaf', before⟩ ⟨⟨incoming, only⟩, legal⟩
  rw [← before.serverFd] at incoming only
  obtain ⟨after, neglects⟩ := deaf'.incoming legal incoming only
  exact ⟨after, before.trans neglects⟩

/-- A client that is stored and not watched stays in the vector with its connection open,
and is never answered. -/
theorem run_deaf (deaf : Deaf s) {batches : List (List Turn)}
    (woken : Along processEvents WokenEvents s batches) :
    Deaf (run processEvents s batches) ∧ Neglects s (run processEvents s batches) := by
  refine run_invariant (I := fun s' => Deaf s' ∧ Neglects s s') ?_ ⟨deaf, .refl s⟩ woken
  rintro s' events ⟨deaf', before⟩ woken
  obtain ⟨after, neglects⟩ := deaf'.processEvents woken
  exact ⟨after, before.trans neglects⟩

/-- A program that starts with an empty event queue. -/
theorem listening_deaf {serverFd : Int} {k : Kernel} {conn : Nat} {ok : Bool}
    (started : listening serverFd k conn ok = some s) (off : ∀ fd i, ¬ k.Registered fd i) :
    Deaf s := by
  refine ⟨(listening_idle started).sound, fun fd i on => ?_⟩
  have registered := @kevent_registered k [(change serverFd, ok)] fd i
  unfold listening at started
  generalize kevent k [(change serverFd, ok)] = r at registered started
  obtain ⟨_ | _, kernel⟩ := r
  · cases started
  · obtain rfl := Option.some.inj started
    obtain before | asks := registered on
    · exact absurd before (off fd i)
    · exact congrArg Kevent.ident (List.mem_singleton.mp asks)

/-- In every run that starts with an empty event queue, as long as the memory behind `change`
asks for no other descriptor: nobody is answered, and a client that is stored stays in the
vector with its connection open. -/
theorem run_neglects {serverFd : Int} {k : Kernel} {conn : Nat} {ok : Bool}
    (started : listening serverFd k conn ok = some s) (off : ∀ fd i, ¬ k.Registered fd i)
    {first later : List (List Turn)}
    (woken : Along processEvents WokenEvents s (first ++ later)) :
    Neglects (run processEvents s first) (run processEvents s (first ++ later)) := by
  obtain ⟨before, after⟩ := along_append.mp woken
  have deaf := (run_deaf (listening_deaf started off) before).1
  rw [run_append]
  exact (run_deaf deaf after).2

theorem booted_unregistered (fd : Int) (i : Interest) : ¬ booted.Registered fd i := by
  rintro ⟨d, found, on⟩
  by_cases same : fd = 3
  · subst same
    obtain rfl : { conn := 0 } = d := Option.some.inj found
    cases i <;> cases on
  · simp only [booted] at found
    rw [Function.update_of_ne same] at found
    cases found

/-- A client is stored under the number 5, and then another one under 6. -/
theorem arrivals_neglected : ∃ s, listening 3 booted 1 true = some s ∧
    Neglects (run processEvents s [[arrival true]])
      (run processEvents s ([[arrival true]] ++ [[{ arrival true with accept := 6 }]])) ∧
    (run processEvents s ([[arrival true]] ++ [[{ arrival true with accept := 6 }]])).clientFds =
      [5, 6] := by
  have started : listening 3 booted 1 true = some _ := rfl
  have listens : OnlyListener 3 (change 3) := fun fd i same => (congrArg Kevent.ident same).symm
  refine ⟨_, started, run_neglects started booted_unregistered ?_, rfl⟩
  refine ⟨⟨⟨fun _ => .inr ⟨by decide, rfl⟩, trivial⟩, ?_⟩,
    ⟨⟨fun _ => .inr ⟨by decide, rfl⟩, trivial⟩, ?_⟩, trivial⟩
  · intro t member
    obtain rfl := List.mem_singleton.mp member
    exact ⟨⟨.read, by decide⟩, listens⟩
  · intro t member
    obtain rfl := List.mem_singleton.mp member
    exact ⟨⟨.read, by decide⟩, listens⟩

end Program

end Mux.StandAlone
