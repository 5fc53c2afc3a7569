import Mathlib.Logic.Function.Basic
import Mux.Library.Text

/-!
# The kernel under a socket server

Descriptor numbers name open connections, and a number is free for reuse as
soon as it is closed. A registration with the kernel event queue belongs to the
descriptor it was made for, so closing a descriptor drops its registrations.
The outcome of a system call is an argument: a call succeeds when its outcome
says so and the descriptor allows it. `trace` lists the calls made so far.
-/

namespace Mux.Socket

/-- The two readiness filters a socket is watched for. -/
inductive Interest where
  | read
  | write
  deriving DecidableEq, Repr

/-- What `kevent` is asked to do with a registration. -/
inductive Change where
  | add
  | delete
  deriving DecidableEq, Repr

instance {P : Interest → Prop} [DecidablePred P] : Decidable (∃ i, P i) :=
  decidable_of_iff (P .read ∨ P .write) <| by
    constructor
    · rintro (read | write)
      · exact ⟨.read, read⟩
      · exact ⟨.write, write⟩
    · rintro ⟨_ | _, h⟩
      · exact .inl h
      · exact .inr h

inductive Errno where
  | EAGAIN
  | EWOULDBLOCK
  | other (code : Nat)
  deriving DecidableEq, Repr

inductive Syscall where
  | kevent (fd : Int) (filter : Interest) (change : Change)
  | recv (fd : Int)
  | send (fd : Int)
  | shutdown (fd : Int)
  | close (fd : Int)
  deriving DecidableEq, Repr

/-- An open descriptor: the connection behind it, its modes, and the filters it
is registered for. `conn` tells a connection from a later one under the same
number. -/
structure Descriptor where
  conn : Nat
  nonblocking : Bool := false
  nodelay : Bool := false
  readable : Bool := false
  writable : Bool := false
  deriving DecidableEq, Repr

namespace Descriptor

def watches (d : Descriptor) : Interest → Bool
  | .read => d.readable
  | .write => d.writable

def watch (d : Descriptor) (i : Interest) (on : Bool) : Descriptor :=
  match i with
  | .read => { d with readable := on }
  | .write => { d with writable := on }

@[simp] theorem watch_conn (d : Descriptor) (i : Interest) (on : Bool) :
    (d.watch i on).conn = d.conn := by cases i <;> rfl

end Descriptor

structure Kernel where
  opened : Int → Option Descriptor
  /-- The bytes accepted so far for each connection. -/
  sent : Nat → Str := fun _ => []
  errno : Errno := .other 0
  trace : List Syscall := []

/-- The outcome of `::recv`: bytes from the peer, none of them at end of file. -/
inductive RecvOutcome where
  | received (bytes : Str)
  | failed (errno : Errno)
  deriving DecidableEq, Repr

/-- The outcome of `::send`: how many bytes of the buffer were accepted. -/
inductive SendOutcome where
  | accepted (count : Nat)
  | failed (errno : Errno)
  deriving DecidableEq, Repr

def O_RDWR : Nat := 0x0002

def O_NONBLOCK : Nat := 0x0004

namespace Kernel

/-- The pair of a descriptor and a filter is registered with the event queue. -/
def Registered (k : Kernel) (fd : Int) (i : Interest) : Prop :=
  ∃ d, k.opened fd = some d ∧ d.watches i = true

instance (k : Kernel) (fd : Int) (i : Interest) : Decidable (k.Registered fd i) :=
  decidable_of_iff ((k.opened fd).any fun d => d.watches i) <| by
    unfold Registered
    cases k.opened fd <;> simp

/-- The connection that a descriptor number names. -/
def owner (k : Kernel) (fd : Int) : Option Nat := (k.opened fd).map Descriptor.conn

def record (k : Kernel) (call : Syscall) : Kernel := { k with trace := k.trace ++ [call] }

def setDescriptor (k : Kernel) (fd : Int) (d : Option Descriptor) : Kernel :=
  { k with opened := Function.update k.opened fd d }

/-- Change one registration of an open descriptor. Deleting a registration that
does not exist fails. -/
def kevent (k : Kernel) (fd : Int) (i : Interest) (change : Change) (ok : Bool) : Bool × Kernel :=
  match k.opened fd with
  | none => (false, k.record (.kevent fd i change))
  | some d =>
      if ok ∧ (change = .add ∨ d.watches i = true) then
        (true, (k.record (.kevent fd i change)).setDescriptor fd
          (some (d.watch i (change = .add))))
      else (false, k.record (.kevent fd i change))

def shutdown (k : Kernel) (fd : Int) (ok : Bool) : Bool × Kernel :=
  ((k.opened fd).isSome && ok, k.record (.shutdown fd))

def close (k : Kernel) (fd : Int) (ok : Bool) : Int × Kernel :=
  if (k.opened fd).isSome ∧ ok then (0, (k.record (.close fd)).setDescriptor fd none)
  else (-1, k.record (.close fd))

/-- The effect of `::accept` when it returns `fd` for the connection `conn`. -/
def accept (k : Kernel) (conn : Nat) (fd : Int) : Kernel :=
  if 0 ≤ fd then k.setDescriptor fd (some { conn }) else k

/-- `F_SETFL` on an open descriptor. -/
def setFlags (k : Kernel) (fd : Int) (flags : Nat) : Kernel :=
  k.setDescriptor fd
    ((k.opened fd).map fun d => { d with nonblocking := flags &&& O_NONBLOCK ≠ 0 })

/-- `TCP_NODELAY` on an open descriptor. -/
def setNodelay (k : Kernel) (fd : Int) : Kernel :=
  k.setDescriptor fd ((k.opened fd).map fun d => { d with nodelay := true })

/-- Receive at most `size` bytes; the second component is the filled part of
the buffer. -/
def recv (k : Kernel) (fd : Int) (size : Nat) (outcome : RecvOutcome) : Int × Str × Kernel :=
  match k.opened fd, outcome with
  | some _, .received bytes =>
      ((bytes.take size).length, bytes.take size, k.record (.recv fd))
  | some _, .failed errno => (-1, [], { k.record (.recv fd) with errno })
  | none, _ => (-1, [], { k.record (.recv fd) with errno := .other 9 })

/-- Send from the front of a buffer. The accepted bytes belong to the connection
that the descriptor names at this moment. -/
def send (k : Kernel) (fd : Int) (buff : Str) (outcome : SendOutcome) : Int × Kernel :=
  match k.opened fd, outcome with
  | some d, .accepted count =>
      ((buff.take count).length, { k.record (.send fd) with
        sent := Function.update k.sent d.conn (k.sent d.conn ++ buff.take count) })
  | some _, .failed errno => (-1, { k.record (.send fd) with errno })
  | none, _ => (-1, { k.record (.send fd) with errno := .other 9 })

/-! ## Frame conditions -/

/-- Between `k` and `k'` only the descriptor `fd` may have changed, it still
names the same connection, and nothing was closed. -/
structure Keeps (fd : Int) (k k' : Kernel) : Prop where
  elsewhere : ∀ x, x ≠ fd → k'.opened x = k.opened x
  owner : k'.owner fd = k.owner fd
  closes : ∀ x, k'.trace.count (.close x) = k.trace.count (.close x)

/-- A number is open when it names a connection. -/
theorem isSome_of_owner {fd : Int} {k k' : Kernel} (same : k'.owner fd = k.owner fd) :
    (k'.opened fd).isSome = (k.opened fd).isSome := by
  have named := congrArg Option.isSome same
  simpa [Kernel.owner] using named

namespace Keeps

variable {fd : Int} {k k' k'' : Kernel}

theorem refl (fd : Int) (k : Kernel) : Keeps fd k k := ⟨fun _ _ => rfl, rfl, fun _ => rfl⟩

theorem trans (h₁ : Keeps fd k k') (h₂ : Keeps fd k' k'') : Keeps fd k k'' where
  elsewhere x hx := (h₂.elsewhere x hx).trans (h₁.elsewhere x hx)
  owner := h₂.owner.trans h₁.owner
  closes x := (h₂.closes x).trans (h₁.closes x)

theorem isSome (h : Keeps fd k k') : (k'.opened fd).isSome = (k.opened fd).isSome :=
  isSome_of_owner h.owner

/-- Every number, `fd` included, names the connection it named before. -/
theorem owners (h : Keeps fd k k') : k'.owner = k.owner := by
  funext x
  by_cases same : x = fd
  · rw [same]
    exact h.owner
  · simp only [Kernel.owner, h.elsewhere x same]

end Keeps

@[simp] theorem record_opened (k : Kernel) (call : Syscall) : (k.record call).opened = k.opened :=
  rfl

@[simp] theorem record_sent (k : Kernel) (call : Syscall) : (k.record call).sent = k.sent := rfl

@[simp] theorem setDescriptor_opened (k : Kernel) (fd : Int) (d : Option Descriptor) :
    (k.setDescriptor fd d).opened = Function.update k.opened fd d := rfl

@[simp] theorem setDescriptor_trace (k : Kernel) (fd : Int) (d : Option Descriptor) :
    (k.setDescriptor fd d).trace = k.trace := rfl

@[simp] theorem setDescriptor_sent (k : Kernel) (fd : Int) (d : Option Descriptor) :
    (k.setDescriptor fd d).sent = k.sent := rfl

@[simp] theorem setDescriptor_setDescriptor (k : Kernel) (fd : Int) (d d' : Option Descriptor) :
    (k.setDescriptor fd d).setDescriptor fd d' = k.setDescriptor fd d' := by
  simp [setDescriptor]

theorem count_record (k : Kernel) {call : Syscall} {fd : Int} (h : call ≠ .close fd) :
    (k.record call).trace.count (.close fd) = k.trace.count (.close fd) := by
  simp [record, List.count_append, List.count_cons_of_ne h]

theorem count_record_close (k : Kernel) (fd : Int) :
    (k.record (.close fd)).trace.count (.close fd) = k.trace.count (.close fd) + 1 := by
  simp [record, List.count_append]

/-- A recorded call other than `::close` changes no descriptor. -/
theorem keeps_record (fd : Int) (k : Kernel) {call : Syscall} (h : ∀ x, call ≠ .close x) :
    Keeps fd k (k.record call) :=
  ⟨fun _ _ => rfl, rfl, fun x => count_record k (h x)⟩

/-- Replacing the entry of a descriptor by one of the same connection. -/
theorem keeps_setDescriptor {fd : Int} {k : Kernel} {d : Option Descriptor}
    (same : d.map Descriptor.conn = k.owner fd) : Keeps fd k (k.setDescriptor fd d) where
  elsewhere x hx := Function.update_of_ne hx _ _
  owner := by simpa [Kernel.owner] using same
  closes _ := rfl

theorem kevent_keeps (k : Kernel) (fd : Int) (i : Interest) (change : Change) (ok : Bool) :
    Keeps fd k (k.kevent fd i change ok).2 := by
  have recorded : Keeps fd k (k.record (.kevent fd i change)) :=
    keeps_record fd k fun _ h => by cases h
  unfold kevent
  split
  · exact recorded
  · next d found =>
      split
      · exact recorded.trans (keeps_setDescriptor (by simp [found, owner]))
      · exact recorded

theorem kevent_elsewhere {k k' : Kernel} {fd : Int} {i : Interest} {change : Change}
    {ok applied : Bool} (h : k.kevent fd i change ok = (applied, k')) {x : Int} (other : x ≠ fd) :
    k'.opened x = k.opened x := by
  have keeps := k.kevent_keeps fd i change ok
  rw [h] at keeps
  exact keeps.elsewhere x other

/-- A registration that was added is there, and a deleted one is gone. -/
theorem kevent_applied {k : Kernel} {fd : Int} {i : Interest} {change : Change} {ok : Bool}
    (h : (k.kevent fd i change ok).1 = true) :
    ok = true ∧ ∃ d, k.opened fd = some d ∧ (k.kevent fd i change ok).2.opened =
      Function.update k.opened fd (some (d.watch i (change = .add))) := by
  unfold kevent at h ⊢
  split at h
  · cases h
  · next d found =>
      split at h
      · next allowed => exact ⟨allowed.1, d, found, by simp [allowed]⟩
      · cases h

/-- What the kernel asks of a request: an open descriptor, and a registration to delete. -/
theorem kevent_applies_iff (k : Kernel) (fd : Int) (i : Interest) (change : Change) (ok : Bool) :
    (k.kevent fd i change ok).1 = true ↔
      ok = true ∧ (k.opened fd).isSome = true ∧ (change = .add ∨ k.Registered fd i) := by
  unfold kevent Registered
  cases k.opened fd with
  | none => simp
  | some d =>
      by_cases allowed : ok = true ∧ (change = .add ∨ d.watches i = true)
      · simp [allowed]
      · simp [allowed]

theorem kevent_add_open {k : Kernel} {fd : Int} {d : Descriptor} (found : k.opened fd = some d)
    (i : Interest) : k.kevent fd i .add true =
      (true, (k.record (.kevent fd i .add)).setDescriptor fd (some (d.watch i true))) := by
  simp [kevent, found]

theorem registered_kevent_add {k : Kernel} {fd : Int} {i : Interest}
    (live : (k.opened fd).isSome = true) (x : Int) (j : Interest) :
    (k.kevent fd i .add true).2.Registered x j ↔ k.Registered x j ∨ x = fd ∧ j = i := by
  obtain ⟨d, found⟩ := Option.isSome_iff_exists.mp live
  rw [kevent_add_open found]
  by_cases same : x = fd
  · subst same
    cases i <;> cases j <;> simp [Registered, found, Descriptor.watch, Descriptor.watches]
  · simp [Registered, same]

theorem kevent_refused {k : Kernel} {fd : Int} {i : Interest} {change : Change} {ok : Bool}
    (h : (k.kevent fd i change ok).1 = false) :
    (k.kevent fd i change ok).2.opened = k.opened := by
  unfold kevent at h ⊢
  split at h
  · rfl
  · next d found =>
      split at h
      · cases h
      · next refused => simp [refused]

/-- A request is decided by the descriptor that it names. -/
theorem kevent_congr {k k' : Kernel} {fd : Int} (same : k'.opened fd = k.opened fd) (i : Interest)
    (change : Change) (ok : Bool) : (k'.kevent fd i change ok).1 = (k.kevent fd i change ok).1 ∧
      (k'.kevent fd i change ok).2.opened fd = (k.kevent fd i change ok).2.opened fd := by
  unfold kevent
  rw [same]
  cases found : k.opened fd with
  | none =>
      refine ⟨rfl, ?_⟩
      show k'.opened fd = k.opened fd
      exact same
  | some d =>
      by_cases allowed : ok = true ∧ (change = .add ∨ d.watches i = true)
      · simp [allowed]
      · simp only [if_neg allowed, true_and]
        exact same

theorem kevent_sent (k : Kernel) (fd : Int) (i : Interest) (change : Change) (ok : Bool) :
    (k.kevent fd i change ok).2.sent = k.sent := by
  unfold kevent
  split
  · rfl
  · split <;> rfl

theorem recv_keeps (k : Kernel) (fd : Int) (size : Nat) (outcome : RecvOutcome) :
    Keeps fd k (k.recv fd size outcome).2.2 := by
  have recorded : Keeps fd k (k.record (.recv fd)) := keeps_record fd k fun _ h => by cases h
  unfold recv
  split <;> exact ⟨recorded.elsewhere, recorded.owner, recorded.closes⟩

theorem send_keeps (k : Kernel) (fd : Int) (buff : Str) (outcome : SendOutcome) :
    Keeps fd k (k.send fd buff outcome).2 := by
  have recorded : Keeps fd k (k.record (.send fd)) := keeps_record fd k fun _ h => by cases h
  unfold send
  split <;> exact ⟨recorded.elsewhere, recorded.owner, recorded.closes⟩

theorem recv_opened (k : Kernel) (fd : Int) (size : Nat) (outcome : RecvOutcome) :
    (k.recv fd size outcome).2.2.opened = k.opened := by
  unfold recv
  split <;> rfl

theorem send_opened (k : Kernel) (fd : Int) (buff : Str) (outcome : SendOutcome) :
    (k.send fd buff outcome).2.opened = k.opened := by
  unfold send
  split <;> rfl

theorem recv_sent (k : Kernel) (fd : Int) (size : Nat) (outcome : RecvOutcome) :
    (k.recv fd size outcome).2.2.sent = k.sent := by
  unfold recv
  split <;> rfl

/-- The bytes a `::send` adds go to one connection and are a prefix of the buffer. -/
theorem send_sent (k : Kernel) (fd : Int) (buff : Str) (outcome : SendOutcome) :
    (k.send fd buff outcome).2.sent = k.sent ∨
    ∃ conn count, outcome = .accepted count ∧ (k.send fd buff outcome).2.sent =
      Function.update k.sent conn (k.sent conn ++ buff.take count) := by
  unfold send
  split
  · next d count found => exact .inr ⟨d.conn, count, rfl, rfl⟩
  · exact .inl rfl
  · exact .inl rfl

theorem close_open {k : Kernel} {fd : Int} (live : (k.opened fd).isSome = true) :
    k.close fd true = (0, (k.record (.close fd)).setDescriptor fd none) := by
  simp [close, live]

theorem close_opened (k : Kernel) (fd : Int) (ok : Bool) :
    (k.close fd ok).2.opened = k.opened ∨
      (k.close fd ok).2.opened = Function.update k.opened fd none := by
  unfold close
  split
  · exact .inr rfl
  · exact .inl rfl

theorem close_sent (k : Kernel) (fd : Int) (ok : Bool) : (k.close fd ok).2.sent = k.sent := by
  unfold close
  split <;> rfl

/-- Between `k` and `k'` only the descriptor `fd` may have changed, and if it is
still open it names the same connection and has no further registration. -/
structure Releases (fd : Int) (k k' : Kernel) : Prop where
  elsewhere : ∀ x, x ≠ fd → k'.opened x = k.opened x
  within : ∀ d', k'.opened fd = some d' → ∃ d, k.opened fd = some d ∧ d'.conn = d.conn ∧
    ∀ i, d'.watches i = true → d.watches i = true

namespace Releases

variable {fd : Int} {k k' k'' : Kernel}

theorem of_opened (same : k'.opened = k.opened) : Releases fd k k' where
  elsewhere x _ := congrFun same x
  within d' h := ⟨d', by rw [← same, h], rfl, fun _ on => on⟩

theorem refl (fd : Int) (k : Kernel) : Releases fd k k := of_opened rfl

theorem trans (h₁ : Releases fd k k') (h₂ : Releases fd k' k'') : Releases fd k k'' where
  elsewhere x hx := (h₂.elsewhere x hx).trans (h₁.elsewhere x hx)
  within d'' h := by
    obtain ⟨d', found', conn', watches'⟩ := h₂.within d'' h
    obtain ⟨d, found, conn, watches⟩ := h₁.within d' found'
    exact ⟨d, found, conn'.trans conn, fun i on => watches i (watches' i on)⟩

/-- Closing the descriptor releases it. -/
theorem closed (same : k'.opened = Function.update k.opened fd none) : Releases fd k k' where
  elsewhere x hx := by rw [same, Function.update_of_ne hx]
  within d' h := by
    rw [same, Function.update_self] at h
    cases h

theorem owner_ne (h : Releases fd k k') {x : Int} (other : x ≠ fd) : k'.owner x = k.owner x := by
  simp only [Kernel.owner, h.elsewhere x other]

/-- A number that names a connection named it before. -/
theorem inherited (h : Releases fd k k') {x : Int} {n : Nat} (names : k'.owner x = some n) :
    k.owner x = some n := by
  by_cases same : x = fd
  · subst same
    obtain ⟨d', found, rfl⟩ := Option.map_eq_some_iff.mp names
    obtain ⟨d, before, conn, _⟩ := h.within d' found
    simp [Kernel.owner, before, conn]
  · rw [← h.owner_ne same]
    exact names

/-- No registration was added. -/
theorem registered (h : Releases fd k k') {x : Int} {i : Interest} (on : k'.Registered x i) :
    k.Registered x i := by
  obtain ⟨d', found, watched⟩ := on
  by_cases same : x = fd
  · subst same
    obtain ⟨d, before, _, watches⟩ := h.within d' found
    exact ⟨d, before, watches i watched⟩
  · exact ⟨d', by rw [← h.elsewhere x same, found], watched⟩

end Releases

theorem close_releases (k : Kernel) (fd : Int) (ok : Bool) :
    Releases fd k (k.close fd ok).2 := by
  obtain kept | closed := k.close_opened fd ok
  · exact .of_opened kept
  · exact .closed closed

theorem kevent_delete_releases (k : Kernel) (fd : Int) (i : Interest) (ok : Bool) :
    Releases fd k (k.kevent fd i .delete ok).2 := by
  have keeps := k.kevent_keeps fd i .delete ok
  cases applied : (k.kevent fd i .delete ok).1 with
  | false => exact .of_opened (kevent_refused applied)
  | true =>
      obtain ⟨-, d, found, off⟩ := kevent_applied applied
      refine ⟨keeps.elsewhere, ?_⟩
      intro d' found'
      rw [off, Function.update_self] at found'
      obtain rfl := Option.some.inj found'
      refine ⟨d, found, d.watch_conn i _, ?_⟩
      intro j on
      cases i <;> cases j <;> simp_all [Descriptor.watch, Descriptor.watches]

/-- A descriptor without registrations takes the place of another one. -/
theorem registered_setDescriptor {k : Kernel} {fd x : Int} {d : Descriptor} {i : Interest}
    (off : ∀ i, d.watches i = false) (on : (k.setDescriptor fd (some d)).Registered x i) :
    k.Registered x i := by
  obtain ⟨d', found, watched⟩ := on
  by_cases same : x = fd
  · rw [same, setDescriptor_opened, Function.update_self] at found
    obtain rfl := Option.some.inj found
    rw [off i] at watched
    cases watched
  · rw [setDescriptor_opened, Function.update_of_ne same] at found
    exact ⟨d', found, watched⟩

theorem ne_of_free {k : Kernel} {fd x : Int} (live : (k.opened x).isSome = true)
    (free : k.opened fd = none) : x ≠ fd := by
  rintro rfl
  rw [free] at live
  cases live

theorem not_registered_of_free {k : Kernel} {fd : Int} (free : k.opened fd = none)
    (i : Interest) : ¬ k.Registered fd i := by
  rintro ⟨d, found, -⟩
  rw [free] at found
  cases found

/-- A number that `::accept` returns was free, and names an open descriptor now. -/
theorem accept_isSome {k : Kernel} {conn : Nat} {fd : Int} (valid : 0 ≤ fd) (x : Int) :
    ((k.accept conn fd).opened x).isSome = true ↔ x = fd ∨ (k.opened x).isSome = true := by
  by_cases same : x = fd
  · simp [accept, valid, same]
  · simp [accept, valid, same]

theorem accept_owner {k : Kernel} {conn : Nat} {fd x : Int} (valid : 0 ≤ fd) (other : x ≠ fd) :
    (k.accept conn fd).owner x = k.owner x := by
  simp [accept, valid, owner, other]

theorem accept_sent (k : Kernel) (conn : Nat) (fd : Int) : (k.accept conn fd).sent = k.sent := by
  unfold accept
  split <;> rfl

/-- A new connection is not registered. -/
theorem accept_registered {k : Kernel} {conn : Nat} {fd : Int} (valid : 0 ≤ fd)
    (fresh : k.opened fd = none) (x : Int) (i : Interest) :
    (k.accept conn fd).Registered x i ↔ k.Registered x i := by
  simp only [accept, if_pos valid, Registered]
  by_cases same : x = fd
  · subst same
    cases i <;> simp [fresh, Descriptor.watches]
  · simp [Function.update_of_ne same]

/-- A local change can register the descriptor it is about and no other. -/
theorem Keeps.registered {fd : Int} {k k' : Kernel} (h : Keeps fd k k') {x : Int} {i : Interest}
    (on : k'.Registered x i) : x = fd ∨ k.Registered x i := by
  by_cases same : x = fd
  · exact .inl same
  · obtain ⟨d, found, watched⟩ := on
    exact .inr ⟨d, by rw [← h.elsewhere x same, found], watched⟩

end Kernel

end Mux.Socket
