import Mux.Library.Transition
import Mux.Socket.Kernel

/-!
# Registering interest with the two pollers

`setPollerReadable` and `setPollerWritable` for kqueue and for epoll. The event
queue of kqueue has one entry for each pair of a descriptor and a filter, and
`EV_ADD` updates an entry that exists. An epoll instance has one mask for each
descriptor, and `EPOLL_CTL_ADD` on a descriptor that has one fails, so that the
second direction of a socket is never added.
-/

namespace Mux.Socket

open Transition

/-! ## Pollers -/

/-- What both back ends offer: a request for one direction of a descriptor, and what is
watched. -/
structure Poller (σ : Type) where
  add : σ → Int → Interest → Bool × σ
  Watches : σ → Int → Interest → Prop

namespace Poller

variable {σ : Type} {p : Poller σ}

/-- The state after one request, granted or not. -/
def request (p : Poller σ) (s : σ) (call : Int × Interest) : σ := (p.add s call.1 call.2).2

/-- The request reports success. -/
def Granted (p : Poller σ) (s : σ) (call : Int × Interest) : Prop :=
  (p.add s call.1 call.2).1 = true

/-- Every request reports success, and exactly the requested pairs are watched besides
those that were watched before. -/
def RegistersAll (p : Poller σ) (s : σ) (calls : List (Int × Interest)) : Prop :=
  Along p.request p.Granted s calls ∧
    ∀ fd i, p.Watches (run p.request s calls) fd i ↔ p.Watches s fd i ∨ (fd, i) ∈ calls

/-- A request that reports success adds its own pair and nothing else. -/
def Exact (p : Poller σ) : Prop :=
  ∀ s call, p.Granted s call →
    ∀ fd i, p.Watches (p.request s call) fd i ↔ p.Watches s fd i ∨ (fd, i) = call

theorem registersAll_iff (exact_ : p.Exact) (s : σ) (calls : List (Int × Interest)) :
    p.RegistersAll s calls ↔ Along p.request p.Granted s calls := by
  refine ⟨fun h => h.1, fun granted => ⟨granted, ?_⟩⟩
  intro fd i
  induction calls generalizing s with
  | nil => simp
  | cons call calls ih =>
      rw [run_cons, ih _ granted.2, exact_ s call granted.1, List.mem_cons, or_assoc]

end Poller

/-! ## kqueue -/

namespace Kqueue

/-- `EV_ADD | EV_ENABLE` for one filter. A negative result of `kevent` is the only failure
the code sees. -/
def setPoller (k : Kernel) (socket_ : Int) (filter : Interest) : Bool × Kernel :=
  k.kevent socket_ filter .add true

def setPollerReadable (k : Kernel) (socket_ : Int) : Bool × Kernel := setPoller k socket_ .read

def setPollerWritable (k : Kernel) (socket_ : Int) : Bool × Kernel := setPoller k socket_ .write

def poller : Poller Kernel where
  add k fd
    | .read => setPollerReadable k fd
    | .write => setPollerWritable k fd
  Watches := Kernel.Registered

theorem poller_add (k : Kernel) (fd : Int) (i : Interest) :
    poller.add k fd i = k.kevent fd i .add true := by cases i <;> rfl

theorem granted_iff {k : Kernel} {call : Int × Interest} :
    poller.Granted k call ↔ (k.opened call.1).isSome = true := by
  rw [Poller.Granted, poller_add]
  cases found : k.opened call.1 with
  | none => simp [Kernel.kevent, found]
  | some d => simp [Kernel.kevent_add_open found]

theorem exact_poller : poller.Exact := by
  intro k call granted fd i
  obtain ⟨d, found⟩ := Option.isSome_iff_exists.mp (granted_iff.mp granted)
  have step : poller.request k call =
      (k.record (.kevent call.1 call.2 .add)).setDescriptor call.1
        (some (d.watch call.2 true)) := by
    rw [Poller.request, poller_add, Kernel.kevent_add_open found]
  rw [step]
  simp only [poller, Kernel.Registered, Kernel.setDescriptor_opened, Kernel.record_opened]
  by_cases same : fd = call.1
  · subst same
    rw [Function.update_self, found]
    obtain ⟨fd, j⟩ := call
    cases i <;> cases j <;> simp [Descriptor.watch, Descriptor.watches]
  · have other : (fd, i) ≠ call := by
      rintro rfl
      exact same rfl
    rw [Function.update_of_ne same]
    simp [other]

/-- Requests leave open descriptors open, so that every one of them is granted. -/
theorem granted {k : Kernel} {calls : List (Int × Interest)}
    (live : ∀ call ∈ calls, (k.opened call.1).isSome = true) :
    Along poller.request poller.Granted k calls := by
  induction calls generalizing k with
  | nil => trivial
  | cons call calls ih =>
      have first := granted_iff.mpr (live call List.mem_cons_self)
      refine ⟨first, ih ?_⟩
      intro other later
      have keeps := k.kevent_keeps call.1 call.2 .add true
      rw [Poller.request, poller_add]
      by_cases same : other.1 = call.1
      · rw [same, keeps.isSome]
        exact live call List.mem_cons_self
      · rw [keeps.elsewhere _ same]
        exact live other (List.mem_cons_of_mem _ later)

end Kqueue

/-! ## epoll -/

/-- The event mask of a descriptor. -/
structure EpollMask where
  epollin : Bool := false
  epollout : Bool := false
  epollet : Bool := false
  deriving DecidableEq, Repr

namespace EpollMask

def wants (m : EpollMask) : Interest → Bool
  | .read => m.epollin
  | .write => m.epollout

end EpollMask

/-- An epoll instance: at most one mask for each open descriptor. -/
structure EpollTable where
  opened : Int → Bool
  masks : Int → Option EpollMask

namespace EpollTable

/-- `EPOLL_CTL_ADD`: a descriptor that has a mask keeps it, and the call fails with
`EEXIST`. -/
def ctlAdd (t : EpollTable) (fd : Int) (event : EpollMask) : Bool × EpollTable :=
  if t.opened fd = true ∧ t.masks fd = none then
    (true, { t with masks := Function.update t.masks fd (some event) })
  else (false, t)

def Watches (t : EpollTable) (fd : Int) (i : Interest) : Prop :=
  ∃ m, t.masks fd = some m ∧ m.wants i = true

end EpollTable

namespace Epoll

def setPollerReadable (t : EpollTable) (socket_ : Int) : Bool × EpollTable :=
  t.ctlAdd socket_ { epollin := true, epollet := true }

def setPollerWritable (t : EpollTable) (socket_ : Int) : Bool × EpollTable :=
  t.ctlAdd socket_ { epollout := true, epollet := true }

def poller : Poller EpollTable where
  add t fd
    | .read => setPollerReadable t fd
    | .write => setPollerWritable t fd
  Watches := EpollTable.Watches

end Epoll

namespace EpollSocket

def setReadable (t : EpollTable) (socket_ : Int) : Bool × EpollTable :=
  t.ctlAdd socket_ { epollin := true }

def setWritable (t : EpollTable) (socket_ : Int) : Bool × EpollTable :=
  t.ctlAdd socket_ { epollout := true }

def poller : Poller EpollTable where
  add t fd
    | .read => setReadable t fd
    | .write => setWritable t fd
  Watches := EpollTable.Watches

/-- The last steps of the constructor: whether it gets past both and allocates its
events. -/
def constructorWatches (t : EpollTable) (socket_ : Int) : Bool × EpollTable :=
  let (readable, t) := setReadable t socket_
  if !readable then (false, t)
  else
    let (writable, t) := setWritable t socket_
    if !writable then (false, t) else (true, t)

end EpollSocket

/-- The two ways in which the repository fills an epoll instance differ only in the
trigger of the mask. -/
structure AddsMask (p : Poller EpollTable) : Prop where
  add : ∀ t fd i, ∃ m : EpollMask, (∀ j, m.wants j = true ↔ j = i) ∧ p.add t fd i = t.ctlAdd fd m
  watches : p.Watches = EpollTable.Watches

theorem Epoll.poller_addsMask : AddsMask Epoll.poller where
  add t fd i := by
    cases i with
    | read => exact ⟨_, fun j => by cases j <;> simp [EpollMask.wants], rfl⟩
    | write => exact ⟨_, fun j => by cases j <;> simp [EpollMask.wants], rfl⟩
  watches := rfl

theorem EpollSocket.poller_addsMask : AddsMask EpollSocket.poller where
  add t fd i := by
    cases i with
    | read => exact ⟨_, fun j => by cases j <;> simp [EpollMask.wants], rfl⟩
    | write => exact ⟨_, fun j => by cases j <;> simp [EpollMask.wants], rfl⟩
  watches := rfl

namespace AddsMask

variable {p : Poller EpollTable} {t : EpollTable}

theorem granted_iff (h : AddsMask p) {call : Int × Interest} :
    p.Granted t call ↔ t.opened call.1 = true ∧ t.masks call.1 = none := by
  obtain ⟨m, -, add⟩ := h.add t call.1 call.2
  rw [Poller.Granted, add, EpollTable.ctlAdd]
  split
  · next free => exact iff_of_true rfl free
  · next taken => exact iff_of_false (by simp) taken

theorem request_granted (h : AddsMask p) {call : Int × Interest} (granted : p.Granted t call) :
    ∃ m : EpollMask, (∀ j, m.wants j = true ↔ j = call.2) ∧
      p.request t call = { t with masks := Function.update t.masks call.1 (some m) } := by
  obtain ⟨m, wants, add⟩ := h.add t call.1 call.2
  refine ⟨m, wants, ?_⟩
  rw [Poller.request, add, EpollTable.ctlAdd, if_pos (h.granted_iff.mp granted)]

theorem exact_poller (h : AddsMask p) : p.Exact := by
  intro t call granted fd i
  obtain ⟨m, wants, step⟩ := h.request_granted granted
  have free := (h.granted_iff.mp granted).2
  rw [step, h.watches]
  simp only [EpollTable.Watches]
  by_cases same : fd = call.1
  · subst same
    rw [Function.update_self, free]
    simp only [Option.some.injEq, exists_eq_left', wants, reduceCtorEq, false_and, exists_false,
      false_or]
    exact ⟨fun dir => Prod.ext rfl dir, fun pair => congrArg Prod.snd pair⟩
  · have other : (fd, i) ≠ call := by
      rintro rfl
      exact same rfl
    rw [Function.update_of_ne same]
    simp [other]

/-- Every request is granted exactly when no descriptor is named twice. -/
theorem granted_iff_nodup (h : AddsMask p) {calls : List (Int × Interest)}
    (live : ∀ call ∈ calls, t.opened call.1 = true) :
    Along p.request p.Granted t calls ↔
      (calls.map Prod.fst).Nodup ∧ ∀ call ∈ calls, t.masks call.1 = none := by
  induction calls generalizing t with
  | nil => simp
  | cons call calls ih =>
      have opened := live call List.mem_cons_self
      have live (masks : Int → Option EpollMask) :
          ∀ other ∈ calls, ({ t with masks } : EpollTable).opened other.1 = true :=
        fun other later => live other (List.mem_cons_of_mem _ later)
      rw [along_cons, List.map_cons, List.nodup_cons, List.forall_mem_cons]
      constructor
      · rintro ⟨granted, rest⟩
        obtain ⟨m, -, step⟩ := h.request_granted granted
        rw [step] at rest
        obtain ⟨nodup, free⟩ := (ih (live _)).mp rest
        have apart (other : Int × Interest) (later : other ∈ calls) : other.1 ≠ call.1 := by
          intro same
          have none := free other later
          simp only [same, Function.update_self] at none
          cases none
        refine ⟨⟨?_, nodup⟩, (h.granted_iff.mp granted).2, ?_⟩
        · intro member
          obtain ⟨other, later, same⟩ := List.mem_map.mp member
          exact apart other later same
        · intro other later
          have none := free other later
          simp only [Function.update_of_ne (apart other later)] at none
          exact none
      · rintro ⟨⟨new, nodup⟩, free, others⟩
        have granted := h.granted_iff.mpr ⟨opened, free⟩
        obtain ⟨m, -, step⟩ := h.request_granted granted
        refine ⟨granted, ?_⟩
        rw [step]
        refine (ih (live _)).mpr ⟨nodup, ?_⟩
        intro other later
        have apart : other.1 ≠ call.1 := by
          intro same
          exact new (List.mem_map.mpr ⟨other, later, same⟩)
        simp only [Function.update_of_ne apart]
        exact others other later

end AddsMask

/-! ## The two back ends side by side -/

/-- The descriptors of the requests are open and unwatched under both kernels. -/
structure Unwatched (k : Kernel) (t : EpollTable) (calls : List (Int × Interest)) : Prop where
  opened : ∀ call ∈ calls, (k.opened call.1).isSome = true
  unregistered : ∀ call ∈ calls, ∀ i, ¬ k.Registered call.1 i
  openedEpoll : ∀ call ∈ calls, t.opened call.1 = true
  unmasked : ∀ call ∈ calls, t.masks call.1 = none

/-- Registering interest works on both back ends, with the helpers and with the members of
`EpollSocket`. -/
def BackendsAgree (k : Kernel) (t : EpollTable) (calls : List (Int × Interest)) : Prop :=
  Kqueue.poller.RegistersAll k calls ∧ Epoll.poller.RegistersAll t calls ∧
    EpollSocket.poller.RegistersAll t calls

/-- Any sequence of requests works under kqueue; under epoll it works exactly when no
descriptor is named by two of them. -/
theorem backendsAgree_iff {k : Kernel} {t : EpollTable} {calls : List (Int × Interest)}
    (start : Unwatched k t calls) : BackendsAgree k t calls ↔ (calls.map Prod.fst).Nodup := by
  have epoll {p : Poller EpollTable} (h : AddsMask p) :
      p.RegistersAll t calls ↔ (calls.map Prod.fst).Nodup := by
    rw [Poller.registersAll_iff h.exact_poller, h.granted_iff_nodup start.openedEpoll]
    exact and_iff_left start.unmasked
  have kqueue : Kqueue.poller.RegistersAll k calls :=
    (Poller.registersAll_iff Kqueue.exact_poller k calls).mpr (Kqueue.granted start.opened)
  rw [BackendsAgree, epoll Epoll.poller_addsMask, epoll EpollSocket.poller_addsMask, and_self]
  exact and_iff_right kqueue

/-- The constructor of `EpollSocket` never gets past the second step. -/
theorem EpollSocket.constructorWatches_fails (t : EpollTable) (socket_ : Int) :
    (EpollSocket.constructorWatches t socket_).1 = false := by
  by_cases free : t.opened socket_ = true ∧ t.masks socket_ = none
  · simp [constructorWatches, setReadable, setWritable, EpollTable.ctlAdd, free]
  · simp [constructorWatches, setReadable, EpollTable.ctlAdd, free]

/-- A socket under 3 that is made readable and then writable. -/
def bothWays : List (Int × Interest) := [(3, .read), (3, .write)]

def freshKernel : Kernel := { opened := fun fd => if fd < 8 then some { conn := 0 } else none }

def freshTable : EpollTable where
  opened fd := fd < 8
  masks _ := none

theorem unwatched_fresh {calls : List (Int × Interest)} (low : ∀ call ∈ calls, call.1 < 8) :
    Unwatched freshKernel freshTable calls where
  opened call member := by simp [freshKernel, low call member]
  unregistered call member i := by
    rintro ⟨d, found, on⟩
    simp only [freshKernel, if_pos (low call member)] at found
    obtain rfl := Option.some.inj found
    cases i <;> cases on
  openedEpoll call member := by simp [freshTable, low call member]
  unmasked _ _ := rfl

theorem backendsAgree_twoSockets :
    BackendsAgree freshKernel freshTable [(3, .read), (4, .write)] :=
  (backendsAgree_iff (unwatched_fresh (by decide))).mpr (by decide)

theorem bothWays_not_agree :
    Unwatched freshKernel freshTable bothWays ∧
      ¬ BackendsAgree freshKernel freshTable bothWays := by
  refine ⟨unwatched_fresh (by decide), ?_⟩
  rintro ⟨-, ⟨⟨-, granted, -⟩, -⟩, -⟩
  exact absurd granted (by simp [Poller.Granted, Poller.request, Epoll.poller,
    Epoll.setPollerReadable, Epoll.setPollerWritable, EpollTable.ctlAdd, freshTable])

end Mux.Socket
