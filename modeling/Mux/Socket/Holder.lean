import Mux.Socket.Consistency

/-!
# Who holds a number while a batch is worked off

A batch is a snapshot: its events were raised for the connections that held the
numbers when the kernel returned it. While it is worked off a number loses its
connection, and may be given to a new one. `follow` computes the holder of each
number from the batch alone; the server follows it.
-/

namespace Mux.Socket

open Transition

inductive Holder where
  | original
  | vacant
  | newcomer
  deriving DecidableEq, Repr

/-- Before the first event only a client in the map holds its number. -/
def Holder.ofEntry : Option ClientPtr → Holder
  | some (some _) => .original
  | _ => .vacant

/-- The holder of each number, or nothing once the program has ended. -/
abbrev Holders := Option (Int → Holder)

namespace Holders

/-- A connection that is accepted takes its number. A handler that reports a failure
costs a number its holder, and ends the program where the number stands for the
server; on a null pointer a handler ends the program unless it does nothing. -/
def follow (socket_ : Int) : Holders → Occurrence Script → Holders
  | none, _ => none
  | some holders, o =>
      if o.event.ident = socket_ then
        if o.accept.admitted then some (Function.update holders o.accept.accept .newcomer)
        else some holders
      else if holders o.event.ident = .vacant then
        if o.handler.ops = [] ∧ 0 ≤ o.handler.result then some holders else none
      else if 0 ≤ o.handler.result then some holders
      else if 0 < o.event.ident then some (Function.update holders o.event.ident .vacant)
      else none

variable {socket_ : Int} {holders : Int → Holder} {o : Occurrence Script}

theorem follow_occupied (client : o.event.ident ≠ socket_)
    (occupied : holders o.event.ident ≠ .vacant) :
    follow socket_ (some holders) o =
      if 0 ≤ o.handler.result then some holders
      else if 0 < o.event.ident then some (Function.update holders o.event.ident .vacant)
      else none := by
  simp only [follow, if_neg client, if_neg occupied]

theorem follow_vacant (client : o.event.ident ≠ socket_)
    (vacant : holders o.event.ident = .vacant) :
    follow socket_ (some holders) o =
      if o.handler.ops = [] ∧ 0 ≤ o.handler.result then some holders else none := by
  simp only [follow, if_neg client, if_pos vacant]

end Holders

namespace SocketBase

variable {w w' : SocketBase} {o : Occurrence Script} {k₀ : Kernel} {bound : Nat} {socket_ : Int}
variable {holders : Int → Holder} {t : Holders}

/-- The holders when a batch is returned. -/
def snapshot (w : SocketBase) : Holders :=
  if w.status = .running then
    some fun fd => .ofEntry (w.clientFds_.find? fd)
  else none

/-- The number `fd` of the server is held by the connection that `k₀` knows, by none,
or by one with an identity from `bound` on. -/
def Holds (k₀ : Kernel) (bound : Nat) (w : SocketBase) (fd : Int) : Holder → Prop
  | .original => ∃ c, w.clientFds_.find? fd = some (some c) ∧ k₀.owner fd = some c.id
  | .vacant => w.Vacant fd
  | .newcomer => ∃ c, w.clientFds_.find? fd = some (some c) ∧ bound ≤ c.id

theorem Holds.congr {fd : Int} {holder : Holder} (h : Holds k₀ bound w fd holder)
    (same : w'.clientFds_.find? fd = w.clientFds_.find? fd) : Holds k₀ bound w' fd holder := by
  cases holder with
  | original =>
      obtain ⟨c, entry, owner⟩ := h
      exact ⟨c, same.trans entry, owner⟩
  | vacant => exact h.imp same.trans same.trans
  | newcomer =>
      obtain ⟨c, entry, new⟩ := h
      exact ⟨c, same.trans entry, new⟩

/-- A number without a client is vacant. -/
theorem Holds.vacant_iff {fd : Int} {holder : Holder} (h : Holds k₀ bound w fd holder) :
    w.Vacant fd ↔ holder = .vacant := by
  cases holder with
  | original =>
      obtain ⟨c, entry, -⟩ := h
      exact iff_of_false (fun vacant => vacant.not_client entry) nofun
  | vacant => exact iff_of_true h rfl
  | newcomer =>
      obtain ⟨c, entry, -⟩ := h
      exact iff_of_false (fun vacant => vacant.not_client entry) nofun

/-- The server follows the holders that the batch determines while both run: each number
is held as they say, and the connections that `k₀` knows are older than `bound`. -/
structure Following (k₀ : Kernel) (bound : Nat) (socket_ : Int) (w : SocketBase)
    (holders : Int → Holder) : Prop where
  running : w.status = .running
  consistent : Consistent w
  socket : w.socket_ = socket_
  known : ∀ fd n, k₀.owner fd = some n → n < bound
  old : bound ≤ w.nextId
  held : ∀ fd, Holds k₀ bound w fd (holders fd)

/-- The server runs as long as the holders do. -/
def Follows (k₀ : Kernel) (bound : Nat) (socket_ : Int) (w : SocketBase) : Holders → Prop
  | none => w.status ≠ .running ∧ w.status ≠ .returned
  | some holders => Following k₀ bound socket_ w holders

theorem Sound.follows (h : Sound w) :
    Follows w.kernel w.nextId w.socket_ w.resume w.snapshot := by
  by_cases running : w.status = .running
  · have consistent := h.consistent running
    simp only [snapshot, if_pos running]
    refine ⟨(resume_status h.complete).trans running, consistent.resume, rfl, consistent.conns,
      Nat.le_refl _, ?_⟩
    intro fd
    rcases entry : w.clientFds_.find? fd with _ | _ | c
    · exact .inl entry
    · exact .inr entry
    · exact ⟨c, entry, (consistent.clients fd c entry).owner⟩
  · simp only [snapshot, if_neg running]
    exact ⟨by rw [resume_status h.complete]; exact running,
      by rw [resume_status h.complete]; exact h.complete⟩

/-- Only the number `fd` has changed hands. -/
theorem holds_update {fd : Int} {holder : Holder} (before : ∀ x, Holds k₀ bound w x (holders x))
    (elsewhere : ∀ x, x ≠ fd → w'.clientFds_.find? x = w.clientFds_.find? x)
    (here : Holds k₀ bound w' fd holder) :
    ∀ x, Holds k₀ bound w' x (Function.update holders fd holder x) := by
  intro x
  by_cases same : x = fd
  · rw [same, Function.update_self]
    exact here
  · rw [Function.update_of_ne same]
    exact (before x).congr (elsewhere x same)

/-- No number has changed hands; only what is stored under `fd` may be new. -/
theorem holds_same (fd : Int) (before : ∀ x, Holds k₀ bound w x (holders x))
    (elsewhere : ∀ x, x ≠ fd → w'.clientFds_.find? x = w.clientFds_.find? x)
    (here : Holds k₀ bound w' fd (holders fd)) : ∀ x, Holds k₀ bound w' x (holders x) := by
  have updated := holds_update before elsewhere here
  rw [Function.update_eq_self] at updated
  exact updated

theorem Following.accept (h : Following k₀ bound socket_ w holders)
    (listening : o.event.ident = w.socket_) (free : AcceptsFree w o) :
    Follows k₀ bound socket_ (w.acceptClient o.accept o.destroy)
      (Holders.follow socket_ (some holders) o) := by
  obtain ⟨running, consistent, socket, known, old, held⟩ := h
  have accepted := consistent.accept listening free
  have here : o.event.ident = socket_ := listening.trans socket
  obtain ⟨rejected, -⟩ | ⟨valid, unused⟩ := free listening
  · have refused : o.accept.admitted ≠ true := by
      intro admitted
      have result := (ClientSocket.accept_admitted w.nextId w.kernel admitted).1
      have number : 0 ≤ o.accept.accept := by
        simp only [AcceptCalls.admitted, AcceptCalls.configured, Bool.and_eq_true,
          decide_eq_true_eq] at admitted
        omega
      omega
    rw [acceptClient_rejected rejected] at accepted ⊢
    simp only [Holders.follow, if_pos here, if_neg refused]
    exact ⟨running, accepted, socket, known, Nat.le_succ_of_le old, fun fd => (held fd).congr rfl⟩
  · obtain ⟨admitted, -, k, -, step⟩ := acceptClient_free consistent valid unused
    rw [step] at accepted ⊢
    simp only [Holders.follow, if_pos here, if_pos admitted]
    refine ⟨running, accepted, socket, known, Nat.le_succ_of_le old, ?_⟩
    refine holds_update held (fun x other => UnorderedMap.find?_insert_ne _ _ other) ?_
    exact ⟨ClientSocket.established w.nextId o.accept.accept, UnorderedMap.find?_insert _ _ _, old⟩

/-- A client keeps its identity while a handler works on it. -/
theorem Holds.client {fd : Int} {holder : Holder} {c c' : ClientSocket}
    (h : Holds k₀ bound w fd holder) (before : w.clientFds_.find? fd = some (some c))
    (after : w'.clientFds_.find? fd = some (some c')) (same : c'.id = c.id) :
    Holds k₀ bound w' fd holder := by
  cases holder with
  | original =>
      obtain ⟨c₀, entry, owner⟩ := h
      obtain rfl := client_unique before entry
      exact ⟨c', after, by rw [same]; exact owner⟩
  | vacant => exact absurd before h.not_client
  | newcomer =>
      obtain ⟨c₀, entry, new⟩ := h
      obtain rfl := client_unique before entry
      exact ⟨c', after, by rw [same]; exact new⟩

theorem Following.works (h : Following k₀ bound socket_ w holders) (works : Works w o w')
    (free : AcceptsFree w o) :
    Follows k₀ bound socket_ w' (Holders.follow socket_ (some holders) o) := by
  have ⟨running, consistent, socket, known, old, held⟩ := h
  have sound := works.sound consistent running free
  have vacant_iff := (held o.event.ident).vacant_iff
  have occupied {c : ClientSocket} (entry : w.clientFds_.find? o.event.ident = some (some c)) :
      holders o.event.ident ≠ .vacant := by
    intro vacant
    exact (vacant_iff.mpr vacant).not_client entry
  cases works with
  | accept listening => exact h.accept listening free
  | keep i c client entry kept =>
      rw [socket] at client
      rw [Holders.follow_occupied client (occupied entry), if_pos kept]
      refine ⟨running, sound.consistent running, socket, known, old,
        holds_same o.event.ident held ?_ ?_⟩
      · intro fd other
        exact UnorderedMap.find?_insert_ne _ _ other
      · refine (held _).client entry (UnorderedMap.find?_insert _ _ _) ?_
        exact (c.performAll_local w.kernel o.handler.ops).id
  | close i c client entry refused positive =>
      rw [socket] at client
      rw [Holders.follow_occupied client (occupied entry), if_neg (not_le.mpr refused),
        if_pos positive]
      refine ⟨running, sound.consistent running, socket, known, old, holds_update held ?_ ?_⟩
      · intro fd other
        exact (UnorderedMap.find?_erase_ne _ other).trans (UnorderedMap.find?_insert_ne _ _ other)
      · exact .inl (UnorderedMap.find?_erase _ _)
  | exit i c w' client entry refused server status calls =>
      rw [socket] at client
      rw [Holders.follow_occupied client (occupied entry), if_neg (not_le.mpr refused),
        if_neg (not_lt.mpr server)]
      exact ⟨by simp [status], sound.complete⟩
  | idle i client vacant untouched kept =>
      rw [socket] at client
      rw [Holders.follow_vacant client (vacant_iff.mp vacant), if_pos ⟨untouched, kept⟩]
      refine ⟨running, sound.consistent running, socket, known, old,
        holds_same o.event.ident held ?_ ?_⟩
      · intro fd other
        exact UnorderedMap.find?_insert_ne _ _ other
      · rw [vacant_iff.mp vacant]
        exact .inr (UnorderedMap.find?_insert _ _ _)
  | crash i w' client vacant touched status calls =>
      rw [socket] at client
      rw [Holders.follow_vacant client (vacant_iff.mp vacant), if_neg (fun h => touched h.1)]
      exact ⟨by simp [status], sound.complete⟩
  | closeNull i w' client vacant untouched refused status calls =>
      rw [socket] at client
      rw [Holders.follow_vacant client (vacant_iff.mp vacant),
        if_neg (fun h => absurd h.2 (not_le.mpr refused))]
      refine ⟨?_, sound.complete⟩
      rw [status]
      split
      · nofun
      · nofun

/-- One event of a batch, for the server and for the holders. -/
theorem Follows.pollEvent (h : Follows k₀ bound socket_ w t) (ordinary : Ordinary o)
    (free : AcceptsFree w o) :
    Follows k₀ bound socket_ (w.pollEvent scripted o) (Holders.follow socket_ t o) := by
  cases t with
  | none =>
      rw [pollEvent_stopped h.1]
      exact h
  | some holders =>
      obtain ⟨valid, i, filter⟩ := ordinary
      exact Following.works h (pollEvent_works h.running valid filter) free

end SocketBase

end Mux.Socket
