import Mux.Socket.AcceptOutcomes
import Mux.Socket.Lifecycle

/-!
# The flags of a client and the registrations of its descriptor

Between `accept` and `close` each flag of a client says whether the pair it
stands for is registered with the event queue: an operation changes both of
them, or neither when `kevent` fails. So a flag answers a question to the kernel
without a call, and no call is made for nothing. Other objects and the rest of
the program may do anything between two operations but change the registrations
of this descriptor.
-/

namespace Mux.Socket

open Transition

namespace ClientSocket

/-- Each flag is set exactly when its pair is registered. -/
def Mirrors (c : ClientSocket) (k : Kernel) : Prop :=
  ∀ i, c.interest i = true ↔ k.Registered c.clientFd_ i

/-- The calls about the descriptor `fd` that its registrations allow. -/
def Allows (fd : Int) (k : Kernel) : Syscall → Prop
  | .kevent x i .add => x = fd ∧ ¬ k.Registered fd i
  | .kevent x i .delete => x = fd ∧ k.Registered fd i
  | .recv x => x = fd ∧ k.Registered fd .read
  | .send x => x = fd ∧ k.Registered fd .write
  | .shutdown x => x = fd
  | .close x => x = fd

/-- What happens to an accepted client and the kernel: a member call, or anything else
that brings the kernel into another state. -/
inductive Happening where
  | perform (op : Operation)
  | elsewhere (k : Kernel)

def happen (s : ClientSocket × Kernel) : Happening → ClientSocket × Kernel
  | .perform op => ((s.1.perform s.2 op).client, (s.1.perform s.2 op).kernel)
  | .elsewhere k => (s.1, k)

/-- Nothing but the member calls changes the registrations of the descriptor. -/
def Undisturbed (s : ClientSocket × Kernel) : Happening → Prop
  | .perform _ => True
  | .elsewhere k => ∀ i, k.Registered s.1.clientFd_ i ↔ s.2.Registered s.1.clientFd_ i

/-- The calls of a happening that is a member call are allowed when they are made. -/
def CallsAllowed (s : ClientSocket × Kernel) : Happening → Prop
  | .perform op => s.2.MakesOnly (Allows s.1.clientFd_) (s.1.perform s.2 op).kernel
  | .elsewhere _ => True

/-- The `kevent` calls that `close` makes succeed. -/
def DeletesSucceed (c : ClientSocket) (calls : CloseCalls) : Prop :=
  (c.isReader_ = true → calls.deleteReader = true) ∧
    (c.isWriter_ = true → calls.deleteWriter = true)

/-- Closing makes allowed calls only, and no registration is left when its `kevent` calls
succeed. -/
def ClosesRegistrations (s : ClientSocket × Kernel) (calls : CloseCalls) : Prop :=
  s.2.MakesOnly (Allows s.1.clientFd_) (s.1.close s.2 calls).kernel ∧
    (s.1.DeletesSucceed calls → ∀ i, ¬ (s.1.close s.2 calls).kernel.Registered s.1.clientFd_ i)

variable {c : ClientSocket} {k : Kernel}

@[simp] theorem withInterest_interest (c : ClientSocket) (i j : Interest) (on : Bool) :
    (c.withInterest i on).interest j = if j = i then on else c.interest j := by
  cases i <;> cases j <;> rfl

/-! ## One operation -/

/-- A change of one registration that the flag calls for is allowed. -/
theorem Mirrors.allows (h : Mirrors c k) {i : Interest} {change : Change}
    (flag : c.interest i ≠ decide (change = .add)) :
    Allows c.clientFd_ k (.kevent c.clientFd_ i change) := by
  cases change with
  | add => exact ⟨rfl, fun on => flag ((h i).mpr on)⟩
  | delete =>
      refine ⟨rfl, (h i).mp ?_⟩
      simpa using flag

theorem Mirrors.applied (h : Mirrors c k) {i : Interest} {change : Change} {ok : Bool}
    (applied : (k.kevent c.clientFd_ i change ok).1 = true) :
    Mirrors (c.withInterest i (change = .add)) (k.kevent c.clientFd_ i change ok).2 := by
  obtain ⟨-, d, found, opened⟩ := Kernel.kevent_applied applied
  intro j
  have before : k.Registered c.clientFd_ j ↔ d.watches j = true := by
    simp [Kernel.Registered, found]
  have after : (k.kevent c.clientFd_ i change ok).2.Registered c.clientFd_ j ↔
      (d.watch i (change = .add)).watches j = true := by
    simp [Kernel.Registered, opened]
  rw [withInterest_interest, withInterest_clientFd, after]
  by_cases same : j = i
  · subst same
    rw [if_pos rfl]
    cases j <;> rfl
  · rw [if_neg same, h j, before]
    cases i <;> cases j <;> first | rfl | exact absurd rfl same

theorem Changes.mirrors {i : Interest} {change : Change} {ok : Bool} {r : Returned}
    (changes : Changes c k i change ok r) (h : Mirrors c k) :
    Mirrors r.client r.kernel ∧ k.MakesOnly (Allows c.clientFd_) r.kernel := by
  have made := Kernel.Makes.kevent k c.clientFd_ i change ok
  cases changes with
  | same flag => exact ⟨h, .refl k⟩
  | refused k' flag call =>
      have opened := Kernel.kevent_refused (congrArg Prod.fst call)
      rw [call] at opened made
      refine ⟨?_, .one made (h.allows flag)⟩
      intro j
      rw [h j, Kernel.Registered, Kernel.Registered, opened]
  | applied k' flag call =>
      have applied := h.applied (congrArg Prod.fst call)
      rw [call] at applied made
      exact ⟨applied, .one made (h.allows flag)⟩

theorem Mirrors.read (h : Mirrors c k) (size : Nat) (calls : ReadCalls) :
    Mirrors (c.read k size calls).1.client (c.read k size calls).1.kernel ∧
      k.MakesOnly (Allows c.clientFd_) (c.read k size calls).1.kernel := by
  obtain ⟨-, refused⟩ | ⟨-, reader, received⟩ := c.read_cases k size calls
  · rw [refused]
    exact ⟨h, .refl k⟩
  · rw [received]
    refine ⟨?_, .one (.recv k c.clientFd_ size calls.recv) ⟨rfl, (h .read).mp reader⟩⟩
    intro i
    rw [h i, Kernel.Registered, Kernel.Registered, Kernel.recv_opened]

theorem Mirrors.write (h : Mirrors c k) (buff : Str) (calls : WriteCalls) :
    Mirrors (c.write k buff calls).client (c.write k buff calls).kernel ∧
      k.MakesOnly (Allows c.clientFd_) (c.write k buff calls).kernel := by
  obtain ⟨-, refused⟩ | ⟨-, writer, sent⟩ := c.write_cases k buff calls
  · rw [refused]
    exact ⟨h, .refl k⟩
  · rw [sent]
    refine ⟨?_, .one (.send k c.clientFd_ buff calls.send) ⟨rfl, (h .write).mp writer⟩⟩
    intro i
    rw [h i, Kernel.Registered, Kernel.Registered, Kernel.send_opened]

theorem Mirrors.perform (h : Mirrors c k) (op : Operation) :
    Mirrors (c.perform k op).client (c.perform k op).kernel ∧
      k.MakesOnly (Allows c.clientFd_) (c.perform k op).kernel := by
  cases op with
  | read size calls => exact h.read size calls
  | write buff calls => exact h.write buff calls
  | setReader ok => exact (c.setInterest_changes k .read ok).mirrors h
  | setWriter ok => exact (c.setInterest_changes k .write ok).mirrors h
  | removeReader ok => exact (c.removeInterest_changes k .read ok).mirrors h
  | removeWriter ok => exact (c.removeInterest_changes k .write ok).mirrors h

/-! ## Closing -/

/-- A registration that is deleted with success is gone, and so is its flag. -/
theorem removeInterest_removed (h : Mirrors c k) (i : Interest) {ok : Bool}
    (succeeds : c.interest i = true → ok = true) :
    (c.removeInterest k i ok).result = 1 ∧
      (c.removeInterest k i ok).client = c.withInterest i false := by
  have changes := c.removeInterest_changes k i ok
  generalize c.removeInterest k i ok = r at changes ⊢
  cases changes with
  | same flag =>
      refine ⟨rfl, ?_⟩
      have off : c.interest i = false := by simpa using flag
      cases i <;> simp only [interest] at off <;> simp only [withInterest, ← off]
  | refused k' flag call =>
      have on : c.interest i = true := by simpa using flag
      obtain ⟨d, found, watched⟩ := (h i).mp on
      rw [succeeds on] at call
      simp [Kernel.kevent, found, watched] at call
  | applied k' flag call => exact ⟨rfl, rfl⟩

theorem Mirrors.deregister (h : Mirrors c k) (calls : CloseCalls) :
    Mirrors (c.deregister k calls).1 (c.deregister k calls).2 ∧
      k.MakesOnly (Allows c.clientFd_) (c.deregister k calls).2 := by
  obtain ⟨reader, made⟩ := (c.removeInterest_changes k .read calls.deleteReader).mirrors h
  have fd := (c.removeInterest_local k .read calls.deleteReader).fd
  obtain ⟨writer, made'⟩ := ((c.removeReader k calls.deleteReader).client.removeInterest_changes
    (c.removeReader k calls.deleteReader).kernel .write calls.deleteWriter).mirrors reader
  unfold ClientSocket.deregister
  dsimp only
  split
  · exact ⟨reader, made⟩
  · rw [removeReader, fd] at made'
    exact ⟨writer, made.trans made'⟩

theorem deregister_removed (h : Mirrors c k) {calls : CloseCalls}
    (succeeds : c.DeletesSucceed calls) (i : Interest) :
    (c.deregister k calls).1.interest i = false := by
  obtain ⟨result, client⟩ := removeInterest_removed h .read succeeds.1
  have mirrors := ((c.removeInterest_changes k .read calls.deleteReader).mirrors h).1
  have deletes : (c.removeInterest k .read calls.deleteReader).client.interest .write = true →
      calls.deleteWriter = true := by
    rw [client, withInterest_interest]
    exact succeeds.2
  have writer := removeInterest_removed mirrors .write deletes
  have passed : ¬ (c.removeReader k calls.deleteReader).result < 0 := by
    rw [removeReader, result]
    decide
  simp only [deregister, if_neg passed]
  rw [removeReader, removeWriter, writer.2, client]
  cases i <;> rfl

theorem safetyClose_makesOnly (k : Kernel) (fd : Int) (calls : SafetyCloseCalls) :
    k.MakesOnly (Allows fd) (safetyClose k fd calls).2 := by
  have shut : k.MakesOnly (Allows fd) (k.record (.shutdown fd)) :=
    .one (.shutdown k fd calls.shutdown) rfl
  obtain refused | passed := safetyClose_cases k fd calls
  · rw [refused]
    exact shut
  · rw [passed]
    exact shut.trans (.one (.close _ fd calls.close) rfl)

theorem Mirrors.closes (h : Mirrors c k) (connected : c.isConnected_ = true)
    (valid : 0 ≤ c.clientFd_) (calls : CloseCalls) : ClosesRegistrations (c, k) calls := by
  obtain ⟨mirrors, made⟩ := h.deregister calls
  have fd := (c.deregister_local k calls).fd
  rw [ClosesRegistrations, close_connected connected valid]
  refine ⟨made.trans (safetyClose_makesOnly _ _ _), ?_⟩
  intro succeeds i on
  have before := (safetyClose_releases _ _ _).registered on
  rw [← fd] at before
  have flag := (mirrors i).mpr before
  rw [deregister_removed h succeeds i] at flag
  cases flag

/-! ## From `accept` on -/

/-- A client between `accept` and `close`. -/
structure Watched (s : ClientSocket × Kernel) : Prop where
  isConnected : s.1.isConnected_ = true
  valid : 0 ≤ s.1.clientFd_
  mirrors : Mirrors s.1 s.2

theorem Watched.happen {s : ClientSocket × Kernel} {h : Happening} (watched : Watched s)
    (undisturbed : Undisturbed s h) : Watched (happen s h) := by
  cases h with
  | perform op =>
      have frame := s.1.perform_local s.2 op
      exact ⟨frame.connected.trans watched.isConnected, frame.fd.symm ▸ watched.valid,
        (watched.mirrors.perform op).1⟩
  | elsewhere k =>
      exact ⟨watched.isConnected, watched.valid,
        fun i => (watched.mirrors i).trans (undisturbed i).symm⟩

theorem Watched.callsAllowed {s : ClientSocket × Kernel} {h : Happening} (watched : Watched s) :
    CallsAllowed s h := by
  cases h with
  | perform op => exact (watched.mirrors.perform op).2
  | elsewhere k => trivial

/-- Both pairs are registered when `accept` returns a descriptor. -/
theorem acceptedBy_watched {id : Nat} {k : Kernel} {calls : AcceptCalls}
    (returned : ((new id).accept k calls).result ≠ -1) : Watched (acceptedBy id k calls) := by
  rcases handed : defaultAcception k id calls with ⟨n, k₁⟩
  obtain ⟨-, -, number, client, d, -, opened⟩ := accept_returned handed returned
  have established : (acceptedBy id k calls).1 = established id n := client
  have valid : 0 ≤ n := number ▸ accept_valid returned
  refine ⟨by rw [established]; rfl, by rw [established]; exact valid, fun i => ?_⟩
  rw [established]
  have on : (acceptedBy id k calls).2.Registered n i :=
    ⟨_, by rw [acceptedBy, opened, Function.update_self], by cases i <;> rfl⟩
  exact iff_of_true (by cases i <;> rfl) on

/-- The two registrations of `accept` itself are those of a descriptor without any. -/
theorem accept_makesOnly {id : Nat} {k : Kernel} {calls : AcceptCalls} (valid : 0 ≤ calls.accept)
    (returned : ((new id).accept k calls).result = calls.accept) :
    (defaultAcception k id calls).2.MakesOnly (Allows calls.accept)
      ((new id).accept k calls).kernel := by
  obtain failed | admitted | zero := accept_split id k calls
  · omega
  · simp only [AcceptCalls.admitted, Bool.and_eq_true] at admitted
    obtain ⟨⟨configured, -⟩, -⟩ := admitted
    have handed := (defaultAcception_acception k id calls).of_configured configured
    have admission := accept_admission handed
    generalize (new id).accept k calls = r at admission returned ⊢
    rw [handed]
    cases admission with
    | nothing none => omega
    | noReader => simp only at returned; omega
    | noWriter => simp only at returned; omega
    | admitted k₂ k₃ _ reader writer =>
        have unwatched : ∀ i, ¬ (k.setDescriptor calls.accept (some (accepted id))).Registered
            calls.accept i := by
          rintro i ⟨d, found, watched⟩
          rw [Kernel.setDescriptor_opened, Function.update_self] at found
          obtain rfl := Option.some.inj found
          cases i <;> cases watched
        have mirrors : Mirrors { new id with clientFd_ := calls.accept }
            (k.setDescriptor calls.accept (some (accepted id))) :=
          fun i => iff_of_false (by cases i <;> exact Bool.false_ne_true) (unwatched i)
        have once := mirrors.applied (congrArg Prod.fst reader)
        have first := Kernel.Makes.kevent (k.setDescriptor calls.accept (some (accepted id)))
          calls.accept .read .add calls.addReader
        have second := Kernel.Makes.kevent k₂ calls.accept .write .add calls.addWriter
        rw [reader] at once first
        rw [writer] at second
        refine (Kernel.MakesOnly.one first ⟨rfl, unwatched .read⟩).trans (.one second ⟨rfl, ?_⟩)
        intro on
        have flag := (once .write).mpr on
        cases flag
  · have number := accept_handsOutZero id zero
    exact absurd (returned.symm.trans number) zero.2.1

/-- From a successful `accept` to `close`, in every sequence of operations and whatever the
calls return, the flags mirror the registrations, every call is one that the
registrations allow, and `close` leaves none of them. -/
theorem mirrored {id : Nat} {k : Kernel} {calls : AcceptCalls} {events : List Happening}
    (returned : ((new id).accept k calls).result ≠ -1)
    (undisturbed : Along happen Undisturbed (acceptedBy id k calls) events) :
    Throughout happen (fun s => Mirrors s.1 s.2) (acceptedBy id k calls) events ∧
      Along happen CallsAllowed (acceptedBy id k calls) events ∧
      (∀ closing, ClosesRegistrations (run happen (acceptedBy id k calls) events) closing) ∧
      (((new id).accept k calls).result = calls.accept →
        (defaultAcception k id calls).2.MakesOnly (Allows calls.accept)
          ((new id).accept k calls).kernel) := by
  have start := acceptedBy_watched returned
  have step : ∀ s h, Watched s → Undisturbed s h → Watched (happen s h) :=
    fun _ _ watched undisturbed => watched.happen undisturbed
  refine ⟨.of_invariant step (fun _ watched => watched.mirrors) start undisturbed,
    .of_invariant step (fun _ _ watched _ => watched.callsAllowed) start undisturbed, ?_, ?_⟩
  · intro closing
    have watched := run_invariant step start undisturbed
    exact watched.mirrors.closes watched.isConnected watched.valid closing
  · intro same
    by_cases valid : 0 ≤ calls.accept
    · exact accept_makesOnly valid same
    · rw [accept_refused id k (Int.not_le.mp valid)] at returned
      exact absurd rfl returned

/-- The writer is removed at the second attempt, and set again. -/
theorem mirrored_rewritten : Throughout happen (fun s => Mirrors s.1 s.2)
    (acceptedBy 0 { opened := fun _ => none } (.succeeds 7))
    [.perform (.removeWriter false), .perform (.removeWriter true),
      .perform (.setWriter true)] := by
  have undisturbed : Along happen Undisturbed
      (acceptedBy 0 { opened := fun _ => none } (.succeeds 7))
      [.perform (.removeWriter false), .perform (.removeWriter true),
        .perform (.setWriter true)] := ⟨trivial, trivial, trivial, trivial⟩
  exact (mirrored (by decide) undisturbed).1

end ClientSocket

end Mux.Socket
