import Mux.Library.Transition
import Mux.Socket.Acceptance

/-!
# The life of a client socket

After a successful `accept` the server reads, writes, changes registrations and
closes, in any order and any number of times, and at last destroys the object.
The first `close` decides everything: it disconnects the object whether or not
it closed the descriptor, and no later call tries again.
-/

namespace Mux.Socket

open Transition

namespace ClientSocket

/-- A member call on an accepted client. -/
inductive Step where
  | perform (op : Operation)
  | close (calls : CloseCalls)
  deriving DecidableEq, Repr

/-- The kernel promises of a call that `::close` itself does not fail. -/
def Step.ClosePromised : Step → Prop
  | .perform _ => True
  | .close calls => calls.safetyClose.close = true

def step (s : ClientSocket × Kernel) : Step → ClientSocket × Kernel
  | .perform op => ((s.1.perform s.2 op).client, (s.1.perform s.2 op).kernel)
  | .close calls => ((s.1.close s.2 calls).client, (s.1.close s.2 calls).kernel)

/-- The kernel after all calls and the destructor. -/
def life (s : ClientSocket × Kernel) (steps : List Step) (last : CloseCalls) : Kernel :=
  (run step s steps).1.destroy (run step s steps).2 last

/-- From `s` to the end of the object's life its descriptor is closed exactly once,
and no registration for it is left. -/
def ClosesOnce (s : ClientSocket × Kernel) (steps : List Step) (last : CloseCalls) : Prop :=
  (life s steps last).trace.count (.close s.1.clientFd_) =
      s.2.trace.count (.close s.1.clientFd_) + 1 ∧
    ∀ i, ¬ (life s steps last).Registered s.1.clientFd_ i

/-- The outcomes of the first call of `close`, which is the destructor's when the
server makes none. -/
def firstClose : List Step → CloseCalls → CloseCalls
  | [], last => last
  | .perform _ :: steps, last => firstClose steps last
  | .close calls :: _, _ => calls

/-- The object has the number `fd`; whether it is connected, whether the number is
open, and how often it was closed so far. -/
structure Standing (fd : Int) (connected live : Bool) (closes : Nat) (s : ClientSocket × Kernel) :
    Prop where
  clientFd : s.1.clientFd_ = fd
  isConnected : s.1.isConnected_ = connected
  isOpen : (s.2.opened fd).isSome = live
  count : s.2.trace.count (.close fd) = closes

namespace Standing

variable {fd : Int} {connected live : Bool} {closes : Nat} {s : ClientSocket × Kernel}

theorem perform (h : Standing fd connected live closes s) (op : Operation) :
    Standing fd connected live closes (step s (.perform op)) := by
  have frame := s.1.perform_local s.2 op
  have keeps := frame.keeps
  rw [h.clientFd] at keeps
  exact ⟨frame.fd.trans h.clientFd, frame.connected.trans h.isConnected,
    keeps.isSome.trans h.isOpen, (keeps.closes fd).trans h.count⟩

/-- A disconnected object is never closed again. -/
theorem disconnected (h : Standing fd false live closes s) (steps : List Step) :
    Standing fd false live closes (run step s steps) := by
  refine run_preserves (I := Standing fd false live closes) ?_ h
  intro s one _ h
  cases one with
  | perform op => exact h.perform op
  | close calls =>
      obtain ⟨-, returned⟩ | ⟨connected, -⟩ := s.1.close_cases s.2 calls
      · simp only [step, returned]
        exact h
      · rw [h.isConnected] at connected
        cases connected

theorem close (h : Standing fd true true closes s) (valid : 0 ≤ fd) {calls : CloseCalls}
    (promised : calls.safetyClose.close = true) :
    Standing fd false (!calls.safetyClose.shutdown)
      (closes + calls.safetyClose.shutdown.toNat) (step s (.close calls)) := by
  have valid' : 0 ≤ s.1.clientFd_ := by rw [h.clientFd]; exact valid
  have live : (s.2.opened s.1.clientFd_).isSome = true := by rw [h.clientFd]; exact h.isOpen
  have clientFd : (s.1.close s.2 calls).client.clientFd_ = fd :=
    (s.1.close_clientFd s.2 calls).trans h.clientFd
  cases shutdown : calls.safetyClose.shutdown with
  | false =>
      obtain ⟨-, disconnected, keeps⟩ := close_refused h.isConnected valid' shutdown
      rw [h.clientFd] at keeps
      exact ⟨clientFd, disconnected, keeps.isSome.trans h.isOpen, (keeps.closes fd).trans h.count⟩
  | true =>
      obtain ⟨-, disconnected, closed, count⟩ :=
        close_closed h.isConnected valid' live shutdown promised
      rw [h.clientFd] at closed count
      exact ⟨clientFd, disconnected, by simp only [step, closed]; rfl,
        count.trans (congrArg (· + 1) h.count)⟩

end Standing

/-- What the destructor leaves of a connected object and its calls. -/
theorem life_standing {fd : Int} {closes : Nat} {s : ClientSocket × Kernel}
    (h : Standing fd true true closes s) (valid : 0 ≤ fd) {steps : List Step} {last : CloseCalls}
    (promised : ∀ one ∈ steps, one.ClosePromised) (promisedLast : last.safetyClose.close = true) :
    ((life s steps last).opened fd).isSome = !(firstClose steps last).safetyClose.shutdown ∧
    (life s steps last).trace.count (.close fd) =
      closes + (firstClose steps last).safetyClose.shutdown.toNat := by
  induction steps generalizing s with
  | nil =>
      have closed := h.close valid promisedLast
      have destroyed : life s [] last = (step s (.close last)).2 := by
        simp [life, destroy, step, h.isConnected]
      rw [destroyed]
      exact ⟨closed.isOpen, closed.count⟩
  | cons one steps ih =>
      cases one with
      | perform op =>
          exact ih (h.perform op) fun one member => promised one (List.mem_cons_of_mem _ member)
      | close calls =>
          have rest := (h.close valid (promised _ List.mem_cons_self)).disconnected steps
          have destroyed : life s (.close calls :: steps) last =
              (run step (step s (.close calls)) steps).2 :=
            destroy_disconnected _ last rest.isConnected
          rw [destroyed]
          exact ⟨rest.isOpen, rest.count⟩

/-- The object and the kernel when `accept` has returned. -/
def acceptedBy (id : Nat) (k : Kernel) (calls : AcceptCalls) : ClientSocket × Kernel :=
  (((new id).accept k calls).client, ((new id).accept k calls).kernel)

/-- The object is connected and its number is open when `accept` returns it. -/
theorem acceptedBy_standing {id : Nat} {k : Kernel} {calls : AcceptCalls} (valid : 0 ≤ calls.accept)
    (returned : ((new id).accept k calls).result = calls.accept) :
    Standing calls.accept true true
      ((acceptedBy id k calls).2.trace.count (.close calls.accept)) (acceptedBy id k calls) := by
  rcases handed : defaultAcception k id calls with ⟨n, k₁⟩
  obtain ⟨-, -, number, client, d, -, opened⟩ := accept_returned handed (by omega)
  have established : (acceptedBy id k calls).1 = established id calls.accept := by
    rw [← returned, number]
    exact client
  refine ⟨by rw [established]; rfl, by rw [established]; rfl, ?_, rfl⟩
  simp only [acceptedBy, opened]
  rw [← returned, number, Function.update_self]
  rfl

/-- An object whose `accept` returned the descriptor of a new connection closes it
exactly once, and leaves no registration, exactly when the `shutdown` in its
first call of `close` succeeds. -/
theorem closesOnce_iff {id : Nat} {k : Kernel} {calls : AcceptCalls} {steps : List Step}
    {last : CloseCalls} (valid : 0 ≤ calls.accept)
    (returned : ((new id).accept k calls).result = calls.accept)
    (promised : ∀ one ∈ steps, one.ClosePromised) (promisedLast : last.safetyClose.close = true) :
    ClosesOnce (acceptedBy id k calls) steps last ↔
      (firstClose steps last).safetyClose.shutdown = true := by
  have standing := acceptedBy_standing valid returned
  obtain ⟨live, count⟩ := life_standing standing valid promised promisedLast
  unfold ClosesOnce
  rw [standing.clientFd, count]
  constructor
  · rintro ⟨once, -⟩
    cases shutdown : (firstClose steps last).safetyClose.shutdown with
    | true => rfl
    | false =>
        rw [shutdown] at once
        simp at once
  · intro shutdown
    rw [shutdown] at live ⊢
    refine ⟨rfl, ?_⟩
    rintro i ⟨d, found, -⟩
    rw [found] at live
    cases live

/-- A client that reads, and is destroyed when nobody else has closed it. -/
theorem closesOnce_destroyed :
    ClosesOnce (acceptedBy 0 { opened := fun _ => none } (.succeeds 7))
      [.perform (.setReader true)] ⟨true, true, true, true⟩ :=
  (closesOnce_iff (by decide) (by decide) (by simp [Step.ClosePromised]) rfl).mpr rfl

/-- The peer is gone and `shutdown` fails in the server's call of `close`: the
descriptor is never closed. -/
theorem not_closesOnce_shutdownFails :
    ¬ ClosesOnce (acceptedBy 0 { opened := fun _ => none } (.succeeds 7))
      [.close ⟨true, true, false, true⟩] ⟨true, true, true, true⟩ := by
  rintro ⟨once, -⟩
  exact absurd once (by decide)

end ClientSocket

end Mux.Socket
