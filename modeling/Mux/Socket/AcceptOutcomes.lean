import Mux.Socket.Acceptance
import Mux.Socket.Syscalls

/-!
# What `accept` promises its caller

A caller of `accept` takes every result other than `-1` for the descriptor of a
new connection that is set up completely. The cleanup of `defaultAcception`
breaks this: its `0` is taken for a descriptor as well. And it takes `-1` for a
call that left nothing behind, which is so only if the kernel had no connection
to hand out.
-/

namespace Mux.Socket

namespace Acception

variable {k : Kernel} {conn : Nat} {calls : AcceptCalls} {r : Int × Kernel}

/-- A cleanup that succeeds hands out `0`. -/
theorem of_abandoned (h : Acception k conn calls r) (abandoned : calls.abandoned = true) :
    r.1 = 0 ∧ r.2.opened = Function.update k.opened calls.accept Option.none := by
  simp only [AcceptCalls.abandoned, Bool.and_eq_true, decide_eq_true_eq] at abandoned
  obtain ⟨⟨⟨valid, failed⟩, shutdown⟩, close⟩ := abandoned
  cases h with
  | none negative => omega
  | unusable d _ _ _ flags mode =>
      obtain ⟨f, getfl⟩ := Option.isSome_iff_exists.mp flags
      simp [getfl, mode] at failed
  | cleaned d =>
      have live : ((k.setDescriptor calls.accept (some d)).opened calls.accept).isSome = true := by
        simp
      rw [safetyClose_closed live shutdown close]
      exact ⟨rfl, by simp⟩
  | configured success =>
      simp only [AcceptCalls.configured, Bool.and_eq_true] at success
      obtain ⟨⟨⟨-, readWrite⟩, setfl⟩, setsockopt⟩ := success
      cases getfl : calls.getfl with
      | none => simp [AcceptCalls.readWrite, getfl] at readWrite
      | some flags => simp [getfl, setfl, setsockopt] at failed

end Acception

namespace ClientSocket

/-- A result other than `-1` is the descriptor of this call's connection: it is open in
both modes, registered for both filters, and the object knows its number. -/
def Usable (id : Nat) (k : Kernel) (calls : AcceptCalls) : Prop :=
  let returned := (new id).accept k calls
  returned.result ≠ -1 →
    returned.result = calls.accept ∧
    (∃ d, returned.kernel.opened returned.result = some d ∧ d.conn = id ∧
      d.nonblocking = true ∧ d.nodelay = true) ∧
    (∀ i, returned.kernel.Registered returned.result i) ∧
    returned.client.getFd = returned.result

/-- The connection was given up and cleaned up, and the descriptor `0` of another
connection takes both registrations. -/
def HandsOutZero (k : Kernel) (calls : AcceptCalls) : Prop :=
  calls.abandoned = true ∧ calls.accept ≠ 0 ∧ (k.opened 0).isSome = true ∧
    calls.addReader = true ∧ calls.addWriter = true

theorem accept_handsOutZero (id : Nat) {k : Kernel} {calls : AcceptCalls}
    (h : HandsOutZero k calls) : ((new id).accept k calls).result = 0 := by
  obtain ⟨abandoned, nonzero, live, addReader, addWriter⟩ := h
  rcases handed : defaultAcception k id calls with ⟨n, k₁⟩
  have acception := defaultAcception_acception k id calls
  rw [handed] at acception
  obtain ⟨zero, opened⟩ := acception.of_abandoned abandoned
  simp only at zero opened
  subst zero
  obtain ⟨d, found⟩ := Option.isSome_iff_exists.mp live
  have found₁ : k₁.opened 0 = some d := by
    rw [opened, Function.update_of_ne nonzero.symm, found]
  have admission := accept_admission handed
  generalize (new id).accept k calls = r at admission ⊢
  cases admission with
  | nothing none => cases none
  | noReader k₂ _ reader =>
      rw [addReader, Kernel.kevent_add_open found₁] at reader
      cases reader
  | noWriter k₂ k₃ _ reader writer =>
      rw [addReader, Kernel.kevent_add_open found₁] at reader
      obtain ⟨-, rfl⟩ := Prod.mk.inj reader
      rw [addWriter, Kernel.kevent_add_open (d := d.watch .read true) (by simp)] at writer
      cases writer
  | admitted => rfl

/-- `accept` fails, admits the new connection, or hands out `0`. -/
theorem accept_split (id : Nat) (k : Kernel) (calls : AcceptCalls) :
    ((new id).accept k calls).result = -1 ∨ calls.admitted = true ∨ HandsOutZero k calls := by
  by_cases success : ((new id).accept k calls).result = -1
  · exact .inl success
  rcases handed : defaultAcception k id calls with ⟨n, k₁⟩
  obtain ⟨addReader, addWriter, number, -, d, live, -⟩ := accept_returned handed success
  have acception := defaultAcception_acception k id calls
  rw [handed] at acception
  obtain failed | ⟨configured, -⟩ | ⟨abandoned, zero, closed⟩ := acception.result
  · exact absurd (number.trans failed) success
  · refine .inr (.inl ?_)
    simp only [AcceptCalls.admitted, configured, addReader, addWriter, Bool.and_self]
  · -- the cleanup closed this call's connection, so that another one holds `0`
    simp only at zero closed
    rw [zero, closed] at live
    by_cases same : (0 : Int) = calls.accept
    · rw [same, Function.update_self] at live
      cases live
    · rw [Function.update_of_ne same] at live
      exact .inr (.inr ⟨abandoned, Ne.symm same, by rw [live]; rfl, addReader, addWriter⟩)

/-- What `accept` returns is usable for every outcome of the system calls but one kind. -/
theorem usable_iff (id : Nat) (k : Kernel) (calls : AcceptCalls) :
    Usable id k calls ↔ ¬ HandsOutZero k calls := by
  constructor
  · intro usable zero
    have result := accept_handsOutZero id zero
    have same := (usable (by rw [result]; decide)).1
    rw [result] at same
    exact zero.2.1 same.symm
  · intro h success
    obtain failed | admitted | zero := accept_split id k calls
    · exact absurd failed success
    · obtain ⟨number, client, opened⟩ := accept_admitted id k admitted
      have open_ : ((new id).accept k calls).kernel.opened ((new id).accept k calls).result =
          some { accepted id with readable := true, writable := true } := by
        rw [opened, number, Function.update_self]
      refine ⟨number, ⟨_, open_, rfl, rfl, rfl⟩, ?_, ?_⟩
      · intro i
        exact ⟨_, open_, by cases i <;> rfl⟩
      · rw [client, number]
        rfl
    · exact absurd zero h

/-- The kernel decides the result only through descriptor `0`. -/
theorem accept_result_congr (id : Nat) {k k' : Kernel} {calls : AcceptCalls}
    (same : k'.opened 0 = k.opened 0) :
    ((new id).accept k' calls).result = ((new id).accept k calls).result := by
  have zero : HandsOutZero k' calls ↔ HandsOutZero k calls := by
    unfold HandsOutZero
    rw [same]
  obtain failed' | admitted | zero' := accept_split id k' calls
  · obtain failed | admitted | zero₁ := accept_split id k calls
    · rw [failed', failed]
    · rw [(accept_admitted id k' admitted).1, (accept_admitted id k admitted).1]
    · rw [accept_handsOutZero id (zero.mpr zero₁), accept_handsOutZero id zero₁]
  · rw [(accept_admitted id k' admitted).1, (accept_admitted id k admitted).1]
  · rw [accept_handsOutZero id zero', accept_handsOutZero id (zero.mp zero')]

/-- A result that is a descriptor is the new one or `0`, and the object knows it. -/
theorem accept_client (id : Nat) (k : Kernel) {calls : AcceptCalls}
    (success : ((new id).accept k calls).result ≠ -1) :
    (((new id).accept k calls).result = calls.accept ∨ ((new id).accept k calls).result = 0) ∧
      ((new id).accept k calls).client = established id ((new id).accept k calls).result := by
  rcases handed : defaultAcception k id calls with ⟨n, k₁⟩
  obtain ⟨-, -, number, client, -⟩ := accept_returned handed success
  refine ⟨?_, by rw [number]; exact client⟩
  obtain failed | admitted | zero := accept_split id k calls
  · exact absurd failed success
  · exact .inl (accept_admitted id k admitted).1
  · exact .inr (accept_handsOutZero id zero)

theorem defaultAcception_elsewhere (id : Nat) (k : Kernel) (calls : AcceptCalls) {x : Int}
    (other : x ≠ calls.accept) : (defaultAcception k id calls).2.opened x = k.opened x := by
  have acception := defaultAcception_acception k id calls
  generalize defaultAcception k id calls = r at acception ⊢
  cases acception with
  | none => rfl
  | unusable => exact Function.update_of_ne other _ _
  | cleaned d =>
      rw [(safetyClose_releases _ _ _).elsewhere x other]
      exact Function.update_of_ne other _ _
  | configured => exact Function.update_of_ne other _ _

/-- `accept`, and the destructor of an object that it leaves behind, work on the number that
`::accept` returned and on `0`. -/
theorem accept_elsewhere (id : Nat) (k : Kernel) (calls : AcceptCalls) (later : CloseCalls)
    {x : Int}
    (other : x ≠ calls.accept) (positive : 0 < x) :
    ((new id).accept k calls).kernel.opened x = k.opened x ∧
      (((new id).accept k calls).client.destroy ((new id).accept k calls).kernel later).opened x =
        k.opened x := by
  have before := defaultAcception_elsewhere id k calls other
  rcases handed : defaultAcception k id calls with ⟨n, k₁⟩
  rw [handed] at before
  simp only at before
  have apart : n ≠ -1 → x ≠ n := by
    intro handedOut
    have acception := defaultAcception_acception k id calls
    rw [handed] at acception
    obtain failed | ⟨configured, -⟩ | ⟨-, zero, -⟩ := acception.result
    · exact absurd failed handedOut
    · rw [← Prod.mk.inj (acception.of_configured configured) |>.1] at other
      exact other
    · simp only at zero
      omega
  have admission := accept_admission handed
  generalize (new id).accept k calls = r at admission ⊢
  cases admission with
  | nothing none => exact ⟨before, before⟩
  | noReader k₂ handedOut reader =>
      have closed : (safetyClose k₂ n calls.undo).2.opened x = k.opened x := by
        rw [(safetyClose_releases _ _ _).elsewhere x (apart handedOut),
          Kernel.kevent_elsewhere reader (apart handedOut), before]
      exact ⟨closed, ((destroy_releases _ _ _).elsewhere x (apart handedOut)).trans closed⟩
  | noWriter k₂ k₃ handedOut reader writer =>
      have closed : (safetyClose k₃ n calls.undo).2.opened x = k.opened x := by
        rw [(safetyClose_releases _ _ _).elsewhere x (apart handedOut),
          Kernel.kevent_elsewhere writer (apart handedOut),
          Kernel.kevent_elsewhere reader (apart handedOut), before]
      exact ⟨closed, ((destroy_releases _ _ _).elsewhere x (apart handedOut)).trans closed⟩
  | admitted k₂ k₃ handedOut reader writer =>
      have kept : k₃.opened x = k.opened x := by
        rw [Kernel.kevent_elsewhere writer (apart handedOut),
          Kernel.kevent_elsewhere reader (apart handedOut), before]
      exact ⟨kept, ((destroy_releases _ _ _).elsewhere x (apart handedOut)).trans kept⟩

/-- Standard input is open, and `TCP_NODELAY` fails on the new connection: `accept`
returns `0`, which is not the descriptor of any connection it made. -/
theorem abandoned_not_usable :
    ¬ Usable 7 { opened := Function.update (fun _ => none) 0 (some { conn := 1 }) }
      { AcceptCalls.succeeds 5 with setsockopt := false } := by
  intro usable
  have same := (usable (by decide)).1
  exact absurd same (by decide)

/-! ## Failure -/

/-- When `accept` returns `-1`, the descriptor it got was closed once and is not
registered, and the object is disconnected: its destructor makes no call about that
descriptor number. -/
def LeavesNothing (id : Nat) (k : Kernel) (calls : AcceptCalls) : Prop :=
  let returned := (new id).accept k calls
  returned.result = -1 →
    (0 ≤ calls.accept →
      returned.kernel.trace.count (.close calls.accept) =
          k.trace.count (.close calls.accept) + 1 ∧
        ∀ i, ¬ returned.kernel.Registered calls.accept i) ∧
    returned.client.isConnected_ = false ∧
    ∀ (later : CloseCalls) (call : Syscall), call.fd = calls.accept →
      (returned.client.destroy returned.kernel later).trace.count call =
        returned.kernel.trace.count call

theorem accept_refused (id : Nat) (k : Kernel) {calls : AcceptCalls} (negative : calls.accept < 0) :
    (new id).accept k calls = ⟨-1, new id, k⟩ := by
  simp [accept, defaultAcception, negative]

/-- A failure that had a descriptor left it open, or the object connected. -/
theorem accept_failed {id : Nat} {k : Kernel} {calls : AcceptCalls}
    (cleanup : calls.cleanup = ⟨true, true⟩) (valid : 0 ≤ calls.accept)
    (failed : ((new id).accept k calls).result = -1) :
    ((new id).accept k calls).kernel.trace = k.trace ∨
      ((new id).accept k calls).client.isConnected_ = true := by
  rcases handed : defaultAcception k id calls with ⟨n, k₁⟩
  have acception := defaultAcception_acception k id calls
  rw [handed] at acception
  have admission := accept_admission handed
  generalize (new id).accept k calls = r at admission failed ⊢
  cases admission with
  | noReader => exact .inr rfl
  | noWriter => exact .inr rfl
  | admitted _ _ handedOut => exact absurd failed handedOut
  | nothing none =>
      refine .inl ?_
      generalize same : (n, k₁) = handed' at acception
      cases acception with
      | none negative => omega
      | unusable d _ _ _ _ _ =>
          obtain ⟨-, rfl⟩ := Prod.mk.inj same
          rfl
      | cleaned d _ _ _ _ =>
          rw [cleanup, safetyClose_closed (by simp) rfl rfl] at same
          obtain ⟨rfl, -⟩ := Prod.mk.inj same
          cases none
      | configured _ =>
          obtain ⟨rfl, -⟩ := Prod.mk.inj same
          omega

/-- A failure leaves nothing behind exactly when `::accept` had no connection: every later
failure loses the descriptor or leaves the object connected. -/
theorem leavesNothing_iff (id : Nat) (k : Kernel) {calls : AcceptCalls}
    (cleanup : calls.cleanup = ⟨true, true⟩) :
    LeavesNothing id k calls ↔
      calls.accept < 0 ∨ calls.admitted = true ∨ HandsOutZero k calls := by
  constructor
  · intro nothing
    obtain failed | admitted | zero := accept_split id k calls
    · by_cases negative : calls.accept < 0
      · exact .inl negative
      · have valid : 0 ≤ calls.accept := Int.not_lt.mp negative
        obtain ⟨released, disconnected, -⟩ := nothing failed
        obtain kept | connected := accept_failed cleanup valid failed
        · have once := (released valid).1
          rw [kept] at once
          omega
        · rw [connected] at disconnected
          cases disconnected
    · exact .inr (.inl admitted)
    · exact .inr (.inr zero)
  · rintro (negative | admitted | zero) failed
    · rw [accept_refused id k negative]
      exact ⟨fun valid => by omega, rfl, fun _ _ _ => rfl⟩
    · have valid : 0 ≤ calls.accept := by
        simp only [AcceptCalls.admitted, AcceptCalls.configured, Bool.and_eq_true,
          decide_eq_true_eq] at admitted
        exact admitted.1.1.1.1.1
      have number := (accept_admitted id k admitted).1
      omega
    · have number := accept_handsOutZero id zero
      omega

/-- The kernel has no connection. -/
theorem leavesNothing_refused : LeavesNothing 7 { opened := fun _ => none } (.succeeds (-1)) :=
  (leavesNothing_iff 7 _ rfl).mpr (.inl (by decide))

/-- The first registration fails: the descriptor is closed, and the destructor tries to
shut down its number once more. -/
theorem unregistered_not_leavesNothing :
    ¬ LeavesNothing 7 { opened := fun _ => none }
      { AcceptCalls.succeeds 5 with addReader := false } := by
  intro nothing
  have disconnected := (nothing rfl).2.1
  cases disconnected

end ClientSocket

end Mux.Socket
