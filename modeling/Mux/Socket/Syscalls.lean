import Mathlib.Logic.Relation
import Mux.Socket.Kernel

/-!
# Sequences of system calls

What the state of the kernel is at the moment of a call. The trace lists the
calls of a member function but not the states in between; `MakesOnly` walks from
the first state to the last one by system calls, and asks of each of them that
the state in which it is made allows it.
-/

namespace Mux.Socket

/-- The descriptor number that a call is about. -/
def Syscall.fd : Syscall → Int
  | .kevent fd _ _ => fd
  | .recv fd => fd
  | .send fd => fd
  | .shutdown fd => fd
  | .close fd => fd

namespace Kernel

/-- One system call, whatever its outcome. -/
inductive Makes : Kernel → Syscall → Kernel → Prop where
  | kevent (k : Kernel) (fd : Int) (i : Interest) (change : Change) (ok : Bool) :
      Makes k (.kevent fd i change) (k.kevent fd i change ok).2
  | recv (k : Kernel) (fd : Int) (size : Nat) (outcome : RecvOutcome) :
      Makes k (.recv fd) (k.recv fd size outcome).2.2
  | send (k : Kernel) (fd : Int) (buff : Str) (outcome : SendOutcome) :
      Makes k (.send fd) (k.send fd buff outcome).2
  | shutdown (k : Kernel) (fd : Int) (ok : Bool) : Makes k (.shutdown fd) (k.shutdown fd ok).2
  | close (k : Kernel) (fd : Int) (ok : Bool) : Makes k (.close fd) (k.close fd ok).2

/-- From `k` to `k'` by system calls, each of them made in a state that allows it. -/
def MakesOnly (allowed : Kernel → Syscall → Prop) : Kernel → Kernel → Prop :=
  Relation.ReflTransGen fun k k' => ∃ call, allowed k call ∧ Makes k call k'

variable {k k' k'' : Kernel} {call : Syscall} {allowed : Kernel → Syscall → Prop}

/-- Every call is recorded. -/
theorem Makes.trace (h : Makes k call k') : k'.trace = k.trace ++ [call] := by
  cases h with
  | kevent fd i change ok =>
      unfold Kernel.kevent
      split
      · rfl
      · split <;> rfl
  | recv fd size outcome =>
      unfold Kernel.recv
      split <;> rfl
  | send fd buff outcome =>
      unfold Kernel.send
      split <;> rfl
  | shutdown fd ok => rfl
  | close fd ok =>
      unfold Kernel.close
      split <;> rfl

theorem count_close (k : Kernel) (x fd : Int) (ok : Bool) :
    (k.close x ok).2.trace.count (.close fd) =
      k.trace.count (.close fd) + if x = fd then 1 else 0 := by
  rw [(Makes.close k x ok).trace, List.count_append]
  by_cases same : x = fd <;> simp [same]

/-- A number that is not open is not opened by a call of this kind. -/
theorem Makes.stays_closed (h : Makes k call k') {fd : Int} (closed : k.opened fd = none) :
    k'.opened fd = none := by
  cases h with
  | kevent x i change ok =>
      have keeps := (k.kevent_keeps x i change ok).isSome
      by_cases same : fd = x
      · subst same
        rw [closed] at keeps
        exact Option.not_isSome_iff_eq_none.mp (by simp [keeps])
      · rw [(k.kevent_keeps x i change ok).elsewhere fd same, closed]
  | recv x size outcome => rw [recv_opened, closed]
  | send x buff outcome => rw [send_opened, closed]
  | shutdown x ok => exact closed
  | close x ok =>
      obtain kept | gone := k.close_opened x ok
      · rw [kept, closed]
      · rw [gone]
        by_cases same : fd = x
        · rw [same, Function.update_self]
        · rw [Function.update_of_ne same, closed]

namespace MakesOnly

theorem refl (k : Kernel) : MakesOnly allowed k k :=
  Relation.ReflTransGen.refl

theorem trans (h : MakesOnly allowed k k') (h' : MakesOnly allowed k' k'') :
    MakesOnly allowed k k'' := Relation.ReflTransGen.trans h h'

theorem one (made : Makes k call k') (h : allowed k call) : MakesOnly allowed k k' :=
  .single ⟨call, h, made⟩

/-- What every allowed call preserves. -/
theorem preserves {I : Kernel → Prop} (h : MakesOnly allowed k k')
    (step : ∀ k call k', allowed k call → Makes k call k' → I k → I k') (start : I k) : I k' := by
  induction h with
  | refl => exact start
  | tail _ last ih =>
      obtain ⟨call, allowed, made⟩ := last
      exact step _ call _ allowed made ih

theorem mono {allowed' : Kernel → Syscall → Prop} (h : MakesOnly allowed k k')
    (weaker : ∀ k call, allowed k call → allowed' k call) : MakesOnly allowed' k k' :=
  h.preserves (fun _ call _ here made before => before.trans (one made (weaker _ call here)))
    (refl k)

end MakesOnly

end Kernel

end Mux.Socket
