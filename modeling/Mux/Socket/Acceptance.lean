import Mux.Socket.ClientSocket

/-!
# Accepting and closing

What `defaultAcception`, `ClientSocket::accept` and `ClientSocket::close` return
and leave behind, for every outcome of the system calls. `safetyClose` returns
`0` when it has closed the descriptor, so `defaultAcception` hands out the
descriptor number `0` when it gives up on a connection and cleans up behind it.
-/

namespace Mux.Socket

/-! ## Safety close -/

theorem safetyClose_refused {k : Kernel} {fd : Int} {calls : SafetyCloseCalls}
    (h : (k.opened fd).isSome = false ∨ calls.shutdown = false) :
    safetyClose k fd calls = (-1, k.record (.shutdown fd)) := by
  have refused : ((k.opened fd).isSome && calls.shutdown) = false := by
    obtain closed | failed := h
    · rw [closed, Bool.false_and]
    · rw [failed, Bool.and_false]
  simp only [safetyClose, Kernel.shutdown, refused]

theorem safetyClose_passed {k : Kernel} {fd : Int} {calls : SafetyCloseCalls}
    (live : (k.opened fd).isSome = true) (shutdown : calls.shutdown = true) :
    safetyClose k fd calls = (k.record (.shutdown fd)).close fd calls.close := by
  have passed : ((k.opened fd).isSome && calls.shutdown) = true := by rw [live, shutdown]; rfl
  simp only [safetyClose, Kernel.shutdown, passed]

theorem safetyClose_closed {k : Kernel} {fd : Int} {calls : SafetyCloseCalls}
    (live : (k.opened fd).isSome = true) (shutdown : calls.shutdown = true)
    (close : calls.close = true) :
    safetyClose k fd calls =
      (0, ((k.record (.shutdown fd)).record (.close fd)).setDescriptor fd none) := by
  rw [safetyClose_passed live shutdown, close]
  exact Kernel.close_open live

theorem safetyClose_cases (k : Kernel) (fd : Int) (calls : SafetyCloseCalls) :
    safetyClose k fd calls = (-1, k.record (.shutdown fd)) ∨
      safetyClose k fd calls = (k.record (.shutdown fd)).close fd calls.close := by
  cases live : (k.opened fd).isSome with
  | false => exact .inl (safetyClose_refused (.inl live))
  | true =>
      cases shutdown : calls.shutdown with
      | false => exact .inl (safetyClose_refused (.inr shutdown))
      | true => exact .inr (safetyClose_passed live shutdown)

theorem safetyClose_releases (k : Kernel) (fd : Int) (calls : SafetyCloseCalls) :
    k.Releases fd (safetyClose k fd calls).2 := by
  obtain refused | passed := safetyClose_cases k fd calls
  · rw [refused]
    exact .of_opened rfl
  · rw [passed]
    have shut : k.Releases fd (k.record (.shutdown fd)) := .of_opened rfl
    exact shut.trans ((k.record (.shutdown fd)).close_releases fd calls.close)

theorem safetyClose_sent (k : Kernel) (fd : Int) (calls : SafetyCloseCalls) :
    (safetyClose k fd calls).2.sent = k.sent := by
  obtain refused | passed := safetyClose_cases k fd calls
  · rw [refused]
    rfl
  · rw [passed]
    exact Kernel.close_sent _ fd calls.close

/-! ## Acceptance -/

namespace AcceptCalls

/-- `F_GETFL` returned flags that contain `O_RDWR`. -/
def readWrite (calls : AcceptCalls) : Bool :=
  calls.getfl.any fun flags => flags &&& O_RDWR ≠ 0

/-- `::accept` returned a descriptor and every step of its configuration
succeeded. -/
def configured (calls : AcceptCalls) : Bool :=
  0 ≤ calls.accept && calls.readWrite && calls.setfl && calls.setsockopt

/-- `::accept` returned a descriptor, a step of its configuration failed, and
`safetyClose` closed the descriptor. -/
def abandoned (calls : AcceptCalls) : Bool :=
  0 ≤ calls.accept && (calls.getfl.isNone || calls.readWrite && !(calls.setfl && calls.setsockopt))
    && calls.cleanup.shutdown && calls.cleanup.close

end AcceptCalls

/-- A descriptor as `defaultAcception` hands it out. -/
def accepted (conn : Nat) : Descriptor := { conn, nonblocking := true, nodelay := true }

theorem nonblocking_flag (flags : Nat) : (flags ||| O_NONBLOCK) &&& O_NONBLOCK ≠ 0 := by
  have set : Nat.testBit O_NONBLOCK 2 = true := by decide
  have bit : Nat.testBit ((flags ||| O_NONBLOCK) &&& O_NONBLOCK) 2 = true := by
    rw [Nat.testBit_and, Nat.testBit_or, set, Bool.or_true, Bool.and_true]
  intro none
  rw [none, Nat.zero_testBit] at bit
  cases bit

/-- How `defaultAcception` ends: without a descriptor, with a descriptor left open
that it does not hand out, through `safetyClose`, or with a configured one. -/
inductive Acception (k : Kernel) (conn : Nat) (calls : AcceptCalls) : Int × Kernel → Prop where
  | none (negative : calls.accept < 0) : Acception k conn calls (-1, k)
  | unusable (d : Descriptor) (valid : 0 ≤ calls.accept) (same : d.conn = conn)
      (off : ∀ i, d.watches i = false) (flags : calls.getfl.isSome = true)
      (mode : calls.readWrite = false) :
      Acception k conn calls (-1, k.setDescriptor calls.accept (some d))
  | cleaned (d : Descriptor) (valid : 0 ≤ calls.accept) (same : d.conn = conn)
      (off : ∀ i, d.watches i = false)
      (failed : (calls.getfl.isNone ||
        calls.readWrite && !(calls.setfl && calls.setsockopt)) = true) :
      Acception k conn calls
        (safetyClose (k.setDescriptor calls.accept (some d)) calls.accept calls.cleanup)
  | configured (success : calls.configured = true) :
      Acception k conn calls (calls.accept, k.setDescriptor calls.accept (some (accepted conn)))

theorem defaultAcception_acception (k : Kernel) (conn : Nat) (calls : AcceptCalls) :
    Acception k conn calls (defaultAcception k conn calls) := by
  by_cases negative : calls.accept < 0
  · rw [defaultAcception, if_pos negative]
    exact .none negative
  · have valid : 0 ≤ calls.accept := Int.not_lt.mp negative
    have unwatched (d : Descriptor) (r : d.readable = false) (w : d.writable = false)
        (i : Interest) :
        d.watches i = false := by cases i <;> assumption
    simp only [defaultAcception, if_neg negative, Kernel.accept, if_pos valid]
    cases getfl : calls.getfl with
    | none => exact .cleaned { conn } valid rfl (unwatched _ rfl rfl) (by simp [getfl])
    | some flags =>
        by_cases unusable : flags &&& O_RDWR = 0
        · simp only [if_pos unusable]
          exact .unusable { conn } valid rfl (unwatched _ rfl rfl) (by simp [getfl])
            (by simp [AcceptCalls.readWrite, getfl, unusable])
        · have readWrite : calls.readWrite = true := by
            simp [AcceptCalls.readWrite, getfl, unusable]
          simp only [if_neg unusable]
          cases setfl : calls.setfl with
          | false =>
              exact .cleaned { conn } valid rfl (unwatched _ rfl rfl) (by simp [readWrite, setfl])
          | true =>
              cases nodelay : calls.setsockopt with
              | false =>
                  have cleaned : Acception k conn calls _ :=
                    .cleaned { conn, nonblocking := true } valid rfl (unwatched _ rfl rfl)
                      (by simp [readWrite, nodelay])
                  simpa [Kernel.setFlags, nonblocking_flag] using cleaned
              | true =>
                  have configured : Acception k conn calls _ := .configured
                    (by simp [AcceptCalls.configured, valid, readWrite, setfl, nodelay])
                  simpa [Kernel.setFlags, Kernel.setNodelay, nonblocking_flag, accepted] using
                    configured

namespace Acception

variable {k : Kernel} {conn : Nat} {calls : AcceptCalls} {r : Int × Kernel}

theorem of_configured (h : Acception k conn calls r) (success : calls.configured = true) :
    r = (calls.accept, k.setDescriptor calls.accept (some (accepted conn))) := by
  simp only [AcceptCalls.configured, Bool.and_eq_true, decide_eq_true_eq] at success
  obtain ⟨⟨⟨valid, readWrite⟩, setfl⟩, nodelay⟩ := success
  cases h with
  | none negative => omega
  | unusable d _ _ _ _ mode =>
      rw [readWrite] at mode
      cases mode
  | cleaned d _ _ _ failed =>
      cases getfl : calls.getfl with
      | none => simp [AcceptCalls.readWrite, getfl] at readWrite
      | some flags => simp [getfl, setfl, nodelay] at failed
  | configured => rfl

/-- The result is `-1`, the configured descriptor, or the `0` of a cleanup. -/
theorem result (h : Acception k conn calls r) :
    r.1 = -1 ∨
    (calls.configured = true ∧ 0 ≤ calls.accept) ∨
    (calls.abandoned = true ∧ r.1 = 0 ∧
      r.2.opened = Function.update k.opened calls.accept Option.none) := by
  cases h with
  | none => exact .inl rfl
  | unusable => exact .inl rfl
  | cleaned d valid _ _ failed =>
      have live : ((k.setDescriptor calls.accept (some d)).opened calls.accept).isSome = true := by
        simp
      cases shutdown : calls.cleanup.shutdown with
      | false =>
          rw [safetyClose_refused (.inr shutdown)]
          exact .inl rfl
      | true =>
          cases close : calls.cleanup.close with
          | false =>
              rw [safetyClose_passed live shutdown, close]
              exact .inl (by simp [Kernel.close])
          | true =>
              rw [safetyClose_closed live shutdown close]
              refine .inr (.inr ⟨?_, rfl, by simp⟩)
              simp only [AcceptCalls.abandoned, shutdown, close, failed, valid, decide_true,
                Bool.and_self]
  | configured success =>
      refine .inr (.inl ⟨success, ?_⟩)
      simp only [AcceptCalls.configured, Bool.and_eq_true, decide_eq_true_eq] at success
      exact success.1.1.1

/-- The new descriptor is not registered, whatever happened to it. -/
theorem registered (h : Acception k conn calls r) {x : Int} {i : Interest}
    (on : r.2.Registered x i) : k.Registered x i := by
  cases h with
  | none => exact on
  | unusable d _ _ off => exact Kernel.registered_setDescriptor off on
  | cleaned d _ _ off =>
      exact Kernel.registered_setDescriptor off ((safetyClose_releases _ _ _).registered on)
  | configured => exact Kernel.registered_setDescriptor (fun i => by cases i <;> rfl) on

theorem sent (h : Acception k conn calls r) : r.2.sent = k.sent := by
  cases h with
  | none => rfl
  | unusable => exact Kernel.setDescriptor_sent _ _ _
  | cleaned => rw [safetyClose_sent, Kernel.setDescriptor_sent]
  | configured => exact Kernel.setDescriptor_sent _ _ _

end Acception

namespace AcceptCalls

/-- Every call of `accept` succeeded. -/
def admitted (calls : AcceptCalls) : Bool :=
  calls.configured && calls.addReader && calls.addWriter

/-- `::accept` returns `fd`, and every call succeeds. -/
def succeeds (fd : Int) : AcceptCalls where
  accept := fd
  getfl := some O_RDWR
  setfl := true
  setsockopt := true
  cleanup := ⟨true, true⟩
  addReader := true
  addWriter := true
  undo := ⟨true, true⟩

end AcceptCalls

/-- Every call of `close` succeeds. -/
def CloseCalls.succeeds : CloseCalls := ⟨true, true, true, true⟩

namespace ClientSocket

/-- A connected client that is registered for reading and for writing. -/
def established (id : Nat) (fd : Int) : ClientSocket :=
  { id, clientFd_ := fd, isReader_ := true, isWriter_ := true, isConnected_ := true }

section Accept

variable {id : Nat} {k k₁ : Kernel} {calls : AcceptCalls} {n : Int}

/-- The descriptor `n` that `defaultAcception` hands out is registered for reading,
then for writing; a refusal closes it again, with the object left connected. -/
inductive Admission (id : Nat) (k₁ : Kernel) (n : Int) (calls : AcceptCalls) : Returned → Prop where
  | nothing (none : n = -1) : Admission id k₁ n calls ⟨-1, new id, k₁⟩
  | noReader (k₂ : Kernel) (handedOut : n ≠ -1)
      (reader : k₁.kevent n .read .add calls.addReader = (false, k₂)) :
      Admission id k₁ n calls ⟨-1, { new id with clientFd_ := n, isConnected_ := true },
        (safetyClose k₂ n calls.undo).2⟩
  | noWriter (k₂ k₃ : Kernel) (handedOut : n ≠ -1)
      (reader : k₁.kevent n .read .add calls.addReader = (true, k₂))
      (writer : k₂.kevent n .write .add calls.addWriter = (false, k₃)) :
      Admission id k₁ n calls
        ⟨-1, { new id with clientFd_ := n, isReader_ := true, isConnected_ := true },
          (safetyClose k₃ n calls.undo).2⟩
  | admitted (k₂ k₃ : Kernel) (handedOut : n ≠ -1)
      (reader : k₁.kevent n .read .add calls.addReader = (true, k₂))
      (writer : k₂.kevent n .write .add calls.addWriter = (true, k₃)) :
      Admission id k₁ n calls ⟨n, established id n, k₃⟩

theorem accept_admission (handed : defaultAcception k id calls = (n, k₁)) :
    Admission id k₁ n calls ((new id).accept k calls) := by
  by_cases none : n = -1
  · simp only [accept, new, handed, if_pos none]
    exact .nothing none
  · rcases reader : k₁.kevent n .read .add calls.addReader with ⟨_ | _, k₂⟩
    · have refused : Admission id k₁ n calls _ := .noReader k₂ none reader
      simpa [accept, new, handed, none, setReader, setInterest, interest, reader] using refused
    · rcases writer : k₂.kevent n .write .add calls.addWriter with ⟨_ | _, k₃⟩
      · have refused : Admission id k₁ n calls _ := .noWriter k₂ k₃ none reader writer
        simpa [accept, new, handed, none, setReader, setWriter, setInterest, interest,
          withInterest, reader, writer] using refused
      · have admitted : Admission id k₁ n calls _ := .admitted k₂ k₃ none reader writer
        simpa [accept, new, handed, none, setReader, setWriter, setInterest, interest,
          withInterest, reader, writer, established] using admitted

namespace Admission

variable {r : Returned}

/-- A result other than `-1` is the descriptor that was handed out; it is open
and registered for both filters. -/
theorem returned (h : Admission id k₁ n calls r) (success : r.result ≠ -1) :
    calls.addReader = true ∧ calls.addWriter = true ∧
    r.result = n ∧ r.client = established id n ∧
    ∃ d, k₁.opened n = some d ∧ r.kernel.opened =
      Function.update k₁.opened n (some { d with readable := true, writable := true }) := by
  cases h with
  | nothing => exact absurd rfl success
  | noReader => exact absurd rfl success
  | noWriter => exact absurd rfl success
  | admitted k₂ k₃ handedOut reader writer =>
      obtain ⟨addReader, d, found, readable⟩ := Kernel.kevent_applied (congrArg Prod.fst reader)
      obtain ⟨addWriter, d', found', writable⟩ := Kernel.kevent_applied (congrArg Prod.fst writer)
      rw [reader] at readable
      rw [writer] at writable
      simp only at readable writable
      rw [readable, Function.update_self] at found'
      obtain rfl := Option.some.inj found'
      refine ⟨addReader, addWriter, rfl, rfl, d, found, ?_⟩
      simp only
      rw [writable, readable, Function.update_idem]
      rfl

/-- A registration after `accept` was there before or is one of the descriptor
handed out, which is then open. -/
theorem registered (h : Admission id k₁ n calls r) {x : Int} {i : Interest}
    (on : r.kernel.Registered x i) :
    k₁.Registered x i ∨
      (x = n ∧ n ≠ -1 ∧ calls.addReader = true ∧ (k₁.opened n).isSome = true) := by
  have keepsReader := k₁.kevent_keeps n .read .add calls.addReader
  have added {k₂ k₃ : Kernel} (reader : k₁.kevent n .read .add calls.addReader = (true, k₂))
      (writer : (k₂.kevent n .write .add calls.addWriter).2 = k₃) (on : k₃.Registered x i)
      (handedOut : n ≠ -1) : k₁.Registered x i ∨
        (x = n ∧ n ≠ -1 ∧ calls.addReader = true ∧ (k₁.opened n).isSome = true) := by
    have keepsWriter := k₂.kevent_keeps n .write .add calls.addWriter
    obtain ⟨addReader, d, found, -⟩ := Kernel.kevent_applied (congrArg Prod.fst reader)
    rw [reader] at keepsReader
    rw [writer] at keepsWriter
    obtain same | before := (keepsReader.trans keepsWriter).registered on
    · exact .inr ⟨same, handedOut, addReader, by rw [found]; rfl⟩
    · exact .inl before
  cases h with
  | nothing => exact .inl on
  | noReader k₂ handedOut reader =>
      obtain ⟨d, found, watched⟩ := (safetyClose_releases _ n calls.undo).registered on
      have refused := Kernel.kevent_refused (congrArg Prod.fst reader)
      rw [reader] at refused
      exact .inl ⟨d, by rw [← refused]; exact found, watched⟩
  | noWriter k₂ k₃ handedOut reader writer =>
      refine added reader (congrArg Prod.snd writer) ?_ handedOut
      exact (safetyClose_releases _ n calls.undo).registered on
  | admitted k₂ k₃ handedOut reader writer =>
      exact added reader (congrArg Prod.snd writer) on handedOut

theorem sent (h : Admission id k₁ n calls r) : r.kernel.sent = k₁.sent := by
  have first := k₁.kevent_sent n .read .add calls.addReader
  cases h with
  | nothing => rfl
  | noReader k₂ _ reader =>
      rw [reader] at first
      exact (safetyClose_sent _ _ _).trans first
  | noWriter k₂ k₃ _ reader writer =>
      have second := k₂.kevent_sent n .write .add calls.addWriter
      rw [reader] at first
      rw [writer] at second
      exact (safetyClose_sent _ _ _).trans (second.trans first)
  | admitted k₂ k₃ _ reader writer =>
      have second := k₂.kevent_sent n .write .add calls.addWriter
      rw [reader] at first
      rw [writer] at second
      exact second.trans first

end Admission

theorem accept_returned (handed : defaultAcception k id calls = (n, k₁))
    (success : ((new id).accept k calls).result ≠ -1) :
    calls.addReader = true ∧ calls.addWriter = true ∧
    ((new id).accept k calls).result = n ∧ ((new id).accept k calls).client = established id n ∧
    ∃ d, k₁.opened n = some d ∧ ((new id).accept k calls).kernel.opened =
      Function.update k₁.opened n (some { d with readable := true, writable := true }) :=
  (accept_admission handed).returned success

/-- A result other than `-1` is a number that a descriptor can have. -/
theorem accept_valid (returned : ((new id).accept k calls).result ≠ -1) :
    0 ≤ ((new id).accept k calls).result := by
  rcases handed : defaultAcception k id calls with ⟨n, k₁⟩
  obtain ⟨-, -, number, -⟩ := accept_returned handed returned
  have acception := defaultAcception_acception k id calls
  rw [handed] at acception
  obtain failed | ⟨configured, valid⟩ | ⟨-, zero, -⟩ := acception.result
  · exact absurd (number.trans failed) returned
  · rw [number, (Prod.mk.inj (acception.of_configured configured)).1]
    exact valid
  · simp only at zero
    omega

/-- When every call succeeds, `accept` returns the descriptor of `::accept`. -/
theorem accept_admitted (id : Nat) (k : Kernel) {calls : AcceptCalls}
    (h : calls.admitted = true) :
    ((new id).accept k calls).result = calls.accept ∧
    ((new id).accept k calls).client = established id calls.accept ∧
    ((new id).accept k calls).kernel.opened = Function.update k.opened calls.accept
      (some { accepted id with readable := true, writable := true }) := by
  simp only [AcceptCalls.admitted, Bool.and_eq_true] at h
  obtain ⟨⟨configured, addReader⟩, addWriter⟩ := h
  have valid : 0 ≤ calls.accept := by
    simp only [AcceptCalls.configured, Bool.and_eq_true, decide_eq_true_eq] at configured
    exact configured.1.1.1
  have handed := (defaultAcception_acception k id calls).of_configured configured
  have found : (k.setDescriptor calls.accept (some (accepted id))).opened calls.accept =
      some (accepted id) := by simp
  have result : ((new id).accept k calls).result ≠ -1 := by
    have admission := accept_admission handed
    generalize (new id).accept k calls = r at admission ⊢
    cases admission with
    | nothing none => omega
    | noReader k₂ _ reader =>
        rw [addReader, Kernel.kevent_add_open found] at reader
        cases reader
    | noWriter k₂ k₃ _ reader writer =>
        rw [addReader, Kernel.kevent_add_open found] at reader
        obtain ⟨-, rfl⟩ := Prod.mk.inj reader
        rw [addWriter, Kernel.kevent_add_open (d := (accepted id).watch .read true) (by simp)]
          at writer
        cases writer
    | admitted k₂ k₃ handedOut => exact handedOut
  obtain ⟨-, -, number, client, d, live, opened⟩ := accept_returned handed result
  refine ⟨number, client, ?_⟩
  obtain rfl := Option.some.inj (live.symm.trans found)
  rw [opened, Kernel.setDescriptor_opened, Function.update_idem]

/-- A returned number that was not open before is the descriptor of `::accept`,
and every call succeeded. -/
theorem accept_fresh (valid : 0 ≤ ((new id).accept k calls).result)
    (fresh : k.opened ((new id).accept k calls).result = none) : calls.admitted = true := by
  rcases handed : defaultAcception k id calls with ⟨n, k₁⟩
  obtain ⟨addReader, addWriter, number, -, d, live, -⟩ := accept_returned handed (by omega)
  rw [number] at valid fresh
  have acception := defaultAcception_acception k id calls
  rw [handed] at acception
  obtain failed | ⟨configured, -⟩ | ⟨-, zero, opened⟩ := acception.result
  · simp only at failed
    omega
  · simp only [AcceptCalls.admitted, configured, addReader, addWriter, Bool.and_self]
  · -- a cleanup hands out `0`, which cannot have been free and be open now
    simp only at opened
    rw [opened] at live
    by_cases same : n = calls.accept
    · rw [same, Function.update_self] at live
      cases live
    · rw [Function.update_of_ne same, fresh] at live
      cases live

/-- A registration after `accept` was there before or is one of the descriptor
handed out, which is then open. -/
theorem accept_registered (handed : defaultAcception k id calls = (n, k₁)) {x : Int} {i : Interest}
    (on : ((new id).accept k calls).kernel.Registered x i) :
    k.Registered x i ∨
      (x = n ∧ n ≠ -1 ∧ calls.addReader = true ∧ (k₁.opened n).isSome = true) := by
  have acception := defaultAcception_acception k id calls
  rw [handed] at acception
  exact ((accept_admission handed).registered on).imp_left acception.registered

theorem accept_sent (id : Nat) (k : Kernel) (calls : AcceptCalls) :
    ((new id).accept k calls).kernel.sent = k.sent := by
  rcases handed : defaultAcception k id calls with ⟨n, k₁⟩
  have acception := defaultAcception_acception k id calls
  rw [handed] at acception
  exact (accept_admission handed).sent.trans acception.sent

end Accept

/-! ## Closing -/

theorem deregister_local (c : ClientSocket) (k : Kernel) (calls : CloseCalls) :
    Local c k (c.deregister k calls).1 (c.deregister k calls).2 := by
  have reader := c.removeInterest_local k .read calls.deleteReader
  unfold deregister
  simp only
  split
  · exact reader
  · exact reader.trans (removeInterest_local _ _ .write calls.deleteWriter)

theorem removeInterest_releases (c : ClientSocket) (k : Kernel) (i : Interest) (ok : Bool) :
    k.Releases c.clientFd_ (c.removeInterest k i ok).kernel :=
  (c.removeInterest_changes k i ok).kernel (.refl c.clientFd_ k)
    (k.kevent_delete_releases c.clientFd_ i ok)

theorem deregister_releases (c : ClientSocket) (k : Kernel) (calls : CloseCalls) :
    k.Releases c.clientFd_ (c.deregister k calls).2 := by
  have reader := c.removeInterest_releases k .read calls.deleteReader
  have fd := (c.removeInterest_local k .read calls.deleteReader).fd
  unfold deregister
  simp only
  split
  · exact reader
  · refine reader.trans ?_
    rw [← fd]
    exact removeInterest_releases _ _ .write calls.deleteWriter

theorem deregister_sent (c : ClientSocket) (k : Kernel) (calls : CloseCalls) :
    (c.deregister k calls).2.sent = k.sent := by
  have reader := c.removeInterest_sent k .read calls.deleteReader
  unfold deregister
  simp only
  split
  · exact reader
  · exact (removeInterest_sent _ _ .write calls.deleteWriter).trans reader

/-- A call of `close` on a disconnected object does nothing; otherwise the object
is disconnected, whatever `safetyClose` returns. -/
theorem close_cases (c : ClientSocket) (k : Kernel) (calls : CloseCalls) :
    ((c.isConnected_ = false ∨ c.clientFd_ < 0) ∧ c.close k calls = ⟨1, c, k⟩) ∨
    (c.isConnected_ = true ∧ 0 ≤ c.clientFd_ ∧ c.close k calls =
      ⟨(safetyClose (c.deregister k calls).2 c.clientFd_ calls.safetyClose).1,
        { (c.deregister k calls).1 with isConnected_ := false },
        (safetyClose (c.deregister k calls).2 c.clientFd_ calls.safetyClose).2⟩) := by
  have fd := (c.deregister_local k calls).fd
  cases connected : c.isConnected_ with
  | false => exact .inl ⟨.inl rfl, by simp [close, connected]⟩
  | true =>
      by_cases negative : c.clientFd_ < 0
      · exact .inl ⟨.inr negative, by simp [close, negative]⟩
      · refine .inr ⟨rfl, by omega, ?_⟩
        simp [close, connected, negative, fd]

theorem close_connected {c : ClientSocket} (connected : c.isConnected_ = true)
    (valid : 0 ≤ c.clientFd_) (k : Kernel) (calls : CloseCalls) : c.close k calls =
      ⟨(safetyClose (c.deregister k calls).2 c.clientFd_ calls.safetyClose).1,
        { (c.deregister k calls).1 with isConnected_ := false },
        (safetyClose (c.deregister k calls).2 c.clientFd_ calls.safetyClose).2⟩ := by
  obtain ⟨closed | negative, -⟩ | ⟨-, -, returned⟩ := c.close_cases k calls
  · rw [connected] at closed
    cases closed
  · omega
  · exact returned

theorem close_releases (c : ClientSocket) (k : Kernel) (calls : CloseCalls) :
    k.Releases c.clientFd_ (c.close k calls).kernel := by
  obtain ⟨-, returned⟩ | ⟨-, -, returned⟩ := c.close_cases k calls
  · rw [returned]
    exact .refl c.clientFd_ k
  · rw [returned]
    exact (c.deregister_releases k calls).trans (safetyClose_releases _ _ _)

theorem close_sent (c : ClientSocket) (k : Kernel) (calls : CloseCalls) :
    (c.close k calls).kernel.sent = k.sent := by
  obtain ⟨-, returned⟩ | ⟨-, -, returned⟩ := c.close_cases k calls
  · rw [returned]
  · rw [returned]
    exact (safetyClose_sent _ _ _).trans (c.deregister_sent k calls)

/-- With `shutdown` and `::close` successful, `close` closes the descriptor. -/
theorem close_closed {c : ClientSocket} {k : Kernel} {calls : CloseCalls}
    (connected : c.isConnected_ = true) (valid : 0 ≤ c.clientFd_)
    (live : (k.opened c.clientFd_).isSome = true) (shutdown : calls.safetyClose.shutdown = true)
    (close : calls.safetyClose.close = true) :
    (c.close k calls).result = 0 ∧ (c.close k calls).client.isConnected_ = false ∧
    (c.close k calls).kernel.opened c.clientFd_ = none ∧
    (c.close k calls).kernel.trace.count (.close c.clientFd_) =
      k.trace.count (.close c.clientFd_) + 1 := by
  have dropped := (c.deregister_local k calls).keeps
  rw [close_connected connected valid,
    safetyClose_closed (dropped.isSome.trans live) shutdown close]
  refine ⟨rfl, rfl, by simp, ?_⟩
  rw [Kernel.setDescriptor_trace, Kernel.count_record_close, Kernel.count_record, dropped.closes]
  intro impossible
  cases impossible

/-- A `shutdown` that fails keeps the descriptor open, and the object is
disconnected all the same. -/
theorem close_refused {c : ClientSocket} {k : Kernel} {calls : CloseCalls}
    (connected : c.isConnected_ = true) (valid : 0 ≤ c.clientFd_)
    (shutdown : calls.safetyClose.shutdown = false) :
    (c.close k calls).result = -1 ∧ (c.close k calls).client.isConnected_ = false ∧
    k.Keeps c.clientFd_ (c.close k calls).kernel := by
  have dropped := (c.deregister_local k calls).keeps
  rw [close_connected connected valid, safetyClose_refused (.inr shutdown)]
  exact ⟨rfl, rfl, dropped.trans (Kernel.keeps_record _ _ (fun _ h => by cases h))⟩

/-- The descriptor of a connected object is closed when both calls of `safetyClose`
succeed, and only then. -/
theorem close_opened_iff {c : ClientSocket} {k : Kernel} (connected : c.isConnected_ = true)
    (valid : 0 ≤ c.clientFd_) (live : (k.opened c.clientFd_).isSome = true) (calls : CloseCalls) :
    (c.close k calls).kernel.opened c.clientFd_ = none ↔
      calls.safetyClose.shutdown = true ∧ calls.safetyClose.close = true := by
  have dropped := (c.deregister_local k calls).keeps.isSome.trans live
  cases shutdown : calls.safetyClose.shutdown with
  | false =>
      obtain ⟨-, -, keeps⟩ := close_refused connected valid shutdown
      have open_ := keeps.isSome.trans live
      refine iff_of_false (fun closed => ?_) fun both => Bool.false_ne_true both.1
      exact Kernel.ne_of_free open_ closed rfl
  | true =>
      cases close : calls.safetyClose.close with
      | true =>
          exact iff_of_true (close_closed connected valid live shutdown close).2.2.1 ⟨rfl, rfl⟩
      | false =>
          refine iff_of_false (fun closed => ?_) fun both => Bool.false_ne_true both.2
          rw [close_connected connected valid, safetyClose_passed dropped shutdown, close] at closed
          have kept : ((c.deregister k calls).2.opened c.clientFd_) = none := by
            simpa [Kernel.close] using closed
          exact Kernel.ne_of_free dropped kept rfl

theorem close_clientFd (c : ClientSocket) (k : Kernel) (calls : CloseCalls) :
    (c.close k calls).client.clientFd_ = c.clientFd_ := by
  obtain ⟨-, returned⟩ | ⟨-, -, returned⟩ := c.close_cases k calls
  · rw [returned]
  · rw [returned]
    exact (c.deregister_local k calls).fd

theorem destroy_disconnected {c : ClientSocket} (k : Kernel) (calls : CloseCalls)
    (h : c.isConnected_ = false) : c.destroy k calls = k := by simp [destroy, h]

/-- The destructor finds nothing to close after a call of `close`. -/
theorem destroy_close (c : ClientSocket) (k : Kernel) (calls later : CloseCalls) :
    (c.close k calls).client.destroy (c.close k calls).kernel later =
      (c.close k calls).kernel := by
  obtain ⟨closed | negative, returned⟩ | ⟨-, -, returned⟩ := c.close_cases k calls
  · rw [returned]
    exact destroy_disconnected k later closed
  · rw [returned]
    simp [destroy, close, negative]
  · rw [returned]
    exact destroy_disconnected _ later rfl

theorem destroy_releases (c : ClientSocket) (k : Kernel) (calls : CloseCalls) :
    k.Releases c.clientFd_ (c.destroy k calls) := by
  unfold destroy
  split
  · exact c.close_releases k calls
  · exact .refl c.clientFd_ k

theorem destroy_sent (c : ClientSocket) (k : Kernel) (calls : CloseCalls) :
    (c.destroy k calls).sent = k.sent := by
  unfold destroy
  split
  · exact c.close_sent k calls
  · rfl

end ClientSocket

end Mux.Socket
