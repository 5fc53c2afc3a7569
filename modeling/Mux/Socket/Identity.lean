import Mux.Socket.Holder

/-!
# Events and the connections they were raised for

An event is delivered to the connection it was raised for when the client that
the handler is given, and the client that `closeSocket` closes because of it,
is the one that held the number when the kernel returned the batch. This fails
exactly where a number changes hands inside a batch and a later event of the
batch still names it.
-/

namespace Mux.Socket

open Transition

namespace SocketBase

variable {w : SocketBase} {o : Occurrence Script} {k₀ : Kernel} {bound : Nat} {socket_ : Int}
variable {t : Holders}

/-- A handler is called with the connection that `k₀` knows under the number, or with a
null pointer; `closeSocket` closes that connection. -/
def Delivers (k₀ : Kernel) : Call → Prop
  | .handle _ fd client => ∀ c, client = some c → k₀.owner fd = some c.id
  | .closeSocket fd entry => ∃ c, entry = some (some c) ∧ k₀.owner fd = some c.id

/-- Every call of the batch so far. -/
def Delivered (k₀ : Kernel) (w : SocketBase) : Prop := ∀ call ∈ w.calls, Delivers k₀ call

/-- The calls of a batch, between any two events of it. -/
def DeliversBatch (w : SocketBase) : Option (List (Occurrence Script)) → Prop
  | none => True
  | some events => Throughout (pollEvent scripted) (Delivered w.kernel) w.resume events

/-- The number of a readiness event is still held by the connection from before the
batch, or by none; and in the second case no failure is reported for it. -/
def Untangled (socket_ : Int) : Holders → Occurrence Script → Prop
  | none, _ => True
  | some holders, o => o.event.ident ≠ socket_ →
      holders o.event.ident = .original ∨
        (holders o.event.ident = .vacant ∧ (o.handler.ops ≠ [] ∨ 0 ≤ o.handler.result))

def UntangledBatch (w : SocketBase) : Option (List (Occurrence Script)) → Prop
  | none => True
  | some events => Along (Holders.follow w.socket_) (Untangled w.socket_) w.snapshot events

theorem delivered_step (follows : Follows k₀ bound socket_ w t) (before : Delivered k₀ w)
    (ordinary : Ordinary o) (untangled : Untangled socket_ t o) :
    Delivered k₀ (w.pollEvent scripted o) := by
  cases t with
  | none =>
      rw [pollEvent_stopped follows.1]
      exact before
  | some holders =>
      obtain ⟨valid, i, filter⟩ := ordinary
      obtain ⟨running, consistent, rfl, known, old, held⟩ := follows
      have works := pollEvent_works running valid filter
      intro call member
      obtain earlier | ⟨client, ⟨c, entry, added⟩ | ⟨vacant, added⟩⟩ := works.added member
      · exact before call earlier
      · -- a client is stored there, so that its number is in the original hands
        have owner : k₀.owner o.event.ident = some c.id := by
          have holds := held o.event.ident
          obtain original | ⟨vacant, -⟩ := untangled client
          · rw [original] at holds
            obtain ⟨c₀, entry₀, owner⟩ := holds
            obtain rfl := client_unique entry entry₀
            exact owner
          · exact absurd entry (holds.vacant_iff.mpr vacant).not_client
        obtain ⟨i, rfl⟩ | ⟨c', same, rfl⟩ := added
        · intro c₀ h
          obtain rfl := Option.some.inj h
          exact owner
        · exact ⟨c', rfl, by rw [same]; exact owner⟩
      · obtain ⟨i, rfl⟩ | ⟨untouched, refused, rfl⟩ := added
        · intro c₀ h
          cases h
        · obtain original | ⟨-, touched | kept⟩ := untangled client
          · have vacant' := (held o.event.ident).vacant_iff.mp vacant
            rw [original] at vacant'
            cases vacant'
          · exact absurd untouched touched
          · omega

theorem not_delivered_step (follows : Follows k₀ bound socket_ w t) (ordinary : Ordinary o)
    (tangled : ¬ Untangled socket_ t o) : ¬ Delivered k₀ (w.pollEvent scripted o) := by
  intro delivered
  cases t with
  | none => exact tangled trivial
  | some holders =>
      refine tangled ?_
      intro client
      obtain ⟨valid, i, filter⟩ := ordinary
      obtain ⟨running, consistent, rfl, known, old, held⟩ := follows
      have works := pollEvent_works running valid filter
      have holds := held o.event.ident
      cases holder : holders o.event.ident with
      | original => exact .inl rfl
      | vacant =>
          refine .inr ⟨rfl, ?_⟩
          have vacant := holds.vacant_iff.mpr holder
          by_cases untouched : o.handler.ops = []
          · refine .inr (not_lt.mp fun refused => ?_)
            obtain ⟨c, impossible, -⟩ :=
              delivered _ (works.closes_null client vacant untouched refused)
            cases impossible
          · exact .inl untouched
      | newcomer =>
          rw [holder] at holds
          obtain ⟨c, entry, new⟩ := holds
          obtain ⟨i, c', entry', called⟩ | ⟨vacant, -⟩ := works.handles client
          · obtain rfl := client_unique entry entry'
            have older := known _ _ (delivered _ called c rfl)
            omega
          · exact absurd entry vacant.not_client

/-- One batch of a sound server. -/
theorem deliversBatch_iff (sound : Sound w) {batch : Option (List (Occurrence Script))}
    (promised : Promised AcceptsFree w batch) : DeliversBatch w batch ↔ UntangledBatch w batch := by
  cases batch with
  | none => exact Iff.rfl
  | some events =>
      refine throughout_iff_along (A := fun w o => Ordinary o ∧ AcceptsFree w o)
        (R := fun w' t => Follows w.kernel w.nextId w.socket_ w' t ∧ Delivered w.kernel w')
        (fun w' t related => related.2) ?_ ?_ ⟨sound.follows, nofun⟩
        (promised.2.and_mem promised.1.ordinary)
      · intro w' t o ⟨follows, before⟩ ⟨ordinary, free⟩ untangled
        exact ⟨follows.pollEvent ordinary free,
          delivered_step follows before ordinary untangled⟩
      · intro w' t o ⟨follows, _⟩ ⟨ordinary, _⟩ tangled
        exact not_delivered_step follows ordinary tangled

/-- In every run of a server in which `accept` returns free numbers only, every event
reaches the connection it was raised for exactly when no batch has an event of a
number that changed hands earlier in the batch. -/
theorem delivers_iff_untangled {batches : List (Option (List (Occurrence Script)))}
    (start : Start w)
    (promised : Along (pollingHandler scripted) (Promised AcceptsFree) w batches) :
    Along (pollingHandler scripted) DeliversBatch w batches ↔
      Along (pollingHandler scripted) UntangledBatch w batches := by
  refine along_iff_along (I := Sound) (fun w batch sound => deliversBatch_iff sound) ?_
    start.sound promised
  intro w batch sound promised _
  exact pollingHandler_preserves (fun w sound => sound.resume)
    (fun w events _ legal => legal.ordinary)
    (fun w o sound ordinary free => sound.pollEvent ordinary free) sound promised

/-- A client is accepted and then served. -/
theorem delivers_served : Along (pollingHandler scripted) DeliversBatch listener
    [some [incoming 5], some [ready 5 .write 1, ready 5 .read 1]] := by
  refine (delivers_iff_untangled listener_start ?_).mpr ?_
  · refine ⟨⟨by decide, ?_, trivial⟩, ⟨by decide, ?_, ?_, trivial⟩, trivial⟩
    · exact fun _ => .inr ⟨by decide, rfl⟩
    · exact .client (by decide)
    · exact .client (by decide)
  · exact ⟨⟨fun client => absurd rfl client, trivial⟩,
      ⟨fun _ => .inl rfl, fun _ => .inl rfl, trivial⟩, trivial⟩

/-- The client under 5 fails to be read and is closed, the next connection is given the
number 5, and an event that was raised for the former client is still to come. -/
def recycled : List (Option (List (Occurrence Script))) :=
  [some [incoming 5], some [ready 5 .read (-1), incoming 5, ready 5 .write 1]]

/-- The write event of the first connection is delivered to the second one. -/
theorem recycled_not_delivers :
    Start listener ∧ Along (pollingHandler scripted) (Promised AcceptsFree) listener recycled ∧
      ¬ Along (pollingHandler scripted) DeliversBatch listener recycled := by
  refine ⟨listener_start, ?_, ?_⟩
  · refine ⟨⟨by decide, ?_, trivial⟩, ⟨by decide, ?_, ?_, ?_, trivial⟩, trivial⟩
    · exact fun _ => .inr ⟨by decide, rfl⟩
    · exact .client (by decide)
    · exact fun _ => .inr ⟨by decide, rfl⟩
    · exact .client (by decide)
  · rintro ⟨-, ⟨-, -, -, delivered⟩, -⟩
    have handled := delivered (.handle .write 5 (some (ClientSocket.established 2 5))) (by decide)
    have owner := handled _ rfl
    exact absurd owner (by decide)

end SocketBase

end Mux.Socket
