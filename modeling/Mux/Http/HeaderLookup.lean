import Mux.Http.HeaderCalls

/-!
# Looking up a header

A lookup enters a name that has no field. The values that later lookups find are the
same as without it; the printed text has one field more, until the name is stored,
removed or cleared.
-/

namespace Mux.Http

open Text Transition

namespace HeaderCall

def isLookup : HeaderCall → Bool
  | .getHeader _ => true
  | _ => false

/-- The field of a name after one more call, which no lookup changes. -/
def field (name : Str) (found : Option Str) : HeaderCall → Option Str
  | .setHeader key value => if name = key then some value else found
  | .getHeader _ => found
  | .removeHeader key => if name = key then none else found
  | .clearHeader => none

/-- The call stores the name or removes it. -/
def Settles (name : Str) : HeaderCall → Prop
  | .setHeader key _ => name = key
  | .getHeader _ => False
  | .removeHeader key => name = key
  | .clearHeader => True

end HeaderCall

def withoutLookups (calls : List HeaderCall) : List HeaderCall :=
  calls.filter fun call => !call.isLookup

/-- The value of the last `setHeader` of a name that no removal followed. -/
def fieldAfter (calls : List HeaderCall) (name : Str) : Option Str :=
  calls.foldl (HeaderCall.field name) none

/-- The name was looked up while it had no field, and no call has settled it since. -/
def Leftover (calls : List HeaderCall) (name : Str) : Prop :=
  Since (fun before call => call = .getHeader name ∧ fieldAfter before name = none)
    (fun call => ¬ call.Settles name) calls

theorem fieldAfter_append (calls : List HeaderCall) (call : HeaderCall) (name : Str) :
    fieldAfter (calls ++ [call]) name = call.field name (fieldAfter calls name) := by
  rw [fieldAfter, List.foldl_append]
  rfl

theorem heldAfter_append (calls : List HeaderCall) (call : HeaderCall) (name : Str) :
    heldAfter (calls ++ [call]) name = call.held name (heldAfter calls name) := by
  rw [heldAfter, List.foldl_append]
  rfl

theorem leftover_append {calls : List HeaderCall} {call : HeaderCall} {name : Str} :
    Leftover (calls ++ [call]) name ↔
      call = .getHeader name ∧ fieldAfter calls name = none ∨
        Leftover calls name ∧ ¬ call.Settles name :=
  since_concat

theorem Leftover.absent {calls : List HeaderCall} {name : Str} (h : Leftover calls name) :
    fieldAfter calls name = none := by
  induction calls using List.reverseRecOn with
  | nil => exact absurd h not_since_nil
  | append_singleton calls call ih =>
      rw [fieldAfter_append]
      obtain ⟨rfl, absent⟩ | ⟨earlier, unsettled⟩ := leftover_append.mp h
      · exact absent
      · rw [ih earlier]
        cases call with
        | setHeader key value => exact if_neg unsettled
        | getHeader key => rfl
        | removeHeader key => exact if_neg unsettled
        | clearHeader => rfl

/-- What the map holds under a name: its field, or the empty value of a lookup. -/
theorem heldAfter_eq_some {calls : List HeaderCall} {name value : Str} :
    heldAfter calls name = some value ↔
      fieldAfter calls name = some value ∨ Leftover calls name ∧ value = [] := by
  induction calls using List.reverseRecOn generalizing value with
  | nil =>
      refine iff_of_false (by simp [heldAfter]) ?_
      rintro (field | ⟨leftover, -⟩)
      · cases field
      · exact not_since_nil leftover
  | append_singleton calls call ih =>
      rw [heldAfter_append, fieldAfter_append, leftover_append]
      cases call with
      | setHeader key stored =>
          by_cases same : name = key
          · simp [HeaderCall.held, HeaderCall.field, HeaderCall.Settles, same]
          · simp [HeaderCall.held, HeaderCall.field, HeaderCall.Settles, same, ih]
      | getHeader key =>
          by_cases same : name = key
          · subst same
            cases held : heldAfter calls name with
            | none =>
                have absent : fieldAfter calls name = none := by
                  rw [Option.eq_none_iff_forall_ne_some]
                  intro found field
                  have impossible := ih.mpr (.inl field)
                  rw [held] at impossible
                  cases impossible
                simp [HeaderCall.held, HeaderCall.field, HeaderCall.Settles, absent, eq_comm]
            | some found =>
                obtain field | ⟨leftover, rfl⟩ := ih.mp held
                · have settled : ¬ Leftover calls name := fun leftover => by
                    rw [leftover.absent] at field
                    cases field
                  simp [HeaderCall.held, HeaderCall.field, field, settled]
                · simp [HeaderCall.held, HeaderCall.field, HeaderCall.Settles, leftover,
                    leftover.absent, eq_comm]
          · simp [HeaderCall.held, HeaderCall.field, HeaderCall.Settles, same, Ne.symm same, ih]
      | removeHeader key =>
          by_cases same : name = key
          · simp [HeaderCall.held, HeaderCall.field, HeaderCall.Settles, same]
          · simp [HeaderCall.held, HeaderCall.field, HeaderCall.Settles, same, ih]
      | clearHeader => simp [HeaderCall.held, HeaderCall.field, HeaderCall.Settles]

/-- A lookup of a name without a field finds the empty value, entered before or now. -/
theorem heldAfter_getD (calls : List HeaderCall) (name : Str) :
    (heldAfter calls name).getD [] = (fieldAfter calls name).getD [] := by
  cases held : heldAfter calls name with
  | none =>
      cases field : fieldAfter calls name with
      | none => rfl
      | some value =>
          have impossible := heldAfter_eq_some.mpr (.inl field)
          rw [held] at impossible
          cases impossible
  | some value =>
      obtain field | ⟨leftover, rfl⟩ := heldAfter_eq_some.mp held
      · rw [field]
      · rw [leftover.absent]
        rfl

theorem heldAfter_withoutLookups (calls : List HeaderCall) (name : Str) :
    heldAfter (withoutLookups calls) name = fieldAfter calls name := by
  induction calls using List.reverseRecOn with
  | nil => rfl
  | append_singleton calls call ih =>
      rw [fieldAfter_append, ← ih, withoutLookups, List.filter_append]
      cases call with
      | getHeader key =>
          rw [List.filter_cons_of_neg (by simp [HeaderCall.isLookup]), List.filter_nil,
            List.append_nil]
          rfl
      | setHeader key value => exact heldAfter_append _ _ _
      | removeHeader key => exact heldAfter_append _ _ _
      | clearHeader => exact heldAfter_append _ _ _

/-! ## The printed lines -/

/-- The text ends where a line ends. -/
def Ended (front : Str) : Prop := front = [] ∨ ∃ text, front = text ++ ['\n']

theorem Ended.getlines_append {front : Str} (ended : Ended front) (rest : Str) :
    getlines (front ++ rest) = getlines front ++ getlines rest := by
  obtain rfl | ⟨text, rfl⟩ := ended
  · rfl
  · rw [List.append_assoc]
    exact getlines_append_feed text rest

theorem ended_field (field : Str × Str) : Ended (fieldText field ++ crlf) :=
  .inr ⟨fieldText field ++ ['\r'], by simp [crlf]⟩

/-- The lines of a text that ends in front of the fields, and those of each field. -/
theorem mem_getlines_fields {front : Str} (ended : Ended front) (fields : List (Str × Str))
    (line : Str) :
    line ∈ getlines (front ++ fields.flatMap fun field => fieldText field ++ crlf) ↔
      line ∈ getlines front ∨ ∃ field ∈ fields, line ∈ getlines (fieldText field ++ crlf) := by
  rw [ended.getlines_append, List.mem_append]
  refine or_congr_right ?_
  induction fields with
  | nil => simp
  | cons field fields ih =>
      rw [List.flatMap_cons, (ended_field field).getlines_append, List.mem_append, ih,
        List.exists_mem_cons_iff]

theorem mem_getlines_after {front : Str} (ended : Ended front) (calls : List HeaderCall)
    (order : (HTTPHeader.after calls).headers.Listing) (line : Str) :
    line ∈ getlines (front ++ (HTTPHeader.after calls).toString order) ↔
      line ∈ getlines front ∨ ∃ key value, heldAfter calls key = some value ∧
        line ∈ getlines (fieldText (key, value) ++ crlf) := by
  refine (mem_getlines_fields ended order.pairs line).trans (or_congr_right ?_)
  constructor
  · rintro ⟨⟨key, value⟩, member, printed⟩
    refine ⟨key, value, ?_, printed⟩
    rw [← HTTPHeader.find?_after]
    exact (order.mem_iff key value).mp member
  · rintro ⟨key, value, held, printed⟩
    rw [← HTTPHeader.find?_after] at held
    exact ⟨(key, value), (order.mem_iff key value).mpr held, printed⟩

/-- Every name that a lookup has left behind prints only lines that are printed anyway, in
front of the fields or for one of them. -/
def NothingNew (front : Str) (calls : List HeaderCall) : Prop :=
  ∀ name, Leftover calls name → ∀ line ∈ getlines (fieldText (name, []) ++ crlf),
    line ∈ getlines front ∨ ∃ key value, fieldAfter calls key = some value ∧
      line ∈ getlines (fieldText (key, value) ++ crlf)

/-- The lookups of a sequence of calls only look: each of them, and each that may follow,
finds the field that the other calls have left, with and without the lookups before it;
and `text`, printed after the calls, has the lines of `text'`, printed without the
lookups. -/
structure OnlyLooks (found : List HeaderCall → Str → Str) (calls : List HeaderCall)
    (text text' : Str) : Prop where
  field : ∀ before, before <+: calls → ∀ key, found before key = (fieldAfter before key).getD []
  deleted : ∀ before, before <+: calls → ∀ key,
    found before key = found (withoutLookups before) key
  lines : ∀ line, line ∈ getlines text ↔ line ∈ getlines text'

namespace HTTPHeader

/-- What a lookup finds after some calls. -/
def found (calls : List HeaderCall) (key : Str) : Str := ((after calls).getHeader key).1

theorem found_eq (calls : List HeaderCall) (key : Str) :
    found calls key = (fieldAfter calls key).getD [] := by
  rw [found, getHeader_fst, find?_after, heldAfter_getD]

end HTTPHeader

/-- Whatever is printed in front of the fields. -/
theorem onlyLooks_iff {front : Str} (ended : Ended front) (calls : List HeaderCall)
    (order : (HTTPHeader.after calls).headers.Listing)
    (order' : (HTTPHeader.after (withoutLookups calls)).headers.Listing) :
    OnlyLooks HTTPHeader.found calls (front ++ (HTTPHeader.after calls).toString order)
        (front ++ (HTTPHeader.after (withoutLookups calls)).toString order') ↔
      NothingNew front calls := by
  have kept (line : Str) := mem_getlines_after ended calls order line
  have deleted (line : Str) := mem_getlines_after ended (withoutLookups calls) order' line
  simp only [heldAfter_withoutLookups] at deleted
  constructor
  · intro looks name leftover line printed
    rw [← deleted, ← looks.lines, kept]
    exact .inr ⟨name, [], heldAfter_eq_some.mpr (.inr ⟨leftover, rfl⟩), printed⟩
  · intro nothing
    refine ⟨fun before _ key => HTTPHeader.found_eq before key, fun before _ key => ?_,
      fun line => ?_⟩
    · rw [HTTPHeader.found_eq, HTTPHeader.found, HTTPHeader.getHeader_fst, HTTPHeader.find?_after,
        heldAfter_withoutLookups]
    · rw [kept, deleted]
      constructor
      · rintro (printed | ⟨key, value, held, printed⟩)
        · exact .inl printed
        · obtain field | ⟨leftover, rfl⟩ := heldAfter_eq_some.mp held
          · exact .inr ⟨key, value, field, printed⟩
          · exact nothing key leftover line printed
      · rintro (printed | ⟨key, value, field, printed⟩)
        · exact .inl printed
        · exact .inr ⟨key, value, heldAfter_eq_some.mpr (.inl field), printed⟩

namespace Request

/-- The lines in front of the headers. `pathData` is the C string that the pointer of the
path refers to. -/
def front (r : Request) (pathData : Str) : Str :=
  r.method_ ++ " ".toList ++ pathData ++ " ".toList ++ r.protocol_ ++ "\n".toList ++
    "Host: ".toList ++ r.host_ ++ "\n".toList ++
    "Port: ".toList ++ r.port_ ++ "\n".toList ++
    "Query: ".toList ++ r.query_ ++ "\n".toList ++
    "Body: ".toList ++ r.body_ ++ "\n".toList

def toString (r : Request) (pathData : Str) (order : r.headers_.headers.Listing) : Str :=
  r.front pathData ++ r.headers_.toString order

/-- What a lookup finds after some calls on the headers. -/
def found (r : Request) (calls : List HeaderCall) (key : Str) : Str :=
  ((r.afterHeaders calls).getHeader key).1

theorem ended_front (r : Request) (pathData : Str) : Ended (r.front pathData) :=
  .inr ⟨_, rfl⟩

end Request

/-- The lookups only look exactly when the names that they leave behind print nothing new,
for calls on a new header map and for calls on a request. -/
theorem onlyLooks_iff_nothingNew (calls : List HeaderCall) :
    (∀ (order : (HTTPHeader.after calls).headers.Listing)
        (order' : (HTTPHeader.after (withoutLookups calls)).headers.Listing),
      OnlyLooks HTTPHeader.found calls ((HTTPHeader.after calls).toString order)
          ((HTTPHeader.after (withoutLookups calls)).toString order') ↔ NothingNew [] calls) ∧
    ∀ (r : Request) (pathData : Str)
        (order : (r.afterHeaders calls).headers_.headers.Listing)
        (order' : (r.afterHeaders (withoutLookups calls)).headers_.headers.Listing),
      OnlyLooks r.found calls ((r.afterHeaders calls).toString pathData order)
          ((r.afterHeaders (withoutLookups calls)).toString pathData order') ↔
        NothingNew (r.front pathData) calls := by
  refine ⟨fun order order' => onlyLooks_iff (.inl rfl) calls order order', ?_⟩
  intro r pathData order order'
  have found : r.found = HTTPHeader.found := by
    funext calls key
    rw [Request.found, r.afterHeaders_eq]
    rfl
  revert order order'
  rw [found, r.afterHeaders_eq, r.afterHeaders_eq]
  exact onlyLooks_iff (r.ended_front pathData) calls

/-- A name that has no field is looked up. -/
def lookedUp : List HeaderCall := [.getHeader ['X']]

/-- The lookup is printed. -/
theorem lookedUp_not_onlyLooks : ¬ OnlyLooks HTTPHeader.found lookedUp
    ((HTTPHeader.after lookedUp).toString (.single _ _))
    ((HTTPHeader.after (withoutLookups lookedUp)).toString .empty) := by
  intro looks
  have line := (looks.lines "X: \r".toList).mp
  revert line
  decide

end Mux.Http
