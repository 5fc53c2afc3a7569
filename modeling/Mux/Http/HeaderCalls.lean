import Mux.Http.Request
import Mux.Http.Response

/-!
# Calls on header maps

Requests and responses forward their header calls to the map that they own. Any text
may be a name or a value, and the printer writes it as it is: a line end inside of it
is one more line end of the printed text.
-/

namespace Mux.Http

open Text Transition

inductive HeaderCall where
  | setHeader (key value : Str)
  | getHeader (key : Str)
  | removeHeader (key : Str)
  | clearHeader
  deriving DecidableEq

/-- What a map holds under a name after one more call. -/
def HeaderCall.held (name : Str) (found : Option Str) : HeaderCall → Option Str
  | .setHeader key value => if name = key then some value else found
  | .getHeader key => if name = key then some (found.getD []) else found
  | .removeHeader key => if name = key then none else found
  | .clearHeader => none

/-- What a new map holds under a name after some calls. -/
def heldAfter (calls : List HeaderCall) (name : Str) : Option Str :=
  calls.foldl (HeaderCall.held name) none

namespace HTTPHeader

def apply (h : HTTPHeader) : HeaderCall → HTTPHeader
  | .setHeader key value => h.setHeader key value
  | .getHeader key => (h.getHeader key).2
  | .removeHeader key => h.removeHeader key
  | .clearHeader => h.clearHeader

/-- A new map after some calls. -/
def after (calls : List HeaderCall) : HTTPHeader := run apply {} calls

theorem find?_apply (h : HTTPHeader) (call : HeaderCall) (name : Str) :
    (h.apply call).headers.find? name = call.held name (h.headers.find? name) := by
  cases call with
  | setHeader key value => exact UnorderedMap.find?_insert_ite _ key name value
  | getHeader key =>
      by_cases same : name = key
      · rw [HeaderCall.held, if_pos same, same, ← getHeader_fst]
        exact h.find?_getHeader key
      · rw [HeaderCall.held, if_neg same]
        cases found : h.headers.find? key with
        | none =>
            simp only [apply, getHeader, UnorderedMap.subscript_absent found]
            exact UnorderedMap.find?_insert_ne _ _ same
        | some value => simp only [apply, getHeader, UnorderedMap.subscript_present found]
  | removeHeader key => exact UnorderedMap.find?_erase_ite _ key name
  | clearHeader => exact UnorderedMap.find?_empty name

theorem find?_run (h : HTTPHeader) (calls : List HeaderCall) (name : Str) :
    (run apply h calls).headers.find? name =
      calls.foldl (HeaderCall.held name) (h.headers.find? name) := by
  induction calls generalizing h with
  | nil => rfl
  | cons call calls ih => rw [run_cons, ih, find?_apply, List.foldl_cons]

theorem find?_after (calls : List HeaderCall) (name : Str) :
    (after calls).headers.find? name = heldAfter calls name := find?_run {} calls name

end HTTPHeader

/-! ## The owners of a map -/

namespace Request

def removeHeader (r : Request) (key : Str) : Request :=
  { r with headers_ := r.headers_.removeHeader key }

def clearHeader (r : Request) : Request := { r with headers_ := r.headers_.clearHeader }

def applyHeader (r : Request) : HeaderCall → Request
  | .setHeader key value => r.setHeader key value
  | .getHeader key => (r.getHeader key).2
  | .removeHeader key => r.removeHeader key
  | .clearHeader => r.clearHeader

/-- A request whose map was new before the calls. -/
def afterHeaders (r : Request) (calls : List HeaderCall) : Request :=
  run applyHeader { r with headers_ := {} } calls

theorem run_applyHeader (r : Request) (calls : List HeaderCall) :
    run applyHeader r calls = { r with headers_ := run HTTPHeader.apply r.headers_ calls } := by
  induction calls generalizing r with
  | nil => rfl
  | cons call calls ih =>
      rw [run_cons, ih]
      cases call <;> rfl

theorem afterHeaders_eq (r : Request) (calls : List HeaderCall) :
    r.afterHeaders calls = { r with headers_ := .after calls } :=
  run_applyHeader { r with headers_ := {} } calls

end Request

/-- The calls of a response that are about its headers. -/
inductive FieldCall where
  | addHeader (name value : Str)
  | setContentType (type : Str)
  | removeHeader (name : Str)
  deriving DecidableEq

/-- The call of the map that a call of the response ends in. -/
def FieldCall.forwarded : FieldCall → HeaderCall
  | .addHeader name value => .setHeader name value
  | .setContentType type => .setHeader "Content-Type".toList type
  | .removeHeader name => .removeHeader name

namespace Response

def applyField (r : Response) : FieldCall → Response
  | .addHeader name value => r.addHeader name value
  | .setContentType type => r.setContentType type
  | .removeHeader name => r.removeHeader name

def afterFields (r : Response) (calls : List FieldCall) : Response :=
  run applyField { r with headers_ := {} } calls

theorem run_applyField (r : Response) (calls : List FieldCall) :
    (run applyField r calls).headers_ =
      run HTTPHeader.apply r.headers_ (calls.map FieldCall.forwarded) := by
  induction calls generalizing r with
  | nil => rfl
  | cons call calls ih =>
      rw [run_cons, ih, List.map_cons, run_cons]
      cases call <;> rfl

theorem afterFields_headers (r : Response) (calls : List FieldCall) :
    (r.afterFields calls).headers_ = .after (calls.map FieldCall.forwarded) :=
  run_applyField { r with headers_ := {} } calls

end Response

/-! ## One line for each field -/

/-- The lines of the printed text, split at CRLF: as many non-empty ones as the map has
fields, and none that is empty in front of the last line end. -/
def OneLineEach (h : HTTPHeader) (order : h.headers.Listing) : Prop :=
  ((crlfLines (h.toString order)).filter (· ≠ [])).length = order.pairs.length ∧
    ∀ line ∈ (crlfLines (h.toString order)).dropLast, line ≠ []

/-- No line ends inside a name or a value that the map holds after the calls. -/
def Unbroken (calls : List HeaderCall) : Prop :=
  ∀ name value, heldAfter calls name = some value → ¬ crlf <:+: name ∧ ¬ crlf <:+: value

/-- The text that the printer writes for a field, without the line end. -/
def fieldText (field : Str × Str) : Str := field.1 ++ ": ".toList ++ field.2

theorem unbroken_fieldText {field : Str × Str} :
    ¬ crlf <:+: fieldText field ↔ ¬ crlf <:+: field.1 ∧ ¬ crlf <:+: field.2 := by
  constructor
  · intro unbroken
    exact ⟨fun found => unbroken (found.trans ⟨[], ": ".toList ++ field.2, by simp [fieldText]⟩),
      fun found => unbroken (found.trans ⟨field.1 ++ ": ".toList, [], by simp [fieldText]⟩)⟩
  · rintro ⟨name, value⟩ ⟨front, rest, same⟩
    have split : front ++ '\r' :: '\n' :: rest = field.1 ++ ':' :: ' ' :: field.2 := by
      simpa [fieldText, crlf] using same
    -- The first part ends in front of the line end or behind it: the colon and the blank
    -- stand in between.
    obtain ⟨inner, left, right⟩ | ⟨inner, left, right⟩ := List.append_eq_append_iff.mp split
    · rcases inner with _ | ⟨c, _ | ⟨d, inner⟩⟩
      · simp at right
      · simp at right
      · simp only [List.cons_append, List.cons.injEq] at right
        exact name ⟨front, inner, by rw [left, ← right.1, ← right.2.1]; simp [crlf]⟩
    · rcases inner with _ | ⟨c, _ | ⟨d, inner⟩⟩
      · simp at right
      · simp at right
      · simp only [List.cons_append, List.cons.injEq] at right
        exact value ⟨inner, rest, by rw [right.2.2]; simp [crlf]⟩

theorem crlfLines_fields (fields : List (Str × Str)) :
    crlfLines (fields.flatMap fun field => fieldText field ++ crlf) =
      (fields.flatMap fun field => crlfLines (fieldText field)) ++ [[]] := by
  induction fields with
  | nil => rfl
  | cons field fields ih =>
      rw [List.flatMap_cons, List.flatMap_cons, crlfLines_append, ih, List.append_assoc]

/-- The printer keeps to one line for each field exactly when no name and no value has a
line end in it. -/
theorem oneLineEach_iff (h : HTTPHeader) (order : h.headers.Listing) :
    OneLineEach h order ↔
      ∀ field ∈ order.pairs, ¬ crlf <:+: field.1 ∧ ¬ crlf <:+: field.2 := by
  have lines : crlfLines (h.toString order) =
      (order.pairs.flatMap fun field => crlfLines (fieldText field)) ++ [[]] :=
    crlfLines_fields order.pairs
  have one := length_flatMap_eq (l := order.pairs) fun field => crlfLines_ne_nil (fieldText field)
  simp only [crlfLines_length_eq_one, unbroken_fieldText] at one
  rw [OneLineEach, lines, List.dropLast_concat, List.filter_append,
    List.filter_cons_of_neg (by simp),
    List.filter_nil, List.append_nil]
  constructor
  · rintro ⟨count, nonempty⟩
    rw [List.filter_eq_self.mpr (by simpa using nonempty)] at count
    exact one.mp count
  · intro unbroken
    have nonempty : ∀ line ∈ order.pairs.flatMap fun field => crlfLines (fieldText field),
        line ≠ [] := by
      intro line member
      obtain ⟨field, here, member⟩ := List.mem_flatMap.mp member
      rw [crlfLines_unbroken (unbroken_fieldText.mpr (unbroken field here)),
        List.mem_singleton] at member
      simp [member, fieldText]
    rw [List.filter_eq_self.mpr (by simpa using nonempty)]
    exact ⟨one.mpr unbroken, nonempty⟩

theorem oneLineEach_after (calls : List HeaderCall)
    (order : (HTTPHeader.after calls).headers.Listing) :
    OneLineEach (.after calls) order ↔ Unbroken calls := by
  rw [oneLineEach_iff]
  constructor
  · intro unbroken name value held
    rw [← HTTPHeader.find?_after] at held
    exact unbroken (name, value) ((order.mem_iff name value).mpr held)
  · rintro unbroken ⟨name, value⟩ member
    refine unbroken name value ?_
    rw [← HTTPHeader.find?_after]
    exact (order.mem_iff name value).mp member

/-- After any calls on a map, or on a request or a response that owns it, the printed text
has one line for each field exactly when no stored name or value has a line end in it. -/
theorem oneLineEach_iff_unbroken :
    (∀ calls order, OneLineEach (.after calls) order ↔ Unbroken calls) ∧
    (∀ (r : Request) calls order,
      OneLineEach (r.afterHeaders calls).headers_ order ↔ Unbroken calls) ∧
    ∀ (r : Response) calls order,
      OneLineEach (r.afterFields calls).headers_ order ↔
        Unbroken (calls.map FieldCall.forwarded) := by
  refine ⟨oneLineEach_after, fun r calls => ?_, fun r calls => ?_⟩
  · rw [r.afterHeaders_eq]
    exact oneLineEach_after calls
  · rw [r.afterFields_headers]
    exact oneLineEach_after _

/-- A value that goes on with a field of its own. -/
def injected : List HeaderCall := [.setHeader ['a'] "b\r\nc: d".toList]

/-- The map has one key, and two lines are printed. -/
theorem injected_not_oneLineEach : ¬ OneLineEach (.after injected) (.single _ _) := by
  rintro ⟨count, -⟩
  revert count
  decide

end Mux.Http
