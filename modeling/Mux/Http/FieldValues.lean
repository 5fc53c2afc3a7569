import Mux.Http.Message
import Mux.Http.Request

/-!
# The values of header lines

The value of a field may follow its colon at once, behind one blank or behind
several, and it may be empty. The header loop skips the colon and one more
character, whatever that is, and refuses a line that has no such character.
-/

namespace Mux.Http

open Text

/-- A header line: a name, a colon, and what stands behind it. -/
structure FieldLine where
  name : Str
  value : Str
  nonempty : name ≠ []
  name_plain : ':' ∉ name ∧ '\n' ∉ name
  value_plain : '\r' ∉ value ∧ '\n' ∉ value

def FieldLine.text (f : FieldLine) : Str := f.name ++ ':' :: f.value

/-- The lines, each ended by a line feed, an empty line, and whatever comes behind it. -/
def headerSection (fields : List FieldLine) (behind : Str) : Str :=
  fields.flatMap (fun f => f.text ++ ['\n']) ++ '\n' :: behind

/-- What a line says about its field: the text behind the colon without the blanks in
front. -/
def trimmed (value : Str) : Str := value.dropWhile isBlank

/-- The text behind the colon on the last line of a name. -/
def lastValue : List FieldLine → Str → Option Str
  | [], _ => none
  | f :: fields, name => (lastValue fields name).or (if f.name = name then some f.value else none)

/-- Exactly one blank stands in front of the value. -/
def BlankAhead (value : Str) : Prop :=
  ∃ blank rest, value = blank :: rest ∧ isBlank blank = true ∧
    ∀ c ∈ rest.head?, isBlank c = false

theorem trimmed_eq_self {rest : Str} :
    trimmed rest = rest ↔ ∀ c ∈ rest.head?, isBlank c = false := by
  cases rest with
  | nil => simp [trimmed]
  | cons c rest =>
      cases blank : isBlank c with
      | false => simp [trimmed, blank]
      | true =>
          have shorter := (List.dropWhile_suffix isBlank (l := rest)).length_le
          refine iff_of_false (fun same => ?_) (by simp [blank])
          rw [trimmed, List.dropWhile_cons_of_pos blank] at same
          rw [same, List.length_cons] at shorter
          omega

/-- The loop drops one character, and that is right when it is the only blank. -/
theorem tail_eq_trimmed {value : Str} (nonempty : value ≠ []) :
    value.tail = trimmed value ↔ BlankAhead value := by
  cases value with
  | nil => exact absurd rfl nonempty
  | cons c rest =>
      cases blank : isBlank c with
      | false =>
          refine iff_of_false (fun same => ?_) ?_
          · rw [trimmed, List.dropWhile_cons_of_neg (by simp [blank])] at same
            exact List.cons_ne_self _ _ same.symm
          · rintro ⟨_, _, same, found, -⟩
            obtain ⟨rfl, -⟩ := List.cons.inj same
            rw [blank] at found
            cases found
      | true =>
          have dropped : trimmed (c :: rest) = trimmed rest :=
            List.dropWhile_cons_of_pos blank
          rw [List.tail_cons, dropped, eq_comm, trimmed_eq_self]
          constructor
          · exact fun plain => ⟨c, rest, rfl, blank, plain⟩
          · rintro ⟨_, _, same, -, plain⟩
            obtain ⟨-, rfl⟩ := List.cons.inj same
            exact plain

theorem exists_of_lastValue {fields : List FieldLine} {name value : Str}
    (h : lastValue fields name = some value) : ∃ f ∈ fields, f.value = value := by
  induction fields with
  | nil => cases h
  | cons f fields ih =>
      rw [lastValue, Option.or_eq_some_iff] at h
      obtain later | ⟨-, here⟩ := h
      · obtain ⟨g, member, same⟩ := ih later
        exact ⟨g, List.mem_cons_of_mem _ member, same⟩
      · split at here
        · exact ⟨f, List.mem_cons_self, Option.some.inj here⟩
        · cases here

theorem getlines_headerSection (fields : List FieldLine) (behind : Str) :
    getlines (headerSection fields behind) =
      fields.map FieldLine.text ++ [] :: getlines behind := by
  induction fields with
  | nil => rfl
  | cons f fields ih =>
      have line : '\n' ∉ f.text := by
        simp [FieldLine.text, f.name_plain.2, f.value_plain.2]
      have first := getlines_append_newline line (headerSection fields behind)
      rw [ih] at first
      rw [List.map_cons, List.cons_append, ← first]
      simp [headerSection]

namespace Request

variable {r t : Request} {fields : List FieldLine}

/-- What the loop stores for a line. -/
def storeField (r : Request) (f : FieldLine) : Request := r.setHeader f.name f.value.tail

theorem parseHeaders_empty {f : FieldLine} (empty : f.value = []) (lines : List Str) :
    r.parseHeaders (f.text :: lines) = .throws .out_of_range r := by
  have colon : f.text.idxOf? ':' = some f.name.length :=
    idxOf?_append_cons f.name_plain.1 f.value
  have short : ¬ f.name.length + 2 ≤ f.text.length := by
    simp [FieldLine.text, empty]
  rw [parseHeaders, if_neg (by simp [FieldLine.text]), colon]
  simp only [substr, if_neg short]

theorem parseHeaders_stored {f : FieldLine} (nonempty : f.value ≠ []) (lines : List Str) :
    r.parseHeaders (f.text :: lines) = (r.storeField f).parseHeaders lines := by
  have colon : f.text.idxOf? ':' = some f.name.length :=
    idxOf?_append_cons f.name_plain.1 f.value
  have positive := List.length_pos_of_ne_nil nonempty
  have fits : f.name.length + 2 ≤ f.text.length := by
    simp only [FieldLine.text, List.length_append, List.length_cons]
    omega
  have behind : f.text.drop (f.name.length + 2) = f.value.tail := by
    simp [FieldLine.text, ← List.drop_drop, List.drop_one]
  rw [parseHeaders, if_neg (by simp [FieldLine.text]), colon]
  simp only [substr, if_pos fits, behind, storeField]
  simp [FieldLine.text]

/-- The loop returns at the empty line exactly when no value is missing. -/
theorem parseHeaders_eq_ok (lines : List Str) :
    r.parseHeaders (fields.map FieldLine.text ++ [] :: lines) = .ok t ↔
      (∀ f ∈ fields, f.value ≠ []) ∧ t = fields.foldl storeField r := by
  induction fields generalizing r with
  | nil => simp [parseHeaders, eq_comm]
  | cons f fields ih =>
      rw [List.map_cons, List.cons_append, List.forall_mem_cons, List.foldl_cons]
      by_cases empty : f.value = []
      · rw [parseHeaders_empty empty]
        exact iff_of_false (fun returned => by cases returned) fun h => h.1.1 empty
      · rw [parseHeaders_stored empty, ih]
        exact and_congr_left fun _ => (and_iff_right empty).symm

theorem find?_foldl_storeField (r : Request) (fields : List FieldLine) (name : Str) :
    (fields.foldl storeField r).headers_.headers.find? name =
      ((lastValue fields name).map List.tail).or (r.headers_.headers.find? name) := by
  induction fields generalizing r with
  | nil => rfl
  | cons f fields ih =>
      rw [List.foldl_cons, ih, lastValue]
      cases lastValue fields name with
      | some value => rfl
      | none =>
          by_cases same : f.name = name
          · subst same
            simp [storeField, setHeader]
          · simp [storeField, setHeader, same, UnorderedMap.find?_insert_ne _ _ (Ne.symm same)]

/-- The loop accepts the lines, and stores for each name the value on its last line. -/
def LosesNothing (r : Request) (fields : List FieldLine) (behind : Str) : Prop :=
  ∃ t, r.parseHeaders (getlines (headerSection fields behind)) = .ok t ∧
    ∀ name value, lastValue fields name = some value →
      t.headers_.headers.find? name = some (trimmed value)

/-- Something stands behind every colon; on the last line of a name it begins with exactly
one blank. -/
def OneBlankEach (fields : List FieldLine) : Prop :=
  (∀ f ∈ fields, f.value ≠ []) ∧
    ∀ name value, lastValue fields name = some value → BlankAhead value

/-- The header loop keeps the values exactly when it skips one blank on the last line of
each name and no line ends at its colon. -/
theorem losesNothing_iff (r : Request) (fields : List FieldLine) (behind : Str) :
    LosesNothing r fields behind ↔ OneBlankEach fields := by
  have value_iff (nonempty : ∀ f ∈ fields, f.value ≠ []) (name value : Str)
      (last : lastValue fields name = some value) :
      (fields.foldl storeField r).headers_.headers.find? name = some (trimmed value) ↔
        BlankAhead value := by
    obtain ⟨f, member, rfl⟩ := exists_of_lastValue last
    rw [find?_foldl_storeField, last, ← tail_eq_trimmed (nonempty f member)]
    simp
  unfold LosesNothing
  simp only [getlines_headerSection, parseHeaders_eq_ok]
  constructor
  · rintro ⟨_, ⟨nonempty, rfl⟩, stored⟩
    exact ⟨nonempty, fun name value last =>
      (value_iff nonempty name value last).mp (stored name value last)⟩
  · rintro ⟨nonempty, blank⟩
    exact ⟨_, ⟨nonempty, rfl⟩, fun name value last =>
      (value_iff nonempty name value last).mpr (blank name value last)⟩

/-- The line `a:b`. -/
def tight : FieldLine where
  name := ['a']
  value := ['b']
  nonempty := by decide
  name_plain := by decide
  value_plain := by decide

/-- The loop stores an empty value for `a:b`. -/
theorem tight_not_losesNothing : ¬ LosesNothing (new 4) [tight] [] := by
  rintro ⟨t, returned, stored⟩
  obtain rfl := Outcome.ok.inj returned
  have kept := stored ['a'] ['b'] rfl
  revert kept
  decide

end Request

end Mux.Http
