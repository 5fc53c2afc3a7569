import Mux.Http.Request

/-!
# The header encoder and the header loop

`HTTPHeader.toString` ends its lines with CRLF, and `getline` cuts at the LF
alone. The carriage return stays on every line the loop of `Request.parse` sees:
the values keep it, and the line that should end the loop is not empty.
-/

namespace Mux.Http

open Text

namespace HTTPHeader

/-- Names and values that the encoder can put on one line each. -/
structure Encodable (h : HTTPHeader) : Prop where
  nonempty : ∀ name value, h.headers.find? name = some value → name ≠ []
  name : ∀ name value, h.headers.find? name = some value → ':' ∉ name ∧ '\r' ∉ name ∧ '\n' ∉ name
  value : ∀ name value, h.headers.find? name = some value → '\r' ∉ value ∧ '\n' ∉ value

/-- The encoded map and the empty line that ends a header section. -/
def encoded (h : HTTPHeader) (order : h.headers.Listing) : Str := h.toString order ++ crlf

end HTTPHeader

/-- The lines that `getline` finds in an encoded map: the carriage returns are still
on them. -/
def encodedLines (pairs : List (Str × Str)) : List Str :=
  (pairs.map fun pair => pair.1 ++ ": ".toList ++ (pair.2 ++ ['\r'])) ++ [['\r']]

theorem getlines_encoded {pairs : List (Str × Str)}
    (clean : ∀ pair ∈ pairs, '\n' ∉ pair.1 ∧ '\n' ∉ pair.2) :
    getlines ((pairs.flatMap fun pair => pair.1 ++ ": ".toList ++ pair.2 ++ crlf) ++ crlf) =
      encodedLines pairs := by
  induction pairs with
  | nil => rfl
  | cons pair pairs ih =>
      obtain ⟨name, value⟩ := clean pair List.mem_cons_self
      have rest := ih fun other later => clean other (List.mem_cons_of_mem _ later)
      have line : '\n' ∉ pair.1 ++ ": ".toList ++ (pair.2 ++ ['\r']) := by
        simp [name, value]
      have first := getlines_append_newline line
        ((pairs.flatMap fun pair => pair.1 ++ ": ".toList ++ pair.2 ++ crlf) ++ crlf)
      rw [rest] at first
      rw [encodedLines, List.map_cons, List.cons_append, ← encodedLines, ← first]
      simp [crlf]

namespace Request

variable {r : Request}

/-- The loop stores a line of the encoder's form and goes on. -/
theorem parseHeaders_field {name : Str} (plain : ':' ∉ name) (value : Str) (lines : List Str) :
    r.parseHeaders ((name ++ ": ".toList ++ value) :: lines) =
      (r.setHeader name value).parseHeaders lines := by
  have colon : (name ++ ": ".toList ++ value).idxOf? ':' = some name.length := by
    rw [List.append_assoc]
    exact idxOf?_append_cons plain (' ' :: value)
  have fits : name.length + 2 ≤ (name ++ ": ".toList ++ value).length := by
    simp
  rw [parseHeaders, if_neg (by simp), colon]
  simp only [substr, if_pos fits]
  simp

/-- The header map that the loop has built when it gets to the last line. -/
def stored (r : Request) (pairs : List (Str × Str)) : Request :=
  pairs.foldl (fun r pair => r.setHeader pair.1 (pair.2 ++ ['\r'])) r

theorem parseHeaders_fields {pairs : List (Str × Str)} (plain : ∀ pair ∈ pairs, ':' ∉ pair.1)
    (lines : List Str) :
    r.parseHeaders ((pairs.map fun pair => pair.1 ++ ": ".toList ++ (pair.2 ++ ['\r'])) ++ lines) =
      (r.stored pairs).parseHeaders lines := by
  induction pairs generalizing r with
  | nil => rfl
  | cons pair pairs ih =>
      rw [List.map_cons, List.cons_append, parseHeaders_field (plain pair List.mem_cons_self)]
      exact ih fun other later => plain other (List.mem_cons_of_mem _ later)

/-- The loop stores every value with its carriage return, and throws at the line that
the encoder means to be empty. -/
theorem parseHeaders_encoded {h : HTTPHeader} (encodable : h.Encodable)
    (order : h.headers.Listing) :
    r.parseHeaders (getlines (h.encoded order)) =
      .throws (.runtime_error "Invalid request: Malformed header line") (r.stored order.pairs) := by
  have found (pair : Str × Str) (member : pair ∈ order.pairs) :
      h.headers.find? pair.1 = some pair.2 := (order.mem_iff pair.1 pair.2).mp member
  have lines : getlines (h.encoded order) = encodedLines order.pairs := by
    refine getlines_encoded fun pair member => ⟨?_, ?_⟩
    · exact (encodable.name _ _ (found pair member)).2.2
    · exact (encodable.value _ _ (found pair member)).2
  rw [lines, encodedLines, parseHeaders_fields fun pair member =>
    (encodable.name _ _ (found pair member)).1]
  rfl

/-- The loop, fed with an encoded map, returns at the empty line with exactly this map. -/
def Undoes (r : Request) (h : HTTPHeader) (order : h.headers.Listing) : Prop :=
  ∃ t, r.parseHeaders (getlines (h.encoded order)) = .ok t ∧
    streamGood (getlines (h.encoded order)) = true ∧ t.headers_.headers = h.headers

/-- The header loop undoes the encoder for no map and no order of its entries. -/
theorem not_undoes {h : HTTPHeader} (encodable : h.Encodable) (order : h.headers.Listing) :
    ¬ Undoes r h order := by
  rintro ⟨t, returned, -, -⟩
  rw [parseHeaders_encoded encodable order] at returned
  cases returned

/-- The map with the single field `Host: a`. -/
def hostOnly : HTTPHeader := ({} : HTTPHeader).setHeader hostKey ['a']

theorem find?_hostOnly {name value : Str} :
    hostOnly.headers.find? name = some value ↔ name = hostKey ∧ value = ['a'] := by
  simp only [hostOnly, HTTPHeader.setHeader_headers, UnorderedMap.find?_insert_eq_some]
  constructor
  · rintro (⟨rfl, rfl⟩ | ⟨-, impossible⟩)
    · exact ⟨rfl, rfl⟩
    · cases impossible
  · rintro ⟨rfl, rfl⟩
    exact .inl ⟨rfl, rfl⟩

def hostListing : hostOnly.headers.Listing where
  pairs := [(hostKey, ['a'])]
  nodup := List.nodup_singleton _
  mem_iff name value := by
    rw [find?_hostOnly, List.mem_singleton, Prod.mk.injEq]

theorem hostOnly_encodable : hostOnly.Encodable where
  nonempty name value found := by
    obtain ⟨rfl, -⟩ := find?_hostOnly.mp found
    decide
  name name value found := by
    obtain ⟨rfl, -⟩ := find?_hostOnly.mp found
    decide
  value name value found := by
    obtain ⟨-, rfl⟩ := find?_hostOnly.mp found
    decide

theorem hostOnly_not_undone : ¬ Undoes (new 4) hostOnly hostListing :=
  not_undoes hostOnly_encodable hostListing

/-- The request reads `Host: a` with its carriage return and then throws. -/
theorem hostOnly_throws : hostOnly.Encodable ∧ ¬ Undoes (new 4) hostOnly hostListing := by
  refine ⟨hostOnly_encodable, ?_⟩
  rintro ⟨t, returned, -, -⟩
  cases returned

end Request

end Mux.Http
