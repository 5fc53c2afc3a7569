import Mux.Library.Text

/-!
# The responses of the plain server and a reader for them

`createHttpResponse` frames a content with its length. The reader below knows
only the framing of HTTP/1.1: the head ends at the first empty line, the field
`Content-Length` says how many bytes follow. It is defined on arbitrary byte
streams. Reading a concatenation of such responses returns the contents and
leaves nothing over, also when a content looks like a head itself.
-/

namespace Mux.Http

open Text

/-- The content type of the second parameter's default argument. -/
def defaultContentType : Str := "text/plain".toList

def createHttpResponse (content contentType : Str) : Str :=
  "HTTP/1.1 200 OK\r\n".toList ++
    ("Content-Type: ".toList ++ contentType ++ "\r\n".toList) ++
    ("Content-Length: ".toList ++ decimal content.length ++ "\r\n".toList) ++
    "\r\n".toList ++ content

/-! ## The reader -/

/-- Name and value of a field line; one blank behind the colon is dropped. -/
def fieldLine (line : Str) : Option (Str × Str) :=
  (cut? [':'] line).map fun (name, value) =>
    (name, match value with
      | ' ' :: rest => rest
      | value => value)

/-- The value of the first field of a given lower-case name. -/
def fieldValue (name : Str) (lines : List Str) : Option Str :=
  lines.findSome? fun line => (fieldLine line).bind fun (n, value) =>
    if n.map Char.toLower = name then some value else none

/-- What a reader extracts from one response. -/
structure Received where
  contentType : Str
  content : Str
  deriving DecidableEq, Repr

/-- Read one response off the front of a byte stream. -/
def readResponse (wire : Str) : Option (Received × Str) := do
  let (head, rest) ← cut? (crlf ++ crlf) wire
  let fields := (crlfLines head).tail
  let contentType ← fieldValue "content-type".toList fields
  let length ← (fieldValue "content-length".toList fields).bind parseDecimal
  if length ≤ rest.length then some (⟨contentType, rest.take length⟩, rest.drop length) else none

/-- Read at most `fuel` responses; the second component is what is left over. -/
def readResponses : Nat → Str → List Received × Str
  | 0, wire => ([], wire)
  | fuel + 1, wire =>
      match readResponse wire with
      | none => ([], wire)
      | some (response, rest) =>
          let (responses, left) := readResponses fuel rest
          (response :: responses, left)

/-- Read until no further response can be read. A response is never empty, so
the length of the stream bounds their number. -/
def readStream (wire : Str) : List Received × Str := readResponses wire.length wire

/-! ## Reading one response back -/

variable {contentType : Str}

/-- The two field lines of a response. -/
def fieldLines (content contentType : Str) : List Str :=
  ["Content-Type".toList ++ ": ".toList ++ contentType,
    "Content-Length".toList ++ ": ".toList ++ decimal content.length]

/-- The head of a response, without the empty line that ends it. -/
def responseHead (content contentType : Str) : Str :=
  joinLines "HTTP/1.1 200 OK".toList (fieldLines content contentType)

theorem createHttpResponse_eq (content contentType : Str) :
    createHttpResponse content contentType =
      responseHead content contentType ++ (crlf ++ crlf) ++ content := by
  unfold createHttpResponse responseHead fieldLines joinLines joinLines joinLines
  simp [crlf]

theorem head_clean (clean : '\r' ∉ contentType) (content : Str) :
    ∀ line ∈ "HTTP/1.1 200 OK".toList :: fieldLines content contentType, '\r' ∉ line := by
  have digits : '\r' ∉ decimal content.length := not_mem_decimal (by decide) _
  simp [fieldLines, clean, digits]

theorem fieldLines_nonempty (content contentType : Str) :
    ∀ line ∈ fieldLines content contentType, line ≠ [] := by simp [fieldLines]

theorem fieldLine_append {n : Str} (hn : ':' ∉ n) (value : Str) :
    fieldLine (n ++ ": ".toList ++ value) = some (n, value) := by
  unfold fieldLine
  rw [List.append_assoc, cut?_append hn]
  change (Option.map _ (cut? [':'] ([':'] ++ ' ' :: value))).map _ = _
  rw [cut?_delim (by decide)]
  simp

theorem fieldValue_cons {name n : Str} (hn : ':' ∉ n) (value : Str) (lines : List Str) :
    fieldValue name ((n ++ ": ".toList ++ value) :: lines) =
      if n.map Char.toLower = name then some value else fieldValue name lines := by
  rw [fieldValue, List.findSome?_cons, fieldLine_append hn, Option.bind_some]
  by_cases same : n.map Char.toLower = name
  · simp only [if_pos same]
  · simp only [if_neg same]
    rfl

theorem fieldValue_contentType (content contentType : Str) :
    fieldValue "content-type".toList (fieldLines content contentType) = some contentType := by
  unfold fieldLines
  exact (fieldValue_cons (by decide) _ _).trans (if_pos (by decide))

theorem fieldValue_contentLength (content contentType : Str) :
    fieldValue "content-length".toList (fieldLines content contentType) =
      some (decimal content.length) := by
  unfold fieldLines
  exact (fieldValue_cons (by decide) _ _).trans <| (if_neg (by decide)).trans <|
    (fieldValue_cons (by decide) _ _).trans (if_pos (by decide))

/-- One response is read back exactly, and the reader stops at its last byte. -/
theorem readResponse_createHttpResponse (clean : '\r' ∉ contentType) (content rest : Str) :
    readResponse (createHttpResponse content contentType ++ rest) =
      some (⟨contentType, content⟩, rest) := by
  have head := cut?_joinLines (head_clean clean content) (fieldLines_nonempty content contentType)
    (content ++ rest)
  have fields := crlfLines_joinLines (head_clean clean content)
  rw [readResponse, createHttpResponse_eq, List.append_assoc, responseHead, head]
  simp only [Option.bind_eq_bind, Option.bind_some, fields, List.tail_cons,
    fieldValue_contentType, fieldValue_contentLength, parseDecimal_decimal]
  simp

/-! ## Reading a stream of responses -/

theorem readResponses_createHttpResponse (clean : '\r' ∉ contentType) (contents : List Str)
    {fuel : Nat} (enough : contents.length ≤ fuel) :
    readResponses fuel (contents.flatMap (createHttpResponse · contentType)) =
      (contents.map fun content => ⟨contentType, content⟩, []) := by
  induction contents generalizing fuel with
  | nil =>
      cases fuel with
      | zero => rfl
      | succ fuel => rfl
  | cons content contents ih =>
      cases fuel with
      | zero => simp at enough
      | succ fuel =>
          have tail := ih (Nat.le_of_succ_le_succ enough)
          rw [List.flatMap_cons, readResponses, readResponse_createHttpResponse clean]
          simp only [tail, List.map_cons]

theorem createHttpResponse_ne_nil (content contentType : Str) :
    createHttpResponse content contentType ≠ [] := by
  intro empty
  have framed := congrArg List.length (createHttpResponse_eq content contentType)
  rw [empty] at framed
  simp only [List.length_append, List.length_nil, crlf, List.length_cons] at framed
  omega

/-- The responses of one connection form a self-delimiting stream: the reader
returns the contents in order, with their type, and consumes every byte. -/
theorem readStream_createHttpResponse (contents : List Str) (contentType : CleanStr) :
    readStream (contents.flatMap (createHttpResponse · contentType.val)) =
      (contents.map fun content => ⟨contentType.val, content⟩, []) :=
  readResponses_createHttpResponse contentType.property.1 contents
    (length_le_flatMap (fun content => createHttpResponse_ne_nil content _) contents)

end Mux.Http
