import Mux.Library.Text
import Mux.Library.UnorderedMap

/-!
# What a request text says

This module is about HTTP/1.1 messages, not about the parser. It has the two
directions of the grammar: `RequestMessage` with the text it is written as, and
for an arbitrary text its header section and its body. A line ends at LF, and a
CR before the LF belongs to the line end.
-/

namespace Mux.Http

open Text

/-! ## Messages and their text -/

/-- A non-empty stretch of characters without whitespace. -/
def IsWord (s : Str) : Prop := s ≠ [] ∧ ∀ c ∈ s, isSpace c = false

theorem isWord_of_all {s : Str} (nonempty : s ≠ []) (all : s.all (fun c => !isSpace c) = true) :
    IsWord s := by
  refine ⟨nonempty, fun c member => ?_⟩
  have word := List.all_eq_true.mp all c member
  simpa using word

/-- The two forms of a request target: an absolute `http` URL, or a path, both
with an optional query. -/
inductive Target where
  | absolute (authority path : Str) (query : Option Str)
  | origin (path : Str) (query : Option Str)
  deriving DecidableEq, Repr

namespace Target

def queryText : Option Str → Str
  | none => []
  | some query => '?' :: query

def text : Target → Str
  | .absolute authority path query => "http://".toList ++ authority ++ path ++ queryText query
  | .origin path query => path ++ queryText query

/-- The path the target names; a URL without a path names the root. -/
def pathname : Target → Str
  | .absolute _ path _ => if path = [] then ['/'] else path
  | .origin path _ => path

/-- The query with its question mark, empty when there is no query to send. -/
def search : Target → Str
  | .absolute _ _ query | .origin _ query =>
      match query with
      | none | some [] => []
      | some query => '?' :: query

/-- An authority is present, and a path starts with a slash. -/
def WellFormed : Target → Prop
  | .absolute authority path _ =>
      authority ≠ [] ∧ '/' ∉ authority ∧ '?' ∉ authority ∧ '?' ∉ path ∧
        (path = [] ∨ path.head? = some '/')
  | .origin path _ => '?' ∉ path ∧ path.head? = some '/'

end Target

/-- The two line ends that messages come with. -/
inductive LineEnd where
  | lf
  | crlf
  deriving DecidableEq, Repr

def LineEnd.text : LineEnd → Str
  | .lf => ['\n']
  | .crlf => Text.crlf

/-- A header field: a non-empty name without a colon, a value, both on one line. -/
structure Field where
  name : CleanStr
  value : CleanStr
  name_nonempty : name.val ≠ []
  name_noColon : ':' ∉ name.val

/-- A well-formed HTTP/1.1 request with exactly one, non-empty `Host` field. -/
structure RequestMessage where
  method : Str
  target : Target
  fields : List Field
  host : Str
  lineEnd : LineEnd
  body : Str
  method_word : IsWord method
  target_wellFormed : target.WellFormed
  target_word : IsWord target.text
  host_nonempty : host ≠ []
  one_host : (fields.filter fun field => field.name.val = "Host".toList).map
    (fun field => field.value.val) = [host]

namespace RequestMessage

def requestLine (m : RequestMessage) : Str :=
  m.method ++ " ".toList ++ m.target.text ++ " HTTP/1.1".toList

def fieldText (m : RequestMessage) (field : Field) : Str :=
  field.name.val ++ ": ".toList ++ field.value.val ++ m.lineEnd.text

/-- The message as it is sent. -/
def text (m : RequestMessage) : Str :=
  m.requestLine ++ m.lineEnd.text ++ m.fields.flatMap m.fieldText ++ m.lineEnd.text ++ m.body

/-- The value of the last field with a name. -/
def headerValue (m : RequestMessage) (name : Str) : Option Str :=
  ((m.fields.filter fun field => field.name.val = name).map fun field => field.value.val).getLast?

end RequestMessage

/-- The host part of a `Host` field: a bracketed literal up to its bracket, or
the text before the colon of a port. -/
def hostPart (value : Str) : Str :=
  match value with
  | '[' :: _ => value.takeWhile (· ≠ ']') ++ [']']
  | _ => value.takeWhile (· ≠ ':')

/-! ## Reading an arbitrary text -/

/-- The line without the CR of its line end. -/
def dropCr (line : Str) : Str := if line.getLast? = some '\r' then line.dropLast else line

/-- The lines up to the first empty one and the text behind that one, where
`line` has been read of the current line. -/
def section_ (line : Str) : Str → List Str × Str
  | [] => (if line = [] then [] else [dropCr line], [])
  | c :: rest =>
      if c ≠ '\n' then section_ (line ++ [c]) rest
      else if dropCr line = [] then ([], rest)
      else
        let (lines, body) := section_ [] rest
        (dropCr line :: lines, body)

/-- Header section and body of a request text: what follows the request line. -/
def sections (raw : Str) : List Str × Str :=
  match cut? ['\n'] raw with
  | none => ([], [])
  | some (_, rest) => section_ [] rest

def isBlank (c : Char) : Bool := c = ' ' || c = '\t'

end Mux.Http
