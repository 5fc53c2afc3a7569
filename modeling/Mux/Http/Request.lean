import Mux.Http.Header
import Mux.Library.Outcome

/-!
# Requests and their parser

`Request.parse` works on the lines that `getline` delivers. Its statements are
grouped into stages in source order: the request line, the URL, the host, the
empty line, the header loop and the body. The URL parser is the vendored
library's and enters as a parameter. `path_` is a view into memory that the
request does not own; the parser assigns it a view of a local object, which
nobody may read once the call has ended.
-/

namespace Mux.Http

open Text

/-- The components of a parsed URL that the request keeps. -/
structure Url where
  get_pathname : Str
  get_search : Str
  get_hash : Str
  deriving DecidableEq, Repr

/-- `ada::parse` for `ada::url` without a base URL. -/
abbrev AdaParse := Str → Option Url

/-- A `string_view`: the characters it shows while their owner lives. -/
inductive StringView where
  | live (chars : Str)
  | dangling
  deriving DecidableEq, Repr

/-- A view of a local string after the end of its scope. Only an empty view
has no character left to read. -/
def StringView.expired (local_ : Str) : StringView :=
  if local_ = [] then .live [] else .dangling

inductive Exception where
  | runtime_error (what : String)
  | out_of_range
  deriving DecidableEq, Repr

structure Request where
  clientFd_ : Int
  method_ : Str := []
  path_ : StringView := .live []
  protocol_ : Str := []
  host_ : Str := []
  port_ : Str := []
  query_ : Str := []
  body_ : Str := []
  hashFragment_ : Str := []
  headers_ : HTTPHeader := {}

namespace Request

/-- The constructor from a client descriptor. -/
def new (clientFdx : Int) : Request := { clientFd_ := clientFdx }

def setHeader (r : Request) (key value : Str) : Request :=
  { r with headers_ := r.headers_.setHeader key value }

def getHeader (r : Request) (key : Str) : Str × Request :=
  ((r.headers_.getHeader key).1, { r with headers_ := (r.headers_.getHeader key).2 })

/-- The name under which the parser looks for the host. -/
def hostKey : Str := "Host".toList

/-- `substr` from a position to the end; a position behind the end throws. -/
def substr (s : Str) (pos : Nat) : Option Str := if pos ≤ s.length then some (s.drop pos) else none

/-- Extract method, path and protocol from the first line. -/
def requestTokens (line : Str) : Option (Str × Str × Str) := do
  let (method, stream) ← extract line
  let (path, stream) ← extract stream
  let (protocol, _) ← extract stream
  some (method, path, protocol)

/-- Split the value of the `Host` field at its first colon; without one the
port depends on the protocol. -/
def hostAndPort (protocol hostHeader : Str) : Str × Str :=
  match hostHeader.idxOf? ':' with
  | some colonPos => (hostHeader.take colonPos, hostHeader.drop (colonPos + 1))
  | none => (hostHeader, if protocol = "HTTP/1.1".toList then "80".toList else "443".toList)

/-- The URL stage. The parser is given the path stored in the request, not the
one just read from the request line. -/
def parseUrl (ada : AdaParse) (r : Request) : Outcome Exception Request :=
  match r.path_ with
  | .dangling => .undefined
  | .live input =>
      match ada input with
      | none => .throws (.runtime_error "Invalid request: Malformed URL") r
      | some parsedUrl => .ok { r with
          path_ := .expired parsedUrl.get_pathname
          query_ := parsedUrl.get_search
          hashFragment_ := parsedUrl.get_hash }

/-- The host stage reads the header map as it is before the header loop. -/
def parseHost (r : Request) : Outcome Exception Request :=
  let (hostHeader, r) := r.getHeader hostKey
  if hostHeader = [] then .throws (.runtime_error "Invalid request: Missing Host header") r
  else
    let (host_, port_) := hostAndPort r.protocol_ hostHeader
    .ok { r with host_, port_ }

/-- The header loop over the lines still to be read. -/
def parseHeaders (r : Request) : List Str → Outcome Exception Request
  | [] => .ok r
  | line :: requestStream =>
      if line = [] then .ok r
      else match line.idxOf? ':' with
        | none => .throws (.runtime_error "Invalid request: Malformed header line") r
        | some colonPos =>
            match substr line (colonPos + 2) with
            | none => .throws .out_of_range r
            | some value =>
                parseHeaders (r.setHeader (line.take colonPos) value) requestStream

/-- Whether the stream is still good after the loop: the loop ended at an empty
line and not because `getline` failed. -/
def streamGood (requestStream : List Str) : Bool := requestStream.contains []

/-- The body stage stores the text of the whole stream. -/
def parseBody (rawRequest : Str) (requestStream : List Str) (r : Request) :
    Outcome Exception Request :=
  .ok (if streamGood requestStream then { r with body_ := rawRequest } else r)

/-- The empty line behind the request line, then headers and body. -/
def parseSections (rawRequest : Str) (requestStream : List Str) (r : Request) :
    Outcome Exception Request :=
  match requestStream with
  | [] :: requestStream =>
      (r.parseHeaders requestStream).bind (parseBody rawRequest requestStream)
  | _ => .throws (.runtime_error "Invalid request: Missing blank line after headers") r

/-- The parser. The three tokens of the request line are locals that no later
stage uses. -/
def parse (ada : AdaParse) (r : Request) (rawRequest : Str) : Outcome Exception Request :=
  match getlines rawRequest with
  | [] => .throws (.runtime_error "Invalid request: Missing request line") r
  | line :: requestStream =>
      match requestTokens line with
      | none => .throws (.runtime_error "Invalid request: Malformed request line") r
      | some _ =>
          (r.parseUrl ada).bind fun r =>
            r.parseHost.bind (parseSections rawRequest requestStream)

/-! ## When the stages return normally -/

theorem parseUrl_eq_ok {ada : AdaParse} {r t : Request} :
    r.parseUrl ada = .ok t ↔ ∃ input url, r.path_ = .live input ∧ ada input = some url ∧
      t = { r with
        path_ := .expired url.get_pathname
        query_ := url.get_search
        hashFragment_ := url.get_hash } := by
  unfold parseUrl
  cases r.path_ with
  | dangling => simp
  | live input => cases found : ada input <;> simp [found, eq_comm]

theorem parseHost_missing {r : Request} (missing : (r.getHeader hostKey).1 = []) :
    r.parseHost =
      .throws (.runtime_error "Invalid request: Missing Host header") (r.getHeader hostKey).2 :=
  if_pos missing

theorem parseHost_present {r : Request} (present : (r.getHeader hostKey).1 ≠ []) :
    r.parseHost = .ok { (r.getHeader hostKey).2 with
      host_ := (hostAndPort r.protocol_ (r.getHeader hostKey).1).1
      port_ := (hostAndPort r.protocol_ (r.getHeader hostKey).1).2 } :=
  if_neg present

theorem parseHost_returns {r : Request} :
    r.parseHost.Returns ↔ (r.headers_.headers.find? hostKey).getD [] ≠ [] := by
  rw [← HTTPHeader.getHeader_fst]
  by_cases missing : (r.getHeader hostKey).1 = []
  · rw [parseHost_missing missing]
    constructor
    · rintro ⟨_, impossible⟩
      cases impossible
    · intro present
      exact absurd missing present
  · exact ⟨fun _ => missing, fun _ => ⟨_, parseHost_present missing⟩⟩

/-- A line the header loop accepts: it has a colon, and at least one more
character behind it for the blank that `substr` skips. -/
def HeaderLine (line : Str) : Prop :=
  ∃ colonPos, line.idxOf? ':' = some colonPos ∧ colonPos + 2 ≤ line.length

/-- The loop stores headers only. -/
theorem parseHeaders_frame {r t : Request} {lines : List Str} (h : r.parseHeaders lines = .ok t) :
    t = { r with headers_ := t.headers_ } := by
  induction lines generalizing r with
  | nil =>
      obtain rfl := Outcome.ok.inj h
      rfl
  | cons line lines ih =>
      rw [parseHeaders] at h
      split at h
      · obtain rfl := Outcome.ok.inj h
        rfl
      · split at h
        · cases h
        · split at h
          · cases h
          · have kept := ih h
            exact kept

theorem parseSections_returns {rawRequest : Str} {requestStream : List Str} {r : Request} :
    (parseSections rawRequest requestStream r).Returns ↔
      ∃ rest, requestStream = [] :: rest ∧ (r.parseHeaders rest).Returns := by
  unfold parseSections
  split
  · next requestStream rest =>
      simp only [Outcome.Returns, Outcome.bind_eq_ok, parseBody]
      constructor
      · rintro ⟨_, t, returned, _⟩
        exact ⟨rest, rfl, t, returned⟩
      · rintro ⟨_, same, t, returned⟩
        obtain ⟨_, rfl⟩ := List.cons.inj same
        exact ⟨_, t, returned, rfl⟩
  · next other =>
      constructor
      · rintro ⟨_, impossible⟩
        cases impossible
      · rintro ⟨rest, shape, _⟩
        exact absurd shape (other rest)

/-- The inversion of a normal return, stage by stage. -/
theorem parse_eq_ok {ada : AdaParse} {r t : Request} {rawRequest : Str} :
    r.parse ada rawRequest = .ok t ↔
      ∃ line requestStream tokens afterUrl afterHost,
        getlines rawRequest = line :: requestStream ∧ requestTokens line = some tokens ∧
        r.parseUrl ada = .ok afterUrl ∧ afterUrl.parseHost = .ok afterHost ∧
        parseSections rawRequest requestStream afterHost = .ok t := by
  unfold parse
  cases lines : getlines rawRequest with
  | nil => simp
  | cons line requestStream =>
      cases tokens : requestTokens line with
      | none => simp [tokens]
      | some found =>
          simp only [tokens, Outcome.bind_eq_ok]
          constructor
          · rintro ⟨afterUrl, url, afterHost, host, sections⟩
            exact ⟨line, requestStream, found, afterUrl, afterHost, rfl, tokens, url, host,
              sections⟩
          · rintro ⟨_, _, _, afterUrl, afterHost, same, _, url, host, sections⟩
            obtain ⟨rfl, rfl⟩ := List.cons.inj same
            exact ⟨afterUrl, url, afterHost, host, sections⟩

end Request

end Mux.Http
