import Mux.Http.Message
import Mux.Http.Request

/-!
# The request parser against the message grammar

Two questions about `Request.parse`: which messages does a fresh request
accept, and what do the fields of a request say after a normal return? The
parser looks up URL and host in the request it is about to fill. A fresh request
has neither, so nothing is accepted; and where a reused request does have them,
they are what it keeps.
-/

namespace Mux.Http.Request

open Text

/-! ## Acceptance by a fresh request -/

/-- The request holds what the message says. -/
structure Carries (r : Request) (m : RequestMessage) : Prop where
  method : r.method_ = m.method
  protocol : r.protocol_ = "HTTP/1.1".toList
  path : r.path_ = .live m.target.pathname
  query : r.query_ = m.target.search
  host : r.host_ = hostPart m.host
  headers : ∀ name value, m.headerValue name = some value → (r.getHeader name).1 = value
  body : r.body_ = m.body

/-- Parsing the text of the message returns normally and fills the request. -/
def ParsesTo (ada : AdaParse) (r : Request) (m : RequestMessage) : Prop :=
  ∃ t, r.parse ada m.text = .ok t ∧ t.Carries m

/-- A fresh request hands the empty string to the URL parser, for every text. -/
theorem parse_new_not_returns {ada : AdaParse} (noBase : ada [] = none) (clientFdx : Int)
    (raw : Str) : ¬ ((new clientFdx).parse ada raw).Returns := by
  rintro ⟨t, returned⟩
  obtain ⟨_, _, _, afterUrl, _, _, _, url, _⟩ := parse_eq_ok.mp returned
  obtain ⟨input, parsed, path, accepted, _⟩ := parseUrl_eq_ok.mp url
  obtain rfl : [] = input := StringView.live.inj path
  rw [noBase] at accepted
  cases accepted

/-- No well-formed message is parsed by a freshly constructed request, provided
the URL parser rejects the empty string. -/
theorem new_not_parsesTo {ada : AdaParse} (noBase : ada [] = none) (clientFdx : Int)
    (m : RequestMessage) : ¬ (new clientFdx).ParsesTo ada m := by
  rintro ⟨t, returned, _⟩
  exact parse_new_not_returns noBase clientFdx m.text ⟨t, returned⟩

/-- `GET /x HTTP/1.1` with `Host: a` and the body `hi`. -/
def sampleMessage : RequestMessage where
  method := "GET".toList
  target := .origin "/x".toList none
  fields := [⟨⟨"Host".toList, by decide⟩, ⟨"a".toList, by decide⟩, by decide, by decide⟩]
  host := "a".toList
  lineEnd := .crlf
  body := "hi".toList
  method_word := isWord_of_all (by decide) (by decide)
  target_wellFormed := ⟨by decide, by decide⟩
  target_word := isWord_of_all (by decide) (by decide)
  host_nonempty := by decide
  one_host := by decide

/-- A URL parser restricted to the two inputs of the samples: the empty string,
which it rejects, and one absolute URL. -/
def sampleAda : AdaParse := fun input =>
  if input = "http://h/old".toList then some ⟨"/old".toList, [], []⟩ else none

theorem sample_not_parsesTo_of_noBase : ¬ (new 4).ParsesTo sampleAda sampleMessage :=
  new_not_parsesTo (by decide) 4 sampleMessage

theorem sample_not_parsesTo : ¬ (new 4).ParsesTo sampleAda sampleMessage := by
  rintro ⟨t, returned, _⟩
  have rejected : ((new 4).parse sampleAda sampleMessage.text) =
      .throws (.runtime_error "Invalid request: Malformed URL") (new 4) := by rfl
  rw [rejected] at returned
  cases returned

/-! ## What a normal return says -/

/-- The texts and prior states for which the parser gets through: a complete
request line, a stored path that is a URL, a stored host, an empty second line,
and only header lines from there to the next empty line. -/
def Accepts (ada : AdaParse) (r : Request) (raw : Str) : Prop :=
  ∃ line lines, getlines raw = line :: [] :: lines ∧ (requestTokens line).isSome ∧
    (∃ input, r.path_ = .live input ∧ (ada input).isSome) ∧
    (r.headers_.headers.find? hostKey).getD [] ≠ [] ∧
    ∀ header ∈ lines.takeWhile (· ≠ []), HeaderLine header

/-- A request that was filled before: a path that is a URL and a `Host` header. -/
def reused : Request :=
  { new 4 with
    method_ := "OLD".toList
    path_ := .live "http://h/old".toList
    headers_ := ({} : HTTPHeader).setHeader hostKey "h".toList }

end Mux.Http.Request
