import Mux.Http.Header
import Mux.Http.Status
import Mux.Library.Transition

/-!
# Responses and their serialisation

`Response.to_string` is compared with the HTTP/1.1 message that the response
stands for: a head of the status line and one line per header, an empty line,
and the body. The serialiser writes an empty line directly after the status
line and appends the cookies behind the body, so a reader that splits at the
first empty line finds the bare status line as the head and never the body as
the rest.
-/

namespace Mux.Http

open Text

structure Response where
  statusCode_ : Int
  protocol_ : Str := "HTTP/1.1".toList
  body_ : Str := []
  headers_ : HTTPHeader := {}
  cookies_ : UnorderedMap Str Str := .empty

namespace Response

def addHeader (r : Response) (name value : Str) : Response :=
  { r with headers_ := r.headers_.setHeader name value }

def removeHeader (r : Response) (name : Str) : Response :=
  { r with headers_ := r.headers_.removeHeader name }

def setContentType (r : Response) (type : Str) : Response :=
  r.addHeader "Content-Type".toList type

def setStatus (r : Response) (status : Int) : Response := { r with statusCode_ := status }

def setCookie (r : Response) (name value : Str) : Response :=
  { r with cookies_ := r.cookies_.insert name value }

def removeCookie (r : Response) (name : Str) : Response :=
  { r with cookies_ := r.cookies_.erase name }

/-- The phrase of the status line; an unknown code is named as such. -/
def statusCodeStr (r : Response) : Str :=
  let phrase := http_status.reasonPhrase r.statusCode_
  if phrase = [] then "Unknown".toList else phrase

def statusLine (r : Response) : Str :=
  r.protocol_ ++ " ".toList ++ decimalInt r.statusCode_ ++ " ".toList ++ r.statusCodeStr

/-- The serialiser, for given iteration orders of the two maps. -/
def to_string (r : Response) (headerOrder : r.headers_.headers.Listing)
    (cookieOrder : r.cookies_.Listing) : Str :=
  r.statusLine ++ crlf ++ crlf ++
    (r.headers_.toString headerOrder ++ crlf) ++
    (crlf ++ r.body_) ++
    ("Set-Cookie: ".toList ++ mapToHeaderStr cookieOrder "=".toList "; ".toList ++ crlf)

/-! ## The message a response stands for -/

/-- The calls that build up a response, with clean names and values. -/
inductive Call where
  | setStatus (status : Int)
  | addHeader (name value : CleanStr)
  | removeHeader (name : CleanStr)
  | setContentType (type : CleanStr)
  | setCookie (name value : CleanStr)
  | removeCookie (name : CleanStr)

def apply (r : Response) : Call → Response
  | .setStatus status => r.setStatus status
  | .addHeader name value => r.addHeader name.val value.val
  | .removeHeader name => r.removeHeader name.val
  | .setContentType type => r.setContentType type.val
  | .setCookie name value => r.setCookie name.val value.val
  | .removeCookie name => r.removeCookie name.val

/-- The response after a sequence of calls on a newly constructed one. The
default constructor leaves the status code indeterminate: any value. -/
def built (statusCode : Int) (body : Str) (calls : List Call) : Response :=
  Transition.run apply { statusCode_ := statusCode, body_ := body } calls

/-- `out`, split at its first empty line, is the message of the response: the
status line, one line for every header in some order, possibly `Set-Cookie`
lines among them, and behind the empty line exactly the body. -/
def IsMessage (r : Response) (out : Str) : Prop :=
  ∃ head, cut? (crlf ++ crlf) out = some (head, r.body_) ∧
    ∃ (order : r.headers_.headers.Listing) (cookieLines lines : List Str),
      (∀ line ∈ cookieLines, "Set-Cookie: ".toList <+: line) ∧
      lines.Perm (order.pairs.map (fun header => header.1 ++ ": ".toList ++ header.2) ++
        cookieLines) ∧
      head = r.statusLine ++ lines.flatMap (fun line => crlf ++ line)

/-! ## What a reader finds -/

theorem statusCodeStr_clean (r : Response) : '\r' ∉ r.statusCodeStr := by
  simp only [statusCodeStr]
  split
  · decide
  · exact (http_status.reasonPhrase_clean r.statusCode_).1

theorem statusLine_clean {r : Response} (protocol : '\r' ∉ r.protocol_) : '\r' ∉ r.statusLine := by
  have code : '\r' ∉ decimalInt r.statusCode_ := not_mem_decimalInt (by decide) (by decide) _
  simp [statusLine, protocol, code, r.statusCodeStr_clean]

/-- The first empty line follows the status line immediately; headers, body
and cookies all lie behind it. -/
theorem cut?_to_string {r : Response} (protocol : '\r' ∉ r.protocol_)
    (headerOrder : r.headers_.headers.Listing) (cookieOrder : r.cookies_.Listing) :
    cut? (crlf ++ crlf) (r.to_string headerOrder cookieOrder) =
      some (r.statusLine, r.headers_.toString headerOrder ++ crlf ++ (crlf ++ r.body_) ++
        ("Set-Cookie: ".toList ++ mapToHeaderStr cookieOrder "=".toList "; ".toList ++ crlf)) := by
  have layout : ∀ rest : Str, cut? (crlf ++ crlf) (r.statusLine ++ (crlf ++ crlf ++ rest)) =
      some (r.statusLine, rest) := by
    intro rest
    rw [show crlf ++ crlf = '\r' :: ['\n', '\r', '\n'] from rfl,
      cut?_append (statusLine_clean protocol), cut?_delim (by simp)]
    simp
  simpa only [to_string, List.append_assoc] using layout _

/-- The text behind the first empty line is longer than the body, whatever the
response holds: the empty line and the `Set-Cookie` text come on top. -/
theorem not_isMessage_to_string {r : Response} (protocol : '\r' ∉ r.protocol_)
    (headerOrder : r.headers_.headers.Listing) (cookieOrder : r.cookies_.Listing) :
    ¬ r.IsMessage (r.to_string headerOrder cookieOrder) := by
  rintro ⟨head, split, _⟩
  rw [cut?_to_string protocol] at split
  have rest := congrArg (fun parts => parts.2.length) (Option.some.inj split)
  simp only [List.length_append, crlf, List.length_cons] at rest
  omega

theorem apply_protocol (r : Response) (call : Call) : (r.apply call).protocol_ = r.protocol_ := by
  cases call <;> rfl

theorem built_protocol (statusCode : Int) (body : Str) (calls : List Call) :
    (built statusCode body calls).protocol_ = "HTTP/1.1".toList :=
  Transition.run_preserves (I := fun r => r.protocol_ = "HTTP/1.1".toList)
    (fun r call _ same => (apply_protocol r call).trans same) rfl

/-- No response is serialised as its own message. -/
theorem built_not_isMessage (statusCode : Int) (body : Str) (calls : List Call)
    (headerOrder : (built statusCode body calls).headers_.headers.Listing)
    (cookieOrder : (built statusCode body calls).cookies_.Listing) :
    ¬ (built statusCode body calls).IsMessage
      ((built statusCode body calls).to_string headerOrder cookieOrder) := by
  apply not_isMessage_to_string
  rw [built_protocol]
  decide

/-- A plain `200` with the body `hi`: behind the first empty line a reader finds
two more line ends, the body and the text `Set-Cookie: `. -/
theorem ok_not_isMessage :
    ¬ (built 200 "hi".toList []).IsMessage
      ((built 200 "hi".toList []).to_string .empty .empty) := by
  rintro ⟨head, split, _⟩
  have found : cut? (crlf ++ crlf) ((built 200 "hi".toList []).to_string .empty .empty) =
      some ("HTTP/1.1 200 OK".toList, "\r\n\r\nhiSet-Cookie: \r\n\r\n".toList) := by decide
  have rest : "\r\n\r\nhiSet-Cookie: \r\n\r\n".toList = "hi".toList :=
    congrArg Prod.snd (Option.some.inj (found.symm.trans split))
  exact absurd rest (by decide)

end Response

end Mux.Http
