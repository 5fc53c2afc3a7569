import Mux.Http.Response

/-!
# Cookies of a response

The cookies are printed on one line behind the body, where a client that reads the
head of the message does not look. Such a client finds the status line and no cookie.
-/

namespace Mux.Http

open Text Transition

/-- The characters that end a cookie's name or value. -/
def cookieDelimiters : Str := ['=', ';', ',', ' ', '\t', '\r', '\n']

/-- A name or a value of a cookie. -/
def CookieToken : Type := { s : Str // ∀ c ∈ s, c ∉ cookieDelimiters }

inductive CookieCall where
  | setCookie (name value : CookieToken)
  | removeCookie (name : CookieToken)

/-! ## The client -/

/-- The lines in front of the first empty line. -/
def headLines (out : Str) : List Str :=
  match cut? (crlf ++ crlf) out with
  | some (head, _) => crlfLines head
  | none => crlfLines out

/-- The first pair on a `Set-Cookie` line. -/
def cookiePair? (line : Str) : Option (Str × Str) :=
  if "Set-Cookie:".toList.isPrefixOf line then
    let pair := ((line.drop "Set-Cookie:".length).dropWhile isSpace).takeWhile (· ≠ ';')
    (pair.idxOf? '=').map fun pos => (pair.take pos, pair.drop (pos + 1))
  else none

/-- The cookies that a client finds in the head of a message. -/
def readCookies (out : Str) : UnorderedMap Str Str :=
  ((headLines out).filterMap cookiePair?).foldl (fun cookies pair => cookies.insert pair.1 pair.2)
    .empty

/-- The value of a cookie after one more call. -/
def CookieCall.after (name : Str) (found : Option Str) : CookieCall → Option Str
  | .setCookie name' value => if name = name'.val then some value.val else found
  | .removeCookie name' => if name = name'.val then none else found

/-- The value of a cookie after the calls: the one set last, when it was not removed. -/
def cookieAfter (calls : List CookieCall) (name : Str) : Option Str :=
  calls.foldl (CookieCall.after name) none

namespace Response

/-- The constructor from a status code, a body and headers. -/
def new (statusCode : Int) (body : Str) (headers : HTTPHeader) : Response :=
  { statusCode_ := statusCode, body_ := body, headers_ := headers }

def applyCookie (r : Response) : CookieCall → Response
  | .setCookie name value => r.setCookie name.val value.val
  | .removeCookie name => r.removeCookie name.val

/-- A response after some calls that are about its cookies. -/
def withCookies (r : Response) (calls : List CookieCall) : Response := run applyCookie r calls

theorem withCookies_protocol (r : Response) (calls : List CookieCall) :
    (r.withCookies calls).protocol_ = r.protocol_ :=
  run_preserves (I := fun t : Response => t.protocol_ = r.protocol_)
    (fun t call _ same => by cases call <;> exact same) rfl

theorem find?_applyCookie (r : Response) (call : CookieCall) (name : Str) :
    (r.applyCookie call).cookies_.find? name = call.after name (r.cookies_.find? name) := by
  cases call with
  | setCookie name' value => exact UnorderedMap.find?_insert_ite _ name'.val name value.val
  | removeCookie name' => exact UnorderedMap.find?_erase_ite _ name'.val name

/-- The response itself knows its cookies. -/
theorem find?_withCookies (r : Response) (calls : List CookieCall) (name : Str) :
    (r.withCookies calls).cookies_.find? name =
      calls.foldl (CookieCall.after name) (r.cookies_.find? name) := by
  induction calls generalizing r with
  | nil => rfl
  | cons call calls ih =>
      rw [List.foldl_cons, ← find?_applyCookie, ← ih, withCookies, run_cons, withCookies]

/-- The head that a client sees is the status line, which is no cookie. -/
theorem readCookies_to_string {r : Response} (protocol : r.protocol_ = "HTTP/1.1".toList)
    (headerOrder : r.headers_.headers.Listing) (cookieOrder : r.cookies_.Listing) :
    readCookies (r.to_string headerOrder cookieOrder) = .empty := by
  have clean : '\r' ∉ r.protocol_ := by
    rw [protocol]
    decide
  have head : headLines (r.to_string headerOrder cookieOrder) = [r.statusLine] := by
    rw [headLines, cut?_to_string clean]
    exact crlfLines_clean (statusLine_clean clean)
  have status : cookiePair? r.statusLine = none := by
    rw [cookiePair?, if_neg]
    simp [statusLine, protocol]
  rw [readCookies, head, List.filterMap_cons_none status]
  rfl

/-- A client of the printed response recovers the cookies exactly when there are none. -/
theorem survive_iff_none (statusCode : Int) (body : Str) (headers : HTTPHeader)
    (calls : List CookieCall)
    (headerOrder : ((new statusCode body headers).withCookies calls).headers_.headers.Listing)
    (cookieOrder : ((new statusCode body headers).withCookies calls).cookies_.Listing) :
    (∀ name, (readCookies (((new statusCode body headers).withCookies calls).to_string
        headerOrder cookieOrder)).find? name = cookieAfter calls name) ↔
      ∀ name, cookieAfter calls name = none := by
  rw [readCookies_to_string (withCookies_protocol _ calls)]
  simp only [UnorderedMap.find?_empty, eq_comm]

/-- The cookie `a=b` is set once. -/
def oneCookie : List CookieCall :=
  [.setCookie ⟨['a'], by simp [cookieDelimiters]⟩ ⟨['b'], by simp [cookieDelimiters]⟩]

def oneCookieListing : ((new 200 [] {}).withCookies oneCookie).cookies_.Listing :=
  .single ['a'] ['b']

/-- The client does not find it. -/
theorem oneCookie_lost : ¬ ∀ name, (readCookies (((new 200 [] {}).withCookies oneCookie).to_string
    .empty oneCookieListing)).find? name = cookieAfter oneCookie name := by
  intro recovers
  have found := recovers ['a']
  revert found
  decide

end Response

end Mux.Http
