import Mathlib.Data.List.DropRight
import Mux.Ada.Url

/-!
# The state machine of the parser

Without a base URL no state is entered twice, so that every state is a function
that ends in a call of the next one. The position in the text is kept as what is
left of it. The fragment was cut off before and is stored by whichever state
comes last.
-/

namespace Mux.Ada

open Text CharacterSets Unicode Scheme Checkers

namespace Helpers

/-- Remove control characters and blanks on both sides. -/
def trimC0Whitespace (input : Str) : Str :=
  (input.dropWhile isC0ControlOrSpace).rdropWhile isC0ControlOrSpace

def removeAsciiTabOrNewline (input : Str) : Str := input.filter fun c => !isAsciiTabOrNewline c

/-- The text in front of the first number sign, and what follows it. -/
def pruneHash (input : Str) : Str × Option Str :=
  match cut? ['#'] input with
  | none => (input, none)
  | some (input, hash) => (input, some hash)

def isAuthorityDelimiter (special : Bool) (c : Char) : Bool :=
  c = '@' || c = '/' || c = '?' || (special && c = '\\')

def isHostDelimiter (special : Bool) (c : Char) : Bool :=
  c = ':' || c = '/' || c = '?' || c = '[' || (special && c = '\\')

/-- The length of the host in front of a text, and whether a colon follows it. What
stands between brackets is passed over. The first argument bounds the number of
rounds. -/
def hostDelimiterLocation (special : Bool) : Nat → Str → Nat × Bool
  | 0, view => (view.length, false)
  | rounds + 1, view =>
      let skipped := (view.takeWhile fun c => !isHostDelimiter special c).length
      match view.drop skipped with
      | [] => (view.length, false)
      | c :: rest =>
          if c = '[' then
            match (c :: rest).idxOf? ']' with
            | none => (view.length, false)
            | some bracket =>
                let (location, found_colon) :=
                  hostDelimiterLocation special rounds ((c :: rest).drop bracket)
                (skipped + bracket + location, found_colon)
          else (skipped, c = ':')

def getHostDelimiterLocation (special : Bool) (view : Str) : Nat × Bool :=
  hostDelimiterLocation special (view.length + 1) view

end Helpers

open Helpers

namespace UrlParser

/-- The escape of a commercial at that is part of the credentials. -/
def at_sign : Str := ['%', '4', '0']

def userinfo (input : Str) : Str := percentEncode input USERINFO_PERCENT_ENCODE

/-- The credentials in front of a host, and what is left behind the last sign that
ends them. The first argument bounds the number of rounds. -/
def credentials (special : Bool) : Nat → Str → Str → Str → Bool → Bool → Option (Str × Str × Str)
  | 0, _, _, _, _, _ => none
  | rounds + 1, view, username, password, at_sign_seen, password_token_seen =>
      let authority_view := view.takeWhile fun c => !isAuthorityDelimiter special c
      match view.drop authority_view.length with
      | '@' :: rest =>
          let username :=
            if at_sign_seen && !password_token_seen then username ++ at_sign else username
          let password :=
            if at_sign_seen && password_token_seen then password ++ at_sign else password
          if password_token_seen then
            credentials special rounds rest username (password ++ userinfo authority_view) true true
          else match cut? [':'] authority_view with
            | none =>
                credentials special rounds rest (username ++ userinfo authority_view) password
                  true false
            | some (before, after) =>
                credentials special rounds rest (username ++ userinfo before)
                  (password ++ userinfo after) true true
      | _ => if at_sign_seen && authority_view = [] then none else some (username, password, view)

section States

variable (idna : Str → Str) (fragment : Option Str) (url : Url)

/-- Store the fragment and return. -/
def finish : Url :=
  match fragment with
  | none => url
  | some fragment => { url with hash := some (percentEncode fragment FRAGMENT_PERCENT_ENCODE) }

def query (view : Str) : Url :=
  let query_percent_encode_set :=
    if url.isSpecial then SPECIAL_QUERY_PERCENT_ENCODE else QUERY_PERCENT_ENCODE
  finish fragment { url with query := some (percentEncode view query_percent_encode_set) }

def path (view : Str) : Url :=
  match cut? ['?'] view with
  | some (view, rest) =>
      query fragment { url with path := parsePreparedPath view url.type url.path } rest
  | none => finish fragment { url with path := parsePreparedPath view url.type url.path }

def opaquePath (view : Str) : Url :=
  match cut? ['?'] view with
  | some (view, rest) =>
      query fragment { url with
        has_opaque_path := true
        path := percentEncode view C0_CONTROL_PERCENT_ENCODE } rest
  | none =>
      finish fragment { url with
        has_opaque_path := true
        path := percentEncode view C0_CONTROL_PERCENT_ENCODE }

def pathStart (view : Str) : Url :=
  if url.isSpecial then
    match view with
    | [] => finish fragment { url with path := ['/'] }
    | c :: rest =>
        if c ≠ '/' ∧ c ≠ '\\' then path fragment url (c :: rest) else path fragment url rest
  else
    match view with
    | [] => finish fragment url
    | c :: rest =>
        if c = '?' then query fragment url rest
        else if c ≠ '/' then path fragment url (c :: rest)
        else path fragment url rest

def port (view : Str) : Option Url :=
  (url.parsePort view).map fun (url, view) => pathStart fragment url view

def host (view : Str) : Option Url :=
  let (location, found_colon) := getHostDelimiterLocation url.isSpecial view
  let host_view := view.take location
  if found_colon then
    (parseHost idna url.type host_view).bind fun (host, host_type) =>
      port fragment { url with host := some host, host_type } (view.drop (location + 1))
  else if url.isSpecial && host_view = [] then none
  else if host_view = [] then
    some (pathStart fragment { url with host := some [] } (view.drop location))
  else
    (parseHost idna url.type host_view).map fun (host, host_type) =>
      pathStart fragment { url with host := some host, host_type } (view.drop location)

def authority (view : Str) : Option Url :=
  if '@' ∉ view then host idna fragment url view
  else
    (credentials url.isSpecial (view.length + 1) view url.username url.password false false).bind
      fun (username, password, view) => host idna fragment { url with username, password } view

def specialAuthorityIgnoreSlashes (view : Str) : Option Url :=
  authority idna fragment url (view.dropWhile fun c => c = '/' || c = '\\')

def specialAuthoritySlashes (view : Str) : Option Url :=
  specialAuthorityIgnoreSlashes idna fragment url
    (if ['/', '/'].isPrefixOf view then view.drop 2 else view)

def pathOrAuthority (view : Str) : Option Url :=
  match view with
  | '/' :: rest => authority idna fragment url rest
  | view => some (path fragment url view)

/-- The host that a file URL does not keep. -/
def localhost : Str := ['l', 'o', 'c', 'a', 'l', 'h', 'o', 's', 't']

def fileHost (view : Str) : Option Url :=
  let file_host_buffer := view.takeWhile fun c => !(c = '/' || c = '\\' || c = '?')
  if isWindowsDriveLetter file_host_buffer then some (path fragment url view)
  else if file_host_buffer = [] then some (pathStart fragment { url with host := some [] } view)
  else
    (parseHost idna url.type file_host_buffer).map fun (host, host_type) =>
      pathStart fragment
        { url with host := some (if host = localhost then [] else host), host_type }
        (view.drop file_host_buffer.length)

def fileSlash (view : Str) : Option Url :=
  match view with
  | [] => some (path fragment url [])
  | c :: rest =>
      if c = '/' ∨ c = '\\' then fileHost idna fragment url rest
      else some (path fragment url (c :: rest))

def file (view : Str) : Option Url :=
  let url := { url with type := .FILE, host := some [] }
  match view with
  | [] => some (path fragment url [])
  | c :: rest =>
      if c = '/' ∨ c = '\\' then fileSlash idna fragment url rest
      else some (path fragment url (c :: rest))

/-- Behind the colon of the scheme. -/
def afterScheme (view : Str) : Option Url :=
  if url.type = .FILE then file idna fragment url view
  else if url.isSpecial then specialAuthoritySlashes idna fragment url view
  else
    match view with
    | '/' :: rest => pathOrAuthority idna fragment url rest
    | view => some (opaquePath fragment url view)

def scheme (url_data : Str) : Option Url :=
  match url_data with
  | [] => none
  | c :: rest =>
      if isAlpha c then
        match rest.dropWhile isAlnumPlus with
        | ':' :: view =>
            afterScheme idna fragment (url.parseScheme (c :: rest.takeWhile isAlnumPlus)) view
        | _ => none
      else none

end States

/-- The largest size of an input. -/
def uint32Max : Nat := 2 ^ 32 - 1

def parseUrl (idna : Str → Str) (user_input : Str) : Option Url :=
  if user_input.length > uint32Max then none
  else
    let internal_input :=
      if hasTabsOrNewline user_input then removeAsciiTabOrNewline user_input else user_input
    let (url_data, fragment) := pruneHash (trimC0Whitespace internal_input)
    scheme idna fragment {} url_data

end UrlParser

/-- The URL of a text, where it is valid. -/
def parse (idna : Str → Str) (input : Str) : Option Url := UrlParser.parseUrl idna input

end Mux.Ada
