import Mux.Ada.Host

/-!
# URLs

The record that the parser fills, what is read from it, and the two parsers of
components that belong to it: the scheme and the port.
-/

namespace Mux.Ada

open Text Numerals CharacterSets Unicode Scheme

/-- A valid URL. The components have no delimiters around them, apart from the
slash in front of a path. -/
structure Url where
  type : Kind := .NOT_SPECIAL
  non_special_scheme : Str := []
  has_opaque_path : Bool := false
  host_type : HostType := .DEFAULT
  username : Str := []
  password : Str := []
  host : Option Str := none
  port : Option Nat := none
  path : Str := []
  query : Option Str := none
  hash : Option Str := none
  deriving DecidableEq, Repr

namespace Url

def isSpecial (url : Url) : Bool := url.type ≠ .NOT_SPECIAL

def schemeDefaultPort (url : Url) : Nat := url.type.getSpecialPort

def hasCredentials (url : Url) : Bool := url.username ≠ [] || url.password ≠ []

/-! ## Reading a URL -/

def getProtocol (url : Url) : Str :=
  (if url.isSpecial then url.type.name else url.non_special_scheme) ++ [':']

def getPort (url : Url) : Str := (url.port.map (Nat.toDigits 10)).getD []

def getPathname (url : Url) : Str := url.path

def getSearch (url : Url) : Str :=
  match url.query with
  | none => []
  | some query => if query = [] then [] else '?' :: query

def getHash (url : Url) : Str :=
  match url.hash with
  | none => []
  | some hash => if hash = [] then [] else '#' :: hash

/-- The text of a URL. A path that starts with two slashes must not be taken for a
host. -/
def getHref (url : Url) : Str :=
  url.getProtocol ++
    (match url.host with
      | some host =>
          '/' :: '/' :: (if url.hasCredentials then
              url.username ++ (if url.password ≠ [] then ':' :: url.password else []) ++ ['@']
            else []) ++ host ++ if url.port.isSome then ':' :: url.getPort else []
      | none =>
          if !url.has_opaque_path && ['/', '/'].isPrefixOf url.path then ['/', '.'] else []) ++
    url.path ++
    (match url.query with
      | some query => '?' :: query
      | none => []) ++
    match url.hash with
      | some hash => '#' :: hash
      | none => []

/-! ## Scheme and port -/

def setScheme (url : Url) (new_scheme : Str) : Url :=
  let type := getSchemeType new_scheme
  if type ≠ .NOT_SPECIAL then { url with type }
  else { url with type, non_special_scheme := new_scheme }

/-- A special scheme in lower case is recognised without a copy. -/
def parseScheme (url : Url) (input : Str) : Url :=
  let parsed_type := getSchemeType input
  if parsed_type ≠ .NOT_SPECIAL then { url with type := parsed_type }
  else url.setScheme (toLowerAscii input).1

/-- The URL with the port in front of a text, and what follows it. The default
port of the scheme is not stored. -/
def parsePort (url : Url) (view : Str) : Option (Url × Str) :=
  let r := fromChars 10 (2 ^ 16 - 1) view
  if r.ec = .result_out_of_range then none
  else if r.ptr = [] || r.ptr.head? = some '/' || r.ptr.head? = some '?' ||
      (url.isSpecial && r.ptr.head? = some '\\') then
    let default_port := url.schemeDefaultPort
    let is_port_valid := (default_port = 0 && r.value = 0) || default_port ≠ r.value
    some ({ url with port := if r.ec = .none && is_port_valid then some r.value else none }, r.ptr)
  else none

/-- Only the port is set: to a number of 16 bits that is not the default port, unless
the scheme has none. -/
theorem parsePort_eq_some {url next : Url} {view rest : Str}
    (parsed : url.parsePort view = some (next, rest)) :
    ∃ port, next = { url with port } ∧ ∀ p, port = some p →
      p < 2 ^ 16 ∧ (url.schemeDefaultPort = 0 ∨ p ≠ url.schemeDefaultPort) := by
  rw [parsePort] at parsed
  dsimp only at parsed
  split at parsed
  · cases parsed
  · split at parsed
    · obtain ⟨rfl, -⟩ := Prod.mk.inj (Option.some.inj parsed)
      refine ⟨_, rfl, fun p stored => ?_⟩
      split at stored
      · next valid =>
          obtain rfl := Option.some.inj stored
          have bound := fromChars_value_le 10 (2 ^ 16 - 1) view
          simp only [Bool.and_eq_true, Bool.or_eq_true, decide_eq_true_eq] at valid
          obtain ⟨-, ⟨none, -⟩ | other⟩ := valid
          · exact ⟨by omega, .inl none⟩
          · exact ⟨by omega, .inr (Ne.symm other)⟩
      · cases stored
    · cases parsed

/-- A port that was written is read up to the path or the query. -/
theorem parsePort_toDigits {url : Url} {p : Nat} {tail : Str} (bound : p < 2 ^ 16)
    (kept : url.schemeDefaultPort = 0 ∨ p ≠ url.schemeDefaultPort)
    (ending : ∀ c cs, tail = c :: cs → c = '/' ∨ c = '?') :
    url.parsePort (Nat.toDigits 10 p ++ tail) = some ({ url with port := some p }, tail) := by
  have read : fromChars 10 (2 ^ 16 - 1) (Nat.toDigits 10 p ++ tail) = ⟨.none, p, tail⟩ := by
    refine fromChars_toDigits (by decide) (by decide) (by omega) fun c cs shape => ?_
    obtain rfl | rfl := ending c cs shape <;> decide
  have valid : (url.schemeDefaultPort = 0 ∧ p = 0) ∨ url.schemeDefaultPort ≠ p := by
    obtain none | other := kept
    · by_cases zero : p = 0
      · exact .inl ⟨none, zero⟩
      · exact .inr (by omega)
    · exact .inr (Ne.symm other)
  have trailing : tail = [] ∨ tail.head? = some '/' ∨ tail.head? = some '?' := by
    cases tail with
    | nil => exact .inl rfl
    | cons c cs =>
        obtain rfl | rfl := ending c cs rfl
        · exact .inr (.inl rfl)
        · exact .inr (.inr rfl)
  rw [parsePort, read]
  dsimp only
  rw [if_neg (by decide), if_pos]
  · rw [if_pos]
    simpa using valid
  · simp only [Bool.or_eq_true, decide_eq_true_eq]
    tauto

end Url

end Mux.Ada
