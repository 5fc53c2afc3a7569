import Mux.Http.ParseFailure

/-!
# The host and the port of a request

What a `Host` field may hold: a registered name, an IPv4 address or an IPv6 address
in brackets, and possibly a port. The parser cuts the field at its first colon. An
IPv6 address has colons of its own, and the port that stands in for a missing one
depends on a protocol that the parser does not store.
-/

namespace Mux.Http

open Text

/-! ## Authorities -/

/-- The characters of a registered name that need no encoding. -/
def isRegChar (c : Char) : Bool := c.isAlphanum || c ∈ "-._~!$&'()*+,;=".toList

def isHexDigit (c : Char) : Bool :=
  c.isDigit || ('a' ≤ c && c ≤ 'f') || ('A' ≤ c && c ≤ 'F')

inductive IsRegName : Str → Prop where
  | nil : IsRegName []
  | char {c : Char} {name : Str} (plain : isRegChar c = true) (rest : IsRegName name) :
      IsRegName (c :: name)
  | encoded {a b : Char} {name : Str} (high : isHexDigit a = true) (low : isHexDigit b = true)
      (rest : IsRegName name) : IsRegName ('%' :: a :: b :: name)

/-- Four numbers of one byte. -/
structure IPv4Address where
  first : Fin 256
  second : Fin 256
  third : Fin 256
  fourth : Fin 256
  deriving DecidableEq, Repr

def IPv4Address.text (address : IPv4Address) : Str :=
  decimal address.first ++ '.' :: (decimal address.second ++ '.' ::
    (decimal address.third ++ '.' :: decimal address.fourth))

/-- Sixteen bits of an address, in one to four digits. -/
abbrev H16 : Type := { s : Str // 0 < s.length ∧ s.length ≤ 4 ∧ s.all isHexDigit = true }

/-- The number of groups that an IPv4 address at the end stands for. -/
def width : Option IPv4Address → Nat
  | none => 0
  | some _ => 2

/-- Eight groups, or fewer of them around two colons that stand for zeros. -/
inductive IPv6Address where
  | full (groups : List H16) (last : Option IPv4Address) (count : groups.length + width last = 8)
  | compressed (front back : List H16) (last : Option IPv4Address)
      (count : front.length + back.length + width last ≤ 7)

namespace IPv6Address

def parts (groups : List H16) (last : Option IPv4Address) : List Str :=
  groups.map Subtype.val ++ last.toList.map IPv4Address.text

def text : IPv6Address → Str
  | full groups last _ => [':'].intercalate (parts groups last)
  | compressed front back last _ =>
      [':'].intercalate (parts front none) ++ "::".toList ++ [':'].intercalate (parts back last)

end IPv6Address

inductive Host where
  | regName (name : { s : Str // IsRegName s })
  | ipv4 (address : IPv4Address)
  | ipv6 (address : IPv6Address)

namespace Host

def text : Host → Str
  | regName name => name.val
  | ipv4 address => address.text
  | ipv6 address => '[' :: (address.text ++ [']'])

def isIPv6 : Host → Bool
  | ipv6 _ => true
  | _ => false

end Host

/-- The value of a `Host` field. -/
structure Authority where
  host : Host
  port : Option { s : Str // s ≠ [] ∧ s.all Char.isDigit = true }

def Authority.text (a : Authority) : Str :=
  match a.port with
  | none => a.host.text
  | some port => a.host.text ++ ':' :: port.val

/-! ## The colons of a host -/

theorem IsRegName.no_colon {name : Str} (h : IsRegName name) : ':' ∉ name := by
  have digit {c : Char} (hex : isHexDigit c = true) : ':' ≠ c := by
    rintro rfl
    revert hex
    decide
  induction h with
  | nil => exact List.not_mem_nil
  | @char c name plain rest ih =>
      have apart : ':' ≠ c := by
        rintro rfl
        revert plain
        decide
      exact List.not_mem_cons_of_ne_of_not_mem apart ih
  | encoded high low rest ih =>
      exact List.not_mem_cons_of_ne_of_not_mem (by decide)
        (List.not_mem_cons_of_ne_of_not_mem (digit high)
          (List.not_mem_cons_of_ne_of_not_mem (digit low) ih))

theorem IPv4Address.no_colon (address : IPv4Address) : ':' ∉ address.text := by
  have digits (n : Nat) : ':' ∉ decimal n := not_mem_decimal (by decide) n
  simp [IPv4Address.text, digits]

/-- What is joined of two or more parts has the separator in it. -/
theorem mem_intercalate {c : Char} {parts : List Str} (several : 2 ≤ parts.length) :
    c ∈ [c].intercalate parts := by
  match parts, several with
  | first :: second :: parts, _ =>
      rw [List.intercalate_cons_cons]
      simp

theorem IPv6Address.colon_mem (address : IPv6Address) : ':' ∈ address.text := by
  cases address with
  | full groups last count =>
      apply mem_intercalate
      cases last <;> simp [parts, width] at count ⊢ <;> omega
  | compressed front back last count => simp [text]

/-- Only an IPv6 address has a colon. -/
theorem Host.colon_mem_iff (host : Host) : ':' ∈ host.text ↔ host.isIPv6 = true := by
  cases host with
  | regName name => exact iff_of_false name.property.no_colon (by simp [Host.isIPv6])
  | ipv4 address => exact iff_of_false address.no_colon (by simp [Host.isIPv6])
  | ipv6 address =>
      have inside : ':' ∈ address.text ++ [']'] := List.mem_append_left _ address.colon_mem
      exact iff_of_true (List.mem_cons_of_mem '[' inside) rfl

namespace Request

/-! ## The split -/

theorem hostAndPort_split {before : Str} (clean : ':' ∉ before) (protocol after : Str) :
    hostAndPort protocol (before ++ ':' :: after) = (before, after) := by
  simp [hostAndPort, idxOf?_append_cons clean]

theorem hostAndPort_whole {value : Str} (clean : ':' ∉ value) (protocol : Str) :
    hostAndPort protocol value =
      (value, if protocol = "HTTP/1.1".toList then "80".toList else "443".toList) := by
  simp only [hostAndPort, List.idxOf?_eq_none_iff.mpr clean]

/-- The host that the parser finds has no colon. -/
theorem no_colon_hostAndPort (protocol value : Str) : ':' ∉ (hostAndPort protocol value).1 := by
  by_cases member : ':' ∈ value
  · obtain ⟨before, after, rfl, clean⟩ := List.eq_append_cons_of_mem member
    rw [hostAndPort_split clean]
    exact clean
  · rw [hostAndPort_whole member]
    exact member

/-! ## The parsed fields -/

/-- Host and port are those of the authority, and the port of HTTP where it has none. -/
structure SplitsTo (t : Request) (a : Authority) : Prop where
  host : t.host_ = a.host.text
  port : t.port_ = (a.port.map Subtype.val).getD "80".toList
  joined : a.port.isSome → t.host_ ++ ':' :: t.port_ = a.text

/-- The authority is the stored host, and the text begins with a request line of HTTP/1.1. -/
structure Receives (r : Request) (raw : Str) (a : Authority) : Prop where
  stored : r.headers_.headers.find? hostKey = some a.text
  requestLine : ∃ line lines method target, getlines raw = line :: lines ∧
    requestTokens line = some (method, target, "HTTP/1.1".toList)

section Splits

variable {ada : AdaParse} {r t : Request} {raw value : Str} {a : Authority}

/-- No stage behind the host assigns host and port. -/
theorem parseSections_hostAndPort {lines : List Str} (h : r.parseSections raw lines = .ok t) :
    t.host_ = r.host_ ∧ t.port_ = r.port_ := by
  unfold parseSections at h
  split at h
  · next rest =>
      obtain ⟨looped, loop, finish⟩ := Outcome.bind_eq_ok.mp h
      have fields := parseHeaders_frame loop
      obtain rfl := Outcome.ok.inj finish
      rw [fields]
      split <;> exact ⟨rfl, rfl⟩
  · cases h

theorem parse_hostAndPort (stored : r.headers_.headers.find? hostKey = some value)
    (returned : r.parse ada raw = .ok t) :
    (t.host_, t.port_) = hostAndPort r.protocol_ value := by
  obtain ⟨_, _, _, afterUrl, afterHost, _, _, url, host, sections⟩ := parse_eq_ok.mp returned
  obtain ⟨input, parsed, path, accepted, rfl⟩ := parseUrl_eq_ok.mp url
  have present := parseHost_returns.mp ⟨afterHost, host⟩
  have holds : (r.withUrl parsed).HoldsHost value := by
    refine ⟨?_, stored⟩
    rintro rfl
    exact present (by simp [stored])
  obtain rfl : (r.withUrl parsed).withHost value = afterHost :=
    Outcome.ok.inj (holds.parseHost.symm.trans host)
  obtain ⟨same, same'⟩ := parseSections_hostAndPort sections
  rw [same, same']
  rfl

/-- A successful call takes the field apart exactly when the host is not an IPv6 address and
the port is given, or the request was one of HTTP/1.1 before the call. -/
theorem splitsTo_iff (ada : AdaParse) (receives : r.Receives raw a)
    (returned : r.parse ada raw = .ok t) :
    t.SplitsTo a ↔
      a.host.isIPv6 = false ∧ (a.port.isSome ∨ r.protocol_ = "HTTP/1.1".toList) := by
  have split := parse_hostAndPort receives.stored returned
  obtain ⟨host, port⟩ := a
  constructor
  · intro splits
    have plain : ':' ∉ host.text := by
      have clean := no_colon_hostAndPort r.protocol_ (Authority.text ⟨host, port⟩)
      rw [← split, splits.host] at clean
      exact clean
    refine ⟨by simpa using mt host.colon_mem_iff.mpr plain, ?_⟩
    cases port with
    | some port => exact .inl rfl
    | none =>
        refine .inr ?_
        by_contra other
        rw [Authority.text, hostAndPort_whole plain, if_neg other] at split
        have wrong : "443".toList = "80".toList := (Prod.mk.inj split).2.symm.trans splits.port
        exact absurd wrong (by decide)
  · rintro ⟨plain, given⟩
    have clean : ':' ∉ host.text := mt host.colon_mem_iff.mp (by simp [plain])
    cases port with
    | some port =>
        rw [Authority.text, hostAndPort_split clean] at split
        obtain ⟨sameHost, samePort⟩ := Prod.mk.inj split
        exact ⟨sameHost, samePort, fun _ => by rw [sameHost, samePort]; rfl⟩
    | none =>
        obtain given | protocol := given
        · cases given
        · rw [Authority.text, hostAndPort_whole clean, if_pos protocol] at split
          obtain ⟨sameHost, samePort⟩ := Prod.mk.inj split
          exact ⟨sameHost, samePort, nofun⟩

end Splits

/-- The reused request with another host among its headers. -/
def hosted (value : Str) : Request :=
  { reused with headers_ := ({} : HTTPHeader).setHeader hostKey value }

def bare : Str := "GET /new HTTP/1.1\n\n\n".toList

/-- The name `h`. -/
def shortName : Host := .regName ⟨['h'], .char (by decide) .nil⟩

/-- The address that is all zeros but for its last bit. -/
def loopback : Host := .ipv6 (.compressed [] [⟨['1'], by decide⟩] none (by decide))

def port8080 : { s : Str // s ≠ [] ∧ s.all Char.isDigit = true } := ⟨"8080".toList, by decide⟩

theorem receives_bare (a : Authority) : (hosted a.text).Receives bare a where
  stored := UnorderedMap.find?_insert _ _ _
  requestLine := ⟨_, _, _, _, rfl, rfl⟩

theorem ported_splitsTo : ∃ t, (hosted "h:8080".toList).parse sampleAda bare = .ok t ∧
    t.SplitsTo ⟨shortName, some port8080⟩ :=
  ⟨_, rfl, (splitsTo_iff sampleAda (receives_bare ⟨shortName, some port8080⟩) rfl).mpr
    ⟨rfl, .inl rfl⟩⟩

/-- Without a port the port of HTTPS is chosen, and an IPv6 address is cut at its first
colon. -/
theorem bare_not_splitsTo :
    (¬ ∀ t, (hosted "h".toList).parse sampleAda bare = .ok t → t.SplitsTo ⟨shortName, none⟩) ∧
    ¬ ∀ t, (hosted "[::1]:8080".toList).parse sampleAda bare = .ok t →
      t.SplitsTo ⟨loopback, some port8080⟩ := by
  constructor
  · intro splits
    have port := (splits _ rfl).port
    revert port
    decide
  · intro splits
    have host := (splits _ rfl).host
    revert host
    decide

end Request

end Mux.Http
