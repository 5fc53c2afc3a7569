import Mux.Ada.Canonical

/-!
# The text of a URL stands for the URL

An accepted URL is written as its `getHref`, and the parser reads that text as the
same URL. There is one exception: without a host, a path that was resolved to
nothing is read as an opaque path. The texts of the components are followed through
the states in the order in which they are read.
-/

namespace Mux.Ada

open Text Numerals CharacterSets Unicode Scheme Checkers Helpers Host Url
open UrlParser hiding query path port host authority scheme file

namespace RoundTrip

def queryText (query : Option Str) : Str :=
  match query with
  | none => []
  | some query => '?' :: query

def hashText (hash : Option Str) : Str :=
  match hash with
  | none => []
  | some hash => '#' :: hash

def credentialsText (url : Url) : Str :=
  if url.hasCredentials then
    url.username ++ (if url.password ≠ [] then ':' :: url.password else []) ++ ['@']
  else []

def portText (port : Option Nat) : Str :=
  match port with
  | none => []
  | some port => ':' :: Nat.toDigits 10 port

/-- The text between the colon of the scheme and the path. -/
def authorityText (url : Url) : Str :=
  match url.host with
  | some host => '/' :: '/' :: (credentialsText url ++ (host ++ portText url.port))
  | none => if !url.has_opaque_path && ['/', '/'].isPrefixOf url.path then ['/', '.'] else []

variable {idna : Str → Str} {url : Url} {name rest : Str}

theorem getHref_eq (scheme : SchemeText url.type url.non_special_scheme name) :
    url.getHref = name ++ ':' :: (authorityText url ++ (url.path ++ queryText url.query)) ++
      hashText url.hash := by
  have protocol : url.getProtocol = name ++ [':'] := by
    rw [getProtocol, ← scheme.protocol]
    simp [Url.isSpecial]
  rw [getHref, protocol, authorityText.eq_def, credentialsText, portText.eq_def, queryText.eq_def,
    hashText.eq_def, getPort]
  cases url.host <;> cases url.port <;> cases url.query <;> cases url.hash <;> simp

/-! ## Behind the host -/

theorem finish_hash (canonical : Canonical idna url) {start : Url}
    (same : url = { start with hash := url.hash }) (none : start.hash = none) :
    finish url.hash start = url := by
  rw [finish.eq_def]
  split
  · next absent =>
      rw [same, absent, ← none]
  · next hash present =>
      rw [percentEncode_of_encoded (canonical.hash hash present), ← present, ← same]

theorem query_query (canonical : Canonical idna url) {start : Url} {text : Str}
    (same : url = { start with query := some text, hash := url.hash }) (none : start.hash = none) :
    UrlParser.query url.hash start text = url := by
  have type : start.type = url.type := by rw [same]
  have stored : url.query = some text := by rw [same]
  have set : (if start.isSpecial then SPECIAL_QUERY_PERCENT_ENCODE else QUERY_PERCENT_ENCODE) =
      querySet url.type := by simp [querySet, Url.isSpecial, type]
  rw [UrlParser.query, set, percentEncode_of_encoded (canonical.query text stored)]
  exact finish_hash canonical same none

theorem path_path (canonical : Canonical idna url) {start : Url} {view : Str} (fresh : Fresh start)
    (clean : '?' ∉ view)
    (same : url = { start with
      path := parsePreparedPath view start.type [], query := url.query, hash := url.hash }) :
    UrlParser.path url.hash start (view ++ queryText url.query) = url := by
  cases found : url.query with
  | none =>
      rw [found, ← fresh.query] at same
      rw [queryText, List.append_nil, UrlParser.path, cut?_singleton_eq_none.mpr clean, fresh.path]
      exact finish_hash canonical same fresh.hash
  | some query =>
      rw [found] at same
      rw [queryText, UrlParser.path, cut?_singleton_eq_some.mpr ⟨rfl, clean⟩, fresh.path]
      exact query_query canonical same fresh.hash

/-- The path of a URL with a host. -/
theorem pathStart_path (canonical : Canonical idna url) {start : Url} (fresh : Fresh start)
    (rooted : url.has_opaque_path = false)
    (same : url = { start with path := url.path, query := url.query, hash := url.hash }) :
    pathStart url.hash start (url.path ++ queryText url.query) = url := by
  have type : start.type = url.type := by rw [same]
  obtain ⟨encoded, nonempty, fixed, -⟩ := canonical.rooted_path rooted
  cases found : url.path with
  | nil =>
      have plain : url.type = .NOT_SPECIAL := by
        by_contra special
        exact nonempty special found
      have special : start.isSpecial = false := by simp [Url.isSpecial, type, plain]
      rw [found, ← fresh.path] at same
      rw [pathStart.eq_def, special, if_neg Bool.false_ne_true, List.nil_append]
      cases text : url.query with
      | none =>
          rw [text, ← fresh.query] at same
          exact finish_hash canonical same fresh.hash
      | some query =>
          rw [text] at same
          exact query_query canonical same fresh.hash
  | cons c view =>
      obtain ⟨rest, shape, again⟩ := fixed (by rw [found]; exact List.cons_ne_nil c view)
      obtain ⟨rfl, rfl⟩ := List.cons.inj (found.symm.trans shape)
      have clean : '?' ∉ view := by
        have outside := encoded.not_mem (c := '?') (by decide)
        rw [found, List.mem_cons, not_or] at outside
        exact outside.2
      have text : parsePreparedPath view start.type [] = url.path := by rw [type, again]
      have here : UrlParser.path url.hash start (view ++ queryText url.query) = url := by
        refine path_path canonical fresh clean ?_
        rw [text]
        exact same
      rw [pathStart.eq_def]
      cases start.isSpecial with
      | true => exact here
      | false => exact here

/-! ## From the host on -/

/-- What follows the host and the port. -/
theorem path_or_query (canonical : Canonical idna url) (rooted : url.has_opaque_path = false) :
    ∀ c cs, url.path ++ queryText url.query = c :: cs → c = '/' ∨ c = '?' := by
  intro c cs shape
  obtain ⟨-, -, fixed, -⟩ := canonical.rooted_path rooted
  cases found : url.path with
  | nil =>
      rw [found, List.nil_append] at shape
      cases text : url.query with
      | none =>
          rw [text] at shape
          cases shape
      | some query =>
          rw [text] at shape
          exact .inr (List.cons.inj shape).1.symm
  | cons d view =>
      obtain ⟨rest, slash, -⟩ := fixed (by rw [found]; exact List.cons_ne_nil d view)
      rw [slash] at shape
      exact .inl (List.cons.inj shape).1.symm

theorem port_port (canonical : Canonical idna url) {start : Url} (fresh : Fresh start)
    (rooted : url.has_opaque_path = false) {p : Nat} (stored : url.port = some p)
    (same : url = { start with
      port := some p, path := url.path, query := url.query, hash := url.hash }) :
    UrlParser.port url.hash start (Nat.toDigits 10 p ++ (url.path ++ queryText url.query)) =
      some url := by
  have type : start.type = url.type := by rw [same]
  obtain ⟨bound, kept⟩ := canonical.port p stored
  have read := @parsePort_toDigits start p _ bound (by rw [schemeDefaultPort, type]; exact kept)
    (path_or_query canonical rooted)
  rw [UrlParser.port, read]
  exact congrArg some (pathStart_path canonical ⟨fresh.path, fresh.rooted, fresh.query, fresh.hash⟩
    rooted same)

theorem not_mem_of_plain {host : Str} {c : Char}
    (plain : ∀ d ∈ host,
      isForbiddenHostCodePoint d = false ∧ ' ' < d ∧ d ≠ '\x7f' ∧ d.toNat < 256)
    (forbidden : isForbiddenHostCodePoint c = true) : c ∉ host := by
  intro found
  rw [(plain c found).1] at forbidden
  cases forbidden

/-- The search stops at the colon of the port, at the path or at the query. -/
theorem hostDelimiterLocation_stop {special : Bool} {before tail : Str} (rounds : Nat)
    (inside : ∀ c ∈ before, (!isHostDelimiter special c) = true)
    (ending : ∀ c cs, tail = c :: cs → c = ':' ∨ c = '/' ∨ c = '?') :
    hostDelimiterLocation special (rounds + 1) (before ++ tail) =
      (before.length, decide (tail.head? = some ':')) := by
  have stop : ∀ c cs, tail = c :: cs → (!isHostDelimiter special c) = false := by
    intro c cs shape
    obtain rfl | rfl | rfl := ending c cs shape <;> rfl
  rw [hostDelimiterLocation, (takeWhile_append_stop inside stop).1]
  dsimp only
  rw [List.drop_left]
  cases tail with
  | nil => simp
  | cons c cs =>
      have other : c ≠ '[' := by
        obtain rfl | rfl | rfl := ending c cs rfl <;> decide
      simp [other]

/-- What is between brackets is passed over. -/
theorem hostDelimiterLocation_host {special : Bool} {host tail : Str} (text : HostText host)
    (rounds : Nat) (ending : ∀ c cs, tail = c :: cs → c = ':' ∨ c = '/' ∨ c = '?') :
    hostDelimiterLocation special (rounds + 2) (host ++ tail) =
      (host.length, decide (tail.head? = some ':')) := by
  obtain ⟨address, -, rfl⟩ | ⟨-, plain⟩ := text
  · rw [Ipv6.ipv6_eq]
    generalize inside : Serializers.pieceTexts address _ _ 8 0 = text
    have clean : ']' ∉ '[' :: text := by
      rw [List.mem_cons, not_or]
      refine ⟨by decide, fun found => ?_⟩
      rw [← inside] at found
      obtain same | digit := Ipv6.of_mem_pieceTexts found
      · cases same
      · cases digit
    have shape : '[' :: text ++ [']'] ++ tail = ('[' :: text) ++ ']' :: tail := by simp
    have bracket := idxOf?_append_cons clean tail
    have after : (('[' :: text) ++ ']' :: tail).drop ('[' :: text).length = [']'] ++ tail :=
      List.drop_left
    have first : isHostDelimiter special '[' = true := by simp [isHostDelimiter]
    rw [shape, hostDelimiterLocation, List.cons_append,
      List.takeWhile_cons_of_neg (by simp [first])]
    rw [List.cons_append] at bracket after
    simp only [List.length_nil, List.drop_zero, if_true, bracket, after]
    rw [hostDelimiterLocation_stop rounds (by simp [isHostDelimiter]) ending]
    simp
  · refine hostDelimiterLocation_stop (rounds + 1) (fun c found => ?_) ending
    have outside : ∀ {d}, isForbiddenHostCodePoint d = true → c ≠ d := by
      rintro d forbidden rfl
      exact not_mem_of_plain plain forbidden found
    have colon : c ≠ ':' := outside (by decide)
    have slash : c ≠ '/' := outside (by decide)
    have question : c ≠ '?' := outside (by decide)
    have bracket : c ≠ '[' := outside (by decide)
    have backslash : c ≠ '\\' := outside (by decide)
    simp [isHostDelimiter, colon, slash, question, bracket, backslash]

theorem host_host (canonical : Canonical idna url) {start : Url} (fresh : Fresh start)
    (port : start.port = none) (kind : start.host_type = .DEFAULT) (other : url.type ≠ .FILE)
    (rooted : url.has_opaque_path = false) {host : Str} (stored : url.host = some host)
    (settled : Settled idna host)
    (same : url = { start with
      host := some host, host_type := url.host_type, port := url.port, path := url.path
      query := url.query, hash := url.hash }) :
    UrlParser.host idna url.hash start
      (host ++ (portText url.port ++ (url.path ++ queryText url.query))) = some url := by
  have type : start.type = url.type := by rw [same]
  have behind := path_or_query canonical rooted
  have no_colon : (url.path ++ queryText url.query).head? ≠ some ':' := by
    intro first
    obtain ⟨cs, shape⟩ := List.head?_eq_some_iff.mp first
    obtain none | none := behind _ _ shape <;> cases none
  obtain ⟨rfl, kinds, host_type⟩ | ⟨parsed, text, -⟩ := canonical.host host stored
  · -- an empty host has no port
    have plain : url.type = .NOT_SPECIAL := kinds.resolve_right other
    obtain ⟨-, -, no_port⟩ := canonical.bare (.inr (.inl stored))
    have special : start.isSpecial = false := by simp [Url.isSpecial, type, plain]
    have found := @hostDelimiterLocation_stop start.isSpecial [] _
      (url.path ++ queryText url.query).length (by simp) fun c cs shape => .inr (behind c cs shape)
    rw [List.nil_append] at found
    rw [no_port, ← port, host_type, ← kind] at same
    rw [no_port, portText, List.nil_append, List.nil_append, UrlParser.host,
      getHostDelimiterLocation, found]
    simp only [no_colon, special, List.length_nil, List.take_zero, List.drop_zero, decide_false,
      Bool.false_and, Bool.false_eq_true, if_false, if_true]
    exact congrArg some (pathStart_path canonical
      ⟨fresh.path, fresh.rooted, fresh.query, fresh.hash⟩ rooted same)
  · have parsed := parsed settled
    have nonempty := text.ne_nil
    have located : ∀ tail : Str, (∀ c cs, tail = c :: cs → c = ':' ∨ c = '/' ∨ c = '?') →
        getHostDelimiterLocation start.isSpecial (host ++ tail) =
          (host.length, decide (tail.head? = some ':')) := by
      intro tail ending
      have some_rounds : (host ++ tail).length + 1 = ((host ++ tail).length - 1) + 2 := by
        have positive := List.length_pos_iff.mpr nonempty
        rw [List.length_append]
        omega
      rw [getHostDelimiterLocation, some_rounds]
      exact hostDelimiterLocation_host text _ ending
    cases number : url.port with
    | none =>
        rw [number, ← port] at same
        rw [portText, List.nil_append, UrlParser.host,
          located _ fun c cs shape => .inr (behind c cs shape)]
        simp only [no_colon, decide_false, Bool.false_eq_true, if_false, List.take_left,
          List.drop_left, nonempty, Bool.and_false, type, parsed, Option.map_some]
        rw [← type]
        exact congrArg some (pathStart_path canonical
          ⟨fresh.path, fresh.rooted, fresh.query, fresh.hash⟩ rooted same)
    | some p =>
        have colon : host ++ (portText (some p) ++ (url.path ++ queryText url.query)) =
            host ++ ':' :: (Nat.toDigits 10 p ++ (url.path ++ queryText url.query)) := rfl
        rw [number] at same
        rw [colon, UrlParser.host, located _ fun c cs shape => .inl (List.cons.inj shape).1.symm]
        simp only [List.head?_cons, decide_true, if_true, List.take_left, type, parsed,
          Option.bind_some, List.drop_length_add_append, List.drop_succ_cons, List.drop_zero]
        rw [← type]
        have next : Fresh { start with host := some host, host_type := url.host_type } :=
          ⟨fresh.path, fresh.rooted, fresh.query, fresh.hash⟩
        exact port_port canonical next rooted number same

/-! ## The credentials -/

/-- Nothing ends the authority before its port does. -/
theorem not_delimiter_of_host {special : Bool} {host : Str} (text : host = [] ∨ HostText host)
    (port : Option Nat) :
    ∀ c ∈ host ++ portText port, (!isAuthorityDelimiter special c) = true := by
  have four : ∀ {c}, c ≠ '@' → c ≠ '/' → c ≠ '?' → c ≠ '\\' →
      (!isAuthorityDelimiter special c) = true := by
    intro c at_sign slash question backslash
    simp [isAuthorityDelimiter, at_sign, slash, question, backslash]
  have digits : ∀ c, isAsciiHexDigit c = true → (!isAuthorityDelimiter special c) = true := by
    intro c digit
    refine four ?_ ?_ ?_ ?_ <;> rintro rfl <;> cases digit
  intro c found
  obtain inside | inside := List.mem_append.mp found
  · obtain rfl | ⟨address, -, rfl⟩ | ⟨-, plain⟩ := text
    · cases inside
    · obtain rfl | rfl | rfl | digit := Ipv6.of_mem_ipv6 inside
      · exact four (by decide) (by decide) (by decide) (by decide)
      · exact four (by decide) (by decide) (by decide) (by decide)
      · exact four (by decide) (by decide) (by decide) (by decide)
      · exact digits c digit
    · have outside : ∀ {d}, isForbiddenHostCodePoint d = true → c ≠ d := by
        rintro d forbidden rfl
        exact not_mem_of_plain plain forbidden inside
      exact four (outside (by decide)) (outside (by decide)) (outside (by decide))
        (outside (by decide))
  · rw [portText.eq_def] at inside
    split at inside
    · cases inside
    · obtain rfl | digit := List.mem_cons.mp inside
      · exact four (by decide) (by decide) (by decide) (by decide)
      · have all : ∀ d : Fin 10, isAsciiHexDigit (Nat.digitChar d) = true := by decide
        obtain ⟨d, bound, rfl⟩ := exists_of_mem_toDigits (by decide) digit
        exact digits _ (all ⟨d, bound⟩)

/-- A round that finds no further sign. -/
theorem credentials_done {special : Bool} {rounds : Nat} {front tail username password : Str}
    {at_sign_seen password_token_seen : Bool}
    (inside : ∀ c ∈ front, (!isAuthorityDelimiter special c) = true)
    (ending : ∀ c cs, tail = c :: cs → c = '/' ∨ c = '?')
    (hosted : at_sign_seen = true → front ≠ []) :
    credentials special (rounds + 1) (front ++ tail) username password at_sign_seen
      password_token_seen = some (username, password, front ++ tail) := by
  have stop : ∀ c cs, tail = c :: cs → (!isAuthorityDelimiter special c) = false := by
    intro c cs shape
    obtain rfl | rfl := ending c cs shape <;> rfl
  rw [credentials, (takeWhile_append_stop inside stop).1]
  dsimp only
  rw [List.drop_left]
  split
  · next rest =>
      obtain none | none := ending _ _ rfl <;> cases none
  · rw [if_neg]
    rw [Bool.and_eq_true, decide_eq_true_eq]
    exact fun both => hosted both.1 both.2

/-- Nothing ends the authority inside the credentials. -/
theorem not_delimiter_of_credentials {special : Bool} {username password : Str}
    (user : Encoded USERINFO_PERCENT_ENCODE username)
    (pass : Encoded USERINFO_PERCENT_ENCODE password) :
    ∀ c ∈ username ++ (if password ≠ [] then ':' :: password else []),
      (!isAuthorityDelimiter special c) = true := by
  have plain : ∀ {s : Str}, Encoded USERINFO_PERCENT_ENCODE s → ∀ c ∈ s,
      (!isAuthorityDelimiter special c) = true := by
    intro s encoded c found
    have outside : ∀ {d}, bitAt USERINFO_PERCENT_ENCODE d = true → c ≠ d := by
      rintro d held rfl
      exact encoded.not_mem held found
    have at_sign : c ≠ '@' := outside (by decide)
    have slash : c ≠ '/' := outside (by decide)
    have question : c ≠ '?' := outside (by decide)
    have backslash : c ≠ '\\' := outside (by decide)
    simp [isAuthorityDelimiter, at_sign, slash, question, backslash]
  intro c found
  obtain found | found := List.mem_append.mp found
  · exact plain user c found
  · split at found
    · obtain rfl | found := List.mem_cons.mp found
      · simp [isAuthorityDelimiter]
      · exact plain pass c found
    · cases found

/-- The credentials that were written are read. -/
theorem credentials_credentials {special : Bool} (rounds : Nat) {username password : Str}
    (user : Encoded USERINFO_PERCENT_ENCODE username)
    (pass : Encoded USERINFO_PERCENT_ENCODE password) (rest : Str) :
    ∃ password_token_seen, credentials special (rounds + 1)
        ((username ++ if password ≠ [] then ':' :: password else []) ++ '@' :: rest) [] [] false
        false =
      credentials special rounds rest username password true password_token_seen := by
  have stop : ∀ c cs, '@' :: rest = c :: cs → (!isAuthorityDelimiter special c) = false := by
    intro c cs shape
    obtain ⟨rfl, -⟩ := List.cons.inj shape
    rfl
  have no_colon : ':' ∉ username := user.not_mem (by decide)
  rw [credentials, (takeWhile_append_stop (not_delimiter_of_credentials user pass) stop).1]
  dsimp only
  rw [List.drop_left]
  by_cases token : password = []
  · subst token
    refine ⟨false, ?_⟩
    have whole : username ++ (if ([] : Str) ≠ [] then [':'] else []) = username := by simp
    simp only [ne_eq, not_true_eq_false, if_false, List.append_nil]
    rw [cut?_singleton_eq_none.mpr no_colon]
    simp [userinfo, percentEncode_of_encoded user]
  · refine ⟨true, ?_⟩
    rw [if_pos token, cut?_singleton_eq_some.mpr ⟨rfl, no_colon⟩]
    simp [userinfo, percentEncode_of_encoded user, percentEncode_of_encoded pass]

theorem authority_authority (canonical : Canonical idna url) {start : Url} (fresh : Fresh start)
    (unsigned : start.username = [] ∧ start.password = []) (port : start.port = none)
    (kind : start.host_type = .DEFAULT) (other : url.type ≠ .FILE)
    (rooted : url.has_opaque_path = false) {host : Str} (stored : url.host = some host)
    (settled : Settled idna host)
    (same : url = { start with
      username := url.username, password := url.password, host := some host
      host_type := url.host_type, port := url.port, path := url.path, query := url.query
      hash := url.hash }) :
    UrlParser.authority idna url.hash start
      (credentialsText url ++ (host ++ (portText url.port ++ (url.path ++ queryText url.query)))) =
        some url := by
  have type : start.type = url.type := by rw [same]
  have kept : ∀ username password, Fresh { start with username, password } := fun _ _ =>
    ⟨fresh.path, fresh.rooted, fresh.query, fresh.hash⟩
  have behind : ∀ c cs, url.path ++ queryText url.query = c :: cs → c = '/' ∨ c = '?' :=
    path_or_query canonical rooted
  have text : host = [] ∨ HostText host := by
    obtain ⟨empty, -⟩ | ⟨-, text, -⟩ := canonical.host host stored
    · exact .inl empty
    · exact .inr text
  have inside := @not_delimiter_of_host start.isSpecial host text url.port
  by_cases signed : url.hasCredentials = true
  · have hosted : host ≠ [] := by
      rintro rfl
      obtain ⟨none, none', -⟩ := canonical.bare (.inr (.inl stored))
      simp [hasCredentials, none, none'] at signed
    have front : host ++ portText url.port ≠ [] := List.append_ne_nil_of_left_ne_nil hosted _
    have credentials_text : credentialsText url =
        (url.username ++ if url.password ≠ [] then ':' :: url.password else []) ++ ['@'] := by
      rw [credentialsText, if_pos signed]
    rw [credentials_text, List.append_assoc _ ['@'], List.singleton_append, UrlParser.authority,
      if_neg (by simp)]
    generalize length : ((url.username ++ if url.password ≠ [] then ':' :: url.password else []) ++
      '@' :: (host ++ (portText url.port ++ (url.path ++ queryText url.query)))).length = n
    obtain ⟨token, read⟩ := @credentials_credentials start.isSpecial n _ _ canonical.username
      canonical.password (host ++ (portText url.port ++ (url.path ++ queryText url.query)))
    obtain ⟨rounds, rfl⟩ : ∃ rounds, n = rounds + 1 := by
      refine ⟨n - 1, ?_⟩
      rw [List.length_append, List.length_cons] at length
      omega
    rw [unsigned.1, unsigned.2, read, ← List.append_assoc host,
      credentials_done inside behind fun _ => front, Option.bind_some, List.append_assoc]
    exact host_host canonical (kept url.username url.password) port kind other rooted stored
      settled same
  · have none : url.username = [] ∧ url.password = [] := by simpa [hasCredentials] using signed
    have no_text : credentialsText url = [] := by rw [credentialsText, if_neg signed]
    rw [none.1.trans unsigned.1.symm, none.2.trans unsigned.2.symm] at same
    rw [no_text, List.nil_append, UrlParser.authority]
    split
    · exact host_host canonical fresh port kind other rooted stored settled same
    · have unseen : false = true → host ++ portText url.port ≠ [] := by simp
      rw [← List.append_assoc host, credentials_done inside behind unseen, Option.bind_some,
        List.append_assoc]
      exact host_host canonical fresh port kind other rooted stored settled same

/-- Behind the two slashes another slash would be passed over. -/
theorem not_slash_of_authority (canonical : Canonical idna url) {host : Str} (text : HostText host)
    {tail : Str} {c : Char} {cs : Str} (shape : credentialsText url ++ (host ++ tail) = c :: cs) :
    c ≠ '/' ∧ c ≠ '\\' := by
  have inside : c ∈ credentialsText url ∨ c ∈ host := by
    cases front : credentialsText url with
    | nil =>
        obtain ⟨d, ds, rfl⟩ := List.exists_cons_of_ne_nil text.ne_nil
        rw [front, List.nil_append, List.cons_append] at shape
        exact .inr ((List.cons.inj shape).1 ▸ List.mem_cons_self)
    | cons d ds =>
        rw [front, List.cons_append] at shape
        exact .inl ((List.cons.inj shape).1 ▸ List.mem_cons_self)
  have two : (!isAuthorityDelimiter true c) = true → c ≠ '/' ∧ c ≠ '\\' := by
    intro clean
    constructor <;> rintro rfl <;> cases clean
  obtain inside | inside := inside
  · rw [credentialsText] at inside
    split at inside
    · obtain inside | last := List.mem_append.mp inside
      · exact two (not_delimiter_of_credentials canonical.username canonical.password c inside)
      · obtain rfl := List.mem_singleton.mp last
        decide
    · cases inside
  · exact two (not_delimiter_of_host (.inr text) none c (List.mem_append_left _ inside))

/-! ## File URLs -/

theorem not_slash_of_host {host : Str} (text : HostText host) :
    ∀ c ∈ host, (!(c = '/' || c = '\\' || c = '?')) = true := by
  intro c found
  have clean := @not_delimiter_of_host true host (.inr text) none c (List.mem_append_left _ found)
  simp only [isAuthorityDelimiter, Bool.not_eq_true', Bool.or_eq_false_iff, Bool.true_and,
    decide_eq_false_iff_not] at clean
  simp [clean]

theorem not_driveLetter_of_host {host : Str} (text : HostText host) :
    isWindowsDriveLetter host = false := by
  obtain ⟨address, -, rfl⟩ | ⟨-, plain⟩ := text
  · rw [Ipv6.ipv6_eq]
    rw [List.cons_append]
    generalize Serializers.pieceTexts address _ _ 8 0 ++ [']'] = rest
    have bracket : isAlpha '[' = false := by decide
    cases rest with
    | nil => rfl
    | cons c rest => simp [isWindowsDriveLetter, bracket]
  · rw [isWindowsDriveLetter.eq_def]
    split
    · next letter sign rest =>
        have outside : ∀ {d}, isForbiddenHostCodePoint d = true → sign ≠ d := by
          rintro d forbidden rfl
          exact not_mem_of_plain plain forbidden (by simp)
        have colon : sign ≠ ':' := outside (by decide)
        have bar : sign ≠ '|' := outside (by decide)
        simp [colon, bar]
    · rfl

theorem fileHost_host (canonical : Canonical idna url) {start : Url} (fresh : Fresh start)
    (file : url.type = .FILE) (kind : start.host_type = .DEFAULT)
    (rooted : url.has_opaque_path = false) {host : Str} (stored : url.host = some host)
    (settled : Settled idna host)
    (same : url = { start with
      host := some host, host_type := url.host_type, path := url.path, query := url.query
      hash := url.hash }) :
    fileHost idna url.hash start (host ++ (url.path ++ queryText url.query)) = some url := by
  have type : start.type = url.type := by rw [same]
  have behind := path_or_query canonical rooted
  have next : ∀ host host_type, Fresh { start with host, host_type } :=
    fun _ _ => ⟨fresh.path, fresh.rooted, fresh.query, fresh.hash⟩
  have stop : ∀ c cs, url.path ++ queryText url.query = c :: cs →
      (!(c = '/' || c = '\\' || c = '?')) = false := by
    intro c cs shape
    obtain rfl | rfl := behind c cs shape <;> rfl
  obtain ⟨rfl, -, host_type⟩ | ⟨parsed, text, kept⟩ := canonical.host host stored
  · rw [host_type, ← kind] at same
    have front := (@takeWhile_append_stop _ _ [] _ (by simp) stop).1
    rw [List.nil_append] at front
    rw [fileHost, List.nil_append, front]
    exact congrArg some (pathStart_path canonical (next _ _) rooted same)
  · have parsed := parsed settled
    have front := (takeWhile_append_stop (not_slash_of_host text) stop).1
    rw [fileHost, front]
    dsimp only
    rw [not_driveLetter_of_host text, if_neg Bool.false_ne_true, if_neg text.ne_nil, type, parsed,
      List.drop_left, Option.map_some]
    dsimp only
    rw [if_neg (kept file), ← type]
    exact congrArg some (pathStart_path canonical (next _ _) rooted same)

/-! ## Without a host -/

theorem opaquePath_path (canonical : Canonical idna url) {start : Url} (fresh : Fresh start)
    (blank : url.has_opaque_path = true)
    (same : url = { start with
      has_opaque_path := true, path := url.path, query := url.query, hash := url.hash }) :
    opaquePath url.hash start (url.path ++ queryText url.query) = url := by
  obtain ⟨-, none, encoded, clean, -⟩ := canonical.opaque_path blank
  have again := percentEncode_of_encoded encoded
  cases found : url.query with
  | none =>
      rw [found, ← fresh.query] at same
      rw [queryText, List.append_nil, opaquePath, cut?_singleton_eq_none.mpr clean.1]
      dsimp only
      rw [again]
      exact finish_hash canonical same fresh.hash
  | some query =>
      rw [found] at same
      rw [queryText, opaquePath, cut?_singleton_eq_some.mpr ⟨rfl, clean.1⟩]
      dsimp only
      rw [again]
      exact query_query canonical same fresh.hash

/-- The two slashes that a path may start with are not taken for a host. -/
theorem pathOrAuthority_path (canonical : Canonical idna url) {start : Url} (fresh : Fresh start)
    (rooted : url.has_opaque_path = false) (hostless : url.host = none) {rest : Str}
    (shape : url.path = '/' :: rest)
    (same : url = { start with path := url.path, query := url.query, hash := url.hash }) :
    ∃ view, authorityText url ++ (url.path ++ queryText url.query) = '/' :: view ∧
      pathOrAuthority idna url.hash start view = some url := by
  have type : start.type = url.type := by rw [same]
  obtain ⟨plain, -⟩ := canonical.hostless hostless
  obtain ⟨encoded, -, fixed, double⟩ := canonical.rooted_path rooted
  have clean : '?' ∉ url.path := encoded.not_mem (by decide)
  by_cases slashes : ['/', '/'].isPrefixOf url.path = true
  · obtain ⟨rest, rfl⟩ : ∃ rest', rest = '/' :: rest' := by
      rw [shape, List.isPrefixOf_iff_prefix, List.cons_prefix_cons] at slashes
      obtain ⟨rest', whole⟩ := slashes.2
      exact ⟨rest', whole.symm⟩
    refine ⟨'.' :: url.path ++ queryText url.query, ?_, ?_⟩
    · rw [authorityText.eq_def, hostless]
      simp [rooted, slashes]
    · have text : parsePreparedPath ('.' :: url.path) start.type [] = url.path := by
        rw [type, plain]
        exact double hostless rest shape
      have here :
          UrlParser.path url.hash start (('.' :: url.path) ++ queryText url.query) = url := by
        refine path_path canonical fresh ?_ ?_
        · rw [List.mem_cons, not_or]
          exact ⟨by decide, clean⟩
        · rw [text]
          exact same
      exact congrArg some here
  · refine ⟨rest ++ queryText url.query, ?_, ?_⟩
    · have single : ¬(!url.has_opaque_path && ['/', '/'].isPrefixOf url.path) = true := by
        rw [Bool.and_eq_true]
        exact fun both => slashes both.2
      rw [authorityText.eq_def, hostless]
      dsimp only
      rw [if_neg single, shape]
      rfl
    · obtain ⟨rest', shape', again⟩ := fixed (by rw [shape]; exact List.cons_ne_nil _ _)
      obtain rfl := (List.cons.inj (shape.symm.trans shape')).2
      have text : parsePreparedPath rest start.type [] = url.path := by rw [type, again]
      have here : UrlParser.path url.hash start (rest ++ queryText url.query) = url := by
        refine path_path canonical fresh (fun found => clean ?_) ?_
        · rw [shape]
          exact List.mem_cons_of_mem _ found
        · rw [text]
          exact same
      rw [pathOrAuthority.eq_def]
      split
      · next view double =>
          cases rest with
          | nil =>
              cases query : url.query with
              | none =>
                  rw [query] at double
                  cases double
              | some query' =>
                  rw [query] at double
                  cases double
          | cons c cs =>
              obtain ⟨rfl, -⟩ := List.cons.inj double
              rw [shape] at slashes
              exact absurd rfl slashes
      · exact congrArg some here

/-! ## Behind the scheme -/

/-- The components that the scheme gives. -/
def schemeOf (url : Url) : Url :=
  { type := url.type, non_special_scheme := url.non_special_scheme }

theorem afterScheme_host (canonical : Canonical idna url) {host : Str}
    (stored : url.host = some host) (settled : Settled idna host) :
    afterScheme idna url.hash (schemeOf url)
      (authorityText url ++ (url.path ++ queryText url.query)) = some url := by
  have rooted : url.has_opaque_path = false := by
    rw [Bool.eq_false_iff]
    intro blank
    rw [(canonical.opaque_path blank).2.hostless] at stored
    cases stored
  have text : authorityText url ++ (url.path ++ queryText url.query) =
      '/' :: '/' :: (credentialsText url ++
        (host ++ (portText url.port ++ (url.path ++ queryText url.query)))) := by
    rw [authorityText.eq_def, stored]
    simp
  have shape : url = { schemeOf url with
      username := url.username, password := url.password, host := some host
      host_type := url.host_type, port := url.port, path := url.path, query := url.query
      hash := url.hash } := by
    rw [← stored, schemeOf, ← rooted]
  have fresh : Fresh (schemeOf url) := ⟨rfl, rfl, rfl, rfl⟩
  rw [text, afterScheme.eq_def]
  by_cases file : url.type = .FILE
  · obtain ⟨no_user, no_password, no_port⟩ := canonical.bare (.inr (.inr file))
    have no_credentials : credentialsText url = [] := by
      simp [credentialsText, hasCredentials, no_user, no_password]
    have again : url = { schemeOf url with
        type := .FILE, host := some host, host_type := url.host_type, path := url.path
        query := url.query, hash := url.hash } := by
      rw [no_user, no_password, no_port] at shape
      rw [← file]
      exact shape
    rw [if_pos (show (schemeOf url).type = .FILE from file), no_credentials, no_port, portText]
    exact fileHost_host canonical ⟨rfl, rfl, rfl, rfl⟩ file rfl rooted stored settled again
  · have signed := authority_authority canonical fresh ⟨rfl, rfl⟩ rfl rfl file rooted stored
      settled shape
    rw [if_neg (show (schemeOf url).type ≠ .FILE from file)]
    split
    · next special =>
        have special : url.type ≠ .NOT_SPECIAL := of_decide_eq_true special
        have named : HostText host := by
          obtain ⟨-, kinds, -⟩ | ⟨-, named, -⟩ := canonical.host host stored
          · obtain plain | file' := kinds
            · exact absurd plain special
            · exact absurd file' file
          · exact named
        have first := @not_slash_of_authority _ _ canonical host named
          (portText url.port ++ (url.path ++ queryText url.query))
        generalize credentialsText url ++
          (host ++ (portText url.port ++ (url.path ++ queryText url.query))) = view at first signed
        have kept : view.dropWhile (fun c => c = '/' || c = '\\') = view := by
          cases view with
          | nil => rfl
          | cons c cs => exact List.dropWhile_cons_of_neg (by simp [first rfl])
        have slashes : ['/', '/'].isPrefixOf ('/' :: '/' :: view) = true := rfl
        rw [specialAuthoritySlashes, if_pos slashes, specialAuthorityIgnoreSlashes]
        simp only [List.drop_succ_cons, List.drop_zero, kept]
        exact signed
    · exact signed

end RoundTrip

/-- Without a host a path that came to nothing is taken for an opaque path. -/
def Url.settle (url : Url) : Url :=
  if url.host = none ∧ url.path = [] then { url with has_opaque_path := true } else url

namespace RoundTrip

variable {idna : Str → Str} {url : Url} {name : Str}

theorem canonical_settle (canonical : Canonical idna url) : Canonical idna url.settle := by
  rw [settle]
  split
  · next none =>
      obtain ⟨plain, -⟩ := canonical.hostless none.1
      refine ⟨canonical.toFront.behind true url.path url.query url.hash, nofun,
        fun _ => ⟨plain, ?_⟩, canonical.query, canonical.hash⟩
      rw [none.2]
      exact ⟨none.1, encoded_nil _, by simp, by simp, by simp⟩
  · exact canonical

theorem getHref_settle : url.settle.getHref = url.getHref := by
  rw [settle]
  split
  · next none =>
      rw [getHref, getHref]
      simp [none, getProtocol, Url.isSpecial]
  · rfl

theorem afterScheme_settle (canonical : Canonical idna url)
    (settled : ∀ host, url.host = some host → Settled idna host) :
    afterScheme idna url.hash (schemeOf url)
      (authorityText url ++ (url.path ++ queryText url.query)) = some url.settle := by
  cases hosted : url.host with
  | some host =>
      rw [settle, if_neg (by simp [hosted])]
      exact afterScheme_host canonical hosted (settled host hosted)
  | none =>
      obtain ⟨plain, host_type⟩ := canonical.hostless hosted
      obtain ⟨no_user, no_password, no_port⟩ := canonical.bare (.inl hosted)
      have shape : ∀ has_opaque_path, { url with has_opaque_path } = { schemeOf url with
          has_opaque_path, path := url.path, query := url.query, hash := url.hash } := by
        intro has_opaque_path
        rw [no_user, no_password, no_port, hosted, host_type]
        rfl
      have fresh : Fresh (schemeOf url) := ⟨rfl, rfl, rfl, rfl⟩
      have no_file : ¬(schemeOf url).type = .FILE := by
        rw [schemeOf, plain]
        exact nofun
      have no_special : (schemeOf url).isSpecial = false := by simp [schemeOf, plain, Url.isSpecial]
      rw [afterScheme.eq_def, if_neg no_file, no_special, if_neg Bool.false_ne_true]
      by_cases blank : url.has_opaque_path = true ∨ url.path = []
      · have settled : url.settle = { url with has_opaque_path := true } := by
          rw [settle]
          split
          · rfl
          · next kept =>
              obtain flag | none := blank
              · rw [← flag]
              · exact absurd ⟨hosted, none⟩ kept
        have text : authorityText url = [] := by
          rw [authorityText.eq_def, hosted]
          obtain flag | none := blank
          · simp [flag]
          · simp [none]
        have again := canonical_settle canonical
        rw [settled] at again ⊢
        have read := opaquePath_path again fresh rfl (shape true)
        have front := (again.opaque_path rfl).2.front
        rw [text, List.nil_append]
        split
        · next rest slash =>
            refine absurd ?_ front
            change url.path.head? = some '/'
            cases found : url.path with
            | nil =>
                rw [found] at slash
                cases query : url.query <;> rw [query] at slash <;> cases slash
            | cons c cs =>
                rw [found, List.cons_append] at slash
                rw [(List.cons.inj slash).1]
                rfl
        · exact congrArg some read
      · obtain ⟨rooted, nonempty⟩ := not_or.mp blank
        rw [Bool.not_eq_true] at rooted
        obtain ⟨rest, slash, -⟩ := (canonical.rooted_path rooted).fixed nonempty
        have same : url = { schemeOf url with
            path := url.path, query := url.query, hash := url.hash } :=
          (shape url.has_opaque_path).trans (by rw [rooted]; rfl)
        obtain ⟨view, text, read⟩ := pathOrAuthority_path canonical fresh rooted hosted slash same
        rw [settle, if_neg fun none => nonempty none.2, text]
        exact read

theorem scheme_scheme (scheme : SchemeText url.type url.non_special_scheme name) (view : Str) :
    UrlParser.scheme idna url.hash {} (name ++ ':' :: view) =
      afterScheme idna url.hash (schemeOf url) view := by
  have parsed : ({} : Url).parseScheme name = schemeOf url := scheme.parsed
  obtain ⟨c, rest, rfl, letter, letters⟩ := scheme.letter
  have stop : ∀ d cs, ':' :: view = d :: cs → isAlnumPlus d = false := by
    intro d cs shape
    obtain ⟨rfl, -⟩ := List.cons.inj shape
    rfl
  obtain ⟨front, back⟩ := takeWhile_append_stop letters stop
  rw [List.cons_append, UrlParser.scheme, if_pos letter, back, front, parsed]
  rfl

/-! ## The whole text -/

/-- What is no control character. -/
def Printable (c : Char) : Prop := ' ' ≤ c ∧ c ≠ '\x7f'

instance (c : Char) : Decidable (Printable c) := inferInstanceAs (Decidable (_ ∧ _))

theorem printable_of_bounds {c : Char} (low : 0x20 ≤ c.toNat) (high : c.toNat < 0x7f) :
    Printable c := by
  refine ⟨low, ?_⟩
  rintro rfl
  exact absurd high (by decide)

/-- What is neither blank nor the sign of a fragment. -/
def Inner (c : Char) : Prop := ' ' < c ∧ c ≠ '\x7f' ∧ c ≠ '#'

instance (c : Char) : Decidable (Inner c) := inferInstanceAs (Decidable (_ ∧ _))

theorem Inner.printable {c : Char} (inner : Inner c) : Printable c :=
  ⟨UInt32.le_of_lt inner.1, inner.2.1⟩

theorem inner_of {p : Char → Bool}
    (outside : (∀ n : Fin 33, p (Char.ofNat n) = false) ∧ p '\x7f' = false ∧ p '#' = false)
    {c : Char} (inside : p c = true) : Inner c := by
  refine ⟨?_, ?_, ?_⟩
  · by_contra small
    have bound : c.toNat ≤ ' '.toNat := Char.not_lt.mp small
    have none := outside.1 ⟨c.toNat, Nat.lt_succ_of_le bound⟩
    rw [Char.ofNat_toNat, inside] at none
    cases none
  · rintro rfl
    rw [outside.2.1] at inside
    cases inside
  · rintro rfl
    rw [outside.2.2] at inside
    cases inside

theorem inner_of_encoded {character_set : List Nat} {s : Str}
    (encoded : Encoded character_set s) (member : character_set ∈ urlSets)
    (holds : bitAt character_set ' ' = true ∧ bitAt character_set '#' = true) :
    ∀ c ∈ s, Inner c := by
  intro c found
  obtain ⟨low, high⟩ := encoded.visible member holds.1 c found
  have printable := printable_of_bounds (UInt32.le_of_lt low) high
  refine ⟨low, printable.2, ?_⟩
  rintro rfl
  exact encoded.not_mem holds.2 found

theorem inner_append {s t : Str} (front : ∀ c ∈ s, Inner c) (back : ∀ c ∈ t, Inner c) :
    ∀ c ∈ s ++ t, Inner c := by
  intro c found
  obtain inside | inside := List.mem_append.mp found
  · exact front c inside
  · exact back c inside

theorem inner_cons {d : Char} {s : Str} (first : Inner d) (rest : ∀ c ∈ s, Inner c) :
    ∀ c ∈ d :: s, Inner c := List.forall_mem_cons.mpr ⟨first, rest⟩

theorem inner_nil : ∀ c ∈ ([] : Str), Inner c := fun _ none => absurd none List.not_mem_nil

theorem inner_scheme (scheme : SchemeText url.type url.non_special_scheme name) :
    ∀ c ∈ name, Inner c := by
  obtain ⟨c, rest, rfl, letter, letters⟩ := scheme.letter
  exact inner_cons (inner_of (by decide) letter) fun d found =>
    inner_of (by decide) (letters d found)

theorem inner_host {host : Str} (text : host = [] ∨ HostText host) : ∀ c ∈ host, Inner c := by
  intro c found
  obtain rfl | ⟨address, -, rfl⟩ | ⟨-, plain⟩ := text
  · cases found
  · obtain rfl | rfl | rfl | digit := Ipv6.of_mem_ipv6 found
    · decide
    · decide
    · decide
    · exact @inner_of isAsciiHexDigit (by decide) c digit
  · obtain ⟨-, low, other, -⟩ := plain c found
    refine ⟨low, other, ?_⟩
    rintro rfl
    exact not_mem_of_plain plain (by decide) found

theorem inner_authorityText (canonical : Canonical idna url) :
    ∀ c ∈ authorityText url, Inner c := by
  rw [authorityText.eq_def]
  split
  · next host stored =>
      have text : host = [] ∨ HostText host := by
        obtain ⟨empty, -⟩ | ⟨-, text, -⟩ := canonical.host host stored
        · exact .inl empty
        · exact .inr text
      refine inner_cons (by decide) (inner_cons (by decide) (inner_append ?_
        (inner_append (inner_host text) ?_)))
      · have user := inner_of_encoded canonical.username (by decide) (by decide)
        have pass := inner_of_encoded canonical.password (by decide) (by decide)
        rw [credentialsText]
        split
        · refine inner_append (inner_append user ?_) (inner_cons (by decide) inner_nil)
          split
          · exact inner_cons (by decide) pass
          · exact inner_nil
        · exact inner_nil
      · rw [portText.eq_def]
        split
        · exact inner_nil
        · refine inner_cons (by decide) fun c found => ?_
          have all : ∀ d : Fin 10, Inner (Nat.digitChar d) := by decide
          obtain ⟨d, bound, rfl⟩ := exists_of_mem_toDigits (by decide) found
          exact all ⟨d, bound⟩
  · split
    · exact inner_cons (by decide) (inner_cons (by decide) inner_nil)
    · exact inner_nil

theorem inner_queryText (canonical : Canonical idna url) : ∀ c ∈ queryText url.query, Inner c := by
  rw [queryText.eq_def]
  split
  · exact inner_nil
  · next query stored =>
      refine inner_cons (by decide)
        (inner_of_encoded (canonical.query query stored) (querySet_mem url.type) ?_)
      rw [querySet]
      split <;> decide

/-- Blanks stand inside an opaque path only. -/
theorem path_chars (canonical : Canonical idna url) :
    (∀ c ∈ url.path, Printable c ∧ c ≠ '#') ∧
      (url.query = none → url.hash = none → url.path.getLast? ≠ some ' ') := by
  cases blank : url.has_opaque_path with
  | false =>
      have inner := inner_of_encoded (canonical.rooted_path blank).encoded (by decide) (by decide)
      refine ⟨fun c found => ⟨(inner c found).printable, (inner c found).2.2⟩, ?_⟩
      intro _ _ last
      exact absurd (inner ' ' (List.mem_of_getLast? last)).1 (by decide)
  | true =>
      obtain ⟨-, -, encoded, plain, -, trailing⟩ := canonical.opaque_path blank
      refine ⟨fun c found => ?_, trailing⟩
      obtain ⟨low, high⟩ := printable_of_kept (by decide) (encoded c found)
      refine ⟨printable_of_bounds low high, ?_⟩
      rintro rfl
      exact plain.2 found

theorem getLast?_append_ne {s t : Str} {c : Char} (front : s.getLast? ≠ some c)
    (back : t.getLast? ≠ some c) : (s ++ t).getLast? ≠ some c := by
  rw [List.getLast?_append]
  cases last : t.getLast? with
  | none => exact front
  | some d =>
      rw [last] at back
      exact back

theorem getLast?_ne_of_inner {s : Str} (inner : ∀ c ∈ s, Inner c) : s.getLast? ≠ some ' ' :=
  fun last => absurd (inner ' ' (List.mem_of_getLast? last)).1 (by decide)

/-- Nothing is trimmed where blanks stand inside only. -/
theorem trimC0Whitespace_eq {s : Str} (chars : ∀ c ∈ s, ' ' ≤ c) (front : s.head? ≠ some ' ')
    (back : s.getLast? ≠ some ' ') : trimC0Whitespace s = s := by
  have blank : ∀ c ∈ s, isC0ControlOrSpace c = true → c = ' ' := fun c found low =>
    Char.le_antisymm (of_decide_eq_true low) (chars c found)
  have kept : s.dropWhile isC0ControlOrSpace = s := by
    cases s with
    | nil => rfl
    | cons c cs =>
        refine List.dropWhile_cons_of_neg fun low => front ?_
        rw [blank c List.mem_cons_self low]
        rfl
  rw [trimC0Whitespace, kept, List.rdropWhile_eq_self_iff]
  intro nonempty low
  refine back ?_
  rw [List.getLast?_eq_getLast_of_ne_nil nonempty,
    blank _ (List.getLast_mem nonempty) low]

/-- The text in front of the fragment. -/
theorem body_chars (canonical : Canonical idna url)
    (scheme : SchemeText url.type url.non_special_scheme name) :
    ∀ c ∈ name ++ ':' :: (authorityText url ++ (url.path ++ queryText url.query)),
      Printable c ∧ c ≠ '#' := by
  have inner : ∀ {c}, Inner c → Printable c ∧ c ≠ '#' := fun inner =>
    ⟨inner.printable, inner.2.2⟩
  intro c found
  obtain found | found := List.mem_append.mp found
  · exact inner (inner_scheme scheme c found)
  · obtain rfl | found := List.mem_cons.mp found
    · exact inner (by decide)
    · obtain found | found := List.mem_append.mp found
      · exact inner (inner_authorityText canonical c found)
      · obtain found | found := List.mem_append.mp found
        · exact (path_chars canonical).1 c found
        · exact inner (inner_queryText canonical c found)

theorem hashText_chars (canonical : Canonical idna url) :
    ∀ c ∈ hashText url.hash, Printable c ∧ c ≠ ' ' := by
  rw [hashText.eq_def]
  split
  · exact fun c none => absurd none List.not_mem_nil
  · next hash stored =>
      refine List.forall_mem_cons.mpr ⟨by decide, fun c found => ?_⟩
      obtain ⟨low, high⟩ := (canonical.hash hash stored).visible (by decide) (by decide) c found
      refine ⟨printable_of_bounds (UInt32.le_of_lt low) high, ?_⟩
      rintro rfl
      exact absurd low (by decide)

theorem getHref_chars (canonical : Canonical idna url)
    (scheme : SchemeText url.type url.non_special_scheme name) :
    ∀ c ∈ url.getHref, Printable c := by
  intro c found
  rw [getHref_eq scheme] at found
  obtain found | found := List.mem_append.mp found
  · exact (body_chars canonical scheme c found).1
  · exact (hashText_chars canonical c found).1

/-- Neither the first nor the last character of the text is trimmed, there is nothing
to remove in it, and the first number sign in it stands in front of the fragment. -/
theorem parseUrl_getHref (canonical : Canonical idna url)
    (scheme : SchemeText url.type url.non_special_scheme name) :
    parseUrl idna url.getHref =
      if url.getHref.length > uint32Max then none
      else UrlParser.scheme idna url.hash {}
        (name ++ ':' :: (authorityText url ++ (url.path ++ queryText url.query))) := by
  generalize whole : name ++ ':' :: (authorityText url ++ (url.path ++ queryText url.query)) = body
  have href : url.getHref = body ++ hashText url.hash := by rw [getHref_eq scheme, whole]
  obtain ⟨-, trailing⟩ := path_chars canonical
  have front : ∀ c ∈ name ++ ':' :: authorityText url, Inner c :=
    inner_append (inner_scheme scheme) (inner_cons (by decide) (inner_authorityText canonical))
  have parts : body = (name ++ ':' :: authorityText url) ++ (url.path ++ queryText url.query) := by
    rw [← whole]
    simp
  have sign : '#' ∉ body := by
    rw [← whole]
    exact fun found => (body_chars canonical scheme '#' found).2 rfl
  have hash_chars := hashText_chars canonical
  have all_chars := getHref_chars canonical scheme
  have last : url.getHref.getLast? ≠ some ' ' := by
    have hash_last : (hashText url.hash).getLast? ≠ some ' ' := fun last =>
      (hash_chars ' ' (List.mem_of_getLast? last)).2 rfl
    have query_last : (queryText url.query).getLast? ≠ some ' ' :=
      getLast?_ne_of_inner (inner_queryText canonical)
    have front_last := getLast?_ne_of_inner front
    rw [href]
    cases hash : url.hash with
    | some hash =>
        rw [List.getLast?_append_of_ne_nil _ (by simp [hashText]), ← hash]
        exact hash_last
    | none =>
        rw [hashText, List.append_nil, parts]
        refine getLast?_append_ne front_last ?_
        cases query : url.query with
        | some query =>
            rw [List.getLast?_append_of_ne_nil _ (by simp [queryText]), ← query]
            exact query_last
        | none =>
            rw [queryText, List.append_nil]
            exact trailing query hash
  have first : url.getHref.head? ≠ some ' ' := by
    obtain ⟨c, rest, rfl, letter, -⟩ := scheme.letter
    rw [href, ← whole]
    intro blank
    obtain rfl := Option.some.inj blank
    cases letter
  have kept : (if hasTabsOrNewline url.getHref then removeAsciiTabOrNewline url.getHref
      else url.getHref) = url.getHref := by
    split
    · refine List.filter_eq_self.mpr fun c found => ?_
      have low := (all_chars c found).1
      have outside : ∀ d : Char, d < ' ' → c ≠ d := by
        rintro d small rfl
        exact absurd small (Char.not_lt.mpr low)
      simp [isAsciiTabOrNewline, outside]
    · rfl
  have trimmed : trimC0Whitespace url.getHref = url.getHref :=
    trimC0Whitespace_eq (fun c found => (all_chars c found).1) first last
  have cut : pruneHash url.getHref = (body, url.hash) := by
    rw [pruneHash, href]
    cases url.hash with
    | none => rw [hashText, List.append_nil, cut?_singleton_eq_none.mpr sign]
    | some hash => rw [hashText, cut?_singleton_eq_some.mpr ⟨rfl, sign⟩]
  rw [parseUrl, kept]
  dsimp only
  rw [trimmed, cut]

end RoundTrip

open RoundTrip

/-- The text of an accepted URL with a settled host is accepted, as the same URL unless
that has neither a host nor a path; in either case with the same text. -/
theorem parse_getHref {idna : Str → Str} {url : Url} (lawful : Lawful idna) {input : Str}
    (accepted : parse idna input = some url)
    (settled : ∀ host, url.host = some host → Settled idna host) :
    parse idna url.getHref =
        (if url.getHref.length > uint32Max then none else some url.settle) ∧
      url.settle.getHref = url.getHref ∧
      (url.settle = url ↔ url.host = none → url.path = [] → url.has_opaque_path = true) := by
  have canonical := canonical_of_parse lawful accepted
  obtain ⟨name, scheme⟩ := canonical.scheme
  refine ⟨?_, getHref_settle, ?_⟩
  · rw [parse, parseUrl_getHref canonical scheme, scheme_scheme scheme,
      afterScheme_settle canonical settled]
  · rw [settle]
    split
    · next none =>
        refine ⟨fun same _ _ => ?_, fun flag => ?_⟩
        · rw [← same]
        · rw [← flag none.1 none.2]
    · next kept => exact ⟨fun _ hostless empty => absurd ⟨hostless, empty⟩ kept, fun _ => rfl⟩

def sample : Url where
  type := .HTTP
  username := ['u']
  host := some ['h']
  port := some 8080
  path := ['/', 'b']
  query := some ['q']
  hash := some ['f']

theorem parse_getHref_sample : sample.getHref = "http://u@h:8080/b?q#f".toList ∧
    parse asciiNames sample.getHref = some sample := by
  have accepted : parse asciiNames "HTTP:\\\\u:@H:8080/a/../b?q#f".toList = some sample := by
    decide +kernel
  refine ⟨by decide, ?_⟩
  rw [(parse_getHref lawful_asciiNames accepted fun host _ => settled_asciiNames host).1]
  decide

/-- The parent of the root is nothing at all for a scheme that is not special. -/
example : (parse asciiNames "foo:/..".toList).map Url.getHref = some "foo:".toList := by
  decide +kernel

/-- What a caller may rely on in an accepted URL. -/
structure WellFormed (url : Url) : Prop where
  /-- No control character stands in the text, so nothing ends a line. -/
  href : ∀ c ∈ url.getHref, Printable c
  protocol : ∀ c ∈ url.getProtocol, c.toLower = c
  host : url.isSpecial = true → url.type ≠ .FILE → ∃ c host, url.host = some (c :: host)
  file : url.type = .FILE → url.host ≠ none ∧ url.hasCredentials = false ∧ url.port = none
  authority : url.hasCredentials = true ∨ url.port ≠ none → ∃ c host, url.host = some (c :: host)
  port : ∀ port, url.port = some port → port < 2 ^ 16 ∧
    (url.isSpecial = true → url.type ≠ .FILE → port ≠ url.schemeDefaultPort)
  rooted : url.isSpecial = true → ∃ rest, url.getPathname = '/' :: rest
  pathname : url.has_opaque_path = false → ∀ c ∈ url.getPathname, c ≠ ' ' ∧ c ≠ '?' ∧ c ≠ '#'
  hostless : url.has_opaque_path = true → url.isSpecial = false ∧ url.host = none

theorem wellFormed_of_parse {idna : Str → Str} {url : Url} (lawful : Lawful idna) {input : Str}
    (accepted : parse idna input = some url) : WellFormed url := by
  have canonical := canonical_of_parse lawful accepted
  obtain ⟨name, scheme⟩ := canonical.scheme
  have special : url.isSpecial = true ↔ url.type ≠ .NOT_SPECIAL := decide_eq_true_iff
  have named : ∀ host, url.host = some host → host ≠ [] →
      ∃ c rest, url.host = some (c :: rest) := by
    intro host stored nonempty
    obtain ⟨c, rest, rfl⟩ := List.exists_cons_of_ne_nil nonempty
    exact ⟨c, rest, stored⟩
  have stays_rooted : url.isSpecial = true → url.has_opaque_path = false := by
    intro listed
    rw [Bool.eq_false_iff]
    exact fun blank => special.mp listed (canonical.opaque_path blank).1
  constructor
  case href => exact getHref_chars canonical scheme
  case protocol =>
    intro c found
    rw [getProtocol, List.mem_append, List.mem_singleton] at found
    obtain found | rfl := found
    · refine scheme.lower c ?_
      rw [← scheme.protocol]
      simpa [Url.isSpecial] using found
    · rfl
  case host =>
    intro listed other
    cases stored : url.host with
    | none => exact absurd (canonical.hostless stored).1 (special.mp listed)
    | some host =>
        obtain ⟨-, plain | file, -⟩ | ⟨-, text, -⟩ := canonical.host host stored
        · exact absurd plain (special.mp listed)
        · exact absurd file other
        · exact stored ▸ named host stored text.ne_nil
  case file =>
    intro file
    obtain ⟨no_user, no_password, no_port⟩ := canonical.bare (.inr (.inr file))
    refine ⟨fun none => ?_, by simp [hasCredentials, no_user, no_password], no_port⟩
    rw [(canonical.hostless none).1] at file
    cases file
  case authority =>
    intro signed
    have bare : ¬(url.host = none ∨ url.host = some [] ∨ url.type = .FILE) := by
      intro bare
      obtain ⟨no_user, no_password, no_port⟩ := canonical.bare bare
      simp [hasCredentials, no_user, no_password, no_port] at signed
    obtain ⟨some_host, nonempty, -⟩ := not_or.mp bare |>.imp id not_or.mp
    cases stored : url.host with
    | none => exact absurd stored some_host
    | some host =>
        refine stored ▸ named host stored ?_
        rintro rfl
        exact nonempty stored
  case port =>
    intro port stored
    obtain ⟨bound, kept⟩ := canonical.port port stored
    refine ⟨bound, fun listed other => kept.resolve_left fun none => ?_⟩
    have some_port : ∀ kind : Kind,
        kind ≠ .NOT_SPECIAL → kind ≠ .FILE → kind.getSpecialPort ≠ 0 := by
      intro kind
      cases kind <;> decide
    exact some_port url.type (special.mp listed) other none
  case rooted =>
    intro listed
    have path := canonical.rooted_path (stays_rooted listed)
    obtain ⟨rest, shape, -⟩ := path.fixed (path.nonempty (special.mp listed))
    exact ⟨rest, shape⟩
  case pathname =>
    intro rooted c found
    have encoded := (canonical.rooted_path rooted).encoded
    refine ⟨?_, ?_, ?_⟩ <;> rintro rfl <;> exact encoded.not_mem (by decide) found
  case hostless =>
    intro blank
    obtain ⟨plain, path⟩ := canonical.opaque_path blank
    exact ⟨by simp [Url.isSpecial, plain], path.hostless⟩

theorem wellFormed_sample : WellFormed sample := by
  have accepted : parse asciiNames "HTTP:\\\\u:@H:8080/a/../b?q#f".toList = some sample := by
    decide +kernel
  exact wellFormed_of_parse lawful_asciiNames accepted

end Mux.Ada
