import Mux.Ada.Parser

/-!
# What the parser accepts

The components of an accepted URL are in a form that depends on the type of the
URL only: the scheme in lower case, the host in its own text, every other part
encoded. Each state keeps what holds of the components that are complete, and
adds what holds of its own.
-/

namespace Mux.Ada

open Text Numerals CharacterSets Unicode Scheme Checkers Helpers Host UrlParser

namespace Url

/-- The scheme is read from the text in front of the first colon. -/
structure SchemeText (type : Kind) (non_special_scheme name : Str) : Prop where
  protocol : (if type ≠ .NOT_SPECIAL then type.name else non_special_scheme) = name
  parsed : ({} : Url).parseScheme name = { type, non_special_scheme }
  letter : ∃ c rest, name = c :: rest ∧ isAlpha c = true ∧ ∀ d ∈ rest, isAlnumPlus d = true
  lower : ∀ c ∈ name, c.toLower = c

/-- A path that is no opaque path is what its own text comes to. -/
structure RootedPath (type : Kind) (host : Option Str) (path : Str) : Prop where
  encoded : Encoded PATH_PERCENT_ENCODE path
  nonempty : type ≠ .NOT_SPECIAL → path ≠ []
  fixed : path ≠ [] → ∃ rest, path = '/' :: rest ∧ parsePreparedPath rest type [] = path
  hostless : host = none → ∀ rest, path = '/' :: '/' :: rest →
    parsePreparedPath ('.' :: path) .NOT_SPECIAL [] = path

/-- Only a query or a fragment behind an opaque path keeps the blanks at its end. -/
structure OpaquePath (host : Option Str) (path : Str) (query hash : Option Str) : Prop where
  hostless : host = none
  encoded : Encoded C0_CONTROL_PERCENT_ENCODE path
  plain : '?' ∉ path ∧ '#' ∉ path
  front : path.head? ≠ some '/'
  trailing : query = none → hash = none → path.getLast? ≠ some ' '

/-- The percent-encode set of the query. -/
def querySet (type : Kind) : List Nat :=
  if type ≠ .NOT_SPECIAL then SPECIAL_QUERY_PERCENT_ENCODE else QUERY_PERCENT_ENCODE

/-- The components in front of the path. -/
structure Front (idna : Str → Str) (url : Url) : Prop where
  scheme : ∃ name, SchemeText url.type url.non_special_scheme name
  username : Encoded USERINFO_PERCENT_ENCODE url.username
  password : Encoded USERINFO_PERCENT_ENCODE url.password
  host : ∀ host, url.host = some host →
    host = [] ∧ (url.type = .NOT_SPECIAL ∨ url.type = .FILE) ∧ url.host_type = .DEFAULT ∨
      (Settled idna host → parseHost idna url.type host = some (host, url.host_type)) ∧
        HostText host ∧
        (url.type = .FILE → host ≠ localhost)
  hostless : url.host = none → url.type = .NOT_SPECIAL ∧ url.host_type = .DEFAULT
  bare : url.host = none ∨ url.host = some [] ∨ url.type = .FILE →
    url.username = [] ∧ url.password = [] ∧ url.port = none
  port : ∀ port, url.port = some port → port < 2 ^ 16 ∧
    (url.type.getSpecialPort = 0 ∨ port ≠ url.type.getSpecialPort)

/-- The form of an accepted URL. -/
structure Canonical (idna : Str → Str) (url : Url) : Prop extends Front idna url where
  rooted_path : url.has_opaque_path = false → RootedPath url.type url.host url.path
  opaque_path : url.has_opaque_path = true →
    url.type = .NOT_SPECIAL ∧ OpaquePath url.host url.path url.query url.hash
  query : ∀ query, url.query = some query → Encoded (querySet url.type) query
  hash : ∀ hash, url.hash = some hash → Encoded FRAGMENT_PERCENT_ENCODE hash

end Url

open Url

section States

variable {idna : Str → Str} {fragment : Option Str} {url : Url} {view : Str}

/-- Nothing behind the host was stored yet. -/
structure Fresh (url : Url) : Prop where
  path : url.path = []
  rooted : url.has_opaque_path = false
  query : url.query = none
  hash : url.hash = none

theorem querySet_mem (type : Kind) : querySet type ∈ urlSets := by
  cases type <;> decide

/-- The states behind the host leave the components in front of the path alone. -/
theorem Url.Front.behind (front : Front idna url) (has_opaque_path : Bool) (path : Str)
    (query hash : Option Str) :
    Front idna { url with has_opaque_path, path, query, hash } :=
  ⟨front.scheme, front.username, front.password, front.host, front.hostless, front.bare, front.port⟩

/-! ## The end of the text -/

theorem canonical_finish (front : Front idna url)
    (rooted : url.has_opaque_path = false → RootedPath url.type url.host url.path)
    (blank : url.has_opaque_path = true → url.type = .NOT_SPECIAL ∧
      ∀ hash, (fragment = none → hash = none) → (hash = none → fragment = none) →
        OpaquePath url.host url.path url.query hash)
    (query : ∀ query, url.query = some query → Encoded (querySet url.type) query)
    (hash : url.hash = none) : Canonical idna (finish fragment url) := by
  cases fragment with
  | none =>
      refine ⟨front, rooted, fun flag => ⟨(blank flag).1, ?_⟩, query, fun text found => ?_⟩
      · exact (blank flag).2 _ (fun _ => hash) (fun _ => rfl)
      · change url.hash = some text at found
        rw [hash] at found
        cases found
  | some text =>
      refine ⟨front.behind _ _ _ _, rooted, fun flag => ⟨(blank flag).1, ?_⟩, query, ?_⟩
      · exact (blank flag).2 _ (fun none => by cases none) (fun none => by cases none)
      · rintro hash ⟨rfl⟩
        exact encoded_percentEncode (by decide) text

theorem canonical_query (front : Front idna url) (hash : url.hash = none)
    (rooted : url.has_opaque_path = false → RootedPath url.type url.host url.path)
    (blank : url.has_opaque_path = true → url.type = .NOT_SPECIAL ∧
      ∀ query hash, query ≠ none → OpaquePath url.host url.path query hash) (view : Str) :
    Canonical idna (query fragment url view) := by
  have set : (if url.isSpecial then SPECIAL_QUERY_PERCENT_ENCODE else QUERY_PERCENT_ENCODE) =
      querySet url.type := by simp [querySet, Url.isSpecial]
  rw [UrlParser.query, set]
  refine canonical_finish (front.behind _ _ _ _) rooted (fun flag => ⟨(blank flag).1, ?_⟩) ?_ hash
  · intro hash _ _
    exact (blank flag).2 _ _ (by simp)
  · rintro query ⟨rfl⟩
    exact encoded_percentEncode (querySet_mem url.type) view

/-! ## Paths -/

theorem rootedPath_parsePreparedPath {host : Option Str} (view : Str) (type : Kind)
    (hostless : host = none → type = .NOT_SPECIAL ∧ view.head? ≠ some '/') :
    RootedPath type host (parsePreparedPath view type []) := by
  obtain ⟨encoded, special, fixed, -⟩ := parsePreparedPath_normalizes view type
  refine ⟨encoded, fun other => (special other).1, fixed, fun none rest double => ?_⟩
  obtain ⟨rfl, front⟩ := hostless none
  rw [double]
  exact parsePreparedPath_dot front double

theorem canonical_path (front : Front idna url) (fresh : Fresh url)
    (hostless : url.host = none → view.head? ≠ some '/') :
    Canonical idna (path fragment url view) := by
  have opaque_path : url.has_opaque_path ≠ true := by
    rw [fresh.rooted]
    exact Bool.false_ne_true
  rw [UrlParser.path, fresh.path]
  split
  · next before after found =>
      obtain ⟨rfl, -⟩ := cut?_singleton_eq_some.mp found
      refine canonical_query (front.behind _ (parsePreparedPath before url.type []) _ _) fresh.hash
        (fun _ => ?_)
        (fun flag => absurd flag opaque_path) after
      refine rootedPath_parsePreparedPath before url.type fun none => ?_
      refine ⟨(front.hostless none).1, fun slash => hostless none ?_⟩
      rw [List.head?_append, slash]
      rfl
  · refine canonical_finish (front.behind _ (parsePreparedPath view url.type []) _ _) (fun _ => ?_)
      (fun flag => absurd flag opaque_path) ?_ fresh.hash
    · exact rootedPath_parsePreparedPath view url.type fun none =>
        ⟨(front.hostless none).1, hostless none⟩
    · intro query found
      change url.query = some query at found
      rw [fresh.query] at found
      cases found

theorem canonical_opaquePath (front : Front idna url) (fresh : Fresh url)
    (hostless : url.host = none) (slash : view.head? ≠ some '/') (sign : '#' ∉ view)
    (trailing : fragment = none → view.getLast? ≠ some ' ') :
    Canonical idna (opaquePath fragment url view) := by
  have member : C0_CONTROL_PERCENT_ENCODE ∈ urlSets := by decide
  have outside : ∀ {d : Char}, d ≠ '%' → PercentCoding.isHexDigit d = false → ∀ {s : Str}, d ∉ s →
      d ∉ percentEncode s C0_CONTROL_PERCENT_ENCODE := by
    intro d percent digit s clean found
    rw [percentEncode_eq] at found
    obtain ⟨inside, -⟩ | same | found := PercentCoding.mem_encode found
    · exact clean inside
    · exact percent same
    · rw [digit] at found
      cases found
  have front_kept : ∀ {s : Str}, s.head? ≠ some '/' →
      (percentEncode s C0_CONTROL_PERCENT_ENCODE).head? ≠ some '/' := by
    intro s clean first
    rw [percentEncode_eq] at first
    exact clean (PercentCoding.head?_encode (by decide) first)
  have last_kept : ∀ {s : Str}, s.getLast? ≠ some ' ' →
      (percentEncode s C0_CONTROL_PERCENT_ENCODE).getLast? ≠ some ' ' := by
    intro s clean last
    rw [percentEncode_eq] at last
    exact clean (PercentCoding.getLast?_encode (by decide) last)
  rw [opaquePath]
  split
  · next before after found =>
      obtain ⟨rfl, mark⟩ := cut?_singleton_eq_some.mp found
      rw [List.mem_append, not_or] at sign
      refine canonical_query
        (front.behind true (percentEncode before C0_CONTROL_PERCENT_ENCODE) _ _) fresh.hash
        (fun flag => by cases flag)
        (fun _ => ⟨(front.hostless hostless).1, fun query hash some_query => ?_⟩) after
      refine ⟨hostless, encoded_percentEncode member before,
        ⟨outside (by decide) (by decide) mark, outside (by decide) (by decide) sign.1⟩, ?_,
        fun none => absurd none some_query⟩
      refine front_kept fun first => slash ?_
      rw [List.head?_append, first]
      rfl
  · next found =>
      have mark := cut?_singleton_eq_none.mp found
      refine canonical_finish
        (front.behind true (percentEncode view C0_CONTROL_PERCENT_ENCODE) _ _)
        (fun flag => by cases flag)
        (fun _ => ⟨(front.hostless hostless).1, fun hash same back => ?_⟩) ?_ fresh.hash
      · exact ⟨hostless, encoded_percentEncode member view,
          ⟨outside (by decide) (by decide) mark, outside (by decide) (by decide) sign⟩,
          front_kept slash, fun _ none => last_kept (trailing (back none))⟩
      · intro query found
        change url.query = some query at found
        rw [fresh.query] at found
        cases found

theorem canonical_pathStart (front : Front idna url) (fresh : Fresh url) (hosted : url.host ≠ none)
    (view : Str) : Canonical idna (pathStart fragment url view) := by
  have opaque_path : url.has_opaque_path ≠ true := by
    rw [fresh.rooted]
    exact Bool.false_ne_true
  have here : ∀ view, Canonical idna (UrlParser.path fragment url view) :=
    fun view => canonical_path front fresh fun none => absurd none hosted
  have no_query : ∀ query, url.query = some query → Encoded (querySet url.type) query := by
    intro query found
    rw [fresh.query] at found
    cases found
  rw [pathStart.eq_def]
  split
  · next special =>
      have other : url.type ≠ .NOT_SPECIAL := by simpa [Url.isSpecial] using special
      split
      · refine canonical_finish (front.behind _ ['/'] _ _) (fun _ => ?_)
          (fun flag => absurd flag opaque_path) no_query fresh.hash
        have root : parsePreparedPath [] url.type [] = ['/'] := by
          cases url.type <;> decide
        refine ⟨fun c found => ?_, fun _ => by simp, fun _ => ⟨[], rfl, root⟩,
          fun none => absurd none hosted⟩
        obtain rfl := List.mem_singleton.mp found
        decide
      · split
        · exact here _
        · exact here _
  · next plain =>
      have plain : url.type = .NOT_SPECIAL := by simpa [Url.isSpecial] using plain
      have empty : url.has_opaque_path = false → RootedPath url.type url.host url.path := by
        intro _
        rw [fresh.path]
        exact ⟨fun _ none => absurd none List.not_mem_nil, fun other => absurd plain other,
          fun nonempty => absurd rfl nonempty, fun none => absurd none hosted⟩
      split
      · exact canonical_finish front empty (fun flag => absurd flag opaque_path) no_query fresh.hash
      · split
        · exact canonical_query front fresh.hash empty (fun flag => absurd flag opaque_path) _
        · split
          · exact here _
          · exact here _

/-! ## Hosts and what stands around them -/

theorem canonical_port (front : Front idna url) (fresh : Fresh url) {host : Str}
    (hosted : url.host = some host) (nonempty : host ≠ []) (other : url.type ≠ .FILE)
    {result : Url} (accepted : UrlParser.port fragment url view = some result) :
    Canonical idna result := by
  rw [UrlParser.port, Option.map_eq_some_iff] at accepted
  obtain ⟨⟨next, rest⟩, parsed, rfl⟩ := accepted
  obtain ⟨port, rfl, range⟩ := parsePort_eq_some parsed
  have stored : Front idna { url with port } := by
    refine ⟨front.scheme, front.username, front.password, front.host, front.hostless, ?_, range⟩
    rintro (none | empty | file)
    · rw [hosted] at none
      cases none
    · rw [hosted] at empty
      exact absurd (Option.some.inj empty) nonempty
    · exact absurd file other
  refine canonical_pathStart stored ⟨fresh.path, fresh.rooted, fresh.query, fresh.hash⟩ ?_ rest
  rw [hosted]
  exact Option.some_ne_none host

/-- The scheme and the credentials are stored, and nothing else. -/
structure Before (url : Url) : Prop extends Fresh url where
  scheme : ∃ name, SchemeText url.type url.non_special_scheme name
  username : Encoded USERINFO_PERCENT_ENCODE url.username
  password : Encoded USERINFO_PERCENT_ENCODE url.password
  host : url.host = none
  host_type : url.host_type = .DEFAULT
  port : url.port = none
  other : url.type ≠ .FILE

theorem Before.front (lawful : Lawful idna) (before : Before url) {host : Str}
    {host_type : HostType} (accepted : parseHost idna url.type view = some (host, host_type)) :
    Front idna { url with host := some host, host_type } := by
  obtain ⟨again, text⟩ := parseHost_parseHost lawful accepted
  refine ⟨before.scheme, before.username, before.password, ?_, nofun, ?_, ?_⟩
  · rintro host ⟨rfl⟩
    exact .inr ⟨again, text, fun file => absurd file before.other⟩
  · rintro (none | empty | file)
    · cases none
    · exact absurd (Option.some.inj empty) text.ne_nil
    · exact absurd file before.other
  · intro port found
    change url.port = some port at found
    rw [before.port] at found
    cases found

theorem Before.front_of_empty (before : Before url) (plain : url.type = .NOT_SPECIAL)
    (unsigned : url.username = [] ∧ url.password = []) :
    Front idna { url with host := some [] } := by
  refine ⟨before.scheme, before.username, before.password, ?_, nofun, ?_, ?_⟩
  · rintro host ⟨rfl⟩
    exact .inl ⟨rfl, .inl plain, before.host_type⟩
  · exact fun _ => ⟨unsigned.1, unsigned.2, before.port⟩
  · intro port found
    change url.port = some port at found
    rw [before.port] at found
    cases found

/-- Where there is no host the text starts with one of the characters that end the
authority. -/
theorem takeWhile_of_empty_host {special : Bool} {location : Nat}
    (found : getHostDelimiterLocation special view = (location, false))
    (empty : view.take location = []) :
    view.takeWhile (fun c => !isAuthorityDelimiter special c) = [] := by
  cases view with
  | nil => rfl
  | cons c rest =>
      obtain rfl : location = 0 := by simpa using empty
      rw [getHostDelimiterLocation, hostDelimiterLocation] at found
      by_cases delimiter : isHostDelimiter special c = true
      · rw [List.takeWhile_cons_of_neg (by simp [delimiter])] at found
        simp only [List.length_nil, List.drop_zero] at found
        split at found
        · next bracket =>
            subst bracket
            split at found
            · cases found
            · next place bracket =>
                have first := (Prod.mk.inj found).1
                obtain rfl : place = 0 := by omega
                rw [List.idxOf?_cons] at bracket
                simp at bracket
        · have colon := of_decide_eq_false (Prod.mk.inj found).2
          rw [List.takeWhile_cons_of_neg]
          simp only [isHostDelimiter, Bool.or_eq_true, decide_eq_true_eq] at delimiter
          simp only [isAuthorityDelimiter, Bool.not_eq_true', Bool.not_eq_false, Bool.or_eq_true,
            decide_eq_true_eq]
          tauto
      · rw [List.takeWhile_cons_of_pos (by simpa using delimiter)] at found
        split at found
        · cases found
        · split at found
          · split at found
            · cases found
            · have first := (Prod.mk.inj found).1
              simp at first
          · have first := (Prod.mk.inj found).1
            simp at first

theorem canonical_host (lawful : Lawful idna) (before : Before url)
    (signed : url.username ≠ [] ∨ url.password ≠ [] →
      view.takeWhile (fun c => !isAuthorityDelimiter url.isSpecial c) ≠ [])
    {result : Url} (accepted : UrlParser.host idna fragment url view = some result) :
    Canonical idna result := by
  have fresh : ∀ host host_type, Fresh { url with host, host_type } :=
    fun _ _ => ⟨before.path, before.rooted, before.query, before.hash⟩
  rw [UrlParser.host] at accepted
  rcases found : getHostDelimiterLocation url.isSpecial view with ⟨location, found_colon⟩
  rw [found] at accepted
  dsimp only at accepted
  split at accepted
  · rw [Option.bind_eq_some_iff] at accepted
    obtain ⟨⟨host, host_type⟩, parsed, accepted⟩ := accepted
    exact canonical_port (before.front lawful parsed) (fresh _ _) rfl
      (parseHost_parseHost lawful parsed).2.ne_nil before.other accepted
  · next no_colon =>
      obtain rfl : found_colon = false := Bool.eq_false_iff.mpr no_colon
      split at accepted
      · cases accepted
      · next allowed =>
          split at accepted
          · next empty =>
              obtain rfl := Option.some.inj accepted
              have plain : url.type = .NOT_SPECIAL := by simpa [Url.isSpecial, empty] using allowed
              have unsigned : url.username = [] ∧ url.password = [] := by
                by_contra some_sign
                rw [not_and_or] at some_sign
                exact signed some_sign (takeWhile_of_empty_host found empty)
              exact canonical_pathStart (before.front_of_empty plain unsigned) (fresh _ _)
                (Option.some_ne_none []) _
          · rw [Option.map_eq_some_iff] at accepted
            obtain ⟨⟨host, host_type⟩, parsed, rfl⟩ := accepted
            exact canonical_pathStart (before.front lawful parsed) (fresh _ _)
              (Option.some_ne_none host) _

theorem encoded_at_sign : Encoded USERINFO_PERCENT_ENCODE at_sign := by
  have all : (at_sign.all fun c => !bitAt USERINFO_PERCENT_ENCODE c) = true := by decide
  exact fun c found => by simpa using List.all_eq_true.mp all c found

theorem encoded_userinfo (input : Str) : Encoded USERINFO_PERCENT_ENCODE (userinfo input) :=
  encoded_percentEncode (by decide) input

/-- The credentials are encoded, and a host follows them where there are any. -/
theorem credentials_spec {special : Bool} {rounds : Nat} {username password : Str}
    {at_sign_seen password_token_seen : Bool} {username' password' view' : Str}
    (user : Encoded USERINFO_PERCENT_ENCODE username)
    (pass : Encoded USERINFO_PERCENT_ENCODE password)
    (unseen : at_sign_seen = false → username = [] ∧ password = [])
    (done : credentials special rounds view username password at_sign_seen password_token_seen =
      some (username', password', view')) :
    Encoded USERINFO_PERCENT_ENCODE username' ∧ Encoded USERINFO_PERCENT_ENCODE password' ∧
      (username' ≠ [] ∨ password' ≠ [] →
        view'.takeWhile (fun c => !isAuthorityDelimiter special c) ≠ []) := by
  induction rounds generalizing view username password at_sign_seen password_token_seen with
  | zero => cases done
  | succ rounds ih =>
      rw [credentials] at done
      dsimp only at done
      split at done
      · next rest shape =>
          have signed : ∀ {p : Bool} {s : Str}, Encoded USERINFO_PERCENT_ENCODE s →
              Encoded USERINFO_PERCENT_ENCODE (if p then s ++ at_sign else s) := by
            intro p s encoded
            cases p with
            | false => exact encoded
            | true => exact encoded.append encoded_at_sign
          split at done
          · exact ih (signed user) ((signed pass).append (encoded_userinfo _))
              (fun none => by cases none) done
          · split at done
            · exact ih ((signed user).append (encoded_userinfo _)) (signed pass)
                (fun none => by cases none) done
            · exact ih ((signed user).append (encoded_userinfo _))
                ((signed pass).append (encoded_userinfo _)) (fun none => by cases none) done
      · split at done
        · cases done
        · next hosted =>
            obtain ⟨rfl, rfl, rfl⟩ :
                username = username' ∧ password = password' ∧ view = view' := by
              simpa using done
            refine ⟨user, pass, fun some_sign empty => ?_⟩
            rw [Bool.and_eq_true, not_and_or, Bool.not_eq_true] at hosted
            obtain none | nonempty := hosted
            · obtain ⟨rfl, rfl⟩ := unseen none
              simp at some_sign
            · exact nonempty (decide_eq_true empty)

theorem canonical_authority (lawful : Lawful idna) (before : Before url)
    (unsigned : url.username = [] ∧ url.password = []) {result : Url}
    (accepted : authority idna fragment url view = some result) : Canonical idna result := by
  rw [authority] at accepted
  split at accepted
  · refine canonical_host lawful before (fun some_sign => ?_) accepted
    rw [unsigned.1, unsigned.2] at some_sign
    simp at some_sign
  · rw [Option.bind_eq_some_iff] at accepted
    obtain ⟨⟨username, password, rest⟩, done, accepted⟩ := accepted
    obtain ⟨user, pass, signed⟩ :=
      credentials_spec before.username before.password (fun _ => unsigned) done
    have stored : Before { url with username, password } :=
      ⟨⟨before.path, before.rooted, before.query, before.hash⟩, before.scheme, user, pass,
        before.host, before.host_type, before.port, before.other⟩
    exact canonical_host lawful stored signed accepted

theorem canonical_specialAuthoritySlashes (lawful : Lawful idna) (before : Before url)
    (unsigned : url.username = [] ∧ url.password = []) {result : Url}
    (accepted : specialAuthoritySlashes idna fragment url view = some result) :
    Canonical idna result := canonical_authority lawful before unsigned accepted

theorem Before.front_of_hostless (before : Before url) (plain : url.type = .NOT_SPECIAL)
    (unsigned : url.username = [] ∧ url.password = []) : Front idna url := by
  refine ⟨before.scheme, before.username, before.password, fun host found => ?_,
    fun _ => ⟨plain, before.host_type⟩, fun _ => ⟨unsigned.1, unsigned.2, before.port⟩,
    fun port found => ?_⟩
  · rw [before.host] at found
    cases found
  · rw [before.port] at found
    cases found

theorem canonical_pathOrAuthority (lawful : Lawful idna) (before : Before url)
    (plain : url.type = .NOT_SPECIAL) (unsigned : url.username = [] ∧ url.password = [])
    {result : Url} (accepted : pathOrAuthority idna fragment url view = some result) :
    Canonical idna result := by
  rw [pathOrAuthority.eq_def] at accepted
  split at accepted
  · exact canonical_authority lawful before unsigned accepted
  · next no_slash =>
      obtain rfl := Option.some.inj accepted
      have front : Front idna url := before.front_of_hostless plain unsigned
      refine canonical_path front before.toFresh fun _ first => ?_
      obtain ⟨rest, rfl⟩ := List.head?_eq_some_iff.mp first
      exact no_slash rest rfl

/-! ## File URLs -/

/-- A file URL from the first state on that it has for itself. -/
structure FileUrl (url : Url) : Prop extends Fresh url where
  scheme : ∃ name, SchemeText url.type url.non_special_scheme name
  file : url.type = .FILE
  username : url.username = []
  password : url.password = []
  host : url.host = some []
  host_type : url.host_type = .DEFAULT
  port : url.port = none

theorem encoded_nil (character_set : List Nat) : Encoded character_set [] :=
  fun _ none => absurd none List.not_mem_nil

theorem FileUrl.front (file : FileUrl url) : Front idna url := by
  refine ⟨file.scheme, ?_, ?_, fun host found => ?_, fun none => ?_,
    fun _ => ⟨file.username, file.password, file.port⟩, fun port found => ?_⟩
  · rw [file.username]
    exact encoded_nil _
  · rw [file.password]
    exact encoded_nil _
  · rw [file.host] at found
    exact .inl ⟨(Option.some.inj found).symm, .inr file.file, file.host_type⟩
  · rw [file.host] at none
    cases none
  · rw [file.port] at found
    cases found

theorem FileUrl.canonical_path (file : FileUrl url) (view : Str) :
    Canonical idna (UrlParser.path fragment url view) :=
  Ada.canonical_path file.front file.toFresh fun none => by
    rw [file.host] at none
    cases none

/-- The name that a file URL drops is no address. -/
theorem host_type_localhost {host_type : HostType}
    (parsed : parseHost idna .FILE localhost = some (localhost, host_type)) :
    host_type = .DEFAULT := by
  have plain := @parseHost_of_plain idna .FILE localhost (by decide) (by decide) (by decide)
    (by decide) (by decide)
  rw [plain, if_neg (by decide)] at parsed
  exact (Prod.mk.inj (Option.some.inj parsed)).2.symm

theorem canonical_fileHost (lawful : Lawful idna) (file : FileUrl url) {result : Url}
    (accepted : fileHost idna fragment url view = some result) : Canonical idna result := by
  have front : Front idna url := file.front
  have fresh : ∀ host host_type, Fresh { url with host, host_type } :=
    fun _ _ => ⟨file.path, file.rooted, file.query, file.hash⟩
  rw [fileHost] at accepted
  dsimp only at accepted
  split at accepted
  · obtain rfl := Option.some.inj accepted
    exact file.canonical_path view
  · split at accepted
    · obtain rfl := Option.some.inj accepted
      have same : { url with host := some [] } = url := by
        rw [← file.host]
      rw [same]
      exact canonical_pathStart front file.toFresh (by rw [file.host]; simp) view
    · rw [Option.map_eq_some_iff] at accepted
      obtain ⟨⟨host, host_type⟩, parsed, rfl⟩ := accepted
      have stored : Front idna { url with
          host := some (if host = localhost then [] else host), host_type } := by
        refine ⟨front.scheme, front.username, front.password, ?_, nofun,
          fun _ => ⟨file.username, file.password, file.port⟩, front.port⟩
        obtain ⟨again, text⟩ := parseHost_parseHost lawful parsed
        rintro name ⟨rfl⟩
        split
        · next dropped =>
            subst dropped
            rw [file.file] at again
            have settled : Settled idna localhost := fun label => absurd (by decide) label
            exact .inl ⟨rfl, .inr file.file, host_type_localhost (again settled)⟩
        · next kept => exact .inr ⟨again, text, fun _ => kept⟩
      exact canonical_pathStart stored (fresh _ _) (Option.some_ne_none _) _

theorem canonical_file (lawful : Lawful idna) (file : FileUrl url) {result : Url}
    (accepted : UrlParser.file idna fragment url view = some result) : Canonical idna result := by
  have same : { url with type := .FILE, host := some [] } = url := by
    rw [← file.file, ← file.host]
  rw [UrlParser.file.eq_def] at accepted
  dsimp only at accepted
  rw [same] at accepted
  split at accepted
  · obtain rfl := Option.some.inj accepted
    exact file.canonical_path []
  · split at accepted
    · rw [fileSlash.eq_def] at accepted
      split at accepted
      · obtain rfl := Option.some.inj accepted
        exact file.canonical_path []
      · split at accepted
        · exact canonical_fileHost lawful file accepted
        · obtain rfl := Option.some.inj accepted
          exact file.canonical_path _
    · obtain rfl := Option.some.inj accepted
      exact file.canonical_path _

/-! ## The scheme -/

theorem toNat_lt_of_isAlnumPlus {c : Char} (alnum : isAlnumPlus c = true) : c.toNat < 128 := by
  simp only [isAlnumPlus, Bool.or_eq_true, Bool.and_eq_true, decide_eq_true_eq] at alnum
  obtain ((((⟨-, top⟩ | ⟨-, top⟩) | ⟨-, top⟩) | rfl) | rfl) | rfl := alnum
  all_goals first | decide | exact Nat.lt_of_le_of_lt top (by decide)

theorem toNat_lt_of_isAlpha {c : Char} (alpha : isAlpha c = true) : c.toNat < 128 := by
  rw [isAlpha, Bool.and_eq_true, decide_eq_true_eq, decide_eq_true_eq] at alpha
  exact Nat.lt_of_le_of_lt (Nat.le_trans Nat.left_le_or alpha.2) (by decide)

theorem toLower_isAlnumPlus {c : Char} (alnum : isAlnumPlus c = true) :
    isAlnumPlus c.toLower = true ∧ c.toLower.toLower = c.toLower := by
  have all : ∀ n : Fin 256, isAlnumPlus (Char.ofNat n) = true →
      isAlnumPlus (Char.ofNat n).toLower = true ∧
        (Char.ofNat n).toLower.toLower = (Char.ofNat n).toLower := by decide +kernel
  exact PercentCoding.forall_byte (p := fun c => isAlnumPlus c = true →
    isAlnumPlus c.toLower = true ∧ c.toLower.toLower = c.toLower) all
    (Nat.lt_trans (toNat_lt_of_isAlnumPlus alnum) (by decide)) alnum

theorem toLower_isAlpha {c : Char} (alpha : isAlpha c = true) :
    isAlpha c.toLower = true ∧ c.toLower.toLower = c.toLower := by
  have all : ∀ n : Fin 256, isAlpha (Char.ofNat n) = true →
      isAlpha (Char.ofNat n).toLower = true ∧
        (Char.ofNat n).toLower.toLower = (Char.ofNat n).toLower := by decide +kernel
  exact PercentCoding.forall_byte (p := fun c => isAlpha c = true →
    isAlpha c.toLower = true ∧ c.toLower.toLower = c.toLower) all
    (Nat.lt_trans (toNat_lt_of_isAlpha alpha) (by decide)) alpha

theorem toLower_name (type : Kind) : ∀ c ∈ type.name, c.toLower = c := by
  have all : (type.name.all fun c => c.toLower == c) = true := by cases type <;> decide
  exact fun c found => eq_of_beq (List.all_eq_true.mp all c found)

/-- Only the scheme and its type are set. -/
theorem parseScheme_eq (name : Str) : ∃ type non_special_scheme,
    ({} : Url).parseScheme name = { type, non_special_scheme } := by
  rw [parseScheme]
  split
  · exact ⟨_, _, rfl⟩
  · rw [setScheme]
    split
    · exact ⟨_, _, rfl⟩
    · exact ⟨_, _, rfl⟩

/-- The name of the scheme is read as itself. -/
theorem schemeText_parseScheme {c : Char} {rest : Str} (letter : isAlpha c = true)
    (letters : ∀ d ∈ rest, isAlnumPlus d = true) :
    ∃ name, SchemeText (({} : Url).parseScheme (c :: rest)).type
      (({} : Url).parseScheme (c :: rest)).non_special_scheme name := by
  have ascii : ∀ d ∈ c :: rest, d.toNat < 128 := List.forall_mem_cons.mpr
    ⟨toNat_lt_of_isAlpha letter, fun d found => toNat_lt_of_isAlnumPlus (letters d found)⟩
  have lowered := toLowerAscii_of_ascii ascii
  have lower : ∀ d ∈ (c :: rest).map Char.toLower, d.toLower = d := by
    intro d found
    obtain ⟨e, member, rfl⟩ := List.mem_map.mp found
    obtain rfl | member := List.mem_cons.mp member
    · exact (toLower_isAlpha letter).2
    · exact (toLower_isAlnumPlus (letters e member)).2
  have stays : (toLowerAscii ((c :: rest).map Char.toLower)).1 = (c :: rest).map Char.toLower := by
    rw [← lowered]
    apply toLowerAscii_toLowerAscii
    intro d found
    rw [lowered] at found
    obtain ⟨e, member, rfl⟩ := List.mem_map.mp found
    obtain rfl | member := List.mem_cons.mp member
    · exact .inl (toNat_lt_of_isAlpha (toLower_isAlpha letter).1)
    · exact .inl (toNat_lt_of_isAlnumPlus (toLower_isAlnumPlus (letters e member)).1)
  have first : ∃ d rest', (c :: rest).map Char.toLower = d :: rest' ∧ isAlpha d = true ∧
      ∀ e ∈ rest', isAlnumPlus e = true := by
    refine ⟨c.toLower, rest.map Char.toLower, rfl, (toLower_isAlpha letter).1, fun e found => ?_⟩
    obtain ⟨d, member, rfl⟩ := List.mem_map.mp found
    exact (toLower_isAlnumPlus (letters d member)).1
  by_cases fast : getSchemeType (c :: rest) ≠ .NOT_SPECIAL
  · have read : ({} : Url).parseScheme (c :: rest) = { type := getSchemeType (c :: rest) } := by
      rw [parseScheme, if_pos fast]
    have name := name_getSchemeType fast
    refine ⟨c :: rest, ?_, ?_, ⟨c, rest, rfl, letter, letters⟩, ?_⟩
    · rw [read]
      exact (if_pos fast).trans name
    · rw [read]
    · rw [← name]
      exact toLower_name _
  · rw [ne_eq, not_not] at fast
    have read : ({} : Url).parseScheme (c :: rest) =
        ({} : Url).setScheme ((c :: rest).map Char.toLower) := by
      rw [parseScheme, if_neg (by rw [fast]; simp), lowered]
    rw [read]
    by_cases slow : getSchemeType ((c :: rest).map Char.toLower) ≠ .NOT_SPECIAL
    · rw [setScheme, if_pos slow]
      refine ⟨(c :: rest).map Char.toLower, (if_pos slow).trans (name_getSchemeType slow), ?_,
        first, lower⟩
      rw [parseScheme, if_pos slow]
    · have plain := slow
      rw [ne_eq, not_not] at plain
      rw [setScheme, if_neg slow]
      refine ⟨(c :: rest).map Char.toLower, if_neg slow, ?_, first, lower⟩
      rw [parseScheme, if_neg slow, stays, setScheme, if_neg slow]

/-! ## Whole inputs -/

theorem canonical_afterScheme (lawful : Lawful idna) {type : Kind} {non_special_scheme : Str}
    (scheme : ∃ name, SchemeText type non_special_scheme name) (clean : '#' ∉ view)
    (trailing : fragment = none → view.getLast? ≠ some ' ') {result : Url}
    (accepted : afterScheme idna fragment { type, non_special_scheme } view = some result) :
    Canonical idna result := by
  have before : type ≠ .FILE → Before { type, non_special_scheme } := fun other =>
    ⟨⟨rfl, rfl, rfl, rfl⟩, scheme, encoded_nil _, encoded_nil _, rfl, rfl, rfl, other⟩
  rw [afterScheme.eq_def] at accepted
  split at accepted
  · next file =>
      have hosted : UrlParser.file idna fragment
          { type, non_special_scheme, host := some [] } view = some result := accepted
      have stored : FileUrl { type, non_special_scheme, host := some [] } :=
        ⟨⟨rfl, rfl, rfl, rfl⟩, scheme, file, rfl, rfl, rfl, rfl, rfl⟩
      exact canonical_file lawful stored hosted
  · next other =>
      split at accepted
      · exact canonical_specialAuthoritySlashes lawful (before other) ⟨rfl, rfl⟩ accepted
      · next plain =>
          have plain : type = .NOT_SPECIAL := by simpa [Url.isSpecial] using plain
          split at accepted
          · exact canonical_pathOrAuthority lawful (before other) plain ⟨rfl, rfl⟩ accepted
          · next no_slash =>
              obtain rfl := Option.some.inj accepted
              refine canonical_opaquePath ((before other).front_of_hostless plain ⟨rfl, rfl⟩)
                ⟨rfl, rfl, rfl, rfl⟩ rfl (fun first => ?_) clean trailing
              obtain ⟨rest, rfl⟩ := List.head?_eq_some_iff.mp first
              exact no_slash rest rfl

theorem canonical_scheme (lawful : Lawful idna) (clean : '#' ∉ view)
    (trailing : fragment = none → view.getLast? ≠ some ' ') {result : Url}
    (accepted : UrlParser.scheme idna fragment {} view = some result) : Canonical idna result := by
  rw [UrlParser.scheme.eq_def] at accepted
  split at accepted
  · cases accepted
  · next c rest =>
      split at accepted
      · next letter =>
          split at accepted
          · next after colon =>
              have whole := List.takeWhile_append_dropWhile (p := isAlnumPlus) (l := rest)
              rw [colon] at whole
              have letters : ∀ d ∈ rest.takeWhile isAlnumPlus, isAlnumPlus d = true :=
                fun d found => List.mem_takeWhile_imp found
              have scheme := schemeText_parseScheme letter letters
              obtain ⟨type, non_special_scheme, read⟩ :=
                parseScheme_eq (c :: rest.takeWhile isAlnumPlus)
              rw [read] at accepted scheme
              refine canonical_afterScheme lawful scheme (fun found => clean ?_)
                (fun none last => trailing none ?_) accepted
              · rw [← whole]
                simp [found]
              · rw [← whole, List.getLast?_cons_of_ne_nil (by simp),
                  List.getLast?_append_of_ne_nil _ (by simp),
                  List.getLast?_cons_of_ne_nil (by rintro rfl; cases last), last]
          · cases accepted
      · cases accepted

/-- Nothing blank is left at the end of a trimmed text. -/
theorem getLast?_trimC0Whitespace (input : Str) : (trimC0Whitespace input).getLast? ≠ some ' ' := by
  intro last
  have nonempty : trimC0Whitespace input ≠ [] := by
    intro none
    rw [none] at last
    cases last
  have kept : ¬isC0ControlOrSpace ((trimC0Whitespace input).getLast nonempty) = true :=
    List.rdropWhile_last_not _ _ nonempty
  rw [List.getLast?_eq_getLast_of_ne_nil nonempty] at last
  rw [Option.some.inj last] at kept
  exact kept (by decide)

/-- The form of an accepted URL: its components are complete in themselves. -/
theorem canonical_of_parse (lawful : Lawful idna) {input : Str}
    (accepted : parse idna input = some url) : Canonical idna url := by
  rw [parse, parseUrl] at accepted
  split at accepted
  · cases accepted
  · dsimp only at accepted
    rw [pruneHash] at accepted
    split at accepted
    · next none =>
        exact canonical_scheme lawful (cut?_singleton_eq_none.mp none)
          (fun _ => getLast?_trimC0Whitespace _) accepted
    · next before after found =>
        exact canonical_scheme lawful (cut?_singleton_eq_some.mp found).2
          (fun none => by cases none) accepted

end States

end Mux.Ada
