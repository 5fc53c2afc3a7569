import Mux.Http.Parsing

/-!
# Requests that the parser rejects

`parse` fills the request stage by stage and reports an error from the middle of
it. Callers catch `runtime_error` only. The header loop skips the colon and one more
character of each line, and throws something else when the colon is the last one;
the stages in front of it leave what they have assigned.
-/

namespace Mux.Http.Request

open Text

/-! ## The stages -/

/-- What the URL stage assigns. -/
def withUrl (r : Request) (url : Url) : Request :=
  { r with
    path_ := .expired url.get_pathname
    query_ := url.get_search
    hashFragment_ := url.get_hash }

/-- What the host stage assigns. -/
def withHost (r : Request) (value : Str) : Request :=
  { r with
    host_ := (hostAndPort r.protocol_ value).1
    port_ := (hostAndPort r.protocol_ value).2 }

/-- The path that the request holds is a URL. -/
def HoldsUrl (ada : AdaParse) (r : Request) (url : Url) : Prop :=
  ∃ input, r.path_ = .live input ∧ ada input = some url

/-- The request has a host among its headers. -/
def HoldsHost (r : Request) (value : Str) : Prop :=
  value ≠ [] ∧ r.headers_.headers.find? hostKey = some value

section Stages

variable {ada : AdaParse} {r t : Request} {raw : Str}

theorem parse_tokens {line : Str} {lines : List Str} {tokens : Str × Str × Str}
    (read : getlines raw = line :: lines) (first : requestTokens line = some tokens) :
    r.parse ada raw =
      (r.parseUrl ada).bind fun r => r.parseHost.bind (parseSections raw lines) := by
  simp only [parse, read, first]

theorem HoldsUrl.parseUrl {url : Url} (h : r.HoldsUrl ada url) :
    r.parseUrl ada = .ok (r.withUrl url) := by
  obtain ⟨input, path, accepted⟩ := h
  exact parseUrl_eq_ok.mpr ⟨input, url, path, accepted, rfl⟩

/-- The lookup of a host that is there leaves the header map as it is. -/
theorem HoldsHost.parseHost {value : Str} (h : r.HoldsHost value) :
    r.parseHost = .ok (r.withHost value) := by
  obtain ⟨nonempty, stored⟩ := h
  have found : r.getHeader hostKey = (value, r) := by
    simp only [getHeader, HTTPHeader.getHeader, UnorderedMap.subscript_present stored]
  rw [parseHost_present (by rw [found]; exact nonempty), found]
  rfl

/-- The three ways out of the URL stage. -/
theorem parseUrl_cases (ada : AdaParse) (r : Request) :
    (r.path_ = .dangling ∧ r.parseUrl ada = .undefined) ∨
    (∃ input, r.path_ = .live input ∧ ada input = none ∧
      r.parseUrl ada = .throws (.runtime_error "Invalid request: Malformed URL") r) ∨
    ∃ url, r.HoldsUrl ada url := by
  unfold parseUrl
  cases path : r.path_ with
  | dangling => exact .inl ⟨rfl, rfl⟩
  | live input =>
      cases accepted : ada input with
      | none => exact .inr (.inl ⟨input, rfl, accepted, by simp only [accepted]⟩)
      | some url => exact .inr (.inr ⟨url, input, path, accepted⟩)

theorem holdsHost_or (r : Request) :
    (r.headers_.headers.find? hostKey).getD [] = [] ∨ ∃ value, r.HoldsHost value := by
  cases stored : r.headers_.headers.find? hostKey with
  | none => exact .inl rfl
  | some value =>
      by_cases empty : value = []
      · exact .inl empty
      · exact .inr ⟨value, empty, stored⟩

theorem parseSections_other {lines : List Str} (other : ∀ rest, lines ≠ [] :: rest) :
    r.parseSections raw lines = .throws
      (.runtime_error "Invalid request: Missing blank line after headers") r := by
  unfold parseSections
  split
  · next rest => exact absurd rfl (other rest)
  · rfl

end Stages

/-! ## The exceptions -/

/-- The call returns, or throws what its callers catch. -/
def Documented (outcome : Outcome Exception Request) : Prop :=
  outcome.Returns ∨ ∃ what t, outcome = .throws (.runtime_error what) t

/-- Behind some header lines comes a line whose first colon is its last character. -/
def StopsAtColon (lines : List Str) : Prop :=
  ∃ stored line behind, lines = stored ++ line :: behind ∧ (∀ l ∈ stored, HeaderLine l) ∧
    ∃ colonPos, line.idxOf? ':' = some colonPos ∧ line.length = colonPos + 1

/-- Once the request line is complete, the stored path has to be readable; and when the
stages in front of the header loop pass, no line stops the loop at its colon. -/
def FailsCleanly (ada : AdaParse) (r : Request) (raw : Str) : Prop :=
  ∀ line lines, getlines raw = line :: lines → (requestTokens line).isSome →
    r.path_ ≠ .dangling ∧
    ∀ url value rest, r.HoldsUrl ada url → r.HoldsHost value → lines = [] :: rest →
      ¬ StopsAtColon rest

section Exceptions

variable {ada : AdaParse} {r t : Request} {raw : Str}

theorem documented_ok : Documented (.ok t) := .inl ⟨t, rfl⟩

theorem documented_runtime_error (what : String) :
    Documented (.throws (.runtime_error what) t) := .inr ⟨what, t, rfl⟩

theorem out_of_range_not_documented : ¬ Documented (.throws .out_of_range t) := by
  rintro (⟨_, impossible⟩ | ⟨_, _, impossible⟩) <;> cases impossible

theorem undefined_not_documented : ¬ Documented .undefined := by
  rintro (⟨_, impossible⟩ | ⟨_, _, impossible⟩) <;> cases impossible

/-- A stage that returns normally passes on what comes after it. -/
theorem documented_bind_ok {outcome : Outcome Exception Request}
    {next : Request → Outcome Exception Request} (returns : ∀ s, (next s).Returns) :
    Documented (outcome.bind next) ↔ Documented outcome := by
  cases outcome with
  | ok s => exact iff_of_true (.inl (returns s)) documented_ok
  | throws exception s => exact Iff.rfl
  | undefined => exact Iff.rfl

theorem stopsAtColon_cons {line : Str} {lines : List Str} :
    StopsAtColon (line :: lines) ↔
      (∃ colonPos, line.idxOf? ':' = some colonPos ∧ line.length = colonPos + 1) ∨
        (HeaderLine line ∧ StopsAtColon lines) := by
  constructor
  · rintro ⟨stored, last, behind, split, headers, colon⟩
    cases stored with
    | nil =>
        obtain ⟨rfl, rfl⟩ := List.cons.inj split
        exact .inl colon
    | cons first stored =>
        obtain ⟨rfl, rfl⟩ := List.cons.inj split
        obtain ⟨header, headers⟩ := List.forall_mem_cons.mp headers
        exact .inr ⟨header, stored, last, behind, rfl, headers, colon⟩
  · rintro (colon | ⟨header, stored, last, behind, rfl, headers, colon⟩)
    · exact ⟨[], line, lines, rfl, List.forall_mem_nil _, colon⟩
    · exact ⟨line :: stored, last, behind, rfl, List.forall_mem_cons.mpr ⟨header, headers⟩, colon⟩

theorem lt_of_idxOf? {line : Str} {colonPos : Nat} (h : line.idxOf? ':' = some colonPos) :
    colonPos < line.length := by
  rw [List.idxOf?_eq_some_iff] at h
  exact h.1

theorem parseHeaders_documented (r : Request) (lines : List Str) :
    Documented (r.parseHeaders lines) ↔ ¬ StopsAtColon lines := by
  induction lines generalizing r with
  | nil => exact iff_of_true documented_ok (by rintro ⟨_, _, _, split, _⟩; simp at split)
  | cons line lines ih =>
      rw [stopsAtColon_cons, parseHeaders, HeaderLine]
      by_cases empty : line = []
      · subst empty
        exact iff_of_true documented_ok (by simp)
      · rw [if_neg empty]
        cases colon : line.idxOf? ':' with
        | none => exact iff_of_true (documented_runtime_error _) (by simp)
        | some colonPos =>
            have inside := lt_of_idxOf? colon
            by_cases fits : colonPos + 2 ≤ line.length
            · have behind : ¬ line.length = colonPos + 1 := by omega
              simp [substr, fits, behind, ih]
            · have last : line.length = colonPos + 1 := by omega
              simp [substr, last, out_of_range_not_documented]

theorem parseSections_documented (r : Request) (raw : Str) (lines : List Str) :
    Documented (r.parseSections raw lines) ↔
      ∀ rest, lines = [] :: rest → ¬ StopsAtColon rest := by
  by_cases shape : ∃ rest, lines = [] :: rest
  · obtain ⟨rest, rfl⟩ := shape
    have sections : r.parseSections raw ([] :: rest) =
        (r.parseHeaders rest).bind (parseBody raw rest) := rfl
    have body (s : Request) : (parseBody raw rest s).Returns := ⟨_, rfl⟩
    rw [sections, documented_bind_ok body, parseHeaders_documented]
    constructor
    · rintro clean rest' same
      obtain ⟨-, rfl⟩ := List.cons.inj same
      exact clean
    · exact fun clean => clean rest rfl
  · rw [parseSections_other fun rest same => shape ⟨rest, same⟩]
    exact iff_of_true (documented_runtime_error _) fun rest same => absurd ⟨rest, same⟩ shape

/-- The stages behind a complete request line. -/
theorem stages_documented (ada : AdaParse) (r : Request) (raw : Str) (lines : List Str) :
    Documented ((r.parseUrl ada).bind fun r => r.parseHost.bind (parseSections raw lines)) ↔
      r.path_ ≠ .dangling ∧ ∀ url value rest, r.HoldsUrl ada url → r.HoldsHost value →
        lines = [] :: rest → ¬ StopsAtColon rest := by
  obtain ⟨path, expired⟩ | ⟨input, path, rejected, malformed⟩ | ⟨url, holds⟩ := r.parseUrl_cases ada
  · rw [expired]
    exact iff_of_false undefined_not_documented fun h => h.1 path
  · rw [malformed]
    refine iff_of_true (documented_runtime_error _) ⟨by simp [path], ?_⟩
    rintro url value rest ⟨input', same, accepted⟩
    obtain rfl := StringView.live.inj (path.symm.trans same)
    rw [rejected] at accepted
    cases accepted
  · have live : r.path_ ≠ .dangling := by
      obtain ⟨input, path, -⟩ := holds
      simp [path]
    rw [holds.parseUrl, Outcome.bind_ok]
    obtain missing | ⟨value, host⟩ := (r.withUrl url).holdsHost_or
    · rw [parseHost_missing ((HTTPHeader.getHeader_fst _ _).trans missing)]
      refine iff_of_true (documented_runtime_error _) ⟨live, ?_⟩
      rintro url' value rest - ⟨nonempty, stored⟩
      have same : (r.headers_.headers.find? hostKey).getD [] = [] := missing
      rw [stored] at same
      exact absurd same nonempty
    · rw [host.parseHost, Outcome.bind_ok, parseSections_documented]
      exact ⟨fun clean => ⟨live, fun _ _ rest _ _ => clean rest⟩,
        fun clean rest => clean.2 url value rest holds host⟩

/-- The parser fails in its documented way exactly when it does not read an expired path and
no line stops the header loop at its colon. -/
theorem documented_iff_failsCleanly (ada : AdaParse) (r : Request) (raw : Str) :
    Documented (r.parse ada raw) ↔ r.FailsCleanly ada raw := by
  unfold FailsCleanly
  cases read : getlines raw with
  | nil =>
      have thrown : r.parse ada raw =
          .throws (.runtime_error "Invalid request: Missing request line") r := by
        simp only [parse, read]
      rw [thrown]
      refine iff_of_true (documented_runtime_error _) fun line lines impossible => ?_
      cases impossible
  | cons line lines =>
      cases first : requestTokens line with
      | none =>
          have thrown : r.parse ada raw =
              .throws (.runtime_error "Invalid request: Malformed request line") r := by
            simp only [parse, read, first]
          rw [thrown]
          refine iff_of_true (documented_runtime_error _) fun line' lines' same complete => ?_
          obtain ⟨rfl, -⟩ := List.cons.inj same
          rw [first] at complete
          cases complete
      | some tokens =>
          rw [parse_tokens read first, stages_documented]
          constructor
          · intro clean line' lines' same _
            obtain ⟨-, rfl⟩ := List.cons.inj same
            exact clean
          · exact fun clean => clean line lines rfl (by simp [first])

/-- A line of one letter and a colon. -/
theorem letterColon_not_documented :
    ¬ Documented (reused.parse sampleAda "GET /new HTTP/1.1\n\na:\n".toList) := by
  have thrown : ∃ t, reused.parse sampleAda "GET /new HTTP/1.1\n\na:\n".toList =
      .throws .out_of_range t := ⟨_, rfl⟩
  obtain ⟨t, thrown⟩ := thrown
  rw [thrown]
  exact out_of_range_not_documented

end Exceptions

/-! ## What a rejected text leaves behind -/

/-- Every field is as before. -/
structure Untouched (before after : Request) : Prop where
  method : after.method_ = before.method_
  path : after.path_ = before.path_
  query : after.query_ = before.query_
  hashFragment : after.hashFragment_ = before.hashFragment_
  protocol : after.protocol_ = before.protocol_
  host : after.host_ = before.host_
  port : after.port_ = before.port_
  body : after.body_ = before.body_
  headers : after.headers_.headers = before.headers_.headers

/-- Store a header line. -/
def storeLine (r : Request) (line : Str) : Request :=
  match line.idxOf? ':' with
  | some colonPos => r.setHeader (line.take colonPos) (line.drop (colonPos + 2))
  | none => r

/-- The two requests agree but for the path. -/
def AgreesButPath (t u : Request) : Prop := t = { u with path_ := t.path_ }

/-- The two requests agree but for the path and the entry of the host. -/
structure AgreesButHost (t u : Request) : Prop where
  fields : t = { u with path_ := t.path_, headers_ := t.headers_ }
  headers : ∀ name, name ≠ hostKey → t.headers_.headers.find? name = u.headers_.headers.find? name

/-- What an exception says about the request that it leaves behind: which stages have
assigned their fields, and which header lines have been stored. -/
inductive LeftBehind (ada : AdaParse) (r : Request) (raw : Str) : Exception → Request → Prop where
  | requestLine {what : String} (early : what = "Invalid request: Missing request line" ∨
      what = "Invalid request: Malformed request line" ∨ what = "Invalid request: Malformed URL") :
      LeftBehind ada r raw (.runtime_error what) r
  | host {t : Request} {url : Url} (path : r.HoldsUrl ada url)
      (agrees : t.AgreesButHost (r.withUrl url)) :
      LeftBehind ada r raw (.runtime_error "Invalid request: Missing Host header") t
  | blankLine {t : Request} {url : Url} {value : Str} (path : r.HoldsUrl ada url)
      (host : r.HoldsHost value) (agrees : t.AgreesButPath ((r.withUrl url).withHost value)) :
      LeftBehind ada r raw
        (.runtime_error "Invalid request: Missing blank line after headers") t
  | headerLine {t : Request} {url : Url} {value line rejected : Str} {stored behind : List Str}
      {exception : Exception} (path : r.HoldsUrl ada url) (host : r.HoldsHost value)
      (read : getlines raw = line :: [] :: (stored ++ rejected :: behind))
      (headers : ∀ l ∈ stored, HeaderLine l) (refused : rejected ≠ [] ∧ ¬ HeaderLine rejected)
      (agrees : t.AgreesButPath (stored.foldl storeLine ((r.withUrl url).withHost value)))
      (late : exception = .runtime_error "Invalid request: Malformed header line" ∨
        exception = .out_of_range) : LeftBehind ada r raw exception t

/-- The fields that no stage in front of the body assigns. -/
structure Spared (before after : Request) : Prop where
  clientFd : after.clientFd_ = before.clientFd_
  method : after.method_ = before.method_
  protocol : after.protocol_ = before.protocol_
  body : after.body_ = before.body_

section Rejected

variable {ada : AdaParse} {r t : Request} {raw : Str} {exception : Exception}

/-- The loop has stored the lines in front of the one that it rejects. -/
theorem parseHeaders_throws {lines : List Str}
    (h : r.parseHeaders lines = .throws exception t) :
    ∃ stored rejected behind, lines = stored ++ rejected :: behind ∧
      (∀ l ∈ stored, HeaderLine l) ∧ (rejected ≠ [] ∧ ¬ HeaderLine rejected) ∧
      t = stored.foldl storeLine r ∧
      (exception = .runtime_error "Invalid request: Malformed header line" ∨
        exception = .out_of_range) := by
  induction lines generalizing r with
  | nil => cases h
  | cons line lines ih =>
      rw [parseHeaders] at h
      split at h
      · cases h
      · next nonempty =>
          split at h
          · next colon =>
              obtain ⟨rfl, rfl⟩ := Outcome.throws.inj h
              refine ⟨[], line, lines, rfl, List.forall_mem_nil _, ⟨nonempty, ?_⟩, rfl, .inl rfl⟩
              rintro ⟨colonPos, found, -⟩
              rw [colon] at found
              cases found
          · next colonPos colon =>
              by_cases fits : colonPos + 2 ≤ line.length
              · simp only [substr, if_pos fits] at h
                obtain ⟨stored, rejected, behind, rfl, headers, refused, rfl, late⟩ := ih h
                refine ⟨line :: stored, rejected, behind, rfl,
                  List.forall_mem_cons.mpr ⟨⟨colonPos, colon, fits⟩, headers⟩, refused, ?_, late⟩
                simp only [List.foldl_cons, storeLine, colon]
              · simp only [substr, if_neg fits] at h
                obtain ⟨rfl, rfl⟩ := Outcome.throws.inj h
                refine ⟨[], line, lines, rfl, List.forall_mem_nil _, ⟨nonempty, ?_⟩, rfl, .inr rfl⟩
                rintro ⟨pos, found, enough⟩
                obtain rfl := Option.some.inj (colon.symm.trans found)
                exact fits enough

/-- The lookup of the host changes no entry but that of the host. -/
theorem agrees_getHeader (r : Request) : (r.getHeader hostKey).2.AgreesButHost r where
  fields := rfl
  headers name other := by
    simp only [getHeader, HTTPHeader.getHeader]
    cases found : r.headers_.headers.find? hostKey with
    | none =>
        rw [UnorderedMap.subscript_absent found]
        exact UnorderedMap.find?_insert_ne _ _ other
    | some value => rw [UnorderedMap.subscript_present found]

/-- The stages behind the URL. -/
theorem parseSections_leaves {url : Url} {value line : Str} {lines : List Str}
    (path : r.HoldsUrl ada url) (host : r.HoldsHost value) (read : getlines raw = line :: lines)
    (h : ((r.withUrl url).withHost value).parseSections raw lines = .throws exception t) :
    LeftBehind ada r raw exception t := by
  unfold parseSections at h
  split at h
  · next rest =>
      cases loop : ((r.withUrl url).withHost value).parseHeaders rest with
      | ok s =>
          rw [loop] at h
          cases h
      | undefined =>
          rw [loop] at h
          cases h
      | throws thrown s =>
          rw [loop] at h
          obtain ⟨rfl, rfl⟩ := Outcome.throws.inj h
          obtain ⟨stored, rejected, behind, rfl, headers, refused, left, late⟩ :=
            parseHeaders_throws loop
          exact .headerLine path host read headers refused (by rw [left]; rfl) late
  · obtain ⟨rfl, rfl⟩ := Outcome.throws.inj h
    exact .blankLine path host rfl

theorem parse_leaves (h : r.parse ada raw = .throws exception t) :
    LeftBehind ada r raw exception t := by
  cases read : getlines raw with
  | nil =>
      simp only [parse, read] at h
      obtain ⟨rfl, rfl⟩ := Outcome.throws.inj h
      exact .requestLine (.inl rfl)
  | cons line lines =>
      cases first : requestTokens line with
      | none =>
          simp only [parse, read, first] at h
          obtain ⟨rfl, rfl⟩ := Outcome.throws.inj h
          exact .requestLine (.inr (.inl rfl))
      | some tokens =>
          rw [parse_tokens read first] at h
          obtain ⟨-, expired⟩ | ⟨_, -, -, malformed⟩ | ⟨url, path⟩ := r.parseUrl_cases ada
          · rw [expired] at h
            cases h
          · rw [malformed] at h
            obtain ⟨rfl, rfl⟩ := Outcome.throws.inj h
            exact .requestLine (.inr (.inr rfl))
          · rw [path.parseUrl, Outcome.bind_ok] at h
            obtain missing | ⟨value, host⟩ := (r.withUrl url).holdsHost_or
            · rw [parseHost_missing ((HTTPHeader.getHeader_fst _ _).trans missing)] at h
              obtain ⟨rfl, rfl⟩ := Outcome.throws.inj h
              exact .host path (agrees_getHeader _)
            · rw [host.parseHost, Outcome.bind_ok] at h
              exact parseSections_leaves path host read h

/-- Storing header lines changes the header map and nothing else. -/
theorem foldl_storeLine (r : Request) (lines : List Str) :
    lines.foldl storeLine r = { r with headers_ := (lines.foldl storeLine r).headers_ } := by
  induction lines generalizing r with
  | nil => rfl
  | cons line lines ih =>
      have one : r.storeLine line = { r with headers_ := (r.storeLine line).headers_ } := by
        unfold storeLine
        split <;> rfl
      rw [List.foldl_cons, ih, one]

theorem LeftBehind.spared (h : LeftBehind ada r raw exception t) : r.Spared t := by
  cases h with
  | requestLine early => exact ⟨rfl, rfl, rfl, rfl⟩
  | host path agrees =>
      rw [agrees.fields]
      exact ⟨rfl, rfl, rfl, rfl⟩
  | blankLine path host agrees =>
      rw [agrees]
      exact ⟨rfl, rfl, rfl, rfl⟩
  | headerLine path host read headers refused agrees late =>
      rw [agrees, foldl_storeLine]
      exact ⟨rfl, rfl, rfl, rfl⟩

/-- An exception leaves the fields of the later stages as they were, and says what the earlier
ones have assigned. -/
theorem parse_throws_leftBehind (ada : AdaParse) (r t : Request) (raw : Str)
    (exception : Exception) (thrown : r.parse ada raw = .throws exception t) :
    r.Spared t ∧ LeftBehind ada r raw exception t :=
  ⟨(parse_leaves thrown).spared, parse_leaves thrown⟩

/-- The second line of the text is not empty. -/
def unseparated : Str := "GET /new HTTP/1.1\na: b\n".toList

theorem unseparated_leftBehind : ∃ exception t, reused.parse sampleAda unseparated =
    .throws exception t ∧ reused.Spared t ∧ LeftBehind sampleAda reused unseparated exception t :=
  ⟨_, _, rfl, parse_throws_leftBehind sampleAda reused _ unseparated _ rfl⟩

/-- The host has been assigned by then. -/
theorem unseparated_not_untouched : ¬ ∀ exception t,
    reused.parse sampleAda unseparated = .throws exception t → reused.Untouched t := by
  intro untouched
  have host := (untouched _ _ rfl).host
  revert host
  decide

end Rejected

end Mux.Http.Request
