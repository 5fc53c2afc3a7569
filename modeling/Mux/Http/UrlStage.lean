import Mux.Ada.RoundTrip
import Mux.Http.ParseFailure

/-!
# The URL parser behind a request

`Request.parse` hands the stored path to `ada::parse` and stores a view of the
path that comes back, which is gone when the call has returned. So a stored path
serves for one normal return, and what that return leaves in the request is
encoded text.
-/

namespace Mux.Http

open Text Ada.CharacterSets Ada.Checkers Ada.Unicode Ada.Helpers

/-- `ada::parse<ada::url>`, and what the request reads from its result. -/
def adaParse (idna : Str → Str) : AdaParse := fun input =>
  (Ada.parse idna input).map fun url => ⟨url.getPathname, url.getSearch, url.getHash⟩

/-- The text that the scheme is read from. -/
def schemeSource (input : Str) : Str :=
  let input :=
    if hasTabsOrNewline input then removeAsciiTabOrNewline input
    else input
  (pruneHash (trimC0Whitespace input)).1

/-- Without a base a text needs a scheme. -/
theorem schemeSource_of_parse {idna : Str → Str} {input : Str} {url : Ada.Url}
    (accepted : Ada.parse idna input = some url) :
    ∃ c name view, schemeSource input = c :: name ++ ':' :: view ∧ isAlpha c = true ∧
      ∀ d ∈ name, isAlnumPlus d = true := by
  rw [Ada.parse, Ada.UrlParser.parseUrl] at accepted
  split at accepted
  · cases accepted
  · dsimp only at accepted
    generalize source : pruneHash (trimC0Whitespace
      (if hasTabsOrNewline input then removeAsciiTabOrNewline input
        else input)) = parts at accepted
    rw [schemeSource, source]
    obtain ⟨url_data, fragment⟩ := parts
    dsimp only at accepted ⊢
    rw [Ada.UrlParser.scheme.eq_def] at accepted
    split at accepted
    · cases accepted
    · next c rest =>
        split at accepted
        · next letter =>
            split at accepted
            · next view colon =>
                have whole := List.takeWhile_append_dropWhile
                  (p := isAlnumPlus) (l := rest)
                rw [colon] at whole
                exact ⟨c, _, view, congrArg (c :: ·) whole.symm, letter,
                  fun d found => List.mem_takeWhile_imp found⟩
            · cases accepted
        · cases accepted

/-- The target of an ordinary request line, a path, is no URL. -/
theorem adaParse_slash (idna : Str → Str) (rest : Str) : adaParse idna ('/' :: rest) = none := by
  rw [adaParse, Option.map_eq_none_iff, Option.eq_none_iff_forall_ne_some]
  intro url accepted
  obtain ⟨c, name, view, source, letter, -⟩ := schemeSource_of_parse accepted
  obtain ⟨xs, kept⟩ : ∃ xs, (if hasTabsOrNewline ('/' :: rest) then
      removeAsciiTabOrNewline ('/' :: rest) else '/' :: rest) = '/' :: xs := by
    split
    · exact ⟨_, List.filter_cons_of_pos (by decide)⟩
    · exact ⟨rest, rfl⟩
  have trimmed : trimC0Whitespace ('/' :: xs) <+: '/' :: xs := by
    rw [trimC0Whitespace, List.dropWhile_cons_of_neg (by decide)]
    exact List.rdropWhile_prefix _ _
  have front : schemeSource ('/' :: rest) <+: '/' :: xs := by
    rw [schemeSource, kept, pruneHash]
    split
    · exact trimmed
    · next before after found =>
        obtain ⟨whole, -⟩ := cut?_singleton_eq_some.mp found
        exact List.IsPrefix.trans ⟨_, whole.symm⟩ trimmed
  rw [source, List.cons_append, List.cons_prefix_cons] at front
  rw [front.1] at letter
  cases letter

namespace Request

/-- The members of a request that a caller may use between two calls of `parse`. The
setters of the other fields, `assign`, change anything but the path. -/
inductive Member where
  | parse (raw : Str)
  | setPath (path : Str)
  | assign (fields : Request)

/-- The request behind a call, an exception of which is caught; behind undefined behaviour
there is none. -/
def call (ada : AdaParse) : Option Request → Member → Option Request
  | none, _ => none
  | some r, .parse raw =>
      match r.parse ada raw with
      | .ok t => some t
      | .throws _ t => some t
      | .undefined => none
  | some r, .setPath path => some { r with path_ := .live path }
  | some r, .assign fields => some { fields with path_ := r.path_ }

/-- A call of `parse` that returns normally counts. -/
def returned (ada : AdaParse) : Option Request → Member → Nat
  | some r, .parse raw =>
      match r.parse ada raw with
      | .ok _ => 1
      | _ => 0
  | _, _ => 0

section Runs

variable {ada : AdaParse} {r t : Request} {raw : Str}

/-- The URL stage stores what it read, and the stages behind it leave that alone. -/
theorem parse_stores (returned : r.parse ada raw = .ok t) :
    ∃ input url, r.path_ = .live input ∧ ada input = some url ∧
      t.path_ = .expired url.get_pathname ∧ t.query_ = url.get_search ∧
      t.hashFragment_ = url.get_hash := by
  obtain ⟨line, requestStream, tokens, afterUrl, afterHost, -, -, stored, host, sections⟩ :=
    parse_eq_ok.mp returned
  obtain ⟨input, url, path, accepted, rfl⟩ := parseUrl_eq_ok.mp stored
  refine ⟨input, url, path, accepted, ?_⟩
  have present := parseHost_returns.mp ⟨afterHost, host⟩
  rw [← HTTPHeader.getHeader_fst] at present
  rw [parseHost_present present] at host
  obtain rfl := Outcome.ok.inj host
  obtain ⟨lines, rfl, -⟩ := parseSections_returns.mp ⟨t, sections⟩
  obtain ⟨looped, loop, finish⟩ := Outcome.bind_eq_ok.mp sections
  have fields := parseHeaders_frame loop
  obtain rfl := Outcome.ok.inj finish
  split
  · rw [fields]
    exact ⟨rfl, rfl, rfl⟩
  · rw [fields]
    exact ⟨rfl, rfl, rfl⟩

end Runs

/-- Nothing that ends a word or a line. -/
def Word (s : Str) : Prop := ∀ c ∈ s, ' ' < c ∧ c.toNat < 0x7f

theorem word_nil : Word [] := fun _ none => absurd none List.not_mem_nil

/-- Empty, or a sign and more. -/
def Marked (sign : Char) (s : Str) : Prop := s = [] ∨ ∃ c rest, s = sign :: c :: rest

/-- A normal return had a URL with a scheme for its path, and has stored a query and a
fragment that can be printed anywhere in a line. -/
theorem parse_returns_url {idna : Str → Str} (lawful : Ada.Host.Lawful idna) {r t : Request}
    {raw : Str} (returned : r.parse (adaParse idna) raw = .ok t) :
    (∃ input c name view, r.path_ = .live input ∧ schemeSource input = c :: name ++ ':' :: view ∧
        isAlpha c = true ∧ ∀ d ∈ name, isAlnumPlus d = true) ∧
      (Marked '?' t.query_ ∧ Word t.query_ ∧ '#' ∉ t.query_) ∧
      Marked '#' t.hashFragment_ ∧ Word t.hashFragment_ := by
  obtain ⟨input, found, path, accepted, -, query, hash⟩ := parse_stores returned
  obtain ⟨url, parsed, rfl⟩ := Option.map_eq_some_iff.mp accepted
  obtain ⟨c, name, view, source, letters⟩ := schemeSource_of_parse parsed
  have canonical := Ada.canonical_of_parse lawful parsed
  refine ⟨⟨input, c, name, view, path, source, letters⟩, ?_, ?_⟩
  · rw [query]
    dsimp only
    rw [Ada.Url.getSearch.eq_def]
    cases stored : url.query with
    | none => exact ⟨.inl rfl, word_nil, List.not_mem_nil⟩
    | some text =>
        have encoded := canonical.query text stored
        dsimp only
        split
        · exact ⟨.inl rfl, word_nil, List.not_mem_nil⟩
        · next nonempty =>
            obtain ⟨c, rest, rfl⟩ := List.exists_cons_of_ne_nil nonempty
            have sets : bitAt (Ada.Url.querySet url.type) ' ' = true ∧
                bitAt (Ada.Url.querySet url.type) '#' = true := by
              rw [Ada.Url.querySet]
              split <;> decide
            have visible := encoded.visible (Ada.querySet_mem url.type) sets.1
            refine ⟨.inr ⟨c, rest, rfl⟩, List.forall_mem_cons.mpr ⟨by decide, visible⟩, ?_⟩
            rw [List.mem_cons, not_or]
            exact ⟨by decide, encoded.not_mem sets.2⟩
  · rw [hash]
    dsimp only
    rw [Ada.Url.getHash.eq_def]
    cases stored : url.hash with
    | none => exact ⟨.inl rfl, word_nil⟩
    | some text =>
        dsimp only
        split
        · exact ⟨.inl rfl, word_nil⟩
        · next nonempty =>
            obtain ⟨c, rest, rfl⟩ := List.exists_cons_of_ne_nil nonempty
            have visible := (canonical.hash _ stored).visible (by decide) (by decide)
            exact ⟨.inr ⟨c, rest, rfl⟩, List.forall_mem_cons.mpr ⟨by decide, visible⟩⟩

/-- The request of the samples, with the URL parser of the repository. -/
theorem reused_returns_url : ∃ t, reused.parse (adaParse Ada.Host.asciiNames)
      "GET /new HTTP/1.1\n\n\n".toList = .ok t ∧ Word t.query_ := by
  obtain ⟨t, returned⟩ : (reused.parse (adaParse Ada.Host.asciiNames)
      "GET /new HTTP/1.1\n\n\n".toList).Returns := ⟨_, rfl⟩
  exact ⟨t, returned, (parse_returns_url Ada.Host.lawful_asciiNames returned).2.1.2.1⟩

end Request

end Mux.Http
