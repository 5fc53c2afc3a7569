import Mux.Programs.Dynamic

/-!
# The parameters of a URL template

The groups of a match are numbered over the whole template, and the names come from
a second scan that looks at the first character of each segment. The two agree on
templates in which each placeholder fills a segment of its own.
-/

namespace Mux.Dynamic

open Regex

namespace Piece

/-- What a template may have between its slashes. -/
def Allowed : Piece → Prop
  | literal c => c.isAlphanum = true ∨ c = '-' ∨ c = '_'
  | placeholder name => name ≠ [] ∧ '/' ∉ name ∧ '{' ∉ name ∧ '}' ∉ name

def name? : Piece → Option Str
  | literal _ => none
  | placeholder name => some name

/-- The text of a piece with the values of parameters filled in. -/
def filled (params : Params) : Piece → Str
  | literal c => [c]
  | placeholder name => (params.find? name).getD []

end Piece

/-- The names of the placeholders, in the order of the template. -/
def names (pieces : List Piece) : List Str := pieces.filterMap Piece.name?

/-- The pieces of a template whose segments mix literal characters and placeholders. -/
def joined (segments : List (List Piece)) : List Piece := [.literal '/'].intercalate segments

/-- The placeholders have names of their own. Nothing is asked of what stands between two of
them. -/
structure Mixed (segments : List (List Piece)) : Prop where
  allowed : ∀ seg ∈ segments, ∀ p ∈ seg, p.Allowed
  distinct : (names segments.flatten).Nodup

/-- The groups of the match of a url, when there is one. -/
def captures (templateUrl url : Str) : Except ErrorType (Option (Nat → Option Str)) := do
  let re ← compile re
  let compiled ← compile (regex_replace templateUrl re capturing)
  .ok (regex_match compiled url)

/-- The parameters are those of a match with certain groups: each placeholder has the text
that its own group matched, the url is the template with these texts filled in, and the
other parameters are as before. -/
structure Binds (pieces : List Piece) (url : Str) (groups : Nat → Option Str)
    (params params' : Params) : Prop where
  named : ∀ i name, (names pieces)[i]? = some name →
    ∃ text, groups (i + 1) = some text ∧ params'.find? name = some text
  filled : pieces.flatMap (·.filled params') = url
  others : ∀ key, key ∉ names pieces → params'.find? key = params.find? key

/-- Whatever the parameters were, a match binds the placeholders, and nothing is changed
when there is no match. -/
def Bound (pieces : List Piece) (url : Str) : Prop :=
  ∀ params, ∃ accepted params',
    «match» (pieces.flatMap Piece.text) url params = .ok (accepted, params') ∧
    (accepted = true → ∃ groups, captures (pieces.flatMap Piece.text) url = .ok (some groups) ∧
      Binds pieces url groups params params') ∧
    (accepted = false → params' = params)

/-- Each placeholder fills its segment. -/
def Whole (segments : List (List Piece)) : Prop :=
  ∀ seg ∈ segments, ∀ name, .placeholder name ∈ seg → seg = [.placeholder name]

/-! ## The groups of a match -/

/-- The template with texts for its placeholders, from left to right. -/
def fill : List Piece → List Str → Str
  | [], _ => []
  | .literal c :: pieces, texts => c :: fill pieces texts
  | .placeholder _ :: pieces, texts => texts.headD [] ++ fill pieces texts.tail

/-- The groups of a reading are texts that make the template what was read. -/
theorem Reads.texts {pieces : List Piece} {groups : Nat} {s later : Cursor}
    (h : Reads pieces groups s later) (rest : later.rest = []) :
    ∃ texts : List Str, texts.length = (names pieces).length ∧ fill pieces texts = s.rest ∧
      (∀ i < texts.length, later.groups (groups + 1 + i) = texts[i]?) ∧
      ∀ j ≤ groups, later.groups j = s.groups j := by
  induction pieces generalizing groups s with
  | nil =>
      obtain rfl : later = s := h
      exact ⟨[], rfl, rest.symm, nofun, fun _ _ => rfl⟩
  | cons piece pieces ih =>
      cases piece with
      | literal c =>
          obtain ⟨behind, hrest, hread⟩ := h
          obtain ⟨texts, count, filled, own, before⟩ := ih hread
          exact ⟨texts, count, by rw [fill, filled, hrest, Cursor.past_rest], own, before⟩
      | placeholder name =>
          obtain ⟨text, behind, -, -, hsplit, hread⟩ := h
          obtain ⟨texts, count, filled, own, before⟩ := ih hread
          refine ⟨text :: texts, ?_, ?_, ?_, ?_⟩
          · simp [names, Piece.name?, count]
          · rw [fill, List.headD_cons, List.tail_cons, filled, hsplit]
            rfl
          · intro i hi
            cases i with
            | zero =>
                rw [before (groups + 1 + 0) (by omega)]
                simp [Cursor.capture]
            | succ i =>
                have next := own i (by simpa using hi)
                rw [List.getElem?_cons_succ, ← next]
                congr 1
                omega
          · intro j hj
            rw [before j (by omega)]
            simp only [Cursor.capture, Cursor.past_groups]
            exact Function.update_of_ne (by omega) _ _

/-! ## The scan for the names -/

/-- An empty segment at the end is not scanned, and would not bind anything. -/
theorem bindParams_getlinesAt (groups : Nat → Option Str) {segments : List Str}
    (clean : ∀ segment ∈ segments, '/' ∉ segment) (i : Nat) (params : Params) :
    bindParams groups i (Text.getlinesAt '/' (['/'].intercalate segments)) params =
      bindParams groups i segments params := by
  induction segments generalizing i params with
  | nil => rfl
  | cons segment segments ih =>
      obtain ⟨this, others⟩ := List.forall_mem_cons.mp clean
      cases segments with
      | nil =>
          rw [List.intercalate_singleton, Text.getlinesAt_last this]
          split
          · next empty => rw [empty]; rfl
          · rfl
      | cons next segments =>
          rw [List.intercalate_cons_cons, List.append_assoc, List.singleton_append,
            Text.getlinesAt_append_delim this, bindParams, bindParams, ih others, ih others]

/-- The keys of the parameters behind the scan. -/
theorem bindParams_isSome (groups : Nat → Option Str) (segments : List Str) (i : Nat)
    (params : Params) (key : Str) :
    ((bindParams groups i segments params).find? key).isSome ↔
      (params.find? key).isSome ∨
        ∃ segment ∈ segments, segment.head? = some '{' ∧ paramName segment = key := by
  induction segments generalizing i params with
  | nil => simp [bindParams]
  | cons segment segments ih =>
      rw [bindParams]
      split
      · next opening =>
          rw [ih]
          by_cases same : paramName segment = key
          · subst same
            simp [opening]
          · rw [UnorderedMap.find?_insert_ne _ _ (Ne.symm same)]
            simp [same]
      · next plain => simp [ih, plain]

theorem paramName_placeholder (name : Str) : paramName (Piece.placeholder name).text = name := by
  simp [paramName, Piece.text]

/-- More text behind a placeholder gets a closing brace into the name. -/
theorem mem_paramName (name : Str) {more : Str} (nonempty : more ≠ []) :
    '}' ∈ paramName ((Piece.placeholder name).text ++ more) := by
  have length := List.length_pos_of_ne_nil nonempty
  have split : paramName ((Piece.placeholder name).text ++ more) =
      name ++ '}' :: more.take (more.length - 1) := by
    have front : (Piece.placeholder name).text ++ more = '{' :: (name ++ '}' :: more) := by
      simp [Piece.text]
    have count : ('{' :: (name ++ '}' :: more)).length - 2 =
        name.length + ((more.length - 1) + 1) := by
      simp only [List.length_cons, List.length_append]
      omega
    rw [paramName, front, count, List.drop_one, List.tail_cons, List.take_length_add_append,
      List.take_succ_cons]
  rw [split]
  exact List.mem_append_right name List.mem_cons_self

/-! ## The pieces of the segments -/

theorem joined_cons_cons (seg next : List Piece) (segments : List (List Piece)) :
    joined (seg :: next :: segments) = seg ++ .literal '/' :: joined (next :: segments) := by
  simp [joined, List.intercalate_cons_cons]

theorem flatMap_text_joined (segments : List (List Piece)) :
    (joined segments).flatMap Piece.text =
      ['/'].intercalate (segments.map (·.flatMap Piece.text)) := by
  induction segments with
  | nil => rfl
  | cons seg segments ih =>
      cases segments with
      | nil => simp [joined]
      | cons next segments =>
          rw [joined_cons_cons, List.flatMap_append, List.flatMap_cons, ih, List.map_cons,
            List.map_cons, List.map_cons, List.intercalate_cons_cons]
          simp [Piece.text]

theorem names_joined (segments : List (List Piece)) :
    names (joined segments) = names segments.flatten := by
  induction segments with
  | nil => rfl
  | cons seg segments ih =>
      cases segments with
      | nil => simp [joined]
      | cons next segments =>
          rw [joined_cons_cons, names, List.filterMap_append, List.flatten_cons, names,
            List.filterMap_append]
          exact congrArg _ ih

theorem mem_joined {segments : List (List Piece)} {p : Piece} (h : p ∈ joined segments) :
    p = .literal '/' ∨ ∃ seg ∈ segments, p ∈ seg := by
  induction segments with
  | nil => cases h
  | cons seg segments ih =>
      cases segments with
      | nil => exact .inr ⟨seg, List.mem_singleton_self seg, by simpa [joined] using h⟩
      | cons next segments =>
          rw [joined_cons_cons, List.mem_append, List.mem_cons] at h
          obtain here | rfl | later := h
          · exact .inr ⟨seg, List.mem_cons_self, here⟩
          · exact .inl rfl
          · obtain slash | ⟨other, member, inside⟩ := ih later
            · exact .inl slash
            · exact .inr ⟨other, List.mem_cons_of_mem _ member, inside⟩

theorem mem_names {pieces : List Piece} {name : Str} :
    name ∈ names pieces ↔ .placeholder name ∈ pieces := by
  rw [names, List.mem_filterMap]
  constructor
  · rintro ⟨p, member, same⟩
    cases p with
    | literal c => cases same
    | placeholder other =>
        obtain rfl := Option.some.inj same
        exact member
  · exact fun member => ⟨_, member, rfl⟩

namespace Piece

variable {p : Piece}

theorem Allowed.recognizable (h : p.Allowed) : p.Recognizable := by
  cases p with
  | literal c =>
      rintro rfl
      revert h
      simp only [Allowed]
      decide
  | placeholder name => exact ⟨h.1, h.2.2.2⟩

theorem Allowed.plain (h : p.Allowed) : p.Plain := by
  cases p with
  | literal c =>
      by_contra meaning
      have member : special c = true := by simpa [Plain] using meaning
      simp only [special, List.mem_cons, List.not_mem_nil, or_false, decide_eq_true_eq] at member
      revert h
      simp only [Allowed]
      rcases member with rfl | rfl | rfl | rfl | rfl | rfl | rfl | rfl | rfl | rfl | rfl | rfl |
        rfl | rfl <;> decide
  | placeholder name => trivial

theorem Allowed.no_slash (h : p.Allowed) : '/' ∉ p.text := by
  cases p with
  | literal c =>
      intro member
      obtain rfl := List.mem_singleton.mp member
      revert h
      simp only [Allowed]
      decide
  | placeholder name => simp [text, h.2.1]

theorem text_ne_nil (p : Piece) : p.text ≠ [] := by
  cases p <;> simp [text]

end Piece

/-- Only a segment that begins with a placeholder is scanned for a name. -/
theorem opens_iff {seg : List Piece} (allowed : ∀ p ∈ seg, p.Allowed) :
    (seg.flatMap Piece.text).head? = some '{' ↔
      ∃ name more, seg = .placeholder name :: more := by
  cases seg with
  | nil => simp
  | cons first more =>
      cases first with
      | literal c =>
          have plain := (allowed _ List.mem_cons_self).recognizable
          simpa [Piece.text, Piece.Recognizable] using plain
      | placeholder name => simp [Piece.text]

/-! ## Whole segments -/

section

variable {segments : List (List Piece)}

theorem names_cons (seg : List Piece) (segments : List (List Piece)) :
    names (seg :: segments).flatten = names seg ++ names segments.flatten := by
  rw [List.flatten_cons, names, List.filterMap_append]
  rfl

theorem Mixed.tail {seg : List Piece} (h : Mixed (seg :: segments)) :
    Mixed segments ∧ ∀ name ∈ names seg, name ∉ names segments.flatten := by
  have distinct := h.distinct
  rw [names_cons] at distinct
  obtain ⟨-, others, disjoint⟩ := List.nodup_append.mp distinct
  exact ⟨⟨(List.forall_mem_cons.mp h.allowed).2, others⟩,
    fun name here later => disjoint name here name later rfl⟩

/-- A segment is a whole placeholder, or it has no name and is not scanned. -/
theorem whole_cases {seg : List Piece} (allowed : ∀ p ∈ seg, p.Allowed)
    (single : ∀ name, .placeholder name ∈ seg → seg = [.placeholder name]) :
    (∃ name, seg = [.placeholder name]) ∨
      names seg = [] ∧ (seg.flatMap Piece.text).head? ≠ some '{' := by
  by_cases placeholder : ∃ name, .placeholder name ∈ seg
  · obtain ⟨name, member⟩ := placeholder
    exact .inl ⟨name, single name member⟩
  · refine .inr ⟨List.eq_nil_iff_forall_not_mem.mpr fun name member => ?_, fun opening => ?_⟩
    · exact placeholder ⟨name, mem_names.mp member⟩
    · obtain ⟨name, more, rfl⟩ := (opens_iff allowed).mp opening
      exact placeholder ⟨name, List.mem_cons_self⟩

theorem bindParams_placeholder (groups : Nat → Option Str) (i : Nat) (name : Str)
    (rest : List Str) (params : Params) :
    bindParams groups i ([Piece.placeholder name].flatMap Piece.text :: rest) params =
      bindParams groups (i + 1) rest (params.insert name ((groups i).getD [])) := by
  rw [List.flatMap_singleton, bindParams, paramName_placeholder]
  exact if_pos rfl

/-- Each placeholder is bound to the group that has its place in the template. -/
theorem bindParams_whole (groups : Nat → Option Str) (mixed : Mixed segments)
    (whole : Whole segments) (i : Nat) (params : Params) :
    (∀ k name, (names segments.flatten)[k]? = some name →
      (bindParams groups i (segments.map (·.flatMap Piece.text)) params).find? name =
        some ((groups (i + k)).getD [])) ∧
    ∀ key, key ∉ names segments.flatten →
      (bindParams groups i (segments.map (·.flatMap Piece.text)) params).find? key =
        params.find? key := by
  induction segments generalizing i params with
  | nil => exact ⟨nofun, fun _ _ => rfl⟩
  | cons seg segments ih =>
      obtain ⟨rest, apart⟩ := mixed.tail
      obtain ⟨single, others⟩ := List.forall_mem_cons.mp whole
      have tail (i : Nat) (params : Params) := ih rest others i params
      rw [names_cons, List.map_cons]
      obtain ⟨name, rfl⟩ | ⟨none, plain⟩ :=
        whole_cases (List.forall_mem_cons.mp mixed.allowed).1 single
      · obtain ⟨bound, kept⟩ := tail (i + 1) (params.insert name ((groups i).getD []))
        have fresh : name ∉ names segments.flatten := apart name (List.mem_singleton_self name)
        rw [bindParams_placeholder]
        constructor
        · intro k key found
          cases k with
          | zero =>
              obtain rfl : name = key := Option.some.inj found
              rw [kept name fresh, UnorderedMap.find?_insert]
              rfl
          | succ k =>
              rw [bound k key found]
              congr 3
              omega
        · intro key other
          have different : key ≠ name := fun same => other (by simp [same, names, Piece.name?])
          rw [kept key fun member => other (List.mem_append_right _ member),
            UnorderedMap.find?_insert_ne _ _ different]
      · rw [none, bindParams, if_neg plain]
        exact tail i params

/-- The template with the right texts is the template with the parameters filled in. -/
theorem fill_eq {pieces : List Piece} {texts : List Str} {params : Params}
    (same : ∀ (i : Nat) (name : Str), (names pieces)[i]? = some name →
      texts[i]? = some ((params.find? name).getD [])) :
    fill pieces texts = pieces.flatMap (·.filled params) := by
  induction pieces generalizing texts with
  | nil => rfl
  | cons piece pieces ih =>
      cases piece with
      | literal c =>
          rw [fill, ih same]
          rfl
      | placeholder name =>
          cases texts with
          | nil => cases same 0 name rfl
          | cons text texts =>
              have first : text = (params.find? name).getD [] := Option.some.inj (same 0 name rfl)
              rw [fill, List.headD_cons, List.tail_cons,
                ih fun i other found => same (i + 1) other found, first]
              rfl

theorem texts_clean (mixed : Mixed segments) :
    ∀ segment ∈ segments.map (·.flatMap Piece.text), '/' ∉ segment := by
  intro segment member slash
  obtain ⟨seg, inside, rfl⟩ := List.mem_map.mp member
  obtain ⟨p, piece, mark⟩ := List.mem_flatMap.mp slash
  exact (mixed.allowed seg inside p piece).no_slash mark

theorem recognizable_joined (mixed : Mixed segments) : ∀ p ∈ joined segments, p.Recognizable := by
  intro p member
  obtain rfl | ⟨seg, inside, piece⟩ := mem_joined member
  · show '/' ≠ '{'
    decide
  · exact (mixed.allowed seg inside p piece).recognizable

theorem plain_joined (mixed : Mixed segments) : ∀ p ∈ joined segments, p.Plain := by
  intro p member
  obtain rfl | ⟨seg, inside, piece⟩ := mem_joined member
  · exact rfl
  · exact (mixed.allowed seg inside p piece).plain

theorem captures_joined (mixed : Mixed segments) (url : Str) :
    captures ((joined segments).flatMap Piece.text) url =
      .ok (regex_match (expression .empty 0 (joined segments)) url) := by
  simp only [captures, compile_re, bind, Except.bind,
    regex_replace_pieces (recognizable_joined mixed), compile_pieces (plain_joined mixed)]

/-- What a call makes of the parameters when the url is matched. -/
theorem match_joined (mixed : Mixed segments) (url : Str) (params : Params) :
    «match» ((joined segments).flatMap Piece.text) url params =
      match regex_match (expression .empty 0 (joined segments)) url with
      | some groups =>
          .ok (true, bindParams groups 1 (segments.map (·.flatMap Piece.text)) params)
      | none => .ok (false, params) := by
  rw [match_expression (recognizable_joined mixed) (plain_joined mixed), flatMap_text_joined]
  cases regex_match (expression .empty 0 (joined segments)) url with
  | none => rfl
  | some groups => simp only [bindParams_getlinesAt groups (texts_clean mixed)]

theorem bound_of_not_fits (mixed : Mixed segments) {url : Str}
    (differs : ¬ Fits (joined segments) url) : Bound (joined segments) url := by
  intro params
  have refused : regex_match (expression .empty 0 (joined segments)) url = none := by
    rw [← Option.not_isSome_iff_eq_none, regex_match_fits]
    exact differs
  refine ⟨false, params, ?_, nofun, fun _ => rfl⟩
  rw [match_joined mixed, refused]

theorem bound_of_whole (mixed : Mixed segments) (whole : Whole segments) (url : Str) :
    Bound (joined segments) url := by
  intro params
  cases found : regex_match (expression .empty 0 (joined segments)) url with
  | none =>
      refine ⟨false, params, ?_, nofun, fun _ => rfl⟩
      rw [match_joined mixed, found]
  | some groups =>
      obtain ⟨later, outcome, rest, rfl⟩ := exists_of_regex_match found
      obtain ⟨middle, first, reads⟩ := mem_outcomes_expression.mp outcome
      obtain rfl := List.mem_singleton.mp first
      obtain ⟨texts, count, filled, own, -⟩ := reads.texts rest
      obtain ⟨bound, kept⟩ := bindParams_whole later.groups mixed whole 1 params
      rw [← names_joined] at bound kept
      have stored : ∀ i name, (names (joined segments))[i]? = some name → ∃ text,
          texts[i]? = some text ∧ later.groups (i + 1) = some text ∧
          (bindParams later.groups 1 (segments.map (·.flatMap Piece.text)) params).find? name =
            some text := by
        intro i name member
        have inside : i < texts.length := by
          rw [count]
          exact (List.getElem?_eq_some_iff.mp member).1
        have group := own i inside
        rw [List.getElem?_eq_getElem inside, show 0 + 1 + i = i + 1 by omega] at group
        refine ⟨texts[i], List.getElem?_eq_getElem inside, group, ?_⟩
        rw [bound i name member, show 1 + i = i + 1 by omega, group]
        rfl
      refine ⟨true, _, by rw [match_joined mixed, found], fun _ => ?_, nofun⟩
      refine ⟨later.groups, by rw [captures_joined mixed, found], ?_, ?_, kept⟩
      · intro i name member
        obtain ⟨text, -, group, value⟩ := stored i name member
        exact ⟨text, group, value⟩
      · rw [← fill_eq, filled]
        intro i name member
        obtain ⟨text, here, -, value⟩ := stored i name member
        rw [here, value]
        rfl

/-! ## Other segments -/

/-- A name is the name of one segment only. -/
theorem Mixed.eq_of_mem (mixed : Mixed segments) {seg other : List Piece} (hseg : seg ∈ segments)
    (hother : other ∈ segments) {name : Str} (inside : .placeholder name ∈ seg)
    (inside' : .placeholder name ∈ other) : seg = other := by
  by_contra apart
  have each : names segments.flatten = segments.flatMap names := by
    rw [names, List.filterMap_flatten, List.flatMap_def]
    rfl
  have distinct := mixed.distinct
  rw [each, List.nodup_flatMap] at distinct
  have symmetric : Std.Symm (Function.onFun List.Disjoint names) :=
    ⟨fun _ _ disjoint => List.Disjoint.symm disjoint⟩
  exact distinct.2.forall hseg hother apart (mem_names.mpr inside) (mem_names.mpr inside')

/-- When there were no parameters, the placeholders are the names that were scanned. -/
theorem Binds.mem_names_iff (mixed : Mixed segments) {url : Str} {own groups : Nat → Option Str}
    (binds : Binds (joined segments) url own .empty
      (bindParams groups 1 (segments.map (·.flatMap Piece.text)) .empty)) (key : Str) :
    key ∈ names (joined segments) ↔ ∃ seg ∈ segments,
      (∃ name more, seg = .placeholder name :: more) ∧
        paramName (seg.flatMap Piece.text) = key := by
  have stored : key ∈ names (joined segments) ↔
      ((bindParams groups 1 (segments.map (·.flatMap Piece.text)) .empty).find? key).isSome := by
    constructor
    · intro member
      obtain ⟨i, inside⟩ := List.mem_iff_getElem?.mp member
      obtain ⟨text, -, value⟩ := binds.named i key inside
      rw [value]
      rfl
    · intro value
      by_contra other
      rw [binds.others key other, UnorderedMap.find?_empty] at value
      cases value
  rw [stored, bindParams_isSome, UnorderedMap.find?_empty]
  simp only [Option.isSome_none, Bool.false_eq_true, false_or, List.mem_map,
    exists_exists_and_eq_and]
  refine exists_congr fun seg => and_congr_right fun member => ?_
  rw [opens_iff (mixed.allowed seg member)]

/-- The name that is scanned in a longer segment is the name of no placeholder. -/
theorem paramName_not_mem (mixed : Mixed segments) (name : Str) {more : List Piece}
    (longer : more ≠ []) :
    paramName ((Piece.placeholder name :: more).flatMap Piece.text) ∉ names (joined segments) := by
  intro key
  have text : more.flatMap Piece.text ≠ [] := by
    obtain ⟨first, more, rfl⟩ := List.exists_cons_of_ne_nil longer
    rw [List.flatMap_cons]
    exact List.append_ne_nil_of_left_ne_nil first.text_ne_nil _
  rw [names_joined, mem_names] at key
  obtain ⟨seg, inside, piece⟩ := List.mem_flatten.mp key
  have clean := (mixed.allowed seg inside _ piece).2.2.2
  rw [List.flatMap_cons] at clean
  exact clean (mem_paramName name text)

/-- A segment that begins with a placeholder and goes on is scanned for a name that is none;
when there is no such segment, a placeholder behind literal characters is not scanned. -/
theorem not_bound_of_fits (mixed : Mixed segments) {url : Str} (fits : Fits (joined segments) url)
    (mixes : ¬ Whole segments) : ¬ Bound (joined segments) url := by
  intro bound
  obtain ⟨groups, found⟩ := Option.isSome_iff_exists.mp ((regex_match_fits _ url).mpr fits)
  obtain ⟨accepted, params', called, binds, -⟩ := bound .empty
  rw [match_joined mixed, found] at called
  obtain ⟨rfl, rfl⟩ := Prod.mk.inj (Except.ok.inj called)
  obtain ⟨own, -, binds⟩ := binds rfl
  have alone : ∀ name more, .placeholder name :: more ∈ segments → more = [] := by
    intro name more member
    by_contra longer
    exact paramName_not_mem mixed name longer
      ((binds.mem_names_iff mixed _).mpr ⟨_, member, ⟨name, more, rfl⟩, rfl⟩)
  apply mixes
  intro seg member name inside
  have named : name ∈ names (joined segments) := by
    rw [names_joined]
    exact mem_names.mpr (List.mem_flatten_of_mem member inside)
  obtain ⟨other, member', ⟨name', more, rfl⟩, same⟩ := (binds.mem_names_iff mixed name).mp named
  obtain rfl := alone name' more member'
  rw [List.flatMap_singleton, paramName_placeholder] at same
  subst same
  exact mixed.eq_of_mem member member' inside List.mem_cons_self

/-- The parameters are bound right exactly when nothing is matched or each placeholder fills
its segment. -/
theorem bound_iff_whole (mixed : Mixed segments) (url : Str) :
    Bound (joined segments) url ↔ ¬ Fits (joined segments) url ∨ Whole segments := by
  constructor
  · intro bound
    by_cases fits : Fits (joined segments) url
    · by_cases whole : Whole segments
      · exact .inr whole
      · exact absurd bound (not_bound_of_fits mixed fits whole)
    · exact .inl fits
  · rintro (differs | whole)
    · exact bound_of_not_fits mixed differs
    · exact bound_of_whole mixed whole url

end

/-- The template of one user: two segments behind the first slash. -/
def user : List (List Piece) := [[], "users".toList.map .literal, [.placeholder "id".toList]]

theorem user_bound : Bound (joined user) "/users/7".toList := by
  refine (bound_iff_whole ⟨?_, by decide⟩ _).mpr (.inr ?_)
  · simp [user, Piece.Allowed]
  · simp [user, Whole]

/-- A placeholder behind literal characters. -/
def tagged : List (List Piece) := ["user-".toList.map .literal ++ [.placeholder "id".toList]]

theorem tagged_not_bound : ¬ Bound (joined tagged) "user-7".toList := by
  refine not_bound_of_fits ⟨?_, by decide⟩ ?_ ?_
  · simp [tagged, Piece.Allowed]
  · simp [tagged, joined, Fits]
  · simp [tagged, Whole]

end Mux.Dynamic
