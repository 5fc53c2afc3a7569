import Mux.Library.RegexSyntax
import Mux.Library.UnorderedMap

/-!
# The URL template program

`match` turns a template into a regular expression by a textual replacement of
its placeholders, matches the whole url with it, and stores the captures under
the names that a second scan over the template finds. What stands between the
placeholders gets into the expression as it is.
-/

namespace Mux.Dynamic

open Regex

abbrev Params := UnorderedMap Str Str

/-- The pattern of a placeholder. -/
def re : Str := "\\\x7b([^\x7d]+)\\\x7d".toList

/-- What a placeholder is replaced by. -/
def capturing : Str := "([^/]+)".toList

/-- `segment.substr(1, segment.size() - 2)`; the length that wraps around for a segment of one
character is more than is left. -/
def paramName (segment : Str) : Str := (segment.drop 1).take (segment.length - 2)

/-- The loop over the segments of the template. A group that took no part in the match is an
empty text. -/
def bindParams (groups : Nat → Option Str) : Nat → List Str → Params → Params
  | _, [], params => params
  | i, segment :: segments, params =>
      if segment.head? = some '{' then
        bindParams groups (i + 1) segments
          (params.insert (paramName segment) ((groups i).getD []))
      else bindParams groups i segments params

/-- The answer and the parameters, or the error of an expression. -/
def «match» (templateUrl url : Str) (params : Params) : Except ErrorType (Bool × Params) := do
  let re ← compile re
  let pattern := regex_replace templateUrl re capturing
  let compiled ← compile pattern
  match regex_match compiled url with
  | some groups => .ok (true, bindParams groups 1 (Text.getlinesAt '/' templateUrl) params)
  | none => .ok (false, params)

/-! ## Pieces of a template -/

/-- A template is made of literal characters and placeholders. -/
inductive Piece where
  | literal (c : Char)
  | placeholder (name : Str)

/-- One or more characters other than a given one, as a group. -/
def excluding (c : Char) (index : Nat) : Node :=
  .group index (.seq .empty (.repeated (.set true [.single c]) 1 none true))

namespace Piece

def text : Piece → Str
  | literal c => [c]
  | placeholder name => '{' :: (name ++ ['}'])

/-- The part of the pattern that comes from a piece. -/
def pattern : Piece → Str
  | literal c => [c]
  | placeholder _ => capturing

/-- The replacement finds the placeholders and nothing else. -/
def Recognizable : Piece → Prop
  | literal c => c ≠ '{'
  | placeholder name => name ≠ [] ∧ '}' ∉ name

def tokens : Piece → List Token
  | literal c => [.atom (.char c)]
  | placeholder _ =>
      [.opening .capture, .atom (.set true [.single '/']), .quantifier 1 none true, .closing]

/-- The groups up to a piece, when there were some before it. -/
def count (groups : Nat) : Piece → Nat
  | literal _ => groups
  | placeholder _ => groups + 1

def node (groups : Nat) : Piece → Node
  | literal c => .char c
  | placeholder _ => excluding '/' (groups + 1)

end Piece

theorem mem_outcomes_excluding {c : Char} {index : Nat} {s later : Cursor} :
    later ∈ (excluding c index).outcomes s ↔
      ∃ text rest, text ≠ [] ∧ c ∉ text ∧ s.rest = text ++ rest ∧
        later = (s.past text rest).capture index text := by
  have inner : ∀ d, (true != [SetItem.single c].any (·.holds d)) = true ↔ d ≠ c := by
    intro d
    simp [SetItem.holds]
  rw [excluding, Node.mem_outcomes_group]
  constructor
  · rintro ⟨middle, hmiddle, rfl⟩
    rw [Node.outcomes_empty_seq] at hmiddle
    obtain ⟨text, rest, nonempty, hsplit, htext, rfl⟩ := Node.mem_outcomes_set_plus.mp hmiddle
    refine ⟨text, rest, nonempty, ?_, hsplit, by rw [Cursor.upTo_past hsplit]⟩
    intro h
    exact (inner c).mp (htext c h) rfl
  · rintro ⟨text, rest, nonempty, htext, hsplit, rfl⟩
    refine ⟨s.past text rest, ?_, by rw [Cursor.upTo_past hsplit]⟩
    rw [Node.outcomes_empty_seq]
    refine Node.mem_outcomes_set_plus.mpr ⟨text, rest, nonempty, hsplit, ?_, rfl⟩
    intro d hd
    exact (inner d).mpr fun h => htext (h ▸ hd)

/-! ## The replacement -/

/-- What the constructor makes of the pattern of a placeholder. -/
def reNode : Node := .seq (.seq (.seq .empty (.char '{')) (excluding '}' 1)) (.char '}')

theorem compile_re : compile re = .ok reNode := by decide

/-- A match of the placeholder pattern: a brace, a name, and the first closing brace. -/
theorem mem_outcomes_re {s later : Cursor} (h : later ∈ reNode.outcomes s) :
    ∃ name, name ≠ [] ∧ '}' ∉ name ∧ s.rest = '{' :: (name ++ '}' :: later.rest) := by
  obtain ⟨third, hthird, hlater⟩ := Node.mem_outcomes_seq.mp h
  obtain ⟨second, hsecond, hthird⟩ := Node.mem_outcomes_seq.mp hthird
  rw [Node.outcomes_empty_seq] at hsecond
  obtain ⟨behind, hopen, rfl⟩ := Node.mem_outcomes_char.mp hsecond
  obtain ⟨name, closing, nonempty, clean, hname, rfl⟩ := mem_outcomes_excluding.mp hthird
  obtain ⟨rest, hclose, rfl⟩ := Node.mem_outcomes_char.mp hlater
  rw [Cursor.past_rest] at hname ⊢
  rw [Cursor.capture_rest, Cursor.past_rest] at hclose
  exact ⟨name, nonempty, clean, by rw [hopen, hname, hclose]⟩

theorem outcomes_re_ne_nil {s : Cursor} {name rest : Str} (nonempty : name ≠ [])
    (clean : '}' ∉ name) (h : s.rest = '{' :: (name ++ '}' :: rest)) : reNode.outcomes s ≠ [] := by
  let opened := s.past ['{'] (name ++ '}' :: rest)
  have hopened : opened ∈ (Node.seq .empty (.char '{')).outcomes s := by
    rw [Node.outcomes_empty_seq]
    exact Node.mem_outcomes_char.mpr ⟨name ++ '}' :: rest, h, rfl⟩
  let named := (opened.past name ('}' :: rest)).capture 1 name
  have hnamed : named ∈ (excluding '}' 1).outcomes opened :=
    mem_outcomes_excluding.mpr ⟨name, '}' :: rest, nonempty, clean, rfl, rfl⟩
  have hclosed : named.past ['}'] rest ∈ (Node.char '}').outcomes named :=
    Node.mem_outcomes_char.mpr ⟨rest, rfl, rfl⟩
  have hname := Node.mem_outcomes_seq.mpr ⟨opened, hopened, hnamed⟩
  exact List.ne_nil_of_mem (Node.mem_outcomes_seq.mpr ⟨named, hname, hclosed⟩)

/-- The first closing brace behind a name without one is where the name ends. -/
theorem eq_of_append_brace {name name' rest rest' : Str} (clean : '}' ∉ name) (clean' : '}' ∉ name')
    (h : name ++ '}' :: rest = name' ++ '}' :: rest') : rest = rest' := by
  have cut : ∀ {name rest : Str}, '}' ∉ name →
      Text.cut? ['}'] (name ++ '}' :: rest) = some (name, rest) := by
    intro name rest clean
    rw [Text.cut?_append clean, show '}' :: rest = ['}'] ++ rest from rfl,
      Text.cut?_delim (by decide)]
    simp
  have same : some (name, rest) = some (name', rest') := by rw [← cut clean, h, cut clean']
  exact (Prod.mk.inj (Option.some.inj same)).2

/-- Without an opening brace there is no match. -/
theorem outcomes_re_eq_nil {s : Cursor} (h : s.rest.head? ≠ some '{') : reNode.outcomes s = [] := by
  refine List.eq_nil_iff_forall_not_mem.mpr fun later hlater => ?_
  obtain ⟨name, -, -, hsplit⟩ := mem_outcomes_re hlater
  exact h (by rw [hsplit]; rfl)

theorem replaceFrom_pieces {pieces : List Piece} (recognizable : ∀ p ∈ pieces, p.Recognizable)
    {fuel : Nat} {s : Cursor} (h : s.rest = pieces.flatMap Piece.text)
    (hfuel : s.rest.length < fuel) :
    replaceFrom reNode capturing fuel false s = pieces.flatMap Piece.pattern := by
  induction pieces generalizing fuel s with
  | nil =>
      obtain ⟨fuel, rfl⟩ : ∃ n, fuel = n + 1 := ⟨fuel - 1, by omega⟩
      have hrest : s.rest = [] := h
      exact replaceFrom_end (outcomes_re_eq_nil (by simp [hrest])) hrest
  | cons piece pieces ih =>
      obtain ⟨fuel, rfl⟩ : ∃ n, fuel = n + 1 := ⟨fuel - 1, by omega⟩
      obtain ⟨this, others⟩ := List.forall_mem_cons.mp recognizable
      rw [List.flatMap_cons] at h ⊢
      cases piece with
      | literal c =>
          have hrest : s.rest = c :: pieces.flatMap Piece.text := h
          have apart : s.rest.head? ≠ some '{' := by
            intro brace
            rw [hrest] at brace
            exact this (Option.some.inj brace)
          rw [replaceFrom_keep (outcomes_re_eq_nil apart) hrest, ih others rfl]
          · rfl
          · rw [hrest, List.length_cons] at hfuel
            exact Nat.lt_of_succ_lt_succ hfuel
      | placeholder name =>
          obtain ⟨nonempty, clean⟩ := this
          have hrest : s.rest = '{' :: (name ++ '}' :: pieces.flatMap Piece.text) := by
            simpa [Piece.text] using h
          obtain ⟨later, fallbacks, houtcomes⟩ :=
            List.exists_cons_of_ne_nil (outcomes_re_ne_nil nonempty clean hrest)
          have hlater : later ∈ reNode.outcomes s := houtcomes ▸ List.mem_cons_self
          obtain ⟨name', -, clean', hsplit⟩ := mem_outcomes_re hlater
          have rest : later.rest = pieces.flatMap Piece.text :=
            eq_of_append_brace clean' clean (List.cons.inj (hsplit.symm.trans hrest)).2
          have length : s.rest.length = name.length + 2 + later.rest.length := by
            rw [hrest, rest]
            simp
            omega
          have behind := ih others (s := { before := later.before, rest := later.rest }) rest
            (show later.rest.length < fuel by omega)
          rw [replaceFrom_match houtcomes (by omega), behind]
          rfl

/-- The replacement turns each placeholder into a group and leaves the rest as it is. -/
theorem regex_replace_pieces {pieces : List Piece} (recognizable : ∀ p ∈ pieces, p.Recognizable) :
    regex_replace (pieces.flatMap Piece.text) reNode capturing =
      pieces.flatMap Piece.pattern := by
  refine replaceFrom_pieces recognizable rfl ?_
  change (pieces.flatMap Piece.text).length < _
  omega

/-! ## The expression of a template -/

/-- No literal of the template has a meaning of its own in an expression. -/
def Piece.Plain : Piece → Prop
  | .literal c => special c = false
  | .placeholder _ => True

theorem tokens_capturing (rest : Str) :
    Regex.tokens 0 (capturing ++ rest) =
      (Regex.tokens 0 rest).map ((Piece.placeholder []).tokens ++ ·) := by
  have opened : Regex.tokens 0 (capturing ++ rest) =
      (Regex.tokens 0 ("[^/]+)".toList ++ rest)).map (.opening .capture :: ·) :=
    tokens_cons [] rfl rfl
  have set : Regex.tokens 0 ("[^/]+)".toList ++ rest) =
      (Regex.tokens 0 ("+)".toList ++ rest)).map (.atom (.set true [.single '/']) :: ·) :=
    tokens_cons "^/]".toList (token_excluding (by decide) ("+)".toList ++ rest)) rfl
  have quantified : Regex.tokens 0 ("+)".toList ++ rest) =
      (Regex.tokens 0 (")".toList ++ rest)).map (.quantifier 1 none true :: ·) :=
    tokens_cons [] rfl rfl
  have closed : Regex.tokens 0 (")".toList ++ rest) =
      (Regex.tokens 0 rest).map (.closing :: ·) := tokens_cons [] rfl rfl
  rw [opened, set, quantified, closed]
  cases Regex.tokens 0 rest <;> rfl

theorem tokens_pieces {pieces : List Piece} (plain : ∀ p ∈ pieces, p.Plain) :
    Regex.tokens 0 (pieces.flatMap Piece.pattern) = .ok (pieces.flatMap Piece.tokens) := by
  induction pieces with
  | nil => rfl
  | cons piece pieces ih =>
      obtain ⟨this, others⟩ := List.forall_mem_cons.mp plain
      rw [List.flatMap_cons, List.flatMap_cons]
      cases piece with
      | literal c =>
          rw [Piece.pattern, List.singleton_append, tokens_plain this, ih others]
          rfl
      | placeholder name =>
          rw [Piece.pattern, tokens_capturing, ih others]
          rfl

/-- The expression of some pieces behind a first one, which has a number of groups. -/
def expression : Node → Nat → List Piece → Node
  | first, _, [] => first
  | first, groups, piece :: pieces =>
      expression (.seq first (piece.node groups)) (piece.count groups) pieces

/-- The number of groups behind some pieces. -/
def countGroups : Nat → List Piece → Nat
  | groups, [] => groups
  | groups, piece :: pieces => countGroups (piece.count groups) pieces

theorem assemble_pieces {pieces : List Piece} {level : Level} {groups : Nat}
    (h : level.alternatives = none) :
    assemble [] level groups (pieces.flatMap Piece.tokens) =
      .ok (expression level.disjunction groups pieces, countGroups groups pieces) := by
  induction pieces generalizing level groups with
  | nil => rfl
  | cons piece pieces ih =>
      have one : assemble [] level groups ((piece :: pieces).flatMap Piece.tokens) =
          assemble [] (level.atom (piece.node groups)) (piece.count groups)
            (pieces.flatMap Piece.tokens) := by
        cases piece <;> rfl
      have same : (level.atom (piece.node groups)).alternatives = none := h
      rw [one, ih same, Level.disjunction_atom h]
      rfl

theorem backrefs_expression (pieces : List Piece) (first : Node) (groups : Nat) :
    (expression first groups pieces).backrefs = first.backrefs := by
  induction pieces generalizing first groups with
  | nil => rfl
  | cons piece pieces ih =>
      rw [expression, ih]
      cases piece <;> simp [Node.backrefs, Piece.node, excluding]

/-- A template of plain literals is a valid expression. -/
theorem compile_pieces {pieces : List Piece} (plain : ∀ p ∈ pieces, p.Plain) :
    compile (pieces.flatMap Piece.pattern) = .ok (expression .empty 0 pieces) := by
  have assembled := @assemble_pieces pieces {} 0 rfl
  have valid : (expression .empty 0 pieces).backrefs = [] := backrefs_expression pieces .empty 0
  change assemble [] {} 0 _ = .ok (expression .empty 0 pieces, _) at assembled
  simp only [compile, tokens_pieces plain, bind, Except.bind, assembled, valid, List.all_nil,
    if_true]

/-! ## What the expression accepts -/

/-- How the pieces of a template can be read from a place on: a placeholder takes one or more
characters other than slashes, and its group records them. -/
def Reads : List Piece → Nat → Cursor → Cursor → Prop
  | [], _, s, later => later = s
  | .literal c :: pieces, groups, s, later =>
      ∃ rest, s.rest = c :: rest ∧ Reads pieces groups (s.past [c] rest) later
  | .placeholder _ :: pieces, groups, s, later =>
      ∃ text rest, text ≠ [] ∧ '/' ∉ text ∧ s.rest = text ++ rest ∧
        Reads pieces (groups + 1) ((s.past text rest).capture (groups + 1) text) later

theorem mem_outcomes_expression {pieces : List Piece} {first : Node} {groups : Nat}
    {s later : Cursor} :
    later ∈ (expression first groups pieces).outcomes s ↔
      ∃ middle ∈ first.outcomes s, Reads pieces groups middle later := by
  induction pieces generalizing first groups with
  | nil => simp [expression, Reads]
  | cons piece pieces ih =>
      rw [expression, ih]
      simp only [Node.mem_outcomes_seq]
      constructor
      · rintro ⟨behind, ⟨middle, hmiddle, hbehind⟩, hlater⟩
        refine ⟨middle, hmiddle, ?_⟩
        cases piece with
        | literal c =>
            obtain ⟨rest, hrest, rfl⟩ := Node.mem_outcomes_char.mp hbehind
            exact ⟨rest, hrest, hlater⟩
        | placeholder name =>
            obtain ⟨text, rest, nonempty, clean, hsplit, rfl⟩ := mem_outcomes_excluding.mp hbehind
            exact ⟨text, rest, nonempty, clean, hsplit, hlater⟩
      · rintro ⟨middle, hmiddle, hread⟩
        cases piece with
        | literal c =>
            obtain ⟨rest, hrest, hlater⟩ := hread
            exact ⟨_, ⟨middle, hmiddle, Node.mem_outcomes_char.mpr ⟨rest, hrest, rfl⟩⟩, hlater⟩
        | placeholder name =>
            obtain ⟨text, rest, nonempty, clean, hsplit, hlater⟩ := hread
            exact ⟨_, ⟨middle, hmiddle,
              mem_outcomes_excluding.mpr ⟨text, rest, nonempty, clean, hsplit, rfl⟩⟩, hlater⟩

/-- The texts that the pieces of a template stand for. -/
def Fits : List Piece → Str → Prop
  | [], url => url = []
  | .literal c :: pieces, url => ∃ rest, url = c :: rest ∧ Fits pieces rest
  | .placeholder _ :: pieces, url =>
      ∃ text rest, text ≠ [] ∧ '/' ∉ text ∧ url = text ++ rest ∧ Fits pieces rest

theorem exists_reads {pieces : List Piece} {groups : Nat} {s : Cursor} :
    (∃ later, Reads pieces groups s later ∧ later.rest = []) ↔ Fits pieces s.rest := by
  induction pieces generalizing groups s with
  | nil => simp [Reads, Fits]
  | cons piece pieces ih =>
      cases piece with
      | literal c =>
          simp only [Reads, Fits]
          constructor
          · rintro ⟨later, ⟨rest, hrest, hread⟩, hlater⟩
            exact ⟨rest, hrest, ih.mp ⟨later, hread, hlater⟩⟩
          · rintro ⟨rest, hrest, hfits⟩
            obtain ⟨later, hread, hlater⟩ := (ih (s := s.past [c] rest)).mpr hfits
            exact ⟨later, ⟨rest, hrest, hread⟩, hlater⟩
      | placeholder name =>
          simp only [Reads, Fits]
          constructor
          · rintro ⟨later, ⟨text, rest, nonempty, clean, hsplit, hread⟩, hlater⟩
            exact ⟨text, rest, nonempty, clean, hsplit, ih.mp ⟨later, hread, hlater⟩⟩
          · rintro ⟨text, rest, nonempty, clean, hsplit, hfits⟩
            obtain ⟨later, hread, hlater⟩ :=
              (ih (s := (s.past text rest).capture (groups + 1) text)).mpr hfits
            exact ⟨later, ⟨text, rest, nonempty, clean, hsplit, hread⟩, hlater⟩

theorem regex_match_fits (pieces : List Piece) (url : Str) :
    (regex_match (expression .empty 0 pieces) url).isSome ↔ Fits pieces url := by
  rw [regex_match_isSome]
  simp only [mem_outcomes_expression, Node.outcomes, List.mem_singleton, exists_eq_left]
  exact exists_reads

theorem match_expression {pieces : List Piece} (recognizable : ∀ p ∈ pieces, p.Recognizable)
    (plain : ∀ p ∈ pieces, p.Plain) (url : Str) (params : Params) :
    «match» (pieces.flatMap Piece.text) url params =
      match regex_match (expression .empty 0 pieces) url with
      | some groups => .ok (true, bindParams groups 1
          (Text.getlinesAt '/' (pieces.flatMap Piece.text)) params)
      | none => .ok (false, params) := by
  simp only [«match», compile_re, bind, Except.bind, regex_replace_pieces recognizable,
    compile_pieces plain]

/-- A template of plain literals and recognizable placeholders: the answer is whether the pieces
fit the url, and there is no exception. -/
theorem match_pieces {pieces : List Piece} (recognizable : ∀ p ∈ pieces, p.Recognizable)
    (plain : ∀ p ∈ pieces, p.Plain) (url : Str) (params : Params) :
    ∃ accepted params', «match» (pieces.flatMap Piece.text) url params = .ok (accepted, params') ∧
      (accepted = true ↔ Fits pieces url) := by
  have matched := regex_match_fits pieces url
  rw [match_expression recognizable plain]
  cases found : regex_match (expression .empty 0 pieces) url with
  | none => exact ⟨false, params, rfl, by simp [← matched, found]⟩
  | some groups => exact ⟨true, _, rfl, by simp [← matched, found]⟩

end Mux.Dynamic
