import Mathlib.Data.List.Basic
import Mathlib.Logic.Function.Basic
import Mux.Library.Text

/-!
# Regular expressions with captures

The syntax trees of ECMAScript patterns and how they match. A pattern is tried
at a `Cursor`; its outcomes are the cursors it can leave, in the order in which
a backtracking matcher reaches them, so that the first acceptable outcome is
the match. Groups record what they matched, a repetition forgets the groups
inside it before each turn, and a turn that consumed nothing does not count.
-/

namespace Regex

/-! ## Syntax -/

/-- The named classes of characters, as the classic locale has them. -/
inductive CharClass where
  | alnum
  | alpha
  | blank
  | cntrl
  | digit
  | graph
  | lower
  | print
  | punct
  | space
  | upper
  | word
  | xdigit
  deriving DecidableEq

namespace CharClass

def holds (c : Char) : CharClass → Bool
  | alnum => c.isAlphanum
  | alpha => c.isAlpha
  | blank => c = ' ' || c = '\t'
  | cntrl => c.toNat < 32 || c.toNat = 127
  | digit => c.isDigit
  | graph => 32 < c.toNat && c.toNat < 127
  | lower => c.isLower
  | print => 32 ≤ c.toNat && c.toNat < 127
  | punct => 32 < c.toNat && c.toNat < 127 && !c.isAlphanum
  | space => Text.isSpace c
  | upper => c.isUpper
  | word => c.isAlphanum || c = '_'
  | xdigit => c.isDigit || ('a' ≤ c && c ≤ 'f') || ('A' ≤ c && c ≤ 'F')

end CharClass

/-- One element of a bracketed set. -/
inductive SetItem where
  | single (c : Char)
  | range (first last : Char)
  | named (negated : Bool) (cls : CharClass)
  deriving DecidableEq

namespace SetItem

def holds (c : Char) : SetItem → Bool
  | single d => c = d
  | range first last => first ≤ c && c ≤ last
  | named negated cls => negated != cls.holds c

end SetItem

inductive Node where
  | empty
  | char (c : Char)
  | any
  | set (negated : Bool) (items : List SetItem)
  | seq (first second : Node)
  | alt (first second : Node)
  | group (index : Nat) (body : Node)
  | lookahead (negated : Bool) (body : Node)
  | backref (index : Nat)
  | start
  | finish
  | boundary (negated : Bool)
  | repeated (body : Node) (min : Nat) (max : Option Nat) (greedy : Bool)
  deriving DecidableEq

namespace Node

/-- The capturing groups inside a pattern. -/
def groups : Node → List Nat
  | seq first second => first.groups ++ second.groups
  | alt first second => first.groups ++ second.groups
  | group index body => index :: body.groups
  | lookahead _ body => body.groups
  | repeated body _ _ _ => body.groups
  | _ => []

/-- The groups a pattern refers back to. -/
def backrefs : Node → List Nat
  | seq first second => first.backrefs ++ second.backrefs
  | alt first second => first.backrefs ++ second.backrefs
  | group _ body => body.backrefs
  | lookahead _ body => body.backrefs
  | backref index => [index]
  | repeated body _ _ _ => body.backrefs
  | _ => []

end Node

/-! ## Matching -/

/-- A place in a text, with what the groups have matched so far. -/
structure Cursor where
  /-- What lies before the place, the nearest character first. -/
  before : Str
  rest : Str
  groups : Nat → Option Str := fun _ => none

namespace Cursor

/-- Move past the next characters. -/
def advance (s : Cursor) (n : Nat) : Cursor :=
  { s with before := (s.rest.take n).reverse ++ s.before, rest := s.rest.drop n }

/-- Consume one character that satisfies a condition. -/
def one (p : Char → Bool) (s : Cursor) : List Cursor :=
  if s.rest.head?.any p then [s.advance 1] else []

/-- Consume a given text. -/
def literally (text : Str) (s : Cursor) : List Cursor :=
  if text.isPrefixOf s.rest then [s.advance text.length] else []

/-- What was consumed on the way to a later cursor. -/
def upTo (s later : Cursor) : Str := s.rest.take (s.rest.length - later.rest.length)

def capture (s : Cursor) (index : Nat) (text : Str) : Cursor :=
  { s with groups := Function.update s.groups index (some text) }

/-- Forget what some groups have matched. -/
def forget (s : Cursor) (indices : List Nat) : Cursor :=
  { s with groups := fun i => if i ∈ indices then none else s.groups i }

@[simp] theorem forget_nil (s : Cursor) : s.forget [] = s := by
  simp [forget]

end Cursor

def isLineTerminator (c : Char) : Bool := c ∈ ['\n', '\r', '\u2028', '\u2029']

/-- Whether exactly one of the two characters next to the cursor belongs to a word. -/
def atBoundary (s : Cursor) : Bool :=
  s.before.head?.any CharClass.word.holds != s.rest.head?.any CharClass.word.holds

/-- The turns of a repetition that must be made. -/
def mandatory (step : Cursor → List Cursor) : Nat → Cursor → List Cursor
  | 0, s => [s]
  | n + 1, s => (step s).flatMap (mandatory step n)

/-- The turns that may be made, at most one for each remaining character. -/
def optional (step : Cursor → List Cursor) (greedy : Bool) :
    Nat → Option Nat → Cursor → List Cursor
  | 0, _, s => [s]
  | fuel + 1, max, s =>
      if max = some 0 then [s]
      else
        let consuming := (step s).filter (·.rest.length ≠ s.rest.length)
        let further := consuming.flatMap (optional step greedy fuel (max.map (· - 1)))
        if greedy then further ++ [s] else s :: further

/-- The cursors a pattern can leave, those that are tried first at the front. -/
def Node.outcomes : Node → Cursor → List Cursor
  | .empty, s => [s]
  | .char c, s => s.one (· = c)
  | .any, s => s.one (!isLineTerminator ·)
  | .set negated items, s => s.one fun c => negated != items.any (·.holds c)
  | .seq first second, s => (first.outcomes s).flatMap second.outcomes
  | .alt first second, s => first.outcomes s ++ second.outcomes s
  | .group index body, s => (body.outcomes s).map fun later => later.capture index (s.upTo later)
  -- a lookahead keeps the place, and the groups of the first way to match
  | .lookahead false body, s => (body.outcomes s).head?.toList.map fun later =>
      { s with groups := later.groups }
  | .lookahead true body, s => if body.outcomes s = [] then [s] else []
  | .backref index, s => match s.groups index with
      | none => [s]
      | some text => s.literally text
  | .start, s => if s.before = [] then [s] else []
  | .finish, s => if s.rest = [] then [s] else []
  | .boundary negated, s => if negated != atBoundary s then [s] else []
  | .repeated body min max greedy, s =>
      let step := fun s : Cursor => body.outcomes (s.forget body.groups)
      (mandatory step min s).flatMap fun later =>
        optional step greedy later.rest.length (max.map (· - min)) later

/-- Match a whole text: the first outcome that leaves nothing, with its groups. -/
def regex_match (re : Node) (text : Str) : Option (Nat → Option Str) :=
  ((re.outcomes { before := [], rest := text }).find? (·.rest = [])).map (·.groups)

/-- Replace the matches from a place on. After an empty match only a non-empty one is tried
at the same place. -/
def replaceFrom (re : Node) (replacement : Str) : Nat → Bool → Cursor → Str
  | 0, _, s => s.rest
  | fuel + 1, nonempty, s =>
      match (re.outcomes s).find? fun later => !nonempty || later.rest.length ≠ s.rest.length with
      | some later =>
          replacement ++ replaceFrom re replacement fuel (later.rest.length = s.rest.length)
            { before := later.before, rest := later.rest }
      | none => match s.rest with
          | [] => []
          | c :: _ => c :: replaceFrom re replacement fuel false (s.advance 1)

/-- Replace each match of a pattern by a text; a format without `$` is such a text. There are
at most two attempts at each place. -/
def regex_replace (text : Str) (re : Node) (replacement : Str) : Str :=
  replaceFrom re replacement (2 * text.length + 2) false { before := [], rest := text }

/-! ## The outcomes as a relation -/

namespace Cursor

/-- The cursor behind a text that was consumed. -/
def past (s : Cursor) (text rest : Str) : Cursor :=
  { s with before := text.reverse ++ s.before, rest := rest }

@[simp] theorem past_rest (s : Cursor) (text rest : Str) : (s.past text rest).rest = rest := rfl

@[simp] theorem past_groups (s : Cursor) (text rest : Str) :
    (s.past text rest).groups = s.groups := rfl

@[simp] theorem capture_rest (s : Cursor) (index : Nat) (text : Str) :
    (s.capture index text).rest = s.rest := rfl

theorem past_nil {s : Cursor} {rest : Str} (h : s.rest = rest) : s.past [] rest = s := by
  subst h
  rfl

theorem past_past (s : Cursor) (text text' rest rest' : Str) :
    (s.past text rest).past text' rest' = s.past (text ++ text') rest' := by
  simp [past]

/-- What was consumed on the way past a text is that text. -/
theorem upTo_past {s : Cursor} {text rest : Str} (h : s.rest = text ++ rest) :
    s.upTo (s.past text rest) = text := by
  simp [upTo, h]

theorem mem_one {p : Char → Bool} {s later : Cursor} :
    later ∈ s.one p ↔ ∃ c rest, s.rest = c :: rest ∧ p c = true ∧ later = s.past [c] rest := by
  cases h : s.rest with
  | nil => simp [one, h]
  | cons c rest =>
      have moved : s.advance 1 = s.past [c] rest := by simp [advance, past, h]
      by_cases hc : p c = true
      · simp [one, h, hc, moved]
      · simp [one, h, hc]

/-- The way from one cursor to another is a text of characters that satisfy a condition; its
length is a possible number of turns. -/
def Row (p : Char → Bool) (turns : Nat → Prop) (s later : Cursor) : Prop :=
  ∃ text rest, s.rest = text ++ rest ∧ (∀ c ∈ text, p c = true) ∧ turns text.length ∧
    later = s.past text rest

/-- One character and then a row of such characters are a longer row of them. -/
theorem one_then_row {p : Char → Bool} {turns : Nat → Prop} {s later : Cursor} :
    (∃ middle ∈ s.one p, middle.Row p turns later) ↔
      s.Row p (fun n => 0 < n ∧ turns (n - 1)) later := by
  constructor
  · rintro ⟨middle, hmiddle, text, rest, hsplit, htext, hturns, rfl⟩
    obtain ⟨c, rest', hrest, hc, rfl⟩ := mem_one.mp hmiddle
    refine ⟨c :: text, rest, ?_, List.forall_mem_cons.mpr ⟨hc, htext⟩, ⟨?_, hturns⟩, ?_⟩
    · rw [hrest, List.cons_append, ← hsplit, past_rest]
    · exact Nat.succ_pos _
    · rw [past_past]
      rfl
  · rintro ⟨text, rest, hsplit, htext, ⟨nonempty, hturns⟩, rfl⟩
    obtain ⟨c, text, rfl⟩ := List.exists_cons_of_length_pos nonempty
    obtain ⟨hc, htext⟩ := List.forall_mem_cons.mp htext
    refine ⟨s.past [c] (text ++ rest), ?_, text, rest, rfl, htext, hturns, ?_⟩
    · exact mem_one.mpr ⟨c, text ++ rest, hsplit, hc, rfl⟩
    · rw [past_past]
      rfl

theorem Row.congr {p : Char → Bool} {turns turns' : Nat → Prop} {s later : Cursor}
    (h : ∀ n, turns n ↔ turns' n) : s.Row p turns later ↔ s.Row p turns' later := by
  simp only [Row, h]

theorem Row.refl {p : Char → Bool} {turns : Nat → Prop} (s : Cursor) (h : turns 0) :
    s.Row p turns s :=
  ⟨[], s.rest, rfl, by simp, h, (past_nil rfl).symm⟩

/-- A row that has to be empty goes nowhere. -/
theorem row_empty {p : Char → Bool} {turns : Nat → Prop} {s later : Cursor} (h : turns 0)
    (empty : ∀ text rest, s.rest = text ++ rest → turns text.length → text = []) :
    later = s ↔ s.Row p turns later := by
  constructor
  · rintro rfl
    exact .refl later h
  · rintro ⟨text, rest, hsplit, -, hturns, rfl⟩
    obtain rfl := empty text rest hsplit hturns
    exact past_nil hsplit

theorem row_split {p : Char → Bool} {turns : Nat → Prop} {s later : Cursor} (h : turns 0) :
    (later = s ∨ s.Row p (fun n => 0 < n ∧ turns n) later) ↔ s.Row p turns later := by
  constructor
  · rintro (rfl | ⟨text, rest, hsplit, htext, ⟨-, hturns⟩, rfl⟩)
    · exact .refl later h
    · exact ⟨text, rest, hsplit, htext, hturns, rfl⟩
  · rintro ⟨text, rest, hsplit, htext, hturns, rfl⟩
    by_cases empty : text = []
    · subst empty
      exact .inl (past_nil hsplit)
    · have positive := List.length_pos_of_ne_nil empty
      exact .inr ⟨text, rest, hsplit, htext, ⟨positive, hturns⟩, rfl⟩

end Cursor

/-- The optional turns of a step that consumes one character: as many as there are characters
in a row that satisfy the condition, or fewer. -/
theorem mem_optional_one {p : Char → Bool} {greedy : Bool} {fuel : Nat} {max : Option Nat}
    {s later : Cursor} (hfuel : s.rest.length ≤ fuel) :
    later ∈ optional (Cursor.one p) greedy fuel max s ↔
      s.Row p (fun n => ∀ m, max = some m → n ≤ m) later := by
  induction fuel generalizing s max with
  | zero =>
      have hrest : s.rest = [] := List.eq_nil_of_length_eq_zero (Nat.le_zero.mp hfuel)
      simp only [optional, List.mem_singleton]
      refine Cursor.row_empty (fun m _ => Nat.zero_le m) fun text rest hsplit _ => ?_
      rw [hrest, List.nil_eq, List.append_eq_nil_iff] at hsplit
      exact hsplit.1
  | succ fuel ih =>
      by_cases done : max = some 0
      · subst done
        simp only [optional, if_true, List.mem_singleton]
        refine Cursor.row_empty (fun m _ => Nat.zero_le m) fun text rest _ few => ?_
        exact List.eq_nil_of_length_eq_zero (Nat.le_zero.mp (few 0 rfl))
      have turn : later ∈ optional (Cursor.one p) greedy (fuel + 1) max s ↔
          later = s ∨ ∃ next ∈ s.one p, next.rest.length ≠ s.rest.length ∧
            later ∈ optional (Cursor.one p) greedy fuel (max.map (· - 1)) next := by
        cases greedy <;> simp [optional, done, and_assoc, or_comm]
      -- a turn that can be made consumes, so that the turns after it have fuel enough
      have further : (∃ next ∈ s.one p, next.rest.length ≠ s.rest.length ∧
            later ∈ optional (Cursor.one p) greedy fuel (max.map (· - 1)) next) ↔
          ∃ next ∈ s.one p, next.Row p (fun n => ∀ m, max.map (· - 1) = some m → n ≤ m) later := by
        refine exists_congr fun next => and_congr_right fun hnext => ?_
        obtain ⟨c, rest, hrest, -, rfl⟩ := Cursor.mem_one.mp hnext
        have length : s.rest.length = rest.length + 1 := by rw [hrest, List.length_cons]
        rw [ih (by rw [Cursor.past_rest]; omega)]
        exact and_iff_right (by rw [Cursor.past_rest]; omega)
      have fewer : ∀ n, 0 < n →
          ((∀ m, max.map (· - 1) = some m → n - 1 ≤ m) ↔ ∀ m, max = some m → n ≤ m) := by
        intro n positive
        cases max with
        | none => simp
        | some m =>
            have : m ≠ 0 := fun h => done (congrArg some h)
            simp only [Option.map_some, Option.some.injEq, forall_eq']
            omega
      rw [turn, further, Cursor.one_then_row, Cursor.Row.congr fun n => and_congr_right (fewer n)]
      exact Cursor.row_split fun m _ => Nat.zero_le m

/-- The numbers of turns that a repetition can make. -/
def Turns (min : Nat) (max : Option Nat) (n : Nat) : Prop :=
  min ≤ n ∧ ∀ m, max.map (· - min) = some m → n - min ≤ m

/-- The mandatory turns of such a step and then the optional ones. -/
theorem mem_turns_one {p : Char → Bool} {greedy : Bool} {min : Nat} {max : Option Nat}
    {s later : Cursor} :
    (∃ middle ∈ mandatory (Cursor.one p) min s,
        later ∈ optional (Cursor.one p) greedy middle.rest.length max middle) ↔
      s.Row p (fun n => min ≤ n ∧ ∀ m, max = some m → n - min ≤ m) later := by
  induction min generalizing s with
  | zero =>
      simp only [mandatory, List.mem_singleton, exists_eq_left]
      rw [mem_optional_one (Nat.le_refl _)]
      exact Cursor.Row.congr fun n => by simp
  | succ min ih =>
      have first : (∃ middle ∈ mandatory (Cursor.one p) (min + 1) s,
            later ∈ optional (Cursor.one p) greedy middle.rest.length max middle) ↔
          ∃ next ∈ s.one p, ∃ middle ∈ mandatory (Cursor.one p) min next,
            later ∈ optional (Cursor.one p) greedy middle.rest.length max middle := by
        simp only [mandatory, List.mem_flatMap]
        constructor
        · rintro ⟨middle, ⟨next, hnext, hmiddle⟩, hlater⟩
          exact ⟨next, hnext, middle, hmiddle, hlater⟩
        · rintro ⟨next, hnext, middle, hmiddle, hlater⟩
          exact ⟨middle, ⟨next, hnext, hmiddle⟩, hlater⟩
      simp only [first, ih]
      rw [Cursor.one_then_row]
      refine Cursor.Row.congr fun n => ?_
      constructor
      · rintro ⟨positive, enough, few⟩
        exact ⟨by omega, fun m hm => by have := few m hm; omega⟩
      · rintro ⟨enough, few⟩
        exact ⟨by omega, by omega, fun m hm => by have := few m hm; omega⟩

namespace Node

theorem mem_outcomes_char {c : Char} {s later : Cursor} :
    later ∈ (char c).outcomes s ↔ ∃ rest, s.rest = c :: rest ∧ later = s.past [c] rest := by
  simp [outcomes, Cursor.mem_one]

theorem mem_outcomes_seq {first second : Node} {s later : Cursor} :
    later ∈ (seq first second).outcomes s ↔
      ∃ middle ∈ first.outcomes s, later ∈ second.outcomes middle := by
  simp [outcomes]

@[simp] theorem outcomes_empty_seq (second : Node) (s : Cursor) :
    (seq empty second).outcomes s = second.outcomes s := by
  simp [outcomes]

theorem mem_outcomes_group {index : Nat} {body : Node} {s later : Cursor} :
    later ∈ (group index body).outcomes s ↔
      ∃ inner ∈ body.outcomes s, later = inner.capture index (s.upTo inner) := by
  simp [outcomes, eq_comm]

/-- A repeated node that consumes one character in each turn. -/
theorem mem_outcomes_repeated_one {body : Node} {p : Char → Bool} {min : Nat} {max : Option Nat}
    {greedy : Bool} (hbody : ∀ s : Cursor, body.outcomes (s.forget body.groups) = s.one p)
    {s later : Cursor} :
    later ∈ (repeated body min max greedy).outcomes s ↔
      s.Row p (Turns min max) later := by
  simp only [outcomes, hbody, List.mem_flatMap]
  exact mem_turns_one

/-- A bracketed set, once or more: a non-empty text of its characters. -/
theorem mem_outcomes_set_plus {negated : Bool} {items : List SetItem} {greedy : Bool}
    {s later : Cursor} :
    later ∈ (repeated (set negated items) 1 none greedy).outcomes s ↔
      ∃ text rest, text ≠ [] ∧ s.rest = text ++ rest ∧
        (∀ c ∈ text, (negated != items.any (·.holds c)) = true) ∧ later = s.past text rest := by
  have hbody : ∀ s : Cursor, (set negated items).outcomes (s.forget (set negated items).groups) =
      s.one fun c => negated != items.any (·.holds c) := by
    intro s
    simp [outcomes, groups]
  rw [mem_outcomes_repeated_one hbody]
  constructor
  · rintro ⟨text, rest, hsplit, htext, ⟨enough, -⟩, rfl⟩
    exact ⟨text, rest, List.length_pos_iff.mp enough, hsplit, htext, rfl⟩
  · rintro ⟨text, rest, nonempty, hsplit, htext, rfl⟩
    exact ⟨text, rest, hsplit, htext, ⟨List.length_pos_iff.mpr nonempty, by simp⟩, rfl⟩

end Node

/-! ## Replacement -/

section Replacement

variable {re : Node} {replacement : Str} {fuel : Nat} {s : Cursor}

theorem replaceFrom_end (none : re.outcomes s = []) (hrest : s.rest = []) :
    replaceFrom re replacement (fuel + 1) false s = [] := by
  simp [replaceFrom, none, hrest]

/-- Without a match at a place its character is kept. -/
theorem replaceFrom_keep {c : Char} {rest : Str} (none : re.outcomes s = [])
    (hrest : s.rest = c :: rest) :
    replaceFrom re replacement (fuel + 1) false s =
      c :: replaceFrom re replacement fuel false (s.past [c] rest) := by
  have moved : s.advance 1 = s.past [c] rest := by simp [Cursor.advance, Cursor.past, hrest]
  simp only [replaceFrom, none, List.find?_nil, hrest, moved]

/-- A match that consumes something is replaced. -/
theorem replaceFrom_match {later : Cursor} {fallbacks : List Cursor}
    (houtcomes : re.outcomes s = later :: fallbacks)
    (consumed : later.rest.length ≠ s.rest.length) :
    replaceFrom re replacement (fuel + 1) false s =
      replacement ++ replaceFrom re replacement fuel false
        { before := later.before, rest := later.rest } := by
  simp only [replaceFrom, houtcomes, List.find?_cons, Bool.not_false, Bool.true_or,
    decide_eq_false consumed]

end Replacement

/-- A text is matched when some outcome leaves nothing of it. -/
theorem regex_match_isSome {re : Node} {text : Str} :
    (regex_match re text).isSome ↔
      ∃ later ∈ re.outcomes { before := [], rest := text }, later.rest = [] := by
  simp [regex_match]

/-- The groups are those of an outcome that leaves nothing of the text. -/
theorem exists_of_regex_match {re : Node} {text : Str} {groups : Nat → Option Str}
    (h : regex_match re text = some groups) :
    ∃ later ∈ re.outcomes { before := [], rest := text }, later.rest = [] ∧
      later.groups = groups := by
  obtain ⟨later, found, same⟩ := Option.map_eq_some_iff.mp h
  exact ⟨later, List.mem_of_find?_eq_some found, by simpa using List.find?_some found, same⟩

end Regex
