import Mux.Programs.FlatExpressions

/-!
# Flat templates

A template without parentheses, brackets and backslashes in its literals becomes a
flat expression, if it becomes an expression at all. Its shortest url has no
variant, so that the answers can only be right when each literal is spelled out.
-/

namespace Mux.Dynamic

open Regex

/-! ## Templates that become flat expressions -/

/-- The piece brings no parenthesis that opens, no bracket that opens, and no backslash. -/
def Piece.Flat : Piece → Prop
  | .literal c => c ∉ ['\\', '(', '[', '{', '}']
  | .placeholder _ => True

/-- The character that a piece spells out in the expression. -/
def Piece.spelled? : Piece → Option Char
  | .literal c => if special c then none else some c
  | .placeholder _ => none

/-- Behind each placeholder the template ends or goes on with a slash. -/
def Separated : List Piece → Prop
  | [] => True
  | .literal _ :: pieces => Separated pieces
  | .placeholder _ :: pieces =>
      (pieces = [] ∨ ∃ rest, pieces = .literal '/' :: rest) ∧ Separated pieces

def IsQuantifier : Token → Prop
  | .quantifier _ _ _ => True
  | _ => False

/-- The tokens of a flat expression, with the characters that they spell out. -/
inductive Lexed : List Token → List Char → Prop where
  | nil : Lexed [] []
  | char {ts : List Token} {cs : List Char} (c : Char) (h : Lexed ts cs) :
      Lexed (.atom (.char c) :: ts) (c :: cs)
  | any {ts : List Token} {cs : List Char} (h : Lexed ts cs) : Lexed (.atom .any :: ts) cs
  | start {ts : List Token} {cs : List Char} (h : Lexed ts cs) : Lexed (.assertion .start :: ts) cs
  | finish {ts : List Token} {cs : List Char} (h : Lexed ts cs) :
      Lexed (.assertion .finish :: ts) cs
  | bar {ts : List Token} {cs : List Char} (h : Lexed ts cs) : Lexed (.bar :: ts) cs
  | closing {ts : List Token} {cs : List Char} (h : Lexed ts cs) : Lexed (.closing :: ts) cs
  | quantifier {ts : List Token} {cs : List Char} {min : Nat} (least : min ≤ 1) (max : Option Nat)
      (greedy : Bool) (h : Lexed ts cs) : Lexed (.quantifier min max greedy :: ts) cs
  | group {ts : List Token} {cs : List Char} (h : Lexed ts cs)
      (once : ∀ t ∈ ts.head?, ¬ IsQuantifier t) :
      Lexed ((Piece.placeholder []).tokens ++ ts) cs

theorem map_eq_ok {f : List Token → List Token} {result : Except ErrorType (List Token)}
    {ts : List Token} (h : result.map f = .ok ts) : ∃ ts', result = .ok ts' ∧ ts = f ts' := by
  cases result with
  | error e => cases h
  | ok ts' => exact ⟨ts', rfl, (Except.ok.inj h).symm⟩

/-- A quantifier takes the question mark behind it, if there is one. -/
theorem tokens_quantifier {c : Char} {min : Nat} {max : Option Nat} {rest : Str} {ts : List Token}
    (hc : ∀ rest, token c rest = .ok (readQuantifier min max rest))
    (h : Regex.tokens 0 (c :: rest) = .ok ts) :
    (∃ rest' ts', rest = '?' :: rest' ∧ Regex.tokens 0 rest' = .ok ts' ∧
        ts = .quantifier min max false :: ts') ∨
      ∃ ts', Regex.tokens 0 rest = .ok ts' ∧ ts = .quantifier min max true :: ts' := by
  by_cases lazy : ∃ rest', rest = '?' :: rest'
  · obtain ⟨rest', rfl⟩ := lazy
    have first : token c ('?' :: rest') = .ok (.quantifier min max false, rest') := hc _
    rw [tokens_cons ['?'] first rfl] at h
    obtain ⟨ts', h', rfl⟩ := map_eq_ok h
    exact .inl ⟨rest', ts', rfl, h', rfl⟩
  · have first : token c rest = .ok (.quantifier min max true, rest) := by
      rw [hc, readQuantifier.eq_2]
      intro rest' same
      exact lazy ⟨rest', same⟩
    rw [tokens_cons [] first rfl] at h
    obtain ⟨ts', h', rfl⟩ := map_eq_ok h
    exact .inr ⟨ts', h', rfl⟩

theorem Separated.tail {piece : Piece} {pieces : List Piece} (h : Separated (piece :: pieces)) :
    Separated pieces := by
  cases piece with
  | literal c => exact h
  | placeholder name => exact h.2

/-- A question mark in the pattern is one in the template. -/
theorem eq_of_pattern_question {pieces : List Piece} {rest : Str}
    (h : pieces.flatMap Piece.pattern = '?' :: rest) :
    ∃ others, pieces = .literal '?' :: others ∧ others.flatMap Piece.pattern = rest := by
  cases pieces with
  | nil => cases h
  | cons piece others =>
      rw [List.flatMap_cons] at h
      cases piece with
      | literal c =>
          obtain ⟨rfl, hrest⟩ := List.cons.inj h
          exact ⟨others, rfl, hrest⟩
      | placeholder name =>
          have first : '(' = '?' := (List.cons.inj h).1
          exact absurd first (by decide)

/-- What stands behind a placeholder is no quantifier. -/
theorem Separated.once {name : Str} {pieces : List Piece} {ts : List Token}
    (separated : Separated (.placeholder name :: pieces))
    (h : Regex.tokens 0 (pieces.flatMap Piece.pattern) = .ok ts) :
    ∀ t ∈ ts.head?, ¬ IsQuantifier t := by
  intro t ht
  obtain rfl | ⟨rest, rfl⟩ := separated.1
  · obtain rfl := Except.ok.inj h
    cases ht
  · rw [List.flatMap_cons, Piece.pattern, List.singleton_append, tokens_plain (by decide)] at h
    obtain ⟨ts', -, rfl⟩ := map_eq_ok h
    obtain rfl := Option.some.inj ht
    exact id

/-- A flat template that has tokens at all has those of a flat expression. -/
theorem lexed_pieces {pieces : List Piece} (flat : ∀ p ∈ pieces, p.Flat)
    (separated : Separated pieces) {ts : List Token}
    (h : Regex.tokens 0 (pieces.flatMap Piece.pattern) = .ok ts) :
    Lexed ts (pieces.filterMap Piece.spelled?) := by
  -- a lazy quantifier takes two pieces at once
  induction hn : pieces.length using Nat.strong_induction_on generalizing pieces ts with
  | _ n ih =>
    subst hn
    cases pieces with
    | nil =>
        obtain rfl := Except.ok.inj h
        exact .nil
    | cons piece pieces =>
        obtain ⟨this, others⟩ := List.forall_mem_cons.mp flat
        have next {ts' : List Token}
            (h' : Regex.tokens 0 (pieces.flatMap Piece.pattern) = .ok ts') :
            Lexed ts' (pieces.filterMap Piece.spelled?) :=
          ih pieces.length (Nat.lt_succ_self _) others separated.tail h' rfl
        rw [List.flatMap_cons] at h
        cases piece with
        | placeholder name =>
            rw [Piece.pattern, tokens_capturing] at h
            obtain ⟨ts', h', rfl⟩ := map_eq_ok h
            exact .group (next h') (separated.once h')
        | literal c =>
            rw [Piece.pattern, List.singleton_append] at h
            by_cases plain : special c = false
            · rw [tokens_plain plain] at h
              obtain ⟨ts', h', rfl⟩ := map_eq_ok h
              rw [List.filterMap_cons_some (b := c) (by simp [Piece.spelled?, plain])]
              exact .char c (next h')
            · rw [List.filterMap_cons_none (by simpa [Piece.spelled?] using plain)]
              have single {t : Token}
                  (hc : token c (pieces.flatMap Piece.pattern) =
                    .ok (t, pieces.flatMap Piece.pattern))
                  (step : ∀ {ts' cs}, Lexed ts' cs → Lexed (t :: ts') cs) :
                  Lexed ts (pieces.filterMap Piece.spelled?) := by
                rw [tokens_cons [] hc rfl] at h
                obtain ⟨ts', h', rfl⟩ := map_eq_ok h
                exact step (next h')
              have quantified {min : Nat} {max : Option Nat} (least : min ≤ 1)
                  (hc : ∀ rest, token c rest = .ok (readQuantifier min max rest)) :
                  Lexed ts (pieces.filterMap Piece.spelled?) := by
                obtain ⟨rest', ts', hrest, h', rfl⟩ | ⟨ts', h', rfl⟩ := tokens_quantifier hc h
                · obtain ⟨more, rfl, rfl⟩ := eq_of_pattern_question hrest
                  have lexed := ih more.length (by simp only [List.length_cons]; omega)
                    (List.forall_mem_cons.mp others).2 separated.tail.tail h' rfl
                  exact .quantifier least max false lexed
                · exact .quantifier least max true (next h')
              have kinds : c = '^' ∨ c = '$' ∨ c = '.' ∨ c = '|' ∨ c = ')' ∨ c = ']' ∨
                  c = '*' ∨ c = '+' ∨ c = '?' := by
                simp only [special, Piece.Flat, List.mem_cons, List.not_mem_nil, or_false,
                  Bool.not_eq_false, decide_eq_true_eq] at plain this
                grind
              obtain rfl | rfl | rfl | rfl | rfl | rfl | rfl | rfl | rfl := kinds
              · exact single rfl .start
              · exact single rfl .finish
              · exact single rfl .any
              · exact single rfl .bar
              · exact single rfl .closing
              · cases h
              · exact quantified (Nat.zero_le 1) fun _ => rfl
              · exact quantified (Nat.le_refl 1) fun _ => rfl
              · exact quantified (Nat.zero_le 1) fun _ => rfl

/-- What has been read so far is flat. -/
structure FlatLevel (level : Level) : Prop where
  alternatives : ∀ a, level.alternatives = some a → Flat a
  terms : Flat level.terms
  last : ∀ a, level.last = some a → Flat a

namespace FlatLevel

variable {level : Level}

theorem new : FlatLevel {} where
  alternatives a ha := by cases ha
  terms := .empty
  last a ha := by cases ha

theorem sequence (h : FlatLevel level) : Flat level.sequence := by
  cases hl : level.last with
  | none => simpa [Level.sequence, hl] using h.terms
  | some a => simpa [Level.sequence, hl] using h.terms.seq (h.last a hl)

theorem disjunction (h : FlatLevel level) : Flat level.disjunction := by
  cases ha : level.alternatives with
  | none => simpa [Level.disjunction, ha] using h.sequence
  | some a => simpa [Level.disjunction, ha] using (h.alternatives a ha).alt h.sequence

theorem atom (h : FlatLevel level) {n : Node} (flat : Flat n) : FlatLevel (level.atom n) := by
  refine ⟨h.alternatives, h.sequence, ?_⟩
  intro a ha
  obtain rfl := Option.some.inj ha
  exact flat

theorem assertion (h : FlatLevel level) {n : Node} (flat : Flat n) :
    FlatLevel (level.assertion n) := by
  refine ⟨h.alternatives, h.sequence.seq flat, ?_⟩
  intro a ha
  cases ha

theorem bar (h : FlatLevel level) : FlatLevel level.bar := by
  refine ⟨?_, .empty, ?_⟩
  · intro a ha
    obtain rfl := Option.some.inj ha
    exact h.disjunction
  · intro a ha
    cases ha

/-- The last atom becomes a repeated one. -/
theorem repeated (h : FlatLevel level) {a : Node} {p : Char → Bool} {min : Nat} (hp : IsAtom a p)
    (least : min ≤ 1) (max : Option Nat) (greedy : Bool) :
    FlatLevel
      { level with terms := .seq level.terms (.repeated a min max greedy), last := none } := by
  refine ⟨h.alternatives, h.terms.seq (.repeated hp least), ?_⟩
  intro b hb
  cases hb

end FlatLevel

theorem spelled_atom (level : Level) (n : Node) :
    spelled (level.atom n).disjunction = spelled level.disjunction ++ spelled n := by
  cases ha : level.alternatives <;> cases hl : level.last <;>
    simp [Level.atom, Level.disjunction, Level.sequence, spelled, ha, hl]

theorem spelled_assertion (level : Level) (n : Node) :
    spelled (level.assertion n).disjunction = spelled level.disjunction ++ spelled n := by
  cases ha : level.alternatives <;> cases hl : level.last <;>
    simp [Level.assertion, Level.disjunction, Level.sequence, spelled, ha, hl]

theorem spelled_bar (level : Level) :
    spelled level.bar.disjunction = spelled level.disjunction := by
  simp [Level.bar, Level.disjunction, Level.sequence, spelled]

theorem spelled_repeated {level : Level} {a : Node} (h : level.last = some a) (min : Nat)
    (max : Option Nat) (greedy : Bool) :
    spelled { level with
      terms := .seq level.terms (.repeated a min max greedy), last := none }.disjunction =
      spelled level.disjunction := by
  cases ha : level.alternatives <;> simp [Level.disjunction, Level.sequence, spelled, ha, h]

/-- An atom that was read may be repeated by what follows. -/
theorem IsAtom.ready {a : Node} {p : Char → Bool} (h : IsAtom a p) (level : Level) :
    ∀ b, (level.atom a).last = some b → ∃ p, IsAtom b p := by
  intro b hb
  obtain rfl := Option.some.inj hb
  exact ⟨p, h⟩

/-- Such tokens can only be put together to a flat expression, which spells out their
characters. -/
theorem Lexed.assemble {ts : List Token} {cs : List Char} (h : Lexed ts cs) {level : Level}
    {groups : Nat} {result : Node × Nat} (flat : FlatLevel level)
    (ready : ∀ a, level.last = some a → (∃ p, IsAtom a p) ∨ ∀ t ∈ ts.head?, ¬ IsQuantifier t)
    (assembled : Regex.assemble [] level groups ts = .ok result) :
    Flat result.1 ∧ spelled result.1 = spelled level.disjunction ++ cs := by
  induction h generalizing level groups with
  | nil =>
      obtain rfl := Except.ok.inj assembled
      exact ⟨flat.disjunction, (List.append_nil _).symm⟩
  | char c _ ih =>
      obtain ⟨flat', spelling⟩ := ih (flat.atom (.atom (.char c)))
        (fun a ha => .inl ((IsAtom.char c).ready level a ha)) assembled
      rw [spelled_atom, List.append_assoc] at spelling
      exact ⟨flat', spelling⟩
  | any _ ih =>
      obtain ⟨flat', spelling⟩ := ih (flat.atom (.atom .any))
        (fun a ha => .inl (IsAtom.any.ready level a ha)) assembled
      rw [spelled_atom, List.append_assoc] at spelling
      exact ⟨flat', spelling⟩
  | start _ ih =>
      obtain ⟨flat', spelling⟩ := ih (flat.assertion .start) (fun a ha => by cases ha) assembled
      rw [spelled_assertion, List.append_assoc] at spelling
      exact ⟨flat', spelling⟩
  | finish _ ih =>
      obtain ⟨flat', spelling⟩ := ih (flat.assertion .finish) (fun a ha => by cases ha) assembled
      rw [spelled_assertion, List.append_assoc] at spelling
      exact ⟨flat', spelling⟩
  | bar _ ih =>
      obtain ⟨flat', spelling⟩ := ih flat.bar (fun a ha => by cases ha) assembled
      rw [spelled_bar] at spelling
      exact ⟨flat', spelling⟩
  | closing => cases assembled
  | @quantifier ts cs min least max greedy _ ih =>
      cases hl : level.last with
      | none =>
          simp only [Regex.assemble, hl] at assembled
          cases assembled
      | some a =>
          obtain ⟨p, hp⟩ : ∃ p, IsAtom a p := by
            obtain hp | unrepeated := ready a hl
            · exact hp
            · exact absurd trivial (unrepeated _ rfl)
          simp only [Regex.assemble, hl] at assembled
          obtain ⟨flat', spelling⟩ := ih (flat.repeated hp least max greedy)
            (fun a ha => by cases ha) assembled
          rw [spelled_repeated hl] at spelling
          exact ⟨flat', spelling⟩
  | group _ once ih =>
      obtain ⟨flat', spelling⟩ := ih (flat.atom (.group (groups + 1)))
        (fun a ha => .inr once) assembled
      rw [spelled_atom, List.append_assoc] at spelling
      exact ⟨flat', spelling⟩

/-- A flat template that is an expression at all is a flat one, which spells out the literals
without a meaning of their own. -/
theorem compile_flat {pieces : List Piece} (flat : ∀ p ∈ pieces, p.Flat)
    (separated : Separated pieces) {n : Node}
    (h : compile (pieces.flatMap Piece.pattern) = .ok n) :
    Flat n ∧ spelled n = pieces.filterMap Piece.spelled? := by
  cases ht : Regex.tokens 0 (pieces.flatMap Piece.pattern) with
  | error e =>
      simp only [compile, ht, bind, Except.bind] at h
      cases h
  | ok ts =>
      have lexed := lexed_pieces flat separated ht
      cases ha : Regex.assemble [] {} 0 ts with
      | error e =>
          simp only [compile, ht, ha, bind, Except.bind] at h
          cases h
      | ok result =>
          obtain ⟨flat', spelling⟩ := lexed.assemble FlatLevel.new (fun a ha => by cases ha) ha
          simp only [compile, ht, ha, bind, Except.bind] at h
          split at h
          · obtain rfl := Except.ok.inj h
            exact ⟨flat', spelling⟩
          · cases h

/-! ## The shortest url of a template -/

/-- The url of a template with one character for each placeholder. -/
def shortest (z : Char) (pieces : List Piece) : Str :=
  pieces.map fun
    | .literal c => c
    | .placeholder _ => z

def Piece.isLiteral : Piece → Bool
  | .literal _ => true
  | .placeholder _ => false

theorem fits_shortest {z : Char} (hz : z ≠ '/') (pieces : List Piece) :
    Fits pieces (shortest z pieces) := by
  induction pieces with
  | nil => rfl
  | cons piece pieces ih =>
      cases piece with
      | literal c => exact ⟨shortest z pieces, rfl, ih⟩
      | placeholder name =>
          refine ⟨[z], shortest z pieces, List.cons_ne_nil z [], ?_, rfl, ih⟩
          simpa using hz.symm

/-- No url of a template is shorter. -/
theorem Fits.length_le {pieces : List Piece} {url : Str} (h : Fits pieces url) :
    pieces.length ≤ url.length := by
  induction pieces generalizing url with
  | nil => exact Nat.zero_le _
  | cons piece pieces ih =>
      cases piece with
      | literal c =>
          obtain ⟨rest, rfl, h⟩ := h
          have := ih h
          simp only [List.length_cons]
          omega
      | placeholder name =>
          obtain ⟨text, rest, nonempty, -, rfl, h⟩ := h
          have := ih h
          have := List.length_pos_of_ne_nil nonempty
          simp only [List.length_cons, List.length_append]
          omega

/-- All urls of a template have the same number of slashes. -/
theorem Fits.count_slash {z : Char} (hz : z ≠ '/') {pieces : List Piece} {url : Str}
    (h : Fits pieces url) : url.count '/' = (shortest z pieces).count '/' := by
  induction pieces generalizing url with
  | nil =>
      obtain rfl : url = [] := h
      rfl
  | cons piece pieces ih =>
      cases piece with
      | literal c =>
          obtain ⟨rest, rfl, h⟩ := h
          have := ih h
          simp only [shortest, List.map_cons, List.count_cons] at this ⊢
          rw [this]
      | placeholder name =>
          obtain ⟨text, rest, -, clean, rfl, h⟩ := h
          have := ih h
          rw [List.count_append, List.count_eq_zero.mpr clean, this, Nat.zero_add]
          exact (List.count_cons_of_ne hz).symm

/-- The literals of a template are in all its urls. -/
theorem Fits.countP_le {p : Char → Bool} {pieces : List Piece}
    (literals : ∀ c, .literal c ∈ pieces → p c = true) {url : Str} (h : Fits pieces url) :
    pieces.countP Piece.isLiteral ≤ url.countP p := by
  induction pieces generalizing url with
  | nil => exact Nat.zero_le _
  | cons piece pieces ih =>
      have others : ∀ c, .literal c ∈ pieces → p c = true :=
        fun c hc => literals c (List.mem_cons_of_mem piece hc)
      cases piece with
      | literal c =>
          obtain ⟨rest, rfl, h⟩ := h
          rw [List.countP_cons_of_pos rfl, List.countP_cons_of_pos (literals c List.mem_cons_self)]
          exact Nat.succ_le_succ (ih others h)
      | placeholder name =>
          obtain ⟨text, rest, -, -, rfl, h⟩ := h
          rw [List.countP_cons_of_neg Bool.false_ne_true, List.countP_append]
          have := ih others h
          omega

theorem countP_shortest {z : Char} {p : Char → Bool} (hz : p z = false) {pieces : List Piece}
    (literals : ∀ c, .literal c ∈ pieces → p c = true) :
    (shortest z pieces).countP p = pieces.countP Piece.isLiteral := by
  rw [shortest, List.countP_map]
  refine List.countP_congr fun piece hpiece => ?_
  cases piece with
  | literal c => simpa [Piece.isLiteral] using literals c hpiece
  | placeholder name => simp [Piece.isLiteral, hz]

theorem countP_literal (c : Char) (pieces : List Piece) :
    (Piece.literal c :: pieces).countP Piece.isLiteral = pieces.countP Piece.isLiteral + 1 :=
  List.countP_cons_of_pos rfl

theorem countP_placeholder (name : Str) (pieces : List Piece) :
    (Piece.placeholder name :: pieces).countP Piece.isLiteral = pieces.countP Piece.isLiteral :=
  List.countP_cons_of_neg Bool.false_ne_true

theorem length_spelled_le (pieces : List Piece) :
    (pieces.filterMap Piece.spelled?).length ≤ pieces.countP Piece.isLiteral := by
  induction pieces with
  | nil => exact Nat.zero_le _
  | cons piece pieces ih =>
      cases piece with
      | literal c =>
          rw [countP_literal, List.filterMap_cons]
          by_cases hc : special c = true
          · simp only [Piece.spelled?, if_pos hc]
            omega
          · simp only [Piece.spelled?, if_neg hc, List.length_cons]
            omega
      | placeholder name =>
          rw [countP_placeholder, List.filterMap_cons]
          exact ih

/-- When every literal is spelled out, each of them is plain. -/
theorem plain_of_countP_le {pieces : List Piece}
    (h : pieces.countP Piece.isLiteral ≤ (pieces.filterMap Piece.spelled?).length) :
    ∀ p ∈ pieces, p.Plain := by
  induction pieces with
  | nil => simp
  | cons piece pieces ih =>
      have rest := length_spelled_le pieces
      cases piece with
      | literal c =>
          rw [countP_literal, List.filterMap_cons] at h
          by_cases hc : special c = true
          · simp only [Piece.spelled?, if_pos hc] at h
            omega
          · simp only [Piece.spelled?, if_neg hc, List.length_cons] at h
            exact List.forall_mem_cons.mpr
              ⟨by simpa [Piece.Plain] using hc, ih (Nat.le_of_succ_le_succ h)⟩
      | placeholder name =>
          rw [countP_placeholder, List.filterMap_cons] at h
          exact List.forall_mem_cons.mpr ⟨trivial, ih h⟩

/-- The answers of a template are those of the expression that it becomes. -/
theorem answers_of_compile {pieces : List Piece} (recognizable : ∀ p ∈ pieces, p.Recognizable)
    {url : Str} {params params' : Params} {accepted : Bool}
    (h : «match» (pieces.flatMap Piece.text) url params = .ok (accepted, params')) :
    ∃ n, compile (pieces.flatMap Piece.pattern) = .ok n ∧
      accepted = (regex_match n url).isSome := by
  simp only [«match», compile_re, bind, Except.bind, regex_replace_pieces recognizable] at h
  cases hn : compile (pieces.flatMap Piece.pattern) with
  | error e =>
      rw [hn] at h
      cases h
  | ok n =>
      refine ⟨n, rfl, ?_⟩
      rw [hn] at h
      cases found : regex_match n url with
      | none =>
          simp only [found] at h
          exact (Prod.mk.inj (Except.ok.inj h)).1.symm
      | some groups =>
          simp only [found] at h
          exact (Prod.mk.inj (Except.ok.inj h)).1.symm

section Conforming

variable {pieces : List Piece}

/-- A template whose answers are right for all urls is an expression for them. -/
theorem expression_of_conforming (recognizable : ∀ p ∈ pieces, p.Recognizable)
    (conforming : ∀ url, ∃ accepted params',
      «match» (pieces.flatMap Piece.text) url UnorderedMap.empty = .ok (accepted, params') ∧
        (accepted = true ↔ Fits pieces url)) :
    ∃ n, compile (pieces.flatMap Piece.pattern) = .ok n ∧
      ∀ url, (regex_match n url).isSome ↔ Fits pieces url := by
  obtain ⟨_, _, answered, -⟩ := conforming []
  obtain ⟨n, compiled, -⟩ := answers_of_compile recognizable answered
  refine ⟨n, compiled, fun url => ?_⟩
  obtain ⟨accepted, _, answered, meaning⟩ := conforming url
  obtain ⟨n', compiled', rfl⟩ := answers_of_compile recognizable answered
  obtain rfl := Except.ok.inj (compiled.symm.trans compiled')
  exact meaning

/-- Two characters that are in no literal of a flat template. -/
theorem absent (flat : ∀ p ∈ pieces, p.Flat) {c : Char} (hc : .literal c ∈ pieces) :
    c ≠ '(' ∧ c ≠ '[' := by
  have this := flat _ hc
  simp only [Piece.Flat, List.mem_cons, List.not_mem_nil, or_false, not_or] at this
  exact ⟨this.2.1, this.2.2.1⟩

theorem mem_of_mem_shortest {z c : Char} (h : c ∈ shortest z pieces) (other : c ≠ z) :
    .literal c ∈ pieces := by
  obtain ⟨piece, hpiece, hc⟩ := List.mem_map.mp h
  cases piece with
  | literal d =>
      obtain rfl : d = c := hc
      exact hpiece
  | placeholder name => exact absurd hc.symm other

/-- What accepts only urls of a flat template has no variant of the shortest one: an exchanged
character is missed, a slash is one too many, and no url is shorter. -/
theorem not_variant_shortest (flat : ∀ p ∈ pieces, p.Flat) {n : Node}
    (fits : ∀ url, Matches n true true url → Fits pieces url) :
    ¬ Variant n true true '(' (shortest '(' pieces) := by
  rintro (⟨u, c, v, split, other, all⟩ | ⟨u, v, split, h⟩ | ⟨u, c, v, split, -, h⟩)
  · let p : Char → Bool := fun d => d ≠ '(' && d ≠ '['
    have hp : ∀ d, .literal d ∈ pieces → p d = true := by
      intro d hd
      simp [p, absent flat hd]
    have present : .literal c ∈ pieces := mem_of_mem_shortest (by simp [split]) other
    have all := fits _ (all '[' (by decide) (by decide))
    have enough := all.countP_le hp
    have exactly : (shortest '(' pieces).countP p = pieces.countP Piece.isLiteral :=
      countP_shortest (by decide) hp
    have lost : p '[' ≠ true := by decide
    rw [split, List.countP_append, List.countP_cons_of_pos (hp c present)] at exactly
    rw [List.countP_append, List.countP_cons_of_neg lost] at enough
    omega
  · have slashes := (fits _ h).count_slash (z := '(') (by decide)
    rw [split, List.count_append, List.count_append, List.count_cons_self,
      List.count_cons_of_ne (by decide)] at slashes
    omega
  · have shorter := (fits _ h).length_le
    have length : (shortest '(' pieces).length = pieces.length := List.length_map _
    rw [split] at length
    simp only [List.length_append, List.length_cons] at length shorter
    omega

/-- A flat template whose answers are right for all urls has plain literals only: the shortest
url has no variant, so that each of its literals is spelled out in the expression. -/
theorem plain_of_conforming (recognizable : ∀ p ∈ pieces, p.Recognizable)
    (flat : ∀ p ∈ pieces, p.Flat) (separated : Separated pieces)
    (conforming : ∀ url, ∃ accepted params',
      «match» (pieces.flatMap Piece.text) url UnorderedMap.empty = .ok (accepted, params') ∧
        (accepted = true ↔ Fits pieces url)) :
    ∀ p ∈ pieces, p.Plain := by
  obtain ⟨n, compiled, accepts⟩ := expression_of_conforming recognizable conforming
  obtain ⟨flat', spelling⟩ := compile_flat flat separated compiled
  have matched : Matches n true true (shortest '(' pieces) :=
    flat'.regex_match_isSome.mp ((accepts _).mpr (fits_shortest (by decide) pieces))
  have fits (url : Str) (h : Matches n true true url) : Fits pieces url :=
    (accepts url).mp (flat'.regex_match_isSome.mpr h)
  have literals : (shortest '(' pieces).countP (· ≠ '(') = pieces.countP Piece.isLiteral :=
    countP_shortest (by decide) fun c hc => by simpa using (absent flat hc).1
  obtain variant | few := matched.variant_or (z := '(')
  · exact absurd variant (not_variant_shortest flat fits)
  · rw [literals, spelling] at few
    exact plain_of_countP_le few

end Conforming

end Mux.Dynamic
