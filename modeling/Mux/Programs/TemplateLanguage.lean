import Mathlib.Data.List.Forall2
import Mux.Programs.FlatTemplates

/-!
# The language of a URL template

A template is a list of segments, each a literal text or one whole placeholder.
It says which urls it should accept; the expression that `match` makes of it
accepts the same ones as long as no literal has a meaning of its own in an
expression.
-/

namespace Mux.Dynamic

open Regex

/-! ## Segments of a template -/

/-- A segment is a literal text or one whole placeholder. -/
inductive Segment where
  | literal (text : Str)
  | placeholder (name : Str)

namespace Segment

def text : Segment → Str
  | literal text => text
  | placeholder name => '{' :: (name ++ ['}'])

/-- What a template may have as a segment. -/
def Wellformed : Segment → Prop
  | literal text => '/' ∉ text ∧ '{' ∉ text ∧ '}' ∉ text
  | placeholder name => name ≠ [] ∧ '/' ∉ name

/-- What a segment of the url has to be. -/
def Holds : Segment → Str → Prop
  | literal text, part => part = text
  | placeholder _, part => part ≠ []

def pieces : Segment → List Piece
  | literal text => text.map .literal
  | placeholder name => [.placeholder name]

/-- The segment is written with certain characters. -/
def Over (literals names : Char → Prop) : Segment → Prop
  | literal text => ∀ c ∈ text, literals c
  | placeholder name => ∀ c ∈ name, names c

end Segment

def template (segments : List Segment) : Str := ['/'].intercalate (segments.map Segment.text)

/-- The pieces of a template. -/
def pieces (segments : List Segment) : List Piece :=
  [.literal '/'].intercalate (segments.map Segment.pieces)

theorem pieces_singleton (seg : Segment) : pieces [seg] = seg.pieces := by
  simp [pieces]

theorem pieces_cons_cons (seg next : Segment) (segments : List Segment) :
    pieces (seg :: next :: segments) =
      seg.pieces ++ (.literal '/' :: pieces (next :: segments)) := by
  simp [pieces, List.intercalate_cons_cons]

theorem flatMap_text_pieces (segments : List Segment) :
    (pieces segments).flatMap Piece.text = template segments := by
  have one : ∀ seg : Segment, seg.pieces.flatMap Piece.text = seg.text := by
    intro seg
    cases seg with
    | literal text => simp [Segment.pieces, Segment.text, List.flatMap_map, Piece.text]
    | placeholder name => simp [Segment.pieces, Segment.text, Piece.text]
  induction segments with
  | nil => rfl
  | cons seg segments ih =>
      cases segments with
      | nil => simpa [pieces, template] using one seg
      | cons next segments =>
          simp only [pieces, template, List.map_cons, List.intercalate_cons_cons,
            List.flatMap_append] at ih ⊢
          rw [ih, one]
          rfl

theorem fits_append {first second : List Piece} {url : Str} :
    Fits (first ++ second) url ↔
      ∃ front back, url = front ++ back ∧ Fits first front ∧ Fits second back := by
  induction first generalizing url with
  | nil => simp [Fits]
  | cons piece first ih =>
      cases piece with
      | literal c =>
          simp only [List.cons_append, Fits, ih]
          constructor
          · rintro ⟨_, rfl, front, back, rfl, hfront, hback⟩
            exact ⟨c :: front, back, rfl, ⟨front, rfl, hfront⟩, hback⟩
          · rintro ⟨_, back, rfl, ⟨front, rfl, hfront⟩, hback⟩
            exact ⟨front ++ back, rfl, front, back, rfl, hfront, hback⟩
      | placeholder name =>
          simp only [List.cons_append, Fits, ih]
          constructor
          · rintro ⟨text, _, nonempty, clean, rfl, front, back, rfl, hfront, hback⟩
            exact ⟨text ++ front, back, (List.append_assoc ..).symm,
              ⟨text, front, nonempty, clean, rfl, hfront⟩, hback⟩
          · rintro ⟨_, back, rfl, ⟨text, front, nonempty, clean, rfl, hfront⟩, hback⟩
            exact ⟨text, front ++ back, nonempty, clean, List.append_assoc ..,
              front, back, rfl, hfront, hback⟩

theorem fits_segment {seg : Segment} (wellformed : seg.Wellformed) {url : Str} :
    Fits seg.pieces url ↔ seg.Holds url ∧ '/' ∉ url := by
  cases seg with
  | literal text =>
      have spelled : ∀ text url : Str, Fits (text.map .literal) url ↔ url = text := by
        intro text
        induction text with
        | nil => intro url; rfl
        | cons c text ih => intro url; simp [Fits, ih]
      rw [Segment.pieces, spelled]
      constructor
      · rintro rfl
        exact ⟨rfl, wellformed.1⟩
      · exact And.left
  | placeholder name => simp [Segment.pieces, Segment.Holds, Fits]

theorem fits_pieces {segments : List Segment} (nonempty : segments ≠ [])
    (wellformed : ∀ seg ∈ segments, seg.Wellformed) {url : Str} :
    Fits (pieces segments) url ↔
      ∃ parts, List.Forall₂ (fun seg part => seg.Holds part ∧ '/' ∉ part) segments parts ∧
        url = ['/'].intercalate parts := by
  induction segments generalizing url with
  | nil => exact absurd rfl nonempty
  | cons seg segments ih =>
      obtain ⟨this, others⟩ := List.forall_mem_cons.mp wellformed
      cases segments with
      | nil =>
          rw [pieces_singleton, fits_segment this]
          constructor
          · intro h
            exact ⟨[url], .cons h .nil, by simp⟩
          · rintro ⟨_, h, rfl⟩
            obtain ⟨part, parts, hpart, hparts, rfl⟩ := List.forall₂_cons_left_iff.mp h
            rw [List.forall₂_nil_left_iff.mp hparts]
            simpa using hpart
      | cons next segments =>
          rw [pieces_cons_cons, fits_append]
          constructor
          · rintro ⟨front, _, rfl, hfront, ⟨back, rfl, hback⟩⟩
            obtain ⟨parts, hparts, rfl⟩ := (ih (List.cons_ne_nil next segments) others).mp hback
            refine ⟨front :: parts, .cons ((fits_segment this).mp hfront) hparts, ?_⟩
            obtain ⟨part, parts, -, -, rfl⟩ := List.forall₂_cons_left_iff.mp hparts
            simp [List.intercalate_cons_cons]
          · rintro ⟨_, h, rfl⟩
            obtain ⟨front, parts, hfront, hparts, rfl⟩ := List.forall₂_cons_left_iff.mp h
            refine ⟨front, '/' :: ['/'].intercalate parts, ?_, (fits_segment this).mpr hfront,
              ['/'].intercalate parts, rfl, ?_⟩
            · obtain ⟨part, parts, -, -, rfl⟩ := List.forall₂_cons_left_iff.mp hparts
              simp [List.intercalate_cons_cons]
            · exact (ih (List.cons_ne_nil next segments) others).mpr ⟨parts, hparts, rfl⟩

/-! ## Acceptance -/

/-- The pieces of a template fit the urls that have its segments, each in its place. -/
theorem fits_iff {segments : List Segment} (nonempty : segments ≠ [])
    (wellformed : ∀ seg ∈ segments, seg.Wellformed) {url : Str} :
    Fits (pieces segments) url ↔ List.Forall₂ Segment.Holds segments (url.splitOn '/') := by
  rw [fits_pieces nonempty wellformed]
  constructor
  · rintro ⟨parts, hparts, rfl⟩
    have clean : ∀ part ∈ parts, '/' ∉ part := by
      clear nonempty wellformed
      induction hparts with
      | nil => simp
      | cons h _ ih => exact List.forall_mem_cons.mpr ⟨h.2, ih⟩
    have parted : parts ≠ [] := by
      rintro rfl
      exact nonempty (List.forall₂_nil_right_iff.mp hparts)
    rw [List.splitOn_intercalate '/' clean parted]
    exact hparts.imp fun _ _ h => h.1
  · intro h
    refine ⟨url.splitOn '/', ?_, (List.intercalate_splitOn '/').symm⟩
    have clean : ∀ part ∈ url.splitOn '/', '/' ∉ part := fun part => Text.not_mem_splitOn
    generalize url.splitOn '/' = parts at h clean
    clear nonempty wellformed
    induction h with
    | nil => exact .nil
    | cons h _ ih =>
        obtain ⟨this, others⟩ := List.forall_mem_cons.mp clean
        exact .cons ⟨h, this⟩ (ih others)

/-- Every url gets the answer that the template says, without an exception. -/
def Conforms (segments : List Segment) : Prop :=
  ∀ url params, ∃ accepted params',
    «match» (template segments) url params = .ok (accepted, params') ∧
      (accepted = true ↔ List.Forall₂ Segment.Holds segments (url.splitOn '/'))

/-- The characters of a literal that mean something else in an expression. -/
def metacharacter (c : Char) : Bool :=
  c ∈ ['^', '$', '\\', '.', '*', '+', '?', '(', ')', '[', ']', '|']

theorem mem_pieces {segments : List Segment} {p : Piece} (h : p ∈ pieces segments) :
    p = .literal '/' ∨ ∃ seg ∈ segments, p ∈ seg.pieces := by
  induction segments with
  | nil => cases h
  | cons seg segments ih =>
      cases segments with
      | nil => exact .inr ⟨seg, List.mem_cons_self, pieces_singleton seg ▸ h⟩
      | cons next segments =>
          rw [pieces_cons_cons, List.mem_append, List.mem_cons] at h
          obtain h | h | h := h
          · exact .inr ⟨seg, List.mem_cons_self, h⟩
          · exact .inl h
          · obtain h | ⟨other, hother, h⟩ := ih h
            · exact .inl h
            · exact .inr ⟨other, List.mem_cons_of_mem seg hother, h⟩

theorem mem_pieces_of_mem {segments : List Segment} {seg : Segment} (hseg : seg ∈ segments)
    {p : Piece} (hp : p ∈ seg.pieces) : p ∈ pieces segments := by
  induction segments with
  | nil => cases hseg
  | cons first segments ih =>
      cases segments with
      | nil =>
          rw [pieces_singleton]
          exact List.mem_singleton.mp hseg ▸ hp
      | cons next segments =>
          rw [pieces_cons_cons]
          obtain rfl | hseg := List.mem_cons.mp hseg
          · exact List.mem_append_left _ hp
          · exact List.mem_append_right _ (List.mem_cons_of_mem _ (ih hseg))

/-- The segments of a template are separated by slashes. -/
theorem separated_pieces (segments : List Segment) : Separated (pieces segments) := by
  have one : ∀ (seg : Segment) {rest : List Piece},
      (rest = [] ∨ ∃ more, rest = .literal '/' :: more) →
      Separated rest → Separated (seg.pieces ++ rest) := by
    intro seg rest behind separated
    cases seg with
    | placeholder name => exact ⟨behind, separated⟩
    | literal text =>
        induction text with
        | nil => exact separated
        | cons c text ih => exact ih
  induction segments with
  | nil => trivial
  | cons seg segments ih =>
      cases segments with
      | nil =>
          rw [pieces_singleton, ← List.append_nil seg.pieces]
          exact one seg (.inl rfl) trivial
      | cons next segments =>
          rw [pieces_cons_cons]
          exact one seg (.inr ⟨_, rfl⟩) ih

/-- No literal has a metacharacter and no name has a closing brace. -/
def Plain (segments : List Segment) : Prop :=
  ∀ seg ∈ segments, seg.Over (metacharacter · = false) (· ≠ '}')

/-- No literal has a backslash or an opening parenthesis or bracket, and no name has a closing
brace. -/
def Modest (segments : List Segment) : Prop :=
  ∀ seg ∈ segments, seg.Over (· ∉ ['\\', '(', '[']) (· ≠ '}')

theorem Plain.modest {segments : List Segment} (h : Plain segments) : Modest segments := by
  intro seg hseg
  have chars := h seg hseg
  cases seg with
  | placeholder name => exact chars
  | literal text =>
      intro c hc member
      have ordinary : metacharacter c = false := chars c hc
      have meaningful : ∀ c ∈ ['\\', '(', '['], metacharacter c = true := by
        simp [metacharacter]
      rw [meaningful c member] at ordinary
      cases ordinary

section Templates

variable {segments : List Segment}

theorem special_eq_metacharacter {c : Char} (opening : c ≠ '{') (closing : c ≠ '}') :
    special c = metacharacter c := by
  simp [special, metacharacter, opening, closing]

theorem recognizable_pieces (wellformed : ∀ seg ∈ segments, seg.Wellformed)
    (modest : Modest segments) : ∀ p ∈ pieces segments, p.Recognizable ∧ p.Flat := by
  intro p h
  obtain rfl | ⟨seg, hseg, h⟩ := mem_pieces h
  · refine ⟨fun h => absurd h (by decide), ?_⟩
    change '/' ∉ _
    decide
  · have this := wellformed seg hseg
    have chars := modest seg hseg
    cases seg with
    | literal text =>
        obtain ⟨c, hc, rfl⟩ := List.mem_map.mp h
        have opening : c ≠ '{' := fun h => this.2.1 (h ▸ hc)
        have closing : c ≠ '}' := fun h => this.2.2 (h ▸ hc)
        have quiet := chars c hc
        refine ⟨opening, ?_⟩
        simp only [Piece.Flat, List.mem_cons, List.not_mem_nil, or_false, not_or] at quiet ⊢
        exact ⟨quiet.1, quiet.2.1, quiet.2.2, opening, closing⟩
    | placeholder name =>
        obtain rfl := List.mem_singleton.mp h
        exact ⟨⟨this.1, fun h => chars '}' h rfl⟩, trivial⟩

/-- The segments are plain when their pieces are. -/
theorem plain_iff (wellformed : ∀ seg ∈ segments, seg.Wellformed) (modest : Modest segments) :
    (∀ p ∈ pieces segments, p.Plain) ↔ Plain segments := by
  have same {text : Str} {c : Char} (hseg : .literal text ∈ segments) (hc : c ∈ text) :
      special c = metacharacter c := by
    have this := wellformed _ hseg
    exact special_eq_metacharacter (fun h => this.2.1 (h ▸ hc)) fun h => this.2.2 (h ▸ hc)
  constructor
  · intro plain seg hseg
    cases seg with
    | placeholder name => exact modest _ hseg
    | literal text =>
        intro c hc
        have hp : Piece.literal c ∈ Segment.pieces (.literal text) := List.mem_map_of_mem hc
        exact (same hseg hc).symm.trans (plain _ (mem_pieces_of_mem hseg hp))
  · intro plain p hp
    obtain rfl | ⟨seg, hseg, hp⟩ := mem_pieces hp
    · rfl
    · cases seg with
      | placeholder name =>
          obtain rfl := List.mem_singleton.mp hp
          trivial
      | literal text =>
          obtain ⟨c, hc, rfl⟩ := List.mem_map.mp hp
          exact (same hseg hc).trans (plain _ hseg c hc)

/-- Templates whose literals are free of metacharacters are matched as they should be. -/
theorem conforms (nonempty : segments ≠ []) (wellformed : ∀ seg ∈ segments, seg.Wellformed)
    (plain : Plain segments) : Conforms segments := by
  have recognizable := recognizable_pieces wellformed plain.modest
  intro url params
  have answer := match_pieces (fun p h => (recognizable p h).1)
    ((plain_iff wellformed plain.modest).mpr plain) url params
  rw [flatMap_text_pieces, fits_iff nonempty wellformed] at answer
  exact answer

/-- A modest template that is matched as it should be is free of metacharacters. -/
theorem Conforms.plain (nonempty : segments ≠ []) (wellformed : ∀ seg ∈ segments, seg.Wellformed)
    (modest : Modest segments) (h : Conforms segments) : Plain segments := by
  have recognizable := recognizable_pieces wellformed modest
  refine (plain_iff wellformed modest).mp (plain_of_conforming (fun p h => (recognizable p h).1)
    (fun p h => (recognizable p h).2) (separated_pieces segments) fun url => ?_)
  rw [flatMap_text_pieces, fits_iff nonempty wellformed]
  exact h url UnorderedMap.empty

/-- A template is matched as it should be when it is free of metacharacters, and a modest
template only then. -/
theorem conforms_iff (nonempty : segments ≠ []) (wellformed : ∀ seg ∈ segments, seg.Wellformed) :
    (Plain segments → Conforms segments) ∧
      (Modest segments → Conforms segments → Plain segments) :=
  ⟨conforms nonempty wellformed, fun modest h => h.plain nonempty wellformed modest⟩

end Templates

/-- The template of the program's `main`. -/
def users : List Segment := [.literal [], .literal "users".toList, .placeholder "id".toList]

theorem users_wellformed : ∀ seg ∈ users, seg.Wellformed := by
  intro seg h
  simp only [users, List.mem_cons, List.not_mem_nil, or_false] at h
  obtain rfl | rfl | rfl := h
  · exact ⟨by decide, by decide, by decide⟩
  · exact ⟨by decide, by decide, by decide⟩
  · exact ⟨by decide, by decide⟩

theorem users_plain : Plain users := by
  intro seg h
  simp only [users, List.mem_cons, List.not_mem_nil, or_false] at h
  obtain rfl | rfl | rfl := h
  · exact fun c hc => absurd hc List.not_mem_nil
  · have letters : "users".toList.all (fun c => metacharacter c = false) = true := by decide
    exact fun c hc => of_decide_eq_true (List.all_eq_true.mp letters c hc)
  · have letters : "id".toList.all (fun c => c ≠ '}') = true := by decide
    exact fun c hc => of_decide_eq_true (List.all_eq_true.mp letters c hc)

theorem users_conforms : Conforms users :=
  (conforms_iff (List.cons_ne_nil _ _) users_wellformed).1 users_plain

/-- What `match` answers, when it does not throw. -/
def answer (templateUrl url : Str) : Option Bool :=
  ((«match» templateUrl url UnorderedMap.empty).map Prod.fst).toOption

theorem Conforms.answer {segments : List Segment} (h : Conforms segments) (url : Str) :
    ∃ accepted, answer (template segments) url = some accepted ∧
      (accepted = true ↔ List.Forall₂ Segment.Holds segments (url.splitOn '/')) := by
  obtain ⟨accepted, params', answered, meaning⟩ := h url UnorderedMap.empty
  exact ⟨accepted, by rw [Dynamic.answer, answered]; rfl, meaning⟩

/-- A template that is one metacharacter is not matched as it should be. -/
theorem not_conforms_metacharacter {c : Char} (h : metacharacter c = true) :
    ¬ Conforms [.literal [c]] := by
  intro conforming
  -- most are no expressions, an anchor or a bar alone is empty, and a dot is any character
  have refused : ['\\', '*', '+', '?', '(', ')', '[', ']'].all
      (fun c => answer [c] [c] = none) = true := by decide
  have missed : ['^', '$', '|'].all (fun c => answer [c] [c] = some false) = true := by decide
  have matched : answer ['.'] ['a'] = some true := by decide
  have kinds : c ∈ ['\\', '*', '+', '?', '(', ')', '[', ']'] ∨ c ∈ ['^', '$', '|'] ∨ c = '.' := by
    have member : c ∈ ['^', '$', '\\', '.', '*', '+', '?', '(', ')', '[', ']', '|'] :=
      of_decide_eq_true h
    simp only [List.mem_cons, List.not_mem_nil, or_false] at member ⊢
    grind
  obtain hc | hc | rfl := kinds
  · obtain ⟨accepted, answered, -⟩ := conforming.answer [c]
    have none := of_decide_eq_true (List.all_eq_true.mp refused c hc)
    cases none.symm.trans answered
  · obtain ⟨accepted, answered, meaning⟩ := conforming.answer [c]
    have slash : '/' ∉ [c] := by
      intro h
      obtain rfl := List.mem_singleton.mp h
      exact absurd hc (by decide)
    have whole : List.Forall₂ Segment.Holds [.literal [c]] ([c].splitOn '/') := by
      rw [List.splitOn_eq_singleton slash]
      exact .cons rfl .nil
    have rejected := of_decide_eq_true (List.all_eq_true.mp missed c hc)
    have same : some false = some accepted := rejected.symm.trans answered
    rw [meaning.mpr whole] at same
    cases same
  · obtain ⟨accepted, answered, meaning⟩ := conforming.answer ['a']
    obtain rfl : true = accepted := Option.some.inj (matched.symm.trans answered)
    obtain ⟨part, parts, hpart, -, hparts⟩ := List.forall₂_cons_left_iff.mp (meaning.mp rfl)
    have apart : ['a'].splitOn '/' = [['a']] := by decide
    obtain rfl := (List.cons.inj (apart.symm.trans hparts)).1
    have different : ['a'] ≠ ['.'] := by decide
    exact different hpart

/-- For templates over given sets of characters: all of them conform exactly when no
metacharacter can stand in a literal and no closing brace in a name. -/
theorem conforms_over_iff (literals names : Char → Prop) :
    (∀ segments : List Segment, segments ≠ [] →
        (∀ seg ∈ segments, seg.Wellformed ∧ seg.Over literals names) → Conforms segments) ↔
      (∀ c, literals c → metacharacter c = false) ∧ ¬ names '}' := by
  constructor
  · intro all
    refine ⟨fun c hc => ?_, fun h => ?_⟩
    · by_contra meaningful
      have meaningful : metacharacter c = true := by simpa using meaningful
      refine not_conforms_metacharacter meaningful (all _ (List.cons_ne_nil _ _) ?_)
      intro seg hseg
      obtain rfl := List.mem_singleton.mp hseg
      have ordinary : c ≠ '/' ∧ c ≠ '{' ∧ c ≠ '}' := by
        refine ⟨?_, ?_, ?_⟩
        all_goals
          rintro rfl
          exact absurd meaningful (by decide)
      refine ⟨⟨?_, ?_, ?_⟩, fun d hd => List.mem_singleton.mp hd ▸ hc⟩
      · simpa using ordinary.1.symm
      · simpa using ordinary.2.1.symm
      · simpa using ordinary.2.2.symm
    · have conforming : Conforms [.placeholder ['}']] := by
        refine all _ (List.cons_ne_nil _ _) ?_
        intro seg hseg
        obtain rfl := List.mem_singleton.mp hseg
        exact ⟨⟨List.cons_ne_nil _ _, by decide⟩, fun d hd => List.mem_singleton.mp hd ▸ h⟩
      obtain ⟨accepted, answered, -⟩ := conforming.answer []
      have refused : answer "\x7b\x7d\x7d".toList [] = none := by decide
      cases refused.symm.trans answered
  · rintro ⟨plain, clean⟩ segments nonempty good
    refine conforms nonempty (fun seg h => (good seg h).1) fun seg h => ?_
    have chars := (good seg h).2
    cases seg with
    | literal text => exact fun c hc => plain c (chars c hc)
    | placeholder name => exact fun c hc brace => clean (brace ▸ chars c hc)

/-- A dot of a literal is matched by any character. -/
theorem not_conforms_dot :
    ¬ Conforms [.literal [], .literal "v1.0".toList, .placeholder "id".toList] := by
  intro conforming
  obtain ⟨accepted, answered, meaning⟩ := conforming.answer "/v1x0/7".toList
  have matched : answer "/v1.0/\x7bid\x7d".toList "/v1x0/7".toList = some true := by decide
  obtain rfl : true = accepted := Option.some.inj (matched.symm.trans answered)
  obtain ⟨_, _, -, behind, hparts⟩ := List.forall₂_cons_left_iff.mp (meaning.mp rfl)
  obtain ⟨part, _, hpart, -, rfl⟩ := List.forall₂_cons_left_iff.mp behind
  have apart : "/v1x0/7".toList.splitOn '/' = [[], "v1x0".toList, "7".toList] := by decide
  obtain rfl := (List.cons.inj (List.cons.inj (apart.symm.trans hparts)).2).1
  have different : "v1x0".toList ≠ "v1.0".toList := by decide
  exact different hpart

end Mux.Dynamic
