import Mux.Programs.Dynamic

/-!
# Flat expressions

Characters and dots, repeated or not, anchors and bars, and the groups of
placeholders. Such an expression cannot be tied to one text without spelling it:
a text that it matches is made up of its own characters, one for each, or it
matches a variant of the text as well.
-/

namespace Mux.Dynamic

open Regex

theorem isEmpty_append (text text' : Str) :
    (text ++ text').isEmpty = (text.isEmpty && text'.isEmpty) := by
  cases text <;> rfl

/-- A character or a dot, with what it matches. -/
inductive IsAtom : Node → (Char → Bool) → Prop where
  | char (c : Char) : IsAtom (.char c) (· = c)
  | any : IsAtom .any (!isLineTerminator ·)

theorem IsAtom.outcomes {a : Node} {p : Char → Bool} (h : IsAtom a p) (s : Cursor) :
    a.outcomes s = s.one p := by
  cases h <;> rfl

theorem IsAtom.groups {a : Node} {p : Char → Bool} (h : IsAtom a p) : a.groups = [] := by
  cases h <;> rfl

inductive Flat : Node → Prop where
  | empty : Flat .empty
  | start : Flat .start
  | finish : Flat .finish
  | atom {a : Node} {p : Char → Bool} (h : IsAtom a p) : Flat a
  | repeated {a : Node} {p : Char → Bool} {min : Nat} {max : Option Nat} {greedy : Bool}
      (h : IsAtom a p) (least : min ≤ 1) : Flat (.repeated a min max greedy)
  | group (index : Nat) : Flat (excluding '/' index)
  | seq {a b : Node} (first : Flat a) (second : Flat b) : Flat (.seq a b)
  | alt {a b : Node} (first : Flat a) (second : Flat b) : Flat (.alt a b)

/-- The texts that a flat expression matches at the start of the url or behind it, and at its
end or before it. -/
inductive Matches : Node → Bool → Bool → Str → Prop where
  | empty {first last : Bool} : Matches .empty first last []
  | start {last : Bool} : Matches .start true last []
  | finish {first : Bool} : Matches .finish first true []
  | atom {first last : Bool} {a : Node} {p : Char → Bool} {c : Char} (h : IsAtom a p)
      (hc : p c = true) : Matches a first last [c]
  | repeated {first last : Bool} {a : Node} {p : Char → Bool} {min : Nat} {max : Option Nat}
      {greedy : Bool} {text : Str} (h : IsAtom a p) (least : min ≤ 1)
      (htext : ∀ c ∈ text, p c = true) (turns : Turns min max text.length) :
      Matches (.repeated a min max greedy) first last text
  | group {first last : Bool} {index : Nat} {text : Str} (nonempty : text ≠ [])
      (clean : '/' ∉ text) : Matches (excluding '/' index) first last text
  | seq {first last : Bool} {a b : Node} {text text' : Str}
      (before : Matches a first (text'.isEmpty && last) text)
      (behind : Matches b (text.isEmpty && first) last text') :
      Matches (.seq a b) first last (text ++ text')
  | left {first last : Bool} {a b : Node} {text : Str} (h : Matches a first last text) :
      Matches (.alt a b) first last text
  | right {first last : Bool} {a b : Node} {text : Str} (h : Matches b first last text) :
      Matches (.alt a b) first last text

/-- What a flat expression consumes is a text that it matches. -/
theorem Flat.matches {n : Node} (h : Flat n) {s later : Cursor} (hlater : later ∈ n.outcomes s) :
    ∃ text, s.rest = text ++ later.rest ∧ later.before = text.reverse ++ s.before ∧
      Matches n s.before.isEmpty later.rest.isEmpty text := by
  induction h generalizing s later with
  | empty =>
      obtain rfl := List.mem_singleton.mp hlater
      exact ⟨[], rfl, rfl, .empty⟩
  | start =>
      simp only [Node.outcomes] at hlater
      split at hlater
      · next atStart =>
          obtain rfl := List.mem_singleton.mp hlater
          rw [atStart]
          exact ⟨[], rfl, rfl, .start⟩
      · cases hlater
  | finish =>
      simp only [Node.outcomes] at hlater
      split at hlater
      · next atEnd =>
          obtain rfl := List.mem_singleton.mp hlater
          rw [atEnd]
          exact ⟨[], rfl, rfl, .finish⟩
      · cases hlater
  | atom h =>
      rw [h.outcomes] at hlater
      obtain ⟨c, rest, hrest, hc, rfl⟩ := Cursor.mem_one.mp hlater
      exact ⟨[c], hrest, rfl, .atom h hc⟩
  | repeated h least =>
      rw [Node.mem_outcomes_repeated_one fun s => by
        rw [h.groups, Cursor.forget_nil, h.outcomes]] at hlater
      obtain ⟨text, rest, hsplit, htext, turns, rfl⟩ := hlater
      exact ⟨text, hsplit, rfl, .repeated h least htext turns⟩
  | group index =>
      obtain ⟨text, rest, nonempty, clean, hsplit, rfl⟩ := mem_outcomes_excluding.mp hlater
      exact ⟨text, hsplit, rfl, .group nonempty clean⟩
  | seq _ _ ihFirst ihSecond =>
      obtain ⟨middle, hmiddle, hlater⟩ := Node.mem_outcomes_seq.mp hlater
      obtain ⟨text, hsplit, hbefore, before⟩ := ihFirst hmiddle
      obtain ⟨text', hsplit', hbefore', behind⟩ := ihSecond hlater
      rw [hsplit', isEmpty_append] at before
      rw [hbefore, isEmpty_append, List.isEmpty_reverse] at behind
      refine ⟨text ++ text', ?_, ?_, .seq before behind⟩
      · rw [hsplit, hsplit', List.append_assoc]
      · rw [hbefore', hbefore, List.reverse_append, List.append_assoc]
  | alt _ _ ihFirst ihSecond =>
      obtain hlater | hlater := List.mem_append.mp hlater
      · obtain ⟨text, hsplit, hbefore, h⟩ := ihFirst hlater
        exact ⟨text, hsplit, hbefore, .left h⟩
      · obtain ⟨text, hsplit, hbefore, h⟩ := ihSecond hlater
        exact ⟨text, hsplit, hbefore, .right h⟩

/-- A text that a flat expression matches can be consumed by it. -/
theorem Matches.outcome {n : Node} {first last : Bool} {text : Str}
    (h : Matches n first last text) {s : Cursor} {rest : Str} (hsplit : s.rest = text ++ rest)
    (hfirst : s.before.isEmpty = first) (hlast : rest.isEmpty = last) :
    ∃ later ∈ n.outcomes s, later.rest = rest ∧ later.before = text.reverse ++ s.before := by
  induction h generalizing s rest with
  | empty => exact ⟨s, List.mem_singleton.mpr rfl, hsplit, rfl⟩
  | start =>
      have atStart : s.before = [] := List.isEmpty_iff.mp hfirst
      exact ⟨s, by simp [Node.outcomes, atStart], hsplit, rfl⟩
  | finish =>
      have atEnd : s.rest = [] := by rw [hsplit, List.isEmpty_iff.mp hlast]; rfl
      exact ⟨s, by simp [Node.outcomes, atEnd], hsplit, rfl⟩
  | atom h hc =>
      refine ⟨s.past [_] rest, ?_, rfl, rfl⟩
      rw [h.outcomes]
      exact Cursor.mem_one.mpr ⟨_, rest, hsplit, hc, rfl⟩
  | repeated h least htext turns =>
      refine ⟨s.past _ rest, ?_, rfl, rfl⟩
      rw [Node.mem_outcomes_repeated_one fun s => by rw [h.groups, Cursor.forget_nil, h.outcomes]]
      exact ⟨_, rest, hsplit, htext, turns, rfl⟩
  | group nonempty clean =>
      exact ⟨_, mem_outcomes_excluding.mpr ⟨_, rest, nonempty, clean, hsplit, rfl⟩, rfl, rfl⟩
  | @seq first last a b text text' _ _ ihBefore ihBehind =>
      rw [List.append_assoc] at hsplit
      obtain ⟨middle, hmiddle, hrest, hbefore⟩ :=
        ihBefore hsplit hfirst (by rw [isEmpty_append, hlast])
      obtain ⟨later, hlater, hrest', hbefore'⟩ := ihBehind hrest
        (by rw [hbefore, isEmpty_append, List.isEmpty_reverse, hfirst]) hlast
      refine ⟨later, Node.mem_outcomes_seq.mpr ⟨middle, hmiddle, hlater⟩, hrest', ?_⟩
      rw [hbefore', hbefore, List.reverse_append, List.append_assoc]
  | left _ ih =>
      obtain ⟨later, hlater, hrest⟩ := ih hsplit hfirst hlast
      exact ⟨later, List.mem_append_left _ hlater, hrest⟩
  | right _ ih =>
      obtain ⟨later, hlater, hrest⟩ := ih hsplit hfirst hlast
      exact ⟨later, List.mem_append_right _ hlater, hrest⟩

/-- A flat expression accepts the whole texts that it matches. -/
theorem Flat.regex_match_isSome {n : Node} (h : Flat n) {url : Str} :
    (regex_match n url).isSome ↔ Matches n true true url := by
  rw [Regex.regex_match_isSome]
  constructor
  · rintro ⟨later, hlater, hrest⟩
    obtain ⟨text, hsplit, -, matched⟩ := h.matches hlater
    rw [hrest, List.append_nil] at hsplit
    rw [hrest] at matched
    rw [show url = text from hsplit]
    exact matched
  · intro matched
    obtain ⟨later, hlater, hrest, -⟩ := matched.outcome
      (s := { before := [], rest := url }) (List.append_nil url).symm rfl rfl
    exact ⟨later, hlater, hrest⟩

/-! ## Variants of a text -/

/-- The characters that a pattern spells out. -/
def spelled : Node → List Char
  | .char c => [c]
  | .seq a b => spelled a ++ spelled b
  | .alt a b => spelled a ++ spelled b
  | .group _ a => spelled a
  | .lookahead _ a => spelled a
  | .repeated a _ _ _ => spelled a
  | _ => []

/-- Another text that an expression matches: a character other than `z` can be exchanged, a
`z` can be a slash, or a character can be left out. -/
inductive Variant (n : Node) (first last : Bool) (z : Char) (text : Str) : Prop where
  | exchanged (u : Str) (c : Char) (v : Str) (split : text = u ++ c :: v) (other : c ≠ z)
      (all : ∀ d, d ≠ '/' → isLineTerminator d = false → Matches n first last (u ++ d :: v))
  | slashed (u v : Str) (split : text = u ++ z :: v) (h : Matches n first last (u ++ '/' :: v))
  | shortened (u : Str) (c : Char) (v : Str) (split : text = u ++ c :: v) (nonempty : u ++ v ≠ [])
      (h : Matches n first last (u ++ v))

/-- A variant of a part is a variant of the whole. -/
theorem Variant.within {a n : Node} {first last first' last' : Bool} {z : Char} {text : Str}
    (h : Variant a first' last' z text) (before behind : Str)
    (lift : ∀ part, part ≠ [] → Matches a first' last' part →
      Matches n first last (before ++ part ++ behind)) :
    Variant n first last z (before ++ text ++ behind) := by
  have split : ∀ u v : Str, ∀ part : Str, before ++ (u ++ part ++ v) ++ behind =
      (before ++ u) ++ part ++ (v ++ behind) := by
    intro u v part
    simp
  cases h with
  | exchanged u c v hsplit other all =>
      refine .exchanged (before ++ u) c (v ++ behind) (by simp [hsplit]) other ?_
      intro d slash line
      have whole := lift (u ++ d :: v) (by simp) (all d slash line)
      simpa using whole
  | slashed u v hsplit h =>
      refine .slashed (before ++ u) (v ++ behind) (by simp [hsplit]) ?_
      have whole := lift (u ++ '/' :: v) (by simp) h
      simpa using whole
  | shortened u c v hsplit nonempty h =>
      refine .shortened (before ++ u) c (v ++ behind) (by simp [hsplit]) ?_ ?_
      · intro none
        refine nonempty (List.append_eq_nil_iff.mpr ?_)
        simp only [List.append_eq_nil_iff] at none
        exact ⟨none.1.2, none.2.1⟩
      · have whole := lift (u ++ v) nonempty h
        simpa using whole

theorem Variant.ne_nil {n : Node} {first last : Bool} {z : Char} {text : Str}
    (h : Variant n first last z text) : text ≠ [] := by
  rintro rfl
  cases h with
  | exchanged u c v split => simp at split
  | slashed u v split => simp at split
  | shortened u c v split => simp at split

/-- A character that can be any but a line terminator gives a variant. -/
theorem Variant.of_any {n : Node} {first last : Bool} {z : Char} {text : Str} (u : Str) (c : Char)
    (v : Str) (split : text = u ++ c :: v)
    (all : ∀ d, isLineTerminator d = false → Matches n first last (u ++ d :: v)) :
    Variant n first last z text := by
  by_cases same : c = z
  · subst same
    exact .slashed u v split (all '/' (by decide))
  · exact .exchanged u c v split same fun d _ line => all d line

theorem atom_any {first last : Bool} {d : Char} (line : isLineTerminator d = false) :
    Matches .any first last [d] :=
  .atom .any (by rw [line]; rfl)

/-- Two characters of a row can be one. -/
theorem Matches.shorten {first last : Bool} {a : Node} {p : Char → Bool} {min : Nat}
    {max : Option Nat} {greedy : Bool} {c : Char} {text : Str} (h : IsAtom a p) (least : min ≤ 1)
    (nonempty : text ≠ []) (htext : ∀ d ∈ text, p d = true)
    (turns : Turns min max (c :: text).length) :
    Matches (.repeated a min max greedy) first last text := by
  have positive := List.length_pos_of_ne_nil nonempty
  refine .repeated h least htext ⟨by omega, fun m hm => ?_⟩
  have few := turns.2 m hm
  rw [List.length_cons] at few
  omega

/-- In the text of a group each character other than `z` can be exchanged. -/
theorem variant_group {first last : Bool} {z : Char} {text : Str} (index : Nat)
    (clean : '/' ∉ text) :
    Variant (excluding '/' index) first last z text ∨ text.countP (· ≠ z) = 0 := by
  by_cases all : ∀ c ∈ text, c = z
  · right
    rw [List.countP_eq_zero]
    intro c hc
    simp [all c hc]
  · left
    push Not at all
    obtain ⟨c, hc, other⟩ := all
    obtain ⟨u, v, rfl⟩ := List.append_of_mem hc
    refine .exchanged u c v rfl other fun d slash _ => .group (by simp) ?_
    simp only [List.mem_append, List.mem_cons, not_or] at clean ⊢
    exact ⟨clean.1, slash.symm, clean.2.2⟩

/-- A variant of the one part of a sequence leaves the other part what it was: neither of the
two texts is empty. -/
theorem Variant.seq_left {a b : Node} {first last : Bool} {z : Char} {text text' : Str}
    (h : Variant a first (text'.isEmpty && last) z text)
    (behind : Matches b (text.isEmpty && first) last text') :
    Variant (.seq a b) first last z (text ++ text') := by
  have lifted : Variant (.seq a b) first last z ([] ++ text ++ text') :=
    h.within [] text' fun part nonempty matched => by
      rw [List.isEmpty_eq_false_iff.mpr h.ne_nil, ← List.isEmpty_eq_false_iff.mpr nonempty]
        at behind
      exact .seq matched behind
  simpa using lifted

theorem Variant.seq_right {a b : Node} {first last : Bool} {z : Char} {text text' : Str}
    (h : Variant b (text.isEmpty && first) last z text')
    (before : Matches a first (text'.isEmpty && last) text) :
    Variant (.seq a b) first last z (text ++ text') := by
  have lifted : Variant (.seq a b) first last z (text ++ text' ++ []) :=
    h.within text [] fun part nonempty matched => by
      rw [List.isEmpty_eq_false_iff.mpr h.ne_nil, ← List.isEmpty_eq_false_iff.mpr nonempty]
        at before
      rw [List.append_nil]
      exact .seq before matched
  simpa using lifted

theorem Variant.alt {a b : Node} {first last : Bool} {z : Char} {text : Str}
    (h : Variant a first last z text ∨ Variant b first last z text) :
    Variant (.alt a b) first last z text := by
  obtain h | h := h
  · simpa using h.within [] [] fun part _ matched => by simpa using Matches.left matched
  · simpa using h.within [] [] fun part _ matched => by simpa using Matches.right matched

/-- A text without a variant has at most as many characters other than `z` as are spelled out. -/
theorem Matches.variant_or {n : Node} {first last : Bool} {text : Str} {z : Char}
    (h : Matches n first last text) :
    Variant n first last z text ∨ text.countP (· ≠ z) ≤ (spelled n).length := by
  induction h with
  | empty => exact .inr (Nat.zero_le _)
  | start => exact .inr (Nat.zero_le _)
  | finish => exact .inr (Nat.zero_le _)
  | @atom first last a p c h hc =>
      cases h with
      | char d => exact .inr List.countP_le_length
      | any => exact .inl (.of_any [] c [] rfl fun d line => atom_any line)
  | @repeated first last a p min max greedy text h least htext turns =>
      cases text with
      | nil => exact .inr (Nat.zero_le _)
      | cons c text =>
          obtain ⟨hc, others⟩ := List.forall_mem_cons.mp htext
          cases h with
          | char d =>
              by_cases single : text = []
              · subst single
                exact .inr List.countP_le_length
              · exact .inl (.shortened [] c text rfl single
                  (Matches.shorten (.char d) least single others turns))
          | any =>
              refine .inl (.of_any [] c text rfl fun d line => .repeated .any least ?_ turns)
              exact List.forall_mem_cons.mpr ⟨by rw [line]; rfl, others⟩
  | @group first last index text _ clean =>
      obtain variant | none := variant_group index clean
      · exact .inl variant
      · exact .inr (none ▸ Nat.zero_le _)
  | @seq first last a b text text' before behind ihBefore ihBehind =>
      obtain variant | few := ihBefore
      · exact .inl (variant.seq_left behind)
      · obtain variant | few' := ihBehind
        · exact .inl (variant.seq_right before)
        · right
          rw [spelled, List.length_append, List.countP_append]
          exact Nat.add_le_add few few'
  | left _ ih =>
      obtain variant | few := ih
      · exact .inl (.alt (.inl variant))
      · exact .inr (few.trans (by simp [spelled]))
  | right _ ih =>
      obtain variant | few := ih
      · exact .inl (.alt (.inr variant))
      · exact .inr (few.trans (by simp [spelled]))

end Mux.Dynamic
