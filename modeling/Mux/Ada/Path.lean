import Mux.Ada.CharacterSets
import Mux.Ada.Scheme
import Mux.Ada.Unicode
import Mux.Library.RootedPath

/-!
# Paths

`parsePreparedPath` appends the part of the input behind the first slash to the
path. It has three ways to do so. A text without anything to resolve is copied
as a whole; a text with plain dots only is resolved segment by segment; every
other text is percent-encoded on the way, with the rules for drive letters of
file URLs.
-/

namespace Mux.Ada

open Text CharacterSets Unicode Scheme RootedPath

namespace Checkers

def isDigit (x : Char) : Bool := x ≥ '0' && x ≤ '9'

/-- The case bit is set before the comparison. -/
def isAlpha (x : Char) : Bool :=
  'a'.toNat ≤ x.toNat ||| 0x20 && x.toNat ||| 0x20 ≤ 'z'.toNat

def isWindowsDriveLetter : Str → Bool
  | letter :: sign :: rest =>
      isAlpha letter && (sign = ':' || sign = '|') &&
        match rest with
        | [] => true
        | c :: _ => c = '/' || c = '\\' || c = '?' || c = '#'
  | _ => false

def isNormalizedWindowsDriveLetter : Str → Bool
  | letter :: sign :: _ => isAlpha letter && sign = ':'
  | _ => false

def pathSignatureTable (c : Char) : Nat :=
  let i := c.toNat
  if i ≤ 0x20 ∨ i = 0x22 ∨ i = 0x23 ∨ i = 0x3c ∨ i = 0x3e ∨ i = 0x3f ∨ i = 0x60 ∨ i = 0x7b ∨
      i = 0x7b ∨ i = 0x7d ∨ i > 0x7e then 1
  else if i = 0x25 then 8
  else if i = 0x2e then 4
  else if i = 0x5c then 2
  else 0

def pathSignature (input : Str) : Nat :=
  input.foldl (fun accumulator c => accumulator ||| pathSignatureTable c) 0

end Checkers

open Checkers

/-- Remove the last segment, unless it is the drive letter of a file URL, and
say whether it was removed. -/
def shortenPath (path : Str) (type : Kind) : Str × Bool :=
  if type = .FILE ∧ '/' ∉ path.drop 1 ∧ path ≠ [] ∧
      isNormalizedWindowsDriveLetter (path.drop 1) then
    (path, false)
  else match rfind '/' path with
    | some last_delimiter => (path.take last_delimiter, true)
    | none => (path, false)

namespace PreparedPath

def need_encoding : Nat := 1
def backslash_char : Nat := 2
def dot_char : Nat := 4
def percent_char : Nat := 8

/-- The text needs none of the work below. Of the segments that start with a dot
behind a slash only the first one is looked at. -/
def trivialPath (input : Str) (type : Kind) : Bool :=
  let accumulator := pathSignature input
  let may_need_slow_file_handling := type = .FILE && isWindowsDriveLetter input
  let trivial_path :=
    (if type ≠ .NOT_SPECIAL then accumulator = 0
      else accumulator &&& (need_encoding ||| dot_char ||| percent_char) = 0) &&
      !may_need_slow_file_handling
  if accumulator = dot_char && !may_need_slow_file_handling && input.head? ≠ some '.' then
    match cut? ['/', '.'] input with
    | none => true
    | some (_, []) => false
    | some (_, c :: _) => !(c = '.' || c = '/')
  else trivial_path

def fastPath (input : Str) (type : Kind) : Bool :=
  type ≠ .NOT_SPECIAL &&
    pathSignature input &&& (need_encoding ||| backslash_char ||| percent_char) = 0 && type ≠ .FILE

/-- The loop of the fast way over the segments between the slashes. -/
def fast : List Str → Str → Str
  | [], path => path
  | [path_view], path =>
      if path_view = ['.', '.'] then
        if path = [] then ['/']
        else if path.getLast? = some '/' then path
        else path.take (((rfind '/' path).map (· + 1)).getD 0)
      else path ++ '/' :: if path_view = ['.'] then [] else path_view
  | path_view :: input, path =>
      if path_view = ['.', '.'] then fast input (path.take ((rfind '/' path).getD path.length))
      else if path_view = ['.'] then fast input path
      else fast input (path ++ '/' :: path_view)

/-- One segment of the slow way. -/
def slowSegment (type : Kind) (last : Bool) (path_buffer path : Str) : Str :=
  let special := type ≠ .NOT_SPECIAL
  if isDoubleDotPathSegment path_buffer then
    let (path, removed) := shortenPath path type
    if (removed || special) && last then path ++ ['/'] else path
  else if isSingleDotPathSegment path_buffer && last then path ++ ['/']
  else if !isSingleDotPathSegment path_buffer then
    if type = .FILE ∧ path = [] ∧ isWindowsDriveLetter path_buffer then
      path ++ '/' :: path_buffer.headD '/' :: ':' :: path_buffer.drop 2
    else path ++ '/' :: path_buffer
  else path

/-- The loop of the slow way over the segments between the delimiters. -/
def slow (type : Kind) (needs_percent_encoding : Bool) : List Str → Str → Str
  | [], path => path
  | path_view :: input, path =>
      let path_buffer :=
        if needs_percent_encoding then
          (percentEncodeInto path_view PATH_PERCENT_ENCODE).getD path_view
        else path_view
      slow type needs_percent_encoding input (slowSegment type (input = []) path_buffer path)

/-- The slow way. A backslash is a delimiter only in a special URL, and it is
looked for only where there is one. -/
def slowPath (input : Str) (type : Kind) (path : Str) : Str :=
  let accumulator := pathSignature input
  let segments :=
    if type ≠ .NOT_SPECIAL ∧ accumulator &&& 2 ≠ 0 then
      input.splitOnP fun c => c = '/' || c = '\\'
    else input.splitOn '/'
  slow type (accumulator &&& 1 ≠ 0) segments path

end PreparedPath

open PreparedPath

def parsePreparedPath (input : Str) (type : Kind) (path : Str) : Str :=
  if trivialPath input type then path ++ '/' :: input
  else if fastPath input type then fast (input.splitOn '/') path
  else slowPath input type path

/-! ## The signature -/

section Signature

variable {input : Str} {c : Char}

theorem pathSignature_and (mask : Nat) : pathSignature input &&& mask = 0 ↔
    ∀ c ∈ input, pathSignatureTable c &&& mask = 0 := by
  have fold : ∀ (input : Str) (n : Nat),
      (input.foldl (fun accumulator c => accumulator ||| pathSignatureTable c) n) &&& mask = 0 ↔
        n &&& mask = 0 ∧ ∀ c ∈ input, pathSignatureTable c &&& mask = 0 := by
    intro input
    induction input with
    | nil => simp
    | cons c input ih =>
        intro n
        rw [List.foldl_cons, ih, Nat.and_or_distrib_right, Nat.or_eq_zero_iff, List.forall_mem_cons,
          and_assoc]
  rw [pathSignature, fold]
  simp

/-- The bits of one character. -/
theorem pathSignatureTable_bits (c : Char) :
    (pathSignatureTable c &&& need_encoding = 0 ↔ bitAt PATH_PERCENT_ENCODE c = false) ∧
    (pathSignatureTable c &&& backslash_char = 0 ↔ c ≠ '\\') ∧
    (pathSignatureTable c &&& dot_char = 0 ↔ c ≠ '.') ∧
    (pathSignatureTable c &&& percent_char = 0 ↔ c ≠ '%') := by
  by_cases byte : c.toNat < 256
  · refine PercentCoding.forall_byte (p := fun c =>
      (pathSignatureTable c &&& need_encoding = 0 ↔ bitAt PATH_PERCENT_ENCODE c = false) ∧
      (pathSignatureTable c &&& backslash_char = 0 ↔ c ≠ '\\') ∧
      (pathSignatureTable c &&& dot_char = 0 ↔ c ≠ '.') ∧
      (pathSignatureTable c &&& percent_char = 0 ↔ c ≠ '%')) ?_ byte
    decide +kernel
  · have signature : pathSignatureTable c = 1 := by
      rw [pathSignatureTable]
      exact if_pos (by omega)
    have held : bitAt PATH_PERCENT_ENCODE c = true := by
      cases bit : bitAt PATH_PERCENT_ENCODE c with
      | true => rfl
      | false =>
          have printable := printable_of_kept (by decide) bit
          omega
    have other : ∀ d : Char, d.toNat < 256 → c ≠ d := by
      rintro d small rfl
      exact byte small
    rw [signature, held]
    exact ⟨by decide, iff_of_true rfl (other _ (by decide)), iff_of_true rfl (other _ (by decide)),
      iff_of_true rfl (other _ (by decide))⟩

theorem need_encoding_iff :
    pathSignature input &&& need_encoding = 0 ↔ Encoded PATH_PERCENT_ENCODE input := by
  rw [pathSignature_and]
  exact forall₂_congr fun c _ => (pathSignatureTable_bits c).1

theorem forall_ne_iff {d : Char} : (∀ c ∈ input, c ≠ d) ↔ d ∉ input :=
  ⟨fun other member => other d member rfl, fun none _ member same => none (same ▸ member)⟩

theorem backslash_char_iff : pathSignature input &&& backslash_char = 0 ↔ '\\' ∉ input := by
  rw [pathSignature_and, ← forall_ne_iff]
  exact forall₂_congr fun c _ => (pathSignatureTable_bits c).2.1

theorem dot_char_iff : pathSignature input &&& dot_char = 0 ↔ '.' ∉ input := by
  rw [pathSignature_and, ← forall_ne_iff]
  exact forall₂_congr fun c _ => (pathSignatureTable_bits c).2.2.1

theorem percent_char_iff : pathSignature input &&& percent_char = 0 ↔ '%' ∉ input := by
  rw [pathSignature_and, ← forall_ne_iff]
  exact forall₂_congr fun c _ => (pathSignatureTable_bits c).2.2.2

end Signature

/-! ## Paths as stacks -/

/-- A segment that stands for this or the parent segment. -/
def isDotSegment (s : Str) : Bool := isDoubleDotPathSegment s || isSingleDotPathSegment s

namespace PreparedPath

/-- Take the last segment off, with the exception for a drive letter. -/
def pop (type : Kind) (stack : List Str) : List Str × Bool :=
  match stack with
  | [] => ([], false)
  | [s] => if type = .FILE ∧ isNormalizedWindowsDriveLetter s then ([s], false) else ([], true)
  | stack => (stack.dropLast, true)

/-- The first segment of a file URL has a colon behind its drive letter. -/
def drive (type : Kind) (stack : List Str) (s : Str) : Str :=
  if type = .FILE ∧ stack = [] ∧ isWindowsDriveLetter s then s.headD '/' :: ':' :: s.drop 2 else s

/-- What one segment does to the stack. -/
def resolveSegment (type : Kind) (last : Bool) (s : Str) (stack : List Str) : List Str :=
  if isDoubleDotPathSegment s then
    if ((pop type stack).2 || type ≠ .NOT_SPECIAL) && last then (pop type stack).1 ++ [[]]
    else (pop type stack).1
  else if isSingleDotPathSegment s then
    if last then stack ++ [[]] else stack
  else stack ++ [drive type stack s]

/-- What a relative path does to the stack. -/
def resolve (type : Kind) : List Str → List Str → List Str
  | [], stack => stack
  | s :: segments, stack => resolve type segments (resolveSegment type (segments = []) s stack)

section Stack

variable {type : Kind} {stack segments : List Str} {s : Str}

theorem shortenPath_render (clean : Segments stack) :
    shortenPath (render stack) type = (render (pop type stack).1, (pop type stack).2) := by
  rcases stack with - | ⟨s, - | ⟨t, stack⟩⟩
  · rw [shortenPath, if_neg fun all => all.2.2.1 rfl]
    rfl
  · have none : '/' ∉ (render [s]).drop 1 := mt (mem_drop_one_render clean).mp (by simp)
    have top : (render [s]).drop 1 = s := by simp
    have slash : rfind '/' (render ([] ++ [s])) = some (render []).length :=
      rfind_render_push (clean s List.mem_cons_self)
    rw [shortenPath, top, pop]
    rw [top] at none
    by_cases letter : type = .FILE ∧ isNormalizedWindowsDriveLetter s = true
    · rw [if_pos letter, if_pos ⟨letter.1, none, by simp, letter.2⟩]
    · rw [if_neg letter, if_neg fun all => letter ⟨all.1, all.2.2.2⟩]
      rw [List.nil_append] at slash
      rw [slash]
      rfl
  · obtain ⟨front, u, shape⟩ := exists_push (List.cons_ne_nil s (t :: stack))
    have two : '/' ∈ (render (s :: t :: stack)).drop 1 := (mem_drop_one_render clean).mpr (by simp)
    rw [shape] at clean two
    have pops : pop type (s :: t :: stack) = ((s :: t :: stack).dropLast, true) := rfl
    rw [pops, shape, shortenPath, if_neg fun all => all.2.1 two,
      rfind_render_push (segments_push.mp clean).2, List.dropLast_concat]
    exact congrArg (·, true) take_render_push

theorem segments_pop (clean : Segments stack) : Segments (pop type stack).1 := by
  rcases stack with - | ⟨s, - | ⟨t, stack⟩⟩
  · exact clean
  · rw [pop]
    split
    · exact clean
    · exact fun _ none => absurd none List.not_mem_nil
  · exact fun u member => clean u (List.dropLast_subset _ member)

theorem drive_slash (clean : '/' ∉ s) : '/' ∉ drive type stack s := by
  rw [drive]
  split
  · next letter =>
      rcases s with - | ⟨c, - | ⟨d, s⟩⟩
      · simp [isWindowsDriveLetter] at letter
      · simp [isWindowsDriveLetter] at letter
      · simp only [List.mem_cons, not_or] at clean
        simp [clean]
  · exact clean

theorem segments_resolveSegment (clean : Segments stack) (here : '/' ∉ s) (last : Bool) :
    Segments (resolveSegment type last s stack) := by
  have empty : '/' ∉ ([] : Str) := List.not_mem_nil
  rw [resolveSegment]
  split
  · split
    · exact segments_push.mpr ⟨segments_pop clean, empty⟩
    · exact segments_pop clean
  · split
    · split
      · exact segments_push.mpr ⟨clean, empty⟩
      · exact clean
    · exact segments_push.mpr ⟨clean, drive_slash here⟩

/-- One segment of the slow way, on the text and on the stack. -/
theorem slowSegment_render (clean : Segments stack) (last : Bool) :
    slowSegment type last s (render stack) = render (resolveSegment type last s stack) := by
  have push : ∀ front : List Str, render front ++ ['/'] = render (front ++ [[]]) :=
    fun front => (render_push front []).symm
  rw [slowSegment, resolveSegment, shortenPath_render clean]
  by_cases double : isDoubleDotPathSegment s = true
  · rw [if_pos double, if_pos double]
    by_cases top : (((pop type stack).2 || decide (type ≠ .NOT_SPECIAL)) && last) = true
    · exact (if_pos top).trans ((push _).trans (congrArg render (if_pos top).symm))
    · exact (if_neg top).trans (congrArg render (if_neg top).symm)
  · rw [if_neg double, if_neg double]
    by_cases single : isSingleDotPathSegment s = true
    · cases last <;> simp [single]
    · rw [if_neg single, if_neg (by simp [single]), if_pos (by simp [single]), render_push, drive]
      simp only [render_eq_nil]
      split <;> rfl

/-- The slow way on encoded segments resolves them on the stack. -/
theorem slow_render (clean : Segments stack) (here : Segments segments) :
    slow type false segments (render stack) = render (resolve type segments stack) := by
  induction segments generalizing stack with
  | nil => rfl
  | cons s segments ih =>
      obtain ⟨first, rest⟩ := List.forall_mem_cons.mp here
      have step : Segments (resolveSegment type (segments = []) s stack) :=
        segments_resolveSegment clean first _
      have one : slow type false (s :: segments) (render stack) =
          slow type false segments (slowSegment type (segments = []) s (render stack)) := rfl
      rw [one, slowSegment_render clean, resolve, ih step rest]

/-- Without percent signs a dot segment is written with dots. -/
theorem doubleDot_iff (plain : '%' ∉ s) : isDoubleDotPathSegment s = true ↔ s = ['.', '.'] := by
  rw [isDoubleDotPathSegment_iff]
  constructor
  · intro found
    obtain rfl | found := List.mem_cons.mp found
    · rfl
    · refine absurd ?_ plain
      have all : ∀ s ∈ [['.', '%', '2', 'e'], ['.', '%', '2', 'E'], ['%', '2', 'e', '.'],
        ['%', '2', 'E', '.'], ['%', '2', 'e', '%', '2', 'e'], ['%', '2', 'E', '%', '2', 'e'],
        ['%', '2', 'e', '%', '2', 'E'], ['%', '2', 'E', '%', '2', 'E']], '%' ∈ s := by decide
      exact all s found
  · rintro rfl
    exact List.mem_cons_self

theorem singleDot_iff (plain : '%' ∉ s) : isSingleDotPathSegment s = true ↔ s = ['.'] := by
  rw [isSingleDotPathSegment]
  constructor
  · intro found
    simp only [Bool.or_eq_true, decide_eq_true_eq] at found
    obtain (rfl | rfl) | rfl := found
    · rfl
    · exact absurd List.mem_cons_self plain
    · exact absurd List.mem_cons_self plain
  · rintro rfl
    rfl

theorem pop_of_not_file (other : type ≠ .FILE) : (pop type stack).1 = stack.dropLast := by
  rcases stack with - | ⟨s, - | ⟨t, stack⟩⟩
  · rfl
  · rw [pop, if_neg fun all => other all.1]
    rfl
  · rfl

theorem drive_of_not_file (other : type ≠ .FILE) : drive type stack s = s :=
  if_neg fun all => other all.1

theorem resolveSegment_up (special : type ≠ .NOT_SPECIAL) (other : type ≠ .FILE) (last : Bool) :
    resolveSegment type last ['.', '.'] stack =
      if last then stack.dropLast ++ [[]] else stack.dropLast := by
  have double : isDoubleDotPathSegment ['.', '.'] = true := by decide
  rw [resolveSegment, if_pos double, pop_of_not_file other]
  cases last <;> simp [special]

/-- The three endings of the fast way on a last segment that goes up. -/
theorem fast_up (clean : Segments stack) :
    fast [['.', '.']] (render stack) = render (stack.dropLast ++ [[]]) := by
  have up : fast [['.', '.']] (render stack) =
      if render stack = [] then ['/']
      else if (render stack).getLast? = some '/' then render stack
      else (render stack).take (((rfind '/' (render stack)).map (· + 1)).getD 0) := rfl
  rw [up]
  by_cases nonempty : stack = []
  · subst nonempty
    rfl
  · obtain ⟨front, u, rfl⟩ := exists_push nonempty
    have here := (segments_push.mp clean).2
    rw [if_neg (mt render_eq_nil.mp nonempty), List.dropLast_concat, rfind_render_push here,
      Option.map_some, Option.getD_some, take_render_push_succ]
    split
    · next empty =>
        rw [(getLast?_render_push here).mp empty]
    · rfl

theorem take_rfind_render (clean : Segments stack) :
    (render stack).take ((rfind '/' (render stack)).getD (render stack).length) =
      render stack.dropLast := by
  by_cases nonempty : stack = []
  · subst nonempty
    rfl
  · obtain ⟨front, u, rfl⟩ := exists_push nonempty
    rw [rfind_render_push (segments_push.mp clean).2, Option.getD_some, take_render_push,
      List.dropLast_concat]

/-- The fast way resolves plain segments on the stack as well. -/
theorem fast_render (special : type ≠ .NOT_SPECIAL) (other : type ≠ .FILE) (clean : Segments stack)
    (here : Segments segments) (plain : ∀ s ∈ segments, '%' ∉ s) :
    fast segments (render stack) = render (resolve type segments stack) := by
  induction segments generalizing stack with
  | nil => rfl
  | cons s segments ih =>
      obtain ⟨first, rest⟩ := List.forall_mem_cons.mp here
      obtain ⟨plain_first, plain_rest⟩ := List.forall_mem_cons.mp plain
      have step : Segments (resolveSegment type (segments = []) s stack) :=
        segments_resolveSegment clean first _
      have double := doubleDot_iff plain_first
      have single := singleDot_iff plain_first
      have two : isSingleDotPathSegment ['.', '.'] = false := by decide
      cases segments with
      | nil =>
          rw [resolve, resolve, decide_eq_true rfl]
          by_cases up : s = ['.', '.']
          · rw [up, fast_up clean, resolveSegment_up special other, if_pos rfl]
          · have name : fast [s] (render stack) =
                render stack ++ '/' :: if s = ['.'] then [] else s := if_neg up
            rw [name, resolveSegment, if_neg (mt double.mp up), drive_of_not_file other]
            by_cases same : s = ['.']
            · rw [if_pos same, if_pos (single.mpr same), if_pos rfl, render_push]
            · rw [if_neg same, if_neg (mt single.mp same), render_push]
      | cons t segments =>
          have more : decide (t :: segments = []) = false := rfl
          rw [resolve, more]
          rw [more] at step
          by_cases up : s = ['.', '.']
          · subst up
            rw [resolveSegment_up special other, if_neg Bool.false_ne_true] at step ⊢
            rw [fast, if_pos rfl, take_rfind_render clean]
            · exact ih step rest plain_rest
            · exact List.cons_ne_nil t segments
          · rw [resolveSegment, if_neg (mt double.mp up), drive_of_not_file other] at step ⊢
            rw [fast, if_neg up]
            · by_cases same : s = ['.']
              · rw [if_pos (single.mpr same), if_neg Bool.false_ne_true] at step ⊢
                rw [if_pos same]
                exact ih step rest plain_rest
              · rw [if_neg (mt single.mp same)] at step ⊢
                rw [if_neg same, ← render_push]
                exact ih step rest plain_rest
            · exact List.cons_ne_nil t segments

end Stack

/-! ## The three ways agree -/

/-- What ends a segment. -/
def separator (type : Kind) (c : Char) : Bool := c = '/' || (type ≠ .NOT_SPECIAL && c = '\\')

/-- The encoded segments of a text. -/
def segments (type : Kind) (input : Str) : List Str :=
  (input.splitOnP (separator type)).map (percentEncode · PATH_PERCENT_ENCODE)

section Agreement

variable {type : Kind} {input : Str} {stack : List Str} {s : Str}

/-- Where no backslash counts, segments end at slashes only. -/
theorem splitOnP_separator (plain : type ≠ .NOT_SPECIAL → '\\' ∉ input) :
    input.splitOnP (separator type) = input.splitOn '/' := by
  rw [List.splitOn_eq_splitOnP]
  refine splitOnP_congr fun c member => ?_
  have other : ¬ (type ≠ .NOT_SPECIAL ∧ c = '\\') := by
    rintro ⟨special, rfl⟩
    exact plain special member
  rw [Bool.eq_iff_iff, separator, Bool.or_eq_true, Bool.and_eq_true, decide_eq_true_eq,
    decide_eq_true_eq, decide_eq_true_eq, beq_iff_eq]
  exact or_iff_left other

theorem encoded_of_mem_splitOnP {p : Char → Bool} {character_set : List Nat}
    (encoded : Encoded character_set input) {piece : Str} (found : piece ∈ input.splitOnP p) :
    Encoded character_set piece :=
  fun c member => encoded c (not_of_mem_splitOnP found member).1

/-- A text that needs no encoding and has no backslash to split at. -/
theorem segments_eq_splitOn (encoded : Encoded PATH_PERCENT_ENCODE input)
    (plain : type ≠ .NOT_SPECIAL → '\\' ∉ input) : segments type input = input.splitOn '/' := by
  rw [segments, splitOnP_separator plain]
  conv_rhs => rw [← List.map_id (input.splitOn '/')]
  refine List.map_congr_left fun piece found => ?_
  exact percentEncode_of_encoded (encoded_of_mem_splitOnP encoded found)

theorem segments_clean (type : Kind) (input : Str) : Segments (segments type input) := by
  intro s found
  obtain ⟨piece, member, rfl⟩ := List.mem_map.mp found
  intro slash
  rw [percentEncode_eq] at slash
  obtain ⟨inside, -⟩ | sign | digit := PercentCoding.mem_encode slash
  · exact (not_of_mem_splitOnP member inside).2 rfl
  · exact absurd sign (by decide)
  · exact absurd digit (by decide)

theorem encoded_of_mem_segments (found : s ∈ segments type input) :
    Encoded PATH_PERCENT_ENCODE s := by
  obtain ⟨piece, -, rfl⟩ := List.mem_map.mp found
  exact encoded_percentEncode (by decide) piece

theorem segments_ne_nil (type : Kind) (input : Str) : segments type input ≠ [] :=
  fun none => List.splitOnP_ne_nil _ _ (List.map_eq_nil_iff.mp none)

/-- The slow way resolves the encoded segments of the text. -/
theorem slowPath_render (clean : Segments stack) :
    slowPath input type (render stack) = render (resolve type (segments type input) stack) := by
  have split : (if type ≠ .NOT_SPECIAL ∧ pathSignature input &&& 2 ≠ 0 then
      input.splitOnP fun c => c = '/' || c = '\\' else input.splitOn '/') =
      input.splitOnP (separator type) := by
    split
    · next both =>
        refine splitOnP_congr fun c _ => ?_
        rw [separator, decide_eq_true both.1, Bool.true_and]
    · next slash =>
        refine (splitOnP_separator fun special => backslash_char_iff.mp ?_).symm
        by_contra found
        exact slash ⟨special, found⟩
  have encode : ∀ (pieces : List Str) (path : Str),
      (∀ piece ∈ pieces, pathSignature input &&& 1 = 0 → Encoded PATH_PERCENT_ENCODE piece) →
      slow type (pathSignature input &&& 1 ≠ 0) pieces path =
        slow type false (pieces.map (percentEncode · PATH_PERCENT_ENCODE)) path := by
    intro pieces
    induction pieces with
    | nil => exact fun _ _ => rfl
    | cons piece pieces ih =>
        intro path kept
        obtain ⟨first, rest⟩ := List.forall_mem_cons.mp kept
        rw [List.map_cons, slow, slow, ih _ rest]
        have empty : decide (pieces.map (percentEncode · PATH_PERCENT_ENCODE) = []) =
            decide (pieces = []) := by simp
        have buffer : (if decide (pathSignature input &&& 1 ≠ 0) = true then
            (percentEncodeInto piece PATH_PERCENT_ENCODE).getD piece else piece) =
            percentEncode piece PATH_PERCENT_ENCODE := by
          split
          · exact percentEncodeInto_getD piece PATH_PERCENT_ENCODE
          · next quiet =>
              rw [decide_eq_true_eq, not_not] at quiet
              exact (percentEncode_of_encoded (first quiet)).symm
        rw [empty]
        exact congrArg (slow type false _ <| slowSegment type _ · path) buffer
  rw [slowPath, split, encode]
  · exact slow_render clean (segments_clean type input)
  · intro piece found quiet
    exact encoded_of_mem_splitOnP (need_encoding_iff.mp quiet) found

end Agreement

section Resolve

variable {type : Kind} {stack segments : List Str} {s : Str}

theorem not_double_of_not_dot (plain : isDotSegment s = false) :
    ¬ isDoubleDotPathSegment s = true :=
  fun double => by simp [isDotSegment, double] at plain

theorem not_single_of_not_dot (plain : isDotSegment s = false) :
    ¬ isSingleDotPathSegment s = true :=
  fun single => by simp [isDotSegment, single] at plain

theorem resolveSegment_name (plain : isDotSegment s = false) (last : Bool) :
    resolveSegment type last s stack = stack ++ [drive type stack s] := by
  rw [resolveSegment, if_neg (not_double_of_not_dot plain), if_neg (not_single_of_not_dot plain)]

/-- Names are pushed one after the other. -/
theorem resolve_names (plain : ∀ s ∈ segments, isDotSegment s = false)
    (letter : ∀ s rest, segments = s :: rest → drive type stack s = s) :
    resolve type segments stack = stack ++ segments := by
  induction segments generalizing stack with
  | nil => exact (List.append_nil stack).symm
  | cons s segments ih =>
      obtain ⟨first, rest⟩ := List.forall_mem_cons.mp plain
      have behind : ∀ t rest', segments = t :: rest' → drive type (stack ++ [s]) t = t :=
        fun _ _ _ => if_neg fun all => by simp at all
      rw [resolve, resolveSegment_name first, letter s segments rfl, ih rest behind,
        List.append_assoc, List.singleton_append]

theorem length_drive (s : Str) : (drive type stack s).length = s.length := by
  rw [drive]
  split
  · next letter =>
      rcases s with - | ⟨c, - | ⟨d, s⟩⟩
      · simp [isWindowsDriveLetter] at letter
      · simp [isWindowsDriveLetter] at letter
      · simp
  · rfl

theorem length_render_pop : (render (pop type stack).1).length ≤ (render stack).length := by
  rcases stack with - | ⟨s, - | ⟨t, stack⟩⟩
  · exact Nat.le_refl _
  · rw [pop]
    split
    · exact Nat.le_refl _
    · exact Nat.zero_le _
  · obtain ⟨front, u, shape⟩ := exists_push (List.cons_ne_nil s (t :: stack))
    have pops : (pop type (s :: t :: stack)).1 = (s :: t :: stack).dropLast := rfl
    rw [pops, shape, List.dropLast_concat, render_append, List.length_append]
    exact Nat.le_add_right _ _

/-- A name makes the path longer by its text, and a dot segment by less. -/
theorem length_resolveSegment (last : Bool) :
    (render (resolveSegment type last s stack)).length ≤ (render stack).length + (s.length + 1) ∧
      (isDotSegment s = true →
        (render (resolveSegment type last s stack)).length <
          (render stack).length + (s.length + 1)) := by
  have popped : (render (pop type stack).1).length ≤ (render stack).length := length_render_pop
  have grown : ∀ front : List Str,
      (render (front ++ [[]])).length = (render front).length + 1 := by simp
  by_cases double : isDoubleDotPathSegment s = true
  · have size : 2 ≤ s.length := by
      have found := (isDoubleDotPathSegment_iff s).mp double
      have all : ∀ s ∈ [['.', '.'], ['.', '%', '2', 'e'], ['.', '%', '2', 'E'],
        ['%', '2', 'e', '.'], ['%', '2', 'E', '.'], ['%', '2', 'e', '%', '2', 'e'],
        ['%', '2', 'E', '%', '2', 'e'], ['%', '2', 'e', '%', '2', 'E'],
        ['%', '2', 'E', '%', '2', 'E']], 2 ≤ s.length := by decide
      exact all s found
    rw [resolveSegment, if_pos double]
    split
    · rw [grown]
      omega
    · omega
  · by_cases single : isSingleDotPathSegment s = true
    · have size : 1 ≤ s.length := by
        simp only [isSingleDotPathSegment, Bool.or_eq_true, decide_eq_true_eq] at single
        obtain (rfl | rfl) | rfl := single <;> decide
      rw [resolveSegment, if_neg double, if_pos single]
      split
      · rw [grown]
        omega
      · omega
    · rw [resolveSegment, if_neg double, if_neg single, render_push, List.length_append,
        List.length_cons, length_drive]
      simp [isDotSegment, double, single]

theorem length_resolve :
    (render (resolve type segments stack)).length ≤
        (render stack).length + (render segments).length ∧
      ((∃ s ∈ segments, isDotSegment s = true) →
        (render (resolve type segments stack)).length <
          (render stack).length + (render segments).length) := by
  induction segments generalizing stack with
  | nil => simp [resolve]
  | cons s segments ih =>
      obtain ⟨bound, strict⟩ := @length_resolveSegment type stack s (segments = [])
      obtain ⟨rest, rest_strict⟩ := @ih (resolveSegment type (segments = []) s stack)
      rw [resolve, render_cons, List.length_append, List.length_cons]
      refine ⟨by omega, ?_⟩
      rintro ⟨t, member, dot⟩
      obtain rfl | member := List.mem_cons.mp member
      · have first := strict dot
        omega
      · have later := rest_strict ⟨t, member, dot⟩
        omega

end Resolve

end PreparedPath

open PreparedPath

/-- The texts with dot segments that are copied all the same: the first segment
that starts with a dot behind a slash is a name, and nobody looks further. -/
structure Overlooked (input : Str) (type : Kind) : Prop where
  dots_only : pathSignature input = dot_char
  no_drive_letter : ¬ (type = .FILE ∧ isWindowsDriveLetter input = true)
  front : input.head? ≠ some '.'
  name : ∃ before c after, cut? ['/', '.'] input = some (before, c :: after) ∧ c ≠ '.' ∧ c ≠ '/'
  dot_segment : ∃ s ∈ input.splitOn '/', s = ['.'] ∨ s = ['.', '.']

section Ways

variable {type : Kind} {input : Str} {stack : List Str}

theorem and_eq_zero_of_and {n m k : Nat} (none : n &&& m = 0) (part : m &&& k = k) :
    n &&& k = 0 := by
  rw [← part, ← Nat.and_assoc, none, Nat.zero_and]

/-- What a text that is copied has to satisfy. -/
theorem trivialPath_spec (trivial_path : trivialPath input type = true) :
    ¬ (type = .FILE ∧ isWindowsDriveLetter input = true) ∧ Encoded PATH_PERCENT_ENCODE input ∧
      (type ≠ .NOT_SPECIAL → '\\' ∉ input) ∧ '%' ∉ input ∧
      ('.' ∈ input → pathSignature input = dot_char ∧ input.head? ≠ some '.' ∧
        (cut? ['/', '.'] input = none ∨
          ∃ before c after, cut? ['/', '.'] input = some (before, c :: after) ∧
            c ≠ '.' ∧ c ≠ '/')) := by
  rw [trivialPath] at trivial_path
  split at trivial_path
  · next dots =>
      simp only [Bool.and_eq_true, Bool.not_eq_true', Bool.and_eq_false_iff, decide_eq_true_eq,
        decide_eq_false_iff_not] at dots
      obtain ⟨⟨signature, letter⟩, front⟩ := dots
      refine ⟨?_, ?_, ?_, ?_, fun _ => ⟨signature, front, ?_⟩⟩
      · rintro ⟨file, drive⟩
        obtain other | other := letter
        · exact other file
        · rw [drive] at other
          cases other
      · exact need_encoding_iff.mp (by rw [signature]; decide)
      · exact fun _ => backslash_char_iff.mp (by rw [signature]; decide)
      · exact percent_char_iff.mp (by rw [signature]; decide)
      · split at trivial_path
        · next none => exact .inl none
        · cases trivial_path
        · next before c after found =>
            simp only [Bool.not_eq_true', Bool.or_eq_false_iff, decide_eq_false_iff_not]
              at trivial_path
            exact .inr ⟨before, c, after, found, trivial_path⟩
  · rw [Bool.and_eq_true, Bool.not_eq_true', Bool.and_eq_false_iff, decide_eq_false_iff_not]
      at trivial_path
    obtain ⟨quiet, letter⟩ := trivial_path
    have masked : pathSignature input &&& (need_encoding ||| dot_char ||| percent_char) = 0 ∧
        (type ≠ .NOT_SPECIAL → pathSignature input &&& backslash_char = 0) := by
      split at quiet
      · rw [of_decide_eq_true quiet]
        exact ⟨Nat.zero_and _, fun _ => Nat.zero_and _⟩
      · next plain => exact ⟨of_decide_eq_true quiet, fun special => absurd special plain⟩
    refine ⟨?_, ?_, ?_, ?_, ?_⟩
    · rintro ⟨file, drive⟩
      obtain other | other := letter
      · exact other file
      · rw [drive] at other
        cases other
    · exact need_encoding_iff.mp (and_eq_zero_of_and masked.1 (by decide))
    · exact fun special => backslash_char_iff.mp (masked.2 special)
    · exact percent_char_iff.mp (and_eq_zero_of_and masked.1 (by decide))
    · exact fun dot => absurd dot (dot_char_iff.mp (and_eq_zero_of_and masked.1 (by decide)))

/-- Without percent signs a dot segment is written with dots. -/
theorem isDotSegment_iff {s : Str} (plain : '%' ∉ s) :
    isDotSegment s = true ↔ s = ['.'] ∨ s = ['.', '.'] := by
  rw [isDotSegment, Bool.or_eq_true, doubleDot_iff plain, singleDot_iff plain, or_comm]

theorem isWindowsDriveLetter_of_splitOn {s : Str} {rest : List Str}
    (front : input.splitOn '/' = s :: rest) (letter : isWindowsDriveLetter s = true)
    (ending : ∀ c ∈ s, c ≠ '\\' ∧ c ≠ '?' ∧ c ≠ '#') : isWindowsDriveLetter input = true := by
  have whole := render_splitOn input
  have slash : '/' ∉ s := not_mem_splitOn (front ▸ List.mem_cons_self)
  rw [front, render_cons, List.cons_append, List.cons.injEq] at whole
  rw [← whole.2]
  rcases s with - | ⟨a, - | ⟨b, - | ⟨c, s⟩⟩⟩
  · cases letter
  · cases letter
  · rcases rest with - | ⟨t, rest⟩
    · exact letter
    · simpa [isWindowsDriveLetter] using letter
  · have third : c ∈ a :: b :: c :: s := by simp
    have other := ending c third
    have apart : c ≠ '/' := by
      rintro rfl
      exact slash third
    simp [isWindowsDriveLetter, other, apart] at letter

/-- A text that is copied without being overlooked has no dot segments. -/
theorem not_dotSegment_of_trivialPath (trivial_path : trivialPath input type = true)
    (seen : ¬ Overlooked input type) {s : Str} (found : s ∈ input.splitOn '/') :
    isDotSegment s = false := by
  obtain ⟨letter, -, -, percent, dots⟩ := trivialPath_spec trivial_path
  have plain : '%' ∉ s := by
    rw [List.splitOn_eq_splitOnP] at found
    exact fun member => percent (not_of_mem_splitOnP found member).1
  rw [Bool.eq_false_iff, ne_eq, isDotSegment_iff plain]
  intro dot
  have first : ∃ t, s = '.' :: t := by obtain rfl | rfl := dot <;> exact ⟨_, rfl⟩
  have inside : '.' ∈ input := by
    obtain ⟨t, rfl⟩ := first
    rw [List.splitOn_eq_splitOnP] at found
    exact (not_of_mem_splitOnP found List.mem_cons_self).1
  obtain ⟨signature, front, none | name⟩ := dots inside
  · obtain ⟨t, rfl⟩ := first
    obtain ⟨rest, start⟩ | behind := of_mem_splitOn found
    · have whole := render_splitOn input
      rw [start, render_cons, List.cons_append, List.cons.injEq] at whole
      exact front (by rw [← whole.2]; rfl)
    · refine not_infix_of_cut? none (List.IsInfix.trans ?_ behind)
      exact ⟨[], t, rfl⟩
  · exact seen ⟨signature, letter, front, name, s, found, dot⟩

/-- A text without dot segments is copied by the slow way, too. -/
theorem slowPath_of_trivialPath (clean : Segments stack)
    (trivial_path : trivialPath input type = true)
    (names : ∀ s ∈ input.splitOn '/', isDotSegment s = false) :
    slowPath input type (render stack) = render stack ++ '/' :: input := by
  obtain ⟨letter, encoded, plain, -, -⟩ := trivialPath_spec trivial_path
  rw [slowPath_render clean, segments_eq_splitOn encoded plain, resolve_names names, render_append,
    render_splitOn]
  intro s rest front
  have member : s ∈ input.splitOn '/' := front ▸ List.mem_cons_self
  rw [List.splitOn_eq_splitOnP] at member
  refine if_neg fun all => letter ⟨all.1, isWindowsDriveLetter_of_splitOn front all.2.2 ?_⟩
  intro c found
  have inside := (not_of_mem_splitOnP member found).1
  have special : type ≠ .NOT_SPECIAL := by
    rw [all.1]
    decide
  refine ⟨?_, ?_, ?_⟩ <;> rintro rfl
  · exact plain special inside
  · exact encoded.not_mem (by decide) inside
  · exact encoded.not_mem (by decide) inside

theorem fastPath_render (clean : Segments stack) (fast_path : fastPath input type = true) :
    fast (input.splitOn '/') (render stack) = slowPath input type (render stack) := by
  simp only [fastPath, Bool.and_eq_true, decide_eq_true_eq] at fast_path
  obtain ⟨⟨special, quiet⟩, other⟩ := fast_path
  have encoded := need_encoding_iff.mp (and_eq_zero_of_and quiet (by decide))
  have plain := backslash_char_iff.mp (and_eq_zero_of_and quiet (by decide))
  have percent := percent_char_iff.mp (and_eq_zero_of_and quiet (by decide))
  have here : Segments (input.splitOn '/') := fun _ => not_mem_splitOn
  rw [slowPath_render clean, segments_eq_splitOn encoded fun _ => plain,
    fast_render special other clean here]
  intro s found member
  rw [List.splitOn_eq_splitOnP] at found
  exact percent (not_of_mem_splitOnP found member).1

/-- An overlooked text is copied, and that is longer than the resolved path. -/
theorem slowPath_of_overlooked (clean : Segments stack) (overlooked : Overlooked input type) :
    trivialPath input type = true ∧
      (slowPath input type (render stack)).length < (render stack ++ '/' :: input).length := by
  obtain ⟨signature, letter, front, ⟨before, c, after, found, name⟩, s, member, dot⟩ := overlooked
  have slow_off : (decide (type = .FILE) && isWindowsDriveLetter input) = false := by
    rw [Bool.and_eq_false_iff, decide_eq_false_iff_not]
    by_cases file : type = .FILE
    · exact .inr (Bool.eq_false_iff.mpr fun drive => letter ⟨file, drive⟩)
    · exact .inl file
  have copied : trivialPath input type = true := by
    rw [trivialPath, if_pos (by simp [signature, slow_off, front]), found]
    simp [name]
  refine ⟨copied, ?_⟩
  obtain ⟨-, encoded, plain, percent, -⟩ := trivialPath_spec copied
  have inside : '%' ∉ s := by
    rw [List.splitOn_eq_splitOnP] at member
    exact fun sign => percent (not_of_mem_splitOnP member sign).1
  rw [slowPath_render clean, segments_eq_splitOn encoded plain, List.length_append,
    ← render_splitOn]
  exact length_resolve.2 ⟨s, member, (isDotSegment_iff inside).mpr dot⟩

/-- The two shortcuts agree with the slow way for every rooted path, except for
the texts with dot segments that the first shortcut overlooks. -/
theorem parsePreparedPath_eq_slowPath_iff (clean : Segments stack) :
    parsePreparedPath input type (render stack) = slowPath input type (render stack) ↔
      ¬ Overlooked input type := by
  constructor
  · intro same overlooked
    obtain ⟨copied, shorter⟩ := slowPath_of_overlooked clean overlooked
    rw [parsePreparedPath, if_pos copied] at same
    rw [same] at shorter
    exact Nat.lt_irrefl _ shorter
  · intro seen
    rw [parsePreparedPath]
    split
    · next copied =>
        exact (slowPath_of_trivialPath clean copied fun s found =>
          not_dotSegment_of_trivialPath copied seen found).symm
    · split
      · next fast_path => exact fastPath_render clean fast_path
      · rfl

end Ways

/-! ## Normal paths -/

/-- A path with nothing left to resolve. -/
structure Normal (type : Kind) (stack : List Str) : Prop where
  clean : Segments stack
  encoded : ∀ s ∈ stack, Encoded PATH_PERCENT_ENCODE s
  names : ∀ s ∈ stack, isDotSegment s = false
  no_backslash : type ≠ .NOT_SPECIAL → ∀ s ∈ stack, '\\' ∉ s
  letter : ∀ s rest, stack = s :: rest → drive type [] s = s

section Normal

variable {type : Kind} {stack segs : List Str} {s input : Str}

theorem normal_nil (type : Kind) : Normal type [] where
  clean := by simp [Segments]
  encoded := by simp
  names := by simp
  no_backslash := by simp
  letter := by simp

/-- A prefix of the stack is normal, too. -/
theorem Normal.front {front back : List Str} (normal : Normal type (front ++ back)) :
    Normal type front where
  clean := (segments_append.mp normal.clean).1
  encoded := (List.forall_mem_append.mp normal.encoded).1
  names := (List.forall_mem_append.mp normal.names).1
  no_backslash := fun special => (List.forall_mem_append.mp (normal.no_backslash special)).1
  letter := by
    rintro s rest rfl
    exact normal.letter s (rest ++ back) rfl

theorem Normal.pop (normal : Normal type stack) : Normal type (pop type stack).1 := by
  rcases stack with - | ⟨s, - | ⟨t, stack⟩⟩
  · exact normal
  · rw [PreparedPath.pop]
    split
    · exact normal
    · exact normal_nil type
  · have shape := List.dropLast_append_getLast (List.cons_ne_nil s (t :: stack))
    rw [← shape] at normal
    exact normal.front

theorem Normal.push (normal : Normal type stack) (clean : '/' ∉ s)
    (encoded : Encoded PATH_PERCENT_ENCODE s) (name : isDotSegment s = false)
    (plain : type ≠ .NOT_SPECIAL → '\\' ∉ s) (letter : stack = [] → drive type [] s = s) :
    Normal type (stack ++ [s]) where
  clean := segments_push.mpr ⟨normal.clean, clean⟩
  encoded := List.forall_mem_append.mpr ⟨normal.encoded, by simpa using encoded⟩
  names := List.forall_mem_append.mpr ⟨normal.names, by simpa using name⟩
  no_backslash := fun special =>
    List.forall_mem_append.mpr ⟨normal.no_backslash special, by simpa using plain special⟩
  letter := by
    intro t rest shape
    cases stack with
    | nil =>
        obtain ⟨rfl, -⟩ := List.cons.inj shape
        exact letter rfl
    | cons u stack =>
        obtain ⟨rfl, -⟩ := List.cons.inj shape
        exact normal.letter _ stack rfl

theorem Normal.push_empty (normal : Normal type stack) : Normal type (stack ++ [[]]) :=
  normal.push List.not_mem_nil (fun _ none => absurd none List.not_mem_nil) rfl
    (fun _ => List.not_mem_nil) fun _ => if_neg fun all => by simp [isWindowsDriveLetter] at all

/-- A drive letter in front is no dot. -/
theorem isDotSegment_of_isAlpha {c : Char} (alpha : isAlpha c = true) (s : Str) :
    isDotSegment (c :: s) = false := by
  have dot : c ≠ '.' := by
    rintro rfl
    exact absurd alpha (by decide)
  have sign : c ≠ '%' := by
    rintro rfl
    exact absurd alpha (by decide)
  rw [Bool.eq_false_iff, ne_eq, isDotSegment, Bool.or_eq_true, isDoubleDotPathSegment_iff,
    isSingleDotPathSegment]
  simp [dot, sign]

/-- The colon behind a drive letter keeps everything a path needs. -/
theorem Normal.push_drive (normal : Normal type stack) (clean : '/' ∉ s)
    (encoded : Encoded PATH_PERCENT_ENCODE s) (name : isDotSegment s = false)
    (plain : type ≠ .NOT_SPECIAL → '\\' ∉ s) : Normal type (stack ++ [drive type stack s]) := by
  by_cases letter : type = .FILE ∧ stack = [] ∧ isWindowsDriveLetter s = true
  · have driven : drive type stack s = s.headD '/' :: ':' :: s.drop 2 := if_pos letter
    obtain ⟨-, rfl, letter⟩ := letter
    rcases s with - | ⟨a, - | ⟨b, s⟩⟩
    · cases letter
    · cases letter
    · rw [driven]
      have alpha : isAlpha a = true := by
        simp only [isWindowsDriveLetter, Bool.and_eq_true] at letter
        exact letter.1.1
      refine normal.push ?_ ?_ (isDotSegment_of_isAlpha alpha _) ?_ ?_
      · simp only [List.mem_cons, not_or] at clean
        simp [clean]
      · intro c found
        simp only [List.headD_cons, List.drop_succ_cons, List.drop_zero, List.mem_cons] at found
        obtain rfl | rfl | found := found
        · exact encoded _ List.mem_cons_self
        · decide
        · exact encoded c (List.mem_cons_of_mem _ (List.mem_cons_of_mem _ found))
      · intro special
        have none := plain special
        simp only [List.mem_cons, not_or] at none
        simp [none]
      · intro _
        rw [drive]
        split <;> rfl
  · have kept : drive type stack s = s := if_neg letter
    rw [kept]
    refine normal.push clean encoded name plain ?_
    rintro rfl
    exact kept

theorem Normal.resolveSegment (normal : Normal type stack) (clean : '/' ∉ s)
    (encoded : Encoded PATH_PERCENT_ENCODE s) (plain : type ≠ .NOT_SPECIAL → '\\' ∉ s)
    (last : Bool) : Normal type (resolveSegment type last s stack) := by
  cases name : isDotSegment s with
  | false =>
      rw [resolveSegment_name name]
      exact normal.push_drive clean encoded name plain
  | true =>
      rw [PreparedPath.resolveSegment]
      split
      · split
        · exact normal.pop.push_empty
        · exact normal.pop
      · next single =>
          have dot : isSingleDotPathSegment s = true := by simpa [isDotSegment, single] using name
          rw [if_pos dot]
          split
          · exact normal.push_empty
          · exact normal

/-- Resolving keeps a path normal. -/
theorem Normal.resolve (normal : Normal type stack) (clean : Segments segs)
    (encoded : ∀ s ∈ segs, Encoded PATH_PERCENT_ENCODE s)
    (plain : type ≠ .NOT_SPECIAL → ∀ s ∈ segs, '\\' ∉ s) :
    Normal type (resolve type segs stack) := by
  induction segs generalizing stack with
  | nil => exact normal
  | cons s segs ih =>
      obtain ⟨first, rest⟩ := List.forall_mem_cons.mp clean
      obtain ⟨first_encoded, rest_encoded⟩ := List.forall_mem_cons.mp encoded
      have step := normal.resolveSegment first first_encoded
        (fun special => plain special s List.mem_cons_self) (segs = [])
      exact ih step rest rest_encoded fun special t found =>
        plain special t (List.mem_cons_of_mem s found)

theorem not_backslash_of_mem_segments (special : type ≠ .NOT_SPECIAL)
    (found : s ∈ PreparedPath.segments type input) : '\\' ∉ s := by
  obtain ⟨piece, member, rfl⟩ := List.mem_map.mp found
  intro sign
  rw [percentEncode_eq] at sign
  obtain ⟨inside, -⟩ | same | digit := PercentCoding.mem_encode sign
  · exact (not_of_mem_splitOnP member inside).2 (by simp [separator, special])
  · exact absurd same (by decide)
  · exact absurd digit (by decide)

/-- The slow way from a normal path ends in a normal path. -/
theorem Normal.slowPath (normal : Normal type stack) (input : Str) :
    Normal type (PreparedPath.resolve type (PreparedPath.segments type input) stack) :=
  normal.resolve (segments_clean type input) (fun _ found => encoded_of_mem_segments found)
    fun special _ found => not_backslash_of_mem_segments special found

/-- In a special URL the last segment leaves one on the stack. -/
theorem resolve_ne_nil (special : type ≠ .NOT_SPECIAL) (nonempty : segs ≠ []) :
    PreparedPath.resolve type segs stack ≠ [] := by
  induction segs generalizing stack with
  | nil => exact absurd rfl nonempty
  | cons s segs ih =>
      cases segs with
      | nil =>
          rw [PreparedPath.resolve, PreparedPath.resolve, decide_eq_true rfl,
            PreparedPath.resolveSegment]
          split
          · simp [special]
          · split <;> simp
      | cons t segs => exact ih (List.cons_ne_nil t segs)

/-- A normal path is what its own text comes to. -/
theorem Normal.parsePreparedPath (normal : Normal type stack) (nonempty : stack ≠ []) :
    parsePreparedPath ((render stack).drop 1) type [] = render stack := by
  have split : ((render stack).drop 1).splitOn '/' = stack := by
    rw [List.splitOn_eq_splitOnP]
    refine splitOnP_tail_render (beq_self_eq_true '/') ?_ nonempty
    intro s found c member same
    exact normal.clean s found (eq_of_beq same ▸ member)
  have split' : ((render stack).drop 1).splitOnP (separator type) = stack := by
    refine splitOnP_tail_render (by simp [separator]) ?_ nonempty
    intro s found c member same
    simp only [separator, Bool.or_eq_true, Bool.and_eq_true, decide_eq_true_eq] at same
    obtain rfl | ⟨special, rfl⟩ := same
    · exact normal.clean s found member
    · exact normal.no_backslash special s found member
  have seen : ¬ Overlooked ((render stack).drop 1) type := by
    rintro ⟨-, -, -, -, s, found, dot⟩
    rw [split] at found
    have name := normal.names s found
    obtain rfl | rfl := dot <;> exact absurd name (by decide)
  have segs : PreparedPath.segments type ((render stack).drop 1) = stack := by
    rw [PreparedPath.segments, split']
    conv_rhs => rw [← List.map_id stack]
    exact List.map_congr_left fun s found => percentEncode_of_encoded (normal.encoded s found)
  have start : Segments [] := by simp [Segments]
  have slow := (parsePreparedPath_eq_slowPath_iff start).mpr seen
  rw [render_nil] at slow
  rw [slow, ← render_nil, slowPath_render start, segs, resolve_names normal.names, List.nil_append]
  exact normal.letter

/-- The dot that keeps two slashes from being taken for a host is resolved. -/
theorem Normal.parsePreparedPath_dot (normal : Normal .NOT_SPECIAL stack) (nonempty : stack ≠ []) :
    Ada.parsePreparedPath ('.' :: render stack) .NOT_SPECIAL [] = render stack := by
  have seen : ¬ Overlooked ('.' :: render stack) .NOT_SPECIAL := fun overlooked =>
    overlooked.front rfl
  have split : ((render stack).drop 1).splitOnP (separator .NOT_SPECIAL) = stack := by
    refine splitOnP_tail_render (by simp [separator]) ?_ nonempty
    intro s found c member same
    simp only [separator, Bool.or_eq_true, Bool.and_eq_true, decide_eq_true_eq] at same
    obtain rfl | ⟨special, -⟩ := same
    · exact normal.clean s found member
    · exact absurd rfl special
  have segs : PreparedPath.segments .NOT_SPECIAL ('.' :: render stack) = ['.'] :: stack := by
    have dot : separator .NOT_SPECIAL '.' = false := by decide
    have slash : separator .NOT_SPECIAL '/' = true := by decide
    rw [render_eq_cons nonempty, List.drop_one, List.tail_cons] at split
    rw [PreparedPath.segments, render_eq_cons nonempty, List.splitOnP_cons_eq_if_modifyHead,
      List.splitOnP_cons_eq_if_modifyHead, slash, if_pos rfl, dot, if_neg Bool.false_ne_true, split,
      List.modifyHead_cons, List.map_cons]
    congr 1
    conv_rhs => rw [← List.map_id stack]
    exact List.map_congr_left fun s found => percentEncode_of_encoded (normal.encoded s found)
  have start : Segments [] := by simp [Segments]
  have slow := (parsePreparedPath_eq_slowPath_iff start).mpr seen
  rw [render_nil] at slow
  rw [slow, ← render_nil, slowPath_render start, segs, PreparedPath.resolve,
    PreparedPath.resolveSegment, if_neg (by decide), if_pos (by decide),
    if_neg (by simpa using nonempty), resolve_names normal.names, List.nil_append]
  exact normal.letter

/-- From the empty path the parser comes to a normal path, or it has copied a
text that it overlooked. -/
theorem parsePreparedPath_cases (input : Str) (type : Kind) :
    (∃ stack, Normal type stack ∧ parsePreparedPath input type [] = render stack ∧
      (type ≠ .NOT_SPECIAL → stack ≠ [])) ∨
    Overlooked input type ∧ parsePreparedPath input type [] = '/' :: input := by
  have start : Segments [] := by simp [Segments]
  by_cases seen : Overlooked input type
  · refine .inr ⟨seen, ?_⟩
    rw [parsePreparedPath, if_pos (slowPath_of_overlooked start seen).1]
    rfl
  · refine .inl ⟨_, (normal_nil type).slowPath input, ?_, ?_⟩
    · rw [← slowPath_render start, ← (parsePreparedPath_eq_slowPath_iff start).mpr seen]
      rfl
    · exact fun special => resolve_ne_nil special (segments_ne_nil type input)

theorem Normal.encoded_render (normal : Normal type stack) :
    Encoded PATH_PERCENT_ENCODE (render stack) := by
  intro c found
  obtain ⟨s, member, inside⟩ := List.mem_flatMap.mp found
  obtain rfl | inside := List.mem_cons.mp inside
  · decide
  · exact normal.encoded s member c inside

theorem Normal.no_backslash_render (normal : Normal type stack) (special : type ≠ .NOT_SPECIAL) :
    '\\' ∉ render stack := by
  intro found
  obtain ⟨s, member, inside⟩ := List.mem_flatMap.mp found
  obtain same | inside := List.mem_cons.mp inside
  · exact absurd same (by decide)
  · exact normal.no_backslash special s member inside

/-- The path of a URL for every input: it holds encoded characters only, a
special URL has at least the root and no backslash, a path that is not empty is
rooted and is what its own text comes to again, and unless the input was
overlooked there is no dot segment left in it. -/
theorem parsePreparedPath_normalizes (input : Str) (type : Kind) :
    Encoded PATH_PERCENT_ENCODE (parsePreparedPath input type []) ∧
    (type ≠ .NOT_SPECIAL →
      parsePreparedPath input type [] ≠ [] ∧ '\\' ∉ parsePreparedPath input type []) ∧
    (parsePreparedPath input type [] ≠ [] → ∃ rest,
      parsePreparedPath input type [] = '/' :: rest ∧
        parsePreparedPath rest type [] = parsePreparedPath input type []) ∧
    (¬ Overlooked input type → ∀ rest, parsePreparedPath input type [] = '/' :: rest →
      ∀ s ∈ rest.splitOn '/', isDotSegment s = false) := by
  obtain ⟨stack, normal, result, rooted⟩ | ⟨overlooked, result⟩ :=
    parsePreparedPath_cases input type
  · rw [result]
    refine ⟨normal.encoded_render, fun special => ?_, fun nonempty => ?_, fun _ rest shape => ?_⟩
    · exact ⟨mt render_eq_nil.mp (rooted special), normal.no_backslash_render special⟩
    · have some_segment : stack ≠ [] := mt render_eq_nil.mpr nonempty
      refine ⟨_, render_eq_cons some_segment, ?_⟩
      have again := normal.parsePreparedPath some_segment
      rwa [render_eq_cons some_segment, List.drop_one, List.tail_cons,
        ← render_eq_cons some_segment] at again
    · have some_segment : stack ≠ [] := by
        rintro rfl
        cases shape
      have split : ((render stack).drop 1).splitOn '/' = stack := by
        rw [List.splitOn_eq_splitOnP]
        refine splitOnP_tail_render (beq_self_eq_true '/') ?_ some_segment
        intro s found c member same
        exact normal.clean s found (eq_of_beq same ▸ member)
      rw [shape, List.drop_one, List.tail_cons] at split
      rw [split]
      exact normal.names
  · rw [result]
    have start : Segments [] := by simp [Segments]
    have copied := (slowPath_of_overlooked start overlooked).1
    obtain ⟨-, encoded, plain, -, -⟩ := trivialPath_spec copied
    refine ⟨?_, fun special => ⟨List.cons_ne_nil _ _, ?_⟩, fun _ => ⟨input, rfl, result⟩,
      fun seen => absurd overlooked seen⟩
    · exact List.forall_mem_cons.mpr ⟨by decide, encoded⟩
    · simpa using plain special

/-- A path that starts with two slashes is what its text comes to with a dot in
front of it. -/
theorem parsePreparedPath_dot {input rest : Str} (front : input.head? ≠ some '/')
    (double : parsePreparedPath input .NOT_SPECIAL [] = '/' :: '/' :: rest) :
    parsePreparedPath ('.' :: '/' :: '/' :: rest) .NOT_SPECIAL [] = '/' :: '/' :: rest := by
  obtain ⟨stack, normal, result, -⟩ | ⟨-, result⟩ := parsePreparedPath_cases input .NOT_SPECIAL
  · rw [result] at double
    rw [← double]
    refine normal.parsePreparedPath_dot ?_
    rintro rfl
    cases double
  · rw [result] at double
    rw [(List.cons.inj double).2] at front
    exact absurd rfl front

/-- Both ways to prepare a path, seen from its segments: the slow way resolves them, and
the shortcuts come to the same unless they overlook a dot segment. -/
theorem parsePreparedPath_refines (input : Str) (type : Kind) :
    slowPath input type [] = render (resolve type (segments type input) []) ∧
      (parsePreparedPath input type [] = render (resolve type (segments type input) []) ↔
        ¬ Overlooked input type) := by
  have start : Segments [] := by simp [Segments]
  have slow : slowPath input type [] = render (resolve type (segments type input) []) :=
    slowPath_render start
  refine ⟨slow, ?_⟩
  rw [← slow]
  exact parsePreparedPath_eq_slowPath_iff start

end Normal

end Mux.Ada
