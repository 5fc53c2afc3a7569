import Mux.Library.Regex

/-!
# Reading regular expressions

The ECMAScript notation of patterns, with the named classes that C++ adds to
bracketed sets. A pattern is cut into tokens, and the tokens are put together
with one level for each open parenthesis. Every character that the notation
gives a meaning of its own is `special`; all others stand for themselves.
-/

namespace Regex

/-- The codes of `std::regex_error`. -/
inductive ErrorType where
  | error_collate
  | error_ctype
  | error_escape
  | error_backref
  | error_brack
  | error_paren
  | error_brace
  | error_badbrace
  | error_range
  | error_badrepeat
  deriving DecidableEq

open ErrorType

/-! ## Escapes -/

def hexDigit? (c : Char) : Option Nat :=
  if c.isDigit then some (c.toNat - '0'.toNat)
  else if 'a' ≤ c ∧ c ≤ 'f' then some (c.toNat - 'a'.toNat + 10)
  else if 'A' ≤ c ∧ c ≤ 'F' then some (c.toNat - 'A'.toNat + 10)
  else none

/-- The character with a hexadecimal code. -/
def hexChar (digits : Str) : Except ErrorType Char :=
  match digits.mapM hexDigit? with
  | none => .error error_escape
  | some values => .ok (Char.ofNat (values.foldl (fun n d => 16 * n + d) 0))

/-- The character that an escape behind a backslash stands for, and the text behind it. An
identity escape is none of the characters of a word. -/
def characterEscape : Str → Except ErrorType (Char × Str)
  | 'f' :: rest => .ok ('\x0c', rest)
  | 'n' :: rest => .ok ('\n', rest)
  | 'r' :: rest => .ok ('\r', rest)
  | 't' :: rest => .ok ('\t', rest)
  | 'v' :: rest => .ok ('\x0b', rest)
  | 'c' :: letter :: rest =>
      if letter.isAlpha then .ok (Char.ofNat (letter.toNat % 32), rest) else .error error_escape
  | 'x' :: a :: b :: rest => do .ok (← hexChar [a, b], rest)
  | 'u' :: a :: b :: c :: d :: rest => do .ok (← hexChar [a, b, c, d], rest)
  | c :: rest => if CharClass.word.holds c then .error error_escape else .ok (c, rest)
  | [] => .error error_escape

/-- The class that an escape stands for. -/
def classEscape? : Char → Option SetItem
  | 'd' => some (.named false .digit)
  | 'D' => some (.named true .digit)
  | 's' => some (.named false .space)
  | 'S' => some (.named true .space)
  | 'w' => some (.named false .word)
  | 'W' => some (.named true .word)
  | _ => none

/-- The decimal digits at the front of a text, and the text behind them. -/
def digits (text : Str) : Str × Str := (text.takeWhile Char.isDigit, text.dropWhile Char.isDigit)

/-- A decimal escape: zero is the null character, any other number a group. -/
def decimalEscape (text : Str) : Except ErrorType (Nat × Str) :=
  match digits text with
  | (['0'], rest) => .ok (0, rest)
  | ('0' :: _, _) => .error error_escape
  | (ds, rest) => match Text.parseDecimal ds with
      | none => .error error_escape
      | some n => .ok (n, rest)

/-! ## Bracketed sets -/

/-- What stands between the brackets of a set. -/
inductive SetAtom where
  | dash
  | item (element : SetItem)

/-- The names of the character classes. -/
def className? (name : Str) : Option CharClass :=
  [("alnum", CharClass.alnum), ("alpha", .alpha), ("blank", .blank), ("cntrl", .cntrl),
    ("d", .digit), ("digit", .digit), ("graph", .graph), ("lower", .lower), ("print", .print),
    ("punct", .punct), ("s", .space), ("space", .space), ("upper", .upper), ("w", .word),
    ("xdigit", .xdigit)].lookup (String.ofList name)

/-- An escape inside a set. -/
def setEscape : Str → Except ErrorType (SetAtom × Str)
  | [] => .error error_escape
  | c :: rest =>
      match classEscape? c with
      | some item => .ok (.item item, rest)
      | none =>
          if c = 'b' then .ok (.item (.single '\x08'), rest)
          else if c.isDigit then do
            match ← decimalEscape (c :: rest) with
            | (0, rest) => .ok (.item (.single '\x00'), rest)
            | _ => .error error_escape
          else do
            let (d, rest) ← characterEscape (c :: rest)
            .ok (.item (.single d), rest)

/-- One element of a set, which starts with a given character. -/
def setAtom (c : Char) (rest : Str) : Except ErrorType (SetAtom × Str) :=
  match c, rest with
  | '-', rest => .ok (.dash, rest)
  | '\\', rest => setEscape rest
  | '[', ':' :: rest => match Text.cut? ":]".toList rest with
      | none => .error error_brack
      | some (name, rest) => match className? name with
          | none => .error error_ctype
          | some cls => .ok (.item (.named false cls), rest)
  | '[', '.' :: rest => match Text.cut? ".]".toList rest with
      | none => .error error_brack
      | some ([d], rest) => .ok (.item (.single d), rest)
      | some _ => .error error_collate
  | '[', '=' :: rest => match Text.cut? "=]".toList rest with
      | none => .error error_brack
      | some ([d], rest) => .ok (.item (.single d), rest)
      | some _ => .error error_collate
  | c, rest => .ok (.item (.single c), rest)

/-- The elements up to the closing bracket, and the text behind it. The number counts the
characters at the front that belong to the element before. -/
def setAtoms : Nat → Str → Except ErrorType (List SetAtom × Str)
  | _, [] => .error error_brack
  | skip + 1, _ :: rest => setAtoms skip rest
  | 0, c :: rest =>
      if c = ']' then .ok ([], rest)
      else do
        let (atom, behind) ← setAtom c rest
        let (atoms, rest) ← setAtoms (rest.length - behind.length) rest
        .ok (atom :: atoms, rest)

def SetAtom.toItem : SetAtom → SetItem
  | dash => .single '-'
  | item element => element

/-- The set items of a list of elements: a dash between two of them is a range. -/
def setItems : List SetAtom → Except ErrorType (List SetItem)
  | first :: .dash :: last :: atoms => do
      match first.toItem, last.toItem with
      | .single a, .single b =>
          if a ≤ b then .ok (.range a b :: (← setItems atoms)) else .error error_range
      | _, _ => .error error_range
  | atom :: atoms => do .ok (atom.toItem :: (← setItems atoms))
  | [] => .ok []

/-- A set, behind its opening bracket. -/
def readSet (text : Str) : Except ErrorType (Node × Str) := do
  let (negated, text) := if text.head? = some '^' then (true, text.drop 1) else (false, text)
  let (atoms, rest) ← setAtoms 0 text
  .ok (.set negated (← setItems atoms), rest)

/-! ## Tokens -/

inductive Opening where
  | capture
  | plain
  | lookahead (negated : Bool)

inductive Token where
  /-- What a quantifier may follow. -/
  | atom (node : Node)
  | assertion (node : Node)
  | opening (kind : Opening)
  | closing
  | bar
  | quantifier (min : Nat) (max : Option Nat) (greedy : Bool)

/-- A quantifier is not greedy when a question mark follows. -/
def readQuantifier (min : Nat) (max : Option Nat) : Str → Token × Str
  | '?' :: rest => (.quantifier min max false, rest)
  | rest => (.quantifier min max true, rest)

/-- The bounds of a quantifier, behind its opening brace. -/
def readBounds (text : Str) : Except ErrorType (Token × Str) :=
  let (least, rest) := digits text
  match Text.parseDecimal least, rest with
  | some min, '}' :: rest => .ok (readQuantifier min (some min) rest)
  | some min, ',' :: '}' :: rest => .ok (readQuantifier min none rest)
  | some min, ',' :: rest =>
      let (most, rest) := digits rest
      match Text.parseDecimal most, rest with
      | some max, '}' :: rest =>
          if min ≤ max then .ok (readQuantifier min (some max) rest) else .error error_badbrace
      | _, [] => .error error_brace
      | _, _ => .error error_badbrace
  | _, [] => .error error_brace
  | _, _ => .error error_badbrace

/-- An escape outside of sets, behind its backslash. -/
def readEscape : Str → Except ErrorType (Token × Str)
  | [] => .error error_escape
  | c :: rest =>
      match classEscape? c with
      | some item => .ok (.atom (.set false [item]), rest)
      | none =>
          if c = 'b' then .ok (.assertion (.boundary false), rest)
          else if c = 'B' then .ok (.assertion (.boundary true), rest)
          else if c.isDigit then do
            match ← decimalEscape (c :: rest) with
            | (0, rest) => .ok (.atom (.char '\x00'), rest)
            | (n, rest) => .ok (.atom (.backref n), rest)
          else do
            let (d, rest) ← characterEscape (c :: rest)
            .ok (.atom (.char d), rest)

/-- The kind of a parenthesis, behind it. -/
def readOpening : Str → Except ErrorType (Token × Str)
  | '?' :: ':' :: rest => .ok (.opening .plain, rest)
  | '?' :: '=' :: rest => .ok (.opening (.lookahead false), rest)
  | '?' :: '!' :: rest => .ok (.opening (.lookahead true), rest)
  | '?' :: _ => .error error_paren
  | rest => .ok (.opening .capture, rest)

/-- The token that starts with a given character, and the text behind it. -/
def token (c : Char) (rest : Str) : Except ErrorType (Token × Str) :=
  match c with
  | '^' => .ok (.assertion .start, rest)
  | '$' => .ok (.assertion .finish, rest)
  | '\\' => readEscape rest
  | '.' => .ok (.atom .any, rest)
  | '*' => .ok (readQuantifier 0 none rest)
  | '+' => .ok (readQuantifier 1 none rest)
  | '?' => .ok (readQuantifier 0 (some 1) rest)
  | '(' => readOpening rest
  | ')' => .ok (.closing, rest)
  | '[' => do
      let (set, rest) ← readSet rest
      .ok (.atom set, rest)
  | ']' => .error error_brack
  | '{' => readBounds rest
  | '}' => .error error_brace
  | '|' => .ok (.bar, rest)
  | c => .ok (.atom (.char c), rest)

/-- The tokens of a pattern. The number counts the characters at the front that belong to the
token before. -/
def tokens : Nat → Str → Except ErrorType (List Token)
  | _, [] => .ok []
  | skip + 1, _ :: rest => tokens skip rest
  | 0, c :: rest => do
      let (first, behind) ← token c rest
      .ok (first :: (← tokens (rest.length - behind.length) rest))

/-! ## Levels -/

/-- What has been read between two parentheses. -/
structure Level where
  /-- The alternatives in front of the last bar. -/
  alternatives : Option Node := none
  terms : Node := .empty
  /-- The last term, when a quantifier may follow it. -/
  last : Option Node := none

namespace Level

/-- The terms behind the last bar. -/
def sequence (level : Level) : Node :=
  match level.last with
  | none => level.terms
  | some atom => .seq level.terms atom

def disjunction (level : Level) : Node :=
  match level.alternatives with
  | none => level.sequence
  | some alternatives => .alt alternatives level.sequence

def atom (level : Level) (node : Node) : Level :=
  { level with terms := level.sequence, last := some node }

/-- Add a term that no quantifier may follow. -/
def assertion (level : Level) (node : Node) : Level :=
  { level with terms := .seq level.sequence node, last := none }

def bar (level : Level) : Level := { alternatives := some level.disjunction }

end Level

/-- The node of a group that was closed. -/
def Opening.node (index : Nat) (body : Node) : Opening → Node
  | capture => .group index body
  | plain => body
  | lookahead negated => .lookahead negated body

/-- Put tokens together: the levels outside of the current one with the parentheses that
opened it, the current level, and the number of capturing groups so far. -/
def assemble : List (Opening × Nat × Level) → Level → Nat → List Token →
    Except ErrorType (Node × Nat)
  | [], level, count, [] => .ok (level.disjunction, count)
  | _ :: _, _, _, [] => .error error_paren
  | outer, level, count, .atom node :: rest => assemble outer (level.atom node) count rest
  | outer, level, count, .assertion node :: rest => assemble outer (level.assertion node) count rest
  | outer, level, count, .opening .capture :: rest =>
      assemble ((.capture, count + 1, level) :: outer) {} (count + 1) rest
  | outer, level, count, .opening kind :: rest =>
      assemble ((kind, 0, level) :: outer) {} count rest
  | [], _, _, .closing :: _ => .error error_paren
  | (kind, index, before) :: outer, level, count, .closing :: rest =>
      assemble outer (before.atom (kind.node index level.disjunction)) count rest
  | outer, level, count, .bar :: rest => assemble outer level.bar count rest
  | outer, level, count, .quantifier min max greedy :: rest =>
      match level.last with
      | none => .error error_badrepeat
      | some node =>
          assemble outer
            { level with terms := .seq level.terms (.repeated node min max greedy), last := none }
            count rest

/-- The constructor of `std::regex`. -/
def compile (pattern : Str) : Except ErrorType Node := do
  let (node, count) ← assemble [] {} 0 (← tokens 0 pattern)
  if node.backrefs.all (· ≤ count) then .ok node else .error error_backref

/-! ## Plain characters -/

/-- The characters that do not stand for themselves. -/
def special (c : Char) : Bool :=
  c ∈ ['^', '$', '\\', '.', '*', '+', '?', '(', ')', '[', ']', '{', '}', '|']

theorem token_plain {c : Char} (plain : special c = false) (rest : Str) :
    token c rest = .ok (.atom (.char c), rest) := by
  unfold token
  split
  all_goals first
    | rfl
    | exact absurd plain (by decide)

/-- The next token starts behind the characters of this one. -/
theorem tokens_cons (text : Str) {c : Char} {behind rest : Str} {first : Token}
    (h : token c behind = .ok (first, rest)) (hsplit : behind = text ++ rest) :
    tokens 0 (c :: behind) = (tokens 0 rest).map (first :: ·) := by
  have skipped : ∀ text : Str, tokens text.length (text ++ rest) = tokens 0 rest := by
    intro text
    induction text with
    | nil => rfl
    | cons d text ih => simpa [tokens] using ih
  have length : behind.length - rest.length = text.length := by simp [hsplit]
  simp only [tokens, h, length, bind, Except.bind]
  rw [hsplit, skipped]
  cases tokens 0 rest <;> rfl

theorem tokens_plain {c : Char} (plain : special c = false) (rest : Str) :
    tokens 0 (c :: rest) = (tokens 0 rest).map (.atom (.char c) :: ·) :=
  tokens_cons [] (token_plain plain rest) rfl

/-- A set of all characters but one. -/
theorem token_excluding {c : Char} (hc : c ∉ [']', '-', '\\', '[']) (rest : Str) :
    token '[' ('^' :: c :: ']' :: rest) = .ok (.atom (.set true [.single c]), rest) := by
  simp only [List.mem_cons, List.not_mem_nil, or_false, not_or] at hc
  obtain ⟨bracket, dash, backslash, opening⟩ := hc
  have element : setAtom c (']' :: rest) = .ok (.item (.single c), ']' :: rest) := by
    unfold setAtom
    split
    all_goals first
      | rfl
      | contradiction
  have closed : setAtoms 0 (']' :: rest) = .ok ([], rest) := rfl
  simp [token, readSet, setAtoms, setItems, SetAtom.toItem, bracket, element, closed, bind,
    Except.bind]

namespace Level

theorem disjunction_atom {level : Level} (h : level.alternatives = none) (node : Node) :
    (level.atom node).disjunction = .seq level.disjunction node := by
  simp [disjunction, sequence, atom, h]

end Level

end Regex
