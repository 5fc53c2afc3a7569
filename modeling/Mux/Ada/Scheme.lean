import Mathlib.Data.List.Basic
import Mux.Library.Text

/-!
# Schemes

The special schemes stand in a table of eight places. The length of a scheme and
its first byte give the only place where it can be, so that one comparison
decides whether a scheme is special.
-/

namespace Mux.Ada

namespace Scheme

/-- The numbers of the enumerators are the places in the table. -/
inductive Kind where
  | HTTP
  | NOT_SPECIAL
  | HTTPS
  | WS
  | FTP
  | WSS
  | FILE
  deriving DecidableEq, Repr

/-- The enumerator with a number. The last place of the table has none. -/
def Kind.ofValue : Nat → Kind
  | 0 => .HTTP
  | 2 => .HTTPS
  | 3 => .WS
  | 4 => .FTP
  | 5 => .WSS
  | 6 => .FILE
  | _ => .NOT_SPECIAL

def Kind.value : Kind → Nat
  | .HTTP => 0
  | .NOT_SPECIAL => 1
  | .HTTPS => 2
  | .WS => 3
  | .FTP => 4
  | .WSS => 5
  | .FILE => 6

def isSpecialList : List Str :=
  [['h', 't', 't', 'p'], [' '], ['h', 't', 't', 'p', 's'], ['w', 's'], ['f', 't', 'p'],
    ['w', 's', 's'], ['f', 'i', 'l', 'e'], [' ']]

def specialPorts : List Nat := [80, 0, 443, 80, 21, 443, 0, 0]

/-- The place in the table. -/
def hashValue (length : Nat) (first : Char) : Nat := (2 * length + first.toNat) &&& 7

def getSchemeType (scheme : Str) : Kind :=
  match scheme with
  | [] => .NOT_SPECIAL
  | first :: _ =>
      let hash_value := hashValue scheme.length first
      if isSpecialList.getD hash_value [] = scheme then .ofValue hash_value else .NOT_SPECIAL

def isSpecial (scheme : Str) : Bool :=
  match scheme with
  | [] => false
  | first :: _ => isSpecialList.getD (hashValue scheme.length first) [] = scheme

/-- The port of a scheme by its name. -/
def getSpecialPort (scheme : Str) : Nat :=
  match scheme with
  | [] => 0
  | first :: _ =>
      let hash_value := hashValue scheme.length first
      if isSpecialList.getD hash_value [] = scheme then specialPorts.getD hash_value 0 else 0

/-- The port of a scheme by its type. -/
def Kind.getSpecialPort (kind : Kind) : Nat := specialPorts.getD kind.value 0

/-- The name of a scheme by its type. -/
def Kind.name (kind : Kind) : Str := isSpecialList.getD kind.value []

/-- The special schemes by name. -/
def specialSchemes : List (Str × Kind) :=
  [(['h', 't', 't', 'p'], .HTTP), (['h', 't', 't', 'p', 's'], .HTTPS), (['w', 's'], .WS),
    (['f', 't', 'p'], .FTP), (['w', 's', 's'], .WSS), (['f', 'i', 'l', 'e'], .FILE)]

section PerfectHash

variable {scheme : Str} {kind : Kind}

theorem hashValue_lt (length : Nat) (first : Char) : hashValue length first < 8 :=
  Nat.lt_of_le_of_lt Nat.and_le_right (by decide)

/-- The entry at the place of a scheme is the scheme only for a special scheme,
whose place is the number of its type. -/
theorem getD_hashValue_eq {first : Char} {rest : Str} :
    isSpecialList.getD (hashValue (first :: rest).length first) [] = first :: rest ↔
      ∃ kind, (first :: rest, kind) ∈ specialSchemes ∧
        hashValue (first :: rest).length first = kind.value := by
  constructor
  · intro entry
    have bound := hashValue_lt (first :: rest).length first
    have table : ∀ i : Fin 8, (isSpecialList.getD i [], Kind.ofValue i) ∈ specialSchemes ∧
        (Kind.ofValue i).value = i ∨ isSpecialList.getD i [] = [' '] := by decide
    obtain ⟨member, number⟩ | blank := table ⟨_, bound⟩
    · rw [entry] at member
      exact ⟨_, member, number.symm⟩
    · rw [entry] at blank
      rw [blank] at entry
      obtain ⟨rfl, rfl⟩ := List.cons.inj blank
      exact absurd entry (by decide)
  · rintro ⟨kind, member, number⟩
    have table : ∀ entry ∈ specialSchemes, isSpecialList.getD entry.2.value [] = entry.1 := by
      decide
    rw [number]
    exact table _ member

/-- One comparison finds the special schemes, and no other text passes it. -/
theorem special_cases (scheme : Str) :
    (∃ kind, (scheme, kind) ∈ specialSchemes ∧ getSchemeType scheme = kind ∧
      isSpecial scheme = true ∧ getSpecialPort scheme = kind.getSpecialPort) ∨
    (∀ kind, (scheme, kind) ∉ specialSchemes) ∧ getSchemeType scheme = .NOT_SPECIAL ∧
      isSpecial scheme = false ∧ getSpecialPort scheme = 0 := by
  cases scheme with
  | nil => exact .inr ⟨by simp [specialSchemes], rfl, rfl, rfl⟩
  | cons first rest =>
      by_cases entry :
          isSpecialList.getD (hashValue (first :: rest).length first) [] = first :: rest
      · obtain ⟨kind, member, number⟩ := getD_hashValue_eq.mp entry
        have table : ∀ entry ∈ specialSchemes, Kind.ofValue entry.2.value = entry.2 := by decide
        refine .inl ⟨kind, member, ?_, ?_, ?_⟩
        · rw [getSchemeType, if_pos entry, number]
          exact table _ member
        · rw [isSpecial, entry, decide_eq_true rfl]
        · rw [Scheme.getSpecialPort, if_pos entry, number]
          rfl
      · refine .inr ⟨?_, ?_, ?_, ?_⟩
        · intro kind member
          have places : ∀ entry ∈ specialSchemes, ∀ c cs, entry.1 = c :: cs →
              hashValue entry.1.length c = entry.2.value := by
            intro entry found c cs shape
            have table : ∀ entry ∈ specialSchemes,
                hashValue entry.1.length (entry.1.headD ' ') = entry.2.value := by decide
            have place := table entry found
            rwa [shape] at place ⊢
          exact entry (getD_hashValue_eq.mpr ⟨kind, member, places _ member first rest rfl⟩)
        · rw [getSchemeType, if_neg entry]
        · rw [isSpecial, decide_eq_false entry]
        · rw [Scheme.getSpecialPort, if_neg entry]

theorem name_of_mem (member : (scheme, kind) ∈ specialSchemes) : kind.name = scheme := by
  have table : ∀ entry ∈ specialSchemes, entry.2.name = entry.1 := by decide
  exact table _ member

/-- The name of a special type is the scheme that has it. -/
theorem name_getSchemeType (special : getSchemeType scheme ≠ .NOT_SPECIAL) :
    (getSchemeType scheme).name = scheme := by
  obtain ⟨kind, member, type, -⟩ | ⟨-, type, -⟩ := special_cases scheme
  · rw [type, name_of_mem member]
  · exact absurd type special

theorem getSchemeType_name (kind : Kind) : getSchemeType kind.name = kind := by
  cases kind <;> decide

/-- A scheme has a special type exactly when it is the name of that type, and the type
decides what else is read from the table. -/
theorem perfectHash_spec (scheme : Str) :
    (∀ kind, kind ≠ .NOT_SPECIAL → (getSchemeType scheme = kind ↔ scheme = kind.name)) ∧
      (isSpecial scheme = true ↔ getSchemeType scheme ≠ .NOT_SPECIAL) ∧
      getSpecialPort scheme = (getSchemeType scheme).getSpecialPort := by
  refine ⟨fun kind special => ⟨?_, ?_⟩, ?_⟩
  · rintro rfl
    exact (name_getSchemeType special).symm
  · rintro rfl
    exact getSchemeType_name kind
  · have special : ∀ entry ∈ specialSchemes, entry.2 ≠ .NOT_SPECIAL := by decide
    obtain ⟨kind, member, type, listed, port⟩ | ⟨-, type, listed, port⟩ := special_cases scheme
    · rw [type, listed, port]
      exact ⟨by simpa using special _ member, rfl⟩
    · rw [type, listed, port]
      exact ⟨by simp, rfl⟩

end PerfectHash

end Scheme

end Mux.Ada
