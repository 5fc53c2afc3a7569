import Mux.Ada.Host
import Mux.Ada.Punycode
import Mux.Ada.Utf8

/-!
# Internationalized names

The conversion of a name to ASCII works label by label. A label in Punycode is
checked and kept, any other label that is not ASCII is written in Punycode. The
tables of the mapping, the normalization and the validity are parameters.

With them the conversion keeps what the host parser asks of it, for hosts that
are not longer than a label that can be read.
-/

namespace Mux.Ada

open Text Unicode

namespace Idna

/-- The functions that are driven by the tables of Unicode. -/
structure Tables where
  map : List Nat → List Nat
  normalize : List Nat → List Nat
  isLabelValid : List Nat → Bool

/-- What a label in Punycode begins with. -/
def ace : Str := ['x', 'n', '-', '-']

/-- The words of `ascii_map` are those of `to_lower_ascii`. -/
def asciiMap (input : Str) : Str := (toLowerAscii input).1

/-- The loop over the labels. Behind a dot at the end there is no further label. -/
def convertLabels {α : Type} [DecidableEq α] (dot : α) (label : List α → Option Str) :
    Nat → List α → Option Str
  | 0, text => if text = [] then some [] else none
  | fuel + 1, text =>
      if text = [] then some []
      else match text.idxOf? dot with
        | none => label text
        | some loc_dot =>
            match label (text.take loc_dot),
              convertLabels dot label fuel (text.drop (loc_dot + 1)) with
            | some out, some more => some (out ++ '.' :: more)
            | _, _ => none

section Conversion

variable (tables : Tables)

/-- The checks of a label in Punycode. -/
def checksOut (label_view : Str) : Bool :=
  match Punycode.punycodeToUtf32 (label_view.drop ace.length) with
  | none => false
  | some tmp_buffer =>
      let post_map := tables.map tmp_buffer
      if tmp_buffer ≠ post_map then false
      else
        let pre_normal := post_map
        let post_map := tables.normalize post_map
        if post_map ≠ pre_normal then false
        else if post_map = [] then false
        else tables.isLabelValid post_map

/-- The body of the loop of `from_ascii_to_ascii`. -/
def asciiLabel (label_view : Str) : Option Str :=
  if label_view = [] then some []
  else if ace.isPrefixOf label_view then
    if checksOut tables label_view then some label_view else none
  else some label_view

def fromAsciiToAscii (ut8_string : Str) : Str :=
  let mapped_string := asciiMap ut8_string
  (convertLabels '.' (asciiLabel tables) mapped_string.length mapped_string).getD []

/-- The body of the loop of `to_ascii`. -/
def utf32Label (label_view : List Nat) : Option Str :=
  if label_view = [] then some []
  else if (ace.map Char.toNat).isPrefixOf label_view then
    if label_view.any (0x80 ≤ ·) then none
    else if checksOut tables (label_view.map Char.ofNat) then some (label_view.map Char.ofNat)
    else none
  else if label_view.all (· < 0x80) then some (label_view.map Char.ofNat)
  else if !tables.isLabelValid label_view then none
  else (Punycode.utf32ToPunycode label_view).map (ace ++ ·)

/-- The empty text stands for an error. -/
def toAscii (ut8_string : Str) : Str :=
  if ut8_string.all (·.toNat < 0x80) then fromAsciiToAscii tables ut8_string
  else
    match Utf8.utf8ToUtf32 (ut8_string.map fun c => UInt8.ofNat c.toNat) with
    | none => []
    | some codes =>
        let utf32 := tables.normalize (tables.map (codes.map UInt32.toNat))
        (convertLabels '.'.toNat (utf32Label tables) utf32.length utf32).getD []

end Conversion

/-- What the tables promise of mapped and normalized text: it has no capital letters,
and a valid label in it is mapped and normalized already. -/
structure Tables.Lawful (tables : Tables) : Prop where
  lower : ∀ x, ∀ c ∈ tables.normalize (tables.map x), c < 'A'.toNat ∨ 'Z'.toNat < c
  fixed : ∀ x label, label <:+: tables.normalize (tables.map x) →
    tables.isLabelValid label = true → tables.map label = label ∧ tables.normalize label = label

/-! ## The loop over the labels -/

section Labels

variable {α : Type} [DecidableEq α] {dot : α} {label : List α → Option Str} {text whole : List α}
variable {fuel : Nat} {out : Str}

theorem dot_not_mem_take {loc_dot : Nat} (found : text.idxOf? dot = some loc_dot) :
    dot ∉ text.take loc_dot := by
  obtain ⟨inside, -, first⟩ := List.idxOf?_eq_some_iff.mp found
  rw [List.mem_take_iff_getElem]
  rintro ⟨i, bound, same⟩
  exact first i (by omega) same

/-- Each character of the result is a dot or one of a converted label. -/
theorem mem_convertLabels (inside : text <:+: whole)
    (run : convertLabels dot label fuel text = some out) {c : Char} (found : c ∈ out) :
    c = '.' ∨ ∃ l t, l <:+: whole ∧ dot ∉ l ∧ label l = some t ∧ c ∈ t := by
  induction fuel generalizing text out with
  | zero =>
      rw [convertLabels] at run
      split at run
      · rw [← Option.some.inj run] at found
        cases found
      · cases run
  | succ fuel ih =>
      rw [convertLabels] at run
      split at run
      · rw [← Option.some.inj run] at found
        cases found
      · split at run
        · next none =>
            exact .inr ⟨text, out, inside, List.idxOf?_eq_none_iff.mp none, run, found⟩
        · next loc_dot place =>
            split at run
            · next first more converted rest =>
                rw [← Option.some.inj run, List.mem_append, List.mem_cons] at found
                obtain found | rfl | found := found
                · exact .inr ⟨_, first, (List.take_prefix _ _).isInfix.trans inside,
                    dot_not_mem_take place, converted, found⟩
                · exact .inl rfl
                · exact ih ((List.drop_suffix _ _).isInfix.trans inside) rest found
            · cases run

/-- A result is converted to itself, if that holds of its labels. -/
theorem convertLabels_again {reread : Str → Option Str} {size rounds : Nat}
    (again : ∀ l t, l <:+: whole → dot ∉ l → label l = some t → t.length ≤ size →
      '.' ∉ t ∧ reread t = some t)
    (inside : text <:+: whole) (run : convertLabels dot label fuel text = some out)
    (small : out.length ≤ size) (enough : out.length ≤ rounds) :
    convertLabels '.' reread rounds out = some out := by
  have last {t : Str} {rounds : Nat} (clean : '.' ∉ t) (kept : reread t = some t)
      (enough : t.length ≤ rounds) : convertLabels '.' reread rounds t = some t := by
    cases rounds with
    | zero =>
        obtain rfl := List.length_eq_zero_iff.mp (Nat.le_zero.mp enough)
        rfl
    | succ rounds =>
        rw [convertLabels]
        split
        · next empty => rw [empty]
        · rw [List.idxOf?_eq_none_iff.mpr clean]
          exact kept
  induction fuel generalizing text out rounds with
  | zero =>
      rw [convertLabels] at run
      split at run
      · rw [← Option.some.inj run]
        cases rounds <;> rfl
      · cases run
  | succ fuel ih =>
      rw [convertLabels] at run
      split at run
      · rw [← Option.some.inj run]
        cases rounds <;> rfl
      · split at run
        · next none =>
            have whole_text := List.idxOf?_eq_none_iff.mp none
            obtain ⟨clean, kept⟩ := again text out inside whole_text run small
            exact last clean kept enough
        · next loc_dot place =>
            split at run
            · next first more converted rest =>
                obtain rfl := Option.some.inj run
                rw [List.length_append, List.length_cons] at small enough
                obtain ⟨clean, kept⟩ := again _ first ((List.take_prefix _ _).isInfix.trans inside)
                  (dot_not_mem_take place) converted (by omega)
                obtain ⟨rounds, rfl⟩ : ∃ n, rounds = n + 1 := ⟨rounds - 1, by omega⟩
                have onward : convertLabels '.' reread rounds more = some more :=
                  ih ((List.drop_suffix _ _).isInfix.trans inside) rest (by omega) (by omega)
                have some_text : first ++ '.' :: more ≠ [] := by simp
                rw [convertLabels, if_neg some_text, idxOf?_append_cons clean]
                dsimp only
                have behind : (first ++ '.' :: more).drop (first.length + 1) = more := by
                  rw [← List.drop_drop, List.drop_left, List.drop_one, List.tail_cons]
                rw [List.take_left, behind, kept, onward]
            · cases run

end Labels

/-! ## One label -/

section Label

variable {tables : Tables} {l : List Nat} {t : Str}

theorem toNat_map_ofNat (ascii : ∀ c ∈ l, c < 0x80) : (l.map Char.ofNat).map Char.toNat = l := by
  rw [List.map_map]
  conv_rhs => rw [← List.map_id l]
  exact List.map_congr_left fun c found => Punycode.toNat_ofNat_ascii (ascii c found)

theorem ace_isPrefixOf (ascii : ∀ c ∈ l, c < 0x80) :
    ace.isPrefixOf (l.map Char.ofNat) = (ace.map Char.toNat).isPrefixOf l := by
  rw [Bool.eq_iff_iff, List.isPrefixOf_iff_prefix, List.isPrefixOf_iff_prefix]
  constructor
  · intro front
    have mapped := front.map Char.toNat
    rwa [toNat_map_ofNat ascii] at mapped
  · exact fun front => front.map Char.ofNat

/-- A label of ASCII text is kept, or not converted. -/
theorem asciiLabel_eq_some {l : Str} (converted : asciiLabel tables l = some t) : t = l := by
  unfold asciiLabel at converted
  split at converted
  · next empty => rw [empty, ← Option.some.inj converted]
  · split at converted
    · split at converted
      · exact (Option.some.inj converted).symm
      · cases converted
    · exact (Option.some.inj converted).symm

theorem dot_not_mem_map (ascii : ∀ c ∈ l, c < 0x80) (clean : '.'.toNat ∉ l) :
    '.' ∉ l.map Char.ofNat := by
  intro found
  have mapped := List.mem_map_of_mem (f := Char.toNat) found
  rw [toNat_map_ofNat ascii] at mapped
  exact clean mapped

theorem asciiLabel_ace (prefixed : ace.isPrefixOf t = true) (checked : checksOut tables t = true) :
    asciiLabel tables t = some t := by
  have nonempty : t ≠ [] := by
    rintro rfl
    cases prefixed
  rw [asciiLabel, if_neg nonempty, if_pos prefixed, if_pos checked]

/-- The text of a label is converted to itself. -/
theorem utf32Label_again
    (fixed : tables.isLabelValid l = true → tables.map l = l ∧ tables.normalize l = l)
    (clean : '.'.toNat ∉ l) (converted : utf32Label tables l = some t) (short : t.length ≤ 1931) :
    '.' ∉ t ∧ asciiLabel tables t = some t := by
  unfold utf32Label at converted
  split at converted
  · rw [← Option.some.inj converted]
    exact ⟨List.not_mem_nil, rfl⟩
  · next nonempty =>
      split at converted
      · next prefixed =>
          split at converted
          · cases converted
          · next low =>
              have ascii : ∀ c ∈ l, c < 0x80 := by simpa using low
              split at converted
              · next checked =>
                  rw [← Option.some.inj converted]
                  exact ⟨dot_not_mem_map ascii clean,
                    asciiLabel_ace ((ace_isPrefixOf ascii).trans prefixed) checked⟩
              · cases converted
      · next plain =>
          split at converted
          · next low =>
              have ascii : ∀ c ∈ l, c < 0x80 := by simpa using low
              rw [← Option.some.inj converted]
              refine ⟨dot_not_mem_map ascii clean, ?_⟩
              rw [asciiLabel, if_neg (by simpa using nonempty), if_neg]
              rwa [ace_isPrefixOf ascii]
          · split at converted
            · cases converted
            · next valid =>
                have valid : tables.isLabelValid l = true := by simpa using valid
                obtain ⟨p, written, rfl⟩ := Option.map_eq_some_iff.mp converted
                obtain ⟨accepted, longer, chars⟩ := Punycode.written_utf32ToPunycode written
                rw [List.length_append] at short
                have size : l.length ≤ 1927 := Nat.le_trans longer (Nat.le_of_add_le_add_left short)
                obtain ⟨out, again, read⟩ :=
                  Punycode.punycodeToUtf32_utf32ToPunycode ⟨size, accepted⟩
                obtain rfl := Option.some.inj (written.symm.trans again)
                obtain ⟨mapped, normal⟩ := fixed valid
                refine ⟨?_, asciiLabel_ace ?_ ?_⟩
                · rw [List.mem_append]
                  rintro (front | found)
                  · revert front
                    decide
                  · obtain ⟨code, inside, ascii, same⟩ | hyphen | ⟨digit, bound, same⟩ :=
                      chars '.' found
                    · have dot := congrArg Char.toNat same
                      rw [Punycode.toNat_ofNat_ascii ascii] at dot
                      exact clean (dot ▸ inside)
                    · revert hyphen
                      decide
                    · have all : ∀ digit : Fin 36, '.' ≠ Punycode.digitToChar digit.val := by decide
                      exact all ⟨digit, bound⟩ same
                · exact List.isPrefixOf_iff_prefix.mpr (List.prefix_append _ _)
                · rw [checksOut, List.drop_left, read]
                  simp [mapped, normal, nonempty, valid]

theorem plain_ofNat {code : Nat} (ascii : code < 0x80)
    (low : code < 'A'.toNat ∨ 'Z'.toNat < code) :
    (Char.ofNat code).toNat < 0x80 ∧ (Char.ofNat code).toLower = Char.ofNat code := by
  have all : ∀ n : Fin 128, n.val < 'A'.toNat ∨ 'Z'.toNat < n.val →
      (Char.ofNat n.val).toLower = Char.ofNat n.val := by decide
  exact ⟨by rwa [Punycode.toNat_ofNat_ascii ascii], all ⟨code, ascii⟩ low⟩

theorem utf32Label_lower (low : ∀ code ∈ l, code < 'A'.toNat ∨ 'Z'.toNat < code)
    (converted : utf32Label tables l = some t) : ∀ c ∈ t, c.toNat < 0x80 ∧ c.toLower = c := by
  have mapped (ascii : ∀ c ∈ l, c < 0x80) :
      ∀ c ∈ l.map Char.ofNat, c.toNat < 0x80 ∧ c.toLower = c := by
    rw [List.forall_mem_map]
    exact fun code found => plain_ofNat (ascii code found) (low code found)
  unfold utf32Label at converted
  split at converted
  · rw [← Option.some.inj converted]
    exact fun c none => absurd none List.not_mem_nil
  · split at converted
    · split at converted
      · cases converted
      · next ascii =>
          split at converted
          · rw [← Option.some.inj converted]
            exact mapped (by simpa using ascii)
          · cases converted
    · split at converted
      · next ascii =>
          rw [← Option.some.inj converted]
          exact mapped (by simpa using ascii)
      · split at converted
        · cases converted
        · obtain ⟨p, written, rfl⟩ := Option.map_eq_some_iff.mp converted
          obtain ⟨-, -, chars⟩ := Punycode.written_utf32ToPunycode written
          have front : ∀ c ∈ ace, c.toNat < 0x80 ∧ c.toLower = c := by
            intro c found
            rw [ace, List.mem_cons, List.mem_cons, List.mem_cons, List.mem_singleton] at found
            obtain rfl | rfl | rfl | rfl := found <;> decide
          refine List.forall_mem_append.mpr ⟨front, fun c found => ?_⟩
          obtain ⟨code, inside, ascii, rfl⟩ | rfl | ⟨digit, bound, rfl⟩ := chars c found
          · exact plain_ofNat ascii (low code inside)
          · decide
          · have all : ∀ digit : Fin 36, (Punycode.digitToChar digit.val).toNat < 0x80 ∧
                (Punycode.digitToChar digit.val).toLower = Punycode.digitToChar digit.val := by
              decide
            exact all ⟨digit, bound⟩

end Label

/-! ## The whole conversion -/

section Whole

variable {tables : Tables} {host s : Str} {c : Char}

/-- The labels of a text that is ASCII and in lower case are kept. -/
theorem fromAsciiToAscii_of_lower (plain : ∀ c ∈ host, c.toNat < 0x80 ∧ c.toLower = c) :
    fromAsciiToAscii tables host =
      (convertLabels '.' (asciiLabel tables) host.length host).getD [] := by
  have same : asciiMap host = host := by
    rw [asciiMap, toLowerAscii_of_ascii fun c found => (plain c found).1]
    conv_rhs => rw [← List.map_id host]
    exact List.map_congr_left fun c found => (plain c found).2
  rw [fromAsciiToAscii, same]

theorem asciiMap_lower (ascii : ∀ c ∈ s, c.toNat < 0x80) :
    ∀ c ∈ asciiMap s, c.toNat < 0x80 ∧ c.toLower = c := by
  have lowered := Host.lower_asciiNames s
  rwa [Host.asciiNames, if_pos (by simpa using ascii), ← toLowerAscii_of_ascii ascii] at lowered

/-- A result is an error, or comes from the labels of the lowered or of the mapped text. -/
theorem toAscii_cases (tables : Tables) (s : Str) : toAscii tables s = [] ∨
    ((∀ c ∈ s, c.toNat < 0x80) ∧ ∃ fuel,
      convertLabels '.' (asciiLabel tables) fuel (asciiMap s) = some (toAscii tables s)) ∨
    ∃ x fuel, convertLabels '.'.toNat (utf32Label tables) fuel (tables.normalize (tables.map x)) =
      some (toAscii tables s) := by
  rw [toAscii]
  split
  · next ascii =>
      rw [fromAsciiToAscii]
      cases run : convertLabels '.' (asciiLabel tables) (asciiMap s).length (asciiMap s) with
      | none => exact .inl rfl
      | some out => exact .inr (.inl ⟨by simpa using ascii, _, run⟩)
  · split
    · exact .inl rfl
    · next codes _ =>
        dsimp only
        generalize codes.map UInt32.toNat = x
        cases run : convertLabels '.'.toNat (utf32Label tables)
            (tables.normalize (tables.map x)).length (tables.normalize (tables.map x)) with
        | none => exact .inl rfl
        | some out => exact .inr (.inr ⟨x, _, run⟩)

theorem toAscii_lower (lawful : tables.Lawful) (s : Str) :
    ∀ c ∈ toAscii tables s, c.toNat < 0x80 ∧ c.toLower = c := by
  intro c found
  obtain none | ⟨ascii, fuel, run⟩ | ⟨x, fuel, run⟩ := toAscii_cases tables s
  · rw [none] at found
    cases found
  · obtain rfl | ⟨l, t, inside, -, converted, member⟩ :=
      mem_convertLabels List.infix_rfl run found
    · decide
    · rw [asciiLabel_eq_some converted] at member
      exact asciiMap_lower ascii c (inside.subset member)
  · obtain rfl | ⟨l, t, inside, -, converted, member⟩ :=
      mem_convertLabels List.infix_rfl run found
    · decide
    · exact utf32Label_lower (fun code within => lawful.lower x code (inside.subset within))
        converted c member

/-- The labels of a result are kept. -/
theorem convertLabels_toAscii (lawful : tables.Lawful) (short : (toAscii tables s).length ≤ 1931) :
    convertLabels '.' (asciiLabel tables) (toAscii tables s).length (toAscii tables s) =
      some (toAscii tables s) := by
  obtain none | ⟨-, fuel, run⟩ | ⟨x, fuel, run⟩ := toAscii_cases tables s
  · rw [none]
    rfl
  · refine convertLabels_again (fun l t _ clean converted _ => ?_) List.infix_rfl run short le_rfl
    obtain rfl := asciiLabel_eq_some converted
    exact ⟨clean, converted⟩
  · exact convertLabels_again (fun l t inside clean converted small =>
      utf32Label_again (lawful.fixed x l inside) clean converted small) List.infix_rfl run short
      le_rfl

/-- What the host parser asks of the conversion. -/
theorem lawful_toAscii (lawful : tables.Lawful) : Host.Lawful (toAscii tables) :=
  ⟨toAscii_lower lawful⟩

theorem settled_toAscii (lawful : tables.Lawful) (short : host.length ≤ 1931) :
    Host.Settled (toAscii tables) host := by
  rintro - ⟨s, rfl⟩
  have plain := toAscii_lower lawful s
  have ascii : (toAscii tables s).all (·.toNat < 0x80) = true := by
    rw [List.all_eq_true]
    exact fun c found => decide_eq_true (plain c found).1
  have again := convertLabels_toAscii lawful short
  generalize toAscii tables s = host at plain ascii again
  rw [toAscii, if_pos ascii, fromAsciiToAscii_of_lower plain, again]
  rfl

/-- With the conversion of the repository a host that is not longer than a label that can
be read is accepted again as it was written. -/
theorem parseHost_toAscii (lawful : tables.Lawful) {type : Scheme.Kind} {input : Str}
    {kind : HostType} (accepted : parseHost (toAscii tables) type input = some (host, kind))
    (short : host.length ≤ 1931) :
    parseHost (toAscii tables) type host = some (host, kind) :=
  (Host.parseHost_parseHost (lawful_toAscii lawful) accepted).1 (settled_toAscii lawful short)

/-- Tables that know the letters of ASCII. -/
def asciiTables : Tables where
  map := List.map fun c => if 65 ≤ c ∧ c ≤ 90 then c + 32 else c
  normalize := id
  isLabelValid _ := true

theorem lawful_asciiTables : asciiTables.Lawful := by
  have low : ∀ x, ∀ c ∈ asciiTables.normalize (asciiTables.map x), c < 65 ∨ 90 < c := by
    intro x c found
    obtain ⟨d, -, rfl⟩ := List.mem_map.mp found
    split <;> omega
  refine ⟨low, fun x label inside _ => ⟨?_, rfl⟩⟩
  have kept : ∀ c ∈ label, (if 65 ≤ c ∧ c ≤ 90 then c + 32 else c) = c := by
    intro c found
    have plain := low x c (inside.subset found)
    exact if_neg (by omega)
  conv_rhs => rw [← List.map_id label]
  exact List.map_congr_left kept

/-- A name in UTF-8, as the bytes of its text. -/
theorem parseHost_toAscii_name :
    parseHost (toAscii asciiTables) .HTTP "B\xc3\xbccher.de".toList =
        some ("xn--bcher-kva.de".toList, .DEFAULT) ∧
      parseHost (toAscii asciiTables) .HTTP "xn--bcher-kva.de".toList =
        some ("xn--bcher-kva.de".toList, .DEFAULT) := by
  have accepted : parseHost (toAscii asciiTables) .HTTP "B\xc3\xbccher.de".toList =
      some ("xn--bcher-kva.de".toList, .DEFAULT) := by decide +kernel
  exact ⟨accepted, parseHost_toAscii lawful_asciiTables accepted (by decide)⟩

end Whole

end Idna

end Mux.Ada
