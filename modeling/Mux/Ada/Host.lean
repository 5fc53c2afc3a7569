import Mux.Ada.Ipv4
import Mux.Ada.Ipv6

/-!
# Hosts

A host in brackets is an IPv6 address. For a special scheme every other host is a
domain, which is brought to lower case and may be an IPv4 address; for any other
scheme it is an opaque host, which is percent-encoded. Only a domain that is not
plain ASCII, or that may hold an encoded label, goes through the conversion of
internationalized names.

Every host that is accepted is accepted again as it was written, as far as the
conversion reads the labels that it has written, so that the text of a host stands
for itself.
-/

namespace Mux.Ada

open Text CharacterSets Unicode Scheme Checkers

inductive HostType where
  | DEFAULT
  | IPV4
  | IPV6
  deriving DecidableEq, Repr

/-- A domain as ASCII text. The conversion of internationalized names returns the
empty text for an error. -/
def Unicode.toAscii (idna : Str → Str) (plain : Str) (first_percent : Option Nat) : Option Str :=
  let input := if first_percent.isSome then percentDecode plain first_percent else plain
  let idna_ascii := idna input
  if idna_ascii = [] || containsForbiddenDomainCodePoint idna_ascii then none else some idna_ascii

def parseOpaqueHost (input : Str) : Option Str :=
  if input.any isForbiddenHostCodePoint then none
  else some (percentEncode input C0_CONTROL_PERCENT_ENCODE)

/-- What an encoded label starts with. -/
def xn : Str := ['x', 'n', '-']

/-- The host and its type. -/
def parseHost (idna : Str → Str) (type : Kind) (input : Str) : Option (Str × HostType) :=
  if input = [] then none
  else if input.head? = some '[' then
    if input.getLast? ≠ some ']' then none
    else (parseIpv6 (input.drop 1).dropLast).map fun address => (Serializers.ipv6 address, .IPV6)
  else if type = .NOT_SPECIAL then (parseOpaqueHost input).map fun host => (host, .DEFAULT)
  else
    let buffer := (toLowerAscii input).1
    if !containsForbiddenDomainCodePoint buffer && (cut? xn buffer).isNone then
      if isIpv4 buffer then (parseIpv4 buffer).map fun host => (host, .IPV4)
      else some (buffer, .DEFAULT)
    else match toAscii idna input (input.idxOf? '%') with
      | none => none
      | some host =>
          if host.any isForbiddenDomainCodePoint then none
          else if isIpv4 host then (parseIpv4 host).map fun host => (host, .IPV4)
          else some (host, .DEFAULT)

namespace Host

variable {idna : Str → Str} {type : Kind} {input host : Str} {kind : HostType} {c : Char}

/-- What the conversion of internationalized names promises: ASCII text in lower
case. -/
structure Lawful (idna : Str → Str) : Prop where
  lower : ∀ s, ∀ c ∈ idna s, c.toNat < 128 ∧ c.toLower = c

/-- The conversion reads the labels in Punycode of a host as those that it has written.
Very long labels are written and cannot be read. -/
def Settled (idna : Str → Str) (host : Str) : Prop :=
  cut? xn host ≠ none → (∃ s, idna s = host) → idna host = host

/-- The characters that end a host or stand around it are no part of it, except
for the brackets and the colons of an IPv6 address. -/
def HostText (host : Str) : Prop :=
  (∃ address, Ipv6.Address address ∧ host = Serializers.ipv6 address) ∨
    host ≠ [] ∧ ∀ c ∈ host,
      isForbiddenHostCodePoint c = false ∧ ' ' < c ∧ c ≠ '\x7f' ∧ c.toNat < 256

/-- A conversion that knows plain ASCII names only. -/
def asciiNames (s : Str) : Str :=
  if s.all fun c => c.toNat < 128 then s.map Char.toLower else []

theorem lower_asciiNames :
    ∀ s, ∀ c ∈ asciiNames s, c.toNat < 128 ∧ c.toLower = c := by
  have all : ∀ n : Fin 256, (Char.ofNat n).toNat < 128 →
      (Char.ofNat n).toLower.toNat < 128 ∧
        (Char.ofNat n).toLower.toLower = (Char.ofNat n).toLower := by decide +kernel
  have lowered : ∀ c : Char, c.toNat < 128 →
      c.toLower.toNat < 128 ∧ c.toLower.toLower = c.toLower :=
    fun c ascii => PercentCoding.forall_byte (p := fun c => c.toNat < 128 →
      c.toLower.toNat < 128 ∧ c.toLower.toLower = c.toLower) all (by omega) ascii
  intro s c found
  rw [asciiNames] at found
  split at found
  · next ascii =>
      obtain ⟨d, inside, rfl⟩ := List.mem_map.mp found
      exact lowered d (by simpa using List.all_eq_true.mp ascii d inside)
  · cases found

theorem lawful_asciiNames : Lawful asciiNames := ⟨lower_asciiNames⟩

theorem settled_asciiNames (host : Str) : Settled asciiNames host := by
  rintro - ⟨s, source⟩
  have plain : ∀ c ∈ host, c.toNat < 128 ∧ c.toLower = c := source ▸ lower_asciiNames s
  rw [asciiNames, if_pos (by simpa using fun c found => (plain c found).1)]
  conv_rhs => rw [← List.map_id host]
  exact List.map_congr_left fun c found => (plain c found).2

theorem HostText.ne_nil (text : HostText host) : host ≠ [] := by
  obtain ⟨address, -, rfl⟩ | ⟨nonempty, -⟩ := text
  · rw [Ipv6.ipv6_eq]
    simp
  · exact nonempty

theorem isForbiddenHostCodePoint_of_domain (plain : isForbiddenDomainCodePoint c = false) :
    isForbiddenHostCodePoint c = false ∧ ' ' < c ∧ c ≠ '\x7f' ∧ c.toNat < 256 := by
  simp only [isForbiddenDomainCodePoint, Bool.or_eq_false_iff, Bool.and_eq_false_iff,
    decide_eq_false_iff_not] at plain
  obtain ⟨⟨listed, control⟩, high⟩ := plain
  refine ⟨?_, ?_, ?_, by omega⟩
  · rw [isForbiddenHostCodePoint, decide_eq_false_iff_not]
    intro found
    apply listed
    simp only [List.mem_cons] at found ⊢
    grind
  · rw [Char.lt_def, UInt32.lt_iff_toNat_lt]
    exact Nat.lt_of_not_le control
  · rintro rfl
    simp at high

theorem containsForbidden_eq_false :
    containsForbiddenDomainCodePoint host = false ↔
      ∀ c ∈ host, isForbiddenDomainCodePoint c = false := by
  simp [containsForbiddenDomainCodePoint]

theorem hostText_of_domain (nonempty : host ≠ [])
    (plain : containsForbiddenDomainCodePoint host = false) : HostText host :=
  .inr ⟨nonempty, fun c found =>
    isForbiddenHostCodePoint_of_domain (containsForbidden_eq_false.mp plain c found)⟩

theorem cut?_xn_eq_none (clean : 'x' ∉ host) : cut? xn host = none := by
  have search := cut?_append (d := 'x') (t := ['n', '-']) clean []
  rwa [List.append_nil] at search

/-- A domain that is lowered already and plain is accepted as it is, or as the
text of the address that it is. -/
theorem parseHost_of_plain (special : type ≠ .NOT_SPECIAL) (nonempty : host ≠ [])
    (plain : containsForbiddenDomainCodePoint host = false) (lower : (toLowerAscii host).1 = host)
    (label : cut? xn host = none) :
    parseHost idna type host =
      if isIpv4 host then (parseIpv4 host).map fun host => (host, .IPV4)
      else some (host, .DEFAULT) := by
  have other : host.head? ≠ some '[' := by
    intro first
    obtain ⟨rest, rfl⟩ := List.head?_eq_some_iff.mp first
    have sign := containsForbidden_eq_false.mp plain '[' List.mem_cons_self
    cases sign
  rw [parseHost, if_neg nonempty, if_neg other, if_neg special]
  simp [lower, plain, label]

/-- The text of an IPv4 address is the host that it stands for. -/
theorem parseHost_ipv4 (special : type ≠ .NOT_SPECIAL) (address : Nat) :
    parseHost idna type (Serializers.ipv4 address) = some (Serializers.ipv4 address, .IPV4) ∧
      HostText (Serializers.ipv4 address) := by
  have chars : ∀ c ∈ Serializers.ipv4 address, isForbiddenDomainCodePoint c = false ∧
      c.toNat < 128 ∧ c.toLower = c ∧ c ≠ 'x' := by
    intro c found
    have all : ∀ n : Fin 256, isDigit (Char.ofNat n) = true ∨ Char.ofNat n = '.' →
        isForbiddenDomainCodePoint (Char.ofNat n) = false ∧ (Char.ofNat n).toNat < 128 ∧
          (Char.ofNat n).toLower = Char.ofNat n ∧ Char.ofNat n ≠ 'x' := by decide +kernel
    have kind := Ipv4.of_mem_ipv4 found
    have byte : c.toNat < 256 := by
      obtain digit | rfl := kind
      · rw [isDigit, Bool.and_eq_true, decide_eq_true_eq, decide_eq_true_eq] at digit
        exact Nat.lt_of_le_of_lt digit.2 (by decide)
      · decide
    exact PercentCoding.forall_byte (p := fun c => isDigit c = true ∨ c = '.' →
      isForbiddenDomainCodePoint c = false ∧ c.toNat < 128 ∧ c.toLower = c ∧ c ≠ 'x') all byte kind
  have plain : containsForbiddenDomainCodePoint (Serializers.ipv4 address) = false :=
    containsForbidden_eq_false.mpr fun c found => (chars c found).1
  have lower : (toLowerAscii (Serializers.ipv4 address)).1 = Serializers.ipv4 address := by
    rw [toLowerAscii_of_ascii fun c found => (chars c found).2.1]
    conv_rhs => rw [← List.map_id (Serializers.ipv4 address)]
    exact List.map_congr_left fun c found => (chars c found).2.2.1
  have nonempty : Serializers.ipv4 address ≠ [] := by
    obtain ⟨c, last, -⟩ := Ipv4.getLast?_ipv4 address
    intro empty
    rw [empty] at last
    cases last
  have label := cut?_xn_eq_none fun found => (chars 'x' found).2.2.2 rfl
  refine ⟨?_, hostText_of_domain nonempty plain⟩
  rw [parseHost_of_plain special nonempty plain lower label, if_pos (Ipv4.isIpv4_ipv4 address),
    Ipv4.parseIpv4_ipv4]
  rfl

/-- The text of an IPv6 address is the host that it stands for. -/
theorem parseHost_ipv6 {address : List Nat} (ok : Ipv6.Address address) :
    parseHost idna type (Serializers.ipv6 address) = some (Serializers.ipv6 address, .IPV6) := by
  obtain ⟨text, shape, read⟩ := Ipv6.parseIpv6_ipv6 ok
  have last : ('[' :: text ++ [']']).getLast? = some ']' := List.getLast?_concat
  have inside : (('[' :: text ++ [']']).drop 1).dropLast = text := List.dropLast_concat
  have first : ('[' :: text ++ [']']).head? = some '[' := rfl
  rw [parseHost, shape, if_neg (by simp), if_pos first, last, if_neg (by simp), inside, read,
    ← shape]
  rfl

/-- A domain, whichever way it was brought to lower case. -/
theorem parseHost_domain (special : type ≠ .NOT_SPECIAL) (nonempty : host ≠ [])
    (plain : containsForbiddenDomainCodePoint host = false) {result : Str}
    (accepted : (if isIpv4 host then (parseIpv4 host).map fun host => (host, HostType.IPV4)
      else some (host, .DEFAULT)) = some (result, kind))
    (again : isIpv4 host = false → Settled idna host →
      parseHost idna type host = some (host, .DEFAULT)) :
    (Settled idna result → parseHost idna type result = some (result, kind)) ∧
      HostText result := by
  split at accepted
  · next labels =>
      rw [Option.map_eq_some_iff] at accepted
      obtain ⟨text, parsed, same⟩ := accepted
      obtain ⟨rfl, rfl⟩ := Prod.mk.inj same
      obtain ⟨address, -, rfl⟩ := Ipv4.exists_of_parseIpv4 labels parsed
      exact (parseHost_ipv4 special address).imp (fun same _ => same) id
  · next labels =>
      obtain ⟨rfl, rfl⟩ := Prod.mk.inj (Option.some.inj accepted)
      exact ⟨again (Bool.eq_false_iff.mpr labels), hostText_of_domain nonempty plain⟩

/-- An opaque host is encoded already. -/
theorem parseHost_opaque (nonempty : input ≠ []) (accepted : parseOpaqueHost input = some host) :
    parseHost idna .NOT_SPECIAL host = some (host, .DEFAULT) ∧ HostText host := by
  rw [parseOpaqueHost] at accepted
  split at accepted
  · cases accepted
  · next allowed =>
      rw [Bool.not_eq_true, List.any_eq_false] at allowed
      have member : C0_CONTROL_PERCENT_ENCODE ∈ urlSets := by decide
      have encoded := encoded_percentEncode member input
      obtain rfl := Option.some.inj accepted
      have clean : ∀ c ∈ percentEncode input C0_CONTROL_PERCENT_ENCODE,
          isForbiddenHostCodePoint c = false := by
        intro c found
        rw [percentEncode_eq] at found
        obtain ⟨inside, -⟩ | rfl | digit := PercentCoding.mem_encode found
        · exact Bool.eq_false_iff.mpr (allowed c inside)
        · decide
        · have all : ∀ n : Fin 256, PercentCoding.isHexDigit (Char.ofNat n) = true →
              isForbiddenHostCodePoint (Char.ofNat n) = false := by decide +kernel
          exact PercentCoding.forall_byte (p := fun c => PercentCoding.isHexDigit c = true →
            isForbiddenHostCodePoint c = false) all
            (Nat.lt_trans (PercentCoding.toNat_lt_of_isHexDigit digit) (by decide)) digit
      have written : percentEncode input C0_CONTROL_PERCENT_ENCODE ≠ [] := by
        rw [percentEncode_eq]
        exact mt PercentCoding.encode_eq_nil.mp nonempty
      have no_bracket : (percentEncode input C0_CONTROL_PERCENT_ENCODE).head? ≠ some '[' := by
        intro first
        obtain ⟨rest, shape⟩ := List.head?_eq_some_iff.mp first
        have sign := clean '[' (by rw [shape]; exact List.mem_cons_self)
        cases sign
      constructor
      · rw [parseHost, if_neg written, if_neg no_bracket, if_pos rfl, parseOpaqueHost, if_neg,
          percentEncode_of_encoded encoded]
        · rfl
        · rw [List.any_eq_true]
          rintro ⟨c, found, forbidden⟩
          rw [clean c found] at forbidden
          cases forbidden
      · refine .inr ⟨written, fun c found => ⟨clean c found, ?_⟩⟩
        obtain ⟨low, high⟩ := printable_of_kept member (encoded c found)
        have not_space : c ≠ ' ' := by
          rintro rfl
          have forbidden := clean ' ' found
          cases forbidden
        refine ⟨?_, ?_, Nat.lt_trans high (by decide)⟩
        · rw [Char.lt_def, UInt32.lt_iff_toNat_lt]
          refine Nat.lt_of_le_of_ne low fun same => not_space ?_
          exact (Char.toNat_inj.mp same).symm
        · rintro rfl
          exact absurd high (by decide)

theorem plain_of_domain (plain : isForbiddenDomainCodePoint c = false) :
    c.toNat < 128 ∨ c.toNat = 255 := by
  simp only [isForbiddenDomainCodePoint, Bool.or_eq_false_iff, Bool.and_eq_false_iff,
    decide_eq_false_iff_not] at plain
  omega

theorem toAscii_eq_some {first_percent : Option Nat}
    (converted : toAscii idna input first_percent = some host) :
    host ≠ [] ∧ containsForbiddenDomainCodePoint host = false ∧ ∃ source, idna source = host := by
  rw [toAscii] at converted
  generalize (if first_percent.isSome then percentDecode input first_percent else input) = text
    at converted
  split at converted
  · cases converted
  · next accepted =>
      rw [Bool.or_eq_true, not_or, decide_eq_true_eq, Bool.not_eq_true] at accepted
      obtain rfl := Option.some.inj converted
      exact ⟨accepted.1, accepted.2, _, rfl⟩

/-- A converted domain is kept on the fast way, and converted to itself on the
other one. -/
theorem parseHost_of_idna (lawful : Lawful idna) (special : type ≠ .NOT_SPECIAL) {source : Str}
    (nonempty : idna source ≠ [])
    (plain : containsForbiddenDomainCodePoint (idna source) = false)
    (labels : isIpv4 (idna source) = false) (settled : Settled idna (idna source)) :
    parseHost idna type (idna source) = some (idna source, .DEFAULT) := by
  have lower : (toLowerAscii (idna source)).1 = idna source := by
    rw [toLowerAscii_of_ascii fun c found => (lawful.lower source c found).1]
    conv_rhs => rw [← List.map_id (idna source)]
    exact List.map_congr_left fun c found => (lawful.lower source c found).2
  have clean := containsForbidden_eq_false.mp plain
  cases label : cut? xn (idna source) with
  | none => rw [parseHost_of_plain special nonempty plain lower label, labels]; rfl
  | some parts =>
      have other : (idna source).head? ≠ some '[' := by
        intro first
        obtain ⟨rest, shape⟩ := List.head?_eq_some_iff.mp first
        have sign := clean '[' (by rw [shape]; exact List.mem_cons_self)
        cases sign
      have no_percent : (idna source).idxOf? '%' = none := by
        rw [List.idxOf?_eq_none_iff]
        intro found
        have sign := clean '%' found
        cases sign
      have allowed : (idna source).any isForbiddenDomainCodePoint = false := plain
      have stable : idna (idna source) = idna source := settled (by simp [label]) ⟨source, rfl⟩
      have converted : toAscii idna (idna source) none = some (idna source) := by
        simp [toAscii, stable, nonempty, plain]
      rw [parseHost, if_neg nonempty, if_neg other, if_neg special]
      simp [lower, label, no_percent, converted, allowed, labels]

/-- A host that is accepted is accepted again as it was written, if it is settled, and
holds none of the characters that stand around a host. -/
theorem parseHost_parseHost (lawful : Lawful idna)
    (accepted : parseHost idna type input = some (host, kind)) :
    (Settled idna host → parseHost idna type host = some (host, kind)) ∧ HostText host := by
  rw [parseHost] at accepted
  split at accepted
  · cases accepted
  · next nonempty =>
      split at accepted
      · split at accepted
        · cases accepted
        · rw [Option.map_eq_some_iff] at accepted
          obtain ⟨address, read, same⟩ := accepted
          obtain ⟨rfl, rfl⟩ := Prod.mk.inj same
          have ok := Ipv6.address_of_parseIpv6 read
          exact ⟨fun _ => parseHost_ipv6 ok, .inl ⟨address, ok, rfl⟩⟩
      · split at accepted
        · next opaque_host =>
            subst opaque_host
            rw [Option.map_eq_some_iff] at accepted
            obtain ⟨text, parsed, same⟩ := accepted
            obtain ⟨rfl, rfl⟩ := Prod.mk.inj same
            obtain ⟨same, text⟩ := @ parseHost_opaque idna _ _ nonempty parsed
            exact ⟨fun _ => same, text⟩
        · next special =>
            dsimp only at accepted
            split at accepted
            · next fast =>
                -- the lowered input is the host, or its address is
                rw [Bool.and_eq_true, Bool.not_eq_true', Option.isNone_iff_eq_none] at fast
                obtain ⟨plain, label⟩ := fast
                have bytes : ∀ c ∈ (toLowerAscii input).1, c.toNat < 128 ∨ c.toNat = 255 :=
                  fun c found => plain_of_domain (containsForbidden_eq_false.mp plain c found)
                have lower := toLowerAscii_toLowerAscii bytes
                have some_text : (toLowerAscii input).1 ≠ [] := by
                  rw [← List.length_pos_iff, length_toLowerAscii, List.length_pos_iff]
                  exact nonempty
                refine parseHost_domain special some_text plain accepted fun labels _ => ?_
                rw [parseHost_of_plain special some_text plain lower label, labels]
                rfl
            · split at accepted
              · cases accepted
              · next text converted =>
                  split at accepted
                  · cases accepted
                  · obtain ⟨some_text, plain, source, same⟩ := toAscii_eq_some converted
                    subst same
                    refine parseHost_domain special some_text plain accepted
                      fun labels settled => ?_
                    exact parseHost_of_idna lawful special some_text plain labels settled

/-- The hosts that the parser returns are the texts that it leaves as they are. -/
theorem parseHost_fixed_iff (lawful : Lawful idna) (settled : Settled idna host) :
    (∃ input, parseHost idna type input = some (host, kind)) ↔
      parseHost idna type host = some (host, kind) :=
  ⟨fun ⟨_, accepted⟩ => (parseHost_parseHost lawful accepted).1 settled, fun kept => ⟨host, kept⟩⟩

/-- An address in brackets, and a name in capital letters. -/
theorem parseHost_fixed_samples :
    parseHost asciiNames .HTTP "[1::2]".toList = some ("[1::2]".toList, .IPV6) ∧
      parseHost asciiNames .HTTP "a.b".toList = some ("a.b".toList, .DEFAULT) :=
  ⟨(parseHost_fixed_iff lawful_asciiNames (settled_asciiNames _)).mp
      ⟨"[1:0:0::2]".toList, by decide +kernel⟩,
    (parseHost_fixed_iff lawful_asciiNames (settled_asciiNames _)).mp
      ⟨"A.B".toList, by decide +kernel⟩⟩

end Host

end Mux.Ada
