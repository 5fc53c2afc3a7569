import Mathlib.Data.List.Basic

/-!
# Texts made of units

Each element of a list is written as a unit of at least one letter, and the end of
a unit can be found without looking behind it. So the first unit of a text decides
which element the list starts with, and a text is the text of one list at most.
-/

universe u v

/-- A way to write single elements, with the reader that undoes it. -/
structure SelfDelimiting (α : Type u) (β : Type v) where
  unit : α → Option (List β)
  readUnit : List β → Option (α × List β)
  nonempty : ∀ a text, unit a = some text → text ≠ []
  readUnit_iff : ∀ s a rest,
    readUnit s = some (a, rest) ↔ ∃ text, unit a = some text ∧ s = text ++ rest

namespace SelfDelimiting

variable {α : Type u} {β : Type v} (code : SelfDelimiting α β) {a : α} {as : List α}
variable {s rest : List β}

/-- The text of a list, if all of its elements can be written. -/
def write : List α → Option (List β)
  | [] => some []
  | a :: as =>
      match code.unit a, write as with
      | some text, some rest => some (text ++ rest)
      | _, _ => none

theorem write_cons : code.write (a :: as) = some s ↔
    ∃ text rest, code.unit a = some text ∧ code.write as = some rest ∧ s = text ++ rest := by
  rw [write]
  constructor
  · intro written
    split at written
    · next text rest unit others =>
        exact ⟨text, rest, unit, others, (Option.some.inj written).symm⟩
    · cases written
  · rintro ⟨text, rest, unit, others, rfl⟩
    rw [unit, others]

theorem write_eq_nil : code.write as = some [] ↔ as = [] := by
  cases as with
  | nil => simp [write]
  | cons a as =>
      refine ⟨fun written => ?_, nofun⟩
      obtain ⟨text, rest, unit, -, whole⟩ := code.write_cons.mp written
      exact absurd (List.append_eq_nil_iff.mp whole.symm).1 (code.nonempty a text unit)

/-- A unit takes at least one letter. -/
theorem length_readUnit (step : code.readUnit s = some (a, rest)) : rest.length < s.length := by
  obtain ⟨text, unit, rfl⟩ := (code.readUnit_iff s a rest).mp step
  have some_text := List.length_pos_iff.mpr (code.nonempty a text unit)
  rw [List.length_append]
  omega

/-- The first unit of a text is the unit of the first element. -/
theorem write_of_readUnit (step : code.readUnit s = some (a, rest)) :
    code.write as = some s ↔ ∃ others, as = a :: others ∧ code.write others = some rest := by
  constructor
  · intro written
    cases as with
    | nil =>
        have shorter := code.length_readUnit step
        rw [← Option.some.inj written] at shorter
        cases shorter
    | cons b others =>
        obtain ⟨text, rest', unit, written, whole⟩ := code.write_cons.mp written
        have again := (code.readUnit_iff s b rest').mpr ⟨text, unit, whole⟩
        obtain ⟨rfl, rfl⟩ := Prod.mk.inj (Option.some.inj (step.symm.trans again))
        exact ⟨others, rfl, written⟩
  · rintro ⟨others, rfl, written⟩
    obtain ⟨text, unit, whole⟩ := (code.readUnit_iff s a rest).mp step
    exact code.write_cons.mpr ⟨text, rest, unit, written, whole⟩

/-- Without a first unit a text that is not empty is the text of no list. -/
theorem write_of_not_readUnit (stuck : code.readUnit s = none) (some_text : s ≠ []) :
    code.write as ≠ some s := by
  intro written
  cases as with
  | nil => exact some_text (Option.some.inj written).symm
  | cons a others =>
      obtain ⟨text, rest, unit, -, whole⟩ := code.write_cons.mp written
      rw [(code.readUnit_iff s a rest).mpr ⟨text, unit, whole⟩] at stuck
      cases stuck

end SelfDelimiting
