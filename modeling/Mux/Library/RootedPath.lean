import Mux.Library.Text

/-!
# Rooted paths

A rooted path is a stack of segments without slashes; its text has a slash in
front of every segment. The last slash of the text is where the top of the stack
begins, so that cutting the text there takes the top off, and the text behind
its first slash splits into the segments again.
-/

namespace RootedPath

open Text

/-- The text of a path. -/
def render (stack : List Str) : Str := stack.flatMap ('/' :: ·)

/-- No segment has a slash. -/
def Segments (stack : List Str) : Prop := ∀ s ∈ stack, '/' ∉ s

variable {stack front : List Str} {s : Str}

@[simp] theorem render_nil : render [] = [] := rfl

@[simp] theorem render_cons (s : Str) (stack : List Str) :
    render (s :: stack) = '/' :: s ++ render stack := List.flatMap_cons

@[simp] theorem render_append (front stack : List Str) :
    render (front ++ stack) = render front ++ render stack := List.flatMap_append

theorem render_push (stack : List Str) (s : Str) :
    render (stack ++ [s]) = render stack ++ '/' :: s := by simp

theorem render_eq_nil : render stack = [] ↔ stack = [] := by
  cases stack <;> simp

/-- The first slash belongs to no segment. -/
theorem render_eq_cons (nonempty : stack ≠ []) :
    render stack = '/' :: ['/'].intercalate stack := by
  induction stack with
  | nil => exact absurd rfl nonempty
  | cons s stack ih =>
      cases stack with
      | nil => simp
      | cons t stack =>
          rw [render_cons, ih (List.cons_ne_nil t stack), List.intercalate_cons_cons]
          simp

/-- The segments of a path that has some. -/
theorem exists_push (nonempty : stack ≠ []) : ∃ front s, stack = front ++ [s] :=
  ⟨stack.dropLast, stack.getLast nonempty, (List.dropLast_append_getLast nonempty).symm⟩

theorem segments_append : Segments (front ++ stack) ↔ Segments front ∧ Segments stack :=
  List.forall_mem_append

theorem segments_push : Segments (stack ++ [s]) ↔ Segments stack ∧ '/' ∉ s := by
  rw [segments_append, Segments, Segments]
  simp

@[simp] theorem rfind_render_nil : rfind '/' (render []) = none := rfl

theorem rfind_render_push (clean : '/' ∉ s) :
    rfind '/' (render (stack ++ [s])) = some (render stack).length := by
  rw [render_push, rfind_append_cons clean]

/-- Cutting at the last slash takes the last segment off. -/
theorem take_render_push : (render (stack ++ [s])).take (render stack).length = render stack := by
  rw [render_append, List.take_left]

/-- Cutting behind the last slash empties the last segment. -/
theorem take_render_push_succ :
    (render (stack ++ [s])).take ((render stack).length + 1) = render (stack ++ [[]]) := by
  rw [render_push, render_push, List.take_append, List.take_of_length_le (Nat.le_succ _)]
  simp

/-- The last character is a slash exactly when the last segment is empty. -/
theorem getLast?_render_push (clean : '/' ∉ s) :
    (render (stack ++ [s])).getLast? = some '/' ↔ s = [] := by
  rw [render_push, List.getLast?_append_cons]
  cases s with
  | nil => simp
  | cons c s =>
      rw [List.getLast?_cons_cons]
      refine iff_of_false ?_ (List.cons_ne_nil c s)
      intro last
      exact clean (List.mem_of_getLast? last)

/-- Behind the first character there is a slash only if there are two segments. -/
theorem mem_drop_one_render (clean : Segments stack) :
    '/' ∈ (render stack).drop 1 ↔ 1 < stack.length := by
  rcases stack with - | ⟨s, - | ⟨t, stack⟩⟩
  · simp
  · have none := clean s List.mem_cons_self
    simpa using none
  · simp

/-- The text behind the first slash splits into the segments. -/
theorem splitOnP_tail_render {p : Char → Bool} (slash : p '/') (clean : ∀ s ∈ stack, ∀ c ∈ s, ¬ p c)
    (nonempty : stack ≠ []) : ((render stack).drop 1).splitOnP p = stack := by
  rw [render_eq_cons nonempty, List.drop_one, List.tail_cons]
  induction stack with
  | nil => exact absurd rfl nonempty
  | cons s stack ih =>
      obtain ⟨first, rest⟩ := List.forall_mem_cons.mp clean
      have kept : ∀ c ∈ s, p c = false := fun c member => by simpa using first c member
      cases stack with
      | nil => rw [List.intercalate_singleton, List.splitOnP_eq_singleton kept]
      | cons t stack =>
          rw [List.intercalate_cons_cons, List.append_assoc, List.singleton_append,
            List.splitOnP_append_cons_of_forall_mem kept '/' slash,
            ih rest (List.cons_ne_nil t stack)]

/-- The pieces of a split text hold no separator. -/
theorem not_of_mem_splitOnP {α : Type} {p : α → Bool} {input piece : List α}
    (found : piece ∈ input.splitOnP p) {c : α} (member : c ∈ piece) : c ∈ input ∧ ¬ p c := by
  induction input generalizing piece c with
  | nil =>
      rw [List.splitOnP_nil, List.mem_singleton] at found
      rw [found] at member
      cases member
  | cons d input ih =>
      rw [List.splitOnP_cons_eq_if_modifyHead] at found
      split at found
      · obtain rfl | found := List.mem_cons.mp found
        · cases member
        · exact ⟨List.mem_cons_of_mem d (ih found member).1, (ih found member).2⟩
      · next other =>
          obtain ⟨first, pieces, shape⟩ := List.exists_cons_of_ne_nil (List.splitOnP_ne_nil p input)
          rw [shape, List.modifyHead_cons] at found
          have behind : ∀ {t : List α}, t ∈ first :: pieces → ∀ {c : α}, c ∈ t →
              c ∈ d :: input ∧ ¬ p c := by
            intro t inside c member
            rw [← shape] at inside
            exact ⟨List.mem_cons_of_mem d (ih inside member).1, (ih inside member).2⟩
          obtain rfl | found := List.mem_cons.mp found
          · obtain rfl | member := List.mem_cons.mp member
            · exact ⟨List.mem_cons_self, other⟩
            · exact behind List.mem_cons_self member
          · exact behind (List.mem_cons_of_mem first found) member

theorem splitOnP_congr {p q : Char → Bool} {input : Str} (same : ∀ c ∈ input, p c = q c) :
    input.splitOnP p = input.splitOnP q := by
  induction input with
  | nil => rfl
  | cons c input ih =>
      obtain ⟨first, rest⟩ := List.forall_mem_cons.mp same
      rw [List.splitOnP_cons_eq_if_modifyHead, List.splitOnP_cons_eq_if_modifyHead, first, ih rest]

/-- A text split at its slashes is the text of those segments. -/
theorem render_splitOn (input : Str) : render (input.splitOn '/') = '/' :: input := by
  rw [render_eq_cons (List.splitOn_ne_nil '/' input), List.intercalate_splitOn]

/-- A segment stands in front of the text or behind a slash in it. -/
theorem of_mem_splitOn {input : Str} (found : s ∈ input.splitOn '/') :
    (∃ rest, input.splitOn '/' = s :: rest) ∨ ('/' :: s) <:+: input := by
  obtain ⟨front, back, shape⟩ := List.append_of_mem found
  cases front with
  | nil => exact .inl ⟨back, shape⟩
  | cons t front =>
      refine .inr ⟨t ++ render front, render back, ?_⟩
      have whole := render_splitOn input
      rw [shape] at whole
      simpa using whole

end RootedPath
