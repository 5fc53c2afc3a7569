import Mux.Library.Text

/-!
# Reason phrases

The switch over status codes is a table, together with its default branch.
-/

namespace Mux.Http.http_status

open Text

/-- The cases of the switch, in source order. -/
def phrases : List (Int × String) := [
  (100, "Continue"), (101, "Switching Protocols"), (102, "Processing"), (103, "Early Hints"),
  (200, "OK"), (201, "Created"), (202, "Accepted"), (203, "Non-Authoritative Information"),
  (204, "No Content"), (205, "Reset Content"), (206, "Partial Content"), (207, "Multi-Status"),
  (208, "Already Reported"), (226, "IM Used"),
  (300, "Multiple Choices"), (301, "Moved Permanently"), (302, "Found"), (303, "See Other"),
  (304, "Not Modified"), (305, "Use Proxy"), (307, "Temporary Redirect"),
  (308, "Permanent Redirect"),
  (400, "Bad Request"), (401, "Unauthorized"), (402, "Payment Required"), (403, "Forbidden"),
  (404, "Not Found"), (405, "Method Not Allowed"), (406, "Not Acceptable"),
  (407, "Proxy Authentication Required"), (408, "Request Timeout"), (409, "Conflict"),
  (410, "Gone"), (411, "Length Required"), (412, "Precondition Failed"),
  (413, "Content Too Large"), (414, "URI Too Long"), (415, "Unsupported Media Type"),
  (416, "Range Not Satisfiable"), (417, "Expectation Failed"), (418, "I'm a teapot"),
  (421, "Misdirected Request"), (422, "Unprocessable Content"), (423, "Locked"),
  (424, "Failed Dependency"), (425, "Too Early"), (426, "Upgrade Required"),
  (428, "Precondition Required"), (429, "Too Many Requests"),
  (431, "Request Header Fields Too Large"), (451, "Unavailable For Legal Reasons"),
  (500, "Internal Server Error"), (501, "Not Implemented"), (502, "Bad Gateway"),
  (503, "Service Unavailable"), (504, "Gateway Timeout"), (505, "HTTP Version Not Supported"),
  (506, "Variant Also Negotiates"), (507, "Insufficient Storage"), (508, "Loop Detected"),
  (510, "Not Extended"), (511, "Network Authentication Required")]

/-- The standard phrase of a code, or the empty string when none is known. -/
def reasonPhrase (code : Int) : Str := ((phrases.lookup code).getD "").toList

/-- No two cases of the switch have the same label. -/
theorem phrases_nodup : (phrases.map Prod.fst).Nodup := by decide

/-- Every entry of the table is one line of text. -/
theorem phrases_clean : ∀ entry ∈ phrases, '\r' ∉ entry.2.toList ∧ '\n' ∉ entry.2.toList := by
  simp [phrases]

/-- A reason phrase never ends the status line early, for any code. -/
theorem reasonPhrase_clean (code : Int) :
    '\r' ∉ reasonPhrase code ∧ '\n' ∉ reasonPhrase code := by
  unfold reasonPhrase
  cases found : phrases.lookup code with
  | none => exact ⟨by decide, by decide⟩
  | some phrase =>
      obtain ⟨before, after, table, _⟩ := List.lookup_eq_some_iff.mp found
      refine phrases_clean (code, phrase) ?_
      rw [table]
      exact List.mem_append_right _ List.mem_cons_self

end Mux.Http.http_status
