import Mux.Library.Text
import Mux.Library.UnorderedMap

/-!
# Header maps

`HTTPHeader` is the wrapper that requests and responses share. Its lookup goes
through the subscript operator and therefore enters an absent name with an
empty value. Both printers visit the map in an order the map does not fix, so
they take the order as an argument.
-/

namespace Mux.Http

open Text

/-- The header fields of one message, under case-sensitive names. -/
structure HTTPHeader where
  headers : UnorderedMap Str Str := .empty

namespace HTTPHeader

def setHeader (h : HTTPHeader) (key value : Str) : HTTPHeader :=
  { h with headers := h.headers.insert key value }

/-- The value and the map after the lookup, which may have gained the key. -/
def getHeader (h : HTTPHeader) (key : Str) : Str × HTTPHeader :=
  let (value, headers) := h.headers.subscript [] key
  (value, { h with headers })

def removeHeader (h : HTTPHeader) (key : Str) : HTTPHeader :=
  { h with headers := h.headers.erase key }

def clearHeader (h : HTTPHeader) : HTTPHeader := { h with headers := .empty }

def toString (h : HTTPHeader) (order : h.headers.Listing) : Str :=
  order.pairs.flatMap fun header => header.1 ++ ": ".toList ++ header.2 ++ crlf

@[simp] theorem setHeader_headers (h : HTTPHeader) (key value : Str) :
    (h.setHeader key value).headers = h.headers.insert key value := rfl

theorem getHeader_fst (h : HTTPHeader) (key : Str) :
    (h.getHeader key).1 = (h.headers.find? key).getD [] := by
  unfold getHeader UnorderedMap.subscript
  cases h.headers.find? key <;> rfl

/-- After a lookup the name is present, whether or not it was before. -/
theorem find?_getHeader (h : HTTPHeader) (key : Str) :
    (h.getHeader key).2.headers.find? key = some (h.getHeader key).1 := by
  unfold getHeader UnorderedMap.subscript
  cases found : h.headers.find? key with
  | none => exact UnorderedMap.find?_insert _ _ _
  | some value => exact found

end HTTPHeader

/-- Print every entry of a map with the given separators, then a CRLF. -/
def mapToHeaderStr {headers : UnorderedMap Str Str} (order : headers.Listing)
    (colon splitter : Str) : Str :=
  (order.pairs.flatMap fun pair => pair.1 ++ colon ++ pair.2 ++ splitter) ++ crlf

end Mux.Http
