import SealedCall.Value.Display
import SealedCall.Value.Equality

/-! # Values as tags

What a span keeps of a value that it is tagged with. Plain data without parts stays as it is. Every
sequence becomes a tuple, so that nothing in it can change afterwards, the keys of a dictionary
become texts, and everything else is kept by its text.
-/

namespace SealedCall.Value

mutual

def tag : Value → Value
  | .byteArray octets => .tuple (octets.map ofOctet)
  | .list items | .tuple items => .tuple (tags items)
  | .dict entries => dictOf (tagEntries entries)
  | .foreign .range => .tuple rangeItems
  | .foreign kind => .text (foreignForm kind)
  | plain => plain

def tags : List Value → List Value
  | [] => []
  | item :: rest => tag item :: tags rest

/-- The entries of a dictionary under the texts of their keys. -/
def tagEntries : List (Value × Value) → List (Value × Value)
  | [] => []
  | (key, value) :: rest => (.text key.plain, tag value) :: tagEntries rest

end

end SealedCall.Value
