import SealedCall.Text.Basic

/-! # Blank code points

The code points that count as white space around a setting: the ASCII blanks and information
separators, the next-line control, and the space separators and line and paragraph separators of
Unicode.
-/

namespace SealedCall.CodePoint

def isBlank (point : CodePoint) : Bool :=
  point.within 0x09 0x0D || point.within 0x1C 0x20 || point.within 0x85 0x85 ||
  point.within 0xA0 0xA0 || point.within 0x1680 0x1680 || point.within 0x2000 0x200A ||
  point.within 0x2028 0x2029 || point.within 0x202F 0x202F || point.within 0x205F 0x205F ||
  point.within 0x3000 0x3000

end SealedCall.CodePoint

namespace SealedCall.Text

def strip (t : Text) : Text := trim CodePoint.isBlank t

/-- The text without the ASCII white space around it. -/
def stripAscii (t : Text) : Text :=
  trim (fun point => point.isBlank && point.within 0 0x7F) t

end SealedCall.Text
