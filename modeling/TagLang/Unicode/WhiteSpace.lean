import TagLang.Unicode.Ranges

/-!
# The property White_Space

Characters with the property White_Space from U+0080 on, as of version 17.0 of the
standard.
-/

namespace TagLang.Unicode

/-- Characters with the property White_Space, beyond the ASCII range. -/
def whiteSpaceRanges : Ranges := [
  (0x85, 0x85), (0xA0, 0xA0), (0x1680, 0x1680), (0x2000, 0x200A), (0x2028, 0x2029),
  (0x202F, 0x202F), (0x205F, 0x205F), (0x3000, 0x3000)]

end TagLang.Unicode
