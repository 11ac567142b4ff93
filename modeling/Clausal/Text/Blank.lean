import Clausal.Text.CodePointSet

/-!
# Blank characters

The code points with the Unicode property White_Space.  Format characters such as the zero-width
space and the byte order mark are not among them.
-/

namespace Clausal

/-- Code points with the Unicode property White_Space. -/
def CodePointSet.blank : CodePointSet :=
  ⟨[0x0009, 0x000e, 0x0020, 0x0021, 0x0085, 0x0086, 0x00a0, 0x00a1, 0x1680, 0x1681, 0x2000,
    0x200b, 0x2028, 0x202a, 0x202f, 0x2030, 0x205f, 0x2060, 0x3000, 0x3001]⟩

end Clausal
