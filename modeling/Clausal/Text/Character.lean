import Clausal.Text.Alphabetic
import Clausal.Text.Blank
import Clausal.Text.Lowercase
import Clausal.Text.Numeric

/-!
# Character classes and trimming

Formula text is read by four classes of characters.  Blank characters separate, word characters
make up names, and the first character of a bare name decides between variable (lowercase) and
constant.  All four are Unicode properties, so the classes reach beyond ASCII.
-/

namespace Clausal.Text

/-- Blank characters, which trimming removes. -/
def isBlank (c : Char) : Bool :=
  CodePointSet.blank.contains c

/-- Characters that start a variable name. -/
def isLowercase (c : Char) : Bool :=
  CodePointSet.lowercase.contains c

/-- Digits and other number characters. -/
def isNumeric (c : Char) : Bool :=
  CodePointSet.numeric.contains c

/-- Characters that names are made of. -/
def isWordChar (c : Char) : Bool :=
  CodePointSet.alphabetic.contains c || isNumeric c || c == '_'

/-! ### Trimming -/

/-- The characters from the first that is not blank. -/
def trimStart (cs : List Char) : List Char :=
  cs.dropWhile isBlank

/-- The characters up to the last that is not blank. -/
def trimEnd (cs : List Char) : List Char :=
  (cs.reverse.dropWhile isBlank).reverse

/-- The text without the blank characters around it. -/
def trim (s : String) : String :=
  String.ofList (trimEnd (trimStart s.toList))

end Clausal.Text
