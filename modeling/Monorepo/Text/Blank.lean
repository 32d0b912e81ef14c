/-! Unicode white space: the characters with the `White_Space` property, which is what trimming a
path or a setting removes from both ends. -/
namespace Monorepo.Text

/-- Whether a character has the Unicode `White_Space` property. -/
def isBlank (c : Char) : Bool :=
  let n := c.toNat
  (9 ≤ n && n ≤ 13) || n == 32 || n == 0x85 || n == 0xA0 || n == 0x1680 ||
  (0x2000 ≤ n && n ≤ 0x200A) || n == 0x2028 || n == 0x2029 || n == 0x202F || n == 0x205F ||
  n == 0x3000

def trimBlank (s : String) : String :=
  String.ofList ((s.toList.dropWhile isBlank).reverse.dropWhile isBlank).reverse

def trimBlankStart (s : String) : String :=
  String.ofList (s.toList.dropWhile isBlank)

def trimBlankEnd (s : String) : String :=
  String.ofList (s.toList.reverse.dropWhile isBlank).reverse

/-- Every ASCII white space character is blank. -/
example : [' ', '\t', '\n', '\r'].all isBlank = true := by decide

end Monorepo.Text
