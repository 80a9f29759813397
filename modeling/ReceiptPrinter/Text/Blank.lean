/-! # Blank characters — trimming text

    A character is blank when Unicode gives it the property `White_Space`.  Trimming
    drops blank characters at both ends of a text and keeps those inside. -/

namespace ReceiptPrinter.Text

/-- The 25 characters with the Unicode property `White_Space`. -/
def isBlank (c : Char) : Bool :=
  let n := c.toNat
  (9 ≤ n && n ≤ 13) || n == 0x20 || n == 0x85 || n == 0xA0 || n == 0x1680 ||
    (0x2000 ≤ n && n ≤ 0x200A) || n == 0x2028 || n == 0x2029 || n == 0x202F || n == 0x205F ||
    n == 0x3000

/-- The characters without the blank ones at the end. -/
def dropBlankEnd (cs : List Char) : List Char :=
  (cs.reverse.dropWhile isBlank).reverse

/-- The characters without the blank ones at either end. -/
def trimChars (cs : List Char) : List Char :=
  dropBlankEnd (cs.dropWhile isBlank)

/-- The text without the blank characters at either end. -/
def trim (s : String) : String :=
  String.ofList (trimChars s.toList)

/-- Whether a text has no character but blank ones. -/
def allBlank (s : String) : Bool :=
  s.toList.all isBlank

/-- The empty text is blank. -/
theorem allBlank_empty : allBlank "" = true := by
  simp [allBlank]

end ReceiptPrinter.Text
