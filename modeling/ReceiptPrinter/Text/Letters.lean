/-! # Letter case in ASCII — names that are the same

    Element attributes that name a variant, record members and encodings are compared
    without regard to the case of the letters `A` to `Z`; every other character must
    be equal. -/

namespace ReceiptPrinter.Text

/-- A text with its letters `A` to `Z` in lower case, as characters. -/
def foldCase (s : String) : List Char :=
  s.toList.map Char.toLower

/-- Whether two names are equal but for the case of ASCII letters. -/
def sameName (a b : String) : Bool :=
  foldCase a == foldCase b

theorem sameName_iff (a b : String) : sameName a b = true ↔ foldCase a = foldCase b := by
  simp [sameName]

theorem sameName_refl (a : String) : sameName a a = true := by
  simp [sameName]

theorem sameName_comm (a b : String) : sameName a b = sameName b a := by
  simp [sameName, Bool.beq_comm]

theorem sameName_trans {a b c : String} (h : sameName a b = true) (k : sameName b c = true) :
    sameName a c = true := by
  rw [sameName_iff] at *
  exact h.trans k

/-- A text with its letters `A` to `Z` in lower case. -/
def lowerAscii (s : String) : String :=
  String.ofList (foldCase s)

end ReceiptPrinter.Text
