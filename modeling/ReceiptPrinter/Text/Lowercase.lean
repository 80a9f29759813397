import ReceiptPrinter.Text.CaseTable

/-! # Lower case — the Unicode rules

    The lower-case form of a text by the Unicode rules.  A character is mapped on its
    own, except that a capital sigma becomes `ς` where it closes a word and `σ`
    elsewhere, and a capital dotted I becomes `i` with a dot above. -/

namespace ReceiptPrinter.Text

/-- Whether a code point lies in one of the ranges. -/
def inRanges (ranges : List (Nat × Nat)) (n : Nat) : Bool :=
  ranges.any fun r => r.1 ≤ n && n ≤ r.2

/-- The lower-case form of a single character, when it has one of its own. -/
def lowerSimple (c : Char) : Char :=
  if c.toNat < 128 then c.toLower
  else match lowerRuns.find? fun r =>
      r.first ≤ c.toNat && c.toNat ≤ r.last && (c.toNat - r.first) % r.step == 0 with
    | some r => Char.ofNat (c.toNat + r.shift).toNat
    | none => c

/-- Whether a cased character comes next once the skipped ones are passed over. -/
def meetsCased (cs : List Char) : Bool :=
  match cs.dropWhile fun c => inRanges skippedRanges c.toNat with
  | [] => false
  | c :: _ => inRanges casedRanges c.toNat

/-- The lower-case form of `c` between the characters before it, nearest first, and
    those after it. -/
def lowerBetween (before : List Char) (c : Char) (after : List Char) : List Char :=
  if c = 'Σ' then
    if meetsCased before && !meetsCased after then ['ς'] else ['σ']
  else if c = 'İ' then ['i', '\u0307']
  else [lowerSimple c]

/-- Lower case of characters that follow `before`, which is given nearest first. -/
def lowerFrom (before : List Char) : List Char → List Char
  | [] => []
  | c :: after => lowerBetween before c after ++ lowerFrom (c :: before) after

/-- The lower-case form of a text. -/
def lowercase (s : String) : String :=
  String.ofList (lowerFrom [] s.toList)

end ReceiptPrinter.Text
