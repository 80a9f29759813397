import ReceiptPrinter.Xml.Characters

/-! # Tokens of XML — the pieces of a document

    A document is a sequence of tags, comments, instructions, and runs of text
    between them.  The tokens keep text and attribute values as they are written. -/

namespace ReceiptPrinter.Xml

/-- A name with the part before its colon; that part is empty when there is none. -/
structure QName where
  before : String
  name : String
deriving DecidableEq, Repr

/-- A piece of a document. -/
inductive Token where
  /-- A start tag; `closed` when it ends the element too. -/
  | opening (name : QName) (attributes : List (QName × List Char)) (closed : Bool)
  | closing (name : QName)
  | comment
  | instruction
  /-- A run of text, as it is written. -/
  | text (written : List Char)
  /-- A section of character data, in which nothing is markup. -/
  | data (written : List Char)
deriving DecidableEq, Repr

/-- Splits a text at the first occurrence of a mark. -/
def splitAtMark (mark : List Char) (cs : List Char) : Option (List Char × List Char) :=
  if mark.isPrefixOf cs then some ([], cs.drop mark.length)
  else match cs with
    | [] => none
    | c :: rest => (splitAtMark mark rest).map fun (before, after) => (c :: before, after)

theorem length_splitAtMark {mark cs before after : List Char}
    (h : splitAtMark mark cs = some (before, after)) : after.length ≤ cs.length := by
  induction cs generalizing before with
  | nil =>
      rw [splitAtMark.eq_def] at h
      split at h
      · cases h
        exact Nat.le_of_eq (congrArg List.length List.drop_nil)
      · cases h
  | cons c rest ih =>
      rw [splitAtMark.eq_def] at h
      split at h
      · cases h
        rw [List.length_drop]
        exact Nat.sub_le _ _
      · obtain ⟨⟨front, back⟩, hb, he⟩ := Option.map_eq_some_iff.mp h
        cases he
        exact Nat.le_succ_of_le (ih hb)

/-- Whether a mark occurs in a text. -/
def hasMark (mark : List Char) (cs : List Char) : Bool :=
  (splitAtMark mark cs).isSome

/-- The text without the spaces in front. -/
def skipSpaces (cs : List Char) : List Char :=
  cs.dropWhile isSpace

theorem length_skipSpaces (cs : List Char) : (skipSpaces cs).length ≤ cs.length :=
  (List.dropWhile_suffix _).length_le

/-- Splits off the characters that may stand in a name with colons. -/
def takeName (cs : List Char) : List Char × List Char :=
  (cs.takeWhile fun c => isNameChar c || c == ':', cs.dropWhile fun c => isNameChar c || c == ':')

theorem length_takeName (cs : List Char) : (takeName cs).2.length ≤ cs.length :=
  (List.dropWhile_suffix _).length_le

/-- Whether a text starts like a name without colons. -/
def startsName : List Char → Bool
  | [] => false
  | c :: _ => isNameStart c

/-- The qualified name that characters of names make: at most one colon, a local part
    that starts like a name, and a part before the colon that does so too unless it
    is empty. -/
def QName.ofChars? (cs : List Char) : Option QName :=
  match Text.splitAtEach ':' cs with
  | [name] => if startsName name then some ⟨"", String.ofList name⟩ else none
  | [before, name] =>
    if startsName name && (before.isEmpty || startsName before) then
      some ⟨String.ofList before, String.ofList name⟩
    else none
  | _ => none

/-- Reads a qualified name. -/
def readQName (cs : List Char) : Option (QName × List Char) :=
  (QName.ofChars? (takeName cs).1).map fun name => (name, (takeName cs).2)

theorem length_readQName {cs rest : List Char} {name : QName}
    (h : readQName cs = some (name, rest)) : rest.length ≤ cs.length := by
  obtain ⟨q, -, he⟩ := Option.map_eq_some_iff.mp h
  cases he
  exact length_takeName cs

/-- Reads a quoted text without `<`. -/
def readQuoted : List Char → Option (List Char × List Char)
  | quote :: rest =>
    if quote = '"' ∨ quote = '\'' then
      (Text.splitFirst? quote rest).bind fun (written, after) =>
        if written.contains '<' then none else some (written, after)
    else none
  | [] => none

theorem length_readQuoted {cs written rest : List Char}
    (h : readQuoted cs = some (written, rest)) : rest.length < cs.length := by
  cases cs with
  | nil => cases h
  | cons quote tail =>
      rw [readQuoted] at h
      split at h
      · obtain ⟨⟨inside, after⟩, hs, he⟩ := Option.bind_eq_some_iff.mp h
        dsimp only at he
        split at he
        · cases he
        · cases he
          exact Nat.lt_succ_of_lt (Text.length_of_splitFirst? hs)
      · cases h

/-- Reads an attribute: a name, an equals sign with spaces around it, and a quoted
    text. -/
def readAttribute (cs : List Char) : Option ((QName × List Char) × List Char) :=
  match readQName cs with
  | none => none
  | some (name, rest) =>
    match skipSpaces rest with
    | '=' :: more => (readQuoted (skipSpaces more)).map fun (written, after) =>
      ((name, written), after)
    | _ => none

theorem length_readAttribute {cs rest : List Char} {entry : QName × List Char}
    (h : readAttribute cs = some (entry, rest)) : rest.length < cs.length := by
  rw [readAttribute] at h
  split at h
  · cases h
  next name tail hname =>
    split at h
    next more hmore =>
      obtain ⟨⟨written, after⟩, hquoted, he⟩ := Option.map_eq_some_iff.mp h
      cases he
      have hspaces : (skipSpaces tail).length = more.length + 1 := by
        rw [hmore, List.length_cons]
      calc rest.length < (skipSpaces more).length := length_readQuoted hquoted
        _ ≤ more.length := length_skipSpaces more
        _ ≤ (skipSpaces tail).length := by rw [hspaces]; exact Nat.le_succ _
        _ ≤ tail.length := length_skipSpaces tail
        _ ≤ cs.length := length_readQName hname
    · cases h

/-- Whether a text starts with a space. -/
def startsSpace : List Char → Bool
  | [] => false
  | c :: _ => isSpace c

/-- Reads the attributes of a start tag up to its end, onto those read before, which
    are given last first.  Each has a space in front. -/
def readAttributes (name : QName) (read : List (QName × List Char)) (cs : List Char) :
    Option (Token × List Char) :=
  match skipSpaces cs with
  | '/' :: '>' :: rest => some (.opening name read.reverse true, rest)
  | '>' :: rest => some (.opening name read.reverse false, rest)
  | _ =>
    if startsSpace cs then
      match h : readAttribute (skipSpaces cs) with
      | some (entry, rest) =>
        have := length_readAttribute h
        have := length_skipSpaces cs
        readAttributes name (entry :: read) rest
      | none => none
    else none
termination_by cs.length

theorem length_readAttributes {name : QName} {read : List (QName × List Char)}
    {cs rest : List Char} {t : Token} (h : readAttributes name read cs = some (t, rest)) :
    rest.length < cs.length := by
  fun_induction readAttributes name read cs with
  | case1 read cs tail hs | case2 read cs tail hs =>
      have hspaces := length_skipSpaces cs
      rw [hs] at hspaces
      cases h
      simp only [List.length_cons] at hspaces
      omega
  | case3 read cs _ entry tail _ shorter skipped _ _ ih =>
      exact Nat.lt_trans (ih h) (Nat.lt_of_lt_of_le shorter skipped)
  | case4 | case5 => cases h

/-- Reads a start tag behind its bracket. -/
def readOpening (cs : List Char) : Option (Token × List Char) :=
  match readQName cs with
  | none => none
  | some (name, rest) => readAttributes name [] rest

/-- Reads an end tag behind its bracket and slash. -/
def readClosing (cs : List Char) : Option (Token × List Char) :=
  match readQName cs with
  | none => none
  | some (name, rest) =>
    match skipSpaces rest with
    | '>' :: after => some (.closing name, after)
    | _ => none

/-- Reads a comment behind its opening mark: it holds no double hyphen and ends in no
    hyphen. -/
def readComment (cs : List Char) : Option (Token × List Char) :=
  (splitAtMark ['-', '-', '>'] cs).bind fun (body, after) =>
    if hasMark ['-', '-'] body || body.getLast? == some '-' then none else some (.comment, after)

/-- Reads an instruction behind its opening mark: a name, then anything up to the
    closing mark. -/
def readInstruction (cs : List Char) : Option (Token × List Char) :=
  match cs with
  | [] => none
  | c :: _ =>
    if ['x', 'm', 'l', ' '].isPrefixOf cs || !(isNameStart c || c == ':') then none
    else (splitAtMark ['?', '>'] (takeName cs).2).map fun (_, after) => (.instruction, after)

/-- Reads character data behind their opening mark. -/
def readData (cs : List Char) : Option (Token × List Char) :=
  (splitAtMark [']', ']', '>'] cs).map fun (written, after) => (.data written, after)

/-- Reads what follows an angle bracket. -/
def readMarkup : List Char → Option (Token × List Char)
  | '!' :: '-' :: '-' :: rest => readComment rest
  | '!' :: '[' :: 'C' :: 'D' :: 'A' :: 'T' :: 'A' :: '[' :: rest => readData rest
  | '?' :: rest => readInstruction rest
  | '/' :: rest => readClosing rest
  | rest => readOpening rest

theorem length_readOpening {cs rest : List Char} {t : Token}
    (h : readOpening cs = some (t, rest)) : rest.length ≤ cs.length := by
  rw [readOpening] at h
  split at h
  · cases h
  next name tail hname =>
    exact Nat.le_trans (Nat.le_of_lt (length_readAttributes h)) (length_readQName hname)

theorem length_readClosing {cs rest : List Char} {t : Token}
    (h : readClosing cs = some (t, rest)) : rest.length ≤ cs.length := by
  rw [readClosing] at h
  split at h
  · cases h
  next name tail hname =>
    split at h
    next after hafter =>
      cases h
      have hspaces := length_skipSpaces tail
      rw [hafter] at hspaces
      exact Nat.le_trans (Nat.le_of_succ_le hspaces) (length_readQName hname)
    · cases h

theorem length_readComment {cs rest : List Char} {t : Token}
    (h : readComment cs = some (t, rest)) : rest.length ≤ cs.length := by
  obtain ⟨⟨body, after⟩, hs, he⟩ := Option.bind_eq_some_iff.mp h
  dsimp only at he
  split at he
  · cases he
  · cases he
    exact length_splitAtMark hs

theorem length_readInstruction {cs rest : List Char} {t : Token}
    (h : readInstruction cs = some (t, rest)) : rest.length ≤ cs.length := by
  cases cs with
  | nil => cases h
  | cons c tail =>
      rw [readInstruction] at h
      split at h
      · cases h
      · obtain ⟨⟨body, after⟩, hs, he⟩ := Option.map_eq_some_iff.mp h
        cases he
        exact Nat.le_trans (length_splitAtMark hs) (length_takeName (c :: tail))

theorem length_readData {cs rest : List Char} {t : Token}
    (h : readData cs = some (t, rest)) : rest.length ≤ cs.length := by
  obtain ⟨⟨written, after⟩, hs, he⟩ := Option.map_eq_some_iff.mp h
  cases he
  exact length_splitAtMark hs

theorem length_readMarkup {cs rest : List Char} {t : Token}
    (h : readMarkup cs = some (t, rest)) : rest.length ≤ cs.length := by
  rw [readMarkup.eq_def] at h
  split at h
  next body =>
    have := length_readComment h
    simp only [List.length_cons]
    omega
  next body =>
    have := length_readData h
    simp only [List.length_cons]
    omega
  next body => exact Nat.le_succ_of_le (length_readInstruction h)
  next body => exact Nat.le_succ_of_le (length_readClosing h)
  · exact length_readOpening h

/-- The tokens of a document behind its declaration, onto those read before, which
    are given last first.  Text does not hold the mark that closes character data. -/
def tokensOnto (read : List Token) (cs : List Char) : Option (List Token) :=
  match cs with
  | [] => some read.reverse
  | '<' :: rest =>
    match h : readMarkup rest with
    | none => none
    | some (t, after) =>
      have := length_readMarkup h
      tokensOnto (t :: read) after
  | c :: rest =>
    let written := c :: rest.takeWhile (· ≠ '<')
    have := (List.dropWhile_suffix (l := rest) (· ≠ '<')).length_le
    if hasMark [']', ']', '>'] written then none
    else tokensOnto (.text written :: read) (rest.dropWhile (· ≠ '<'))
termination_by cs.length
decreasing_by all_goals simp only [List.length_cons]; omega

/-- Reads an attribute whose name starts with a word, then the space that has to
    follow unless the declaration ends there. -/
def readDeclared (word cs : List Char) : Option (List Char) :=
  if word.isPrefixOf cs then
    (readAttribute cs).bind fun (_, rest) =>
      if startsSpace rest || ['?', '>'].isPrefixOf rest then some (skipSpaces rest) else none
  else none

/-- Reads the attribute when it is there. -/
def skipDeclared (word cs : List Char) : Option (List Char) :=
  if word.isPrefixOf cs then readDeclared word cs else some cs

/-- The document behind its declaration, if it has one: a version, then an encoding
    and a standalone mark that may both be missing. -/
def skipDeclaration (cs : List Char) : Option (List Char) :=
  let opening := ['<', '?', 'x', 'm', 'l', ' ']
  if opening.isPrefixOf cs then
    ((readDeclared ['v', 'e', 'r', 's', 'i', 'o', 'n'] (skipSpaces (cs.drop 5))).bind fun rest =>
      (skipDeclared ['e', 'n', 'c', 'o', 'd', 'i', 'n', 'g'] rest)).bind fun rest =>
        let after :=
          if ['s', 't', 'a', 'n', 'd', 'a', 'l', 'o', 'n', 'e'].isPrefixOf rest then
            (readAttribute rest).map Prod.snd
          else some rest
        after.bind fun rest =>
          if ['?', '>'].isPrefixOf (skipSpaces rest) then some ((skipSpaces rest).drop 2) else none
  else some cs

/-- The tokens of a document: a mark of the byte order may stand in front, and no
    character may stand in it that is not allowed. -/
def tokens? (s : String) : Option (List Token) :=
  if s.toList.all isAllowed then
    let cs := match s.toList with
      | '\uFEFF' :: rest => rest
      | cs => cs
    (skipDeclaration cs).bind (tokensOnto [])
  else none

end ReceiptPrinter.Xml
