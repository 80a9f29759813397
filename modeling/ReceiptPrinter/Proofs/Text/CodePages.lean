import Mathlib.Data.List.Forall2
import Mathlib.Data.List.Nodup
import Mathlib.Logic.ExistsUnique
import ReceiptPrinter.Text.Encoding

/-! # Code pages — characters by the places of a table

    An encoding of one byte per character has ASCII and a table for the bytes from
    `0x80` on (`Encoding.highChars`).  `Encoding.Writes` says which byte a character
    gets, from its place in the table; the encoder searches the table and finds that
    byte (`Encoding.writes_byte`).

    The tables of the two code pages are full and name no character twice, so each of
    their bytes stands for one character (`Encoding.charOf`) and no two bytes stand for
    the same one.  Bytes and the texts of such characters are then the same thing,
    written in two ways. -/

namespace ReceiptPrinter.Encoding

/-! ## Tables -/

/-- The characters that an encoding of one byte per character has beside ASCII, in the
    order of their bytes from `0x80` on. -/
def highChars : Encoding → List Char
  | .cp437 => cp437Table
  | .latin1 => (List.range 128).map fun i => Char.ofNat (0x80 + i)
  | _ => []

/-- The encodings with a character for every byte. -/
def IsCodePage (e : Encoding) : Prop :=
  e = .cp437 ∨ e = .latin1

/-- What holds of the characters of three texts, one after the other, holds of the
    texts together. -/
theorem of_literals {P : List Char → Prop} {a b c : String} {x y z : List Char}
    (ha : a = String.ofList x) (hb : b = String.ofList y) (hc : c = String.ofList z)
    (h : P (x ++ y ++ z)) : P (a ++ b ++ c).toList := by
  subst ha hb hc
  rwa [← String.ofList_append, ← String.ofList_append, String.toList_ofList]

-- Evaluation of the whole table would decode its text over and over; the three
-- literals are taken apart into characters once each.
set_option maxRecDepth 3000 in
/-- The table fills the bytes outside ASCII. -/
theorem length_cp437Table : cp437Table.length = 128 :=
  of_literals (P := fun cs => cs.length = 128) rfl rfl rfl (by decide +kernel)

set_option maxRecDepth 3000 in
theorem nodup_cp437Table : cp437Table.Nodup :=
  List.Nodup.of_map Char.toNat
    (of_literals (P := fun cs => (cs.map Char.toNat).Nodup) rfl rfl rfl (by decide +kernel))

set_option maxRecDepth 3000 in
theorem high_of_mem_cp437Table : ∀ c ∈ cp437Table, 128 ≤ c.toNat := by
  have hall : cp437Table.all (fun c => decide (128 ≤ c.toNat)) = true :=
    of_literals (P := fun cs => cs.all (fun c => decide (128 ≤ c.toNat)) = true) rfl rfl rfl
      (by decide +kernel)
  intro c hc
  exact of_decide_eq_true (List.all_eq_true.mp hall c hc)

theorem toNat_highChar {i : Nat} (h : i < 128) : (Char.ofNat (0x80 + i)).toNat = 128 + i := by
  revert i
  decide

theorem length_highChars {e : Encoding} (h : e.IsCodePage) : e.highChars.length = 128 := by
  rcases h with rfl | rfl
  · exact length_cp437Table
  · rw [highChars, List.length_map, List.length_range]

theorem length_highChars_le (e : Encoding) : e.highChars.length ≤ 128 := by
  cases e with
  | ascii | utf8 => exact Nat.zero_le 128
  | cp437 => exact Nat.le_of_eq (length_highChars (.inl rfl))
  | latin1 => exact Nat.le_of_eq (length_highChars (.inr rfl))

/-- The tables hold no ASCII. -/
theorem high_of_mem_highChars {e : Encoding} {c : Char} (h : c ∈ e.highChars) :
    128 ≤ c.toNat := by
  cases e with
  | ascii | utf8 => cases h
  | cp437 => exact high_of_mem_cp437Table c h
  | latin1 =>
      obtain ⟨i, hi, rfl⟩ := List.mem_map.mp h
      rw [toNat_highChar (List.mem_range.mp hi)]
      exact Nat.le_add_right ..

/-- No character has two bytes. -/
theorem nodup_highChars (e : Encoding) : e.highChars.Nodup := by
  cases e with
  | ascii | utf8 => exact List.nodup_nil
  | cp437 => exact nodup_cp437Table
  | latin1 =>
      refine List.Nodup.map_on ?_ List.nodup_range
      intro i hi j hj hsame
      have hnat := congrArg Char.toNat hsame
      rw [toNat_highChar (List.mem_range.mp hi), toNat_highChar (List.mem_range.mp hj)] at hnat
      exact Nat.add_left_cancel hnat

theorem getElem?_latin1 {c : Char} (hlow : 128 ≤ c.toNat) (hhigh : c.toNat < 256) :
    latin1.highChars[c.toNat - 128]? = some c := by
  rw [highChars, List.getElem?_map, List.getElem?_range (by omega), Option.map_some,
    Nat.add_sub_cancel' hlow, Char.ofNat_toNat]

/-- In a table without repeats a character is found where it stands. -/
theorem idxOf?_of_getElem? {table : List Char} (h : table.Nodup) {i : Nat} {c : Char}
    (hc : table[i]? = some c) : table.idxOf? c = some i := by
  obtain ⟨hi, rfl⟩ := List.getElem?_eq_some_iff.mp hc
  refine List.idxOf?_eq_some_iff.mpr ⟨hi, rfl, ?_⟩
  intro j hj hsame
  exact Nat.ne_of_lt hj ((h.getElem_inj_iff).mp hsame)

/-! ## Bytes of characters -/

/-- A character that an encoding of one byte per character has a byte for. -/
def Represents (e : Encoding) (c : Char) : Prop :=
  c.toNat < 128 ∨ c ∈ e.highChars

/-- The byte that belongs to a character: its own number in ASCII, its place in the
    table behind ASCII, and `?` if it has none. -/
structure Writes (e : Encoding) (c : Char) (b : UInt8) : Prop where
  ascii : c.toNat < 128 → b.toNat = c.toNat
  table : ∀ i, e.highChars[i]? = some c → b.toNat = 0x80 + i
  missing : ¬ e.Represents c → b = 0x3F

/-- The encoder looks for a character in the table. -/
theorem highByte?_eq (e : Encoding) {c : Char} (h : 128 ≤ c.toNat) :
    e.highByte? c = (e.highChars.idxOf? c).map fun i => 0x80 + UInt8.ofNat i := by
  cases e with
  | ascii | utf8 | cp437 => rfl
  | latin1 =>
      rw [highByte?]
      split
      next hlt =>
        rw [idxOf?_of_getElem? (nodup_highChars latin1) (getElem?_latin1 h hlt), Option.map_some,
          Option.some.injEq, ← UInt8.toNat_inj, UInt8.toNat_add, UInt8.toNat_ofNat_of_lt' hlt,
          UInt8.toNat_ofNat_of_lt' (show _ < 256 by omega)]
        show c.toNat = (128 + (c.toNat - 128)) % 256
        omega
      next hge =>
        rw [List.idxOf?_eq_none_iff.mpr, Option.map_none]
        intro hmem
        obtain ⟨i, hi, rfl⟩ := List.mem_map.mp hmem
        have hi := List.mem_range.mp hi
        rw [toNat_highChar hi] at hge
        omega

/-- **THE ENCODER WRITES THE BYTE OF EVERY CHARACTER.** -/
theorem writes_byte (e : Encoding) (c : Char) : e.Writes c (e.byte c) where
  ascii h := by
    rw [byte, if_pos h]
    exact UInt8.toNat_ofNat_of_lt' (show _ < 256 by omega)
  table i hi := by
    have hhigh := high_of_mem_highChars (List.mem_of_getElem? hi)
    have hlt := (List.getElem?_eq_some_iff.mp hi).1
    have hle := e.length_highChars_le
    rw [byte, if_neg (Nat.not_lt.mpr hhigh), highByte?_eq e hhigh,
      idxOf?_of_getElem? e.nodup_highChars hi, Option.map_some, Option.getD_some, UInt8.toNat_add,
      UInt8.toNat_ofNat_of_lt' (show _ < 256 by omega)]
    show (128 + i) % 256 = 128 + i
    omega
  missing h := by
    obtain ⟨hlow, hmem⟩ := not_or.mp h
    rw [byte, if_neg hlow, highByte?_eq e (Nat.not_lt.mp hlow),
      List.idxOf?_eq_none_iff.mpr hmem]
    rfl

namespace Writes

variable {e : Encoding} {c : Char} {b : UInt8}

/-- Outside ASCII a character gets a byte outside ASCII, or `?`. -/
theorem high (h : e.Writes c b) (hc : 128 ≤ c.toNat) : b = 0x3F ∨ 128 ≤ b.toNat := by
  by_cases hmem : c ∈ e.highChars
  · obtain ⟨i, hi⟩ := List.mem_iff_getElem?.mp hmem
    rw [h.table i hi]
    exact .inr (Nat.le_add_right ..)
  · exact .inl (h.missing (not_or.mpr ⟨Nat.not_lt.mpr hc, hmem⟩))

end Writes

/-! ## Characters of bytes -/

/-- The character that a byte stands for. -/
def charOf (e : Encoding) (b : UInt8) : Char :=
  if b.toNat < 128 then Char.ofNat b.toNat else e.highChars.getD (b.toNat - 128) '?'

/-- The text that bytes stand for. -/
def decode (e : Encoding) (bytes : Bytes) : String :=
  String.ofList (bytes.map e.charOf)

/-- A byte of ASCII stands for the character of its number. -/
theorem toNat_charOf {b : UInt8} (e : Encoding) (h : b.toNat < 128) :
    (e.charOf b).toNat = b.toNat := by
  have hascii : ∀ n < 128, (Char.ofNat n).toNat = n := by decide
  rw [charOf, if_pos h, hascii _ h]

/-- The other bytes of a code page stand for the characters of its table. -/
theorem getElem?_charOf {e : Encoding} (he : e.IsCodePage) {b : UInt8} (h : 128 ≤ b.toNat) :
    e.highChars[b.toNat - 128]? = some (e.charOf b) := by
  have hlt : b.toNat - 128 < e.highChars.length := by
    have hb := b.toNat_lt
    rw [length_highChars he]
    omega
  rw [charOf, if_neg (Nat.not_lt.mpr h), List.getD_eq_getElem?_getD,
    List.getElem?_eq_getElem hlt, Option.getD_some]

section CodePage

variable {e : Encoding} (he : e.IsCodePage)

include he

theorem represents_charOf (b : UInt8) : e.Represents (e.charOf b) := by
  by_cases h : b.toNat < 128
  · left
    rwa [toNat_charOf e h]
  · exact .inr (List.mem_of_getElem? (getElem?_charOf he (Nat.not_lt.mp h)))

/-- A byte of a character that has one stands for the character. -/
theorem Writes.charOf_eq {c : Char} {b : UInt8} (h : e.Writes c b) (hc : e.Represents c) :
    e.charOf b = c := by
  rcases hc with hlow | hmem
  · have hb := h.ascii hlow
    apply Char.toNat_inj.mp
    rw [toNat_charOf e (hb ▸ hlow), hb]
  · obtain ⟨i, hi⟩ := List.mem_iff_getElem?.mp hmem
    have hb := h.table i hi
    have hchar := getElem?_charOf he (show 128 ≤ b.toNat by omega)
    rw [show b.toNat - 128 = i by omega, hi] at hchar
    exact (Option.some.inj hchar).symm

theorem low_charOf_iff (b : UInt8) : (e.charOf b).toNat < 128 ↔ b.toNat < 128 := by
  constructor
  · intro h
    by_contra hb
    have hhigh := high_of_mem_highChars
      (List.mem_of_getElem? (getElem?_charOf he (Nat.not_lt.mp hb)))
    omega
  · intro h
    rwa [toNat_charOf e h]

/-- No two bytes stand for the same character. -/
theorem charOf_injective : Function.Injective e.charOf := by
  intro a b hsame
  have hlow := (low_charOf_iff he a).symm.trans (hsame ▸ low_charOf_iff he b)
  apply UInt8.toNat_inj.mp
  by_cases ha : a.toNat < 128
  · rw [← toNat_charOf e ha, hsame, toNat_charOf e (hlow.mp ha)]
  · -- Both stand in the table, and no character stands there twice.
    have hb : ¬ b.toNat < 128 := fun h => ha (hlow.mpr h)
    have hplace := idxOf?_of_getElem? e.nodup_highChars (getElem?_charOf he (Nat.not_lt.mp ha))
    rw [hsame, idxOf?_of_getElem? e.nodup_highChars (getElem?_charOf he (Nat.not_lt.mp hb))]
      at hplace
    have hsub := Option.some.inj hplace
    omega

theorem byte_charOf (b : UInt8) : e.byte (e.charOf b) = b :=
  charOf_injective he
    ((e.writes_byte (e.charOf b)).charOf_eq he (represents_charOf he b))

end CodePage

/-! ## Texts -/

/-- A text of characters that an encoding of one byte per character has. -/
def Covers (e : Encoding) (s : String) : Prop :=
  ∀ c ∈ s.toList, e.Represents c

theorem encode_eq_map {e : Encoding} (he : e ≠ .utf8) (s : String) :
    e.encode s = s.toList.map e.byte := by
  have hchar : e.encodeChar = fun c => [e.byte c] := by
    funext c
    cases e with
    | utf8 => exact absurd rfl he
    | ascii | cp437 | latin1 => rfl
  rw [encode, hchar, List.map_eq_flatMap]

theorem IsCodePage.ne_utf8 {e : Encoding} (he : e.IsCodePage) : e ≠ .utf8 := by
  rintro rfl
  rcases he with h | h <;> cases h

/-- What bytes stand for is written by them. -/
theorem encode_decode {e : Encoding} (he : e.IsCodePage) (bytes : Bytes) :
    e.encode (e.decode bytes) = bytes := by
  have hid : e.byte ∘ e.charOf = id := funext (byte_charOf he)
  rw [encode_eq_map he.ne_utf8, decode, String.toList_ofList, List.map_map, hid, List.map_id]

/-- What is written for a text stands for it, if all of its characters have a byte. -/
theorem decode_encode {e : Encoding} (he : e.IsCodePage) {s : String} (h : e.Covers s) :
    e.decode (e.encode s) = s := by
  have hid : s.toList.map (e.charOf ∘ e.byte) = s.toList := by
    calc s.toList.map (e.charOf ∘ e.byte) = s.toList.map id :=
          List.map_congr_left fun c hc => (e.writes_byte c).charOf_eq he (h c hc)
      _ = s.toList := List.map_id _
  rw [decode, encode_eq_map he.ne_utf8, List.map_map, hid, String.ofList_toList]

theorem covers_decode {e : Encoding} (he : e.IsCodePage) (bytes : Bytes) :
    e.Covers (e.decode bytes) := by
  intro c hc
  rw [decode, String.toList_ofList] at hc
  obtain ⟨b, -, rfl⟩ := List.mem_map.mp hc
  exact represents_charOf he b

/-- The bytes of a text are those of its characters, one for each. -/
theorem forall₂_encode {e : Encoding} (he : e ≠ .utf8) {R : Char → UInt8 → Prop}
    (h : ∀ c, R c (e.byte c)) (s : String) : List.Forall₂ R s.toList (e.encode s) := by
  rw [encode_eq_map he, List.forall₂_map_right_iff, List.forall₂_same]
  exact fun c _ => h c

/-- **BYTES ARE TEXTS.**  In a code page every string of bytes is written for exactly one
    text of characters that it has, and reading by the table undoes writing and the
    other way round.  An encoding of one byte per character, ASCII included, gives
    every character of a text its byte, or `?` if it has none, independently of the
    characters around it; and of the characters outside ASCII none but those without
    a byte get one of ASCII. -/
theorem existsUnique_text_of_bytes (e : Encoding) :
    (e.IsCodePage →
        (∀ bytes, ∃! s, e.Covers s ∧ e.encode s = bytes)
          ∧ (∀ s, e.Covers s → e.decode (e.encode s) = s)
          ∧ ∀ bytes, e.encode (e.decode bytes) = bytes)
      ∧ (e ≠ .utf8 → ∀ s,
        (e.encode s).length = s.length
          ∧ List.Forall₂ e.Writes s.toList (e.encode s)
          ∧ List.Forall₂ (fun c b => 128 ≤ c.toNat → b.toNat < 128 → b = 0x3F)
              s.toList (e.encode s)
          ∧ ∀ t, e.encode (s ++ t) = e.encode s ++ e.encode t) := by
  constructor
  · intro he
    refine ⟨fun bytes => ?_, fun s => decode_encode he, encode_decode he⟩
    refine ⟨e.decode bytes, ⟨covers_decode he bytes, encode_decode he bytes⟩, ?_⟩
    rintro s ⟨hcovers, rfl⟩
    exact (decode_encode he hcovers).symm
  · intro he s
    refine ⟨?_, forall₂_encode he e.writes_byte s, forall₂_encode he ?_ s, encode_append e s⟩
    · rw [encode_eq_map he, List.length_map, String.length_toList]
    · intro c hc hlow
      exact ((e.writes_byte c).high hc).resolve_right (Nat.not_le.mpr hlow)

end ReceiptPrinter.Encoding
