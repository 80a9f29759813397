import ReceiptPrinter.Text.Utf8

/-! # UTF-8 — what is written is read back

    `String.utf8EncodeChar` writes a scalar value in one of four forms.  Each
    form is read back by `Utf8.head` whatever bytes stand behind it, so a text
    survives `Utf8.encode` and `Utf8.lenient`.  The other way round, all that is read
    as a character is a `Sequence` of one of these forms, and no overlong one.

    The reader's tests are on bytes and the writer's are on code points; the
    lemmas of the first section carry both over to natural numbers. -/

namespace ReceiptPrinter.Utf8

/-! ## Bytes as numbers -/

theorem isTail_iff (b : UInt8) :
    isTail b = true ↔ 128 ≤ b.toNat ∧ b.toNat ≤ 191 := by
  rw [isTail, Bool.and_eq_true, decide_eq_true_eq, decide_eq_true_eq,
    UInt8.le_iff_toNat_le, UInt8.le_iff_toNat_le]
  rfl

/-- The byte that carries the six low bits of a number. -/
theorem toNat_tail (n : Nat) : (UInt8.ofNat (n % 64 + 128)).toNat = n % 64 + 128 :=
  UInt8.toNat_ofNat_of_lt' (show n % 64 + 128 < 256 by omega)

theorem isTail_tail (n : Nat) : isTail (UInt8.ofNat (n % 64 + 128)) = true := by
  rw [isTail_iff, toNat_tail]
  omega

theorem low6_tail (n : Nat) : low6 (UInt8.ofNat (n % 64 + 128)) = n % 64 := by
  rw [low6, toNat_tail]
  omega

/-- The second byte of three is a continuation that leaves out overlong forms
    and surrogates. -/
theorem isSecondOfThree_iff (a b : UInt8) :
    isSecondOfThree a b = true ↔
      128 ≤ b.toNat ∧ b.toNat ≤ 191 ∧ (a.toNat = 224 → 160 ≤ b.toNat)
        ∧ (a.toNat = 237 → b.toNat ≤ 159) := by
  -- The tests become linear facts about the numbers of the two bytes.
  have ha : a = 0xE0 ↔ a.toNat = 224 := UInt8.toNat_inj.symm
  have hd : a = 0xED ↔ a.toNat = 237 := UInt8.toNat_inj.symm
  rw [isSecondOfThree]
  split
  next h =>
    rw [ha] at h
    simp only [Bool.and_eq_true, decide_eq_true_eq, UInt8.le_iff_toNat_le, UInt8.reduceToNat]
    omega
  next h =>
    rw [ha] at h
    split
    next k =>
      rw [hd] at k
      simp only [Bool.and_eq_true, decide_eq_true_eq, UInt8.le_iff_toNat_le, UInt8.reduceToNat]
      omega
    next k =>
      rw [hd] at k
      rw [isTail_iff]
      omega

/-- The second byte of four is a continuation that leaves out overlong forms
    and numbers past the last scalar value. -/
theorem isSecondOfFour_iff (a b : UInt8) :
    isSecondOfFour a b = true ↔
      128 ≤ b.toNat ∧ b.toNat ≤ 191 ∧ (a.toNat = 240 → 144 ≤ b.toNat)
        ∧ (a.toNat = 244 → b.toNat ≤ 143) := by
  have ha : a = 0xF0 ↔ a.toNat = 240 := UInt8.toNat_inj.symm
  have hd : a = 0xF4 ↔ a.toNat = 244 := UInt8.toNat_inj.symm
  rw [isSecondOfFour]
  split
  next h =>
    rw [ha] at h
    simp only [Bool.and_eq_true, decide_eq_true_eq, UInt8.le_iff_toNat_le, UInt8.reduceToNat]
    omega
  next h =>
    rw [ha] at h
    split
    next k =>
      rw [hd] at k
      simp only [Bool.and_eq_true, decide_eq_true_eq, UInt8.le_iff_toNat_le, UInt8.reduceToNat]
      omega
    next k =>
      rw [hd] at k
      rw [isTail_iff]
      omega

/-- The lead byte decides which form is read. -/
theorem head_eq (a : UInt8) (rest : Bytes) :
    head a rest =
      if a.toNat < 128 then .scalar (Char.ofNat a.toNat) 1
      else if 194 ≤ a.toNat ∧ a.toNat ≤ 223 then
        match rest with
        | b :: _ =>
          if isTail b then .scalar (Char.ofNat (a.toNat % 32 * 64 + low6 b)) 2 else .broken 1
        | [] => .broken 1
      else if 224 ≤ a.toNat ∧ a.toNat ≤ 239 then headOfThree a rest
      else if 240 ≤ a.toNat ∧ a.toNat ≤ 244 then headOfFour a rest
      else .broken 1 := by
  simp only [head, Bool.and_eq_true, decide_eq_true_eq, UInt8.lt_iff_toNat_lt,
    UInt8.le_iff_toNat_le]
  rfl

/-! ## The four forms -/

/-- A scalar value is no surrogate and at most the last one. -/
theorem scalar_range (c : Char) :
    c.toNat < 0xD800 ∨ (0xDFFF < c.toNat ∧ c.toNat < 0x110000) :=
  c.valid

/-- A character of ASCII is written as its own number. -/
theorem encodeChar_one {c : Char} (h : c.toNat < 128) :
    String.utf8EncodeChar c = [UInt8.ofNat c.toNat] := by
  have h' : c.val.toNat ≤ 127 := Nat.le_of_lt_succ h
  simp only [String.utf8EncodeChar, if_pos h']
  rfl

private theorem encodeChar_two {c : Char} (h : 128 ≤ c.toNat) (k : c.toNat < 2048) :
    String.utf8EncodeChar c
      = [UInt8.ofNat (c.toNat / 64 % 32 + 192), UInt8.ofNat (c.toNat % 64 + 128)] := by
  have h' : ¬ c.val.toNat ≤ 127 := Nat.not_le.mpr h
  have k' : c.val.toNat ≤ 2047 := Nat.le_of_lt_succ k
  simp only [String.utf8EncodeChar, if_neg h', if_pos k']
  rfl

private theorem encodeChar_three {c : Char} (h : 2048 ≤ c.toNat) (k : c.toNat < 65536) :
    String.utf8EncodeChar c
      = [UInt8.ofNat (c.toNat / 4096 % 16 + 224), UInt8.ofNat (c.toNat / 64 % 64 + 128),
          UInt8.ofNat (c.toNat % 64 + 128)] := by
  have h' : ¬ c.val.toNat ≤ 2047 := Nat.not_le.mpr h
  have h'' : ¬ c.val.toNat ≤ 127 := fun e => h' (Nat.le_trans e (by decide))
  have k' : c.val.toNat ≤ 65535 := Nat.le_of_lt_succ k
  simp only [String.utf8EncodeChar, if_neg h'', if_neg h', if_pos k']
  rfl

private theorem encodeChar_four {c : Char} (h : 65536 ≤ c.toNat) :
    String.utf8EncodeChar c
      = [UInt8.ofNat (c.toNat / 262144 % 8 + 240), UInt8.ofNat (c.toNat / 4096 % 64 + 128),
          UInt8.ofNat (c.toNat / 64 % 64 + 128), UInt8.ofNat (c.toNat % 64 + 128)] := by
  have h1 : ¬ c.val.toNat ≤ 65535 := Nat.not_le.mpr h
  have h2 : ¬ c.val.toNat ≤ 2047 := fun e => h1 (Nat.le_trans e (by decide))
  have h3 : ¬ c.val.toNat ≤ 127 := fun e => h1 (Nat.le_trans e (by decide))
  simp only [String.utf8EncodeChar, if_neg h3, if_neg h2, if_neg h1]
  rfl

/-- All bytes of a character outside ASCII are. -/
theorem encodeChar_high {c : Char} (h : 128 ≤ c.toNat) :
    ∀ b ∈ String.utf8EncodeChar c, 128 ≤ b.toNat := by
  have lead : ∀ n k : Nat, 128 ≤ k → n + k < 256 → 128 ≤ (UInt8.ofNat (n + k)).toNat := by
    intro n k hk hn
    rw [UInt8.toNat_ofNat_of_lt' hn]
    omega
  have tail : ∀ n : Nat, 128 ≤ (UInt8.ofNat (n % 64 + 128)).toNat := by
    intro n
    rw [toNat_tail]
    omega
  intro b hb
  rcases Nat.lt_or_ge c.toNat 2048 with k | k
  · rw [encodeChar_two h k] at hb
    simp only [List.mem_cons, List.not_mem_nil, or_false] at hb
    rcases hb with rfl | rfl
    · exact lead _ 192 (by decide) (by omega)
    · exact tail _
  rcases Nat.lt_or_ge c.toNat 65536 with j | j
  · rw [encodeChar_three k j] at hb
    simp only [List.mem_cons, List.not_mem_nil, or_false] at hb
    rcases hb with rfl | rfl | rfl
    · exact lead _ 224 (by decide) (by omega)
    · exact tail _
    · exact tail _
  · rw [encodeChar_four j] at hb
    simp only [List.mem_cons, List.not_mem_nil, or_false] at hb
    rcases hb with rfl | rfl | rfl | rfl
    · exact lead _ 240 (by decide) (by omega)
    · exact tail _
    · exact tail _
    · exact tail _

private theorem head_two {c : Char} (h : 128 ≤ c.toNat) (k : c.toNat < 2048) (rest : Bytes) :
    head (UInt8.ofNat (c.toNat / 64 % 32 + 192)) (UInt8.ofNat (c.toNat % 64 + 128) :: rest)
      = .scalar c 2 := by
  have ha : (UInt8.ofNat (c.toNat / 64 % 32 + 192)).toNat = c.toNat / 64 % 32 + 192 :=
    UInt8.toNat_ofNat_of_lt' (show _ < 256 by omega)
  have hc : (c.toNat / 64 % 32 + 192) % 32 * 64 + c.toNat % 64 = c.toNat := by omega
  rw [head_eq, ha, if_neg (by omega), if_pos (by omega)]
  show (if isTail _ = true then _ else _) = _
  rw [if_pos (isTail_tail _), low6_tail, hc, Char.ofNat_toNat]

private theorem head_three {c : Char} (h : 2048 ≤ c.toNat) (k : c.toNat < 65536) (rest : Bytes) :
    head (UInt8.ofNat (c.toNat / 4096 % 16 + 224))
        (UInt8.ofNat (c.toNat / 64 % 64 + 128) :: UInt8.ofNat (c.toNat % 64 + 128) :: rest)
      = .scalar c 3 := by
  have ha : (UInt8.ofNat (c.toNat / 4096 % 16 + 224)).toNat = c.toNat / 4096 % 16 + 224 :=
    UInt8.toNat_ofNat_of_lt' (show _ < 256 by omega)
  have hs : isSecondOfThree (UInt8.ofNat (c.toNat / 4096 % 16 + 224))
      (UInt8.ofNat (c.toNat / 64 % 64 + 128)) = true := by
    -- A lead of `ED` would need a surrogate to be followed by more than `9F`.
    have hv := scalar_range c
    rw [isSecondOfThree_iff, ha, toNat_tail]
    omega
  have hc : (c.toNat / 4096 % 16 + 224) % 16 * 4096 + c.toNat / 64 % 64 * 64 + c.toNat % 64
      = c.toNat := by omega
  rw [head_eq, ha, if_neg (by omega), if_neg (by omega), if_pos (by omega)]
  simp only [headOfThree, hs, isTail_tail, ha, low6_tail, hc, Char.ofNat_toNat, Bool.not_true,
    Bool.false_eq_true, if_false]

private theorem head_four {c : Char} (h : 65536 ≤ c.toNat) (rest : Bytes) :
    head (UInt8.ofNat (c.toNat / 262144 % 8 + 240))
        (UInt8.ofNat (c.toNat / 4096 % 64 + 128) :: UInt8.ofNat (c.toNat / 64 % 64 + 128)
          :: UInt8.ofNat (c.toNat % 64 + 128) :: rest)
      = .scalar c 4 := by
  have hv := scalar_range c
  have ha : (UInt8.ofNat (c.toNat / 262144 % 8 + 240)).toNat = c.toNat / 262144 % 8 + 240 :=
    UInt8.toNat_ofNat_of_lt' (show _ < 256 by omega)
  have hs : isSecondOfFour (UInt8.ofNat (c.toNat / 262144 % 8 + 240))
      (UInt8.ofNat (c.toNat / 4096 % 64 + 128)) = true := by
    rw [isSecondOfFour_iff, ha, toNat_tail]
    omega
  have hc : (c.toNat / 262144 % 8 + 240) % 8 * 262144 + c.toNat / 4096 % 64 * 4096
      + c.toNat / 64 % 64 * 64 + c.toNat % 64 = c.toNat := by omega
  rw [head_eq, ha, if_neg (by omega), if_neg (by omega), if_neg (by omega), if_pos (by omega)]
  simp only [headOfFour, hs, isTail_tail, ha, low6_tail, hc, Char.ofNat_toNat, Bool.not_true,
    Bool.false_eq_true, if_false]

/-- **A WRITTEN CHARACTER IS READ BACK**, in front of any bytes, and takes just
    the bytes that were written for it. -/
theorem head_encodeChar (c : Char) :
    ∃ b tail, String.utf8EncodeChar c = b :: tail
      ∧ ∀ rest, head b (tail ++ rest) = .scalar c (tail.length + 1) := by
  rcases Nat.lt_or_ge c.toNat 128 with h | h
  · refine ⟨_, _, encodeChar_one h, ?_⟩
    intro rest
    have ha : (UInt8.ofNat c.toNat).toNat = c.toNat :=
      UInt8.toNat_ofNat_of_lt' (show _ < 256 by omega)
    rw [head_eq, ha, if_pos h, Char.ofNat_toNat]
    rfl
  rcases Nat.lt_or_ge c.toNat 2048 with k | k
  · exact ⟨_, _, encodeChar_two h k, head_two h k⟩
  rcases Nat.lt_or_ge c.toNat 65536 with j | j
  · exact ⟨_, _, encodeChar_three k j, head_three k j⟩
  · exact ⟨_, _, encodeChar_four j, head_four j⟩

/-! ## What follows the first byte -/

theorem high_of_isTail {b : UInt8} (h : isTail b = true) : 128 ≤ b.toNat :=
  ((isTail_iff b).mp h).1

theorem high_of_isSecondOfThree {a b : UInt8} (h : isSecondOfThree a b = true) :
    128 ≤ b.toNat := by
  rw [isSecondOfThree_iff] at h
  omega

theorem high_of_isSecondOfFour {a b : UInt8} (h : isSecondOfFour a b = true) :
    128 ≤ b.toNat := by
  rw [isSecondOfFour_iff] at h
  omega

/-! ## The sequences that are read -/

/-- The bytes `a :: rest` begin with a sequence of so many bytes for a character, in
    one of the four forms. -/
inductive Sequence (a : UInt8) : Bytes → Char → Nat → Prop where
  | one {rest : Bytes} (lead : a.toNat < 128) : Sequence a rest (Char.ofNat a.toNat) 1
  | two {b : UInt8} {rest : Bytes} (lead : 194 ≤ a.toNat ∧ a.toNat ≤ 223)
      (second : isTail b = true) :
      Sequence a (b :: rest) (Char.ofNat (a.toNat % 32 * 64 + low6 b)) 2
  | three {b c : UInt8} {rest : Bytes} (lead : 224 ≤ a.toNat ∧ a.toNat ≤ 239)
      (second : isSecondOfThree a b = true) (third : isTail c = true) :
      Sequence a (b :: c :: rest)
        (Char.ofNat (a.toNat % 16 * 4096 + low6 b * 64 + low6 c)) 3
  | four {b c d : UInt8} {rest : Bytes} (lead : 240 ≤ a.toNat ∧ a.toNat ≤ 244)
      (second : isSecondOfFour a b = true) (third : isTail c = true)
      (fourth : isTail d = true) :
      Sequence a (b :: c :: d :: rest)
        (Char.ofNat (a.toNat % 8 * 262144 + low6 b * 4096 + low6 c * 64 + low6 d)) 4

section

variable {a : UInt8} {rest : Bytes} {c : Char} {size : Nat}

private theorem sequence_of_headOfThree (lead : 224 ≤ a.toNat ∧ a.toNat ≤ 239)
    (h : headOfThree a rest = .scalar c size) : Sequence a rest c size := by
  rw [headOfThree.eq_def] at h
  split at h
  · split at h
    · cases h
    next hs =>
      split at h
      · cases h
      next ht =>
        rw [Bool.not_eq_true', Bool.not_eq_false] at hs ht
        cases h
        exact .three lead hs ht
  · split at h <;> cases h
  · cases h

private theorem sequence_of_headOfFour (lead : 240 ≤ a.toNat ∧ a.toNat ≤ 244)
    (h : headOfFour a rest = .scalar c size) : Sequence a rest c size := by
  rw [headOfFour.eq_def] at h
  split at h
  · split at h
    · cases h
    next hs =>
      split at h
      · split at h
        · cases h
        next ht =>
          split at h
          · cases h
          next hf =>
            rw [Bool.not_eq_true', Bool.not_eq_false] at hs ht hf
            cases h
            exact .four lead hs ht hf
      · split at h <;> cases h
      · cases h
  · cases h

/-- What is read as a character is a sequence for it. -/
theorem sequence_of_head (h : head a rest = .scalar c size) : Sequence a rest c size := by
  rw [head_eq] at h
  split at h
  next lead =>
    cases h
    exact .one lead
  split at h
  next lead =>
    split at h
    · split at h
      next ht =>
        cases h
        exact .two lead ht
      · cases h
    · cases h
  split at h
  next lead => exact sequence_of_headOfThree lead h
  split at h
  next lead => exact sequence_of_headOfFour lead h
  · cases h

/-- A sequence takes no byte of ASCII after its first one. -/
theorem high_of_head (h : head a rest = .scalar c size) :
    ∀ b ∈ rest.take (size - 1), 128 ≤ b.toNat := by
  cases sequence_of_head h with
  | one lead => exact List.forall_mem_nil _
  | two lead second => exact List.forall_mem_singleton.mpr (high_of_isTail second)
  | three lead second third =>
      exact List.forall_mem_cons.mpr
        ⟨high_of_isSecondOfThree second, List.forall_mem_singleton.mpr (high_of_isTail third)⟩
  | four lead second third fourth =>
      exact List.forall_mem_cons.mpr ⟨high_of_isSecondOfFour second, List.forall_mem_cons.mpr
        ⟨high_of_isTail third, List.forall_mem_singleton.mpr (high_of_isTail fourth)⟩⟩

/-- A sequence has at least one byte, and all of them are there. -/
theorem size_of_head (h : head a rest = .scalar c size) :
    1 ≤ size ∧ size ≤ rest.length + 1 := by
  cases sequence_of_head h with
  | one lead => omega
  | two lead second | three lead second third | four lead second third fourth =>
      simp only [List.length_cons]
      omega

/-- The character of a scalar value has its number. -/
theorem toNat_ofNat {n : Nat} (h : n < 0xD800 ∨ (0xDFFF < n ∧ n < 0x110000)) :
    (Char.ofNat n).toNat = n := by
  rw [Char.ofNat, dif_pos (show n.isValidChar from h)]
  rfl

/-- A sequence that begins outside ASCII is for a character outside ASCII: the
    overlong forms are left out. -/
theorem high_char_of_head (h : head a rest = .scalar c size) (high : 128 ≤ a.toNat) :
    128 ≤ c.toNat := by
  cases sequence_of_head h with
  | one lead => omega
  | two lead second =>
      rw [low6, toNat_ofNat (by omega)]
      omega
  | three lead second third =>
      rw [isSecondOfThree_iff] at second
      rw [low6, low6, toNat_ofNat (by omega)]
      omega
  | four lead second third fourth =>
      rw [isSecondOfFour_iff] at second
      rw [low6, low6, low6, toNat_ofNat (by omega)]
      omega

end

/-! ## What stands behind a sequence -/

private theorem headOfThree_append_low {a b : UInt8} (low : b.toNat < 128) (xs ys : Bytes) :
    headOfThree a (xs ++ b :: ys) = headOfThree a xs := by
  have hb : ¬ 128 ≤ b.toNat := Nat.not_le.mpr low
  have second : isSecondOfThree a b = false :=
    Bool.eq_false_iff.mpr (mt high_of_isSecondOfThree hb)
  have tail : isTail b = false := Bool.eq_false_iff.mpr (mt high_of_isTail hb)
  match xs with
  | [] => cases ys <;> simp only [List.nil_append, headOfThree, second] <;> rfl
  | [x] =>
      cases h : isSecondOfThree a x <;>
        simp only [List.cons_append, List.nil_append, headOfThree, h, tail] <;> rfl
  | x :: y :: xs => rfl

private theorem headOfFour_append_low {a b : UInt8} (low : b.toNat < 128) (xs ys : Bytes) :
    headOfFour a (xs ++ b :: ys) = headOfFour a xs := by
  have hb : ¬ 128 ≤ b.toNat := Nat.not_le.mpr low
  have second : isSecondOfFour a b = false :=
    Bool.eq_false_iff.mpr (mt high_of_isSecondOfFour hb)
  have tail : isTail b = false := Bool.eq_false_iff.mpr (mt high_of_isTail hb)
  match xs with
  | [] =>
      simp only [List.nil_append, headOfFour, second]
      rfl
  | [x] => cases ys <;> simp only [List.cons_append, List.nil_append, headOfFour, tail] <;> rfl
  | [x, y] =>
      cases h : isTail y <;>
        simp only [List.cons_append, List.nil_append, headOfFour, h, tail] <;> rfl
  | x :: y :: z :: xs => rfl

/-- A byte of ASCII ends every sequence, as if nothing stood behind it. -/
theorem head_append_low {a b : UInt8} (low : b.toNat < 128) (xs ys : Bytes) :
    head a (xs ++ b :: ys) = head a xs := by
  have hb : ¬ 128 ≤ b.toNat := Nat.not_le.mpr low
  have tail : isTail b = false := Bool.eq_false_iff.mpr (mt high_of_isTail hb)
  rw [head.eq_def, head.eq_def, headOfThree_append_low low, headOfFour_append_low low]
  cases xs with
  | nil => simp only [List.nil_append, tail, Bool.false_eq_true, if_false]
  | cons x xs => rfl
/-! ## Texts -/

theorem encode_ofList_cons (c : Char) (cs : List Char) :
    encode (String.ofList (c :: cs)) = String.utf8EncodeChar c ++ encode (String.ofList cs) := by
  simp only [encode, String.toList_ofList, List.flatMap_cons]

private theorem lenientOnto_encode (read cs : List Char) :
    lenientOnto read (encode (String.ofList cs)) = read.reverse ++ cs := by
  induction cs generalizing read with
  | nil =>
      rw [List.append_nil]
      exact lenientOnto.eq_1 read
  | cons c cs ih =>
      obtain ⟨b, tail, hb, hr⟩ := head_encodeChar c
      -- The reader skips what the lead announces, which is what was written.
      rw [encode_ofList_cons, hb, List.cons_append, lenientOnto, hr]
      show lenientOnto (c :: read) (List.drop (tail.length + 1 - 1) _) = _
      rw [Nat.add_sub_cancel, List.drop_left, ih, List.reverse_cons, List.append_assoc]
      rfl

/-- **A TEXT SURVIVES ITS ENCODING**: the lenient reader gives it back. -/
theorem lenient_encode (s : String) : lenient (encode s) = s := by
  have h := lenientOnto_encode [] s.toList
  rw [String.ofList_toList] at h
  rw [lenient, h]
  exact String.ofList_toList

end ReceiptPrinter.Utf8
