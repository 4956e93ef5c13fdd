import Plur1bus.Program.Utf8

/-!
Text as 16-bit units. A character above the first 65536 is a pair of
surrogates; a text is read back from units in which every surrogate stands in
such a pair, and from no others.
-/

namespace Program.Utf16

def isHigh (u : UInt16) : Bool := 0xD800 ≤ u && u ≤ 0xDBFF

def isLow (u : UInt16) : Bool := 0xDC00 ≤ u && u ≤ 0xDFFF

def encode (c : Char) : List UInt16 :=
  if c.toNat < 0x10000 then [UInt16.ofNat c.toNat]
  else
    [UInt16.ofNat (0xD800 + (c.toNat - 0x10000) / 0x400),
      UInt16.ofNat (0xDC00 + (c.toNat - 0x10000) % 0x400)]

/-- The units of a text. -/
def units (text : List Char) : List UInt16 := text.flatMap encode

/-- The text of some units, none if one of them is a surrogate without its other half. -/
def chars? : List UInt16 → Option (List Char)
  | [] => some []
  | u :: us =>
    if isHigh u then
      match us with
      | lo :: us =>
        if isLow lo then
          (chars? us).map (Char.ofNat (0x10000 + ((u.toNat - 0xD800) * 0x400 + (lo.toNat - 0xDC00))) :: ·)
        else none
      | [] => none
    else if isLow u then none
    else (chars? us).map (Char.ofNat u.toNat :: ·)

theorem toNat_ofNat_of_lt {n : ℕ} (h : n < 0x10000) : (UInt16.ofNat n).toNat = n :=
  UInt16.toNat_ofNat_of_lt h

theorem isHigh_ofNat {n : ℕ} (h : n < 0x10000) :
    isHigh (UInt16.ofNat n) = true ↔ 0xD800 ≤ n ∧ n ≤ 0xDBFF := by
  simp only [isHigh, Bool.and_eq_true, decide_eq_true_eq, UInt16.le_iff_toNat_le, toNat_ofNat_of_lt h]
  rfl

theorem isLow_ofNat {n : ℕ} (h : n < 0x10000) :
    isLow (UInt16.ofNat n) = true ↔ 0xDC00 ≤ n ∧ n ≤ 0xDFFF := by
  simp only [isLow, Bool.and_eq_true, decide_eq_true_eq, UInt16.le_iff_toNat_le, toNat_ofNat_of_lt h]
  rfl

/-- A character is no surrogate, and at most `0x10FFFF`. -/
theorem toNat_valid (c : Char) : c.toNat < 0xD800 ∨ (0xDFFF < c.toNat ∧ c.toNat < 0x110000) := c.valid

theorem chars?_encode_append (c : Char) (us : List UInt16) :
    chars? (encode c ++ us) = (chars? us).map (c :: ·) := by
  have hvalid := toNat_valid c
  unfold encode
  by_cases hnarrow : c.toNat < 0x10000
  · have hhigh : ¬ isHigh (UInt16.ofNat c.toNat) = true := by
      rw [isHigh_ofNat hnarrow]
      omega
    have hlow : ¬ isLow (UInt16.ofNat c.toNat) = true := by
      rw [isLow_ofNat hnarrow]
      omega
    rw [if_pos hnarrow, List.singleton_append, chars?.eq_def]
    simp only
    rw [if_neg hhigh, if_neg hlow, toNat_ofNat_of_lt hnarrow, Char.ofNat_toNat]
  · -- The pair counts the characters from `0x10000` on.
    obtain ⟨x, y, hy, hc⟩ : ∃ x y, y < 0x400 ∧ c.toNat = 0x10000 + (x * 0x400 + y) :=
      ⟨(c.toNat - 0x10000) / 0x400, (c.toNat - 0x10000) % 0x400, Nat.mod_lt _ (by decide), by omega⟩
    have hx : (c.toNat - 0x10000) / 0x400 = x := by omega
    have hmod : (c.toNat - 0x10000) % 0x400 = y := by omega
    have hhigh : isHigh (UInt16.ofNat (0xD800 + x)) = true := (isHigh_ofNat (by omega)).mpr (by omega)
    have hlow : isLow (UInt16.ofNat (0xDC00 + y)) = true := (isLow_ofNat (by omega)).mpr (by omega)
    rw [if_neg hnarrow, hx, hmod, List.cons_append, List.singleton_append]
    simp only [chars?]
    rw [if_pos hhigh, if_pos hlow, toNat_ofNat_of_lt (by omega), toNat_ofNat_of_lt (by omega)]
    have hback : 0x10000 + ((0xD800 + x - 0xD800) * 0x400 + (0xDC00 + y - 0xDC00)) = c.toNat := by
      rw [hc, Nat.add_sub_cancel_left, Nat.add_sub_cancel_left]
    rw [hback, Char.ofNat_toNat]

/-- A text is what its units are read as. -/
@[simp] theorem chars?_units (text : List Char) : chars? (units text) = some text := by
  induction text with
  | nil => rfl
  | cons c text ih =>
    show chars? (encode c ++ units text) = _
    rw [chars?_encode_append, ih, Option.map_some]

end Program.Utf16
