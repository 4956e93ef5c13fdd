import Plur1bus.Program.Utf8

/-!
Bytes that may not be text. `lossy` reads characters as long as it can and puts
one replacement character in place of the bytes at which it cannot: a single byte,
or the bytes of a character that is begun and not finished. Of a text that is cut
off somewhere it reads a beginning, and one replacement character if the cut is
inside a character.
-/

namespace Program.Utf8

open List Bool

def isContinuation (b : UInt8) : Bool := 0x80 ≤ b && b < 0xC0

/-- The first two bytes of a character of three. -/
def leadsThree (b c : UInt8) : Bool :=
  (b = 0xE0 && 0xA0 ≤ c && c ≤ 0xBF) || (0xE1 ≤ b && b ≤ 0xEC && isContinuation c) ||
    (b = 0xED && 0x80 ≤ c && c ≤ 0x9F) || (0xEE ≤ b && b ≤ 0xEF && isContinuation c)

/-- The first two bytes of a character of four. -/
def leadsFour (b c : UInt8) : Bool :=
  (b = 0xF0 && 0x90 ≤ c && c ≤ 0xBF) || (0xF1 ≤ b && b ≤ 0xF3 && isContinuation c) ||
    (b = 0xF4 && 0x80 ≤ c && c ≤ 0x8F)

/-- How many bytes one replacement character stands for, where no character is. -/
def invalidLength (rest : List UInt8) : ℕ :=
  if leadsThree (rest.getD 0 0) (rest.getD 1 0) then 2
  else if leadsFour (rest.getD 0 0) (rest.getD 1 0) then
    if isContinuation (rest.getD 2 0) then 3 else 2
  else 1

/-- `U+FFFD`. -/
def replacement : Char := Char.ofNat 0xFFFD

def lossyFrom : ℕ → List UInt8 → List Char
  | 0, _ => []
  | _ + 1, [] => []
  | n + 1, b :: rest =>
    match nextChar? (b :: rest) with
    | some (c, r) => c :: lossyFrom n r
    | none => replacement :: lossyFrom n ((b :: rest).drop (invalidLength (b :: rest)))

/-- `String::from_utf8_lossy`. -/
def lossy (bs : List UInt8) : List Char := lossyFrom bs.length bs

theorem invalidLength_pos (rest : List UInt8) : 0 < invalidLength rest := by
  unfold invalidLength
  split
  · decide
  · split
    · split <;> decide
    · decide

variable {c : Char}

theorem nextChar?_length {rest r : List UInt8} (hne : rest ≠ []) (h : nextChar? rest = some (c, r)) :
    r.length < rest.length := by
  unfold nextChar? at h
  obtain ⟨c', -, hc⟩ := Option.map_eq_some_iff.mp h
  obtain ⟨rfl, rfl⟩ := Prod.mk.inj hc
  have hpos := length_pos_iff.mpr hne
  have hsize := Char.utf8Size_pos c'
  rw [length_drop]
  omega

variable {bs : List UInt8}

/-- The bound on the rounds does not matter once it is the length. -/
theorem lossyFrom_eq {n m : ℕ} (hn : bs.length ≤ n) (hm : bs.length ≤ m) :
    lossyFrom n bs = lossyFrom m bs := by
  induction n generalizing m bs with
  | zero =>
    obtain rfl := length_eq_zero_iff.mp (Nat.le_zero.mp hn)
    cases m <;> rfl
  | succ n ih =>
    cases bs with
    | nil => cases m <;> rfl
    | cons b rest =>
      obtain ⟨m, rfl⟩ : ∃ k, m = k + 1 := ⟨m - 1, by simp at hm; omega⟩
      unfold lossyFrom
      split
      · rename_i c r hnext
        have hlt := nextChar?_length (cons_ne_nil b rest) hnext
        rw [ih (m := m) (by omega) (by omega)]
      · have hpos := invalidLength_pos (b :: rest)
        have hlt : ((b :: rest).drop (invalidLength (b :: rest))).length < (b :: rest).length := by
          rw [length_drop]
          simp only [length_cons]
          omega
        rw [ih (m := m) (by omega) (by omega)]

theorem lossy_char (c : Char) (bs : List UInt8) :
    lossy (String.utf8EncodeChar c ++ bs) = c :: lossy bs := by
  obtain ⟨b, t, ht⟩ := exists_cons_of_ne_nil (encode_ne_nil c)
  have hnext : nextChar? (String.utf8EncodeChar c ++ bs) = some (c, bs) := by
    unfold nextChar?
    rw [toByteArray_append, ByteArray.utf8DecodeChar?_utf8EncodeChar_append, Option.map_some,
      drop_left' (String.length_utf8EncodeChar c)]
  unfold lossy
  rw [ht, cons_append] at hnext ⊢
  rw [length_cons]
  simp only [lossyFrom, hnext]
  rw [lossyFrom_eq (m := bs.length) (by simp) (Nat.le_refl _)]

theorem lossy_bytes_append (cs : List Char) (bs : List UInt8) :
    lossy (bytes cs ++ bs) = cs ++ lossy bs := by
  induction cs with
  | nil => rfl
  | cons c cs ih => rw [bytes_cons, append_assoc, lossy_char, ih, cons_append]

@[simp] theorem lossy_nil : lossy [] = [] := rfl

@[simp] theorem lossy_bytes (cs : List Char) : lossy (bytes cs) = cs := by
  have h := lossy_bytes_append cs []
  rwa [append_nil, lossy_nil, append_nil] at h

/-! ### A text that is cut off -/

variable {k : ℕ}

/-- Part of a character is none. -/
theorem nextChar?_part (hk : k < c.utf8Size) : nextChar? ((String.utf8EncodeChar c).take k) = none := by
  cases hnext : nextChar? ((String.utf8EncodeChar c).take k) with
  | none => rfl
  | some x =>
    unfold nextChar? at hnext
    obtain ⟨c', hdecode, -⟩ := Option.map_eq_some_iff.mp hnext
    have hsize := ByteArray.le_size_of_utf8DecodeChar?_eq_some hdecode
    have hwhole := ByteArray.utf8DecodeChar?_append_eq_some hdecode
      ((String.utf8EncodeChar c).drop k).toByteArray
    have hchar := ByteArray.utf8DecodeChar?_utf8EncodeChar_append (b := ByteArray.empty) (c := c)
    rw [← toByteArray_append, take_append_drop] at hwhole
    rw [ByteArray.append_empty, hwhole] at hchar
    cases hchar
    simp at hsize
    omega

theorem leadsThree_encode {v : ℕ} (hlow : 0x7FF < v) (hhigh : v ≤ 0xFFFF) (hvalid : v.isValidChar) :
    leadsThree (UInt8.ofNat (v / 4096 % 16 + 0xE0)) (UInt8.ofNat (v / 64 % 64 + 0x80)) = true := by
  unfold Nat.isValidChar at hvalid
  simp only [leadsThree, isContinuation, or_eq_true, and_eq_true, decide_eq_true_eq,
    ← UInt8.toNat_inj, UInt8.le_iff_toNat_le, UInt8.lt_iff_toNat_lt, UInt8.toNat_ofNat',
    UInt8.reduceToNat]
  omega

theorem leadsFour_encode {v : ℕ} (hlow : 0xFFFF < v) (hhigh : v < 0x110000) :
    leadsFour (UInt8.ofNat (v / 262144 % 8 + 0xF0)) (UInt8.ofNat (v / 4096 % 64 + 0x80)) = true ∧
      leadsThree (UInt8.ofNat (v / 262144 % 8 + 0xF0)) (UInt8.ofNat (v / 4096 % 64 + 0x80)) = false := by
  constructor
  · simp only [leadsFour, isContinuation, or_eq_true, and_eq_true, decide_eq_true_eq,
      ← UInt8.toNat_inj, UInt8.le_iff_toNat_le, UInt8.lt_iff_toNat_lt, UInt8.toNat_ofNat',
      UInt8.reduceToNat]
    omega
  · simp only [leadsThree, or_eq_false_iff, and_eq_false_iff, decide_eq_false_iff_not,
      ← UInt8.toNat_inj, UInt8.le_iff_toNat_le, UInt8.toNat_ofNat', UInt8.reduceToNat]
    omega

theorem isContinuation_encode (v : ℕ) : isContinuation (UInt8.ofNat (v % 64 + 0x80)) = true := by
  simp only [isContinuation, and_eq_true, decide_eq_true_eq, UInt8.le_iff_toNat_le,
    UInt8.lt_iff_toNat_lt, UInt8.toNat_ofNat', UInt8.reduceToNat]
  omega

/-- The bytes of a character that is begun and not finished are replaced at once. -/
theorem le_invalidLength (hk : k < c.utf8Size) : k ≤ invalidLength ((String.utf8EncodeChar c).take k) := by
  have hv : c.val.toNat = c.toNat := rfl
  have hvalid : c.toNat.isValidChar := c.valid
  have hpos := invalidLength_pos ((String.utf8EncodeChar c).take k)
  rw [← String.length_utf8EncodeChar c] at hk
  obtain hone | hmore := Nat.lt_or_ge k 2
  · omega
  unfold String.utf8EncodeChar at hk ⊢
  simp only [hv] at hk ⊢
  split at hk
  · simp at hk
    omega
  split at hk
  · simp at hk
    omega
  split at hk
  · -- Two bytes of three.
    rename_i hascii htwo hthree
    obtain rfl : k = 2 := by
      simp at hk
      omega
    have hlead := leadsThree_encode (by omega) hthree hvalid
    rw [if_neg hascii, if_neg htwo, if_pos hthree]
    simp only [invalidLength, take_succ_cons, take_zero, getD_cons_zero,
      getD_cons_succ, hlead, if_true, le_refl]
  · rename_i hascii htwo hthree
    rw [if_neg hascii, if_neg htwo, if_neg hthree]
    obtain ⟨hlead, hnot⟩ := leadsFour_encode (v := c.toNat) (by omega) (by
      unfold Nat.isValidChar at hvalid
      omega)
    have hcont := isContinuation_encode (c.toNat / 64)
    obtain rfl | rfl : k = 2 ∨ k = 3 := by
      simp at hk
      omega
    · simp only [invalidLength, take_succ_cons, take_zero, getD_cons_zero, getD_cons_succ, hlead, hnot]
      simp
      split <;> omega
    · simp only [invalidLength, take_succ_cons, take_zero, getD_cons_zero,
        getD_cons_succ, hlead, hnot, hcont]
      simp

theorem lossy_part (hpos : 0 < k) (hk : k < c.utf8Size) :
    lossy ((String.utf8EncodeChar c).take k) = [replacement] := by
  have hnext := nextChar?_part hk
  have hle := le_invalidLength hk
  have hlen : ((String.utf8EncodeChar c).take k).length = k := by
    rw [length_take, String.length_utf8EncodeChar]
    omega
  obtain ⟨b, t, ht⟩ := exists_cons_of_ne_nil (ne_nil_of_length_pos (hlen.symm ▸ hpos))
  rw [ht] at hnext hle hlen ⊢
  unfold lossy
  rw [length_cons]
  simp only [lossyFrom, hnext, drop_eq_nil_of_le (hlen.trans_le hle)]
  cases t.length <;> rfl

/-- What is read of a text that is cut off. -/
theorem lossy_cut {cs : List Char} (h : bs <+: bytes cs) : ∃ p, p <+: cs ∧ ((bs = bytes p ∧ lossy bs = p) ∨
      (p ≠ cs ∧ lossy bs = p ++ [replacement])) := by
  induction cs generalizing bs with
  | nil =>
    obtain rfl := prefix_nil.mp h
    exact ⟨[], prefix_rfl, .inl ⟨rfl, rfl⟩⟩
  | cons c cs ih =>
    rw [bytes_cons] at h
    have hlen := String.length_utf8EncodeChar c
    obtain hpart | hwhole := Nat.lt_or_ge bs.length c.utf8Size
    · have hbs : bs = (String.utf8EncodeChar c).take bs.length := by
        have htake := prefix_iff_eq_take.mp h
        rwa [take_append_of_le_length (by omega)] at htake
      obtain hzero | hpos := Nat.eq_zero_or_pos bs.length
      · obtain rfl := length_eq_zero_iff.mp hzero
        exact ⟨[], List.nil_prefix, .inl ⟨rfl, rfl⟩⟩
      · refine ⟨[], List.nil_prefix, .inr ⟨(cons_ne_nil c cs).symm, ?_⟩⟩
        rw [hbs, lossy_part hpos hpart]
        rfl
    · obtain ⟨rest, rfl⟩ : ∃ rest, bs = String.utf8EncodeChar c ++ rest := by
        have hfirst := prefix_of_prefix_length_le (prefix_append _ _) h
          (hlen.trans_le hwhole)
        exact hfirst.imp fun _ => Eq.symm
      obtain ⟨p, hp, hcases⟩ := ih ((prefix_append_right_inj _).mp h)
      refine ⟨c :: p, cons_prefix_cons.mpr ⟨rfl, hp⟩, ?_⟩
      rw [lossy_char]
      obtain ⟨rfl, hread⟩ | ⟨hne, hread⟩ := hcases
      · exact .inl ⟨rfl, by rw [hread]⟩
      · exact .inr ⟨fun heq => hne (List.cons.inj heq).2, by rw [hread]; rfl⟩

end Program.Utf8
