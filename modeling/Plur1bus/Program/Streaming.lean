import Plur1bus.Program.Lossy

/-!
A decoder of UTF-8 text that gets its bytes a piece at a time. A character that a piece ends in is
kept until the bytes that finish it are there, and a byte order mark at the start of the text is no
part of it. Whatever the pieces are, the text that comes out is the one that went in.
-/

namespace Program.Utf8

open List

/-- The bytes of a character that is begun and not finished. -/
def isBegun : List UInt8 → Bool
  | [b] => 0xC2 ≤ b && b ≤ 0xF4
  | [b, c] => leadsThree b c || leadsFour b c
  | [b, c, d] => leadsFour b c && isContinuation d
  | _ => false

def charsFrom : ℕ → List UInt8 → List Char × List UInt8
  | 0, bs => ([], bs)
  | n + 1, bs =>
    match nextChar? bs with
    | some (c, r) => (c :: (charsFrom n r).1, (charsFrom n r).2)
    | none => ([], bs)

/-- The characters that can be read, and the bytes that are left. -/
def chars (bs : List UInt8) : List Char × List UInt8 := charsFrom bs.length bs

def byteOrderMark : Char := Char.ofNat 0xFEFF

def withoutMark (cs : List Char) : List Char := if cs.head? = some byteOrderMark then cs.tail else cs

/-- `TextDecoder` that fails on what is no text. -/
structure Decoder where
  pending : List UInt8 := []
  /-- A character has been read. -/
  begun : Bool := false
  deriving DecidableEq, Repr

/-- `decode`. None when it throws. -/
def Decoder.decode (d : Decoder) (chunk : List UInt8) (stream : Bool) : Option (List Char × Decoder) :=
  let (cs, left) := chars (d.pending ++ chunk)
  if left = [] ∨ (stream ∧ isBegun left) then
    some (if d.begun then cs else withoutMark cs, if stream then ⟨left, d.begun || !cs.isEmpty⟩ else {})
  else none

/-! ### Reading characters -/

theorem nextChar?_encode_append (c : Char) (bs : List UInt8) :
    nextChar? (String.utf8EncodeChar c ++ bs) = some (c, bs) := by
  have hlen : (String.utf8EncodeChar c).length = c.utf8Size := String.length_utf8EncodeChar c
  rw [nextChar?, toByteArray_append, ByteArray.utf8DecodeChar?_utf8EncodeChar_append, Option.map_some,
    drop_left' hlen]

theorem nextChar?_nil : nextChar? [] = none := rfl

variable {ds cs : List Char} {p : List UInt8}

/-- Two texts that begin with the same characters. -/
theorem bytes_cancel (h : bytes ds ++ p = bytes cs) : ∃ es, cs = ds ++ es ∧ p = bytes es := by
  induction ds generalizing cs with
  | nil => exact ⟨cs, rfl, h⟩
  | cons d ds ih =>
    rw [bytes_cons, append_assoc] at h
    cases cs with
    | nil =>
      have hnil := (append_eq_nil_iff.mp h).1
      exact absurd hnil (encode_ne_nil d)
    | cons c cs =>
      have hnext := nextChar?_encode_append d (bytes ds ++ p)
      rw [h, nextChar?_bytes_cons] at hnext
      obtain ⟨rfl, hrest⟩ := Prod.mk.inj (Option.some.inj hnext)
      obtain ⟨es, rfl, hp⟩ := ih hrest.symm
      exact ⟨es, rfl, hp⟩

variable {left : List UInt8}

theorem charsFrom_append {n : ℕ} (hn : cs.length ≤ n) (hleft : nextChar? left = none) :
    charsFrom n (bytes cs ++ left) = (cs, left) := by
  induction cs generalizing n with
  | nil =>
    cases n with
    | zero => rfl
    | succ n => rw [charsFrom, bytes_nil, nil_append, hleft]
  | cons c cs ih =>
    cases n with
    | zero => cases hn
    | succ n =>
      have hrest := ih (Nat.le_of_succ_le_succ hn)
      rw [charsFrom, bytes_cons, append_assoc, nextChar?_encode_append]
      dsimp only
      rw [hrest]

theorem length_le_bytes (cs : List Char) : cs.length ≤ (bytes cs).length := by
  induction cs with
  | nil => exact Nat.le_refl 0
  | cons c cs ih =>
    have hpos := length_pos_iff.mpr (encode_ne_nil c)
    rw [bytes_cons, length_append, length_cons]
    omega

theorem chars_append (hleft : nextChar? left = none) : chars (bytes cs ++ left) = (cs, left) := by
  have hlen := length_le_bytes cs
  apply charsFrom_append _ hleft
  rw [length_append]
  omega

theorem isBegun_part {c : Char} {k : ℕ} (hpos : 0 < k) (hk : k < c.utf8Size) :
    isBegun ((String.utf8EncodeChar c).take k) = true := by
  have hv : c.val.toNat = c.toNat := rfl
  have hvalid : c.toNat.isValidChar := c.valid
  rw [← String.length_utf8EncodeChar c] at hk
  unfold String.utf8EncodeChar at hk ⊢
  simp only [hv] at hk ⊢
  split at hk
  · simp at hk
    omega
  split at hk
  · -- One byte of two.
    rename_i hascii htwo
    obtain rfl : k = 1 := by
      simp at hk
      omega
    rw [if_neg hascii, if_pos htwo]
    simp only [take_succ_cons, take_zero, isBegun, Bool.and_eq_true, decide_eq_true_eq,
      UInt8.le_iff_toNat_le, UInt8.toNat_ofNat', UInt8.reduceToNat]
    omega
  split at hk
  · -- One or two bytes of three.
    rename_i hascii htwo hthree
    have hlead := leadsThree_encode (by omega) hthree hvalid
    rw [if_neg hascii, if_neg htwo, if_pos hthree]
    obtain rfl | rfl : k = 1 ∨ k = 2 := by
      simp at hk
      omega
    · simp only [take_succ_cons, take_zero, isBegun, Bool.and_eq_true, decide_eq_true_eq,
        UInt8.le_iff_toNat_le, UInt8.toNat_ofNat', UInt8.reduceToNat]
      omega
    · simp only [take_succ_cons, take_zero, isBegun, hlead, Bool.true_or]
  · rename_i hascii htwo hthree
    have hmax : c.toNat < 0x110000 := by
      unfold Nat.isValidChar at hvalid
      omega
    have hlead := (leadsFour_encode (v := c.toNat) (by omega) hmax).1
    have hcont := isContinuation_encode (c.toNat / 64)
    rw [if_neg hascii, if_neg htwo, if_neg hthree]
    obtain rfl | rfl | rfl : k = 1 ∨ k = 2 ∨ k = 3 := by
      simp at hk
      omega
    · simp only [take_succ_cons, take_zero, isBegun, Bool.and_eq_true, decide_eq_true_eq,
        UInt8.le_iff_toNat_le, UInt8.toNat_ofNat', UInt8.reduceToNat]
      omega
    · simp only [take_succ_cons, take_zero, isBegun, hlead, Bool.or_true]
    · simp only [take_succ_cons, take_zero, isBegun, hlead, hcont, Bool.and_self]

/-- A text that is cut off is whole characters, and possibly one that is begun. -/
theorem cut_text {rest : List UInt8} (h : p ++ rest = bytes cs) :
    ∃ es left, p = bytes es ++ left ∧ nextChar? left = none ∧ (left = [] ∨ isBegun left = true) := by
  induction cs generalizing p with
  | nil =>
    obtain ⟨rfl, -⟩ := append_eq_nil_iff.mp h
    exact ⟨[], [], rfl, nextChar?_nil, .inl rfl⟩
  | cons c cs ih =>
    rw [bytes_cons] at h
    have hlen := String.length_utf8EncodeChar c
    obtain hpart | hwhole := Nat.lt_or_ge p.length c.utf8Size
    · have hp : p = (String.utf8EncodeChar c).take p.length := by
        have htake := congrArg (List.take p.length) h
        rwa [take_left, take_append_of_le_length (by omega)] at htake
      refine ⟨[], p, rfl, ?_, ?_⟩
      · rw [hp]
        exact nextChar?_part hpart
      · obtain hzero | hpos := Nat.eq_zero_or_pos p.length
        · exact .inl (eq_nil_of_length_eq_zero hzero)
        · rw [hp]
          exact .inr (isBegun_part hpos hpart)
    · obtain ⟨q, rfl⟩ : ∃ q, p = String.utf8EncodeChar c ++ q := by
        have hfirst := prefix_of_prefix_length_le (prefix_append _ _) (h ▸ prefix_append p rest)
          (hlen.trans_le hwhole)
        exact hfirst.imp fun _ => Eq.symm
      rw [append_assoc] at h
      obtain ⟨es, left, rfl, hnone, hleft⟩ := ih (append_cancel_left h)
      exact ⟨c :: es, left, by rw [bytes_cons, append_assoc], hnone, hleft⟩

/-! ### Decoding -/

theorem withoutMark_append (hds : ds ≠ []) (es : List Char) :
    withoutMark (ds ++ es) = withoutMark ds ++ es := by
  obtain ⟨d, ds, rfl⟩ := exists_cons_of_ne_nil hds
  unfold withoutMark
  rw [cons_append, List.head?_cons, List.head?_cons]
  split
  · rfl
  · rfl

variable {d : Decoder}

/-- A piece of a text: the characters that it finishes come out. -/
theorem Decoder.decode_piece {chunk rest : List UInt8} (hd : d.begun = !ds.isEmpty)
    (h : bytes ds ++ (d.pending ++ (chunk ++ rest)) = bytes cs) :
    ∃ es text d', d.decode chunk true = some (text, d') ∧ d'.begun = !(ds ++ es).isEmpty ∧
      withoutMark (ds ++ es) = withoutMark ds ++ text ∧ bytes (ds ++ es) ++ (d'.pending ++ rest) = bytes cs := by
  obtain ⟨fs, rfl, hrest⟩ := bytes_cancel h
  rw [← append_assoc] at hrest
  obtain ⟨es, left, hread, hnone, hleft⟩ := cut_text hrest
  have hchars : chars (d.pending ++ chunk) = (es, left) := by
    rw [hread]
    exact chars_append hnone
  have hok : left = [] ∨ ((true : Bool) = true ∧ isBegun left = true) := hleft.imp id fun hb => ⟨rfl, hb⟩
  refine ⟨es, if d.begun then es else withoutMark es, ⟨left, d.begun || !es.isEmpty⟩, ?_, ?_, ?_, ?_⟩
  · unfold Decoder.decode
    rw [hchars]
    dsimp only
    rw [if_pos hok, if_pos rfl]
  · rw [hd]
    cases ds with
    | nil => rfl
    | cons c ds => rfl
  · cases ds with
    | nil =>
      rw [hd]
      rfl
    | cons c ds =>
      rw [withoutMark_append (cons_ne_nil c ds), hd]
      rfl
  · rw [bytes_append, append_assoc, ← append_assoc (bytes es), ← hread, hrest, bytes_append]

/-- At the end of the text nothing is left. -/
theorem Decoder.decode_end (hd : d.begun = !ds.isEmpty) (h : bytes ds ++ d.pending = bytes cs) :
    ∃ text d', d.decode [] false = some (text, d') ∧ withoutMark cs = withoutMark ds ++ text := by
  obtain ⟨es, rfl, hrest⟩ := bytes_cancel h
  have hchars : chars (d.pending ++ []) = (es, []) := by
    have hread : chars (bytes es ++ []) = (es, []) := chars_append nextChar?_nil
    rw [append_nil] at hread ⊢
    rw [hrest, hread]
  refine ⟨if d.begun then es else withoutMark es, {}, ?_, ?_⟩
  · unfold Decoder.decode
    rw [hchars]
    rfl
  · cases ds with
    | nil =>
      rw [hd]
      rfl
    | cons c ds =>
      rw [withoutMark_append (cons_ne_nil c ds), hd]
      rfl

end Program.Utf8
