import Mathlib.Data.List.TakeWhile
import Mathlib.Data.Nat.Notation
import Mathlib.Tactic.Common

/-!
Text as the bytes of its characters. A program that reads UTF-8 text byte by byte
stands between two characters as long as it takes whole characters, and a byte
below `0x80` is a character of its own wherever it stands there.
-/

namespace Program.Utf8

open List

/-- The bytes of a text. -/
def bytes (cs : List Char) : List UInt8 := cs.flatMap String.utf8EncodeChar

@[simp] theorem bytes_nil : bytes [] = [] := rfl

theorem bytes_cons (c : Char) (cs : List Char) :
    bytes (c :: cs) = String.utf8EncodeChar c ++ bytes cs := rfl

@[simp] theorem bytes_append (cs ds : List Char) : bytes (cs ++ ds) = bytes cs ++ bytes ds := flatMap_append

/-- The first character of the rest of a text, and what follows it; nothing where
the rest begins inside a character. -/
def nextChar? (rest : List UInt8) : Option (Char × List UInt8) :=
  (rest.toByteArray.utf8DecodeChar? 0).map fun c => (c, rest.drop c.utf8Size)

@[simp] theorem nextChar?_bytes_cons (c : Char) (cs : List Char) :
    nextChar? (bytes (c :: cs)) = some (c, bytes cs) := by
  unfold nextChar?
  rw [bytes_cons, toByteArray_append, ByteArray.utf8DecodeChar?_utf8EncodeChar_append]
  have hlen : (String.utf8EncodeChar c).length = c.utf8Size := String.length_utf8EncodeChar c
  rw [Option.map_some, drop_left' hlen]

/-- The number of a character made from a number. -/
theorem toNat_ofNat {n : ℕ} (h : n.isValidChar) : (Char.ofNat n).toNat = n := by
  unfold Char.ofNat
  rw [dif_pos h]
  rfl

/-! ### Bytes below `0x80` -/

variable {c : Char}

theorem encode_ascii (h : c.toNat < 128) : String.utf8EncodeChar c = [UInt8.ofNat c.toNat] := by
  have hle : c.val.toNat ≤ 127 := by
    have : c.val.toNat = c.toNat := rfl
    omega
  unfold String.utf8EncodeChar
  rw [if_pos hle]
  rfl

/-- Every byte of a character that is not ASCII is at least `0x80`. -/
theorem encode_wide (h : 128 ≤ c.toNat) : ∀ b ∈ String.utf8EncodeChar c, 128 ≤ b.toNat := by
  have hv : c.val.toNat = c.toNat := rfl
  unfold String.utf8EncodeChar
  intro b hb
  simp only at hb
  rw [if_neg (by omega)] at hb
  split at hb
  · simp only [mem_cons, not_mem_nil, or_false] at hb
    obtain rfl | rfl := hb <;> simp only [UInt8.toNat_ofNat'] <;> omega
  · split at hb
    · simp only [mem_cons, not_mem_nil, or_false] at hb
      obtain rfl | rfl | rfl := hb <;> simp only [UInt8.toNat_ofNat'] <;> omega
    · simp only [mem_cons, not_mem_nil, or_false] at hb
      obtain rfl | rfl | rfl | rfl := hb <;> simp only [UInt8.toNat_ofNat'] <;> omega

theorem encode_ne_nil (c : Char) : String.utf8EncodeChar c ≠ [] := by
  have hlen := String.length_utf8EncodeChar c
  have hpos := Char.utf8Size_pos c
  intro h
  rw [h] at hlen
  simp at hlen
  omega

theorem length_bytes_lt (cs : List Char) (c : Char) (ds : List Char) :
    (bytes ds).length < (bytes (cs ++ c :: ds)).length := by
  have hpos := length_pos_iff.mpr (encode_ne_nil c)
  rw [bytes_append, bytes_cons, length_append, length_append]
  omega

variable {cs : List Char} {t : List UInt8}

/-- The rest of a text that begins with a byte below `0x80` begins with the
character of that number. -/
theorem bytes_eq_cons {b : UInt8} (h : bytes cs = b :: t) :
    ∃ c ds, cs = c :: ds ∧ ((c.toNat < 128 ∧ b = UInt8.ofNat c.toNat ∧ t = bytes ds) ∨
      (128 ≤ c.toNat ∧ 128 ≤ b.toNat)) := by
  cases cs with
  | nil => simp at h
  | cons c ds =>
    refine ⟨c, ds, rfl, ?_⟩
    rw [bytes_cons] at h
    by_cases hc : c.toNat < 128
    · rw [encode_ascii hc] at h
      obtain ⟨rfl, rfl⟩ := List.cons.inj h
      exact .inl ⟨hc, rfl, rfl⟩
    · have hwide : 128 ≤ c.toNat := by omega
      refine .inr ⟨hwide, encode_wide hwide b ?_⟩
      obtain ⟨b', t', ht⟩ := exists_cons_of_ne_nil (encode_ne_nil c)
      rw [ht] at h ⊢
      obtain ⟨rfl, -⟩ := List.cons.inj h
      exact mem_cons_self

theorem bytes_eq_append {ws : List Char} (hws : ∀ c ∈ ws, c.toNat < 128) (h : bytes cs = bytes ws ++ t) :
    ∃ ds, cs = ws ++ ds ∧ t = bytes ds := by
  induction ws generalizing cs with
  | nil => exact ⟨cs, rfl, h.symm⟩
  | cons c ws ih =>
    have hc := hws c mem_cons_self
    rw [bytes_cons, encode_ascii hc] at h
    obtain ⟨d, ds, rfl, ⟨hd, hb, ht⟩ | ⟨-, hwide⟩⟩ := bytes_eq_cons h
    · obtain ⟨es, rfl, rfl⟩ := ih (fun x hx => hws x (mem_cons_of_mem _ hx)) ht.symm
      have hcd : c = d := by
        have hnat := congrArg UInt8.toNat hb
        rw [UInt8.toNat_ofNat', UInt8.toNat_ofNat', Nat.mod_eq_of_lt (by omega),
          Nat.mod_eq_of_lt (by omega)] at hnat
        exact Char.toNat_inj.mp hnat
      exact ⟨es, by rw [hcd]; rfl, rfl⟩
    · rw [UInt8.toNat_ofNat'] at hwide
      omega

theorem bytes_eq_nil (h : bytes cs = []) : cs = [] := by
  cases cs with
  | nil => rfl
  | cons c ds =>
    rw [bytes_cons] at h
    exact absurd (append_eq_nil_iff.mp h).1 (encode_ne_nil c)

@[simp] theorem bytes_eq_nil_iff : bytes cs = [] ↔ cs = [] := ⟨bytes_eq_nil, fun h => by rw [h, bytes_nil]⟩

/-- What holds of each character of a short text, by evaluation. -/
theorem forall_mem_of_all {P : Char → Prop} [DecidablePred P]
    (h : (cs.all fun c => decide (P c)) = true) : ∀ c ∈ cs, P c := by
  intro c hc
  exact of_decide_eq_true (List.all_eq_true.mp h c hc)

/-! ### Looking at the next byte -/

/-- The next byte exists and is of this kind. -/
def nextIs (p : UInt8 → Bool) (rest : List UInt8) : Bool := rest.head?.any p

/-- A kind of bytes below `0x80` is a kind of characters. -/
structure Ascii (p : UInt8 → Bool) (q : Char → Bool) : Prop where
  ascii : ∀ n < 128, p (UInt8.ofNat n) = q (Char.ofNat n)
  byte : ∀ n < 256, 128 ≤ n → p (UInt8.ofNat n) = false
  wide : ∀ c : Char, q c = true → c.toNat < 128

namespace Ascii

variable {p : UInt8 → Bool} {q : Char → Bool} {cs : List Char}

theorem nextIs_cons (h : Ascii p q) (c : Char) (cs : List Char) : nextIs p (bytes (c :: cs)) = q c := by
  by_cases hc : c.toNat < 128
  · rw [bytes_cons, encode_ascii hc]
    have := h.ascii c.toNat hc
    rw [Char.ofNat_toNat] at this
    exact this
  · obtain ⟨b, t, ht⟩ := exists_cons_of_ne_nil (encode_ne_nil c)
    have hwide : 128 ≤ c.toNat := by omega
    have hb : 128 ≤ b.toNat := encode_wide hwide b (by rw [ht]; exact mem_cons_self)
    have hp := h.byte b.toNat b.toNat_lt hb
    rw [UInt8.ofNat_toNat] at hp
    have hq : q c = false := by
      rw [← Bool.not_eq_true]
      exact fun hq => hc (h.wide c hq)
    rw [bytes_cons, ht, hq]
    exact hp

@[simp] theorem nextIs_nil : nextIs p (bytes []) = false := rfl

theorem tail_cons {c : Char} (h : c.toNat < 128) (cs : List Char) : (bytes (c :: cs)).tail = bytes cs := by
  rw [bytes_cons, encode_ascii h]
  rfl

/-- A byte of the kind is a character of the kind. -/
theorem next (h : Ascii p q) (hn : nextIs p (bytes cs) = true) :
    ∃ c ds, cs = c :: ds ∧ q c = true ∧ (bytes cs).tail = bytes ds := by
  cases cs with
  | nil => cases hn
  | cons c ds =>
    rw [h.nextIs_cons] at hn
    exact ⟨c, ds, rfl, hn, tail_cons (h.wide c hn) ds⟩

theorem not_next (h : Ascii p q) (hn : nextIs p (bytes cs) = false) : ∀ c ∈ cs.head?, q c = false := by
  cases cs with
  | nil => exact nofun
  | cons c ds =>
    rw [h.nextIs_cons] at hn
    rintro c' ⟨⟩
    exact hn

theorem dropWhile (h : Ascii p q) (cs : List Char) : (bytes cs).dropWhile p = bytes (cs.dropWhile q) := by
  induction cs with
  | nil => rfl
  | cons c cs ih =>
    have hnext := h.nextIs_cons c cs
    by_cases hq : q c = true
    · have hc := h.wide c hq
      rw [dropWhile_cons_of_pos hq, ← ih]
      rw [bytes_cons, encode_ascii hc] at hnext ⊢
      exact dropWhile_cons_of_pos (hnext.trans hq)
    · rw [dropWhile_cons_of_neg hq]
      obtain ⟨b, t, ht⟩ := exists_cons_of_ne_nil (encode_ne_nil c)
      rw [bytes_cons, ht] at hnext ⊢
      refine dropWhile_cons_of_neg ?_
      rw [show p b = q c from hnext]
      exact hq

/-- A kind is decided by the number of the byte or the character. -/
theorem of_nat {f : ℕ → Bool} (hp : ∀ b : UInt8, p b = f b.toNat) (hq : ∀ c : Char, q c = f c.toNat)
    (hf : ∀ n, f n = true → n < 128) : Ascii p q := by
  refine ⟨fun n hn => ?_, fun n hn hwide => ?_, fun c hc => hf _ (hq c ▸ hc)⟩
  · rw [hp, hq, UInt8.toNat_ofNat', Nat.mod_eq_of_lt (by omega), toNat_ofNat (.inl (by omega))]
  · rw [hp, UInt8.toNat_ofNat', Nat.mod_eq_of_lt hn, ← Bool.not_eq_true]
    intro h
    have hlt := hf n h
    omega

theorem or {p' : UInt8 → Bool} {q' : Char → Bool} (h : Ascii p q) (h' : Ascii p' q') :
    Ascii (fun b => p b || p' b) (fun c => q c || q' c) := by
  refine ⟨fun n hn => ?_, fun n hn hwide => ?_, fun c hc => ?_⟩
  · rw [h.ascii n hn, h'.ascii n hn]
  · rw [h.byte n hn hwide, h'.byte n hn hwide]
    rfl
  · obtain hc | hc := Bool.or_eq_true_iff.mp hc
    · exact h.wide c hc
    · exact h'.wide c hc

/-- The characters between two. -/
theorem range (lo hi : UInt8) (hhi : hi.toNat < 128) :
    Ascii (fun b => lo ≤ b && b ≤ hi) (fun c => lo.toNat ≤ c.toNat && c.toNat ≤ hi.toNat) := by
  refine of_nat (f := fun n => lo.toNat ≤ n && n ≤ hi.toNat) (fun b => ?_) (fun c => rfl)
    fun n hn => ?_
  · simp only [UInt8.le_iff_toNat_le]
  · simp only [Bool.and_eq_true, decide_eq_true_eq] at hn
    omega

/-- One character. -/
theorem char (b : UInt8) (c : Char) (h : c.toNat < 128) (hb : b = UInt8.ofNat c.toNat) :
    Ascii (· = b) (· = c) := by
  have hnat : b.toNat = c.toNat := by
    rw [hb, UInt8.toNat_ofNat', Nat.mod_eq_of_lt (by omega)]
  refine of_nat (f := fun n => n = c.toNat) (fun x => ?_) (fun x => ?_) fun n hn => ?_
  · simp only [← UInt8.toNat_inj, hnat]
  · simp only [Char.toNat_inj]
  · simp only [decide_eq_true_eq] at hn
    omega

end Ascii

/-! ### Texts of bytes below `0x80` -/

theorem bytes_ascii (h : ∀ c ∈ cs, c.toNat < 128) : bytes cs = cs.map fun c => UInt8.ofNat c.toNat := by
  induction cs with
  | nil => rfl
  | cons c cs ih =>
    rw [bytes_cons, encode_ascii (h c mem_cons_self), ih fun d hd =>
      h d (mem_cons_of_mem _ hd)]
    rfl

/-- The characters of such bytes. -/
theorem chars_bytes_ascii (h : ∀ c ∈ cs, c.toNat < 128) :
    (bytes cs).map (fun b => Char.ofNat b.toNat) = cs := by
  rw [bytes_ascii h, List.map_map]
  conv => rhs; rw [← map_id cs]
  refine map_congr_left fun c hc => ?_
  have hlt := h c hc
  simp only [Function.comp_apply, UInt8.toNat_ofNat', id_eq]
  rw [Nat.mod_eq_of_lt (by omega), Char.ofNat_toNat]

/-- A place between two characters is not in the middle of one. -/
theorem not_continuation (cs : List Char) : nextIs (fun b => 0x80 ≤ b && b < 0xC0) (bytes cs) = false := by
  cases cs with
  | nil => rfl
  | cons c cs =>
    have hv : c.val.toNat = c.toNat := rfl
    rw [bytes_cons]
    unfold String.utf8EncodeChar nextIs
    simp only
    split
    · simp only [singleton_append, List.head?_cons, Option.any_some, Bool.and_eq_false_iff,
        decide_eq_false_iff_not, UInt8.le_iff_toNat_le, UInt8.lt_iff_toNat_lt, UInt8.toNat_ofNat']
      left
      simp
      omega
    · split
      · simp only [cons_append, List.head?_cons, Option.any_some, Bool.and_eq_false_iff,
          decide_eq_false_iff_not, UInt8.le_iff_toNat_le, UInt8.lt_iff_toNat_lt, UInt8.toNat_ofNat']
        right
        simp
        omega
      · split
        · simp only [cons_append, List.head?_cons, Option.any_some, Bool.and_eq_false_iff,
            decide_eq_false_iff_not, UInt8.le_iff_toNat_le, UInt8.lt_iff_toNat_lt,
            UInt8.toNat_ofNat']
          right
          simp
          omega
        · simp only [cons_append, List.head?_cons, Option.any_some, Bool.and_eq_false_iff,
            decide_eq_false_iff_not, UInt8.le_iff_toNat_le, UInt8.lt_iff_toNat_lt,
            UInt8.toNat_ofNat']
          right
          simp
          omega

end Program.Utf8
