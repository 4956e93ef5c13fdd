import Plur1bus.Net.Guard
import Mathlib.Data.List.Forall2
import Mathlib.Data.Nat.Digits.Defs

/-!
The texts that stand for addresses, apart from any reader of them.

An IPv6 address is written as eight groups with colons between them, where the
last two may be written as a dotted quad, and where `::` may stand once for one
or more groups of zeros. A legacy IPv4 address is one to four numbers, decimal,
octal or hexadecimal, the last of which fills the bytes the others leave.
-/

namespace Plur1bus.Net

open Program List Option

/-! ### IPv6 -/

/-- One to four hexadecimal digits. -/
def HexGroup (h : List Char) : Prop := 1 ≤ h.length ∧ h.length ≤ 4 ∧ ∀ c ∈ h, isHex c = true

/-- Four decimal numbers with dots between them. -/
def quadText (a b c d : ℕ) : List Char :=
  ['.'].intercalate [Nat.toDigits 10 a, Nat.toDigits 10 b, Nat.toDigits 10 c, Nat.toDigits 10 d]

/-- Pieces between colons and the 16-bit groups they stand for: hexadecimal
groups, and at the end possibly a dotted quad, which stands for two. -/
inductive Pieces : List (List Char) → List ℕ → Prop
  | nil : Pieces [] []
  | quad {a b c d : ℕ} (ha : a < 256) (hb : b < 256) (hc : c < 256) (hd : d < 256) :
      Pieces [quadText a b c d] [a * 256 + b, c * 256 + d]
  | group {h : List Char} {pieces : List (List Char)} {groups : List ℕ} (hh : HexGroup h)
      (hrest : Pieces pieces groups) : Pieces (h :: pieces) (parseInt 16 h :: groups)

/-- The address texts of RFC 4291, section 2.2, with the groups they stand for. -/
inductive V6Text : List Char → List ℕ → Prop
  | full {pieces : List (List Char)} {groups : List ℕ} (h : Pieces pieces groups) (hlen : groups.length = 8) :
      V6Text ([':'].intercalate pieces) groups
  | zeros {left right : List (List Char)} {groups : List ℕ} (hleft : ∀ h ∈ left, HexGroup h)
      (hright : Pieces right groups) (hlen : left.length + groups.length < 8) :
      V6Text ([':'].intercalate left ++ [':', ':'] ++ [':'].intercalate right)
        (left.map (parseInt 16) ++ List.replicate (8 - (left.length + groups.length)) 0 ++ groups)

/-! ### IPv4 as `inet_aton` reads it -/

/-- A number and its spellings. -/
inductive Numeral : List Char → ℕ → Prop
  | decimal {s : List Char} (hdigits : ∀ c ∈ s, '0' ≤ c ∧ c ≤ '9') (hne : s ≠ []) (hhead : s.head? ≠ some '0') :
      Numeral s (parseInt 10 s)
  | octal {s : List Char} (hdigits : ∀ c ∈ s, '0' ≤ c ∧ c ≤ '7') : Numeral ('0' :: s) (parseInt 8 s)
  | hexadecimal {x : Char} {s : List Char} (hx : x = 'x' ∨ x = 'X') (hdigits : ∀ c ∈ s, isHex c = true)
      (hne : s ≠ []) : Numeral ('0' :: x :: s) (parseInt 16 s)

/-- All numbers but the last are bytes, and the last is what the bytes that
remain say, the most significant first. -/
structure InetAton (s : List Char) (bytes : List ℕ) : Prop where
  length : bytes.length = 4
  byte : ∀ b ∈ bytes, b < 256
  reads : ∃ (texts : List (List Char)) (init : List ℕ) (last : ℕ), texts.length ≤ 4 ∧
    s = ['.'].intercalate texts ∧ List.Forall₂ Numeral texts (init ++ [last]) ∧
    bytes.take init.length = init ∧ Nat.ofDigits 256 (bytes.drop init.length).reverse = last

/-! ### Reading a number -/

theorem parseInt_cons_zero (radix : ℕ) (s : List Char) : parseInt radix ('0' :: s) = parseInt radix s := by
  show s.foldl _ (0 * radix + digitValue '0') = _
  rw [Nat.zero_mul]
  rfl

theorem isDecimal_iff {c : Char} : isDecimal c = true ↔ '0' ≤ c ∧ c ≤ '9' := by
  simp [isDecimal]

theorem isOctal_iff {c : Char} : isOctal c = true ↔ '0' ≤ c ∧ c ≤ '7' := by
  simp [isOctal]

variable {s : List Char} {n : ℕ}

theorem numeral_of_parseV4Part (h : parseV4Part s = some n) : Numeral s n := by
  unfold parseV4Part at h
  split at h
  next hhex =>
    obtain ⟨htake, hne, hall⟩ := hhex
    cases h
    cases s with
    | nil => simp at htake
    | cons c s =>
      cases s with
      | nil => simp at htake
      | cons x s =>
        obtain ⟨rfl, hx⟩ : c = '0' ∧ (x = 'x' ∨ x = 'X') := by
          obtain htake | htake := htake
          · simp only [take_succ_cons, take_zero, List.cons.injEq, and_true] at htake
            exact ⟨htake.1, .inl htake.2⟩
          · simp only [take_succ_cons, take_zero, List.cons.injEq, and_true] at htake
            exact ⟨htake.1, .inr htake.2⟩
        exact .hexadecimal hx (List.all_eq_true.mp hall) hne
  next =>
    split at h
    next hoct =>
      obtain ⟨hhead, hall⟩ := hoct
      cases s with
      | nil => simp at hhead
      | cons c s =>
        obtain rfl : c = '0' := by simpa using hhead
        have hn : parseInt 8 s = n := by
          split at h
          next hlen =>
            have hs : s = [] := eq_nil_of_length_eq_zero (by simpa using hlen)
            cases h
            rw [hs]
            rfl
          next =>
            cases h
            exact (parseInt_cons_zero 8 s).symm
        exact hn ▸ .octal fun c hc => isOctal_iff.mp (List.all_eq_true.mp hall c hc)
    next =>
      split at h
      next hdec =>
        obtain ⟨hhead, hall⟩ := hdec
        cases h
        cases s with
        | nil => simp at hhead
        | cons c s =>
          have hc : '1' ≤ c ∧ c ≤ '9' := by simpa using hhead
          have hlow : '0' ≤ c := Char.le_trans (by decide) hc.1
          refine .decimal ?_ (cons_ne_nil _ _) ?_
          · exact forall_mem_cons.mpr ⟨⟨hlow, hc.2⟩,
              fun d hd => isDecimal_iff.mp (List.all_eq_true.mp hall d hd)⟩
          · rw [List.head?_cons]
            intro hzero
            rw [Option.some.inj hzero] at hc
            exact absurd hc.1 (by decide)
      next => cases h

theorem parseV4Part_of_numeral (h : Numeral s n) : parseV4Part s = some n := by
  unfold parseV4Part
  cases h with
  | decimal hdigits hne hhead =>
    obtain ⟨c, s, rfl⟩ := exists_cons_of_ne_nil hne
    have hc : c ≠ '0' := fun heq => hhead (by rw [heq]; rfl)
    have hdigit := hdigits c mem_cons_self
    have hlow : '1' ≤ c := by
      have h0 : '0'.toNat = 48 := rfl
      have h1 : '1'.toNat = 49 := rfl
      have hval : c.toNat ≠ 48 := fun heq => hc (Char.toNat_inj.mp heq)
      simp only [Char.le_def, UInt32.le_iff_toNat_le, Char.toNat_val] at hdigit ⊢
      omega
    rw [if_neg (by simp [hc]), if_neg (by simp [hc]), if_pos]
    refine ⟨by simp [hlow, hdigit.2], List.all_eq_true.mpr fun d hd => ?_⟩
    exact isDecimal_iff.mpr (hdigits d (mem_cons_of_mem _ hd))
  | @octal s hdigits =>
    have hhex : ¬ ((('0' :: s).take 2 = ['0', 'x'] ∨ ('0' :: s).take 2 = ['0', 'X']) ∧
        ('0' :: s).drop 2 ≠ [] ∧ (('0' :: s).drop 2).all isHex = true) := by
      rintro ⟨htake, -⟩
      cases s with
      | nil => simp at htake
      | cons c s =>
        have hc := hdigits c mem_cons_self
        obtain rfl | rfl : c = 'x' ∨ c = 'X' := by simpa using htake
        · exact absurd hc.2 (by decide)
        · exact absurd hc.2 (by decide)
    rw [if_neg hhex, if_pos ⟨rfl, List.all_eq_true.mpr fun c hc => isOctal_iff.mpr (hdigits c hc)⟩]
    split
    next hlen =>
      have hs : s = [] := eq_nil_of_length_eq_zero (by simpa using hlen)
      rw [hs]
      rfl
    next => rw [parseInt_cons_zero]
  | @hexadecimal x s hx hdigits hne =>
    rw [if_pos]
    · rfl
    · refine ⟨?_, hne, List.all_eq_true.mpr hdigits⟩
      obtain rfl | rfl := hx
      · exact .inl rfl
      · exact .inr rfl

theorem mapM_eq_some {α β : Type} {f : α → Option β} {l : List α} {out : List β} :
    l.mapM f = some out ↔ List.Forall₂ (fun a b => f a = some b) l out := by
  induction l generalizing out with
  | nil =>
    constructor
    · rintro ⟨⟩
      exact .nil
    · rintro ⟨⟩
      rfl
  | cons a l ih =>
    rw [mapM_cons]
    constructor
    · intro h
      obtain ⟨b, hb, h⟩ := bind_eq_some_iff.mp h
      obtain ⟨bs, hbs, h⟩ := bind_eq_some_iff.mp h
      cases h
      exact .cons hb (ih.mp hbs)
    · rintro ⟨⟩
      rename_i b bs hb hbs
      exact bind_eq_some_iff.mpr ⟨b, hb, bind_eq_some_iff.mpr ⟨bs, ih.mpr hbs, rfl⟩⟩

/-! ### The bytes of a legacy address -/

/-- A number written in so many bytes, the most significant first. -/
def bytesOf (k last : ℕ) : List ℕ := (List.range k).map fun i => last / 256 ^ (k - 1 - i) % 256

theorem length_bytesOf (k last : ℕ) : (bytesOf k last).length = k := by simp [bytesOf]

theorem bytesOf_succ (k last : ℕ) : bytesOf (k + 1) last = bytesOf k (last / 256) ++ [last % 256] := by
  unfold bytesOf
  rw [range_succ, map_append, map_singleton]
  congr 1
  · refine map_congr_left fun i hi => ?_
    have hlt := mem_range.mp hi
    have hexp : k + 1 - 1 - i = (k - 1 - i) + 1 := by omega
    rw [hexp, Nat.pow_succ', Nat.div_div_eq_div_mul]
  · rw [Nat.add_sub_cancel, Nat.sub_self, Nat.pow_zero, Nat.div_one]

variable {last : ℕ} {bytes : List ℕ}

/-- The bytes of a number that fits are the ones that say it. -/
theorem bytesOf_eq_iff {k : ℕ} : (last < 256 ^ k ∧ bytes = bytesOf k last) ↔
      bytes.length = k ∧ (∀ b ∈ bytes, b < 256) ∧ Nat.ofDigits 256 bytes.reverse = last := by
  induction k generalizing last bytes with
  | zero =>
    rw [Nat.pow_zero, Nat.lt_one_iff]
    constructor
    · rintro ⟨rfl, rfl⟩
      exact ⟨rfl, fun _ hb => absurd hb not_mem_nil, rfl⟩
    · rintro ⟨hlen, -, hlast⟩
      obtain rfl := eq_nil_of_length_eq_zero hlen
      exact ⟨hlast.symm, rfl⟩
  | succ k ih =>
    rw [bytesOf_succ]
    constructor
    · rintro ⟨hlt, rfl⟩
      have hdiv : last / 256 < 256 ^ k := Nat.div_lt_of_lt_mul (by rwa [Nat.pow_succ'] at hlt)
      obtain ⟨hlen, hbyte, hvalue⟩ := ih.mp ⟨hdiv, rfl⟩
      refine ⟨by rw [length_append, hlen]; rfl, ?_, ?_⟩
      · intro b hb
        obtain hb | hb := mem_append.mp hb
        · exact hbyte b hb
        · rw [mem_singleton.mp hb]
          exact Nat.mod_lt _ (by decide)
      · rw [reverse_append, reverse_singleton, singleton_append, Nat.ofDigits_cons, hvalue]
        exact Nat.mod_add_div last 256
    · rintro ⟨hlen, hbyte, hvalue⟩
      have hne : bytes ≠ [] := fun hnil => by
        rw [hnil] at hlen
        exact absurd hlen (Nat.succ_ne_zero k).symm
      obtain ⟨front, b, rfl⟩ : ∃ front b, bytes = front ++ [b] :=
        ⟨bytes.dropLast, bytes.getLast hne, (dropLast_append_getLast hne).symm⟩
      have hb : b < 256 := hbyte b (by simp)
      rw [reverse_append, reverse_singleton, singleton_append, Nat.ofDigits_cons] at hvalue
      have hfront := ih.mpr ⟨by simpa using hlen, fun x hx => hbyte x (mem_append_left _ hx), rfl⟩
      have hdiv : last / 256 = Nat.ofDigits 256 front.reverse := by omega
      have hmod : last % 256 = b := by omega
      rw [hdiv, hmod, ← hfront.2]
      refine ⟨?_, rfl⟩
      have hlt := hfront.1
      rw [Nat.pow_succ']
      omega

/-- The bytes that one to four numbers stand for. -/
theorem v4Bytes_iff {init : List ℕ} (hinit : init.length ≤ 3) :
    v4Bytes (init ++ [last]) = some bytes ↔ bytes.length = 4 ∧ (∀ b ∈ bytes, b < 256) ∧
      bytes.take init.length = init ∧ Nat.ofDigits 256 (bytes.drop init.length).reverse = last := by
  have hlast : (init ++ [last]).getLastD 0 = last := by simp [getLastD_eq_getLast?]
  have hk : 5 - (init ++ [last]).length = 4 - init.length := by
    rw [length_append, length_singleton]
    omega
  have hread : v4Bytes (init ++ [last]) = some bytes ↔
      (∀ b ∈ init, b < 256) ∧ last < 256 ^ (4 - init.length) ∧ bytes = init ++ bytesOf (4 - init.length) last := by
    unfold v4Bytes
    simp only [hlast, hk, dropLast_concat]
    split
    next hge =>
      constructor
      · rintro ⟨⟩
      · rintro ⟨-, hlt, -⟩
        omega
    next hlt =>
      split
      next hany =>
        constructor
        · rintro ⟨⟩
        · rintro ⟨hbyte, -, -⟩
          obtain ⟨b, hb, hgt⟩ := List.any_eq_true.mp hany
          have hle := hbyte b hb
          simp only [decide_eq_true_eq] at hgt
          omega
      next hany =>
        have hbyte : ∀ b ∈ init, b < 256 := fun b hb => by
          have hle : ¬ b > 255 := fun hgt => hany (List.any_eq_true.mpr ⟨b, hb, decide_eq_true hgt⟩)
          omega
        rw [Option.some.injEq]
        exact ⟨fun h => ⟨hbyte, by omega, h.symm⟩, fun h => h.2.2.symm⟩
  rw [hread]
  constructor
  · rintro ⟨hbyte, hlt, rfl⟩
    obtain ⟨hlen, hbytes, hvalue⟩ := bytesOf_eq_iff.mp ⟨hlt, rfl⟩
    refine ⟨by rw [length_append, hlen]; omega, ?_, take_left, by rw [drop_left]; exact hvalue⟩
    intro b hb
    obtain hb | hb := mem_append.mp hb
    · exact hbyte b hb
    · exact hbytes b hb
  · rintro ⟨hlen, hbytes, htake, hvalue⟩
    have hrest := bytesOf_eq_iff.mpr ⟨(by rw [length_drop, hlen] : (bytes.drop init.length).length = 4 - init.length),
      fun b hb => hbytes b (mem_of_mem_drop hb), hvalue⟩
    refine ⟨fun b hb => hbytes b (mem_of_mem_take (htake.symm ▸ hb)), hrest.1, ?_⟩
    rw [← hrest.2]
    conv_lhs => rw [← take_append_drop init.length bytes, htake]

/-- No numeral has a character that separates numbers. -/
theorem Numeral.isHex_or {t : List Char} (h : Numeral t n) : ∀ c ∈ t, c ≠ '.' := by
  intro c hc hdot
  subst hdot
  cases h with
  | decimal hdigits => exact absurd (hdigits _ hc).1 (by decide)
  | octal hdigits =>
    obtain hc | hc := mem_cons.mp hc
    · exact absurd hc (by decide)
    · exact absurd (hdigits _ hc).1 (by decide)
  | hexadecimal hx hdigits =>
    simp only [mem_cons] at hc
    obtain hc | hc | hc := hc
    · exact absurd hc (by decide)
    · obtain rfl | rfl := hx
      · exact absurd hc (by decide)
      · exact absurd hc (by decide)
    · exact absurd (hdigits _ hc) (by decide)

theorem forall₂_numeral {parts : List (List Char)} {nums : List ℕ} :
    parts.mapM parseV4Part = some nums ↔ List.Forall₂ Numeral parts nums := by
  rw [mapM_eq_some]
  constructor
  · exact fun h => h.imp fun _ _ => numeral_of_parseV4Part
  · exact fun h => h.imp fun _ _ => parseV4Part_of_numeral

theorem parseV4_iff : parseV4 s false = some bytes ↔ InetAton s bytes := by
  constructor
  · intro h
    unfold parseV4 at h
    dsimp only at h
    split at h
    · cases h
    next hmax =>
      rw [if_neg (fun hno => Bool.false_ne_true hno.1), if_neg (fun hno => Bool.false_ne_true hno.1)] at h
      obtain ⟨nums, hnums, hbytes⟩ := bind_eq_some_iff.mp h
      have hlen := length_of_mapM hnums
      have hpos := length_pos_iff.mpr (splitOn_ne_nil '.' s)
      have hne : nums ≠ [] := fun hnil => by
        rw [hnil, length_nil] at hlen
        omega
      have hsplit := dropLast_append_getLast hne
      have hinit : nums.dropLast.length ≤ 3 := by
        rw [length_dropLast]
        omega
      rw [← hsplit] at hbytes
      obtain ⟨hfour, hbyte, htake, hvalue⟩ := (v4Bytes_iff hinit).mp hbytes
      exact ⟨hfour, hbyte, s.splitOn '.', nums.dropLast, nums.getLast hne, by omega,
        (intercalate_splitOn '.').symm, by rw [hsplit]; exact forall₂_numeral.mp hnums, htake, hvalue⟩
  · rintro ⟨hfour, hbyte, texts, init, last, hmax, rfl, hnums, htake, hvalue⟩
    have hlen := hnums.length_eq
    rw [length_append, length_singleton] at hlen
    have hne : texts ≠ [] := fun hnil => by
      rw [hnil, length_nil] at hlen
      omega
    have hdot : ∀ t ∈ texts, '.' ∉ t := by
      intro t ht hmem
      obtain ⟨n, hn⟩ : ∃ n, Numeral t n := by
        obtain ⟨i, hi, rfl⟩ := getElem_of_mem ht
        exact ⟨_, hnums.get hi (by rw [length_append, length_singleton]; omega)⟩
      exact hn.isHex_or '.' hmem rfl
    unfold parseV4
    rw [splitOn_intercalate '.' hdot hne]
    dsimp only
    rw [if_neg (by omega), if_neg (fun hno => Bool.false_ne_true hno.1),
      if_neg (fun hno => Bool.false_ne_true hno.1), forall₂_numeral.mpr hnums, bind_some]
    exact (v4Bytes_iff (by omega)).mpr ⟨hfour, hbyte, htake, hvalue⟩

/-! ### Dotted quads -/

/-- A part that the strict form accepts is the spelling of its number. -/
theorem quadPart_spelling {p : List Char} (hp : isQuadPart p = true) (hn : parseV4Part p = some n) :
    p = Nat.toDigits 10 n := by
  simp only [isQuadPart, Bool.or_eq_true, Bool.and_eq_true, decide_eq_true_eq] at hp
  obtain rfl | ⟨⟨hhead, htail⟩, -⟩ := hp
  · obtain rfl : (0 : ℕ) = n := Option.some.inj ((by rfl : parseV4Part ['0'] = some 0).symm.trans hn)
    rfl
  · cases p with
    | nil => simp at hhead
    | cons c p =>
      have hc : '1' ≤ c ∧ c ≤ '9' := by simpa using hhead
      have hdigits : ∀ d ∈ c :: p, '0' ≤ d ∧ d ≤ '9' := forall_mem_cons.mpr
        ⟨⟨Char.le_trans (by decide) hc.1, hc.2⟩,
          fun d hd => isDecimal_iff.mp (List.all_eq_true.mp htail d hd)⟩
      have hzero : (c :: p).head? ≠ some '0' := by
        rw [List.head?_cons]
        intro heq
        rw [Option.some.inj heq] at hc
        exact absurd hc.1 (by decide)
      have hread := parseV4Part_of_numeral (.decimal hdigits (cons_ne_nil _ _) hzero)
      rw [hn] at hread
      rw [Option.some.inj hread]
      exact (toDigits_parseInt hdigits (cons_ne_nil _ _) hzero).2.symm

theorem isQuadPart_toDigits {b : ℕ} (h : b < 256) : isQuadPart (Nat.toDigits 10 b) = true := by
  have hall : ∀ b < 256, isQuadPart (Nat.toDigits 10 b) = true := by decide +kernel
  exact hall b h

theorem splitOn_quadText (a b c d : ℕ) :
    (quadText a b c d).splitOn '.' = [Nat.toDigits 10 a, Nat.toDigits 10 b, Nat.toDigits 10 c, Nat.toDigits 10 d] := by
  refine splitOn_intercalate '.' (fun part hpart hdot => ?_) (cons_ne_nil _ _)
  have hhex : ∀ n, '.' ∈ Nat.toDigits 10 n → False := fun n hmem =>
    (Web.isHex_spec (isHex_of_mem_toDigits (by omega) (by omega) hmem)).2.2 rfl
  simp only [mem_cons, not_mem_nil, or_false] at hpart
  obtain rfl | rfl | rfl | rfl := hpart
  · exact hhex _ hdot
  · exact hhex _ hdot
  · exact hhex _ hdot
  · exact hhex _ hdot

variable {v4 : List ℕ}

theorem v4Bytes_quad {a b c d : ℕ} :
    v4Bytes [a, b, c, d] = some v4 ↔ v4 = [a, b, c, d] ∧ a < 256 ∧ b < 256 ∧ c < 256 ∧ d < 256 := by
  have hthree : [a, b, c].length ≤ 3 := Nat.le_refl 3
  refine (v4Bytes_iff hthree : v4Bytes ([a, b, c] ++ [d]) = some v4 ↔ _).trans ?_
  constructor
  · rintro ⟨hlen, hbyte, htake, hlast⟩
    obtain ⟨w, x, y, z, rfl⟩ := length_eq_four.mp hlen
    obtain ⟨rfl, rfl, rfl⟩ : w = a ∧ x = b ∧ y = c := by simpa using htake
    obtain rfl : z = d := by simpa using hlast
    exact ⟨rfl, hbyte _ (by simp), hbyte _ (by simp), hbyte _ (by simp), hbyte _ (by simp)⟩
  · rintro ⟨rfl, ha, hb, hc, hd⟩
    refine ⟨rfl, ?_, rfl, by simp⟩
    intro x hx
    simp only [mem_append, mem_cons, not_mem_nil, or_false] at hx
    omega

theorem parseV4_strict_iff {q : List Char} : parseV4 q true = some v4 ↔
      ∃ a b c d, a < 256 ∧ b < 256 ∧ c < 256 ∧ d < 256 ∧ q = quadText a b c d ∧ v4 = [a, b, c, d] := by
  unfold parseV4
  dsimp only
  constructor
  · intro h
    split at h
    · cases h
    split at h
    · cases h
    next hfour =>
    split at h
    · cases h
    next hquad =>
      have hlen : (q.splitOn '.').length = 4 := Decidable.of_not_not fun hno => hfour ⟨rfl, hno⟩
      have hall : (q.splitOn '.').all isQuadPart = true := by
        simpa using hquad
      obtain ⟨p₀, p₁, p₂, p₃, hparts⟩ := length_eq_four.mp hlen
      rw [hparts] at h hall
      obtain ⟨nums, hnums, hbytes⟩ := bind_eq_some_iff.mp h
      rw [mapM_eq_some] at hnums
      cases hnums with
      | cons h₀ hnums => cases hnums with
        | cons h₁ hnums => cases hnums with
          | cons h₂ hnums => cases hnums with
            | cons h₃ hnums =>
              cases hnums
              rename_i a b c d
              obtain ⟨rfl, ha, hb, hc, hd⟩ := v4Bytes_quad.mp hbytes
              simp only [all_cons, all_nil, Bool.and_eq_true, and_true] at hall
              obtain ⟨q₀, q₁, q₂, q₃⟩ := hall
              refine ⟨a, b, c, d, ha, hb, hc, hd, ?_, rfl⟩
              rw [quadText, ← quadPart_spelling q₀ h₀, ← quadPart_spelling q₁ h₁, ← quadPart_spelling q₂ h₂,
                ← quadPart_spelling q₃ h₃, ← hparts, intercalate_splitOn]
  · rintro ⟨a, b, c, d, ha, hb, hc, hd, rfl, rfl⟩
    rw [splitOn_quadText]
    simp only [all_cons, all_nil, isQuadPart_toDigits ha, isQuadPart_toDigits hb, isQuadPart_toDigits hc,
      isQuadPart_toDigits hd, mapM_cons, mapM_nil, Web.parseV4Part_toDigits ha, Web.parseV4Part_toDigits hb,
      Web.parseV4Part_toDigits hc, Web.parseV4Part_toDigits hd]
    exact v4Bytes_quad.mpr ⟨rfl, ha, hb, hc, hd⟩

end Plur1bus.Net
