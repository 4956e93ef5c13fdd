import Plur1bus.Net.PublicRange

/-!
The spans say what the classifier says. An address is a number here: a range of the table is a
block of numbers, and the bytes by which the classifier tells an address that carries another one
are windows of the number.
-/

namespace Plur1bus.Net

open Program Web List

/-! ### Bytes and numbers -/

variable {b : ℕ}

theorem bigOf_snoc (bytes : List ℕ) (hb : b < 256) : bigOf (bytes ++ [b]) = bigOf bytes * 256 + b := by
  have hpow : b < 2 ^ 8 := hb
  rw [bigOf, foldl_append]
  show bigOf bytes <<< 8 ||| b = _
  rw [← Nat.shiftLeft_add_eq_or_of_lt hpow, Nat.shiftLeft_eq]

variable {bytes : List ℕ}

theorem bigOf_eq_ofDigits (h : ∀ b ∈ bytes, b < 256) : bigOf bytes = Nat.ofDigits 256 bytes.reverse := by
  induction bytes using List.reverseRecOn with
  | nil => rfl
  | append_singleton bytes b ih =>
    have hbytes : ∀ x ∈ bytes, x < 256 := fun x hx => h x (mem_append_left _ hx)
    rw [bigOf_snoc bytes (h b (by simp)), ih hbytes, reverse_append, reverse_singleton,
      singleton_append, Nat.ofDigits_cons]
    ring

theorem bigOf_append {xs ys : List ℕ} (hx : ∀ b ∈ xs, b < 256) (hy : ∀ b ∈ ys, b < 256) :
    bigOf (xs ++ ys) = bigOf xs * 2 ^ (8 * ys.length) + bigOf ys := by
  have hall : ∀ b ∈ xs ++ ys, b < 256 := forall_mem_append.mpr ⟨hx, hy⟩
  have hpow : 256 ^ ys.length = 2 ^ (8 * ys.length) := by rw [Nat.pow_mul]
  rw [bigOf_eq_ofDigits hall, bigOf_eq_ofDigits hx, bigOf_eq_ofDigits hy, reverse_append, Nat.ofDigits_append,
    length_reverse, hpow]
  ring

theorem bigOf_cons (h : ∀ x ∈ b :: bytes, x < 256) :
    bigOf (b :: bytes) = b * 2 ^ (8 * bytes.length) + bigOf bytes := by
  have hb := h b mem_cons_self
  have hone : bigOf [b] = b := by
    show 0 <<< 8 ||| b = b
    rw [Nat.zero_shiftLeft, Nat.zero_or]
  have happend : bigOf ([b] ++ bytes) = _ :=
    bigOf_append (by simpa using hb) fun x hx => h x (mem_cons_of_mem _ hx)
  rw [hone] at happend
  exact happend

theorem bigOf_lt (h : ∀ b ∈ bytes, b < 256) : bigOf bytes < 2 ^ (8 * bytes.length) := by
  have hlt := (bytesOf_eq_iff.mpr ⟨rfl, h, (bigOf_eq_ofDigits h).symm⟩).1
  rwa [show 256 = 2 ^ 8 from rfl, ← Nat.pow_mul] at hlt

theorem bytesOf_bigOf (h : ∀ b ∈ bytes, b < 256) : bytesOf bytes.length (bigOf bytes) = bytes :=
  (bytesOf_eq_iff.mpr ⟨rfl, h, (bigOf_eq_ofDigits h).symm⟩).2.symm

theorem bytesOf_lt {k n : ℕ} (hb : b ∈ bytesOf k n) : b < 256 := by
  obtain ⟨i, -, rfl⟩ := mem_map.mp hb
  exact Nat.mod_lt _ (by decide)

theorem bigOf_bytesOf {k n : ℕ} (h : n < 2 ^ (8 * k)) : bigOf (bytesOf k n) = n := by
  have hlt : n < 256 ^ k := by
    rwa [show 256 = 2 ^ 8 from rfl, ← Nat.pow_mul]
  rw [bigOf_eq_ofDigits fun b hb => bytesOf_lt hb]
  exact (bytesOf_eq_iff.mp ⟨hlt, rfl⟩).2.2

/-- Some of the bytes are a window of the number. -/
theorem bigOf_slice {i j : ℕ} (h : ∀ b ∈ bytes, b < 256) (hij : i + j ≤ bytes.length) :
    bigOf ((bytes.drop i).take j) = window (8 * (bytes.length - i - j)) (8 * j) (bigOf bytes) := by
  have htake : ∀ b ∈ bytes.take i, b < 256 := fun b hb => h b (mem_of_mem_take hb)
  have hmid : ∀ b ∈ (bytes.drop i).take j, b < 256 := fun b hb => h b (mem_of_mem_drop (mem_of_mem_take hb))
  have hlast : ∀ b ∈ (bytes.drop i).drop j, b < 256 := fun b hb => h b (mem_of_mem_drop (mem_of_mem_drop hb))
  have hmidLen : ((bytes.drop i).take j).length = j := by
    rw [length_take, length_drop]
    omega
  have hlastLen : ((bytes.drop i).drop j).length = bytes.length - i - j := by
    rw [length_drop, length_drop]
  have hsplit : bigOf bytes = (bigOf (bytes.take i) * 2 ^ (8 * j) + bigOf ((bytes.drop i).take j)) *
      2 ^ (8 * (bytes.length - i - j)) + bigOf ((bytes.drop i).drop j) := by
    conv_lhs => rw [← take_append_drop i bytes, ← take_append_drop j (bytes.drop i), ← append_assoc]
    rw [bigOf_append (forall_mem_append.mpr ⟨htake, hmid⟩) hlast, bigOf_append htake hmid, hmidLen, hlastLen]
  have hlow := bigOf_lt hlast
  have hwin := bigOf_lt hmid
  rw [hlastLen] at hlow
  rw [hmidLen] at hwin
  rw [window, hsplit, Nat.mul_comm, Nat.mul_add_div (Nat.two_pow_pos _), Nat.div_eq_of_lt hlow, Nat.add_zero,
    Nat.mul_comm, Nat.mul_add_mod, Nat.mod_eq_of_lt hwin]

theorem all_zero_iff (h : ∀ b ∈ bytes, b < 256) : bytes.all (· = 0) = true ↔ bigOf bytes = 0 := by
  induction bytes with
  | nil => simp [bigOf]
  | cons b bytes ih =>
    have hpos := Nat.two_pow_pos (8 * bytes.length)
    rw [bigOf_cons h, all_cons, Bool.and_eq_true, ih fun x hx => h x (mem_cons_of_mem _ hx)]
    simp

theorem word_eq_window {i : ℕ} (h : ∀ b ∈ bytes, b < 256) (hi : i + 2 ≤ bytes.length) :
    word bytes i = window (8 * (bytes.length - i - 2)) 16 (bigOf bytes) := by
  have hslice := bigOf_slice h hi
  have hread : (bytes.drop i).take 2 = [bytes[i], bytes[i + 1]] := by
    rw [drop_eq_getElem_cons (by omega), drop_eq_getElem_cons (by omega)]
    rfl
  have hfirst : bytes[i] < 256 := h _ (getElem_mem _)
  have hsecond : bytes[i + 1] < 256 := h _ (getElem_mem _)
  rw [← hslice, hread, bigOf_cons (by simp [hfirst, hsecond]), bigOf_cons (by simp [hsecond]), word,
    getD_eq_getElem _ _ (by omega), getD_eq_getElem _ _ (by omega)]
  simp [bigOf]

/-! ### Ranges are blocks -/

theorem masked_eq : ∀ left < 8, ∀ b < 256,
    b &&& ((0xff <<< (8 - left)) &&& 0xff) = b / 2 ^ (8 - left) * 2 ^ (8 - left) := by
  decide +kernel

variable {bits : ℕ}

theorem bitsAgree_cons {a : ℕ} {as bs : List ℕ} (ha : a < 256) (hb : b < 256) :
    bitsAgree bits (a :: as) (b :: bs) = true ↔
      InBlock (8 - bits) b a ∧ bitsAgree (bits - 8) as bs = true := by
  have hbyte : ∀ n < 256, n &&& 0xff = n := fun n hn => Nat.and_two_pow_sub_one_of_lt_two_pow (n := 8) hn
  obtain hzero | hpos := Nat.eq_zero_or_pos bits
  · subst hzero
    have hblock : InBlock 8 b a := by
      show a / 256 = b / 256
      rw [Nat.div_eq_of_lt ha, Nat.div_eq_of_lt hb]
    exact ⟨fun _ => ⟨hblock, rfl⟩, fun _ => rfl⟩
  · have hcount : (bits + 7) / 8 = (bits - 8 + 7) / 8 + 1 := by omega
    rw [bitsAgree, hcount, range_succ_eq_map, all_cons, all_map, Bool.and_eq_true]
    apply and_congr
    · rw [decide_eq_true_eq, Nat.mul_zero, Nat.sub_zero, getD_cons_zero, getD_cons_zero]
      split
      next hfull =>
        rw [hbyte a ha, hbyte b hb, Nat.sub_eq_zero_of_le hfull, inBlock_zero]
      next hpart =>
        rw [masked_eq bits (by omega) a ha, masked_eq bits (by omega) b hb]
        exact Nat.mul_left_inj (Nat.two_pow_pos _).ne'
    · have hstep : ∀ i, bits - 8 * (i + 1) = bits - 8 - 8 * i := by omega
      simp only [bitsAgree, Function.comp_def, Nat.succ_eq_add_one, getD_cons_succ, hstep]

/-- The first bits agree when the numbers lie in one block. -/
theorem bitsAgree_iff {as bs : List ℕ} (hlen : as.length = bs.length) (ha : ∀ x ∈ as, x < 256)
    (hb : ∀ x ∈ bs, x < 256) (hbits : bits ≤ 8 * bs.length) :
    bitsAgree bits as bs = true ↔ InBlock (8 * bs.length - bits) (bigOf bs) (bigOf as) := by
  induction as generalizing bits bs with
  | nil =>
    obtain rfl := eq_nil_of_length_eq_zero hlen.symm
    obtain rfl : bits = 0 := Nat.le_zero.mp hbits
    exact ⟨fun _ => rfl, fun _ => rfl⟩
  | cons a as ih =>
    cases bs with
    | nil => cases hlen
    | cons b bs =>
      rw [length_cons, length_cons, Nat.add_right_cancel_iff] at hlen
      have has : ∀ x ∈ as, x < 256 := fun x hx => ha x (mem_cons_of_mem _ hx)
      have hbs : ∀ x ∈ bs, x < 256 := fun x hx => hb x (mem_cons_of_mem _ hx)
      have halt := bigOf_lt has
      have hblt := bigOf_lt hbs
      rw [hlen] at halt
      rw [bitsAgree_cons (ha a mem_cons_self) (hb b mem_cons_self), bigOf_cons ha, bigOf_cons hb, hlen,
        length_cons]
      rw [length_cons] at hbits
      rw [ih hlen has hbs (by omega)]
      have hdiv : ∀ x n, n < 2 ^ (8 * bs.length) → (x * 2 ^ (8 * bs.length) + n) / 2 ^ (8 * bs.length) = x := by
        intro x n hn
        rw [Nat.mul_comm, Nat.mul_add_div (Nat.two_pow_pos _), Nat.div_eq_of_lt hn, Nat.add_zero]
      obtain hle | hle := Nat.le_total bits 8
      · -- the range ends in the first byte
        have hheight : 8 * (bs.length + 1) - bits = 8 * bs.length + (8 - bits) := by omega
        have hrest : InBlock (8 * bs.length - (bits - 8)) (bigOf bs) (bigOf as) := by
          rw [Nat.sub_eq_zero_of_le hle, Nat.sub_zero, InBlock, Nat.div_eq_of_lt halt, Nat.div_eq_of_lt hblt]
        rw [and_iff_left hrest, hheight, InBlock, InBlock, Nat.pow_add, ← Nat.div_div_eq_div_mul,
          ← Nat.div_div_eq_div_mul, hdiv a _ halt, hdiv b _ hblt]
      · have hheight : 8 * (bs.length + 1) - bits = 8 * bs.length - (bits - 8) := by omega
        obtain ⟨d, hd⟩ := Nat.exists_eq_add_of_le (Nat.sub_le (8 * bs.length) (bits - 8))
        have hread : ∀ x n, (x * 2 ^ (8 * bs.length) + n) / 2 ^ (8 * bs.length - (bits - 8)) =
            x * 2 ^ d + n / 2 ^ (8 * bs.length - (bits - 8)) := by
          intro x n
          have hpow : x * 2 ^ (8 * bs.length) = 2 ^ (8 * bs.length - (bits - 8)) * (x * 2 ^ d) := by
            conv_lhs => rw [hd, Nat.pow_add]
            ring
          rw [hpow, Nat.mul_add_div (Nat.two_pow_pos _)]
        rw [Nat.sub_eq_zero_of_le hle, inBlock_zero, hheight]
        constructor
        · rintro ⟨rfl, hrest⟩
          rw [InBlock, hread, hread, hrest]
        · intro h
          have hsame : a = b := by
            have hup := h.mono (Nat.sub_le (8 * bs.length) (bits - 8))
            rwa [InBlock, hdiv a _ halt, hdiv b _ hblt] at hup
          subst hsame
          rw [InBlock, hread, hread] at h
          exact ⟨rfl, Nat.add_left_cancel h⟩

/-! ### The tables -/

/-- A range of a table: of its family, with as many bytes, and no more bits than they have. -/
structure Cidr.Proper (c : Cidr) (family : Family) : Prop where
  length : c.bytes.length = family.size
  bytes : ∀ b ∈ c.bytes, b < 256
  bits : c.bits ≤ 8 * family.size
  sameFamily : c.family = family

theorem v4Ranges_proper : ∀ r ∈ v4Ranges, r.1.Proper .v4 := by
  have h : ∀ r ∈ v4Ranges, r.1.family = .v4 ∧ r.1.bytes.length = 4 ∧ (∀ b ∈ r.1.bytes, b < 256) ∧ r.1.bits ≤ 32 := by
    decide
  exact fun r hr => ⟨(h r hr).2.1, (h r hr).2.2.1, (h r hr).2.2.2, (h r hr).1⟩

theorem v6Ranges_proper : ∀ r ∈ v6Ranges, r.1.Proper .v6 := by
  have h : ∀ r ∈ v6Ranges, r.1.family = .v6 ∧ r.1.bytes.length = 16 ∧ (∀ b ∈ r.1.bytes, b < 256) ∧ r.1.bits ≤ 128 := by
    decide
  exact fun r hr => ⟨(h r hr).2.1, (h r hr).2.2.1, (h r hr).2.2.2, (h r hr).1⟩

theorem limitedBroadcast : spanOf "255.255.255.255/32" 32 = ⟨0xffffffff, 32⟩ := by decide

theorem familyV6_embedded :
    familyV6.embedded = [⟨0xffff * 2 ^ 32, 96⟩, ⟨0x64ff9b * 2 ^ 96, 96⟩, ⟨0x2002 * 2 ^ 112, 16⟩] := by
  decide

theorem familyV6_rest : [spanOf "::/3" 128, spanOf "4000::/2" 128, spanOf "8000::/1" 128] =
    [⟨0, 3⟩, ⟨0x4000 * 2 ^ 112, 2⟩, ⟨0x8000 * 2 ^ 112, 1⟩] := by
  decide

variable {c : Cidr} {family : Family}

theorem Cidr.Proper.good (h : c.Proper family) : (spanFrom c (8 * family.size)).Good (8 * family.size) :=
  range_good _ h.bits

variable {a : ParsedAddress}

/-- An address is in a range of the table when its number is in the span. -/
theorem Cidr.Proper.inCidr_iff (h : c.Proper a.family) (ha : a.Valid) (hcanonical : canonical a = a) :
    inCidr a c = true ↔ (spanFrom c (8 * a.family.size)).Holds (8 * a.family.size) (bigOf a.bytes) := by
  have hlen : a.bytes.length = c.bytes.length := ha.length.trans h.length.symm
  have hfit : c.bits ≤ 8 * c.bytes.length := h.length ▸ h.bits
  have hblock := bitsAgree_iff hlen ha.bytes h.bytes hfit
  rw [inCidr, hcanonical, Bool.and_eq_true, decide_eq_true_eq, and_iff_right h.sameFamily.symm, hblock, h.length]
  exact range_holds.symm

theorem find?_public_iff {ranges : List (Cidr × String)} {rest : Verdict} :
    (match ranges.find? (fun r : Cidr × String => inCidr a r.1) with
      | some (_, reason) => (⟨false, reason⟩ : Verdict)
      | none => rest).isPublic = true ↔ (∀ r ∈ ranges, ¬ inCidr a r.1 = true) ∧ rest.isPublic = true := by
  grind

/-! ### IPv4 -/

/-- The number of a public address of the family. -/
def PublicNumber (family : Family) (n : ℕ) : Prop := (classifyAddress ⟨family, bytesOf family.size n⟩).isPublic = true

theorem all_255_iff (hlen : bytes.length = 4) (h : ∀ b ∈ bytes, b < 256) :
    bytes.all (· = 255) = true ↔ bigOf bytes = 0xffffffff := by
  constructor
  · intro hall
    have hrep : bytes = List.replicate 4 255 := by
      rw [eq_replicate_iff]
      exact ⟨hlen, fun b hb => of_decide_eq_true (List.all_eq_true.mp hall b hb)⟩
    rw [hrep]
    rfl
  · intro hbig
    have hbytes := bytesOf_bigOf h
    rw [hlen, hbig] at hbytes
    rw [← hbytes]
    decide

theorem classifyV4_public_iff (h : ParsedAddress.Valid ⟨.v4, bytes⟩) :
    (classifyAddress ⟨.v4, bytes⟩).isPublic = true ↔ ∀ c ∈ familyV4.closed, ¬ c.Holds 32 (bigOf bytes) := by
  have hranges : (∀ r ∈ v4Ranges, ¬ inCidr ⟨.v4, bytes⟩ r.1 = true) ↔
      ∀ c ∈ v4Ranges.map (fun r => spanFrom r.1 32), ¬ c.Holds 32 (bigOf bytes) := by
    rw [forall_mem_map]
    refine forall₂_congr fun r hr => not_congr ?_
    exact (v4Ranges_proper r hr).inCidr_iff h rfl
  have hlast : bytes.all (· = 255) = true ↔ Span.Holds ⟨0xffffffff, 32⟩ 32 (bigOf bytes) := by
    rw [all_255_iff h.length h.bytes, Span.Holds, Nat.sub_self, inBlock_zero]
  rw [classifyAddress_v4, classifyV4, classifyV4With, familyV4, forall_mem_append, limitedBroadcast,
    forall_mem_singleton, ← hlast, ← hranges]
  by_cases hall : bytes.all (· = 255) = true
  · rw [if_pos hall]
    constructor
    · rintro ⟨⟩
    · rintro ⟨-, hno⟩
      exact absurd hall hno
  · rw [if_neg hall, and_iff_left hall]
    exact find?_public_iff.trans (and_iff_left rfl)

theorem bytesOf_valid (family : Family) (n : ℕ) : ParsedAddress.Valid ⟨family, bytesOf family.size n⟩ :=
  ⟨length_bytesOf _ _, fun _ hb => bytesOf_lt hb⟩

theorem familyV4_mirrors : Mirrors familyV4 (PublicNumber .v4) (PublicNumber .v4) where
  closedGood := by
    intro c hc
    obtain hc | hc := mem_append.mp hc
    · obtain ⟨r, hr, rfl⟩ := mem_map.mp hc
      exact (v4Ranges_proper r hr).good
    · rw [limitedBroadcast, mem_singleton] at hc
      subst hc
      exact ⟨le_rfl, rfl⟩
  embeddedGood := fun e he => absurd he not_mem_nil
  room := fun e he => absurd he not_mem_nil
  plain := by
    intro n hn _
    have hpublic := classifyV4_public_iff (bytesOf_valid .v4 n)
    rw [show Family.v4.size = 4 from rfl, bigOf_bytesOf hn] at hpublic
    exact hpublic
  carried := fun e he => absurd he not_mem_nil

/-! ### IPv6 -/

theorem isV4Mapped_iff (hlen : bytes.length = 16) (h : ∀ b ∈ bytes, b < 256) :
    isV4Mapped bytes = true ↔ bigOf bytes / 2 ^ 32 = 0xffff := by
  have hlt := bigOf_lt h
  have hzeros : (bytes.take 10).all (· = 0) = true ↔ window 48 80 (bigOf bytes) = 0 := by
    have hslice := bigOf_slice (i := 0) (j := 10) h (by omega)
    rw [hlen, drop_zero] at hslice
    rw [all_zero_iff fun b hb => h b (mem_of_mem_take hb), hslice]
  have hones : (bytes[10]? = some 0xff ∧ bytes[11]? = some 0xff) ↔ window 32 16 (bigOf bytes) = 0xffff := by
    have hword : bytes.getD 10 0 * 256 + bytes.getD 11 0 = _ := word_eq_window h (by omega)
    rw [hlen] at hword
    have hfirst : bytes[10] < 256 := h _ (getElem_mem _)
    have hsecond : bytes[11] < 256 := h _ (getElem_mem _)
    rw [← hword, getD_eq_getElem _ _ (by omega), getD_eq_getElem _ _ (by omega),
      List.getElem?_eq_getElem (by omega), List.getElem?_eq_getElem (by omega), Option.some_inj, Option.some_inj]
    omega
  rw [hlen] at hlt
  simp only [isV4Mapped, Bool.and_eq_true, decide_eq_true_eq, and_assoc]
  rw [hzeros, hones, window, window]
  omega

theorem isNat64_iff (hlen : bytes.length = 16) (h : ∀ b ∈ bytes, b < 256) :
    isNat64 bytes = true ↔ bigOf bytes / 2 ^ 32 = 0x64ff9b * 2 ^ 64 := by
  have hlt := bigOf_lt h
  have hzeros : ((bytes.drop 4).take 8).all (· = 0) = true ↔ window 32 64 (bigOf bytes) = 0 := by
    have hslice := bigOf_slice (i := 4) (j := 8) h (by omega)
    rw [hlen] at hslice
    rw [all_zero_iff fun b hb => h b (mem_of_mem_drop (mem_of_mem_take hb)), hslice]
  have hfirst := word_eq_window (i := 0) h (by omega)
  have hsecond := word_eq_window (i := 2) h (by omega)
  rw [hlen] at hlt hfirst hsecond
  simp only [isNat64, Bool.and_eq_true, decide_eq_true_eq]
  rw [hzeros, hfirst, hsecond, window, window, window]
  omega

theorem is6to4_iff (hlen : bytes.length = 16) (h : ∀ b ∈ bytes, b < 256) :
    is6to4 bytes = true ↔ bigOf bytes / 2 ^ 112 = 0x2002 := by
  have hlt := bigOf_lt h
  have hfirst := word_eq_window (i := 0) h (by omega)
  rw [hlen] at hlt hfirst
  rw [is6to4, decide_eq_true_eq, hfirst, window]
  omega

theorem leading_iff (hlen : bytes.length = 16) (h : ∀ b ∈ bytes, b < 256) :
    bytes.headD 0 &&& 0xe0 = 0x20 ↔ bigOf bytes / 2 ^ 125 = 1 := by
  have hbyte : ∀ b < 256, (b &&& 0xe0 = 0x20 ↔ b / 32 = 1) := by decide +kernel
  cases bytes with
  | nil => cases hlen
  | cons b bytes =>
    have hrest : bytes.length = 15 := Nat.succ.inj hlen
    have hb := h b mem_cons_self
    have hlt := bigOf_lt fun x hx => h x (mem_cons_of_mem _ hx)
    rw [headD_cons, hbyte b hb, bigOf_cons h, hrest]
    rw [hrest] at hlt
    omega

/-- An address that carries no other is judged by the table and by its first bits. -/
theorem classify_plain (hmapped : ¬ isV4Mapped bytes = true) (hnat : ¬ isNat64 bytes = true)
    (hsix : ¬ is6to4 bytes = true) : (classifyAddress ⟨.v6, bytes⟩).isPublic = true ↔
      (∀ r ∈ v6Ranges, ¬ inCidr ⟨.v6, bytes⟩ r.1 = true) ∧ bytes.headD 0 &&& 0xe0 = 0x20 := by
  have hcanonical : canonical ⟨.v6, bytes⟩ = ⟨.v6, bytes⟩ := if_neg fun hno => hmapped hno.2
  rw [classifyAddress, classifyAddressWith, hcanonical]
  dsimp only
  rw [if_neg (fun hno => (by cases hno)), if_neg hnat, if_neg hsix]
  refine find?_public_iff.trans (and_congr_right fun _ => ?_)
  by_cases hlead : bytes.headD 0 &&& 0xe0 = 0x20
  · rw [if_neg (fun hno => hno hlead)]
    exact ⟨fun _ => hlead, fun _ => rfl⟩
  · rw [if_pos hlead]
    constructor
    · rintro ⟨⟩
    · intro hno
      exact absurd hno hlead

theorem mem_embedded {e : Span} : e ∈ familyV6.embedded ↔
      e = ⟨0xffff * 2 ^ 32, 96⟩ ∨ e = ⟨0x64ff9b * 2 ^ 96, 96⟩ ∨ e = ⟨0x2002 * 2 ^ 112, 16⟩ := by
  rw [familyV6_embedded]
  simp

theorem mem_closedV6 {c : Span} : c ∈ familyV6.closed ↔ (∃ r ∈ v6Ranges, spanFrom r.1 128 = c) ∨
      c = ⟨0, 3⟩ ∨ c = ⟨0x4000 * 2 ^ 112, 2⟩ ∨ c = ⟨0x8000 * 2 ^ 112, 1⟩ := by
  rw [familyV6, mem_append, mem_map, familyV6_rest]
  simp

theorem familyV6_mirrors : Mirrors familyV6 (PublicNumber .v4) (PublicNumber .v6) where
  closedGood := by
    intro c hc
    obtain ⟨r, hr, rfl⟩ | rfl | rfl | rfl := mem_closedV6.mp hc
    · exact (v6Ranges_proper r hr).good
    · exact ⟨by decide, by decide⟩
    · exact ⟨by decide, by decide⟩
    · exact ⟨by decide, by decide⟩
  embeddedGood := by
    intro e he
    obtain rfl | rfl | rfl := mem_embedded.mp he
    · exact ⟨by decide, by decide⟩
    · exact ⟨by decide, by decide⟩
    · exact ⟨by decide, by decide⟩
  room := by
    intro e he
    obtain rfl | rfl | rfl := mem_embedded.mp he
    · decide
    · decide
    · decide
  plain := by
    intro n hn hout
    have hvalid := bytesOf_valid .v6 n
    have hbig : bigOf (bytesOf 16 n) = n := bigOf_bytesOf hn
    have hlen : (bytesOf 16 n).length = 16 := hvalid.length
    have hbytes : ∀ b ∈ bytesOf 16 n, b < 256 := hvalid.bytes
    have hmapped : ¬ isV4Mapped (bytesOf 16 n) = true := by
      rw [isV4Mapped_iff hlen hbytes, hbig]
      exact hout _ (mem_embedded.mpr (.inl rfl))
    have hnat : ¬ isNat64 (bytesOf 16 n) = true := by
      rw [isNat64_iff hlen hbytes, hbig]
      exact hout _ (mem_embedded.mpr (.inr (.inl rfl)))
    have hsix : ¬ is6to4 (bytesOf 16 n) = true := by
      rw [is6to4_iff hlen hbytes, hbig]
      exact hout _ (mem_embedded.mpr (.inr (.inr rfl)))
    have hcanonical : canonical ⟨.v6, bytesOf 16 n⟩ = ⟨.v6, bytesOf 16 n⟩ := if_neg fun hno => hmapped hno.2
    show (classifyAddress ⟨.v6, bytesOf 16 n⟩).isPublic = true ↔ _
    rw [classify_plain hmapped hnat hsix, leading_iff hlen hbytes, hbig]
    have hrange : ∀ r ∈ v6Ranges, (inCidr ⟨.v6, bytesOf 16 n⟩ r.1 = true ↔ (spanFrom r.1 128).Holds 128 n) := by
      intro r hr
      have hiff := (v6Ranges_proper r hr).inCidr_iff hvalid hcanonical
      rwa [show Family.v6.size = 16 from rfl, hbig] at hiff
    have hlt : n < 2 ^ 128 := hn
    constructor
    · rintro ⟨htable, hlead⟩ c hc hholds
      obtain ⟨r, hr, rfl⟩ | rfl | rfl | rfl := mem_closedV6.mp hc
      · exact htable r hr ((hrange r hr).mpr hholds)
      · have hno : n / 2 ^ 125 = 0 := hholds
        omega
      · have hno : n / 2 ^ 126 = 1 := hholds
        omega
      · have hno : n / 2 ^ 127 = 1 := hholds
        omega
    · intro hall
      refine ⟨fun r hr hin => hall _ (mem_closedV6.mpr (.inl ⟨r, hr, rfl⟩)) ((hrange r hr).mp hin), ?_⟩
      have hzero : ¬ n / 2 ^ 125 = 0 := hall ⟨0, 3⟩ (mem_closedV6.mpr (.inr (.inl rfl)))
      have hone : ¬ n / 2 ^ 126 = 1 := fun hno => hall _ (mem_closedV6.mpr (.inr (.inr (.inl rfl)))) hno
      have htop : ¬ n / 2 ^ 127 = 1 := fun hno => hall _ (mem_closedV6.mpr (.inr (.inr (.inr rfl)))) hno
      omega
  carried := by
    intro e he n hn hholds
    have hvalid := bytesOf_valid .v6 n
    have hbig : bigOf (bytesOf 16 n) = n := bigOf_bytesOf hn
    have hlen : (bytesOf 16 n).length = 16 := hvalid.length
    have hbytes : ∀ b ∈ bytesOf 16 n, b < 256 := hvalid.bytes
    have hslice : ∀ i, i + 4 ≤ 16 →
        ((bytesOf 16 n).drop i).take 4 = bytesOf 4 (window (8 * (16 - i - 4)) 32 n) := by
      intro i hi
      have hpart : ∀ b ∈ ((bytesOf 16 n).drop i).take 4, b < 256 :=
        fun b hb => hbytes b (mem_of_mem_drop (mem_of_mem_take hb))
      have hread := bytesOf_bigOf hpart
      rw [bigOf_slice hbytes (by omega), hlen, hbig, length_take, length_drop, hlen,
        Nat.min_eq_left (by omega)] at hread
      exact hread.symm
    have hcarries : ∀ v4, Carries (bytesOf 16 n) v4 → v4 = bytesOf 4 (window (128 - e.bits - 32) 32 n) →
        (PublicNumber .v6 n ↔ PublicNumber .v4 (window (128 - e.bits - 32) 32 n)) := by
      rintro v4 hcarry rfl
      show (classifyAddress ⟨.v6, bytesOf 16 n⟩).isPublic = true ↔ _
      rw [classifyAddress_carries hcarry]
      exact Iff.rfl
    have hend : (bytesOf 16 n).drop 12 = ((bytesOf 16 n).drop 12).take 4 :=
      (take_of_length_le (by rw [length_drop, hlen])).symm
    obtain rfl | rfl | rfl := mem_embedded.mp he
    · apply hcarries _ (.mapped _) (hend.trans (hslice 12 (by omega)))
      rw [isV4Mapped_iff hlen hbytes, hbig]
      exact hholds
    · apply hcarries _ (.nat64 _) (hend.trans (hslice 12 (by omega)))
      rw [isNat64_iff hlen hbytes, hbig]
      exact hholds
    · apply hcarries _ (.sixToFour _) (hslice 2 (by omega))
      rw [is6to4_iff hlen hbytes, hbig]
      exact hholds

/-! ### The lowest public address -/

/-- The number that the bytes of an address spell. -/
def number (bytes : List ℕ) : ℕ := Nat.ofDigits 256 bytes.reverse

/-- The addresses that agree with the base of the range in its first bits. -/
structure InRange (c : Cidr) (a : ParsedAddress) : Prop where
  sameFamily : a.family = c.family
  valid : a.Valid
  agrees : number a.bytes / 2 ^ (8 * c.family.size - c.bits) = number c.bytes / 2 ^ (8 * c.family.size - c.bits)

theorem firstPublic_v4 {fuel base : ℕ} (hfuel : 33 ≤ fuel) (hbits : bits ≤ 32) (hbase : base < 2 ^ 32) :
    ∃ r, firstPublicFor fuel familyV4 familyV4 base bits = some r ∧ IsLowest (PublicIn (PublicNumber .v4) 32 base bits) r := by
  have hno : ∀ e ∈ familyV4.embedded, ∀ fuel base bits, 0 ≤ fuel → bits ≤ 32 → base < 2 ^ 32 →
      ∃ r, firstPublicFor fuel familyV4 familyV4 base bits = some r ∧
        IsLowest (PublicIn (PublicNumber .v4) 32 base bits) r :=
    fun e he => absurd he not_mem_nil
  have hwidth : familyV4.width = 32 := rfl
  exact firstPublicFor_spec familyV4_mirrors hno fuel base bits hbits (by omega) hbase

theorem firstPublic_v6 {fuel base : ℕ} (hfuel : 162 ≤ fuel) (hbits : bits ≤ 128)
    (hbase : base < 2 ^ 128) : ∃ r, firstPublicFor fuel familyV6 familyV4 base bits = some r ∧
      IsLowest (PublicIn (PublicNumber .v6) 128 base bits) r := by
  have hwidth : familyV6.width = 128 := rfl
  have hinner : ∀ e ∈ familyV6.embedded, ∀ fuel base bits, 33 ≤ fuel → bits ≤ 32 → base < 2 ^ 32 →
      ∃ r, firstPublicFor fuel familyV4 familyV4 base bits = some r ∧
        IsLowest (PublicIn (PublicNumber .v4) 32 base bits) r :=
    fun _ _ _ _ _ hfuel hbits hbase => firstPublic_v4 hfuel hbits hbase
  exact firstPublicFor_spec familyV6_mirrors hinner fuel base bits hbits (by omega) hbase

def familyOf : Family → SpanFamily
  | .v4 => familyV4
  | .v6 => familyV6

theorem width_familyOf (family : Family) : (familyOf family).width = 8 * family.size := by
  cases family with
  | v4 => rfl
  | v6 => rfl

theorem firstPublic_lowest {fuel base : ℕ} (hfuel : 162 ≤ fuel) (hbits : bits ≤ 8 * family.size)
    (hbase : base < 2 ^ (8 * family.size)) :
    ∃ r, firstPublicFor fuel (familyOf family) familyV4 base bits = some r ∧
      IsLowest (PublicIn (PublicNumber family) (8 * family.size) base bits) r := by
  cases family with
  | v4 => exact firstPublic_v4 (by omega) hbits hbase
  | v6 => exact firstPublic_v6 hfuel hbits hbase

theorem cidrContainsPublicFor_eq (fuel : ℕ) (c : Cidr) : cidrContainsPublicFor fuel c =
      (firstPublicFor fuel (familyOf c.family) familyV4 (bigOf c.bytes) c.bits).map fun found =>
        found.map fun a => ⟨c.family, bytesOf c.family.size a⟩ := by
  have hfamily : (if c.family = .v4 then familyV4 else familyV6) = familyOf c.family := by
    cases c.family with
    | v4 => rfl
    | v6 => rfl
  have hwidth : (familyOf c.family).width / 8 = c.family.size := by
    rw [width_familyOf, Nat.mul_div_cancel_left _ (by omega)]
  rw [cidrContainsPublicFor, hfamily, hwidth]

/-- The numbers of a range are those of its addresses. -/
theorem inRange_iff (hc : ParsedAddress.Valid ⟨c.family, c.bytes⟩) :
    InRange c a ↔ ∃ n, InBlock (8 * c.family.size - c.bits) (bigOf c.bytes) n ∧ a = ⟨c.family, bytesOf c.family.size n⟩ ∧
      number a.bytes = n := by
  have hbase : number c.bytes = bigOf c.bytes := (bigOf_eq_ofDigits hc.bytes).symm
  constructor
  · rintro ⟨hfamily, hvalid, hagrees⟩
    have hnumber : number a.bytes = bigOf a.bytes := (bigOf_eq_ofDigits hvalid.bytes).symm
    have hread := bytesOf_bigOf hvalid.bytes
    rw [hvalid.length, hfamily] at hread
    obtain ⟨family, bytes⟩ := a
    obtain rfl : family = c.family := hfamily
    refine ⟨bigOf bytes, ?_, ?_, hnumber⟩
    · rw [InBlock, ← hbase, ← hagrees, ← hnumber]
    · exact congrArg (ParsedAddress.mk c.family) hread.symm
  · rintro ⟨n, hn, rfl, hnumber⟩
    refine ⟨rfl, bytesOf_valid _ _, ?_⟩
    rw [hnumber, hbase]
    exact hn

theorem number_bytesOf {k n : ℕ} (h : n < 2 ^ (8 * k)) : number (bytesOf k n) = n :=
  (bigOf_eq_ofDigits fun _ hb => bytesOf_lt hb).symm.trans (bigOf_bytesOf h)

/-- The search ends, whatever the range, and finds its lowest public address, or none when there is
no public address in it. -/
theorem cidrContainsPublic_exact (c : Cidr) (hc : ParsedAddress.Valid ⟨c.family, c.bytes⟩)
    (hbits : c.bits ≤ 8 * c.family.size) :
    ∃ r, (∀ fuel, 162 ≤ fuel → cidrContainsPublicFor fuel c = some r) ∧
      (r = none ↔ ∀ a, InRange c a → (classifyAddress a).isPublic = false) ∧
      ∀ a, r = some a → InRange c a ∧ (classifyAddress a).isPublic = true ∧
        ∀ b, InRange c b → (classifyAddress b).isPublic = true → number a.bytes ≤ number b.bytes := by
  have hlt : bigOf c.bytes < 2 ^ (8 * c.family.size) := by
    rw [← hc.length]
    exact bigOf_lt hc.bytes
  obtain ⟨found, -, hlowest⟩ := firstPublic_lowest (Nat.le_refl 162) hbits hlt
  have hsmall : ∀ n, InBlock (8 * c.family.size - c.bits) (bigOf c.bytes) n → n < 2 ^ (8 * c.family.size) :=
    fun n hn => hn.lt (by omega) hlt
  have hin : ∀ n, InBlock (8 * c.family.size - c.bits) (bigOf c.bytes) n →
      InRange c ⟨c.family, bytesOf c.family.size n⟩ :=
    fun n hn => (inRange_iff hc).mpr ⟨n, hn, rfl, number_bytesOf (hsmall n hn)⟩
  refine ⟨found.map fun a => ⟨c.family, bytesOf c.family.size a⟩, ?_, ?_, ?_⟩
  · intro fuel hfuel
    obtain ⟨r, hr, hrLowest⟩ := firstPublic_lowest hfuel hbits hlt
    rw [cidrContainsPublicFor_eq, hr, hrLowest.unique hlowest]
    rfl
  · rw [Option.map_eq_none_iff]
    constructor
    · rintro rfl a ha
      obtain ⟨n, hn, rfl, -⟩ := (inRange_iff hc).mp ha
      exact Bool.eq_false_iff.mpr fun hpublic => hlowest n ⟨hn, hpublic⟩
    · intro hall
      cases found with
      | none => rfl
      | some m =>
        have hpublic : (classifyAddress ⟨c.family, bytesOf c.family.size m⟩).isPublic = true := hlowest.1.2
        rw [hall _ (hin m hlowest.1.1)] at hpublic
        cases hpublic
  · intro a ha
    obtain ⟨m, rfl, rfl⟩ := Option.map_eq_some_iff.mp ha
    refine ⟨hin m hlowest.1.1, hlowest.1.2, fun b hb hpublic => ?_⟩
    obtain ⟨n, hn, rfl, hnumber⟩ := (inRange_iff hc).mp hb
    rw [hnumber, number_bytesOf (hsmall m hlowest.1.1)]
    exact hlowest.2 n ⟨hn, hpublic⟩

theorem cidrContainsPublic_exact_sample :
    ∃ r, (∀ fuel, 162 ≤ fuel → cidrContainsPublicFor fuel ⟨.v4, [172, 16, 0, 0], 11⟩ = some r) ∧
      (r = none ↔ ∀ a, InRange ⟨.v4, [172, 16, 0, 0], 11⟩ a → (classifyAddress a).isPublic = false) ∧
      ∀ a, r = some a → InRange ⟨.v4, [172, 16, 0, 0], 11⟩ a ∧ (classifyAddress a).isPublic = true ∧
        ∀ b, InRange ⟨.v4, [172, 16, 0, 0], 11⟩ b → (classifyAddress b).isPublic = true →
          number a.bytes ≤ number b.bytes :=
  cidrContainsPublic_exact ⟨.v4, [172, 16, 0, 0], 11⟩ ⟨rfl, by decide⟩ (by decide)

end Plur1bus.Net
