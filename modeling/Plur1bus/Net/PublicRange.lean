import Plur1bus.Net.Literals
import Plur1bus.Program.Dyadic

/-!
The lowest public address of a range. The search restates what the classifier says as spans of
numbers: closed ones, in which nothing is public, and embedded ones, whose addresses are judged by
an IPv4 address they carry. It halves the range until a half lies inside of a span or touches none.
-/

namespace Plur1bus.Net.Web

open Program Bool

/-- `base` has no bits but the first `bits`. -/
structure Span where
  base : ℕ
  bits : ℕ
  deriving DecidableEq, Repr

structure SpanFamily where
  width : ℕ
  closed : List Span
  embedded : List Span
  deriving DecidableEq, Repr

def bigOf (bytes : List ℕ) : ℕ := bytes.foldl (fun n b => n <<< 8 ||| b) 0

def maskTo (n width bits : ℕ) : ℕ := n >>> (width - bits) <<< (width - bits)

def spanFrom (c : Cidr) (width : ℕ) : Span := ⟨maskTo (bigOf c.bytes) width c.bits, c.bits⟩

/-- The source asserts that the text can be read. -/
def spanOf (cidr : String) (width : ℕ) : Span := spanFrom ((parseCidr cidr.toList).getD ⟨.v4, [], 0⟩) width

def covers (outer inner : Span) (width : ℕ) : Bool :=
  outer.bits ≤ inner.bits && maskTo inner.base width outer.bits = outer.base

def familyV4 : SpanFamily where
  width := 32
  closed := v4Ranges.map (fun r => spanFrom r.1 32) ++ [spanOf "255.255.255.255/32" 32]
  embedded := []

def familyV6 : SpanFamily where
  width := 128
  closed := v6Ranges.map (fun r => spanFrom r.1 128) ++ [spanOf "::/3" 128, spanOf "4000::/2" 128, spanOf "8000::/1" 128]
  embedded := [spanOf "::ffff:0:0/96" 128, spanOf "64:ff9b::/96" 128, spanOf "2002::/16" 128]

/-- `none` when the fuel is spent. -/
def firstPublicFor : ℕ → SpanFamily → SpanFamily → ℕ → ℕ → Option (Option ℕ)
  | 0, _, _, _, _ => none
  | fuel + 1, f, v4, base, bits =>
    let range : Span := ⟨maskTo base f.width bits, bits⟩
    match f.embedded.find? fun e => covers e range f.width with
    | some e =>
      -- The IPv4 answer for the range that is carried, put back in its place.
      let shift := f.width - e.bits - 32
      let carriedBits := min 32 (bits - e.bits)
      let carried := maskTo (range.base >>> shift &&& 0xffffffff) 32 carriedBits
      (firstPublicFor fuel v4 v4 carried carriedBits).map fun found =>
        found.map fun a => Nat.ldiff range.base (0xffffffff <<< shift) ||| a <<< shift
    | none =>
      let holdsEmbedded := f.embedded.any fun e => covers range e f.width
      if !holdsEmbedded && f.closed.any (fun c => covers c range f.width) then some none
      else if !holdsEmbedded && !f.closed.any (fun c => covers range c f.width) then some (some range.base)
      else if bits ≥ f.width then some none
      else
        match firstPublicFor fuel f v4 range.base (bits + 1) with
        | none => none
        | some (some lower) => some (some lower)
        | some none => firstPublicFor fuel f v4 (range.base ||| 1 <<< (f.width - bits - 1)) (bits + 1)

def cidrContainsPublicFor (fuel : ℕ) (c : Cidr) : Option (Option ParsedAddress) :=
  let f := if c.family = .v4 then familyV4 else familyV6
  (firstPublicFor fuel f familyV4 (bigOf c.bytes) c.bits).map fun found =>
    found.map fun a => ⟨c.family, bytesOf (f.width / 8) a⟩

/-! ### Spans -/

theorem maskTo_eq (n width bits : ℕ) : maskTo n width bits = floorTo (width - bits) n := by
  rw [maskTo, floorTo, Nat.shiftRight_eq_div_pow, Nat.shiftLeft_eq]

/-- The addresses of a span. -/
def Span.Holds (s : Span) (width n : ℕ) : Prop := InBlock (width - s.bits) s.base n

structure Span.Good (s : Span) (width : ℕ) : Prop where
  bits : s.bits ≤ width
  base : floorTo (width - s.bits) s.base = s.base

variable {width : ℕ}

theorem covers_iff {outer inner : Span} (h : outer.Good width) :
    covers outer inner width = true ↔ outer.bits ≤ inner.bits ∧ outer.Holds width inner.base := by
  rw [covers, and_eq_true, decide_eq_true_eq, decide_eq_true_eq, maskTo_eq, Span.Holds, ← floorTo_eq_iff, h.base]

variable {n : ℕ}

theorem holds_of_covers {outer inner : Span} (h : outer.Good width)
    (hcovers : covers outer inner width = true) (hn : inner.Holds width n) : outer.Holds width n := by
  obtain ⟨hbits, hbase⟩ := (covers_iff h).mp hcovers
  exact hbase.trans (hn.mono (by omega))

theorem covers_of_holds {outer inner : Span} (h : outer.Good width) (hbits : outer.bits ≤ inner.bits)
    (houter : outer.Holds width n) (hinner : inner.Holds width n) : covers outer inner width = true :=
  (covers_iff h).mpr ⟨hbits, InBlock.nested hinner houter (by omega)⟩

/-- Spans of which none covers the other have no address in common. -/
theorem apart_of_not_covers {s t : Span} (hs : s.Good width) (ht : t.Good width)
    (hst : covers s t width = false) (hts : covers t s width = false) (hn : s.Holds width n) :
    ¬ t.Holds width n := by
  intro hn'
  obtain hle | hle := Nat.le_total s.bits t.bits
  · rw [covers_of_holds hs hle hn hn'] at hst
    cases hst
  · rw [covers_of_holds ht hle hn' hn] at hts
    cases hts

variable {bits : ℕ}

theorem range_good (base : ℕ) (hbits : bits ≤ width) : Span.Good ⟨maskTo base width bits, bits⟩ width := by
  refine ⟨hbits, ?_⟩
  rw [maskTo_eq]
  exact floorTo_floorTo base le_rfl

variable {base : ℕ}

theorem range_holds :
    Span.Holds ⟨maskTo base width bits, bits⟩ width n ↔ InBlock (width - bits) base n := by
  rw [Span.Holds, maskTo_eq]
  exact (inBlock_congr (inBlock_floorTo _ base)).symm

/-- What a single address covers covers it. -/
theorem covers_of_single {s t : Span} (hs : s.Good width) (ht : t.Good width) (hwide : width ≤ s.bits)
    (hcovers : covers s t width = true) : covers t s width = true := by
  have hbits := ht.bits
  exact covers_of_holds ht (by omega) (InBlock.refl _ _) ((covers_iff hs).mp hcovers).2

/-! ### What the search finds -/

/-- The spans of a family say which addresses are public. -/
structure Mirrors (f : SpanFamily) (public4 isPublic : ℕ → Prop) : Prop where
  closedGood : ∀ c ∈ f.closed, c.Good f.width
  embeddedGood : ∀ e ∈ f.embedded, e.Good f.width
  room : ∀ e ∈ f.embedded, e.bits + 32 ≤ f.width
  plain : ∀ n < 2 ^ f.width, (∀ e ∈ f.embedded, ¬ e.Holds f.width n) →
    (isPublic n ↔ ∀ c ∈ f.closed, ¬ c.Holds f.width n)
  carried : ∀ e ∈ f.embedded, ∀ n < 2 ^ f.width, e.Holds f.width n →
    (isPublic n ↔ public4 (window (f.width - e.bits - 32) 32 n))

/-- The public addresses of a range. -/
def PublicIn (isPublic : ℕ → Prop) (width base bits n : ℕ) : Prop := InBlock (width - bits) base n ∧ isPublic n

variable {isPublic : ℕ → Prop}

theorem publicIn_halves (h : bits < width) : PublicIn isPublic width base bits n ↔
      PublicIn isPublic width (maskTo base width bits) (bits + 1) n ∨
        PublicIn isPublic width (maskTo base width bits ||| 1 <<< (width - bits - 1)) (bits + 1) n := by
  have hheight : width - bits = width - (bits + 1) + 1 := by omega
  have hless : width - bits - 1 = width - (bits + 1) := by omega
  rw [PublicIn, PublicIn, PublicIn, maskTo_eq, hless, hheight, floorTo_or, inBlock_succ_iff, or_and_right]

variable {f : SpanFamily} {public4 : ℕ → Prop}

/-- In a half no address of which is in an embedded span, the closed ones decide. -/
theorem isLowest_plain (hf : Mirrors f public4 isPublic) (hbits : bits ≤ f.width)
    (hbase : base < 2 ^ f.width)
    (hplain : ∀ n, InBlock (f.width - bits) base n → ∀ e ∈ f.embedded, ¬ e.Holds f.width n) :
    (f.closed.any (fun c => covers c ⟨maskTo base f.width bits, bits⟩ f.width) = true →
      IsLowest (PublicIn isPublic f.width base bits) none) ∧
    (f.closed.any (fun c => covers c ⟨maskTo base f.width bits, bits⟩ f.width) = false →
      f.closed.any (fun c => covers ⟨maskTo base f.width bits, bits⟩ c f.width) = false →
      IsLowest (PublicIn isPublic f.width base bits) (some (maskTo base f.width bits))) := by
  have hrange := range_good base hbits
  have hlt : ∀ n, InBlock (f.width - bits) base n → n < 2 ^ f.width := fun n hn => hn.lt (by omega) hbase
  constructor
  · intro hany n hn
    obtain ⟨c, hc, hcovers⟩ := List.any_eq_true.mp hany
    apply (hf.plain n (hlt n hn.1) (hplain n hn.1)).mp hn.2 c hc
    exact holds_of_covers (hf.closedGood c hc) hcovers (range_holds.mpr hn.1)
  · intro hout hinside
    have hfirst : InBlock (f.width - bits) base (maskTo base f.width bits) := by
      rw [maskTo_eq]
      exact inBlock_floorTo _ base
    refine ⟨⟨hfirst, ?_⟩, ?_⟩
    · apply (hf.plain _ (hlt _ hfirst) (hplain _ hfirst)).mpr
      intro c hc
      apply apart_of_not_covers hrange (hf.closedGood c hc) _ _ (range_holds.mpr hfirst)
      · exact eq_false_iff.mpr (List.any_eq_false.mp hinside c hc)
      · exact eq_false_iff.mpr (List.any_eq_false.mp hout c hc)
    · intro n hn
      rw [maskTo_eq]
      exact floorTo_le hn.1

/-- A range inside of an embedded span has the answer of the range that it carries. -/
theorem isLowest_carried {e : Span} {r : Option ℕ} (hf : Mirrors f public4 isPublic)
    (he : e ∈ f.embedded) (hbits : bits ≤ f.width) (hbase : base < 2 ^ f.width)
    (hcovers : covers e ⟨maskTo base f.width bits, bits⟩ f.width = true)
    (hr : IsLowest (PublicIn public4 32
      (maskTo (maskTo base f.width bits >>> (f.width - e.bits - 32) &&& 0xffffffff) 32 (min 32 (bits - e.bits)))
      (min 32 (bits - e.bits))) r) : IsLowest (PublicIn isPublic f.width base bits) (r.map fun a =>
      Nat.ldiff (maskTo base f.width bits) (0xffffffff <<< (f.width - e.bits - 32)) |||
        a <<< (f.width - e.bits - 32)) := by
  obtain ⟨hle, hholds⟩ := (covers_iff (hf.embeddedGood e he)).mp hcovers
  have hroom := hf.room e he
  have hle : e.bits ≤ bits := hle
  have hmask : maskTo base f.width bits >>> (f.width - e.bits - 32) &&& 0xffffffff =
      window (f.width - e.bits - 32) 32 (floorTo (f.width - bits) base) := by
    rw [maskTo_eq, Nat.shiftRight_eq_div_pow, window]
    exact Nat.and_two_pow_sub_one_eq_mod _ 32
  have hsmall : 32 - min 32 (bits - e.bits) = f.width - bits - (f.width - e.bits - 32) := by omega
  have hbelow := inBlock_floorTo (f.width - bits) base
  have hlow : ∀ n, InBlock (f.width - bits) (floorTo (f.width - bits) base) n →
      (isPublic n ↔ public4 (window (f.width - e.bits - 32) 32 n)) := by
    intro n hn
    have hbase' := hbelow.trans hn
    apply hf.carried e he n (hbase'.lt (by omega) hbase)
    exact holds_of_covers (hf.embeddedGood e he) hcovers (range_holds.mpr hbase')
  have hwindow : IsLowest (fun c => InBlock (f.width - bits - (f.width - e.bits - 32))
      (window (f.width - e.bits - 32) 32 (floorTo (f.width - bits) base)) c ∧ public4 c) r := by
    apply hr.congr
    intro c
    rw [PublicIn, hmask, maskTo_eq, hsmall]
    exact and_congr_left fun _ => (inBlock_congr (inBlock_floorTo _ _)).symm
  have hfound := IsLowest.of_window (by omega) (floorTo_floorTo base le_rfl) hlow hwindow
  rw [maskTo_eq]
  apply hfound.congr
  intro n
  exact and_congr_left fun _ => (inBlock_congr hbelow).symm

/-- A range that is neither inside of a span nor clear of all is of more than one address. -/
theorem narrow_of_mixed {range : Span} (hf : Mirrors f public4 isPublic) (hrange : range.Good f.width)
    (hout : ∀ e ∈ f.embedded, covers e range f.width = false)
    (hclosed : ¬ ((!f.embedded.any fun e => covers range e f.width) &&
      f.closed.any fun c => covers c range f.width) = true)
    (hclear : ¬ ((!f.embedded.any fun e => covers range e f.width) &&
      !f.closed.any fun c => covers range c f.width) = true) : range.bits < f.width := by
  by_contra hwide
  have hwide : f.width ≤ range.bits := Nat.le_of_not_lt hwide
  have hnone : (f.embedded.any fun e => covers range e f.width) = false := by
    rw [List.any_eq_false]
    intro e he hcovers
    have hback := covers_of_single hrange (hf.embeddedGood e he) hwide hcovers
    rw [hout e he] at hback
    cases hback
  rw [hnone, Bool.not_false, Bool.true_and] at hclosed hclear
  rw [not_eq_true, not_eq_false'] at hclear
  obtain ⟨c, hc, hcovers⟩ := List.any_eq_true.mp hclear
  exact hclosed (List.any_eq_true.mpr ⟨c, hc, covers_of_single hrange (hf.closedGood c hc) hwide hcovers⟩)

/-- With enough fuel the search ends, and its answer is the lowest public address of the range. -/
theorem firstPublicFor_spec {v4 : SpanFamily} {inner : ℕ} (hf : Mirrors f public4 isPublic)
    (hv4 : ∀ e ∈ f.embedded, ∀ fuel base bits, inner ≤ fuel → bits ≤ 32 → base < 2 ^ 32 →
      ∃ r, firstPublicFor fuel v4 v4 base bits = some r ∧ IsLowest (PublicIn public4 32 base bits) r)
    (fuel base bits : ℕ) (hbits : bits ≤ f.width) (hfuel : inner + (f.width - bits) < fuel)
    (hbase : base < 2 ^ f.width) :
    ∃ r, firstPublicFor fuel f v4 base bits = some r ∧ IsLowest (PublicIn isPublic f.width base bits) r := by
  induction fuel generalizing base bits with
  | zero => omega
  | succ fuel ih =>
    have hrange := range_good base hbits
    rw [firstPublicFor]
    dsimp only
    cases hfind : f.embedded.find? fun e => covers e ⟨maskTo base f.width bits, bits⟩ f.width with
    | some e =>
      have he := List.mem_of_find?_eq_some hfind
      have hcovers : covers e ⟨maskTo base f.width bits, bits⟩ f.width = true := by
        simpa using List.find?_some hfind
      have hsmall : maskTo (maskTo base f.width bits >>> (f.width - e.bits - 32) &&& 0xffffffff) 32
          (min 32 (bits - e.bits)) < 2 ^ 32 := by
        rw [maskTo_eq]
        apply Nat.lt_of_le_of_lt (floorTo_le (InBlock.refl _ _))
        exact Nat.lt_of_le_of_lt Nat.and_le_right (by decide)
      obtain ⟨r, hr, hlowest⟩ := hv4 e he fuel _ (min 32 (bits - e.bits)) (by omega) (Nat.min_le_left _ _) hsmall
      dsimp only
      rw [hr]
      exact ⟨_, rfl, isLowest_carried hf he hbits hbase hcovers hlowest⟩
    | none =>
      dsimp only
      have hout : ∀ e ∈ f.embedded, covers e ⟨maskTo base f.width bits, bits⟩ f.width = false :=
        fun e he => eq_false_iff.mpr (List.find?_eq_none.mp hfind e he)
      have hplain : (f.embedded.any fun e => covers ⟨maskTo base f.width bits, bits⟩ e f.width) = false →
          ∀ n, InBlock (f.width - bits) base n → ∀ e ∈ f.embedded, ¬ e.Holds f.width n := by
        intro hnone n hn e he
        have hapart := eq_false_iff.mpr (List.any_eq_false.mp hnone e he)
        exact apart_of_not_covers hrange (hf.embeddedGood e he) hapart (hout e he) (range_holds.mpr hn)
      split
      next hclosed =>
        rw [and_eq_true, not_eq_true'] at hclosed
        exact ⟨none, rfl, (isLowest_plain hf hbits hbase (hplain hclosed.1)).1 hclosed.2⟩
      next hclosed =>
        split
        next hclear =>
          rw [and_eq_true, not_eq_true', not_eq_true'] at hclear
          rw [hclear.1, Bool.not_false, Bool.true_and, not_eq_true] at hclosed
          exact ⟨_, rfl, (isLowest_plain hf hbits hbase (hplain hclear.1)).2 hclosed hclear.2⟩
        next hclear =>
          have hnarrow : bits < f.width := narrow_of_mixed hf hrange hout hclosed hclear
          have hheight : f.width - bits = f.width - (bits + 1) + 1 := by omega
          have hless : f.width - bits - 1 = f.width - (bits + 1) := by omega
          have hlower : maskTo base f.width bits < 2 ^ f.width := by
            rw [maskTo_eq]
            exact Nat.lt_of_le_of_lt (floorTo_le (InBlock.refl _ _)) hbase
          have hupper : maskTo base f.width bits ||| 1 <<< (f.width - bits - 1) < 2 ^ f.width := by
            rw [maskTo_eq, hheight, Nat.add_sub_cancel, floorTo_or]
            have hin := inBlock_succ_iff.mpr (.inr (InBlock.refl _ (floorTo (f.width - (bits + 1) + 1) base + _)))
            exact InBlock.lt hin (by omega) hbase
          have horder : ∀ a b, PublicIn isPublic f.width (maskTo base f.width bits) (bits + 1) a →
              PublicIn isPublic f.width (maskTo base f.width bits ||| 1 <<< (f.width - bits - 1)) (bits + 1) b →
              a < b := by
            intro a b ha hb
            have ha' := ha.1
            have hb' := hb.1
            rw [maskTo_eq, hheight] at ha'
            rw [maskTo_eq, hless, hheight, floorTo_or] at hb'
            exact lower_lt_upper ha' hb'
          rw [if_neg (Nat.not_le_of_lt hnarrow)]
          obtain ⟨first, hfirst, hfirstLowest⟩ := ih (maskTo base f.width bits) (bits + 1) hnarrow (by omega) hlower
          rw [hfirst]
          cases first with
          | some lower =>
            refine ⟨_, rfl, (hfirstLowest.first horder).congr fun n => ?_⟩
            exact (publicIn_halves hnarrow).symm
          | none =>
            obtain ⟨second, hsecond, hsecondLowest⟩ := ih _ (bits + 1) hnarrow (by omega) hupper
            refine ⟨second, hsecond, (IsLowest.second hfirstLowest hsecondLowest).congr fun n => ?_⟩
            exact (publicIn_halves hnarrow).symm

end Plur1bus.Net.Web
