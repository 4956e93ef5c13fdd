import Plur1bus.Engine.Grammar

/-!
What the reader does on the bytes of a text, leaf by leaf: white space, numbers and
strings. Each leaf is taken from the front of the text exactly when it is derived
there, and what is left are the bytes of what is left of the text; so the reader
always stands between two characters.
-/

namespace Plur1bus.Engine

open Program List Bool
open Utf8

namespace Reader

/-! ### Outcomes -/

/-- A reader stands between two characters again with a value that is `P` of what
is left of the text, or it refuses; a refusal for depth has the reason `D`. -/
def Reads {α : Type} (P : α → List Char → Prop) (D : Prop) : Except Failure (α × List UInt8) → Prop
  | .ok (x, r) => ∃ b, r = bytes b ∧ P x b
  | .error e => e.kind = .syntaxError ∨ (e.kind = .depthLimit ∧ D)

namespace Reads

variable {α β : Type} {P : α → List Char → Prop} {Q : β → List Char → Prop} {D D' : Prop}
  {x : Except Failure (α × List UInt8)}

theorem ok {a : α} {b : List Char} (h : P a b) : Reads P D (.ok (a, bytes b)) := ⟨b, rfl, h⟩

theorem err {rest : List UInt8} {message : String} : Reads P D (Reader.err rest message) := .inl rfl

theorem bind {f : α × List UInt8 → Except Failure (β × List UInt8)} (h : Reads P D x)
    (hf : ∀ a b, P a b → Reads Q D (f (a, bytes b))) : Reads Q D (x >>= f) := by
  cases x with
  | error e => exact h
  | ok a =>
    obtain ⟨b, hb, hP⟩ := h
    have hnext := hf a.1 b hP
    rw [← hb] at hnext
    exact hnext

theorem mono {P' : α → List Char → Prop} (h : Reads P D x) (hP : ∀ a b, P a b → P' a b)
    (hD : D → D') : Reads P' D' x := by
  cases x with
  | error e => exact h.imp_right (And.imp_right hD)
  | ok a =>
    obtain ⟨b, hb, hPb⟩ := h
    exact ⟨b, hb, hP a.1 b hPb⟩

end Reads

/-! ### Kinds of bytes -/

theorem ws_ascii : Ascii isWs Grammar.isWs :=
  (((Ascii.char 0x20 ' ' (by decide) rfl).or (.char 0x09 '\t' (by decide) rfl)).or
    (.char 0x0A '\n' (by decide) rfl)).or (.char 0x0D '\r' (by decide) rfl)

theorem digit_ascii : Ascii isDigit Grammar.isDigit := .range 0x30 0x39 (by decide)

/-- A digit other than zero. -/
def isNonzero (c : Char) : Bool := Grammar.isDigit c && c ≠ '0'

theorem isNonzero_eq (c : Char) : isNonzero c = (49 ≤ c.toNat && c.toNat ≤ 57) := by
  have hzero : c = '0' ↔ c.toNat = 48 := Char.toNat_inj.symm
  rw [Bool.eq_iff_iff]
  simp only [isNonzero, Grammar.isDigit, ne_eq, and_eq_true, decide_eq_true_eq, hzero]
  omega

theorem nonzero_ascii : Ascii (fun b => 0x31 ≤ b && b ≤ 0x39) isNonzero := by
  rw [funext isNonzero_eq]
  exact .range 0x31 0x39 (by decide)

/-- `e` or `E`. -/
def isMark (c : Char) : Bool := c = 'e' || c = 'E'

theorem mark_ascii : Ascii (fun b => b = 0x65 || b = 0x45) isMark :=
  (Ascii.char 0x65 'e' (by decide) rfl).or (.char 0x45 'E' (by decide) rfl)

def isSign (c : Char) : Bool := c = '+' || c = '-'

theorem sign_ascii : Ascii (fun b => b = 0x2B || b = 0x2D) isSign :=
  (Ascii.char 0x2B '+' (by decide) rfl).or (.char 0x2D '-' (by decide) rfl)

theorem zero_ascii : Ascii (· = 0x30) (· = '0') := .char _ _ (by decide) rfl

theorem minus_ascii : Ascii (· = 0x2D) (· = '-') := .char _ _ (by decide) rfl

theorem point_ascii : Ascii (· = 0x2E) (· = '.') := .char _ _ (by decide) rfl

theorem quote_ascii : Ascii (· = 0x22) (· = '"') := .char _ _ (by decide) rfl

theorem backslash_ascii : Ascii (· = 0x5C) (· = '\\') := .char _ _ (by decide) rfl

theorem control_ascii : Ascii (· ≤ 0x1F) (fun c => c.toNat ≤ 0x1F) := by
  refine .of_nat (f := fun n => n ≤ 0x1F) (fun b => ?_) (fun c => rfl) fun n hn => ?_
  · simp only [UInt8.le_iff_toNat_le, UInt8.reduceToNat]
  · simp only [decide_eq_true_eq] at hn
    omega

/-! ### White space -/

theorem skipWs_bytes (cs : List Char) : skipWs (bytes cs) = bytes (cs.dropWhile Grammar.isWs) :=
  ws_ascii.dropWhile cs

/-- White space is taken from the front, and none is left there. -/
theorem skipWs_spec (cs : List Char) : ∃ w ds, cs = w ++ ds ∧ Grammar.Ws w ∧
    skipWs (bytes cs) = bytes ds ∧ ∀ c ∈ ds.head?, Grammar.isWs c = false := by
  refine ⟨cs.takeWhile Grammar.isWs, cs.dropWhile Grammar.isWs,
    takeWhile_append_dropWhile.symm, fun c hc => mem_takeWhile_imp hc, skipWs_bytes cs, ?_⟩
  intro c hc
  have h := List.head?_dropWhile_not Grammar.isWs cs
  rw [hc] at h
  simpa using h

theorem skipWs_ws {w ds : List Char} (hw : Grammar.Ws w)
    (hds : ∀ c ∈ ds.head?, Grammar.isWs c = false) : skipWs (bytes (w ++ ds)) = bytes ds := by
  rw [skipWs_bytes, dropWhile_append_of_pos hw]
  cases ds with
  | nil => rfl
  | cons c ds => rw [dropWhile_cons_of_neg (by simp [hds c rfl])]

/-! ### Numbers -/

theorem takes_digits (cs : List Char) : ∃ a b, cs = a ++ b ∧ (∀ c ∈ a, Grammar.isDigit c = true) ∧
    (bytes cs).dropWhile isDigit = bytes b :=
  ⟨cs.takeWhile Grammar.isDigit, cs.dropWhile Grammar.isDigit,
    takeWhile_append_dropWhile.symm, fun _ hc => mem_takeWhile_imp hc,
    digit_ascii.dropWhile cs⟩

variable {a : List Char}

theorem drops_digits {b : List Char} (ha : ∀ c ∈ a, Grammar.isDigit c = true)
    (hb : ∀ c ∈ b.head?, Grammar.isDigit c = false) : (bytes (a ++ b)).dropWhile isDigit = bytes b := by
  rw [digit_ascii.dropWhile, dropWhile_append_of_pos ha]
  cases b with
  | nil => rfl
  | cons c b => rw [dropWhile_cons_of_neg (by simp [hb c rfl])]

section

variable {cs : List Char} {r : List UInt8} {message : String}

theorem parseInt_sound (h : parseInt (bytes cs) = .ok r) :
    ∃ a b, cs = a ++ b ∧ Grammar.IntPart a ∧ r = bytes b := by
  unfold parseInt at h
  split at h
  · rename_i hnext
    obtain ⟨c, ds, rfl, hc, htail⟩ := zero_ascii.next hnext
    simp only [decide_eq_true_eq] at hc
    cases h
    exact ⟨['0'], ds, by rw [hc]; rfl, .zero, htail⟩
  · split at h
    · rename_i hnext
      obtain ⟨c, ds, rfl, hc, htail⟩ := nonzero_ascii.next hnext
      simp only [isNonzero, and_eq_true, decide_eq_true_eq] at hc
      obtain ⟨a, b, rfl, ha, hb⟩ := takes_digits ds
      cases h
      exact ⟨c :: a, b, rfl, .digits hc.1 hc.2 ha, by rw [htail, hb]⟩
    · cases h

variable {rest : List UInt8} {e : Failure}

theorem err_kind {α : Type} (h : (err rest message : Except Failure α) = .error e) :
    e.kind = .syntaxError := by
  cases h
  rfl

theorem parseInt_error (h : parseInt (bytes cs) = .error e) : e.kind = .syntaxError := by
  unfold parseInt at h
  split at h
  · cases h
  · split at h
    · cases h
    · exact err_kind h

variable {a b : List Char}

theorem parseInt_complete (ha : Grammar.IntPart a) (hb : ∀ c ∈ b.head?, Grammar.isDigit c = false) :
    parseInt (bytes (a ++ b)) = .ok (bytes b) := by
  unfold parseInt
  cases ha with
  | zero =>
    rw [singleton_append, zero_ascii.nextIs_cons]
    simp only [decide_true, if_true]
    rw [Ascii.tail_cons (by decide)]
  | @digits d ds first nonzero rest =>
    have hlt := digit_ascii.wide d first
    rw [cons_append, zero_ascii.nextIs_cons, nonzero_ascii.nextIs_cons, Ascii.tail_cons hlt,
      drops_digits rest hb]
    simp [nonzero, isNonzero, first]

theorem parseDigits_sound (h : parseDigits (bytes cs) message = .ok r) :
    ∃ a b, cs = a ++ b ∧ Grammar.Digits a ∧ r = bytes b := by
  unfold parseDigits at h
  split at h
  · rename_i hnext
    obtain ⟨c, ds, rfl, hc, -⟩ := digit_ascii.next hnext
    cases h
    refine ⟨(c :: ds).takeWhile Grammar.isDigit, (c :: ds).dropWhile Grammar.isDigit,
      takeWhile_append_dropWhile.symm, ⟨?_, fun _ hc => mem_takeWhile_imp hc⟩,
      digit_ascii.dropWhile _⟩
    rw [takeWhile_cons_of_pos hc]
    exact cons_ne_nil _ _
  · cases h

theorem parseDigits_error (h : parseDigits rest message = .error e) : e.kind = .syntaxError := by
  unfold parseDigits at h
  split at h
  · cases h
  · exact err_kind h

theorem parseDigits_complete (ha : Grammar.Digits a) (hb : ∀ c ∈ b.head?, Grammar.isDigit c = false)
    (message : String) : parseDigits (bytes (a ++ b)) message = .ok (bytes b) := by
  unfold parseDigits
  obtain ⟨c, ds, rfl⟩ := exists_cons_of_ne_nil ha.1
  rw [drops_digits ha.2 hb, cons_append, digit_ascii.nextIs_cons, if_pos (ha.2 c mem_cons_self)]

theorem parseFrac_sound (h : parseFrac (bytes cs) = .ok r) :
    ∃ a b, cs = a ++ b ∧ Grammar.Frac a ∧ r = bytes b := by
  unfold parseFrac at h
  split at h
  · rename_i hnext
    obtain ⟨c, ds, rfl, hc, htail⟩ := point_ascii.next hnext
    simp only [decide_eq_true_eq] at hc
    rw [htail] at h
    obtain ⟨a, b, rfl, ha, rfl⟩ := parseDigits_sound h
    exact ⟨'.' :: a, b, by rw [hc]; rfl, .digits ha, rfl⟩
  · cases h
    exact ⟨[], cs, rfl, .absent, rfl⟩

theorem parseFrac_error (h : parseFrac rest = .error e) : e.kind = .syntaxError := by
  unfold parseFrac at h
  split at h
  · exact parseDigits_error h
  · cases h

theorem parseFrac_complete (ha : Grammar.Frac a) (hb : ∀ c ∈ b.head?, Grammar.isDigit c = false)
    (hpoint : ∀ c ∈ b.head?, c ≠ '.') : parseFrac (bytes (a ++ b)) = .ok (bytes b) := by
  unfold parseFrac
  cases ha with
  | absent =>
    cases b with
    | nil => rfl
    | cons c b =>
      rw [nil_append, point_ascii.nextIs_cons]
      simp [hpoint c rfl]
  | digits digits =>
    rw [cons_append, point_ascii.nextIs_cons, Ascii.tail_cons (by decide), parseDigits_complete digits hb]
    rfl

theorem skipSign_bytes (cs : List Char) : ∃ sign ds, cs = sign ++ ds ∧
    (sign = [] ∨ sign = ['+'] ∨ sign = ['-']) ∧ skipSign (bytes cs) = bytes ds := by
  unfold skipSign
  split
  · rename_i hnext
    obtain ⟨c, ds, rfl, hc, htail⟩ := sign_ascii.next hnext
    simp only [isSign, or_eq_true, decide_eq_true_eq] at hc
    refine ⟨[c], ds, rfl, ?_, htail⟩
    obtain rfl | rfl := hc <;> simp
  · exact ⟨[], cs, rfl, .inl rfl, rfl⟩

theorem parseExp_sound (h : parseExp (bytes cs) = .ok r) :
    ∃ a b, cs = a ++ b ∧ Grammar.Exp a ∧ r = bytes b := by
  unfold parseExp at h
  split at h
  · rename_i hnext
    obtain ⟨c, ds, rfl, hc, htail⟩ := mark_ascii.next hnext
    simp only [isMark, or_eq_true, decide_eq_true_eq] at hc
    obtain ⟨sign, es, rfl, hsign, hskip⟩ := skipSign_bytes ds
    rw [htail, hskip] at h
    obtain ⟨a, b, rfl, ha, rfl⟩ := parseDigits_sound h
    exact ⟨c :: (sign ++ a), b, by simp, .digits hc hsign ha, rfl⟩
  · cases h
    exact ⟨[], cs, rfl, .absent, rfl⟩

theorem parseExp_error (h : parseExp rest = .error e) : e.kind = .syntaxError := by
  unfold parseExp at h
  split at h
  · exact parseDigits_error h
  · cases h

theorem parseExp_complete (ha : Grammar.Exp a) (hb : ∀ c ∈ b.head?, Grammar.isDigit c = false)
    (hmark : ∀ c ∈ b.head?, isMark c = false) : parseExp (bytes (a ++ b)) = .ok (bytes b) := by
  unfold parseExp
  cases ha with
  | absent =>
    cases b with
    | nil => rfl
    | cons c b =>
      rw [nil_append, mark_ascii.nextIs_cons]
      simp [hmark c rfl]
  | @digits e sign ds mark sign_ok digits =>
    have hmarked : isMark e = true := by obtain rfl | rfl := mark <;> rfl
    have hskip : skipSign (bytes (sign ++ (ds ++ b))) = bytes (ds ++ b) := by
      unfold skipSign
      obtain rfl | rfl | rfl := sign_ok
      · obtain ⟨d, ds, rfl⟩ := exists_cons_of_ne_nil digits.1
        have hd := digits.2 d mem_cons_self
        have hsign : isSign d = false := by
          simp only [isSign, or_eq_false_iff, decide_eq_false_iff_not]
          constructor <;> rintro rfl <;> exact absurd hd (by decide)
        rw [nil_append, cons_append, sign_ascii.nextIs_cons, hsign]
        rfl
      · rw [singleton_append, sign_ascii.nextIs_cons, Ascii.tail_cons (by decide)]
        rfl
      · rw [singleton_append, sign_ascii.nextIs_cons, Ascii.tail_cons (by decide)]
        rfl
    rw [cons_append, append_assoc, mark_ascii.nextIs_cons, hmarked,
      Ascii.tail_cons (mark_ascii.wide e hmarked), hskip, parseDigits_complete digits hb]
    rfl

/-- Numbers are made of bytes below `0x80`. -/
theorem number_ascii (ha : Grammar.Number a) : ∀ c ∈ a, c.toNat < 128 := by
  intro c hc
  have h := ha.chars c hc
  simp only [Grammar.isNumberChar, Grammar.isDigit, or_eq_true, and_eq_true, decide_eq_true_eq] at h
  obtain ((((h | rfl) | rfl) | rfl) | rfl) | rfl := h
  · omega
  all_goals decide

/-- The digits taken between two places of a text are its characters there. -/
theorem lexeme_bytes (ha : ∀ c ∈ a, c.toNat < 128) :
    ((bytes (a ++ b)).take ((bytes (a ++ b)).length - (bytes b).length)).map
      (fun x => Char.ofNat x.toNat) = a := by
  have hlen : (bytes (a ++ b)).length - (bytes b).length = (bytes a).length := by
    rw [bytes_append, length_append]
    omega
  rw [hlen, bytes_append, take_left, chars_bytes_ascii ha]

theorem isBoundary_bytes (cs : List Char) : isBoundary (bytes cs) = true := by
  unfold isBoundary
  rw [not_continuation]
  rfl

theorem parseNumber_of_parts {sign int frac exp ds es : List Char} {cs : List Char}
    (hskip : (if nextIs (· = 0x2D) (bytes cs) then (bytes cs).tail else bytes cs) = bytes ds)
    (hint : parseInt (bytes ds) = .ok (bytes es))
    (hfrac : parseFrac (bytes es) = .ok (bytes (exp ++ b)))
    (hexp : parseExp (bytes (exp ++ b)) = .ok (bytes b))
    (hcs : cs = (sign ++ (int ++ (frac ++ exp))) ++ b)
    (hnum : Grammar.Number (sign ++ (int ++ (frac ++ exp)))) :
    parseNumber (bytes cs) = .ok (.number (sign ++ (int ++ (frac ++ exp))), bytes b) := by
  unfold parseNumber
  simp only [hskip, hint, hfrac, hexp, bind, Except.bind, isBoundary_bytes]
  rw [hcs, lexeme_bytes (number_ascii hnum)]
  rfl

theorem parseNumber_reads (cs : List Char) : Reads (fun v b => ∃ a, cs = a ++ b ∧
    Grammar.Number a ∧ v = .number a) False (parseNumber (bytes cs)) := by
  obtain ⟨sign, ds, hds, hsign, hskip⟩ : ∃ sign ds, cs = sign ++ ds ∧ (sign = [] ∨ sign = ['-']) ∧
      (if nextIs (· = 0x2D) (bytes cs) then (bytes cs).tail else bytes cs) = bytes ds := by
    split
    · rename_i hnext
      obtain ⟨c, ds, rfl, hc, htail⟩ := minus_ascii.next hnext
      simp only [decide_eq_true_eq] at hc
      exact ⟨['-'], ds, by rw [hc]; rfl, .inr rfl, htail⟩
    · exact ⟨[], cs, rfl, .inl rfl, rfl⟩
  cases hint : parseInt (bytes ds) with
  | error e =>
    simp only [parseNumber, hskip, hint, bind, Except.bind]
    exact .inl (parseInt_error hint)
  | ok r =>
    obtain ⟨int, es, rfl, hi, rfl⟩ := parseInt_sound hint
    cases hfrac : parseFrac (bytes es) with
    | error e =>
      simp only [parseNumber, hskip, hint, hfrac, bind, Except.bind]
      exact .inl (parseFrac_error hfrac)
    | ok r =>
      obtain ⟨frac, fs, rfl, hf, rfl⟩ := parseFrac_sound hfrac
      cases hexp : parseExp (bytes fs) with
      | error e =>
        simp only [parseNumber, hskip, hint, hfrac, hexp, bind, Except.bind]
        exact .inl (parseExp_error hexp)
      | ok r =>
        obtain ⟨exp, b, rfl, he, rfl⟩ := parseExp_sound hexp
        have hnum : Grammar.Number (sign ++ (int ++ (frac ++ exp))) :=
          ⟨sign, int, frac, exp, hsign, hi, hf, he, rfl⟩
        have hcs : cs = (sign ++ (int ++ (frac ++ exp))) ++ b := by
          rw [hds]
          simp only [append_assoc]
        rw [parseNumber_of_parts hskip hint hfrac hexp hcs hnum]
        exact .ok ⟨_, hcs, hnum, rfl⟩

/-- What follows a number does not go on with it. -/
def Ends (b : List Char) : Prop := ∀ c ∈ b.head?, Grammar.isNumberChar c = false

theorem Ends.apart (h : Ends b) : (∀ c ∈ b.head?, Grammar.isDigit c = false) ∧ (∀ c ∈ b.head?, c ≠ '.') ∧
      ∀ c ∈ b.head?, isMark c = false := by
  refine ⟨fun c hc => ?_, fun c hc => ?_, fun c hc => ?_⟩ <;>
    · have h := h c hc
      simp only [Grammar.isNumberChar, or_eq_false_iff, decide_eq_false_iff_not] at h
      simp [isMark, h]

theorem parseNumber_complete (ha : Grammar.Number a) (hb : Ends b) :
    parseNumber (bytes (a ++ b)) = .ok (.number a, bytes b) := by
  obtain ⟨hdigit, hpoint, hmark⟩ := hb.apart
  have hnum := ha
  obtain ⟨sign, int, frac, exp, hsign, hint, hfrac, hexp, rfl⟩ := ha
  -- After the digits of one part stands the mark of the next, or what follows the number.
  have hexpb : (∀ c ∈ (exp ++ b).head?, Grammar.isDigit c = false) ∧ ∀ c ∈ (exp ++ b).head?, c ≠ '.' := by
    cases hexp with
    | absent => exact ⟨hdigit, hpoint⟩
    | digits mark _ _ =>
      simp only [cons_append, List.head?_cons, Option.mem_def, Option.some.injEq, forall_eq']
      obtain rfl | rfl := mark <;> decide
  have hfracb : ∀ c ∈ (frac ++ (exp ++ b)).head?, Grammar.isDigit c = false := by
    cases hfrac with
    | absent => exact hexpb.1
    | digits _ =>
      rintro c ⟨⟩
      decide
  have hcs : (sign ++ (int ++ (frac ++ exp))) ++ b = sign ++ (int ++ (frac ++ (exp ++ b))) := by
    simp only [append_assoc]
  refine parseNumber_of_parts ?_ (parseInt_complete hint hfracb) (parseFrac_complete hfrac hexpb.1 hexpb.2)
    (parseExp_complete hexp hdigit hmark) rfl hnum
  rw [hcs]
  obtain rfl | rfl := hsign
  · have hnot : nextIs (· = 0x2D) (bytes (int ++ (frac ++ (exp ++ b)))) = false := by
      cases hint with
      | zero => exact minus_ascii.nextIs_cons _ _
      | @digits d ds first _ _ =>
        rw [cons_append, minus_ascii.nextIs_cons, decide_eq_false_iff_not]
        rintro rfl
        exact absurd first (by decide)
    rw [nil_append, hnot]
    rfl
  · rw [singleton_append, minus_ascii.nextIs_cons, Ascii.tail_cons (by decide)]
    rfl

end

/-! ### Strings -/

variable {c : Char}

theorem hexValue_byte (h : c.toNat < 128) : hexValue (UInt8.ofNat c.toNat) = Grammar.hexDigitValue c := by
  have hnat : (UInt8.ofNat c.toNat).toNat = c.toNat := by
    rw [UInt8.toNat_ofNat', Nat.mod_eq_of_lt (by omega)]
  simp only [hexValue, Grammar.hexDigitValue, UInt8.le_iff_toNat_le, hnat, UInt8.reduceToNat]

theorem hexValue_wide {b : UInt8} (h : 128 ≤ b.toNat) : hexValue b = none := by
  simp only [hexValue, UInt8.le_iff_toNat_le, UInt8.reduceToNat]
  rw [if_neg (by omega), if_neg (by omega), if_neg (by omega)]

theorem hexDigit_ascii {v : ℕ} (h : Grammar.hexDigitValue c = some v) : c.toNat < 128 := by
  by_contra hc
  unfold Grammar.hexDigitValue at h
  rw [if_neg (by omega), if_neg (by omega), if_neg (by omega)] at h
  cases h

/-- Characters that are hexadecimal digits, with their values. -/
abbrev HexDigits : List Char → List ℕ → Prop := List.Forall₂ fun c v => Grammar.hexDigitValue c = some v

variable {n : ℕ} {cs : List Char} {vs : List ℕ}

theorem hexValues_sound (hn : n ≤ (bytes cs).length) (h : hexValues ((bytes cs).take n) = some vs) :
    ∃ as ds, cs = as ++ ds ∧ HexDigits as vs ∧ as.length = n ∧ (bytes cs).drop n = bytes ds := by
  induction n generalizing cs vs with
  | zero =>
    cases h
    exact ⟨[], cs, rfl, .nil, rfl, rfl⟩
  | succ n ih =>
    cases hbytes : bytes cs with
    | nil =>
      rw [hbytes] at hn
      simp at hn
    | cons x t =>
      rw [hbytes] at h hn
      simp only [take_succ_cons, hexValues, Option.bind_eq_bind, Option.bind_eq_some_iff,
        Option.pure_def, Option.some.injEq] at h
      obtain ⟨v, hv, vs', hvs, rfl⟩ := h
      obtain ⟨c, ds, rfl, ⟨hc, rfl, rfl⟩ | ⟨-, hwide⟩⟩ := bytes_eq_cons hbytes
      · rw [hexValue_byte hc] at hv
        obtain ⟨as, ds, rfl, hdigits, hlen, hdrop⟩ := ih (by simpa using hn) hvs
        exact ⟨c :: as, ds, rfl, .cons hv hdigits, by simp [hlen], hdrop⟩
      · rw [hexValue_wide hwide] at hv
        cases hv

theorem hexValues_complete {as : List Char} (h : HexDigits as vs) :
    hexValues (bytes as) = some vs ∧ (bytes as).length = as.length := by
  induction h with
  | nil => exact ⟨rfl, rfl⟩
  | @cons c v as vs hv _ ih =>
    have hc := hexDigit_ascii hv
    rw [bytes_cons, encode_ascii hc, singleton_append]
    simp only [hexValues, hexValue_byte hc, hv, ih.1, length_cons, ih.2]
    exact ⟨rfl, trivial⟩

/-- What stands for the unit `u` after a backslash. -/
def Escapes (a : List Char) (u : UInt16) : Prop :=
  ∀ ds us, Grammar.Chars ds us → Grammar.Chars ('\\' :: (a ++ ds)) (u :: us)

theorem parseHex4_reads (cs : List Char) :
    Reads (fun u b => ∃ a, cs = a ++ b ∧ Escapes ('u' :: a) u) False (parseHex4 (bytes cs)) := by
  unfold parseHex4
  split
  · exact .err
  · rename_i hlen
    split
    · rename_i vs hvs
      obtain ⟨as, ds, rfl, hdigits, hfour, hdrop⟩ := hexValues_sound (by omega) hvs
      rw [hdrop]
      refine .ok ⟨as, rfl, ?_⟩
      match as, vs, hdigits, hfour with
      | [_, _, _, _], _, .cons ha (.cons hb (.cons hc (.cons hd .nil))), _ =>
        intro ds us hrest
        simpa using Grammar.Chars.unicode ha hb hc hd hrest
    · exact .err

theorem parseHex4_complete {a b d : Char} {va vb vc vd : ℕ} (ha : Grammar.hexDigitValue a = some va)
    (hb : Grammar.hexDigitValue b = some vb) (hc : Grammar.hexDigitValue c = some vc)
    (hd : Grammar.hexDigitValue d = some vd) (ds : List Char) :
    parseHex4 (bytes (a :: b :: c :: d :: ds)) =
      .ok (UInt16.ofNat (((va * 16 + vb) * 16 + vc) * 16 + vd), bytes ds) := by
  have hdigits : HexDigits [a, b, c, d] [va, vb, vc, vd] := .cons ha (.cons hb (.cons hc (.cons hd .nil)))
  obtain ⟨hvs, hlen⟩ := hexValues_complete hdigits
  have hfour : (bytes [a, b, c, d]).length = 4 := hlen
  have hsplit : bytes (a :: b :: c :: d :: ds) = bytes [a, b, c, d] ++ bytes ds := by
    rw [← bytes_append]
    rfl
  unfold parseHex4
  rw [hsplit, take_left' hfour, drop_left' hfour, hvs, if_neg ?_]
  · simp
  · rw [length_append, hfour]
    omega

theorem escapeUnit_byte (h : c.toNat < 128) : escapeUnit (UInt8.ofNat c.toNat) = Grammar.escapeUnit c := by
  have hnat : (UInt8.ofNat c.toNat).toNat = c.toNat := by
    rw [UInt8.toNat_ofNat', Nat.mod_eq_of_lt (by omega)]
  simp only [escapeUnit, Grammar.escapeUnit, ← UInt8.toNat_inj, ← Char.toNat_inj, hnat]
  rfl

theorem escapeUnit_wide {b : UInt8} (h : 128 ≤ b.toNat) : escapeUnit b = none := by
  have hne : ∀ x : UInt8, x.toNat < 128 → b ≠ x := by
    rintro x hx rfl
    omega
  simp only [escapeUnit, hne 0x22 (by decide), hne 0x5C (by decide), hne 0x2F (by decide),
    hne 0x62 (by decide), hne 0x66 (by decide), hne 0x6E (by decide), hne 0x72 (by decide),
    hne 0x74 (by decide), if_false]

variable {u : UInt16}

theorem escape_ascii (h : Grammar.escapeUnit c = some u) : c.toNat < 128 := by
  by_contra hc
  have hne : ∀ x : Char, x.toNat < 128 → c ≠ x := by
    rintro x hx rfl
    exact hc hx
  unfold Grammar.escapeUnit at h
  simp [hne '"' (by decide), hne '\\' (by decide), hne '/' (by decide), hne 'b' (by decide),
    hne 'f' (by decide), hne 'n' (by decide), hne 'r' (by decide), hne 't' (by decide)] at h

theorem parseEscape_reads (cs : List Char) :
    Reads (fun u b => ∃ a, cs = a ++ b ∧ Escapes a u) False (parseEscape (bytes cs)) := by
  cases hbytes : bytes cs with
  | nil => exact .err
  | cons x t =>
    obtain ⟨c, ds, rfl, ⟨hc, rfl, rfl⟩ | ⟨-, hwide⟩⟩ := bytes_eq_cons hbytes
    · simp only [parseEscape, escapeUnit_byte hc]
      split
      · rename_i u hu
        exact .ok ⟨[c], rfl, fun ds us hrest => .escape hu hrest⟩
      · split
        · rename_i hx
          obtain rfl : c = 'u' := by
            rw [← Char.ofNat_toNat c]
            have h := congrArg UInt8.toNat hx
            rw [UInt8.toNat_ofNat', Nat.mod_eq_of_lt (by omega)] at h
            rw [h]
            rfl
          refine (parseHex4_reads ds).mono ?_ id
          rintro u b ⟨a, rfl, ha⟩
          exact ⟨'u' :: a, rfl, ha⟩
        · exact .err
    · have hnone := escapeUnit_wide hwide
      have hx : x ≠ 0x75 := by
        rintro rfl
        exact absurd hwide (by decide)
      simp only [parseEscape, hnone, if_neg hx]
      exact .err

/-- The reader stops at the first quote that is not escaped. -/
theorem parseUnits_reads (hn : (bytes cs).length < n) :
    Reads (fun us b => ∃ a, cs = a ++ '"' :: b ∧ Grammar.Chars a us) False
      (parseUnits n (bytes cs)) := by
  induction n generalizing cs with
  | zero => omega
  | succ n ih =>
    unfold parseUnits
    split
    · exact .err
    · rename_i hne
      split
      · rename_i hnext
        obtain ⟨c, ds, rfl, hc, htail⟩ := quote_ascii.next hnext
        simp only [decide_eq_true_eq] at hc
        rw [htail]
        exact .ok ⟨[], by rw [hc]; rfl, .nil⟩
      · rename_i hquote
        split
        · rename_i hnext
          obtain ⟨c, ds, rfl, hc, htail⟩ := backslash_ascii.next hnext
          simp only [decide_eq_true_eq] at hc
          subst hc
          rw [htail]
          refine (parseEscape_reads ds).bind ?_
          rintro u r ⟨a, rfl, ha⟩
          have hlen : (bytes r).length < n := by
            rw [bytes_cons, encode_ascii (by decide), bytes_append] at hn
            simp only [length_append, length_cons, length_nil] at hn
            omega
          refine (ih hlen).bind ?_
          rintro us b ⟨a', rfl, ha'⟩
          exact .ok ⟨'\\' :: (a ++ a'), by simp, ha a' us ha'⟩
        · rename_i hbackslash
          split
          · exact .err
          · rename_i hcontrol
            obtain ⟨c, ds, rfl⟩ := exists_cons_of_ne_nil (mt bytes_eq_nil_iff.mpr hne)
            rw [quote_ascii.nextIs_cons, decide_eq_true_eq] at hquote
            rw [backslash_ascii.nextIs_cons, decide_eq_true_eq] at hbackslash
            rw [control_ascii.nextIs_cons, decide_eq_true_eq] at hcontrol
            rw [nextChar?_bytes_cons]
            have hlen : (bytes ds).length < n := by
              have hpos := length_pos_iff.mpr (encode_ne_nil c)
              rw [bytes_cons, length_append] at hn
              omega
            refine (ih hlen).bind ?_
            rintro us b ⟨a, rfl, ha⟩
            exact .ok ⟨c :: a, rfl, .unescaped (by omega) hquote hbackslash ha⟩

theorem parseString_reads (cs : List Char) :
    Reads (fun us b => ∃ a, cs = '"' :: (a ++ '"' :: b) ∧ Grammar.Chars a us) False
      (parseString (bytes cs)) := by
  unfold parseString
  split
  · rename_i hnext
    obtain ⟨c, ds, rfl, hc, htail⟩ := quote_ascii.next hnext
    simp only [decide_eq_true_eq] at hc
    subst hc
    rw [htail]
    refine (parseUnits_reads (Nat.lt_succ_self _)).mono ?_ id
    rintro us b ⟨a, rfl, ha⟩
    exact ⟨a, rfl, ha⟩
  · exact .err

theorem parseEscape_unit (h : Grammar.escapeUnit c = some u) (ds : List Char) :
    parseEscape (bytes (c :: ds)) = .ok (u, bytes ds) := by
  have hc := escape_ascii h
  rw [bytes_cons, encode_ascii hc, singleton_append]
  simp only [parseEscape, escapeUnit_byte hc, h]

variable {r : List UInt8}

theorem parseEscape_unicode {ds : List Char} (h : parseHex4 (bytes ds) = .ok (u, r)) :
    parseEscape (bytes ('u' :: ds)) = .ok (u, r) := by
  rw [bytes_cons, encode_ascii (by decide), singleton_append]
  have hnone : escapeUnit (UInt8.ofNat 'u'.toNat) = none := by decide
  simp only [parseEscape, hnone]
  exact h

variable {us : JsString}

/-- One round of the reader on an escape sequence. -/
theorem parseUnits_backslash {ds es : List Char} (hesc : parseEscape (bytes ds) = .ok (u, bytes es))
    (h : parseUnits n (bytes es) = .ok (us, r)) :
    parseUnits (n + 1) (bytes ('\\' :: ds)) = .ok (u :: us, r) := by
  have hne : bytes ('\\' :: ds) ≠ [] := by simp
  unfold parseUnits
  rw [if_neg hne, quote_ascii.nextIs_cons, backslash_ascii.nextIs_cons, Ascii.tail_cons (by decide)]
  simp only [hesc, h, bind, Except.bind]
  rfl

theorem parseUnits_complete (h : Grammar.Chars a us) (b : List Char) :
    ∀ n, (bytes (a ++ '"' :: b)).length < n → parseUnits n (bytes (a ++ '"' :: b)) = .ok (us, bytes b) := by
  have hlen : ∀ (c : Char) (cs : List Char) (n : ℕ), (bytes (c :: cs)).length < n + 1 →
      (bytes cs).length < n := by
    intro c cs n hn
    have hpos := length_pos_iff.mpr (encode_ne_nil c)
    rw [bytes_cons, length_append] at hn
    omega
  induction h with
  | nil =>
    rintro (_ | n) hn
    · omega
    · have hne : bytes ('"' :: b) ≠ [] := by simp
      unfold parseUnits
      rw [nil_append, if_neg hne, quote_ascii.nextIs_cons, Ascii.tail_cons (by decide)]
      rfl
  | @unescaped c cs us range quote backslash rest ih =>
    rintro (_ | n) hn
    · omega
    · have hne : bytes (c :: (cs ++ '"' :: b)) ≠ [] := by simp
      have hcontrol : ¬ c.toNat ≤ 0x1F := by omega
      unfold parseUnits
      rw [cons_append, if_neg hne, quote_ascii.nextIs_cons, backslash_ascii.nextIs_cons,
        control_ascii.nextIs_cons, nextChar?_bytes_cons]
      simp only [quote, backslash, hcontrol, decide_false, ih n (hlen _ _ _ hn), bind, Except.bind]
      rfl
  | @escape c u cs us unit rest ih =>
    rintro (_ | n) hn
    · omega
    · refine parseUnits_backslash (parseEscape_unit unit _) (ih n ?_)
      have h := hlen _ _ _ (Nat.lt_succ_of_lt (hlen _ _ _ hn))
      exact h
  | @unicode a b' c d va vb vc vd cs us ha hb hc hd rest ih =>
    rintro (_ | n) hn
    · omega
    · refine parseUnits_backslash (parseEscape_unicode (parseHex4_complete ha hb hc hd _)) (ih n ?_)
      have hweak := fun c cs h => hlen c cs n (Nat.lt_succ_of_lt h)
      exact hweak _ _ (hweak _ _ (hweak _ _ (hweak _ _ (hweak _ _ (hlen _ _ _ hn)))))

theorem parseString_complete (h : Grammar.Chars a us) (b : List Char) :
    parseString (bytes ('"' :: (a ++ '"' :: b))) = .ok (us, bytes b) := by
  unfold parseString
  rw [quote_ascii.nextIs_cons, Ascii.tail_cons (by decide)]
  exact parseUnits_complete h b _ (Nat.lt_succ_self _)

end Reader

end Plur1bus.Engine
