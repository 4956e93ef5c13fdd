import Plur1bus.Engine.Parsing

/-!
Writing and reading again. What the writer makes of a value is a text the grammar
derives as that value, whatever units its strings have; so the reader gives the
value back.
-/

namespace Plur1bus.Engine

open Program
open Grammar (Chars Derives Text Ws)

/-! ### Strings -/

theorem hexDigitValue_hexDigit : ∀ n < 16, Grammar.hexDigitValue (hexDigit n) = some n := by
  decide

variable {cs : List Char} {us : JsString}

theorem chars_unicodeEscape (u : UInt16) (h : Chars cs us) : Chars (unicodeEscape u ++ cs) (u :: us) := by
  have hu := u.toNat_lt
  have hmod : ∀ n : ℕ, Grammar.hexDigitValue (hexDigit (n % 16)) = some (n % 16) := fun n =>
    hexDigitValue_hexDigit _ (Nat.mod_lt _ (by decide))
  have hchars := Chars.unicode (hmod (u.toNat / 256 / 16)) (hmod (u.toNat / 256))
    (hmod (u.toNat / 16)) (hmod u.toNat) h
  have hvalue : ((u.toNat / 256 / 16 % 16 * 16 + u.toNat / 256 % 16) * 16 + u.toNat / 16 % 16) * 16 +
      u.toNat % 16 = u.toNat := by omega
  rw [hvalue, UInt16.ofNat_toNat] at hchars
  exact hchars

/-- A unit outside the surrogates is a character. -/
theorem encodeUtf16_unit {u : UInt16} (hhigh : isHigh u = false) (hlow : isLow u = false) :
    (Char.ofNat u.toNat).toNat = u.toNat ∧ encodeUtf16 (Char.ofNat u.toNat) = [u] := by
  have hu := u.toNat_lt
  have hvalid : u.toNat.isValidChar := by
    simp only [isHigh, isLow, Bool.and_eq_false_iff, decide_eq_false_iff_not,
      UInt16.le_iff_toNat_le] at hhigh hlow
    simp at hhigh hlow
    unfold Nat.isValidChar
    omega
  have htoNat := Utf8.toNat_ofNat hvalid
  refine ⟨htoNat, ?_⟩
  unfold encodeUtf16
  rw [htoNat, if_pos (by omega), UInt16.ofNat_toNat]

theorem chars_unitJson (u : UInt16) (h : Chars cs us) : Chars (unitJson u ++ cs) (u :: us) := by
  unfold unitJson
  iterate 7
    split
    · rename_i hu
      exact hu ▸ .escape rfl h
  split
  · exact chars_unicodeEscape u h
  split
  · exact chars_unicodeEscape u h
  · rename_i hquote hbackslash hcontrol hsurrogate
    simp only [Bool.or_eq_true, not_or, Bool.not_eq_true] at hsurrogate
    obtain ⟨htoNat, hencode⟩ := encodeUtf16_unit hsurrogate.1 hsurrogate.2
    have hne : ∀ c : Char, Char.ofNat u.toNat = c → u = UInt16.ofNat c.toNat := by
      rintro c rfl
      rw [htoNat, UInt16.ofNat_toNat]
    have hrange : 0x20 ≤ (Char.ofNat u.toNat).toNat := by
      rw [UInt16.le_iff_toNat_le] at hcontrol
      rw [htoNat]
      simp at hcontrol
      omega
    have hrest := Chars.unescaped hrange (fun hc => hquote (hne '"' hc))
      (fun hc => hbackslash (hne '\\' hc)) h
    rw [hencode] at hrest
    exact hrest

/-- Two surrogates that are a pair are one character, and its two units. -/
theorem encodeUtf16_pair {u lo : UInt16} (hu : isHigh u = true) (hlo : isLow lo = true) :
    let c := Char.ofNat (0x10000 + ((u.toNat - 0xD800) * 0x400 + (lo.toNat - 0xDC00)))
    0x10000 ≤ c.toNat ∧ encodeUtf16 c = [u, lo] := by
  simp only [isHigh, isLow, Bool.and_eq_true, decide_eq_true_eq, UInt16.le_iff_toNat_le] at hu hlo
  simp at hu hlo
  obtain ⟨x, hx⟩ : ∃ x, u.toNat = 0xD800 + x := ⟨u.toNat - 0xD800, by omega⟩
  obtain ⟨y, hy⟩ : ∃ y, lo.toNat = 0xDC00 + y := ⟨lo.toNat - 0xDC00, by omega⟩
  have hvalid : (0x10000 + (x * 0x400 + y)).isValidChar := by
    unfold Nat.isValidChar
    omega
  intro c
  have hc : c.toNat = 0x10000 + (x * 0x400 + y) := by
    have hxy : 0x10000 + ((u.toNat - 0xD800) * 0x400 + (lo.toNat - 0xDC00)) =
        0x10000 + (x * 0x400 + y) := by
      rw [hx, hy]
      omega
    show (Char.ofNat _).toNat = _
    rw [hxy, Utf8.toNat_ofNat hvalid]
  refine ⟨by omega, ?_⟩
  have hhigh : UInt16.ofNat (0xD800 + (c.toNat - 0x10000) / 0x400) = u := by
    have hvalue : 0xD800 + (c.toNat - 0x10000) / 0x400 = u.toNat := by omega
    rw [hvalue, UInt16.ofNat_toNat]
  have hlow : UInt16.ofNat (0xDC00 + (c.toNat - 0x10000) % 0x400) = lo := by
    have hvalue : 0xDC00 + (c.toNat - 0x10000) % 0x400 = lo.toNat := by omega
    rw [hvalue, UInt16.ofNat_toNat]
  unfold encodeUtf16
  rw [if_neg (by omega), hhigh, hlow]

theorem chars_unitsJson (s : JsString) : Chars (unitsJson s) s := by
  induction s using unitsJson.induct with
  | case1 => exact .nil
  | case2 u =>
    have hchars := chars_unitJson u .nil
    rw [List.append_nil] at hchars
    exact hchars
  | case3 u lo us hpair ih =>
    simp only [Bool.and_eq_true] at hpair
    obtain ⟨hwide, hencode⟩ := encodeUtf16_pair hpair.1 hpair.2
    rw [unitsJson, if_pos (by simp [hpair])]
    generalize Char.ofNat _ = c at hwide hencode ⊢
    have hascii : ∀ x : Char, x.toNat < 128 → c ≠ x := by
      rintro x hx rfl
      omega
    have hchars := Chars.unescaped (by omega) (hascii '"' (by decide)) (hascii '\\' (by decide)) ih
    rw [hencode] at hchars
    exact hchars
  | case4 u lo us hpair ih =>
    rw [unitsJson, if_neg hpair]
    exact chars_unitJson u ih

/-! ### Values -/

mutual

/-- Every number of the value has the lexeme of a JSON number. -/
def JsonValue.Lexical : JsonValue → Prop
  | .number lexeme => Grammar.Number lexeme
  | .array items => ItemsLexical items
  | .object entries => EntriesLexical entries
  | _ => True

def ItemsLexical : List JsonValue → Prop
  | [] => True
  | v :: vs => v.Lexical ∧ ItemsLexical vs

def EntriesLexical : List (JsString × JsonValue) → Prop
  | [] => True
  | (_, v) :: es => v.Lexical ∧ EntriesLexical es

end

variable {v : JsonValue}

theorem Grammar.Derives.bare (h : Derives .value cs v) : Derives .element cs v := by
  have helem := Derives.element Ws.nil h Ws.nil
  simpa using helem

mutual

theorem derives_writeJson : ∀ v : JsonValue, v.Lexical → Derives .value (writeJson v) v
  | .null, _ => .null
  | .bool true, _ => .true
  | .bool false, _ => .false
  | .number _, h => .number h
  | .string s, _ => .string (chars_unitsJson s)
  | .array [], _ => .emptyArray Ws.nil
  | .array (v :: vs), h => .array (derives_writeItems (v :: vs) h (List.cons_ne_nil v vs))
  | .object [], _ => .emptyObject Ws.nil
  | .object (e :: es), h => .object (derives_writeEntries (e :: es) h (List.cons_ne_nil e es))

theorem derives_writeItems : ∀ vs : List JsonValue, ItemsLexical vs → vs ≠ [] →
    Derives .elements (writeItems vs) (.array vs)
  | [], _, hne => absurd rfl hne
  | [v], h, _ => .one (derives_writeJson v h.1).bare
  | v :: w :: vs, h, _ =>
    .more (derives_writeJson v h.1).bare (derives_writeItems (w :: vs) h.2 (List.cons_ne_nil w vs))

theorem derives_writeEntries : ∀ es : List (JsString × JsonValue), EntriesLexical es → es ≠ [] →
    Derives .members (writeEntries es) (.object es)
  | [], _, hne => absurd rfl hne
  | [(k, v)], h, _ => by
    have hmember := Derives.member Ws.nil (chars_unitsJson k) Ws.nil (derives_writeJson v h.1).bare
    simpa [writeEntries, toJson] using hmember
  | (k, v) :: e :: es, h, _ => by
    have hmembers := Derives.members Ws.nil (chars_unitsJson k) Ws.nil
      (derives_writeJson v h.1).bare
      (derives_writeEntries (e :: es) h.2 (List.cons_ne_nil e es))
    simpa [writeEntries, toJson] using hmembers

end

/-- The grammar derives no other numbers. -/
theorem Grammar.Derives.lexical {sym : Grammar.Sym} (h : Derives sym cs v) : v.Lexical := by
  induction h with
  | null | true | false | string _ | emptyArray _ | emptyObject _ => trivial
  | number number => exact number
  | array _ ih | object _ ih | element _ _ _ ih => exact ih
  | one _ ih => exact ⟨ih, trivial⟩
  | more _ _ ih₁ ih₂ => exact ⟨ih₁, ih₂⟩
  | member _ _ _ _ ih => exact ⟨ih, trivial⟩
  | members _ _ _ _ _ ih₁ ih₂ => exact ⟨ih₁, ih₂⟩

theorem parseJson_writeJson (hlexical : v.Lexical) (hnesting : v.nesting ≤ MAX_JSON_DEPTH) :
    parseJson (writeJson v) = .ok v :=
  parseJson_ok.mpr ⟨(derives_writeJson v hlexical).bare, hnesting⟩

/-- A text read and written again. -/
def writeAfterParse (s : List Char) : Except TolerantJsonError (List Char) := (parseJson s).map writeJson

/-- Writing loses nothing of a value the reader may be given back, and what is
written of an accepted text is accepted with the same value and written the same. -/
theorem codec_lossless : (∀ v : JsonValue, v.Lexical → v.nesting ≤ 128 → parseJson (writeJson v) = .ok v) ∧
      ∀ s v, parseJson s = .ok v → parseJson (writeJson v) = .ok v ∧
        writeAfterParse (writeJson v) = .ok (writeJson v) := by
  refine ⟨fun v => parseJson_writeJson, fun s v hs => ?_⟩
  obtain ⟨htext, hnesting⟩ := parseJson_ok.mp hs
  have hread := parseJson_writeJson (Derives.lexical htext) hnesting
  refine ⟨hread, ?_⟩
  unfold writeAfterParse
  rw [hread]
  rfl

/-- A lone surrogate, a pair, a control character and a duplicate key. -/
theorem codec_lossless_surrogates :
    let v : JsonValue := .object [([0xD800], .number ['-', '0', '.', '5', 'e', '+', '1', '0']),
      ([0xD800], .array [.string [0xD83D, 0xDE00, 0x0001], .null])]
    v.Lexical ∧ v.nesting ≤ 128 ∧ parseJson (writeJson v) = .ok v := by
  intro v
  have hlexical : v.Lexical := by
    refine ⟨?_, ⟨trivial, trivial, trivial⟩, trivial⟩
    exact ⟨['-'], ['0'], ['.', '5'], ['e', '+', '1', '0'], .inr rfl, .zero,
      .digits ⟨nofun, Utf8.forall_mem_of_all rfl⟩,
      .digits (.inl rfl) (.inr (.inl rfl)) ⟨nofun, Utf8.forall_mem_of_all rfl⟩, rfl⟩
  have hnesting : v.nesting ≤ 128 := by simp [v, JsonValue.nesting, itemsNesting, entriesNesting]
  exact ⟨hlexical, hnesting, codec_lossless.1 v hlexical hnesting⟩

end Plur1bus.Engine
