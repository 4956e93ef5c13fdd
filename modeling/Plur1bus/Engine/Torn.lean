import Plur1bus.Engine.Tombstone

/-!
Lines that are cut off. What is left of a written object that loses its end is a
syntax error wherever it is cut, inside a character too: a container is still open
at its end, and never more than the whole text opens. So the registry tells a torn
line from a whole one, except that it does not see whether the newline is there.
-/

namespace Plur1bus.Engine

open Program List
open Utf8 (bytes lossy)
open Grammar (Chars Derives Text Ws)

/-! ### Written text -/

/-- A character that may stand in a line. -/
def Printed (c : Char) : Prop := 0x20 ≤ c.toNat

instance (c : Char) : Decidable (Printed c) := inferInstanceAs (Decidable (_ ≤ _))

theorem printed_hexDigit : ∀ n < 16, Printed (hexDigit n) := by decide

theorem printed_unicodeEscape (u : UInt16) : ∀ c ∈ unicodeEscape u, Printed c := by
  have hdigit : ∀ n, Printed (hexDigit (n % 16)) := fun n =>
    printed_hexDigit _ (Nat.mod_lt _ (by decide))
  intro c hc
  simp only [unicodeEscape, hex4, hex2, cons_append, nil_append, mem_cons, not_mem_nil, or_false] at hc
  obtain rfl | rfl | rfl | rfl | rfl | rfl := hc
  · decide
  · decide
  all_goals exact hdigit _

theorem printed_unitJson (u : UInt16) : ∀ c ∈ unitJson u, Printed c := by
  unfold unitJson
  iterate 7
    split
    · exact Utf8.forall_mem_of_all rfl
  split
  · exact printed_unicodeEscape u
  split
  · exact printed_unicodeEscape u
  · rename_i hcontrol hsurrogate
    simp only [Bool.or_eq_true, not_or, Bool.not_eq_true] at hsurrogate
    obtain ⟨htoNat, -⟩ := encodeUtf16_unit hsurrogate.1 hsurrogate.2
    intro c hc
    obtain rfl := mem_singleton.mp hc
    unfold Printed
    rw [UInt16.le_iff_toNat_le] at hcontrol
    simp at hcontrol
    omega

theorem printed_unitsJson (s : JsString) : ∀ c ∈ unitsJson s, Printed c := by
  induction s using unitsJson.induct with
  | case1 =>
    intro c hc
    cases hc
  | case2 u => exact printed_unitJson u
  | case3 u lo us hpair ih =>
    rw [unitsJson, if_pos hpair]
    simp only [Bool.and_eq_true] at hpair
    obtain ⟨hwide, -⟩ := encodeUtf16_pair hpair.1 hpair.2
    generalize Char.ofNat _ = x at hwide ⊢
    intro c hc
    obtain rfl | hc := mem_cons.mp hc
    · unfold Printed
      omega
    · exact ih c hc
  | case4 u lo us hpair ih =>
    rw [unitsJson, if_neg hpair]
    intro c hc
    obtain hc | hc := mem_append.mp hc
    · exact printed_unitJson u c hc
    · exact ih c hc

theorem printed_toJson (s : JsString) : ∀ c ∈ toJson s, Printed c := by
  intro c hc
  simp only [toJson, cons_append, mem_cons, mem_append, not_mem_nil, or_false] at hc
  obtain rfl | hc | rfl := hc
  · decide
  · exact printed_unitsJson s c hc
  · decide

theorem printed_number {cs : List Char} (h : Grammar.Number cs) : ∀ c ∈ cs, Printed c := by
  intro c hc
  have hchar := h.chars c hc
  simp only [Grammar.isNumberChar, Grammar.isDigit, Bool.or_eq_true, Bool.and_eq_true,
    decide_eq_true_eq] at hchar
  unfold Printed
  obtain ((((hchar | rfl) | rfl) | rfl) | rfl) | rfl := hchar
  · omega
  all_goals decide

mutual

theorem printed_writeJson : ∀ v : JsonValue, v.Lexical → ∀ c ∈ writeJson v, Printed c
  | .null, _ => Utf8.forall_mem_of_all rfl
  | .bool true, _ => Utf8.forall_mem_of_all rfl
  | .bool false, _ => Utf8.forall_mem_of_all rfl
  | .number _, h => printed_number h
  | .string s, _ => printed_toJson s
  | .array items, h => by
    intro c hc
    simp only [writeJson, cons_append, mem_cons, mem_append, not_mem_nil, or_false] at hc
    obtain rfl | hc | rfl := hc
    · decide
    · exact printed_writeItems items h c hc
    · decide
  | .object entries, h => by
    intro c hc
    simp only [writeJson, cons_append, mem_cons, mem_append, not_mem_nil, or_false] at hc
    obtain rfl | hc | rfl := hc
    · decide
    · exact printed_writeEntries entries h c hc
    · decide

theorem printed_writeItems : ∀ vs : List JsonValue, ItemsLexical vs → ∀ c ∈ writeItems vs, Printed c
  | [], _ => nofun
  | [v], h => printed_writeJson v h.1
  | v :: w :: vs, h => by
    intro c hc
    simp only [writeItems, mem_append, mem_cons] at hc
    obtain hc | rfl | hc := hc
    · exact printed_writeJson v h.1 c hc
    · decide
    · exact printed_writeItems (w :: vs) h.2 c hc

theorem printed_writeEntries : ∀ es : List (JsString × JsonValue), EntriesLexical es →
    ∀ c ∈ writeEntries es, Printed c
  | [], _ => nofun
  | [(k, v)], h => by
    intro c hc
    simp only [writeEntries, mem_append, mem_cons] at hc
    obtain hc | rfl | hc := hc
    · exact printed_toJson k c hc
    · decide
    · exact printed_writeJson v h.1 c hc
  | (k, v) :: e :: es, h => by
    intro c hc
    simp only [writeEntries, mem_append, mem_cons, append_assoc, cons_append] at hc
    obtain hc | rfl | hc | rfl | hc := hc
    · exact printed_toJson k c hc
    · decide
    · exact printed_writeJson v h.1 c hc
    · decide
    · exact printed_writeEntries (e :: es) h.2 c hc

end

/-! ### Objects without their end -/

/-- A character that is not ASCII opens and closes nothing. -/
theorem Scan.next_wide {c : Char} (hc : 128 ≤ c.toNat) (s : Scan) : (s.next c).depth = s.depth := by
  have hne : ∀ x : Char, x.toNat < 128 → c ≠ x := by
    rintro x hx rfl
    omega
  obtain ⟨d, mode⟩ := s
  cases mode <;> simp [Scan.next, hne '"' (by decide), hne '\\' (by decide), hne '[' (by decide),
    hne '\x7b' (by decide), hne ']' (by decide), hne '\x7d' (by decide)]

/-- What is left of an object before its closing brace, with a replacement character
where a character is cut. -/
def Cut (inside f : List Char) : Prop :=
  ∃ p, p <+: inside ∧ (f = '\x7b' :: p ∨ f = '\x7b' :: (p ++ [Utf8.replacement]))

theorem Cut.scan {inside f : List Char} {k : ℕ} (hinside : ∀ d, Within d k inside)
    (h : Cut inside f) :
    1 ≤ (f.foldl Scan.next ⟨0, .plain⟩).depth ∧
      Throughout Scan.next (fun s => s.depth ≤ k + 1) ⟨0, .plain⟩ f := by
  obtain ⟨p, hp, hf⟩ := h
  have hopen : Scan.next ⟨0, .plain⟩ '\x7b' = ⟨1, .plain⟩ := rfl
  have hall : Throughout Scan.next (fun s => 1 ≤ s.depth ∧ s.depth ≤ k + 1) ⟨1, .plain⟩ p := by
    intro before hbefore
    have hin := (hinside 1).2 before (hbefore.trans hp)
    omega
  have hlast : ∀ s : Scan, (s.next Utf8.replacement).depth = s.depth := Scan.next_wide (by decide)
  obtain rfl | rfl := hf
  · rw [foldl_cons, Throughout.cons, hopen]
    exact ⟨hall.last.1, Nat.zero_le _, hall.mono fun s hs => hs.2⟩
  · rw [foldl_cons, foldl_append, Throughout.cons, hopen, Throughout.append,
      Throughout.cons, Throughout.nil, foldl_cons, foldl_nil, hlast]
    exact ⟨hall.last.1, Nat.zero_le _, hall.mono fun s hs => hs.2, hall.last.2, hall.last.2⟩

/-- Such a line is a syntax error. -/
theorem parseJson_cut {inside f : List Char} (hinside : ∀ d, Within d 127 inside)
    (h : Cut inside f) : ∃ e, parseJson f = .error e ∧ e.kind = .syntaxError := by
  obtain ⟨hdepth, hall⟩ := h.scan hinside
  cases hparse : parseJson f with
  | ok v =>
    -- A text ends with nothing open.
    obtain ⟨htext, -⟩ := parseJson_ok.mp hparse
    have hend := (Derives.within htext 0).1
    rw [hend] at hdepth
    cases hdepth
  | error e =>
    refine ⟨e, rfl, ?_⟩
    cases hkind : e.kind with
    | syntaxError => rfl
    | stuck => exact absurd hkind (parseJson_ne_stuck hparse)
    | depthLimit =>
      obtain ⟨p, hp, -, hopened⟩ := parseJson_depthLimit.mp ⟨e, hparse, hkind⟩
      have hle := hall p hp
      unfold opened MAX_JSON_DEPTH at hopened
      omega

/-- Two objects in one line are a syntax error. -/
theorem parseJson_glued {cs : List Char} {v : JsonValue} (hcs : Derives .value cs v)
    (hv : v.nesting ≤ MAX_JSON_DEPTH) (ds : List Char) :
    ∃ e, parseJson (cs ++ '\x7b' :: ds) = .error e ∧ e.kind = .syntaxError := by
  have hends : Reader.Ends ('\x7b' :: ds) := by
    rintro c ⟨⟩
    rfl
  have hread := (Reader.parseValue_reading MAX_JSON_DEPTH).complete Ws.nil hcs hv hends
  rw [nil_append] at hread
  have hskip : Reader.skipWs (bytes ('\x7b' :: ds)) = bytes ('\x7b' :: ds) :=
    Reader.skipWs_cons Ws.nil rfl ds
  have hne : bytes ('\x7b' :: ds) ≠ [] := by simp
  unfold parseJson
  simp only [hread, hskip, if_neg hne]
  exact ⟨_, rfl, rfl⟩

/-! ### Readable tombstones -/

/-- A valid tombstone whose line can be read back. -/
structure Readable (p : Platform) (agent : List Char) (t : JsonValue) : Prop where
  valid : isValidTombstone p t (some agent) = true
  lexical : t.Lexical
  nesting : t.nesting ≤ MAX_JSON_DEPTH

theorem property_object {t : JsonValue} {key : String} {v : JsonValue}
    (h : property t key = some v) : ∃ e es, t = .object (e :: es) := by
  unfold property at h
  split at h
  · rename_i fields
    cases fields with
    | nil => cases h
    | cons e es => exact ⟨e, es, rfl⟩
  · cases h

theorem isValidTombstone_object {p : Platform} {t : JsonValue} {agent : Option (List Char)}
    (h : isValidTombstone p t agent = true) : ∃ e es, t = .object (e :: es) := by
  have hok : versionOk p t = true := by
    unfold isValidTombstone at h
    simp only [Bool.and_eq_true] at h
    exact h.1.1.1.1.1
  unfold versionOk at hok
  split at hok
  · rename_i hversion
    exact property_object hversion
  · cases hok

namespace Readable

variable {p : Platform} {agent : List Char} {t : JsonValue} (h : Readable p agent t)
include h

theorem parse : parseJson (writeJson t) = .ok t := parseJson_writeJson h.lexical h.nesting

/-- The line is an object, one container less deep inside. -/
theorem text : ∃ inside, writeJson t = '\x7b' :: (inside ++ ['\x7d']) ∧ ∀ d, Within d 127 inside := by
  obtain ⟨e, es, rfl⟩ := isValidTombstone_object h.valid
  refine ⟨writeEntries (e :: es), rfl, fun d => ?_⟩
  have hwithin := (derives_writeEntries (e :: es) h.lexical (cons_ne_nil e es)).within d
  rw [Grammar.level_members] at hwithin
  exact hwithin.mono (Nat.le_of_succ_le_succ h.nesting)

theorem no_newline : '\n' ∉ writeJson t := by
  intro hmem
  exact absurd (printed_writeJson t h.lexical _ hmem) (by decide)

/-- What is read of a line that loses more than its newline. -/
theorem cut {f : List UInt8} (hf : f <+: bytes (writeJson t)) (hne : f ≠ [])
    (hpart : f ≠ bytes (writeJson t)) :
    (∃ e, parseJson (lossy f) = .error e ∧ e.kind = .syntaxError) ∧
      (∃ cs, lossy f = '\x7b' :: cs) ∧ '\n' ∉ lossy f := by
  obtain ⟨inside, htext, hinside⟩ := h.text
  have hprinted := h.no_newline
  rw [htext] at hf hpart hprinted
  rw [Utf8.bytes_cons, Utf8.encode_ascii (by decide), singleton_append] at hf hpart
  -- The opening brace is one byte, so it is there.
  cases f with
  | nil => exact absurd rfl hne
  | cons b f =>
    obtain ⟨rfl, hrest⟩ := cons_prefix_cons.mp hf
    have hbrace : lossy (UInt8.ofNat '\x7b'.toNat :: f) = '\x7b' :: lossy f := Utf8.lossy_char '\x7b' f
    rw [hbrace]
    obtain ⟨q, hq, hcases⟩ := Utf8.lossy_cut hrest
    have hq' : q <+: inside := by
      obtain rfl | hq := prefix_concat_iff.mp hq
      · obtain ⟨rfl, -⟩ | ⟨hne, -⟩ := hcases
        · exact absurd rfl hpart
        · exact absurd rfl hne
      · exact hq
    have hcut : Cut inside ('\x7b' :: lossy f) := by
      refine ⟨q, hq', ?_⟩
      obtain ⟨-, hread⟩ | ⟨-, hread⟩ := hcases
      · exact .inl (by rw [hread])
      · exact .inr (by rw [hread])
    refine ⟨parseJson_cut hinside hcut, ⟨_, rfl⟩, ?_⟩
    have hnot : '\n' ∉ q := fun hmem =>
      hprinted (mem_cons_of_mem _ (mem_append_left _ (hq'.subset hmem)))
    obtain ⟨-, hread⟩ | ⟨-, hread⟩ := hcases
    · rw [hread]
      simp [hnot]
    · rw [hread]
      simp only [mem_cons, mem_append, not_mem_nil, or_false, not_or]
      exact ⟨by decide, hnot, by decide⟩

end Readable

end Plur1bus.Engine
