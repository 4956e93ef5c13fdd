import Plur1bus.Engine.Json
import Plur1bus.Program.Runs

/-!
The JSON grammar of RFC 8259 over the characters of a text, with the value each
text denotes, and a scan of a text that counts the containers open at a place.
An escape of four hexadecimal digits denotes its unit whatever the unit is, lone
surrogates included. The scan needs no grammar: it looks at brackets and quotes
only, and on a grammatical text it ends where it began.
-/

namespace Plur1bus.Engine

open Program List

namespace Grammar

def isWs (c : Char) : Bool := c = ' ' || c = '\t' || c = '\n' || c = '\r'

def Ws (cs : List Char) : Prop := ∀ c ∈ cs, isWs c = true

def isDigit (c : Char) : Bool := 48 ≤ c.toNat && c.toNat ≤ 57

/-- `1*DIGIT` -/
def Digits (cs : List Char) : Prop := cs ≠ [] ∧ ∀ c ∈ cs, isDigit c = true

/-- `int = zero / ( digit1-9 *DIGIT )` -/
inductive IntPart : List Char → Prop
  | zero : IntPart ['0']
  | digits {d : Char} {ds : List Char} (first : isDigit d = true) (nonzero : d ≠ '0')
      (rest : ∀ c ∈ ds, isDigit c = true) : IntPart (d :: ds)

/-- `[ frac ]`, where `frac = decimal-point 1*DIGIT` -/
inductive Frac : List Char → Prop
  | absent : Frac []
  | digits {ds : List Char} (digits : Digits ds) : Frac ('.' :: ds)

/-- `[ exp ]`, where `exp = e [ minus / plus ] 1*DIGIT` -/
inductive Exp : List Char → Prop
  | absent : Exp []
  | digits {e : Char} {sign ds : List Char} (mark : e = 'e' ∨ e = 'E')
      (sign_ok : sign = [] ∨ sign = ['+'] ∨ sign = ['-']) (digits : Digits ds) :
      Exp (e :: (sign ++ ds))

/-- `number = [ minus ] int [ frac ] [ exp ]` -/
def Number (cs : List Char) : Prop :=
  ∃ sign int frac exp, (sign = [] ∨ sign = ['-']) ∧ IntPart int ∧ Frac frac ∧ Exp exp ∧
    cs = sign ++ (int ++ (frac ++ exp))

/-- `HEXDIG`, in either case. -/
def hexDigitValue (c : Char) : Option ℕ :=
  if 48 ≤ c.toNat ∧ c.toNat ≤ 57 then some (c.toNat - 48)
  else if 97 ≤ c.toNat ∧ c.toNat ≤ 102 then some (c.toNat - 97 + 10)
  else if 65 ≤ c.toNat ∧ c.toNat ≤ 70 then some (c.toNat - 65 + 10)
  else none

/-- The characters that stand for one unit after a backslash. -/
def escapeUnit (c : Char) : Option UInt16 :=
  if c = '"' then some 0x22
  else if c = '\\' then some 0x5C
  else if c = '/' then some 0x2F
  else if c = 'b' then some 0x08
  else if c = 'f' then some 0x0C
  else if c = 'n' then some 0x0A
  else if c = 'r' then some 0x0D
  else if c = 't' then some 0x09
  else none

/-- `*char`, with the units it denotes. -/
inductive Chars : List Char → JsString → Prop
  | nil : Chars [] []
  | unescaped {c : Char} {cs : List Char} {us : JsString} (range : 0x20 ≤ c.toNat)
      (quote : c ≠ '"') (backslash : c ≠ '\\') (rest : Chars cs us) :
      Chars (c :: cs) (encodeUtf16 c ++ us)
  | escape {c : Char} {u : UInt16} {cs : List Char} {us : JsString} (unit : escapeUnit c = some u)
      (rest : Chars cs us) : Chars ('\\' :: c :: cs) (u :: us)
  | unicode {a b c d : Char} {va vb vc vd : ℕ} {cs : List Char} {us : JsString}
      (ha : hexDigitValue a = some va) (hb : hexDigitValue b = some vb)
      (hc : hexDigitValue c = some vc) (hd : hexDigitValue d = some vd) (rest : Chars cs us) :
      Chars ('\\' :: 'u' :: a :: b :: c :: d :: cs)
        (UInt16.ofNat (((va * 16 + vb) * 16 + vc) * 16 + vd) :: us)

/-- What a text is derived as: a value, a value between white space, what stands
between the brackets of an array or of an object that is not empty. The last two
denote the array or object. -/
inductive Sym
  | value | element | elements | members
  deriving DecidableEq, Repr

inductive Derives : Sym → List Char → JsonValue → Prop
  | null : Derives .value ['n', 'u', 'l', 'l'] .null
  | true : Derives .value ['t', 'r', 'u', 'e'] (.bool true)
  | false : Derives .value ['f', 'a', 'l', 's', 'e'] (.bool false)
  | number {cs : List Char} (number : Number cs) : Derives .value cs (.number cs)
  | string {cs : List Char} {s : JsString} (chars : Chars cs s) :
      Derives .value ('"' :: (cs ++ ['"'])) (.string s)
  | emptyArray {w : List Char} (ws : Ws w) : Derives .value ('[' :: (w ++ [']'])) (.array [])
  | array {cs : List Char} {vs : List JsonValue} (inside : Derives .elements cs (.array vs)) :
      Derives .value ('[' :: (cs ++ [']'])) (.array vs)
  | emptyObject {w : List Char} (ws : Ws w) : Derives .value ('\x7b' :: (w ++ ['\x7d'])) (.object [])
  | object {cs : List Char} {es : List (JsString × JsonValue)}
      (inside : Derives .members cs (.object es)) :
      Derives .value ('\x7b' :: (cs ++ ['\x7d'])) (.object es)
  | element {w cs w' : List Char} {v : JsonValue} (ws : Ws w) (value : Derives .value cs v)
      (ws' : Ws w') : Derives .element (w ++ (cs ++ w')) v
  | one {cs : List Char} {v : JsonValue} (item : Derives .element cs v) : Derives .elements cs (.array [v])
  | more {cs ds : List Char} {v : JsonValue} {vs : List JsonValue} (item : Derives .element cs v)
      (rest : Derives .elements ds (.array vs)) :
      Derives .elements (cs ++ (',' :: ds)) (.array (v :: vs))
  | member {w ks w' cs : List Char} {k : JsString} {v : JsonValue} (ws : Ws w) (key : Chars ks k)
      (ws' : Ws w') (item : Derives .element cs v) :
      Derives .members (w ++ ('"' :: (ks ++ ('"' :: (w' ++ (':' :: cs)))))) (.object [(k, v)])
  | members {w ks w' cs ds : List Char} {k : JsString} {v : JsonValue}
      {es : List (JsString × JsonValue)} (ws : Ws w) (key : Chars ks k) (ws' : Ws w')
      (item : Derives .element cs v) (rest : Derives .members ds (.object es)) :
      Derives .members (w ++ ('"' :: (ks ++ ('"' :: (w' ++ (':' :: (cs ++ (',' :: ds))))))))
        (.object ((k, v) :: es))

/-- `JSON-text = ws value ws` -/
def Text (cs : List Char) (v : JsonValue) : Prop := Derives .element cs v

end Grammar

/-! ### Nesting -/

mutual

/-- How many containers are nested in one another. -/
def JsonValue.nesting : JsonValue → ℕ
  | .array items => itemsNesting items + 1
  | .object entries => entriesNesting entries + 1
  | _ => 0

def itemsNesting : List JsonValue → ℕ
  | [] => 0
  | v :: vs => max v.nesting (itemsNesting vs)

def entriesNesting : List (JsString × JsonValue) → ℕ
  | [] => 0
  | (_, v) :: es => max v.nesting (entriesNesting es)

end

/-- How many containers a text derived as `sym` opens at once. -/
def Grammar.level : Grammar.Sym → JsonValue → ℕ
  | .value, v | .element, v => v.nesting
  | .elements, v | .members, v => v.nesting - 1

/-! ### Scanning -/

inductive Mode
  | plain | inString | escaped
  deriving DecidableEq, Repr

/-- The containers open at a place of a text, and whether it is inside a string. -/
structure Scan where
  depth : ℕ
  mode : Mode
  deriving DecidableEq, Repr

def Scan.next (s : Scan) (c : Char) : Scan :=
  match s.mode with
  | .escaped => { s with mode := .inString }
  | .inString =>
    if c = '"' then { s with mode := .plain }
    else if c = '\\' then { s with mode := .escaped }
    else s
  | .plain =>
    if c = '"' then { s with mode := .inString }
    else if c = '[' ∨ c = '\x7b' then { s with depth := s.depth + 1 }
    else if c = ']' ∨ c = '\x7d' then { s with depth := s.depth - 1 }
    else s

/-- The containers open at the end of `cs`. -/
def opened (cs : List Char) : ℕ := (cs.foldl Scan.next ⟨0, .plain⟩).depth

/-- The scan of `cs` from depth `d` comes back to it, and on the way is never below
it nor more than `k` above it. -/
def Within (d k : ℕ) (cs : List Char) : Prop := cs.foldl Scan.next ⟨d, .plain⟩ = ⟨d, .plain⟩ ∧
    Throughout Scan.next (fun s => d ≤ s.depth ∧ s.depth ≤ d + k) ⟨d, .plain⟩ cs

namespace Within

variable {d k : ℕ} {cs ds : List Char}

theorem nil : Within d k [] := ⟨rfl, Throughout.nil.mpr ⟨Nat.le_refl d, Nat.le_add_right d k⟩⟩

theorem append (hc : Within d k cs) (hd : Within d k ds) : Within d k (cs ++ ds) := by
  refine ⟨by rw [foldl_append, hc.1, hd.1], Throughout.append.mpr ⟨hc.2, ?_⟩⟩
  rw [hc.1]
  exact hd.2

theorem mono {k' : ℕ} (h : Within d k cs) (hk : k ≤ k') : Within d k' cs :=
  ⟨h.1, h.2.mono fun s hs => ⟨hs.1, by omega⟩⟩

/-- A character that is neither a bracket nor a quote. -/
def Quiet (c : Char) : Prop := c ≠ '"' ∧ c ≠ '[' ∧ c ≠ '\x7b' ∧ c ≠ ']' ∧ c ≠ '\x7d'

instance (c : Char) : Decidable (Quiet c) := inferInstanceAs (Decidable (_ ∧ _))

theorem next_quiet {c : Char} (h : Quiet c) (d : ℕ) : Scan.next ⟨d, .plain⟩ c = ⟨d, .plain⟩ := by
  obtain ⟨hq, h1, h2, h3, h4⟩ := h
  simp [Scan.next, hq, h1, h2, h3, h4]

theorem cons {c : Char} (hc : Quiet c) (h : Within d k cs) : Within d k (c :: cs) := by
  have hnext := next_quiet hc d
  refine ⟨by rw [foldl_cons, hnext, h.1], Throughout.cons.mpr ⟨⟨Nat.le_refl d, Nat.le_add_right d k⟩, ?_⟩⟩
  rw [hnext]
  exact h.2

theorem quiet (h : ∀ c ∈ cs, Quiet c) : Within d k cs := by
  induction cs with
  | nil => exact nil
  | cons c cs ih =>
    exact cons (h c mem_cons_self) (ih fun c' hc' => h c' (mem_cons_of_mem _ hc'))

variable {us : JsString}

/-- Inside a string nothing is counted. -/
theorem chars (h : Grammar.Chars cs us) : cs.foldl Scan.next ⟨d, .inString⟩ = ⟨d, .inString⟩ ∧
      Throughout Scan.next (fun s => s.depth = d) ⟨d, .inString⟩ cs := by
  induction h with
  | nil => exact ⟨rfl, Throughout.nil.mpr rfl⟩
  | @unescaped c cs us range quote backslash rest ih =>
    have hnext : Scan.next ⟨d, .inString⟩ c = ⟨d, .inString⟩ := by
      simp [Scan.next, quote, backslash]
    rw [foldl_cons, Throughout.cons, hnext]
    exact ⟨ih.1, rfl, ih.2⟩
  | @escape c u cs us unit rest ih =>
    have hnext : Scan.next (Scan.next ⟨d, .inString⟩ '\\') c = ⟨d, .inString⟩ := rfl
    rw [foldl_cons, foldl_cons, Throughout.cons, Throughout.cons, hnext]
    exact ⟨ih.1, rfl, rfl, ih.2⟩
  | @unicode a b c e va vb vc ve cs us ha hb hc he rest ih =>
    have hhex : ∀ {x : Char} {n : ℕ}, Grammar.hexDigitValue x = some n →
        Scan.next ⟨d, .inString⟩ x = ⟨d, .inString⟩ := by
      intro x n hx
      have hq : x ≠ '"' := by
        rintro rfl
        simp [Grammar.hexDigitValue] at hx
      have hb : x ≠ '\\' := by
        rintro rfl
        simp [Grammar.hexDigitValue] at hx
      simp [Scan.next, hq, hb]
    have hnext : Scan.next (Scan.next ⟨d, .inString⟩ '\\') 'u' = ⟨d, .inString⟩ := rfl
    simp only [foldl_cons, Throughout.cons, hnext, hhex ha, hhex hb, hhex hc, hhex he]
    exact ⟨ih.1, trivial, rfl, trivial, trivial, trivial, trivial, ih.2⟩

theorem quoted (h : Grammar.Chars cs us) : Within d k ('"' :: (cs ++ ['"'])) := by
  obtain ⟨hend, hall⟩ := chars h (d := d)
  have hopen : Scan.next ⟨d, .plain⟩ '"' = ⟨d, .inString⟩ := rfl
  have hclose : Scan.next ⟨d, .inString⟩ '"' = ⟨d, .plain⟩ := rfl
  have hin : ∀ s : Scan, s.depth = d → d ≤ s.depth ∧ s.depth ≤ d + k := by
    intro s hs
    omega
  refine ⟨by simp [hopen, hend, hclose], Throughout.cons.mpr ⟨hin _ rfl, ?_⟩⟩
  rw [hopen, Throughout.append, hend, Throughout.cons, Throughout.nil, hclose]
  exact ⟨hall.mono hin, hin _ rfl, hin _ rfl⟩

theorem key (h : Grammar.Chars cs us) (hd : Within d k ds) : Within d k ('"' :: (cs ++ ('"' :: ds))) := by
  have happend := (quoted h (d := d) (k := k)).append hd
  simpa using happend

/-- What is between two brackets is one deeper. -/
theorem bracket {o c : Char} (ho : o = '[' ∨ o = '\x7b') (hc : c = ']' ∨ c = '\x7d')
    (h : Within (d + 1) k cs) : Within d (k + 1) (o :: (cs ++ [c])) := by
  have hopen : Scan.next ⟨d, .plain⟩ o = ⟨d + 1, .plain⟩ := by
    obtain rfl | rfl := ho <;> rfl
  have hclose : Scan.next ⟨d + 1, .plain⟩ c = ⟨d, .plain⟩ := by
    obtain rfl | rfl := hc <;> rfl
  refine ⟨by simp [hopen, h.1, hclose], Throughout.cons.mpr ⟨⟨Nat.le_refl d, by simp⟩, ?_⟩⟩
  rw [hopen, Throughout.append, h.1, Throughout.cons, Throughout.nil, hclose]
  refine ⟨h.2.mono fun s hs => ⟨by omega, by omega⟩, ⟨by simp, ?_⟩, by simp, by simp⟩
  show d + 1 ≤ d + (k + 1)
  omega

end Within

namespace Grammar

variable {c : Char}

theorem quiet_of_isWs (h : isWs c = true) : Within.Quiet c := by
  simp only [isWs, Bool.or_eq_true, decide_eq_true_eq] at h
  obtain ((rfl | rfl) | rfl) | rfl := h <;> decide

theorem Ws.within {w : List Char} {d k : ℕ} (h : Ws w) : Within d k w :=
  .quiet fun c hc => quiet_of_isWs (h c hc)

/-- The characters numbers are made of. -/
def isNumberChar (c : Char) : Bool := isDigit c || c = '-' || c = '+' || c = '.' || c = 'e' || c = 'E'

theorem quiet_of_isNumberChar (h : isNumberChar c = true) : Within.Quiet c := by
  refine ⟨?_, ?_, ?_, ?_, ?_⟩ <;> rintro rfl <;> exact absurd h (by decide)

theorem isNumberChar_of_isDigit (h : isDigit c = true) : isNumberChar c = true := by
  simp [isNumberChar, h]

variable {cs : List Char}

theorem Number.chars (h : Number cs) : ∀ c ∈ cs, isNumberChar c = true := by
  obtain ⟨sign, int, frac, exp, hsign, hint, hfrac, hexp, rfl⟩ := h
  intro c hc
  simp only [mem_append] at hc
  obtain hc | hc | hc | hc := hc
  · obtain rfl | rfl := hsign
    · cases hc
    · obtain rfl := mem_singleton.mp hc
      rfl
  · cases hint with
    | zero =>
      obtain rfl := mem_singleton.mp hc
      rfl
    | digits first _ rest =>
      obtain rfl | hc := mem_cons.mp hc
      · exact isNumberChar_of_isDigit first
      · exact isNumberChar_of_isDigit (rest c hc)
  · cases hfrac with
    | absent => cases hc
    | digits digits =>
      obtain rfl | hc := mem_cons.mp hc
      · rfl
      · exact isNumberChar_of_isDigit (digits.2 c hc)
  · cases hexp with
    | absent => cases hc
    | digits mark sign_ok digits =>
      simp only [mem_cons, mem_append] at hc
      obtain rfl | hc | hc := hc
      · obtain rfl | rfl := mark <;> rfl
      · obtain rfl | rfl | rfl := sign_ok
        · cases hc
        · obtain rfl := mem_singleton.mp hc
          rfl
        · obtain rfl := mem_singleton.mp hc
          rfl
      · exact isNumberChar_of_isDigit (digits.2 c hc)

@[simp] theorem level_elements (vs : List JsonValue) : level .elements (.array vs) = itemsNesting vs := by
  simp [level, JsonValue.nesting]

@[simp] theorem level_members (es : List (JsString × JsonValue)) :
    level .members (.object es) = entriesNesting es := by
  simp [level, JsonValue.nesting]

/-- Every derived text is balanced, and opens as many containers as its value
nests. -/
theorem Derives.within {sym : Sym} {v : JsonValue} (h : Derives sym cs v) (d : ℕ) :
    Within d (level sym v) cs := by
  induction h generalizing d with
  | null | true | false => exact .quiet (Utf8.forall_mem_of_all rfl)
  | number number => exact .quiet fun c hc => quiet_of_isNumberChar (number.chars c hc)
  | string chars => exact .quoted chars
  | emptyArray ws => exact .bracket (.inl rfl) (.inl rfl) ws.within
  | @array cs vs inside ih =>
    have hin := ih (d + 1)
    rw [level_elements] at hin
    exact hin.bracket (.inl rfl) (.inl rfl)
  | emptyObject ws => exact .bracket (.inr rfl) (.inr rfl) ws.within
  | @object cs es inside ih =>
    have hin := ih (d + 1)
    rw [level_members] at hin
    exact hin.bracket (.inr rfl) (.inr rfl)
  | element ws value ws' ih => exact ws.within.append ((ih d).append ws'.within)
  | one item ih =>
    rw [level_elements]
    exact (ih d).mono (Nat.le_max_left _ _)
  | more item rest ih₁ ih₂ =>
    rw [level_elements]
    rw [level_elements] at ih₂
    refine ((ih₁ d).mono (Nat.le_max_left _ _)).append (.cons (by decide) ?_)
    exact (ih₂ d).mono (Nat.le_max_right _ _)
  | member ws key ws' item ih =>
    rw [level_members]
    refine ws.within.append (.key key (ws'.within.append (.cons (by decide) ?_)))
    exact (ih d).mono (Nat.le_max_left _ _)
  | members ws key ws' item rest ih₁ ih₂ =>
    rw [level_members]
    rw [level_members] at ih₂
    refine ws.within.append (.key key (ws'.within.append (.cons (by decide) (.append ?_
      (.cons (by decide) ?_)))))
    · exact (ih₁ d).mono (Nat.le_max_left _ _)
    · exact (ih₂ d).mono (Nat.le_max_right _ _)

end Grammar

/-! ### The first place that is too deep -/

/-- The last character of `p` opens a container inside `k` others, and is the first
to open so many at once. -/
def Climbs (k : ℕ) (p : List Char) : Prop := ∃ before c, p = before ++ [c] ∧ ∀ d,
    Throughout Scan.next (fun s => s.depth ≤ d + k) ⟨d, .plain⟩ before ∧
      p.foldl Scan.next ⟨d, .plain⟩ = ⟨d + k + 1, .plain⟩

namespace Climbs

variable {k : ℕ} {p q cs : List Char}

theorem opening {o : Char} (ho : o = '[' ∨ o = '\x7b') : Climbs 0 [o] := by
  refine ⟨[], o, rfl, fun d => ⟨Throughout.nil.mpr (Nat.le_refl d), ?_⟩⟩
  obtain rfl | rfl := ho <;> rfl

theorem append (hcs : ∀ d, Within d k cs) (h : Climbs k p) : Climbs k (cs ++ p) := by
  obtain ⟨before, c, rfl, hp⟩ := h
  refine ⟨cs ++ before, c, by simp, fun d => ⟨Throughout.append.mpr ⟨?_, ?_⟩, ?_⟩⟩
  · exact (hcs d).2.mono fun s hs => hs.2
  · rw [(hcs d).1]
    exact (hp d).1
  · rw [foldl_append, (hcs d).1]
    exact (hp d).2

theorem bracket {o : Char} (ho : o = '[' ∨ o = '\x7b') (h : Climbs k p) : Climbs (k + 1) (o :: p) := by
  obtain ⟨before, c, rfl, hp⟩ := h
  have hopen : ∀ d, Scan.next ⟨d, .plain⟩ o = ⟨d + 1, .plain⟩ := by
    intro d
    obtain rfl | rfl := ho <;> rfl
  refine ⟨o :: before, c, rfl, fun d => ⟨Throughout.cons.mpr ⟨Nat.le_add_right d _, ?_⟩, ?_⟩⟩
  · rw [hopen]
    exact (hp (d + 1)).1.mono fun s hs => by omega
  · rw [foldl_cons, hopen, (hp (d + 1)).2]
    congr 1
    omega

theorem opened (h : Climbs k p) : opened p = k + 1 := by
  obtain ⟨before, c, -, hp⟩ := h
  unfold Engine.opened
  rw [(hp 0).2]
  show 0 + k + 1 = k + 1
  omega

/-- Nothing shorter has as many containers open. -/
theorem prefix_of_opened (h : Climbs k p) (hp : p <+: cs) (hq : q <+: cs)
    (hopened : Engine.opened q = k + 1) : p <+: q := by
  obtain hpq | hqp := List.prefix_or_prefix_of_prefix hp hq
  · exact hpq
  · obtain ⟨before, c, rfl, hclimb⟩ := h
    obtain rfl | hbefore := prefix_concat_iff.mp hqp
    · exact prefix_rfl
    · have hle := (hclimb 0).1 q hbefore
      unfold Engine.opened at hopened
      omega

end Climbs

/-- No place of a grammatical text has more containers open than its value nests. -/
theorem Grammar.Text.opened_le {cs p : List Char} {v : JsonValue} (h : Grammar.Text cs v)
    (hp : p <+: cs) : opened p ≤ v.nesting := by
  have hin := ((Derives.within h 0).2 p hp).2
  simpa [level, opened] using hin

end Plur1bus.Engine
