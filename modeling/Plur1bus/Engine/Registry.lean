import Plur1bus.Engine.Torn
import Plur1bus.Program.Runs

/-!
The registry over a run of appends that may be cut off, of reads and of repairs.
Its file is complete lines of tombstones and an ending: nothing, the torn beginning
of a line, or a whole line that lacks its newline. The first two the next append
continues rightly. The third is read as a tombstone and not repaired, so the next
append writes on in the same line, and both tombstones are lost to a corrupt line.
-/

namespace Plur1bus.Engine

open Program List
open Utf8 (bytes lossy)

/-! ### What a file holds -/

section

variable (p : Platform) (agent : List Char)

/-- What follows the last newline, and the tombstone read from it. -/
inductive Ending : Option JsonValue → List UInt8 → Prop
  | clean : Ending none []
  | torn {t : JsonValue} {f : List UInt8} (readable : Readable p agent t)
      (beginning : f <+: bytes (writeJson t)) (begun : f ≠ []) (unfinished : f ≠ bytes (writeJson t)) :
      Ending none f
  | unterminated {t : JsonValue} (readable : Readable p agent t) : Ending (some t) (bytes (writeJson t))

/-- The complete lines of these tombstones. -/
def lines (ts : List JsonValue) : List Char := Lines.content '\n' (ts.map writeJson)

/-- The file holds the rows, in order. -/
def Holds (rows : List JsonValue) (file : List UInt8) : Prop :=
  ∃ ts f o, file = bytes (lines ts) ++ f ∧ (∀ t ∈ ts, Readable p agent t) ∧
    Ending p agent o f ∧ rows = ts ++ o.toList

end

variable {p : Platform} {agent : List Char}

theorem jsTrim_ne_nil {c : Char} (hc : isJsWhitespace c = false) (cs : List Char) :
    jsTrim (c :: cs) ≠ [] := by
  simp_all [jsTrim, isJsWhitespace]

variable {t : JsonValue}

theorem Readable.notBlank (h : Readable p agent t) : jsTrim (writeJson t) ≠ [] := by
  obtain ⟨inside, htext, -⟩ := h.text
  rw [htext]
  exact jsTrim_ne_nil (by decide) _

/-- A readable line is a row, terminated or not. -/
theorem classifyLine_readable (h : Readable p agent t) (last : Bool) (size : ℕ) (acc : Classified) :
    classifyLine p agent last size acc (writeJson t) =
      { acc with rows := { acc.rows with tombstones := acc.rows.tombstones ++ [t] } } := by
  unfold classifyLine
  rw [if_neg h.notBlank, h.parse]
  exact if_pos h.valid

variable {ts : List JsonValue}

theorem classifyLines_readable (hts : ∀ t ∈ ts, Readable p agent t) (terminated : Bool) (size : ℕ)
    (acc : Classified) (rest : List (List Char)) :
    classifyLines p agent terminated size acc (ts.map writeJson ++ rest) =
      classifyLines p agent terminated size
        { acc with rows := { acc.rows with tombstones := acc.rows.tombstones ++ ts } } rest := by
  induction ts generalizing acc with
  | nil =>
    rw [map_nil, nil_append, append_nil]
  | cons t ts ih =>
    rw [map_cons, cons_append, classifyLines, classifyLine_readable (hts t mem_cons_self),
      ih fun t' ht' => hts t' (mem_cons_of_mem _ ht')]
    simp only [append_assoc, singleton_append]

/-- The rows of complete lines, with nothing wrong. -/
def Classified.rowsOf (ts : List JsonValue) (tail : Option (List Char × ℕ)) : Classified :=
  ⟨⟨ts, 0, 0, 0, false⟩, tail⟩

theorem lines_no_newline (hts : ∀ t ∈ ts, Readable p agent t) : ∀ l ∈ ts.map writeJson, '\n' ∉ l := by
  intro l hl
  obtain ⟨t, ht, rfl⟩ := mem_map.mp hl
  exact (hts t ht).no_newline

/-- Complete lines. -/
theorem classify_lines (hts : ∀ t ∈ ts, Readable p agent t) :
    classify p (lines ts) agent = .rowsOf ts none := by
  unfold classify lines
  dsimp only
  rw [Lines.splitOn_content (lines_no_newline hts)]
  rcases eq_nil_or_concat ts with rfl | ⟨ts', t, rfl⟩
  · rfl
  · have hlast : (Lines.content '\n' ((ts'.concat t).map writeJson)).getLast? = some '\n' := by
      rw [concat_eq_append, map_append, map_singleton, Lines.content_snoc, List.getLast?_concat]
    have hread := classifyLines_readable hts
      (decide ((Lines.content '\n' ((ts'.concat t).map writeJson)).getLast? = some '\n'))
      (bytes (Lines.content '\n' ((ts'.concat t).map writeJson))).length .empty []
    rw [if_pos hlast, dropLast_concat]
    rw [append_nil] at hread
    exact hread

/-- Complete lines and a fragment. -/
theorem classify_fragment (hts : ∀ t ∈ ts, Readable p agent t) {frag : List Char} (hne : frag ≠ [])
    (hfrag : '\n' ∉ frag) : classify p (lines ts ++ frag) agent =
      classifyLine p agent true (bytes (lines ts ++ frag)).length (.rowsOf ts none) frag := by
  have hlast : ¬(lines ts ++ frag).getLast? = some '\n' := by
    rw [List.getLast?_append_of_ne_nil _ hne]
    exact fun h => hfrag (mem_of_getLast? h)
  unfold classify
  dsimp only
  rw [if_neg hlast, decide_eq_false hlast]
  conv => lhs; unfold lines
  rw [Lines.splitOn_content_append (lines_no_newline hts) hfrag, classifyLines_readable hts]
  rfl

/-! ### Repairing -/

/-- A whole line at the end that lacks its newline. -/
def Unterminated (p : Platform) (agent : List Char) (file : List UInt8) (rows : List JsonValue) : Prop :=
  ∃ ts t, Readable p agent t ∧ rows = ts ++ [t] ∧ file = bytes (lines ts) ++ bytes (writeJson t)

namespace TombstoneRegistry

variable {r : TombstoneRegistry} {rows : List JsonValue}

variable {ts : List JsonValue}

theorem classifyFile_clean (hts : ∀ t ∈ ts, Readable p r.agent t) (hfile : r.file = bytes (lines ts)) :
    r.classifyFile p = .rowsOf ts none := by
  unfold classifyFile
  rw [hfile, Utf8.lossy_bytes, classify_lines hts]

variable {t : JsonValue}

theorem classifyFile_unterminated (hts : ∀ t ∈ ts, Readable p r.agent t) (ht : Readable p r.agent t)
    (hfile : r.file = bytes (lines ts) ++ bytes (writeJson t)) :
    r.classifyFile p = .rowsOf (ts ++ [t]) none := by
  have hne : writeJson t ≠ [] := by
    obtain ⟨inside, htext, -⟩ := ht.text
    rw [htext]
    exact cons_ne_nil _ _
  unfold classifyFile
  rw [hfile, Utf8.lossy_bytes_append, Utf8.lossy_bytes, classify_fragment hts hne ht.no_newline,
    classifyLine_readable ht]
  rfl

/-- The torn line is the tail, and what is before it stays. -/
theorem classifyFile_torn {f : List UInt8} (hts : ∀ t ∈ ts, Readable p r.agent t)
    (ht : Readable p r.agent t) (hf : f <+: bytes (writeJson t)) (hne : f ≠ [])
    (hpart : f ≠ bytes (writeJson t)) (hfile : r.file = bytes (lines ts) ++ f) :
    r.classifyFile p = .rowsOf ts (some (lossy f, (bytes (lines ts)).length)) := by
  obtain ⟨⟨e, he, hkind⟩, ⟨cs, hbrace⟩, hnewline⟩ := ht.cut hf hne hpart
  have hfrag : lossy f ≠ [] := by simp [hbrace]
  have hblank : jsTrim (lossy f) ≠ [] := by
    rw [hbrace]
    exact jsTrim_ne_nil (by decide) cs
  unfold classifyFile
  rw [hfile, Utf8.lossy_bytes_append, classify_fragment hts hfrag hnewline]
  unfold classifyLine
  rw [if_neg hblank, he]
  dsimp only
  rw [if_pos ⟨hkind, rfl, rfl⟩, Utf8.bytes_append, length_append, Nat.add_sub_cancel]
  rfl

/-- After a repair the registry holds the same rows, and nothing is wrong with it. -/
theorem repaired (h : Holds p r.agent rows r.file) :
    (r.repairLocked p).agent = r.agent ∧ Holds p r.agent rows (r.repairLocked p).file ∧
      (r.repairLocked p).classifyFile p = .rowsOf rows none ∧
      ((∀ t ∈ rows, Readable p r.agent t) ∧ (r.repairLocked p).file = bytes (lines rows) ∨
        Unterminated p r.agent r.file rows ∧ (r.classifyFile p).tail = none) := by
  obtain ⟨ts, f, o, hfile, hts, hending, rfl⟩ := h
  cases hending with
  | clean =>
    rw [append_nil] at hfile
    have hclean := classifyFile_clean hts hfile
    have hsame : r.repairLocked p = r := by
      unfold repairLocked
      rw [hclean]
      rfl
    rw [hsame, Option.toList_none, append_nil]
    exact ⟨rfl, ⟨ts, [], none, by rw [hfile, append_nil], hts, .clean, (append_nil ts).symm⟩,
      hclean, .inl ⟨hts, hfile⟩⟩
  | @torn t _ readable beginning begun unfinished =>
    have htorn := classifyFile_torn hts readable beginning begun unfinished hfile
    have hagent : (r.repairLocked p).agent = r.agent := by
      unfold repairLocked
      rw [htorn]
      rfl
    have hcut : (r.repairLocked p).file = bytes (lines ts) := by
      unfold repairLocked
      rw [htorn]
      show r.file.take (bytes (lines ts)).length = _
      rw [hfile, take_left]
    rw [Option.toList_none, append_nil]
    refine ⟨hagent, ⟨ts, [], none, by rw [hcut, append_nil], hts, .clean,
      (append_nil ts).symm⟩, ?_, .inl ⟨hts, hcut⟩⟩
    exact classifyFile_clean (by rwa [hagent]) hcut
  | @unterminated t readable =>
    have hwhole := classifyFile_unterminated hts readable hfile
    have hsame : r.repairLocked p = r := by
      unfold repairLocked
      rw [hwhole]
      rfl
    rw [hsame, Option.toList_some]
    refine ⟨rfl, ⟨ts, _, _, hfile, hts, .unterminated readable, rfl⟩, hwhole,
      .inr ⟨⟨ts, t, readable, rfl, hfile⟩, ?_⟩⟩
    rw [hwhole]
    rfl

/-- A read that may repair sees the rows and nothing wrong. -/
theorem read_repairing (h : Holds p r.agent rows r.file) :
    ∃ r', r.read p true = (.ok ⟨rows, 0, 0, 0, false⟩, r') ∧ r'.agent = r.agent ∧
      Holds p r.agent rows r'.file := by
  obtain ⟨hagent, hholds, hclass, -⟩ := repaired h
  unfold read
  by_cases htail : (r.classifyFile p).tail = none
  · have hsame : r.repairLocked p = r := by
      unfold repairLocked
      rw [htail]
    rw [hsame] at hclass
    refine ⟨r, ?_, rfl, h⟩
    dsimp only
    rw [if_pos htail, hclass]
    rfl
  · refine ⟨r.repairLocked p, ?_, hagent, hholds⟩
    dsimp only
    rw [if_neg htail, hclass]
    rfl

theorem holds_read (h : Holds p r.agent rows r.file) (repair : Bool) :
    (r.read p repair).2.agent = r.agent ∧ Holds p r.agent rows (r.read p repair).2.file := by
  cases repair with
  | true =>
    obtain ⟨r', hread, hagent, hholds⟩ := read_repairing h
    rw [hread]
    exact ⟨hagent, hholds⟩
  | false =>
    have hsame : (r.read p false).2 = r := by
      unfold read
      dsimp only
      split <;> rfl
    rw [hsame]
    exact ⟨rfl, h⟩

/-! ### Appending -/

/-- The next line can begin where the file ends: it is empty, or ends with a newline,
or its last line is torn and will be taken away. -/
def EndsLine (p : Platform) (r : TombstoneRegistry) : Prop :=
  r.file = [] ∨ r.file.getLast? = some 0x0A ∨ (r.classifyFile p).tail ≠ none

instance (p : Platform) (r : TombstoneRegistry) : Decidable (r.EndsLine p) :=
  inferInstanceAs (Decidable (_ ∨ _ ∨ _))

/-- A whole line without its newline is where it cannot. -/
theorem not_endsLine (h : Unterminated p r.agent r.file rows) (htail : (r.classifyFile p).tail = none) :
    ¬r.EndsLine p := by
  obtain ⟨ts, t, ht, -, hfile⟩ := h
  obtain ⟨inside, htext, -⟩ := ht.text
  have hlast : r.file.getLast? = some 0x7D := by
    have hbrace : bytes ['\x7d'] = [0x7D] := rfl
    rw [hfile, htext, ← cons_append, Utf8.bytes_append, hbrace, ← append_assoc, List.getLast?_concat]
  rintro (hempty | hnewline | htorn)
  · rw [hempty] at hlast
    cases hlast
  · rw [hlast] at hnewline
    exact absurd hnewline (by decide)
  · exact htorn htail

theorem lines_snoc (ts : List JsonValue) (t : JsonValue) :
    bytes (lines (ts ++ [t])) = bytes (lines ts) ++ line t := by
  unfold lines line
  rw [map_append, map_singleton, Lines.content_snoc, append_assoc, Utf8.bytes_append]

/-- After the repair the file is complete lines. -/
theorem repaired_lines (h : Holds p r.agent rows r.file) (hends : r.EndsLine p) :
    (r.repairLocked p).agent = r.agent ∧ (∀ t ∈ rows, Readable p r.agent t) ∧
      (r.repairLocked p).file = bytes (lines rows) := by
  obtain ⟨hagent, -, -, ⟨hrows, hfile⟩ | ⟨hopen, htail⟩⟩ := repaired h
  · exact ⟨hagent, hrows, hfile⟩
  · exact absurd hends (not_endsLine hopen htail)

theorem holds_append (h : Holds p r.agent rows r.file) (hends : r.EndsLine p)
    (ht : Readable p r.agent t) :
    (r.append p t).agent = r.agent ∧ Holds p r.agent (rows ++ [t]) (r.append p t).file := by
  obtain ⟨hagent, hrows, hfile⟩ := repaired_lines h hends
  refine ⟨hagent, rows ++ [t], [], none, ?_, ?_, .clean, (append_nil _).symm⟩
  · show (r.repairLocked p).file ++ line t = _
    rw [hfile, lines_snoc, append_nil]
  · grind

/-- Of a line that is cut, the tombstone is there or it is not. -/
theorem holds_appendCut (h : Holds p r.agent rows r.file) (hends : r.EndsLine p)
    (ht : Readable p r.agent t) (k : ℕ) :
    (r.appendCut p t k).agent = r.agent ∧ ∃ rows', (rows' = rows ∨ rows' = rows ++ [t]) ∧
      Holds p r.agent rows' (r.appendCut p t k).file := by
  obtain ⟨hagent, hrows, hfile⟩ := repaired_lines h hends
  have hline : line t = bytes (writeJson t) ++ [0x0A] := by
    unfold line
    rw [Utf8.bytes_append]
    rfl
  have hcut : (r.appendCut p t k).file = bytes (lines rows) ++ (line t).take k := by
    rw [← hfile]
    rfl
  refine ⟨hagent, ?_⟩
  obtain hshort | hlong := Nat.lt_or_ge (bytes (writeJson t)).length k
  · -- The newline is written too.
    have hwhole := holds_append h hends ht
    have htake : (line t).take k = line t := take_of_length_le (by simp [hline]; omega)
    refine ⟨rows ++ [t], .inr rfl, ?_⟩
    rw [hcut, htake, ← hfile]
    exact hwhole.2
  · have hprefix : (line t).take k <+: bytes (writeJson t) := by
      rw [hline, take_append_of_le_length hlong]
      exact List.take_prefix _ _
    by_cases hnone : (line t).take k = []
    · refine ⟨rows, .inl rfl, rows, [], none, ?_, hrows, .clean, (append_nil _).symm⟩
      rw [hcut, hnone]
    · by_cases hall : (line t).take k = bytes (writeJson t)
      · refine ⟨rows ++ [t], .inr rfl, rows, _, some t, ?_, hrows, .unterminated ht, rfl⟩
        rw [hcut, hall]
      · exact ⟨rows, .inl rfl, rows, _, none, hcut, hrows, .torn ht hprefix hnone hall, (append_nil _).symm⟩

theorem holds_repairCut (h : Holds p r.agent rows r.file) (k : ℕ) :
    (r.repairCut p k).agent = r.agent ∧ Holds p r.agent rows (r.repairCut p k).file := by
  unfold repairCut
  split
  · exact ⟨rfl, h⟩
  · exact ⟨rfl, h⟩

/-! ### Looking up -/

theorem findBlocking_holds (h : Holds p r.agent rows r.file) {text : List Char} (htext : text ≠ [])
    (context : TombstoneContext) : ∃ r', r.findBlocking p text context =
        (.ok (rows.find? (blocks (p.contentFingerprint text) context)), r') ∧
      r'.agent = r.agent ∧ Holds p r.agent rows r'.file := by
  obtain ⟨r', hread, hagent, hholds⟩ := read_repairing h
  refine ⟨r', ?_, hagent, hholds⟩
  unfold findBlocking validRows
  rw [if_neg htext, hread]
  rfl

theorem holds_findBlocking (h : Holds p r.agent rows r.file) (text : List Char)
    (context : TombstoneContext) : (r.findBlocking p text context).2.agent = r.agent ∧
      Holds p r.agent rows (r.findBlocking p text context).2.file := by
  by_cases htext : text = []
  · have hsame : (r.findBlocking p text context).2 = r := by
      unfold findBlocking
      rw [if_pos htext]
    rw [hsame]
    exact ⟨rfl, h⟩
  · obtain ⟨r', hfind, hagent, hholds⟩ := findBlocking_holds h htext context
    rw [hfind]
    exact ⟨hagent, hholds⟩

end TombstoneRegistry

/-! ### Runs -/

inductive Event
  | append (t : JsonValue)
  /-- A crash cuts the line off after `k` bytes. -/
  | appendCut (t : JsonValue) (k : ℕ)
  /-- A crash in a repair, before the file is cut. -/
  | repairCut (k : ℕ)
  | read (repair : Bool)
  | findBlocking (text : List Char) (context : TombstoneContext)

/-- The tombstone of an append. -/
def Event.tombstone? : Event → Option JsonValue
  | .append t | .appendCut t _ => some t
  | _ => none

/-- The registry, the tombstones whose append returned and those whose append was
called, each in order. -/
structure History where
  registry : TombstoneRegistry
  returned : List JsonValue
  called : List JsonValue

namespace History

def start (agent : List Char) : History := ⟨⟨agent, [], []⟩, [], []⟩

def act (p : Platform) (h : History) : Event → History
  | .append t => ⟨h.registry.append p t, h.returned ++ [t], h.called ++ [t]⟩
  | .appendCut t k => ⟨h.registry.appendCut p t k, h.returned, h.called ++ [t]⟩
  | .repairCut k => { h with registry := h.registry.repairCut p k }
  | .read repair => { h with registry := (h.registry.read p repair).2 }
  | .findBlocking text context =>
    { h with registry := (h.registry.findBlocking p text context).2 }

/-- Only valid tombstones of the registry's agent are appended. -/
def Proper (p : Platform) (h : History) (e : Event) : Prop :=
  ∀ t, e.tombstone? = some t → isValidTombstone p t (some h.registry.agent) = true

/-- A tombstone is one the reader can read back, and its line begins a line. -/
def Apart (p : Platform) (h : History) (e : Event) : Prop := ∀ t, e.tombstone? = some t →
    t.Lexical ∧ t.nesting ≤ MAX_JSON_DEPTH ∧ h.registry.EndsLine p

/-- What the registry holds is between what returned and what was called. -/
def Inv (p : Platform) (agent : List Char) (h : History) : Prop :=
  h.registry.agent = agent ∧ ∃ rows, Holds p agent rows h.registry.file ∧
    h.returned.Sublist rows ∧ rows.Sublist h.called

theorem inv_start (p : Platform) (agent : List Char) : (start agent).Inv p agent :=
  ⟨rfl, [], ⟨[], [], none, rfl, nofun, .clean, rfl⟩, .slnil, .slnil⟩

theorem Inv.act {h : History} (hinv : h.Inv p agent) (e : Event) (hproper : h.Proper p e)
    (hapart : h.Apart p e) : (h.act p e).Inv p agent := by
  obtain ⟨rfl, rows, hholds, hreturned, hcalled⟩ := hinv
  have hreadable : ∀ t, e.tombstone? = some t → Readable p h.registry.agent t := fun t ht =>
    ⟨hproper t ht, (hapart t ht).1, (hapart t ht).2.1⟩
  cases e with
  | append t =>
    obtain ⟨hagent, hnew⟩ := TombstoneRegistry.holds_append hholds (hapart t rfl).2.2 (hreadable t rfl)
    exact ⟨hagent, _, hnew, hreturned.append (.refl _), hcalled.append (.refl _)⟩
  | appendCut t k =>
    obtain ⟨hagent, rows', hrows', hnew⟩ :=
      TombstoneRegistry.holds_appendCut hholds (hapart t rfl).2.2 (hreadable t rfl) k
    refine ⟨hagent, rows', hnew, ?_⟩
    obtain rfl | rfl := hrows'
    · exact ⟨hreturned, hcalled.trans (sublist_append_left _ _)⟩
    · exact ⟨hreturned.trans (sublist_append_left _ _), hcalled.append (.refl _)⟩
  | repairCut k =>
    obtain ⟨hagent, hnew⟩ := TombstoneRegistry.holds_repairCut hholds k
    exact ⟨hagent, rows, hnew, hreturned, hcalled⟩
  | read repair =>
    obtain ⟨hagent, hnew⟩ := TombstoneRegistry.holds_read hholds repair
    exact ⟨hagent, rows, hnew, hreturned, hcalled⟩
  | findBlocking text context =>
    obtain ⟨hagent, hnew⟩ := TombstoneRegistry.holds_findBlocking hholds text context
    exact ⟨hagent, rows, hnew, hreturned, hcalled⟩

end History

/-- A run whose appends are all of tombstones that can be read back, each on a file
that ends where a line may begin: afterwards the registry reads without a corrupt
line, holds every tombstone whose append returned, in order, and nothing that was
not appended; and a lookup finds a committed tombstone that matches, or none. -/
theorem forgotten_of_apart (p : Platform) (agent : List Char) (es : List Event)
    (hproper : Along (History.act p) (History.Proper p) (.start agent) es)
    (hapart : Along (History.act p) (History.Apart p) (.start agent) es) :
    let h := es.foldl (History.act p) (.start agent)
    ∃ rows, (h.registry.read p true).1 = .ok ⟨rows, 0, 0, 0, false⟩ ∧
      h.returned.Sublist rows ∧ rows.Sublist h.called ∧
      ∀ text context, text ≠ [] → let blocks := TombstoneRegistry.blocks (p.contentFingerprint text) context
        ((∃ t ∈ h.returned, blocks t) → ∃ t ∈ rows, blocks t ∧
          (h.registry.findBlocking p text context).1 = .ok (some t)) ∧
        ((∀ t ∈ rows, ¬blocks t) → (h.registry.findBlocking p text context).1 = .ok none) := by
  have hboth : Along (History.act p) (fun h e => h.Proper p e ∧ h.Apart p e) (.start agent) es :=
    hproper.and hapart
  obtain ⟨hagent, rows, hholds, hreturned, hcalled⟩ :=
    hboth.keeps (fun h e hinv hstep => hinv.act e hstep.1 hstep.2) (History.inv_start p agent)
  intro h
  have hholds' : Holds p h.registry.agent rows h.registry.file := by
    rw [hagent]
    exact hholds
  obtain ⟨r', hread, -, -⟩ := TombstoneRegistry.read_repairing hholds'
  refine ⟨rows, by rw [hread], hreturned, hcalled, fun text context htext => ?_⟩
  intro blocks
  obtain ⟨r'', hfind, -, -⟩ := TombstoneRegistry.findBlocking_holds hholds' htext context
  rw [hfind]
  constructor
  · rintro ⟨t, ht, hblocks⟩
    cases hfound : rows.find? blocks with
    | none => exact absurd hblocks (by simpa using List.find?_eq_none.mp hfound t (hreturned.subset ht))
    | some t' => exact ⟨t', mem_of_find?_eq_some hfound, List.find?_some hfound, rfl⟩
  · intro hnone
    have hfound : rows.find? blocks = none := List.find?_eq_none.mpr hnone
    rw [hfound]

/-! ### A line that is continued -/

variable {t' : JsonValue}

/-- The newline of `t` was never written, and `t'` was appended: one corrupt line. -/
theorem TombstoneRegistry.classifyFile_glued {r : TombstoneRegistry} (ht : Readable p r.agent t)
    (ht' : Readable p r.agent t') (hfile : r.file = bytes (writeJson t) ++ line t') :
    r.classifyFile p = ⟨⟨[], 1, 1, 0, false⟩, none⟩ := by
  obtain ⟨inside, htext, -⟩ := ht.text
  obtain ⟨inside', htext', -⟩ := ht'.text
  obtain ⟨e, he, hkind⟩ := parseJson_glued (derives_writeJson t ht.lexical) ht.nesting (inside' ++ ['\x7d'])
  rw [← htext'] at he
  have hcontent : lossy r.file = Lines.content '\n' [writeJson t ++ writeJson t'] := by
    unfold line at hfile
    rw [hfile, ← Utf8.bytes_append, Utf8.lossy_bytes]
    simp [Lines.content]
  have hlast : (Lines.content '\n' [writeJson t ++ writeJson t']).getLast? = some '\n' := by
    have hsnoc : Lines.content '\n' ([] ++ [writeJson t ++ writeJson t']) =
        Lines.content '\n' [] ++ (writeJson t ++ writeJson t') ++ ['\n'] := Lines.content_snoc [] _
    rw [nil_append] at hsnoc
    rw [hsnoc, List.getLast?_concat]
  have hsplit : (Lines.content '\n' [writeJson t ++ writeJson t']).splitOn '\n' =
      [writeJson t ++ writeJson t'] ++ [[]] := by
    refine Lines.splitOn_content fun l hl => ?_
    rw [mem_singleton.mp hl, mem_append, not_or]
    exact ⟨ht.no_newline, ht'.no_newline⟩
  have hblank : jsTrim (writeJson t ++ writeJson t') ≠ [] := by
    rw [htext, cons_append]
    exact jsTrim_ne_nil (by decide) _
  unfold classifyFile classify
  dsimp only
  rw [hcontent, if_pos hlast, hsplit, dropLast_concat, decide_eq_true hlast]
  simp only [classifyLines, classifyLine, if_neg hblank, he]
  rw [if_neg (by simp)]
  rfl

/-- An append that is cut off before its newline, and one that returns. -/
def cutBeforeNewline (t t' : JsonValue) : List Event :=
  [.appendCut t (bytes (writeJson t)).length, .append t']

/-- The second tombstone is not read, the registry has a corrupt line, and every
lookup fails. -/
theorem lost_newline (ht : Readable p agent t) (ht' : Readable p agent t') :
    let h := (cutBeforeNewline t t').foldl (History.act p) (.start agent)
    Along (History.act p) (History.Proper p) (.start agent) (cutBeforeNewline t t') ∧
      (h.registry.read p true).1 = .ok ⟨[], 1, 1, 0, false⟩ ∧
      ∀ text context, text ≠ [] → (h.registry.findBlocking p text context).1 = .error .corrupt := by
  intro h
  have hnone : ∀ t ∈ ([] : List JsonValue), Readable p agent t := nofun
  have hempty : (⟨agent, [], []⟩ : TombstoneRegistry).classifyFile p = .rowsOf [] none :=
    TombstoneRegistry.classifyFile_clean (r := ⟨agent, [], []⟩) hnone rfl
  -- After the crash the file is the whole line without its newline, which needs no repair.
  have hcut : (⟨agent, [], []⟩ : TombstoneRegistry).appendCut p t (bytes (writeJson t)).length =
      ⟨agent, bytes (writeJson t), []⟩ := by
    unfold TombstoneRegistry.appendCut TombstoneRegistry.repairLocked TombstoneRegistry.line
    rw [hempty, Utf8.bytes_append]
    simp [Classified.rowsOf]
  have hwhole : (⟨agent, bytes (writeJson t), []⟩ : TombstoneRegistry).classifyFile p = .rowsOf [t] none :=
    TombstoneRegistry.classifyFile_unterminated (r := ⟨agent, bytes (writeJson t), []⟩) hnone ht
      (nil_append (bytes (writeJson t))).symm
  have hregistry : h.registry = ⟨agent, bytes (writeJson t) ++ TombstoneRegistry.line t', []⟩ := by
    show TombstoneRegistry.append p
      (TombstoneRegistry.appendCut p ⟨agent, [], []⟩ t (bytes (writeJson t)).length) t' = _
    rw [hcut]
    unfold TombstoneRegistry.append TombstoneRegistry.repairLocked
    rw [hwhole]
    rfl
  have hglued : h.registry.classifyFile p = ⟨⟨[], 1, 1, 0, false⟩, none⟩ := by
    rw [hregistry]
    exact TombstoneRegistry.classifyFile_glued (r := ⟨agent, _, []⟩) ht ht' rfl
  have hread : h.registry.read p true = (.ok ⟨[], 1, 1, 0, false⟩, h.registry) := by
    unfold TombstoneRegistry.read
    rw [hglued]
    rfl
  refine ⟨⟨?_, ?_, trivial⟩, by rw [hread], fun text context htext => ?_⟩
  · rintro _ ⟨⟩
    exact ht.valid
  · rintro _ ⟨⟩
    show isValidTombstone _ _ (some (TombstoneRegistry.appendCut p ⟨agent, [], []⟩ t
      (bytes (writeJson t)).length).agent) = true
    rw [hcut]
    exact ht'.valid
  · unfold TombstoneRegistry.findBlocking TombstoneRegistry.validRows
    rw [if_neg htext, hread]
    rfl

namespace Sample

def text (s : String) : JsString := s.toList.map fun c => UInt16.ofNat c.toNat

/-- A committed tombstone of agent `a1`. -/
def tombstone : JsonValue := .object
  [(text "schemaVersion", .number ['1']),
    (text "memoryId", .string (text "00000000-0000-4000-8000-000000000001")),
    (text "agentId", .string (text "a1")),
    (text "scope", .string (text "agent-private")),
    (text "status", .string (text "committed")),
    (text "contentFingerprint", .string (List.replicate 64 0x61))]

/-- Every text has the fingerprint of the tombstone. -/
def platform : Platform := ⟨fun lexeme => lexeme = ['1'], fun _ => List.replicate 64 'a'⟩

theorem valid_tombstone : isValidTombstone platform tombstone (some ['a', '1']) = true := by
  decide

theorem readable_tombstone : Readable platform ['a', '1'] tombstone where
  valid := valid_tombstone
  lexical := by
    refine ⟨⟨[], ['1'], [], [], .inl rfl, ?_, .absent, .absent, rfl⟩, trivial, trivial, trivial, trivial,
      trivial, trivial⟩
    exact .digits rfl (by decide) nofun
  nesting := by
    simp [tombstone, JsonValue.nesting, entriesNesting, MAX_JSON_DEPTH]

end Sample

/-- A valid tombstone whose append returned is not in the registry, and the registry
has a corrupt line. -/
theorem forgotten_lost_newline : let es := cutBeforeNewline Sample.tombstone Sample.tombstone
    let h := es.foldl (History.act Sample.platform) (.start ['a', '1'])
    Along (History.act Sample.platform) (History.Proper Sample.platform) (.start ['a', '1']) es ∧
      h.returned = [Sample.tombstone] ∧
      (h.registry.read Sample.platform true).1 = .ok ⟨[], 1, 1, 0, false⟩ ∧
      ∀ text context, text ≠ [] →
        (h.registry.findBlocking Sample.platform text context).1 = .error .corrupt := by
  obtain ⟨hproper, hread, hfind⟩ := lost_newline Sample.readable_tombstone Sample.readable_tombstone
  exact ⟨hproper, rfl, hread, hfind⟩

/-- An append that returns, and one that is cut off early. -/
theorem forgotten_of_apart_torn :
    let es : List Event := [.append Sample.tombstone, .appendCut Sample.tombstone 3]
    let h := es.foldl (History.act Sample.platform) (.start ['a', '1'])
    ∃ rows, (h.registry.read Sample.platform true).1 = .ok ⟨rows, 0, 0, 0, false⟩ ∧
      [Sample.tombstone].Sublist rows := by
  intro es h
  have hreadable := Sample.readable_tombstone
  have hstart : Holds Sample.platform ['a', '1'] [] [] := ⟨[], [], none, rfl, nofun, .clean, rfl⟩
  obtain ⟨hagent, -, -⟩ :=
    TombstoneRegistry.repaired_lines (r := (History.start ['a', '1']).registry) hstart (.inl rfl)
  have hproper : Along (History.act Sample.platform) (History.Proper Sample.platform)
      (.start ['a', '1']) es := by
    refine ⟨?_, ?_, trivial⟩
    · rintro _ ⟨⟩
      exact hreadable.valid
    · rintro _ ⟨⟩
      show isValidTombstone _ _ (some (TombstoneRegistry.repairLocked _ _).agent) = true
      rw [hagent]
      exact hreadable.valid
  have hapart : Along (History.act Sample.platform) (History.Apart Sample.platform)
      (.start ['a', '1']) es := by
    refine ⟨?_, ?_, trivial⟩
    · rintro _ ⟨⟩
      exact ⟨hreadable.lexical, hreadable.nesting, .inl rfl⟩
    · rintro _ ⟨⟩
      refine ⟨hreadable.lexical, hreadable.nesting, .inr (.inl ?_)⟩
      show ((TombstoneRegistry.repairLocked _ _).file ++
        TombstoneRegistry.line Sample.tombstone).getLast? = _
      have hnewline : bytes ['\n'] = [0x0A] := rfl
      unfold TombstoneRegistry.line
      rw [Utf8.bytes_append, hnewline, ← append_assoc, List.getLast?_concat]
  obtain ⟨rows, hread, hreturned, -⟩ := forgotten_of_apart Sample.platform ['a', '1'] es hproper hapart
  exact ⟨rows, hread, hreturned⟩

end Plur1bus.Engine
