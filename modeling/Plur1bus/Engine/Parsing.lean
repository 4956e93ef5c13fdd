import Mathlib.Order.MinMax
import Plur1bus.Engine.Reading

/-!
What the reader does on the bytes of a text, container by container. A reader with
room for `room` containers takes a value from the front of a text exactly when one
that nests no deeper is derived there, and refuses for depth exactly when the text
begins as a grammatical text does that opens one container too many. The induction
is on the room; inside, on the loop for what is read and on the derivation for what
must be read.
-/

namespace Plur1bus.Engine

open Program List
open Utf8

namespace Grammar

/-! ### Derivations -/

variable {cs : List Char} {vs : List JsonValue}

@[elab_as_elim]
theorem Derives.elements_induction {motive : List Char → List JsonValue → Prop}
    (one : ∀ {cs v}, Derives .element cs v → motive cs [v])
    (more : ∀ {cs ds v vs}, Derives .element cs v → Derives .elements ds (.array vs) →
      motive ds vs → motive (cs ++ (',' :: ds)) (v :: vs)) (h : Derives .elements cs (.array vs)) :
    motive cs vs := by
  generalize hsym : Sym.elements = sym, hval : JsonValue.array vs = v at h
  induction h generalizing vs with
  | one item _ =>
    cases hval
    exact one item
  | more item rest _ ih =>
    cases hval
    exact more item rest (ih rfl rfl)
  | _ => cases hsym

variable {es : List (JsString × JsonValue)}

@[elab_as_elim]
theorem Derives.members_induction {motive : List Char → List (JsString × JsonValue) → Prop}
    (member : ∀ {w ks w' cs k v}, Ws w → Chars ks k → Ws w' → Derives .element cs v →
      motive (w ++ ('"' :: (ks ++ ('"' :: (w' ++ (':' :: cs)))))) [(k, v)])
    (members : ∀ {w ks w' cs ds k v es}, Ws w → Chars ks k → Ws w' → Derives .element cs v →
      Derives .members ds (.object es) → motive ds es →
      motive (w ++ ('"' :: (ks ++ ('"' :: (w' ++ (':' :: (cs ++ (',' :: ds)))))))) ((k, v) :: es))
    (h : Derives .members cs (.object es)) : motive cs es := by
  generalize hsym : Sym.members = sym, hval : JsonValue.object es = v at h
  induction h generalizing es with
  | member ws key ws' item _ =>
    cases hval
    exact member ws key ws' item
  | members ws key ws' item rest _ ih =>
    cases hval
    exact members ws key ws' item rest (ih rfl rfl)
  | _ => cases hsym

variable {v : JsonValue}

theorem Derives.elements_array (h : Derives .elements cs v) : ∃ vs, v = .array vs := by
  cases h with
  | one _ => exact ⟨_, rfl⟩
  | more _ _ => exact ⟨_, rfl⟩

theorem Derives.members_object (h : Derives .members cs v) : ∃ es, v = .object es := by
  cases h with
  | member _ _ _ _ => exact ⟨_, rfl⟩
  | members _ _ _ _ _ => exact ⟨_, rfl⟩

variable {w : List Char}

theorem Ws.append {w' : List Char} (h : Ws w) (h' : Ws w') : Ws (w ++ w') := by
  intro c hc
  obtain hc | hc := mem_append.mp hc
  · exact h c hc
  · exact h' c hc

theorem Ws.nil : Ws [] := nofun

/-- White space may stand before an element. -/
theorem Derives.element_ws (hw : Ws w) (h : Derives .element cs v) : Derives .element (w ++ cs) v := by
  cases h with
  | element ws value ws' =>
    rw [← append_assoc]
    exact .element (hw.append ws) value ws'

theorem Derives.elements_ws (hw : Ws w) (h : Derives .elements cs (.array vs)) :
    Derives .elements (w ++ cs) (.array vs) := by
  cases h with
  | one item => exact .one (item.element_ws hw)
  | more item rest =>
    rw [← append_assoc]
    exact .more (item.element_ws hw) rest

theorem Derives.members_ws (hw : Ws w) (h : Derives .members cs (.object es)) :
    Derives .members (w ++ cs) (.object es) := by
  cases h with
  | member ws key ws' item =>
    rw [← append_assoc]
    exact .member (hw.append ws) key ws' item
  | members ws key ws' item rest =>
    rw [← append_assoc]
    exact .members (hw.append ws) key ws' item rest

theorem Number.front (h : Number cs) : ∃ c ds, cs = c :: ds ∧ (c = '-' ∨ isDigit c = true) := by
  obtain ⟨sign, int, frac, exp, rfl | rfl, hint, -, -, rfl⟩ := h
  · cases hint with
    | zero => exact ⟨_, _, rfl, .inr rfl⟩
    | digits first _ _ => exact ⟨_, _, rfl, .inr first⟩
  · exact ⟨_, _, rfl, .inl rfl⟩

/-- A value begins with a character that is neither white space nor a closing bracket. -/
theorem Derives.value_front (h : Derives .value cs v) :
    ∃ c ds, cs = c :: ds ∧ isWs c = Bool.false ∧ c ≠ ']' := by
  cases h with
  | number number =>
    obtain ⟨c, ds, rfl, hc⟩ := number.front
    refine ⟨c, ds, rfl, ?_, ?_⟩
    · rw [← Bool.not_eq_true]
      intro hws
      simp only [isWs, Bool.or_eq_true, decide_eq_true_eq] at hws
      obtain ((rfl | rfl) | rfl) | rfl := hws <;> revert hc <;> decide
    · rintro rfl
      revert hc
      decide
  | _ => exact ⟨_, _, rfl, by decide, by decide⟩

theorem Derives.elements_front (h : Derives .elements cs (.array vs)) : ∃ w c ds, cs = w ++ c :: ds ∧ Ws w ∧
      isWs c = Bool.false ∧ c ≠ ']' ∧ Derives .elements (c :: ds) (.array vs) := by
  cases h with
  | one item =>
    cases item with
    | @element w _ w' _ ws value ws' =>
      obtain ⟨c, ds, rfl, hws, hc⟩ := value.value_front
      exact ⟨w, c, ds ++ w', by simp, ws, hws, hc, .one (.element Ws.nil value ws')⟩
  | @more _ rs _ _ item rest =>
    cases item with
    | @element w _ w' _ ws value ws' =>
      obtain ⟨c, ds, rfl, hws, hc⟩ := value.value_front
      refine ⟨w, c, ds ++ (w' ++ ',' :: rs), by simp, ws, hws, hc, ?_⟩
      have hmore := Derives.more (.element Ws.nil value ws') rest
      simpa using hmore

theorem Derives.members_front (h : Derives .members cs (.object es)) : ∃ w ds, cs = w ++ '"' :: ds ∧ Ws w ∧
      Derives .members ('"' :: ds) (.object es) := by
  cases h with
  | member ws key ws' item => exact ⟨_, _, rfl, ws, .member Ws.nil key ws' item⟩
  | members ws key ws' item rest => exact ⟨_, _, rfl, ws, .members Ws.nil key ws' item rest⟩

end Grammar

namespace Reader

open Grammar (Ws Chars Derives)

/-! ### The reader of a value -/

/-- `cs` begins as a text derived as `sym` does, which opens a container inside
`room` others at the end of this beginning. -/
def TooDeep (sym : Grammar.Sym) (room : ℕ) (cs : List Char) : Prop :=
  ∃ p, p <+: cs ∧ Climbs room p ∧ ∃ q v, Derives sym (p ++ q) v

/-- A refusal for depth. -/
def Refused {α : Type} (x : Except Failure α) : Prop := ∃ e, x = .error e ∧ e.kind = .depthLimit

theorem Refused.bind {α β : Type} {x : Except Failure α} (h : Refused x)
    (f : α → Except Failure β) : Refused (x >>= f) := by
  obtain ⟨e, rfl, he⟩ := h
  exact ⟨e, rfl, he⟩

/-- `item` reads values that nest at most `room` deep. -/
structure Reading (room : ℕ) (item : Reader JsonValue) : Prop where
  reads : ∀ cs, Reads (fun v b => ∃ w a, cs = w ++ (a ++ b) ∧ Ws w ∧ Derives .value a v ∧
    v.nesting ≤ room) (TooDeep .element room cs) (item (bytes cs))
  complete : ∀ {w a b v}, Ws w → Derives .value a v → v.nesting ≤ room → Ends b →
    item (bytes (w ++ (a ++ b))) = .ok (v, bytes b)
  deep : ∀ {cs v}, Derives .element cs v → room < v.nesting →
    ∃ p, p <+: cs ∧ Climbs room p ∧ ∀ t, Refused (item (bytes (p ++ t)))

theorem comma_ascii : Ascii (· = 0x2C) (· = ',') := .char _ _ (by decide) rfl

theorem colon_ascii : Ascii (· = 0x3A) (· = ':') := .char _ _ (by decide) rfl

theorem bracket_ascii : Ascii (· = 0x5D) (· = ']') := .char _ _ (by decide) rfl

theorem brace_ascii : Ascii (· = 0x7D) (· = '\x7d') := .char _ _ (by decide) rfl

variable {w : List Char} {c : Char}

/-- White space, or the character after it, ends a number. -/
theorem ends_ws (hw : Ws w) (hc : Grammar.isNumberChar c = false) (b : List Char) : Ends (w ++ c :: b) := by
  intro x hx
  cases w with
  | nil =>
    cases hx
    exact hc
  | cons y w =>
    cases hx
    have hws := hw x mem_cons_self
    simp only [Grammar.isWs, Bool.or_eq_true, decide_eq_true_eq] at hws
    obtain ((rfl | rfl) | rfl) | rfl := hws <;> rfl

theorem skipWs_cons (hw : Ws w) (hc : Grammar.isWs c = false) (b : List Char) :
    skipWs (bytes (w ++ c :: b)) = bytes (c :: b) := by
  refine skipWs_ws hw ?_
  rintro x ⟨⟩
  exact hc

section Loops

variable {room : ℕ} {item : Reader JsonValue} (h : Reading room item)
include h

/-- An element before the character `c`. -/
theorem Reading.element {cs : List Char} {v : JsonValue} (hcs : Derives .element cs v)
    (hv : v.nesting ≤ room) {c : Char} (hc : Grammar.isNumberChar c = false)
    (hws : Grammar.isWs c = false) (b : List Char) :
    ∃ r, item (bytes (cs ++ c :: b)) = .ok (v, r) ∧ skipWs r = bytes (c :: b) := by
  cases hcs with
  | @element w a w' _ ws value ws' =>
    refine ⟨bytes (w' ++ c :: b), ?_, skipWs_cons ws' hws b⟩
    have hread := h.complete ws value hv (ends_ws ws' hc b)
    simpa using hread

variable {cs : List Char}

theorem parseItems_reads {n : ℕ} (hn : (bytes cs).length < n) :
    Reads (fun vs b => ∃ a, cs = a ++ ']' :: b ∧ Derives .elements a (.array vs) ∧
      itemsNesting vs ≤ room) (TooDeep .elements room cs) (parseItems item n (bytes cs)) := by
  induction n generalizing cs with
  | zero => omega
  | succ n ih =>
    unfold parseItems
    refine ((h.reads cs).mono (fun _ _ => id) ?_).bind ?_
    · rintro ⟨p, hp, hclimb, q, v, hv⟩
      exact ⟨p, hp, hclimb, q, _, .one hv⟩
    · rintro v r ⟨w, a, rfl, hw, ha, hv⟩
      obtain ⟨w', ds, rfl, hw', hskip, -⟩ := skipWs_spec r
      have helem : Derives .element (w ++ (a ++ w')) v := .element hw ha hw'
      dsimp only
      rw [hskip]
      split
      · rename_i hnext
        obtain ⟨c, es, rfl, hc, htail⟩ := comma_ascii.next hnext
        simp only [decide_eq_true_eq] at hc
        subst hc
        rw [htail]
        have hlen : (bytes es).length < n := by
          have hlt := length_bytes_lt (w ++ (a ++ w')) ',' es
          simp only [append_assoc] at hlt
          omega
        refine ((ih hlen).mono (fun _ _ => id) ?_).bind ?_
        · -- The place that is too deep is in a later item.
          rintro ⟨p, ⟨t, rfl⟩, hclimb, q, vs, hvs⟩
          obtain ⟨vs, rfl⟩ := hvs.elements_array
          refine ⟨(w ++ (a ++ w')) ++ (',' :: p), ⟨t, by simp⟩, ?_, q, .array (v :: vs), ?_⟩
          · have hin : ∀ d, Within d room ((w ++ (a ++ w')) ++ [',']) := fun d =>
              ((helem.within d).mono hv).append (.cons (by decide) .nil)
            have hall := hclimb.append hin
            simpa using hall
          · rw [append_assoc, cons_append]
            exact .more helem hvs
        · rintro vs b ⟨a', rfl, ha', hvs⟩
          refine .ok ⟨(w ++ (a ++ w')) ++ (',' :: a'), by simp, .more helem ha', ?_⟩
          exact Nat.max_le.mpr ⟨hv, hvs⟩
      · split
        · rename_i hnext
          obtain ⟨c, es, rfl, hc, htail⟩ := bracket_ascii.next hnext
          simp only [decide_eq_true_eq] at hc
          subst hc
          rw [htail]
          refine .ok ⟨w ++ (a ++ w'), by simp, .one helem, ?_⟩
          exact Nat.max_le.mpr ⟨hv, Nat.zero_le _⟩
        · exact .err

variable {a : List Char} {vs : List JsonValue}

theorem parseItems_complete (ha : Derives .elements a (.array vs)) (b : List Char) :
    itemsNesting vs ≤ room → ∀ n, (bytes (a ++ ']' :: b)).length < n →
        parseItems item n (bytes (a ++ ']' :: b)) = .ok (vs, bytes b) := by
  refine ha.elements_induction ?_ ?_
  · rintro cs v hcs hv (_ | n) hn
    · omega
    · obtain ⟨r, hread, hskip⟩ := h.element hcs (le_of_max_le_left hv) (c := ']') rfl rfl b
      simp only [parseItems, hread, hskip, bind, Except.bind, comma_ascii.nextIs_cons,
        bracket_ascii.nextIs_cons, Ascii.tail_cons (c := ']') (by decide)]
      rfl
  · rintro cs ds v vs hcs _ ih hv (_ | n) hn
    · omega
    · rw [append_assoc, cons_append] at hn ⊢
      obtain ⟨r, hread, hskip⟩ := h.element hcs (le_of_max_le_left hv) (c := ',') rfl rfl (ds ++ ']' :: b)
      have hlt := length_bytes_lt cs ',' (ds ++ ']' :: b)
      have hrest := ih (le_of_max_le_right hv) n (by omega)
      simp only [parseItems, hread, hskip, bind, Except.bind, comma_ascii.nextIs_cons,
        Ascii.tail_cons (c := ',') (by decide), hrest]
      rfl

theorem parseItems_deep (ha : Derives .elements a (.array vs)) : room < itemsNesting vs →
      ∃ p, p <+: a ∧ Climbs room p ∧ ∀ t n, (bytes (p ++ t)).length < n →
        Refused (parseItems item n (bytes (p ++ t))) := by
  refine ha.elements_induction ?_ ?_
  · intro cs v hcs hv
    obtain ⟨p, hp, hclimb, hrefused⟩ := h.deep hcs (by simpa [itemsNesting] using hv)
    refine ⟨p, hp, hclimb, ?_⟩
    rintro t (_ | n) hn
    · omega
    · exact (hrefused t).bind _
  · intro cs ds v vs hcs _ ih hv
    obtain hdeep | hflat := Nat.lt_or_ge room v.nesting
    · obtain ⟨p, hp, hclimb, hrefused⟩ := h.deep hcs hdeep
      refine ⟨p, hp.trans (prefix_append _ _), hclimb, ?_⟩
      rintro t (_ | n) hn
      · omega
      · exact (hrefused t).bind _
    · -- The first item is read, and the place is in a later one.
      obtain ⟨p, ⟨q, rfl⟩, hclimb, hrefused⟩ := ih ((lt_max_iff.mp hv).resolve_left (by omega))
      have hin : ∀ d, Within d room (cs ++ [',']) := fun d =>
        ((hcs.within d).mono hflat).append (.cons (by decide) .nil)
      refine ⟨cs ++ (',' :: p), ⟨q, by simp⟩, by simpa using hclimb.append hin, ?_⟩
      rintro t (_ | n) hn
      · omega
      · rw [append_assoc, cons_append] at hn ⊢
        obtain ⟨r, hread, hskip⟩ := h.element hcs hflat (c := ',') rfl rfl (p ++ t)
        have hlt := length_bytes_lt cs ',' (p ++ t)
        have hrest := hrefused t n (by omega)
        simp only [parseItems, hread, hskip, bind, Except.bind, comma_ascii.nextIs_cons,
          Ascii.tail_cons (c := ',') (by decide)]
        exact hrest.bind _

theorem parseEntries_reads {n : ℕ} (hn : (bytes cs).length < n) :
    Reads (fun es b => ∃ a, cs = a ++ '\x7d' :: b ∧ Derives .members a (.object es) ∧
      entriesNesting es ≤ room) (TooDeep .members room cs) (parseEntries item n (bytes cs)) := by
  induction n generalizing cs with
  | zero => omega
  | succ n ih =>
    obtain ⟨w, ds, rfl, hw, hskip, -⟩ := skipWs_spec cs
    unfold parseEntries
    rw [hskip]
    refine ((parseString_reads ds).mono (fun _ _ => id) False.elim).bind ?_
    rintro k r ⟨ks, rfl, hk⟩
    obtain ⟨w', ds, rfl, hw', hskip', -⟩ := skipWs_spec r
    dsimp only
    rw [hskip']
    split
    · rename_i hcolon
      obtain ⟨c, ds, rfl, hc, htail⟩ := colon_ascii.next hcolon
      simp only [decide_eq_true_eq] at hc
      subst hc
      rw [htail]
      have hkey : ∀ d, Within d room (w ++ ('"' :: (ks ++ ('"' :: (w' ++ [':']))))) := fun d =>
        hw.within.append (.key hk (hw'.within.append (.cons (by decide) .nil)))
      refine ((h.reads ds).mono (fun _ _ => id) ?_).bind ?_
      · rintro ⟨p, ⟨t, rfl⟩, hclimb, q, v, hv⟩
        refine ⟨w ++ ('"' :: (ks ++ ('"' :: (w' ++ (':' :: p))))), ⟨t, by simp⟩,
          by simpa using hclimb.append hkey, q, .object [(k, v)], ?_⟩
        have hmember := Derives.member hw hk hw' hv
        simpa using hmember
      · rintro v r ⟨u, a, rfl, hu, ha, hv⟩
        obtain ⟨u', ds, rfl, hu', hskip'', -⟩ := skipWs_spec r
        have helem : Derives .element (u ++ (a ++ u')) v := .element hu ha hu'
        dsimp only
        rw [hskip'']
        split
        · rename_i hnext
          obtain ⟨c, ds, rfl, hc, htail⟩ := comma_ascii.next hnext
          simp only [decide_eq_true_eq] at hc
          subst hc
          rw [htail]
          have hlen : (bytes ds).length < n := by
            have hlt := length_bytes_lt
              (w ++ ('"' :: (ks ++ ('"' :: (w' ++ (':' :: (u ++ (a ++ u')))))))) ',' ds
            simp only [append_assoc, cons_append] at hlt
            omega
          refine ((ih hlen).mono (fun _ _ => id) ?_).bind ?_
          · -- The place that is too deep is in a later entry.
            rintro ⟨p, ⟨t, rfl⟩, hclimb, q, es, hes⟩
            obtain ⟨es, rfl⟩ := hes.members_object
            have hin : ∀ d, Within d room ((u ++ (a ++ u')) ++ [',']) := fun d =>
              ((helem.within d).mono hv).append (.cons (by decide) .nil)
            refine ⟨w ++ ('"' :: (ks ++ ('"' :: (w' ++ (':' :: ((u ++ (a ++ u')) ++ (',' :: p)))))))
              , ⟨t, by simp⟩, by simpa using (hclimb.append hin).append hkey, q,
              .object ((k, v) :: es), ?_⟩
            have hmembers := Derives.members hw hk hw' helem hes
            simpa using hmembers
          · rintro es b ⟨a', rfl, ha', hes⟩
            refine .ok ⟨_, ?_, .members hw hk hw' helem ha', Nat.max_le.mpr ⟨hv, hes⟩⟩
            simp
        · split
          · rename_i hnext
            obtain ⟨c, ds, rfl, hc, htail⟩ := brace_ascii.next hnext
            simp only [decide_eq_true_eq] at hc
            subst hc
            rw [htail]
            refine .ok ⟨_, ?_, .member hw hk hw' helem, Nat.max_le.mpr ⟨hv, Nat.zero_le _⟩⟩
            simp
          · exact .err
    · exact .err

omit h in
/-- A key is read up to its colon. -/
theorem parseString_key {w ks w' : List Char} {k : JsString} (hw : Ws w) (hk : Chars ks k)
    (hw' : Ws w') (ds : List Char) :
    parseString (skipWs (bytes (w ++ ('"' :: (ks ++ ('"' :: (w' ++ (':' :: ds)))))))) =
        .ok (k, bytes (w' ++ (':' :: ds))) ∧
      skipWs (bytes (w' ++ (':' :: ds))) = bytes (':' :: ds) := by
  rw [skipWs_cons hw (by decide), parseString_complete hk]
  exact ⟨rfl, skipWs_cons hw' (by decide) ds⟩

variable {es : List (JsString × JsonValue)}

theorem parseEntries_complete (ha : Derives .members a (.object es)) (b : List Char) :
    entriesNesting es ≤ room → ∀ n, (bytes (a ++ '\x7d' :: b)).length < n →
        parseEntries item n (bytes (a ++ '\x7d' :: b)) = .ok (es, bytes b) := by
  refine ha.members_induction ?_ ?_
  · rintro w ks w' cs k v hw hk hw' hcs hv (_ | n) hn
    · omega
    · obtain ⟨hkey, hcolon⟩ := parseString_key hw hk hw' (cs ++ '\x7d' :: b)
      obtain ⟨r, hread, hskip⟩ := h.element hcs (le_of_max_le_left hv) (c := '\x7d') rfl rfl b
      simp only [append_assoc, cons_append, parseEntries, hkey, hcolon, hread, hskip,
        bind, Except.bind, colon_ascii.nextIs_cons, comma_ascii.nextIs_cons,
        brace_ascii.nextIs_cons, Ascii.tail_cons (c := ':') (by decide),
        Ascii.tail_cons (c := '\x7d') (by decide)]
      rfl
  · rintro w ks w' cs ds k v es hw hk hw' hcs _ ih hv (_ | n) hn
    · omega
    · obtain ⟨hkey, hcolon⟩ := parseString_key hw hk hw' (cs ++ ',' :: (ds ++ '\x7d' :: b))
      obtain ⟨r, hread, hskip⟩ :=
        h.element hcs (le_of_max_le_left hv) (c := ',') rfl rfl (ds ++ '\x7d' :: b)
      have hlt := length_bytes_lt (w ++ ('"' :: (ks ++ ('"' :: (w' ++ (':' :: cs)))))) ','
        (ds ++ '\x7d' :: b)
      simp only [append_assoc, cons_append] at hn hlt
      have hrest := ih (le_of_max_le_right hv) n (by omega)
      simp only [append_assoc, cons_append, parseEntries, hkey, hcolon, hread, hskip,
        bind, Except.bind, colon_ascii.nextIs_cons, comma_ascii.nextIs_cons,
        Ascii.tail_cons (c := ':') (by decide), Ascii.tail_cons (c := ',') (by decide), hrest]
      rfl

theorem parseEntries_deep (ha : Derives .members a (.object es)) : room < entriesNesting es →
      ∃ p, p <+: a ∧ Climbs room p ∧ ∀ t n, (bytes (p ++ t)).length < n →
        Refused (parseEntries item n (bytes (p ++ t))) := by
  have hkey : ∀ {w ks w' : List Char} {k : JsString}, Ws w → Chars ks k → Ws w' → ∀ d,
      Within d room (w ++ ('"' :: (ks ++ ('"' :: (w' ++ [':']))))) := fun hw hk hw' d =>
    hw.within.append (.key hk (hw'.within.append (.cons (by decide) .nil)))
  -- A value that is too deep refuses the entry it stands in.
  have hentry : ∀ {w ks w' p : List Char} {k : JsString}, Ws w → Chars ks k → Ws w' →
      (∀ t, Refused (item (bytes (p ++ t)))) → ∀ t n,
        (bytes ((w ++ ('"' :: (ks ++ ('"' :: (w' ++ (':' :: p)))))) ++ t)).length < n →
        Refused (parseEntries item n
          (bytes ((w ++ ('"' :: (ks ++ ('"' :: (w' ++ (':' :: p)))))) ++ t))) := by
    rintro w ks w' p k hw hk hw' hrefused t (_ | n) hn
    · omega
    · obtain ⟨hread, hcolon⟩ := parseString_key hw hk hw' (p ++ t)
      simp only [append_assoc, cons_append, parseEntries, hread, hcolon, bind,
        Except.bind, colon_ascii.nextIs_cons, Ascii.tail_cons (c := ':') (by decide)]
      exact (hrefused t).bind _
  refine ha.members_induction ?_ ?_
  · intro w ks w' cs k v hw hk hw' hcs hv
    obtain ⟨p, ⟨q, rfl⟩, hclimb, hrefused⟩ := h.deep hcs (by simpa [entriesNesting] using hv)
    exact ⟨_, ⟨q, by simp⟩, by simpa using hclimb.append (hkey hw hk hw'), hentry hw hk hw' hrefused⟩
  · intro w ks w' cs ds k v es hw hk hw' hcs _ ih hv
    obtain hdeep | hflat := Nat.lt_or_ge room v.nesting
    · obtain ⟨p, ⟨q, rfl⟩, hclimb, hrefused⟩ := h.deep hcs hdeep
      exact ⟨_, ⟨q ++ (',' :: ds), by simp⟩, by simpa using hclimb.append (hkey hw hk hw'),
        hentry hw hk hw' hrefused⟩
    · -- The first entry is read, and the place is in a later one.
      obtain ⟨p, ⟨q, rfl⟩, hclimb, hrefused⟩ := ih ((lt_max_iff.mp hv).resolve_left (by omega))
      have hin : ∀ d, Within d room (cs ++ [',']) := fun d =>
        ((hcs.within d).mono hflat).append (.cons (by decide) .nil)
      refine ⟨w ++ ('"' :: (ks ++ ('"' :: (w' ++ (':' :: (cs ++ (',' :: p))))))), ⟨q, by simp⟩,
        by simpa using (hclimb.append hin).append (hkey hw hk hw'), ?_⟩
      rintro t (_ | n) hn
      · omega
      · obtain ⟨hread, hcolon⟩ := parseString_key hw hk hw' (cs ++ ',' :: (p ++ t))
        obtain ⟨r, hitem, hskip⟩ := h.element hcs hflat (c := ',') rfl rfl (p ++ t)
        have hlt := length_bytes_lt (w ++ ('"' :: (ks ++ ('"' :: (w' ++ (':' :: cs)))))) ','
          (p ++ t)
        simp only [append_assoc, cons_append] at hn hlt
        have hrest := hrefused t n (by omega)
        simp only [append_assoc, cons_append, parseEntries, hread, hcolon, hitem, hskip,
          bind, Except.bind, colon_ascii.nextIs_cons, comma_ascii.nextIs_cons,
          Ascii.tail_cons (c := ':') (by decide), Ascii.tail_cons (c := ',') (by decide)]
        exact hrest.bind _

end Loops

/-! ### Containers -/

section Brackets

variable {room : ℕ} {item : Reader JsonValue} (h : Reading room item)
include h

theorem parseArray_reads (cs : List Char) :
    Reads (fun v b => ∃ a, '[' :: cs = a ++ b ∧ Derives .value a v ∧ v.nesting ≤ room + 1)
      (TooDeep .value (room + 1) ('[' :: cs)) (parseArray item (bytes ('[' :: cs))) := by
  unfold parseArray
  rw [Ascii.tail_cons (by decide)]
  obtain ⟨w, ds, rfl, hw, hskip, -⟩ := skipWs_spec cs
  dsimp only
  rw [hskip]
  split
  · rename_i hnext
    obtain ⟨c, ds, rfl, hc, htail⟩ := bracket_ascii.next hnext
    simp only [decide_eq_true_eq] at hc
    subst hc
    rw [htail]
    exact .ok ⟨'[' :: (w ++ [']']), by simp, .emptyArray hw, by simp [JsonValue.nesting, itemsNesting]⟩
  · refine ((parseItems_reads h (Nat.lt_succ_self _)).mono (fun _ _ => id) ?_).bind ?_
    · rintro ⟨p, ⟨t, rfl⟩, hclimb, q, vs, hvs⟩
      obtain ⟨vs, rfl⟩ := hvs.elements_array
      refine ⟨'[' :: (w ++ p), ⟨t, by simp⟩, (hclimb.append fun d => hw.within).bracket (.inl rfl),
        q ++ [']'], .array vs, ?_⟩
      have harray := Derives.array (hvs.elements_ws hw)
      simpa using harray
    · rintro vs b ⟨a, rfl, ha, hvs⟩
      refine .ok ⟨'[' :: ((w ++ a) ++ [']']), by simp, .array (ha.elements_ws hw), ?_⟩
      exact Nat.succ_le_succ hvs

theorem parseObject_reads (cs : List Char) :
    Reads (fun v b => ∃ a, '\x7b' :: cs = a ++ b ∧ Derives .value a v ∧ v.nesting ≤ room + 1)
      (TooDeep .value (room + 1) ('\x7b' :: cs)) (parseObject item (bytes ('\x7b' :: cs))) := by
  unfold parseObject
  rw [Ascii.tail_cons (by decide)]
  obtain ⟨w, ds, rfl, hw, hskip, -⟩ := skipWs_spec cs
  dsimp only
  rw [hskip]
  split
  · rename_i hnext
    obtain ⟨c, ds, rfl, hc, htail⟩ := brace_ascii.next hnext
    simp only [decide_eq_true_eq] at hc
    subst hc
    rw [htail]
    exact .ok ⟨'\x7b' :: (w ++ ['\x7d']), by simp, .emptyObject hw,
      by simp [JsonValue.nesting, entriesNesting]⟩
  · refine ((parseEntries_reads h (Nat.lt_succ_self _)).mono (fun _ _ => id) ?_).bind ?_
    · rintro ⟨p, ⟨t, rfl⟩, hclimb, q, es, hes⟩
      obtain ⟨es, rfl⟩ := hes.members_object
      refine ⟨'\x7b' :: (w ++ p), ⟨t, by simp⟩,
        (hclimb.append fun d => hw.within).bracket (.inr rfl), q ++ ['\x7d'], .object es, ?_⟩
      have hobject := Derives.object (hes.members_ws hw)
      simpa using hobject
    · rintro es b ⟨a, rfl, ha, hes⟩
      refine .ok ⟨'\x7b' :: ((w ++ a) ++ ['\x7d']), by simp, .object (ha.members_ws hw), ?_⟩
      exact Nat.succ_le_succ hes

omit h in
/-- The loop begins at the first character that is not white space, unless that one
closes the array. -/
theorem parseArray_items {w ds : List Char} {c : Char} (hw : Ws w) (hws : Grammar.isWs c = false)
    (hc : c ≠ ']') : parseArray item (bytes ('[' :: (w ++ c :: ds))) = (do
        let (vs, r) ← parseItems item ((bytes (c :: ds)).length + 1) (bytes (c :: ds))
        pure (.array vs, r)) := by
  unfold parseArray
  rw [Ascii.tail_cons (by decide), skipWs_cons hw hws]
  simp only [bracket_ascii.nextIs_cons, hc, decide_false]
  rfl

omit h in
theorem parseObject_entries {w ds : List Char} (hw : Ws w) :
    parseObject item (bytes ('\x7b' :: (w ++ '"' :: ds))) = (do
        let (es, r) ← parseEntries item ((bytes ('"' :: ds)).length + 1) (bytes ('"' :: ds))
        pure (.object es, r)) := by
  unfold parseObject
  rw [Ascii.tail_cons (by decide), skipWs_cons hw (by decide)]
  simp only [brace_ascii.nextIs_cons]
  rfl

variable {a : List Char} {vs : List JsonValue}

theorem parseArray_complete (ha : Derives .elements a (.array vs)) (hvs : itemsNesting vs ≤ room)
    (b : List Char) : parseArray item (bytes ('[' :: (a ++ ']' :: b))) = .ok (.array vs, bytes b) := by
  obtain ⟨w, c, ds, rfl, hw, hws, hc, ha⟩ := ha.elements_front
  have hread := parseItems_complete h ha b hvs _ (Nat.lt_succ_self _)
  rw [append_assoc, cons_append, parseArray_items hw hws hc]
  rw [cons_append] at hread
  rw [hread]
  rfl

variable {es : List (JsString × JsonValue)}

theorem parseObject_complete (ha : Derives .members a (.object es)) (hes : entriesNesting es ≤ room)
    (b : List Char) :
    parseObject item (bytes ('\x7b' :: (a ++ '\x7d' :: b))) = .ok (.object es, bytes b) := by
  obtain ⟨w, ds, rfl, hw, ha⟩ := ha.members_front
  have hread := parseEntries_complete h ha b hes _ (Nat.lt_succ_self _)
  rw [append_assoc, cons_append, parseObject_entries hw]
  rw [cons_append] at hread
  rw [hread]
  rfl

omit h in
theorem Climbs.cons_of_prefix {p ds : List Char} {c : Char} {k : ℕ} (hclimb : Climbs k p)
    (hp : p <+: c :: ds) : ∃ p', p = c :: p' ∧ p' <+: ds := by
  cases p with
  | nil =>
    have hopened := hclimb.opened
    cases hopened
  | cons x p' =>
    obtain ⟨rfl, hp'⟩ := cons_prefix_cons.mp hp
    exact ⟨p', rfl, hp'⟩

theorem parseArray_deep (ha : Derives .elements a (.array vs)) (hvs : room < itemsNesting vs) :
    ∃ p, p <+: a ∧ Climbs room p ∧ ∀ t, Refused (parseArray item (bytes ('[' :: (p ++ t)))) := by
  obtain ⟨w, c, ds, rfl, hw, hws, hc, ha⟩ := ha.elements_front
  obtain ⟨p, hp, hclimb, hrefused⟩ := parseItems_deep h ha hvs
  obtain ⟨p, rfl, hpds⟩ := Climbs.cons_of_prefix hclimb hp
  refine ⟨w ++ c :: p, (prefix_append_right_inj w).mpr hp, hclimb.append fun d => hw.within, ?_⟩
  intro t
  rw [append_assoc, cons_append, parseArray_items hw hws hc]
  exact (hrefused t _ (Nat.lt_succ_self _)).bind _

theorem parseObject_deep (ha : Derives .members a (.object es)) (hes : room < entriesNesting es) :
    ∃ p, p <+: a ∧ Climbs room p ∧ ∀ t, Refused (parseObject item (bytes ('\x7b' :: (p ++ t)))) := by
  obtain ⟨w, ds, rfl, hw, ha⟩ := ha.members_front
  obtain ⟨p, hp, hclimb, hrefused⟩ := parseEntries_deep h ha hes
  obtain ⟨p, rfl, hpds⟩ := Climbs.cons_of_prefix hclimb hp
  refine ⟨w ++ '"' :: p, (prefix_append_right_inj w).mpr hp, hclimb.append fun d => hw.within, ?_⟩
  intro t
  rw [append_assoc, cons_append, parseObject_entries hw]
  exact (hrefused t _ (Nat.lt_succ_self _)).bind _

end Brackets

/-! ### Values -/

theorem container_ascii : Ascii (fun b => b = 0x5B || b = 0x7B) (fun c => c = '[' || c = '\x7b') :=
  (Ascii.char 0x5B '[' (by decide) rfl).or (.char 0x7B '\x7b' (by decide) rfl)

theorem array_ascii : Ascii (· = 0x5B) (· = '[') := .char _ _ (by decide) rfl

theorem null_ascii : Ascii (· = 0x6E) (· = 'n') := .char _ _ (by decide) rfl

theorem true_ascii : Ascii (· = 0x74) (· = 't') := .char _ _ (by decide) rfl

theorem false_ascii : Ascii (· = 0x66) (· = 'f') := .char _ _ (by decide) rfl

theorem number_front_ascii :
    Ascii (fun b => b = 0x2D || isDigit b) (fun c => c = '-' || Grammar.isDigit c) :=
  minus_ascii.or digit_ascii

/-- What is read at an opening bracket. -/
def container (item : Option (Reader JsonValue)) (c : Char) (ds : List Char) :
    Except Failure (JsonValue × List UInt8) :=
  match item with
  | none => .error ⟨.depthLimit, (bytes (c :: ds)).length, "JSON nesting limit exceeded"⟩
  | some item =>
    if c = '[' then parseArray item (bytes (c :: ds)) else parseObject item (bytes (c :: ds))

/-- The first character that is not white space decides what is read. -/
theorem parseValueWith_cons (item : Option (Reader JsonValue)) {ds : List Char} (hw : Ws w)
    (hws : Grammar.isWs c = false) : parseValueWith item (bytes (w ++ c :: ds)) =
      if c = '[' || c = '\x7b' then container item c ds
      else if c = 'n' then
        parseWord (bytes ['n', 'u', 'l', 'l']) .null "expected 'null'" (bytes (c :: ds))
      else if c = 't' then
        parseWord (bytes ['t', 'r', 'u', 'e']) (.bool true) "expected 'true'" (bytes (c :: ds))
      else if c = 'f' then
        parseWord (bytes ['f', 'a', 'l', 's', 'e']) (.bool false) "expected 'false'" (bytes (c :: ds))
      else if c = '"' then do
        let (s, r) ← parseString (bytes (c :: ds))
        pure (.string s, r)
      else if c = '-' || Grammar.isDigit c then parseNumber (bytes (c :: ds))
      else err (bytes (c :: ds))
        (String.ofList ("unexpected byte 0x".toList ++ hex2 ((bytes (c :: ds)).headD 0).toNat)) := by
  have hne : bytes (c :: ds) ≠ [] := by simp
  unfold parseValueWith
  rw [skipWs_cons hw hws]
  simp only [if_neg hne, container_ascii.nextIs_cons, array_ascii.nextIs_cons,
    null_ascii.nextIs_cons, true_ascii.nextIs_cons, false_ascii.nextIs_cons,
    quote_ascii.nextIs_cons, number_front_ascii.nextIs_cons, decide_eq_true_eq]
  rfl

theorem parseWord_reads {word cs : List Char} (hword : ∀ c ∈ word, c.toNat < 128) (v : JsonValue)
    (message : String) : Reads (fun x b => cs = word ++ b ∧ x = v) False
      (parseWord (bytes word) v message (bytes cs)) := by
  unfold parseWord
  split
  · rename_i htake
    have hsplit : bytes cs = bytes word ++ (bytes cs).drop (bytes word).length := by
      conv => lhs; rw [← take_append_drop (bytes word).length (bytes cs), htake]
    obtain ⟨ds, rfl, hdrop⟩ := bytes_eq_append hword hsplit
    rw [hdrop]
    exact .ok ⟨rfl, rfl⟩
  · exact .err

theorem parseWord_complete (word b : List Char) (v : JsonValue) (message : String) :
    parseWord (bytes word) v message (bytes (word ++ b)) = .ok (v, bytes b) := by
  unfold parseWord
  rw [bytes_append, take_left, drop_left, if_pos rfl]

/-- How the values inside a container are read: not at all without room, and with
one less otherwise. -/
def Inner (room : ℕ) : Option (Reader JsonValue) → Prop
  | none => room = 0
  | some item => ∃ inside, room = inside + 1 ∧ Reading inside item

section Value

variable {room : ℕ} {item : Option (Reader JsonValue)} (h : Inner room item)
include h

omit h in
/-- White space stands before the value. -/
theorem Reads.after_ws {x : Except Failure (JsonValue × List UInt8)} {w cs : List Char} (hw : Ws w)
    (hx : Reads (fun v b => ∃ a, cs = a ++ b ∧ Derives .value a v ∧ v.nesting ≤ room)
      (TooDeep .value room cs) x) :
    Reads (fun v b => ∃ w' a, w ++ cs = w' ++ (a ++ b) ∧ Ws w' ∧ Derives .value a v ∧
      v.nesting ≤ room) (TooDeep .element room (w ++ cs)) x := by
  refine hx.mono ?_ ?_
  · rintro v b ⟨a, rfl, ha, hv⟩
    exact ⟨w, a, rfl, hw, ha, hv⟩
  · rintro ⟨p, ⟨t, rfl⟩, hclimb, q, v, hv⟩
    refine ⟨w ++ p, ⟨t, by simp⟩, hclimb.append fun d => hw.within, q, v, ?_⟩
    have helem := Derives.element hw hv Ws.nil
    simpa using helem

omit h in
/-- A value that is no container nests nothing. -/
theorem Reads.leaf {x : Except Failure (JsonValue × List UInt8)} {cs : List Char}
    (hx : Reads (fun v b => ∃ a, cs = a ++ b ∧ Derives .value a v ∧ v.nesting = 0) False x) :
    Reads (fun v b => ∃ a, cs = a ++ b ∧ Derives .value a v ∧ v.nesting ≤ room)
      (TooDeep .value room cs) x := by
  refine hx.mono ?_ False.elim
  rintro v b ⟨a, hcs, ha, hv⟩
  exact ⟨a, hcs, ha, by omega⟩

theorem container_reads (hc : c = '[' ∨ c = '\x7b') (ds : List Char) :
    Reads (fun v b => ∃ a, c :: ds = a ++ b ∧ Derives .value a v ∧ v.nesting ≤ room)
      (TooDeep .value room (c :: ds))
      (container item c ds) := by
  cases item with
  | none =>
    have hroom : room = 0 := h
    subst hroom
    refine .inr ⟨rfl, [c], ⟨ds, rfl⟩, .opening hc, ?_⟩
    obtain rfl | rfl := hc
    · exact ⟨[']'], _, .emptyArray Ws.nil⟩
    · exact ⟨['\x7d'], _, .emptyObject Ws.nil⟩
  | some item =>
    obtain ⟨inside, rfl, hinside⟩ := h
    obtain rfl | rfl := hc
    · exact parseArray_reads hinside ds
    · exact parseObject_reads hinside ds

theorem parseValueWith_reads (cs : List Char) :
    Reads (fun v b => ∃ w a, cs = w ++ (a ++ b) ∧ Ws w ∧ Derives .value a v ∧ v.nesting ≤ room)
      (TooDeep .element room cs) (parseValueWith item (bytes cs)) := by
  obtain ⟨w, ds, rfl, hw, hskip, hhead⟩ := skipWs_spec cs
  cases ds with
  | nil =>
    unfold parseValueWith
    rw [hskip]
    exact .err
  | cons c ds =>
    rw [parseValueWith_cons item hw (hhead c rfl)]
    apply Reads.after_ws hw
    split
    · rename_i hc
      simp only [Bool.or_eq_true, decide_eq_true_eq] at hc
      exact container_reads h hc ds
    · apply Reads.leaf
      split
      · refine (parseWord_reads (forall_mem_of_all rfl) _ _).mono ?_ id
        rintro v b ⟨hcs, rfl⟩
        exact ⟨_, hcs, .null, rfl⟩
      · split
        · refine (parseWord_reads (forall_mem_of_all rfl) _ _).mono ?_ id
          rintro v b ⟨hcs, rfl⟩
          exact ⟨_, hcs, .true, rfl⟩
        · split
          · refine (parseWord_reads (forall_mem_of_all rfl) _ _).mono ?_ id
            rintro v b ⟨hcs, rfl⟩
            exact ⟨_, hcs, .false, rfl⟩
          · split
            · refine (parseString_reads _).bind ?_
              rintro s b ⟨a, hcs, ha⟩
              exact .ok ⟨'"' :: (a ++ ['"']), by simpa using hcs, .string ha, rfl⟩
            · split
              · refine (parseNumber_reads _).mono ?_ id
                rintro v b ⟨a, hcs, ha, rfl⟩
                exact ⟨a, hcs, .number ha, rfl⟩
              · exact .err

variable {v : JsonValue}

theorem parseValueWith_complete {a b : List Char} (hw : Ws w) (ha : Derives .value a v)
    (hv : v.nesting ≤ room) (hb : Ends b) :
    parseValueWith item (bytes (w ++ (a ++ b))) = .ok (v, bytes b) := by
  -- With a container to read there is room for it, and a reader of what is inside.
  have hinner : 0 < v.nesting → ∃ i inside, item = some i ∧ room = inside + 1 ∧ Reading inside i := by
    intro hpos
    cases item with
    | none =>
      have hroom : room = 0 := h
      omega
    | some i =>
      obtain ⟨inside, hroom, hinside⟩ := h
      exact ⟨i, inside, rfl, hroom, hinside⟩
  cases ha with
  | null =>
    have hread := parseWord_complete ['n', 'u', 'l', 'l'] b .null "expected 'null'"
    exact (parseValueWith_cons item hw rfl).trans hread
  | true =>
    have hread := parseWord_complete ['t', 'r', 'u', 'e'] b (.bool true) "expected 'true'"
    exact (parseValueWith_cons item hw rfl).trans hread
  | false =>
    have hread := parseWord_complete ['f', 'a', 'l', 's', 'e'] b (.bool false) "expected 'false'"
    exact (parseValueWith_cons item hw rfl).trans hread
  | number number =>
    obtain ⟨c, ds, rfl, hc⟩ := number.front
    have hread := parseNumber_complete number hb
    have hws : Grammar.isWs c = false := by
      obtain ⟨c', ds', heq, hws, -⟩ := Derives.value_front (.number number)
      obtain ⟨rfl, -⟩ := List.cons.inj heq
      exact hws
    have hne : ∀ x : Char, x ≠ '-' → Grammar.isDigit x = false → c ≠ x := by
      rintro x hminus hdigit rfl
      obtain hc | hc := hc
      · exact hminus hc
      · rw [hdigit] at hc
        cases hc
    rw [cons_append] at hread ⊢
    rw [parseValueWith_cons item hw hws, hread]
    simp [hne '[' (by decide) rfl, hne '\x7b' (by decide) rfl, hne 'n' (by decide) rfl,
      hne 't' (by decide) rfl, hne 'f' (by decide) rfl, hne '"' (by decide) rfl, hc]
  | @string cs s chars =>
    have hread := parseString_complete chars b
    have hcs : ('"' :: (cs ++ ['"'])) ++ b = '"' :: (cs ++ '"' :: b) := by simp
    rw [hcs, parseValueWith_cons item hw rfl, hread]
    rfl
  | @emptyArray w' ws =>
    obtain ⟨i, inside, rfl, rfl, hinside⟩ := hinner (by simp [JsonValue.nesting])
    have hcs : ('[' :: (w' ++ [']'])) ++ b = '[' :: (w' ++ ']' :: b) := by simp
    have hread : parseArray i (bytes ('[' :: (w' ++ ']' :: b))) = .ok (.array [], bytes b) := by
      simp only [parseArray, Ascii.tail_cons (c := '[') (by decide), skipWs_cons ws (c := ']') rfl,
        bracket_ascii.nextIs_cons, Ascii.tail_cons (c := ']') (by decide), decide_true, if_true]
    rw [hcs, parseValueWith_cons _ hw rfl, ← hread]
    rfl
  | @array cs vs inside =>
    obtain ⟨i, inside', rfl, rfl, hinside⟩ := hinner (by simp [JsonValue.nesting])
    have hcs : ('[' :: (cs ++ [']'])) ++ b = '[' :: (cs ++ ']' :: b) := by simp
    have hread := parseArray_complete hinside inside (Nat.le_of_succ_le_succ hv) b
    rw [hcs, parseValueWith_cons _ hw rfl, ← hread]
    rfl
  | @emptyObject w' ws =>
    obtain ⟨i, inside, rfl, rfl, hinside⟩ := hinner (by simp [JsonValue.nesting])
    have hcs : ('\x7b' :: (w' ++ ['\x7d'])) ++ b = '\x7b' :: (w' ++ '\x7d' :: b) := by simp
    have hread : parseObject i (bytes ('\x7b' :: (w' ++ '\x7d' :: b))) = .ok (.object [], bytes b) := by
      simp only [parseObject, Ascii.tail_cons (c := '\x7b') (by decide),
        skipWs_cons ws (c := '\x7d') rfl, brace_ascii.nextIs_cons,
        Ascii.tail_cons (c := '\x7d') (by decide), decide_true, if_true]
    rw [hcs, parseValueWith_cons _ hw rfl, ← hread]
    rfl
  | @object cs es inside =>
    obtain ⟨i, inside', rfl, rfl, hinside⟩ := hinner (by simp [JsonValue.nesting])
    have hcs : ('\x7b' :: (cs ++ ['\x7d'])) ++ b = '\x7b' :: (cs ++ '\x7d' :: b) := by simp
    have hread := parseObject_complete hinside inside (Nat.le_of_succ_le_succ hv) b
    rw [hcs, parseValueWith_cons _ hw rfl, ← hread]
    rfl

/-- Without room, the bracket itself is refused. -/
theorem refused_at_bracket (hw : Ws w) (hc : c = '[' ∨ c = '\x7b')
    (hroom : room = 0) (ds : List Char) : ∃ p, p <+: w ++ c :: ds ∧ Climbs room p ∧
      ∀ t, Refused (parseValueWith item (bytes (p ++ t))) := by
  subst hroom
  refine ⟨w ++ [c], ⟨ds, by simp⟩, (Climbs.opening hc).append fun d => hw.within, fun t => ?_⟩
  have hws : Grammar.isWs c = false := by obtain rfl | rfl := hc <;> rfl
  have hcs : (w ++ [c]) ++ t = w ++ c :: t := by simp
  have hopen : (decide (c = '[') || decide (c = '\x7b')) = true := by simpa using hc
  rw [hcs, parseValueWith_cons item hw hws, if_pos hopen]
  cases item with
  | none => exact ⟨_, rfl, rfl⟩
  | some i =>
    obtain ⟨inside, hroom, -⟩ := h
    cases hroom

theorem parseValueWith_deep {cs : List Char} (hcs : Derives .element cs v) (hv : room < v.nesting) :
    ∃ p, p <+: cs ∧ Climbs room p ∧ ∀ t, Refused (parseValueWith item (bytes (p ++ t))) := by
  cases hcs with
  | @element w a w' _ ws value ws' =>
    cases value with
    | null | true | false | number _ | string _ => exact absurd hv (Nat.not_lt_zero _)
    | emptyArray _ =>
      exact refused_at_bracket h ws (.inl rfl) (by simpa [JsonValue.nesting, itemsNesting] using hv) _
    | emptyObject _ =>
      exact refused_at_bracket h ws (.inr rfl)
        (by simpa [JsonValue.nesting, entriesNesting] using hv) _
    | @array cs vs inside =>
      cases item with
      | none => exact refused_at_bracket h ws (.inl rfl) h _
      | some i =>
        obtain ⟨inside', rfl, hinside⟩ := h
        obtain ⟨p, ⟨q, rfl⟩, hclimb, hrefused⟩ := parseArray_deep hinside inside (Nat.lt_of_succ_lt_succ hv)
        refine ⟨w ++ '[' :: p, ⟨q ++ (']' :: w'), by simp⟩,
          (hclimb.bracket (.inl rfl)).append fun d => ws.within, fun t => ?_⟩
        rw [append_assoc, cons_append, parseValueWith_cons _ ws rfl]
        exact hrefused t
    | @object cs es inside =>
      cases item with
      | none => exact refused_at_bracket h ws (.inr rfl) h _
      | some i =>
        obtain ⟨inside', rfl, hinside⟩ := h
        obtain ⟨p, ⟨q, rfl⟩, hclimb, hrefused⟩ :=
          parseObject_deep hinside inside (Nat.lt_of_succ_lt_succ hv)
        refine ⟨w ++ '\x7b' :: p, ⟨q ++ ('\x7d' :: w'), by simp⟩,
          (hclimb.bracket (.inr rfl)).append fun d => ws.within, fun t => ?_⟩
        rw [append_assoc, cons_append, parseValueWith_cons _ ws rfl]
        exact hrefused t

theorem Inner.reading : Reading room (parseValueWith item) :=
  ⟨parseValueWith_reads h, parseValueWith_complete h, parseValueWith_deep h⟩

end Value

theorem parseValue_reading (room : ℕ) : Reading room (parseValue room) := by
  induction room with
  | zero =>
    have hinner : Inner 0 none := rfl
    exact hinner.reading
  | succ room ih =>
    have hinner : Inner (room + 1) (some (parseValue room)) := ⟨room, rfl, ih⟩
    exact hinner.reading

end Reader

/-! ### Texts -/

open Grammar (Text Derives)

variable {s : List Char}

/-- The value of a text is read, and only that. -/
theorem parseJson_ok {v : JsonValue} : parseJson s = .ok v ↔ Text s v ∧ v.nesting ≤ MAX_JSON_DEPTH := by
  have hreading := Reader.parseValue_reading MAX_JSON_DEPTH
  unfold parseJson
  dsimp only
  constructor
  · intro h
    have hreads := hreading.reads s
    cases hparse : Reader.parseValue MAX_JSON_DEPTH (bytes s) with
    | error e =>
      rw [hparse] at h
      cases h
    | ok x =>
      obtain ⟨x, r⟩ := x
      rw [hparse] at h hreads
      obtain ⟨b, rfl, w, a, rfl, hw, ha, hx⟩ := hreads
      dsimp only at h
      split at h
      · rename_i hend
        cases h
        obtain ⟨w', ds, rfl, hw', hskip, -⟩ := Reader.skipWs_spec b
        rw [hskip, bytes_eq_nil_iff] at hend
        subst hend
        refine ⟨?_, hx⟩
        have htext := Derives.element hw ha hw'
        simpa [Text] using htext
      · cases h
  · rintro ⟨htext, hv⟩
    cases htext with
    | @element w a w' _ ws value ws' =>
      have hends : Reader.Ends w' := by
        have happ := Reader.ends_ws ws' (c := ',') rfl []
        intro c hc
        refine happ c ?_
        cases w' with
        | nil => cases hc
        | cons d w' => exact hc
      have hskip : Reader.skipWs (bytes w') = [] := by
        have h : Reader.skipWs (bytes (w' ++ [])) = bytes [] := Reader.skipWs_ws ws' nofun
        rw [append_nil] at h
        exact h
      rw [hreading.complete ws value hv hends]
      dsimp only
      rw [if_pos hskip]

/-- An input is refused for depth when it begins as a grammatical text does that has
one container too many open there; no other refusal is for depth. -/
theorem parseJson_depthLimit : (∃ e, parseJson s = .error e ∧ e.kind = .depthLimit) ↔
      ∃ p, p <+: s ∧ (∃ q v, Text (p ++ q) v) ∧ opened p = MAX_JSON_DEPTH + 1 := by
  have hreading := Reader.parseValue_reading MAX_JSON_DEPTH
  constructor
  · rintro ⟨e, he, hkind⟩
    have hreads := hreading.reads s
    unfold parseJson at he
    dsimp only at he
    cases hparse : Reader.parseValue MAX_JSON_DEPTH (bytes s) with
    | error f =>
      rw [hparse] at he hreads
      cases he
      obtain hplain | ⟨-, p, hp, hclimb, q, v, hv⟩ := hreads
      · rw [hplain] at hkind
        cases hkind
      · exact ⟨p, hp, ⟨q, v, hv⟩, hclimb.opened⟩
    | ok x =>
      rw [hparse] at he
      dsimp only at he
      split at he
      · cases he
      · cases he
        cases hkind
  · rintro ⟨p, hp, ⟨q, v, htext⟩, hopened⟩
    have hdeep : MAX_JSON_DEPTH < v.nesting := by
      have hle := htext.opened_le (prefix_append p q)
      omega
    obtain ⟨p', hp', hclimb, hrefused⟩ := hreading.deep htext hdeep
    obtain ⟨t, rfl⟩ := (hclimb.prefix_of_opened hp' (prefix_append p q) hopened).trans hp
    obtain ⟨e, he, hkind⟩ := hrefused t
    refine ⟨⟨e.kind, (bytes (p' ++ t)).length - e.left, e.message⟩, ?_, hkind⟩
    unfold parseJson
    dsimp only
    rw [he]

/-- No loop of the reader runs out of its bound. -/
theorem parseJson_ne_stuck {e : TolerantJsonError} (h : parseJson s = .error e) : e.kind ≠ .stuck := by
  have hreads := (Reader.parseValue_reading MAX_JSON_DEPTH).reads s
  unfold parseJson at h
  dsimp only at h
  cases hparse : Reader.parseValue MAX_JSON_DEPTH (bytes s) with
  | error f =>
    rw [hparse] at h hreads
    cases h
    obtain hkind | ⟨hkind, -⟩ := hreads <;> simp [hkind]
  | ok x =>
    rw [hparse] at h
    dsimp only at h
    split at h
    · cases h
    · cases h
      simp

/-- The reader accepts the texts of the grammar that nest at most 128 containers,
with the value the grammar gives them; it refuses for depth the inputs that open a
129th container as a grammatical text may; and it comes to an end on every input. -/
theorem parseJson_exact (s : List Char) : (∀ v, parseJson s = .ok v ↔ Text s v ∧ v.nesting ≤ 128) ∧
      ((∃ e, parseJson s = .error e ∧ e.kind = .depthLimit) ↔
        ∃ p, p <+: s ∧ (∃ q v, Text (p ++ q) v) ∧ opened p = 129) ∧
      ∀ e, parseJson s = .error e → e.kind ≠ .stuck ∧ e.offset ≤ (bytes s).length := by
  refine ⟨fun v => parseJson_ok, parseJson_depthLimit, fun e he => ⟨parseJson_ne_stuck he, ?_⟩⟩
  unfold parseJson at he
  dsimp only at he
  split at he
  · cases he
    exact Nat.sub_le _ _
  · split at he
    · cases he
    · cases he
      exact Nat.sub_le _ _

end Plur1bus.Engine
