import Plur1bus.Providers.SseReading

/-!
The pieces of a stream. Between two pieces the parser keeps the text that is no line yet, and has
searched a part of it in which no line ends; what a drain reads is what the lines of that text say.
-/

namespace Plur1bus.Providers.Sse

open Program List

/-! ### The loop -/

theorem takeWhile_unended (tail : List Char) : Unended (tail.takeWhile fun c => !isLineEnd c) := by
  intro c hc
  have hno := mem_takeWhile_imp hc
  simpa using hno

/-- The first line end of a text and the text after it: the line that it closes is read, and so is
what follows. -/
inductive Closes (final : Bool) : List Char → List Char → List Char → Prop
  | lf (u : List Char) : Closes final ('\n' :: u) ['\n'] u
  | crlf (u : List Char) : Closes final ('\r' :: '\n' :: u) ['\r', '\n'] u
  | cr {d : Char} (hd : d ≠ '\n') (u : List Char) : Closes final ('\r' :: d :: u) ['\r'] (d :: u)
  | last (h : final = true) : Closes final ['\r'] ['\r'] []

variable {final : Bool}

theorem Closes.eq {t ending u : List Char} (h : Closes final t ending u) : t = ending ++ u := by
  cases h with
  | lf => rfl
  | crlf => rfl
  | cr hd => rfl
  | last h => rfl

theorem Closes.cut {t ending u : List Char} (h : Closes final t ending u) (begun : List Char) :
    cutLines final begun t = (begun :: (cutLines final [] u).1, (cutLines final [] u).2) := by
  cases h with
  | lf => exact cutLines_lf u
  | crlf => exact cutLines_crlf u
  | cr hd => exact cutLines_cr hd _
  | last h =>
    subst h
    exact cutLines_last

theorem closes_or_held {c : Char} (t : List Char) (hc : isLineEnd c = true) :
    (∃ ending u, Closes final (c :: t) ending u) ∨ (c = '\r' ∧ t = [] ∧ final = false) := by
  obtain rfl | rfl := isLineEnd_iff.mp hc
  · exact .inl ⟨_, _, .lf t⟩
  · cases t with
    | nil =>
      cases final with
      | true => exact .inl ⟨_, _, .last rfl⟩
      | false => exact .inr ⟨rfl, rfl, rfl⟩
    | cons d u =>
      by_cases hd : d = '\n'
      · subst hd
        exact .inl ⟨_, _, .crlf u⟩
      · exact .inl ⟨_, _, .cr hd u⟩

theorem Closes.next {t ending u : List Char} (h : Closes final t ending u) :
    ¬ (t[0]? = some '\r' ∧ t.length = 1 ∧ final = false) ∧
      (if t[0]? = some '\r' ∧ t[1]? = some '\n' then 2 else 1) = ending.length := by
  cases h with
  | lf u => simp
  | crlf u => simp
  | cr hd u => simp [hd]
  | last h => simp [h]

theorem unended_append {as bs : List Char} (ha : Unended as) (hb : Unended bs) : Unended (as ++ bs) :=
  fun c hc => (mem_append.mp hc).elim (ha c) (hb c)

section

variable {limit fuel : ℕ} {final : Bool} {pre seg w : List Char} {s : Fields} {out : List SseEvent}

/-- Where the search ends. -/
theorem search_eq {t : List Char} (hw : Unended w) (ht : ∀ c ∈ t.head?, isLineEnd c = true) :
    (pre ++ seg).length + (((pre ++ seg ++ (w ++ t)).drop (pre ++ seg).length).takeWhile fun c => !isLineEnd c).length =
      (pre ++ seg ++ w).length := by
  have hno : ∀ c ∈ w, (!isLineEnd c) = true := fun c hc => by rw [hw c hc]; rfl
  have hend : t.takeWhile (fun c => !isLineEnd c) = [] := by
    cases t with
    | nil => rfl
    | cons c t => exact takeWhile_cons_of_neg (by rw [ht c rfl]; decide)
  rw [drop_left, takeWhile_append_of_pos hno, hend, append_nil, ← length_append]

/-- No line ends in what follows. -/
theorem drainLoop_unended (hw : Unended w) :
    drainLoop limit final (pre ++ seg ++ (w ++ [])) (fuel + 1) s pre.length (pre ++ seg).length out =
      .ok (s, pre.length, (pre ++ seg ++ w).length, out) := by
  rw [drainLoop, search_eq hw (fun c hc => by cases hc)]
  dsimp only
  rw [append_nil, if_pos (Nat.le_refl _)]

/-- A CR that nothing follows is held. -/
theorem drainLoop_held (hw : Unended w) :
    drainLoop limit false (pre ++ seg ++ (w ++ ['\r'])) (fuel + 1) s pre.length (pre ++ seg).length out =
      .ok (s, pre.length, (pre ++ seg ++ w).length, out) := by
  rw [drainLoop, search_eq hw (fun c hc => by cases hc; rfl)]
  dsimp only
  rw [← append_assoc]
  have hmore : ¬ (pre ++ seg ++ w).length ≥ (pre ++ seg ++ w ++ ['\r']).length := by
    rw [@length_append _ (pre ++ seg ++ w)]
    exact Nat.not_succ_le_self _
  have hread : (pre ++ seg ++ w ++ ['\r'])[(pre ++ seg ++ w).length]? = some '\r' := by
    rw [List.getElem?_append_right (Nat.le_refl _), Nat.sub_self]
    rfl
  have hlast : (pre ++ seg ++ w).length + 1 = (pre ++ seg ++ w ++ ['\r']).length := by
    rw [@length_append _ (pre ++ seg ++ w)]
    rfl
  rw [if_neg hmore, if_pos ⟨hread, hlast, rfl⟩]

/-- The line before the next line end is read. -/
theorem drainLoop_line {t ending u : List Char} (hw : Unended w) (h : Closes final t ending u)
    (ht : ∀ c ∈ t.head?, isLineEnd c = true) :
    drainLoop limit final (pre ++ seg ++ (w ++ t)) (fuel + 1) s pre.length (pre ++ seg).length out =
      match s.line limit (seg ++ w) with
      | .error e => .error e
      | .ok (ev, s') => drainLoop limit final (pre ++ seg ++ w ++ ending ++ u) fuel s' (pre ++ seg ++ w ++ ending).length
          (pre ++ seg ++ w ++ ending).length (out ++ ev.toList) := by
  rw [drainLoop, search_eq hw ht]
  dsimp only
  obtain ⟨hgo, hnext⟩ := h.next
  have hread : ∀ k, (pre ++ seg ++ w ++ t)[(pre ++ seg ++ w).length + k]? = t[k]? := by
    intro k
    rw [List.getElem?_append_right (Nat.le_add_right _ _), Nat.add_sub_cancel_left]
  have hread₀ := hread 0
  rw [Nat.add_zero] at hread₀
  have hlen : (pre ++ seg ++ w ++ t).length = (pre ++ seg ++ w).length + t.length := length_append
  have hpos : 0 < t.length := by
    rw [h.eq]
    cases h with
    | lf => exact Nat.succ_pos _
    | crlf => exact Nat.succ_pos _
    | cr hd => exact Nat.succ_pos _
    | last h => exact Nat.succ_pos _
  have hline : ((pre ++ seg ++ w ++ t).take (pre ++ seg ++ w).length).drop pre.length = seg ++ w := by
    rw [take_left, append_assoc, drop_left]
  have hplace : (if t[0]? = some '\r' ∧ t[1]? = some '\n' then (pre ++ seg ++ w).length + 2
      else (pre ++ seg ++ w).length + 1) = (pre ++ seg ++ w ++ ending).length := by
    rw [@length_append _ (pre ++ seg ++ w) ending, ← hnext]
    split
    · rfl
    · rfl
  have hmore : ¬ (pre ++ seg ++ w).length ≥ (pre ++ seg ++ w ++ t).length := by omega
  rw [← append_assoc, if_neg hmore, if_neg, hread₀, hread 1, hline, hplace]
  · have hbuf : pre ++ seg ++ w ++ t = pre ++ seg ++ w ++ ending ++ u := by rw [h.eq, ← append_assoc]
    exact hbuf ▸ rfl
  · rw [hread₀]
    rintro ⟨hcr, hlast, hopen⟩
    exact hgo ⟨hcr, by omega, hopen⟩

end

/-- The loop reads the lines of what follows, and stops where none is left. -/
theorem drainLoop_eq {limit fuel : ℕ} {final : Bool} {pre seg tail : List Char} (hseg : Unended seg)
    (hfuel : tail.length < fuel) :
    ∃ pre' seg', pre ++ seg ++ tail = pre' ++ (cutLines final seg tail).2 ∧ seg' <+: (cutLines final seg tail).2 ∧
      Unended seg' ∧ ∀ s out,
      drainLoop limit final (pre ++ seg ++ tail) fuel s pre.length (pre ++ seg).length out =
        (s.lines limit (cutLines final seg tail).1).map fun r =>
          (r.2, pre'.length, (pre' ++ seg').length, out ++ r.1) := by
  induction fuel generalizing pre seg tail with
  | zero => omega
  | succ fuel ih =>
    have hsplit := takeWhile_append_dropWhile (p := fun c => !isLineEnd c) (l := tail)
    have hw := takeWhile_unended tail
    have hhead := List.head?_dropWhile_not (fun c => !isLineEnd c) tail
    generalize tail.takeWhile (fun c => !isLineEnd c) = w at hsplit hw
    generalize tail.dropWhile (fun c => !isLineEnd c) = t at hsplit hhead
    subst hsplit
    have hunended := unended_append hseg hw
    rw [cutLines_unended hw]
    cases t with
    | nil =>
      rw [cutLines_nil]
      refine ⟨pre, seg ++ w, by rw [append_nil, append_assoc], prefix_refl _, hunended, fun s out => ?_⟩
      rw [drainLoop_unended hw, ← append_assoc, Fields.lines, Except.map, append_nil]
    | cons c t =>
      have hc : isLineEnd c = true := by simpa using hhead
      have hends : ∀ d ∈ (c :: t).head?, isLineEnd d = true := by
        rintro d ⟨⟩
        exact hc
      have hcases : (∃ ending u, Closes final (c :: t) ending u) ∨ c = '\r' ∧ t = [] ∧ final = false :=
        closes_or_held t hc
      obtain ⟨ending, u, hcloses⟩ | ⟨rfl, rfl, rfl⟩ := hcases
      · have hshort : u.length < fuel := by
          have hsum := congrArg List.length hcloses.eq
          have hone : 1 ≤ ending.length := by
            rw [← hcloses.next.2]
            split
            · exact Nat.le_succ 1
            · exact Nat.le_refl 1
          rw [length_append] at hsum hfuel
          omega
        obtain ⟨pre', seg', hpre, hleft, hopen, hloop⟩ :=
          @ih (pre ++ seg ++ w ++ ending) [] u unended_nil hshort
        rw [hcloses.cut]
        refine ⟨pre', seg', ?_, hleft, hopen, fun s out => ?_⟩
        · rw [← hpre, hcloses.eq, append_nil, append_assoc (pre ++ seg ++ w), append_assoc (pre ++ seg)]
        · rw [drainLoop_line hw hcloses hends, Fields.lines]
          cases s.line limit (seg ++ w) with
          | error e => rfl
          | ok r =>
            have hrest := hloop r.2 (out ++ r.1.toList)
            rw [append_nil] at hrest
            dsimp only
            rw [hrest]
            cases r.2.lines limit (cutLines final [] u).1 with
            | error e => rfl
            | ok r' => simp only [Except.map, append_assoc]
      · rw [cutLines_held]
        refine ⟨pre, seg ++ w, ?_, prefix_append _ _, hunended, fun s out => ?_⟩
        · rw [append_assoc, append_assoc]
        · rw [drainLoop_held hw, ← append_assoc, Fields.lines, Except.map, append_nil]

/-! ### A drain -/

/-- The search has passed over no line end. -/
structure SseParser.Ready (p : SseParser) : Prop where
  searched : ∃ seg, Unended seg ∧ seg <+: p.buf ∧ p.scanFrom = seg.length

theorem loop_of_ready {limit : ℕ} {final : Bool} {p : SseParser} (hp : p.Ready) :
    ∃ pre' seg', p.buf = pre' ++ (cutLines final [] p.buf).2 ∧ seg' <+: (cutLines final [] p.buf).2 ∧ Unended seg' ∧
      drainLoop limit final p.buf (p.buf.length + 1) p.fields 0 p.scanFrom [] =
        (p.fields.lines limit (cutLines final [] p.buf).1).map fun r =>
          (r.2, pre'.length, (pre' ++ seg').length, r.1) := by
  obtain ⟨seg, hseg, ⟨tail, htail⟩, hscan⟩ := hp.searched
  have hlen : tail.length < p.buf.length + 1 := by
    rw [← htail, length_append]
    omega
  obtain ⟨pre', seg', hbuf, hleft, hopen, hloop⟩ := @drainLoop_eq limit _ final [] seg tail hseg hlen
  have hcut := @cutLines_begun final seg hseg tail
  rw [htail] at hcut
  rw [← hcut] at hbuf hleft hloop
  rw [nil_append, htail] at hbuf hloop
  rw [hscan]
  exact ⟨pre', seg', hbuf, hleft, hopen, hloop p.fields []⟩

theorem drain_eq {limit : ℕ} {p : SseParser} (hp : p.Ready) :
    ∃ k, (∃ seg, Unended seg ∧ seg <+: (cutLines false [] p.buf).2 ∧ k = seg.length) ∧ p.drain limit false =
        match p.fields.lines limit (cutLines false [] p.buf).1 with
        | .error e => .error e
        | .ok (out, s) =>
          if units (cutLines false [] p.buf).2 > limit then .error (lineExceeds limit)
          else .ok (out, { p with buf := (cutLines false [] p.buf).2, scanFrom := k, fields := s }) := by
  obtain ⟨pre', seg', hbuf, hleft, hopen, hloop⟩ := @loop_of_ready limit false p hp
  have hdrop : p.buf.drop pre'.length = (cutLines false [] p.buf).2 := by
    conv_lhs => rw [hbuf, drop_left]
  refine ⟨seg'.length, ⟨seg', hopen, hleft, rfl⟩, ?_⟩
  rw [SseParser.drain, hloop]
  cases p.fields.lines limit (cutLines false [] p.buf).1 with
  | error e => rfl
  | ok r =>
    have hfinal : ¬ ((false : Bool) = true ∧ pre'.length < p.buf.length) := fun h => Bool.false_ne_true h.1
    dsimp only [Except.map]
    rw [if_neg hfinal]
    dsimp only
    rw [hdrop, length_append, Nat.add_sub_cancel_left]

/-- At the end, what is no line is read as one, and no event comes of it. -/
theorem drain_end {limit : ℕ} {p : SseParser} (hp : p.Ready) : ∃ k, p.drain limit true =
      match p.fields.lines limit (cutLines true [] p.buf).1 with
      | .error e => .error e
      | .ok (out, s) =>
        if (cutLines true [] p.buf).2 = [] then .ok (out, { p with buf := [], scanFrom := k, fields := s })
        else
          match s.line limit (cutLines true [] p.buf).2 with
          | .error e => .error e
          | .ok (_, s') => .ok (out, { p with buf := [], scanFrom := 0, fields := s' }) := by
  obtain ⟨pre', seg', hbuf, hleft, hopen, hloop⟩ := @loop_of_ready limit true p hp
  have hdrop : p.buf.drop pre'.length = (cutLines true [] p.buf).2 := by
    conv_lhs => rw [hbuf, drop_left]
  have hlen : p.buf.length = pre'.length + (cutLines true [] p.buf).2.length := by
    conv_lhs => rw [hbuf, length_append]
  have hsmall : ¬ units [] > limit := Nat.not_lt_zero limit
  refine ⟨seg'.length, ?_⟩
  rw [SseParser.drain, hloop]
  cases p.fields.lines limit (cutLines true [] p.buf).1 with
  | error e => rfl
  | ok r =>
    dsimp only [Except.map]
    by_cases hnil : (cutLines true [] p.buf).2 = []
    · have hall : ¬ ((true : Bool) = true ∧ pre'.length < p.buf.length) := by
        rw [hlen, hnil]
        exact fun h => Nat.lt_irrefl _ h.2
      rw [if_neg hall, if_pos hnil]
      dsimp only
      rw [hdrop, hnil, if_neg hsmall, length_append, Nat.add_sub_cancel_left]
    · have hmore : (true : Bool) = true ∧ pre'.length < p.buf.length := by
        have hpos := length_pos_iff.mpr hnil
        exact ⟨rfl, by omega⟩
      rw [if_pos hmore, if_neg hnil, hdrop]
      cases hline : r.2.line limit (cutLines true [] p.buf).2 with
      | error e => rfl
      | ok r' =>
        obtain ⟨ev, s'⟩ := r'
        obtain rfl := line_not_blank hnil hline
        have hscan : (pre' ++ seg').length - p.buf.length = 0 := by
          have hle := hleft.length_le
          rw [length_append]
          omega
        dsimp only
        rw [drop_length, if_neg hsmall, hscan, Option.toList_none, append_nil]

/-! ### Lengths -/

theorem units_append (as bs : List Char) : units (as ++ bs) = units as + units bs := by
  rw [units, map_append, sum_append]
  rfl

theorem units_cons (c : Char) (cs : List Char) : units (c :: cs) = units [c] + units cs := units_append [c] cs

theorem units_tail_le (cs : List Char) : units cs.tail ≤ units cs := by
  cases cs with
  | nil => exact Nat.le_refl 0
  | cons c cs =>
    rw [List.tail_cons, units_cons]
    exact Nat.le_add_left _ _

/-- A line of data is longer than what it adds. -/
theorem units_valueOf {line : List Char} (h : fieldOf line = "data".toList) : units (valueOf line) + 1 ≤ units line := by
  have hsplit := takeWhile_append_dropWhile (p := fun c : Char => decide (c ≠ ':')) (l := line)
  have hfour : units (line.takeWhile fun c => decide (c ≠ ':')) = 4 := by
    show units (fieldOf line) = 4
    rw [h]
    rfl
  have hvalue : units (valueOf line) ≤ units (line.dropWhile fun c => decide (c ≠ ':')) := by
    have htail := units_tail_le (line.dropWhile fun c => decide (c ≠ ':'))
    unfold valueOf
    dsimp only
    split
    · exact (units_tail_le _).trans htail
    · exact htail
  have hsum := congrArg units hsplit
  rw [units_append] at hsum
  omega

theorem line_fits {limit : ℕ} {s : Fields} {line : List Char} (h : s.dataBytes + units line ≤ limit) :
    ∃ ev s', s.line limit line = .ok (ev, s') ∧ s'.dataBytes ≤ s.dataBytes + units line := by
  unfold Fields.line
  split
  · exact ⟨_, _, rfl, Nat.zero_le _⟩
  · split
    · exact ⟨_, _, rfl, Nat.le_add_right _ _⟩
    · dsimp only
      split
      next hdata =>
        have hvalue := units_valueOf hdata
        have hfits : ¬ s.dataBytes + units (valueOf line) + 1 > limit := by omega
        rw [if_neg hfits]
        exact ⟨_, _, rfl, by dsimp only; omega⟩
      next =>
        split
        · exact ⟨_, _, rfl, Nat.le_add_right _ _⟩
        · split
          · exact ⟨_, _, rfl, Nat.le_add_right _ _⟩
          · exact ⟨_, _, rfl, Nat.le_add_right _ _⟩

theorem lines_fit {limit : ℕ} {s : Fields} {lines : List (List Char)}
    (h : s.dataBytes + (lines.map units).sum ≤ limit) :
    ∃ out s', s.lines limit lines = .ok (out, s') ∧ s'.dataBytes ≤ s.dataBytes + (lines.map units).sum := by
  induction lines generalizing s with
  | nil => exact ⟨_, _, rfl, Nat.le_add_right _ _⟩
  | cons line lines ih =>
    rw [map_cons, sum_cons] at h ⊢
    obtain ⟨ev, s₁, hline, hle⟩ := @line_fits limit s line (by omega)
    obtain ⟨out, s', hlines, hle'⟩ := @ih s₁ (by omega)
    rw [Fields.lines, hline]
    dsimp only
    rw [hlines]
    exact ⟨_, _, rfl, by dsimp only; omega⟩

theorem units_cutLines (final : Bool) (begun text : List Char) :
    ((cutLines final begun text).1.map units).sum + units (cutLines final begun text).2 ≤ units begun + units text := by
  fun_induction cutLines final begun text with
  | case1 begun => simp [units]
  | case2 begun t ih =>
    rw [map_cons, sum_cons, units_cons]
    dsimp only
    have hnil : units [] = 0 := rfl
    omega
  | case3 begun t ih =>
    rw [map_cons, sum_cons, units_cons, units_cons '\n']
    dsimp only
    have hnil : units [] = 0 := rfl
    omega
  | case4 begun d t hd ih =>
    rw [map_cons, sum_cons, units_cons]
    dsimp only
    have hnil : units [] = 0 := rfl
    omega
  | case5 begun h => simp [units]
  | case6 begun h => rw [map_nil, sum_nil, Nat.zero_add, units_append]
  | case7 begun c t _ _ _ _ ih =>
    rw [units_append] at ih
    rw [units_cons c t]
    omega

/-! ### The run -/

variable {limit : ℕ} {p : SseParser}

theorem parseFrom_cons {chunk : List UInt8} {chunks : List (List UInt8)} :
    parseFrom limit p (chunk :: chunks) = match p.push limit chunk with
      | .error e => .error e
      | .ok (out, p') => (parseFrom limit p' chunks).map fun events => out ++ events := by
  rw [parseFrom, pushAll]
  cases p.push limit chunk with
  | error e => rfl
  | ok r =>
    dsimp only
    rw [parseFrom]
    cases pushAll limit r.2 chunks with
    | error e => rfl
    | ok r' =>
      dsimp only
      cases r'.2.atEnd limit with
      | error e => rfl
      | ok r'' => simp only [Except.map, append_assoc]

/-- What a run from here gives, where the text that is left is `rest`. -/
structure Outcome (limit : ℕ) (s : Fields) (buf rest : List Char) (o : Except String (List SseEvent)) : Prop where
  reads : ∀ events, o = .ok events → ∃ s', s.lines limit (cutLines true [] (buf ++ rest)).1 = .ok (events, s')
  limits : ∀ e, o = .error e → e = eventExceeds limit ∨ e = lineExceeds limit
  fits : s.dataBytes + units (buf ++ rest) ≤ limit → ∃ events, o = .ok events

theorem outcome_end {ds cs rest : List Char} (hp : p.Ready) (hd : p.decoder.begun = !ds.isEmpty)
    (hbytes : Utf8.bytes ds ++ p.decoder.pending = Utf8.bytes cs)
    (hrest : Utf8.withoutMark cs = Utf8.withoutMark ds ++ rest) :
    Outcome limit p.fields p.buf rest (parseFrom limit p []) := by
  obtain ⟨text, d', hdecode, htext⟩ := Utf8.Decoder.decode_end hd hbytes
  obtain rfl : text = rest := append_cancel_left (htext.symm.trans hrest)
  have hready : SseParser.Ready { p with decoder := d', buf := p.buf ++ text } := by
    obtain ⟨seg, hseg, hprefix, hscan⟩ := hp.searched
    exact ⟨seg, hseg, hprefix.trans (prefix_append _ _), hscan⟩
  obtain ⟨k, hdrain⟩ := @drain_end limit _ hready
  dsimp only at hdrain
  have hparse : parseFrom limit p [] =
      match SseParser.drain limit { p with decoder := d', buf := p.buf ++ text } true with
      | .error e => .error e
      | .ok (out, _) => .ok out := by
    rw [parseFrom, pushAll]
    dsimp only
    rw [SseParser.atEnd, hdecode]
    dsimp only
    cases SseParser.drain limit { p with decoder := d', buf := p.buf ++ text } true with
    | error e => rfl
    | ok r => rfl
  rw [hparse, hdrain]
  have hunits := units_cutLines true [] (p.buf ++ text)
  have hnil : units [] = 0 := rfl
  cases hlines : p.fields.lines limit (cutLines true [] (p.buf ++ text)).1 with
  | error e =>
    refine ⟨fun _ h => (by cases h), ?_, fun hfits => ?_⟩
    · rintro _ ⟨⟩
      exact .inl (lines_error hlines)
    · obtain ⟨out, s', hok, -⟩ := @lines_fit limit p.fields (cutLines true [] (p.buf ++ text)).1 (by omega)
      rw [hok] at hlines
      cases hlines
  | ok r =>
    dsimp only
    by_cases hleft : (cutLines true [] (p.buf ++ text)).2 = []
    · rw [if_pos hleft]
      refine ⟨?_, fun _ h => (by cases h), fun _ => ⟨_, rfl⟩⟩
      rintro _ ⟨⟩
      exact ⟨r.2, hlines⟩
    · rw [if_neg hleft]
      cases hline : r.2.line limit (cutLines true [] (p.buf ++ text)).2 with
      | error e =>
        refine ⟨fun _ h => (by cases h), ?_, fun hfits => ?_⟩
        · rintro _ ⟨⟩
          exact .inl (line_error hline)
        · obtain ⟨out, s', hok, hle⟩ := @lines_fit limit p.fields (cutLines true [] (p.buf ++ text)).1 (by omega)
          rw [hok] at hlines
          cases hlines
          dsimp only at hline
          obtain ⟨ev, s'', hok', -⟩ := @line_fits limit s' (cutLines true [] (p.buf ++ text)).2 (by omega)
          rw [hok'] at hline
          cases hline
      | ok r' =>
        refine ⟨?_, fun _ h => (by cases h), fun _ => ⟨_, rfl⟩⟩
        rintro _ ⟨⟩
        exact ⟨r.2, hlines⟩

theorem outcome_run {limit : ℕ} {p : SseParser} {ds cs rest : List Char} {chunks : List (List UInt8)} (hp : p.Ready)
    (hd : p.decoder.begun = !ds.isEmpty)
    (hbytes : Utf8.bytes ds ++ (p.decoder.pending ++ chunks.flatten) = Utf8.bytes cs)
    (hrest : Utf8.withoutMark cs = Utf8.withoutMark ds ++ rest) :
    Outcome limit p.fields p.buf rest (parseFrom limit p chunks) := by
  induction chunks generalizing p ds rest with
  | nil =>
    rw [flatten_nil, append_nil] at hbytes
    exact outcome_end hp hd hbytes hrest
  | cons chunk chunks ih =>
    rw [flatten_cons] at hbytes
    obtain ⟨es, text, d', hdecode, hbegun, hmark, hbytes'⟩ := Utf8.Decoder.decode_piece hd hbytes
    obtain ⟨rest', hrest'⟩ : ∃ rest', Utf8.withoutMark cs = Utf8.withoutMark (ds ++ es) ++ rest' := by
      obtain ⟨fs, hfs, -⟩ := Utf8.bytes_cancel hbytes'
      rw [hfs]
      by_cases hne : ds ++ es = []
      · rw [hne]
        exact ⟨_, rfl⟩
      · exact ⟨fs, Utf8.withoutMark_append hne fs⟩
    obtain rfl : rest = text ++ rest' := by
      rw [hrest, hmark, append_assoc] at hrest'
      exact append_cancel_left hrest'
    have hready : SseParser.Ready { p with decoder := d', buf := p.buf ++ text } := by
      obtain ⟨seg, hseg, hprefix, hscan⟩ := hp.searched
      exact ⟨seg, hseg, hprefix.trans (prefix_append _ _), hscan⟩
    obtain ⟨k, ⟨seg, hseg, hprefix, hk⟩, hdrain⟩ := @drain_eq limit _ hready
    have hunits := units_cutLines false [] (p.buf ++ text)
    have hnil : units [] = 0 := rfl
    have hcut := @cutLines_append true [] (p.buf ++ text) rest' unended_nil
    have htotal : units (p.buf ++ (text ++ rest')) = units (p.buf ++ text) + units rest' := by
      rw [← append_assoc, units_append]
    rw [parseFrom_cons, SseParser.push, hdecode]
    dsimp only at hdrain ⊢
    rw [hdrain]
    cases hlines : p.fields.lines limit (cutLines false [] (p.buf ++ text)).1 with
    | error e =>
      refine ⟨fun _ h => (by cases h), ?_, fun hfits => ?_⟩
      · rintro _ ⟨⟩
        exact .inl (lines_error hlines)
      · obtain ⟨out, s', hok, -⟩ := @lines_fit limit p.fields (cutLines false [] (p.buf ++ text)).1 (by omega)
        rw [hok] at hlines
        cases hlines
    | ok r =>
      obtain ⟨out, s⟩ := r
      dsimp only
      by_cases hlong : units (cutLines false [] (p.buf ++ text)).2 > limit
      · rw [if_pos hlong]
        refine ⟨fun _ h => (by cases h), ?_, fun hfits => ?_⟩
        · rintro _ ⟨⟩
          exact .inr rfl
        · omega
      · rw [if_neg hlong]
        dsimp only
        have hnext := @ih { decoder := d', buf := (cutLines false [] (p.buf ++ text)).2, scanFrom := k, fields := s }
          (ds ++ es) rest' ⟨seg, hseg, hprefix, hk⟩ hbegun hbytes' hrest'
        dsimp only at hnext
        generalize parseFrom limit _ chunks = o at hnext ⊢
        refine ⟨?_, ?_, ?_⟩
        · intro events hevents
          cases o with
          | error e => cases hevents
          | ok more =>
            cases hevents
            obtain ⟨s', hs'⟩ := hnext.reads more rfl
            refine ⟨s', ?_⟩
            rw [← append_assoc, hcut, lines_append, hlines]
            dsimp only
            rw [hs']
            rfl
        · intro e he
          cases o with
          | error e' =>
            cases he
            exact hnext.limits e rfl
          | ok more => cases he
        · intro hfits
          obtain ⟨out', s', hok, hle⟩ := @lines_fit limit p.fields (cutLines false [] (p.buf ++ text)).1 (by omega)
          rw [hlines] at hok
          cases hok
          have hsmall : s.dataBytes + units ((cutLines false [] (p.buf ++ text)).2 ++ rest') ≤ limit := by
            rw [units_append]
            omega
          obtain ⟨more, rfl⟩ := hnext.fits hsmall
          exact ⟨_, rfl⟩

/-- However a stream of text is cut into pieces, the events are those of the reference reading, and
the same as for the whole stream as one piece, unless a limit is hit; nothing else stops the parser,
and no limit is hit by a text that is no longer than the limit. -/
theorem parse_reads (limit : ℕ) (text : List Char) (chunks : List (List UInt8))
    (h : chunks.flatten = Utf8.bytes text) :
    (∀ events, parse limit chunks = .ok events → events = reference (Utf8.withoutMark text)) ∧
    (∀ events whole, parse limit chunks = .ok events → parse limit [Utf8.bytes text] = .ok whole → events = whole) ∧
    (∀ e, parse limit chunks = .error e → e = eventExceeds limit ∨ e = lineExceeds limit) ∧
    (units (Utf8.withoutMark text) ≤ limit → ∃ events, parse limit chunks = .ok events) := by
  have hready : SseParser.Ready {} := ⟨[], unended_nil, List.nil_prefix, rfl⟩
  have hrun : ∀ pieces : List (List UInt8), pieces.flatten = Utf8.bytes text →
      Outcome limit {} [] (Utf8.withoutMark text) (parse limit pieces) := by
    intro pieces hpieces
    exact @outcome_run limit {} [] text _ pieces hready rfl hpieces rfl
  have hreads : ∀ pieces : List (List UInt8), pieces.flatten = Utf8.bytes text → ∀ events,
      parse limit pieces = .ok events → events = reference (Utf8.withoutMark text) := by
    intro pieces hpieces events hevents
    obtain ⟨s', hs'⟩ := (hrun pieces hpieces).reads events hevents
    exact lines_reads ⟨rfl, rfl, rfl⟩ hs'
  have hone : [Utf8.bytes text].flatten = Utf8.bytes text := by rw [flatten_cons, flatten_nil, append_nil]
  refine ⟨hreads chunks h, ?_, (hrun chunks h).limits, fun hfits => (hrun chunks h).fits ?_⟩
  · grind
  · rw [nil_append]
    exact (Nat.zero_add _).le.trans hfits

theorem parse_reads_sample :
    (∀ events, parse 100 [[100, 97, 116, 97, 58, 32, 226, 130], [172, 13], [], [10, 13]] = .ok events →
        events = reference (Utf8.withoutMark "data: €\r\n\r".toList)) ∧
    (∀ events whole, parse 100 [[100, 97, 116, 97, 58, 32, 226, 130], [172, 13], [], [10, 13]] = .ok events →
        parse 100 [Utf8.bytes "data: €\r\n\r".toList] = .ok whole → events = whole) ∧
    (∀ e, parse 100 [[100, 97, 116, 97, 58, 32, 226, 130], [172, 13], [], [10, 13]] = .error e →
        e = eventExceeds 100 ∨ e = lineExceeds 100) ∧
    (units (Utf8.withoutMark "data: €\r\n\r".toList) ≤ 100 →
      ∃ events, parse 100 [[100, 97, 116, 97, 58, 32, 226, 130], [172, 13], [], [10, 13]] = .ok events) :=
  parse_reads 100 "data: €\r\n\r".toList [[100, 97, 116, 97, 58, 32, 226, 130], [172, 13], [], [10, 13]] (by decide)

end Plur1bus.Providers.Sse
