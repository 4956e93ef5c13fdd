import Plur1bus.Net.Grammar

/-!
Address literals are read exactly: what `parseAddress` accepts is what the
grammars derive, and the bytes are the ones the text stands for. The reader of
IPv6 texts takes a dotted tail off first and then looks for `::`; which of the
two grammar forms a text has therefore shows at two places, the colon before
the tail and the double colon, and the cases below are the ways they can meet.
-/

namespace Plur1bus.Net

open Program List

theorem hexGroup_iff {h : List Char} : HexGroup h ↔ isGroup h = true := by
  simp [HexGroup, isGroup, and_assoc]

variable {pieces : List (List Char)} {groups : List ℕ}

/-- Pieces are hexadecimal groups, with or without a quad behind them. -/
theorem pieces_iff : Pieces pieces groups ↔ ∃ hs : List (List Char), (∀ h ∈ hs, isGroup h = true) ∧
      ((pieces = hs ∧ groups = hs.map (parseInt 16)) ∨
        ∃ a b c d, a < 256 ∧ b < 256 ∧ c < 256 ∧ d < 256 ∧ pieces = hs ++ [quadText a b c d] ∧
          groups = hs.map (parseInt 16) ++ [a * 256 + b, c * 256 + d]) := by
  constructor
  · intro h
    induction h with
    | nil => exact ⟨[], fun _ hh => absurd hh not_mem_nil, .inl ⟨rfl, rfl⟩⟩
    | quad ha hb hc hd =>
      exact ⟨[], fun _ hh => absurd hh not_mem_nil, .inr ⟨_, _, _, _, ha, hb, hc, hd, rfl, rfl⟩⟩
    | @group h pieces groups hh _ ih =>
      obtain ⟨hs, hall, hcase⟩ := ih
      refine ⟨h :: hs, forall_mem_cons.mpr ⟨hexGroup_iff.mp hh, hall⟩, ?_⟩
      obtain ⟨rfl, rfl⟩ | ⟨a, b, c, d, ha, hb, hc, hd, rfl, rfl⟩ := hcase
      · exact .inl ⟨rfl, rfl⟩
      · exact .inr ⟨a, b, c, d, ha, hb, hc, hd, rfl, rfl⟩
  · rintro ⟨hs, hall, hcase⟩
    induction hs generalizing pieces groups with
    | nil =>
      obtain ⟨rfl, rfl⟩ | ⟨a, b, c, d, ha, hb, hc, hd, rfl, rfl⟩ := hcase
      · exact .nil
      · exact .quad ha hb hc hd
    | cons h hs ih =>
      obtain ⟨hh, hall⟩ := forall_mem_cons.mp hall
      obtain ⟨rfl, rfl⟩ | ⟨a, b, c, d, ha, hb, hc, hd, rfl, rfl⟩ := hcase
      · exact .group (hexGroup_iff.mpr hh) (ih hall (.inl ⟨rfl, rfl⟩))
      · exact .group (hexGroup_iff.mpr hh) (ih hall (.inr ⟨a, b, c, d, ha, hb, hc, hd, rfl, rfl⟩))

/-! ### The characters of a text -/

theorem quadText_chars {a b c d : ℕ} {x : Char} (hx : x ∈ quadText a b c d) : v6Char x = true ∧ x ≠ ':' := by
  obtain rfl | ⟨part, hpart, hx⟩ := mem_intercalate hx
  · decide
  · have hhex : isHex x = true := by
      simp only [mem_cons, not_mem_nil, or_false] at hpart
      obtain rfl | rfl | rfl | rfl := hpart <;> exact isHex_of_mem_toDigits (by omega) (by omega) hx
    exact ⟨(Web.isHex_spec hhex).1, (Web.isHex_spec hhex).2.1⟩

theorem dot_mem_quadText (a b c d : ℕ) : '.' ∈ quadText a b c d := by
  rw [quadText, intercalate_cons_cons]
  exact mem_append_left _ (mem_append_right _ mem_cons_self)

variable {hs : List (List Char)}

theorem joined_chars (h : ∀ g ∈ hs, isGroup g = true) {x : Char} (hx : x ∈ joined hs) :
    v6Char x = true ∧ x ≠ '.' := by
  obtain rfl | ⟨g, hg, hx⟩ := mem_intercalate hx
  · decide
  · have hgroup := h g hg
    simp only [isGroup, Bool.and_eq_true, List.all_eq_true] at hgroup
    exact ⟨(Web.isHex_spec (hgroup.2 x hx)).1, (Web.isHex_spec (hgroup.2 x hx)).2.2⟩

/-! ### Around the last colon -/

variable {front q : List Char}

theorem afterColon_eq (hq : ':' ∉ q) : afterColon (front ++ ':' :: q) = q := by
  have hall : ∀ x ∈ q.reverse, decide (x ≠ ':') = true := fun x hx =>
    decide_eq_true fun heq => hq (heq ▸ mem_reverse.mp hx)
  rw [afterColon, reverse_append, reverse_cons, append_assoc, takeWhile_append_of_pos hall]
  simp

theorem throughColon_eq (hq : ':' ∉ q) : throughColon (front ++ ':' :: q) = front ++ [':'] := by
  have hall : ∀ x ∈ q.reverse, decide (x ≠ ':') = true := fun x hx =>
    decide_eq_true fun heq => hq (heq ▸ mem_reverse.mp hx)
  rw [throughColon, reverse_append, reverse_cons, append_assoc, dropWhile_append_of_pos hall]
  simp

variable {s : List Char}

/-- A text with a colon, cut at its last one. -/
theorem exists_lastColon (h : ':' ∈ s) : ∃ front q, s = front ++ ':' :: q ∧ ':' ∉ q := by
  induction s with
  | nil => exact absurd h not_mem_nil
  | cons c s ih =>
    by_cases hs : ':' ∈ s
    · obtain ⟨front, q, rfl, hq⟩ := ih hs
      exact ⟨c :: front, q, rfl, hq⟩
    · obtain rfl : ':' = c := (mem_cons.mp h).resolve_right hs
      exact ⟨[], s, rfl, hs⟩

theorem cut_kept (front : List Char) : Web.cut (front ++ [':', ':']) = front ++ [':', ':'] := by
  have hsuffix : [':', ':'].isSuffixOf (front ++ [':', ':']) = true :=
    isSuffixOf_iff_suffix.mpr (suffix_append _ _)
  rw [Web.cut, if_pos hsuffix]

theorem cut_dropped (h : front.getLast? ≠ some ':') : Web.cut (front ++ [':']) = front := by
  have hsuffix : ¬ [':', ':'].isSuffixOf (front ++ [':']) = true := by
    rw [isSuffixOf_iff_suffix]
    rintro ⟨before, hbefore⟩
    have hfront : before ++ [':'] = front := by
      have : before ++ [':'] ++ [':'] = front ++ [':'] := by simpa using hbefore
      exact append_cancel_right this
    exact h (by rw [← hfront, List.getLast?_concat])
  rw [Web.cut, if_neg hsuffix, dropLast_concat]

/-- Joined groups with one more piece. -/
theorem joined_snoc (hne : hs ≠ []) (q : List Char) :
    [':'].intercalate (hs ++ [q]) = joined hs ++ ':' :: q := by
  induction hs with
  | nil => exact absurd rfl hne
  | cons g hs ih =>
    cases hs with
    | nil => simp [joined]
    | cons g' hs =>
      have hrest := ih (cons_ne_nil _ _)
      rw [joined] at hrest ⊢
      rw [cons_append, cons_append, intercalate_cons_cons, intercalate_cons_cons, ← cons_append, hrest]
      simp

/-! ### The reader of IPv6 texts -/

theorem parseV6_plain (hchars : ∀ c ∈ s, v6Char c = true ∧ c ≠ '.') (hcolon : ':' ∈ s) :
    Web.parseV6 s = (groupsOf s []).bind Web.toBytes := by
  have hgood : ¬(s = [] ∨ s.all v6Char = false ∨ ':' ∉ s) := by grind
  have hnodot : '.' ∉ afterColon s := by
    intro hdot
    have hmem := takeWhile_subset _ (mem_reverse.mp hdot)
    exact (hchars '.' (mem_reverse.mp hmem)).2 rfl
  rw [Web.parseV6, parseV6With, if_neg hgood, if_neg hnodot]

theorem parseV6_quad {a b c d : ℕ} (hchars : ∀ x ∈ front, v6Char x = true) (ha : a < 256) (hb : b < 256)
    (hc : c < 256) (hd : d < 256) : Web.parseV6 (front ++ ':' :: quadText a b c d) =
      (groupsOf (Web.cut (front ++ [':'])) [a * 256 + b, c * 256 + d]).bind Web.toBytes := by
  have hq : ':' ∉ quadText a b c d := fun hmem => (quadText_chars hmem).2 rfl
  have hgood : ¬(front ++ ':' :: quadText a b c d = [] ∨ (front ++ ':' :: quadText a b c d).all v6Char = false ∨
      ':' ∉ front ++ ':' :: quadText a b c d) := by
    rintro (hno | hno | hno)
    · simp at hno
    · rw [List.all_eq_true.mpr] at hno
      · cases hno
      · intro x hx
        obtain hx | hx := mem_append.mp hx
        · exact hchars x hx
        · obtain rfl | hx := mem_cons.mp hx
          · rfl
          · exact (quadText_chars hx).1
    · exact hno (by simp)
  have hquad : parseV4 (quadText a b c d) true = some [a, b, c, d] :=
    parseV4_strict_iff.mpr ⟨a, b, c, d, ha, hb, hc, hd, rfl, rfl⟩
  rw [Web.parseV6, parseV6With, if_neg hgood, afterColon_eq hq, if_pos (dot_mem_quadText a b c d), hquad,
    throughColon_eq hq]
  rfl

variable {bytes : List ℕ}

theorem toBytes_iff : Web.toBytes groups = some bytes ↔ groups.length = 8 ∧ bytes = v6Bytes groups := by
  grind [v6Bytes, Web.toBytes]

/-! ### Soundness -/

theorem getLast?_joined_ne (h : ∀ g ∈ hs, isGroup g = true) :
    (joined hs).getLast? ≠ some ':' := (tight_joined h).last

/-- Behind a double colon, joined groups end in a colon only if there are none. -/
theorem eq_nil_of_getLast? {as bs : List (List Char)} (hbs : ∀ g ∈ bs, isGroup g = true)
    (h : (joined as ++ [':', ':'] ++ joined bs).getLast? = some ':') : bs = [] := by
  by_contra hne
  have hjoined := joined_ne_nil hbs hne
  rw [List.getLast?_append_of_ne_nil _ hjoined] at h
  exact getLast?_joined_ne hbs h

variable {ns : List ℕ}

/-- What stands before a dotted tail, given the groups it was read as. -/
theorem v6Text_of_tail {a b c d : ℕ} (ha : a < 256) (hb : b < 256) (hc : c < 256) (hd : d < 256)
    (h : groupsOf (Web.cut (front ++ [':'])) [a * 256 + b, c * 256 + d] = some ns)
    (hlen : ns.length = 8) : V6Text (front ++ ':' :: quadText a b c d) ns := by
  obtain ⟨as, has, hcase⟩ := groupsOf_cases h
  by_cases hlast : front.getLast? = some ':'
  · -- The text before the tail ends with a double colon, and is read whole.
    obtain ⟨front, rfl⟩ : ∃ before, front = before ++ [':'] := by
      obtain ⟨before, hbefore⟩ := List.getLast?_eq_some_iff.mp hlast
      exact ⟨before, hbefore⟩
    rw [append_assoc, show [':'] ++ [':'] = [':', ':'] from rfl, cut_kept] at hcase
    obtain ⟨hhead, -⟩ | ⟨bs, hbs, hhead, hroom, rfl⟩ := hcase
    · refine absurd ?_ (getLast?_joined_ne has)
      rw [← hhead]
      simp
    · have hend : (joined as ++ [':', ':'] ++ joined bs).getLast? = some ':' := by
        rw [← hhead]
        simp
      obtain rfl := eq_nil_of_getLast? hbs hend
      have hfront : front ++ [':', ':'] = joined as ++ [':', ':'] := by
        rw [hhead]
        show joined as ++ [':', ':'] ++ [] = _
        rw [append_nil]
      have htext : front ++ [':'] ++ ':' :: quadText a b c d =
          [':'].intercalate as ++ [':', ':'] ++ [':'].intercalate [quadText a b c d] := by
        rw [intercalate_singleton]
        show _ = joined as ++ [':', ':'] ++ _
        rw [← hfront]
        simp
      have hshort : as.length + [a * 256 + b, c * 256 + d].length < 8 := by simpa using hroom
      have hzeros := V6Text.zeros (fun g hg => hexGroup_iff.mpr (has g hg)) (Pieces.quad ha hb hc hd) hshort
      rw [htext]
      simpa using hzeros
  · rw [cut_dropped hlast] at hcase
    obtain ⟨rfl, rfl⟩ | ⟨bs, hbs, rfl, hroom, rfl⟩ := hcase
    · have hne : as ≠ [] := by
        rintro rfl
        simp at hlen
      rw [← joined_snoc hne]
      exact .full (pieces_iff.mpr ⟨as, has, .inr ⟨a, b, c, d, ha, hb, hc, hd, rfl, rfl⟩⟩) hlen
    · have hne : bs ≠ [] := by
        rintro rfl
        refine hlast ?_
        show (joined as ++ [':', ':'] ++ []).getLast? = _
        simp
      have htext : joined as ++ [':', ':'] ++ joined bs ++ ':' :: quadText a b c d =
          [':'].intercalate as ++ [':', ':'] ++ [':'].intercalate (bs ++ [quadText a b c d]) := by
        rw [joined_snoc hne]
        simp [joined]
      have hright := pieces_iff.mpr ⟨bs, hbs, .inr ⟨a, b, c, d, ha, hb, hc, hd, rfl, rfl⟩⟩
      have hzeros := V6Text.zeros (fun g hg => hexGroup_iff.mpr (has g hg)) hright
        (by simpa [Nat.add_assoc] using hroom)
      rw [htext]
      simpa [Nat.add_assoc] using hzeros

theorem v6Text_of_plain (h : groupsOf s [] = some ns) (hlen : ns.length = 8) : V6Text s ns := by
  obtain ⟨as, has, ⟨rfl, rfl⟩ | ⟨bs, hbs, rfl, hroom, rfl⟩⟩ := groupsOf_cases h
  · rw [append_nil] at hlen ⊢
    exact .full (pieces_iff.mpr ⟨as, has, .inl ⟨rfl, rfl⟩⟩) hlen
  · have hright := pieces_iff.mpr ⟨bs, hbs, .inl ⟨rfl, rfl⟩⟩
    have hzeros := V6Text.zeros (fun g hg => hexGroup_iff.mpr (has g hg)) hright (by simpa using hroom)
    simpa [joined] using hzeros

/-- Accepted texts are address texts. -/
theorem v6Text_of_parseV6 (h : Web.parseV6 s = some bytes) :
    ∃ groups, V6Text s groups ∧ bytes = v6Bytes groups := by
  unfold Web.parseV6 parseV6With at h
  split at h
  · cases h
  next hgood =>
    have hcolon : ':' ∈ s := by
      by_contra hno
      exact hgood (.inr (.inr hno))
    split at h
    next hdot =>
      obtain ⟨front, q, rfl, hq⟩ := exists_lastColon hcolon
      rw [afterColon_eq hq, throughColon_eq hq] at h
      obtain ⟨v4, hv4, h⟩ := Option.bind_eq_some_iff.mp h
      obtain ⟨groups, hgroups, hbytes⟩ := Option.bind_eq_some_iff.mp h
      obtain ⟨a, b, c, d, ha, hb, hc, hd, rfl, rfl⟩ := parseV4_strict_iff.mp hv4
      obtain ⟨hlen, rfl⟩ := toBytes_iff.mp hbytes
      exact ⟨groups, v6Text_of_tail ha hb hc hd hgroups hlen, rfl⟩
    next =>
      obtain ⟨groups, hgroups, hbytes⟩ := Option.bind_eq_some_iff.mp h
      obtain ⟨hlen, rfl⟩ := toBytes_iff.mp hbytes
      exact ⟨groups, v6Text_of_plain hgroups hlen, rfl⟩

/-! ### Completeness -/

theorem v6Char_joined (h : ∀ g ∈ hs, isGroup g = true) :
    ∀ x ∈ joined hs, v6Char x = true := fun _ hx => (joined_chars h hx).1

theorem zeros_chars {as bs : List (List Char)} (has : ∀ g ∈ as, isGroup g = true) (hbs : ∀ g ∈ bs, isGroup g = true) :
    ∀ x ∈ joined as ++ [':', ':'] ++ joined bs, v6Char x = true ∧ x ≠ '.' := by
  intro x hx
  obtain hx | hx := mem_append.mp hx
  · obtain hx | hx := mem_append.mp hx
    · exact joined_chars has hx
    · simp only [mem_cons, not_mem_nil, or_false, or_self] at hx
      subst hx
      decide
  · exact joined_chars hbs hx

theorem parseV6_full (h : Pieces pieces groups) (hlen : groups.length = 8) :
    Web.parseV6 ([':'].intercalate pieces) = some (v6Bytes groups) := by
  obtain ⟨hs, hall, ⟨rfl, rfl⟩ | ⟨a, b, c, d, ha, hb, hc, hd, rfl, rfl⟩⟩ := pieces_iff.mp h
  · have hcolon : ':' ∈ joined pieces := by
      obtain ⟨g, rest, rfl⟩ := exists_cons_of_ne_nil (fun hnil : pieces = [] => by
        rw [hnil] at hlen
        cases hlen)
      obtain ⟨g', rest, rfl⟩ := exists_cons_of_ne_nil (fun hnil : rest = [] => by
        rw [hnil] at hlen
        cases hlen)
      rw [joined, intercalate_cons_cons]
      exact mem_append_left _ (mem_append_right _ mem_cons_self)
    show Web.parseV6 (joined pieces) = _
    rw [parseV6_plain (fun x hx => joined_chars hall hx) hcolon, groupsOf_joined hall, Option.bind_some,
      append_nil]
    exact toBytes_iff.mpr ⟨hlen, rfl⟩
  · have hne : hs ≠ [] := by
      rintro rfl
      cases hlen
    rw [joined_snoc hne, parseV6_quad (v6Char_joined hall) ha hb hc hd, cut_dropped (getLast?_joined_ne hall),
      groupsOf_joined hall]
    exact toBytes_iff.mpr ⟨hlen, rfl⟩

theorem length_zeros {as : List ℕ} (h : as.length + groups.length < 8) :
    (as ++ List.replicate (8 - (as.length + groups.length)) 0 ++ groups).length = 8 := by
  rw [length_append, length_append, length_replicate]
  omega

theorem parseV6_zeros {left right : List (List Char)} (hleft : ∀ g ∈ left, isGroup g = true)
    (hright : Pieces right groups) (hlen : left.length + groups.length < 8) :
    Web.parseV6 (joined left ++ [':', ':'] ++ [':'].intercalate right) =
      some (v6Bytes (left.map (parseInt 16) ++ List.replicate (8 - (left.length + groups.length)) 0 ++ groups)) := by
  have hroom : (left.map (parseInt 16)).length + groups.length < 8 := by rwa [length_map]
  have hfull := length_zeros hroom
  rw [length_map] at hfull
  obtain ⟨hs, hall, ⟨rfl, rfl⟩ | ⟨a, b, c, d, ha, hb, hc, hd, rfl, rfl⟩⟩ := pieces_iff.mp hright
  · have hcolon : ':' ∈ joined left ++ [':', ':'] ++ joined right := by simp
    show Web.parseV6 (joined left ++ [':', ':'] ++ joined right) = _
    rw [length_map] at hlen hfull ⊢
    rw [parseV6_plain (zeros_chars hleft hall) hcolon, groupsOf_zeros hleft hall [] (by simpa using hlen),
      Option.bind_some]
    exact toBytes_iff.mpr ⟨by simpa using hfull, by simp⟩
  · simp only [length_append, length_map, length_cons, length_nil] at hlen hfull ⊢
    by_cases hne : hs = []
    · -- The tail follows the double colon.
      subst hne
      have htext : joined left ++ [':', ':'] ++ [':'].intercalate ([] ++ [quadText a b c d]) =
          (joined left ++ [':']) ++ ':' :: quadText a b c d := by simp
      have hchars : ∀ x ∈ joined left ++ [':'], v6Char x = true := by
        intro x hx
        obtain hx | hx := mem_append.mp hx
        · exact v6Char_joined hleft x hx
        · rw [mem_singleton.mp hx]
          rfl
      have hkept : Web.cut (joined left ++ [':'] ++ [':']) = joined left ++ [':', ':'] ++ joined [] := by
        rw [append_assoc, show [':'] ++ [':'] = [':', ':'] from rfl, cut_kept]
        show _ = joined left ++ [':', ':'] ++ []
        rw [append_nil]
      rw [htext, parseV6_quad hchars ha hb hc hd, hkept,
        groupsOf_zeros hleft (fun _ hg => absurd hg not_mem_nil) _ (by simpa using hlen), Option.bind_some]
      exact toBytes_iff.mpr ⟨by simp; omega, by simp⟩
    · have htext : joined left ++ [':', ':'] ++ [':'].intercalate (hs ++ [quadText a b c d]) =
          (joined left ++ [':', ':'] ++ joined hs) ++ ':' :: quadText a b c d := by
        rw [joined_snoc hne]
        simp
      have hlast : (joined left ++ [':', ':'] ++ joined hs).getLast? ≠ some ':' :=
        fun hcontra => hne (eq_nil_of_getLast? hall hcontra)
      rw [htext, parseV6_quad (fun x hx => (zeros_chars hleft hall x hx).1) ha hb hc hd, cut_dropped hlast,
        groupsOf_zeros hleft hall _ (by simpa [Nat.add_assoc] using hlen), Option.bind_some]
      exact toBytes_iff.mpr ⟨by simpa [Nat.add_assoc] using hfull, by simp [Nat.add_assoc]⟩

theorem parseV6_iff : Web.parseV6 s = some bytes ↔ ∃ groups, V6Text s groups ∧ bytes = v6Bytes groups := by
  constructor
  · exact v6Text_of_parseV6
  · rintro ⟨groups, h, rfl⟩
    cases h with
    | full h hlen => exact parseV6_full h hlen
    | zeros hleft hright hlen =>
      exact parseV6_zeros (fun g hg => hexGroup_iff.mp (hleft g hg)) hright hlen

/-! ### Literals -/

theorem parseAddress_plain (htrim : trimmed s = s) (hbracket : bracketed s = false) (strict : Bool) :
    Web.parseAddress s strict = if s = [] then none
      else if ':' ∈ s then (Web.parseV6 s).map (⟨.v6, ·⟩) else (parseV4 s strict).map (⟨.v4, ·⟩) := by
  unfold Web.parseAddress
  rw [htrim]
  dsimp only
  rw [hbracket, if_neg Bool.false_ne_true]

theorem InetAton.ne_nil (h : InetAton s bytes) : s ≠ [] := by
  rintro rfl
  have hread := parseV4_iff.mpr h
  revert hread
  unfold parseV4
  simp [parseV4Part]

/-- Address literals are read exactly, and the written form of an address reads
back as the address. -/
theorem parseAddress_exact :
    (∀ (s : List Char) (strict : Bool) (a : ParsedAddress), trimmed s = s → bracketed s = false → ':' ∈ s →
      (Web.parseAddress s strict = some a ↔ ∃ groups, V6Text s groups ∧ a = ⟨.v6, v6Bytes groups⟩)) ∧
    (∀ (s : List Char) (a : ParsedAddress), trimmed s = s → bracketed s = false → ':' ∉ s →
      (Web.parseAddress s false = some a ↔ ∃ bytes, InetAton s bytes ∧ a = ⟨.v4, bytes⟩)) ∧
    ∀ a : ParsedAddress, a.Valid → Web.parseAddress (Web.formatAddress a) false = some (canonical a) := by
  refine ⟨fun s strict a htrim hbracket hcolon => ?_, fun s a htrim hbracket hcolon => ?_,
    fun a h => Web.parseAddress_formatAddress h⟩
  · rw [parseAddress_plain htrim hbracket, if_neg (ne_nil_of_mem hcolon), if_pos hcolon, Option.map_eq_some_iff]
    constructor
    · rintro ⟨bytes, hbytes, rfl⟩
      obtain ⟨groups, htext, rfl⟩ := parseV6_iff.mp hbytes
      exact ⟨groups, htext, rfl⟩
    · rintro ⟨groups, htext, rfl⟩
      exact ⟨_, parseV6_iff.mpr ⟨groups, htext, rfl⟩, rfl⟩
  · rw [parseAddress_plain htrim hbracket, if_neg hcolon]
    by_cases hnil : s = []
    · rw [if_pos hnil]
      constructor
      · rintro ⟨⟩
      · rintro ⟨bytes, h, -⟩
        exact absurd hnil h.ne_nil
    · rw [if_neg hnil, Option.map_eq_some_iff]
      constructor
      · rintro ⟨bytes, hbytes, rfl⟩
        exact ⟨bytes, parseV4_iff.mp hbytes, rfl⟩
      · rintro ⟨bytes, hbytes, rfl⟩
        exact ⟨bytes, parseV4_iff.mpr hbytes, rfl⟩

theorem parseAddress_exact_sample :
    Web.parseAddress "::1".toList true = some ⟨.v6, [0, 0, 0, 0, 0, 0, 0, 0, 0, 0, 0, 0, 0, 0, 0, 1]⟩ ∧
      Web.parseAddress "0x7f.01".toList false = some ⟨.v4, [127, 0, 0, 1]⟩ ∧
      Web.parseAddress (Web.formatAddress ⟨.v4, [1, 2, 3, 4]⟩) false = some (canonical ⟨.v4, [1, 2, 3, 4]⟩) := by
  have hone : HexGroup ['1'] := ⟨by decide, by decide, forall_mem_singleton.mpr rfl⟩
  have htext : V6Text "::1".toList [0, 0, 0, 0, 0, 0, 0, 1] :=
    @V6Text.zeros [] [['1']] [1] (fun _ h => absurd h not_mem_nil) (.group hone .nil) (by decide)
  have hfirst : Numeral "0x7f".toList 127 := @Numeral.hexadecimal 'x' ['7', 'f'] (.inl rfl)
    (forall_mem_cons.mpr ⟨rfl, forall_mem_singleton.mpr rfl⟩) (by decide)
  have hsecond : Numeral "01".toList 1 := @Numeral.octal ['1'] (forall_mem_singleton.mpr (by decide))
  have haton : InetAton "0x7f.01".toList [127, 0, 0, 1] :=
    ⟨rfl, by decide, ["0x7f".toList, "01".toList], [127], 1, by decide, by decide,
      .cons hfirst (.cons hsecond .nil), rfl, by decide⟩
  refine ⟨?_, ?_, ?_⟩
  · exact (parseAddress_exact.1 _ true _ (by decide) (by decide) (by decide)).mpr ⟨_, htext, by decide⟩
  · exact (parseAddress_exact.2.1 _ _ (by decide) (by decide) (by decide)).mpr ⟨_, haton, rfl⟩
  · exact parseAddress_exact.2.2 ⟨.v4, [1, 2, 3, 4]⟩ ⟨rfl, by decide⟩

end Plur1bus.Net
