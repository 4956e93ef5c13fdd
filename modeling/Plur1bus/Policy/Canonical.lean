import Plur1bus.Policy.Paths
import Plur1bus.Program.Outcome
import Plur1bus.Program.Spelling

/-!
Accepted absolute paths are in normal form: what `assemble` makes of one is
accepted again, with the same parts. The parts decide everything, so the proof
follows the three shapes an absolute path can start with. Between them they
share two facts. The segments are some of the pieces between separators, so
joining them gives a sublist of the text that was read, which no rule on
single characters and no limit on lengths can refuse; and a segment that
passed its rules passes them again.
-/

namespace Plur1bus.Policy.Paths

open Program List
open scoped List

variable {toLowerCase : List Char → List Char} {windows : Bool}

/-! ### Lengths -/

theorem byteLength_append (s t : List Char) : byteLength (s ++ t) = byteLength s + byteLength t := by
  rw [byteLength, Utf8.bytes_append, length_append]
  rfl

theorem byteLength_cons (c : Char) (s : List Char) : byteLength (c :: s) = byteLength [c] + byteLength s :=
  byteLength_append [c] s

theorem byteLength_le_of_sublist {s t : List Char} (h : s <+ t) : byteLength s ≤ byteLength t := by
  induction h with
  | slnil => exact le_rfl
  | @cons s t c h ih =>
      have ht := byteLength_cons c t
      omega
  | @cons_cons s t c h ih =>
      have hs := byteLength_cons c s
      have ht := byteLength_cons c t
      omega

/-! ### Texts that pass -/

/-- No rule on single characters refuses this one. -/
def Plain (c : Char) : Prop := isControl c = false ∧ isBidi c = false

variable {input : Option (List UInt16)} {text : List Char}

theorem checkText_ok (h : checkText input = .ok text) :
    byteLength text ≤ MAX_PATH_UTF8 ∧ ∀ c ∈ text, Plain c := by
  unfold checkText at h
  split at h
  · cases h
  split at h
  · cases h
  split at h
  · cases h
  split at h
  · cases h
  split at h
  · cases h
  split at h
  · cases h
  rename_i hlength hcontrol hbidi
  cases h
  simp only [List.any_eq_true, not_exists, not_and, Bool.not_eq_true] at hcontrol hbidi
  exact ⟨by omega, fun c hc => ⟨hcontrol c hc, hbidi c hc⟩⟩

theorem checkText_units (hne : text ≠ []) (hlength : byteLength text ≤ MAX_PATH_UTF8)
    (hplain : ∀ c ∈ text, Plain c) : checkText (some (Utf16.units text)) = .ok text := by
  have hunits : (Utf16.units text).isEmpty = false := by
    cases text with
    | nil => exact absurd rfl hne
    | cons c text =>
        show (Utf16.encode c ++ Utf16.units text).isEmpty = false
        unfold Utf16.encode
        split <;> rfl
  have hcontrol : text.any isControl = false := any_eq_false.mpr fun c hc => (by simp [(hplain c hc).1])
  have hbidi : text.any isBidi = false := any_eq_false.mpr fun c hc => (by simp [(hplain c hc).2])
  unfold checkText
  have hshort : ¬ byteLength text > MAX_PATH_UTF8 := by omega
  simp [hunits, hcontrol, hbidi, hshort]

/-! ### Segments that pass -/

/-- A piece that the loop keeps. -/
structure Kept (toLowerCase : List Char → List Char) (windows : Bool) (seg : List Char) : Prop where
  ne_nil : seg ≠ []
  ne_dot : seg ≠ ['.']
  passes : checkSegment toLowerCase windows seg = .ok ()

variable {seg : List Char}

theorem Kept.ne_dots (h : Kept toLowerCase windows seg) : seg ≠ ['.', '.'] := by
  intro hseg
  have hpasses := h.passes
  rw [checkSegment, if_pos hseg] at hpasses
  cases hpasses

/-- On Windows no kept segment has a character that `WIN_FORBIDDEN` lists. -/
theorem Kept.not_forbidden (h : Kept toLowerCase true seg) : ∀ c ∈ seg, isForbidden c = false := by
  have hpasses := h.passes
  rw [checkSegment, if_neg h.ne_dots] at hpasses
  split at hpasses
  · cases hpasses
  rw [if_pos rfl] at hpasses
  split at hpasses
  · cases hpasses
  split at hpasses
  · cases hpasses
  rename_i hforbidden
  simpa using hforbidden

variable {segments : List (List Char)}

theorem collect_ok {raw : List (List Char)} (h : collect toLowerCase windows raw = .ok segments) :
    segments <+ raw ∧ ∀ seg ∈ segments, Kept toLowerCase windows seg := by
  induction raw generalizing segments with
  | nil =>
      cases h
      exact ⟨List.Sublist.refl _, fun _ hseg => absurd hseg not_mem_nil⟩
  | cons seg raw ih =>
      rw [collect] at h
      split at h
      · obtain ⟨hsub, hkept⟩ := ih h
        exact ⟨hsub.cons seg, hkept⟩
      · rename_i hskip
        obtain ⟨_, hpasses, h⟩ := bind_ok.mp h
        obtain ⟨rest, hrest, h⟩ := bind_ok.mp h
        cases h
        obtain ⟨hsub, hkept⟩ := ih hrest
        refine ⟨hsub.cons_cons seg, forall_mem_cons.mpr ⟨⟨?_, ?_, hpasses⟩, hkept⟩⟩
        · exact fun hnil => hskip (.inl hnil)
        · exact fun hdot => hskip (.inr hdot)

theorem collect_kept (h : ∀ seg ∈ segments, Kept toLowerCase windows seg) :
    collect toLowerCase windows segments = .ok segments := by
  induction segments with
  | nil => rfl
  | cons seg segments ih =>
      obtain ⟨hseg, hrest⟩ := forall_mem_cons.mp h
      have hskip : ¬ (seg = [] ∨ seg = ['.']) := not_or.mpr ⟨hseg.ne_nil, hseg.ne_dot⟩
      rw [collect, if_neg hskip, hseg.passes, ih hrest]
      rfl

/-- The loop finds kept segments again in their join. -/
theorem collect_join {c : Char} (h : ∀ seg ∈ segments, Kept toLowerCase windows seg)
    (hsep : ∀ seg ∈ segments, c ∉ seg) :
    collect toLowerCase windows (([c].intercalate segments).splitOn c) = .ok segments := by
  cases segments with
  | nil =>
      rw [intercalate_nil, splitOn_nil, collect, if_pos (.inl rfl)]
      rfl
  | cons seg segments =>
      rw [splitOn_intercalate c hsep (by simp)]
      exact collect_kept h

/-! ### The shapes of an absolute path -/

/-- What an accepted absolute path starts with, and what is read of it. -/
inductive Shape : Bool → Bool → List Char → Start → Prop
  | posix {allowUnc : Bool} {rest : List Char} (h : '\\' ∉ '/' :: rest) :
      Shape false allowUnc ('/' :: rest) ⟨'/' :: rest, none, false, true⟩
  | unc {text rest : List Char} (h : normaliseSeparators text = '\\' :: '\\' :: rest) :
      Shape true true text ⟨rest, none, true, true⟩
  | drive {allowUnc : Bool} {text rest : List Char} {d : Char} (hd : isAsciiLetter d = true)
      (h : normaliseSeparators text = d :: ':' :: '\\' :: rest) :
      Shape true allowUnc text ⟨rest, some d.toUpper, false, true⟩

variable {allowUnc : Bool} {start : Start}

theorem readStart_shape (h : readStart windows allowUnc text = .ok start) (habs : start.absolute = true) :
    Shape windows allowUnc text start := by
  unfold readStart at h
  cases windows with
  | false =>
      rw [if_neg Bool.false_ne_true] at h
      split at h
      · cases h
      · rename_i hbackslash
        cases h
        obtain ⟨rest, rfl⟩ : ∃ rest, text = '/' :: rest := by
          cases text with
          | nil => simp at habs
          | cons c text => exact ⟨text, by simpa using habs⟩
        exact .posix (by simpa using hbackslash)
  | true =>
      rw [if_pos rfl] at h
      simp only at h
      split at h
      · cases h
      split at h
      · cases h
      split at h
      · rename_i hunc
        split at h
        · rename_i hallow
          cases h
          obtain ⟨rest, hrest⟩ := List.isPrefixOf_iff_prefix.mp hunc
          subst hallow
          rw [← hrest]
          exact .unc hrest.symm
        · cases h
      split at h
      · rename_i hspec
        split at h
        · rename_i hslash
          cases h
          generalize hn : normaliseSeparators text = n at hspec hslash
          unfold isDriveSpec at hspec
          split at hspec
          · rename_i d tail
            obtain ⟨rest, rfl⟩ : ∃ rest, tail = '\\' :: rest := by
              cases tail with
              | nil => simp at hslash
              | cons c tail => exact ⟨tail, by simpa using hslash⟩
            exact .drive hspec hn
          · cases hspec
        · cases h
      split at h
      · cases h
      · cases h
        cases habs

/-- The text as the rules read it, and as it was: only slashes differ. -/
theorem normaliseSeparators_plain (h : ∀ c ∈ text, Plain c) : ∀ c ∈ normaliseSeparators text, Plain c := by
  intro c hc
  obtain ⟨d, hd, rfl⟩ := mem_map.mp hc
  split
  · exact ⟨rfl, rfl⟩
  · exact h d hd

theorem byteLength_normaliseSeparators (text : List Char) :
    byteLength (normaliseSeparators text) = byteLength text := by
  induction text with
  | nil => rfl
  | cons c text ih =>
      show byteLength ((if c = '/' then '\\' else c) :: normaliseSeparators text) = _
      rw [byteLength_cons, byteLength_cons c, ih]
      split
      · rename_i hc
        subst hc
        rfl
      · rfl

theorem slash_not_mem_normaliseSeparators (text : List Char) : '/' ∉ normaliseSeparators text := by
  intro h
  obtain ⟨c, -, hc⟩ := mem_map.mp h
  split at hc
  · exact absurd hc (by decide)
  · rename_i hne
    exact hne hc

theorem normaliseSeparators_eq {n : List Char} (h : '/' ∉ n) : normaliseSeparators n = n := by
  induction n with
  | nil => rfl
  | cons c n ih =>
      obtain ⟨hc, hn⟩ := not_or.mp (fun hmem => h (mem_cons.mpr hmem))
      show (if c = '/' then '\\' else c) :: normaliseSeparators n = _
      rw [if_neg (Ne.symm hc), ih hn]

theorem toUpper_letter_below : ∀ n : Fin 128, isAsciiLetter (Char.ofNat n) = true →
    let u := (Char.ofNat n).toUpper
    isAsciiLetter u = true ∧ u.toUpper = u ∧ (isControl u = false ∧ isBidi u = false) ∧
      byteLength [u] = byteLength [Char.ofNat n] ∧ u ≠ '/' ∧ u ≠ '\\' := by
  decide +kernel

/-- The upper-case form of a letter is as long as the letter, and as harmless. -/
theorem toUpper_letter {d : Char} (h : isAsciiLetter d = true) :
    isAsciiLetter d.toUpper = true ∧ d.toUpper.toUpper = d.toUpper ∧ Plain d.toUpper ∧
      byteLength [d.toUpper] = byteLength [d] ∧ d.toUpper ≠ '/' ∧ d.toUpper ≠ '\\' := by
  have hlt : d.toNat < 128 := by
    have hz : 'z'.toNat = 122 := rfl
    have hZ : 'Z'.toNat = 90 := rfl
    simp only [isAsciiLetter, Bool.or_eq_true, Bool.and_eq_true, decide_eq_true_eq, Char.le_def,
      UInt32.le_iff_toNat_le, Char.toNat_val] at h
    omega
  have hall := toUpper_letter_below ⟨d.toNat, hlt⟩
  simp only [Char.ofNat_toNat] at hall
  exact hall h

/-! ### The fixed point -/

variable {host : String} {o : SyntaxOptions}

theorem checkSyntax_ok {s : SyntaxOk} : checkSyntax toLowerCase host input o = .ok s ↔
      ∃ text start segments, checkText input = .ok text ∧
        readStart (o.windows host) o.allowUnc text = .ok start ∧
        collect toLowerCase (o.windows host) (start.rest.splitOn (separator (o.windows host))) = .ok segments ∧
        ¬ (segments.isEmpty && !start.absolute) = true ∧
        s = ⟨o.windows host, start.unc, start.drive, segments, start.absolute⟩ := by
  unfold checkSyntax
  constructor
  · intro h
    obtain ⟨text, htext, h⟩ := bind_ok.mp h
    obtain ⟨start, hstart, h⟩ := bind_ok.mp h
    obtain ⟨segments, hsegments, h⟩ := bind_ok.mp h
    split at h
    · cases h
    · rename_i hsome
      cases h
      exact ⟨text, start, segments, htext, hstart, hsegments, hsome, rfl⟩
  · rintro ⟨text, start, segments, htext, hstart, hsegments, hsome, rfl⟩
    refine bind_ok.mpr ⟨text, htext, bind_ok.mpr ⟨start, hstart, bind_ok.mpr ⟨segments, hsegments, ?_⟩⟩⟩
    rw [if_neg hsome]
    rfl

/-- What reading an assembled path again has to give. -/
structure Reread (toLowerCase : List Char → List Char) (windows allowUnc : Bool) (start : Start)
    (segments : List (List Char)) (text : List Char) : Prop where
  ne_nil : text ≠ []
  short : byteLength text ≤ MAX_PATH_UTF8
  plain : ∀ c ∈ text, Plain c
  again : ∃ rest, readStart windows allowUnc text = .ok ⟨rest, start.drive, start.unc, start.absolute⟩ ∧
    collect toLowerCase windows (rest.splitOn (separator windows)) = .ok segments

section Shapes

variable {allowUnc : Bool} {segments : List (List Char)} {rest : List Char}

theorem reread_posix (hshort : byteLength ('/' :: rest) ≤ MAX_PATH_UTF8)
    (hplain : ∀ c ∈ '/' :: rest, Plain c) (hbackslash : '\\' ∉ '/' :: rest)
    (hsub : segments <+ ('/' :: rest).splitOn '/')
    (hkept : ∀ seg ∈ segments, Kept toLowerCase false seg) :
    Reread toLowerCase false allowUnc ⟨'/' :: rest, none, false, true⟩ segments
      ('/' :: ['/'].intercalate segments) := by
  have hsplit : ∀ text : List Char, ('/' :: text).splitOn '/' = [] :: text.splitOn '/' := fun text => (by
    simp [splitOn_cons_eq_if_modifyHead])
  -- The empty piece in front of the leading slash is not among the segments.
  have hsub' : segments <+ rest.splitOn '/' := by
    rw [hsplit] at hsub
    cases hsub with
    | cons _ h => exact h
    | cons_cons _ h => exact absurd rfl (hkept [] mem_cons_self).ne_nil
  have hjoin : '/' :: ['/'].intercalate segments <+ '/' :: rest := by
    have := intercalate_sublist (c := '/') hsub'
    rw [intercalate_splitOn] at this
    exact this.cons_cons '/'
  have hsep : ∀ seg ∈ segments, '/' ∉ seg := fun seg hseg => not_mem_of_mem_splitOn (hsub'.subset hseg)
  refine ⟨cons_ne_nil _ _, (byteLength_le_of_sublist hjoin).trans hshort,
    fun c hc => hplain c (hjoin.subset hc), '/' :: ['/'].intercalate segments, ?_, ?_⟩
  · have hclean : ¬ ('/' :: ['/'].intercalate segments).contains '\\' = true := by
      rw [contains_iff_mem]
      exact fun hmem => hbackslash (hjoin.subset hmem)
    rw [readStart, if_neg Bool.false_ne_true, if_neg hclean]
    rfl
  · show collect _ _ (('/' :: ['/'].intercalate segments).splitOn '/') = _
    rw [hsplit, collect, if_pos (.inl rfl)]
    exact collect_join hkept hsep

/-- Two backslashes and kept segments are no device path. -/
theorem not_isDevicePath (hkept : ∀ seg ∈ segments, Kept toLowerCase true seg)
    (hsep : ∀ seg ∈ segments, '\\' ∉ seg) :
    isDevicePath ('\\' :: '\\' :: ['\\'].intercalate segments) = false := by
  cases segments with
  | nil => rfl
  | cons seg segments =>
      have hseg := hkept seg mem_cons_self
      obtain ⟨c, tail, rfl⟩ := exists_cons_of_ne_nil hseg.ne_nil
      obtain ⟨more, hmore⟩ : ∃ more, ['\\'].intercalate ((c :: tail) :: segments) = c :: (tail ++ more) := by
        cases segments with
        | nil => exact ⟨[], by simp⟩
        | cons other segments => simp_all
      rw [hmore]
      show ((c = '?' || c = '.') && ((tail ++ more).isEmpty || (tail ++ more).head? = some '\\')) = false
      by_cases hquestion : c = '?'
      · have hforbidden := hseg.not_forbidden c mem_cons_self
        subst hquestion
        exact absurd hforbidden (by decide)
      by_cases hdot : c = '.'
      · obtain ⟨t, tail, rfl⟩ := exists_cons_of_ne_nil
          (fun hnil : tail = [] => hseg.ne_dot (by rw [hnil, hdot]))
        have ht : t ≠ '\\' := fun heq =>
          hsep _ mem_cons_self (by simp [heq])
        simp [ht]
      · simp [hquestion, hdot]

variable {text : List Char}

theorem reread_unc (hshort : byteLength text ≤ MAX_PATH_UTF8) (hplain : ∀ c ∈ text, Plain c)
    (hn : normaliseSeparators text = '\\' :: '\\' :: rest) (hsub : segments <+ rest.splitOn '\\')
    (hkept : ∀ seg ∈ segments, Kept toLowerCase true seg) :
    Reread toLowerCase true true ⟨rest, none, true, true⟩ segments
      ('\\' :: '\\' :: ['\\'].intercalate segments) := by
  have hjoin : ['\\'].intercalate segments <+ rest := by
    have := intercalate_sublist (c := '\\') hsub
    rwa [intercalate_splitOn] at this
  have hall : '\\' :: '\\' :: ['\\'].intercalate segments <+ normaliseSeparators text := by
    rw [hn]
    exact (hjoin.cons_cons '\\').cons_cons '\\'
  have hsep : ∀ seg ∈ segments, '\\' ∉ seg := fun seg hseg => not_mem_of_mem_splitOn (hsub.subset hseg)
  have hslash : '/' ∉ '\\' :: '\\' :: ['\\'].intercalate segments :=
    fun hmem => slash_not_mem_normaliseSeparators text (hall.subset hmem)
  have hlength := (byteLength_le_of_sublist hall).trans_eq (byteLength_normaliseSeparators text)
  refine ⟨cons_ne_nil _ _, hlength.trans hshort,
    fun c hc => normaliseSeparators_plain hplain c (hall.subset hc), ['\\'].intercalate segments, ?_,
    collect_join hkept hsep⟩
  simp only [readStart, if_true, normaliseSeparators_eq hslash, not_isDevicePath hkept hsep]
  rfl

theorem reread_drive {d : Char} (hshort : byteLength text ≤ MAX_PATH_UTF8)
    (hplain : ∀ c ∈ text, Plain c) (hd : isAsciiLetter d = true)
    (hn : normaliseSeparators text = d :: ':' :: '\\' :: rest) (hsub : segments <+ rest.splitOn '\\')
    (hkept : ∀ seg ∈ segments, Kept toLowerCase true seg) :
    Reread toLowerCase true allowUnc ⟨rest, some d.toUpper, false, true⟩ segments
      (d.toUpper :: ':' :: '\\' :: ['\\'].intercalate segments) := by
  obtain ⟨hletter, hupper, hupperPlain, hupperLength, hupperSlash, hupperBackslash⟩ := toUpper_letter hd
  have hjoin : ['\\'].intercalate segments <+ rest := by
    have := intercalate_sublist (c := '\\') hsub
    rwa [intercalate_splitOn] at this
  have hall : ':' :: '\\' :: ['\\'].intercalate segments <+ ':' :: '\\' :: rest :=
    (hjoin.cons_cons '\\').cons_cons ':'
  have hmem : ∀ c ∈ ':' :: '\\' :: ['\\'].intercalate segments, c ∈ normaliseSeparators text := by
    intro c hc
    rw [hn]
    exact mem_cons_of_mem _ (hall.subset hc)
  have hsep : ∀ seg ∈ segments, '\\' ∉ seg := fun seg hseg => not_mem_of_mem_splitOn (hsub.subset hseg)
  have hslash : '/' ∉ d.toUpper :: ':' :: '\\' :: ['\\'].intercalate segments := by
    intro hin
    obtain heq | hin := mem_cons.mp hin
    · exact hupperSlash heq.symm
    · exact slash_not_mem_normaliseSeparators text (hmem _ hin)
  have hlength : byteLength (d.toUpper :: ':' :: '\\' :: ['\\'].intercalate segments) ≤ byteLength text := by
    have htext := byteLength_cons d (':' :: '\\' :: rest)
    have htail := byteLength_le_of_sublist hall
    rw [← byteLength_normaliseSeparators text, hn, byteLength_cons, hupperLength]
    omega
  refine ⟨cons_ne_nil _ _, hlength.trans hshort, ?_, ['\\'].intercalate segments, ?_,
    collect_join hkept hsep⟩
  · intro c hc
    obtain rfl | hc := mem_cons.mp hc
    · exact hupperPlain
    · exact normaliseSeparators_plain hplain c (hmem c hc)
  · have hdevice : isDevicePath (d.toUpper :: ':' :: '\\' :: ['\\'].intercalate segments) = false := by
      unfold isDevicePath
      split
      · rename_i heq
        simp at heq
      · rfl
    have hobject : isNtObjectPath (d.toUpper :: ':' :: '\\' :: ['\\'].intercalate segments) = false := by
      simp [isNtObjectPath, List.isPrefixOf]
    have hunc : ['\\', '\\'].isPrefixOf (d.toUpper :: ':' :: '\\' :: ['\\'].intercalate segments) = false := by
      simp [List.isPrefixOf]
    have hspec : isDriveSpec (d.toUpper :: ':' :: '\\' :: ['\\'].intercalate segments) = true := hletter
    simp only [readStart, if_true, normaliseSeparators_eq hslash, hdevice, hobject, hunc, hspec]
    simp [hupper]

end Shapes

theorem Shape.reread (h : Shape windows allowUnc text start) (hshort : byteLength text ≤ MAX_PATH_UTF8)
    (hplain : ∀ c ∈ text, Plain c) (hsub : segments <+ start.rest.splitOn (separator windows))
    (hkept : ∀ seg ∈ segments, Kept toLowerCase windows seg) :
    Reread toLowerCase windows allowUnc start segments
      (assembleText ⟨windows, start.unc, start.drive, segments, start.absolute⟩) := by
  cases h with
  | posix hbackslash => exact reread_posix hshort hplain hbackslash hsub hkept
  | unc hn => exact reread_unc hshort hplain hn hsub hkept
  | drive hd hn => exact reread_drive hshort hplain hd hn hsub hkept

/-- No character that separates segments is in the text the segments are cut from,
except at the cuts. -/
theorem Shape.not_separator (h : Shape windows allowUnc text start)
    (hseg : seg ∈ start.rest.splitOn (separator windows)) : ∀ c ∈ seg, isSep (!windows) c = false := by
  have hsep := not_mem_of_mem_splitOn hseg
  intro c hc
  have hne : c ≠ separator windows := fun heq => hsep (heq ▸ hc)
  have hfrom : ∀ n : List Char, start.rest <:+ n → '/' ∉ n → c ≠ '/' := by
    intro n hsuffix hslash heq
    have hpiece := intercalate_sublist (c := separator windows) (singleton_sublist.mpr hseg)
    rw [intercalate_splitOn, intercalate_singleton] at hpiece
    exact hslash (heq ▸ hsuffix.subset (hpiece.subset hc))
  cases h with
  | posix _ => simpa [isSep, separator] using hne
  | unc hn =>
      have hslash := hfrom _ ⟨['\\', '\\'], hn.symm⟩ (slash_not_mem_normaliseSeparators _)
      simp [isSep, hslash, show c ≠ '\\' from hne]
  | @drive _ _ _ d _ hn =>
      have hslash := hfrom _ ⟨[d, ':', '\\'], hn.symm⟩ (slash_not_mem_normaliseSeparators _)
      simp [isSep, hslash, show c ≠ '\\' from hne]

theorem Reread.checkSyntax (h : Reread toLowerCase (o.windows host) o.allowUnc start segments text)
    (habs : start.absolute = true) : checkSyntax toLowerCase host (some (Utf16.units text)) o =
      .ok ⟨o.windows host, start.unc, start.drive, segments, start.absolute⟩ := by
  obtain ⟨rest, hstart, hcollect⟩ := h.again
  refine checkSyntax_ok.mpr ⟨text, _, segments, checkText_units h.ne_nil h.short h.plain, hstart, hcollect, ?_, rfl⟩
  simp [habs]

section Accepted

variable {host : String} {o : SyntaxOptions} {input input' : Option (List UInt16)} {s s' : SyntaxOk}

theorem checkSyntax_assemble (h : checkSyntax toLowerCase host input o = .ok s) (habs : s.absolute = true) :
    checkSyntax toLowerCase host (some (assemble s)) o = .ok s := by
  obtain ⟨text, start, segments, htext, hstart, hcollect, -, rfl⟩ := checkSyntax_ok.mp h
  obtain ⟨hshort, hplain⟩ := checkText_ok htext
  obtain ⟨hsub, hkept⟩ := collect_ok hcollect
  exact ((readStart_shape hstart habs).reread hshort hplain hsub hkept).checkSyntax habs

theorem checkSyntax_segments (h : checkSyntax toLowerCase host input o = .ok s) (habs : s.absolute = true) :
    ∀ seg ∈ s.segments, seg ≠ [] ∧ seg ≠ ['.'] ∧ seg ≠ ['.', '.'] ∧ ∀ c ∈ seg, isSep (!s.windows) c = false := by
  obtain ⟨text, start, segments, htext, hstart, hcollect, -, rfl⟩ := checkSyntax_ok.mp h
  obtain ⟨hsub, hkept⟩ := collect_ok hcollect
  intro seg hseg
  have hkeptSeg := hkept seg hseg
  exact ⟨hkeptSeg.ne_nil, hkeptSeg.ne_dot, hkeptSeg.ne_dots,
    (readStart_shape hstart habs).not_separator (hsub.subset hseg)⟩

/-- Two accepted paths under one setting differ at most in their parts. -/
theorem checkSyntax_windows (h : checkSyntax toLowerCase host input o = .ok s) : s.windows = o.windows host := by
  obtain ⟨text, start, segments, -, -, -, -, rfl⟩ := checkSyntax_ok.mp h
  rfl

theorem assemble_congr (hwindows : s.windows = s'.windows)
    (h : s.drive = s'.drive ∧ s.unc = s'.unc ∧ s.segments = s'.segments) : assemble s = assemble s' := by
  obtain ⟨hdrive, hunc, hsegments⟩ := h
  unfold assemble assembleText
  rw [hwindows, hdrive, hunc, hsegments]

/-- Canonical path syntax. The form `assemble` gives to an accepted absolute
path is accepted under the same setting, with the same result; its segments are
proper names; and two accepted absolute paths have one form exactly when they
have the same parts. -/
theorem canonical_form (toLowerCase : List Char → List Char) (host : String) (o : SyntaxOptions)
    (input : Option (List UInt16)) (s : SyntaxOk)
    (h : checkSyntax toLowerCase host input o = .ok s) (habs : s.absolute = true) :
    checkSyntax toLowerCase host (some (assemble s)) o = .ok s ∧
      (∀ seg ∈ s.segments, seg ≠ [] ∧ seg ≠ ['.'] ∧ seg ≠ ['.', '.'] ∧
        ∀ c ∈ seg, isSep (!s.windows) c = false) ∧
      ∀ input' s', checkSyntax toLowerCase host input' o = .ok s' → s'.absolute = true →
        (assemble s = assemble s' ↔ s.drive = s'.drive ∧ s.unc = s'.unc ∧ s.segments = s'.segments) := by
  refine ⟨checkSyntax_assemble h habs, checkSyntax_segments h habs, fun input' s' h' habs' => ⟨fun heq => ?_, ?_⟩⟩
  · have hagain := checkSyntax_assemble h habs
    rw [heq, checkSyntax_assemble h' habs'] at hagain
    cases hagain
    exact ⟨rfl, rfl, rfl⟩
  · exact assemble_congr ((checkSyntax_windows h).trans (checkSyntax_windows h').symm)

theorem canonical_form_sample :
    let s : SyntaxOk := ⟨true, false, some 'C', ["a".toList, "b c".toList], true⟩
    checkSyntax (List.map Char.toLower) "win32" (some (assemble s)) {} = .ok s :=
  (canonical_form (List.map Char.toLower) "win32" {} (some (Utf16.units "c:/a/.//b c/".toList)) _
    (by decide +kernel) rfl).1

end Accepted

end Plur1bus.Policy.Paths
