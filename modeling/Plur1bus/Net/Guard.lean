import Plur1bus.Net.Reading
import Plur1bus.Net.Web

/-!
The guard's decision: a host is a literal, a name of this machine, or a name to resolve, and in
each case every address that could be used has to be permitted. The address that is handed out is
written anew, in one spelling, and reads back as the address that was judged.
-/

namespace Plur1bus.Net.Web

open Program List Bool

structure ResolvedAddress where
  address : List Char
  family : Family
  deriving DecidableEq, Repr

structure AddressPolicy where
  allow : List Cidr
  /-- Exclusions win over an allowance. -/
  deny : List Cidr := []
  forHost : List Char → List Cidr := fun _ => []

inductive FailureKind
  | privateAddress
  | invalidUrl
  | notFound
  deriving DecidableEq, Repr

structure WebFailure where
  kind : FailureKind
  message : String
  deriving DecidableEq, Repr

def formatAddress (a : ParsedAddress) : List Char :=
  let c := canonical a
  if c.family = .v4 then ['.'].intercalate (c.bytes.map (Nat.toDigits 10))
  else [':'].intercalate ((List.range 8).map fun i => Nat.toDigits 16 (word c.bytes (2 * i)))

def admitAddress (a : ParsedAddress) (policy : AddressPolicy) (host : List Char) : Except WebFailure ResolvedAddress :=
  let c := canonical a
  if policy.deny.any (inCidr c) then .error ⟨.privateAddress, "address is excluded"⟩
  else
    let verdict := classifyAddress c
    if !verdict.isPublic && !policy.allow.any (inCidr c) && !(policy.forHost host).any (inCidr c) then
      .error ⟨.privateAddress, String.ofList host ++ " resolves to a non-public address (" ++ verdict.reason ++ ")"⟩
    else .ok ⟨formatAddress c, c.family⟩

/-- What is used and not part of this: the language's lower case and its spelling of a string. -/
structure Text where
  toLowerCase : List Char → List Char
  stringify : List Char → String

/-- The name that is looked up for a host. -/
def hostName (text : Text) (host : List Char) : List Char :=
  let name := text.toLowerCase (trimmed host)
  let name := if bracketed name then inner name else name
  if name.getLast? = some '.' then name.dropLast else name

def isHostName (name : List Char) : Bool :=
  name ≠ [] && unitLength (String.ofList name) ≤ 253 && name.all fun c => !(isWhite c || ['/', '\\', '@'].contains c)

def isLocal (name : List Char) : Bool := name = "localhost".toList || ".localhost".toList.isSuffixOf name

/-- A resolver answers every address of a name, or fails with the code of its error. -/
abbrev Resolver := List Char → Except (Option String) (List ResolvedAddress)

def admitAnswer (policy : AddressPolicy) (name : List Char) (r : ResolvedAddress) : Except WebFailure ResolvedAddress :=
  match parseAddress r.address false with
  | none => .error ⟨.privateAddress, String.ofList name ++ " resolved to an unparseable address"⟩
  | some parsed => admitAddress parsed policy name

def resolveGuarded (text : Text) (host : List Char) (resolver : Resolver) (policy : AddressPolicy) :
    Except WebFailure ResolvedAddress :=
  let name := hostName text host
  if !isHostName name then .error ⟨.invalidUrl, "invalid host " ++ text.stringify host⟩
  else
    match parseAddress name false with
    | some literal => admitAddress literal policy name
    | none =>
      if isLocal name then admitAddress ⟨.v4, [127, 0, 0, 1]⟩ policy name
      else
        match resolver name with
        | .error code =>
          .error ⟨.notFound, "could not resolve " ++ String.ofList name ++ ": " ++ code.getD "lookup failed"⟩
        | .ok [] => .error ⟨.notFound, "could not resolve " ++ String.ofList name ++ ": no addresses"⟩
        | .ok answers => (answers.mapM (admitAnswer policy name)).map fun admitted => admitted.headD ⟨[], .v4⟩

/-! ### Reading back -/

theorem not_isWhite_of_v6Char {c : Char} (h : v6Char c = true) : isWhite c = false := by
  have h0 : '0'.toNat = 48 := rfl
  have h9 : '9'.toNat = 57 := rfl
  have ha : 'a'.toNat = 97 := rfl
  have hf : 'f'.toNat = 102 := rfl
  have hA : 'A'.toNat = 65 := rfl
  have hF : 'F'.toNat = 70 := rfl
  have hrange : (46 ≤ c.toNat ∧ c.toNat ≤ 102) := by
    simp only [v6Char, isHex, or_eq_true, and_eq_true, decide_eq_true_eq, Char.le_def,
      UInt32.le_iff_toNat_le, Char.toNat_val] at h
    obtain (h | rfl) | rfl := h
    · omega
    · decide
    · decide
  have hnone : ∀ n < 103, 46 ≤ n → ((9 ≤ n && n ≤ 13) || (0x2000 ≤ n && n ≤ 0x200a) ||
      [0x20, 0xa0, 0x1680, 0x2028, 0x2029, 0x202f, 0x205f, 0x3000, 0xfeff].contains n) = false := by
    decide
  exact hnone c.toNat (by omega) hrange.1

variable {s : List Char}

theorem trimmed_eq (h : ∀ c ∈ s, v6Char c = true) : trimmed s = s := by
  have hdrop : ∀ l : List Char, (∀ c ∈ l, v6Char c = true) → l.dropWhile isWhite = l := by
    intro l hl
    cases l with
    | nil => rfl
    | cons c l => rw [dropWhile_cons_of_neg (by rw [not_isWhite_of_v6Char (hl c mem_cons_self)]; decide)]
  rw [trimmed, hdrop s h, hdrop _ (fun c hc => h c (mem_reverse.mp hc)), reverse_reverse]

theorem not_bracketed (h : ∀ c ∈ s, v6Char c = true) : bracketed s = false := by
  rw [eq_false_iff]
  intro hb
  simp only [bracketed, and_eq_true, decide_eq_true_eq] at hb
  have hno := h _ (mem_of_mem_head? hb.1)
  revert hno
  decide

theorem parseAddress_eq (h : ∀ c ∈ s, v6Char c = true) (hne : s ≠ []) (strict : Bool) :
    parseAddress s strict =
      if ':' ∈ s then (parseV6 s).map (⟨.v6, ·⟩) else (parseV4 s strict).map (⟨.v4, ·⟩) := by
  unfold parseAddress
  rw [trimmed_eq h]
  dsimp only
  rw [not_bracketed h, if_neg Bool.false_ne_true, if_neg hne]

theorem parseV4Part_toDigits {b : ℕ} (h : b < 256) : parseV4Part (Nat.toDigits 10 b) = some b := by
  have hall : ∀ b < 256, parseV4Part (Nat.toDigits 10 b) = some b := by decide +kernel
  exact hall b h

theorem isHex_spec {c : Char} (h : isHex c = true) : v6Char c = true ∧ c ≠ ':' ∧ c ≠ '.' := by
  refine ⟨?_, ?_, ?_⟩
  · rw [v6Char, h]
    rfl
  · rintro rfl
    revert h
    decide
  · rintro rfl
    revert h
    decide

theorem parseAddress_quad {a b c d : ℕ} (ha : a < 256) (hb : b < 256) (hc : c < 256) (hd : d < 256) :
    parseAddress (['.'].intercalate ([a, b, c, d].map (Nat.toDigits 10))) false = some ⟨.v4, [a, b, c, d]⟩ := by
  have hpart : ∀ part ∈ [a, b, c, d].map (Nat.toDigits 10), ∀ x ∈ part, isHex x = true := by
    intro part hpart x hx
    obtain ⟨n, -, rfl⟩ := mem_map.mp hpart
    exact isHex_of_mem_toDigits (by omega) (by omega) hx
  have hchars : ∀ x ∈ ['.'].intercalate ([a, b, c, d].map (Nat.toDigits 10)), v6Char x = true ∧ x ≠ ':' := by
    intro x hx
    obtain rfl | ⟨part, hmem, hx⟩ := mem_intercalate hx
    · decide
    · obtain ⟨hv6, hcolon, -⟩ := isHex_spec (hpart part hmem x hx)
      exact ⟨hv6, hcolon⟩
  have hsplit : (['.'].intercalate ([a, b, c, d].map (Nat.toDigits 10))).splitOn '.' =
      [a, b, c, d].map (Nat.toDigits 10) :=
    splitOn_intercalate '.' (fun part hmem hdot => (isHex_spec (hpart part hmem '.' hdot)).2.2 rfl)
      (cons_ne_nil _ _)
  have hne : ['.'].intercalate ([a, b, c, d].map (Nat.toDigits 10)) ≠ [] := by simp_all
  rw [parseAddress_eq (fun x hx => (hchars x hx).1) hne, if_neg (fun hcolon => (hchars ':' hcolon).2 rfl)]
  have hread : ([a, b, c, d].map (Nat.toDigits 10)).mapM parseV4Part = some [a, b, c, d] := by
    simp only [map_cons, map_nil, mapM_cons, mapM_nil, parseV4Part_toDigits ha,
      parseV4Part_toDigits hb, parseV4Part_toDigits hc, parseV4Part_toDigits hd]
    rfl
  have hbytes : v4Bytes [a, b, c, d] = some [a, b, c, d] := by
    have hlast : ¬d ≥ 256 := by omega
    have hany : ([a, b, c].any (· > 255)) = false := by grind
    unfold v4Bytes
    show (if d ≥ 256 ^ 1 then none else if [a, b, c].any (· > 255) = true then none
      else some ([a, b, c] ++ [d / 1 % 256])) = _
    rw [if_neg (by omega), hany, if_neg Bool.false_ne_true, Nat.div_one, Nat.mod_eq_of_lt hd]
    rfl
  unfold parseV4
  rw [hsplit]
  dsimp only
  rw [hread, Option.bind_some, hbytes]
  rfl

variable {bytes : List ℕ}

theorem v6Bytes_words (hlen : bytes.length = 16) (h : ∀ b ∈ bytes, b < 256) :
    v6Bytes ((List.range 8).map fun i => word bytes (2 * i)) = bytes := by
  have hpair : ∀ i, (word bytes i / 256 = bytes.getD i 0) ∧ (word bytes i % 256 = bytes.getD (i + 1) 0) := by
    intro i
    have hlt : bytes.getD (i + 1) 0 < 256 := by
      rw [getD_eq_getElem?_getD]
      cases hi : bytes[i + 1]? with
      | none => exact Nat.zero_lt_succ _
      | some b => exact h b (mem_of_getElem? hi)
    unfold word
    omega
  have hall : bytes = (List.range 16).map fun i => bytes.getD i 0 := by
    apply ext_getElem
    · rw [hlen, length_map, length_range]
    · simp_all
  calc v6Bytes ((List.range 8).map fun i => word bytes (2 * i))
      = (List.range 8).flatMap fun i => [bytes.getD (2 * i) 0, bytes.getD (2 * i + 1) 0] := by
        simp only [v6Bytes, flatMap_map, hpair]
    _ = (List.range 16).map fun i => bytes.getD i 0 := rfl
    _ = bytes := hall.symm

theorem isGroup_toDigits {n : ℕ} (h : n < 65536) : isGroup (Nat.toDigits 16 n) = true := by
  have hpos := @Nat.length_toDigits_pos 16 n
  have hmax : (Nat.toDigits 16 n).length ≤ 4 := (Nat.length_toDigits_le_iff (by omega) (by omega)).mpr (by omega)
  simp only [isGroup, and_eq_true, decide_eq_true_eq, List.all_eq_true]
  exact ⟨⟨hpos, hmax⟩, fun c hc => isHex_of_mem_toDigits (by omega) (by omega) hc⟩

theorem parseAddress_groups (hlen : bytes.length = 16) (h : ∀ b ∈ bytes, b < 256) :
    parseAddress ([':'].intercalate ((List.range 8).map fun i => Nat.toDigits 16 (word bytes (2 * i)))) false =
      some ⟨.v6, bytes⟩ := by
  have hword : ∀ i, word bytes i < 65536 := by
    intro i
    have hbyte : ∀ j, bytes.getD j 0 < 256 := by
      intro j
      rw [getD_eq_getElem?_getD]
      cases hj : bytes[j]? with
      | none => exact Nat.zero_lt_succ _
      | some b => exact h b (mem_of_getElem? hj)
    have h0 := hbyte i
    have h1 := hbyte (i + 1)
    unfold word
    omega
  set gs := (List.range 8).map fun i => Nat.toDigits 16 (word bytes (2 * i)) with hgs
  have hgroups : ∀ g ∈ gs, isGroup g = true := by
    intro g hg
    obtain ⟨i, -, rfl⟩ := mem_map.mp hg
    exact isGroup_toDigits (hword _)
  have hchars : ∀ c ∈ joined gs, v6Char c = true ∧ c ≠ '.' := by
    intro c hc
    obtain rfl | ⟨g, hg, hc⟩ := mem_intercalate hc
    · decide
    · obtain ⟨i, -, rfl⟩ := mem_map.mp hg
      obtain ⟨hv6, -, hdot⟩ := isHex_spec (isHex_of_mem_toDigits (by omega) (by omega) hc)
      exact ⟨hv6, hdot⟩
  have hcolon : ':' ∈ joined gs := by
    show ':' ∈ [':'].intercalate (_ :: _ :: _)
    rw [intercalate_cons_cons]
    exact mem_append_left _ (mem_append_right _ mem_cons_self)
  have hne := ne_nil_of_mem hcolon
  have hnodot : '.' ∉ afterColon (joined gs) := by
    intro hdot
    have hmem := takeWhile_subset _ (mem_reverse.mp hdot)
    exact (hchars '.' (mem_reverse.mp hmem)).2 rfl
  have hgood : ¬(joined gs = [] ∨ (joined gs).all v6Char = false ∨ ':' ∉ joined gs) := by simp_all
  have hread : gs.map (parseInt 16) = (List.range 8).map fun i => word bytes (2 * i) := by
    rw [hgs, List.map_map]
    apply map_congr_left
    intro i _
    exact parseInt_toDigits (by omega) (by omega) _
  change parseAddress (joined gs) false = _
  rw [parseAddress_eq (fun c hc => (hchars c hc).1) hne, if_pos hcolon, parseV6, parseV6With, if_neg hgood,
    if_neg hnodot, groupsOf_joined hgroups, Option.bind_some, append_nil, hread, toBytes,
    if_neg (by rw [length_map, length_range]; exact fun hno => hno rfl), v6Bytes_words hlen h]
  rfl

variable {a : ParsedAddress}

/-- The address that is handed out is the one that was judged. -/
theorem parseAddress_formatAddress (h : a.Valid) :
    parseAddress (formatAddress a) false = some (canonical a) := by
  have hvalid := canonical_valid h
  unfold formatAddress
  generalize canonical a = c at hvalid ⊢
  obtain ⟨family, bytes⟩ := c
  have hlen := hvalid.length
  have hbytes := hvalid.bytes
  dsimp only at hlen hbytes ⊢
  cases family with
  | v4 =>
    rw [if_pos rfl]
    obtain ⟨b₀, b₁, b₂, b₃, rfl⟩ := length_eq_four.mp hlen
    exact parseAddress_quad (hbytes _ (by simp)) (hbytes _ (by simp)) (hbytes _ (by simp)) (hbytes _ (by simp))
  | v6 =>
    rw [if_neg (fun hno => (by cases hno))]
    exact parseAddress_groups hlen hbytes

theorem parseAddress_valid {strict : Bool} (h : parseAddress s strict = some a) : a.Valid := by
  unfold parseAddress at h
  dsimp only at h
  generalize (if bracketed (trimmed s) = true then inner (trimmed s) else trimmed s) = t at h
  split at h
  · cases h
  · split at h
    · obtain ⟨bytes, hbytes, rfl⟩ := Option.map_eq_some_iff.mp h
      obtain ⟨groups, hgroups, hread⟩ := parseV6With_cases hbytes
      unfold toBytes at hread
      split at hread
      · cases hread
      next hlen =>
        cases hread
        exact v6Bytes_valid (Decidable.of_not_not hlen) hgroups
    · obtain ⟨bytes, hbytes, rfl⟩ := Option.map_eq_some_iff.mp h
      exact parseV4_valid hbytes

/-! ### What is handed out -/

/-- Not excluded, and public or allowed. -/
structure Permitted (policy : AddressPolicy) (host : List Char) (c : ParsedAddress) : Prop where
  notDenied : ∀ cidr ∈ policy.deny, inCidr c cidr = false
  reason : (classifyAddress c).isPublic = true ∨ (∃ cidr ∈ policy.allow, inCidr c cidr = true) ∨
    ∃ cidr ∈ policy.forHost host, inCidr c cidr = true

variable {policy : AddressPolicy} {host : List Char} {r : ResolvedAddress}

theorem admitAddress_spec (ha : a.Valid) (h : admitAddress a policy host = .ok r) :
    Permitted policy host (canonical a) ∧ parseAddress r.address false = some (canonical a) := by
  unfold admitAddress at h
  dsimp only at h
  split at h
  · cases h
  next hdeny =>
    split at h
    · cases h
    next hallow =>
      cases h
      refine ⟨⟨?_, ?_⟩, ?_⟩
      · simp_all
      · grind
      · rw [parseAddress_formatAddress (canonical_valid ha), canonical_canonical]

/-- Every answer is permitted, and each is handed out as the address that it is. -/
theorem admitAnswers_spec {name : List Char} {answers admitted : List ResolvedAddress}
    (h : answers.mapM (admitAnswer policy name) = .ok admitted) :
    (∀ answer ∈ answers, ∃ a, parseAddress answer.address false = some a ∧ Permitted policy name (canonical a)) ∧
    List.Forall₂ (fun answer r => ∃ a, parseAddress answer.address false = some a ∧
      parseAddress r.address false = some (canonical a)) answers admitted := by
  induction answers generalizing admitted with
  | nil =>
    cases h
    exact ⟨fun _ hanswer => absurd hanswer not_mem_nil, .nil⟩
  | cons answer answers ih =>
    rw [mapM_cons] at h
    cases hfirst : admitAnswer policy name answer with
    | error e =>
      rw [hfirst] at h
      cases h
    | ok r =>
      rw [hfirst] at h
      cases hrest : answers.mapM (admitAnswer policy name) with
      | error e =>
        rw [hrest] at h
        cases h
      | ok rs =>
        rw [hrest] at h
        cases h
        obtain ⟨hall, hread⟩ := ih hrest
        unfold admitAnswer at hfirst
        split at hfirst
        · cases hfirst
        next a ha =>
          obtain ⟨hpermitted, hr⟩ := admitAddress_spec (parseAddress_valid ha) hfirst
          refine ⟨?_, .cons ⟨a, ha, hr⟩ hread⟩
          intro x hx
          obtain rfl | hx := mem_cons.mp hx
          · exact ⟨a, ha, hpermitted⟩
          · exact hall x hx

/-- The address that a host stands for: what it spells, this machine, or the first answer of the
resolver, all of whose answers are permitted. -/
inductive StandsFor (resolver : Resolver) (policy : AddressPolicy) (name : List Char) : ParsedAddress → Prop
  | literal (a : ParsedAddress) (h : parseAddress name false = some a) : StandsFor resolver policy name (canonical a)
  | machine (hno : parseAddress name false = none) (h : isLocal name = true) :
    StandsFor resolver policy name ⟨.v4, [127, 0, 0, 1]⟩
  | answer (first : ResolvedAddress) (rest : List ResolvedAddress) (a : ParsedAddress)
    (hno : parseAddress name false = none) (hlocal : isLocal name = false)
    (h : resolver name = .ok (first :: rest)) (ha : parseAddress first.address false = some a)
    (hall : ∀ answer ∈ first :: rest, ∃ b, parseAddress answer.address false = some b ∧
      Permitted policy name (canonical b)) : StandsFor resolver policy name (canonical a)

theorem resolveGuarded_spec {text : Text} {resolver : Resolver}
    (h : resolveGuarded text host resolver policy = .ok r) :
    ∃ c, parseAddress r.address false = some c ∧ Permitted policy (hostName text host) c ∧
      StandsFor resolver policy (hostName text host) c := by
  unfold resolveGuarded at h
  dsimp only at h
  split at h
  · cases h
  · split at h
    next a ha =>
      obtain ⟨hpermitted, hread⟩ := admitAddress_spec (parseAddress_valid ha) h
      exact ⟨canonical a, hread, hpermitted, .literal a ha⟩
    next hno =>
      split at h
      next hlocal =>
        have hvalid : ParsedAddress.Valid ⟨.v4, [127, 0, 0, 1]⟩ := ⟨rfl, by decide⟩
        obtain ⟨hpermitted, hread⟩ := admitAddress_spec hvalid h
        exact ⟨⟨.v4, [127, 0, 0, 1]⟩, hread, hpermitted, .machine hno hlocal⟩
      next hlocal =>
        split at h
        · cases h
        · cases h
        next answers hnil hanswers =>
          cases hadmitted : answers.mapM (admitAnswer policy (hostName text host)) with
          | error e =>
            rw [hadmitted] at h
            cases h
          | ok admitted =>
            rw [hadmitted] at h
            obtain ⟨hall, hreads⟩ := admitAnswers_spec hadmitted
            cases hreads with
            | nil => exact absurd rfl hnil
            | @cons first r' rest admitted' hfirst hrest =>
              cases h
              obtain ⟨a, ha, hread⟩ := hfirst
              obtain ⟨b, hb, hpermitted⟩ := hall first mem_cons_self
              cases ha.symm.trans hb
              exact ⟨canonical a, hread, hpermitted,
                .answer first rest a hno (eq_false_iff.mpr hlocal) hanswers ha hall⟩

/-! ### Addresses that carry an IPv4 address -/

/-- The IPv4 address that an IPv6 address carries: mapped, behind NAT64, or of 6to4. -/
inductive Carries (bytes : List ℕ) : List ℕ → Prop
  | mapped (h : isV4Mapped bytes = true) : Carries bytes (bytes.drop 12)
  | nat64 (h : isNat64 bytes = true) : Carries bytes (bytes.drop 12)
  | sixToFour (h : is6to4 bytes = true) : Carries bytes ((bytes.drop 2).take 4)

theorem word_of_isV4Mapped (h : isV4Mapped bytes = true) : word bytes 0 = 0 := by
  simp only [isV4Mapped, and_eq_true, List.all_eq_true, decide_eq_true_eq] at h
  have hzero : ∀ i < 10, bytes.getD i 0 = 0 := by
    intro i hi
    rw [getD_eq_getElem?_getD]
    cases hb : bytes[i]? with
    | none => rfl
    | some b =>
      rw [← List.getElem?_take_of_lt hi] at hb
      exact h.1.1 b (mem_of_getElem? hb)
  rw [word, hzero 0 (by omega), hzero 1 (by omega)]

theorem classifyAddress_v4 (bytes : List ℕ) : classifyAddress ⟨.v4, bytes⟩ = classifyV4 bytes := rfl

theorem classifyAddress_carries {v4 : List ℕ} (h : Carries bytes v4) :
    classifyAddress ⟨.v6, bytes⟩ = classifyAddress ⟨.v4, v4⟩ := by
  rw [classifyAddress_v4]
  cases h with
  | mapped h =>
    have hcan : canonical ⟨.v6, bytes⟩ = ⟨.v4, bytes.drop 12⟩ := if_pos ⟨rfl, h⟩
    rw [classifyAddress, classifyAddressWith, hcan]
    rfl
  | nat64 h =>
    have hword : word bytes 0 = 0x64 := by
      simp only [isNat64, and_eq_true, decide_eq_true_eq] at h
      exact h.1.1
    have hcan : canonical ⟨.v6, bytes⟩ = ⟨.v6, bytes⟩ := by
      refine if_neg fun hmapped => ?_
      rw [word_of_isV4Mapped hmapped.2] at hword
      cases hword
    rw [classifyAddress, classifyAddressWith, hcan]
    dsimp only
    rw [if_neg (fun hno => (by cases hno)), if_pos h]
    rfl
  | sixToFour h =>
    have hword : word bytes 0 = 0x2002 := by
      simpa only [is6to4, decide_eq_true_eq] using h
    have hcan : canonical ⟨.v6, bytes⟩ = ⟨.v6, bytes⟩ := by
      refine if_neg fun hmapped => ?_
      rw [word_of_isV4Mapped hmapped.2] at hword
      cases hword
    have hnat : ¬isNat64 bytes = true := by
      intro hnat
      simp only [isNat64, and_eq_true, decide_eq_true_eq] at hnat
      have hclash := hword.symm.trans hnat.1.1
      cases hclash
    rw [classifyAddress, classifyAddressWith, hcan]
    dsimp only
    rw [if_neg (fun hno => (by cases hno)), if_neg hnat, if_pos h]
    rfl

/-- The guard hands out permitted addresses only, whatever the host, the resolver and the policy. -/
theorem guard_hands_out_permitted (text : Text) (host : List Char) (resolver : Resolver) (policy : AddressPolicy) :
    (∀ r, resolveGuarded text host resolver policy = .ok r →
      ∃ c, parseAddress r.address false = some c ∧ Permitted policy (hostName text host) c ∧
        StandsFor resolver policy (hostName text host) c) ∧
    (∀ answers answer, parseAddress (hostName text host) false = none → isLocal (hostName text host) = false →
      resolver (hostName text host) = .ok answers → answer ∈ answers →
      (∀ a, parseAddress answer.address false = some a → ¬Permitted policy (hostName text host) (canonical a)) →
      ∀ r, resolveGuarded text host resolver policy ≠ .ok r) ∧
    (∀ bytes v4, Carries bytes v4 →
      ((classifyAddress ⟨.v6, bytes⟩).isPublic = true ↔ (classifyAddress ⟨.v4, v4⟩).isPublic = true)) := by
  refine ⟨fun r h => resolveGuarded_spec h, ?_, ?_⟩
  · intro answers answer hno hlocal hanswers hmem hbad r h
    obtain ⟨c, -, -, hstands⟩ := resolveGuarded_spec h
    cases hstands with
    | literal a ha =>
      rw [hno] at ha
      cases ha
    | machine _ hmachine =>
      rw [hlocal] at hmachine
      cases hmachine
    | answer first rest a _ _ hresolved ha hall => grind
  · intro bytes v4 h
    rw [classifyAddress_carries h]

end Plur1bus.Net.Web
