import Plur1bus.Net.Reading
import Plur1bus.Net.Web

/-!
The addresses of the resolver of OAuth metadata, beside those of the web tools. The tables of
the two modules are the same, so that they give one verdict on an address. They do not read the
same texts: before a dotted tail the test of `::` is the other way round, and an IPv4 address in
brackets is read by the web tools alone.
-/

namespace Plur1bus.Net

open Program List Option

namespace OAuth

def cut (head : List Char) : List Char := if [':', ':'].isSuffixOf head then head.dropLast else head

def toBytes (groups : List ℕ) : Option (List ℕ) :=
  if groups.length ≠ 8 then none
  else if groups.any (· > 0xffff) then none
  else some (v6Bytes groups)

def parseV6 (s : List Char) : Option (List ℕ) := parseV6With cut toBytes s

def parseAddress (raw : List Char) (strict : Bool) : Option ParsedAddress :=
  let s := trimmed raw
  if bracketed s then (parseV6 (inner s)).map (⟨.v6, ·⟩)
  else if ':' ∈ s then (parseV6 s).map (⟨.v6, ·⟩)
  else (parseV4 s strict).map (⟨.v4, ·⟩)

def parseCidr (input : List Char) : Option Cidr := parseCidrWith parseAddress input

def v4Table : List (String × String) :=
  [("0.0.0.0/8", "unspecified"), ("10.0.0.0/8", "private"), ("100.64.0.0/10", "shared-address-space"),
    ("127.0.0.0/8", "loopback"), ("169.254.0.0/16", "link-local"), ("168.63.129.16/32", "cloud-metadata"),
    ("172.16.0.0/12", "private"), ("192.0.0.0/24", "reserved"), ("192.0.2.0/24", "reserved"),
    ("192.88.99.0/24", "reserved"), ("192.168.0.0/16", "private"), ("198.18.0.0/15", "reserved"),
    ("198.51.100.0/24", "reserved"), ("203.0.113.0/24", "reserved"), ("224.0.0.0/4", "multicast"),
    ("240.0.0.0/4", "reserved")]

def v6Table : List (String × String) :=
  [("::/128", "unspecified"), ("::1/128", "loopback"), ("::/96", "reserved"), ("64:ff9b:1::/48", "reserved"),
    ("100::/64", "reserved"), ("2001::/23", "reserved"), ("2001:db8::/32", "reserved"), ("3fff::/20", "reserved"),
    ("fc00::/7", "private"), ("fe80::/10", "link-local"), ("fec0::/10", "reserved"), ("ff00::/8", "multicast")]

def v4Ranges : List (Cidr × String) := register parseCidr v4Table

def v6Ranges : List (Cidr × String) := register parseCidr v6Table

def classifyAddress (input : ParsedAddress) : Verdict := classifyAddressWith v4Ranges v6Ranges input

def isPublicIp (raw : List Char) : Bool :=
  match parseAddress raw false with
  | none => false
  | some parsed => (classifyAddress parsed).isPublic

end OAuth

/-- The two registered the same ranges. -/
theorem classifyAddress_eq (a : ParsedAddress) : OAuth.classifyAddress a = Web.classifyAddress a := by
  have hv4 : OAuth.v4Ranges = Web.v4Ranges := by decide +kernel
  have hv6 : OAuth.v6Ranges = Web.v6Ranges := by decide +kernel
  rw [OAuth.classifyAddress, Web.classifyAddress, hv4, hv6]

/-! ### Dotted tails -/

variable {n : ℕ} {x : List Char}

theorem leading_concat (h : Leading n (x ++ [':'])) : ∃ y, x = y ++ [':'] ∧ y.getLast? ≠ some ':' := by
  obtain ⟨as, has, ⟨hx, -⟩ | ⟨bs, hbs, hx, -⟩⟩ := h
  · -- Groups do not end with a colon.
    refine absurd ?_ (tight_joined has).last
    rw [← hx, List.getLast?_concat]
  · by_cases hnil : bs = []
    · subst hnil
      refine ⟨joined as, ?_, (tight_joined has).last⟩
      have hcut : x ++ [':'] = (joined as ++ [':']) ++ [':'] := by
        rw [hx, append_assoc, append_assoc]
        rfl
      exact append_cancel_right hcut
    · refine absurd ?_ (tight_joined hbs).last
      have hlast := congrArg List.getLast? hx
      rw [List.getLast?_concat, List.getLast?_append_of_ne_nil _ (joined_ne_nil hbs hnil)] at hlast
      exact hlast.symm

/-- A text and the text with one more colon are not both the groups of an address. -/
theorem leading_exclusive (h : Leading n x) : ¬Leading n (x ++ [':']) := by
  intro hcolon
  obtain ⟨y, rfl, hy⟩ := leading_concat hcolon
  obtain ⟨z, rfl, -⟩ := leading_concat h
  exact hy List.getLast?_concat

theorem groupsOf_toBytes {head : List Char} {tail : List ℕ} :
    ((groupsOf head tail).bind Web.toBytes).isSome = true ↔ Leading tail.length head := by
  constructor
  · intro h
    obtain ⟨bytes, hbytes⟩ := isSome_iff_exists.mp h
    obtain ⟨ns, hns, hbytes⟩ := bind_eq_some_iff.mp hbytes
    have hlen : ns.length = 8 := by
      unfold Web.toBytes at hbytes
      split at hbytes
      · cases hbytes
      next hlen => exact Decidable.of_not_not hlen
    obtain ⟨as, has, ⟨hhead, rfl⟩ | ⟨bs, hbs, hhead, hfew, -⟩⟩ := groupsOf_cases hns
    · rw [length_append, length_map] at hlen
      exact ⟨as, has, .inl ⟨hhead, hlen⟩⟩
    · exact ⟨as, has, .inr ⟨bs, hbs, hhead, hfew⟩⟩
  · rintro ⟨as, has, ⟨rfl, hlen⟩ | ⟨bs, hbs, rfl, hfew⟩⟩
    · have hlen' : (as.map (parseInt 16) ++ tail).length = 8 := by
        rw [length_append, length_map]
        exact hlen
      rw [groupsOf_joined has, bind_some, Web.toBytes, if_neg (fun h => h hlen')]
      rfl
    · rw [groupsOf_zeros has hbs tail hfew, bind_some, Web.toBytes, if_neg]
      · rfl
      · grind

variable {tail : List ℕ}

/-- Two texts of which one at most is read are read alike when none is. -/
theorem read_eq_iff {p q : List Char} (hexcl : ¬(Leading tail.length p ∧ Leading tail.length q)) :
    (groupsOf p tail).bind Web.toBytes = (groupsOf q tail).bind Web.toBytes ↔
      ¬(Leading tail.length p ∨ Leading tail.length q) := by
  have hp := @groupsOf_toBytes p tail
  have hq := @groupsOf_toBytes q tail
  constructor
  · grind
  · intro hno
    have hpnone : (groupsOf p tail).bind Web.toBytes = none := by
      rw [← not_isSome_iff_eq_none, hp]
      exact fun h => hno (.inl h)
    have hqnone : (groupsOf q tail).bind Web.toBytes = none := by
      rw [← not_isSome_iff_eq_none, hq]
      exact fun h => hno (.inr h)
    rw [hpnone, hqnone]

theorem toBytes_eq {groups : List ℕ} (h : ∀ n ∈ groups, n < 65536) : OAuth.toBytes groups = Web.toBytes groups := by
  grind [OAuth.toBytes, Web.toBytes]

theorem bind_toBytes_eq {head : List Char} (htail : ∀ n ∈ tail, n < 65536) :
    (groupsOf head tail).bind OAuth.toBytes = (groupsOf head tail).bind Web.toBytes := by
  cases h : groupsOf head tail with
  | none => rfl
  | some groups => exact toBytes_eq (groupsOf_lt htail h)

variable {v : List Char}

theorem colon_split (hv : ':' ∉ v) :
    afterColon (x ++ ':' :: v) = v ∧ throughColon (x ++ ':' :: v) = x ++ [':'] := by
  have hrev : (x ++ ':' :: v).reverse = v.reverse ++ ':' :: x.reverse := by
    rw [reverse_append, reverse_cons, append_assoc]
    rfl
  have hpos : ∀ c ∈ v.reverse, decide (c ≠ ':') = true := by
    intro c hc
    rw [decide_eq_true_eq]
    rintro rfl
    exact hv (mem_reverse.mp hc)
  constructor
  · rw [afterColon, hrev, takeWhile_append_of_pos hpos, takeWhile_cons_of_neg (by decide), append_nil,
      reverse_reverse]
  · rw [throughColon, hrev, dropWhile_append_of_pos hpos, dropWhile_cons_of_neg (by decide),
      reverse_cons, reverse_reverse]

variable {s : List Char}

theorem exists_colon_split (h : ':' ∈ s) : ∃ x v, s = x ++ ':' :: v ∧ ':' ∉ v := by
  obtain ⟨v, x, hrev, hv⟩ := eq_append_cons_of_mem (mem_reverse.mpr h)
  refine ⟨x.reverse, v.reverse, ?_, fun hmem => hv (mem_reverse.mp hmem)⟩
  have hs := congrArg List.reverse hrev
  rw [reverse_reverse, reverse_append, reverse_cons, append_assoc] at hs
  exact hs

/-- A dotted quad, and before it, up to the colon or through it, the groups of an address. -/
def EmbedsV4 (s : List Char) : Prop :=
  ∃ x v, s = x ++ ':' :: v ∧ ':' ∉ v ∧ (parseV4 v true).isSome = true ∧ (Leading 2 x ∨ Leading 2 (x ++ [':']))

theorem v6Char_of_leading (h : Leading n x) : ∀ c ∈ x, v6Char c = true := by
  have hjoined : ∀ {gs : List (List Char)}, (∀ g ∈ gs, isGroup g = true) → ∀ c ∈ joined gs, v6Char c = true := by
    intro gs hgs c hc
    obtain hc | ⟨g, hg, hc⟩ := mem_intercalate hc
    · subst hc
      decide
    · have hgroup := hgs g hg
      simp only [isGroup, Bool.and_eq_true, List.all_eq_true] at hgroup
      rw [v6Char, hgroup.2 c hc]
      rfl
  obtain ⟨as, has, ⟨rfl, -⟩ | ⟨bs, hbs, rfl, -⟩⟩ := h
  · exact hjoined has
  · intro c hc
    obtain hc | hc := mem_append.mp hc
    · obtain hc | hc := mem_append.mp hc
      · exact hjoined has c hc
      · have hcolon : c = ':' := by simpa using hc
        subst hcolon
        decide
    · exact hjoined hbs c hc

theorem isDecimal_of_quadPart {part : List Char} (h : isQuadPart part = true) : ∀ c ∈ part, isDecimal c = true := by
  simp only [isQuadPart, Bool.or_eq_true, Bool.and_eq_true, decide_eq_true_eq] at h
  obtain rfl | ⟨⟨hhead, htail⟩, -⟩ := h
  · rw [forall_mem_singleton]
    rfl
  · cases part with
    | nil => exact fun _ hc => absurd hc not_mem_nil
    | cons d part =>
      intro c hc
      obtain rfl | hc := mem_cons.mp hc
      · simp only [List.head?_cons, any_some, Bool.and_eq_true, decide_eq_true_eq] at hhead
        simp only [isDecimal, Bool.and_eq_true, decide_eq_true_eq]
        exact ⟨Char.le_trans (by decide) hhead.1, hhead.2⟩
      · exact List.all_eq_true.mp htail c hc

/-- A dotted quad is digits and dots, with a dot. -/
theorem quad_spec (h : (parseV4 v true).isSome = true) : '.' ∈ v ∧ ∀ c ∈ v, v6Char c = true := by
  obtain ⟨bytes, hbytes⟩ := isSome_iff_exists.mp h
  unfold parseV4 at hbytes
  dsimp only at hbytes
  split at hbytes
  · cases hbytes
  · split at hbytes
    · cases hbytes
    next hfour =>
      have hlen : (v.splitOn '.').length = 4 := by
        by_contra hne
        exact hfour ⟨rfl, hne⟩
      split at hbytes
      · cases hbytes
      next hall =>
        have hparts : (v.splitOn '.').all isQuadPart = true := by
          by_contra hne
          exact hall ⟨rfl, Bool.eq_false_iff.mpr hne⟩
        constructor
        · by_contra hdot
          rw [splitOn_eq_singleton hdot] at hlen
          cases hlen
        · intro c hc
          rw [← @intercalate_splitOn _ v _ _ '.'] at hc
          obtain rfl | ⟨part, hpart, hc⟩ := mem_intercalate hc
          · decide
          · have hdecimal := isDecimal_of_quadPart (List.all_eq_true.mp hparts part hpart) c hc
            have hhex : isHex c = true := by
              rw [isHex, show ('0' ≤ c && c ≤ '9') = true from hdecimal]
              rfl
            rw [v6Char, hhex]
            rfl

/-- The two read a text with colons alike but for a dotted tail that one of them accepts. -/
theorem parseV6_eq_iff (s : List Char) : OAuth.parseV6 s = Web.parseV6 s ↔ ¬EmbedsV4 s := by
  unfold OAuth.parseV6 Web.parseV6 parseV6With
  by_cases hbad : s = [] ∨ s.all v6Char = false ∨ ':' ∉ s
  · rw [if_pos hbad, if_pos hbad]
    refine iff_of_true rfl ?_
    rintro ⟨x, v, rfl, -, hquad, hlead⟩
    have hx : ∀ c ∈ x, v6Char c = true := by
      obtain hlead | hlead := hlead
      · exact v6Char_of_leading hlead
      · exact fun c hc => v6Char_of_leading hlead c (mem_append_left _ hc)
    have hall : (x ++ ':' :: v).all v6Char = true := by
      rw [all_append, all_cons, List.all_eq_true.mpr hx, List.all_eq_true.mpr (quad_spec hquad).2]
      rfl
    obtain hnil | hchar | hcolon := hbad
    · exact absurd hnil (append_ne_nil_of_right_ne_nil _ (cons_ne_nil _ _))
    · rw [hall] at hchar
      cases hchar
    · exact hcolon (mem_append_right _ mem_cons_self)
  rw [if_neg hbad, if_neg hbad]
  have hcolon : ':' ∈ s := by
    by_contra hno
    exact hbad (.inr (.inr hno))
  obtain ⟨x, v, rfl, hv⟩ := exists_colon_split hcolon
  obtain ⟨hafter, hthrough⟩ := colon_split (x := x) hv
  rw [hafter, hthrough]
  have hunique : EmbedsV4 (x ++ ':' :: v) ↔
      (parseV4 v true).isSome = true ∧ (Leading 2 x ∨ Leading 2 (x ++ [':'])) := by
    constructor
    · rintro ⟨x', v', heq, hv', hquad, hlead⟩
      obtain ⟨hafter', hthrough'⟩ := colon_split (x := x') hv'
      rw [← heq] at hafter' hthrough'
      obtain rfl : v = v' := hafter.symm.trans hafter'
      obtain rfl : x = x' := append_cancel_right (hthrough.symm.trans hthrough')
      exact ⟨hquad, hlead⟩
    · exact fun h => ⟨x, v, rfl, hv, h.1, h.2⟩
  rw [hunique]
  by_cases hdot : '.' ∈ v
  · rw [if_pos hdot, if_pos hdot]
    cases hv4 : parseV4 v true with
    | none =>
      refine iff_of_true rfl ?_
      rintro ⟨hno, -⟩
      cases hno
    | some v4 =>
      have htail := tailGroups_lt (parseV4_valid hv4).bytes
      rw [bind_some, bind_some, bind_toBytes_eq htail]
      have hexcl : ¬(Leading 2 x ∧ Leading 2 (x ++ [':'])) := fun h => leading_exclusive h.1 h.2
      have hquad : ((some v4).isSome = true ∧ (Leading 2 x ∨ Leading 2 (x ++ [':']))) ↔
          (Leading 2 x ∨ Leading 2 (x ++ [':'])) := ⟨fun h => h.2, fun h => ⟨rfl, h⟩⟩
      rw [hquad]
      -- One of the two reads the text up to the colon, the other through it.
      unfold OAuth.cut Web.cut
      rw [dropLast_concat]
      by_cases hends : [':', ':'].isSuffixOf (x ++ [':']) = true
      · rw [if_pos hends, if_pos hends]
        exact read_eq_iff hexcl
      · rw [if_neg hends, if_neg hends, eq_comm]
        exact read_eq_iff hexcl
  · rw [if_neg hdot, if_neg hdot, bind_toBytes_eq (fun _ hn => absurd hn not_mem_nil)]
    refine iff_of_true rfl ?_
    rintro ⟨hquad, -⟩
    exact hdot (quad_spec hquad).1

/-- The text of an address without the white space and the brackets around it. -/
def bare (s : List Char) : List Char := if bracketed (trimmed s) then inner (trimmed s) else trimmed s

/-- The texts that one of the two reads and the other does not. -/
def ReadByOne (s : List Char) : Prop :=
  (bracketed (trimmed s) = true ∧ ':' ∉ bare s ∧ (parseV4 (bare s) false).isSome = true) ∨ EmbedsV4 (bare s)

theorem map_v6_inj {p q : Option (List ℕ)} : p.map (ParsedAddress.mk .v6) = q.map (ParsedAddress.mk .v6) ↔ p = q := by
  constructor
  · exact fun h => map_injective (fun _ _ heq => (ParsedAddress.mk.inj heq).2) h
  · exact fun h => h ▸ rfl

theorem not_embedsV4 (h : ':' ∉ s) : ¬EmbedsV4 s := by
  rintro ⟨x, v, rfl, -⟩
  exact h (mem_append_right _ mem_cons_self)

theorem parseAddress_eq_iff (s : List Char) :
    OAuth.parseAddress s false = Web.parseAddress s false ↔ ¬ReadByOne s := by
  unfold OAuth.parseAddress Web.parseAddress ReadByOne bare
  dsimp only
  have hv4 : parseV4 [] false = none := rfl
  have hv6 : OAuth.parseV6 [] = none := rfl
  by_cases hb : bracketed (trimmed s) = true
  · rw [if_pos hb, if_pos hb]
    by_cases hnil : inner (trimmed s) = []
    · rw [hnil, hv4, hv6]
      refine iff_of_true rfl ?_
      rintro (⟨-, -, hno⟩ | hno)
      · cases hno
      · exact not_embedsV4 not_mem_nil hno
    · by_cases hcolon : ':' ∈ inner (trimmed s)
      · rw [if_neg hnil, if_pos hcolon, map_v6_inj, parseV6_eq_iff]
        constructor
        · rintro hno (⟨-, hmem, -⟩ | hembeds)
          · exact hmem hcolon
          · exact hno hembeds
        · exact fun hno hembeds => hno (.inr hembeds)
      · -- The OAuth resolver takes what is in brackets for IPv6.
        have hnone : OAuth.parseV6 (inner (trimmed s)) = none := by
          rw [OAuth.parseV6, parseV6With, if_pos (.inr (.inr hcolon))]
        rw [if_neg hnil, if_neg hcolon, hnone]
        cases hread : parseV4 (inner (trimmed s)) false with
        | none =>
          refine iff_of_true rfl ?_
          rintro (⟨-, -, hno⟩ | hno)
          · cases hno
          · exact not_embedsV4 hcolon hno
        | some bytes => simp_all
  · rw [if_neg hb, if_neg hb]
    have hnot : ¬(bracketed (trimmed s) = true ∧ ':' ∉ trimmed s ∧ (parseV4 (trimmed s) false).isSome = true) :=
      fun h => hb h.1
    rw [or_iff_right hnot]
    by_cases hcolon : ':' ∈ trimmed s
    · rw [if_pos hcolon, if_neg (ne_nil_of_mem hcolon), if_pos hcolon, map_v6_inj, parseV6_eq_iff]
    · rw [if_neg hcolon, if_neg hcolon]
      refine iff_of_true ?_ (not_embedsV4 hcolon)
      split
      next hnil =>
        rw [hnil]
        rfl
      next => rfl

/-- That the two say the same of a text: they read it alike, and one calls it public when the
other does. -/
structure Agree (s : List Char) : Prop where
  read : OAuth.parseAddress s false = Web.parseAddress s false
  classified : ∀ a, OAuth.classifyAddress a = Web.classifyAddress a
  isPublic : OAuth.isPublicIp s = true ↔
    ∃ a, Web.parseAddress s false = some a ∧ (Web.classifyAddress a).isPublic = true

/-- They agree on all texts but those that one of them alone reads. -/
theorem agree_iff (s : List Char) : Agree s ↔ ¬ReadByOne s := by
  constructor
  · exact fun h => (parseAddress_eq_iff s).mp h.read
  · intro h
    have hread := (parseAddress_eq_iff s).mpr h
    refine ⟨hread, classifyAddress_eq, ?_⟩
    rw [OAuth.isPublicIp, hread]
    cases hparse : Web.parseAddress s false with
    | none =>
      refine iff_of_false (fun hno => (by cases hno)) ?_
      rintro ⟨a, hno, -⟩
      cases hno
    | some a =>
      dsimp only
      rw [classifyAddress_eq]
      constructor
      · exact fun hpub => ⟨a, rfl, hpub⟩
      · rintro ⟨a', heq, hpub⟩
        cases heq
        exact hpub

/-- What a resolver answers for a mapped address is public and not read; and with a third colon a
text is read that is not an address. -/
theorem dotted_tails_disagree : ¬(OAuth.isPublicIp "::ffff:8.8.8.8".toList = true ↔
      ∃ a, Web.parseAddress "::ffff:8.8.8.8".toList false = some a ∧ (Web.classifyAddress a).isPublic = true) ∧
    ¬(OAuth.isPublicIp "64:ff9b:::8.8.8.8".toList = true ↔
      ∃ a, Web.parseAddress "64:ff9b:::8.8.8.8".toList false = some a ∧ (Web.classifyAddress a).isPublic = true) := by
  have hmapped : OAuth.isPublicIp "::ffff:8.8.8.8".toList = false ∧
      Web.parseAddress "::ffff:8.8.8.8".toList false = some ⟨.v6, [0, 0, 0, 0, 0, 0, 0, 0, 0, 0, 255, 255, 8, 8, 8, 8]⟩ ∧
      (Web.classifyAddress ⟨.v6, [0, 0, 0, 0, 0, 0, 0, 0, 0, 0, 255, 255, 8, 8, 8, 8]⟩).isPublic = true := by
    decide +kernel
  have hcolons : OAuth.isPublicIp "64:ff9b:::8.8.8.8".toList = true ∧
      Web.parseAddress "64:ff9b:::8.8.8.8".toList false = none := by
    decide +kernel
  constructor
  · intro h
    have hpub := h.mpr ⟨_, hmapped.2⟩
    rw [hmapped.1] at hpub
    cases hpub
  · intro h
    obtain ⟨a, ha, -⟩ := h.mp hcolons.1
    rw [hcolons.2] at ha
    cases ha

end Plur1bus.Net
