import Plur1bus.Net.Address

/-!
What the readers of addresses accept: which texts are the groups of an IPv6 address, and that
every address that is read has as many bytes as its family asks for.
-/

namespace Plur1bus.Net

open Program List Option

/-! ### Groups -/

/-- Groups with a colon between them. -/
def joined (gs : List (List Char)) : List Char := [':'].intercalate gs

variable {g : List Char}

theorem isGroup_spec (h : isGroup g = true) : g ≠ [] ∧ ':' ∉ g := by
  simp only [isGroup, Bool.and_eq_true, decide_eq_true_eq, List.all_eq_true] at h
  constructor
  · rintro rfl
    simp at h
  · intro hcolon
    have hhex := h.2 _ hcolon
    revert hhex
    decide

variable {gs : List (List Char)}

theorem tight_joined (h : ∀ g ∈ gs, isGroup g = true) : Tight ':' (joined gs) :=
  tight_intercalate fun g hg => isGroup_spec (h g hg)

theorem joined_ne_nil (h : ∀ g ∈ gs, isGroup g = true) (hne : gs ≠ []) : joined gs ≠ [] := by
  intro hnil
  have hsplit := splitOn_intercalate ':' (fun g hg => (isGroup_spec (h g hg)).2) hne
  rw [show [':'].intercalate gs = [] from hnil, splitOn_nil] at hsplit
  obtain ⟨g, gs, rfl⟩ := exists_cons_of_ne_nil hne
  injection hsplit with hg
  exact (isGroup_spec (h g mem_cons_self)).1 hg.symm

theorem toGroups_joined (h : ∀ g ∈ gs, isGroup g = true) :
    toGroups (joined gs) = some (gs.map (parseInt 16)) := by
  unfold toGroups
  by_cases hne : gs = []
  · subst hne
    rfl
  · rw [if_neg (joined_ne_nil h hne), joined,
      splitOn_intercalate ':' (fun g hg => (isGroup_spec (h g hg)).2) hne,
      if_pos (List.all_eq_true.mpr h)]

theorem eq_joined_of_toGroups {part : List Char} {ns : List ℕ} (h : toGroups part = some ns) :
    ∃ gs, (∀ g ∈ gs, isGroup g = true) ∧ part = joined gs ∧ ns = gs.map (parseInt 16) := by
  unfold toGroups at h
  split at h
  next hnil =>
    cases h
    exact ⟨[], fun _ hg => absurd hg not_mem_nil, hnil, rfl⟩
  next =>
    split at h
    next hall =>
      cases h
      exact ⟨part.splitOn ':', List.all_eq_true.mp hall, (intercalate_splitOn ':').symm, rfl⟩
    next => cases h

/-- A text that is the groups of an address but for the last `n`: all of them, or some with `::`
for the others. -/
def Leading (n : ℕ) (head : List Char) : Prop := ∃ as, (∀ g ∈ as, isGroup g = true) ∧
    ((head = joined as ∧ as.length + n = 8) ∨
      ∃ bs, (∀ g ∈ bs, isGroup g = true) ∧ head = joined as ++ [':', ':'] ++ joined bs ∧ as.length + bs.length + n < 8)

theorem groupsOf_joined {as : List (List Char)} (h : ∀ g ∈ as, isGroup g = true) (tail : List ℕ) :
    groupsOf (joined as) tail = some (as.map (parseInt 16) ++ tail) := by
  obtain ⟨hfirst, hlast⟩ := indexOf_of_absent (tight_joined h).not_occursAt
  unfold groupsOf
  rw [hfirst, hlast, toGroups_joined h]
  rfl

theorem groupsOf_zeros {as bs : List (List Char)} (ha : ∀ g ∈ as, isGroup g = true)
    (hb : ∀ g ∈ bs, isGroup g = true) (tail : List ℕ) (hlen : as.length + bs.length + tail.length < 8) :
    groupsOf (joined as ++ [':', ':'] ++ joined bs) tail =
      some (as.map (parseInt 16) ++ List.replicate (8 - (as.length + bs.length + tail.length)) 0 ++
        bs.map (parseInt 16) ++ tail) := by
  obtain ⟨hfirst, hlast⟩ := indexOf_of_unique (occursAt_between (tight_joined ha) (tight_joined hb))
    (by rw [length_append, length_append]; omega)
  have htake : (joined as ++ [':', ':'] ++ joined bs).take (joined as).length = joined as := by
    rw [append_assoc, take_left]
  have hdrop : (joined as ++ [':', ':'] ++ joined bs).drop ((joined as).length + 2) = joined bs := by simp_all
  unfold groupsOf
  rw [hfirst, hlast]
  dsimp only
  rw [if_neg (fun h => h rfl), htake, hdrop, toGroups_joined ha, toGroups_joined hb]
  dsimp only
  rw [length_map, length_map, if_pos hlen]

variable {head : List Char}

/-- What is read is groups, and there are no others. -/
theorem groupsOf_cases {tail ns : List ℕ} (h : groupsOf head tail = some ns) :
    ∃ as, (∀ g ∈ as, isGroup g = true) ∧ ((head = joined as ∧ ns = as.map (parseInt 16) ++ tail) ∨
        ∃ bs, (∀ g ∈ bs, isGroup g = true) ∧ head = joined as ++ [':', ':'] ++ joined bs ∧
          as.length + bs.length + tail.length < 8 ∧
          ns = as.map (parseInt 16) ++ List.replicate (8 - (as.length + bs.length + tail.length)) 0 ++
            bs.map (parseInt 16) ++ tail) := by
  unfold groupsOf at h
  dsimp only at h
  split at h
  · cases h
  · split at h
    next d hdbl =>
      split at h
      next a b ha hb =>
        obtain ⟨as, has, hta, rfl⟩ := eq_joined_of_toGroups ha
        obtain ⟨bs, hbs, htb, rfl⟩ := eq_joined_of_toGroups hb
        rw [length_map, length_map] at h
        split at h
        next hlen =>
          cases h
          refine ⟨as, has, .inr ⟨bs, hbs, ?_, hlen, rfl⟩⟩
          have hsplit := split_of_indexOf hdbl
          rw [hsplit, hta, show [':', ':'].length = 2 from rfl, htb]
        next => cases h
      · cases h
    next =>
      obtain ⟨a, ha, rfl⟩ := map_eq_some_iff.mp h
      obtain ⟨as, has, hta, rfl⟩ := eq_joined_of_toGroups ha
      exact ⟨as, has, .inl ⟨hta, rfl⟩⟩

/-! ### Bytes -/

def Family.size : Family → ℕ
  | .v4 => 4
  | .v6 => 16

/-- As many bytes as the family has. -/
structure ParsedAddress.Valid (a : ParsedAddress) : Prop where
  length : a.bytes.length = a.family.size
  bytes : ∀ b ∈ a.bytes, b < 256

theorem length_of_mapM {α β : Type} {f : α → Option β} {l : List α} {out : List β} (h : l.mapM f = some out) :
    out.length = l.length := by
  induction l generalizing out with
  | nil =>
    cases h
    rfl
  | cons x l ih =>
    rw [mapM_cons] at h
    obtain ⟨y, -, h⟩ := bind_eq_some_iff.mp h
    obtain ⟨ys, hys, h⟩ := bind_eq_some_iff.mp h
    cases h
    rw [length_cons, length_cons, ih hys]

variable {bytes : List ℕ}

theorem v4Bytes_valid {nums : List ℕ} (hmin : 1 ≤ nums.length) (hmax : nums.length ≤ 4)
    (h : v4Bytes nums = some bytes) : ParsedAddress.Valid ⟨.v4, bytes⟩ := by
  unfold v4Bytes at h
  dsimp only at h
  split at h
  · cases h
  · split at h
    · cases h
    next hany =>
      cases h
      refine ⟨?_, ?_⟩
      · show (nums.dropLast ++ _).length = 4
        rw [length_append, length_dropLast, length_map, length_range]
        omega
      · grind

variable {s : List Char}

theorem parseV4_valid {strict : Bool} (h : parseV4 s strict = some bytes) :
    ParsedAddress.Valid ⟨.v4, bytes⟩ := by
  unfold parseV4 at h
  dsimp only at h
  split at h
  · cases h
  next hmax =>
    split at h
    · cases h
    · split at h
      · cases h
      · obtain ⟨nums, hnums, hbytes⟩ := bind_eq_some_iff.mp h
        have hlen := length_of_mapM hnums
        have hpos := length_pos_iff.mpr (splitOn_ne_nil '.' s)
        exact v4Bytes_valid (by omega) (by omega) hbytes

theorem parseInt_group_lt (h : isGroup g = true) : parseInt 16 g < 65536 := by
  simp only [isGroup, Bool.and_eq_true, decide_eq_true_eq, List.all_eq_true] at h
  have hlt := parseInt_lt h.2
  have hle : 16 ^ g.length ≤ 16 ^ 4 := Nat.pow_le_pow_right (by omega) h.1.2
  omega

theorem groupsOf_lt {tail ns : List ℕ} (htail : ∀ n ∈ tail, n < 65536)
    (h : groupsOf head tail = some ns) : ∀ n ∈ ns, n < 65536 := by
  have hgroups : ∀ {gs : List (List Char)}, (∀ g ∈ gs, isGroup g = true) → ∀ n ∈ gs.map (parseInt 16), n < 65536 := by
    intro gs hgs n hn
    obtain ⟨g, hg, rfl⟩ := mem_map.mp hn
    exact parseInt_group_lt (hgs g hg)
  intro n hn
  obtain ⟨as, has, ⟨-, rfl⟩ | ⟨bs, hbs, -, -, rfl⟩⟩ := groupsOf_cases h
  · obtain hn | hn := mem_append.mp hn
    · exact hgroups has n hn
    · exact htail n hn
  · grind

theorem tailGroups_lt {v4 : List ℕ} (h : ∀ b ∈ v4, b < 256) : ∀ n ∈ tailGroups v4, n < 65536 := by
  have hbyte : ∀ i, v4.getD i 0 < 256 := by
    intro i
    rw [getD_eq_getElem?_getD]
    cases hi : v4[i]? with
    | none => exact Nat.zero_lt_succ _
    | some b => exact h b (mem_of_getElem? hi)
  have h0 := hbyte 0
  have h1 := hbyte 1
  have h2 := hbyte 2
  have h3 := hbyte 3
  intro n hn
  simp only [tailGroups, mem_cons, not_mem_nil, or_false] at hn
  omega

theorem length_v6Bytes (groups : List ℕ) : (v6Bytes groups).length = 2 * groups.length := by
  induction groups with
  | nil => rfl
  | cons g groups ih =>
    show (v6Bytes groups).length + 1 + 1 = _
    rw [ih, length_cons]
    omega

theorem v6Bytes_valid {groups : List ℕ} (hlen : groups.length = 8) (h : ∀ n ∈ groups, n < 65536) :
    ParsedAddress.Valid ⟨.v6, v6Bytes groups⟩ := by
  refine ⟨?_, ?_⟩
  · show (v6Bytes groups).length = 16
    rw [length_v6Bytes, hlen]
  · intro b hb
    obtain ⟨n, hn, hb⟩ := mem_flatMap.mp hb
    have hlt := h n hn
    simp only [mem_cons, not_mem_nil, or_false] at hb
    omega

/-- What is read of a text with colons. -/
theorem parseV6With_cases {cut : List Char → List Char} {toBytes : List ℕ → Option (List ℕ)}
    (h : parseV6With cut toBytes s = some bytes) :
    ∃ groups, (∀ n ∈ groups, n < 65536) ∧ toBytes groups = some bytes := by
  unfold parseV6With at h
  split at h
  · cases h
  · split at h
    · obtain ⟨v4, hv4, h⟩ := bind_eq_some_iff.mp h
      obtain ⟨groups, hgroups, hbytes⟩ := bind_eq_some_iff.mp h
      exact ⟨groups, groupsOf_lt (tailGroups_lt (parseV4_valid hv4).bytes) hgroups, hbytes⟩
    · obtain ⟨groups, hgroups, hbytes⟩ := bind_eq_some_iff.mp h
      exact ⟨groups, groupsOf_lt (fun _ hn => absurd hn not_mem_nil) hgroups, hbytes⟩

theorem canonical_valid {a : ParsedAddress} (h : a.Valid) : (canonical a).Valid := by
  unfold canonical
  split
  next hv6 =>
    have hlen := h.length
    rw [hv6.1] at hlen
    have hsize : a.bytes.length = 16 := hlen
    refine ⟨?_, fun b hb => h.bytes b (mem_of_mem_drop hb)⟩
    show (a.bytes.drop 12).length = 4
    rw [length_drop, hsize]
  next => exact h

theorem canonical_canonical (a : ParsedAddress) : canonical (canonical a) = canonical a := by
  grind [canonical]

end Plur1bus.Net
