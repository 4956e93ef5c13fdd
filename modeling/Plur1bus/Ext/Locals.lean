import Plur1bus.Ext.Pieces

/-!
The local headers. Each check answers exactly when the bytes at the offset of the
entry are its local header, its data and its descriptor; a run of checks answers
when these stand one behind the other.
-/

namespace Plur1bus.Ext

open Program List

/-- The check sum and the sizes at a place. -/
def sumsOf (b : Bytes) (i : ℕ) : ℕ × ℕ × ℕ := (word32 b i, word32 b (i + 4), word32 b (i + 8))

theorem fieldsAt_ok {b : Bytes} {i : ℕ} {v : ℕ × ℕ × ℕ} :
    fieldsAt b i = .ok v ↔ i + 12 ≤ b.length ∧ sumsOf b i = v := by
  simp only [fieldsAt, bind_ok, u32At_ok, exists_and_left, exists_eq_left', and_assoc, pure, Except.pure,
    Except.ok.injEq, sumsOf]
  constructor
  · rintro ⟨-, -, h, hv⟩
    exact ⟨by omega, hv⟩
  · rintro ⟨h, hv⟩
    exact ⟨by omega, by omega, by omega, hv⟩

theorem sumsOf_take {b : Bytes} {n i : ℕ} (h : i + 12 ≤ n) : sumsOf (b.take n) i = sumsOf b i := by
  simp only [sumsOf]
  rw [word32_take (by omega), word32_take (by omega), word32_take (by omega)]

/-! ### Descriptors -/

/-- The bytes begin with a descriptor of this length. -/
def Describes (c : Central) (d : Bytes) (len : ℕ) : Prop := len ≤ d.length ∧
    ((len = 16 ∧ word32 d 0 = SIG_DESCRIPTOR ∧ sumsOf d 4 = c.sums) ∨ (len = 12 ∧ sumsOf d 0 = c.sums))

variable {c : Central} {d : Bytes}

theorem sumsAt_ok {i : ℕ} {b : Bool} :
    sumsAt c d i = .ok b ↔ i + 12 ≤ d.length ∧ decide (sumsOf d i = c.sums) = b := by
  simp only [sumsAt, bind_ok, fieldsAt_ok, pure, Except.pure, Except.ok.injEq, and_assoc, exists_and_left,
    exists_eq_left']

variable {len : ℕ}

theorem checkDescriptor_describes (h : checkDescriptor c d = .ok len) : Describes c d len := by
  simp only [checkDescriptor, bind_ok] at h
  obtain ⟨signed, hsigned, h⟩ := h
  split at h
  next hyes =>
    cases h
    subst hyes
    unfold isSigned at hsigned
    split at hsigned
    next hlen =>
      simp only [bind_ok, u32At_ok] at hsigned
      obtain ⟨signature, ⟨-, hsig⟩, hsigned⟩ := hsigned
      split at hsigned
      next heq =>
        rw [sumsAt_ok] at hsigned
        exact ⟨hlen, .inl ⟨rfl, hsig.trans heq, of_decide_eq_true hsigned.2⟩⟩
      · cases hsigned
    · cases hsigned
  · simp only [bind_ok, ensure_ok, exists_const] at h
    obtain ⟨plain, hplain, hyes, h⟩ := h
    cases h
    subst hyes
    unfold isPlain at hplain
    split at hplain
    next hlen =>
      rw [sumsAt_ok] at hplain
      exact ⟨hlen, .inr ⟨rfl, of_decide_eq_true hplain.2⟩⟩
    · cases hplain

/-! ### One local header -/

/-- The name in a local header. -/
def localName (x : Bytes) : Bytes := (x.drop LOCAL_LEN).take (word16 x 26)

def localExtra (x : Bytes) : Bytes := (x.drop (LOCAL_LEN + word16 x 26)).take (word16 x 28)

/-- Where the data begins behind a local header. -/
def localData (x : Bytes) : ℕ := LOCAL_LEN + word16 x 26 + word16 x 28

/-- The bytes begin with the local header of an entry, and it agrees with the directory. -/
structure GoodLocal (c : Central) (x : Bytes) : Prop where
  header : localData x + c.compressed ≤ x.length
  signature : word32 x 0 = SIG_LOCAL
  name : localName x = Utf8.bytes c.name
  extra : forbiddenExtra (localExtra x) = .ok none
  flags : word16 x 6 = c.flags
  method : word16 x 8 = c.method

/-- How an entry ends: at the end of its data, or behind the descriptor. -/
def Ends (c : Central) (x : Bytes) (stop : ℕ) : Prop :=
  if c.flags &&& FLAG_DESCRIPTOR = 0 then sumsOf x 14 = c.sums ∧ stop = localData x + c.compressed
  else (sumsOf x 14 = (0, 0, 0) ∨ sumsOf x 14 = c.sums) ∧ ∃ len,
    checkDescriptor c ((x.drop (localData x + c.compressed)).take 16) = .ok len ∧
      stop = localData x + c.compressed + len

variable {file : Bytes}

theorem take_take_drop {a n : ℕ} (limit : ℕ) (h : a + n ≤ limit) :
    (file.drop a).take n = ((file.take limit).drop a).take n := by
  rw [drop_take, take_take, Nat.min_eq_left (by omega)]

variable {limit : ℕ} {v : ℕ × ℕ} {x : Bytes}

/-- How the check of an entry ends. -/
theorem ends_ok (hlimit : limit ≤ file.length) (hx : (file.take limit).drop c.offset = x)
    (hroom : c.offset + localData x + c.compressed ≤ limit) :
    (if c.flags &&& FLAG_DESCRIPTOR = 0 then do
        ensure (sumsOf x 14 = c.sums) (disagree c "CRC or sizes")
        return (c.offset + localData x, c.offset + localData x + c.compressed)
      else do
        ensure (sumsOf x 14 = (0, 0, 0) ∨ sumsOf x 14 = c.sums) (disagree c "CRC or sizes")
        let room ← sub limit (c.offset + localData x + c.compressed)
        let d ← readAt file (c.offset + localData x + c.compressed) (min room 16)
        let len ← checkDescriptor c d
        return (c.offset + localData x, c.offset + localData x + c.compressed + len)) = Except.ok v ↔
      ∃ stop, Ends c x stop ∧ v = (c.offset + localData x, c.offset + stop) := by
  unfold Ends
  split
  · simp only [bind_ok, ensure_ok, exists_const, pure, Except.pure, Except.ok.injEq]
    constructor
    · rintro ⟨hsums, rfl⟩
      exact ⟨_, ⟨hsums, rfl⟩, by rw [Nat.add_assoc c.offset]⟩
    · rintro ⟨_, ⟨hsums, rfl⟩, rfl⟩
      exact ⟨hsums, by rw [Nat.add_assoc c.offset]⟩
  · have hlen : (file.take limit).length = limit := length_take_of_le hlimit
    -- What is read of the descriptor is what stands before the directory.
    have hread : ∀ k, c.offset + k ≤ limit →
        (file.drop (c.offset + k)).take (min (limit - (c.offset + k)) 16) = (x.drop k).take 16 := by
      intro k hk
      rw [take_take_drop limit (by omega), ← hx, drop_drop]
      conv_rhs => rw [take_eq_take_min]
      rw [length_drop, hlen, Nat.min_comm]
    simp only [bind_ok, ensure_ok, sub_ok, readAt_ok, exists_const, exists_and_left, exists_eq_left', and_assoc, pure,
      Except.pure, Except.ok.injEq, Nat.add_assoc c.offset] at *
    rw [hread _ hroom]
    constructor
    · rintro ⟨hsums, -, -, len, hlen, rfl⟩
      exact ⟨hsums, _, ⟨len, hlen, rfl⟩, rfl⟩
    · grind

theorem checkLocal_room (h : checkLocal file c limit = .ok v) :
    c.offset + localData ((file.take limit).drop c.offset) + c.compressed ≤ limit := by
  simp only [checkLocal, bind_ok, ensure_ok, readAt_ok, u32At_ok, u16At_ok, fieldsAt_ok, slice_ok, exists_const,
    exists_and_left, exists_eq_left', and_assoc] at h
  obtain ⟨h30, -, -, -, -, -, -, -, -, -, -, -, -, -, -, -, _, -, -, -, -, hroom, -⟩ := h
  rw [take_take_drop limit h30, word16_take (by decide), word16_take (by decide)] at hroom
  unfold localData
  omega

theorem checkLocal_ok (hlimit : limit ≤ file.length) : checkLocal file c limit = .ok v ↔
      GoodLocal c ((file.take limit).drop c.offset) ∧ ∃ stop, Ends c ((file.take limit).drop c.offset) stop ∧
        v = (c.offset + localData ((file.take limit).drop c.offset), c.offset + stop) := by
  generalize hx : (file.take limit).drop c.offset = x
  have hlen : x.length = limit - c.offset := by
    rw [← hx, length_drop, length_take_of_le hlimit]
  have hmin : 30 ≤ localData x := by unfold localData LOCAL_LEN; omega
  by_cases hroom : c.offset + localData x + c.compressed ≤ limit
  · have h30 : c.offset + LOCAL_LEN ≤ limit := by unfold localData at hroom; omega
    have hhead : (file.drop c.offset).take LOCAL_LEN = x.take LOCAL_LEN := by
      rw [take_take_drop limit h30, hx]
    have h16 : ∀ i, i + 2 ≤ LOCAL_LEN → word16 (x.take LOCAL_LEN) i = word16 x i := fun i => word16_take
    have h32 : ∀ i, i + 4 ≤ LOCAL_LEN → word32 (x.take LOCAL_LEN) i = word32 x i := fun i => word32_take
    have hsums : sumsOf (x.take LOCAL_LEN) 14 = sumsOf x 14 := sumsOf_take (by decide)
    have htail : (file.drop (c.offset + LOCAL_LEN)).take (word16 x 26 + word16 x 28) =
        (x.drop LOCAL_LEN).take (word16 x 26 + word16 x 28) := by
      rw [take_take_drop limit (by unfold localData at hroom; omega), ← hx, drop_drop]
    have htaillen : ((x.drop LOCAL_LEN).take (word16 x 26 + word16 x 28)).length = word16 x 26 + word16 x 28 := by
      rw [length_take, length_drop, hlen]
      unfold localData at hroom
      omega
    have hname : ((x.drop LOCAL_LEN).take (word16 x 26 + word16 x 28)).take (word16 x 26) = localName x := by
      rw [take_take, Nat.min_eq_left (by omega)]
      rfl
    have hextra : (((x.drop LOCAL_LEN).take (word16 x 26 + word16 x 28)).drop (word16 x 26)).take (word16 x 28) =
        localExtra x := by
      rw [drop_take, drop_drop, Nat.add_sub_cancel_left, take_take, Nat.min_self]
      rfl
    have hdata : c.offset + LOCAL_LEN + word16 x 26 + word16 x 28 = c.offset + localData x := by
      unfold localData
      omega
    have hlen30 : (x.take LOCAL_LEN).length = 30 := by
      rw [length_take, hlen]
      unfold localData at hroom
      unfold LOCAL_LEN at *
      omega
    simp (disch := decide) only [checkLocal, bind_ok, ensure_ok, readAt_ok, u32At_ok, u16At_ok, fieldsAt_ok, slice_ok,
      exists_const, exists_and_left, exists_eq_left', and_assoc, hhead, h16, h32, hsums, htail, htaillen, Nat.sub_zero,
      drop_zero, hname, Nat.add_sub_cancel_left, hextra, hdata, hlen30]
    rw [ends_ok hlimit hx hroom]
    constructor
    · rintro ⟨-, -, -, hsig, -, -, -, -, -, -, -, -, -, hnm, -, -, a, hex, rfl, hflags, hmethod, -, hends⟩
      exact ⟨⟨by omega, hsig, hnm, hex, hflags, hmethod⟩, hends⟩
    · rintro ⟨⟨-, hsig, hnm, hex, hflags, hmethod⟩, hends⟩
      exact ⟨h30, .inr (by omega), by omega, hsig, by omega, by omega, by omega, by omega, by omega, by omega,
        by omega, by omega, by omega, hnm, by omega, le_refl _, none, hex, rfl, hflags, hmethod, hroom, hends⟩
  · constructor
    · intro h
      have := checkLocal_room h
      rw [hx] at this
      exact absurd this hroom
    · rintro ⟨hgood, -⟩
      have := hgood.header
      omega

/-! ### Whole entries -/

/-- The bytes of an entry, from its local header to its end, and nothing more: they agree with the directory in name,
flags, method, and, in the header or in the descriptor, in check sum and sizes. -/
structure Part (c : Central) (part : Bytes) : Prop where
  signature : word32 part 0 = SIG_LOCAL
  name : localName part = Utf8.bytes c.name
  flags : word16 part 6 = c.flags
  method : word16 part 8 = c.method
  ends : (c.flags &&& FLAG_DESCRIPTOR = 0 ∧ sumsOf part 14 = c.sums ∧ part.length = localData part + c.compressed) ∨
    (c.flags &&& FLAG_DESCRIPTOR ≠ 0 ∧ (sumsOf part 14 = (0, 0, 0) ∨ sumsOf part 14 = c.sums) ∧
      ∃ len, Describes c (part.drop (localData part + c.compressed)) len ∧
        part.length = localData part + c.compressed + len)

theorem Describes.take (h : Describes c d len) : Describes c (d.take len) len := by
  refine ⟨by rw [length_take_of_le h.1], ?_⟩
  rcases h.2 with ⟨rfl, hsig, hsums⟩ | ⟨rfl, hsums⟩
  · exact .inl ⟨rfl, by rw [word32_take (by omega)]; exact hsig, by rw [sumsOf_take (by omega)]; exact hsums⟩
  · exact .inr ⟨rfl, by rw [sumsOf_take (by omega)]; exact hsums⟩

theorem le_localData (x : Bytes) : 30 ≤ localData x := by unfold localData LOCAL_LEN; omega

theorem localData_take {n : ℕ} (h : 30 ≤ n) : localData (x.take n) = localData x := by
  unfold localData
  rw [word16_take (by omega), word16_take (by omega)]

variable {stop : ℕ}

theorem Ends.le (h : Ends c x stop) : localData x + c.compressed ≤ stop := by
  unfold Ends at h
  split at h
  · omega
  · obtain ⟨_, len, _, rfl⟩ := h
    omega

theorem Ends.le_length (hgood : GoodLocal c x) (h : Ends c x stop) : stop ≤ x.length := by
  have hheader := hgood.header
  unfold Ends at h
  split at h
  · omega
  · obtain ⟨_, len, hlen, rfl⟩ := h
    have := (checkDescriptor_describes hlen).1
    rw [length_take, length_drop] at this
    omega

theorem GoodLocal.part (hgood : GoodLocal c x) (h : Ends c x stop) : Part c (x.take stop) := by
  have hle := h.le
  have hmin := le_localData x
  have hdata : localData (x.take stop) = localData x := localData_take (by omega)
  have hlength : (x.take stop).length = stop := length_take_of_le (h.le_length hgood)
  refine ⟨?_, ?_, ?_, ?_, ?_⟩
  · rw [word32_take (by omega)]
    exact hgood.signature
  · unfold localName
    rw [word16_take (by omega), drop_take, take_take, Nat.min_eq_left]
    · exact hgood.name
    · unfold localData at hle
      omega
  · rw [word16_take (by omega)]
    exact hgood.flags
  · rw [word16_take (by omega)]
    exact hgood.method
  · rw [hdata, hlength, sumsOf_take (by omega)]
    unfold Ends at h
    split at h
    next hflag => exact .inl ⟨hflag, h⟩
    next hflag =>
      obtain ⟨hsums, len, hlen, rfl⟩ := h
      have hdesc := checkDescriptor_describes hlen
      have hlen16 : len ≤ 16 := by
        rcases hdesc.2 with ⟨rfl, -⟩ | ⟨rfl, -⟩ <;> omega
      refine .inr ⟨hflag, hsums, len, ?_, rfl⟩
      rw [drop_take, Nat.add_sub_cancel_left]
      have := hdesc.take
      rw [take_take, Nat.min_eq_left hlen16] at this
      exact this

/-- Entries stand one behind the other from `e` to `e'`, and where the data of each begins has been noted. -/
structure Laid (z : Bytes) (order : List (Central × ℕ)) (e e' : ℕ) (offs offs' : List ℕ) (parts : List Bytes) :
    Prop where
  agree : List.Forall₂ (fun ci part => Part ci.1 part) order parts
  bytes : z.drop e = parts.flatten ++ z.drop e'
  stop : e' = e + parts.flatten.length
  within : e' ≤ z.length
  starts : ∀ (k : ℕ) (ci : Central × ℕ), order[k]? = some ci → ci.1.offset = e + (parts.take k).flatten.length
  length : offs'.length = offs.length
  others : ∀ i, i ∉ order.map Prod.snd → offs'[i]? = offs[i]?
  data : (order.map Prod.snd).Nodup → ∀ (k : ℕ) (ci : Central × ℕ) (part : Bytes), order[k]? = some ci →
    parts[k]? = some part → ci.2 < offs.length → offs'[ci.2]? = some (ci.1.offset + localData part)

variable {order : List (Central × ℕ)}

theorem checkLocals_laid {offs offs' : List ℕ} {e e' : ℕ} (hlimit : limit ≤ file.length)
    (he : e ≤ limit) (h : checkLocals file limit order (offs, e) = .ok (offs', e')) :
    ∃ parts, Laid (file.take limit) order e e' offs offs' parts := by
  have hlen : (file.take limit).length = limit := length_take_of_le hlimit
  induction order generalizing offs e with
  | nil =>
    cases h
    refine ⟨[], .nil, rfl, rfl, by omega, ?_, rfl, fun _ _ => rfl, ?_⟩
    · intro k ci hk
      cases hk
    · intro _ k ci part hk
      cases hk
  | cons ci order ih =>
    obtain ⟨c, i⟩ := ci
    simp only [checkLocals, bind_ok, ensure_ok, exists_const] at h
    obtain ⟨hstart, ⟨data, stop⟩, hlocal, hrest⟩ := h
    obtain ⟨hgood, stop', hends, hv⟩ := (checkLocal_ok hlimit).mp hlocal
    cases hv
    subst hstart
    generalize hx : (file.take limit).drop c.offset = x at hgood hends hrest
    have hstop := hends.le_length hgood
    have hxlen : x.length = limit - c.offset := by rw [← hx, length_drop, hlen]
    have hpos := hends.le
    have hmin := le_localData x
    obtain ⟨parts, hlaid⟩ := ih (by omega) hrest
    have hpart := hgood.part hends
    have hplen : (x.take stop').length = stop' := length_take_of_le hstop
    have hdrop : (file.take limit).drop (c.offset + stop') = x.drop stop' := by rw [← hx, drop_drop]
    refine ⟨x.take stop' :: parts, .cons hpart hlaid.agree, ?_, ?_, hlaid.within, ?_, ?_, ?_, ?_⟩
    · rw [hx, flatten_cons, append_assoc, ← hlaid.bytes, hdrop, take_append_drop]
    · rw [hlaid.stop, flatten_cons, length_append, hplen]
      omega
    · intro k dj hk
      cases k with
      | zero =>
        cases hk
        simp
      | succ k =>
        rw [hlaid.starts k dj hk, take_succ_cons, flatten_cons, length_append, hplen]
        omega
    · rw [hlaid.length, length_set]
    · intro j hj
      rw [map_cons, mem_cons, not_or] at hj
      rw [hlaid.others j hj.2, List.getElem?_set_ne (fun heq => hj.1 heq.symm)]
    · intro hnodup k dj part hk hp hlt
      rw [map_cons, nodup_cons] at hnodup
      cases k with
      | zero =>
        cases hk
        cases hp
        rw [hlaid.others i hnodup.1, List.getElem?_set_self hlt, localData_take (by omega)]
      | succ k => exact hlaid.data hnodup.2 k dj part hk hp (by rw [length_set]; exact hlt)

theorem Part.le_length {part : Bytes} (h : Part c part) : 30 ≤ part.length := by
  have hmin := le_localData part
  rcases h.ends with ⟨-, -, hlen⟩ | ⟨-, -, len, -, hlen⟩ <;> omega

/-- Entries one behind the other have increasing offsets. -/
theorem Laid.increasing {z : Bytes} {e e' : ℕ} {offs offs' : List ℕ} {parts : List Bytes}
    (h : Laid z order e e' offs offs' parts) :
    (order.map Prod.fst).Pairwise fun c d => c.offset < d.offset := by
  rw [pairwise_iff_getElem]
  intro i j hi hj hlt
  rw [length_map] at hi hj
  rw [getElem_map, getElem_map, h.starts i _ (List.getElem?_eq_getElem hi),
    h.starts j _ (List.getElem?_eq_getElem hj)]
  have hlen := h.agree.length_eq
  have hip : i < parts.length := by omega
  have hpart := (h.agree.get hi hip).le_length
  have hsub : (parts.take (i + 1)).flatten.length ≤ (parts.take j).flatten.length := by
    have hpre : parts.take (i + 1) <+: parts.take j := take_prefix_take_left (by omega)
    obtain ⟨rest, hrest⟩ := hpre
    rw [← hrest, flatten_append, length_append]
    omega
  rw [take_succ_eq_append_getElem hip, flatten_append, length_append] at hsub
  simp only [flatten_cons, flatten_nil, append_nil] at hsub
  change 30 ≤ parts[i].length at hpart
  omega

/-- The check reads nothing behind the beginning of the directory and ignores the indices. -/
theorem checkLocals_congr {file' : Bytes} {order' : List (Central × ℕ)} {offs o : List ℕ} {e e' : ℕ}
    (offs' : List ℕ) (hlimit : limit ≤ file.length) (hlimit' : limit ≤ file'.length)
    (hfile : file.take limit = file'.take limit) (horder : order.map Prod.fst = order'.map Prod.fst)
    (h : checkLocals file limit order (offs, e) = .ok (o, e')) :
    ∃ o', checkLocals file' limit order' (offs', e) = .ok (o', e') := by
  induction order generalizing order' offs offs' e with
  | nil =>
    cases h
    rw [map_nil, eq_comm, map_eq_nil_iff] at horder
    subst horder
    exact ⟨offs', rfl⟩
  | cons ci order ih =>
    cases order' with
    | nil => cases horder
    | cons di order' =>
      obtain ⟨c, i⟩ := ci
      obtain ⟨d, j⟩ := di
      rw [map_cons, map_cons, List.cons.injEq] at horder
      obtain ⟨hcd, horder⟩ := horder
      dsimp only at hcd
      subst hcd
      simp only [checkLocals, bind_ok, ensure_ok, exists_const] at h
      obtain ⟨hstart, ⟨data, stop⟩, hlocal, hrest⟩ := h
      obtain ⟨o', ho'⟩ := ih (offs'.set j data) horder hrest
      refine ⟨o', ?_⟩
      simp only [checkLocals, bind_ok, ensure_ok, exists_const]
      refine ⟨hstart, (data, stop), ?_, ho'⟩
      rw [checkLocal_ok hlimit', ← hfile]
      exact (checkLocal_ok hlimit).mp hlocal


end Plur1bus.Ext
