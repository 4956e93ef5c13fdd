import Plur1bus.Modules.Graph

/-!
What the graph's two answers are. The cycles are the strongly connected
components with a cycle in them. The start order lists the largest set of
modules that can be started, each once, after its needs, and always the least
of those that could go next: the counts in the queue are the numbers of needs
still unlisted, so a ready entry is the same as a module with nothing left to
wait for.
-/

namespace Plur1bus.Modules

open Program.Digraph List

/-! ### Needs and cycles -/

/-- A module in a cycle: it needs itself, at once or through others. -/
def InCycle (need : String → String → Prop) (n : String) : Prop := Relation.TransGen need n n

/-- A strongly connected component with a cycle in it, as the list of its
members in order. -/
def IsComponent (need : String → String → Prop) (c : List String) : Prop :=
  c.Pairwise (· < ·) ∧ ∃ u, InCycle need u ∧
    ∀ v, v ∈ c ↔ Relation.TransGen need u v ∧ Relation.TransGen need v u

namespace Valid

variable {valid : Valid}

/-- A need between two valid modules. -/
def Need (valid : Valid) (a b : String) : Prop := b ∈ valid.needs a ∧ b ∈ valid.keys

variable {n : String}

theorem get_eq_none (h : n ∉ valid.keys) : valid.get n = none := by
  rw [get, lookup_eq_none_iff]
  intro p hp
  rw [bne_iff_ne]
  rintro rfl
  exact h (mem_toFinset.mpr (mem_map_of_mem (mem_reverse.mp hp)))

theorem needs_eq_nil (h : n ∉ valid.keys) : valid.needs n = [] := by
  rw [needs, get_eq_none h]
  rfl

theorem Need.left_mem {a b : String} (h : Need valid a b) : a ∈ valid.keys := by
  by_contra ha
  have := h.1
  rw [needs_eq_nil ha] at this
  cases this

theorem mem_moduleNeeds {d : Node valid} : d ∈ valid.moduleNeeds n ↔ Need valid n d.1 := by
  simp only [moduleNeeds, mem_filterMap, Need]
  constructor
  · simp_all
  · rintro ⟨hd, hk⟩
    exact ⟨d.1, hd, by rw [dif_pos hk]⟩

variable {u v : String}

/-- A walk between keys is one in the graph of the keys. -/
theorem transGen_nodes (h : Relation.TransGen (Need valid) u v) (hu : u ∈ valid.keys)
    (hv : v ∈ valid.keys) :
    Relation.TransGen (Edge (fun n : Node valid => valid.moduleNeeds n.1)) ⟨u, hu⟩ ⟨v, hv⟩ := by
  induction h with
  | single hab => exact .single (mem_moduleNeeds.mpr hab)
  | tail _ hbc ih => exact .tail (ih hbc.left_mem) (mem_moduleNeeds.mpr hbc)

theorem right_mem (h : Relation.TransGen (Need valid) u v) : v ∈ valid.keys := by
  cases h with
  | single h => exact h.2
  | tail _ h => exact h.2

theorem left_mem (h : Relation.TransGen (Need valid) u v) : u ∈ valid.keys := by
  obtain ⟨b, hb, -⟩ := Relation.TransGen.head'_iff.mp h
  exact hb.left_mem

theorem mem_reach (hu : u ∈ valid.keys) : v ∈ valid.reach u ↔ Relation.TransGen (Need valid) u v := by
  have hwalk : ∀ w : Node valid,
      w ∈ explore (fun n : Node valid => valid.moduleNeeds n.1) (valid.moduleNeeds u).reverse ∅ ↔
        Relation.TransGen (Edge (fun n : Node valid => valid.moduleNeeds n.1)) ⟨u, hu⟩ w :=
    fun w => mem_explore_next (fun n : Node valid => valid.moduleNeeds n.1) (u := ⟨u, hu⟩)
  simp only [reach, Finset.mem_map, hwalk, Function.Embedding.subtype_apply]
  constructor
  · rintro ⟨w, hw, rfl⟩
    exact hw.lift Subtype.val (fun a b hab => mem_moduleNeeds.mp hab)
  · intro h
    exact ⟨⟨v, right_mem h⟩, transGen_nodes h hu (right_mem h), rfl⟩

theorem mem_component (hu : u ∈ valid.keys) : v ∈ valid.component u ↔
      Relation.TransGen (Need valid) u v ∧ Relation.TransGen (Need valid) v u := by
  simp only [component, Finset.mem_sort, Finset.mem_filter, mem_reach hu]
  exact and_congr_right (fun h => mem_reach (right_mem h))

variable {c : List String}

theorem mem_needsCycles : c ∈ valid.needsCycles ↔ ∃ u, InCycle (Need valid) u ∧ valid.component u = c := by
  simp only [needsCycles, Finset.mem_sort, Finset.mem_image, Finset.mem_filter]
  constructor
  · rintro ⟨u, ⟨hu, hr⟩, hc⟩
    exact ⟨u, (mem_reach hu).mp hr, hc⟩
  · rintro ⟨u, hu, hc⟩
    exact ⟨u, ⟨left_mem hu, (mem_reach (left_mem hu)).mpr hu⟩, hc⟩

theorem mem_flatten_needsCycles : n ∈ valid.needsCycles.flatten ↔ InCycle (Need valid) n := by
  simp only [mem_flatten, mem_needsCycles]
  constructor
  · rintro ⟨c, ⟨u, hu, rfl⟩, hn⟩
    obtain ⟨hun, hnu⟩ := (mem_component (left_mem hu)).mp hn
    exact hnu.trans hun
  · intro h
    exact ⟨_, ⟨n, h, rfl⟩, (mem_component (left_mem h)).mpr ⟨h, h⟩⟩

theorem mem_needsCycles_iff : c ∈ valid.needsCycles ↔ IsComponent (Need valid) c := by
  rw [mem_needsCycles]
  constructor
  · rintro ⟨u, hu, rfl⟩
    exact ⟨(Finset.sortedLT_sort _).pairwise, u, hu, fun v => mem_component (left_mem hu)⟩
  · rintro ⟨hsorted, u, hu, hmem⟩
    refine ⟨u, hu, ?_⟩
    have hc : c.toFinset.sort (· ≤ ·) = c := by
      rw [toFinset_sort _ (hsorted.imp ne_of_lt)]
      exact hsorted.imp le_of_lt
    rw [← hc, component]
    congr 1
    ext v
    rw [mem_toFinset, hmem v, ← mem_component (left_mem hu), component, Finset.mem_sort]

/-! ### What can be started -/

/-- Valid modules outside every cycle whose needs are the core or in the set. -/
def Startable (valid : Valid) (S : Set String) : Prop :=
  ∀ n ∈ S, n ∈ valid.keys ∧ ¬InCycle (Need valid) n ∧ ∀ d ∈ valid.needs n, d = CORE ∨ d ∈ S

theorem startable_greatest : IsGreatest {S | Startable valid S} {n | n ∈ valid.startable} := by
  have h := prune_greatest
    (fun ok n => (valid.needs n).any (fun d => d != CORE && !decide (d ∈ ok)))
    (fun S T a hsub hT => by
      simp only [List.any_eq_true, Bool.and_eq_true, bne_iff_ne, Bool.not_eq_true',
        decide_eq_false_iff_not] at hT ⊢
      obtain ⟨d, hd, hcore, hT⟩ := hT
      exact ⟨d, hd, hcore, fun hS => hT (hsub hS)⟩)
    (valid.keys.filter (fun n => n ∉ valid.needsCycles.flatten))
  have hok : ∀ (S : Finset String) n, (valid.needs n).any (fun d => d != CORE && !decide (d ∈ S)) = false ↔
        ∀ d ∈ valid.needs n, d = CORE ∨ d ∈ S := by
    intro S n
    simp only [any_eq_false, Bool.and_eq_true, bne_iff_ne, Bool.not_eq_true',
      decide_eq_false_iff_not, not_and_or, not_not]
  obtain ⟨⟨hsub, hfree⟩, hmax⟩ := h
  constructor
  · intro n hn
    have hkey := Finset.mem_filter.mp (hsub hn)
    exact ⟨hkey.1, fun hc => hkey.2 (mem_flatten_needsCycles.mpr hc), (hok _ n).mp (hfree n hn)⟩
  · -- a closed set of valid modules is finite, so it takes part in the comparison
    classical
    intro S hS n hn
    have hmem : ∀ a, a ∈ valid.keys.filter (fun a => a ∈ S) ↔ a ∈ S := by
      intro a
      rw [Finset.mem_filter]
      exact ⟨fun h => h.2, fun h => ⟨(hS a h).1, h⟩⟩
    refine hmax ⟨fun a ha => ?_, fun a ha => ?_⟩ ((hmem n).mpr hn)
    · obtain ⟨hkey, hcycle, -⟩ := hS a ((hmem a).mp ha)
      rw [Finset.mem_filter]
      exact ⟨hkey, fun hc => hcycle (mem_flatten_needsCycles.mp hc)⟩
    · rw [hok]
      intro d hd
      rw [hmem]
      exact (hS a ((hmem a).mp ha)).2.2 d hd

/-! ### The queue -/

/-- What could be listed next: startable, not listed, and waiting for nothing. -/
def Available (valid : Valid) (ok : Finset String) (listed : List String) (n : String) : Prop :=
  n ∈ ok ∧ n ∉ listed ∧ ∀ d ∈ valid.needs n, d = CORE ∨ d ∈ listed

/-- The needs of a module that are still unlisted. -/
def missing (valid : Valid) (listed : List String) (n : String) : List (Node valid) :=
  (valid.moduleNeeds n).filter (fun d => d.1 ∉ listed)

/-- A list in which every module was, when its turn came, the least of those
available. -/
def Ordered (valid : Valid) (ok : Finset String) (order : List String) : Prop :=
  ∀ pre n post, order = pre ++ n :: post →
    Available valid ok pre n ∧ ∀ v, Available valid ok pre v → valid.entry n ≤ valid.entry v

/-- The queue after some modules have been listed: the counts are those of the
missing needs, and the ready entries are the available modules. -/
structure Counts (valid : Valid) (ok : Finset String) (q : Queue) : Prop where
  nodup : q.order.Nodup
  startable : ∀ n ∈ q.order, n ∈ ok
  closed : ∀ n ∈ q.order, ∀ d ∈ valid.needs n, d = CORE ∨ d ∈ q.order
  ordered : Ordered valid ok q.order
  pending : ∀ n ∈ ok, q.pending n = (valid.missing q.order n).length
  ready : ∀ e, e ∈ q.ready ↔ ∃ n, Available valid ok q.order n ∧ e = valid.entry n

/-- The manifests of the map keep to the schema, and `ok` is a set that can be
started. -/
structure Sound (valid : Valid) (ok : Finset String) : Prop where
  nodup : ∀ n, (valid.needs n).Nodup
  core : CORE ∉ valid.keys
  known : ∀ n ∈ ok, n ∈ valid.keys
  closed : ∀ n ∈ ok, ∀ d ∈ valid.needs n, d = CORE ∨ d ∈ ok

theorem entry_injective {a b : String} (h : valid.entry a = valid.entry b) : a = b :=
  congrArg (fun e => (ofLex e).2) h

variable {ok : Finset String}

theorem nodup_moduleNeeds (hs : Sound valid ok) (n : String) : (valid.moduleNeeds n).Nodup := by
  refine (hs.nodup n).filterMap ?_
  intro a b d ha hb
  simp only [Option.mem_def] at ha hb
  split at ha
  · split at hb
    · exact congrArg Subtype.val ((Option.some.inj ha).trans (Option.some.inj hb).symm)
    · cases hb
  · cases ha

variable {listed : List String}

theorem missing_eq_nil (hs : Sound valid ok) (hn : n ∈ ok) :
    valid.missing listed n = [] ↔ ∀ d ∈ valid.needs n, d = CORE ∨ d ∈ listed := by
  simp only [missing, filter_eq_nil_iff, decide_eq_true_eq, not_not, mem_moduleNeeds]
  constructor
  · intro h d hd
    rcases hs.closed n hn d hd with hcore | hd'
    · exact Or.inl hcore
    · exact Or.inr (h ⟨d, hs.known d hd'⟩ ⟨hd, hs.known d hd'⟩)
  · intro h d hd
    refine (h d.1 hd.1).resolve_left ?_
    intro hcore
    exact hs.core (hcore ▸ d.2)

/-- Listing one more module takes it from the missing needs of those that need
it. -/
theorem length_missing_snoc (hs : Sound valid ok) (hn : n ∈ valid.keys) (hnew : n ∉ listed) :
    (valid.missing (listed ++ [n]) v).length = if n ∈ valid.needs v then (valid.missing listed v).length - 1
      else (valid.missing listed v).length := by
  have hstep : valid.missing (listed ++ [n]) v =
      (valid.missing listed v).filter (fun d => d ≠ ⟨n, hn⟩) := by
    simp only [missing, filter_filter]
    apply filter_congr
    intro d _
    simp only [mem_append, mem_singleton, not_or, ne_eq, Subtype.ext_iff, Bool.decide_and, Bool.and_comm]
  have hnodup : (valid.missing listed v).Nodup := (nodup_moduleNeeds hs v).filter _
  rw [hstep]
  split
  · rename_i hneeds
    have hmem : (⟨n, hn⟩ : Node valid) ∈ valid.missing listed v := by
      rw [missing, mem_filter]
      exact ⟨mem_moduleNeeds.mpr ⟨hneeds, hn⟩, by simpa using hnew⟩
    rw [← length_erase_of_mem hmem, hnodup.erase_eq_filter]
    congr 1
    apply filter_congr
    intro d _
    rw [Bool.eq_iff_iff, decide_eq_true_eq, bne_iff_ne]
  · rename_i hneeds
    rw [filter_eq_self.mpr]
    intro d hd
    rw [decide_eq_true_eq]
    rintro rfl
    exact hneeds (mem_moduleNeeds.mp (mem_of_mem_filter hd)).1

/-! ### One turn of the loop -/

theorem foldl_countDown_order (l : List String) (q : Queue) :
    (l.foldl (valid.countDown n) q).order = q.order := by
  induction l generalizing q with
  | nil => rfl
  | cons v l ih =>
    rw [foldl_cons, ih, countDown]
    split <;> rfl

variable {l : List String}

theorem foldl_countDown_pending (hl : l.Nodup) (q : Queue) (v : String) :
    (l.foldl (valid.countDown n) q).pending v =
      if v ∈ l ∧ n ∈ valid.needs v then q.pending v - 1 else q.pending v := by
  induction l generalizing q with
  | nil => simp
  | cons w l ih =>
    obtain ⟨hw, hl⟩ := nodup_cons.mp hl
    rw [foldl_cons, ih hl, countDown]
    by_cases hv : v = w
    · subst hv
      by_cases hn : n ∈ valid.needs v <;> simp [hw, hn]
    · by_cases hn : n ∈ valid.needs w <;> simp [hv, hn]

theorem foldl_countDown_ready (hl : l.Nodup) (q : Queue) (e : ℕ ×ₗ String) :
    e ∈ (l.foldl (valid.countDown n) q).ready ↔
      e ∈ q.ready ∨ ∃ v ∈ l, n ∈ valid.needs v ∧ q.pending v - 1 = 0 ∧ e = valid.entry v := by
  induction l generalizing q with
  | nil => simp
  | cons w l ih =>
    obtain ⟨hw, hl⟩ := nodup_cons.mp hl
    rw [foldl_cons, ih hl, countDown]
    have hsame : ∀ v ∈ l, Function.update q.pending w (q.pending w - 1) v = q.pending v := by
      intro v hv
      exact Function.update_of_ne (fun h : v = w => hw (h ▸ hv)) _ _
    by_cases hn : n ∈ valid.needs w
    · simp only [if_pos hn, exists_mem_cons_iff]
      have hrest : (∃ v ∈ l, n ∈ valid.needs v ∧
          Function.update q.pending w (q.pending w - 1) v - 1 = 0 ∧ e = valid.entry v) ↔
          ∃ v ∈ l, n ∈ valid.needs v ∧ q.pending v - 1 = 0 ∧ e = valid.entry v := by
        constructor
        · rintro ⟨v, hv, hnv, hp, he⟩
          exact ⟨v, hv, hnv, by rwa [hsame v hv] at hp, he⟩
        · rintro ⟨v, hv, hnv, hp, he⟩
          exact ⟨v, hv, hnv, by rwa [hsame v hv], he⟩
      rw [hrest]
      by_cases hz : q.pending w - 1 = 0
      · rw [if_pos hz, Finset.mem_insert]
        simp only [hn, hz, true_and]
        rw [or_assoc, or_left_comm]
      · rw [if_neg hz]
        simp only [hz, false_and, and_false, false_or]
    · simp only [hn, if_false, exists_mem_cons_iff, false_and, false_or]

variable {q : Queue} {e : ℕ ×ₗ String}

theorem first_eq_some (h : first q = some e) : e ∈ q.ready ∧ ∀ e' ∈ q.ready, e ≤ e' := by
  rw [first] at h
  split at h
  · rw [← Option.some.inj h]
    exact ⟨Finset.min'_mem _ _, fun e' he' => Finset.min'_le _ _ he'⟩
  · cases h

theorem first_eq_none (h : first q = none) : q.ready = ∅ := by
  rw [first] at h
  split at h
  · cases h
  · exact Finset.not_nonempty_iff_eq_empty.mp ‹_›

theorem Ordered.snoc {ok : Finset String} {order : List String} {n : String}
    (h : Ordered valid ok order) (hn : Available valid ok order n)
    (hleast : ∀ v, Available valid ok order v → valid.entry n ≤ valid.entry v) :
    Ordered valid ok (order ++ [n]) := by
  intro pre m post hsplit
  rcases eq_nil_or_concat post with rfl | ⟨post', x, rfl⟩
  · simp_all
  · have hinit : order = pre ++ m :: post' := by
      have : order ++ [n] = (pre ++ m :: post') ++ [x] := by
        rw [hsplit]
        simp
      exact (append_inj' this rfl).1
    exact h pre m post' hinit

/-- After one more module is listed, an available one either was available
before or waited for that one alone. -/
theorem ready_snoc (hs : Sound valid ok) (hc : Counts valid ok q) (hn : Available valid ok q.order n) :
    (e ≠ valid.entry n ∧ e ∈ q.ready ∨
        ∃ v ∈ ok.sort (· ≤ ·), n ∈ valid.needs v ∧ q.pending v - 1 = 0 ∧ e = valid.entry v) ↔
      ∃ v, Available valid ok (q.order ++ [n]) v ∧ e = valid.entry v := by
  have hkey : n ∈ valid.keys := hs.known n hn.1
  have hcore : n ≠ CORE := fun h => hs.core (h ▸ hkey)
  have hcount : ∀ v ∈ ok, n ∈ valid.needs v →
      (q.pending v - 1 = 0 ↔ ∀ d ∈ valid.needs v, d = CORE ∨ d ∈ q.order ++ [n]) := by
    intro v hv hnv
    rw [← missing_eq_nil hs hv, ← length_eq_zero_iff, length_missing_snoc hs hkey hn.2.1,
      if_pos hnv, hc.pending v hv]
  constructor
  · rintro (⟨hne, he⟩ | ⟨v, hv, hnv, hz, rfl⟩)
    · obtain ⟨v, hv, rfl⟩ := (hc.ready e).mp he
      refine ⟨v, ⟨hv.1, ?_, fun d hd => ?_⟩, rfl⟩
      · rw [mem_append, mem_singleton]
        rintro (h | rfl)
        · exact hv.2.1 h
        · exact hne rfl
      · exact (hv.2.2 d hd).imp_right (mem_append_left _)
    · rw [Finset.mem_sort] at hv
      refine ⟨v, ⟨hv, ?_, (hcount v hv hnv).mp hz⟩, rfl⟩
      -- a listed module has its needs listed, and `n` was not
      rw [mem_append, mem_singleton]
      rintro (h | rfl)
      · exact (hc.closed v h n hnv).elim hcore hn.2.1
      · exact (hn.2.2 v hnv).elim hcore hn.2.1
  · rintro ⟨v, ⟨hv, hnew, hready⟩, rfl⟩
    rw [mem_append, mem_singleton, not_or] at hnew
    by_cases hnv : n ∈ valid.needs v
    · exact Or.inr ⟨v, (Finset.mem_sort _).mpr hv, hnv, (hcount v hv hnv).mpr hready, rfl⟩
    · refine Or.inl ⟨fun h => hnew.2 (entry_injective h), (hc.ready _).mpr ⟨v, ⟨hv, hnew.1, ?_⟩, rfl⟩⟩
      intro d hd
      refine (hready d hd).imp_right (fun h => ?_)
      rcases mem_append.mp h with h | h
      · exact h
      · exact absurd (mem_singleton.mp h ▸ hd) hnv

/-- A turn lists the least available module, and the counts follow. -/
theorem Counts.pop {q' : Queue} (hs : Sound valid ok) (hc : Counts valid ok q)
    (h : valid.pop ok q = some q') : Counts valid ok q' ∧ q'.order.length = q.order.length + 1 := by
  rw [Valid.pop] at h
  split at h
  · cases h
  rename_i e hfirst
  obtain ⟨he, hmin⟩ := first_eq_some hfirst
  obtain ⟨n, hn, rfl⟩ := (hc.ready e).mp he
  have hkey : n ∈ valid.keys := hs.known n hn.1
  obtain rfl : (ok.sort (· ≤ ·)).foldl (valid.countDown n)
      { q with ready := q.ready.erase (valid.entry n), order := q.order ++ [n] } = q' :=
    Option.some.inj h
  have hsort : (ok.sort (· ≤ ·)).Nodup := Finset.sort_nodup _ _
  have horder : ((ok.sort (· ≤ ·)).foldl (valid.countDown n)
      { q with ready := q.ready.erase (valid.entry n), order := q.order ++ [n] }).order =
        q.order ++ [n] := foldl_countDown_order _ _
  have hpending : ∀ v ∈ ok, ((ok.sort (· ≤ ·)).foldl (valid.countDown n)
      { q with ready := q.ready.erase (valid.entry n), order := q.order ++ [n] }).pending v =
        (valid.missing (q.order ++ [n]) v).length := by
    intro v hv
    rw [foldl_countDown_pending hsort, length_missing_snoc hs hkey hn.2.1, ← hc.pending v hv]
    simp only [Finset.mem_sort, hv, true_and]
  refine ⟨⟨?_, ?_, ?_, ?_, ?_, ?_⟩, ?_⟩
  · rw [horder]
    exact nodup_append.mpr ⟨hc.nodup, nodup_singleton n, by
      intro a ha b hb
      rw [mem_singleton.mp hb]
      rintro rfl
      exact hn.2.1 ha⟩
  · intro v hv
    rw [horder, mem_append, mem_singleton] at hv
    rcases hv with hv | rfl
    · exact hc.startable v hv
    · exact hn.1
  · intro v hv d hd
    rw [horder, mem_append, mem_singleton] at hv
    rw [horder, mem_append]
    rcases hv with hv | rfl
    · exact (hc.closed v hv d hd).imp_right Or.inl
    · exact (hn.2.2 d hd).imp_right Or.inl
  · rw [horder]
    exact hc.ordered.snoc hn (fun v hv => hmin _ ((hc.ready _).mpr ⟨v, hv, rfl⟩))
  · intro v hv
    rw [hpending v hv, horder]
  · intro e
    rw [foldl_countDown_ready hsort, horder, Finset.mem_erase]
    exact ready_snoc hs hc hn
  · rw [horder, length_append, length_singleton]

theorem Counts.start (hs : Sound valid ok) : Counts valid ok (valid.start ok) := by
  have hmissing : ∀ n, valid.missing [] n = valid.moduleNeeds n := by
    intro n
    simp [missing]
  refine ⟨nodup_nil, fun n hn => (by cases hn), fun n hn => (by cases hn), ?_, ?_, ?_⟩
  · intro pre n post h
    exact absurd h (by simp [Valid.start])
  · intro n _
    exact congrArg List.length (hmissing n).symm
  · intro e
    simp only [Valid.start, Finset.mem_image, Finset.mem_filter, length_eq_zero_iff]
    constructor
    · rintro ⟨n, ⟨hn, hz⟩, rfl⟩
      refine ⟨n, ⟨hn, not_mem_nil, ?_⟩, rfl⟩
      exact (missing_eq_nil hs hn).mp ((hmissing n).trans hz)
    · rintro ⟨n, ⟨hn, -, hz⟩, rfl⟩
      exact ⟨n, ⟨hn, (hmissing n).symm.trans ((missing_eq_nil hs hn).mpr hz)⟩, rfl⟩

/-- The loop keeps the counts; it has listed a module on every turn, or come to
its end. -/
theorem Counts.drain (hs : Sound valid ok) (fuel : ℕ) (hc : Counts valid ok q) :
    Counts valid ok (valid.drain ok fuel q) ∧ ((valid.drain ok fuel q).ready = ∅ ∨
        (valid.drain ok fuel q).order.length = q.order.length + fuel) := by
  induction fuel generalizing q with
  | zero => exact ⟨hc, Or.inr rfl⟩
  | succ fuel ih =>
    rw [Valid.drain]
    cases hpop : valid.pop ok q with
    | none =>
      refine ⟨hc, Or.inl (first_eq_none ?_)⟩
      rw [Valid.pop] at hpop
      split at hpop
      · assumption
      · cases hpop
    | some q' =>
      obtain ⟨hc', hlen⟩ := hc.pop hs hpop
      obtain ⟨hc'', hend⟩ := ih hc'
      refine ⟨hc'', hend.imp_right (fun h => ?_)⟩
      rw [h, hlen]
      omega

/-- With as many modules listed as there are, none is left to be ready. -/
theorem Counts.exhausted (hc : Counts valid ok q) (hlen : q.order.length = ok.card) : q.ready = ∅ := by
  have hall : q.order.toFinset = ok := by
    apply Finset.eq_of_subset_of_card_le
    · intro n hn
      exact hc.startable n (mem_toFinset.mp hn)
    · rw [toFinset_card_of_nodup hc.nodup, hlen]
  rw [Finset.eq_empty_iff_forall_notMem]
  intro e he
  obtain ⟨n, hn, -⟩ := (hc.ready e).mp he
  apply hn.2.1
  rw [← mem_toFinset, hall]
  exact hn.1

/-- When nothing is ready, everything has been listed: among the unlisted
modules one that reaches the fewest others waits for another of them, which
would reach fewer still. -/
theorem Counts.complete (hs : Sound valid ok) (hacyclic : ∀ n ∈ ok, ¬InCycle (Need valid) n)
    (hc : Counts valid ok q) (hend : q.ready = ∅) : ∀ n ∈ ok, n ∈ q.order := by
  by_contra hleft
  push Not at hleft
  obtain ⟨n₀, hn₀, hnew₀⟩ := hleft
  obtain ⟨n, hn, hmin⟩ := Finset.exists_min_image (ok.filter (fun n => n ∉ q.order))
    (fun n => (valid.reach n).card) ⟨n₀, Finset.mem_filter.mpr ⟨hn₀, hnew₀⟩⟩
  obtain ⟨hok, hnew⟩ := Finset.mem_filter.mp hn
  have hwaits : ¬∀ d ∈ valid.needs n, d = CORE ∨ d ∈ q.order := by
    intro h
    have : valid.entry n ∈ q.ready := (hc.ready _).mpr ⟨n, ⟨hok, hnew, h⟩, rfl⟩
    rw [hend] at this
    cases this
  push Not at hwaits
  obtain ⟨d, hd, hcore, hdnew⟩ := hwaits
  have hdok : d ∈ ok := (hs.closed n hok d hd).resolve_left hcore
  have hneed : Need valid n d := ⟨hd, hs.known d hdok⟩
  have hfewer : valid.reach d ⊂ valid.reach n := by
    rw [Finset.ssubset_iff_of_subset]
    · refine ⟨d, (mem_reach (hs.known n hok)).mpr (.single hneed), fun h => ?_⟩
      exact hacyclic d hdok ((mem_reach (hs.known d hdok)).mp h)
    · intro v hv
      exact (mem_reach (hs.known n hok)).mpr
        (.head hneed ((mem_reach (hs.known d hdok)).mp hv))
  have := hmin d (Finset.mem_filter.mpr ⟨hdok, hdnew⟩)
  have := Finset.card_lt_card hfewer
  omega

end Valid

/-! ### The installed modules -/

/-- An installed module with its valid manifest. -/
def Has (mods : List Installed) (n : String) (m : Manifest) : Prop :=
  ∃ i ∈ mods, i.name = n ∧ i.manifest = .ok m

/-- A need of one valid module for another. -/
def Needs (mods : List Installed) (a b : String) : Prop :=
  ∃ m m', Has mods a m ∧ b ∈ m.needs ∧ Has mods b m'

/-- A set of valid modules, none in a cycle, that can be started together. -/
def Startable (mods : List Installed) (S : Set String) : Prop :=
  ∀ n ∈ S, ∃ m, Has mods n m ∧ ¬InCycle (Needs mods) n ∧ ∀ d ∈ m.needs, d = CORE ∨ d ∈ S

/-- The list starts each module of `S` once, after its needs, and at each place
the least by priority and name of those whose needs are all listed. -/
structure StartsInOrder (mods : List Installed) (S : Set String) (order : List String) : Prop where
  nodup : order.Nodup
  members : ∀ n, n ∈ order ↔ n ∈ S
  after_needs : ∀ pre n post, order = pre ++ n :: post →
    ∀ m, Has mods n m → ∀ d ∈ m.needs, d = CORE ∨ d ∈ pre
  least : ∀ pre n post, order = pre ++ n :: post → ∀ m, Has mods n m →
    ∀ v mv, Has mods v mv → v ∈ S → v ∉ pre → (∀ d ∈ mv.needs, d = CORE ∨ d ∈ pre) →
      toLex (m.priority, n) ≤ toLex (mv.priority, v)

variable {mods : List Installed} {n : String} {m : Manifest}

theorem mem_valid : (n, m) ∈ valid mods ↔ Has mods n m := by
  simp only [valid, mem_filterMap, Has]
  constructor
  · grind
  · rintro ⟨i, hi, rfl, hm⟩
    exact ⟨i, hi, by rw [hm]⟩

theorem mem_keys : n ∈ (valid mods).keys ↔ ∃ m, Has mods n m := by
  simp only [Valid.keys, mem_toFinset, mem_map]
  constructor
  · rintro ⟨⟨k, m⟩, hp, rfl⟩
    exact ⟨m, mem_valid.mp hp⟩
  · rintro ⟨m, h⟩
    exact ⟨(n, m), mem_valid.mpr h, rfl⟩

theorem has_unique (hd : (mods.map Installed.name).Nodup) {m' : Manifest} (h : Has mods n m)
    (h' : Has mods n m') : m = m' := by
  obtain ⟨i, hi, hn, hm⟩ := h
  obtain ⟨j, hj, hn', hm'⟩ := h'
  obtain rfl : i = j := inj_on_of_nodup_map hd hi hj (hn.trans hn'.symm)
  rw [hm] at hm'
  exact Except.ok.inj hm'

theorem get_valid (hd : (mods.map Installed.name).Nodup) (h : Has mods n m) :
    (valid mods).get n = some m := by
  cases hget : (valid mods).get n with
  | none =>
    have := lookup_eq_none_iff.mp hget (n, m) (mem_reverse.mpr (mem_valid.mpr h))
    simp at this
  | some m' =>
    obtain ⟨l, r, hl, -⟩ := lookup_eq_some_iff.mp hget
    have hmem : (n, m') ∈ (valid mods).reverse := by
      rw [hl]
      exact mem_append_right _ mem_cons_self
    rw [has_unique hd h (mem_valid.mp (mem_reverse.mp hmem))]

section Distinct

variable {mods : List Installed} (hd : (mods.map Installed.name).Nodup)
include hd

variable {n : String} {m : Manifest}

theorem needs_valid (h : Has mods n m) : (valid mods).needs n = m.needs := by
  rw [Valid.needs, get_valid hd h]
  rfl

theorem entry_valid (h : Has mods n m) : (valid mods).entry n = toLex (m.priority, n) := by
  rw [Valid.entry, Valid.priority, get_valid hd h]
  rfl

theorem need_valid : Valid.Need (valid mods) = Needs mods := by
  ext a b
  constructor
  · intro h
    obtain ⟨m, hm⟩ := mem_keys.mp h.left_mem
    obtain ⟨m', hm'⟩ := mem_keys.mp h.2
    exact ⟨m, m', hm, needs_valid hd hm ▸ h.1, hm'⟩
  · rintro ⟨m, m', hm, hb, hm'⟩
    exact ⟨needs_valid hd hm ▸ hb, mem_keys.mpr ⟨m', hm'⟩⟩

theorem startable_valid {S : Set String} : Valid.Startable (valid mods) S ↔ Startable mods S := by
  refine forall₂_congr (fun n _ => ?_)
  rw [need_valid hd, mem_keys]
  constructor
  · rintro ⟨⟨m, hm⟩, hc, hneeds⟩
    exact ⟨m, hm, hc, needs_valid hd hm ▸ hneeds⟩
  · rintro ⟨m, hm, hc, hneeds⟩
    exact ⟨⟨m, hm⟩, hc, needs_valid hd hm ▸ hneeds⟩

/-- What the schema and the registry promise, and what `startable` adds. -/
theorem sound_valid : Valid.Sound (valid mods) (valid mods).startable := by
  refine ⟨fun n => ?_, fun hcore => ?_, fun n hn => ?_, fun n hn => ?_⟩
  · by_cases hk : n ∈ (valid mods).keys
    · obtain ⟨m, hm⟩ := mem_keys.mp hk
      rw [needs_valid hd hm]
      exact m.needs_nodup
    · rw [Valid.needs_eq_nil hk]
      exact nodup_nil
  · obtain ⟨m, i, -, hname, hm⟩ := mem_keys.mp hcore
    apply m.name_free
    rw [i.named m hm, hname]
    exact mem_cons_self
  · exact (Valid.startable_greatest.1 n hn).1
  · exact (Valid.startable_greatest.1 n hn).2.2

end Distinct

/-- The cycles are the strongly connected components with a cycle, each once,
and the modules are started in order. -/
theorem modules_start_in_order (mods : List Installed) (hd : (mods.map Installed.name).Nodup) :
    (valid mods).needsCycles.Nodup ∧
    (∀ c, c ∈ (valid mods).needsCycles ↔ IsComponent (Needs mods) c) ∧
    ∃ S, IsGreatest {S | Startable mods S} S ∧ StartsInOrder mods S (startOrder mods) := by
  refine ⟨Finset.sort_nodup _ _, fun c => ?_, {n | n ∈ (valid mods).startable}, ?_, ?_⟩
  · rw [Valid.mem_needsCycles_iff, need_valid hd]
  · simpa only [startable_valid hd] using (Valid.startable_greatest : IsGreatest {S | Valid.Startable (valid mods) S} _)
  · have hs := sound_valid hd
    obtain ⟨hc, hend⟩ := (Valid.Counts.start hs).drain hs (valid mods).startable.card
    have hready := hend.elim id (fun hlen => hc.exhausted (hlen.trans (Nat.zero_add _)))
    have hacyclic : ∀ n ∈ (valid mods).startable, ¬InCycle (Valid.Need (valid mods)) n :=
      fun n hn => (Valid.startable_greatest.1 n hn).2.1
    refine ⟨hc.nodup, fun n => ⟨hc.startable n, hc.complete hs hacyclic hready n⟩, ?_, ?_⟩
    · intro pre n post hsplit m hm d hdm
      obtain ⟨⟨-, -, hneeds⟩, -⟩ := hc.ordered pre n post hsplit
      exact hneeds d (needs_valid hd hm ▸ hdm)
    · intro pre n post hsplit m hm v mv hmv hv hnew hneeds
      obtain ⟨-, hleast⟩ := hc.ordered pre n post hsplit
      rw [← entry_valid hd hm, ← entry_valid hd hmv]
      exact hleast v ⟨hv, hnew, needs_valid hd hmv ▸ hneeds⟩

/-- Two modules that need each other, one that needs them, and two that can
start. -/
def sampleModules : List Installed := let installed (name : String) (needs : List String) (priority : ℕ)
      (hf : name ∉ RESERVED_NAMES) (hn : needs.Nodup) : Installed :=
    { name := name
      manifest := .ok ⟨name, needs, priority, hf, hn⟩
      named := fun _ h => (Except.ok.inj h) ▸ rfl }
  [installed "ping" ["pong"] 500 (by decide) (by decide),
    installed "pong" ["ping"] 500 (by decide) (by decide),
    installed "held" ["core", "ping"] 100 (by decide) (by decide),
    installed "board" ["core", "store"] 200 (by decide) (by decide),
    installed "store" ["core"] 300 (by decide) (by decide)]

theorem modules_start_in_order_sample : (sampleModules.map Installed.name).Nodup ∧
    ∃ S, IsGreatest {S | Startable sampleModules S} S ∧
      StartsInOrder sampleModules S (startOrder sampleModules) :=
  ⟨by decide, (modules_start_in_order sampleModules (by decide)).2.2⟩

end Plur1bus.Modules
