import Plur1bus.Collab.WorkBudgetStore
import Plur1bus.Program.Runs

/-!
Whole interleavings of calls on a tree of work budgets. What is carried along is
that each reservation and its entry in the book agree on where it counts, on its
tokens and on whether it is still active, that no two reservations share a flag,
and that at each budget the counters come to what the book accounts for.
-/

namespace Plur1bus.Collab.WorkBudget

open Program.Keyed List

/-- A reservation and its entry say the same. -/
structure Linked (s : Store) (r : Reservation) (e : Entry) : Prop where
  cells_eq : r.map Link.cell = e.path
  nodup : e.path.Nodup
  tokens : ∀ link ∈ r, link.tokens = e.tokens
  own : (r.map Link.active).Nodup
  active : ∀ link ∈ r, s.active link.active = decide (e.ending = .active)
  known : ∀ link ∈ r, link.active < s.flags

structure Sound (s : State) (book : Book) : Prop where
  /-- The levels above a budget were made before it. -/
  rising : ∀ (i : ℕ) (b : Budget), s.budgets[i]? = some b → b.head?.map Level.cell = some i ∧
    (b.map Level.cell).Pairwise (· > ·)
  limits : ∀ b ∈ s.budgets, ∀ level ∈ b, s.limit? level.cell = some level.limit
  size : s.reservations.length = book.length
  linked : ∀ (i : ℕ) (r : Reservation) (e : Entry), s.reservations[i]? = some r → book[i]? = some e → Linked s.store r e
  apart : s.reservations.Pairwise fun r r' => ∀ link ∈ r, ∀ link' ∈ r', link.active < link'.active
  inside : ∀ e ∈ book, ∀ c ∈ e.path, c < s.budgets.length
  balance : ∀ c, (s.store.cells c).used + (s.store.cells c).reserved = accounted book c
  bounded : ∀ c limit, s.limit? c = some limit → (s.store.cells c).used + (s.store.cells c).reserved ≤ limit

theorem sound_init : Sound {} [] where
  rising := by simp
  limits := by simp
  size := rfl
  linked := by simp
  apart := List.Pairwise.nil
  inside := by simp
  balance := fun _ => rfl
  bounded := by simp [State.limit?]

namespace Sound

variable {s : State} {book : Book}

/-! ### A budget is made -/

theorem limit?_lt {c limit : ℕ} (h : s.limit? c = some limit) : c < s.budgets.length := by
  by_contra hge
  rw [State.limit?, List.getElem?_eq_none (by omega)] at h
  cases h

variable {b : Budget}

/-- The levels of a parent, none for a root, are levels of budgets made before. -/
theorem parent (h : Sound s book) {parent : Option ℕ} (hb : s.parentOf parent = some b) :
    (∀ level ∈ b, s.limit? level.cell = some level.limit) ∧
    (b.map Level.cell).Pairwise (· > ·) := by
  cases parent with
  | none =>
    cases hb
    simp
  | some i => exact ⟨h.limits b (mem_of_getElem? hb), (h.rising i b hb).2⟩

theorem limit?_create {limit : ℕ} (c : ℕ) :
    State.limit? { s with budgets := s.budgets ++ [⟨s.budgets.length, limit⟩ :: b] } c =
      if c = s.budgets.length then some limit else s.limit? c := by
  rw [State.limit?, State.limit?]
  rcases lt_trichotomy c s.budgets.length with hlt | rfl | hgt
  · rw [List.getElem?_append_left hlt, if_neg (by omega)]
  · simp
  · rw [if_neg (by omega), List.getElem?_eq_none (by simp; omega), List.getElem?_eq_none (by omega)]

theorem create (h : Sound s book) (limit : ℕ) (parent : Option ℕ) :
    Sound (s.step (.create limit parent)) book := by
  rw [State.step]
  cases hparent : s.parentOf parent with
  | none => exact h
  | some b =>
    obtain ⟨habove, hpair⟩ := h.parent hparent
    have hbelow : ∀ level ∈ b, level.cell < s.budgets.length := fun level hlevel =>
      limit?_lt (habove level hlevel)
    have hold : ∀ level : Level, s.limit? level.cell = some level.limit →
        State.limit? { s with budgets := s.budgets ++ [⟨s.budgets.length, limit⟩ :: b] } level.cell =
          some level.limit := by
      intro level hlevel
      rw [limit?_create, if_neg (by have := limit?_lt hlevel; omega), hlevel]
    refine ⟨?_, ?_, h.size, h.linked, h.apart, ?_, h.balance, ?_⟩
    · intro i b' hb'
      rw [List.getElem?_append] at hb'
      split_ifs at hb' with hi
      · exact h.rising i b' hb'
      · rw [List.getElem?_singleton] at hb'
        split_ifs at hb' with hlast
        cases hb'
        refine ⟨?_, ?_⟩
        · show some s.budgets.length = some i
          congr 1
          omega
        · simp_all
    · intro b' hb' level hlevel
      rcases mem_append.mp hb' with hb' | hb'
      · exact hold level (h.limits b' hb' level hlevel)
      · rw [mem_singleton.mp hb'] at hlevel
        rcases mem_cons.mp hlevel with rfl | hlevel
        · rw [limit?_create, if_pos rfl]
        · exact hold level (habove level hlevel)
    · intro e he c hc
      have := h.inside e he c hc
      simp only [length_append, length_singleton]
      omega
    · intro c limit' hlimit
      rw [limit?_create] at hlimit
      split_ifs at hlimit with hc
      · -- nothing counts at a budget that was not there
        have hnone : accounted book c = 0 := sumOf_eq_zero fun e he => by
          rw [decide_eq_false_iff_not]
          intro hin
          have := h.inside e he c hin
          omega
        rw [h.balance, hnone]
        omega
      · exact h.bounded c limit' hlimit

/-! ### A reservation is made -/

theorem nodup_of_rising (h : (b.map Level.cell).Pairwise (· > ·)) :
    (b.map Level.cell).Nodup := h.imp fun hlt => Nat.ne_of_gt hlt

theorem accounted_snoc (book : Book) (e : Entry) (c : ℕ) :
    accounted (book ++ [e]) c = accounted book c + if c ∈ e.path then e.amount else 0 := by
  simp [accounted, sumOf_snoc]

variable {i : ℕ} {r : Reservation}

theorem reserve (h : Sound s book) (hb : s.budgets[i]? = some b) {tokens : Number} {store : Store}
    (hr : WorkBudget.reserve tokens b s.store = (some r, store)) :
    Sound { s with store, reservations := s.reservations ++ [r] }
      (book ++ [{ path := b.map Level.cell, tokens := (tokens.safeFrom 0).getD 0 }]) := by
  have hrise := h.rising i b hb
  have hnodup := nodup_of_rising hrise.2
  have hres := reserve_some hnodup hr
  set n := (tokens.safeFrom 0).getD 0
  have hmem := mem_of_getElem? hb
  -- the flags of the reservations made before stay as they are
  have hold : ∀ r' ∈ s.reservations, ∀ link ∈ r', link.active < s.store.flags := by
    intro r' hr' link hlink
    obtain ⟨j, hj⟩ := List.getElem?_of_mem hr'
    have hjlt := (List.getElem?_eq_some_iff.mp hj).1
    obtain ⟨e, he⟩ : ∃ e, book[j]? = some e := ⟨_, List.getElem?_eq_getElem (h.size ▸ hjlt)⟩
    exact (h.linked j r' e hj he).known link hlink
  have hkept : ∀ r' ∈ s.reservations, ∀ link ∈ r', store.active link.active =
      s.store.active link.active := by
    intro r' hr' link hlink
    have hnew : link.active ∉ r.map Link.active := by
      intro hin
      obtain ⟨link', hlink', hsame⟩ := mem_map.mp hin
      have h₁ := (hres.fresh link' hlink').1
      have h₂ := hold r' hr' link hlink
      omega
    rw [hres.active]
    simp only [contains_eq_mem, hnew, decide_false, Bool.or_false]
  refine ⟨h.rising, h.limits, by simp [h.size], ?_, ?_, ?_, ?_, ?_⟩
  · intro j r' e hr' he
    rw [List.getElem?_append] at hr' he
    rw [← h.size] at he
    split_ifs at hr' he with hj
    · have hlink := h.linked j r' e hr' he
      refine ⟨hlink.cells_eq, hlink.nodup, hlink.tokens, hlink.own, ?_, ?_⟩
      · intro link hin
        rw [← hlink.active link hin]
        exact hkept r' (mem_of_getElem? hr') link hin
      · exact fun link hin => lt_of_lt_of_le (hlink.known link hin) hres.later
    · rw [List.getElem?_singleton] at hr' he
      split_ifs at hr' he with hlast
      cases hr'
      cases he
      refine ⟨hres.cells_eq, hnodup, hres.tokens, hres.own, ?_, fun link hin => (hres.fresh link hin).2⟩
      intro link hin
      have hmine : link.active ∈ r.map Link.active := mem_map_of_mem hin
      rw [hres.active]
      simp only [contains_eq_mem, hmine, decide_true, Bool.or_true]
  · rw [pairwise_append]
    refine ⟨h.apart, pairwise_singleton _ _, ?_⟩
    intro r' hr' r'' hr'' link hlink link' hlink'
    rw [mem_singleton.mp hr''] at hlink'
    exact lt_of_lt_of_le (hold r' hr' link hlink) (hres.fresh link' hlink').1
  · intro e he c hc
    rcases mem_append.mp he with he | he
    · exact h.inside e he c hc
    · rw [mem_singleton.mp he] at hc
      obtain ⟨level, hlevel, rfl⟩ := mem_map.mp hc
      exact limit?_lt (h.limits b hmem level hlevel)
  · intro c
    show (store.cells c).used + (store.cells c).reserved = _
    rw [hres.counted, shift_sum, accounted_snoc, h.balance, zero_add]
    rfl
  · intro c limit hlimit
    show (store.cells c).used + (store.cells c).reserved ≤ _
    rw [hres.counted, shift_sum]
    have hbefore := h.bounded c limit hlimit
    split_ifs with hc
    · obtain ⟨level, hlevel, rfl⟩ := mem_map.mp hc
      have hown : level.limit = limit := Option.some.inj ((h.limits b hmem level hlevel).symm.trans hlimit)
      have := hres.room level hlevel
      omega
    · omega

/-! ### A reservation ends -/

variable {e : Entry} {ending : Ending}

theorem close_active (h : e.ending = .active) : e.close ending = { e with ending } := if_pos h

theorem close_ended (h : e.ending ≠ .active) : e.close ending = e := if_neg h

/-- An entry that has ended stays as it is, and so does the book. -/
theorem modify_ended (he : book[i]? = some e) (h : e.ending ≠ .active) :
    book.modify i (Entry.close ending) = book := by
  apply ext_getElem?
  intro j
  by_cases hij : i = j
  · subst hij
    rw [List.getElem?_modify_eq, he, Option.map_eq_map, Option.map_some, close_ended h]
  · rw [List.getElem?_modify_ne _ _ hij]

theorem path_close (e : Entry) (ending : Ending) : (e.close ending).path = e.path := by
  rw [Entry.close]
  split_ifs <;> rfl

theorem mem_close (he : e ∈ book.modify i (Entry.close ending)) : ∃ e' ∈ book, e.path = e'.path := by
  obtain ⟨j, hj⟩ := List.getElem?_of_mem he
  by_cases hij : i = j
  · subst hij
    rw [List.getElem?_modify_eq, Option.map_eq_map, Option.map_eq_some_iff] at hj
    obtain ⟨e', he', rfl⟩ := hj
    exact ⟨e', mem_of_getElem? he', path_close e' ending⟩
  · rw [List.getElem?_modify_ne _ _ hij] at hj
    exact ⟨e, mem_of_getElem? hj, rfl⟩

/-- Two reservations share no flag. -/
theorem flags_ne (h : Sound s book) {j : ℕ} {r' : Reservation} (hr : s.reservations[i]? = some r)
    (hr' : s.reservations[j]? = some r') (hij : i ≠ j) {link link' : Link} (hl : link ∈ r)
    (hl' : link' ∈ r') : link.active ≠ link'.active := by
  obtain ⟨hi, rfl⟩ := List.getElem?_eq_some_iff.mp hr
  obtain ⟨hj, rfl⟩ := List.getElem?_eq_some_iff.mp hr'
  have hapart := pairwise_iff_getElem.mp h.apart
  rcases Nat.lt_or_gt_of_ne hij with hlt | hgt
  · exact Nat.ne_of_lt (hapart i j hi hj hlt link hl link' hl')
  · exact Nat.ne_of_gt (hapart j i hj hi hgt link' hl' link hl)

theorem accounted_close (he : book[i]? = some e) (h : e.ending = .active) (c : ℕ) :
    accounted (book.modify i (Entry.close ending)) c =
      accounted book c + if c ∈ e.path then ({ e with ending } : Entry).amount - e.tokens else 0 := by
  have hmod := sumOf_modify (p := fun e : Entry => decide (c ∈ e.path)) (w := Entry.amount)
    (f := Entry.close ending) he
  have hamount : e.amount = e.tokens := by rw [Entry.amount, h]
  rw [close_active h] at hmod
  unfold accounted
  by_cases hc : c ∈ e.path
  · simp only [hc, decide_true, if_true] at hmod ⊢
    omega
  · simp only [hc, decide_false, Bool.false_eq_true, if_false] at hmod ⊢
    omega

/-- Settling or releasing: the ending counts for what was spent. -/
theorem close (h : Sound s book) {actual : ℕ} (hr : s.reservations[i]? = some r)
    (hne : ending ≠ .active) (hcount : ∀ e : Entry, ({ e with ending } : Entry).amount = actual)
    (hle : ∀ e ∈ book[i]?, e.ending = .active → actual ≤ e.tokens) :
    Sound { s with store := settle actual r s.store } (book.modify i (Entry.close ending)) := by
  have hi := (List.getElem?_eq_some_iff.mp hr).1
  obtain ⟨e, he⟩ : ∃ e, book[i]? = some e := ⟨_, List.getElem?_eq_getElem (h.size ▸ hi)⟩
  have hlink := h.linked i r e hr he
  by_cases hopen : e.ending = .active
  · have hclosed : Closed e.tokens actual r s.store _ := settle_active (hlink.cells_eq ▸ hlink.nodup) hlink.own
      hlink.tokens (fun link hin => by rw [hlink.active link hin, hopen]; rfl)
    have hcounted := hclosed.counted
    rw [hlink.cells_eq] at hcounted
    have hspent := hle e he hopen
    refine ⟨h.rising, h.limits, by simp [h.size], ?_, h.apart, ?_, ?_, ?_⟩
    · intro j r' e' hr' he'
      by_cases hij : i = j
      · subst hij
        cases hr.symm.trans hr'
        rw [List.getElem?_modify_eq, he] at he'
        cases he'
        rw [close_active hopen]
        refine ⟨hlink.cells_eq, hlink.nodup, hlink.tokens, hlink.own, ?_, ?_⟩
        · intro link hin
          rw [hclosed.active]
          have hmine : link.active ∈ r.map Link.active := mem_map_of_mem hin
          simp [hmine, hne]
        · intro link hin
          rw [hclosed.flags]
          exact hlink.known link hin
      · rw [List.getElem?_modify_ne _ _ hij] at he'
        have hother := h.linked j r' e' hr' he'
        refine ⟨hother.cells_eq, hother.nodup, hother.tokens, hother.own, ?_, ?_⟩
        · intro link hin
          have hnot : link.active ∉ r.map Link.active := by
            intro hmem
            obtain ⟨link', hlink', hsame⟩ := mem_map.mp hmem
            exact h.flags_ne hr hr' hij hlink' hin hsame
          rw [hclosed.active, hother.active link hin]
          simp only [contains_eq_mem, hnot, decide_false, Bool.not_false, Bool.and_true]
        · intro link hin
          rw [hclosed.flags]
          exact hother.known link hin
    · intro e' he' c hc
      obtain ⟨e'', hin, hpath⟩ := mem_close he'
      exact h.inside e'' hin c (hpath ▸ hc)
    · intro c
      show ((settle actual r s.store).cells c).used + ((settle actual r s.store).cells c).reserved = _
      rw [hcounted, shift_sum, accounted_close he hopen, h.balance, hcount]
      rfl
    · intro c limit hlimit
      show ((settle actual r s.store).cells c).used + ((settle actual r s.store).cells c).reserved ≤ _
      rw [hcounted, shift_sum]
      have hbefore := h.bounded c limit hlimit
      split_ifs <;> omega
  · have hdown : ∀ link ∈ r, s.store.active link.active = false := fun link hin => by
      rw [hlink.active link hin, decide_eq_false_iff_not]
      exact hopen
    rw [settle_closed hdown, modify_ended he hopen]
    exact h

/-! ### Any call -/

theorem act (h : Sound s book) (op : Op) (hop : Within (s, book) op) :
    Sound (WorkBudget.act (s, book) op).1 (WorkBudget.act (s, book) op).2 := by
  show Sound (s.step op) (book.step s op)
  cases op with
  | create limit parent => exact h.create limit parent
  | reserve i tokens =>
    rw [State.step, Book.step]
    cases hb : s.budgets[i]? with
    | none => exact h
    | some b =>
      dsimp only
      rcases hr : WorkBudget.reserve tokens b s.store with ⟨_ | r, store⟩
      · have hsame := reserve_none tokens b s.store (by rw [hr])
        rw [hr] at hsame
        obtain rfl : store = s.store := hsame
        exact h
      · exact h.reserve hb hr
  | settle i actual =>
    rw [State.step, Book.step]
    cases hr : s.reservations[i]? with
    | none =>
      have hge := List.getElem?_eq_none_iff.mp hr
      rw [modify_eq_self (h.size ▸ hge)]
      exact h
    | some r => exact h.close hr (by simp) (fun _ => rfl) hop
  | release i =>
    rw [State.step, Book.step]
    cases hr : s.reservations[i]? with
    | none =>
      have hge := List.getElem?_eq_none_iff.mp hr
      rw [modify_eq_self (h.size ▸ hge)]
      exact h
    | some r =>
      dsimp only
      rw [release_eq_settle]
      exact h.close hr (by simp) (fun _ => rfl) (fun _ _ _ => Nat.zero_le _)

end Sound

/-- However budgets are nested and their reservations made, settled and released,
what is used and reserved at each budget is what the book accounts for there, and
stays within its limit; a reserve that throws leaves every budget as it was. -/
theorem work_budgets (ops : List Op) (h : Program.Along act Within ({}, []) ops) :
    let (s, book) := ops.foldl act ({}, [])
    (∀ budget, (s.store.cells budget).used + (s.store.cells budget).reserved = accounted book budget) ∧
    (∀ budget limit, s.limit? budget = some limit →
      (s.store.cells budget).used + (s.store.cells budget).reserved ≤ limit) ∧
    (∀ budget tokens, s.Throws budget tokens → s.step (.reserve budget tokens) = s) := by
  have hsound : Sound (ops.foldl act ({}, [])).1 (ops.foldl act ({}, [])).2 :=
    h.keeps (I := fun s : State × Book => Sound s.1 s.2) (fun _ op hs hop => hs.act op hop) sound_init
  refine ⟨hsound.balance, hsound.bounded, ?_⟩
  rintro budget tokens ⟨b, hb, hthrows⟩
  rw [State.step, hb]
  dsimp only
  rcases hr : reserve tokens b (ops.foldl act ({}, [])).1.store with ⟨_ | r, store⟩
  · have hsame := reserve_none tokens b _ hthrows
    rw [hr] at hsame
    obtain rfl := hsame
    rfl
  · rw [hr] at hthrows
    cases hthrows

/-- A root of 10, a child of 6 and its child of 8: the second reserve is refused at
the child, and only the first settle of the first counts. -/
theorem work_budgets_nested : let ops : List Op := [.create 10 none, .create 6 (some 0), .create 8 (some 1),
      .reserve 2 (.int 5), .reserve 2 (.int 2), .reserve 0 (.int 4), .settle 0 3, .settle 0 5, .release 0]
    let (s, book) := ops.foldl act ({}, [])
    s.store.cells 0 = ⟨3, 4⟩ ∧ s.store.cells 2 = ⟨3, 0⟩ ∧ book.length = 2 ∧
    (s.store.cells 0).used + (s.store.cells 0).reserved = accounted book 0 := by
  refine ⟨by decide, by decide, by decide, (work_budgets [.create 10 none, .create 6 (some 0),
    .create 8 (some 1), .reserve 2 (.int 5), .reserve 2 (.int 2), .reserve 0 (.int 4), .settle 0 3,
    .settle 0 5, .release 0] ?_).1 0⟩
  decide

end Plur1bus.Collab.WorkBudget
