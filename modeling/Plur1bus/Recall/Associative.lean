import Plur1bus.Recall.Stages
import Plur1bus.Recall.Spread
import Plur1bus.Program.Answers
import Plur1bus.Program.Fold

/-!
Associative recall walks through visible memories only. The endpoints the access
checks let through are visible, and the walk sees the edges between these alone;
so a memory that only the graph brought hangs on one of the first scored hits by
edges between visible memories. Hydration and the last check ask again for every
row that is returned.
-/

open Program

namespace Plur1bus.Recall

open List

open Program.Prog (Answers)
open Program.Digraph (Hops)

/-! ### Rules for the stages -/

theorem answers_ofStore {α : Type} {Q : α → Prop} {r : Except StoreError α}
    (h : ∀ a, r = .ok a → Q a) : Answers Q (ofStore r) := by
  refine Answers.ofExcept (fun a ha => ?_)
  cases r with
  | error e => cases ha
  | ok found =>
    cases ha
    exact h _ rfl

/-- What passes the check has what the check asks for. -/
theorem answers_retain {α : Type} {P Q : α → Prop} {keep : α → Stage Bool} {l : List α}
    (h : ∀ a ∈ l, P a) (hkeep : ∀ a, P a → Answers (fun kept => kept = true → Q a) (keep a)) :
    Answers (fun l' => ∀ a ∈ l', Q a) (retain keep l) := by
  induction l with
  | nil => exact Answers.pure (by simp)
  | cons a l ih =>
    rw [forall_mem_cons] at h
    refine (hkeep a h.1).bind (fun kept hkept => ?_)
    refine (ih h.2).bind (fun rest hrest => Answers.pure ?_)
    split
    · rename_i hk
      rw [forall_mem_cons]
      exact ⟨hkept hk, hrest⟩
    · exact hrest

/-- A rejection ends in a refusal. -/
theorem answers_rejected {P : Prop} (memoryId stage reason : String) :
    Answers (fun kept => kept = true → P)
      (do reject memoryId stage reason; pure false : Stage Bool) := by
  refine Answers.after (fun _ => Answers.pure ?_)
  intro h
  cases h

variable {F C : Type} (input : StageInput F C)

theorem answers_aclAllows (stage : String) (hit : Hit F) :
    Answers (fun kept => kept = true → ∃ row, hit.row = some row ∧ input.readable row = .ok ())
      (aclAllows input stage hit) := by
  unfold aclAllows
  split
  · refine Answers.pure ?_
    intro h
    cases h
  · rename_i row hrow
    split
    · rename_i hok
      exact Answers.pure (fun _ => ⟨row, hrow, hok⟩)
    · exact answers_rejected _ _ _

variable [Double F]

/-- The request may see the row: it is live, and the access rules let it pass. -/
def StageInput.Sees (row : MemoryRow F) : Prop :=
  input.live row = true ∧ input.readable row = .ok ()

/-- The memory is a row of the store the request may see. -/
def StageInput.Visible (id : String) : Prop :=
  ∃ row, input.store.get id = .ok (some row) ∧ input.Sees row

/-- An edge, in a direction it has, between two visible memories. -/
def StageInput.VisibleHop (a b : String) : Prop :=
  Joined input.edges a b ∧ input.Visible a ∧ input.Visible b

variable {P : Hit F → Prop} {hits : List (Hit F)}

theorem answers_rejectInactive (h : ∀ hit ∈ hits, P hit) :
    Answers (fun l => ∀ hit ∈ l, P hit ∧ ∃ row, hit.row = some row ∧ input.live row = true)
      (rejectInactive input hits) := by
  refine answers_retain h (fun hit hhit => ?_)
  dsimp only
  refine Answers.ite (fun hlive => Answers.pure (fun _ => ⟨hhit, ?_⟩))
    (fun _ => answers_rejected _ _ _)
  exact (Option.any_eq_true _ _).mp hlive

/-! ### Vector hits -/

/-- A hit of the vector search: its row, found by the search and seen by the request. -/
structure VectorHit (hit : Hit F) : Prop where
  source : hit.source = .vector
  depth : hit.depth = none
  row : ∃ row, hit.row = some row ∧ hit.id = row.id ∧ input.Sees row

variable {input}

variable {hit : Hit F}

theorem VectorHit.rescore (h : VectorHit input hit) (emotion : Emotion F) :
    VectorHit input (rescore emotion hit) := by
  obtain ⟨row, hrow, hid, hsees⟩ := h.row
  unfold Recall.rescore
  rw [hrow]
  exact ⟨h.source, h.depth, row, rfl, hid, hsees⟩

theorem vectorHit_scoreHits (h : ∀ hit ∈ hits, VectorHit input hit) (emotion : Emotion F) :
    ∀ hit ∈ scoreHits emotion hits, VectorHit input hit := by
  intro hit hhit
  obtain ⟨old, hold, rfl⟩ := mem_map.mp (mem_descending.mp hhit)
  exact (h old hold).rescore emotion

theorem answers_searchHits (queryVector : List F) :
    Answers (fun hits => ∀ hit ∈ hits, VectorHit input hit) (searchHits input queryVector) := by
  refine Answers.after (fun found => ?_)
  have hfound : ∀ hit ∈ (found.map vectorHit).filter (fun hit =>
      !Double.lt hit.score input.limits.recallMinScore), ∃ scored : Scored F,
        hit = vectorHit scored := by
    intro hit hhit
    obtain ⟨scored, -, rfl⟩ := mem_map.mp (mem_filter.mp hhit).1
    exact ⟨scored, rfl⟩
  refine (answers_rejectInactive input hfound).bind (fun hits hhits => ?_)
  refine answers_retain hhits (fun hit hhit => ?_)
  obtain ⟨⟨scored, rfl⟩, row, hrow, hlive⟩ := hhit
  cases hrow
  refine (answers_aclAllows input _ _).mono (fun kept hkept hk => ?_)
  obtain ⟨row, hrow, hok⟩ := hkept hk
  cases hrow
  exact ⟨rfl, rfl, scored.row, rfl, rfl, hlive, hok⟩

/-- The temporal filter drops hits and adds none. -/
theorem answers_applyTemporal (h : ∀ hit ∈ hits, P hit) :
    Answers (fun l => ∀ hit ∈ l, P hit) (applyTemporal input hits) := by
  unfold applyTemporal
  refine Answers.ite (fun _ => Answers.pure h) (fun _ => ?_)
  split
  · exact Answers.pure h
  · refine Answers.after (fun temporal => ?_)
    cases temporal with
    | none => exact Answers.pure h
    | some temporal =>
      refine Answers.ite (fun _ => Answers.pure h) (fun _ => ?_)
      refine Answers.after (fun _ => Answers.pure ?_)
      intro hit hhit
      obtain ⟨index, -, hindex⟩ := mem_filterMap.mp hhit
      exact h hit (mem_of_getElem? hindex)

variable (input)

/-- What is handed to the graph are live and readable hits of the vector search. -/
theorem answers_vectorStages (emotion : Emotion F) :
    Answers (fun stages => ∀ hit ∈ stages.hits, VectorHit input hit)
      (vectorStages input emotion) := by
  refine Answers.after (fun queryVector => ?_)
  refine (answers_searchHits queryVector).bind (fun found hfound => ?_)
  refine Answers.ite (fun _ => Answers.throw _) (fun _ => ?_)
  refine (answers_applyTemporal hfound).bind (fun hits hhits => ?_)
  refine (answers_rejectInactive input (vectorHit_scoreHits hhits emotion)).bind
    (fun kept hkept => Answers.pure ?_)
  exact fun hit hhit => (hkept hit hhit).1

/-! ### The spread -/

theorem answers_allowedEndpoints (endpoints : List String) :
    Answers (fun allowed => ∀ id ∈ allowed, input.Visible id) (allowedEndpoints input endpoints) := by
  refine answers_retain (P := fun _ => True) (fun _ _ => trivial) (fun endpoint _ => ?_)
  refine (answers_ofStore (fun _ => id)).bind (fun found hfound => ?_)
  cases found with
  | none => exact answers_rejected _ _ _
  | some row =>
    dsimp only
    refine Answers.ite (fun _ => answers_rejected _ _ _) (fun hlive => ?_)
    refine (answers_aclAllows input _ _).mono (fun kept hkept hk => ?_)
    obtain ⟨row', hrow, hok⟩ := hkept hk
    cases hrow
    exact ⟨row, hfound, by simpa using hlive, hok⟩

/-- A memory one or two visible hops from one of the first scored hits. -/
structure Associated (scored : List (Hit F)) (depth : ℕ) (id : String) : Prop where
  deep : 0 < depth ∧ depth ≤ MAX_DEPTH
  path : ∃ seed ∈ scored.take SEED_COUNT, Hops input.VisibleHop seed.id depth id

/-- What the graph brought is an associated memory without its row. -/
def GraphOnly (scored : List (Hit F)) (hit : Hit F) : Prop :=
  hit.source = .graph → hit.row = none ∧ ∃ depth, hit.depth = some depth ∧
    Associated input scored depth hit.id

variable {input}

variable {allowed : List String}

theorem joined_edgesBetween (h : ∀ id ∈ allowed, input.Visible id) {a b : String}
    (hjoined : Joined (edgesBetween input.edges allowed) a b) : input.VisibleHop a b := by
  obtain ⟨edge, hedge, hends⟩ := hjoined
  obtain ⟨hmem, hallowed⟩ := mem_filter.mp hedge
  simp only [Bool.and_eq_true, contains_iff_mem] at hallowed
  have hsource := h _ hallowed.1
  have htarget := h _ hallowed.2
  refine ⟨⟨edge, hmem, hends⟩, ?_⟩
  obtain ⟨rfl, rfl⟩ | ⟨-, rfl, rfl⟩ := hends
  · exact ⟨hsource, htarget⟩
  · exact ⟨htarget, hsource⟩

theorem traversal_associated (h : ∀ id ∈ allowed, input.Visible id) (scored : List (Hit F)) :
    ∀ hit ∈ (traverseObserved (graphSeeds scored) (edgesBetween input.edges allowed)).hits,
      Associated input scored hit.depth hit.memoryId := by
  intro hit hhit
  obtain ⟨hdeep, seed, hseed, hpath⟩ := traverseObserved_near _ _ hit hhit
  obtain ⟨pair, hpair, rfl⟩ := mem_map.mp hseed
  obtain ⟨found, hfound, rfl⟩ := mem_map.mp (mem_of_mem_take hpair)
  exact ⟨hdeep, found, hfound, hpath.mono (fun _ _ => joined_edgesBetween h)⟩

omit [Double F] in
theorem mem_overlap {memoryId : String} {hits merged : List (Hit F)} (h : overlap memoryId hits = some merged) :
    ∀ hit ∈ merged, hit ∈ hits ∨ hit.source = .both := by
  induction hits generalizing merged with
  | nil => cases h
  | cons first hits ih =>
    rw [overlap] at h
    split at h
    · grind
    · obtain ⟨rest, hrest, rfl⟩ := Option.map_eq_some_iff.mp h
      intro hit hhit
      obtain rfl | hhit := mem_cons.mp hhit
      · exact Or.inl mem_cons_self
      · exact (ih hrest hit hhit).imp (mem_cons_of_mem _) id

variable {scored : List (Hit F)}

theorem graphOnly_mergeHit {merged : List (Hit F)} (maxVector : F)
    (h : ∀ hit ∈ merged, GraphOnly input scored hit) {assoc : AssociativeHit F}
    (hassoc : Associated input scored assoc.depth assoc.memoryId) :
    ∀ hit ∈ mergeHit maxVector merged assoc, GraphOnly input scored hit := by
  unfold mergeHit
  intro hit hhit
  split at hhit
  · rename_i merged' hoverlap
    obtain hold | hboth := mem_overlap hoverlap hit hhit
    · exact h hit hold
    · intro hgraph
      rw [hboth] at hgraph
      cases hgraph
  · obtain hold | hnew := mem_append.mp hhit
    · exact h hit hold
    · rw [mem_singleton] at hnew
      subst hnew
      exact fun _ => ⟨rfl, assoc.depth, rfl, hassoc⟩

theorem graphOnly_mergeGraph (h : ∀ hit ∈ hits, GraphOnly input scored hit)
    {associative : List (AssociativeHit F)}
    (hassoc : ∀ assoc ∈ associative, Associated input scored assoc.depth assoc.memoryId) (maxTotal : ℕ) :
    ∀ hit ∈ mergeGraph hits associative maxTotal, GraphOnly input scored hit := by
  have hfold : ∀ (maxVector : F) (merged : List (Hit F)),
      (∀ hit ∈ merged, GraphOnly input scored hit) →
      ∀ hit ∈ associative.foldl (mergeHit maxVector) merged, GraphOnly input scored hit := by
    intro maxVector
    induction associative with
    | nil => exact fun _ hmerged => hmerged
    | cons assoc associative ih =>
      intro merged hmerged
      rw [forall_mem_cons] at hassoc
      exact ih hassoc.2 _ (graphOnly_mergeHit maxVector hmerged hassoc.1)
  intro hit hhit
  exact hfold _ _ h hit (mem_descending.mp (mem_of_mem_take hhit))

theorem VectorHit.graphOnly (h : VectorHit input hit) : GraphOnly input scored hit := by
  intro hgraph
  rw [h.source] at hgraph
  cases hgraph

theorem answers_spreadGraph (h : ∀ hit ∈ hits, VectorHit input hit) :
    Answers (fun l => ∀ hit ∈ l, GraphOnly input hits hit) (spreadGraph input hits) := by
  have hvector : ∀ hit ∈ hits, GraphOnly input hits hit := fun hit hhit => (h hit hhit).graphOnly
  unfold spreadGraph
  refine Answers.ite (fun _ => Answers.pure hvector) (fun _ => ?_)
  refine (answers_allowedEndpoints input _).bind (fun allowed hallowed => Answers.pure ?_)
  exact graphOnly_mergeGraph hvector (traversal_associated hallowed hits) _

/-! ### Hydration -/

variable (input)

/-- A hit with a row the request may see; one that only the graph brought has the row the
store has for an associated memory. -/
structure Shown (scored : List (Hit F)) (hit : Hit F) : Prop where
  sees : ∃ row, hit.row = some row ∧ input.Sees row
  graph : hit.source = .graph → ∃ depth endpoint row, hit.depth = some depth ∧
    hit.row = some row ∧ input.store.get endpoint = .ok (some row) ∧
    Associated input scored depth endpoint

variable {input}

theorem answers_relevantEnough {Q : Hit F → Prop} (queryVector : List F) {kept : Hit F}
    (row : MemoryRow F) (h : Q kept) :
    Answers (fun hit => ∀ k ∈ hit, Q k) (relevantEnough input queryVector kept row) := by
  have hsome : ∀ k ∈ some kept, Q k := by
    intro k hk
    cases hk
    exact h
  have hnone : ∀ k ∈ (none : Option (Hit F)), Q k := by
    intro k hk
    cases hk
  refine Answers.ite (fun _ => Answers.pure hsome) (fun _ => ?_)
  refine Answers.after (fun relevance => ?_)
  refine Answers.ite (fun _ => ?_) (fun _ => Answers.pure hsome)
  exact Answers.after (fun _ => Answers.pure hnone)

theorem answers_hydrateOne (queryVector : List F) {depth : ℕ} (hdepth : hit.depth = some depth)
    (h : Associated input scored depth hit.id) :
    Answers (fun kept => ∀ k ∈ kept, Shown input scored k) (hydrateOne input queryVector hit) := by
  have hnone : ∀ k ∈ (none : Option (Hit F)), Shown input scored k := by
    intro k hk
    cases hk
  refine (answers_ofStore (fun _ => id)).bind (fun found hfound => ?_)
  cases found with
  | none => exact Answers.after (fun _ => Answers.pure hnone)
  | some row =>
    dsimp only
    refine Answers.ite (fun _ => Answers.after (fun _ => Answers.pure hnone)) (fun hlive => ?_)
    refine (answers_aclAllows input _ _).bind (fun allow hallow => ?_)
    refine Answers.ite (fun hk => ?_) (fun _ => Answers.pure hnone)
    obtain ⟨row', hrow, hok⟩ := hallow hk
    cases hrow
    refine answers_relevantEnough queryVector row ⟨⟨row, rfl, by simpa using hlive, hok⟩, ?_⟩
    exact fun _ => ⟨depth, hit.id, row, hdepth, rfl, hfound, h⟩

theorem answers_hydrateHit (queryVector : List F) (h : GraphOnly input scored hit) :
    Answers (fun kept => ∀ k ∈ kept, Shown input scored k) (hydrateHit input queryVector hit) := by
  have hnone : ∀ k ∈ (none : Option (Hit F)), Shown input scored k := by
    intro k hk
    cases hk
  unfold hydrateHit
  refine Answers.ite (fun hshell => ?_) (fun _ => ?_)
  · have hgraph : hit.source = .graph := by
      unfold graphShell at hshell
      split at hshell
      · assumption
      · assumption
      · cases hshell
    obtain ⟨-, depth, hdepth, hassoc⟩ := h hgraph
    exact answers_hydrateOne queryVector hdepth hassoc
  · refine Answers.ite (fun hlive => ?_) (fun _ => Answers.pure hnone)
    obtain ⟨row, hrow, hlive⟩ := (Option.any_eq_true _ _).mp hlive
    refine (answers_aclAllows input _ _).bind (fun kept hkept => Answers.pure ?_)
    intro k hk
    split at hk
    · rename_i hkeep
      cases hk
      obtain ⟨row', hrow', hok⟩ := hkept hkeep
      rw [hrow] at hrow'
      cases hrow'
      refine ⟨⟨row, hrow, hlive, hok⟩, fun hgraph => ?_⟩
      -- what the graph brought has no row before hydration
      rw [(h hgraph).1] at hrow
      cases hrow
    · cases hk

theorem answers_hydrate (queryVector : List F) (h : ∀ hit ∈ hits, GraphOnly input scored hit) :
    Answers (fun l => ∀ hit ∈ l, Shown input scored hit) (hydrate input queryVector hits) := by
  refine (Answers.traverse (Q := fun kept => ∀ k ∈ kept, Shown input scored k)
    (fun hit hhit => answers_hydrateHit queryVector (h hit hhit))).bind
    (fun hydrated hhydrated => Answers.pure ?_)
  intro hit hhit
  obtain ⟨kept, hkept, hk⟩ := mem_filterMap.mp hhit
  exact hhydrated kept hkept hit hk

/-! ### The run -/

variable (input)

/-- What the snapshot says of a memory it returns. -/
structure Returned (scored : List (Hit F)) (memory : HydratedMemory F) : Prop where
  sees : input.Sees memory.row
  graph : memory.source = .graph → ∃ depth endpoint, memory.depth = some depth ∧
    input.store.get endpoint = .ok (some memory.row) ∧ Associated input scored depth endpoint

variable {input}

theorem Shown.returned (h : Shown input scored hit) {memory : HydratedMemory F}
    (hmemory : hydratedMemory hit = some memory) : Returned input scored memory := by
  obtain ⟨row, hrow, rfl⟩ := Option.map_eq_some_iff.mp hmemory
  constructor
  · obtain ⟨row', hrow', hsees⟩ := h.sees
    rw [hrow] at hrow'
    cases hrow'
    exact hsees
  · intro hgraph
    obtain ⟨depth, endpoint, row', hdepth, hrow', hget, hassoc⟩ := h.graph hgraph
    rw [hrow] at hrow'
    cases hrow'
    exact ⟨depth, endpoint, hdepth, hget, hassoc⟩

/-- Every run hands live and readable vector hits to the graph, and returns memories that the
request may see. -/
theorem runObservedStage7_returned {emotion : Emotion F} {shot : StageSnapshot F C}
    (h : runObservedStage7 input emotion = .ok shot) :
    ∃ stages rejections, vectorStages input emotion [] = (.ok stages, rejections) ∧
      (∀ hit ∈ stages.hits, VectorHit input hit) ∧
      ∀ memory ∈ shot.hydrated, Returned input stages.hits memory := by
  obtain ⟨rejections, hrun⟩ : ∃ rejections, observedStage7 input emotion [] = (.ok shot, rejections) :=
    ⟨_, Prod.ext h rfl⟩
  obtain ⟨stages, r, hstages, hrun⟩ := Prog.bind_eq_ok.mp hrun
  obtain ⟨spread, r₁, hspread, hrun⟩ := Prog.bind_eq_ok.mp hrun
  obtain ⟨hydrated, r₂, hhydrate, hrun⟩ := Prog.bind_eq_ok.mp hrun
  obtain ⟨kept, r₃, hretain, hrun⟩ := Prog.bind_eq_ok.mp hrun
  obtain ⟨rfl, -⟩ := Prog.gets_eq_ok.mp hrun
  have hvector := (answers_vectorStages input emotion).ok hstages
  have hgraph := (answers_spreadGraph hvector).ok hspread
  have hshown := (answers_hydrate stages.queryVector hgraph).ok hhydrate
  have hkept : ∀ hit ∈ kept, Shown input stages.hits hit := by
    refine (answers_retain (fun hit hhit => hshown hit (mem_of_mem_take hhit)) ?_).ok hretain
    exact fun hit hhit => (Answers.any _).mono (fun _ _ _ => hhit)
  refine ⟨stages, r, hstages, hvector, fun memory hmemory => ?_⟩
  obtain ⟨hit, hhit, hmemory⟩ := mem_filterMap.mp hmemory
  exact (hkept hit hhit).returned hmemory

/-- Whatever the floats, the store, the edges, the request, the clocks and the limits are: a recall
returns memories the request may see, and one that came only from the graph is at the end of one
or two edges between visible memories, from one of the first five scored hits. The traversal
returns no memory twice and ends within its bound. -/
theorem stage7_walks_visible {shot : StageSnapshot F C} (h : runThroughStage7 input = .ok shot) :
    (∀ memory ∈ shot.hydrated, input.Sees memory.row) ∧
    (∃ stages rejections, vectorStages input none [] = (.ok stages, rejections) ∧
      (∀ hit ∈ stages.hits, VectorHit input hit) ∧
      ∀ memory ∈ shot.hydrated, memory.source = .graph →
        ∃ depth endpoint, memory.depth = some depth ∧ 0 < depth ∧ depth ≤ 2 ∧
          input.store.get endpoint = .ok (some memory.row) ∧
          ∃ seed ∈ stages.hits.take 5, Hops input.VisibleHop seed.id depth endpoint) ∧
    ∀ (seeds : List (String × F)) (edges : List (GraphEdge F)),
      ((traverseObserved seeds edges).hits.map AssociativeHit.memoryId).Nodup ∧
        (traverseObserved seeds edges).visited ≤ 150 := by
  obtain ⟨stages, rejections, hstages, hvector, hreturned⟩ := runObservedStage7_returned h
  refine ⟨fun memory hmemory => (hreturned memory hmemory).sees, ?_, ?_⟩
  · refine ⟨stages, rejections, hstages, hvector, fun memory hmemory hgraph => ?_⟩
    obtain ⟨depth, endpoint, hdepth, hget, hassoc⟩ := (hreturned memory hmemory).graph hgraph
    exact ⟨depth, endpoint, hdepth, hassoc.deep.1, hassoc.deep.2, hget, hassoc.path⟩
  · intro seeds edges
    exact ⟨traverseObserved_nodup seeds edges, traverseObserved_visited seeds edges⟩

/-! ### Two memories and an edge -/

def sampleNumber (q : ℚ) : RowNumber F64 := ⟨some (some q), some q.num⟩

def sampleRow (id : String) : MemoryRow F64 where
  id := id
  text := id
  summary := ""
  typeName := "fact"
  vector := [some 1]
  createdAt := sampleNumber 1
  expiresAt := sampleNumber 0
  validFrom := sampleNumber 0
  validUntil := sampleNumber 0
  memoryStrength := sampleNumber 1
  status := "active"
  epistemicStatus := "observed"
  scope := "agent-private"
  agentId := "scout"
  storedBy := "scout"
  workspaceId := ""
  workspaceKey := ""
  ownerUserId := ""

/-- The search finds the one, and an edge without a direction leads back to the other. -/
def sampleInput : StageInput F64 Unit where
  services :=
    { platform := ⟨fun _ => .error .notFound, id⟩
      parseTemporal := fun _ _ => none
      searchCanonical := fun _ _ _ _ _ => [] }
  query := "q"
  store :=
    { search := fun _ _ _ => .ok [⟨sampleRow "a", some 0⟩]
      get := fun id => .ok (if id = "a" ∨ id = "b" then some (sampleRow id) else none) }
  embed := fun _ _ => .ok [[some 1]]
  context := ⟨"scout", "", "", ⟨[], []⟩⟩
  workspaceDir := none
  edges := [⟨"b", "a", some 1, false, "related"⟩]
  limits := ⟨10, 10, 10, some (3 / 20), some (3 / 10), 1⟩
  flags := ⟨false, true, false, false, false⟩
  clocks := ⟨0, 0, none⟩

def sampleHit : Hit F64 := ⟨none, "a", some (sampleRow "a"), some 1, .vector⟩

def sampleShell : Hit F64 := ⟨some 1, "b", none, some (2 / 3), .graph⟩

def sampleKept : Hit F64 := { sampleShell with row := some (sampleRow "b") }

def sampleStages : VectorStages F64 Unit := ⟨[some 1], ["a"], [], [sampleHit]⟩

theorem sample_spread :
    spreadGraph sampleInput [sampleHit] [] = (.ok [sampleHit, sampleShell], []) := by
  have hallowed : allowedEndpoints sampleInput (reachableEndpointIds sampleInput.edges ["a"]) [] =
      (.ok ["a", "b"], []) := by rfl
  have hwalk : (traverseObserved (graphSeeds [sampleHit])
      (edgesBetween sampleInput.edges ["a", "b"])).hits = [⟨"a", "b", some (2 / 3), 1⟩] := by
    unfold traverseObserved
    rw [@walk_eq_walkFor _ _ _ 3 _ (by decide +kernel)]
    decide +kernel
  refine Prog.bind_eq_ok.mpr ⟨["a", "b"], [], hallowed, ?_⟩
  rw [hwalk]
  decide +kernel

theorem sample_run :
    runThroughStage7 sampleInput = .ok (snapshot [sampleHit, sampleKept] sampleStages []) := by
  have hvector : vectorStages sampleInput none [] = (.ok sampleStages, []) := by decide +kernel
  have hhydrate : hydrate sampleInput [some 1] [sampleHit, sampleShell] [] =
      (.ok [sampleHit, sampleKept], []) := by rfl
  have hretain : retain (aclAllows sampleInput "acl") [sampleHit, sampleKept] [] =
      (.ok [sampleHit, sampleKept], []) := by decide +kernel
  have hrun : observedStage7 sampleInput none [] =
      (.ok (snapshot [sampleHit, sampleKept] sampleStages []), []) :=
    Prog.bind_eq_ok.mpr ⟨_, _, hvector, Prog.bind_eq_ok.mpr ⟨_, _, sample_spread,
      Prog.bind_eq_ok.mpr ⟨_, _, hhydrate, Prog.bind_eq_ok.mpr ⟨_, _, hretain, rfl⟩⟩⟩⟩
  rw [runThroughStage7, runObservedStage7, hrun]

theorem stage7_walks_visible_sample :
    ∃ shot : StageSnapshot F64 Unit, runThroughStage7 sampleInput = .ok shot ∧
      shot.orderedIds = ["a", "b"] ∧ (∀ memory ∈ shot.hydrated, sampleInput.Sees memory.row) ∧
      ∃ stages rejections, vectorStages sampleInput none [] = (.ok stages, rejections) ∧
        ∀ memory ∈ shot.hydrated, memory.source = .graph →
          ∃ depth endpoint, memory.depth = some depth ∧
            sampleInput.store.get endpoint = .ok (some memory.row) ∧
            ∃ seed ∈ stages.hits.take 5, Hops sampleInput.VisibleHop seed.id depth endpoint := by
  obtain ⟨hsees, ⟨stages, rejections, hstages, -, hgraph⟩, -⟩ := stage7_walks_visible sample_run
  refine ⟨_, sample_run, rfl, hsees, stages, rejections, hstages, fun memory hmemory hsource => ?_⟩
  obtain ⟨depth, endpoint, hdepth, -, -, hget, hpath⟩ := hgraph memory hmemory hsource
  exact ⟨depth, endpoint, hdepth, hget, hpath⟩

end Plur1bus.Recall
