import Plur1bus.Recall.Graph
import Plur1bus.Program.Exec

/-!
The recall up to its seventh stage: the vector search, the temporal filter, the
scores, the spread over the graph and the hydration of what came over it.

The stages collect the rejections they decide on and may fail with an error of
the store or of the embedder. The store and the embedder are parameters, and so
are the parser of times and the search in the workspace's knowledge, whose answer
is passed through. The observations of the trace are left out.
-/

open Program

namespace Plur1bus.Recall

/-! ### What the stages work on -/

inductive StoreError
  | unavailable | corrupt | invalidInput | readOnly | io | other
  deriving DecidableEq

inductive EmbedError
  | invalidVector | other
  deriving DecidableEq

inductive StageError
  | store (e : StoreError)
  | embed (e : EmbedError)
  | refinementUnavailable
  deriving DecidableEq

inductive EmbedKind
  | query | passage
  deriving DecidableEq

/-- The predicate of a search; its other columns are left open by every stage. -/
structure RowFilter where
  validAt : Option ℤ
  deriving DecidableEq

/-- A row and its distance, converted to a double. -/
structure Scored (F : Type) where
  row : MemoryRow F
  distance : F

/-- The table of memories, as it answers. -/
structure Store (F : Type) where
  search : List F → ℕ → RowFilter → Except StoreError (List (Scored F))
  get : String → Except StoreError (Option (MemoryRow F))

inductive Temporal
  | range (start stop : ℤ)
  | anchor (referenceQuery : String)
  deriving DecidableEq

structure StageLimits (F : Type) where
  topN : ℕ
  candidateTopK : ℕ
  candidateHardLimit : ℕ
  recallMinScore : F
  canonicalMinScore : F
  canonicalMaxItems : ℕ

structure StageFlags where
  canonical : Bool
  associative : Bool
  deferFinalCap : Bool
  queryRefiner : Bool
  persistKnowledge : Bool

structure StageClocks where
  nowMs : ℤ
  temporalNowMs : ℤ
  validAt : Option ℤ

/-- What the stages take from outside, over the canonical sections `C`. -/
structure Services (F C : Type) where
  platform : Platform
  parseTemporal : String → ℤ → Option Temporal
  searchCanonical : String → List F → F → ℕ → Bool → List C

structure StageInput (F C : Type) where
  services : Services F C
  query : String
  store : Store F
  embed : String → EmbedKind → Except EmbedError (List (List F))
  context : RequestContext
  workspaceDir : Option String
  edges : List (GraphEdge F)
  limits : StageLimits F
  flags : StageFlags
  clocks : StageClocks

structure Rejection where
  memoryId : String
  stage : String
  reason : String
  deriving DecidableEq

inductive Source
  | vector | graph | both
  deriving DecidableEq

structure Hit (F : Type) where
  depth : Option ℕ
  id : String
  row : Option (MemoryRow F)
  score : F
  source : Source
  deriving DecidableEq

structure HydratedMemory (F : Type) where
  row : MemoryRow F
  score : F
  source : Source
  depth : Option ℕ

structure StageSnapshot (F C : Type) where
  hydrated : List (HydratedMemory F)
  queryVector : List F
  candidateIds : List String
  orderedIds : List String
  scores : List F
  canonical : List C
  rejections : List Rejection

/-- A stage: it adds rejections, and it may fail. -/
abbrev Stage (α : Type) := Prog StageError (List Rejection) α

def reject (memoryId stage reason : String) : Stage Unit := Prog.modify (· ++ [⟨memoryId, stage, reason⟩])

def ofStore {α : Type} (r : Except StoreError α) : Stage α := Prog.ofExcept (r.mapError StageError.store)

def ofEmbed {α : Type} (r : Except EmbedError α) : Stage α := Prog.ofExcept (r.mapError StageError.embed)

/-- `retain`: the hits that pass, one after the other. -/
def retain {α : Type} (keep : α → Stage Bool) : List α → Stage (List α)
  | [] => pure []
  | a :: l => do
    let kept ← keep a
    let rest ← retain keep l
    pure (if kept then a :: rest else rest)

variable {F C : Type} [Double F]

/-! ### The checks -/

section Checks

variable (input : StageInput F C)

def StageInput.live (row : MemoryRow F) : Bool :=
  isRecallEntryLive row input.clocks.nowMs input.clocks.validAt

def StageInput.readable (row : MemoryRow F) : Except Rule Unit :=
  allowed input.services.platform row input.context

def aclAllows (stage : String) (hit : Hit F) : Stage Bool :=
  match hit.row with
  | none => pure false
  | some row =>
    match input.readable row with
    | .ok () => pure true
    | .error rule => do
      reject hit.id stage rule.name
      pure false

def rejectInactive (hits : List (Hit F)) : Stage (List (Hit F)) := retain (fun hit => do
    let live := hit.row.any input.live
    if live then pure true
    else
      reject hit.id "lifecycle" "inactive or non-live expiry"
      pure false) hits

def inactiveReason (row : MemoryRow F) : String :=
  if row.status ≠ "" ∧ row.status ≠ "active" then "inactive status: " ++ row.status
  else "non-live expiry"

def hardLimit : ℕ := min (max input.limits.candidateHardLimit 1) 100

def sliceLimit : ℕ := if input.flags.deferFinalCap then hardLimit input else input.limits.topN

def fetchLimit : ℕ :=
  if input.clocks.validAt.isSome then hardLimit input
  else
    let topK := min (max input.limits.candidateTopK 1) (hardLimit input)
    min (max input.limits.topN topK) (hardLimit input)

end Checks

/-! ### From the query to the scored hits -/

section Vectors

variable (input : StageInput F C)

/-- The last characters of the query. -/
def shorten (query : String) : String :=
  if query.toList.length ≤ 20000 then query
  else String.ofList (query.toList.drop (query.toList.length - 20000))

def embedQuery : Stage (List F) := do
  let vectors ← ofEmbed (input.embed (shorten input.query) .query)
  match vectors.head? with
  | some vector => pure vector
  | none => Prog.throw (.embed .invalidVector)

def vectorHit (scored : Scored F) : Hit F where
  depth := none
  id := scored.row.id
  row := some scored.row
  score := distanceToScore scored.distance
  source := .vector

def searchHits (queryVector : List F) : Stage (List (Hit F)) := do
  let found ← ofStore (input.store.search queryVector (fetchLimit input) ⟨input.clocks.validAt⟩)
  let hits := (found.map vectorHit).filter (fun hit =>
    !Double.lt hit.score input.limits.recallMinScore)
  let hits ← rejectInactive input hits
  retain (aclAllows input "initial-acl") hits

/-- An empty list, or every score under the least. -/
def shouldRefineQuery (hits : List (Hit F)) (minScore : F) : Bool :=
  hits.isEmpty || hits.all (fun hit => Double.lt hit.score minScore)

/-- Two days from the row that was found; a time of zero resolves to none. -/
def rangeFromAnchor (createdAt : ℤ) : Option Temporal :=
  if createdAt = 0 then none else some (.range createdAt (createdAt + 48 * 3600000))

def resolveAnchor (temporal : Temporal) : Stage (Option Temporal) :=
  match temporal with
  | .range start stop => pure (some (.range start stop))
  | .anchor referenceQuery =>
    match input.embed referenceQuery .passage with
    | .error _ => pure none
    | .ok vectors =>
      match vectors.head? with
      | none => pure none
      | some vector => do
        let found ← ofStore (input.store.search vector 1 ⟨none⟩)
        match found.head? with
        | none => pure none
        | some scored => pure (rangeFromAnchor (epoch scored.row.createdAt))

structure TemporalFilter where
  kept : List ℕ
  dropped : Bool

/-- The rows inside the window, or all of them where none is. -/
def applyTemporalFilterSafe (rows : List (MemoryRow F)) (temporal : Temporal) : TemporalFilter :=
  match temporal with
  | .anchor _ => ⟨List.range rows.length, false⟩
  | .range start stop =>
    if rows.isEmpty then ⟨[], false⟩
    else
      let kept := (List.range rows.length).filter fun index =>
        rows[index]?.any fun row =>
          decide (start ≤ epoch row.createdAt) && decide (epoch row.createdAt ≤ stop)
      if kept.isEmpty then ⟨List.range rows.length, true⟩ else ⟨kept, false⟩

def temporalReason : Temporal → String
  | .anchor _ => "outside resolved temporal range"
  | .range _ _ => "outside temporal range"

def filterTemporal (hits : List (Hit F)) (temporal : Temporal) : Stage (List (Hit F)) :=
  let filtered := applyTemporalFilterSafe (hits.filterMap (·.row)) temporal
  if filtered.dropped || filtered.kept.length = hits.length then pure hits
  else do
    Prog.modify (· ++ (hits.zipIdx.filter (fun entry => entry.2 ∉ filtered.kept)).map
      fun entry => ⟨entry.1.id, "temporal-filter", temporalReason temporal⟩)
    pure (filtered.kept.filterMap (hits[·]?))

def applyTemporal (hits : List (Hit F)) : Stage (List (Hit F)) :=
  if input.clocks.validAt.isSome || hits.isEmpty then pure hits
  else
    match input.services.parseTemporal input.query input.clocks.temporalNowMs with
    | none => pure hits
    | some temporal => do
      match ← resolveAnchor input temporal with
      | none => pure hits
      | some temporal => filterTemporal hits temporal

def canonicalHits (queryVector : List F) : List C :=
  if !input.flags.canonical then []
  else
    match input.workspaceDir with
    | none => []
    | some workspace =>
      input.services.searchCanonical workspace queryVector input.limits.canonicalMinScore
        input.limits.canonicalMaxItems input.flags.persistKnowledge

/-- The boost of an emotional state, if there is one. -/
abbrev Emotion (F : Type) := Option (MemoryRow F → F)

def rescore (emotion : Emotion F) (hit : Hit F) : Hit F :=
  match hit.row with
  | none => hit
  | some row =>
    let score :=
      match emotion with
      | none => hit.score
      | some recallBoost => hit.score * clampDouble (recallBoost row) (lit 0.9) (lit 1.1)
    { hit with
      score := score + strengthAdjustment (number row.memoryStrength) +
        epistemicScoreBoost row.epistemicStatus }

def scoreHits (emotion : Emotion F) (hits : List (Hit F)) : List (Hit F) :=
  descending Hit.score (hits.map (rescore emotion))

/-- What the vector stages hand to the graph. -/
structure VectorStages (F C : Type) where
  queryVector : List F
  candidateIds : List String
  canonical : List C
  hits : List (Hit F)
  deriving DecidableEq

/-- The stages before the graph. -/
def vectorStages (emotion : Emotion F) : Stage (VectorStages F C) := do
  let queryVector ← embedQuery input
  let found ← searchHits input queryVector
  if input.flags.queryRefiner && shouldRefineQuery found input.limits.recallMinScore then
    Prog.throw .refinementUnavailable
  else
    let hits ← applyTemporal input found
    let hits ← rejectInactive input (scoreHits emotion hits)
    pure ⟨queryVector, found.map (·.id), canonicalHits input queryVector, hits⟩

end Vectors

/-! ### The graph -/

section Spread

variable (input : StageInput F C)

/-- An endpoint the access checks let through. -/
def endpointAllowed (endpoint : String) : Stage Bool := do
  match ← ofStore (input.store.get endpoint) with
  | none =>
    reject endpoint "graph-endpoint-acl" "missing endpoint row"
    pure false
  | some row =>
    if !input.live row then
      reject endpoint "graph-endpoint-acl" (inactiveReason row)
      pure false
    else aclAllows input "graph-endpoint-acl" ⟨none, row.id, some row, lit 0, .graph⟩

def allowedEndpoints (endpoints : List String) : Stage (List String) :=
  retain (endpointAllowed input) endpoints

/-- The first hit with the id becomes one of both sources. -/
def overlap (id : String) : List (Hit F) → Option (List (Hit F))
  | [] => none
  | hit :: hits =>
    if hit.id = id then some ({ hit with source := .both } :: hits)
    else (overlap id hits).map (hit :: ·)

def mergeHit (maxVector : F) (merged : List (Hit F)) (assoc : AssociativeHit F) : List (Hit F) :=
  match overlap assoc.memoryId merged with
  | some merged => merged
  | none =>
    merged ++ [⟨some assoc.depth, assoc.memoryId, none,
      capGraphScore assoc.associatedScore maxVector, .graph⟩]

def maxVectorScore (hits : List (Hit F)) : F :=
  (hits.map fun hit => if Double.eq hit.score (lit 0) then lit 0 else hit.score).foldl max (lit 0)

def mergeGraph (hits : List (Hit F)) (associative : List (AssociativeHit F)) (maxTotal : ℕ) :
    List (Hit F) :=
  (descending Hit.score (associative.foldl (mergeHit (maxVectorScore hits)) hits)).take maxTotal

def graphSeeds (hits : List (Hit F)) : List (String × F) :=
  (hits.take SEED_COUNT).map fun hit => (hit.id, hit.score)

def spreadGraph (hits : List (Hit F)) : Stage (List (Hit F)) :=
  if !input.flags.associative || input.edges.isEmpty || hits.isEmpty then pure hits
  else do
    let seeds := graphSeeds hits
    let allowed ← allowedEndpoints input (reachableEndpointIds input.edges (seeds.map Prod.fst))
    let traversal := traverseObserved seeds (edgesBetween input.edges allowed)
    pure (mergeGraph hits traversal.hits (sliceLimit input))

/-! ### Hydration -/

def hydrationRelevance (stored queryVector : List F) (hit : Hit F) : Stage F :=
  let pinned := lanceStoredRelevance stored queryVector
  if Double.isNaN pinned then pure pinned
  else do
    let text := (hit.row.map fun row => if row.text = "" then row.summary else row.text).getD ""
    let embedded ← ofEmbed (input.embed text .passage)
    pure ((embedded.head?.map (cosineSimilarity queryVector)).getD (lit 0))

/-- A hit the graph brought and that has no text yet. -/
def graphShell (hit : Hit F) : Bool :=
  match hit.source, hit.row with
  | .graph, none => true
  | .graph, some row => row.text = "" && row.summary = ""
  | _, _ => false

/-- The last check of a hydrated hit, where there is a query to compare with. -/
def relevantEnough (queryVector : List F) (kept : Hit F) (row : MemoryRow F) : Stage (Option (Hit F)) :=
  if queryVector.isEmpty then pure (some kept)
  else do
    let relevance ← hydrationRelevance input row.vector queryVector kept
    if relevanceBelowThreshold relevance (lit HYDRATION_RELEVANCE_THRESHOLD) then
      reject kept.id "graph-hydration" (relevanceReason relevance "0.25")
      pure none
    else pure (some kept)

def hydrateOne (queryVector : List F) (hit : Hit F) : Stage (Option (Hit F)) := do
  match ← ofStore (input.store.get hit.id) with
  | none =>
    reject hit.id "graph-hydration" "hydration miss"
    pure none
  | some row =>
    if !input.live row then
      reject row.id "graph-hydration" "inactive or non-live expiry"
      pure none
    else
      let kept : Hit F := ⟨hit.depth, row.id, some row, hit.score, .graph⟩
      if ← aclAllows input "graph-hydration-acl" kept then relevantEnough input queryVector kept row
      else pure none

def hydrateHit (queryVector : List F) (hit : Hit F) : Stage (Option (Hit F)) :=
  if graphShell hit then hydrateOne input queryVector hit
  else if hit.row.any input.live then do
    let kept ← aclAllows input "graph-hydration-acl" hit
    pure (if kept then some hit else none)
  else pure none

def hydrate (queryVector : List F) (hits : List (Hit F)) : Stage (List (Hit F)) := do
  let hydrated ← Prog.traverse (hydrateHit input queryVector) hits
  pure (hydrated.filterMap id)

/-! ### The run -/

def hydratedMemory (hit : Hit F) : Option (HydratedMemory F) :=
  hit.row.map fun row => ⟨row, hit.score, hit.source, hit.depth⟩

def snapshot (hits : List (Hit F)) (stages : VectorStages F C) (rejections : List Rejection) :
    StageSnapshot F C :=
  let hydrated := hits.filterMap hydratedMemory
  { hydrated := hydrated
    queryVector := stages.queryVector
    candidateIds := stages.candidateIds
    orderedIds := hydrated.map (·.row.id)
    scores := hydrated.map (·.score)
    canonical := stages.canonical
    rejections := rejections }

def observedStage7 (emotion : Emotion F) : Stage (StageSnapshot F C) := do
  let stages ← vectorStages input emotion
  let hits ← spreadGraph input stages.hits
  let hits ← hydrate input stages.queryVector hits
  let hits ← retain (aclAllows input "acl") (hits.take (sliceLimit input))
  Prog.gets (snapshot hits stages)

def runObservedStage7 (emotion : Emotion F) : Except StageError (StageSnapshot F C) :=
  (observedStage7 input emotion []).1

def runThroughStage7 : Except StageError (StageSnapshot F C) := runObservedStage7 input none

end Spread

end Plur1bus.Recall
