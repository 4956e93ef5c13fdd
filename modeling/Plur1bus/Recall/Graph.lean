import Plur1bus.Recall.Row
import Plur1bus.Program.Upsert

/-!
The spread over the edges between memories. The endpoints that are named to the
access checks are found first, breadth first and bounded; the walk that follows
is a beam search over the edges between those that passed. It takes the best of
its queue, visits a memory once, and goes on to the strongest neighbours while
the product of the strengths stays above a floor that rises with the depth.
-/

namespace Plur1bus.Recall

open Program.Keyed

def SEED_COUNT : ℕ := 5
def MAX_DEPTH : ℕ := 2
def MAX_NEIGHBORS_PER_NODE : ℕ := 8
def MIN_CUMULATIVE_RELEVANCE : ℚ := 0.2
def DEPTH_RELEVANCE_SCALE : ℚ := 0.5
def MAX_VISITED_NODES : ℕ := 150
def MAX_ASSOCIATED_RESULTS : ℕ := 40
def GRAPH_NO_ANCHOR_SCALE : ℚ := 0.7
def GRAPH_ANCHOR_CAP : ℚ := 0.85
def HYDRATION_RELEVANCE_THRESHOLD : ℚ := 0.25
def GRAPH_ACL_MAX_INSPECTED_EDGES : ℕ := 400
def GRAPH_ACL_MAX_ENDPOINT_IDS : ℕ := 200

structure GraphEdge (F : Type) where
  source : String
  target : String
  strength : F
  directed : Bool
  kind : String
  deriving DecidableEq

structure Link (F : Type) where
  target : String
  strength : F
  deriving DecidableEq

structure Queued (F : Type) where
  seedId : String
  memoryId : String
  score : F
  cumulative : F
  depth : ℕ
  deriving DecidableEq

/-- A neighbour found by walking out from the seeds. -/
structure AssociativeHit (F : Type) where
  seedId : String
  memoryId : String
  associatedScore : F
  depth : ℕ
  deriving DecidableEq

/-! ### Adjacency -/

/-- What is filed under each memory, in the order of the filing. -/
abbrev Adjacency (L : Type) := List (String × List L)

namespace Adjacency

variable {L : Type}

def get (m : Adjacency L) (x : String) : Option (List L) := (rowAt Prod.fst x m).map Prod.snd

/-- `entry(x).or_default().push(l)`. -/
def push (m : Adjacency L) (x : String) (l : L) : Adjacency L :=
  upsert Prod.fst (fun old new => (old.1, old.2 ++ new.2)) (x, [l]) m

end Adjacency

variable {F : Type}

/-- File an edge under its source, and where it has no direction under its target too. -/
def fileEdge {L : Type} (link : String → GraphEdge F → L) (m : Adjacency L) (edge : GraphEdge F) :
    Adjacency L :=
  let m := m.push edge.source (link edge.target edge)
  if edge.directed then m else m.push edge.target (link edge.source edge)

/-- An edge without one of its ends is no edge. -/
def hasEnds (edge : GraphEdge F) : Bool := edge.source ≠ "" && edge.target ≠ ""

/-! ### Endpoints -/

/-- The endpoints known so far, and those of them that are new in this round. -/
def reach (acc : List String × List String) (neighbor : String) : List String × List String :=
  if neighbor ∈ acc.1 then acc
  else if GRAPH_ACL_MAX_ENDPOINT_IDS ≤ acc.1.length then acc
  else (acc.1 ++ [neighbor], acc.2 ++ [neighbor])

def reachRound (adjacency : Adjacency String) (reachable frontier : List String) :
    List String × List String :=
  frontier.foldl (fun acc current => ((adjacency.get current).getD []).foldl reach acc)
    (reachable, [])

def reachRounds (adjacency : Adjacency String) : ℕ → List String → List String → List String
  | 0, reachable, _ => reachable
  | n + 1, reachable, frontier =>
    if frontier.isEmpty then reachable
    else
      let next := reachRound adjacency reachable frontier
      reachRounds adjacency n next.1 next.2

def reachableEndpointIds (edges : List (GraphEdge F)) (seeds : List String) : List String :=
  let inspected := (edges.take GRAPH_ACL_MAX_INSPECTED_EDGES).filter hasEnds
  let adjacency := inspected.foldl (fileEdge fun target _ => target) []
  let reachable := (seeds.take GRAPH_ACL_MAX_ENDPOINT_IDS).foldl pushUnique []
  reachRounds adjacency (min MAX_DEPTH GRAPH_ACL_MAX_ENDPOINT_IDS) reachable reachable

def edgesBetween (edges : List (GraphEdge F)) (allowed : List String) : List (GraphEdge F) :=
  edges.filter fun edge => allowed.contains edge.source && allowed.contains edge.target

/-! ### The edges of the walk -/

/-- The name under which duplicates of an edge are one. -/
def canonicalKey (source target kind : String) (directed : Bool) : String :=
  if directed || decide (source ≤ target) then source ++ ":" ++ target ++ ":" ++ kind
  else target ++ ":" ++ source ++ ":" ++ kind

def edgeKey (edge : GraphEdge F) : String :=
  canonicalKey edge.source edge.target edge.kind edge.directed ++ ":unbound"

variable [Double F]

/-- A stronger duplicate takes the place of the edge that came first. -/
def keepStronger (unique : List (GraphEdge F)) (edge : GraphEdge F) : List (GraphEdge F) :=
  upsert edgeKey (fun old new => if Double.lt old.strength new.strength then new else old) edge unique

def uniqueEdges (edges : List (GraphEdge F)) : List (GraphEdge F) :=
  (edges.filter hasEnds).foldl keepStronger []

def adjacencyOf (edges : List (GraphEdge F)) : Adjacency (Link F) :=
  (uniqueEdges edges).foldl (fileEdge fun target edge => ⟨target, edge.strength⟩) []

/-! ### The walk -/

structure Walk (F : Type) where
  visited : List String
  results : List (AssociativeHit F)
  queue : List (Queued F)

def Walk.start (seeds : List (String × F)) : Walk F where
  visited := []
  results := []
  queue := ((seeds.take SEED_COUNT).filter (·.1 ≠ "")).map fun seed =>
    { seedId := seed.1
      memoryId := seed.1
      score := nonzero seed.2 (lit 0.5)
      cumulative := lit 1
      depth := 0 }

/-- The condition of the loop. -/
def Walk.running (w : Walk F) : Bool := !w.queue.isEmpty && decide (w.visited.length < MAX_VISITED_NODES) &&
    decide (w.results.length < MAX_ASSOCIATED_RESULTS)

def Queued.found (current : Queued F) : AssociativeHit F where
  seedId := current.seedId
  memoryId := current.memoryId
  associatedScore := nonzero current.score (lit 0.5) * current.cumulative *
    (lit 1 / (lit 1 + lit current.depth * lit 0.5))
  depth := current.depth

/-- The step over one link, where the target is new and strong enough. -/
def Queued.next (visited : List String) (current : Queued F) (edge : Link F) : Option (Queued F) :=
  if edge.target ∈ visited then none
  else
    let nextCumulative := current.cumulative * nonzero edge.strength (lit 0.1)
    let threshold := lit MIN_CUMULATIVE_RELEVANCE *
      (lit 1 + lit (current.depth + 1 : ℕ) * lit DEPTH_RELEVANCE_SCALE)
    if Double.lt nextCumulative threshold then none
    else
      some
        { seedId := current.seedId
          memoryId := edge.target
          score := current.score
          cumulative := nextCumulative
          depth := current.depth + 1 }

def Queued.onward (visited : List String) (current : Queued F) (neighbors : List (Link F)) :
    List (Queued F) :=
  ((descending Link.strength neighbors).take MAX_NEIGHBORS_PER_NODE).filterMap (current.next visited)

/-- The visit of a memory that is not visited yet; `rest` is the queue behind it. -/
def Walk.visit (adjacency : Adjacency (Link F)) (w : Walk F) (current : Queued F)
    (rest : List (Queued F)) : Walk F :=
  let visited := w.visited ++ [current.memoryId]
  { visited := visited
    results := if 0 < current.depth then w.results ++ [current.found] else w.results
    queue :=
      if MAX_DEPTH ≤ current.depth then rest
      else
        match adjacency.get current.memoryId with
        | none => rest
        | some neighbors => rest ++ current.onward visited neighbors }

/-- One round of the loop. -/
def Walk.step (adjacency : Adjacency (Link F)) (w : Walk F) : Walk F :=
  match descending Queued.score w.queue with
  | [] => w
  | current :: rest =>
    if current.memoryId ∈ w.visited then { w with queue := rest }
    else w.visit adjacency current rest

/-- A round visits a memory or shortens the queue. -/
theorem Walk.step_decreases (adjacency : Adjacency (Link F)) {w : Walk F} (h : w.running = true) :
    Prod.Lex (· < ·) (· < ·)
      (MAX_VISITED_NODES - (w.step adjacency).visited.length, (w.step adjacency).queue.length)
      (MAX_VISITED_NODES - w.visited.length, w.queue.length) := by
  simp only [running, Bool.and_eq_true, decide_eq_true_eq, Bool.not_eq_true'] at h
  obtain ⟨⟨hne, hvisited⟩, -⟩ := h
  have hlength := (perm_descending Queued.score w.queue).length_eq
  unfold step
  split
  · rename_i hq
    rw [hq, List.length_nil] at hlength
    rw [List.eq_nil_of_length_eq_zero hlength.symm] at hne
    cases hne
  · rename_i current rest hq
    rw [hq, List.length_cons] at hlength
    split
    · exact Prod.Lex.right _ (by simp only; omega)
    · apply Prod.Lex.left
      simp only [visit, List.length_append, List.length_singleton]
      omega

def walk (adjacency : Adjacency (Link F)) (w : Walk F) : Walk F :=
  if _ : w.running = true then walk adjacency (w.step adjacency) else w
termination_by (MAX_VISITED_NODES - w.visited.length, w.queue.length)
decreasing_by exact Walk.step_decreases adjacency ‹_›

/-- The walk cut off after some rounds. -/
def walkFor (adjacency : Adjacency (Link F)) : ℕ → Walk F → Walk F
  | 0, w => w
  | n + 1, w => if w.running then walkFor adjacency n (w.step adjacency) else w

/-- A walk that is over when it is cut off is the walk. -/
theorem walk_eq_walkFor {adjacency : Adjacency (Link F)} {n : ℕ} {w : Walk F}
    (h : (walkFor adjacency n w).running = false) : walk adjacency w = walkFor adjacency n w := by
  induction n generalizing w with
  | zero =>
    rw [walk, dif_neg]
    · rfl
    · exact ne_true_of_eq_false h
  | succ n ih =>
    rw [walkFor] at h ⊢
    rw [walk]
    by_cases hrunning : w.running = true
    · rw [if_pos hrunning] at h ⊢
      rw [dif_pos hrunning]
      exact ih h
    · rw [dif_neg hrunning, if_neg hrunning]

/-- The hits of the walk, and how many memories it visited. -/
structure Traversal (F : Type) where
  hits : List (AssociativeHit F)
  visited : ℕ

def traverseObserved (seeds : List (String × F)) (edges : List (GraphEdge F)) : Traversal F :=
  let w := walk (adjacencyOf edges) (Walk.start seeds)
  ⟨w.results, w.visited.length⟩

/-- A graph score stays under the best vector score, or is scaled where there is none. -/
def capGraphScore (raw maxVectorScore : F) : F :=
  if Double.lt (lit 0) maxVectorScore then min raw (maxVectorScore * lit GRAPH_ANCHOR_CAP)
  else raw * lit GRAPH_NO_ANCHOR_SCALE

/-! ### Relevance of a row that came over the graph -/

/-- A stored vector of the query's length compares as no number. -/
def lanceStoredRelevance (stored query : List F) : F :=
  if query ≠ [] ∧ stored.length = query.length then Double.nan else lit 0

def relevanceBelowThreshold (relevance threshold : F) : Bool := Double.lt relevance threshold

def relevanceReason (relevance : F) (threshold : String) : String :=
  "relevance " ++ (if Double.isFinite relevance then Double.toFixed relevance else "NaN") ++
    " below threshold " ++ threshold

end Plur1bus.Recall
