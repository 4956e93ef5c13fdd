import Plur1bus.Recall.Graph
import Plur1bus.Program.Digraph

/-!
Where the walk over the graph can come to. Every entry of its queue lies as many
edges from its seed as its depth says, each walked in a direction it has, so what
the walk returns does too; no memory is visited twice, and no more are than the
bound allows.
-/

namespace Plur1bus.Recall

open Program.Digraph Program.Keyed List

variable {F : Type}

/-- The edge leads from one memory to the other. -/
def GraphEdge.Joins (edge : GraphEdge F) (a b : String) : Prop :=
  (edge.source = a ∧ edge.target = b) ∨ (edge.directed = false ∧ edge.source = b ∧ edge.target = a)

def Joined (edges : List (GraphEdge F)) (a b : String) : Prop := ∃ edge ∈ edges, edge.Joins a b

/-! ### Endpoints -/

variable {values : List String}

theorem nodup_snoc {value : String} (h : values.Nodup) (hnew : value ∉ values) :
    (values ++ [value]).Nodup := by
  rw [← concat_eq_append]
  exact List.Nodup.concat hnew h

theorem length_pushUnique (values : List String) (value : String) :
    (pushUnique values value).length ≤ values.length + 1 := by
  unfold pushUnique
  split
  · omega
  · simp

theorem nodup_pushUnique (h : values.Nodup) (value : String) : (pushUnique values value).Nodup := by
  unfold pushUnique
  split
  · exact h
  · rename_i hnew
    exact nodup_snoc h hnew

/-- The endpoints are different ones, and no more than the walk may name. -/
def Bounded (ids : List String) : Prop := ids.Nodup ∧ ids.length ≤ GRAPH_ACL_MAX_ENDPOINT_IDS

variable {acc : List String × List String}

theorem bounded_reach (h : Bounded acc.1) (neighbor : String) : Bounded (reach acc neighbor).1 := by
  grind [Bounded, reach]

theorem bounded_reach_all (neighbors : List String) (h : Bounded acc.1) :
    Bounded (neighbors.foldl reach acc).1 := by
  induction neighbors generalizing acc with
  | nil => exact h
  | cons neighbor neighbors ih => exact ih (bounded_reach h neighbor)

theorem bounded_reachRound (adjacency : Adjacency String) (frontier : List String) (h : Bounded acc.1) :
    Bounded (frontier.foldl
      (fun acc current => ((adjacency.get current).getD []).foldl reach acc) acc).1 := by
  induction frontier generalizing acc with
  | nil => exact h
  | cons current frontier ih => exact ih (bounded_reach_all _ h)

variable {reachable : List String}

theorem bounded_reachRounds (adjacency : Adjacency String) (n : ℕ) (frontier : List String)
    (h : Bounded reachable) : Bounded (reachRounds adjacency n reachable frontier) := by
  induction n generalizing reachable frontier with
  | zero => exact h
  | succ n ih =>
    rw [reachRounds]
    split
    · exact h
    · exact ih _ (bounded_reachRound adjacency frontier h)

theorem bounded_pushUnique (seeds : List String) (h : reachable.Nodup)
    (hroom : reachable.length + seeds.length ≤ GRAPH_ACL_MAX_ENDPOINT_IDS) :
    Bounded (seeds.foldl pushUnique reachable) := by
  induction seeds generalizing reachable with
  | nil => exact ⟨h, hroom⟩
  | cons seed seeds ih =>
    refine ih (nodup_pushUnique h seed) ?_
    have hle := length_pushUnique reachable seed
    rw [length_cons] at hroom
    omega

/-- Whatever the edges and the seeds are, the access checks are asked about two hundred
memories at most, and about none of them twice. -/
theorem bounded_reachableEndpointIds (edges : List (GraphEdge F)) (seeds : List String) :
    Bounded (reachableEndpointIds edges seeds) := by
  refine bounded_reachRounds _ _ _ (bounded_pushUnique _ nodup_nil ?_)
  rw [length_nil, Nat.zero_add]
  exact length_take_le _ _

/-! ### Adjacency -/

/-- What is filed satisfies a condition of the memory it is filed under. -/
def Adjacency.All {L : Type} (P : String → L → Prop) (m : Adjacency L) : Prop :=
  ∀ entry ∈ m, ∀ l ∈ entry.2, P entry.1 l

namespace Adjacency.All

variable {L : Type} {P : String → L → Prop} {m : Adjacency L}

variable {x : String}

theorem push (h : m.All P) {l : L} (hl : P x l) : (m.push x l).All P := by
  refine forall_mem_upsert h ?_ ?_
  · intro l' hl'
    rw [mem_singleton] at hl'
    exact hl' ▸ hl
  · intro old hold hkey l' hl'
    obtain hl' | hl' := mem_append.mp hl'
    · exact h old hold l' hl'
    · rw [mem_singleton] at hl'
      rw [hl', hkey]
      exact hl

theorem get (h : m.All P) {ls : List L} (hget : m.get x = some ls) : ∀ l ∈ ls, P x l := by
  obtain ⟨entry, hentry, rfl⟩ := Option.map_eq_some_iff.mp hget
  obtain ⟨hmem, rfl⟩ := rowAt_some hentry
  exact h entry hmem

end Adjacency.All

section Links

variable [Double F]

theorem keepStronger_subset {edges unique : List (GraphEdge F)} (h : ∀ e ∈ unique, e ∈ edges)
    {edge : GraphEdge F} (hedge : edge ∈ edges) : ∀ e ∈ keepStronger unique edge, e ∈ edges := by
  refine forall_mem_upsert h hedge ?_
  intro old hold _
  split
  · exact hedge
  · exact h old hold

theorem foldl_keepStronger_subset {edges : List (GraphEdge F)} (rest : List (GraphEdge F))
    {unique : List (GraphEdge F)} (hrest : ∀ e ∈ rest, e ∈ edges) (h : ∀ e ∈ unique, e ∈ edges) :
    ∀ e ∈ rest.foldl keepStronger unique, e ∈ edges := by
  induction rest generalizing unique with
  | nil => exact h
  | cons e rest ih =>
    exact ih (fun e he => hrest e (mem_cons_of_mem _ he))
      (keepStronger_subset h (hrest e mem_cons_self))

theorem uniqueEdges_subset (edges : List (GraphEdge F)) : ∀ e ∈ uniqueEdges edges, e ∈ edges :=
  foldl_keepStronger_subset _ (fun _ he => (mem_filter.mp he).1) (by simp)

end Links

/-- Every link is an edge, seen from the memory it is filed under. -/
def LinkOf (edges : List (GraphEdge F)) (x : String) (l : Link F) : Prop := Joined edges x l.target

theorem fileEdge_linkOf {edges : List (GraphEdge F)} {m : Adjacency (Link F)}
    (h : m.All (LinkOf edges)) {edge : GraphEdge F} (hedge : edge ∈ edges) :
    (fileEdge (fun target edge => (⟨target, edge.strength⟩ : Link F)) m edge).All
      (LinkOf edges) := by
  have hforward : LinkOf edges edge.source (⟨edge.target, edge.strength⟩ : Link F) :=
    ⟨edge, hedge, Or.inl ⟨rfl, rfl⟩⟩
  unfold fileEdge
  dsimp only
  split
  · exact h.push hforward
  · rename_i hdirected
    refine (h.push hforward).push ?_
    exact ⟨edge, hedge, Or.inr ⟨eq_false_of_ne_true hdirected, rfl, rfl⟩⟩

variable [Double F]

theorem adjacencyOf_linkOf (edges : List (GraphEdge F)) : (adjacencyOf edges).All (LinkOf edges) := by
  suffices hfold : ∀ (rest : List (GraphEdge F)) (m : Adjacency (Link F)),
      (∀ e ∈ rest, e ∈ edges) → m.All (LinkOf edges) →
      (rest.foldl (fileEdge fun target edge => ⟨target, edge.strength⟩) m).All (LinkOf edges) by
    refine hfold _ [] (uniqueEdges_subset edges) ?_
    intro entry hentry
    cases hentry
  intro rest
  induction rest with
  | nil => exact fun _ _ h => h
  | cons e rest ih =>
    intro m hrest h
    exact ih _ (fun e he => hrest e (mem_cons_of_mem _ he))
      (fileEdge_linkOf h (hrest e mem_cons_self))

/-! ### The walk -/

/-- `n` edges lead from one of the seeds to the memory. -/
def Near (edges : List (GraphEdge F)) (seeds : List String) (n : ℕ) (id : String) : Prop :=
  ∃ seed ∈ seeds, Hops (Joined edges) seed n id

/-- What holds of the walk between two rounds. -/
structure Walk.Inv (edges : List (GraphEdge F)) (seeds : List String) (w : Walk F) : Prop where
  queued : ∀ q ∈ w.queue, q.depth ≤ MAX_DEPTH ∧ Near edges seeds q.depth q.memoryId
  found : ∀ r ∈ w.results, (0 < r.depth ∧ r.depth ≤ MAX_DEPTH) ∧ Near edges seeds r.depth r.memoryId
  once : w.visited.Nodup
  visited : (w.results.map AssociativeHit.memoryId).Sublist w.visited
  bounded : w.visited.length ≤ MAX_VISITED_NODES

namespace Walk

variable {edges : List (GraphEdge F)} {w : Walk F}

theorem Inv.start (edges : List (GraphEdge F)) (seeds : List (String × F)) :
    Inv edges ((seeds.take SEED_COUNT).map Prod.fst) (start seeds) where
  queued := by
    intro q hq
    obtain ⟨seed, hseed, rfl⟩ := mem_map.mp hq
    have htake := (mem_filter.mp hseed).1
    exact ⟨Nat.zero_le _, seed.1, mem_map_of_mem htake, .here⟩
  found := by
    intro r hr
    cases hr
  once := nodup_nil
  visited := List.Sublist.refl _
  bounded := Nat.zero_le _

variable {seeds : List String} {current : Queued F}

/-- Going on over a link from a memory that is near leads to one that is near. -/
theorem onward_near {visited : List String} {neighbors : List (Link F)}
    (hdepth : current.depth < MAX_DEPTH) (hnear : Near edges seeds current.depth current.memoryId)
    (hlinks : ∀ l ∈ neighbors, LinkOf edges current.memoryId l) :
    ∀ q ∈ current.onward visited neighbors, q.depth ≤ MAX_DEPTH ∧ Near edges seeds q.depth q.memoryId := by
  intro q hq
  obtain ⟨l, hl, hnext⟩ := mem_filterMap.mp hq
  have hlink := hlinks l (mem_descending.mp (mem_of_mem_take hl))
  obtain ⟨seed, hseed, hpath⟩ := hnear
  unfold Queued.next at hnext
  split at hnext
  · cases hnext
  · dsimp only at hnext
    split at hnext
    · cases hnext
    · cases hnext
      exact ⟨hdepth, seed, hseed, hpath.hop hlink⟩

theorem Inv.visit (h : Inv edges seeds w) {rest : List (Queued F)} (hcurrent : current ∈ w.queue)
    (hrest : ∀ q ∈ rest, q ∈ w.queue) (hnew : current.memoryId ∉ w.visited)
    (hroom : w.visited.length < MAX_VISITED_NODES) :
    Inv edges seeds (w.visit (adjacencyOf edges) current rest) where
  queued := by
    intro q hq
    unfold Walk.visit at hq
    dsimp only at hq
    split at hq
    · exact h.queued q (hrest q hq)
    · rename_i hdepth
      split at hq
      · exact h.queued q (hrest q hq)
      · rename_i neighbors hget
        obtain hq | hq := mem_append.mp hq
        · exact h.queued q (hrest q hq)
        · exact onward_near (by omega) (h.queued current hcurrent).2
            ((adjacencyOf_linkOf edges).get hget) q hq
  found := by
    intro r hr
    unfold Walk.visit at hr
    dsimp only at hr
    split at hr
    · rename_i hdepth
      obtain hr | hr := mem_append.mp hr
      · exact h.found r hr
      · rw [mem_singleton] at hr
        subst hr
        exact ⟨⟨hdepth, (h.queued current hcurrent).1⟩, (h.queued current hcurrent).2⟩
    · exact h.found r hr
  once := nodup_snoc h.once hnew
  visited := by
    unfold Walk.visit
    dsimp only
    split
    · rw [map_append]
      exact h.visited.append (List.Sublist.refl _)
    · exact h.visited.trans (sublist_append_left _ _)
  bounded := by
    unfold Walk.visit
    rw [length_append, length_singleton]
    omega

theorem Inv.step (h : Inv edges seeds w) (hrunning : w.running = true) :
    Inv edges seeds (w.step (adjacencyOf edges)) := by
  simp only [running, Bool.and_eq_true, decide_eq_true_eq] at hrunning
  obtain ⟨⟨-, hroom⟩, -⟩ := hrunning
  unfold Walk.step
  split
  · exact h
  · rename_i current rest hqueue
    have hmem : ∀ q ∈ current :: rest, q ∈ w.queue := by
      intro q hq
      rw [← hqueue] at hq
      exact mem_descending.mp hq
    have hrest : ∀ q ∈ rest, q ∈ w.queue := fun q hq => hmem q (mem_cons_of_mem _ hq)
    split
    · exact { h with queued := fun q hq => h.queued q (hrest q hq) }
    · rename_i hnew
      exact h.visit (hmem current mem_cons_self) hrest hnew hroom

end Walk

/-- What every round keeps holds at the end of the walk. -/
theorem walk_invariant {I : Walk F → Prop} {adjacency : Adjacency (Link F)}
    (hstep : ∀ w, w.running = true → I w → I (w.step adjacency)) {w : Walk F} (h : I w) :
    I (walk adjacency w) := by
  fun_induction walk adjacency w with
  | case1 w hrunning ih => exact ih (hstep w hrunning h)
  | case2 w hrunning => exact h

theorem inv_walk (edges : List (GraphEdge F)) (seeds : List (String × F)) :
    Walk.Inv edges ((seeds.take SEED_COUNT).map Prod.fst)
      (walk (adjacencyOf edges) (Walk.start seeds)) :=
  walk_invariant (fun _ hrunning h => h.step hrunning) (.start edges seeds)

/-- What the traversal returns lies one or two edges from one of the first five seeds. -/
theorem traverseObserved_near (seeds : List (String × F)) (edges : List (GraphEdge F)) :
    ∀ hit ∈ (traverseObserved seeds edges).hits, (0 < hit.depth ∧ hit.depth ≤ MAX_DEPTH) ∧
      Near edges ((seeds.take SEED_COUNT).map Prod.fst) hit.depth hit.memoryId :=
  (inv_walk edges seeds).found

theorem traverseObserved_nodup (seeds : List (String × F)) (edges : List (GraphEdge F)) :
    ((traverseObserved seeds edges).hits.map AssociativeHit.memoryId).Nodup :=
  (inv_walk edges seeds).once.sublist (inv_walk edges seeds).visited

theorem traverseObserved_visited (seeds : List (String × F)) (edges : List (GraphEdge F)) :
    (traverseObserved seeds edges).visited ≤ MAX_VISITED_NODES :=
  (inv_walk edges seeds).bounded

end Plur1bus.Recall
