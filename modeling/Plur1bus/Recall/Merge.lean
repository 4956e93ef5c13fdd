import Plur1bus.Recall.Dedupe
import Plur1bus.Engine.Tombstone
import Plur1bus.Program.Upsert
import Plur1bus.Program.Value

/-!
The merge of the recalls of several namespaces. Canonical sections and memories
are wrappers, JSON objects with an entry inside. Memories of one origin are
kept apart by their windows, the rest is sorted, and ids and texts that came
before go.

The groups of one origin are in a hash map, whose order is a parameter of the
merge, as are lower case and the likeness of two texts. What the trace of the
merge records is a list of notes; the replay of the children's traces is left
out. A text with characters beyond the first plane is cut in UTF-16 units.
-/

namespace Plur1bus.Recall

open Program.Keyed

/-- A value of `serde_json`; a number is the double it reads as. -/
inductive Json
  | null
  | bool (b : Bool)
  | number (q : ℚ)
  | string (s : String)
  | array (items : List Json)
  | object (fields : List (String × Json))

namespace Json

/-- `value[key]`. -/
def get (value : Json) (key : String) : Json :=
  match value with
  | .object fields => ((rowAt Prod.fst key fields).map Prod.snd).getD .null
  | _ => .null

/-- `value[key] = new`, for an object. -/
def set (value : Json) (key : String) (new : Json) : Json :=
  match value with
  | .object fields => .object (upsert Prod.fst (fun _ new => new) (key, new) fields)
  | other => other

def isObject : Json → Bool
  | .object _ => true
  | _ => false

def finite : Json → Option ℚ
  | .number q => some q
  | _ => none

def text : Json → String
  | .string s => s
  | _ => ""

end Json

/-- One completed recall, or the merge of several. -/
structure NamespaceResult (V : Type) where
  (namespace? : Option String)
  sourceKind : Option String
  queryVector : Option V
  canonical : List Json
  memories : List Json

structure MergeOptions where
  maxOut : ℕ
  canonicalMaxItems : ℕ
  dedupEnabled : Bool
  /-- `none` where the threshold is not finite. -/
  dedupJaccard : Option ℚ

structure Candidate where
  item : Json
  (namespace? : Option String)
  priority : ℕ
  ordinal : ℕ

/-- A decision that the trace of the merge records. -/
structure Note where
  (namespace? : Option String)
  id : String
  stage : String
  reason : String
  deriving DecidableEq

structure Merged (V : Type) where
  queryVector : Option V
  canonical : List Json
  memories : List Json
  notes : List Note

/-! ### Texts -/

section Texts

variable (toLowerCase : String → String)

def words (s : String) : List String :=
  ((s.toList.splitOnP isWhite).filter (· ≠ [])).map String.ofList

def normalized (value : Json) : String := toLowerCase (" ".intercalate (words value.text))

def trimEnd (s : List Char) : List Char := (s.reverse.dropWhile isWhite).reverse

/-- The last place up to `limit` before or behind a blank, zero if there is
none. -/
def blankBefore (units : List UInt16) : ℕ → ℕ
  | 0 => 0
  | cut + 1 =>
      if units[cut + 1]? ≠ some 32 ∧ units[cut]? ≠ some 32 then blankBefore units cut else cut + 1

def isControl (c : Char) : Bool :=
  (c.toNat ≤ 0x1f && c != '\t' && c != '\n') || (0x7f ≤ c.toNat && c.toNat ≤ 0x9f)

def preview (value : String) (limit : ℕ) : String :=
  let clean := String.ofList (value.toList.map (fun c => if isControl c then ' ' else c))
  let clean := " ".intercalate (words clean)
  let units := Program.units clean
  if units.length ≤ limit then clean
  else
    let cut := blankBefore units limit
    let cut := if cut = 0 then limit else cut
    String.ofList (trimEnd (Engine.toUtf8Lossy (units.take cut))) ++ "…"

end Texts

/-- A label that may stand on a wrapper: letters of one byte, 64 at most. -/
def namespaceOf (value : Option String) : Option String :=
  value.filter (fun v =>
    v.toList.length ≤ 64 && (v.toList.head?.any isAsciiAlphanumeric) &&
      v.toList.all (fun c => isAsciiAlphanumeric c || c == '_' || c == '-'))

/-! ### Candidates -/

def candidateOf (item : Json) : RecallCandidate :=
  let e := item.get "entry"
  { id := (e.get "id").text
    text := (e.get "text").text
    summary := (e.get "summary").text
    category := (e.get "category").text
    agentId := (e.get "agentId").text
    scope := (e.get "scope").text
    chunkGroupId := (e.get "chunkGroupId").text
    sourceTurnId := (e.get "sourceTurnId").text
    coreMemoryScore := some ((e.get "coreMemoryScore").finite.getD 0)
    validFrom := some ((e.get "validFrom").finite.getD 0)
    validUntil := some ((e.get "validUntil").finite.getD 0)
    score := (item.get "score").finite.map some
    rerankScore := (item.get "rerankScore").finite.map some
    source := (item.get "source").text
    graphSource := (item.get "graphSource").text
    ownership :=
      { id := (e.get "id").text
        scope := (e.get "scope").text
        agentId := (e.get "agentId").text
        storedBy := (e.get "storedBy").text
        workspaceId := (e.get "workspaceId").text
        workspaceKey := (e.get "workspaceKey").text
        ownerUserId := (e.get "ownerUserId").text
        typeName := (e.get "type").text } }

/-- Whose memory an entry is, empty if that is not known. -/
@[irreducible] def originKey (entry : Json) : String :=
  let agent := trim (entry.get "sourceAgentId").text
  let id := trim (entry.get "sourceMemoryId").text
  if agent ≠ "" ∧ id ≠ "" then agent ++ ":" ++ id
  else
    let agent := if (entry.get "agentId").text = "" then (entry.get "storedBy").text
      else (entry.get "agentId").text
    let id := (entry.get "id").text
    if trim agent = "" ∨ trim id = "" then "" else trim agent ++ ":" ++ trim id

def sourceKindOf {V : Type} (result : NamespaceResult V) : String :=
  match result.sourceKind with
  | some "private" => "private"
  | some "workspace" => "workspace"
  | some "user" => "user"
  | _ =>
      match namespaceOf result.namespace? with
      | some "shared-workspace" => "workspace"
      | some "shared-user" => "user"
      | _ => "private"

def priorityOf (kind : String) : ℕ := if kind = "workspace" then 1 else if kind = "user" then 2 else 0

def namespaceLabel (namespace? : Option String) : Json := (namespace?.map Json.string).getD .null

/-- The wrappers that can be read, tagged and numbered from `ordinal` on. -/
def tagged (namespace? : Option String) (priority : ℕ) (memory : Bool) :
    List Json → ℕ → List Candidate × ℕ
  | [], ordinal => ([], ordinal)
  | item :: items, ordinal =>
      if !item.isObject || (memory && !(item.get "entry").isObject) then
        tagged namespace? priority memory items ordinal
      else
        let rest := tagged namespace? priority memory items (ordinal + 1)
        (⟨item.set "namespace" (namespaceLabel namespace?), namespace?, priority, ordinal⟩ :: rest.1,
          rest.2)

/-- The canonical sections and the memories, numbered together. -/
def candidates {V : Type} : List (NamespaceResult V) → ℕ → List Candidate × List Candidate
  | [], _ => ([], [])
  | result :: results, ordinal =>
      let priority := priorityOf (sourceKindOf result)
      let canonical := tagged (namespaceOf result.namespace?) priority false result.canonical ordinal
      let memories := tagged (namespaceOf result.namespace?) priority true result.memories canonical.2
      let rest := candidates results memories.2
      (canonical.1 ++ rest.1, memories.1 ++ rest.2)

/-! ### Order -/

/-- A score that is not there is below every other. -/
def compareScores : Option ℚ → Option ℚ → Ordering
  | none, none => .eq
  | none, some _ => .lt
  | some _, none => .gt
  | some a, some b => compare a b

/-- `compare`: scores fall, and the number decides between equal ones. -/
def compareCandidates (left right : Candidate) : Ordering :=
  let l := (left.item.get "rerankScore").finite
  let r := (right.item.get "rerankScore").finite
  match l, r with
  | some _, none => .lt
  | none, some _ => .gt
  | some l, some r => (compare r l).then (compare left.ordinal right.ordinal)
  | none, none =>
      (compareScores (right.item.get "score").finite (left.item.get "score").finite).then
        (compare left.ordinal right.ordinal)

def sortCandidates (cs : List Candidate) : List Candidate :=
  cs.mergeSort (fun left right => compareCandidates left right != .gt)

/-! ### Canonical sections -/

def noteOf (candidate : Candidate) (id stage reason : String) : Note :=
  ⟨candidate.namespace?, id, stage, reason⟩

/-- The sorted sections: those kept so far with their keys, and the notes. -/
def canonicalLoop (toLowerCase : String → String) (cap : ℕ) :
    List Candidate → List String → List Json → List Note → List Json × List Note
  | [], _, canonical, notes => (canonical, notes)
  | candidate :: rest, keys, canonical, notes =>
      let key := normalized toLowerCase (candidate.item.get "heading") ++ "\x00" ++
        normalized toLowerCase (candidate.item.get "text")
      let title := (candidate.item.get "heading").text
      let title := if title = "" then (candidate.item.get "text").text else title
      let note := noteOf candidate ("canonical:" ++ preview title 40)
      if key ∈ keys then
        canonicalLoop toLowerCase cap rest keys canonical
          (notes ++ [note "namespace-canonical-dedup" "duplicate canonical content"])
      else if canonical.length ≥ cap then
        canonicalLoop toLowerCase cap rest (key :: keys) canonical
          (notes ++ [note "namespace-canonical-cap" "beyond global canonical cap"])
      else canonicalLoop toLowerCase cap rest (key :: keys) (canonical ++ [candidate.item]) notes

def selectCanonical (toLowerCase : String → String) (options : MergeOptions)
    (cs : List Candidate) : List Json × List Note :=
  canonicalLoop toLowerCase (min options.canonicalMaxItems options.maxOut) (sortCandidates cs) [] [] []

/-! ### Origins -/

def originNote (candidate : Candidate) (key : String) : Note :=
  noteOf candidate ((candidate.item.get "entry").get "id").text "namespace-origin-dedup"
    ("duplicate canonical origin " ++ key)

/-- The old candidate's window is not apart from the new one's. -/
def overlaps (candidate old : Candidate) : Bool :=
  !hasDisjointValidityWindows (candidateOf old.item) (candidateOf candidate.item)

def beats (candidate old : Candidate) : Bool :=
  candidate.priority < old.priority ||
    (candidate.priority == old.priority && compareCandidates candidate old == .lt)

/-- The candidate takes the place of all the winners it overlaps, or goes. -/
def insertOrigin (winners : List Candidate) (candidate : Candidate) (key : String) :
    List Candidate × List Note :=
  let overlapped := winners.filter (overlaps candidate)
  if overlapped.all (beats candidate) then
    (winners.filter (fun old => !overlaps candidate old) ++ [candidate],
      overlapped.map (fun old => originNote old key))
  else (winners, [originNote candidate key])

/-- Candidates without an origin, the groups of the others in the order their
keys came, and the notes. -/
structure Origins where
  unique : List Candidate
  groups : List (String × List Candidate)
  notes : List Note

def originStep (st : Origins) (candidate : Candidate) : Origins :=
  let key := originKey (candidate.item.get "entry")
  if key = "" then { st with unique := st.unique ++ [candidate] }
  else
    let winners := ((rowAt Prod.fst key st.groups).map Prod.snd).getD []
    let inserted := insertOrigin winners candidate key
    { unique := st.unique
      groups := upsert Prod.fst (fun _ new => new) (key, inserted.1) st.groups
      notes := st.notes ++ inserted.2 }

/-- `order` is the order in which the hash map gives its groups. -/
def origins (order : List (List Candidate) → List (List Candidate)) (memories : List Candidate) :
    List Candidate × List Note :=
  let st := memories.foldl originStep ⟨[], [], []⟩
  (st.unique ++ (order (st.groups.map Prod.snd)).flatten, st.notes)

/-! ### Ids and the selection -/

def idOf (candidate : Candidate) : String := ((candidate.item.get "entry").get "id").text

def dedupIds : List Candidate → List String → List Candidate × List Note
  | [], _ => ([], [])
  | candidate :: rest, ids =>
      let id := idOf candidate
      if id = "" then
        let kept := dedupIds rest ids
        (candidate :: kept.1, kept.2)
      else if id ∈ ids then
        let kept := dedupIds rest ids
        (kept.1, noteOf candidate id "namespace-id-dedup"
          "duplicate memory ID with a lower global score" :: kept.2)
      else
        let kept := dedupIds rest (id :: ids)
        (candidate :: kept.1, kept.2)

/-- The first place not used yet that holds the selected row. -/
def placesOf (rows : List RecallCandidate) : List RecallCandidate → List ℕ → List ℕ
  | [], _ => []
  | selected :: rest, used =>
      match rows.zipIdx.find? (fun row => !used.contains row.2 && decide (row.1 = selected)) with
      | some (_, place) => place :: placesOf rows rest (place :: used)
      | none => placesOf rows rest used

def DEFAULT_JACCARD : ℚ := 78 / 100

def select (jaccardSimilarity : String → String → ℚ) (unique : List Candidate) (slots : ℕ)
    (options : MergeOptions) : List ℕ :=
  if !options.dedupEnabled then List.range (min unique.length slots)
  else
    let rows := unique.map (fun candidate => candidateOf candidate.item)
    let threshold := options.dedupJaccard.getD DEFAULT_JACCARD
    placesOf rows (dedupResults jaccardSimilarity threshold rows slots) []

def noteUnselected (unique : List Candidate) (selected : List ℕ) : List Note :=
  (unique.zipIdx.filter (fun c => !selected.contains c.2)).map (fun c =>
    noteOf c.1 (idOf c.1) "namespace-result-dedup" "duplicate or beyond global result cap")

section Merge

variable {V : Type} (toLowerCase : String → String) (jaccardSimilarity : String → String → ℚ)
  (order : List (List Candidate) → List (List Candidate))

/-- What is left to choose from: sorted, without doubles of an origin or an id. -/
def survivors (results : List (NamespaceResult V)) : List Candidate × List Note :=
  let unique := origins order (candidates results 0).2
  let kept := dedupIds (sortCandidates unique.1) []
  (kept.1, unique.2 ++ kept.2)

def merge (results : List (NamespaceResult V)) (options : MergeOptions) : Merged V :=
  let canonical := selectCanonical toLowerCase options (candidates results 0).1
  let unique := survivors order results
  let slots := options.maxOut - canonical.1.length
  let selected := select jaccardSimilarity unique.1 slots options
  { queryVector := results.findSome? NamespaceResult.queryVector
    canonical := canonical.1
    memories := selected.filterMap (fun place => (unique.1[place]?).map Candidate.item)
    notes := canonical.2 ++ unique.2 ++ noteUnselected unique.1 selected }

end Merge

end Plur1bus.Recall
