import Plur1bus.Program.Digraph
import Mathlib.Data.Finset.Sort
import Mathlib.Data.Prod.Lex
import Mathlib.Data.String.Basic
import Mathlib.Data.List.Lex
import Mathlib.Data.List.Nodup

/-!
The graph of the installed modules: the cycles of their `needs`, and the order
in which the supervisor starts them. The order is Kahn's: a module is ready
when the count of its unlisted needs has come down to nothing, and of the ready
ones the least by priority and then by name goes first.

A manifest that passed its schema lists no need twice and has none of the
reserved names, and the registry refuses a directory of another name than its
manifest's; the structures carry this.
-/

namespace Plur1bus.Modules

open Program.Digraph

/-! ### Manifests -/

def RESERVED_NAMES : List String := ["core", "supervisor", "api", "tools", "con", "prn", "aux", "nul",
    "com1", "com2", "com3", "com4", "com5", "com6", "com7", "com8", "com9",
    "lpt1", "lpt2", "lpt3", "lpt4", "lpt5", "lpt6", "lpt7", "lpt8", "lpt9"]

/-- What the graph reads of a manifest, with what its schema guarantees. -/
structure Manifest where
  name : String
  needs : List String
  priority : ℕ
  name_free : name ∉ RESERVED_NAMES
  needs_nodup : needs.Nodup
  deriving DecidableEq

/-- A directory of the registry: its manifest, or why it has none. -/
structure Installed where
  name : String
  manifest : Except (List String) Manifest
  named : ∀ m, manifest = .ok m → m.name = name

def CORE : String := "core"

/-- The valid modules as the pairs put into the map; of two under one key the
last counts. -/
abbrev Valid := List (String × Manifest)

def valid (mods : List Installed) : Valid := mods.filterMap (fun m =>
    match m.manifest with
    | .ok x => some (m.name, x)
    | .error _ => none)

namespace Valid

variable (valid : Valid)

def keys : Finset String := (valid.map Prod.fst).toFinset

def get (n : String) : Option Manifest := valid.reverse.lookup n

/-- The indexing `valid[n]` is asked for keys only. -/
def needs (n : String) : List String := ((valid.get n).map Manifest.needs).getD []

def priority (n : String) : ℕ := ((valid.get n).map Manifest.priority).getD 0

/-- A key of the map. -/
abbrev Node := { n : String // n ∈ valid.keys }

/-- Needs between valid modules. -/
def moduleNeeds (n : String) : List (Node valid) :=
  (valid.needs n).filterMap (fun d => if h : d ∈ valid.keys then some ⟨d, h⟩ else none)

/-! ### Cycles -/

/-- What `start` reaches by one need or more. -/
def reach (start : String) : Finset String :=
  (explore (fun n : Node valid => valid.moduleNeeds n.1) (valid.moduleNeeds start).reverse ∅).map
    (Function.Embedding.subtype _)

def component (u : String) : List String :=
  ((valid.reach u).filter (fun v => u ∈ valid.reach v)).sort (· ≤ ·)

def needsCycles : List (List String) :=
  ((valid.keys.filter (fun u => u ∈ valid.reach u)).image valid.component).sort (· ≤ ·)

/-! ### The order -/

/-- Valid, in no cycle, and with every need resolved. -/
def startable : Finset String :=
  prune (fun ok n => (valid.needs n).any (fun d => d != CORE && !decide (d ∈ ok)))
    (valid.keys.filter (fun n => n ∉ valid.needsCycles.flatten))

structure Queue where
  pending : String → ℕ
  ready : Finset (ℕ ×ₗ String)
  order : List String

def entry (n : String) : ℕ ×ₗ String := toLex (valid.priority n, n)

def start (ok : Finset String) : Queue :=
  let pending := fun n => (valid.moduleNeeds n).length
  { pending := pending
    ready := (ok.filter (fun n => pending n = 0)).image valid.entry
    order := [] }

/-- The count of one module that needs the one just listed goes down. -/
def countDown (n : String) (q : Queue) (v : String) : Queue := if n ∈ valid.needs v then
    let d := q.pending v - 1
    { q with
      pending := Function.update q.pending v d
      ready := if d = 0 then insert (valid.entry v) q.ready else q.ready }
  else q

/-- The least ready entry, `pop_first`. -/
def first (q : Queue) : Option (ℕ ×ₗ String) := if h : q.ready.Nonempty then some (q.ready.min' h) else none

def pop (ok : Finset String) (q : Queue) : Option Queue :=
  match first q with
  | none => none
  | some e =>
      let n := (ofLex e).2
      some ((ok.sort (· ≤ ·)).foldl (valid.countDown n)
        { q with ready := q.ready.erase e, order := q.order ++ [n] })

/-- The loop, with one turn for each module it can list. -/
def drain (ok : Finset String) : ℕ → Queue → Queue
  | 0, q => q
  | fuel + 1, q =>
      match valid.pop ok q with
      | none => q
      | some q' => drain ok fuel q'

end Valid

/-- The modules the supervisor starts, in order. -/
def startOrder (mods : List Installed) : List String :=
  let v := valid mods
  (v.drain v.startable v.startable.card (v.start v.startable)).order

end Plur1bus.Modules
