import Mathlib.Data.Nat.Log
import Plur1bus.Language
import Plur1bus.Program.Exec
import Plur1bus.Program.Value

/-!
Two decoders of a chat completion. `ChatAccumulator` folds the chunks of a stream into events
and, at its end, a result; `parseCompletion` reads a whole body. Both end in `buildResult`,
which parses the arguments of the tool calls and offers those that do not parse to a repair
hook. A push that throws keeps what it did before.
-/

namespace Plur1bus.Providers

open Program Value

abbrev Body := Value Number

abbrev Fields := List (String × Body)

inductive StreamError
  | protocol (message : String)
  /-- An error the server put in the stream or the body. -/
  | stream (body : Body)
  /-- What a repair hook threw when the call was aborted. -/
  | aborted

abbrev Result (α : Type) := Except StreamError α

def refuse {α : Type} (message : String) : Result α :=
  .error (.protocol ("malformed chat_completions response: " ++ message))

/-! ### Usage -/

def nonNegInt (v : Option Body) (what : String) : Result (Option ℕ) :=
  match given v with
  | none => .ok none
  | some (.num n) =>
    match n.safeFrom 0 with
    | some k => .ok (some k)
    | none => refuse (what ++ " must be a non-negative integer")
  | some _ => refuse (what ++ " must be a non-negative integer")

/-- The nearest double, ties to even. -/
def roundDouble (n : ℕ) : ℕ :=
  let unit := 2 ^ (Nat.log2 n - 52)
  if 2 * (n % unit) < unit ∨ (2 * (n % unit) = unit ∧ n / unit % 2 = 0) then n / unit * unit
  else (n / unit + 1) * unit

structure Usage where
  inputTokens : Option ℕ
  outputTokens : Option ℕ
  totalTokens : Option ℕ
  cachedInputTokens : Option ℕ
  cacheWriteTokens : Option ℕ
  reasoningTokens : Option ℕ
  deriving DecidableEq, Repr

/-- `a ?? b`, where `b` is read only if it is needed. -/
def orRead (a : Option ℕ) (b : Result (Option ℕ)) : Result (Option ℕ) :=
  match a with
  | some n => .ok (some n)
  | none => b

/-- A count of a detail object, if there is one. -/
def detail (v : Option Body) (key what : String) : Result (Option ℕ) :=
  match v.bind record with
  | some fields => nonNegInt (fields.lookup key) what
  | none => .ok none

def sumBoth (a b : Option ℕ) : Option ℕ :=
  match a, b with
  | some a, some b => some (roundDouble (a + b))
  | _, _ => none

def usageOf (v : Fields) : Result (Option Usage) := do
  let input ← orRead (← nonNegInt (v.lookup "prompt_tokens") "usage.prompt_tokens")
    (nonNegInt (v.lookup "prompt_eval_count") "usage.prompt_eval_count")
  let output ← orRead (← nonNegInt (v.lookup "completion_tokens") "usage.completion_tokens")
    (nonNegInt (v.lookup "eval_count") "usage.eval_count")
  let pd := v.lookup "prompt_tokens_details"
  let cd := v.lookup "completion_tokens_details"
  let hit ← nonNegInt (v.lookup "prompt_cache_hit_tokens") "usage.prompt_cache_hit_tokens"
  let miss ← nonNegInt (v.lookup "prompt_cache_miss_tokens") "usage.prompt_cache_miss_tokens"
  let cached ← orRead ((← detail pd "cached_tokens" "usage.prompt_tokens_details.cached_tokens").or hit)
    (nonNegInt (v.lookup "cached_tokens") "usage.cached_tokens")
  let written ← orRead (← detail pd "cache_write_tokens" "usage.prompt_tokens_details.cache_write_tokens")
    (detail pd "cache_creation_input_tokens" "usage.prompt_tokens_details.cache_creation_input_tokens")
  let prompt := input.or (sumBoth hit miss)
  let total ← nonNegInt (v.lookup "total_tokens") "usage.total_tokens"
  let reasoning ← detail cd "reasoning_tokens" "usage.completion_tokens_details.reasoning_tokens"
  let u : Usage := ⟨prompt, output, total.or (sumBoth prompt output), cached, written, reasoning⟩
  pure (if u = ⟨none, none, none, none, none, none⟩ then none else some u)

def parseUsage (v : Body) : Result (Option Usage) :=
  match v.record with
  | none => refuse "usage is not an object"
  | some fields => usageOf fields

inductive FinishReason
  | stop | length | toolCalls | contentFilter | other
  deriving DecidableEq, Repr

def normaliseFinish (raw : Units) : FinishReason :=
  if raw = units "stop" then .stop
  else if raw = units "length" then .length
  else if raw = units "tool_calls" ∨ raw = units "function_call" then .toolCalls
  else if raw = units "content_filter" then .contentFilter
  else .other

/-! ### The accumulator -/

structure RawCall where
  index : ℕ
  id : Option Units := none
  name : Option Units := none
  args : Units := []
  deriving DecidableEq, Repr

structure ResponseMeta where
  id : Option Units := none
  model : Option Units := none
  systemFingerprint : Option Units := none
  deriving DecidableEq, Repr

/-- What is known already stays. -/
def readMeta (chunk : Fields) (m : ResponseMeta) : ResponseMeta where
  id := m.id.or (string (chunk.lookup "id"))
  model := m.model.or (string (chunk.lookup "model"))
  systemFingerprint := m.systemFingerprint.or (string (chunk.lookup "system_fingerprint"))

inductive ChatEvent
  | textDelta (text : Units)
  | reasoningDelta (text : Units)
  | toolCallStart (index : ℕ) (id name : Option Units)
  | toolCallDelta (index : ℕ) (argumentsDelta : Units)
  | finish (reason : FinishReason) (raw : Units)
  deriving DecidableEq, Repr

/-- `calls` in the order in which the indices appeared. -/
structure ChatAccumulator where
  metadata : ResponseMeta := {}
  calls : List RawCall := []
  text : Units := []
  reasoning : Units := []
  refusal : Units := []
  raw : Option Units := none
  usage : Option Usage := none
  deriving DecidableEq, Repr

abbrev Step (α : Type) := Prog StreamError ChatAccumulator α

def fail {α : Type} (message : String) : Step α := Prog.ofExcept (refuse message)

/-- The fields of what must be an object. -/
def recordOr (v : Body) (message : String) : Step Fields :=
  match v.record with
  | some fields => pure fields
  | none => fail message

/-- The call at an index; a new one if there is none. -/
def ChatAccumulator.callAt (acc : ChatAccumulator) (index : ℕ) : RawCall :=
  (acc.calls.find? fun c => c.index = index).getD { index := index }

/-- The calls with the one at the index of `c` replaced, or `c` added. -/
def setCall (c : RawCall) (calls : List RawCall) : List RawCall :=
  if c.index ∈ calls.map RawCall.index then calls.map fun c' => if c'.index = c.index then c else c'
  else calls ++ [c]

def writeCall (c : RawCall) : Step Unit := Prog.modify fun acc => { acc with calls := setCall c acc.calls }

def readIndex (v : Option Body) : Step ℕ :=
  match v with
  | some (.num n) =>
    match n.safeFrom 0 with
    | some k => if k > 1023 then fail "tool call delta lacks a valid index" else pure k
    | none => fail "tool call delta lacks a valid index"
  | _ => fail "tool call delta lacks a valid index"

def noteId (index : ℕ) (v : Option Body) : Step Unit :=
  match given v with
  | none => pure ()
  | some (.str id) => do
    let call ← Prog.gets (·.callAt index)
    if id = [] then fail "tool call id is not a non-empty string"
    else if call.id ≠ none ∧ call.id ≠ some id then fail s!"tool call {index} changed its id"
    else writeCall { call with id := some id }
  | some _ => fail "tool call id is not a non-empty string"

def noteName (index : ℕ) (v : Option Body) : Step Unit :=
  match given v with
  | none => pure ()
  | some (.str name) => do
    let call ← Prog.gets (·.callAt index)
    if name = [] then pure ()
    else if call.name ≠ none ∧ call.name ≠ some name then fail s!"tool call {index} changed its name"
    else writeCall { call with name := some name }
  | some _ => fail "tool call name is not a string"

/-- Answers what was added. -/
def noteArgs (maxArgs index : ℕ) (v : Option Body) : Step Units :=
  match given v with
  | none => pure []
  | some (.str args) => do
    let call ← Prog.gets (·.callAt index)
    if call.args.length + args.length > maxArgs then
      fail s!"tool call {index} arguments exceed {maxArgs} bytes"
    else do
      writeCall { call with args := call.args ++ args }
      pure args
  | some _ => fail "tool call arguments are not a string"

def noteFunction (maxArgs index : ℕ) (v : Option Body) : Step Units :=
  match given v with
  | none => pure []
  | some fn => do
    let fields ← recordOr fn "tool call function is not an object"
    noteName index (fields.lookup "name")
    noteArgs maxArgs index (fields.lookup "arguments")

def toolCall (maxArgs : ℕ) (tc : Body) : Step (List ChatEvent) := do
  let fields ← recordOr tc "tool call delta is not an object"
  let index ← readIndex (fields.lookup "index")
  let known ← Prog.gets fun acc => decide (index ∈ acc.calls.map RawCall.index)
  let call ← Prog.gets (·.callAt index)
  writeCall call
  noteId index (fields.lookup "id")
  let argsDelta ← noteFunction maxArgs index (fields.lookup "function")
  let call ← Prog.gets (·.callAt index)
  pure ((if known then [] else [.toolCallStart index call.id call.name]) ++
    if argsDelta = [] then [] else [.toolCallDelta index argsDelta])

/-- A field that must be a string if it is given. -/
def stringOr (v : Option Body) (message : String) : Step Units :=
  match given v with
  | none => pure []
  | some (.str s) => pure s
  | some _ => fail message

def addText (content reasoning refusal : Units) : Step (List ChatEvent) := do
  Prog.modify fun acc => { acc with
    text := acc.text ++ content
    reasoning := acc.reasoning ++ reasoning
    refusal := acc.refusal ++ refusal }
  pure ((if content = [] then [] else [.textDelta content]) ++
    if reasoning = [] then [] else [.reasoningDelta reasoning])

def toolCalls (maxArgs : ℕ) (v : Option Body) : Step (List ChatEvent) :=
  match given v with
  | none => pure []
  | some (.arr tcs) => do
    let events ← Prog.traverse (toolCall maxArgs) tcs
    pure events.flatten
  | some _ => fail "delta.tool_calls is not an array"

def foldDelta (maxArgs : ℕ) (d : Fields) : Step (List ChatEvent) := do
  let _ ← stringOr (d.lookup "role") "delta.role is not a string"
  let content ← stringOr (d.lookup "content") "delta.content is not a string"
  let refusal ← stringOr (d.lookup "refusal") "delta.refusal is not a string"
  let reasoning ← stringOr (orElse (d.lookup "reasoning_content") (d.lookup "reasoning"))
    "delta.reasoning_content is not a string"
  let raw ← Prog.gets ChatAccumulator.raw
  if (content ≠ [] ∨ refusal ≠ [] ∨ reasoning ≠ [] ∨ (array (d.lookup "tool_calls")).getD [] ≠ []) ∧
      raw ≠ none then fail "content after finish_reason"
  else do
    let texts ← addText content reasoning refusal
    let calls ← toolCalls maxArgs (d.lookup "tool_calls")
    pure (texts ++ calls)

def noteFinish (v : Option Body) : Step (List ChatEvent) :=
  match given v with
  | none => pure []
  | some (.str fr) => do
    let raw ← Prog.gets ChatAccumulator.raw
    match raw with
    | none => do
      Prog.modify fun acc => { acc with raw := some fr }
      pure [.finish (normaliseFinish fr) fr]
    | some raw => if raw ≠ fr then fail "conflicting finish_reason" else pure []
  | some _ => fail "finish_reason is not a string"

/-- The index of a choice is 0 if it is given. -/
def firstChoice (v : Option Body) : Bool :=
  match given v with
  | none => true
  | some (.num (.int 0)) => true
  | some _ => false

def choiceDelta (maxArgs : ℕ) (v : Option Body) : Step (List ChatEvent) :=
  match given v with
  | none => pure []
  | some delta => do
    let d ← recordOr delta "delta is not an object"
    foldDelta maxArgs d

def foldChoice (maxArgs : ℕ) (c : Body) : Step (List ChatEvent) := do
  let fields ← recordOr c "choice is not an object"
  if firstChoice (fields.lookup "index") then do
    let events ← choiceDelta maxArgs (fields.lookup "delta")
    let finish ← noteFinish (fields.lookup "finish_reason")
    pure (events ++ finish)
  else fail "unexpected choice index"

/-- An empty usage says nothing and erases nothing. -/
def noteUsage (v : Option Body) : Step Unit :=
  match given v with
  | none => pure ()
  | some usage => do
    let u ← Prog.ofExcept (parseUsage usage)
    Prog.modify fun acc => { acc with usage := u.or acc.usage }

def foldChoices (maxArgs : ℕ) : Option (List Body) → Step (List ChatEvent)
  | none => pure []
  | some choices => do
    let events ← Prog.traverse (foldChoice maxArgs) choices
    pure events.flatten

def pushFields (maxArgs : ℕ) (chunk : Fields) : Step (List ChatEvent) := do
  Prog.modify fun acc => { acc with metadata := readMeta chunk acc.metadata }
  if array (chunk.lookup "choices") = none ∧ (chunk.lookup "usage").bind record = none then
    fail "chunk has neither choices nor usage"
  else do
    let events ← foldChoices maxArgs (array (chunk.lookup "choices"))
    noteUsage (chunk.lookup "usage")
    pure events

def push (maxArgs : ℕ) (chunk : Body) : Step (List ChatEvent) := do
  let fields ← recordOr chunk "chunk is not an object"
  match given (fields.lookup "error") with
  | some _ => Prog.throw (.stream chunk)
  | none => pushFields maxArgs fields

/-! ### The result -/

structure ToolDefinition where
  name : Units

structure RepairInput where
  id : Units
  name : Units
  argumentsRaw : Units
  error : String
  tool : Option ToolDefinition

/-- What a repair hook answers; it may also throw, with the call aborted or not. -/
inductive RepairOutcome
  | thrown (aborted : Bool)
  | nothing
  | parsed (arguments : Body)
  | text (argumentsRaw : Units)

/-- What is called and not part of this: the language's JSON, and the repair hook. -/
structure Calls where
  parse : Units → Except String Body
  stringify : Body → Units
  repair : Option (RepairInput → RepairOutcome)
  tools : List ToolDefinition

structure ToolCall where
  id : Units
  name : Units
  argumentsRaw : Units
  arguments : Option Body := none
  argumentsError : Option String := none
  repaired : Bool := false

structure ChatResult where
  text : Units
  toolCalls : List ToolCall
  finishReason : FinishReason
  rawFinishReason : Units
  metadata : ResponseMeta
  reasoning : Option Units
  refusal : Option Units
  usage : Option Usage

structure ResultParts where
  text : Units
  reasoning : Units
  refusal : Units
  calls : List RawCall
  rawFinish : Units
  usage : Option Usage
  metadata : ResponseMeta
  deriving DecidableEq, Repr

section Build

variable (calls : Calls)

def parseArgs (text : Units) : Except String Body :=
  match calls.parse text with
  | .error e => .error ("arguments are not valid JSON: " ++ e)
  | .ok v => if v.record.isSome then .ok v else .error "arguments must be a JSON object"

def finaliseCall (id name raw : Units) : Result ToolCall :=
  match parseArgs calls raw with
  | .ok v => .ok { id, name, argumentsRaw := raw, arguments := some v }
  | .error e =>
    let failed : ToolCall := { id, name, argumentsRaw := raw, argumentsError := some e }
    match calls.repair with
    | none => .ok failed
    | some repair =>
      match repair { id, name, argumentsRaw := raw, error := e, tool := calls.tools.find? fun t => t.name = name } with
      | .thrown true => .error .aborted
      | .thrown false | .nothing => .ok failed
      | .parsed v =>
        if v.record.isSome then
          .ok { id, name, argumentsRaw := calls.stringify v, arguments := some v, repaired := true }
        else .ok failed
      | .text raw' =>
        match parseArgs calls raw' with
        | .ok v => .ok { id, name, argumentsRaw := raw', arguments := some v, repaired := true }
        | .error _ => .ok failed

/-- The calls in their order; `seen` are the ids so far. -/
def finaliseCalls (seen : List Units) : List RawCall → Result (List ToolCall)
  | [] => .ok []
  | c :: rest =>
    match c.id, c.name with
    | some id, some name =>
      if id ∈ seen then refuse "duplicate tool call id"
      else do
        let call ← finaliseCall calls id name c.args
        let more ← finaliseCalls (seen ++ [id]) rest
        pure (call :: more)
    | _, _ => refuse s!"tool call {c.index} lacks an id or a name"

/-- What is empty is left out. -/
def nonEmpty (s : Units) : Option Units := if s = [] then none else some s

def buildResult (p : ResultParts) : Result ChatResult := do
  let toolCalls ← finaliseCalls calls [] p.calls
  pure {
    text := p.text
    toolCalls := toolCalls
    finishReason := normaliseFinish p.rawFinish
    rawFinishReason := p.rawFinish
    metadata := p.metadata
    reasoning := nonEmpty p.reasoning
    refusal := nonEmpty p.refusal
    usage := p.usage }

def ChatAccumulator.sorted (acc : ChatAccumulator) : List RawCall :=
  acc.calls.mergeSort fun a b => a.index ≤ b.index

structure PartialChatResult where
  text : Units
  toolCalls : List RawCall
  reasoning : Option Units
  usage : Option Usage

def ChatAccumulator.snapshot (acc : ChatAccumulator) : PartialChatResult :=
  ⟨acc.text, acc.sorted, nonEmpty acc.reasoning, acc.usage⟩

/-- What the end of the stream is built of. -/
def ChatAccumulator.parts (acc : ChatAccumulator) (raw : Units) : ResultParts :=
  ⟨acc.text, acc.reasoning, acc.refusal, acc.sorted, raw, acc.usage, acc.metadata⟩

def ChatAccumulator.finish (acc : ChatAccumulator) : Result ChatResult :=
  match acc.raw with
  | none => refuse "stream ended without a finish_reason"
  | some raw => buildResult calls (acc.parts raw)

end Build

/-! ### A whole body -/

def bodyString (v : Option Body) (message : String) : Result Units :=
  match given v with
  | none => .ok []
  | some (.str s) => .ok s
  | some _ => refuse message

def bodyCall (index : ℕ) (tc : Body) : Result RawCall :=
  match tc.record with
  | none => refuse "tool call is malformed"
  | some fields =>
    match (fields.lookup "function").bind record with
    | none => refuse "tool call is malformed"
    | some fn =>
      match string (fields.lookup "id"), string (fn.lookup "name"), string (fn.lookup "arguments") with
      | some id, some name, some args =>
        if id = [] ∨ name = [] then refuse "tool call lacks id, name or string arguments"
        else .ok { index, id := some id, name := some name, args }
      | _, _, _ => refuse "tool call lacks id, name or string arguments"

def bodyCalls (index : ℕ) : List Body → Result (List RawCall)
  | [] => .ok []
  | tc :: rest => do
    let call ← bodyCall index tc
    let more ← bodyCalls (index + 1) rest
    pure (call :: more)

def bodyToolCalls (v : Option Body) : Result (List RawCall) :=
  match given v with
  | none => .ok []
  | some (.arr tcs) => bodyCalls 0 tcs
  | some _ => refuse "message.tool_calls is not an array"

def bodyUsage (v : Option Body) : Result (Option Usage) :=
  match given v with
  | none => .ok none
  | some usage => parseUsage usage

def messageParts (body m : Fields) (fr : Units) : Result ResultParts := do
  let content ← bodyString (m.lookup "content") "message.content is not a string"
  let refusal ← bodyString (m.lookup "refusal") "message.refusal is not a string"
  let reasoning ← bodyString (orElse (m.lookup "reasoning_content") (m.lookup "reasoning"))
    "message.reasoning_content is not a string"
  let calls ← bodyToolCalls (m.lookup "tool_calls")
  let usage ← bodyUsage (body.lookup "usage")
  pure ⟨content, reasoning, refusal, calls, fr, usage, readMeta body {}⟩

def choiceParts (body : Fields) (c : Body) : Result ResultParts :=
  match c.record with
  | none => refuse "choices[0].message is missing"
  | some fields =>
    match (fields.lookup "message").bind record with
    | none => refuse "choices[0].message is missing"
    | some m =>
      match string (fields.lookup "finish_reason") with
      | none => refuse "finish_reason is missing"
      | some fr => messageParts body m fr

def completionParts (body : Body) : Result ResultParts :=
  match body.record with
  | none => refuse "body is not an object"
  | some fields =>
    match given (fields.lookup "error") with
    | some _ => .error (.stream body)
    | none =>
      match array (fields.lookup "choices") with
      | some (c :: _) => choiceParts fields c
      | _ => refuse "choices is missing or empty"

def parseCompletion (calls : Calls) (body : Body) : Result ChatResult := do
  let parts ← completionParts body
  buildResult calls parts

end Plur1bus.Providers
