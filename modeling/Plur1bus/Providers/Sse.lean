import Plur1bus.Language
import Plur1bus.Program.Streaming
import Plur1bus.Program.LineEnds

/-!
Server-sent events, read as the bytes arrive. The parser keeps the text that is no line yet, how far
that text has been searched for the end of one, and the fields of the event that is being read. Text
is a list of characters; only its length is counted as the language counts it.
-/

namespace Plur1bus.Providers.Sse

open Program

structure SseEvent where
  event : Option (List Char)
  data : List Char
  id : Option (List Char)
  deriving DecidableEq, Repr

/-- The fields that lines set. -/
structure Fields where
  data : List (List Char) := []
  dataBytes : ℕ := 0
  event : Option (List Char) := none
  id : Option (List Char) := none
  deriving DecidableEq, Repr

structure SseParser where
  decoder : Utf8.Decoder := {}
  buf : List Char := []
  scanFrom : ℕ := 0
  fields : Fields := {}
  deriving DecidableEq, Repr

/-- `length` of a string. -/
def units (cs : List Char) : ℕ := (cs.map fun c => if c.toNat < 0x10000 then 1 else 2).sum

def notUtf8 : String := "stream is not valid UTF-8"

def lineExceeds (maxEventBytes : ℕ) : String := "SSE line exceeds " ++ toString maxEventBytes ++ " bytes"

def eventExceeds (maxEventBytes : ℕ) : String := "SSE event exceeds " ++ toString maxEventBytes ++ " bytes"

/-- What stands before the first colon of a line. -/
def fieldOf (line : List Char) : List Char := line.takeWhile (· ≠ ':')

/-- What stands after it, but for one space. -/
def valueOf (line : List Char) : List Char :=
  let value := (line.dropWhile (· ≠ ':')).tail
  if value.head? = some ' ' then value.tail else value

def Fields.line (maxEventBytes : ℕ) (s : Fields) (line : List Char) : Except String (Option SseEvent × Fields) :=
  if line = [] then
    .ok (if s.data = [] then none else some ⟨s.event, ['\n'].intercalate s.data, s.id⟩,
      { s with data := [], dataBytes := 0, event := none })
  else if line.head? = some ':' then .ok (none, s)
  else
    let value := valueOf line
    if fieldOf line = "data".toList then
      if s.dataBytes + units value + 1 > maxEventBytes then .error (eventExceeds maxEventBytes)
      else .ok (none, { s with data := s.data ++ [value], dataBytes := s.dataBytes + units value + 1 })
    else if fieldOf line = "event".toList then .ok (none, { s with event := some value })
    else if fieldOf line = "id".toList ∧ Char.ofNat 0 ∉ value then .ok (none, { s with id := some value })
    else .ok (none, s)

/-- The loop of `#drain`, from the start `i` of a line that has been searched up to `j`. -/
def drainLoop (maxEventBytes : ℕ) (final : Bool) (buf : List Char) :
    ℕ → Fields → ℕ → ℕ → List SseEvent → Except String (Fields × ℕ × ℕ × List SseEvent)
  | 0, s, i, j, out => .ok (s, i, j, out)
  | fuel + 1, s, i, j, out =>
    let j := j + ((buf.drop j).takeWhile fun c => !isLineEnd c).length
    if j ≥ buf.length then .ok (s, i, j, out)
    -- The CR waits for a possible LF.
    else if buf[j]? = some '\r' ∧ j + 1 = buf.length ∧ final = false then .ok (s, i, j, out)
    else
      let next := if buf[j]? = some '\r' ∧ buf[j + 1]? = some '\n' then j + 2 else j + 1
      match s.line maxEventBytes ((buf.take j).drop i) with
      | .error e => .error e
      | .ok (ev, s) => drainLoop maxEventBytes final buf fuel s next next (out ++ ev.toList)

def SseParser.drain (maxEventBytes : ℕ) (p : SseParser) (final : Bool) : Except String (List SseEvent × SseParser) :=
  match drainLoop maxEventBytes final p.buf (p.buf.length + 1) p.fields 0 p.scanFrom [] with
  | .error e => .error e
  | .ok (s, i, j, out) =>
    let rest : Except String (Fields × ℕ × List SseEvent) := if final ∧ i < p.buf.length then
        match s.line maxEventBytes (p.buf.drop i) with
        | .error e => .error e
        | .ok (ev, s) => .ok (s, p.buf.length, out ++ ev.toList)
      else .ok (s, i, out)
    match rest with
    | .error e => .error e
    | .ok (s, i, out) =>
      if units (p.buf.drop i) > maxEventBytes then .error (lineExceeds maxEventBytes)
      else .ok (out, { p with buf := p.buf.drop i, scanFrom := j - i, fields := s })

def SseParser.push (maxEventBytes : ℕ) (p : SseParser) (chunk : List UInt8) :
    Except String (List SseEvent × SseParser) :=
  match p.decoder.decode chunk true with
  | none => .error notUtf8
  | some (text, decoder) => SseParser.drain maxEventBytes { p with decoder, buf := p.buf ++ text } false

/-- `end`. -/
def SseParser.atEnd (maxEventBytes : ℕ) (p : SseParser) : Except String (List SseEvent × SseParser) :=
  match p.decoder.decode [] false with
  | none => .error notUtf8
  | some (text, decoder) =>
    match SseParser.drain maxEventBytes { p with decoder, buf := p.buf ++ text } true with
    | .error e => .error e
    | .ok (out, p) => .ok (out, { p with fields := {} })

def pushAll (maxEventBytes : ℕ) : SseParser → List (List UInt8) → Except String (List SseEvent × SseParser)
  | p, [] => .ok ([], p)
  | p, chunk :: chunks =>
    match p.push maxEventBytes chunk with
    | .error e => .error e
    | .ok (out, p) =>
      match pushAll maxEventBytes p chunks with
      | .error e => .error e
      | .ok (more, p) => .ok (out ++ more, p)

/-- Every piece pushed, then the end. -/
def parseFrom (maxEventBytes : ℕ) (p : SseParser) (chunks : List (List UInt8)) : Except String (List SseEvent) :=
  match pushAll maxEventBytes p chunks with
  | .error e => .error e
  | .ok (out, p) =>
    match p.atEnd maxEventBytes with
    | .error e => .error e
    | .ok (last, _) => .ok (out ++ last)

def parse (maxEventBytes : ℕ) (chunks : List (List UInt8)) : Except String (List SseEvent) :=
  parseFrom maxEventBytes {} chunks

end Plur1bus.Providers.Sse
