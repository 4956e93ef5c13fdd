import Plur1bus.Program.Lines
import Plur1bus.Program.Lossy

/-!
The lines of a log file, first to last and last to first. Both directions read the file in chunks
and carry what a chunk has of a line over to the next one; a line that grows longer than the cap is
reported at once and its remaining bytes are passed over. The list of what an iterator yields stands
for the iterator.
-/

namespace Plur1bus.Logs

open Program

def CHUNK : ℕ := 64 * 1024

def MAX_LINE : ℕ := 256 * 1024

structure RawLine where
  text : String
  tooLong : Bool
  deriving DecidableEq, Repr

def NL : UInt8 := 0x0a

def CR : UInt8 := 0x0d

def decode (b : List UInt8) : String :=
  String.ofList (Utf8.lossy (if b.getLast? = some CR then b.dropLast else b))

def readAt (file : List UInt8) (pos len : ℕ) : List UInt8 := (file.drop pos).take len

/-- What is reported of a line that is longer than the cap. -/
def overlong : RawLine := ⟨"", true⟩

/-- What is yielded of a line whose end was found. -/
def yieldLine (maxLine : ℕ) (line : List UInt8) : List RawLine :=
  if line.length > maxLine then [overlong]
  else if line.length > 0 ∧ ¬(line.length = 1 ∧ line.head? = some CR) then [⟨decode line, false⟩]
  else []

/-! ### Forward -/

/-- What is kept of a line that goes on in the next chunk. -/
structure Carry where
  carry : List (List UInt8) := []
  carryLen : ℕ := 0
  skipping : Bool := false

/-- The lines of a chunk, of which `chunk` is left. -/
def forwardChunk (maxLine : ℕ) : ℕ → Carry → List UInt8 → Carry × List RawLine
  | 0, c, _ => (c, [])
  | n + 1, c, chunk =>
    match chunk.idxOf? NL with
    | none =>
      if c.skipping then (c, [])
      else if c.carryLen + chunk.length > maxLine then (⟨[], 0, true⟩, [overlong])
      else (⟨c.carry ++ [chunk], c.carryLen + chunk.length, false⟩, [])
    | some nl =>
      let rest := forwardChunk maxLine n {} (chunk.drop (nl + 1))
      if c.skipping then rest else (rest.1, yieldLine maxLine (c.carry.flatten ++ chunk.take nl) ++ rest.2)

def forwardFrom (file : List UInt8) (stop maxLine : ℕ) : ℕ → ℕ → Carry → List RawLine
  | 0, _, _ => []
  | n + 1, pos, c =>
    if pos < stop then
      let chunk := readAt file pos (min CHUNK (stop - pos))
      if chunk.length = 0 then []
      else
        let (c, out) := forwardChunk maxLine (chunk.length + 1) c chunk
        out ++ forwardFrom file stop maxLine n (pos + chunk.length) c
    else []

/-- The complete lines from `start` to `stop`. -/
def forwardLines (file : List UInt8) (start stop : ℕ) (maxLine : Option ℕ) : List RawLine :=
  forwardFrom file stop (maxLine.getD MAX_LINE) (stop - start) start {}

/-! ### Backward -/

def boundaryFrom (file : List UInt8) : ℕ → ℕ → ℕ
  | 0, _ => 0
  | n + 1, pos =>
    if pos > 0 then
      let k := min CHUNK pos
      match Lines.lastIdxOf? NL (readAt file (pos - k) k) with
      | some at' => pos - k + at' + 1
      | none => boundaryFrom file n (pos - k)
    else 0

/-- The place after the last line end before `stop`. -/
def lastLineBoundary (file : List UInt8) (stop : ℕ) : ℕ := boundaryFrom file stop stop

/-- The lines of a buffer, last to first, and what is left of it: the end of a line. -/
def backwardBuf (maxLine : ℕ) : ℕ → List UInt8 → List UInt8 × List RawLine
  | 0, buf => (buf, [])
  | n + 1, buf =>
    if buf.length > 0 then
      match Lines.lastIdxOf? NL buf with
      | none => (buf, [])
      | some nl =>
        let more := backwardBuf maxLine n (buf.take nl)
        (more.1, yieldLine maxLine (buf.drop (nl + 1)) ++ more.2)
    else (buf, [])

/-- A buffer that ends where a line does: what is kept of it, whether the line that it begins in is
passed over, and what is yielded. -/
def backwardChunk (maxLine : ℕ) (buf : List UInt8) : List UInt8 × Bool × List RawLine :=
  let (rest, out) := backwardBuf maxLine (buf.length + 1) buf
  if rest.length > maxLine then ([], true, out ++ [overlong]) else (rest, false, out)

def backwardFrom (file : List UInt8) (maxLine : ℕ) : ℕ → ℕ → List UInt8 → Bool → Bool → List RawLine
  | 0, _, _, _, _ => []
  | n + 1, pos, rest, first, skipping =>
    if pos > 0 then
      let k := min CHUNK pos
      let chunk := readAt file (pos - k) k
      let buf :=
        if skipping then (Lines.lastIdxOf? NL chunk).map fun nl => chunk.take nl
        -- The first chunk ends with the end of the last line.
        else some (if first then (chunk ++ rest).dropLast else chunk ++ rest)
      match buf with
      | none => backwardFrom file maxLine n (pos - k) rest first true
      | some buf =>
        let (rest, skips, out) := backwardChunk maxLine buf
        out ++ backwardFrom file maxLine n (pos - k) rest (first && skipping) skips
    else if !skipping ∧ rest.length > 0 then
      -- The first line of the file.
      if rest.length > maxLine then [overlong]
      else if ¬(rest.length = 1 ∧ rest.head? = some CR) then [⟨decode rest, false⟩]
      else []
    else []

/-- The complete lines before `stop`, last to first. -/
def backwardLines (file : List UInt8) (stop : ℕ) (maxLine : Option ℕ) : List RawLine :=
  let pos := lastLineBoundary file stop
  backwardFrom file (maxLine.getD MAX_LINE) (pos + 1) pos [] true false

end Plur1bus.Logs
