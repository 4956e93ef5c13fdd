import Plur1bus.Program.Occurrence
import Mathlib.Algebra.Order.Ring.Rat
import Mathlib.Algebra.Order.Floor.Defs
import Mathlib.Data.Rat.Floor
import Mathlib.Tactic.Linarith

/-!
The caps on injected memory text. A text is cut at the end of a whole record,
a marker is put there, and the elements still open are closed; the plan for the
prompt trims or drops its droppable blocks from the last one on until the whole
fits.

A text is its UTF-16 units. Limits are numbers of the source's floating type,
here rationals, so that a limit between two lengths is one too.
-/

namespace Plur1bus.Recall

open Program.Occurrence

abbrev JsString := List UInt16

/-- The units of a literal of the source, all in ASCII. -/
def units (s : String) : JsString := s.toList.map (fun c => UInt16.ofNat c.toNat)

def TRUNCATION_MARKER : JsString := units "\n<!-- memory context truncated -->"

def RECORD_CLOSE : JsString := units "</memory-record>"

/-- `utf16_slice`: both ends are clamped. -/
def slice (text : JsString) (start stop : ℕ) : JsString := (text.take stop).drop start

/-! ### Tags -/

def isLetter (u : UInt16) : Bool := (65 ≤ u && u ≤ 90) || (97 ≤ u && u ≤ 122)

def isNameUnit (u : UInt16) : Bool := isLetter u || (48 ≤ u && u ≤ 57) || u == 95 || u == 45

def isSpace (u : UInt16) : Bool := (9 ≤ u && u ≤ 13) || (0x2000 ≤ u && u ≤ 0x200a) ||
    [0x20, 0xa0, 0x1680, 0x2028, 0x2029, 0x202f, 0x205f, 0x3000, 0xfeff].contains u

/-- What the source's pattern finds: a comment, a closing tag or an opening
one, which may close itself. -/
inductive Token
  | comment
  | closing (name : JsString)
  | opening (name : JsString) (selfClosing : Bool)
  deriving DecidableEq

/-- The rest of the text behind a word it begins with. -/
def after? (word text : JsString) : Option JsString :=
  if word.isPrefixOf text then some (text.drop word.length) else none

/-- The name a tag begins with, and what follows it. -/
def tagName (text : JsString) : Option (JsString × JsString) :=
  match text with
  | u :: _ =>
      if isLetter u then some (text.takeWhile isNameUnit, text.dropWhile isNameUnit) else none
  | [] => none

/-- A comment up to the first end of one. -/
def comment? (text : JsString) : Option (Token × JsString) := do
  let rest ← after? (units "<!--") text
  let stop ← find rest (units "-->") 0
  return (.comment, rest.drop (stop + 3))

def closing? (text : JsString) : Option (Token × JsString) := do
  let rest ← after? (units "</") text
  let (name, rest) ← tagName rest
  let rest ← after? (units ">") (rest.dropWhile isSpace)
  return (.closing name, rest)

/-- An opening tag: its name, and after a white space anything but angle
brackets. -/
def opening? (text : JsString) : Option (Token × JsString) := do
  let rest ← after? (units "<") text
  let (name, rest) ← tagName rest
  let inner := if (rest.head?.map isSpace).getD false
    then rest.takeWhile (fun u => u != 60 && u != 62) else []
  let rest ← after? (units ">") (rest.drop inner.length)
  return (.opening name (inner.getLast? == some 47), rest)

/-- The token at the start of the text, with its length. -/
def token? (text : JsString) : Option (Token × ℕ) :=
  ((comment? text).or ((closing? text).or (opening? text))).map
    (fun found => (found.1, text.length - found.2.length))

/-- The tokens from left to right; `skip` units belong to the one found last.
A surrogate is no part of any tag, so reading units finds the tags that reading
code points would. -/
def tagTokensFrom : JsString → ℕ → List Token
  | [], _ => []
  | _ :: text, skip + 1 => tagTokensFrom text skip
  | u :: text, 0 =>
      match token? (u :: text) with
      | some (token, length) => token :: tagTokensFrom text (length - 1)
      | none => tagTokensFrom text 0

def tagTokens (text : JsString) : List Token := tagTokensFrom text 0

/-- The open elements after one more token, the innermost first. A closing tag
takes everything inside its element with it, and nothing when none is open. -/
def openAfter (stack : List JsString) : Token → List JsString
  | .comment => stack
  | .closing name =>
      if stack.contains name then (stack.dropWhile (· != name)).drop 1 else stack
  | .opening name selfClosing => if selfClosing then stack else name :: stack

def closeOpenElements (text : JsString) : JsString := (((tagTokens text).foldl openAfter []).map
    (fun name => units "\n</" ++ name ++ units ">")).flatten

/-! ### Cutting at a record -/

/-- The last end of a record within the budget. -/
def lastEndFrom (base : JsString) (budget : ℚ) : ℕ → ℕ → Option ℕ → Option ℕ
  | 0, _, cut => cut
  | fuel + 1, start, cut =>
      match find base RECORD_CLOSE start with
      | none => cut
      | some i =>
          let stop := i + RECORD_CLOSE.length
          if (stop : ℚ) > budget then cut else lastEndFrom base budget fuel stop (some stop)

/-- Each turn of the search passes one record, so there are no more turns than
units. -/
def lastEnd (base : JsString) (budget : ℚ) : Option ℕ := lastEndFrom base budget (base.length + 1) 0 none

/-- The prefix with its marker and closings. -/
def cutAt (base : JsString) (cut : ℕ) : JsString :=
  base.take cut ++ TRUNCATION_MARKER ++ closeOpenElements (base.take cut)

/-- The loop of the cut; the outer option is empty when the turns ran out. -/
def trimLoop (base : JsString) (allowed : ℚ) : ℕ → ℕ → Option ℕ → Option (Option JsString)
  | 0, _, _ => none
  | fuel + 1, reserve, previous =>
      let budget := allowed - TRUNCATION_MARKER.length - reserve
      if budget ≤ 0 then some none
      else
        match lastEnd base budget with
        | none => some none
        | some cut =>
            if previous = some cut then some none
            else
              let closings := closeOpenElements (base.take cut)
              if ((cut + TRUNCATION_MARKER.length + closings.length : ℕ) : ℚ) ≤ allowed then
                some (some (cutAt base cut))
              else trimLoop base allowed fuel (max reserve closings.length) (some cut)

/-- The text before a marker that is already there. -/
def markerFree (text : JsString) : JsString := text.take ((find text TRUNCATION_MARKER 0).getD text.length)

def trimAtRecordBoundary (text : JsString) (allowed : ℚ) : Option JsString :=
  if allowed ≤ 0 ∨ find text RECORD_CLOSE 0 = none then none
  else
    let base := markerFree text
    (trimLoop base allowed (base.length + 1) 0 none).getD none

end Plur1bus.Recall
