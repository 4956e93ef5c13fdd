import Plur1bus.Language
import Plur1bus.Program.Spelling

/-!
Addresses and what they are. The web tools and the resolver of OAuth metadata each have a module
for this, and most of the two is the same text: it stands here once, and takes as parameters the
tables that a module registers. What differs stands in the module of each.

A number of the source is a double. It is a natural number here: what does not fit in 53 bits
is too large for every bound it is compared with, and stays so when it is rounded.
-/

namespace Plur1bus.Net

open Program

inductive Family
  | v4
  | v6
  deriving DecidableEq, Repr

structure ParsedAddress where
  family : Family
  bytes : List ℕ
  deriving DecidableEq, Repr

/-- `reason` is given when the address is not public. -/
structure Verdict where
  isPublic : Bool
  reason : String := ""
  deriving DecidableEq, Repr

structure Cidr where
  family : Family
  bytes : List ℕ
  bits : ℕ
  deriving DecidableEq, Repr

/-! ### IPv4 -/

def isDecimal (c : Char) : Bool := '0' ≤ c && c ≤ '9'

def isOctal (c : Char) : Bool := '0' ≤ c && c ≤ '7'

def parseV4Part (s : List Char) : Option ℕ :=
  if (s.take 2 = ['0', 'x'] ∨ s.take 2 = ['0', 'X']) ∧ s.drop 2 ≠ [] ∧ (s.drop 2).all isHex then
    some (parseInt 16 (s.drop 2))
  else if s.head? = some '0' ∧ s.tail.all isOctal then some (if s.length = 1 then 0 else parseInt 8 s)
  else if s.head?.any (fun c => '1' ≤ c && c ≤ '9') ∧ s.tail.all isDecimal then some (parseInt 10 s)
  else none

/-- `/^(0|[1-9][0-9]{0,2})$/`. -/
def isQuadPart (s : List Char) : Bool :=
  s = ['0'] || (s.head?.any (fun c => '1' ≤ c && c ≤ '9') && s.tail.all isDecimal && s.tail.length ≤ 2)

/-- The last part fills the bytes that remain. -/
def v4Bytes (nums : List ℕ) : Option (List ℕ) :=
  let last := nums.getLastD 0
  let lastBytes := 5 - nums.length
  if last ≥ 256 ^ lastBytes then none
  else if nums.dropLast.any (· > 255) then none
  else some (nums.dropLast ++ (List.range lastBytes).map fun i => last / 256 ^ (lastBytes - 1 - i) % 256)

def parseV4 (s : List Char) (strict : Bool) : Option (List ℕ) :=
  let parts := s.splitOn '.'
  if parts.length > 4 then none
  else if strict ∧ parts.length ≠ 4 then none
  else if strict ∧ parts.all isQuadPart = false then none
  else (parts.mapM parseV4Part).bind v4Bytes

/-! ### IPv6 -/

def isGroup (h : List Char) : Bool := 1 ≤ h.length && h.length ≤ 4 && h.all isHex

def toGroups (part : List Char) : Option (List ℕ) :=
  if part = [] then some []
  else if (part.splitOn ':').all isGroup then some ((part.splitOn ':').map (parseInt 16))
  else none

/-- `s.slice(s.lastIndexOf(":") + 1)`. -/
def afterColon (s : List Char) : List Char := (s.reverse.takeWhile (· ≠ ':')).reverse

/-- `s.slice(0, s.lastIndexOf(":") + 1)`. -/
def throughColon (s : List Char) : List Char := (s.reverse.dropWhile (· ≠ ':')).reverse

def v6Char (c : Char) : Bool := isHex c || c = ':' || c = '.'

/-- The groups of `head`, with those of `tail` after them; `::` stands for the zeros between. -/
def groupsOf (head : List Char) (tail : List ℕ) : Option (List ℕ) :=
  let dbl := indexOf [':', ':'] head
  if dbl ≠ lastIndexOf [':', ':'] head then none
  else
    match dbl with
    | some d =>
      match toGroups (head.take d), toGroups (head.drop (d + 2)) with
      | some a, some b =>
        if a.length + b.length + tail.length < 8 then
          some (a ++ List.replicate (8 - (a.length + b.length + tail.length)) 0 ++ b ++ tail)
        else none
      | _, _ => none
    | none => (toGroups head).map fun a => a ++ tail

def v6Bytes (groups : List ℕ) : List ℕ := groups.flatMap fun g => [g / 256, g % 256]

/-- The two groups that a dotted tail stands for. -/
def tailGroups (v4 : List ℕ) : List ℕ := [v4.getD 0 0 * 256 + v4.getD 1 0, v4.getD 2 0 * 256 + v4.getD 3 0]

/-- What the two modules make of a text with colons. `cut` is what becomes of the text before a
dotted tail, and `toBytes` the end of the function. -/
def parseV6With (cut : List Char → List Char) (toBytes : List ℕ → Option (List ℕ)) (s : List Char) : Option (List ℕ) :=
  if s = [] ∨ s.all v6Char = false ∨ ':' ∉ s then none
  else if '.' ∈ afterColon s then
    (parseV4 (afterColon s) true).bind fun v4 => (groupsOf (cut (throughColon s)) (tailGroups v4)).bind toBytes
  else (groupsOf s []).bind toBytes

/-- `trim`. -/
def trimmed (s : List Char) : List Char := ((s.dropWhile isWhite).reverse.dropWhile isWhite).reverse

def bracketed (s : List Char) : Bool := s.head? = some '[' && s.getLast? = some ']'

/-- `s.slice(1, -1)`. -/
def inner (s : List Char) : List Char := s.tail.dropLast

/-! ### Classification -/

def isV4Mapped (b : List ℕ) : Bool := (b.take 10).all (· = 0) && b[10]? = some 0xff && b[11]? = some 0xff

/-- A mapped address becomes the IPv4 address that it carries. -/
def canonical (a : ParsedAddress) : ParsedAddress :=
  if a.family = .v6 ∧ isV4Mapped a.bytes then ⟨.v4, a.bytes.drop 12⟩ else a

/-- The first `bits` bits agree, byte after byte. -/
def bitsAgree (bits : ℕ) (a b : List ℕ) : Bool := (List.range ((bits + 7) / 8)).all fun i =>
    let left := bits - 8 * i
    let mask := if left ≥ 8 then 0xff else (0xff <<< (8 - left)) &&& 0xff
    (a.getD i 0 &&& mask) = (b.getD i 0 &&& mask)

def inCidr (a : ParsedAddress) (c : Cidr) : Bool :=
  (canonical a).family = c.family && bitsAgree c.bits (canonical a).bytes c.bytes

/-- `addr` or `addr/bits`, with the module's own way to read an address. -/
def parseCidrWith (parseAddress : List Char → Bool → Option ParsedAddress) (input : List Char) : Option Cidr :=
  match input.splitOn '/' with
  | [addr] =>
    (parseAddress addr true).map fun a => ⟨a.family, a.bytes, if a.family = .v4 then 32 else 128⟩
  | [addr, bits] =>
    (parseAddress addr true).bind fun a =>
      if bits ≠ [] ∧ bits.length ≤ 3 ∧ bits.all isDecimal ∧ parseInt 10 bits ≤ (if a.family = .v4 then 32 else 128) then
        some ⟨a.family, a.bytes, parseInt 10 bits⟩
      else none
  | _ => none

/-- The ranges of a table that can be read. -/
def register (parseCidr : List Char → Option Cidr) (table : List (String × String)) : List (Cidr × String) :=
  table.filterMap fun (cidr, reason) => (parseCidr cidr.toList).map fun c => (c, reason)

def classifyV4With (v4Ranges : List (Cidr × String)) (bytes : List ℕ) : Verdict :=
  if bytes.all (· = 255) then ⟨false, "reserved"⟩
  else
    match v4Ranges.find? fun (c, _) => inCidr ⟨.v4, bytes⟩ c with
    | some (_, reason) => ⟨false, reason⟩
    | none => ⟨true, ""⟩

def word (b : List ℕ) (i : ℕ) : ℕ := b.getD i 0 * 256 + b.getD (i + 1) 0

def isNat64 (b : List ℕ) : Bool := word b 0 = 0x64 && word b 2 = 0xff9b && ((b.drop 4).take 8).all (· = 0)

def is6to4 (b : List ℕ) : Bool := word b 0 = 0x2002

def classifyAddressWith (v4Ranges v6Ranges : List (Cidr × String)) (input : ParsedAddress) : Verdict :=
  let a := canonical input
  if a.family = .v4 then classifyV4With v4Ranges a.bytes
  -- NAT64 and 6to4 carry an IPv4 address: that one is judged.
  else if isNat64 a.bytes then classifyV4With v4Ranges (a.bytes.drop 12)
  else if is6to4 a.bytes then classifyV4With v4Ranges ((a.bytes.drop 2).take 4)
  else
    match v6Ranges.find? fun (c, _) => inCidr a c with
    | some (_, reason) => ⟨false, reason⟩
    | none => if a.bytes.headD 0 &&& 0xe0 ≠ 0x20 then ⟨false, "reserved"⟩ else ⟨true, ""⟩

end Plur1bus.Net
