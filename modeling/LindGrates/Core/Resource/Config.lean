import LindGrates.Base.Words
import LindGrates.Core.Resource.Nanny
import LindGrates.Core.Utf8
import Mathlib.Data.Finset.Insert
import Mathlib.Data.List.DropRight

/-!
# The Configuration of the Resource Grate

A file of lines `resource <name> <value>`. Of a resource that is named twice the
last value counts, and the lists of ports are added up. The file is read with one
call, into a buffer of 8192 bytes, and what that call returns is parsed.

## Main definitions

* `lines`, `directive`: How a text is cut into lines, and a line into words.
* `ResourceConfig.insert`: What a line does to the configuration.
* `parseFile`: The configuration made of what one `read` returned.
* `fromConfig`: The limits the grate starts with.
-/

namespace LindGrates.Resource

/-- `RENEWABLE_RESOURCES`, which have a rate. -/
def renewableResources : List Str :=
  ["cpu", "filewrite", "fileread", "netsend", "netrecv", "loopsend", "looprecv", "lograte",
    "random"].map String.toList

/-- `FUNGIBLE_RESOURCES`, which have a limit. -/
def fungibleResources : List Str :=
  ["events", "filesopened", "insockets", "outsockets"].map String.toList

/-- `INDIVIDUAL_RESOURCES`, which have a list of ports. -/
def individualResources : List Str :=
  ["messport", "connport"].map String.toList

/-- What a configuration says of each resource. -/
structure ResourceConfig (F : Type) where
  renewable : Str → Option F
  fungible : Str → Option Nat
  individual : Str → Option (Finset Nat)
  hardCaps : Str → Option Nat

/-- `str::lines`: a line ends with a line feed, before which a carriage return is
    taken off, or with the text. -/
def lines (content : Str) : List Str :=
  let parts := content.splitOn '\n'
  let last := parts.getLast?.getD []
  parts.dropLast.map (fun l => if l.getLast? = some '\r' then l.dropLast else l) ++
    if last = [] then [] else [last]

/-- `char::is_whitespace`. -/
def isWhitespace (c : Char) : Bool :=
  let n := c.toNat
  decide (9 ≤ n ∧ n ≤ 13 ∨ n ∈ [0x20, 0x85, 0xa0, 0x1680, 0x2028, 0x2029, 0x202f, 0x205f, 0x3000] ∨
    0x2000 ≤ n ∧ n ≤ 0x200a)

/-- The name and the value on a line, without what follows a `#`. Other lines are passed over. -/
def directive (line : Str) : Option (Str × Str) :=
  let line := ((line.takeWhile (· ≠ '#')).dropWhile isWhitespace).rdropWhile isWhitespace
  match words isWhitespace line with
  | [first, name, value] => if first = "resource".toList then some (name, value) else none
  | _ => none

/-- Below what the values of a `usize` of the 32-bit target are. -/
def usizeBound : Nat := 0x100000000

/-- Below what the values of a `u16` are. -/
def u16Bound : Nat := 0x10000

/-- Below what the values of a `u64` are. -/
def u64Bound : Nat := 0x10000000000000000

variable {F : Type} (parseF64 : Str → Option F)

open Function in
/-- What a line does to the configuration. A value that cannot be read makes the
    grate panic. -/
def ResourceConfig.insert (c : ResourceConfig F) (d : Str × Str) : Outcome (ResourceConfig F) := do
  if d.1 ∈ renewableResources then
    let value ← okOr .panic (parseF64 d.2)
    return { c with renewable := update c.renewable d.1 (some value) }
  else if d.1 ∈ fungibleResources then
    let value ← okOr .panic (parseUnsigned usizeBound d.2)
    return { c with fungible := update c.fungible d.1 (some value) }
  else if d.1 ∈ individualResources then
    let value ← okOr .panic (parseUnsigned u16Bound d.2)
    let ports := (c.individual d.1).getD ∅
    return { c with individual := update c.individual d.1 (some (Insert.insert value ports)) }
  else if d.1 = "memory".toList ∨ d.1 = "diskused".toList then
    let value ← okOr .panic (parseUnsigned u64Bound d.2)
    return { c with hardCaps := update c.hardCaps d.1 (some value) }
  else return c

/-- The names and values of a text, in their order. -/
def directives (content : Str) : List (Str × Str) :=
  (lines content).filterMap directive

/-- `ResourceConfig::parse`. -/
def parse (content : Str) : Outcome (ResourceConfig F) :=
  (directives content).foldlM (ResourceConfig.insert parseF64)
    ⟨fun _ => none, fun _ => none, fun _ => none, fun _ => none⟩

/-- The size of the buffer for the file. -/
def bufSize : Nat := 8192

/-- `ResourceConfig::parse_file`, with the result of `read`. -/
def parseFile (file : List UInt8) (n : Int) : Outcome (ResourceConfig F) :=
  let buf := file.take bufSize
  if n < 0 then .error .panic else parse parseF64 (fromUtf8Lossy (buf.take n.toNat))

/-- The state of the grate: each rate with its account, each limit with its count,
    and the lists of ports. -/
structure NannyState (F τ : Type) where
  renewable : Str → Option (F × Account F τ)
  fungible : Str → Option Fungible
  individual : Str → Option (Finset Nat)

/-- `NannyState::from_config`. -/
def fromConfig {τ : Type} [Zero F] (now : τ) (c : ResourceConfig F) : NannyState F τ where
  renewable name := (c.renewable name).map fun rate => (rate, ⟨0, now⟩)
  fungible name := (c.fungible name).map fun limit => ⟨limit, 0⟩
  individual := c.individual

end LindGrates.Resource
