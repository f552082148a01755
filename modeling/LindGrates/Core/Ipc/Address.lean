import LindGrates.Core.Ipc.State
import LindGrates.Core.Utf8

/-!
# Socket Addresses

A caller names a socket with the bytes of a `sockaddr`, and the registry uses
strings: the path up to the first zero byte, read as UTF-8 with replacements, or
`127.0.0.1:` and the port.

## Main definitions

* `unixKey`, `inetKey`: The string for an address.
* `buildIpcSockaddr`: The address for a string.
-/

namespace LindGrates.Ipc

def family (addr : List UInt8) : BitVec 32 :=
  BitVec.ofNat 32 ((addr.getD 0 0).toNat + 256 * (addr.getD 1 0).toNat)

def port (addr : List UInt8) : Option Nat :=
  if 4 ≤ addr.length then some (256 * (addr.getD 2 0).toNat + (addr.getD 3 0).toNat) else none

/-- The address part of an internet address. Where it is missing it is zero. -/
def ip (addr : List UInt8) : List UInt8 :=
  if 8 ≤ addr.length then (addr.drop 4).take 4 else [0, 0, 0, 0]

/-- Whether the grate takes an internet address for the local host. -/
def isLoopback (addr : List UInt8) : Bool :=
  ip addr = [127, 0, 0, 1] ∨ ip addr = [0, 0, 0, 0]

def pathBytes (addr : List UInt8) : List UInt8 :=
  (addr.drop 2).takeWhile (· ≠ 0)

def unixKey (addr : List UInt8) : Str :=
  fromUtf8Lossy (pathBytes addr)

/-- The text before the port in the name of an internet address. -/
def loopbackText : Str :=
  ['1', '2', '7', '.', '0', '.', '0', '.', '1', ':']

def inetKey (port : Nat) : Str :=
  loopbackText ++ Nat.toDigits 10 port

/-- `rfind(':')`: the text before and after the last colon. -/
def splitLastColon (s : Str) : Option (Str × Str) :=
  let back := s.reverse
  if ':' ∈ s then
    some ((back.dropWhile (· ≠ ':')).tail.reverse, (back.takeWhile (· ≠ ':')).reverse)
  else none

def portBytes (s : Str) : List UInt8 :=
  match parseUnsigned 65536 s with
  | some n => [UInt8.ofNat (n / 256), UInt8.ofNat (n % 256)]
  | none => [0, 0]

/-- The address bytes of a name. -/
def hostBytes (s : Str) : List UInt8 :=
  let parts := s.splitOn '.'
  if parts.length = 4 then
    parts.map fun p => match parseUnsigned 256 p with
      | some n => UInt8.ofNat n
      | none => 0
  else [0, 0, 0, 0]

def buildIpcSockaddr (domain : BitVec 32) (addr : Option Str) : List UInt8 :=
  if domain = afUnix then
    match addr with
    | some path => [1, 0] ++ path.bytes.take 107 ++ [0]
    | none => [1, 0]
  else if domain = afInet then
    match addr.bind splitLastColon with
    | some (host, port) => [2, 0] ++ portBytes port ++ hostBytes host ++ List.replicate 8 0
    | none => [2, 0] ++ List.replicate 14 0
  else []

end LindGrates.Ipc
