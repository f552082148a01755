import LindGrates.Base.Lexical
import LindGrates.Core.Utf8

/-!
# Jailed Paths

The text functions of `paths.rs` and `sockets.rs` in the chroot grate.

The way out takes the slashes at the end of the jail directory off. Of the ways
back only the last does the same; the other two compare with the directory as
it was given.

## Main definitions

* `normalizePath`: A virtual path, absolute and free of dots.
* `jailPath`: The way out: the jail directory in front of it.
* `stripChrootPrefix`, `untranslateSockaddr`, `virtualizeHostCwd`: The ways back, for
  targets of links, addresses of Unix sockets and the directory the grate starts in.
-/

namespace LindGrates.Chroot

open Lexical

def normalizePath (path cwd : Str) : Str :=
  if path = [] then []
  else
    let absPath := if path.isAbsolute then path else trimEnd cwd ++ '/' :: path
    '/' :: Str.join (absPath.split.foldl push [])

/-- `chroot_path`, given the jail directory and the working directory. -/
def jailPath (chrootDir cwd path : Str) : Str :=
  if path = [] then [] else trimEnd chrootDir ++ normalizePath path cwd

/-- What is left of a path behind a prefix, or `/` when nothing is. -/
def dropPrefix (pre path : Str) : Str :=
  if path.drop pre.length = [] then ['/'] else path.drop pre.length

def stripChrootPrefix (chrootDir path : Str) : Str :=
  if chrootDir.isPrefixOf path then dropPrefix chrootDir path else path

def virtualizeHostCwd (chrootDir hostCwd : Str) : Str :=
  let dir := trimEnd chrootDir
  if dir = [] ∨ dir = ['/'] then normalizePath hostCwd ['/']
  else if hostCwd = dir then ['/']
  else if dir.isPrefixOf hostCwd ∧ Str.isAbsolute (hostCwd.drop dir.length) then
    normalizePath (hostCwd.drop dir.length) ['/']
  else normalizePath hostCwd ['/']

/-- `CString::new`, which refuses a text with a NUL in it. -/
def cString (text : Str) : Option Str :=
  if '\x00' ∈ text then none else some text

/-- The bytes up to the first NUL, read as text. -/
def untilNul (bytes : List UInt8) : Str :=
  fromUtf8Lossy (bytes.takeWhile (· ≠ 0))

/-- `dev_fd_target`: the number behind `/dev/fd/` or `/proc/self/fd/`, if it
    fits in 64 bits. -/
def devFdTarget (path : Str) : Option (BitVec 64) :=
  let dev := "/dev/fd/".toList
  let proc := "/proc/self/fd/".toList
  let rest :=
    if dev.isPrefixOf path then some (path.drop dev.length)
    else if proc.isPrefixOf path then some (path.drop proc.length)
    else none
  rest.bind fun fd =>
    if fd = [] ∨ fd.all Char.isDigit = false then none
    else
      let number := Nat.ofDigitChars 10 fd 0
      if number < 2 ^ 64 then some (BitVec.ofNat 64 number) else none

/-- Whether the family at the start of a socket address is `AF_UNIX`. -/
def isUnix (sockaddr : List UInt8) : Bool :=
  sockaddr.take 2 = [1, 0]

/-- `translate_sockaddr`, on an address that was read from the cage. -/
def translateSockaddr (chrootDir cwd : Str) (sockaddr : List UInt8) : Option (List UInt8) :=
  if sockaddr.length < 2 then none
  else if isUnix sockaddr ∧ 2 < sockaddr.length then
    -- An address in the abstract namespace begins with a NUL and is left alone.
    if (sockaddr.drop 2).head? = some 0 then some sockaddr
    else some (sockaddr.take 2 ++
      (jailPath chrootDir cwd (untilNul (sockaddr.drop 2))).bytes ++ [0])
  else some sockaddr

/-- The path in a socket address, which is empty unless it is the address of a
    file. -/
def unixPath (sockaddr : List UInt8) : Str :=
  if isUnix sockaddr then untilNul (sockaddr.drop 2) else []

/-- The end of `untranslate_sockaddr`: a path written over the old one, as much
    of it as fits before a NUL. -/
def overwrite (dest : List UInt8) (bytes : List UInt8) : List UInt8 :=
  let copyLen := min bytes.length (dest.length - 1)
  if copyLen < dest.length then bytes.take copyLen ++ 0 :: dest.drop (copyLen + 1)
  else bytes.take copyLen ++ dest.drop copyLen

def untranslateSockaddr (chrootDir : Str) (sockaddr : List UInt8) : List UInt8 :=
  if sockaddr.length < 2 then sockaddr
  else if isUnix sockaddr = false ∨ sockaddr.length ≤ 2 then sockaddr
  else
    sockaddr.take 2 ++ overwrite (sockaddr.drop 2)
      (stripChrootPrefix chrootDir (untilNul (sockaddr.drop 2))).bytes

end LindGrates.Chroot
