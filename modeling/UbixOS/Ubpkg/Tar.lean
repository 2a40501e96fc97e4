import UbixOS.Pkg.Archive

/-! The header that `ubpkg build` writes for a member with a short name (tools/ubpkg/build.c). -/
namespace UbixOS.Ubpkg

open Library Library.Files Pkg

/-- A field of `n` bytes that holds a string. -/
def stringField (n : Nat) (l : Bytes) : Bytes := l ++ List.replicate (n - l.length) 0

def putOctal (width v : Nat) : Bytes := (Text.padded (width - 1) 8 v ++ [0]).take width

def headerFront (name : Bytes) (mode size mtime : Nat) : Bytes :=
  stringField 100 name ++ putOctal 8 mode ++ putOctal 8 0 ++ putOctal 8 0 ++ putOctal 12 size ++ putOctal 12 mtime

def headerBack (typ : UInt8) (link : Bytes) : Bytes :=
  [typ] ++ stringField 100 link ++ ascii "ustar" ++ [0] ++ ascii "00" ++ List.replicate 247 0

def byteSum (l : Bytes) : Nat := (l.map UInt8.toNat).sum

def tarHeader (typ : UInt8) (name link : Bytes) (mode size mtime : Nat) : Bytes :=
  let front := headerFront name mode size mtime
  let back := headerBack typ link
  front ++ (Text.padded 6 8 (byteSum front + 8 * 32 + byteSum back) ++ [0,32]) ++ back

def tarPad (size : Nat) : Bytes := List.replicate (padding size) 0

end UbixOS.Ubpkg
