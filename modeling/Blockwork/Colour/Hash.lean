/-!
# Category colours from names

A toolbox category that has no colour of its own gets one from its name, so the same name is
always painted the same way. The name is hashed with the DJB2 scheme over its UTF-16 code
units: starting from 5381, each unit `u` turns the hash `h` into `32 · h + h + u`, where the
shift is taken on `h` cut to a signed 32-bit word and wraps there, and the two sums are taken in
signed 64-bit words. Three hashes of the name with different suffixes then pick a lightness and
two chroma coordinates.
-/

namespace Blockwork.Colour

/-- The UTF-16 code units of a character: one unit below U+10000, else a surrogate pair. -/
def utf16Units (c : Char) : List Nat :=
  let n := c.toNat
  if n < 0x10000 then [n]
  else
    let v := n - 0x10000
    [0xD800 + v / 1024, 0xDC00 + v % 1024]

/-- The UTF-16 code units of a string. -/
def units16 (s : String) : List Nat :=
  s.toList.flatMap utf16Units

/-- One DJB2 step in machine words: the hash is cut to a signed 32-bit word and shifted left by
five there, and the widened shift, the hash and the unit are added as signed 64-bit words. -/
def hashStep (h : Int64) (u : Nat) : Int64 :=
  (h.toInt32 <<< 5).toInt64 + h + Int64.ofNat u

/-- The DJB2 hash of a string over its UTF-16 code units. -/
def hash (s : String) : Int :=
  ((units16 s).foldl hashStep 5381).toInt

/-- The CIE Lab coordinates picked for a name: lightness in `(-40, 80)` and chroma coordinates
in `(-240, 80)`, each from a remainder that keeps the sign of the hash. -/
def labOfName (name : String) : Int × Int × Int :=
  (20 + (hash (name ++ "a")).tmod 60,
   (hash (name ++ "ab")).tmod 160 - 80,
   (hash (name ++ "abc")).tmod 160 - 80)

end Blockwork.Colour
