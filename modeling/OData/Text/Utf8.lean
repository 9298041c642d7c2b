/-!
# Bytes of a text

`utf8` writes a text as bytes and `ofUtf8` reads bytes as a text.  Reading
never fails: bytes that are not UTF-8 are read as replacement characters, one
for each longest run of bytes that begins a character and does not complete
it.  The reader is a machine that holds the character it has begun.
-/

namespace OData.Text

/-- The bytes of a text in UTF-8. -/
def utf8 (cs : List Char) : List UInt8 := cs.flatMap String.utf8EncodeChar

/-- The character that stands for bytes that are not UTF-8. -/
def replacement : Char := '\ufffd'

/-- A character of several bytes that is not complete. -/
structure Unfinished where
  /-- The number of bytes to come. -/
  needed : Nat
  /-- The least value of the next byte. -/
  lower : Nat
  /-- The greatest value of the next byte. -/
  upper : Nat
  /-- The bits read so far. -/
  code : Nat

/-- What a byte at the start of a character gives: characters, and a character begun. -/
def startByte (b : UInt8) : List Char × Option Unfinished :=
  let n := b.toNat
  if n < 0x80 then ([Char.ofNat n], none)
  else if 0xc2 ≤ n && n ≤ 0xdf then ([], some ⟨1, 0x80, 0xbf, n - 0xc0⟩)
  else if n = 0xe0 then ([], some ⟨2, 0xa0, 0xbf, 0⟩)
  else if n = 0xed then ([], some ⟨2, 0x80, 0x9f, 0xd⟩)
  else if 0xe1 ≤ n && n ≤ 0xef then ([], some ⟨2, 0x80, 0xbf, n - 0xe0⟩)
  else if n = 0xf0 then ([], some ⟨3, 0x90, 0xbf, 0⟩)
  else if n = 0xf4 then ([], some ⟨3, 0x80, 0x8f, 4⟩)
  else if 0xf1 ≤ n && n ≤ 0xf3 then ([], some ⟨3, 0x80, 0xbf, n - 0xf0⟩)
  else ([replacement], none)

/-- One byte read by the machine: the characters it completes and the character it leaves begun. -/
def nextByte : Option Unfinished → UInt8 → List Char × Option Unfinished
  | none, b => startByte b
  | some u, b =>
    if u.lower ≤ b.toNat && b.toNat ≤ u.upper then
      let code := u.code * 64 + (b.toNat - 0x80)
      if u.needed ≤ 1 then ([Char.ofNat code], none)
      else ([], some ⟨u.needed - 1, 0x80, 0xbf, code⟩)
    else
      let (cs, begun) := startByte b
      (replacement :: cs, begun)

/-- The text of some bytes after a character begun. -/
def ofUtf8After (begun : Option Unfinished) : List UInt8 → List Char
  | [] => if begun.isSome then [replacement] else []
  | b :: bs => (nextByte begun b).1 ++ ofUtf8After (nextByte begun b).2 bs

/-- The text of some bytes, with replacement characters where they are not UTF-8. -/
def ofUtf8 (bs : List UInt8) : List Char := ofUtf8After none bs

example : ofUtf8 [0x61, 0xe2, 0x82, 0xac] = ['a', '€'] := by decide
example : ofUtf8 [0xe2, 0x82, 0x61, 0xff] = ['\ufffd', 'a', '\ufffd'] := by decide

end OData.Text
