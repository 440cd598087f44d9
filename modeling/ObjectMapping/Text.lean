/-! # Text: blanks, separators and padding

The small text operations that the printers and readers of this library share.

* `Text.isBlank` is the Unicode property `White_Space`, all 25 characters of it.
* `Text.dropBlanks` and `Text.allBlank` skip and recognise blank text.
* `Text.commas` and `Text.quoteAll` write lists of parts and of quoted names.
* `Text.padded` writes a number with leading zeros. -/

namespace ObjectMapping.Text

/-- The Unicode property `White_Space`. -/
def isBlank (c : Char) : Bool :=
  (9 ≤ c.toNat && c.toNat ≤ 13) || c.toNat == 0x20 || c.toNat == 0x85 || c.toNat == 0xA0 ||
    c.toNat == 0x1680 || (0x2000 ≤ c.toNat && c.toNat ≤ 0x200A) || c.toNat == 0x2028 ||
    c.toNat == 0x2029 || c.toNat == 0x202F || c.toNat == 0x205F || c.toNat == 0x3000

/-- The text without its leading blanks. -/
def dropBlanks (text : List Char) : List Char :=
  text.dropWhile isBlank

/-- Whether the text holds nothing but blanks. -/
def allBlank (text : List Char) : Bool :=
  text.all isBlank

/-- The number of bytes that the text takes in UTF-8. -/
def byteCount : List Char → Nat
  | [] => 0
  | c :: rest => c.utf8Size + byteCount rest

/-- The parts with a comma and a space between them. -/
def commas (parts : List String) : String :=
  ", ".intercalate parts

/-- The names in single quotes, with a comma and a space between them. -/
def quoteAll (names : List String) : String :=
  commas (names.map fun name => "'" ++ name ++ "'")

/-- The decimal digits of `n`, with zeros in front up to `width` digits. -/
def padded (width n : Nat) : String :=
  let digits := toString n
  "".pushn '0' (width - digits.length) ++ digits

end ObjectMapping.Text
