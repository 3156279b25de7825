/-!
Text as the list of its characters.  Scans read characters from the front, so every rule of the
library is a recursion on that list; positions are counted in bytes of UTF-8, so a byte count is a
measure on the list and not a second representation.  `byteSize_append` is what makes offsets of
consecutive pieces add up.

White space is the Unicode property `White_Space`, which is wider than the class of `Char` by that
name.  Of digits only those of ASCII count, in every format of the library.
-/

namespace SketchPreview

abbrev Text := List Char

namespace Text

/-- The number of bytes a text takes in UTF-8.  Offsets and spans are counted in it. -/
def byteSize (t : Text) : Nat := t.foldr (fun c n => c.utf8Size + n) 0

@[simp] theorem byteSize_nil : byteSize [] = 0 := rfl

@[simp] theorem byteSize_cons (c : Char) (t : Text) :
    byteSize (c :: t) = c.utf8Size + byteSize t := rfl

@[simp] theorem byteSize_append (a b : Text) : byteSize (a ++ b) = byteSize a + byteSize b := by
  induction a with
  | nil => simp
  | cons c a ih => simp [ih, Nat.add_assoc]

/-- Whether a code point lies in one of some runs, each given by its first and its last. -/
def inRanges (ranges : List (Nat × Nat)) (n : Nat) : Bool :=
  ranges.any fun (first, last) => first ≤ n && n ≤ last

/-! ## White space -/

/-- Whether a character is white space.  The separators of U+001C to U+001F, the zero-width space
and the byte order mark are not. -/
def isBlank (c : Char) : Bool :=
  let n := c.toNat
  (0x09 ≤ n && n ≤ 0x0D) || n == 0x20 || n == 0x85 || n == 0xA0 || n == 0x1680 ||
    (0x2000 ≤ n && n ≤ 0x200A) || n == 0x2028 || n == 0x2029 || n == 0x202F || n == 0x205F ||
    n == 0x3000

/-- Takes the characters that satisfy `p` off both ends. -/
def strip (p : Char → Bool) (t : Text) : Text :=
  ((t.dropWhile p).reverse.dropWhile p).reverse

/-- A text without the white space at its ends. -/
def trim (t : Text) : Text := strip isBlank t

/-! ## Digits -/

/-- The decimal numeral of a natural number, without leading zeros. -/
def decimal (n : Nat) : Text := Nat.toDigits 10 n

def digitValue (c : Char) : Nat := c.toNat - '0'.toNat

/-- The number that decimal digits spell. -/
def decimalValue (digits : Text) : Nat := digits.foldl (fun n d => n * 10 + digitValue d) 0

def isHexDigit (c : Char) : Bool :=
  c.isDigit || ('a' ≤ c && c ≤ 'f') || ('A' ≤ c && c ≤ 'F')

/-- The value of a hexadecimal digit of either case. -/
def hexValue? (c : Char) : Option Nat :=
  if '0' ≤ c && c ≤ '9' then some (c.toNat - 0x30)
  else if 'a' ≤ c && c ≤ 'f' then some (c.toNat - 0x57)
  else if 'A' ≤ c && c ≤ 'F' then some (c.toNat - 0x37)
  else none

end Text
end SketchPreview
