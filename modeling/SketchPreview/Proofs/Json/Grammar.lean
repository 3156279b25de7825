import SketchPreview.Proofs.Text.Languages

/-!
The texts of JSON values.

`Spells` is the grammar with all the freedom that it leaves to those who write: white space between
the tokens, three ways to write a character, names in any order and as often as one likes.  A
`Value` keeps what is written but for that; so the numeral of a number is kept as it is, and a
literal is the text it stands for, which has no lone surrogates.  `Document` is a text that holds a
value and nothing more.
-/

namespace SketchPreview
namespace Json

open Text Computability

inductive Value where
  | null
  | boolean (b : Bool)
  | number (numeral : Text)
  | text (t : Text)
  | list (elements : List Value)
  | object (members : List (Text × Value))

/-! ## Numerals and literals -/

def isMinus (c : Char) : Bool := c == '-'

def isZero (c : Char) : Bool := c == '0'

def isLeadingDigit (c : Char) : Bool := c.isDigit && c != '0'

/-- Whole digits, of which a zero stands in front only when it stands alone. -/
def wholes : Language Char := one isZero + one isLeadingDigit * (one Char.isDigit)∗

def fractions : Language Char := one isPoint * digits

def numerals : Language Char := (1 + one isMinus) * (wholes * ((1 + fractions) * (1 + exponents)))

/-- The digit of a number below sixteen, in either case. -/
def IsHexDigit (n : Nat) (c : Char) : Prop :=
  n < 16 ∧ (c = n.digitChar ∨ c = n.digitChar.toUpper)

/-- Four digits that spell a code unit. -/
def SpellsUnit (n : Nat) (w : Text) : Prop :=
  ∃ a b c d, List.Forall₂ IsHexDigit [a, b, c, d] w ∧ n = ((a * 16 + b) * 16 + c) * 16 + d

/-- The letters of the short escapes and the characters that they stand for. -/
def escapes : List (Char × Char) :=
  [('"', '"'), ('\\', '\\'), ('/', '/'), ('b', '\x08'), ('f', '\x0c'), ('n', '\n'), ('r', '\r'),
    ('t', '\t')]

inductive SpellsChar : Char → Text → Prop
  | plain {c : Char} (hquote : c ≠ '"') (hbackslash : c ≠ '\\') (hcontrol : 0x20 ≤ c.toNat) :
      SpellsChar c [c]
  | letter {letter c : Char} (h : (letter, c) ∈ escapes) : SpellsChar c ['\\', letter]
  | unit {c : Char} {w : Text} (h : SpellsUnit c.toNat w) : SpellsChar c ('\\' :: 'u' :: w)
  /-- A character beyond the code units, as a pair of surrogates. -/
  | pair {c : Char} {high low : Nat} {v w : Text} (hhigh : 0xD800 ≤ high ∧ high < 0xDC00)
      (hlow : 0xDC00 ≤ low ∧ low < 0xE000)
      (hc : c.toNat = 0x10000 + (high - 0xD800) * 0x400 + (low - 0xDC00))
      (hv : SpellsUnit high v) (hw : SpellsUnit low w) :
      SpellsChar c ('\\' :: 'u' :: (v ++ '\\' :: 'u' :: w))

def SpellsText (t w : Text) : Prop :=
  ∃ parts, List.Forall₂ SpellsChar t parts ∧ w = '"' :: (parts.flatten ++ ['"'])

/-! ## Values -/

def IsSpace (w : Text) : Prop := ∀ c ∈ w, c = ' ' ∨ c = '\n' ∨ c = '\t' ∨ c = '\r'

/-- What stands in front of an element or a member: white space, and a comma unless it is the
first. -/
def Separates (first : Bool) (w : Text) : Prop :=
  if first then IsSpace w else ∃ a b, IsSpace a ∧ IsSpace b ∧ w = a ++ ',' :: b

/-- What the grammar gives a text: a value, or what is left to write between brackets, where `first`
says whether nothing stands in front. -/
inductive Phrase where
  | value (v : Value)
  | elements (first : Bool) (vs : List Value)
  | members (first : Bool) (ms : List (Text × Value))

inductive Spells : Phrase → Text → Prop
  | null : Spells (.value .null) "null".toList
  | boolean (b : Bool) : Spells (.value (.boolean b)) (if b then "true" else "false").toList
  | number {w : Text} (h : w ∈ numerals) : Spells (.value (.number w)) w
  | text {t w : Text} (h : SpellsText t w) : Spells (.value (.text t)) w
  | list {vs : List Value} {w : Text} (h : Spells (.elements true vs) w) :
      Spells (.value (.list vs)) ('[' :: (w ++ [']']))
  | object {ms : List (Text × Value)} {w : Text} (h : Spells (.members true ms) w) :
      Spells (.value (.object ms)) ('{' :: (w ++ ['}']))
  | noElement {first : Bool} {w : Text} (h : IsSpace w) : Spells (.elements first []) w
  | element {first : Bool} {v : Value} {vs : List Value} {s w u : Text} (hs : Separates first s)
      (hv : Spells (.value v) w) (hmore : Spells (.elements false vs) u) :
      Spells (.elements first (v :: vs)) (s ++ (w ++ u))
  | noMember {first : Bool} {w : Text} (h : IsSpace w) : Spells (.members first []) w
  | member {first : Bool} {name : Text} {v : Value} {ms : List (Text × Value)}
      {s k a b w u : Text} (hs : Separates first s) (hname : SpellsText name k) (ha : IsSpace a)
      (hb : IsSpace b) (hv : Spells (.value v) w) (hmore : Spells (.members false ms) u) :
      Spells (.members first ((name, v) :: ms)) (s ++ (k ++ (a ++ ':' :: (b ++ (w ++ u)))))

/-- A text that holds a value and nothing more than white space around it. -/
def Document (v : Value) (t : Text) : Prop :=
  ∃ a w b, IsSpace a ∧ Spells (.value v) w ∧ IsSpace b ∧ t = a ++ (w ++ b)

end Json
end SketchPreview
