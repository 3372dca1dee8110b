import Readout.Decimal.Layout
import Readout.Text.Radix
import Readout.Word
/-!
# Header cards

The header of a FITS image is a sequence of cards of 80 characters: a keyword, a value and a
comment.  Keywords that are longer than eight characters, or hold other characters than upper-case
letters, digits, hyphen and underscore, are written in the hierarchical form.

* `Card.bytes` is the card, cut or filled to 80 characters of printable ASCII (`length_bytes`).
-/

namespace Readout.Image

/-- A value on a card. -/
inductive Value
  | logical (b : Bool)
  | int (n : Int64)
  | real (x : Decimal.Binary64)
  | text (s : String)

/-- A card. -/
structure Card where
  keyword : String
  value : Value
  comment : String := ""

namespace Card

/-- A card that holds only a comment. -/
def remark (text : String) : Card := { keyword := "COMMENT", value := .text "", comment := text }

/-- The number of characters of a card. -/
def size : Nat := 80

/-- Numbers with an exponent have an upper-case E, below a ten-thousandth and from ten to the
sixteenth on. -/
def realLayout : Decimal.Layout where
  smallest := -4
  largest := 16
  exponentMark := 'E'
  nan := "NaN"
  infinity := "inf"

/-- Text between single quotes, quotes doubled, filled to eight characters. -/
def quoted (s : String) : List Char :=
  let inner := s.toList.flatMap fun c => if c = '\'' then ['\'', '\''] else [c]
  '\'' :: Text.padRight 8 ' ' inner ++ ['\'']

/-- A value on its own. -/
def valueText : Value → List Char
  | .logical b => [if b then 'T' else 'F']
  | .int n => (toString n.toInt).toList
  | .real x => (realLayout.text x).toList
  | .text s => quoted s

/-- A value in the value field of 20 characters: text on the left, anything else on the right. -/
def valueField : Value → List Char
  | .text s => Text.padRight 20 ' ' (quoted s)
  | v => Text.padLeft 20 ' ' (valueText v)

/-- A value in a hierarchical card, which has no fixed field. -/
def freeValue : Value → List Char
  | .text s => Text.padRight 20 ' ' (quoted s)
  | v => valueText v

/-- Characters of a keyword that fits the fixed form. -/
def isKeywordChar (c : Char) : Bool :=
  ('A' ≤ c && c ≤ 'Z') || ('0' ≤ c && c ≤ '9') || c == '-' || c == '_'

/-- Keywords of the fixed form. -/
def isPlainKeyword (keyword : List Char) : Bool :=
  keyword.length ≤ 8 && keyword.all isKeywordChar

/-- The keyword as it is written. -/
def keywordText (c : Card) : List Char := c.keyword.toList.map Char.toUpper

/-- Keywords of cards without a value. -/
def isRemark (keyword : List Char) : Bool :=
  keyword == "COMMENT".toList || keyword == "HISTORY".toList

/-- The card before it is cut and filled. -/
def text (c : Card) : List Char :=
  let keyword := c.keywordText
  if isRemark keyword then Text.padRight 8 ' ' keyword ++ c.comment.toList
  else
    let head :=
      if isPlainKeyword keyword then
        Text.padRight 8 ' ' keyword ++ '=' :: ' ' :: valueField c.value
      else
        "HIERARCH ".toList ++ keyword ++ " = ".toList ++ freeValue c.value
    if c.comment.isEmpty then head else head ++ " / ".toList ++ c.comment.toList

/-- Printable ASCII. -/
def isPrinting (c : Char) : Bool := 0x20 ≤ c.toNat && c.toNat ≤ 0x7E

/-- Cut or fill to the size of a card. -/
def fit (bs : Bytes) : Bytes := bs.take size ++ List.replicate (size - bs.length) 0x20

/-- The bytes of a card: only printable ASCII is kept. -/
def bytes (c : Card) : Bytes :=
  fit ((c.text.filter isPrinting).map fun ch => UInt8.ofNat ch.toNat)

/-- The card that ends a header. -/
def endBytes : Bytes := fit [0x45, 0x4E, 0x44]

theorem length_fit (bs : Bytes) : (fit bs).length = size := by
  simp [fit]; omega

theorem length_bytes (c : Card) : c.bytes.length = size := length_fit _

end Card

end Readout.Image
