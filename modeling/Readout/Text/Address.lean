import Readout.Text.CInteger
import Readout.Text.Radix
/-!
# Internet addresses

An address of version 4 is four decimal octets without leading zeros; one of version 6 is eight
hexadecimal groups, of which one run of zero groups may be left out as `::` and the last two may be
written as an address of version 4.

* `Address.parse?` reads an address, `Address.text` writes the shortest form of it.
-/

namespace Readout.Text

inductive Address
  | v4 (octets : List Nat)
  | v6 (groups : List Nat)
  deriving DecidableEq, Repr

namespace Address

/-- Read a number of one to `most` digits below `limit` from the start of a text. -/
def readNumber (base most limit : Nat) (leadingZeros : Bool) (cs : List Char) :
    Option (Nat × List Char) :=
  let digits := cs.takeWhile fun c => (pushDigit base 0 c).isSome
  let fits := digits.length ≤ most && (leadingZeros || digits.length ≤ 1 || digits.head? != some '0')
  match magnitude? base digits with
  | some n => if fits && n < limit then some (n, cs.drop digits.length) else none
  | none => none

/-- Read a given character. -/
def readChar (c : Char) : List Char → Option (List Char)
  | d :: rest => if d = c then some rest else none
  | [] => none

/-- Read so many octets, each but the first after a point. -/
def readOctets (first : Bool) : (count : Nat) → List Char → Option (List Nat × List Char)
  | 0, cs => some ([], cs)
  | count + 1, cs => do
    let cs ← if first then some cs else readChar '.' cs
    let (octet, cs) ← readNumber 10 3 256 false cs
    let (octets, cs) ← readOctets false count cs
    return (octet :: octets, cs)

/-- Read an address of version 4 as two groups. -/
def readOctetGroups (cs : List Char) : Option (List Nat × List Char) :=
  match readOctets true 4 cs with
  | some ([a, b, c, d], rest) => some ([a * 256 + b, c * 256 + d], rest)
  | _ => none

/-- Read groups as long as there are some, at most `room`, each but the first after a colon.  The
answer says whether they end in octets. -/
def readGroups (first : Bool) : (room : Nat) → List Char → List Nat × Bool × List Char
  | 0, cs => ([], false, cs)
  | room + 1, cs =>
    let next := if first then some cs else readChar ':' cs
    match if room = 0 then none else next.bind readOctetGroups with
    | some (groups, rest) => (groups, true, rest)
    | none =>
      match next.bind (readNumber 16 4 65536 true) with
      | some (group, rest) =>
        let (groups, octets, rest) := readGroups false room rest
        (group :: groups, octets, rest)
      | none => ([], false, cs)

/-- Read eight groups, or fewer around a `::`, which stands for at least one. -/
def readV6 (cs : List Char) : Option (List Nat × List Char) :=
  let (front, octets, rest) := readGroups true 8 cs
  if front.length = 8 then some (front, rest)
  else if octets then none
  else do
    let rest ← readChar ':' rest
    let rest ← readChar ':' rest
    let (back, _, rest) := readGroups true (7 - front.length) rest
    return (front ++ List.replicate (8 - front.length - back.length) 0 ++ back, rest)

/-- The address that a text denotes. -/
def parse? (cs : List Char) : Option Address :=
  match readOctets true 4 cs with
  | some (octets, []) => some (v4 octets)
  | _ =>
    match readV6 cs with
    | some (groups, []) => some (v6 groups)
    | _ => none

/-! ## Writing -/

/-- Put a separator between texts. -/
def separated (separator : String) (texts : List String) : String := separator.intercalate texts

def octetsText (octets : List Nat) : String := separated "." (octets.map toString)

def groupsText (groups : List Nat) : String :=
  separated ":" (groups.map fun g => String.ofList (hexDigits 1 g))

/-- The length of the run of zeros that a list starts with. -/
def zeros (groups : List Nat) : Nat := (groups.takeWhile (· = 0)).length

/-- The place and the length of the first of the longest runs of zeros. -/
def longestZeros (place : Nat) : List Nat → Nat × Nat
  | [] => (place, 0)
  | g :: gs =>
    let here := zeros (g :: gs)
    let (there, length) := longestZeros (place + 1) gs
    if length ≤ here then (place, here) else (there, length)

/-- The text of eight groups: the first of the longest runs of at least two zeros is left out. -/
def compressed (groups : List Nat) : String :=
  let (place, length) := longestZeros 0 groups
  if 1 < length then
    groupsText (groups.take place) ++ "::" ++ groupsText (groups.drop (place + length))
  else groupsText groups

/-- The text of an address; one of version 4 inside version 6 keeps its octets. -/
def text : Address → String
  | v4 octets => octetsText octets
  | v6 [0, 0, 0, 0, 0, 0xFFFF, high, low] =>
    "::ffff:" ++ octetsText [high / 256, high % 256, low / 256, low % 256]
  | v6 groups => compressed groups

/-! ## Kinds -/

def isV6 : Address → Bool
  | v4 _ => false
  | v6 _ => true

/-- Whether an address stands for any address of a host, or for one of version 4. -/
def isGeneral : Address → Bool
  | v4 _ => true
  | v6 groups => groups.all (· = 0) || groups.take 6 == [0, 0, 0, 0, 0, 0xFFFF]

/-- Whether an address of version 6 means something only on one link (`fe80::/10`). -/
def isLinkLocal : Address → Bool
  | v6 (first :: _) => first / 64 == 0xFE80 / 64
  | _ => false

end Address

end Readout.Text
