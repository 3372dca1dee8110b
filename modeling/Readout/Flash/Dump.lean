import Readout.Flash.Program
/-!
# Dumping the flash

Words are read page by page and handed over as they come.  A page that is answered with fewer words
than asked hands over what there is.

* `dump` reads words; what it hands over are the `stored` events of its history.
-/

namespace Readout.Flash

variable {σ : Type} [Link σ]

/-- Hand over the first whole words of an answer, at most as many as asked; the answer is their
number. -/
def handOver (asked : Nat) (answer : Bytes) : Host σ Nat := do
  let words := min (answer.length / 4) asked
  Host.note (.stored (answer.take (words * 4)))
  return words

/-- Read full pages from number `index` on, setting the address of the next page after each. -/
def dumpPages (limit : Option Duration) (start : UInt32) (index : Nat) :
    (pages : Nat) → Host σ Nat
  | 0 => return 0
  | pages + 1 => do
    let read ← handOver pageWords (← readPage limit pageWords)
    seek limit (← Host.ofExcept (pageAddress start (index + 1)))
    let rest ← dumpPages limit start (index + 1) pages
    return read + rest

/-- Read words from `start` on; the answer is the number of words handed over. -/
def dump (limit : Option Duration) (start : UInt32) (words : Nat) : Host σ Nat := do
  Host.ofExcept (checkSpan start (groups pageWords words))
  clear limit
  seek limit start
  let read ← dumpPages limit start 0 (words / pageWords)
  let remainder := words % pageWords
  if remainder = 0 then return read
  else
    let last ← handOver remainder (← readPage limit remainder)
    return read + last

end Readout.Flash
