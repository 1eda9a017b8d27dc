/-!
# Blank characters

The characters that carry the Unicode property `White_Space`, and trimming by
them. Every reader of the library that forgives blanks forgives exactly these:
counts and seeds on the command line, cells of delimited rows, names of
formats, lines of a run log.

## Main definitions

* `isBlank`: Whether a character has the property.
* `trim`: A text without its blank ends.

## Theorems

* `trim_nil`: Nothing trims to nothing.
* `isBlank_of_isWhitespace`: The blanks of the core library are among them.
-/

namespace Covering

namespace Text

/-- Whether `c` has the Unicode property `White_Space`: twenty-five characters
    in ten ranges. -/
def isBlank (c : Char) : Bool :=
  let n := c.toNat
  (9 ≤ n && n ≤ 13) || n == 0x20 || n == 0x85 || n == 0xA0 || n == 0x1680 ||
    (0x2000 ≤ n && n ≤ 0x200A) || n == 0x2028 || n == 0x2029 || n == 0x202F ||
    n == 0x205F || n == 0x3000

/-- The text without the blanks at either end. -/
def trim (cs : List Char) : List Char :=
  ((cs.dropWhile isBlank).reverse.dropWhile isBlank).reverse

@[simp] theorem trim_nil : trim [] = [] := rfl

theorem isBlank_of_isWhitespace (c : Char) (h : c.isWhitespace = true) : isBlank c = true := by
  simp only [Char.isWhitespace, Bool.or_eq_true, decide_eq_true_eq] at h
  rcases h with ((h | h) | h) | h <;> subst h <;> rfl

end Text

end Covering
