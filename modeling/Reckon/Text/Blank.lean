/-!
# Blank characters

The characters that separate words are those with the Unicode property White_Space: twenty-five
code points in ten ranges, of which core's `Char.isWhitespace` knows four. Blank characters are
dropped between tokens, at both ends of a line that is typed in, and at the end of a line that is
shown under an error.
-/
namespace Reckon.Text

/-- The ranges of code points with the property White_Space, ends included. -/
def blankRanges : List (Nat × Nat) :=
  [(0x9, 0xd), (0x20, 0x20), (0x85, 0x85), (0xa0, 0xa0), (0x1680, 0x1680), (0x2000, 0x200a),
    (0x2028, 0x2029), (0x202f, 0x202f), (0x205f, 0x205f), (0x3000, 0x3000)]

/-- There are twenty-five such code points. -/
example : (blankRanges.map fun r => r.2 + 1 - r.1).sum = 25 := by decide

/-- Whether the character separates words. -/
def isBlank (c : Char) : Bool :=
  blankRanges.any fun r => decide (r.1 ≤ c.toNat) && decide (c.toNat ≤ r.2)

def dropBlanks (text : List Char) : List Char := text.dropWhile isBlank

def dropBlanksEnd (text : List Char) : List Char := (dropBlanks text.reverse).reverse

def trim (text : String) : String := String.ofList (dropBlanksEnd (dropBlanks text.toList))

theorem exists_blanks_append_dropBlanks (text : List Char) :
    ∃ blanks, (∀ c ∈ blanks, isBlank c) ∧ text = blanks ++ dropBlanks text :=
  ⟨text.takeWhile isBlank, fun _ h => List.all_eq_true.1 List.all_takeWhile _ h,
    List.takeWhile_append_dropWhile.symm⟩

theorem exists_dropBlanksEnd_append_blanks (text : List Char) :
    ∃ blanks, (∀ c ∈ blanks, isBlank c) ∧ text = dropBlanksEnd text ++ blanks := by
  obtain ⟨blanks, hb, ht⟩ := exists_blanks_append_dropBlanks text.reverse
  refine ⟨blanks.reverse, by simpa using hb, ?_⟩
  have := congrArg List.reverse ht
  simpa [dropBlanksEnd] using this

end Reckon.Text
