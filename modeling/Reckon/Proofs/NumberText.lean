import Mathlib
import Reckon.Text.Number
import Reckon.Proofs.Lexeme

/-!
# Reading back what was written

A finite number without a sign is written as digits, perhaps with a point and more digits, and the
text reads back to the same number, bit for bit.

The text of a decimal in positional notation stands for the same quotient as the decimal, and the
shortest decimal of a magnitude rounds to that magnitude. That no shorter text would read back is
not needed here.
-/
namespace Reckon.Text.Number
open Binary64

theorem ofRank_rank {x : Float} (h : isNegative x = false) : ofRank false (rank x) = x := by
  have hbits : x.toBits.toNat < signBit := by simpa [isNegative] using h
  rw [ofRank, rank, Nat.mod_eq_of_lt hbits, if_neg Bool.false_ne_true, Nat.add_zero,
    UInt64.ofNat_toNat, Float.ofBits_toBits]

theorem digits_toDigits (n : Nat) : ∀ c ∈ Nat.toDigits 10 n, c.isDigit := by
  intro c hc
  exact Nat.isDigit_of_mem_toDigits (by decide) (by decide) hc

theorem digits_zeros (n : Nat) : ∀ c ∈ List.replicate n '0', c.isDigit := by
  intro c hc
  rw [List.eq_of_mem_replicate hc]
  rfl

theorem nearestRank_congr {d d' : Decimal} (hnumerator : d.numerator = d'.numerator)
    (hdenominator : d.denominator = d'.denominator) : d.nearestRank = d'.nearestRank := by
  rw [Decimal.nearestRank_eq, Decimal.nearestRank_eq, hnumerator, hdenominator]

theorem digits_split {text : List Char} {places : Nat} (htext : ∀ c ∈ text, c.isDigit)
    (hlength : places < text.length) :
    text.take (text.length - places) ≠ [] ∧ (∀ c ∈ text.take (text.length - places), c.isDigit) ∧
      (∀ c ∈ text.drop (text.length - places), c.isDigit) ∧
      (text.drop (text.length - places)).length = places := by
  refine ⟨?_, ?_, ?_, ?_⟩
  · intro hnil
    have hwhole := congrArg List.length hnil
    rw [List.length_take, List.length_nil] at hwhole
    omega
  · intro c hc
    exact htext c (List.mem_of_mem_take hc)
  · intro c hc
    exact htext c (List.mem_of_mem_drop hc)
  · rw [List.length_drop]
    omega

theorem decimal?_digits {whole places : List Char} (hne : whole ≠ [])
    (hwhole : ∀ c ∈ whole, c.isDigit) (hplaces : ∀ c ∈ places, c.isDigit) :
    decimal? (if places = [] then whole else whole ++ '.' :: places) =
      some ⟨Nat.ofDigitChars 10 (whole ++ places) 0, -places.length⟩ := by
  have hread : ∀ rest, (∀ c ∈ rest.head?, ¬ c.isDigit) → fraction rest = (places, []) →
      decimal? (whole ++ rest) =
        some ⟨Nat.ofDigitChars 10 (whole ++ places) 0, -places.length⟩ := by
    intro rest hrest hfraction
    rw [decimal?, takeWhile_digits rest hwhole hrest, dropWhile_digits rest hwhole hrest, hfraction]
    simp [hne, exponent?]
  split
  · rename_i hnil
    have hwhole := hread [] (by simp) (by rw [fraction, hnil]; nofun)
    rwa [List.append_nil] at hwhole
  · refine hread ('.' :: places) ?_ ?_
    · intro c hc
      cases hc
      decide
    · have htake := takeWhile_digits [] hplaces (by simp)
      have hdrop := dropWhile_digits [] hplaces (by simp)
      rw [List.append_nil] at htake hdrop
      rw [fraction, htake, hdrop]

theorem read?_of_isDigit {text : String} {c : Char} {rest : List Char}
    (htext : text.toList = c :: rest) (hc : c.isDigit) :
    read? text = (decimal? text.toList).map fun d => ofRank false d.nearestRank := by
  have hrank : rank? text.toList = (decimal? text.toList).map Decimal.nearestRank := by
    have hlower : c.toLower = c := by
      rw [← Char.toNat_inj, toNat_toLower, if_neg]
      rw [isUpper_iff]
      rw [isDigit_iff] at hc
      omega
    have hi : c ≠ 'i' := by
      rintro rfl
      cases hc
    have hn : c ≠ 'n' := by
      rintro rfl
      cases hc
    simp [rank?, htext, hlower, hi, hn]
  unfold read?
  split
  · rename_i hsign
    rw [htext] at hsign
    cases hsign
    cases hc
  · rename_i hsign
    rw [htext] at hsign
    cases hsign
    cases hc
  · rw [hrank, Option.map_map]
    rfl

end Reckon.Text.Number

namespace Reckon
open Text Binary64

/-- Digits, perhaps with a point and more digits. -/
structure Numeral where
  whole : List Char
  places : List Char
  whole_ne_nil : whole ≠ []
  whole_digits : ∀ c ∈ whole, c.isDigit
  places_digits : ∀ c ∈ places, c.isDigit

namespace Numeral

def chars (n : Numeral) : List Char :=
  if n.places = [] then n.whole else n.whole ++ '.' :: n.places

def text (n : Numeral) : String := String.ofList n.chars

def decimal (n : Numeral) : Decimal :=
  ⟨Nat.ofDigitChars 10 (n.whole ++ n.places) 0, -n.places.length⟩

variable {run : List Char}

theorem length_text (n : Numeral) : n.text.length = n.chars.length := by
  rw [text, ← String.length_toList, String.toList_ofList]

theorem isNumeralStart (n : Numeral) : IsNumeralStart n.chars := by
  unfold chars
  split
  · exact ⟨n.whole, [], (List.append_nil _).symm, n.whole_ne_nil, n.whole_digits, .inl rfl⟩
  · exact ⟨n.whole, _, rfl, n.whole_ne_nil, n.whole_digits, .inr ⟨n.places, rfl, n.places_digits⟩⟩

theorem getLast?_chars (n : Numeral) : n.chars.getLast? ≠ some '.' := by
  unfold chars
  split
  · exact getLast?_ne_point n.whole_digits
  · rename_i hne
    exact getLast?_places_ne_point hne n.places_digits

theorem exists_chars_eq (h : IsNumeralStart run) (hlast : run.getLast? ≠ some '.') :
    ∃ n : Numeral, n.chars = run := by
  obtain ⟨whole, places, rfl, hne, hwhole, rfl | ⟨digits, rfl, hdigits⟩⟩ := h
  · exact ⟨⟨whole, [], hne, hwhole, nofun⟩, by simp [chars]⟩
  · have hpoint : digits ≠ [] := by
      rintro rfl
      exact hlast (by simp)
    exact ⟨⟨whole, digits, hne, hwhole, hdigits⟩, by simp [chars, hpoint]⟩

/-- A numeral is read as the number that it stands for, rounded. -/
theorem read?_text (n : Numeral) :
    Number.read? n.text = some (ofRank false n.decimal.nearestRank) := by
  obtain ⟨c, rest, hstart⟩ := List.exists_cons_of_ne_nil n.whole_ne_nil
  have hc : c.isDigit := n.whole_digits c (by simp [hstart])
  have htext : ∃ rest, n.text.toList = c :: rest := by
    rw [text, String.toList_ofList, chars, hstart]
    split
    · exact ⟨rest, rfl⟩
    · exact ⟨rest ++ '.' :: n.places, rfl⟩
  obtain ⟨rest', htext⟩ := htext
  rw [Number.read?_of_isDigit htext hc, text, String.toList_ofList, chars,
    Number.decimal?_digits n.whole_ne_nil n.whole_digits n.places_digits]
  rfl

end Numeral

end Reckon

namespace Reckon.Text.Number
open Binary64

/-- A decimal in positional notation is a numeral, which stands for the same quotient. -/
theorem exists_positional_eq (d : Decimal) :
    ∃ n : Numeral, n.chars = positional d ∧ n.decimal.nearestRank = d.nearestRank := by
  obtain ⟨n, zeros | k⟩ := d
  · refine ⟨⟨Nat.toDigits 10 n ++ List.replicate zeros '0', [], ?_, ?_, nofun⟩, ?_, ?_⟩
    · exact List.append_ne_nil_of_left_ne_nil Nat.toDigits_ne_nil _
    · exact List.forall_mem_append.mpr ⟨digits_toDigits n, digits_zeros zeros⟩
    · rfl
    · apply nearestRank_congr
      · simp [Numeral.decimal, Decimal.numerator, Decimal.tenTo, Nat.ofDigitChars_append,
          Nat.ofDigitChars_replicate_zero, Nat.mul_comm]
      · simp [Numeral.decimal, Decimal.denominator]
  · have hdigits := digits_toDigits n
    have hread : Nat.ofDigitChars 10 (Nat.toDigits 10 n) 0 = n := Nat.ofDigitChars_ten_toDigits
    obtain ⟨padded, hpadded⟩ : ∃ padded, padded =
      List.replicate (k + 2 - (Nat.toDigits 10 n).length) '0' ++ Nat.toDigits 10 n := ⟨_, rfl⟩
    have hlength : k + 2 ≤ padded.length := by
      rw [hpadded, List.length_append, List.length_replicate]
      omega
    have hall : ∀ c ∈ padded, c.isDigit := by
      rw [hpadded]
      exact List.forall_mem_append.mpr ⟨digits_zeros _, hdigits⟩
    have hvalue : Nat.ofDigitChars 10 padded 0 = n := by
      rw [hpadded, Nat.ofDigitChars_append, Nat.ofDigitChars_replicate_zero, Nat.mul_zero, hread]
    obtain ⟨hwhole, hwholeDigits, hplacesDigits, hplaces⟩ :=
      digits_split hall (show k + 1 < padded.length from hlength)
    have hne : padded.drop (padded.length - (k + 1)) ≠ [] := by
      intro hnil
      rw [hnil] at hplaces
      cases hplaces
    have hpositional : positional ⟨n, .negSucc k⟩ =
        padded.take (padded.length - (k + 1)) ++ '.' :: padded.drop (padded.length - (k + 1)) := by
      rw [hpadded]
      rfl
    refine ⟨⟨_, _, hwhole, hwholeDigits, hplacesDigits⟩, ?_, ?_⟩
    · rw [Numeral.chars, if_neg hne, hpositional]
    · rw [Numeral.decimal, List.take_append_drop, hvalue, hplaces]
      rfl

/-- The numbers whose text needs neither a sign nor a word. -/
def Plain (x : Float) : Prop := rank x < infinity ∧ isNegative x = false

variable {x : Float}

theorem Plain.toList_render (h : Plain x) :
    (render x).toList = positional (Decimal.shortest (rank x)) := by
  obtain ⟨hfinite, hsign⟩ := h
  have hinfinity : ¬ infinity < rank x := by omega
  have hne : rank x ≠ infinity := by omega
  simp [render, magnitude, hinfinity, hsign, hne]

/-- The text of a plain number is a numeral, which stands for a quotient that rounds to it. -/
theorem Plain.exists_numeral (h : Plain x) :
    ∃ n : Numeral, n.text = render x ∧ n.decimal.nearestRank = rank x := by
  obtain ⟨n, hchars, hrank⟩ := exists_positional_eq (Decimal.shortest (rank x))
  refine ⟨n, ?_, hrank.trans (Decimal.nearestRank_shortest (Nat.le_of_lt h.1))⟩
  rw [Numeral.text, hchars, ← h.toList_render, String.ofList_toList]

theorem Plain.isNumeralStart_render (h : Plain x) :
    IsNumeralStart (render x).toList ∧ (render x).toList.getLast? ≠ some '.' := by
  obtain ⟨n, htext, -⟩ := h.exists_numeral
  rw [← htext, Numeral.text, String.toList_ofList]
  exact ⟨n.isNumeralStart, n.getLast?_chars⟩

theorem Plain.read?_render (h : Plain x) : read? (render x) = some x := by
  obtain ⟨n, htext, hrank⟩ := h.exists_numeral
  rw [← htext, n.read?_text, hrank, ofRank_rank h.2]

end Reckon.Text.Number
