/-
Lines of a dump, read back. A line of a row is made of words with a space between any two: the range, and what stands
there. No word has a space in it and every numeral tells its number, so a line tells its row.

Results:
- `numeral_hexLine`: a numeral is read back, whatever its width;
- `line_eq_words`: a line is its words;
- `ofLine?_line`: a row is read back from its line.
-/
import ChipEight.Machine.Dump
import Mathlib.Tactic

namespace ChipEight

/-! ## Numerals -/

namespace Hex

/-- the characters of numerals -/
def alphabet : List Char := "0123456789ABCDEF".toList

theorem digit_mem {d : Nat} (h : d < 16) : digit d ∈ alphabet := by
  revert d; decide

theorem mem_digits {n : Nat} {c : Char} (h : c ∈ digits n) : c ∈ alphabet := by
  induction n using Nat.strongRecOn with
  | ind n ih =>
    rw [digits] at h
    split at h
    · next hn => exact List.mem_singleton.1 h ▸ digit_mem hn
    · rcases List.mem_append.1 h with h | h
      · exact ih (n / 16) (by omega) h
      · exact List.mem_singleton.1 h ▸ digit_mem (Nat.mod_lt _ (by decide))

theorem mem_padded {width n : Nat} {c : Char} (h : c ∈ padded width n) : c ∈ alphabet := by
  rcases List.mem_append.1 h with h | h
  · exact List.eq_of_mem_replicate h ▸ (by decide)
  · exact mem_digits h

end Hex

namespace Dump

theorem intercalate_cons (c : Char) (w : Line) (ws : List Line) :
    List.intercalate [c] (w :: ws) = w ++ ws.flatMap fun v => c :: v := by
  induction ws generalizing w with
  | nil => simp
  | cons v ws ih => rw [List.intercalate_cons_cons, ih, List.flatMap_cons, List.append_assoc]; rfl

/-- the number that a word writes, behind its `0x` -/
def numeral (word : Line) : Nat := Hex.value (word.drop 2)

namespace Row

theorem numeral_hexLine (digits n : Nat) : numeral (hexLine digits n) = n := Hex.value_padded digits n

theorem not_mem_hexLine {digits n : Nat} {c : Char} (hx : c ≠ 'x') (hc : c ∉ Hex.alphabet) : c ∉ hexLine digits n := by
  intro h
  rcases List.mem_cons.1 h with rfl | h
  · exact hc (by decide)
  rcases List.mem_cons.1 h with rfl | h
  · exact hx rfl
  · exact hc (Hex.mem_padded h)

theorem newline_not_mem_hexLine (digits n : Nat) : '\n' ∉ hexLine digits n := not_mem_hexLine (by decide) (by decide)

theorem newline_not_mem_line (digits : Nat) (r : Row) : '\n' ∉ r.line digits := by
  cases hc : r.content with
  | entries values => simp [line, hc, spaced, newline_not_mem_hexLine]
  | zeros => simp [line, hc, newline_not_mem_hexLine]

/-! ## Words -/

/-- what stands behind the range of a row of zeros -/
def filler : List Line := ["0x00".toList, "...".toList, "0x00".toList]

def contentWords (digits : Nat) : Content → List Line
  | .entries values => values.map (hexLine digits)
  | .zeros => filler

/-- the words of a line -/
def words (digits : Nat) (r : Row) : List Line :=
  [hexLine 4 r.first, "-".toList, hexLine 4 r.last, ":".toList] ++ contentWords digits r.content

theorem line_eq_words (digits : Nat) (r : Row) : r.line digits = List.intercalate [' '] (r.words digits) := by
  rw [words, List.cons_append, intercalate_cons, line]
  cases r.content with
  | entries values => simp [contentWords, spaced, List.flatMap_map]
  | zeros => simp [contentWords, filler]

theorem space_not_mem_words {digits : Nat} {r : Row} {w : Line} (hw : w ∈ r.words digits) : ' ' ∉ w := by
  have hnumeral (k n : Nat) : ' ' ∉ hexLine k n := not_mem_hexLine (by decide) (by decide)
  have hrange : w ∈ [hexLine 4 r.first, "-".toList, hexLine 4 r.last, ":".toList] → ' ' ∉ w := by
    simp only [List.mem_cons, List.not_mem_nil, or_false]
    rintro (rfl | rfl | rfl | rfl)
    · exact hnumeral 4 r.first
    · decide
    · exact hnumeral 4 r.last
    · decide
  rcases List.mem_append.1 hw with hw | hw
  · exact hrange hw
  cases hc : r.content with
  | entries values =>
    rw [hc, contentWords, List.mem_map] at hw
    obtain ⟨v, -, rfl⟩ := hw
    exact hnumeral digits v
  | zeros =>
    rw [hc] at hw
    have hfiller : ∀ w ∈ filler, ' ' ∉ w := by decide
    exact hfiller w hw

theorem splitOn_line (digits : Nat) (r : Row) : (r.line digits).splitOn ' ' = r.words digits := by
  rw [line_eq_words]
  exact List.splitOn_intercalate ' ' (fun w hw => space_not_mem_words hw) (List.cons_ne_nil _ _)

/-! ## Rows from lines -/

/-- what the words behind a range stand for -/
def ofContentWords (ws : List Line) : Content := if ws = filler then .zeros else .entries (ws.map numeral)

/-- the row of a line, if there is a range in it -/
def ofLine? (l : Line) : Option Row :=
  match l.splitOn ' ' with
  | first :: _ :: last :: _ :: rest => some ⟨numeral first, numeral last, ofContentWords rest⟩
  | _ => none

/-- the dots of the filler are no numeral -/
theorem map_hexLine_ne_filler (digits : Nat) (values : List Nat) : values.map (hexLine digits) ≠ filler := by
  intro h
  have hdots : "...".toList ∈ values.map (hexLine digits) := h ▸ by decide
  obtain ⟨v, -, hv⟩ := List.mem_map.1 hdots
  cases hv

theorem ofContentWords_contentWords (digits : Nat) (c : Content) : ofContentWords (contentWords digits c) = c := by
  cases c with
  | entries values =>
    have hvalues : (values.map (hexLine digits)).map numeral = values := by
      simp [List.map_map, Function.comp_def, numeral_hexLine]
    rw [contentWords, ofContentWords, if_neg (map_hexLine_ne_filler digits values), hvalues]
  | zeros => rfl

/-- a row is read back from its line -/
theorem ofLine?_line (digits : Nat) (r : Row) : ofLine? (r.line digits) = some r := by
  rw [ofLine?, splitOn_line]
  simp only [words, List.cons_append, List.nil_append, numeral_hexLine, ofContentWords_contentWords]

theorem line_injective {digits : Nat} {r s : Row} (h : r.line digits = s.line digits) : r = s :=
  Option.some.inj (by rw [← ofLine?_line digits r, h, ofLine?_line])

end Row

end Dump

end ChipEight
