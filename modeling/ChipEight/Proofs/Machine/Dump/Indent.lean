/-
Texts put together from texts. Lines joined and joined again are the lines of all of them. Indenting splits a text into
its lines, puts tabs in front of each and takes the white space off the end; of lines that do not end in white space it
changes nothing else.

Results:
- `joined_flatten`: joined texts among lines are as good as their lines;
- `indent_joined`: an indented text has the same lines behind tabs.
-/
import ChipEight.Proofs.Machine.Dump.Lines

namespace ChipEight.Dump

/-! ## Joined lines -/

theorem joined_singleton (l : Line) : joined [l] = l := by
  simp [joined]

theorem joined_cons (l : Line) {ls : List Line} (h : ls ≠ []) : joined (l :: ls) = l ++ '\n' :: joined ls := by
  cases ls with
  | nil => contradiction
  | cons k ls => simp only [joined, List.intercalate_cons_cons, List.singleton_append, List.append_assoc]

theorem joined_append {ls ks : List Line} (hl : ls ≠ []) (hk : ks ≠ []) :
    joined (ls ++ ks) = joined ls ++ '\n' :: joined ks := by
  induction ls with
  | nil => contradiction
  | cons l ls ih =>
    cases ls with
    | nil => rw [List.singleton_append, joined_cons l hk, joined_singleton]
    | cons m ls =>
      rw [List.cons_append, joined_cons l (by simp), ih (by simp), joined_cons l (by simp), List.append_assoc,
        List.cons_append]

/-- joined texts among lines are as good as their lines -/
theorem joined_flatten {blocks : List (List Line)} (h : ∀ ls ∈ blocks, ls ≠ []) :
    joined (blocks.map joined) = joined blocks.flatten := by
  induction blocks with
  | nil => rfl
  | cons ls rest ih =>
    have hrest := ih fun ks hks => h ks (List.mem_cons_of_mem _ hks)
    cases rest with
    | nil => simp [joined_singleton]
    | cons ks rest =>
      have hls : ls ≠ [] := h ls List.mem_cons_self
      have hks : (ks :: rest).flatten ≠ [] := by simp [h ks (by simp)]
      rw [List.map_cons, joined_cons _ (by simp), hrest, ← joined_append hls hks]
      rfl

theorem splitOn_joined {ls : List Line} (h : ls ≠ []) (hline : ∀ l ∈ ls, '\n' ∉ l) :
    (joined ls).splitOn '\n' = ls :=
  List.splitOn_intercalate '\n' hline h

theorem flatMap_newline {ls : List Line} (h : ls ≠ []) : (ls.flatMap fun l => l ++ ['\n']) = joined ls ++ ['\n'] := by
  induction ls with
  | nil => contradiction
  | cons l ls ih =>
    cases ls with
    | nil => simp [joined_singleton]
    | cons k ls =>
      rw [List.flatMap_cons, ih (by simp), joined_cons l (by simp), List.append_assoc, List.append_assoc]
      rfl

/-! ## The end of a text -/

/-- a text that ends in something else than white space -/
def Ended (text : Line) : Prop := ∃ front c, text = front ++ [c] ∧ isWhite c = false

theorem Ended.behind {text : Line} (h : Ended text) (front : Line) : Ended (front ++ text) := by
  obtain ⟨rest, c, rfl, hc⟩ := h
  exact ⟨front ++ rest, c, (List.append_assoc ..).symm, hc⟩

theorem ended_of_forall {text : Line} (hne : text ≠ []) (h : ∀ c ∈ text, isWhite c = false) : Ended text :=
  ⟨text.dropLast, text.getLast hne, (List.dropLast_concat_getLast hne).symm, h _ (List.getLast_mem hne)⟩

theorem trimEnd_of_ended {text : Line} (h : Ended text) : trimEnd text = text := by
  obtain ⟨front, c, rfl, hc⟩ := h
  simp [trimEnd, hc]

theorem trimEnd_newline (text : Line) : trimEnd (text ++ ['\n']) = trimEnd text := by
  have hwhite : isWhite '\n' = true := by decide
  simp [trimEnd, hwhite]

theorem ended_joined {ls : List Line} (hne : ls ≠ []) (h : ∀ l ∈ ls, Ended l) : Ended (joined ls) := by
  induction ls with
  | nil => contradiction
  | cons l ls ih =>
    cases ls with
    | nil => exact (joined_singleton l).symm ▸ h l List.mem_cons_self
    | cons k ls =>
      have hrest := ih (by simp) fun m hm => h m (List.mem_cons_of_mem _ hm)
      rw [joined_cons l (by simp), List.append_cons]
      exact hrest.behind _

/-- lines that go through indenting one by one -/
structure Solid (ls : List Line) : Prop where
  ne_nil : ls ≠ []
  newline : ∀ l ∈ ls, '\n' ∉ l
  ended : ∀ l ∈ ls, Ended l

/-- **Indenting.** Lines that do not end in white space have tabs in front of them afterwards, and that is all. -/
theorem indent_joined (depth : Nat) {ls : List Line} (h : Solid ls) :
    indent depth (joined ls) = joined (ls.map fun l => List.replicate depth '\t' ++ l) := by
  have hne : (ls.map fun l => List.replicate depth '\t' ++ l) ≠ [] := List.map_eq_nil_iff.not.2 h.ne_nil
  have htabs : (ls.flatMap fun l => List.replicate depth '\t' ++ l ++ ['\n']) =
      joined (ls.map fun l => List.replicate depth '\t' ++ l) ++ ['\n'] := by
    rw [← flatMap_newline hne, List.flatMap_map]
  rw [indent, splitOn_joined h.ne_nil h.newline, htabs, trimEnd_newline]
  refine trimEnd_of_ended (ended_joined hne ?_)
  rw [List.forall_mem_map]
  exact fun l hl => (h.ended l hl).behind _

/-! ## Rows -/

theorem ended_hexLine (digits n : Nat) : Ended (Row.hexLine digits n) := by
  refine ended_of_forall (List.cons_ne_nil _ _) fun c hc => ?_
  by_contra hwhite
  have hx : c ≠ 'x' := by rintro rfl; exact hwhite rfl
  have halphabet : Hex.alphabet.all (fun c => !isWhite c) = true := by decide
  exact Row.not_mem_hexLine hx (fun hc => hwhite (by simpa using List.all_eq_true.1 halphabet c hc)) hc

theorem ended_line (digits : Nat) (r : Row) : Ended (r.line digits) := by
  -- a row without entries would end with this
  have hcolon : Ended " :".toList := ⟨[' '], ':', rfl, rfl⟩
  cases hc : r.content with
  | entries values =>
    simp only [Row.line, hc]
    rcases List.eq_nil_or_concat values with rfl | ⟨front, v, rfl⟩
    · rw [Row.spaced, List.flatMap_nil, List.append_nil]
      exact hcolon.behind _
    · rw [Row.spaced, List.concat_eq_append, List.flatMap_append, ← List.append_assoc, List.flatMap_singleton]
      exact ((ended_hexLine digits v).behind [' ']).behind _
  | zeros =>
    simp only [Row.line, hc]
    exact Ended.behind ⟨" 0x00 ... 0x0".toList, '0', rfl, rfl⟩ _

theorem solid_rows (digits : Nat) {rows : List Row} (h : rows ≠ []) : Solid (rows.map (Row.line digits)) where
  ne_nil := List.map_eq_nil_iff.not.2 h
  newline := List.forall_mem_map.2 fun r _ => r.newline_not_mem_line digits
  ended := List.forall_mem_map.2 fun r _ => ended_line digits r

end ChipEight.Dump
