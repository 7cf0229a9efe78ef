/-
Two machines with the same text show the same state. A text falls apart into its lines, since no line has a newline in
it; the first of them write the registers and the size of the stack, which says how many lines the stack takes, and
what is behind these has the same number of lines in every text but for the memory, which comes last.

Results:
- `text_eq_joined`: a text is its lines, those of the blocks behind two tabs;
- `text_eq_iff_lines`: and they are known from it;
- `entries_plainRows`: rows of eight are read back;
- `text_eq_iff`: two texts are equal exactly if the machines agree on all they show.
-/
import ChipEight.Proofs.Machine.Dump.Rows

namespace ChipEight.Dump

/-- two machines agree on what a text shows -/
structure SameShown (m n : Machine) : Prop where
  word : m.word = n.word
  pc : m.pc = n.pc
  index : m.index = n.index
  delay : m.delay = n.delay
  sound : m.sound = n.sound
  awaiting : m.awaiting = n.awaiting
  stack : m.stack = n.stack
  registers : m.registers = n.registers
  memory : ∀ k, Memory.programStart ≤ k → ∀ h : k < 4096, m.memory[k] = n.memory[k]

/-! ## Rows of eight entries -/

theorem plainRows_nil (first : Nat) : plainRows first [] = [] := by
  rw [plainRows]
  rfl

theorem plainRows_of_ne_nil (first : Nat) {values : List Nat} (h : values ≠ []) :
    plainRows first values =
      Row.plain first (values.take rowSize) :: plainRows (first + rowSize) (values.drop rowSize) := by
  rw [plainRows, if_neg (by simpa using h)]

/-- the number of rows depends on nothing but the number of entries -/
theorem length_plainRows (first : Nat) (values : List Nat) :
    (plainRows first values).length = (values.length + 7) / 8 := by
  induction first, values using plainRows.induct with
  | case1 first values h =>
    rw [List.isEmpty_iff.1 h, plainRows_nil]
    rfl
  | case2 first values h ih =>
    have hne : values ≠ [] := by simpa using h
    have hpos := List.length_pos_iff.2 hne
    rw [plainRows_of_ne_nil first hne, List.length_cons, ih, List.length_drop, rowSize]
    omega

/-- the entries that a row lists -/
def Row.entries (r : Row) : List Nat :=
  match r.content with
  | .entries values => values
  | .zeros => []

/-- the rows list the entries -/
theorem entries_plainRows (first : Nat) (values : List Nat) :
    (plainRows first values).flatMap Row.entries = values := by
  induction first, values using plainRows.induct with
  | case1 first values h => rw [List.isEmpty_iff.1 h, plainRows_nil, List.flatMap_nil]
  | case2 first values h ih =>
    rw [plainRows_of_ne_nil first (by simpa using h), List.flatMap_cons, ih]
    exact List.take_append_drop rowSize values

theorem plainRows_inj {first : Nat} {values values' : List Nat} :
    plainRows first values = plainRows first values' ↔ values = values' := by
  refine ⟨fun h => ?_, fun h => by rw [h]⟩
  rw [← entries_plainRows first values, ← entries_plainRows first values', h]

/-! ## Lines of entries and of the memory -/

theorem map_line_inj {digits : Nat} {rows rows' : List Row} :
    rows.map (Row.line digits) = rows'.map (Row.line digits) ↔ rows = rows' :=
  List.map_inj_right fun _ _ => Row.line_injective

def entriesLines (digits : Nat) (values : List Nat) : List Line := (plainRows 0 values).map (Row.line digits)

theorem entriesLines_inj {digits : Nat} {values values' : List Nat} :
    entriesLines digits values = entriesLines digits values' ↔ values = values' :=
  map_line_inj.trans plainRows_inj

theorem length_entriesLines (digits : Nat) {values values' : List Nat} (h : values.length = values'.length) :
    (entriesLines digits values).length = (entriesLines digits values').length := by
  simp only [entriesLines, List.length_map, length_plainRows, h]

theorem solid_entriesLines (digits : Nat) {values : List Nat} (h : values ≠ []) :
    Solid (entriesLines digits values) := by
  refine solid_rows digits ?_
  rw [plainRows_of_ne_nil 0 h]
  exact List.cons_ne_nil _ _

def stackLines (stack : List UInt16) : List Line :=
  if stack.isEmpty then ["-".toList] else entriesLines 4 (stack.reverse.map (·.toNat))

theorem stackText_eq (stack : List UInt16) : stackText stack = joined (stackLines stack) := by
  rw [stackText, stackLines]
  split
  · exact (joined_singleton _).symm
  · rfl

theorem solid_stackLines (stack : List UInt16) : Solid (stackLines stack) := by
  rw [stackLines]
  split
  · have hended : Ended "-".toList := ⟨[], '-', rfl, rfl⟩
    exact ⟨List.cons_ne_nil _ _, by decide, List.forall_mem_singleton.2 hended⟩
  · next h => exact solid_entriesLines 4 (by simpa using h)

theorem length_stackLines {stack stack' : List UInt16} (h : stack.length = stack'.length) :
    (stackLines stack).length = (stackLines stack').length := by
  cases stack with
  | nil => rw [List.length_eq_zero_iff.1 h.symm]
  | cons a rest =>
    cases stack' with
    | nil => cases h
    | cons b rest' => exact length_entriesLines 4 (by simpa using h)

theorem stackLines_inj {stack stack' : List UInt16} (h : stack.length = stack'.length) :
    stackLines stack = stackLines stack' ↔ stack = stack' := by
  refine ⟨fun hlines => ?_, fun h => by rw [h]⟩
  cases stack with
  | nil => exact (List.length_eq_zero_iff.1 h.symm).symm
  | cons a rest =>
    cases stack' with
    | nil => cases h
    | cons b rest' =>
      have hvalues := entriesLines_inj.1 hlines
      exact List.reverse_inj.1 ((List.map_inj_right fun _ _ => UInt16.toNat_inj.1).1 hvalues)

def registerLines (r : Registers) : List Line := entriesLines 2 (r.toList.map (·.toNat))

theorem solid_registerLines (r : Registers) : Solid (registerLines r) := by
  refine solid_entriesLines 2 (List.map_eq_nil_iff.not.2 (List.length_pos_iff.1 ?_))
  rw [Vector.length_toList]
  decide

theorem length_registerLines (r s : Registers) : (registerLines r).length = (registerLines s).length :=
  length_entriesLines 2 (by simp only [List.length_map, Vector.length_toList])

theorem registerLines_inj {r s : Registers} : registerLines r = registerLines s ↔ r = s := by
  rw [registerLines, registerLines, entriesLines_inj, List.map_inj_right fun _ _ => UInt8.toNat_inj.1,
    Vector.toList_inj]

def memoryLines (m : Memory) : List Line := (memoryRows m.toList Memory.programStart).map (Row.line 2)

theorem start_lt (m : Memory) : Memory.programStart < m.toList.length := by
  rw [Vector.length_toList]
  decide

theorem solid_memoryLines (m : Memory) : Solid (memoryLines m) := solid_rows 2 (memoryRows_ne_nil (start_lt m))

theorem drop_inj {m n : Memory} {start : Nat} :
    m.toList.drop start = n.toList.drop start ↔ ∀ k, start ≤ k → ∀ h : k < 4096, m[k] = n[k] := by
  constructor
  · intro heq k hk h
    have hbyte := congrArg (·[k - start]?) heq
    simpa [Nat.add_sub_cancel' hk, h] using hbyte
  · intro hsame
    refine List.ext_getElem (by simp) fun i hi _ => ?_
    have hlt : start + i < 4096 := by
      rw [List.length_drop, Vector.length_toList] at hi
      omega
    simpa using hsame (start + i) (Nat.le_add_right _ _) hlt

theorem memoryLines_inj {m n : Memory} :
    memoryLines m = memoryLines n ↔ ∀ k, Memory.programStart ≤ k → ∀ h : k < 4096, m[k] = n[k] := by
  rw [memoryLines, memoryLines, map_line_inj, memoryRows_inj (start_lt m).le (start_lt n).le, drop_inj]

/-! ## The lines of a text -/

/-- lines behind two tabs -/
def block (ls : List Line) : List Line := ls.map fun l => List.replicate 2 '\t' ++ l

theorem block_inj {ls ls' : List Line} : block ls = block ls' ↔ ls = ls' :=
  List.map_inj_right fun _ _ => List.append_cancel_left

theorem length_block (ls : List Line) : (block ls).length = ls.length := List.length_map _

theorem block_ne_nil {ls : List Line} (h : ls ≠ []) : block ls ≠ [] := List.map_eq_nil_iff.not.2 h

theorem newline_not_mem_block {ls : List Line} (h : ∀ l ∈ ls, '\n' ∉ l) : ∀ l ∈ block ls, '\n' ∉ l := by
  rw [block, List.forall_mem_map]
  intro l hl
  simp [h l hl]

/-- the lines of a text, those of an indented block together -/
def parts (m : Machine) : List (List Line) :=
  [["Chipset \x7b".toList],
    [hexField "Opcode" m.word.toNat],
    [hexField "Program Counter" m.pc.toNat],
    [hexField "Index Register" m.index.toNat],
    [numberField "Delay Timer" m.delay.value.toNat],
    [numberField "Sound Timer" m.sound.value.toNat],
    [field "Awaiting Key" (' ' :: awaitingText m.awaiting)],
    [numberField "Stack Pointer" m.stack.length],
    [field "Stack" []],
    block (stackLines m.stack),
    [field "Register" []],
    block (registerLines m.registers),
    [field "Memory" []],
    block (memoryLines m.memory),
    ["\x7d".toList]]

def lines (m : Machine) : List Line := (parts m).flatten

/-- a text is its lines -/
theorem text_eq_joined (m : Machine) : text m = String.ofList (joined (lines m)) := by
  have hstack : indent 2 (stackText m.stack) = joined (block (stackLines m.stack)) :=
    stackText_eq m.stack ▸ indent_joined 2 (solid_stackLines _)
  have hregisters : indent 2 (entriesText 2 (m.registers.toList.map (·.toNat))) =
      joined (block (registerLines m.registers)) := indent_joined 2 (solid_registerLines _)
  have hmemory : indent 2 (memoryText m.memory.toList Memory.programStart) = joined (block (memoryLines m.memory)) :=
    indent_joined 2 (solid_memoryLines _)
  have hparts : ∀ ls ∈ parts m, ls ≠ [] := by
    simp [parts, block_ne_nil, (solid_stackLines _).ne_nil, (solid_registerLines _).ne_nil,
      (solid_memoryLines _).ne_nil]
  rw [lines, ← joined_flatten hparts, text, hstack, hregisters, hmemory]
  simp only [parts, List.map_cons, List.map_nil, joined_singleton]

theorem newline_not_mem_toDigits (n : Nat) : '\n' ∉ Nat.toDigits 10 n := by
  intro h
  have hdigit := Nat.isDigit_of_mem_toDigits (by decide) (by decide) h
  exact absurd hdigit (by decide)

theorem newline_not_mem_awaitingText (awaiting : Option Size) : '\n' ∉ awaitingText awaiting := by
  cases awaiting with
  | none => decide
  | some x =>
    rw [awaitingText, List.mem_cons]
    rintro (h | h)
    · exact absurd h (by decide)
    · exact absurd (Hex.mem_digits h) (by decide)

theorem newline_not_mem_lines (m : Machine) : ∀ l ∈ lines m, '\n' ∉ l := by
  have hstack := newline_not_mem_block (solid_stackLines m.stack).newline
  have hregisters := newline_not_mem_block (solid_registerLines m.registers).newline
  have hmemory := newline_not_mem_block (solid_memoryLines m.memory).newline
  simp only [lines, parts, List.flatten_cons, List.flatten_nil, List.forall_mem_append, List.forall_mem_singleton]
  simpa [hexField, numberField, field, Row.newline_not_mem_hexLine, newline_not_mem_toDigits,
    newline_not_mem_awaitingText] using ⟨hstack, hregisters, hmemory⟩

theorem text_eq_iff_lines (m n : Machine) : text m = text n ↔ lines m = lines n := by
  refine ⟨fun h => ?_, fun h => by rw [text_eq_joined, text_eq_joined, h]⟩
  have hsplit (k : Machine) : (joined (lines k)).splitOn '\n' = lines k :=
    splitOn_joined (by simp [lines, parts]) (newline_not_mem_lines k)
  rw [text_eq_joined, text_eq_joined, String.ofList_inj] at h
  rw [← hsplit m, ← hsplit n, h]

/-! ## Fields -/

theorem field_inj (name : String) {v w : Line} : field name v = field name w ↔ v = w := by
  simp [field]

theorem hexField_inj (name : String) {a b : Nat} : hexField name a = hexField name b ↔ a = b := by
  rw [hexField, hexField, field_inj]
  refine ⟨fun h => ?_, fun h => by rw [h]⟩
  rw [← Row.numeral_hexLine 4 a, ← Row.numeral_hexLine 4 b, (List.cons.inj h).2]

theorem numberField_inj (name : String) {a b : Nat} : numberField name a = numberField name b ↔ a = b := by
  rw [numberField, numberField, field_inj]
  refine ⟨fun h => ?_, fun h => by rw [h]⟩
  rw [← Nat.ofDigitChars_ten_toDigits (n := a), ← Nat.ofDigitChars_ten_toDigits (n := b), (List.cons.inj h).2]

theorem awaitingText_inj {v w : Option Size} : awaitingText v = awaitingText w ↔ v = w := by
  refine ⟨fun h => ?_, fun h => by rw [h]⟩
  cases v with
  | none =>
    cases w with
    | none => rfl
    | some y => exact absurd (List.cons.inj h).1 (by decide)
  | some x =>
    cases w with
    | none => exact absurd (List.cons.inj h).1 (by decide)
    | some y =>
      have hxy : x.toNat = y.toNat := by
        rw [← Hex.value_digits x.toNat, ← Hex.value_digits y.toNat, (List.cons.inj h).2]
      rw [UInt64.toNat_inj.1 hxy]

/-- **A text hides nothing that it shows.** Two machines have the same text exactly if they agree on the word fetched
last, the registers `pc` and `I`, both countdowns, the register that a key is awaited for, the stack, all registers and
the memory from `0x200` on; the rest of them makes no difference. -/
theorem text_eq_iff (m n : Machine) : text m = text n ↔ SameShown m n := by
  rw [text_eq_iff_lines]
  constructor
  · intro h
    simp only [lines, parts, List.flatten_cons, List.flatten_nil, List.singleton_append, List.cons.injEq, hexField_inj,
      numberField_inj, field_inj, true_and] at h
    obtain ⟨hword, hpc, hindex, hdelay, hsound, hawaiting, hsize, hblocks⟩ := h
    -- the stack pointer says where the stack ends, and the registers take as many lines in every text
    have hstackLines : (block (stackLines m.stack)).length = (block (stackLines n.stack)).length := by
      rw [length_block, length_block, length_stackLines hsize]
    have hregisterLines : (block (registerLines m.registers)).length = (block (registerLines n.registers)).length := by
      rw [length_block, length_block, length_registerLines]
    obtain ⟨hstack, hbehind⟩ := List.append_inj hblocks hstackLines
    obtain ⟨hregisters, hbehind⟩ := List.append_inj (List.cons.inj hbehind).2 hregisterLines
    obtain ⟨hmemory, -⟩ := List.append_inj' (List.cons.inj hbehind).2 rfl
    exact {
      word := UInt16.toNat_inj.1 hword
      pc := UInt16.toNat_inj.1 hpc
      index := UInt16.toNat_inj.1 hindex
      delay := congrArg Countdown.mk (UInt8.toNat_inj.1 hdelay)
      sound := congrArg Countdown.mk (UInt8.toNat_inj.1 hsound)
      awaiting := awaitingText_inj.1 hawaiting
      stack := (stackLines_inj hsize).1 (block_inj.1 hstack)
      registers := registerLines_inj.1 (block_inj.1 hregisters)
      memory := memoryLines_inj.1 (block_inj.1 hmemory) }
  · intro h
    simp only [lines, parts, h.word, h.pc, h.index, h.delay, h.sound, h.awaiting, h.stack, h.registers,
      memoryLines_inj.2 h.memory]

end ChipEight.Dump
