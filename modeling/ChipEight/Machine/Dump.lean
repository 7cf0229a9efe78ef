/-
The text of a machine's state: its registers line by line, then the call stack, the register file and the memory from
`0x200` on, indented and in rows of eight. A row shows the range of its positions and what stands there; rows of memory
that hold only zeros are merged with such neighbours and show a filler instead.
-/
import ChipEight.Machine

namespace ChipEight.Dump

/-- lines are put together from characters -/
abbrev Line := List Char

/-- entries in a row -/
def rowSize : Nat := 8

theorem length_drop_rowSize {α : Type} {entries : List α} (h : ¬ entries.isEmpty) :
    (entries.drop rowSize).length < entries.length := by
  cases entries with
  | nil => contradiction
  | cons => simp only [List.length_drop, List.length_cons, rowSize]; omega

inductive Content where
  /-- what stands there, entry by entry -/
  | entries (values : List Nat)
  /-- nothing but zeros -/
  | zeros
deriving DecidableEq, Repr

/-- a row and the positions of its first and its last entry -/
structure Row where
  first : Nat
  last : Nat
  content : Content
deriving DecidableEq, Repr

namespace Row

/-- the row of these entries -/
def plain (first : Nat) (values : List Nat) : Row := ⟨first, first + values.length - 1, .entries values⟩

def hexLine (digits n : Nat) : Line := '0' :: 'x' :: Hex.padded digits n

/-- entries behind a space each -/
def spaced (digits : Nat) (values : List Nat) : Line := values.flatMap fun v => ' ' :: hexLine digits v

/-- the text of a row, its entries with at least `digits` digits -/
def line (digits : Nat) (r : Row) : Line :=
  hexLine 4 r.first ++ " - ".toList ++ hexLine 4 r.last ++ " :".toList ++
    match r.content with
    | .entries values => spaced digits values
    | .zeros => " 0x00 ... 0x00".toList

end Row

/-- eight entries a row, from position `first` on -/
def plainRows (first : Nat) (values : List Nat) : List Row :=
  if values.isEmpty then []
  else Row.plain first (values.take rowSize) :: plainRows (first + rowSize) (values.drop rowSize)
termination_by values.length
decreasing_by exact length_drop_rowSize (by assumption)

/-! ## Rows of the memory -/

/-- the rows of the bytes so far -/
structure Listing where
  rows : List Row
  /-- where the zeros start that the rows end with, if they do -/
  zeroFrom : Option Nat

namespace Listing

def empty : Listing := ⟨[], none⟩

/-- The row of one more chunk. Behind zeros, a row of zeros takes the place of the last one and starts where it did. -/
def add (l : Listing) (first : Nat) (chunk : List UInt8) : Listing :=
  if chunk.all (· == 0) then
    let start := l.zeroFrom.getD first
    let before := if start == first then l.rows else l.rows.dropLast
    ⟨before ++ [⟨start, first + chunk.length - 1, .zeros⟩], some start⟩
  else ⟨l.rows ++ [Row.plain first (chunk.map (·.toNat))], none⟩

/-- the rows of more bytes, from position `first` on -/
def addAll (l : Listing) (first : Nat) (bytes : List UInt8) : Listing :=
  if bytes.isEmpty then l else (l.add first (bytes.take rowSize)).addAll (first + rowSize) (bytes.drop rowSize)
termination_by bytes.length
decreasing_by exact length_drop_rowSize (by assumption)

end Listing

/-- eight bytes a row, from position `offset` on, with rows of zeros merged -/
def memoryRows (memory : List UInt8) (offset : Nat) : List Row :=
  (Listing.empty.addAll offset (memory.drop offset)).rows

/-! ## The whole text -/

/-- lines with a newline between any two -/
def joined (ls : List Line) : Line := List.intercalate ['\n'] ls

def isWhite (c : Char) : Bool :=
  (9 ≤ c.toNat && c.toNat ≤ 13) || (0x2000 ≤ c.toNat && c.toNat ≤ 0x200A) ||
    [0x20, 0x85, 0xA0, 0x1680, 0x2028, 0x2029, 0x202F, 0x205F, 0x3000].contains c.toNat

/-- without the white space at the end -/
def trimEnd (text : Line) : Line := (text.reverse.dropWhile isWhite).reverse

/-- every line behind `depth` tabs -/
def indent (depth : Nat) (text : Line) : Line :=
  trimEnd ((text.splitOn '\n').flatMap fun l => List.replicate depth '\t' ++ l ++ ['\n'])

/-- a line of the state behind a tab -/
def field (name : String) (value : Line) : Line := '\t' :: name.toList ++ " :".toList ++ value

def hexField (name : String) (value : Nat) : Line := field name (' ' :: Row.hexLine 4 value)

def numberField (name : String) (value : Nat) : Line := field name (' ' :: Nat.toDigits 10 value)

def entriesText (digits : Nat) (values : List Nat) : Line := joined ((plainRows 0 values).map (Row.line digits))

def memoryText (memory : List UInt8) (offset : Nat) : Line := joined ((memoryRows memory offset).map (Row.line 2))

def stackText (stack : List UInt16) : Line :=
  if stack.isEmpty then "-".toList else entriesText 4 (stack.reverse.map (·.toNat))

def awaitingText : Option Size → Line
  | none => "-".toList
  | some x => 'V' :: Hex.digits x.toNat

/-- the state of a machine as text -/
def text (m : Machine) : String :=
  String.ofList (joined
    ["Chipset \x7b".toList,
      hexField "Opcode" m.word.toNat,
      hexField "Program Counter" m.pc.toNat,
      hexField "Index Register" m.index.toNat,
      numberField "Delay Timer" m.delay.value.toNat,
      numberField "Sound Timer" m.sound.value.toNat,
      field "Awaiting Key" (' ' :: awaitingText m.awaiting),
      numberField "Stack Pointer" m.stack.length,
      field "Stack" [],
      indent 2 (stackText m.stack),
      field "Register" [],
      indent 2 (entriesText 2 (m.registers.toList.map (·.toNat))),
      field "Memory" [],
      indent 2 (memoryText m.memory.toList Memory.programStart),
      "\x7d".toList])

end ChipEight.Dump
