/-
The rows of a memory dump. They tile the memory from the offset on in chunks of eight bytes, a short one at the end; a
row without the filler lists a chunk that is not all zero, and a filler stands for as many chunks of zeros as follow
each other.

The rows so far either end with a filler, and then `zeroFrom` says where it starts, or they do not (`Listed`). One more
chunk keeps this, whether its row comes behind the others or takes the place of the last one.

Results:
- `tiles_concat_iff`: one more row at the end;
- `Listed.add`, `Listed.addAll`: one more chunk, and all that there are;
- `Tiles.bytes`: rows that show a memory stand for the bytes there;
- `memory_text_exact`: all of it for the text of a memory.
-/
import ChipEight.Proofs.Machine.Dump.Indent

namespace ChipEight.Dump

/-- the rows follow each other from `start` to before `stop`, without a gap or an overlap -/
def Tiles : Nat → List Row → Nat → Prop
  | start, [], stop => start = stop
  | start, r :: rest, stop => r.first = start ∧ r.first ≤ r.last ∧ Tiles (r.last + 1) rest stop

/-- the chunk of the memory that starts at a position -/
def chunkAt (memory : List UInt8) (first : Nat) : List UInt8 := (memory.drop first).take rowSize

/-- what a row shows stands in memory there: one chunk that is not all zero, entry by entry, or whole chunks of zeros -/
def Row.Shows (memory : List UInt8) (offset : Nat) (r : Row) : Prop :=
  (∃ i, r.first = offset + rowSize * i) ∧
    match r.content with
    | .entries values =>
      r.last + 1 = r.first + (chunkAt memory r.first).length ∧ (∃ b ∈ chunkAt memory r.first, b ≠ 0) ∧
        values = (chunkAt memory r.first).map (·.toNat)
    | .zeros =>
      (∃ j, r.last + 1 = min (offset + rowSize * j) memory.length) ∧
        ∀ k, r.first ≤ k → k ≤ r.last → memory[k]? = some 0

/-- not both of two neighbours are fillers -/
def Apart (r s : Row) : Prop := r.content ≠ .zeros ∨ s.content ≠ .zeros

/-- rows that show what stands in memory from `offset` to before `stop` -/
structure Exact (memory : List UInt8) (offset : Nat) (rows : List Row) (stop : Nat) : Prop where
  tiles : Tiles offset rows stop
  shows : ∀ r ∈ rows, r.Shows memory offset
  apart : rows.IsChain Apart

variable {memory : List UInt8} {offset : Nat}

/-! ## One more row -/

theorem tiles_concat_iff {start stop : Nat} {rows : List Row} {r : Row} :
    Tiles start (rows ++ [r]) stop ↔ Tiles start rows r.first ∧ r.first ≤ r.last ∧ r.last + 1 = stop := by
  induction rows generalizing start with
  | nil => simp only [List.nil_append, Tiles, eq_comm]
  | cons s rest ih => simp only [List.cons_append, Tiles, ih, and_assoc]

theorem Exact.concat {rows : List Row} {r : Row} (h : Exact memory offset rows r.first) (hle : r.first ≤ r.last)
    (hshows : r.Shows memory offset) (hapart : ∀ s ∈ rows.getLast?, Apart s r) :
    Exact memory offset (rows ++ [r]) (r.last + 1) where
  tiles := tiles_concat_iff.2 ⟨h.tiles, hle, rfl⟩
  shows := by
    intro s hs
    rcases List.mem_append.1 hs with hs | hs
    · exact h.shows s hs
    · exact List.mem_singleton.1 hs ▸ hshows
  apart := by
    refine List.isChain_append.2 ⟨h.apart, .singleton r, fun s hs t ht => ?_⟩
    obtain rfl : r = t := Option.some.inj ht
    exact hapart s hs

/-! ## One more chunk -/

theorem length_chunkAt (memory : List UInt8) (first : Nat) :
    (chunkAt memory first).length = min rowSize (memory.length - first) := by
  rw [chunkAt, List.length_take, List.length_drop]

theorem getElem?_of_zero_chunk {first k : Nat} (hzero : ∀ b ∈ chunkAt memory first, b = 0) (hk : first ≤ k)
    (hk' : k < first + (chunkAt memory first).length) : memory[k]? = some 0 := by
  have hlt : k - first < (chunkAt memory first).length := by omega
  have hsize : k - first < rowSize := by rw [length_chunkAt] at hlt; omega
  have hbyte : (chunkAt memory first)[k - first]? = memory[k]? := by
    rw [chunkAt, List.getElem?_take_of_lt hsize, List.getElem?_drop, Nat.add_sub_cancel' hk]
  rw [← hbyte, List.getElem?_eq_getElem hlt, hzero _ (List.getElem_mem hlt)]

theorem shows_filler {start last i j : Nat} (hstart : start = offset + rowSize * i)
    (hlast : last + 1 = min (offset + rowSize * j) memory.length)
    (hzero : ∀ k, start ≤ k → k < last + 1 → memory[k]? = some 0) : Row.Shows memory offset ⟨start, last, .zeros⟩ :=
  ⟨⟨i, hstart⟩, ⟨j, hlast⟩, fun k hk hk' => hzero k hk (Nat.lt_succ_of_le hk')⟩

theorem shows_plain {first i : Nat} (hfirst : first = offset + rowSize * i)
    (hsome : ∃ b ∈ chunkAt memory first, b ≠ 0) :
    (Row.plain first ((chunkAt memory first).map (·.toNat))).Shows memory offset := by
  have hpos : 0 < (chunkAt memory first).length := by
    obtain ⟨b, hb, -⟩ := hsome
    exact List.length_pos_of_mem hb
  refine ⟨⟨i, hfirst⟩, ?_, hsome, rfl⟩
  simp only [Row.plain, List.length_map]
  omega

/-- What holds of the rows so far: they end with a filler whose start is known, or with none. -/
inductive Listed (memory : List UInt8) (offset stop : Nat) : Listing → Prop where
  | plain {rows : List Row} (h : Exact memory offset rows stop) (hlast : ∀ s ∈ rows.getLast?, s.content ≠ .zeros) :
    Listed memory offset stop ⟨rows, none⟩
  | zeros {front : List Row} {start last : Nat} (h : Exact memory offset front start)
      (hlast : ∀ s ∈ front.getLast?, s.content ≠ .zeros) (hle : start ≤ last) (hstop : last + 1 = stop)
      (hshows : Row.Shows memory offset ⟨start, last, .zeros⟩) :
    Listed memory offset stop ⟨front ++ [⟨start, last, .zeros⟩], some start⟩

theorem Listed.exact {stop : Nat} {l : Listing} (h : Listed memory offset stop l) :
    Exact memory offset l.rows stop := by
  cases h with
  | plain h _ => exact h
  | zeros h hlast hle hstop hshows => exact hstop ▸ h.concat hle hshows fun s hs => .inl (hlast s hs)

/-- one more chunk that is not all zero: its row comes behind the others -/
theorem Listed.add_plain {l : Listing} {first i : Nat} (h : Listed memory offset first l)
    (hfirst : first = offset + rowSize * i) (hsome : ∃ b ∈ chunkAt memory first, b ≠ 0) :
    Listed memory offset (first + (chunkAt memory first).length) (l.add first (chunkAt memory first)) := by
  have hall : ¬ (chunkAt memory first).all (· == 0) = true := by simpa using hsome
  have hshows := shows_plain hfirst hsome
  have hlast := hshows.2.1
  set r := Row.plain first ((chunkAt memory first).map (·.toNat))
  have hle : r.first ≤ r.last := by
    obtain ⟨b, hb, -⟩ := hsome
    have hpos : 0 < (chunkAt memory r.first).length := List.length_pos_of_mem hb
    omega
  have hexact : Exact memory offset (l.rows ++ [r]) (r.last + 1) :=
    h.exact.concat hle hshows fun s _ => .inr nofun
  rw [Listing.add, if_neg hall]
  exact .plain (hlast ▸ hexact) (by simp [Row.plain])

/-- one more chunk of zeros: its row comes behind the others, or takes the place of a filler and is longer -/
theorem Listed.add_zeros {l : Listing} {first i : Nat} (h : Listed memory offset first l) (hlt : first < memory.length)
    (hfirst : first = offset + rowSize * i) (hzero : ∀ b ∈ chunkAt memory first, b = 0) :
    Listed memory offset (first + (chunkAt memory first).length) (l.add first (chunkAt memory first)) := by
  have hall : (chunkAt memory first).all (· == 0) = true := by simpa using hzero
  have hlength := length_chunkAt memory first
  have hsize : rowSize = 8 := rfl
  have hlast : first + (chunkAt memory first).length - 1 + 1 = first + (chunkAt memory first).length := by omega
  have hchunk : first + (chunkAt memory first).length = min (offset + rowSize * (i + 1)) memory.length := by
    rw [Nat.mul_succ]; omega
  rw [Listing.add, if_pos hall]
  cases h with
  | plain h hplain =>
    have hshows : Row.Shows memory offset ⟨first, first + (chunkAt memory first).length - 1, .zeros⟩ :=
      shows_filler hfirst (hlast.trans hchunk) fun k hk hk' => getElem?_of_zero_chunk hzero hk (by omega)
    simp only [Option.getD_none, BEq.rfl, if_true]
    exact .zeros h hplain (by omega) hlast hshows
  | @zeros front start last h hplain hle hstop hshows =>
    obtain ⟨⟨i', hstart⟩, -, hbefore⟩ := hshows
    have hshows : Row.Shows memory offset ⟨start, first + (chunkAt memory first).length - 1, .zeros⟩ := by
      refine shows_filler hstart (hlast.trans hchunk) fun k hk hk' => ?_
      rcases Nat.lt_or_ge k first with hold | hnew
      · exact hbefore k hk (show k ≤ last by omega)
      · exact getElem?_of_zero_chunk hzero hnew (by omega)
    have hne : (start == first) = false := by simp; omega
    simp only [Option.getD_some, hne, Bool.false_eq_true, if_false, List.dropLast_concat]
    exact .zeros h hplain (by omega) hlast hshows

theorem Listed.add {l : Listing} {first i : Nat} (h : Listed memory offset first l) (hlt : first < memory.length)
    (hfirst : first = offset + rowSize * i) :
    Listed memory offset (first + (chunkAt memory first).length) (l.add first (chunkAt memory first)) := by
  by_cases hzero : ∀ b ∈ chunkAt memory first, b = 0
  · exact h.add_zeros hlt hfirst hzero
  · exact h.add_plain hfirst (by simpa using hzero)

/-- all chunks that there are from `first` on -/
theorem Listed.addAll {l : Listing} {first i : Nat} {bytes : List UInt8}
    (h : Listed memory offset (min first memory.length) l) (hbytes : memory.drop first = bytes)
    (hfirst : first = offset + rowSize * i) : Listed memory offset memory.length (l.addAll first bytes) := by
  induction l, first, bytes using Listing.addAll.induct generalizing i with
  | case1 l first bytes hempty =>
    have hle : memory.length ≤ first := List.drop_eq_nil_iff.1 (hbytes.trans (List.isEmpty_iff.1 hempty))
    rw [Listing.addAll, if_pos hempty]
    rwa [Nat.min_eq_right hle] at h
  | case2 l first bytes hsome ih =>
    have hlt : first < memory.length := by
      by_contra hge
      exact hsome (List.isEmpty_iff.2 (hbytes ▸ List.drop_eq_nil_of_le (Nat.le_of_not_lt hge)))
    have hchunk : chunkAt memory first = bytes.take rowSize := by rw [chunkAt, hbytes]
    have hnext : first + (chunkAt memory first).length = min (first + rowSize) memory.length := by
      rw [length_chunkAt]; omega
    rw [Nat.min_eq_left hlt.le] at h
    rw [Listing.addAll, if_neg hsome]
    refine ih (i := i + 1) ?_ (by rw [← hbytes, List.drop_drop]) (by rw [hfirst, Nat.mul_succ, Nat.add_assoc])
    exact hchunk ▸ hnext ▸ h.add hlt hfirst

theorem exact_memoryRows (h : offset ≤ memory.length) :
    Exact memory offset (memoryRows memory offset) memory.length := by
  have hempty : Listed memory offset (min offset memory.length) .empty :=
    .plain ⟨(Nat.min_eq_left h).symm, nofun, .nil⟩ nofun
  exact (hempty.addAll rfl (i := 0) rfl).exact

theorem memoryRows_ne_nil (h : offset < memory.length) : memoryRows memory offset ≠ [] := by
  intro hnil
  have htiles : Tiles offset [] memory.length := hnil ▸ (exact_memoryRows h.le).tiles
  exact h.ne htiles

/-! ## The bytes that rows stand for -/

def Row.bytes (r : Row) : List UInt8 :=
  match r.content with
  | .entries values => values.map .ofNat
  | .zeros => List.replicate (r.last + 1 - r.first) 0

theorem Row.Shows.bytes {r : Row} (h : r.Shows memory offset) (hle : r.first ≤ r.last) :
    r.bytes = (memory.drop r.first).take (r.last + 1 - r.first) := by
  obtain ⟨-, hcontent⟩ := h
  rw [Row.bytes]
  cases hc : r.content with
  | entries values =>
    rw [hc] at hcontent
    obtain ⟨hlast, -, rfl⟩ := hcontent
    have hvalues : ((chunkAt memory r.first).map (·.toNat)).map UInt8.ofNat = chunkAt memory r.first := by
      simp [List.map_map, Function.comp_def]
    simp only [hvalues]
    rw [hlast, Nat.add_sub_cancel_left, chunkAt, List.take_eq_take_iff, List.length_take, Nat.min_assoc, Nat.min_self]
  | zeros =>
    rw [hc] at hcontent
    obtain ⟨-, hzero⟩ := hcontent
    have hlt : r.last < memory.length := (List.getElem?_eq_some_iff.1 (hzero r.last hle le_rfl)).1
    refine (List.eq_replicate_iff.2 ⟨?_, fun b hb => ?_⟩).symm
    · rw [List.length_take, List.length_drop]; omega
    · obtain ⟨k, hk, rfl⟩ := List.mem_iff_getElem.1 hb
      have hk' : k < r.last + 1 - r.first := by rw [List.length_take] at hk; omega
      have hbyte := hzero (r.first + k) (Nat.le_add_right _ _) (by omega)
      rw [List.getElem_take, List.getElem_drop]
      exact (List.getElem?_eq_some_iff.1 hbyte).2

theorem Tiles.le {start stop : Nat} {rows : List Row} (h : Tiles start rows stop) : start ≤ stop := by
  induction rows generalizing start with
  | nil => exact Nat.le_of_eq h
  | cons r rest ih =>
    obtain ⟨hfirst, hle, hrest⟩ := h
    have := ih hrest
    omega

/-- rows that show a memory stand for the bytes there -/
theorem Tiles.bytes {start stop : Nat} {rows : List Row} (h : Tiles start rows stop)
    (hshows : ∀ r ∈ rows, r.Shows memory offset) :
    rows.flatMap Row.bytes = (memory.drop start).take (stop - start) := by
  induction rows generalizing start with
  | nil =>
    obtain rfl : start = stop := h
    rw [Nat.sub_self, List.take_zero, List.flatMap_nil]
  | cons r rest ih =>
    obtain ⟨rfl, hle, hrest⟩ := h
    have hstop : stop - r.first = (r.last + 1 - r.first) + (stop - (r.last + 1)) := by
      have := hrest.le
      omega
    have hbehind : r.first + (r.last + 1 - r.first) = r.last + 1 := by omega
    have hrow := (hshows r List.mem_cons_self).bytes hle
    have hrows := ih hrest fun s hs => hshows s (List.mem_cons_of_mem r hs)
    rw [List.flatMap_cons, hrow, hrows, hstop, List.take_add, List.drop_drop, hbehind]

theorem bytes_memoryRows (h : offset ≤ memory.length) :
    (memoryRows memory offset).flatMap Row.bytes = memory.drop offset := by
  have hexact := exact_memoryRows h
  rw [hexact.tiles.bytes hexact.shows]
  exact List.take_of_length_le (by rw [List.length_drop])

theorem memoryRows_inj {memory' : List UInt8} (h : offset ≤ memory.length) (h' : offset ≤ memory'.length) :
    memoryRows memory offset = memoryRows memory' offset ↔ memory.drop offset = memory'.drop offset := by
  refine ⟨fun hrows => ?_, fun hdrop => by rw [memoryRows, memoryRows, hdrop]⟩
  rw [← bytes_memoryRows h, ← bytes_memoryRows h', hrows]

/-! ## The text of a memory -/

/-- the rows that the lines of a text show -/
def readRows (text : Line) : List Row := (text.splitOn '\n').filterMap Row.ofLine?

/-- **The dump of a memory is exact.** Its lines are those of the rows that are read back from it. From `offset` to the
last byte these rows follow each other without a gap or an overlap; each of them lists one chunk that is not all zero,
byte by byte, or is a filler for whole chunks of zeros; and no two fillers are neighbours. So the rows stand for the
bytes from `offset` on. -/
theorem memory_text_exact (memory : List UInt8) (offset : Nat) (h : offset < memory.length) :
    (memoryText memory offset).splitOn '\n' = (readRows (memoryText memory offset)).map (Row.line 2) ∧
      Exact memory offset (readRows (memoryText memory offset)) memory.length ∧
      (readRows (memoryText memory offset)).flatMap Row.bytes = memory.drop offset := by
  have hsolid := solid_rows 2 (memoryRows_ne_nil h)
  have hlines := splitOn_joined hsolid.ne_nil hsolid.newline
  have hrows : readRows (memoryText memory offset) = memoryRows memory offset := by
    rw [readRows, memoryText, hlines, List.filterMap_map]
    exact (List.filterMap_congr fun r _ => Row.ofLine?_line 2 r).trans List.filterMap_some
  rw [hrows]
  exact ⟨hlines, exact_memoryRows h.le, bytes_memoryRows h.le⟩

/-- a filler in front, a row, and a filler for two chunks and a short one -/
theorem exact_around_one_byte :
    2 < (List.replicate 21 0 ++ 0xAB :: List.replicate 25 (0 : UInt8)).length ∧
      (readRows (memoryText (List.replicate 21 0 ++ 0xAB :: List.replicate 25 0) 2)).flatMap Row.bytes =
        List.replicate 19 0 ++ 0xAB :: List.replicate 25 0 :=
  ⟨by decide, (memory_text_exact (List.replicate 21 0 ++ 0xAB :: List.replicate 25 0) 2 (by decide)).2.2⟩

end ChipEight.Dump
