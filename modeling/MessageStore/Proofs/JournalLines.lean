import MessageStore.Journal.Scan
import MessageStore.Proofs.EntryReadBack
import Mathlib.Tactic

/-!
# The lines of a journal

A journal of whole lines is cut into these lines again, since no record has
a line feed in its text.  A scan then finds every record, and what follows
the last line feed decides how it ends.  Cutting a journal off somewhere
leaves the records whose lines end before that point, and a part of the next
line without its line feed.
-/

namespace MessageStore

/-! ## Cutting into lines -/

theorem cutLinesFrom_unbroken {text : Bytes} (hunbroken : 0x0A ∉ text)
    (lines : List Bytes) (line rest : Bytes) :
    cutLinesFrom lines line (text ++ rest) =
      cutLinesFrom lines (text.reverse ++ line) rest := by
  induction text generalizing line with
  | nil => rfl
  | cons octet text ih =>
      rw [List.mem_cons, not_or] at hunbroken
      rw [List.cons_append, cutLinesFrom, if_neg fun hfeed => hunbroken.1 hfeed.symm]
      rw [ih hunbroken.2, List.reverse_cons, List.append_assoc]
      rfl

theorem cutLinesFrom_line {text : Bytes} (hunbroken : 0x0A ∉ text)
    (lines : List Bytes) (rest : Bytes) :
    cutLinesFrom lines [] (text ++ [0x0A] ++ rest) =
      cutLinesFrom (text :: lines) [] rest := by
  rw [List.append_assoc, cutLinesFrom_unbroken hunbroken, List.append_nil]
  rw [List.singleton_append, cutLinesFrom, if_pos rfl, List.reverse_reverse]

theorem cutLinesFrom_lines {texts : List Bytes}
    (hunbroken : ∀ text ∈ texts, 0x0A ∉ text) (lines : List Bytes) (rest : Bytes) :
    cutLinesFrom lines [] (texts.flatMap (· ++ [0x0A]) ++ rest) =
      cutLinesFrom (texts.reverse ++ lines) [] rest := by
  induction texts generalizing lines with
  | nil => rfl
  | cons text texts ih =>
      rw [List.flatMap_cons, List.append_assoc,
        cutLinesFrom_line (hunbroken text List.mem_cons_self)]
      rw [ih fun other hmem => hunbroken other (List.mem_cons_of_mem _ hmem)]
      simp

theorem cutLinesFrom_prefix (lines : List Bytes) (line rest : Bytes) :
    ∃ more tail, cutLinesFrom lines line rest = (lines.reverse ++ more, tail) := by
  induction rest generalizing lines line with
  | nil => exact ⟨[], line.reverse, by rw [cutLinesFrom, List.append_nil]⟩
  | cons octet rest ih =>
      rw [cutLinesFrom]
      split
      next =>
        obtain ⟨more, tail, hcut⟩ := ih (line.reverse :: lines) []
        exact ⟨line.reverse :: more, tail, by rw [hcut]; simp⟩
      next => exact ih lines (octet :: line)

/-- Lines put together are found again, with whatever follows them. -/
theorem cutLines_lines {texts : List Bytes} {tail : Bytes}
    (hunbroken : ∀ text ∈ texts, 0x0A ∉ text) (htail : 0x0A ∉ tail) :
    cutLines (texts.flatMap (· ++ [0x0A]) ++ tail) = (texts, tail) := by
  have hrest := cutLinesFrom_unbroken htail texts.reverse [] []
  rw [List.append_nil, List.append_nil] at hrest
  rw [cutLines, cutLinesFrom_lines hunbroken, List.append_nil, hrest]
  simp [cutLinesFrom]

/-! ## The lines of records -/

namespace Record

variable {E : Type} [TableEntry E]

/-- The text of the record of an entry. -/
def text (entry : E) : Bytes :=
  (ofEntry entry).toJson.render

theorem line_eq (entry : E) : line entry = text entry ++ [0x0A] :=
  rfl

theorem flatMap_line (entries : List E) :
    entries.flatMap line = (entries.map text).flatMap (· ++ [0x0A]) := by
  rw [List.flatMap_map]
  rfl

theorem line_length_pos (entry : E) : 0 < (line entry).length := by
  simp [line_eq]

/-- Where the first so many lines of a journal end. -/
def lineEnd (entries : List E) (count : Nat) : Nat :=
  ((entries.take count).flatMap line).length

/-- How many lines of a journal lie within its first so many octets. -/
def wholeLines : List E → Nat → Nat
  | [], _ => 0
  | entry :: entries, size =>
    if (line entry).length ≤ size then wholeLines entries (size - (line entry).length) + 1
    else 0

@[simp] theorem lineEnd_zero (entries : List E) : lineEnd entries 0 = 0 := by
  simp [lineEnd]

@[simp] theorem lineEnd_cons_succ (entry : E) (entries : List E) (count : Nat) :
    lineEnd (entry :: entries) (count + 1) =
      (line entry).length + lineEnd entries count := by
  simp [lineEnd]

theorem lineEnd_mono (entries : List E) {first second : Nat} (hle : first ≤ second) :
    lineEnd entries first ≤ lineEnd entries second := by
  obtain ⟨count, rfl⟩ := Nat.le.dest hle
  rw [lineEnd, lineEnd, List.take_add, List.flatMap_append, List.length_append]
  exact Nat.le_add_right _ _

theorem wholeLines_le_length (entries : List E) (size : Nat) :
    wholeLines entries size ≤ entries.length := by
  induction entries generalizing size with
  | nil => exact Nat.le_refl _
  | cons entry entries ih =>
      rw [wholeLines, List.length_cons]
      split
      next => exact Nat.succ_le_succ (ih _)
      next => exact Nat.zero_le _

theorem lineEnd_le_iff {entries : List E} {count size : Nat} (hcount : count ≤ entries.length) :
    lineEnd entries count ≤ size ↔ count ≤ wholeLines entries size := by
  induction entries generalizing count size with
  | nil =>
      obtain rfl : count = 0 := Nat.le_zero.mp hcount
      simp
  | cons entry entries ih =>
      cases count with
      | zero => simp
      | succ count =>
          have hrest := @ih count (size - (line entry).length) (by simpa using hcount)
          rw [lineEnd_cons_succ, wholeLines]
          split
          next => omega
          next => omega

/-- A journal cut off somewhere holds its whole lines and a first part of the
next one, without the line feed. -/
theorem take_records (entries : List E) (size : Nat) :
    ∃ tail, (entries.flatMap line).take size =
        (entries.take (wholeLines entries size)).flatMap line ++ tail ∧
      (tail = [] ∨ ∃ next : E, tail <+: text next) := by
  induction entries generalizing size with
  | nil => exact ⟨[], by simp, .inl rfl⟩
  | cons entry entries ih =>
      by_cases hwhole : (line entry).length ≤ size
      · obtain ⟨tail, htake, htail⟩ := ih (size - (line entry).length)
        refine ⟨tail, ?_, htail⟩
        rw [List.flatMap_cons, List.take_append, List.take_of_length_le hwhole, htake,
          wholeLines, if_pos hwhole]
        simp
      · -- The cut is in the first line, in front of its line feed.
        have htext : size ≤ (text entry).length := by
          rw [line_eq, List.length_append] at hwhole
          simpa using Nat.le_of_lt_succ (Nat.lt_of_not_le hwhole)
        refine ⟨(text entry).take size, ?_, .inr ⟨entry, List.take_prefix _ _⟩⟩
        rw [List.flatMap_cons, line_eq, List.append_assoc,
          List.take_append_of_le_length htext, wholeLines, if_neg hwhole]
        rfl

/-- Nothing follows the last whole line just when the cut is where a line
ends. -/
theorem tail_eq_nil_iff {entries : List E} {size : Nat} {tail : Bytes}
    (hsize : size ≤ (entries.flatMap line).length)
    (htake : (entries.flatMap line).take size =
      (entries.take (wholeLines entries size)).flatMap line ++ tail) :
    tail = [] ↔ ∃ count ≤ entries.length, lineEnd entries count = size := by
  have hlength : size = lineEnd entries (wholeLines entries size) + tail.length := by
    have hsame := congrArg List.length htake
    rwa [List.length_take, Nat.min_eq_left hsize, List.length_append] at hsame
  rw [← List.length_eq_zero_iff]
  constructor
  · intro hnone
    exact ⟨_, wholeLines_le_length entries size, by omega⟩
  · rintro ⟨count, hcount, hend⟩
    have hmono := lineEnd_mono entries ((lineEnd_le_iff hcount).mp (Nat.le_of_eq hend))
    omega

variable [TableEntry.Lawful E]

theorem text_unbroken (entry : E) : 0x0A ∉ text entry :=
  unbroken (ofEntry entry)

theorem text_ne_nil (entry : E) : text entry ≠ [] := by
  intro hempty
  have hread := parse?_render (ofEntry entry)
  rw [← text, hempty] at hread
  contradiction

theorem cutLines_records (entries : List E) {tail : Bytes} (htail : 0x0A ∉ tail) :
    cutLines (entries.flatMap line ++ tail) = (entries.map text, tail) := by
  rw [flatMap_line]
  apply cutLines_lines _ htail
  intro written hmem
  obtain ⟨entry, _, rfl⟩ := List.mem_map.mp hmem
  exact text_unbroken entry

theorem unbroken_of_torn {tail : Bytes} (htail : tail = [] ∨ ∃ next : E, tail <+: text next) :
    0x0A ∉ tail := by
  rcases htail with rfl | ⟨next, hpart⟩
  · exact List.not_mem_nil
  · exact fun hmem => text_unbroken next (hpart.subset hmem)

end Record

/-! ## Scanning -/

namespace Scan

variable {E : Type} [TableEntry E]

/-- Entries with the offsets just past their lines. -/
def placed (offset : Nat) : List E → List (E × Nat)
  | [] => []
  | entry :: entries =>
    (entry, offset + (Record.line entry).length) ::
      placed (offset + (Record.line entry).length) entries

@[simp] theorem map_fst_placed (offset : Nat) (entries : List E) :
    (placed offset entries).map (·.1) = entries := by
  induction entries generalizing offset with
  | nil => rfl
  | cons entry entries ih => rw [placed, List.map_cons, ih]

theorem valid_placed_from (offset : Nat) (entry : E) (entries : List E)
    (fault : Option ReadError) :
    valid ⟨placed offset (entry :: entries), fault⟩ =
      offset + ((entry :: entries).flatMap Record.line).length := by
  induction entries generalizing offset entry with
  | nil => simp [valid, placed]
  | cons next entries ih =>
      have hrest := ih (offset + (Record.line entry).length) next
      rw [List.flatMap_cons, List.length_append, ← Nat.add_assoc, ← hrest]
      simp [valid, placed]

@[simp] theorem valid_placed (entries : List E) (fault : Option ReadError) :
    valid ⟨placed 0 entries, fault⟩ = (entries.flatMap Record.line).length := by
  cases entries with
  | nil => rfl
  | cons entry entries => rw [valid_placed_from, Nat.zero_add]

variable [TableEntry.Lawful E]

theorem readLine_text (number : Nat) (entry : E) :
    readLine number (Record.text entry) = .ok entry := by
  rw [readLine, Record.text, Record.parse?_render]
  exact if_pos (Record.verify_ofEntry entry)

/-- Over the texts of records a scan goes on, whatever lines follow. -/
theorem walk_records (tail : Bytes) (failure : Option IoError) (number offset : Nat)
    (found : List (E × Nat)) (entries : List E) (rest : List Bytes) :
    walk tail failure number offset found (entries.map Record.text ++ rest) =
      walk tail failure (number + entries.length)
        (offset + (entries.flatMap Record.line).length)
        ((placed offset entries).reverse ++ found) rest := by
  induction entries generalizing number offset found with
  | nil => rfl
  | cons entry entries ih =>
      have hlength : offset + (Record.text entry).length + 1 =
          offset + (Record.line entry).length := by
        simp [Record.line_eq, Nat.add_assoc]
      rw [List.map_cons, List.cons_append, walk, readLine_text]
      dsimp only
      rw [ih, hlength, placed, List.flatMap_cons, List.length_append, List.length_cons,
        List.reverse_cons, List.append_assoc, Nat.add_assoc, Nat.add_assoc,
        Nat.add_comm 1]
      rfl

/-- A scan of records and a tail finds the records, and ends as the tail
says. -/
theorem ofReading_records (entries : List E) {tail : Bytes} (htail : 0x0A ∉ tail) :
    ofReading ⟨entries.flatMap Record.line ++ tail, none⟩ =
      ⟨placed 0 entries, ending (entries.length + 1) tail none⟩ := by
  have hwalk := walk_records tail none 1 0 [] entries []
  rw [List.append_nil, List.append_nil] at hwalk
  rw [ofReading, Record.cutLines_records entries htail]
  dsimp only
  rw [hwalk, walk, List.reverse_reverse, Nat.add_comm]

/-- A scan stops at a line that is no record, whatever follows it. -/
theorem ofReading_malformed (entries : List E) {line : Bytes} (hunbroken : 0x0A ∉ line)
    (hmalformed : Record.parse? line = (none : Option (Record E))) (rest : Bytes) :
    ofReading ⟨entries.flatMap Record.line ++ (line ++ [0x0A] ++ rest), none⟩ =
      ⟨placed 0 entries, some (.corrupted (entries.length + 1) .malformed)⟩ := by
  have htexts : ∀ text ∈ entries.map Record.text ++ [line], 0x0A ∉ text := by
    intro text hmem
    rcases List.mem_append.mp hmem with hmem | hmem
    · obtain ⟨entry, _, rfl⟩ := List.mem_map.mp hmem
      exact Record.text_unbroken entry
    · rwa [List.mem_singleton.mp hmem]
  have hlines : entries.flatMap Record.line ++ (line ++ [0x0A] ++ rest) =
      (entries.map Record.text ++ [line]).flatMap (· ++ [0x0A]) ++ rest := by
    rw [Record.flatMap_line, List.flatMap_append, List.flatMap_singleton]
    simp only [List.append_assoc]
  obtain ⟨more, tail, hcut⟩ :=
    cutLinesFrom_prefix ((entries.map Record.text ++ [line]).reverse ++ []) [] rest
  rw [ofReading, hlines, cutLines, cutLinesFrom_lines htexts, hcut]
  dsimp only
  rw [List.append_nil, List.reverse_reverse, List.append_assoc, walk_records,
    List.singleton_append, walk, readLine, hmalformed]
  simp [Nat.add_comm]

end Scan

end MessageStore
