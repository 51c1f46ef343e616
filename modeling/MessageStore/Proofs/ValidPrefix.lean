import MessageStore.Proofs.JournalLines

/-!
# The valid prefix of a journal

Any octets split into whole lines that hold records, and a rest whose first
line holds none: it is missing, does not end, or is no valid record.  A scan
finds the entries of these lines, says where the last of them ends, and finds
nothing in the rest.  What is put behind whole lines is scanned as if it stood
alone, only further on.
-/

namespace MessageStore

/-! ## Cutting any octets -/

theorem cutLinesFrom_eq (lines : List Bytes) (line rest : Bytes) :
    cutLinesFrom lines line rest =
      (lines.reverse ++ (cutLinesFrom [] line rest).1, (cutLinesFrom [] line rest).2) := by
  induction rest generalizing lines line with
  | nil => simp [cutLinesFrom]
  | cons octet rest ih =>
      rw [cutLinesFrom, cutLinesFrom]
      split
      next =>
        rw [ih (line.reverse :: lines), ih [line.reverse]]
        simp
      next => rw [ih lines]

theorem cutLines_line {text : Bytes} (hunbroken : 0x0A ∉ text) (rest : Bytes) :
    cutLines (text ++ [0x0A] ++ rest) = (text :: (cutLines rest).1, (cutLines rest).2) := by
  rw [cutLines, cutLinesFrom_line hunbroken, cutLinesFrom_eq]
  rfl

theorem cutLines_unbroken {tail : Bytes} (htail : 0x0A ∉ tail) : cutLines tail = ([], tail) := by
  have hcut := @cutLines_lines [] tail (fun _ hmem => absurd hmem List.not_mem_nil) htail
  simpa using hcut

/-- Octets have no line feed, or a first line. -/
theorem exists_first_line (bytes : Bytes) :
    0x0A ∉ bytes ∨ ∃ text rest, 0x0A ∉ text ∧ bytes = text ++ [0x0A] ++ rest := by
  by_cases hmem : 0x0A ∈ bytes
  · obtain ⟨text, rest, hsplit, hunbroken⟩ := List.eq_append_cons_of_mem hmem
    exact Or.inr ⟨text, rest, hunbroken, by simp [hsplit]⟩
  · exact Or.inl hmem

/-! ## Scanning from further on -/

/-- The same error so many lines further on. -/
def ReadError.shift (lines : Nat) : ReadError → ReadError
  | .corrupted line flaw => .corrupted (line + lines) flaw
  | .checksumMismatch line => .checksumMismatch (line + lines)
  | .io error => .io error

namespace Scan

variable {E : Type}

/-- The same scan from so many lines and octets further on. -/
def shift (lines octets : Nat) (scan : Scan E) : Scan E :=
  ⟨scan.entries.map fun found => (found.1, found.2 + octets), scan.fault.map (·.shift lines)⟩

@[simp] theorem shift_zero (scan : Scan E) : scan.shift 0 0 = scan := by
  obtain ⟨entries, fault⟩ := scan
  cases fault with
  | none => simp [shift]
  | some error => cases error <;> simp [shift, ReadError.shift]

theorem shift_shift (scan : Scan E) (lines octets others more : Nat) :
    (scan.shift lines octets).shift others more = scan.shift (lines + others) (octets + more) := by
  obtain ⟨entries, fault⟩ := scan
  cases fault with
  | none => simp [shift, Nat.add_assoc]
  | some error => cases error <;> simp [shift, ReadError.shift, Nat.add_assoc]

theorem shift_append (found : List (E × Nat)) (scan : Scan E) (lines octets : Nat) :
    shift lines octets ⟨found ++ scan.entries, scan.fault⟩ =
      ⟨(found.map fun entry => (entry.1, entry.2 + octets)) ++ (scan.shift lines octets).entries,
        (scan.shift lines octets).fault⟩ := by
  simp [shift]

variable [TableEntry E]

theorem readLine_shift (number lines : Nat) (line : Bytes) :
    (readLine (number + lines) line : Except ReadError E) =
      (readLine number line).mapError (·.shift lines) := by
  unfold readLine
  split
  next => rfl
  next => split <;> rfl

theorem ending_shift (number lines : Nat) (tail : Bytes) (failure : Option IoError) :
    ending (number + lines) tail failure = (ending number tail failure).map (·.shift lines) := by
  cases failure with
  | none =>
      simp only [ending]
      split <;> rfl
  | some error => rfl

/-- Where a walk starts, and what was found before, has no influence on what it
finds. -/
theorem walk_shift (tail : Bytes) (failure : Option IoError) (number offset lines octets : Nat)
    (found : List (E × Nat)) (rest : List Bytes) :
    walk tail failure (number + lines) (offset + octets) found rest =
      let onwards := (walk tail failure number offset [] rest).shift lines octets
      ⟨found.reverse ++ onwards.entries, onwards.fault⟩ := by
  induction rest generalizing number offset lines octets found with
  | nil => simp [walk, shift, ending_shift]
  | cons line rest ih =>
      simp only [walk, readLine_shift number lines line]
      cases (readLine number line : Except ReadError E) with
      | error error => simp [Except.mapError, shift]
      | ok entry =>
          dsimp only [Except.mapError]
          have hnumber : number + lines + 1 = number + 1 + lines := by omega
          have hoffset : offset + octets + line.length + 1 =
              offset + line.length + 1 + octets := by omega
          have hstart := ih (number + 1) (offset + line.length + 1) 0 0
            [(entry, offset + line.length + 1)]
          rw [shift_zero, Nat.add_zero, Nat.add_zero] at hstart
          rw [hnumber, hoffset, ih, hstart]
          simp [shift]

/-! ## Lines that hold records -/

/-- A line without its line feed that holds an entry with the checksum of its text. -/
def Spells (text : Bytes) (entry : E) : Prop :=
  ∃ record : Record E, Record.parse? text = some record ∧ record.entry = entry ∧
    record.checksum = Crc32.checksum (TableEntry.toJson entry).render

/-- What is wrong with the line of that number: it holds no record, or one whose
checksum is not that of its entry. -/
inductive Flawed (E : Type) [TableEntry E] (number : Nat) (text : Bytes) : ReadError → Prop
  | malformed (hparse : Record.parse? text = (none : Option (Record E))) :
      Flawed E number text (.corrupted number .malformed)
  | mismatch {record : Record E} (hparse : Record.parse? text = some record)
      (hchecksum : record.checksum ≠ Crc32.checksum (TableEntry.toJson record.entry).render) :
      Flawed E number text (.checksumMismatch number)

theorem readLine_spec (number : Nat) (text : Bytes) :
    match (readLine number text : Except ReadError E) with
    | .ok entry => Spells text entry
    | .error error => Flawed E number text error := by
  unfold readLine
  cases hparse : (Record.parse? text : Option (Record E)) with
  | none => exact .malformed hparse
  | some record =>
      by_cases hverify : Record.verify record = true
      · simp only [hverify, if_true]
        exact ⟨record, hparse, rfl, (of_decide_eq_true hverify).symm⟩
      · simp only [hverify, Bool.false_eq_true, if_false]
        exact .mismatch hparse fun hchecksum => hverify (decide_eq_true hchecksum.symm)

theorem spells_of_readLine {number : Nat} {text : Bytes} {entry : E}
    (hread : readLine number text = .ok entry) : Spells text entry := by
  simpa only [hread] using readLine_spec (E := E) number text

theorem flawed_of_readLine {number : Nat} {text : Bytes} {error : ReadError}
    (hread : (readLine number text : Except ReadError E) = .error error) :
    Flawed E number text error := by
  simpa only [hread] using readLine_spec (E := E) number text

theorem Spells.readLine {text : Bytes} {entry : E} (hspells : Spells text entry) (number : Nat) :
    readLine number text = .ok entry := by
  obtain ⟨record, hparse, rfl, hchecksum⟩ := hspells
  rw [Scan.readLine, hparse]
  exact if_pos (decide_eq_true hchecksum.symm)

/-- Octets that are whole lines, each of which holds an entry. -/
inductive Whole : Bytes → List E → Prop
  | nil : Whole [] []
  | line {text rest : Bytes} {entry : E} {entries : List E} (hunbroken : 0x0A ∉ text)
      (hspells : Spells text entry) (hrest : Whole rest entries) :
      Whole (text ++ [0x0A] ++ rest) (entry :: entries)

/-- No whole line that holds an entry stands in front of the octets. -/
def Stuck (E : Type) [TableEntry E] (bytes : Bytes) : Prop :=
  ∀ (text rest : Bytes) (entry : E), 0x0A ∉ text → bytes = text ++ [0x0A] ++ rest →
    ¬Spells text entry

/-- The entries of the whole lines in front of the first one that holds none. -/
def ValidPrefix (bytes : Bytes) (entries : List E) : Prop :=
  ∃ valid rest, bytes = valid ++ rest ∧ Whole valid entries ∧ Stuck E rest

theorem Whole.append {bytes more : Bytes} {entries others : List E}
    (hwhole : Whole bytes entries) (hmore : Whole more others) :
    Whole (bytes ++ more) (entries ++ others) := by
  induction hwhole with
  | nil => exact hmore
  | line hunbroken hspells _ ih =>
      rw [List.append_assoc, List.cons_append]
      exact .line hunbroken hspells ih

theorem stuck_nil : Stuck E [] := by
  intro text rest entry _ hnil
  simp at hnil

theorem stuck_of_unbroken {bytes : Bytes} (hunbroken : 0x0A ∉ bytes) : Stuck E bytes := by
  rintro text rest entry - rfl
  simp at hunbroken

theorem stuck_of_line {text : Bytes} (hunbroken : 0x0A ∉ text)
    (hbad : ∀ entry : E, ¬Spells text entry) (rest : Bytes) : Stuck E (text ++ [0x0A] ++ rest) := by
  intro other more entry hother hsplit hentry
  have hcut := cutLines_line hunbroken rest
  rw [hsplit, cutLines_line hother] at hcut
  have htext : other = text := List.head_eq_of_cons_eq (congrArg Prod.fst hcut)
  exact hbad entry (htext ▸ hentry)

theorem Whole.validPrefix {bytes : Bytes} {entries : List E} (hwhole : Whole bytes entries) :
    ValidPrefix bytes entries :=
  ⟨bytes, [], (List.append_nil _).symm, hwhole, stuck_nil⟩

/-- Any octets have a valid prefix. -/
theorem exists_validPrefix (E : Type) [TableEntry E] (bytes : Bytes) :
    ∃ entries : List E, ValidPrefix bytes entries := by
  rcases exists_first_line bytes with hunbroken | ⟨text, rest, hunbroken, hbytes⟩
  · exact ⟨[], [], bytes, rfl, .nil, stuck_of_unbroken hunbroken⟩
  · by_cases hspells : ∃ entry : E, Spells text entry
    · have hshorter : rest.length < bytes.length := by
        rw [hbytes]
        simp only [List.length_append, List.length_singleton]
        omega
      obtain ⟨entry, hspells⟩ := hspells
      obtain ⟨entries, valid, after, rfl, hwhole, hstuck⟩ := exists_validPrefix E rest
      refine ⟨entry :: entries, text ++ [0x0A] ++ valid, after, ?_,
        .line hunbroken hspells hwhole, hstuck⟩
      rw [hbytes]
      simp only [List.append_assoc]
    · refine ⟨[], [], bytes, rfl, .nil, ?_⟩
      rw [hbytes]
      exact stuck_of_line hunbroken (not_exists.mp hspells) rest
termination_by bytes.length

/-! ## What a scan finds -/

theorem ofReading_line {text : Bytes} {entry : E} (hunbroken : 0x0A ∉ text)
    (hspells : Spells text entry) (rest : Bytes) (failure : Option IoError) :
    ofReading ⟨text ++ [0x0A] ++ rest, failure⟩ =
      let onwards := (ofReading ⟨rest, failure⟩ : Scan E).shift 1 (text.length + 1)
      ⟨(entry, text.length + 1) :: onwards.entries, onwards.fault⟩ := by
  have hwalk := walk_shift (cutLines rest).2 failure 1 0 1 (text.length + 1)
    [(entry, 0 + text.length + 1)] (cutLines rest).1
  simp only [ofReading, cutLines_line hunbroken, walk, hspells.readLine]
  simp only [Nat.zero_add] at hwalk ⊢
  exact hwalk

theorem ofReading_nil : (ofReading ⟨[], none⟩ : Scan E) = ⟨[], none⟩ :=
  rfl

/-- Behind whole lines a scan goes on as if it had just begun. -/
theorem Whole.ofReading_append {bytes : Bytes} {entries : List E}
    (hwhole : Whole bytes entries) (rest : Bytes) (failure : Option IoError) :
    (ofReading ⟨bytes ++ rest, failure⟩ : Scan E) =
      let onwards := (ofReading ⟨rest, failure⟩ : Scan E).shift entries.length bytes.length
      ⟨(ofReading ⟨bytes, none⟩ : Scan E).entries ++ onwards.entries, onwards.fault⟩ := by
  induction hwhole with
  | nil =>
      dsimp only
      rw [List.nil_append, List.length_nil, List.length_nil, shift_zero, ofReading_nil]
      rfl
  | @line text more entry entries hunbroken hspells _ ih =>
      have hlength : (text ++ [0x0A] ++ more).length = more.length + (text.length + 1) := by
        simp only [List.length_append, List.length_singleton]
        omega
      rw [List.append_assoc, ofReading_line hunbroken hspells, ih,
        ofReading_line hunbroken hspells, hlength]
      dsimp only
      rw [shift_append, shift_shift]
      rfl

omit [TableEntry E] in
theorem valid_cons_shift (entry : E) (scan : Scan E) (fault : Option ReadError)
    (lines octets : Nat) :
    valid ⟨(entry, octets) :: (scan.shift lines octets).entries, fault⟩ =
      scan.valid + octets := by
  obtain ⟨entries, _⟩ := scan
  rcases List.eq_nil_or_concat entries with rfl | ⟨front, last, rfl⟩
  · simp [valid, shift]
  · simp [valid, shift, List.getLast?_cons]

theorem Whole.map_fst {bytes : Bytes} {entries : List E} (hwhole : Whole bytes entries) :
    (ofReading ⟨bytes, none⟩ : Scan E).entries.map (·.1) = entries := by
  induction hwhole with
  | nil => rfl
  | @line text more entry entries hunbroken hspells _ ih =>
      have hscan := ofReading_line hunbroken hspells more none
      rw [hscan, List.map_cons, shift, List.map_map]
      exact congrArg (entry :: ·) ih

theorem Whole.valid_eq {bytes : Bytes} {entries : List E} (hwhole : Whole bytes entries) :
    (ofReading ⟨bytes, none⟩ : Scan E).valid = bytes.length := by
  induction hwhole with
  | nil => rfl
  | @line text more entry entries hunbroken hspells _ ih =>
      rw [ofReading_line hunbroken hspells more none, valid_cons_shift, ih]
      simp only [List.length_append, List.length_singleton]
      omega

/-- What a scan has to say of octets that begin with no valid line: nothing if there
are none, or that the line of that number does not end or is flawed, whatever comes
behind it. -/
inductive Stops (E : Type) [TableEntry E] (number : Nat) : Bytes → Option ReadError → Prop
  | nothing : Stops E number [] none
  | truncated {tail : Bytes} (hunbroken : 0x0A ∉ tail) (htail : tail ≠ []) :
      Stops E number tail (some (.corrupted number .truncated))
  | flawed {text rest : Bytes} {error : ReadError} (hunbroken : 0x0A ∉ text)
      (hflawed : Flawed E number text error) :
      Stops E number (text ++ [0x0A] ++ rest) (some error)

theorem Stuck.ofReading {bytes : Bytes} (hstuck : Stuck E bytes) :
    (Scan.ofReading ⟨bytes, none⟩ : Scan E).entries = [] ∧
      Stops E 1 bytes (Scan.ofReading ⟨bytes, none⟩ : Scan E).fault := by
  rcases exists_first_line bytes with hunbroken | ⟨text, rest, hunbroken, rfl⟩
  · rw [Scan.ofReading, cutLines_unbroken hunbroken]
    refine ⟨rfl, ?_⟩
    simp only [walk, ending, List.isEmpty_iff]
    split
    next hnone => exact hnone ▸ .nothing
    next htail => exact .truncated hunbroken htail
  · rw [Scan.ofReading, cutLines_line hunbroken]
    simp only [walk]
    cases hread : (readLine 1 text : Except ReadError E) with
    | ok entry =>
        exact absurd (spells_of_readLine hread) (hstuck text rest entry hunbroken rfl)
    | error error => exact ⟨rfl, .flawed hunbroken (flawed_of_readLine hread)⟩

namespace Stops

variable {number : Nat} {bytes : Bytes} {fault : Option ReadError}

theorem ne_io (hstops : Stops E number bytes fault) (error : IoError) :
    fault ≠ some (.io error) := by
  cases hstops with
  | nothing => simp
  | truncated => simp
  | flawed _ hflawed => cases hflawed <;> simp

theorem eq_none_iff (hstops : Stops E number bytes fault) : fault = none ↔ bytes = [] := by
  cases hstops with
  | nothing => simp
  | truncated _ htail => simpa using htail
  | flawed => simp

theorem shift (hstops : Stops E number bytes fault) (lines : Nat) :
    Stops E (number + lines) bytes (fault.map (·.shift lines)) := by
  cases hstops with
  | nothing => exact .nothing
  | truncated hunbroken htail => exact .truncated hunbroken htail
  | flawed hunbroken hflawed =>
      cases hflawed with
      | malformed hparse => exact .flawed hunbroken (.malformed hparse)
      | mismatch hparse hchecksum => exact .flawed hunbroken (.mismatch hparse hchecksum)

end Stops

/-- What is stuck adds nothing to whole lines. -/
theorem Whole.entries_append {bytes rest : Bytes} {entries : List E}
    (hwhole : Whole bytes entries) (hstuck : Stuck E rest) :
    (ofReading ⟨bytes ++ rest, none⟩ : Scan E).entries =
      (ofReading ⟨bytes, none⟩ : Scan E).entries := by
  rw [hwhole.ofReading_append rest none]
  simp [shift, hstuck.ofReading.1]

theorem Whole.valid_append {bytes rest : Bytes} {entries : List E}
    (hwhole : Whole bytes entries) (hstuck : Stuck E rest) :
    (ofReading ⟨bytes ++ rest, none⟩ : Scan E).valid = bytes.length := by
  rw [← hwhole.valid_eq, Scan.valid, hwhole.entries_append hstuck, Scan.valid]

namespace ValidPrefix

variable {bytes : Bytes} {entries others : List E}

/-- A scan finds the entries of the valid prefix, and says where it ends. -/
theorem scan (hvalid : ValidPrefix bytes entries) :
    (ofReading ⟨bytes, none⟩ : Scan E).entries.map (·.1) = entries ∧
      (ofReading ⟨bytes, none⟩ : Scan E).valid ≤ bytes.length ∧
      Whole (bytes.take (ofReading ⟨bytes, none⟩ : Scan E).valid) entries := by
  obtain ⟨valid, rest, rfl, hwhole, hstuck⟩ := hvalid
  have hends := hwhole.valid_append hstuck
  refine ⟨?_, ?_, ?_⟩
  · rw [hwhole.entries_append hstuck, hwhole.map_fst]
  · rw [hends, List.length_append]
    exact Nat.le_add_right _ _
  · rw [hends, List.take_left]
    exact hwhole

theorem unique (hvalid : ValidPrefix bytes entries) (hother : ValidPrefix bytes others) :
    entries = others :=
  hvalid.scan.1.symm.trans hother.scan.1

theorem readValid (hvalid : ValidPrefix bytes entries) :
    Scan.readValid (ofReading ⟨bytes, none⟩ : Scan E) = .ok entries := by
  have hentries := hvalid.scan.1
  obtain ⟨valid, rest, rfl, hwhole, hstuck⟩ := hvalid
  have hfault : ∀ error, (ofReading ⟨valid ++ rest, none⟩ : Scan E).fault ≠
      some (.io error) := by
    intro error hio
    rw [hwhole.ofReading_append rest none] at hio
    obtain ⟨fault, hfault, hshift⟩ := Option.map_eq_some_iff.mp hio
    cases fault with
    | io other => exact hstuck.ofReading.2.ne_io other hfault
    | corrupted => contradiction
    | checksumMismatch => contradiction
  unfold Scan.readValid
  split
  next error hio => exact absurd hio (hfault error)
  next => rw [hentries]

end ValidPrefix

/-! ## The lines of entries -/

variable [TableEntry.Lawful E]

theorem whole_line (entry : E) : Whole (Record.line entry) [entry] := by
  have hline := Whole.line (Record.text_unbroken entry)
    (spells_of_readLine (readLine_text 1 entry)) Whole.nil
  rwa [List.append_nil] at hline

theorem whole_lines (entries : List E) : Whole (entries.flatMap Record.line) entries := by
  induction entries with
  | nil => exact .nil
  | cons entry entries ih =>
      rw [List.flatMap_cons]
      exact (whole_line entry).append ih

end Scan

end MessageStore
