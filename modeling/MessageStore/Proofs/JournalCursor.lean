import MessageStore.Journal.Cursor
import MessageStore.Proofs.LongestPrefix

/-!
# What a cursor hands out

Call by call a cursor hands out the entries of the whole lines in front, at most
one error, which names the line behind them, and then nothing, however often it is
called.  Lines and offsets are counted from where it began: behind whole lines it
goes on as if it had just begun, only further on.  A scan is what a cursor hands
out.
-/

namespace MessageStore

/-- The line that an error names. -/
def ReadError.line? : ReadError → Option Nat
  | .corrupted line _ => some line
  | .checksumMismatch line => some line
  | .io _ => none

/-- What a scan has found, in order, and what stopped it. -/
def Scan.items {E : Type} (scan : Scan E) : List (Except ReadError E) :=
  scan.entries.map (fun found => .ok found.1) ++ scan.fault.toList.map .error

/-! ## The first line -/

theorem firstLineFrom_unbroken {text : Bytes} (hunbroken : 0x0A ∉ text) (line rest : Bytes) :
    firstLineFrom line (text ++ rest) = firstLineFrom (text.reverse ++ line) rest := by
  induction text generalizing line with
  | nil => rfl
  | cons octet text ih =>
      rw [List.mem_cons, not_or] at hunbroken
      rw [List.cons_append, firstLineFrom, if_neg fun hfeed => hunbroken.1 hfeed.symm]
      rw [ih hunbroken.2, List.reverse_cons, List.append_assoc]
      rfl

theorem firstLine_line {text : Bytes} (hunbroken : 0x0A ∉ text) (rest : Bytes) :
    firstLine (text ++ [0x0A] ++ rest) = some (text, rest) := by
  rw [firstLine, List.append_assoc, firstLineFrom_unbroken hunbroken, List.append_nil,
    List.singleton_append, firstLineFrom, if_pos rfl, List.reverse_reverse]

theorem firstLine_unbroken {bytes : Bytes} (hunbroken : 0x0A ∉ bytes) :
    firstLine bytes = none := by
  have hline := firstLineFrom_unbroken hunbroken [] []
  rw [List.append_nil] at hline
  exact hline

namespace Cursor

variable {E : Type} [TableEntry E]

/-! ## One call -/

section

variable (cursor : Cursor) {line rest : Bytes} {entry : E} {error : ReadError}

theorem next_of_failed (hfailed : cursor.failed = true) :
    cursor.next (E := E) = (none, cursor) := by
  rw [next, if_pos hfailed]

theorem next_of_entry (hready : cursor.failed = false)
    (hline : firstLine cursor.left = some (line, rest))
    (hread : Scan.readLine (cursor.lines + 1) line = .ok entry) :
    cursor.next = (some (.ok entry), { cursor with
      left := rest
      position := cursor.position + line.length + 1
      lines := cursor.lines + 1
      valid := cursor.position + line.length + 1 }) := by
  simp only [next, hready, hline, hread, Bool.false_eq_true, if_false]

theorem next_of_fault (hready : cursor.failed = false)
    (hline : firstLine cursor.left = some (line, rest))
    (hread : (Scan.readLine (cursor.lines + 1) line : Except ReadError E) = .error error) :
    cursor.next (E := E) = (some (.error error), { cursor with
      left := rest
      position := cursor.position + line.length + 1
      lines := cursor.lines + 1
      failed := true }) := by
  simp only [next, hready, hline, hread, Bool.false_eq_true, if_false]

theorem next_of_ending (hready : cursor.failed = false) (hline : firstLine cursor.left = none)
    (hending : Scan.ending (cursor.lines + 1) cursor.left cursor.failure = some error) :
    cursor.next (E := E) = (some (.error error), { cursor with
      left := []
      position := cursor.position + cursor.left.length
      lines := cursor.lines + 1
      failed := true }) := by
  simp only [next, hready, hline, hending, Bool.false_eq_true, if_false]

theorem next_of_end (hready : cursor.failed = false) (hline : firstLine cursor.left = none)
    (hending : Scan.ending (cursor.lines + 1) cursor.left cursor.failure = none) :
    cursor.next (E := E) = (none, cursor) := by
  simp only [next, hready, hline, hending, Bool.false_eq_true, if_false]

end

/-! ## Calls in turn -/

variable (E) in
/-- The cursor after so many calls. -/
def after (calls : Nat) (cursor : Cursor) : Cursor :=
  (fun cursor => (cursor.next (E := E)).2)^[calls] cursor

/-- What the call after so many others hands out. -/
def answer (call : Nat) (cursor : Cursor) : Option (Except ReadError E) :=
  ((cursor.after E call).next).1

theorem after_succ (calls : Nat) (cursor : Cursor) :
    cursor.after E (calls + 1) = (cursor.next (E := E)).2.after E calls :=
  rfl

theorem answer_zero (cursor : Cursor) : cursor.answer 0 = (cursor.next (E := E)).1 :=
  rfl

theorem answer_succ (call : Nat) (cursor : Cursor) :
    cursor.answer (call + 1) =
      ((cursor.next (E := E)).2.answer call : Option (Except ReadError E)) :=
  rfl

theorem after_add (first second : Nat) (cursor : Cursor) :
    cursor.after E (first + second) = (cursor.after E first).after E second := by
  rw [after, Nat.add_comm, Function.iterate_add_apply]
  rfl

theorem answer_add (first second : Nat) (cursor : Cursor) :
    cursor.answer (first + second) =
      ((cursor.after E first).answer second : Option (Except ReadError E)) := by
  rw [answer, after_add]
  rfl

/-- A cursor that hands out nothing and stays as it is does so for ever. -/
theorem after_of_quiet {cursor : Cursor} (hquiet : cursor.next (E := E) = (none, cursor))
    (calls : Nat) : cursor.after E calls = cursor := by
  induction calls with
  | zero => rfl
  | succ calls ih => rw [after_succ, hquiet, ih]

theorem answer_of_quiet {cursor : Cursor} (hquiet : cursor.next (E := E) = (none, cursor))
    (call : Nat) : cursor.answer call = (none : Option (Except ReadError E)) := by
  rw [answer, after_of_quiet hquiet, hquiet]

/-! ## Further on -/

/-- The same cursor so many lines and octets further on. -/
def shift (lines octets : Nat) (cursor : Cursor) : Cursor :=
  { cursor with
    position := cursor.position + octets
    lines := cursor.lines + lines
    valid := cursor.valid + octets }

theorem shift_shift (cursor : Cursor) (lines octets others more : Nat) :
    (cursor.shift lines octets).shift others more =
      cursor.shift (lines + others) (octets + more) := by
  simp only [shift, Nat.add_assoc]

/-- What is handed out further on names its line further on. -/
def shiftItem (lines : Nat) (item : Except ReadError E) : Except ReadError E :=
  item.mapError (·.shift lines)

theorem next_shift (cursor : Cursor) (lines octets : Nat) :
    (cursor.shift lines octets).next (E := E) =
      (cursor.next.1.map (shiftItem lines), (cursor.next (E := E)).2.shift lines octets) := by
  have hcount : (cursor.shift lines octets).lines + 1 = cursor.lines + 1 + lines :=
    Nat.add_right_comm ..
  cases hfailed : cursor.failed with
  | true =>
      rw [next_of_failed cursor hfailed, next_of_failed (cursor.shift _ _) hfailed]
      rfl
  | false =>
      cases hline : firstLine cursor.left with
      | some found =>
          obtain ⟨line, rest⟩ := found
          have hshift := Scan.readLine_shift (E := E) (cursor.lines + 1) lines line
          cases hread : (Scan.readLine (cursor.lines + 1) line : Except ReadError E) with
          | ok entry =>
              rw [hread, ← hcount] at hshift
              rw [next_of_entry cursor hfailed hline hread,
                next_of_entry (cursor.shift _ _) hfailed hline hshift]
              simp [shift, shiftItem, Except.mapError, Nat.add_right_comm]
          | error error =>
              rw [hread, ← hcount] at hshift
              rw [next_of_fault cursor hfailed hline hread,
                next_of_fault (cursor.shift _ _) hfailed hline hshift]
              simp [shift, shiftItem, Except.mapError, Nat.add_right_comm]
      | none =>
          have hshift := Scan.ending_shift (cursor.lines + 1) lines cursor.left cursor.failure
          cases hending : Scan.ending (cursor.lines + 1) cursor.left cursor.failure with
          | some error =>
              rw [hending, ← hcount] at hshift
              rw [next_of_ending cursor hfailed hline hending,
                next_of_ending (cursor.shift _ _) hfailed hline hshift]
              simp [shift, shiftItem, Except.mapError, Nat.add_right_comm]
          | none =>
              rw [hending, ← hcount] at hshift
              rw [next_of_end cursor hfailed hline hending,
                next_of_end (cursor.shift _ _) hfailed hline hshift]
              rfl

theorem after_shift (calls : Nat) (cursor : Cursor) (lines octets : Nat) :
    (cursor.shift lines octets).after E calls = (cursor.after E calls).shift lines octets := by
  induction calls generalizing cursor with
  | zero => rfl
  | succ calls ih => rw [after_succ, after_succ, next_shift, ih]

theorem answer_shift (call : Nat) (cursor : Cursor) (lines octets : Nat) :
    (cursor.shift lines octets).answer call =
      (cursor.answer call).map (shiftItem lines : Except ReadError E → Except ReadError E) := by
  rw [answer, after_shift, next_shift]
  rfl

/-! ## Whole lines -/

section

variable {lines : Bytes} {entries : List E} (rest : Bytes) (failure : Option IoError)

theorem next_line {text : Bytes} {entry : E} (hunbroken : 0x0A ∉ text)
    (hspells : Scan.Spells text entry) :
    (ofReading ⟨text ++ [0x0A] ++ rest, failure⟩).next =
      (some (.ok entry), (ofReading ⟨rest, failure⟩).shift 1 (text.length + 1)) := by
  rw [next_of_entry (ofReading ⟨_, failure⟩) rfl (firstLine_line hunbroken rest)
    (hspells.readLine _)]
  simp [ofReading, shift]

/-- Behind whole lines a cursor goes on as if it had just begun. -/
theorem after_whole (hwhole : Scan.Whole lines entries) :
    (ofReading ⟨lines ++ rest, failure⟩).after E entries.length =
      (ofReading ⟨rest, failure⟩).shift entries.length lines.length := by
  induction hwhole with
  | nil => rfl
  | @line text more entry entries hunbroken hspells _ ih =>
      have hlength : (text ++ [0x0A] ++ more).length = more.length + (text.length + 1) := by
        simp only [List.length_append, List.length_singleton]
        omega
      rw [List.append_assoc, List.length_cons, after_succ,
        next_line (more ++ rest) failure hunbroken hspells, after_shift, ih, shift_shift, hlength]

theorem answer_whole (hwhole : Scan.Whole lines entries) {call : Nat} {entry : E}
    (hentry : entries[call]? = some entry) :
    (ofReading ⟨lines ++ rest, failure⟩).answer call = some (.ok entry) := by
  induction hwhole generalizing call with
  | nil => simp at hentry
  | @line text more first entries hunbroken hspells _ ih =>
      rw [List.append_assoc]
      cases call with
      | zero =>
          obtain rfl : first = entry := by simpa using hentry
          rw [answer_zero, next_line (more ++ rest) failure hunbroken hspells]
      | succ call =>
          rw [answer_succ, next_line (more ++ rest) failure hunbroken hspells, answer_shift,
            ih (by simpa using hentry)]
          rfl

/-- After each call the last valid record ends where the lines of the entries
handed out so far end. -/
theorem valid_whole (hwhole : Scan.Whole lines entries) {calls : Nat}
    (hcalls : calls ≤ entries.length) :
    ∃ front back, lines = front ++ back ∧ Scan.Whole front (entries.take calls) ∧
      ((ofReading ⟨lines ++ rest, failure⟩).after E calls).valid = front.length := by
  induction hwhole generalizing calls with
  | nil =>
      obtain rfl : calls = 0 := Nat.le_zero.mp hcalls
      exact ⟨[], [], rfl, .nil, rfl⟩
  | @line text more entry entries hunbroken hspells _ ih =>
      cases calls with
      | zero => exact ⟨[], _, rfl, .nil, rfl⟩
      | succ calls =>
          obtain ⟨front, back, rfl, hfront, hvalid⟩ := ih (Nat.le_of_succ_le_succ hcalls)
          refine ⟨text ++ [0x0A] ++ front, back, ?_, .line hunbroken hspells hfront, ?_⟩
          · simp only [List.append_assoc]
          · rw [List.append_assoc, after_succ, next_line _ failure hunbroken hspells, after_shift,
              shift]
            simp only [hvalid, List.length_append, List.length_singleton]
            omega

/-! ## What is no line of an entry -/

/-- In front of octets that begin with no valid line a cursor hands out what stops
a scan there, and then nothing. -/
theorem next_stuck {rest : Bytes} (hstuck : Scan.Stuck E rest) :
    ∃ later, (ofReading ⟨rest, failure⟩).next (E := E) =
        ((Scan.ofReading ⟨rest, failure⟩ : Scan E).fault.map .error, later) ∧
      later.valid = 0 ∧ later.next (E := E) = (none, later) := by
  rcases exists_first_line rest with hunbroken | ⟨text, more, hunbroken, rfl⟩
  · have hfault : (Scan.ofReading ⟨rest, failure⟩ : Scan E).fault =
        Scan.ending 1 rest failure := by
      rw [Scan.ofReading, cutLines_unbroken hunbroken]
      rfl
    rw [hfault]
    cases hending : Scan.ending 1 rest failure with
    | some error =>
        have hnext := next_of_ending (E := E) (ofReading ⟨rest, failure⟩) rfl
          (firstLine_unbroken hunbroken) hending
        exact ⟨_, hnext, rfl, next_of_failed _ rfl⟩
    | none =>
        have hend := next_of_end (E := E) (ofReading ⟨rest, failure⟩) rfl
          (firstLine_unbroken hunbroken) hending
        exact ⟨_, hend, rfl, hend⟩
  · cases hread : (Scan.readLine 1 text : Except ReadError E) with
    | ok entry =>
        exact absurd (Scan.spells_of_readLine hread) (hstuck text more entry hunbroken rfl)
    | error error =>
        have hfault : (Scan.ofReading ⟨text ++ [0x0A] ++ more, failure⟩ : Scan E).fault =
            some error := by
          rw [Scan.ofReading, cutLines_line hunbroken]
          simp only [Scan.walk, hread]
        rw [hfault]
        have hnext := next_of_fault (ofReading ⟨_, failure⟩) rfl (firstLine_line hunbroken more) hread
        exact ⟨_, hnext, rfl, next_of_failed _ rfl⟩

/-- Behind the entries the last valid record stays where their lines end. -/
theorem valid_behind (hwhole : Scan.Whole lines entries) (hstuck : Scan.Stuck E rest) {calls : Nat}
    (hcalls : entries.length ≤ calls) :
    ((ofReading ⟨lines ++ rest, failure⟩).after E calls).valid = lines.length := by
  obtain ⟨more, rfl⟩ := Nat.exists_eq_add_of_le hcalls
  obtain ⟨later, hnext, hvalid, hquiet⟩ := next_stuck failure hstuck
  have hstays : ((ofReading ⟨rest, failure⟩).after E more).valid = 0 := by
    cases more with
    | zero => rfl
    | succ more => rw [after_succ, hnext, after_of_quiet hquiet, hvalid]
  rw [after_add, after_whole rest failure hwhole, after_shift, shift, hstays, Nat.zero_add]

end

end Cursor

/-! ## A scan is what a cursor hands out -/

namespace Scan

variable {E : Type} [TableEntry E] {lines rest : Bytes} {entries : List E}

theorem Stops.line? {number : Nat} {error : ReadError}
    (hstops : Stops E number rest (some error)) : error.line? = some number := by
  cases hstops with
  | truncated => rfl
  | flawed _ hflawed => cases hflawed <;> rfl

/-- Behind whole lines stands what a scan finds of the rest, if that begins with no
valid line. -/
theorem Whole.items_ofReading (hwhole : Whole lines entries) (hstuck : Stuck E rest)
    (failure : Option IoError) :
    (ofReading ⟨lines ++ rest, failure⟩ : Scan E).items =
      entries.map .ok ++ ((ofReading ⟨rest, failure⟩ : Scan E).fault.map
        (·.shift entries.length)).toList.map .error := by
  have hvalid : ValidPrefix (lines ++ rest) entries := ⟨lines, rest, rfl, hwhole, hstuck⟩
  have hentries : (ofReading ⟨lines ++ rest, failure⟩ : Scan E).entries.map (·.1) = entries := by
    rw [entries_ofReading, ← hvalid.validEntries_eq]
    rfl
  have hfault : (ofReading ⟨lines ++ rest, failure⟩ : Scan E).fault =
      (ofReading ⟨rest, failure⟩ : Scan E).fault.map (·.shift entries.length) :=
    congrArg Scan.fault (hwhole.ofReading_append rest failure)
  rw [items, hfault]
  generalize (ofReading ⟨lines ++ rest, failure⟩ : Scan E).entries = found at hentries
  rw [← hentries, List.map_map, List.length_map]
  rfl

end Scan

namespace Cursor

variable {E : Type} [TableEntry E]

/-- Call by call a cursor hands out what a scan finds, and nothing after that. -/
theorem answer_eq_items (reading : Reading) (call : Nat) :
    (ofReading reading).answer call = (Scan.ofReading reading : Scan E).items[call]? := by
  obtain ⟨bytes, failure⟩ := reading
  obtain ⟨entries, lines, rest, rfl, hwhole, hstuck⟩ := Scan.exists_validPrefix E bytes
  rw [hwhole.items_ofReading hstuck failure]
  rcases Nat.lt_or_ge call entries.length with hinside | hbehind
  · have hentry : entries[call]? = some entries[call] := List.getElem?_eq_getElem hinside
    rw [answer_whole rest failure hwhole hentry, List.getElem?_append_left (by simpa using hinside),
      List.getElem?_map, hentry]
    rfl
  · obtain ⟨more, rfl⟩ := Nat.exists_eq_add_of_le hbehind
    obtain ⟨later, hnext, -, hquiet⟩ := next_stuck failure hstuck
    rw [answer_add, after_whole rest failure hwhole, answer_shift,
      List.getElem?_append_right (by simp), List.length_map, Nat.add_sub_cancel_left]
    cases more with
    | zero =>
        rw [answer_zero, hnext]
        cases (Scan.ofReading ⟨rest, failure⟩ : Scan E).fault <;> rfl
    | succ more =>
        rw [answer_succ, hnext, answer_of_quiet hquiet]
        cases (Scan.ofReading ⟨rest, failure⟩ : Scan E).fault <;> rfl

theorem next_eq_none {cursor later : Cursor} (hnext : cursor.next (E := E) = (none, later)) :
    later = cursor := by
  unfold next at hnext
  split at hnext
  next => exact (Prod.mk.inj hnext).2.symm
  next =>
    split at hnext
    next =>
      dsimp only at hnext
      split at hnext <;> simp at hnext
    next =>
      split at hnext
      next => simp at hnext
      next => exact (Prod.mk.inj hnext).2.symm

/-- A run to the end collects what the calls hand out one by one. -/
theorem getElem?_items (cursor : Cursor) (call : Nat) :
    ((cursor.items (E := E)).1.map (·.1))[call]? = cursor.answer call := by
  fun_induction items (E := E) cursor generalizing call with
  | case1 cursor later hnext =>
      obtain rfl := next_eq_none hnext
      rw [answer_of_quiet hnext]
      rfl
  | case2 cursor item later hnext rest last hitems ih =>
      rw [hitems] at ih
      cases call with
      | zero => rw [answer_zero, hnext]; rfl
      | succ call => rw [answer_succ, hnext, ← ih]; rfl

theorem items_ofReading (reading : Reading) :
    ((ofReading reading).items (E := E)).1.map (·.1) = (Scan.ofReading reading).items :=
  List.ext_getElem? fun call => by rw [getElem?_items, answer_eq_items]

end Cursor

/-- A journal that can be opened for reading is scanned as its cursor reads it. -/
theorem Journal.scan_of_records {E : Type} [TableEntry E] {volume later : Volume}
    {path : String} {cursor : Cursor} (hrecords : records volume path = (.ok cursor, later)) :
    ∃ reading, cursor = .ofReading reading ∧
      scan (E := E) volume path = (.ok (.ofReading reading), later) := by
  unfold records at hrecords
  unfold scan
  cases hread : volume.read path with
  | mk result after =>
      simp only [hread] at hrecords ⊢
      cases result with
      | ok reading =>
          simp only [Prod.mk.injEq, Except.ok.injEq] at hrecords
          obtain ⟨rfl, rfl⟩ := hrecords
          exact ⟨reading, rfl, rfl⟩
      | error error =>
          simp only at hrecords ⊢
          split at hrecords
          next hmissing =>
            simp only [Prod.mk.injEq, Except.ok.injEq] at hrecords
            obtain ⟨rfl, rfl⟩ := hrecords
            exact ⟨⟨[], none⟩, rfl, if_pos hmissing⟩
          next => simp at hrecords

namespace Cursor

/-- A cursor in front of a journal that is read without failure. -/
def start (bytes : Bytes) : Cursor :=
  ofReading ⟨bytes, none⟩

section

variable {E : Type} [TableEntry E] {bytes : Bytes} {entries : List E}

/-- What a journal holds, as its cursor tells it call by call: so many octets of
lines in front, their entries, and perhaps what is wrong behind them. -/
structure Tells (bytes : Bytes) (size : Nat) (entries : List E) (fault : Option ReadError) :
    Prop where
  /-- The octets are the longest prefix of whole lines. -/
  longest : Scan.LongestWhole bytes size entries
  /-- The entries come in order, then the fault, then nothing. -/
  answers : ∀ call, (start bytes).answer call =
    (entries.map .ok ++ fault.toList.map .error)[call]?
  /-- A run to the end comes to an end with all that. -/
  run : ((start bytes).items (E := E)).1.map (·.1) = entries.map .ok ++ fault.toList.map .error
  /-- The fault names the line behind those of the entries. -/
  line : ∀ error ∈ fault, error.line? = some (entries.length + 1)
  faulty : fault.isSome ↔ bytes.take size ≠ bytes
  /-- What is wrong with that line is said as it is: it does not end, it holds no
  record, or one with another checksum than that of its entry. -/
  stops : Scan.Stops E (entries.length + 1) (bytes.drop size) fault
  /-- After each call the last valid record ends where the lines of the entries
  handed out by then end. -/
  whole : ∀ calls,
    Scan.Whole (bytes.take ((start bytes).after E calls).valid) (entries.take calls)
  valid : ∀ calls, entries.length ≤ calls → ((start bytes).after E calls).valid = size
  /-- A scan tells the same. -/
  scanned : (Scan.ofReading ⟨bytes, none⟩ : Scan E).entries.map (·.1) = entries ∧
    (Scan.ofReading ⟨bytes, none⟩ : Scan E).fault = fault ∧
    (Scan.ofReading ⟨bytes, none⟩ : Scan E).valid = size

theorem whole_take_valid {lines : Bytes} (hwhole : Scan.Whole lines entries) {rest : Bytes}
    (hstuck : Scan.Stuck E rest) (calls : Nat) :
    Scan.Whole ((lines ++ rest).take ((start (lines ++ rest)).after E calls).valid)
      (entries.take calls) := by
  rcases Nat.le_total calls entries.length with hinside | hbehind
  · obtain ⟨front, back, rfl, hfront, hvalid⟩ := valid_whole rest none hwhole hinside
    rwa [start, hvalid, List.append_assoc, List.take_left]
  · rwa [start, valid_behind rest none hwhole hstuck hbehind, List.take_left,
      List.take_of_length_le hbehind]

theorem exists_tells (bytes : Bytes) :
    ∃ (size : Nat) (entries : List E) (fault : Option ReadError),
      Tells bytes size entries fault := by
  obtain ⟨entries, lines, rest, rfl, hwhole, hstuck⟩ := Scan.exists_validPrefix E bytes
  have hitems := hwhole.items_ofReading hstuck none
  have hfault : (Scan.ofReading ⟨lines ++ rest, none⟩ : Scan E).fault =
      (Scan.ofReading ⟨rest, none⟩ : Scan E).fault.map (·.shift entries.length) :=
    congrArg Scan.fault (hwhole.ofReading_append rest none)
  have hstops := hstuck.ofReading.2.shift entries.length
  rw [Nat.add_comm] at hstops
  refine ⟨lines.length, entries,
    (Scan.ofReading ⟨rest, none⟩ : Scan E).fault.map (·.shift entries.length), ?_⟩
  refine {
    longest := .of_stuck hwhole hstuck
    answers := fun call => by rw [start, answer_eq_items, hitems]
    run := by rw [start, items_ofReading, hitems]
    line := fun error herror => (Option.mem_def.mp herror ▸ hstops).line?
    faulty := ?faulty
    stops := by rwa [List.drop_left]
    whole := whole_take_valid hwhole hstuck
    valid := fun calls => valid_behind rest none hwhole hstuck
    scanned := ⟨?entries, hfault, hwhole.valid_append hstuck⟩ }
  case faulty =>
    rw [Option.isSome_iff_ne_none, ne_eq, hstops.eq_none_iff, List.take_left, ne_eq,
      List.self_eq_append_right]
  case entries =>
    exact Scan.ValidPrefix.validEntries_eq ⟨lines, rest, rfl, hwhole, hstuck⟩

end

/-- Whatever octets a journal holds, a cursor hands out the entries of the longest
prefix of whole lines and, unless that is all of the journal, one error that names
the line behind it and says what is wrong with it; then it hands out nothing,
however often it is called.

Behind whole lines a cursor hands out what it would hand out if it had just begun,
so many lines and octets further on. -/
theorem journals_are_read_exactly (E : Type) [TableEntry E] (bytes : Bytes) :
    (∃ (size : Nat) (entries : List E) (fault : Option ReadError),
      Tells bytes size entries fault) ∧
    ∀ (lines : Bytes) (entries : List E), Scan.Whole lines entries →
      (∀ call entry, entries[call]? = some entry →
        (start (lines ++ bytes)).answer call = some (.ok entry)) ∧
      ∀ call,
        (start (lines ++ bytes)).answer (entries.length + call) =
          ((start bytes).answer call).map
            (shiftItem entries.length : Except ReadError E → Except ReadError E) ∧
        ((start (lines ++ bytes)).after E (entries.length + call)).valid =
          ((start bytes).after E call).valid + lines.length := by
  refine ⟨exists_tells bytes, fun lines entries hwhole => ⟨fun call entry hentry => ?_,
    fun call => ?_⟩⟩
  · exact answer_whole bytes none hwhole hentry
  · rw [start, answer_add, after_add, after_whole bytes none hwhole, answer_shift, after_shift]
    exact ⟨rfl, rfl⟩

/-- Two records and a third one cut short. -/
theorem reads_torn_journal :
    let first : MessageEntry := ⟨⟨"jobs", "mail"⟩, false, none, some [1], ⟨7, 0⟩⟩
    let second : MessageEntry := ⟨⟨"jobs", "mail"⟩, true, some 3, none, ⟨7, 1⟩⟩
    let lines := [first, second].flatMap Record.line
    let journal := start (lines ++ [0x7B])
    journal.answer 0 = some (.ok first) ∧ journal.answer 1 = some (.ok second) ∧
      journal.answer 2 = some (.error (.corrupted 3 .truncated) : Except ReadError MessageEntry) ∧
      journal.answer 3 = (none : Option (Except ReadError MessageEntry)) ∧
      (journal.after MessageEntry 3).valid = lines.length := by
  intro first second lines journal
  have hread := (journals_are_read_exactly MessageEntry [0x7B]).2 lines [first, second]
    (Scan.whole_lines [first, second])
  have htorn : (start [0x7B]).answer 0 =
      some (.error (.corrupted 1 .truncated) : Except ReadError MessageEntry) := rfl
  have hend : (start [0x7B]).answer 1 = (none : Option (Except ReadError MessageEntry)) := rfl
  refine ⟨hread.1 0 first rfl, hread.1 1 second rfl, ?_, ?_, (hread.2 1).2.trans ?_⟩
  · exact (hread.2 0).1.trans (congrArg (Option.map _) htorn)
  · exact (hread.2 1).1.trans (congrArg (Option.map _) hend)
  · exact Nat.zero_add _

end Cursor
end MessageStore
