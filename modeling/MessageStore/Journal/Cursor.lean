import MessageStore.Journal.Basic

/-!
# Reading a journal record by record

A cursor hands out the entries of a journal one at a time, and remembers where
the last valid record ended.  What it cannot read as a record it hands out as an
error, and nothing after that.  At the end of the journal there is nothing more.
-/

namespace MessageStore

/-- The first line that ends, without its line feed, and what follows it.  The
line so far is kept last first. -/
def firstLineFrom (line : Bytes) : Bytes → Option (Bytes × Bytes)
  | [] => none
  | octet :: rest =>
    if octet = 0x0A then some (line.reverse, rest) else firstLineFrom (octet :: line) rest

def firstLine (bytes : Bytes) : Option (Bytes × Bytes) :=
  firstLineFrom [] bytes

theorem length_of_firstLineFrom {bytes line text rest : Bytes}
    (hline : firstLineFrom line bytes = some (text, rest)) : rest.length < bytes.length := by
  induction bytes generalizing line with
  | nil => contradiction
  | cons octet bytes ih =>
      rw [firstLineFrom] at hline
      split at hline
      next =>
        cases hline
        exact Nat.lt_succ_self _
      next => exact Nat.lt_succ_of_lt (ih hline)

structure Cursor where
  /-- What is still to be read. -/
  left : Bytes
  /-- What keeps the cursor from reading on behind that. -/
  failure : Option IoError
  /-- The octets read so far. -/
  position : Nat := 0
  /-- The lines read so far. -/
  lines : Nat := 0
  /-- The offset just past the last valid record. -/
  valid : Nat := 0
  /-- Whether an error was handed out. -/
  failed : Bool := false
  deriving DecidableEq, Repr

namespace Cursor

def ofReading (reading : Reading) : Cursor :=
  { left := reading.bytes, failure := reading.failure }

variable {E : Type} [TableEntry E]

/-- Reads one line and hands out its entry, or what is wrong with it. -/
def next (cursor : Cursor) : Option (Except ReadError E) × Cursor :=
  if cursor.failed then (none, cursor)
  else
    match firstLine cursor.left with
    | some (line, rest) =>
      let cursor := { cursor with
        left := rest
        position := cursor.position + line.length + 1
        lines := cursor.lines + 1 }
      match Scan.readLine cursor.lines line with
      | .ok entry => (some (.ok entry), { cursor with valid := cursor.position })
      | .error error => (some (.error error), { cursor with failed := true })
    | none =>
      match Scan.ending (cursor.lines + 1) cursor.left cursor.failure with
      | some error =>
        (some (.error error), { cursor with
          left := []
          position := cursor.position + cursor.left.length
          lines := cursor.lines + 1
          failed := true })
      | none => (none, cursor)

/-- How many calls can still hand out something. -/
def bound (cursor : Cursor) : Nat :=
  if cursor.failed then 0 else cursor.left.length + 1

theorem bound_le (cursor : Cursor) : cursor.bound ≤ cursor.left.length + 1 := by
  unfold bound
  split <;> omega

theorem bound_of_next {cursor later : Cursor} {item : Except ReadError E}
    (hnext : cursor.next = (some item, later)) : later.bound < cursor.bound := by
  unfold next at hnext
  split at hnext
  next => simp at hnext
  next hready =>
    have hbound : cursor.bound = cursor.left.length + 1 := if_neg hready
    split at hnext
    next line rest hline =>
      have hshorter : rest.length < cursor.left.length := length_of_firstLineFrom hline
      dsimp only at hnext
      split at hnext
      next =>
        obtain rfl := (Prod.mk.inj hnext).2
        exact hbound ▸ Nat.lt_of_le_of_lt (bound_le _) (Nat.succ_lt_succ hshorter)
      next =>
        obtain rfl := (Prod.mk.inj hnext).2
        exact hbound ▸ Nat.succ_pos _
    next =>
      split at hnext
      next =>
        obtain rfl := (Prod.mk.inj hnext).2
        exact hbound ▸ Nat.succ_pos _
      next => simp at hnext

/-- Goes on as long as something is handed out: all that, each with the offset
just past the last valid record by then, and the cursor at the end. -/
def items (cursor : Cursor) : List (Except ReadError E × Nat) × Cursor :=
  match _ : cursor.next (E := E) with
  | (none, later) => ([], later)
  | (some item, later) =>
    let (rest, last) := items later
    ((item, later.valid) :: rest, last)
termination_by cursor.bound
decreasing_by exact bound_of_next ‹_›

end Cursor

/-- Opens the journal at a path for reading.  A missing one has no records. -/
def Journal.records (volume : Volume) (path : String) : Except ReadError Cursor × Volume :=
  match volume.read path with
  | (.ok reading, volume) => (.ok (.ofReading reading), volume)
  | (.error error, volume) =>
    if error.kind = .notFound then (.ok (.ofReading ⟨[], none⟩), volume)
    else (.error (.io error), volume)

end MessageStore
