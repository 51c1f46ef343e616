import MessageStore.Proofs.DeliveryLedger
import MessageStore.Proofs.DeliveryPositions

/-!
# Physical writes

Each call of a greedy table takes the next positions of one timestamp, one after
the other, and it ends early only when there are no more entries.  So within one
batch every call but the last uses up its timestamp, and a timestamp has to be
filled for every call beyond one for each batch.
-/

namespace MessageStore

/-! ## How far the positions of a timestamp have got -/

namespace Position

variable {timestamp : UInt64} {first count : Nat}

theorem row_append (more : Nat) :
    row timestamp first count ++ row timestamp (first + count) more =
      row timestamp first (count + more) := by
  rw [row, row, ← List.map_append, List.range'_append_1, row]

theorem filter_row :
    (row timestamp first count).filter (·.timestamp = timestamp) =
      row timestamp first count := by
  refine List.filter_eq_self.mpr fun position hmem => ?_
  obtain ⟨id, _, rfl⟩ := List.mem_map.mp hmem
  exact decide_eq_true rfl

/-- The sequence id behind the last one used at a timestamp. -/
def nextAt (positions : List Position) (timestamp : UInt64) : Nat :=
  match (positions.filter (·.timestamp = timestamp)).getLast? with
  | some last => last.sequence.toNat + 1
  | none => 0

theorem nextAt_eq {positions : List Position} {next : Nat} (hnext : next ≤ Sequencer.limit)
    (hrow : positions.filter (·.timestamp = timestamp) = row timestamp 0 next) :
    nextAt positions timestamp = next := by
  rw [nextAt, hrow]
  cases next with
  | zero => rfl
  | succ next =>
      have hid : next.toUInt16.toNat = next := UInt16.toNat_ofNat_of_lt' hnext
      rw [row_succ, List.getLast?_concat, Nat.zero_add]
      exact congrArg (· + 1) hid

end Position

namespace Sequencer

variable {sequencer : Sequencer} {positions : List Position}

/-- The positions that a call has taken stand behind those taken before. -/
theorem Fills.nextAt_front {current : List Position} {first : Nat}
    (hfills : sequencer.Fills (positions ++ current)) (hle : sequencer.next ≤ limit)
    (hnext : sequencer.next = first + current.length)
    (hrow : current = Position.row sequencer.timestamp first current.length) :
    Position.nextAt positions sequencer.timestamp = first := by
  have hcurrent : current.filter (·.timestamp = sequencer.timestamp) = current := by
    rw [hrow, Position.filter_row]
  rw [Fills, List.filter_append, hcurrent, hnext, ← Position.row_append, Nat.zero_add,
    ← hrow] at hfills
  exact Position.nextAt_eq (by omega) (List.append_cancel_right hfills)

end Sequencer

/-! ## Calls laid out -/

namespace StoreCall

variable {E : Type}

/-- How many entries the calls have been handed. -/
def total (calls : List (StoreCall E)) : Nat :=
  (calls.map (·.handed.length)).sum

@[simp] theorem total_append (calls others : List (StoreCall E)) :
    total (calls ++ others) = total calls + total others := by
  simp [total]

@[simp] theorem total_singleton (call : StoreCall E) : total [call] = call.handed.length := by
  simp [total]

variable [TableEntry E]

/-- Where the entries of the calls stand, call by call. -/
def positions (calls : List (StoreCall E)) : List Position :=
  calls.flatMap fun call => call.handed.map HandedEntry.position

@[simp] theorem positions_append (calls others : List (StoreCall E)) :
    positions (calls ++ others) = positions calls ++ positions others :=
  List.flatMap_append

@[simp] theorem positions_singleton (call : StoreCall E) :
    positions [call] = call.handed.map HandedEntry.position := by
  simp [positions]

theorem positions_eq_map (calls : List (StoreCall E)) :
    positions calls = (calls.flatMap handed).map HandedEntry.position :=
  List.map_flatMap.symm

/-- Whether the call has used up its timestamp. -/
def isFull (call : StoreCall E) : Bool :=
  call.handed.getLast?.map (·.position.sequence) = some 65535

/-- A call that takes positions in a row uses up their timestamp if the row goes
as far as that. -/
theorem isFull_iff_of_row {call : StoreCall E} {timestamp : UInt64} {first : Nat}
    (hentries : call.handed ≠ [])
    (hrow : call.handed.map HandedEntry.position =
      Position.row timestamp first call.handed.length)
    (hroom : first + call.handed.length ≤ Sequencer.limit) :
    call.isFull = true ↔ first + call.handed.length = Sequencer.limit := by
  obtain ⟨count, hcount⟩ := Nat.exists_eq_succ_of_ne_zero
    (fun hzero => hentries (List.length_eq_zero_iff.mp hzero))
  have hlast : call.handed.getLast?.map (·.position.sequence) =
      some (first + count).toUInt16 := by
    have hmap : call.handed.getLast?.map (·.position.sequence) =
        (call.handed.map HandedEntry.position).getLast?.map (·.sequence) := by
      rw [List.getLast?_map, Option.map_map]
      rfl
    rw [hmap, hrow, hcount, Position.row_succ, List.getLast?_concat, Option.map_some]
  have hid : (first + count).toUInt16.toNat = first + count := by
    apply UInt16.toNat_ofNat_of_lt'
    rw [hcount] at hroom
    exact hroom
  rw [isFull, hlast, decide_eq_true_eq, Option.some.injEq, ← UInt16.toNat_inj, hid, hcount]
  exact Nat.succ_inj.symm

/-- Calls each of which takes positions in a row, behind the last one that calls
before it have taken at the same timestamp. -/
inductive LaidOut : List (StoreCall E) → Prop
  | nil : LaidOut []
  | snoc {calls : List (StoreCall E)} {call : StoreCall E} {timestamp : UInt64}
      (hcalls : LaidOut calls) (hentries : call.handed ≠ [])
      (hrow : positions [call] = Position.row timestamp
        (Position.nextAt (positions calls) timestamp) call.handed.length)
      (hroom : Position.nextAt (positions calls) timestamp + call.handed.length ≤
        Sequencer.limit) : LaidOut (calls ++ [call])

theorem LaidOut.of_split {calls front back : List (StoreCall E)} {call : StoreCall E}
    (hlaid : LaidOut calls) (hsplit : calls = front ++ call :: back) :
    call.handed ≠ [] ∧ ∃ timestamp,
      positions [call] = Position.row timestamp
        (Position.nextAt (positions front) timestamp) call.handed.length ∧
      Position.nextAt (positions front) timestamp + call.handed.length ≤ Sequencer.limit := by
  induction hlaid generalizing back with
  | nil => simp at hsplit
  | @snoc calls last timestamp hcalls hentries hrow hroom ih =>
      rcases List.eq_nil_or_concat back with rfl | ⟨between, final, rfl⟩
      · obtain ⟨rfl, hlast⟩ := List.append_inj' hsplit rfl
        obtain rfl := List.singleton_inj.mp hlast
        exact ⟨hentries, timestamp, hrow, hroom⟩
      · rw [List.concat_eq_append, ← List.cons_append, ← List.append_assoc] at hsplit
        exact ih (List.append_inj' hsplit rfl).1

/-- If all but the last of them use up a timestamp, calls are at most one more than
the timestamps that they use up. -/
theorem length_le_of_dropLast {calls : List (StoreCall E)}
    (hfull : ∀ call ∈ calls.dropLast, call.isFull = true) :
    calls.length ≤ 1 + calls.countP isFull := by
  rcases List.eq_nil_or_concat calls with rfl | ⟨front, last, rfl⟩
  · exact Nat.zero_le _
  · rw [List.concat_eq_append] at hfull ⊢
    rw [List.dropLast_concat] at hfull
    have hcount : front.countP isFull = front.length := List.countP_eq_length.mpr hfull
    rw [List.length_append, List.countP_append, hcount, List.length_singleton]
    omega

theorem length_flatten_le {writes : List (List (StoreCall E))}
    (hfull : ∀ calls ∈ writes, ∀ call ∈ calls.dropLast, call.isFull = true) :
    writes.flatten.length ≤ writes.length + writes.flatten.countP isFull := by
  induction writes with
  | nil => exact Nat.zero_le _
  | cons calls writes ih =>
      have hfirst := length_le_of_dropLast (hfull calls List.mem_cons_self)
      have hrest := ih fun others hmem => hfull others (List.mem_cons_of_mem _ hmem)
      rw [List.flatten_cons, List.length_append, List.countP_append, List.length_cons]
      omega

end StoreCall

/-! ## The calls of a delivery -/

/-- How many entries the call under way may still take; none outside a call. -/
def Phase.budget? : Phase → Option Nat
  | .offering budget | .drawing budget => some budget
  | _ => none

namespace Chronicle

variable {σ E : Type} [TableEntry E] {table : Table σ E} {shape : Shape E}
  {past : List (StoreCall E)} {earlier : List (HandedEntry E)} {first : Nat}
  {before later : Chronicle σ E}

/-- No call comes any more. -/
def Done (chronicle : Chronicle σ E) : Prop :=
  chronicle.delivery.ahead = [] ∧ chronicle.delivery.phase ≠ .refreshing ∧
    chronicle.delivery.phase.budget? = none

omit [TableEntry E] in
theorem Done.move (hmove : Move table shape before later) (hdone : before.Done) :
    later.Done ∧ later.calls = before.calls := by
  obtain ⟨hahead, hphase, hbudget⟩ := hdone
  cases hmove with
  | seekEnd => exact ⟨⟨hahead, Phase.noConfusion, rfl⟩, rfl⟩
  | settle => exact ⟨⟨hahead, Phase.noConfusion, rfl⟩, rfl⟩
  | afterWrite =>
      refine ⟨?_, rfl⟩
      unfold Done Delivery.afterWrite
      split
      next => exact ⟨hahead, Phase.noConfusion, rfl⟩
      next => exact ⟨by rw [hahead], Phase.noConfusion, rfl⟩
  | abandonEnd => exact ⟨⟨hahead, Phase.noConfusion, rfl⟩, rfl⟩
  | stay => exact ⟨⟨hahead, hphase, hbudget⟩, rfl⟩
  | seekReady _ hcons | pass _ hcons | draw _ hcons | abandon _ hcons =>
      rw [hahead] at hcons
      contradiction
  | refresh hrefreshing | wait hrefreshing => exact absurd hrefreshing hphase
  | ask hoffering =>
      rw [hoffering] at hbudget
      contradiction
  | finish hending =>
      rcases hending with ⟨_, hoffering, _⟩ | ⟨_, hdrawing, _⟩
      · rw [hoffering] at hbudget
        contradiction
      · rw [hdrawing] at hbudget
        contradiction

/-- What a move means for the calls of a greedy table: nothing, the start of a call,
an entry for it, or its end. -/
inductive Turn (before later : Chronicle σ E) : Prop
  | quiet (hsequencer : later.delivery.sequencer = before.delivery.sequencer)
      (hcalls : later.calls = before.calls) (hcurrent : later.current = before.current)
      (hbudget : later.delivery.phase.budget? = before.delivery.phase.budget?)
  | start {reading : UInt64} (hidle : before.delivery.phase.budget? = none)
      (hadopt : before.delivery.sequencer.adopt? reading = some later.delivery.sequencer)
      (hcalls : later.calls = before.calls) (hcurrent : later.current = before.current)
      (hbudget : later.delivery.phase.budget? = some later.delivery.sequencer.remaining)
  | draw {budget : Nat} {entry : HandedEntry E}
      (hbudget : before.delivery.phase.budget? = some (budget + 1))
      (hposition : entry.position = before.delivery.sequencer.stamp.1)
      (hsequencer : later.delivery.sequencer = before.delivery.sequencer.stamp.2)
      (hcalls : later.calls = before.calls) (hcurrent : later.current = before.current ++ [entry])
      (hless : later.delivery.phase.budget? = some budget)
  | finish {budget : Nat} {result : Except StoreError Unit}
      (hbudget : before.delivery.phase.budget? = some budget)
      (hentries : before.current ≠ []) (hend : budget = 0 ∨ later.Done)
      (hsequencer : later.delivery.sequencer = before.delivery.sequencer)
      (hcalls : later.calls = before.calls ++ [⟨before.current, result⟩])
      (hcurrent : later.current = []) (hidle : later.delivery.phase.budget? = none)

theorem Move.turn (hgreedy : table.IsGreedy) (hlawful : shape.Lawful)
    (hmove : Move table shape before later) (hstamped : before.Stamped earlier)
    (hfed : later.Fed shape) : Turn before later := by
  cases hmove with
  | refresh hphase hadopt => exact .start (by rw [hphase]; rfl) hadopt rfl rfl rfl
  | @draw budget pending next rest hphase hahead hsight =>
      obtain ⟨budget, rfl⟩ := Nat.exists_eq_succ_of_ne_zero (hstamped.asked budget hphase)
      have hposition : (before.delivery.nextEntry shape next).position =
          before.delivery.sequencer.stamp.1 := hlawful.position_entry _ _ _
      exact .draw (by rw [hphase]; rfl) hposition rfl rfl rfl rfl
  | finish hphase =>
      have hentries : before.current ≠ [] :=
        hfed.handed_ne ⟨before.current, _⟩ (List.mem_append_right _ (List.mem_singleton_self _))
      rcases hphase with ⟨budget, hphase, hended⟩ | ⟨budget, hphase, hahead⟩
      · rw [hgreedy, Bool.true_eq_false, false_or] at hended
        exact .finish (by rw [hphase]; rfl) hentries (Or.inl hended) rfl rfl rfl rfl
      · exact .finish (by rw [hphase]; rfl) hentries
          (Or.inr ⟨hahead, Phase.noConfusion, rfl⟩) rfl rfl rfl rfl
  | seekEnd hphase | seekReady hphase | ask hphase | settle hphase | abandonEnd hphase =>
      exact .quiet rfl rfl rfl (by rw [hphase]; rfl)
  | pass => exact .quiet (by simp) rfl rfl (by simp)
  | wait | abandon | stay => exact .quiet rfl rfl rfl rfl
  | afterWrite hphase =>
      refine .quiet (by simp) rfl rfl ?_
      rw [hphase]
      unfold Delivery.afterWrite
      split <;> rfl

/-- Behind the calls of earlier batches those of this batch are laid out, and the
call under way takes positions in a row up to the next one.  `first` is the sequence
id that it begins with, or the next one if there is none. -/
structure Filling (past : List (StoreCall E)) (first : Nat) (chronicle : Chronicle σ E) :
    Prop where
  fills : chronicle.delivery.sequencer.Fills
    (StoreCall.positions (past ++ chronicle.calls) ++
      chronicle.current.map HandedEntry.position)
  row : chronicle.current.map HandedEntry.position =
    Position.row chronicle.delivery.sequencer.timestamp first chronicle.current.length
  next_eq : chronicle.delivery.sequencer.next = first + chronicle.current.length
  idle : chronicle.delivery.phase.budget? = none → chronicle.current = []
  budget : ∀ budget, chronicle.delivery.phase.budget? = some budget →
    chronicle.delivery.sequencer.next + budget = Sequencer.limit
  laid : StoreCall.LaidOut (past ++ chronicle.calls)
  /-- A timestamp that is used up has taken all its entries. -/
  counted : Sequencer.limit * (past ++ chronicle.calls).countP StoreCall.isFull +
    first % Sequencer.limit ≤ StoreCall.total (past ++ chronicle.calls)

theorem Filling.start {reading : UInt64} (hfilling : before.Filling past first)
    (hhanded : before.delivery.sequencer.HandedOut
      (past.flatMap StoreCall.handed ++ before.handed))
    (hidle : before.delivery.phase.budget? = none)
    (hadopt : before.delivery.sequencer.adopt? reading = some later.delivery.sequencer)
    (hcalls : later.calls = before.calls) (hcurrent : later.current = before.current)
    (hbudget : later.delivery.phase.budget? = some later.delivery.sequencer.remaining) :
    later.Filling past later.delivery.sequencer.next := by
  have hnone : before.current = [] := hfilling.idle hidle
  have hnext := hfilling.next_eq
  rw [hnone, List.length_nil, Nat.add_zero] at hnext
  have hpassed : ∀ position ∈ StoreCall.positions (past ++ before.calls),
      later.delivery.sequencer.Passed position := by
    intro position hmem
    rw [StoreCall.positions_eq_map, List.flatMap_append] at hmem
    obtain ⟨entry, hentry, rfl⟩ := List.mem_map.mp hmem
    apply (hhanded.adopt hadopt).passed
    rw [handed, hnone, List.append_nil]
    exact hentry
  have hfills := hfilling.fills
  rw [hnone, List.map_nil, List.append_nil] at hfills
  have hroom := Sequencer.remaining_pos_of_adopt hadopt
  constructor
  · rw [hcalls, hcurrent, hnone, List.map_nil, List.append_nil]
    exact hfills.adopt hadopt hpassed
  · rw [hcurrent, hnone]
    rfl
  · rw [hcurrent, hnone]
    rfl
  · intro hlater
    rw [hbudget] at hlater
    contradiction
  · intro budget hlater
    rw [hbudget, Option.some.injEq] at hlater
    rw [Sequencer.remaining] at hlater hroom
    omega
  · rw [hcalls]
    exact hfilling.laid
  · rw [hcalls]
    refine Nat.le_trans (Nat.add_le_add_left ?_ _) hfilling.counted
    rcases Sequencer.adopt?_cases hadopt with ⟨hsame, _, _⟩ | ⟨now, hnew, _⟩
    · rw [hsame, hnext]
    · rw [hnew]
      exact Nat.zero_le _

theorem Filling.draw {budget : Nat} {entry : HandedEntry E}
    (hfilling : before.Filling past first)
    (hbudget : before.delivery.phase.budget? = some (budget + 1))
    (hposition : entry.position = before.delivery.sequencer.stamp.1)
    (hsequencer : later.delivery.sequencer = before.delivery.sequencer.stamp.2)
    (hcalls : later.calls = before.calls) (hcurrent : later.current = before.current ++ [entry])
    (hless : later.delivery.phase.budget? = some budget) : later.Filling past first := by
  have hroom := hfilling.budget _ hbudget
  have hlength : later.current.length = before.current.length + 1 := by
    rw [hcurrent, List.length_append, List.length_singleton]
  have hmap : later.current.map HandedEntry.position =
      before.current.map HandedEntry.position ++ [before.delivery.sequencer.stamp.1] := by
    rw [hcurrent, List.map_append, List.map_singleton, hposition]
  constructor
  · rw [hsequencer, hcalls, hmap, ← List.append_assoc]
    exact hfilling.fills.stamp
  · rw [hmap, hlength, Position.row_succ, hsequencer, ← hfilling.next_eq, hfilling.row]
    rfl
  · rw [hsequencer, hlength, ← Nat.add_assoc, ← hfilling.next_eq]
    rfl
  · intro hlater
    rw [hless] at hlater
    contradiction
  · intro other hlater
    rw [hless, Option.some.injEq] at hlater
    rw [hsequencer, ← hlater, ← hroom]
    exact Nat.add_right_comm _ _ _
  · rw [hcalls]
    exact hfilling.laid
  · rw [hcalls]
    exact hfilling.counted

/-- A call uses up its timestamp if it takes the last position there. -/
theorem Filling.isFull_iff {budget : Nat} (hfilling : before.Filling past first)
    (hbudget : before.delivery.phase.budget? = some budget) (hentries : before.current ≠ [])
    (result : Except StoreError Unit) :
    (⟨before.current, result⟩ : StoreCall E).isFull = true ↔
      before.delivery.sequencer.next = Sequencer.limit := by
  have hroom := hfilling.budget budget hbudget
  rw [hfilling.next_eq] at hroom ⊢
  exact StoreCall.isFull_iff_of_row hentries hfilling.row (by rw [← hroom]; exact Nat.le_add_right _ _)

theorem Filling.finish {budget : Nat} {result : Except StoreError Unit}
    (hfilling : before.Filling past first)
    (hbudget : before.delivery.phase.budget? = some budget) (hentries : before.current ≠ [])
    (hsequencer : later.delivery.sequencer = before.delivery.sequencer)
    (hcalls : later.calls = before.calls ++ [⟨before.current, result⟩])
    (hcurrent : later.current = []) (hidle : later.delivery.phase.budget? = none) :
    later.Filling past later.delivery.sequencer.next := by
  have hroom := hfilling.budget budget hbudget
  have hnext := hfilling.next_eq
  have hfirst : Position.nextAt (StoreCall.positions (past ++ before.calls))
      before.delivery.sequencer.timestamp = first := by
    apply hfilling.fills.nextAt_front (by omega)
    · rw [List.length_map, hnext]
    · rw [List.length_map]
      exact hfilling.row
  have hall : past ++ later.calls = past ++ before.calls ++ [⟨before.current, result⟩] := by
    rw [hcalls, List.append_assoc]
  constructor
  · rw [hall, hcurrent, hsequencer, StoreCall.positions_append, StoreCall.positions_singleton,
      List.map_nil, List.append_nil]
    exact hfilling.fills
  · rw [hcurrent]
    rfl
  · rw [hcurrent]
    rfl
  · exact fun _ => hcurrent
  · intro other hlater
    rw [hidle] at hlater
    contradiction
  · have hrow : StoreCall.positions [⟨before.current, result⟩] =
        Position.row before.delivery.sequencer.timestamp
          (Position.nextAt (StoreCall.positions (past ++ before.calls))
            before.delivery.sequencer.timestamp) before.current.length := by
      rw [hfirst, StoreCall.positions_singleton]
      exact hfilling.row
    rw [hall]
    exact .snoc hfilling.laid hentries hrow (by simp only [hfirst]; omega)
  · have hcounted := hfilling.counted
    have hpositive := List.length_pos_iff.mpr hentries
    rw [Nat.mod_eq_of_lt (by omega)] at hcounted
    have hfull := hfilling.isFull_iff hbudget hentries result
    have htotal : StoreCall.total [(⟨before.current, result⟩ : StoreCall E)] =
        before.current.length := StoreCall.total_singleton _
    rw [hall, hsequencer, List.countP_append, List.countP_singleton, StoreCall.total_append,
      htotal, Nat.mul_add]
    -- The last position of a timestamp leaves the count of the next one at zero.
    by_cases hlimit : before.delivery.sequencer.next = Sequencer.limit
    · rw [if_pos (hfull.mpr hlimit), hlimit, Nat.mod_self, Nat.mul_one]
      omega
    · rw [if_neg (mt hfull.mp hlimit), Nat.mod_eq_of_lt (by omega), Nat.mul_zero]
      omega

theorem Filling.turn (hfilling : before.Filling past first)
    (hhanded : before.delivery.sequencer.HandedOut
      (past.flatMap StoreCall.handed ++ before.handed))
    (hturn : Turn before later) : ∃ first, later.Filling past first := by
  cases hturn with
  | quiet hsequencer hcalls hcurrent hbudget =>
      refine ⟨first, ?_⟩
      constructor <;> simp only [hsequencer, hcalls, hcurrent, hbudget]
      · exact hfilling.fills
      · exact hfilling.row
      · exact hfilling.next_eq
      · exact hfilling.idle
      · exact hfilling.budget
      · exact hfilling.laid
      · exact hfilling.counted
  | start hidle hadopt hcalls hcurrent hbudget =>
      exact ⟨_, hfilling.start hhanded hidle hadopt hcalls hcurrent hbudget⟩
  | draw hbudget hposition hsequencer hcalls hcurrent hless =>
      exact ⟨first, hfilling.draw hbudget hposition hsequencer hcalls hcurrent hless⟩
  | finish hbudget hentries _ hsequencer hcalls hcurrent hidle =>
      exact ⟨_, hfilling.finish hbudget hentries hsequencer hcalls hcurrent hidle⟩

/-- All calls but perhaps the last use up a timestamp, and that one only ends earlier
if no call comes any more. -/
def Used (chronicle : Chronicle σ E) : Prop :=
  (∀ call ∈ chronicle.calls, call.isFull = true) ∨
    chronicle.Done ∧ ∀ call ∈ chronicle.calls.dropLast, call.isFull = true

theorem Used.dropLast {chronicle : Chronicle σ E} (hused : chronicle.Used) :
    ∀ call ∈ chronicle.calls.dropLast, call.isFull = true := by
  rcases hused with hall | ⟨_, hlast⟩
  · exact fun call hmem => hall call (List.mem_of_mem_dropLast hmem)
  · exact hlast

theorem Used.move (hmove : Move table shape before later) (hturn : Turn before later)
    (hfilling : before.Filling past first) (hused : before.Used) : later.Used := by
  rcases hused with hall | ⟨hdone, hlast⟩
  · cases hturn with
    | quiet _ hcalls | start _ _ hcalls | draw _ _ _ hcalls =>
        left
        rwa [hcalls]
    | @finish budget result hbudget hentries hend _ hcalls =>
        rcases hend with rfl | hdone
        · left
          have hlimit := hfilling.budget 0 hbudget
          have hfull := (hfilling.isFull_iff hbudget hentries result).mpr hlimit
          rw [hcalls]
          intro call hmem
          rcases List.mem_append.mp hmem with hold | hnew
          · exact hall call hold
          · rw [List.mem_singleton.mp hnew]
            exact hfull
        · right
          rw [hcalls, List.dropLast_concat]
          exact ⟨hdone, hall⟩
  · right
    obtain ⟨hstill, hcalls⟩ := hdone.move hmove
    rw [hcalls]
    exact ⟨hstill, hlast⟩

end Chronicle

/-- A sequencer with the calls that it has stamped the entries of. -/
structure Sequencer.Laid {E : Type} [TableEntry E] (sequencer : Sequencer)
    (past : List (StoreCall E)) : Prop where
  handedOut : sequencer.HandedOut (past.flatMap StoreCall.handed)
  fills : sequencer.Fills (StoreCall.positions past)
  laid : StoreCall.LaidOut past
  counted : limit * past.countP StoreCall.isFull + sequencer.next % limit ≤
    StoreCall.total past

theorem Sequencer.initial_laid {E : Type} [TableEntry E] :
    ({} : Sequencer).Laid ([] : List (StoreCall E)) where
  handedOut := .initial
  fills := rfl
  laid := .nil
  counted := Nat.le_refl 0

/-- A new batch begins where the calls before it have got to. -/
theorem Sequencer.Laid.filling {σ E : Type} [TableEntry E] {writer : TableWriter σ}
    {past : List (StoreCall E)} (hlaid : writer.sequencer.Laid past) (batch : List Pending) :
    (writer.chronicle batch).Filling past writer.sequencer.next where
  fills := by simpa [TableWriter.chronicle, TableWriter.deliver] using hlaid.fills
  row := rfl
  next_eq := rfl
  idle _ := rfl
  budget _ hbudget := nomatch hbudget
  laid := by simpa [TableWriter.chronicle] using hlaid.laid
  counted := by simpa [TableWriter.chronicle] using hlaid.counted

namespace Chronicle

variable {σ E : Type} [TableEntry E] {table : Table σ E} {shape : Shape E}
  {past : List (StoreCall E)}

/-- At every moment of a delivery its calls are laid out behind those of earlier
batches. -/
theorem filling_after (hgreedy : table.IsGreedy) (hlawful : shape.Lawful)
    {writer : TableWriter σ} (hlaid : writer.sequencer.Laid past) (batch : List Pending)
    (n : Nat) :
    (∃ first, ((writer.chronicle batch).after table shape n).Filling past first) ∧
      ((writer.chronicle batch).after table shape n).Used := by
  induction n with
  | zero =>
      exact ⟨⟨_, hlaid.filling batch⟩, Or.inl fun call hmem => absurd hmem List.not_mem_nil⟩
  | succ n ih =>
      obtain ⟨⟨first, hfilling⟩, hused⟩ := ih
      have hstamped := stamped_after table hlawful hlaid.handedOut batch n
      have hmove := step_move table shape ((writer.chronicle batch).after table shape n)
      have hfed := fed_after shape hgreedy writer batch (n + 1)
      rw [after_succ] at hfed ⊢
      have hturn := hmove.turn hgreedy hlawful hstamped hfed
      exact ⟨hfilling.turn hstamped.handedOut hturn, hused.move hmove hturn hfilling⟩

/-- A delivery that has finished leaves no call half done. -/
theorem Filling.laid_of_isFinished {chronicle : Chronicle σ E} {first : Nat}
    (hfilling : chronicle.Filling past first)
    (hstamped : chronicle.Stamped (past.flatMap StoreCall.handed))
    (htidy : chronicle.Tidy) (hfinished : chronicle.delivery.isFinished = true) :
    chronicle.delivery.sequencer.Laid (past ++ chronicle.calls) := by
  have hnone : chronicle.current = [] := (htidy.eq_nil_of_isFinished hfinished).2
  have hnext := hfilling.next_eq
  have hfills := hfilling.fills
  have hhanded := hstamped.handedOut
  rw [hnone, List.length_nil, Nat.add_zero] at hnext
  rw [hnone, List.map_nil, List.append_nil] at hfills
  rw [handed, hnone, List.append_nil, ← List.flatMap_append] at hhanded
  exact ⟨hhanded, hfills, hfilling.laid, hnext ▸ hfilling.counted⟩

end Chronicle

namespace TableWriter

variable {σ E : Type} (table : Table σ E) (shape : Shape E)

theorem length_callsInTurn_le (limit : Nat) (writer : TableWriter σ)
    (batches : List (List Pending)) :
    (callsInTurn table shape limit writer batches).length ≤ batches.length := by
  induction batches generalizing writer with
  | nil => exact Nat.le_refl 0
  | cons batch batches ih =>
      rw [callsInTurn, List.length_cons, List.length_cons]
      refine Nat.succ_le_succ ?_
      split
      next => exact ih _
      next => exact Nat.zero_le _

variable {table shape} [TableEntry E] {past : List (StoreCall E)}

theorem laid_callsInTurn (hgreedy : table.IsGreedy) (hlawful : shape.Lawful) (limit : Nat)
    {writer : TableWriter σ} (hlaid : writer.sequencer.Laid past)
    (batches : List (List Pending)) :
    let writes := callsInTurn table shape limit writer batches
    StoreCall.LaidOut (past ++ writes.flatten) ∧
      Sequencer.limit * (past ++ writes.flatten).countP StoreCall.isFull ≤
        StoreCall.total (past ++ writes.flatten) ∧
      ∀ calls ∈ writes, ∀ call ∈ calls.dropLast, call.isFull = true := by
  induction batches generalizing writer past with
  | nil =>
      simp only [callsInTurn, List.flatten_nil, List.append_nil]
      exact ⟨hlaid.laid, Nat.le_of_add_right_le hlaid.counted,
        fun calls hmem => absurd hmem List.not_mem_nil⟩
  | cons batch batches ih =>
      obtain ⟨⟨first, hfilling⟩, hused⟩ :=
        Chronicle.filling_after hgreedy hlawful hlaid batch limit
      simp only [callsInTurn]
      cases hwrite : writer.write table shape limit batch with
      | none =>
          simp only [List.flatten_cons, List.flatten_nil, List.append_nil, List.mem_singleton]
          exact ⟨hfilling.laid, Nat.le_of_add_right_le hfilling.counted,
            fun calls hsame => hsame ▸ hused.dropLast⟩
      | some returned =>
          obtain ⟨result, requests, later⟩ := returned
          obtain ⟨hfinished, _, _, rfl⟩ :=
            (write_eq_some_iff table shape limit writer later batch requests result).mp hwrite
          have hstamped := Chronicle.stamped_after table hlawful hlaid.handedOut batch limit
          have htidy := Chronicle.tidy_after table shape writer batch limit
          have hlater : (ofDelivery ((writer.chronicle batch).after table shape
              limit).delivery).sequencer.Laid _ :=
            hfilling.laid_of_isFinished hstamped htidy hfinished
          obtain ⟨hall, hcounted, hrest⟩ := ih hlater
          simp only [List.flatten_cons, ← List.append_assoc]
          refine ⟨hall, hcounted, fun calls hmem => ?_⟩
          rcases List.mem_cons.mp hmem with rfl | hlater
          · exact hused.dropLast
          · exact hrest calls hlater

/-- Whatever the clock shows and whichever calls fail, each call of a greedy table takes
at least one entry.  Its entries stand at one timestamp, one after the other from
where the calls before it have got to there.  Only the last call of a batch ends
before the timestamp is used up.  So a writer needs one call for each batch, and one
more at most for each time that so many entries as a timestamp has were handed over.
These calls are all that the table has been through. -/
theorem physical_writes_fill_timestamps (kind : TableKind) {σ : Type}
    (table : Table σ kind.Entry) (hgreedy : table.IsGreedy) (state : σ) (clock : Clock)
    (batches : List (List Pending)) (limit : Nat) :
    let writes := callsInTurn table kind.shape limit { table := state, clock } batches
    (∀ front call back, writes.flatten = front ++ call :: back →
      call.handed ≠ [] ∧ ∃ timestamp,
        let first := Position.nextAt (StoreCall.positions front) timestamp
        StoreCall.positions [call] = Position.row timestamp first call.handed.length ∧
          first + call.handed.length ≤ 65536) ∧
    (∀ calls ∈ writes, ∀ call ∈ calls.dropLast,
      call.handed.getLast?.map (·.position.sequence) = some 65535) ∧
    writes.flatten.length ≤ batches.length + StoreCall.total writes.flatten / 65536 ∧
    ∃ current, Chronicle.Received table state writes.flatten current
      (tableInTurn table kind.shape limit { table := state, clock } batches) := by
  intro writes
  have hinitial : ({ table := state, clock } : TableWriter σ).sequencer.Laid
      ([] : List (StoreCall kind.Entry)) := Sequencer.initial_laid
  obtain ⟨hlaid, hcounted, hfull⟩ :=
    laid_callsInTurn hgreedy kind.shape_lawful limit hinitial batches
  rw [List.nil_append] at hlaid hcounted
  refine ⟨fun front call back hsplit => hlaid.of_split hsplit,
    fun calls hmem call hcall => of_decide_eq_true (hfull calls hmem call hcall), ?_, ?_⟩
  · calc
      writes.flatten.length
        ≤ writes.length + writes.flatten.countP StoreCall.isFull :=
          StoreCall.length_flatten_le hfull
      _ ≤ batches.length + StoreCall.total writes.flatten / 65536 := by
          apply Nat.add_le_add
          · exact length_callsInTurn_le ..
          · rw [Nat.le_div_iff_mul_le (by decide), Nat.mul_comm]
            exact hcounted
  · obtain ⟨current, hreceived, -⟩ :=
      exists_receivedInTurn limit { table := state, clock } batches
    exact ⟨current, hreceived⟩

/-- A call that fails uses up its positions all the same. -/
theorem writes_behind_failed_call :
    let table : MemoryTable MessageEntry := { failures := ["disk on fire"] }
    let topic : Topic := ⟨"jobs", "mail"⟩
    let batches := [
      [Pending.fresh (.ofPayloads topic none [[1], [2]])],
      [Pending.fresh (.ofPayloads topic none [[3]])]]
    let writes := callsInTurn MemoryTable.behaviour Shape.message 20
      { table, clock := .stopped 7 } batches
    writes.flatten.map (fun call => StoreCall.positions [call]) =
        [[⟨7, 0⟩, ⟨7, 1⟩], [⟨7, 2⟩]] ∧
      writes.flatten.length ≤ batches.length + StoreCall.total writes.flatten / 65536 := by
  intro table topic batches writes
  have hwrites := physical_writes_fill_timestamps .message MemoryTable.behaviour
    (fun _ => rfl) table (.stopped 7) batches 20
  exact ⟨by decide, hwrites.2.2.1⟩

end TableWriter

end MessageStore
