import MessageStore.Proofs.DeliveryEnd
import MessageStore.Storage.Rehearsed

/-!
# Every request of a batch is settled

Whatever a table does with its calls, a delivery settles all requests.  What a
call took is settled at its end, what is passed without a call is settled by the
look that passes it, and what is left when a call took nothing is failed.  So
requests in front of the one that the delivery stands at are settled whenever it
looks for the next entry.

A call that takes nothing is the last one.  Every other call uses up an entry, so
there are no more calls than entries, and one.
-/

namespace MessageStore

namespace Pending

variable {E : Type} {shape : Shape E} {pending next : Pending}

/-! ## The entries to come -/

/-- How many entries will be made of a request, if all of them are asked for. -/
def yield (shape : Shape E) (pending : Pending) : Nat :=
  if pending.remaining ≠ [] then pending.remaining.length
  else if pending.entries = 0 then
    match shape.onEmpty pending.peek.request with
    | .ok .reference => 1
    | _ => 0
  else 0

@[simp] theorem settle_peek_request (pending : Pending) (outcome : Outcome) :
    (pending.settle outcome).peek.request = pending.peek.request := by
  unfold settle
  split
  · rfl
  · unfold peek
    split
    · rfl
    · rfl

@[simp] theorem yield_peek (pending : Pending) :
    pending.peek.yield shape = pending.yield shape := by
  rw [yield, yield, peek_remaining, peek_entries, peek_peek]

@[simp] theorem yield_settle (pending : Pending) (outcome : Outcome) :
    (pending.settle outcome).yield shape = pending.yield shape := by
  simp [yield]

theorem yield_settleCurrent (result : Except StoreError Unit) (pending : Pending) :
    (Delivery.settleCurrent result pending).yield shape = pending.yield shape := by
  unfold Delivery.settleCurrent
  cases result with
  | error cause => exact yield_settle ..
  | ok done =>
      simp only
      split
      · rfl
      · split
        · exact yield_peek pending
        · rw [succeed, yield_settle, yield_peek]

theorem yield_ready (hsight : Delivery.inspect shape pending = .ready next) :
    next.yield shape = pending.yield shape := by
  obtain ⟨-, rfl, -⟩ := inspect_ready hsight
  exact yield_peek pending

theorem yield_draw (hsight : Delivery.inspect shape pending = .ready next)
    (position : Position) :
    (next.take.2.record position).yield shape + 1 = pending.yield shape := by
  obtain ⟨-, rfl, hmore⟩ := inspect_ready hsight
  have hdrawn : (pending.peek.take.2.record position).yield shape =
      pending.remaining.tail.length := by
    have hrest : (pending.peek.take.2.record position).remaining = pending.remaining.tail := by
      rw [← pending.peek_remaining, ← take_remaining]
      rfl
    have hsome : (pending.peek.take.2.record position).entries ≠ 0 := Nat.succ_ne_zero _
    rw [yield, hrest, if_neg hsome]
    split
    · rfl
    · next hnone =>
        rw [not_ne_iff] at hnone
        rw [hnone]
        rfl
  rw [hdrawn, List.length_tail, yield]
  rcases hmore with hpayload | ⟨hnone, hzero, hreference⟩
  · have hpos := List.length_pos_iff.mpr hpayload
    rw [if_pos hpayload]
    omega
  · rw [hnone, if_neg (by simp), if_pos hzero, hreference]
    rfl

/-- A request that nobody has looked at will yield all its contents. -/
theorem yield_fresh [TableEntry E] (hlawful : shape.Lawful) (request : Request) :
    (fresh request).yield shape = (shape.contents request).length := by
  have hremaining : (fresh request).remaining = request.payloads := rfl
  have hempty : shape.onEmpty (fresh request).peek.request = shape.onEmpty request :=
    hlawful.onEmpty_congr (by simp [fresh]) (by simp [fresh])
  rw [yield, hremaining, hempty]
  by_cases hpayloads : request.payloads = []
  · have hzero : (fresh request).entries = 0 := rfl
    rw [if_neg (not_not_intro hpayloads), if_pos hzero, Shape.contents, Shape.draft,
      if_pos hpayloads]
    cases shape.onEmpty request with
    | error error => rfl
    | ok empty => cases empty <;> rfl
  · rw [if_pos hpayloads, shape.contents_of_payloads hpayloads, List.length_map]

/-! ## Passing by -/

/-- If a look finds no entry to make, the request is settled after it. -/
def IsPassable (shape : Shape E) (pending : Pending) : Prop :=
  ∀ next, Delivery.inspect shape pending = .passed next → next.isCompleted = true

theorem isPassable_of_entries (hentries : pending.entries = 0) : pending.IsPassable shape := by
  intro next hsight
  rcases inspect_passed hsight with
    ⟨hsome, rfl⟩ | ⟨-, -, hentries', -⟩ | ⟨-, -, -, ⟨-, rfl⟩ | ⟨error, -, rfl⟩⟩
  · rwa [isCompleted, Option.isSome_iff_ne_none]
  · contradiction
  · exact isCompleted_settle ..
  · exact isCompleted_settle ..

theorem isPassable_of_remaining (hremaining : pending.remaining ≠ []) :
    pending.IsPassable shape := by
  intro next hsight
  rcases inspect_passed hsight with ⟨hsome, rfl⟩ | ⟨-, hnone, -⟩ | ⟨-, hnone, -⟩
  · rwa [isCompleted, Option.isSome_iff_ne_none]
  · contradiction
  · contradiction

theorem isPassable_of_isCompleted (hcompleted : pending.isCompleted = true) :
    pending.IsPassable shape := by
  intro next hsight
  rw [Delivery.inspect, if_pos hcompleted] at hsight
  cases hsight
  exact hcompleted

theorem isPassable_ready (hsight : Delivery.inspect shape pending = .ready next) :
    next.IsPassable shape := by
  obtain ⟨-, rfl, hmore⟩ := inspect_ready hsight
  rcases hmore with hremaining | ⟨-, hentries, -⟩
  · exact isPassable_of_remaining (by rwa [peek_remaining])
  · exact isPassable_of_entries (by rwa [peek_entries])

/-- The end of a call leaves the request at hand settled, or with payloads to
come. -/
theorem isPassable_settleCurrent (result : Except StoreError Unit) (pending : Pending) :
    (Delivery.settleCurrent result pending).IsPassable shape := by
  unfold Delivery.settleCurrent
  cases result with
  | error cause => exact isPassable_of_isCompleted (isCompleted_settle ..)
  | ok done =>
      simp only
      split
      next hcompleted => exact isPassable_of_isCompleted hcompleted
      next =>
        split
        next hpayload =>
          refine isPassable_of_remaining fun hnone => ?_
          rw [peek_lookahead, ← peek_remaining, hnone] at hpayload
          contradiction
        next => exact isPassable_of_isCompleted (isCompleted_settle ..)

/-- Requests keep their outcomes place by place. -/
theorem outcome_getElem? {row later : List Pending} (hkeeps : List.Forall₂ Keeps row later)
    {index : Nat} {outcome : Outcome} (hset : (row[index]?).bind Pending.outcome = some outcome) :
    (later[index]?).bind Pending.outcome = some outcome := by
  induction hkeeps generalizing index with
  | nil => contradiction
  | cons hkept _ ih =>
      cases index with
      | zero => exact hkept outcome hset
      | succ index => exact ih hset

theorem isCompleted_conclude (pending : Pending) (result : Except StoreError Unit) :
    (pending.conclude result).isCompleted = true := by
  cases result with
  | ok done => exact isCompleted_settle ..
  | error cause => exact isCompleted_settle ..

end Pending

/-- Whether a call has ended that got no entry: the delivery is then given up, or
was. -/
def Phase.lapses (written : Nat) : Phase → Nat
  | .settling _ _ => 1 - written
  | .abandoning _ | .finished => 1
  | _ => 0

theorem Phase.lapses_le (phase : Phase) (written : Nat) : phase.lapses written ≤ 1 := by
  cases phase <;> simp only [lapses] <;> omega

/-- How many entries will be made, if all of them are asked for. -/
def Delivery.yield {σ E : Type} (shape : Shape E) (delivery : Delivery σ) : Nat :=
  (delivery.ahead.map (Pending.yield shape)).sum

namespace Chronicle

variable {σ E : Type} {table : Table σ E} {shape : Shape E} {before later : Chronicle σ E}

/-! ## Calls and entries -/

/-- An entry that is handed over was still to be made before. -/
theorem Move.yield_le (hmove : Move table shape before later) :
    later.handed.length + later.delivery.yield shape ≤
      before.handed.length + before.delivery.yield shape := by
  cases hmove with
  | draw hphase hahead hsight =>
      have hdrawn := Pending.yield_draw hsight before.delivery.sequencer.stamp.1
      rw [handed_take, List.length_append, List.length_singleton]
      simp only [Delivery.yield, Delivery.makeEntry, hahead, List.map_cons, List.sum_cons]
      omega
  | finish hphase =>
      rw [handed_finish]
      exact Nat.le_refl _
  | seekReady hphase hahead hsight =>
      simp only [handed, Delivery.yield, hahead, List.map_cons, Pending.yield_ready hsight]
      exact Nat.le_refl _
  | pass hphase hahead hsight =>
      have hpassed : ∀ pending rest, (before.delivery.pass pending rest).ahead = rest := by
        intro pending rest
        unfold Delivery.pass
        split <;> rfl
      simp only [handed, Delivery.yield, hahead, hpassed, List.map_cons, List.sum_cons]
      omega
  | afterWrite hphase =>
      simp only [handed, Delivery.yield]
      unfold Delivery.afterWrite
      split
      · exact Nat.le_refl _
      · cases before.delivery.ahead with
        | nil => exact Nat.le_refl _
        | cons pending rest =>
            simp only [List.map_cons, Pending.yield_settleCurrent]
            exact Nat.le_refl _
  | abandon hphase hahead =>
      simp only [handed, Delivery.yield, hahead, List.map_cons, List.sum_cons]
      omega
  | seekEnd | refresh | wait | ask | settle | abandonEnd | stay => exact Nat.le_refl _

/-- All calls that have ended got an entry, but perhaps for the last one, and
every entry is one of so many. -/
structure Spent (shape : Shape E) (entries : Nat) (chronicle : Chronicle σ E) : Prop where
  tidy : chronicle.Tidy
  calls : chronicle.calls.length ≤ (chronicle.calls.flatMap StoreCall.handed).length +
    chronicle.delivery.phase.lapses chronicle.delivery.written
  handed : chronicle.handed.length + chronicle.delivery.yield shape ≤ entries

theorem Move.calls_le (hmove : Move table shape before later) (htidy : before.Tidy)
    (hcalls : before.calls.length ≤ (before.calls.flatMap StoreCall.handed).length +
      before.delivery.phase.lapses before.delivery.written) :
    later.calls.length ≤ (later.calls.flatMap StoreCall.handed).length +
      later.delivery.phase.lapses later.delivery.written := by
  cases hmove with
  | finish hphase =>
      obtain ⟨hcurrent, hnone⟩ : before.delivery.written = before.current.length ∧
          before.delivery.phase.lapses before.delivery.written = 0 := by
        rcases hphase with ⟨budget, hphase, -⟩ | ⟨budget, hphase, -⟩ <;>
        · rw [Tidy, hphase] at htidy
          exact ⟨htidy.1, by rw [hphase]; rfl⟩
      simp only [Delivery.endWrite, Phase.lapses, List.length_append, List.length_singleton,
        List.flatMap_append, List.flatMap_singleton]
      omega
  | afterWrite hphase =>
      rw [hphase, Phase.lapses] at hcalls
      unfold Delivery.afterWrite
      split
      next => exact Nat.le_trans hcalls (Nat.add_le_add_left (Nat.sub_le ..) _)
      next hwritten =>
        simp only [Phase.lapses]
        omega
  | seekEnd hphase | abandonEnd hphase =>
      rw [hphase] at hcalls
      exact Nat.le_trans hcalls (Nat.add_le_add_left (Phase.lapses_le ..) _)
  | seekReady hphase | refresh hphase | ask hphase | settle hphase | draw hphase =>
      rw [hphase] at hcalls
      exact hcalls
  | pass hphase =>
      simpa only [Delivery.pass_phase, Delivery.pass_written] using hcalls
  | wait hphase | abandon hphase | stay => exact hcalls

theorem Spent.move {entries : Nat} (hmove : Move table shape before later)
    (hspent : before.Spent shape entries) : later.Spent shape entries where
  tidy := hspent.tidy.move hmove
  calls := hmove.calls_le hspent.tidy hspent.calls
  handed := hmove.yield_le.trans hspent.handed

/-- There are no more calls than entries, and one. -/
theorem Spent.calls_le {chronicle : Chronicle σ E} {entries : Nat}
    (hspent : chronicle.Spent shape entries) : chronicle.calls.length ≤ entries + 1 := by
  obtain ⟨-, hcalls, hhanded⟩ := hspent
  have hlapses := chronicle.delivery.phase.lapses_le chronicle.delivery.written
  rw [Chronicle.handed, List.length_append] at hhanded
  omega

theorem spent_after (table : Table σ E) (shape : Shape E) (writer : TableWriter σ)
    (batch : List Pending) (n : Nat) :
    ((writer.chronicle batch).after table shape n).Spent shape
      (batch.map (Pending.yield shape)).sum := by
  have hstart : (writer.chronicle batch : Chronicle σ E).Spent shape
      (batch.map (Pending.yield shape)).sum :=
    ⟨⟨rfl, rfl, rfl⟩, Nat.le_refl _, Nat.le_of_eq (Nat.zero_add _)⟩
  exact after_move_induction table shape hstart (fun hmove hspent => hspent.move hmove) n

/-! ## Requests that are settled -/

/-- The requests behind are settled.  Those ahead will be settled when they are
passed without a call, and the one that the delivery stands at when it is passed
before the call has entries. -/
structure Attended (shape : Shape E) (chronicle : Chronicle σ E) : Prop where
  behind : ∀ pending ∈ chronicle.delivery.behind, pending.isCompleted = true
  tail : ∀ pending ∈ chronicle.delivery.ahead.tail, pending.IsPassable shape
  ahead : chronicle.delivery.written = 0 →
    ∀ pending ∈ chronicle.delivery.ahead, pending.IsPassable shape
  finished : chronicle.delivery.phase = .finished → chronicle.delivery.ahead = []

theorem Attended.pass (hattended : before.Attended shape) {pending next : Pending}
    {rest : List Pending} (hahead : before.delivery.ahead = pending :: rest)
    (hsight : Delivery.inspect shape pending = .passed next)
    (hunfinished : before.delivery.phase ≠ .finished) :
    Attended shape { before with delivery := before.delivery.pass next rest } := by
  have htail := hattended.tail
  rw [hahead, List.tail_cons] at htail
  unfold Delivery.pass
  split
  next hwritten =>
    have hpassed := hattended.ahead hwritten pending (hahead ▸ List.mem_cons_self) next hsight
    exact ⟨List.forall_mem_cons.mpr ⟨hpassed, hattended.behind⟩,
      fun other hmem => htail other (List.mem_of_mem_tail hmem), fun _ => htail,
      fun hfinished => absurd hfinished hunfinished⟩
  next hwritten =>
    exact ⟨hattended.behind, fun other hmem => htail other (List.mem_of_mem_tail hmem),
      fun hnone => absurd hnone hwritten, fun hfinished => absurd hfinished hunfinished⟩

theorem Attended.afterWrite (hattended : before.Attended shape)
    (result : Except StoreError Unit) :
    Attended shape { before with delivery := before.delivery.afterWrite result } := by
  unfold Delivery.afterWrite
  split
  next hwritten => exact ⟨hattended.behind, hattended.tail, hattended.ahead, nofun⟩
  next =>
    have htail := hattended.tail
    cases hahead : before.delivery.ahead with
    | nil =>
        have hnone : ∀ pending ∈ ([] : List Pending), pending.IsPassable shape :=
          fun _ hmem => absurd hmem List.not_mem_nil
        exact ⟨hattended.behind, hnone, fun _ => hnone, nofun⟩
    | cons pending rest =>
        rw [hahead, List.tail_cons] at htail
        exact ⟨hattended.behind, htail, fun _ => List.forall_mem_cons.mpr
          ⟨Pending.isPassable_settleCurrent result pending, htail⟩, nofun⟩

theorem Attended.move (hmove : Move table shape before later) (hattended : before.Attended shape) :
    later.Attended shape := by
  obtain ⟨hbehind, htail, hpassable, hfinished⟩ := hattended
  cases hmove with
  | seekEnd hphase hahead | abandonEnd hphase hahead =>
      exact ⟨hbehind, htail, hpassable, fun _ => hahead⟩
  | seekReady hphase hahead hsight =>
      rw [hahead] at htail hpassable
      exact ⟨hbehind, htail, fun hwritten => List.forall_mem_cons.mpr
        ⟨Pending.isPassable_ready hsight, htail⟩, nofun⟩
  | pass hphase hahead hsight =>
      refine Attended.pass ⟨hbehind, htail, hpassable, hfinished⟩ hahead hsight ?_
      rcases hphase with hphase | ⟨budget, hphase⟩ <;> simp [hphase]
  | refresh hphase | ask hphase | finish hphase => exact ⟨hbehind, htail, hpassable, nofun⟩
  | wait hphase => exact ⟨hbehind, htail, hpassable, fun hfinished => by simp [hphase] at hfinished⟩
  | draw hphase hahead hsight =>
      rw [hahead] at htail
      exact ⟨hbehind, htail, nofun, nofun⟩
  | settle hphase =>
      exact ⟨List.forall_mem_cons.mpr ⟨Pending.isCompleted_conclude .., hbehind⟩, htail, hpassable,
        nofun⟩
  | afterWrite hphase => exact Attended.afterWrite ⟨hbehind, htail, hpassable, hfinished⟩ _
  | abandon hphase hahead =>
      rw [hahead] at htail hpassable
      refine ⟨List.forall_mem_cons.mpr ⟨Pending.isCompleted_settle .., hbehind⟩,
        fun other hmem => htail other (List.mem_of_mem_tail hmem), fun _ => htail, fun hended => ?_⟩
      simp [hphase] at hended
  | stay => exact ⟨hbehind, htail, hpassable, hfinished⟩

theorem attended_after (table : Table σ E) (shape : Shape E) (writer : TableWriter σ)
    {batch : List Pending} (hbatch : ∀ pending ∈ batch, pending.IsPassable shape) (n : Nat) :
    ((writer.chronicle batch).after table shape n).Attended shape := by
  have hstart : (writer.chronicle batch : Chronicle σ E).Attended shape :=
    ⟨fun _ hmem => absurd hmem List.not_mem_nil,
      fun pending hmem => hbatch pending (List.mem_of_mem_tail hmem), fun _ => hbatch, nofun⟩
  exact after_move_induction table shape hstart (fun hmove hattended => hattended.move hmove) n

/-- Between two calls all requests in front of the one that the delivery stands at
are settled. -/
theorem Attended.settled {chronicle : Chronicle σ E} (hattended : chronicle.Attended shape)
    (htidy : chronicle.Tidy)
    (hphase : chronicle.delivery.phase = .seeking ∨ chronicle.delivery.phase = .refreshing) :
    ∀ pending ∈ chronicle.delivery.requests.take chronicle.delivery.cursor,
      pending.isCompleted = true := by
  have htouched : chronicle.delivery.touched = [] := by
    rcases hphase with hphase | hphase <;>
    · rw [Tidy, hphase] at htidy
      exact htidy.1
  have hleft : chronicle.delivery.left = [] := by
    rcases hphase with hphase | hphase <;> rw [Delivery.left, hphase]
  have hrequests : chronicle.delivery.requests =
      chronicle.delivery.behind.reverse ++ chronicle.delivery.ahead := by
    rcases hphase with hphase | hphase <;> simp [Delivery.requests, hphase, htouched]
  have hcursor : chronicle.delivery.cursor = chronicle.delivery.behind.reverse.length := by
    simp [Delivery.cursor, hleft, htouched]
  rw [hrequests, hcursor, List.take_left]
  exact fun pending hmem => hattended.behind pending (List.mem_reverse.mp hmem)

/-- When a delivery has finished all its requests are settled. -/
theorem Attended.all_settled {chronicle : Chronicle σ E} (hattended : chronicle.Attended shape)
    (htidy : chronicle.Tidy) (hfinished : chronicle.delivery.isFinished = true) :
    ∀ pending ∈ chronicle.delivery.requests, pending.isCompleted = true := by
  have hphase : chronicle.delivery.phase = .finished := by
    unfold Delivery.isFinished at hfinished
    split at hfinished
    next hphase => exact hphase
    next => contradiction
  have hrequests : chronicle.delivery.requests = chronicle.delivery.behind.reverse := by
    simp [Delivery.requests, hphase, hattended.finished hphase,
      (htidy.eq_nil_of_isFinished hfinished).1]
  rw [hrequests]
  exact fun pending hmem => hattended.behind pending (List.mem_reverse.mp hmem)

theorem requests_after_length (table : Table σ E) (shape : Shape E) (writer : TableWriter σ)
    (batch : List Pending) (n : Nat) :
    ((writer.chronicle batch).after table shape n).delivery.requests.length = batch.length := by
  induction n with
  | zero => simp [TableWriter.chronicle, TableWriter.deliver, Delivery.requests]
  | succ n ih =>
      have hmove := step_move table shape ((writer.chronicle batch).after table shape n)
      rw [← after_succ] at hmove
      rw [← (hmove.requests_keep (tidy_after table shape writer batch n)).length_eq, ih]

/-- A request that is settled at one moment has the same outcome at every later
one. -/
theorem outcome_after_keep (table : Table σ E) (shape : Shape E) (writer : TableWriter σ)
    (batch : List Pending) {n m : Nat} (hlater : n ≤ m) {index : Nat} {outcome : Outcome}
    (hset : (((writer.chronicle batch).after table shape n).delivery.requests[index]?).bind
      Pending.outcome = some outcome) :
    (((writer.chronicle batch).after table shape m).delivery.requests[index]?).bind
      Pending.outcome = some outcome := by
  induction m, hlater using Nat.le_induction with
  | base => exact hset
  | succ m _ ih =>
      have hmove := step_move table shape ((writer.chronicle batch).after table shape m)
      rw [← after_succ] at hmove
      exact Pending.outcome_getElem? (hmove.requests_keep (tidy_after table shape writer batch m))
        ih

/-! ## Clocks that give room -/

theorem Move.next_le (hmove : Move table shape before later) :
    later.delivery.sequencer.next + before.handed.length ≤
      before.delivery.sequencer.next + later.handed.length := by
  cases hmove with
  | refresh hphase hadopt =>
      refine Nat.add_le_add_right ?_ _
      rcases Sequencer.adopt?_cases hadopt with ⟨rfl, -⟩ | ⟨now, rfl, -⟩
      · exact Nat.le_refl _
      · exact Nat.zero_le _
  | draw hphase hahead hsight =>
      rw [handed_take, List.length_append, List.length_singleton]
      simp only [Delivery.makeEntry, Sequencer.stamp]
      omega
  | finish hphase =>
      rw [handed_finish]
      exact Nat.le_refl _
  | pass hphase =>
      rw [Delivery.pass_sequencer]
      exact Nat.le_refl _
  | afterWrite hphase =>
      rw [Delivery.afterWrite_sequencer]
      exact Nat.le_refl _
  | seekEnd | seekReady | wait | ask | settle | abandon | abandonEnd | stay => exact Nat.le_refl _

theorem next_after_le (table : Table σ E) (shape : Shape E) (writer : TableWriter σ)
    (batch : List Pending) (n : Nat) :
    ((writer.chronicle batch).after table shape n).delivery.sequencer.next ≤
      writer.sequencer.next + ((writer.chronicle batch).after table shape n).handed.length := by
  induction n with
  | zero => exact Nat.le_add_right _ _
  | succ n ih =>
      have hmove := step_move table shape ((writer.chronicle batch).after table shape n)
      rw [← after_succ] at hmove
      have hnext := hmove.next_le
      omega

end Chronicle

namespace TableWriter

variable {σ E : Type} (table : Table σ E) (shape : Shape E) (writer : TableWriter σ)
  (batch : List Pending)

/-- Whenever a batch waits because its timestamp is used up, the clock is going to
show a later one. -/
def ClockAdvances : Prop :=
  ∀ n last,
    ((writer.chronicle batch).after table shape n).delivery.phase = .refreshing →
    ((writer.chronicle batch).after table shape n).delivery.sequencer.last = some last →
    Sequencer.limit ≤
      ((writer.chronicle batch).after table shape n).delivery.sequencer.next →
    ∃ skipped, last <
      ((writer.chronicle batch).after table shape n).delivery.clock.reading
        (((writer.chronicle batch).after table shape n).delivery.clock.reads + skipped)

/-- A timestamp that is not used up, or a later reading, gives room. -/
theorem ClockAdvances.adopts {table : Table σ E} {shape : Shape E} {writer : TableWriter σ}
    {batch : List Pending} (hclock : writer.ClockAdvances table shape batch) {n : Nat}
    (hphase : ((writer.chronicle batch).after table shape n).delivery.phase = .refreshing) :
    ∃ skipped, ((writer.chronicle batch).after table shape n).delivery.Adopts skipped := by
  have hadvances := fun last => hclock n last hphase
  generalize ((writer.chronicle batch).after table shape n).delivery = delivery at hadvances
  cases hlast : delivery.sequencer.last with
  | none =>
      refine ⟨0, ?_⟩
      rw [Delivery.Adopts, Sequencer.adopt?_of_later (by simp [hlast])]
      rfl
  | some last =>
      by_cases hlater : last < delivery.clock.reading (delivery.clock.reads + 0)
      · refine ⟨0, ?_⟩
        rw [Delivery.Adopts, Sequencer.adopt?_of_later (by simpa [hlast] using hlater)]
        rfl
      · by_cases hused : Sequencer.limit ≤ delivery.sequencer.next
        · obtain ⟨skipped, hskipped⟩ := hadvances last hlast hused
          refine ⟨skipped, ?_⟩
          rw [Delivery.Adopts, Sequencer.adopt?_of_later (by simpa [hlast] using hskipped)]
          rfl
        · refine ⟨0, ?_⟩
          rw [Delivery.Adopts, Sequencer.adopt?_of_earlier hlast hlater, if_neg hused]
          rfl

/-- A new writer needs no clock that advances for a batch that one timestamp has
room for. -/
theorem clockAdvances_of_few (hnew : writer.sequencer.next = 0)
    (hfew : (batch.map (Pending.yield shape)).sum < Sequencer.limit) :
    writer.ClockAdvances table shape batch := by
  intro n last _ _ hused
  have hnext := Chronicle.next_after_le table shape writer batch n
  have hhanded := (Chronicle.spent_after table shape writer batch n).handed
  omega

/-- Whatever a table does with its calls, a write of requests that nobody has
looked at ends if the clock goes on when a timestamp is used up, after at most one
call more than there are entries to make.  Then all requests are settled.
Whenever it begins to look for the next entry, those before the one that it stands
at are settled already, and no outcome is ever set again.  The table has been
through the calls that are counted, and nothing else.

A table that still asks when there is nothing left gets nothing, and its call
ends. -/
theorem write_settles_everything (requests : List Request)
    (hclock : writer.ClockAdvances table shape (requests.map Pending.fresh)) :
    let batch := requests.map Pending.fresh
    let moment := fun n => (writer.chronicle batch).after table shape n
    (∃ enough result settled later,
      (∀ limit, enough ≤ limit →
        writer.write table shape limit batch = some (result, settled, later) ∧
          (moment limit).delivery.requests = settled ∧
          (moment limit).delivery.table = later.table) ∧
      settled.length = requests.length ∧
      ∀ pending ∈ settled, pending.isCompleted = true) ∧
    (∀ n, Chronicle.Received table writer.table (moment n).calls (moment n).current
      (moment n).delivery.table) ∧
    (∀ n, (moment n).calls.length ≤ (batch.map (Pending.yield shape)).sum + 1) ∧
    (∀ n, (moment n).delivery.phase = .seeking →
      ∀ pending ∈ (moment n).delivery.requests.take (moment n).delivery.cursor,
        pending.isCompleted = true) ∧
    ∀ (n m index : Nat) (outcome : Outcome), n ≤ m →
      ((moment n).delivery.requests[index]?).bind Pending.outcome = some outcome →
      ((moment m).delivery.requests[index]?).bind Pending.outcome = some outcome := by
  intro batch moment
  have hbatch : ∀ pending ∈ batch, pending.IsPassable shape := by
    intro pending hmem
    obtain ⟨request, -, rfl⟩ := List.mem_map.mp hmem
    exact Pending.isPassable_of_entries rfl
  have hattended := Chronicle.attended_after table shape writer hbatch
  have htidy := Chronicle.tidy_after table shape writer batch
  refine ⟨?_, received_after table shape writer batch,
    fun n => (Chronicle.spent_after table shape writer batch n).calls_le,
    fun n hphase => (hattended n).settled (htidy n) (.inl hphase),
    fun n m index outcome hlater => Chronicle.outcome_after_keep table shape writer batch hlater⟩
  obtain ⟨enough, ⟨result, settled, later⟩, hwrite⟩ :=
    exists_write table shape writer batch fun n hphase => hclock.adopts hphase
  refine ⟨enough, result, settled, later, fun limit hlimit => ?_, ?_⟩
  · obtain ⟨-, -, hsettled, rfl⟩ :=
      (write_eq_some_iff table shape limit writer later batch settled result).mp
        (hwrite limit hlimit)
    exact ⟨hwrite limit hlimit, hsettled, rfl⟩
  obtain ⟨hfinished, -, rfl, -⟩ :=
    (write_eq_some_iff table shape enough writer later batch settled result).mp
      (hwrite enough (Nat.le_refl _))
  refine ⟨?_, (hattended enough).all_settled (htidy enough) hfinished⟩
  rw [Chronicle.requests_after_length, List.length_map]

/-- A call that takes one of three entries is followed by one that takes none. -/
theorem refused_entries_are_settled :
    let writer : TableWriter (RehearsedTable MessageEntry) :=
      { table := { calls := [{ take := some 1 }, { take := some 0 }] }, clock := .stopped 9 }
    let batch := [Pending.fresh (.ofPayloads ⟨"a", "b"⟩ none [[1], [2]]),
      Pending.fresh (.ofPayloads ⟨"a", "c"⟩ (some 7) [])]
    (∃ enough result settled later,
      (∀ limit, enough ≤ limit →
        writer.write RehearsedTable.behaviour .message limit batch =
          some (result, settled, later)) ∧
      settled.length = 2 ∧ ∀ pending ∈ settled, pending.isCompleted = true) ∧
    ∀ n, ((writer.chronicle batch).after RehearsedTable.behaviour Shape.message n).calls.length ≤
      3 + 1 := by
  intro writer batch
  have hyield : (batch.map (Pending.yield Shape.message)).sum = 3 := by
    simp only [batch, List.map_cons, List.map_nil, Pending.yield_fresh Shape.message_lawful]
    rfl
  have hclock : writer.ClockAdvances RehearsedTable.behaviour Shape.message batch :=
    clockAdvances_of_few _ _ _ _ rfl (by rw [hyield]; decide)
  obtain ⟨hends, -, hcalls, -⟩ := write_settles_everything RehearsedTable.behaviour Shape.message
    writer [.ofPayloads ⟨"a", "b"⟩ none [[1], [2]], .ofPayloads ⟨"a", "c"⟩ (some 7) []] hclock
  obtain ⟨enough, result, settled, later, hwrite, hsettled⟩ := hends
  refine ⟨⟨enough, result, settled, later, fun limit hlimit => (hwrite limit hlimit).1, hsettled⟩,
    fun n => ?_⟩
  rw [← hyield]
  exact hcalls n

end TableWriter
end MessageStore
