import MessageStore.Proofs.CoordinatorElection
import MessageStore.Proofs.ReliableDelivery
import Mathlib.Tactic

/-!
# First pushed, first written

Over a table that never fails, the requests pushed so far are in three parts:
those written, those taken from the queue for the batch at hand, those still
in the queue.  The table holds the blocks of the first part, one after the
other.  Whoever holds the election moves requests from one part to the next;
everybody else can only push.
-/

namespace MessageStore

def Activity.isPersisting : Activity → Bool
  | .idle => true
  | .checking _ => true
  | .pushing _ => true
  | .watching _ => true
  | .electing _ => true
  | .flushing _ ticket => ticket.isSome
  | .releasing _ => true
  | .claiming => false
  | .acquiring => false
  | .sealing _ => false
  | .closing _ => false
  | .leaving _ => false

namespace Coordinator

variable {kind : TableKind} {σ : Type} {table : Table σ kind.Entry}
  (ledger : table.Ledger) (good : σ → Prop) (start : List kind.Entry)

/-- The requests pushed are those written, those in flight and those in the
queue, and the table holds what was written on top of what it held at the
start. -/
structure Brought (log : List Request) (queue : List Pending)
    (writer : TableWriter σ) (rows : List (Written kind.Entry))
    (flying waiting : List Request) : Prop where
  log_eq : log = rows.map Written.request ++ flying ++ waiting
  queue_eq : queue = waiting.map Pending.fresh
  whole : ∀ written ∈ rows, written.IsWhole kind.shape
  ready : writer.IsReady ledger good
  held_eq : ledger.held writer.table = start ++ rows.flatMap Written.block

/-- Nothing is in flight. -/
def Rests (log : List Request)
    (coordinator : Coordinator (TableWriter σ) (Delivery σ)) : Prop :=
  ∃ writer rows waiting,
    Brought ledger good start log coordinator.queue writer rows [] waiting ∧
      coordinator.settled.toList = rows.map Written.pending ∧
      coordinator.flight = .resting writer []

/-- A batch is being taken from the queue. -/
def Gathers (log : List Request)
    (coordinator : Coordinator (TableWriter σ) (Delivery σ)) : Prop :=
  ∃ writer rows flying waiting,
    Brought ledger good start log coordinator.queue writer rows flying waiting ∧
      coordinator.settled.toList = rows.map Written.pending ∧
      coordinator.flight = .resting writer (flying.map Pending.fresh)

/-- A batch is being written. -/
def Writes (log : List Request)
    (coordinator : Coordinator (TableWriter σ) (Delivery σ)) : Prop :=
  ∃ writer rows flying waiting n,
    Brought ledger good start log coordinator.queue writer rows flying waiting ∧
      coordinator.settled.toList = rows.map Written.pending ∧
      coordinator.flight = .writing
        ((writer.chronicle (flying.map Pending.fresh)).after table kind.shape
          n).delivery

/-- A batch that was written is being handed back. -/
def Lands (log : List Request)
    (coordinator : Coordinator (TableWriter σ) (Delivery σ)) : Prop :=
  ∃ writer rows landing waiting,
    Brought ledger good start log coordinator.queue writer (rows ++ landing) []
        waiting ∧
      coordinator.settled.toList = rows.map Written.pending ∧
      coordinator.flight = .resting writer (landing.map Written.pending)

/-- How the requests stand, by what the thread with the election is about to
do.  There is none if no thread has it. -/
def Stands (log : List Request)
    (coordinator : Coordinator (TableWriter σ) (Delivery σ)) :
    Option Activity → Prop
  | none => Rests ledger good start log coordinator
  | some (.releasing _) => Rests ledger good start log coordinator
  | some (.flushing .counting _) => Rests ledger good start log coordinator
  | some (.flushing (.popping _) _) => Gathers ledger good start log coordinator
  | some (.flushing .deciding _) => Gathers ledger good start log coordinator
  | some (.flushing .writing _) => Writes ledger good start log coordinator
  | some (.flushing (.landing result) _) =>
    result = .ok () ∧ Lands ledger good start log coordinator
  | some _ => False

variable {ledger} {good} {start} {log : List Request}
  {coordinator later : Coordinator (TableWriter σ) (Delivery σ)}

theorem Rests.gathers (hrests : Rests ledger good start log coordinator) :
    Gathers ledger good start log coordinator := by
  obtain ⟨writer, rows, waiting, hbrought, hsettled, hflight⟩ := hrests
  exact ⟨writer, rows, [], waiting, hbrought, hsettled, hflight⟩

theorem Brought.push {queue : List Pending} {writer : TableWriter σ}
    {rows : List (Written kind.Entry)} {flying waiting : List Request}
    (hbrought : Brought ledger good start log queue writer rows flying waiting)
    (request : Request) :
    Brought ledger good start (log ++ [request]) (queue ++ [Pending.fresh request])
      writer rows flying (waiting ++ [request]) where
  log_eq := by rw [hbrought.log_eq, List.append_assoc]
  queue_eq := by rw [hbrought.queue_eq, List.map_append, List.map_singleton]
  whole := hbrought.whole
  ready := hbrought.ready
  held_eq := hbrought.held_eq

theorem Rests.push (hrests : Rests ledger good start log coordinator)
    (request : Request) :
    Rests ledger good start (log ++ [request]) (coordinator.push request) := by
  obtain ⟨writer, rows, waiting, hbrought, hsettled, hflight⟩ := hrests
  exact ⟨writer, rows, waiting ++ [request], hbrought.push request, hsettled,
    hflight⟩

theorem Gathers.push (hgathers : Gathers ledger good start log coordinator)
    (request : Request) :
    Gathers ledger good start (log ++ [request]) (coordinator.push request) := by
  obtain ⟨writer, rows, flying, waiting, hbrought, hsettled, hflight⟩ := hgathers
  exact ⟨writer, rows, flying, waiting ++ [request], hbrought.push request,
    hsettled, hflight⟩

theorem Writes.push (hwrites : Writes ledger good start log coordinator)
    (request : Request) :
    Writes ledger good start (log ++ [request]) (coordinator.push request) := by
  obtain ⟨writer, rows, flying, waiting, n, hbrought, hsettled, hflight⟩ := hwrites
  exact ⟨writer, rows, flying, waiting ++ [request], n, hbrought.push request,
    hsettled, hflight⟩

theorem Lands.push (hlands : Lands ledger good start log coordinator)
    (request : Request) :
    Lands ledger good start (log ++ [request]) (coordinator.push request) := by
  obtain ⟨writer, rows, landing, waiting, hbrought, hsettled, hflight⟩ := hlands
  exact ⟨writer, rows, landing, waiting ++ [request], hbrought.push request,
    hsettled, hflight⟩

/-- A push adds to the queue, whatever the thread with the election does. -/
theorem Stands.push {stage : Option Activity}
    (hstands : Stands ledger good start log coordinator stage) (request : Request) :
    Stands ledger good start (log ++ [request]) (coordinator.push request)
      stage := by
  unfold Stands at hstands
  split at hstands
  next => exact hstands.push request
  next => exact hstands.push request
  next => exact hstands.push request
  next => exact hstands.push request
  next => exact hstands.push request
  next => exact hstands.push request
  next => exact ⟨hstands.1, hstands.2.push request⟩
  next => exact hstands.elim

/-- Where the flags stand does not matter. -/
theorem Stands.congr {stage : Option Activity}
    (hstands : Stands ledger good start log coordinator stage)
    (hqueue : later.queue = coordinator.queue)
    (hsettled : later.settled = coordinator.settled)
    (hflight : later.flight = coordinator.flight) :
    Stands ledger good start log later stage := by
  unfold Stands Rests Gathers Writes Lands at hstands ⊢
  rw [hqueue, hsettled, hflight]
  exact hstands

theorem Gathers.pop (hgathers : Gathers ledger good start log coordinator) :
    Gathers ledger good start log coordinator.pop := by
  obtain ⟨writer, rows, flying, waiting, hbrought, hsettled, hflight⟩ := hgathers
  cases waiting with
  | nil =>
      have hqueue : coordinator.queue = [] := hbrought.queue_eq
      rw [pop_of_queue_nil hqueue]
      exact ⟨writer, rows, flying, [], hbrought, hsettled, hflight⟩
  | cons request waiting =>
      have hqueue : coordinator.queue =
          Pending.fresh request :: waiting.map Pending.fresh := hbrought.queue_eq
      rw [pop_of_resting hqueue hflight]
      refine ⟨writer, rows, flying ++ [request], waiting, ?_, hsettled, ?_⟩
      · refine ⟨?_, rfl, hbrought.whole, hbrought.ready, hbrought.held_eq⟩
        rw [hbrought.log_eq]
        simp
      · rw [List.map_append, List.map_singleton]

/-- An outcome that can be seen is that of a request in the table, if this is so
in flight. -/
theorem Brought.verdict {queue : List Pending} {writer : TableWriter σ}
    {rows : List (Written kind.Entry)} {flying waiting : List Request}
    (hbrought : Brought ledger good start log queue writer rows flying waiting)
    {front : List Pending}
    (hfront : ∀ (place : Nat) pending outcome, front[place]? = some pending →
      pending.outcome = some outcome → ∃ request block, flying[place]? = some request ∧
        Written.IsWhole kind.shape ⟨request, pending, block⟩)
    {ticket : Nat} {request : Request} {outcome : Outcome} (hrequest : log[ticket]? = some request)
    (houtcome : (rows.map Written.pending ++ front)[ticket]?.bind (·.outcome) = some outcome) :
    ∃ block, outcome = kind.shape.verdict request block := by
  rw [hbrought.log_eq, List.append_assoc] at hrequest
  obtain ⟨pending, hpending, hsome⟩ := Option.bind_eq_some_iff.mp houtcome
  rcases Nat.lt_or_ge ticket rows.length with hwritten | hflying
  · rw [List.getElem?_append_left (by simpa using hwritten), List.getElem?_map,
      List.getElem?_eq_getElem hwritten] at hrequest hpending
    obtain rfl := Option.some.inj hrequest
    obtain rfl := Option.some.inj hpending
    have hwhole := hbrought.whole _ (List.getElem_mem hwritten)
    exact ⟨_, Option.some.inj (hsome.symm.trans hwhole.outcome_eq)⟩
  · rw [List.getElem?_append_right (by simpa using hflying), List.length_map]
      at hrequest hpending
    obtain ⟨own, block, hown, hwhole⟩ := hfront _ _ _ hpending hsome
    rw [List.getElem?_append_left (List.getElem?_eq_some_iff.mp hown).1, hown] at hrequest
    obtain rfl := Option.some.inj hrequest
    exact ⟨block, Option.some.inj (hsome.symm.trans hwhole.outcome_eq)⟩

/-- Whatever the thread with the election does, no request is told anything but
that it is in the table, or refused. -/
theorem Stands.verdict (hreliable : table.Reliable good) {stage : Option Activity}
    (hstands : Stands ledger good start log coordinator stage) {ticket : Ticket}
    {request : Request} {outcome : Outcome} (hrequest : log[ticket]? = some request)
    (houtcome : coordinator.outcome? (TableWriter.behaviour table kind.shape) ticket =
      some outcome) :
    ∃ block, outcome = kind.shape.verdict request block := by
  rw [outcome?_eq, known] at houtcome
  have hrests : Rests ledger good start log coordinator →
      ∃ block, outcome = kind.shape.verdict request block := by
    rintro ⟨writer, rows, waiting, hbrought, hsettled, hflight⟩
    rw [hsettled, inFlight, hflight] at houtcome
    exact hbrought.verdict (by simp) hrequest houtcome
  have hgathers : Gathers ledger good start log coordinator →
      ∃ block, outcome = kind.shape.verdict request block := by
    rintro ⟨writer, rows, flying, waiting, hbrought, hsettled, hflight⟩
    rw [hsettled, inFlight, hflight] at houtcome
    refine hbrought.verdict (fun place pending outcome hget hsome => ?_) hrequest houtcome
    obtain ⟨_, -, rfl⟩ := List.mem_map.mp (List.mem_of_getElem? hget)
    contradiction
  unfold Stands at hstands
  split at hstands
  next => exact hrests hstands
  next => exact hrests hstands
  next => exact hrests hstands
  next => exact hgathers hstands
  next => exact hgathers hstands
  next =>
    obtain ⟨writer, rows, flying, waiting, n, hbrought, hsettled, hflight⟩ := hstands
    rw [hsettled, inFlight, hflight] at houtcome
    exact hbrought.verdict (fun place pending outcome hget hsome =>
      TableWriter.exists_whole_of_outcome ledger.greedy hreliable hbrought.ready.good flying n
        hget hsome) hrequest houtcome
  next =>
    obtain ⟨-, writer, rows, landing, waiting, hbrought, hsettled, hflight⟩ := hstands
    rw [hsettled, inFlight, hflight, ← List.map_append, ← List.append_nil (List.map _ _)]
      at houtcome
    exact hbrought.verdict (by simp) hrequest houtcome
  next => exact hstands.elim

/-- A batch that is done has left one block for each of its requests. -/
theorem Writes.lands (hreliable : table.Reliable good)
    (hwrites : Writes ledger good start log coordinator)
    {work : Delivery σ} {state : TableWriter σ} {result : Except StoreError Unit}
    (hflight : coordinator.flight = .writing work)
    (hresult : (TableWriter.behaviour table kind.shape).result? work =
      some (result, state)) :
    result = .ok () ∧
      Lands ledger good start log
        { coordinator with flight := .resting state work.requests } := by
  obtain ⟨writer, rows, flying, waiting, n, hbrought, hsettled, hwriting⟩ := hwrites
  rw [hflight, Flight.writing.injEq] at hwriting
  simp only [TableWriter.behaviour] at hresult
  split at hresult
  next hfinished =>
    simp only [Option.some.injEq, Prod.mk.injEq] at hresult
    obtain ⟨rfl, rfl⟩ := hresult
    rw [hwriting] at hfinished
    obtain ⟨hok, hready, landing, hrequests, hpendings, hwhole, hheld⟩ :=
      TableWriter.exists_written hreliable hbrought.ready flying n hfinished
    rw [← hwriting] at hok hready hpendings hheld
    refine ⟨hok, TableWriter.ofDelivery work, rows, landing, waiting, ?_, hsettled,
      ?_⟩
    · constructor
      · rw [hbrought.log_eq, List.map_append, hrequests, List.append_nil]
      · exact hbrought.queue_eq
      · intro written hmem
        rcases List.mem_append.mp hmem with hold | hnew
        · exact hbrought.whole written hold
        · exact hwhole written hnew
      · exact hready
      · change ledger.held work.table = _
        rw [hheld, hbrought.held_eq, List.flatMap_append, List.append_assoc]
    · rw [hpendings]
  next => contradiction

theorem Lands.land (hlands : Lands ledger good start log coordinator) :
    Lands ledger good start log (coordinator.land (·.conclude (.ok ()))) := by
  obtain ⟨writer, rows, landing, waiting, hbrought, hsettled, hflight⟩ := hlands
  cases landing with
  | nil =>
      rw [land_of_resting_nil hflight]
      exact ⟨writer, rows, [], waiting, hbrought, hsettled, hflight⟩
  | cons written landing =>
      have hwhole := hbrought.whole written (by simp)
      have hsame : written.pending.conclude (.ok ()) = written.pending :=
        Pending.settle_of_outcome hwhole.outcome_eq _
      rw [land_of_resting_cons hflight, hsame]
      refine ⟨writer, rows ++ [written], landing, waiting, ?_, ?_, rfl⟩
      · rw [List.append_assoc]
        exact hbrought
      · simp [hsettled]

theorem Lands.rests (hlands : Lands ledger good start log coordinator)
    (hnone : coordinator.inFlight (TableWriter.behaviour table kind.shape) = []) :
    Rests ledger good start log coordinator := by
  obtain ⟨writer, rows, landing, waiting, hbrought, hsettled, hflight⟩ := hlands
  rw [inFlight, hflight] at hnone
  have hlanding : landing = [] := List.map_eq_nil_iff.mp hnone
  rw [hlanding] at hbrought hflight
  rw [List.append_nil] at hbrought
  exact ⟨writer, rows, waiting, hbrought, hsettled, hflight⟩

def stage (activity : Activity) : Option Activity :=
  if activity.holds then some activity else none

theorem stands_afterFlush {ticket : Option Ticket} (hticket : ticket.isSome = true)
    (result : Except StoreError Unit)
    (hrests : Rests ledger good start log coordinator) :
    Stands ledger good start log coordinator
      (stage (Thread.afterFlush result ticket)) := by
  cases ticket with
  | none => contradiction
  | some own => exact hrests

theorem Stands.move (hreliable : table.Reliable good) {thread next : Thread}
    (hmove : Thread.Move (TableWriter.behaviour table kind.shape) coordinator
      thread later next)
    (hholds : thread.activity.holds = true)
    (hpersisting : thread.activity.isPersisting = true)
    (hsealed : coordinator.sealed = false)
    (hstands : Stands ledger good start log coordinator (some thread.activity)) :
    Stands ledger good start log later (stage next.activity) := by
  cases hmove with
  | call hactivity | callClose hactivity | refuse hactivity | accept hactivity
  | push hactivity | see hactivity | miss hactivity | lose hactivity
  | claimLate hactivity | claim hactivity =>
      rw [hactivity] at hholds
      contradiction
  | win hactivity hwhy =>
      rw [hactivity] at hholds
      rcases hwhy with ⟨own, rfl, _⟩ | ⟨rfl, _⟩ <;> contradiction
  | forbid hactivity | close hactivity | leave hactivity =>
      rw [hactivity] at hpersisting
      contradiction
  | count hactivity =>
      rw [hactivity] at hstands
      exact hstands.gathers
  | popEnd hactivity =>
      rw [hactivity] at hstands
      exact hstands
  | pop hactivity =>
      rw [hactivity] at hstands
      exact hstands.pop
  | decideNothing hactivity hflight =>
      rw [hactivity] at hstands hpersisting
      apply stands_afterFlush hpersisting
      obtain ⟨writer, rows, flying, waiting, hbrought, hsettled, hresting⟩ := hstands
      rw [hflight, Flight.resting.injEq] at hresting
      obtain ⟨rfl, hnone⟩ := hresting
      have hflying : flying = [] := List.map_eq_nil_iff.mp hnone.symm
      rw [hflying] at hbrought
      exact ⟨_, rows, waiting, hbrought, hsettled, hflight⟩
  | decideReject hactivity hflight hrequests hother =>
      rw [hsealed] at hother
      contradiction
  | decideWrite hactivity hflight =>
      rw [hactivity] at hstands
      obtain ⟨writer, rows, flying, waiting, hbrought, hsettled, hresting⟩ := hstands
      rw [hflight, Flight.resting.injEq] at hresting
      obtain ⟨rfl, rfl⟩ := hresting
      exact ⟨_, rows, flying, waiting, 0, hbrought, hsettled, rfl⟩
  | rejectEnd hactivity | reject hactivity =>
      rw [hactivity] at hstands
      exact hstands.elim
  | write hactivity hflight =>
      rw [hactivity] at hstands
      obtain ⟨writer, rows, flying, waiting, n, hbrought, hsettled, hwriting⟩ :=
        hstands
      rw [hflight, Flight.writing.injEq] at hwriting
      rw [hactivity]
      refine ⟨writer, rows, flying, waiting, n + 1, hbrought, hsettled, ?_⟩
      rw [Chronicle.after_succ, Chronicle.step_delivery, ← hwriting]
      rfl
  | written hactivity hflight hresult =>
      rw [hactivity] at hstands
      exact hstands.lands hreliable hflight hresult
  | landEnd hactivity hnone =>
      rw [hactivity] at hstands hpersisting
      exact stands_afterFlush hpersisting _ (hstands.2.rests hnone)
  | land hactivity =>
      rw [hactivity] at hstands
      obtain ⟨rfl, hlands⟩ := hstands
      rw [hactivity]
      exact ⟨rfl, hlands.land⟩
  | release hactivity =>
      rw [hactivity] at hstands
      exact hstands
  | stay =>
      rw [stage, if_pos hholds]
      exact hstands

theorem Brought.nextTicket_eq {writer : TableWriter σ}
    {rows landing : List (Written kind.Entry)} {flying waiting : List Request}
    (hbrought : Brought ledger good start log coordinator.queue writer
      (rows ++ landing) flying waiting)
    (hsettled : coordinator.settled.toList = rows.map Written.pending)
    (hflight : (coordinator.inFlight
      (TableWriter.behaviour table kind.shape)).length =
        landing.length + flying.length) :
    coordinator.nextTicket (TableWriter.behaviour table kind.shape) =
      log.length := by
  have hsize : coordinator.settled.size = rows.length := by
    rw [← Array.length_toList, hsettled, List.length_map]
  have hlog := congrArg List.length hbrought.log_eq
  simp only [List.length_append, List.length_map] at hlog
  rw [nextTicket, hsize, hflight, hbrought.queue_eq, List.length_map, hlog,
    ← Nat.add_assoc]

theorem Stands.nextTicket_eq {stage : Option Activity}
    (hstands : Stands ledger good start log coordinator stage) :
    coordinator.nextTicket (TableWriter.behaviour table kind.shape) =
      log.length := by
  have hgathers : Gathers ledger good start log coordinator →
      coordinator.nextTicket (TableWriter.behaviour table kind.shape) =
        log.length := by
    rintro ⟨writer, rows, flying, waiting, hbrought, hsettled, hflight⟩
    rw [← List.append_nil rows] at hbrought
    refine hbrought.nextTicket_eq hsettled ?_
    simp [inFlight, hflight]
  unfold Stands at hstands
  split at hstands
  next => exact hgathers hstands.gathers
  next => exact hgathers hstands.gathers
  next => exact hgathers hstands.gathers
  next => exact hgathers hstands
  next => exact hgathers hstands
  next =>
    obtain ⟨writer, rows, flying, waiting, n, hbrought, hsettled, hflight⟩ := hstands
    rw [← List.append_nil rows] at hbrought
    refine hbrought.nextTicket_eq hsettled ?_
    have hregular := Chronicle.regular_after table kind.shape_lawful writer flying n
    simp [inFlight, hflight, TableWriter.behaviour, hregular.length_eq]
  next =>
    obtain ⟨_, writer, rows, landing, waiting, hbrought, hsettled, hflight⟩ := hstands
    refine hbrought.nextTicket_eq hsettled ?_
    simp [inFlight, hflight]
  next => exact hstands.elim

end Coordinator

theorem TableWriter.behaviour_keeps {σ E : Type} (table : Table σ E)
    (shape : Shape E) :
    (behaviour table shape).Keeps fun delivery =>
      ∃ calls current, Chronicle.Tidy (E := E) ⟨delivery, calls, current⟩ where
  valid_start state batch := ⟨[], [], rfl, rfl, rfl⟩
  valid_step := by
    rintro delivery ⟨calls, current, htidy⟩
    let before : Chronicle σ E := ⟨delivery, calls, current⟩
    have hlater := htidy.move (Chronicle.step_move table shape before)
    refine ⟨(before.step table shape).calls, (before.step table shape).current, ?_⟩
    have hdelivery : (behaviour table shape).step delivery =
        (before.step table shape).delivery :=
      (Chronicle.step_delivery table shape before).symm
    rw [hdelivery]
    exact hlater
  requests_start state batch := by
    simp [behaviour, deliver, Delivery.requests]
  requests_step := by
    rintro delivery ⟨calls, current, htidy⟩
    have hmove := Chronicle.step_move table shape ⟨delivery, calls, current⟩
    have hkeep := hmove.requests_keep htidy
    rwa [Chronicle.step_delivery] at hkeep

end MessageStore
