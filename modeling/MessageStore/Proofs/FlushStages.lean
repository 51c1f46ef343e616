import MessageStore.Proofs.ClosingOrder
import MessageStore.Proofs.CoordinatorTickets

/-!
# The stages of a flush

How the requests stand by what the thread with the election is about to do.
Those in flight have not been part of a call of the writer until the flush
decides to write them, and are all part of its last call from then on.  The
flush of the first close leaves no request behind that was pushed before the
closed flag was on: it takes as many requests as it finds in the queue, and
nobody else takes any in the meantime.
-/

namespace MessageStore

section Record

variable {E : Type}

/-- A close has turned the closed flag on, and all requests pushed before have
tickets below the bound. -/
def Promised (log : List (Event E)) (bound : Nat) : Prop :=
  Claimed log ∧ ∀ ticket : Nat, ticket ∈ early log → ticket < bound

theorem Promised.append {log : List (Event E)} {bound : Nat}
    (hpromised : Promised log bound) (more : List (Event E)) :
    Promised (log ++ more) bound := by
  refine ⟨hpromised.1.append more, ?_⟩
  rw [early_append_of_claimed hpromised.1]
  exact hpromised.2

theorem Promised.mono {log : List (Event E)} {bound other : Nat}
    (hpromised : Promised log bound) (hle : bound ≤ other) :
    Promised log other :=
  ⟨hpromised.1, fun ticket hearly => (hpromised.2 ticket hearly).trans_le hle⟩

/-- The requests in flight, from one ticket on, are what is left of the last
call of the writer, which was made in the call of the thread. -/
structure Called (log : List (Event E)) (index number place count : Nat) :
    Prop where
  begun : ∃ first total : Nat, ⟨index, number, .batch first total⟩ ∈ log ∧
    first ≤ place ∧ place + count = first + total
  taken_lt : ∀ ticket : Nat, Taken log ticket → ticket < place + count

theorem Called.taken {log : List (Event E)} {index number place count : Nat}
    (hcalled : Called log index number place count) {ticket : Nat}
    (hle : place ≤ ticket) (hlt : ticket < place + count) :
    ∃ first total : Nat, ⟨index, number, .batch first total⟩ ∈ log ∧ first ≤ ticket ∧
      ticket < first + total := by
  obtain ⟨first, total, hmem, hfirst, hsum⟩ := hcalled.begun
  exact ⟨first, total, hmem, by omega, by omega⟩

theorem Called.append_noted {log : List (Event E)}
    {index number place count : Nat}
    (hcalled : Called log index number place count) {deed : Option (Deed E)}
    (hquiet : ∀ first count, deed ≠ some (.batch first count)) (other n : Nat) :
    Called (log ++ noted other n deed) index number place count := by
  constructor
  · obtain ⟨first, total, hmem, hbounds⟩ := hcalled.begun
    exact ⟨first, total, List.mem_append_left _ hmem, hbounds⟩
  · intro ticket htaken
    rcases taken_append_noted.mp htaken with hold | ⟨first, count, hbatch, _⟩
    · exact hcalled.taken_lt ticket hold
    · exact absurd hbatch (hquiet first count)

/-- How a request may have ended: by a call of the writer that it was part of,
or refused without one, if it was not early. -/
inductive Concluded (log : List (Event E)) (ticket : Nat) : Outcome → Prop
  | written {outcome : Outcome} (htaken : Taken log ticket)
      (hne : outcome ≠ .error .closed) : Concluded log ticket outcome
  | refused (hnot : ¬Taken log ticket) (hlate : ticket ∉ early log) :
      Concluded log ticket (.error .closed)

end Record

/-- A writer that never tells a request that the writer is closed, and makes
entries for the requests of its batch only. -/
structure RequestWriter.Spares {ω μ E : Type} (writer : RequestWriter ω μ)
    (act : μ → Option (TableAct E)) (honest : μ → Prop) : Prop where
  start : ∀ (state : ω) (requests : List Request),
    honest (writer.start state (requests.map Pending.fresh))
  step : ∀ {work}, honest work → honest (writer.step work)
  outcome_ne : ∀ {work}, honest work → ∀ pending ∈ writer.requests work,
    pending.outcome ≠ some (.error .closed)
  owner_lt : ∀ {work handed}, honest work → act work = some (.take handed) →
    handed.owner < (writer.requests work).length

namespace Coordinator

section Stages

variable {ω μ E : Type} (writer : RequestWriter ω μ) (honest : μ → Prop)

/-- The requests in flight have not been part of a call of the writer. -/
structure Gathered (log : List (Event E)) (coordinator : Coordinator ω μ)
    (requests : List Request) : Prop where
  flight_eq : ∃ state,
    coordinator.flight = .resting state (requests.map Pending.fresh)
  taken_lt : ∀ ticket : Nat, Taken log ticket → ticket < coordinator.settled.size

/-- The writer is at work on the requests in flight. -/
structure AtWork (log : List (Event E)) (coordinator : Coordinator ω μ)
    (index number : Nat) (work : μ) : Prop where
  flight_eq : coordinator.flight = .writing work
  honest : honest work
  sealed_eq : coordinator.sealed = false
  called : Called log index number coordinator.settled.size
    (writer.requests work).length

/-- The requests in flight are being handed back after a call of the writer. -/
structure HandsBack (log : List (Event E)) (coordinator : Coordinator ω μ)
    (index number : Nat) (requests : List Pending) : Prop where
  flight_eq : ∃ state, coordinator.flight = .resting state requests
  outcome_ne : ∀ pending ∈ requests, pending.outcome ≠ some (.error .closed)
  called : Called log index number coordinator.settled.size requests.length

/-- How the requests stand when a call of a thread with the election comes to
the activity.  Only the flush of the first close has no ticket. -/
def Stage (log : List (Event E)) (coordinator : Coordinator ω μ)
    (index number : Nat) : Activity → Prop
  | .flushing .counting _ => Gathered log coordinator []
  | .flushing (.popping left) ticket =>
    left ≤ coordinator.queue.length ∧ ∃ requests,
      Gathered log coordinator requests ∧ (ticket = none →
        Promised log (coordinator.settled.size + requests.length + left))
  | .flushing .deciding ticket =>
    ∃ requests, Gathered log coordinator requests ∧ (ticket = none →
      Promised log (coordinator.settled.size + requests.length))
  | .flushing .rejecting _ =>
    coordinator.sealed = true ∧ ∃ requests, Gathered log coordinator requests
  | .flushing .writing ticket =>
    ∃ work, AtWork writer honest log coordinator index number work ∧
      (ticket = none → Promised log
        (coordinator.settled.size + (writer.requests work).length))
  | .flushing (.landing _) ticket =>
    ∃ requests, HandsBack log coordinator index number requests ∧
      (ticket = none →
        Promised log (coordinator.settled.size + requests.length))
  | .sealing _ =>
    Gathered log coordinator [] ∧ Promised log coordinator.settled.size
  | activity => activity.holds = true ∧ Gathered log coordinator []

/-- The requests stand as the thread with the election says; nothing is in
flight if there is none. -/
def StandsAt (log : List (Event E)) (coordinator : Coordinator ω μ) :
    Option (Nat × Thread) → Prop
  | none => Gathered log coordinator []
  | some (index, thread) =>
    Stage writer honest log coordinator index thread.returns.length
      thread.activity

/-- What holds of all requests, whoever has the election. -/
structure Accounted (log : List (Event E)) (coordinator : Coordinator ω μ) :
    Prop where
  settled : ∀ (ticket : Nat) (pending : Pending),
    coordinator.settled[ticket]? = some pending → ∃ outcome,
      pending.outcome = some outcome ∧ Concluded log ticket outcome
  queued : ∃ requests : List Request, coordinator.queue = requests.map Pending.fresh
  entries : ∀ event ∈ log, ∀ ticket : Nat, event.EntryOf ticket → Taken log ticket
  tickets_eq : tickets (log.map Event.deed) =
    List.range (coordinator.nextTicket writer)
  promised : coordinator.sealed = true → Promised log coordinator.settled.size

end Stages

section Moves

variable {ω μ E : Type} {writer : RequestWriter ω μ} {honest valid : μ → Prop}
  {act : μ → Option (TableAct E)} {coordinator later : Coordinator ω μ}
  {log : List (Event E)} {requests : List Request} {index number : Nat}

theorem Gathered.append_noted (hgathered : Gathered log coordinator requests)
    {deed : Option (Deed E)}
    (hquiet : ∀ first count, deed ≠ some (.batch first count)) (index number : Nat) :
    Gathered (log ++ noted index number deed) coordinator requests := by
  refine ⟨hgathered.flight_eq, ?_⟩
  intro ticket htaken
  rcases taken_append_noted.mp htaken with hold | ⟨first, count, hbatch, _⟩
  · exact hgathered.taken_lt ticket hold
  · exact absurd hbatch (hquiet first count)

theorem Gathered.congr (hgathered : Gathered log coordinator requests)
    (hflight : later.flight = coordinator.flight)
    (hsettled : later.settled = coordinator.settled) :
    Gathered log later requests := by
  refine ⟨?_, ?_⟩
  · rw [hflight]
    exact hgathered.flight_eq
  · rw [hsettled]
    exact hgathered.taken_lt

/-- What threads without the election do leaves the stage as it is. -/
theorem Stage.frame {activity : Activity}
    (hstage : Stage writer honest log coordinator index number activity)
    (hqueue : coordinator.queue.length ≤ later.queue.length)
    (hflight : later.flight = coordinator.flight)
    (hsettled : later.settled = coordinator.settled)
    (hsealed : later.sealed = coordinator.sealed) {deed : Option (Deed E)}
    (hquiet : ∀ first count, deed ≠ some (.batch first count)) (other n : Nat) :
    Stage writer honest (log ++ noted other n deed) later index number activity := by
  have hgathered : ∀ {requests : List Request}, Gathered log coordinator requests →
      Gathered (log ++ noted other n deed) later requests :=
    fun hold => (hold.congr hflight hsettled).append_noted hquiet other n
  have hpromised : ∀ {ticket : Option Ticket} {bound : Nat},
      (ticket = none → Promised log bound) →
        (ticket = none → Promised (log ++ noted other n deed) bound) :=
    fun hold hnone => (hold hnone).append _
  unfold Stage at hstage ⊢
  split at hstage
  next => exact hgathered hstage
  next =>
    obtain ⟨hleft, requests, hold, hbound⟩ := hstage
    rw [hsettled]
    exact ⟨hleft.trans hqueue, requests, hgathered hold, hpromised hbound⟩
  next =>
    obtain ⟨requests, hold, hbound⟩ := hstage
    rw [hsettled]
    exact ⟨requests, hgathered hold, hpromised hbound⟩
  next =>
    obtain ⟨hsealedOn, requests, hold⟩ := hstage
    exact ⟨hsealed.trans hsealedOn, requests, hgathered hold⟩
  next =>
    obtain ⟨work, hwork, hbound⟩ := hstage
    rw [hsettled]
    refine ⟨work, ⟨hflight.trans hwork.flight_eq, hwork.honest,
      hsealed.trans hwork.sealed_eq, ?_⟩, hpromised hbound⟩
    rw [hsettled]
    exact hwork.called.append_noted hquiet other n
  next =>
    obtain ⟨requests, hback, hbound⟩ := hstage
    rw [hsettled]
    obtain ⟨state, hresting⟩ := hback.flight_eq
    refine ⟨requests, ⟨⟨state, hflight.trans hresting⟩, hback.outcome_ne, ?_⟩,
      hpromised hbound⟩
    rw [hsettled]
    exact hback.called.append_noted hquiet other n
  next =>
    rw [hsettled]
    exact ⟨hgathered hstage.1, hstage.2.append _⟩
  next => exact ⟨hstage.1, hgathered hstage.2⟩

/-! ## The thread with the election -/

def holding (index : Nat) (thread : Thread) : Option (Nat × Thread) :=
  if thread.activity.holds then some (index, thread) else none

theorem standsAt_holding {thread : Thread} (hholds : thread.activity.holds = true)
    (hstage : Stage writer honest log coordinator index thread.returns.length
      thread.activity) :
    StandsAt writer honest log coordinator (holding index thread) := by
  rw [holding, if_pos hholds]
  exact hstage

theorem Stage.holds {activity : Activity}
    (hstage : Stage writer honest log coordinator index number activity) :
    activity.holds = true := by
  unfold Stage at hstage
  split at hstage
  case h_8 => exact hstage.1
  all_goals rfl

theorem Gathered.nextTicket_eq (writer : RequestWriter ω μ)
    (hgathered : Gathered log coordinator requests) :
    coordinator.nextTicket writer =
      coordinator.settled.size + requests.length + coordinator.queue.length := by
  obtain ⟨state, hflight⟩ := hgathered.flight_eq
  simp [nextTicket, inFlight, hflight]

theorem Gathered.eq_nil (writer : RequestWriter ω μ)
    (hgathered : Gathered log coordinator requests)
    (hnone : coordinator.inFlight writer = []) : requests = [] := by
  obtain ⟨state, hflight⟩ := hgathered.flight_eq
  rw [inFlight, hflight] at hnone
  exact List.map_eq_nil_iff.mp hnone

theorem Gathered.requests_eq (hgathered : Gathered log coordinator requests) {state : ω}
    {pendings : List Pending} (hflight : coordinator.flight = .resting state pendings) :
    pendings = requests.map Pending.fresh := by
  obtain ⟨other, hresting⟩ := hgathered.flight_eq
  rw [hflight, Flight.resting.injEq] at hresting
  exact hresting.2

theorem Stage.atWork {ticket : Option Ticket} {work : μ}
    (hstage : Stage writer honest log coordinator index number
      (.flushing .writing ticket))
    (hflight : coordinator.flight = .writing work) :
    AtWork writer honest log coordinator index number work ∧ (ticket = none →
      Promised log (coordinator.settled.size + (writer.requests work).length)) := by
  obtain ⟨other, hwork, hbound⟩ := hstage
  have hsame := hwork.flight_eq
  rw [hflight, Flight.writing.injEq] at hsame
  subst hsame
  exact ⟨hwork, hbound⟩

theorem Stage.handsBack {ticket : Option Ticket} {result : Except StoreError Unit}
    {state : ω} {pendings : List Pending}
    (hstage : Stage writer honest log coordinator index number
      (.flushing (.landing result) ticket))
    (hflight : coordinator.flight = .resting state pendings) :
    HandsBack log coordinator index number pendings ∧ (ticket = none →
      Promised log (coordinator.settled.size + pendings.length)) := by
  obtain ⟨requests, hback, hbound⟩ := hstage
  obtain ⟨other, hresting⟩ := hback.flight_eq
  rw [hflight, Flight.resting.injEq] at hresting
  obtain ⟨_, rfl⟩ := hresting
  exact ⟨hback, hbound⟩

theorem Accounted.early_lt (haccounted : Accounted writer log coordinator)
    {ticket : Nat} (hearly : ticket ∈ early log) :
    ticket < coordinator.nextTicket writer := by
  have hmem := mem_tickets_of_early hearly
  rw [haccounted.tickets_eq] at hmem
  exact List.mem_range.mp hmem

theorem stage_afterFlush (hgathered : Gathered log coordinator [])
    {ticket : Option Ticket}
    (hbound : ticket = none → Promised log coordinator.settled.size)
    (result : Except StoreError Unit) :
    Stage writer honest log coordinator index number
      (Thread.afterFlush result ticket) := by
  cases ticket with
  | none => exact ⟨hgathered, hbound rfl⟩
  | some own => exact ⟨rfl, hgathered⟩

theorem Stage.pop {left : Nat} {ticket : Option Ticket}
    (haccounted : Accounted writer log coordinator)
    (hstage : Stage writer honest log coordinator index number
      (.flushing (.popping (left + 1)) ticket)) :
    Stage writer honest log coordinator.pop index number
      (.flushing (.popping left) ticket) := by
  obtain ⟨hleft, requests, hgathered, hbound⟩ := hstage
  obtain ⟨waiting, hqueue⟩ := haccounted.queued
  obtain ⟨state, hflight⟩ := hgathered.flight_eq
  cases waiting with
  | nil =>
      rw [hqueue] at hleft
      contradiction
  | cons request waiting =>
      have hpop := pop_of_resting hqueue hflight
      rw [← List.map_singleton, ← List.map_append] at hpop
      rw [hqueue, List.map_cons, List.length_cons] at hleft
      rw [hpop]
      refine ⟨Nat.le_of_succ_le_succ hleft, requests ++ [request],
        ⟨⟨state, rfl⟩, hgathered.taken_lt⟩, ?_⟩
      intro hnone
      apply (hbound hnone).mono
      simp only [List.length_append, List.length_singleton]
      omega

theorem Stage.decideWrite (hkeeps : writer.Keeps valid)
    (hspares : writer.Spares act honest) {ticket : Option Ticket} {state : ω}
    {pendings : List Pending}
    (hstage : Stage writer honest log coordinator index number
      (.flushing .deciding ticket))
    (hflight : coordinator.flight = .resting state pendings)
    (hsealed : coordinator.sealed = false) :
    Stage writer honest
      (log ++ noted index number
        (some (.batch coordinator.settled.size pendings.length)))
      { coordinator with flight := .writing (writer.start state pendings) } index
      number (.flushing .writing ticket) := by
  obtain ⟨requests, hgathered, hbound⟩ := hstage
  obtain rfl := hgathered.requests_eq hflight
  refine ⟨_, ⟨rfl, hspares.start state requests, hsealed, ?_⟩, ?_⟩
  · rw [hkeeps.requests_start]
    constructor
    · refine ⟨coordinator.settled.size, _, ?_, Nat.le_refl _, rfl⟩
      exact mem_append_noted.mpr (Or.inr ⟨_, rfl, rfl⟩)
    · intro ticket htaken
      rcases taken_append_noted.mp htaken with hold | ⟨first, count, hbatch, _, hlt⟩
      · exact (hgathered.taken_lt ticket hold).trans_le (Nat.le_add_right _ _)
      · cases hbatch
        exact hlt
  · intro hnone
    rw [hkeeps.requests_start, List.length_map]
    exact (hbound hnone).append _

theorem Stage.reject {ticket : Option Ticket}
    (hstage : Stage writer honest log coordinator index number
      (.flushing .rejecting ticket)) (settle : Pending → Pending) :
    Stage writer honest log (coordinator.land settle) index number
      (.flushing .rejecting ticket) := by
  obtain ⟨hsealed, requests, hgathered⟩ := hstage
  obtain ⟨state, hflight⟩ := hgathered.flight_eq
  cases requests with
  | nil =>
      rw [land_of_resting_nil hflight]
      exact ⟨hsealed, [], hgathered⟩
  | cons request requests =>
      rw [land_of_resting_cons hflight]
      refine ⟨hsealed, requests, ⟨state, rfl⟩, ?_⟩
      intro ticket htaken
      rw [Array.size_push]
      exact Nat.lt_succ_of_lt (hgathered.taken_lt ticket htaken)

theorem Stage.land {ticket : Option Ticket} {result : Except StoreError Unit}
    (hstage : Stage writer honest log coordinator index number
      (.flushing (.landing result) ticket)) (settle : Pending → Pending) :
    Stage writer honest log (coordinator.land settle) index number
      (.flushing (.landing result) ticket) := by
  obtain ⟨requests, hback, hbound⟩ := hstage
  obtain ⟨state, hflight⟩ := hback.flight_eq
  cases requests with
  | nil =>
      rw [land_of_resting_nil hflight]
      exact ⟨[], hback, hbound⟩
  | cons pending requests =>
      have hsize : coordinator.settled.size + (pending :: requests).length =
          (coordinator.settled.push (settle pending)).size + requests.length := by
        rw [Array.size_push, List.length_cons]
        omega
      obtain ⟨first, total, hmem, hfirst, hsum⟩ := hback.called.begun
      rw [land_of_resting_cons hflight]
      refine ⟨requests, ⟨⟨state, rfl⟩, ?_, ?_, ?_⟩, ?_⟩
      · intro other hother
        exact hback.outcome_ne other (List.mem_cons_of_mem _ hother)
      · refine ⟨first, total, hmem, ?_, ?_⟩
        · rw [Array.size_push]
          exact Nat.le_succ_of_le hfirst
        · rw [← hsize, hsum]
      · intro ticket htaken
        rw [← hsize]
        exact hback.called.taken_lt ticket htaken
      · rw [← hsize]
        exact hbound

theorem Stage.write (hkeeps : writer.Keeps valid)
    (hvalid : coordinator.WorkValid valid) (hspares : writer.Spares act honest)
    {ticket : Option Ticket} {work : μ}
    (hstage : Stage writer honest log coordinator index number
      (.flushing .writing ticket))
    (hflight : coordinator.flight = .writing work) :
    Stage writer honest
      (log ++ noted index number
        (some (.work coordinator.settled.size (act work))))
      { coordinator with flight := .writing (writer.step work) } index number
      (.flushing .writing ticket) := by
  obtain ⟨hwork, hbound⟩ := hstage.atWork hflight
  have hlength := (hkeeps.requests_step (hvalid work hflight)).length_eq
  refine ⟨_, ⟨rfl, hspares.step hwork.honest, hwork.sealed_eq, ?_⟩, ?_⟩
  · rw [← hlength]
    exact hwork.called.append_noted (by simp) index number
  · intro hnone
    rw [← hlength]
    exact (hbound hnone).append _

theorem Stage.written (hspares : writer.Spares act honest)
    {ticket : Option Ticket} {work : μ} {state : ω}
    {result : Except StoreError Unit}
    (hstage : Stage writer honest log coordinator index number
      (.flushing .writing ticket))
    (hflight : coordinator.flight = .writing work) :
    Stage writer honest (log ++ noted index number (some (.wrote result)))
      { coordinator with flight := .resting state (writer.requests work) } index
      number (.flushing (.landing result) ticket) := by
  obtain ⟨hwork, hbound⟩ := hstage.atWork hflight
  refine ⟨writer.requests work, ⟨⟨state, rfl⟩, hspares.outcome_ne hwork.honest,
    ?_⟩, ?_⟩
  · exact hwork.called.append_noted (by simp) index number
  · intro hnone
    exact (hbound hnone).append _

/-- The requests in the queue are counted: every request pushed so far is settled or
one of them. -/
theorem Stage.count {ticket : Option Ticket} (haccounted : Accounted writer log coordinator)
    (hclaimed : ticket = none → Claimed log)
    (hstage : Stage writer honest log coordinator index number
      (.flushing .counting ticket)) :
    Stage writer honest log coordinator index number
      (.flushing (.popping coordinator.queue.length) ticket) := by
  have hgathered : Gathered log coordinator [] := hstage
  refine ⟨Nat.le_refl _, [], hgathered, fun hnone => ⟨hclaimed hnone, fun ticket hearly => ?_⟩⟩
  rw [← hgathered.nextTicket_eq writer]
  exact haccounted.early_lt hearly

theorem Stage.decideNothing {ticket : Option Ticket} {state : ω}
    (hstage : Stage writer honest log coordinator index number
      (.flushing .deciding ticket))
    (hflight : coordinator.flight = .resting state []) (result : Except StoreError Unit) :
    Stage writer honest log coordinator index number
      (Thread.afterFlush result ticket) := by
  obtain ⟨requests, hgathered, hbound⟩ := hstage
  obtain rfl := hgathered.eq_nil writer (by rw [inFlight, hflight])
  exact stage_afterFlush hgathered hbound result

theorem Stage.rejectEnd {ticket : Option Ticket}
    (haccounted : Accounted writer log coordinator)
    (hstage : Stage writer honest log coordinator index number
      (.flushing .rejecting ticket))
    (hnone : coordinator.inFlight writer = []) (result : Except StoreError Unit) :
    Stage writer honest log coordinator index number
      (Thread.afterFlush result ticket) := by
  obtain ⟨hsealed, requests, hgathered⟩ := hstage
  obtain rfl := hgathered.eq_nil writer hnone
  exact stage_afterFlush hgathered (fun _ => haccounted.promised hsealed) result

theorem Stage.landEnd {ticket : Option Ticket} {result : Except StoreError Unit}
    (hstage : Stage writer honest log coordinator index number
      (.flushing (.landing result) ticket))
    (hnone : coordinator.inFlight writer = []) :
    Stage writer honest log coordinator index number
      (Thread.afterFlush result ticket) := by
  obtain ⟨requests, hback, hbound⟩ := hstage
  obtain ⟨state, hflight⟩ := hback.flight_eq
  rw [inFlight, hflight] at hnone
  obtain rfl : requests = [] := hnone
  exact stage_afterFlush ⟨⟨state, hflight⟩, hback.called.taken_lt⟩ hbound result

theorem Stage.close {flushed : Except StoreError Unit} {state after : ω}
    {pendings : List Pending} {result : Except WriteError Unit} {deed : Deed E}
    (hquiet : ∀ first count, some deed ≠ some (.batch first count))
    (hstage : Stage writer honest log coordinator index number (.closing flushed))
    (hflight : coordinator.flight = .resting state pendings) :
    Stage writer honest (log ++ noted index number (some deed))
      { coordinator with flight := .resting after pendings } index number
      (.leaving result) := by
  obtain rfl := hstage.2.requests_eq hflight
  refine ⟨rfl, Gathered.append_noted ?_ hquiet _ _⟩
  exact ⟨⟨after, rfl⟩, hstage.2.taken_lt⟩

section Kinds

variable {thread next : Thread} {activity : Activity}

/-- A step with a deed, or without one, that keeps the election. -/
theorem Stage.keeps {deed : Option (Deed E)} (hactivity : thread.activity = activity)
    (hdeed : thread.deed? writer act coordinator = deed)
    (hstage : Stage writer honest log coordinator index thread.returns.length
      thread.activity)
    (hholds : next.activity.holds = true) (hreturns : next.returns = thread.returns)
    (hnext : Stage writer honest log coordinator index thread.returns.length activity →
      Stage writer honest (log ++ noted index thread.returns.length deed) later index
        thread.returns.length next.activity) :
    StandsAt writer honest
      (log ++ noted index thread.returns.length
        (thread.deed? writer act coordinator)) later (holding index next) := by
  rw [hdeed]
  refine standsAt_holding hholds ?_
  rw [hreturns]
  exact hnext (hactivity ▸ hstage)

theorem Stage.keeps_quiet (hactivity : thread.activity = activity)
    (hnone : thread.deed? writer act coordinator = none)
    (hstage : Stage writer honest log coordinator index thread.returns.length
      thread.activity)
    (hholds : next.activity.holds = true) (hreturns : next.returns = thread.returns)
    (hnext : Stage writer honest log coordinator index thread.returns.length activity →
      Stage writer honest log later index thread.returns.length next.activity) :
    StandsAt writer honest
      (log ++ noted index thread.returns.length
        (thread.deed? writer act coordinator)) later (holding index next) := by
  refine hstage.keeps hactivity hnone hholds hreturns ?_
  rw [append_noted_none]
  exact hnext

/-- A step that gives the election up. -/
theorem Stage.gives_up (hquiet : activity.isQuiet = true)
    (hactivity : thread.activity = activity)
    (hstage : Stage writer honest log coordinator index thread.returns.length
      thread.activity)
    (hnext : Stage writer honest log coordinator index thread.returns.length activity →
      Gathered log coordinator [])
    (hflight : later.flight = coordinator.flight)
    (hsettled : later.settled = coordinator.settled) :
    StandsAt writer honest
      (log ++ noted index thread.returns.length
        (thread.deed? writer act coordinator)) later none := by
  rw [Thread.deed?_of_isQuiet hactivity hquiet, append_noted_none]
  exact (hnext (hactivity ▸ hstage)).congr hflight hsettled

end Kinds

variable {thread next : Thread}

theorem Stage.move (hkeeps : writer.Keeps valid)
    (hvalid : coordinator.WorkValid valid) (hspares : writer.Spares act honest)
    (haccounted : Accounted writer log coordinator)
    (hclaimed : thread.activity.isClosing = true → Claimed log)
    (hstage : Stage writer honest log coordinator index thread.returns.length
      thread.activity)
    (hmove : Thread.Move writer coordinator thread later next) :
    StandsAt writer honest
      (log ++ noted index thread.returns.length
        (thread.deed? writer act coordinator)) later (holding index next) := by
  have hholds := hstage.holds
  cases hmove with
  | call hactivity | callClose hactivity | refuse hactivity | accept hactivity
  | push hactivity | see hactivity | miss hactivity | lose hactivity
  | claimLate hactivity | claim hactivity =>
      rw [hactivity] at hholds
      contradiction
  | win hactivity hwhy =>
      rw [hactivity] at hholds
      rcases hwhy with ⟨own, rfl, _⟩ | ⟨rfl, _⟩ <;> contradiction
  | count hactivity =>
      exact hstage.keeps_quiet hactivity (Thread.deed?_of_isQuiet hactivity rfl) rfl rfl
        fun hcounting => hcounting.count haccounted fun hnone =>
          hclaimed (by rw [hactivity, hnone]; rfl)
  | popEnd hactivity =>
      exact hstage.keeps_quiet hactivity (Thread.deed?_of_isQuiet hactivity rfl) rfl rfl
        And.right
  | pop hactivity =>
      exact hstage.keeps_quiet hactivity (Thread.deed?_of_isQuiet hactivity rfl) rfl rfl
        fun hpopping => hpopping.pop haccounted
  | decideNothing hactivity hflight =>
      exact hstage.keeps_quiet hactivity
        (Thread.deed?_of_unwritten hactivity hflight (Or.inl rfl))
        (Thread.holds_afterFlush _ _) rfl fun hdeciding => hdeciding.decideNothing hflight _
  | decideReject hactivity hflight hrequests hsealed =>
      refine hstage.keeps_quiet hactivity
        (Thread.deed?_of_unwritten hactivity hflight (Or.inr hsealed)) rfl rfl
        fun hdeciding => ?_
      obtain ⟨requests, hgathered, -⟩ := hdeciding
      exact ⟨hsealed, requests, hgathered⟩
  | decideWrite hactivity hflight hrequests hsealed =>
      exact hstage.keeps hactivity
        (Thread.deed?_of_batch hactivity hflight hrequests hsealed) rfl rfl
        fun hdeciding => hdeciding.decideWrite hkeeps hspares hflight hsealed
  | rejectEnd hactivity hnone =>
      exact hstage.keeps_quiet hactivity (Thread.deed?_of_isQuiet hactivity rfl)
        (Thread.holds_afterFlush _ _) rfl
        fun hrejecting => hrejecting.rejectEnd haccounted hnone _
  | reject hactivity =>
      refine hstage.keeps_quiet hactivity (Thread.deed?_of_isQuiet hactivity rfl) hholds rfl
        fun hrejecting => ?_
      rw [hactivity]
      exact hrejecting.reject _
  | write hactivity hflight hresult =>
      refine hstage.keeps hactivity (Thread.deed?_of_work hactivity hflight hresult) hholds rfl
        fun hwriting => ?_
      rw [hactivity]
      exact hwriting.write hkeeps hvalid hspares hflight
  | written hactivity hflight hresult =>
      exact hstage.keeps hactivity (Thread.deed?_of_wrote hactivity hflight hresult) rfl rfl
        fun hwriting => hwriting.written hspares hflight
  | landEnd hactivity hnone =>
      exact hstage.keeps_quiet hactivity (Thread.deed?_of_isQuiet hactivity rfl)
        (Thread.holds_afterFlush _ _) rfl fun hlanding => hlanding.landEnd hnone
  | land hactivity =>
      refine hstage.keeps_quiet hactivity (Thread.deed?_of_isQuiet hactivity rfl) hholds rfl
        fun hlanding => ?_
      rw [hactivity]
      exact hlanding.land _
  | release hactivity | leave hactivity =>
      exact hstage.gives_up rfl hactivity And.right rfl rfl
  | forbid hactivity =>
      exact hstage.keeps_quiet hactivity (Thread.deed?_of_isQuiet hactivity rfl) rfl rfl
        fun hsealing => ⟨rfl, hsealing.1.congr rfl rfl⟩
  | close hactivity hflight =>
      exact hstage.keeps hactivity (Thread.deed?_of_shut hactivity hflight) rfl rfl
        fun hclosing => hclosing.close (by simp) hflight
  | stay hstays =>
      exact hstage.keeps_quiet rfl (Thread.deed?_of_stays hstays) hholds rfl id

end Moves

end Coordinator

end MessageStore
