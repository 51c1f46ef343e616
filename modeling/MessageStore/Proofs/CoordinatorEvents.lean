import MessageStore.Proofs.CoordinatorElection
import MessageStore.Proofs.DeliveryChronicle
import Mathlib.Data.List.TakeWhile
import Mathlib.Tactic

/-!
# The events of a run

A run of an ensemble is recorded event by event, each under the call that its
thread is making: the looks at the closed flag, the pushes, and everything
that is asked of the writer and of its table.  A request is settled without
the writer if no call of the writer covers its ticket.
-/

namespace MessageStore

inductive Deed (E : Type) where
  /-- A persist looks whether the coordinator is closed. -/
  | check (closed : Bool)
  | push (ticket : Ticket) (request : Request)
  /-- A close tries to be the first one. -/
  | claim (won : Bool)
  /-- The writer is called with the requests from one ticket on. -/
  | batch (first : Ticket) (count : Nat)
  /-- The writer takes a step in the call with the requests from `first` on. -/
  | work (first : Ticket) (act : Option (TableAct E))
  /-- The call of the writer returns. -/
  | wrote (result : Except StoreError Unit)
  /-- The writer is closed. -/
  | shut (result : Except StoreError Unit)

/-- What a thread did in one of its calls. -/
structure Event (E : Type) where
  thread : Nat
  /-- How many calls of the thread had returned by then. -/
  number : Nat
  deed : Deed E

namespace Deed

variable {E : Type}

def isClaim : Deed E → Bool
  | .claim true => true
  | _ => false

def isShut : Deed E → Bool
  | .shut _ => true
  | _ => false

def usesWriter : Deed E → Bool
  | .batch _ _ => true
  | .work _ _ => true
  | .wrote _ => true
  | .shut _ => true
  | .check _ => false
  | .push _ _ => false
  | .claim _ => false

def ticket? : Deed E → Option Ticket
  | .push ticket _ => some ticket
  | _ => none

def wrote? : Deed E → Option (Except StoreError Unit)
  | .wrote result => some result
  | _ => none

def shut? : Deed E → Option (Except StoreError Unit)
  | .shut result => some result
  | _ => none

end Deed

namespace Event

variable {E : Type}

/-- The event begins a call of the writer with the request of the ticket. -/
def Covers (event : Event E) (ticket : Nat) : Prop :=
  ∃ first count : Nat, event.deed = .batch first count ∧ first ≤ ticket ∧
    ticket < first + count

/-- The event hands the table an entry of the request of the ticket. -/
def EntryOf (event : Event E) (ticket : Nat) : Prop :=
  ∃ (first : Nat) (handed : HandedEntry E), event.deed = .work first (some (.take handed)) ∧
    first + handed.owner = ticket

end Event

/-! ## The record -/

section Record

variable {E : Type}

/-- What one step adds to the record. -/
def noted (index number : Nat) (deed : Option (Deed E)) : List (Event E) :=
  (deed.map (Event.mk index number)).toList

def tickets (deeds : List (Deed E)) : List Ticket :=
  deeds.filterMap Deed.ticket?

/-- What a thread did in the call with the number. -/
def deedsOf (index number : Nat) (log : List (Event E)) : List (Deed E) :=
  (log.filter fun event => event.thread = index ∧ event.number = number).map
    Event.deed

/-- A close has turned the closed flag on. -/
def Claimed (log : List (Event E)) : Prop :=
  ∃ event ∈ log, event.deed = .claim true

/-- The tickets of the requests pushed before a close turned the closed flag
on. -/
def early (log : List (Event E)) : List Ticket :=
  tickets ((log.takeWhile fun event => !event.deed.isClaim).map Event.deed)

/-- The request was part of a call of the writer. -/
def Taken (log : List (Event E)) (ticket : Nat) : Prop :=
  ∃ event ∈ log, event.Covers ticket

theorem tickets_append (deeds more : List (Deed E)) :
    tickets (deeds ++ more) = tickets deeds ++ tickets more :=
  List.filterMap_append

theorem deedsOf_append (index number : Nat) (log more : List (Event E)) :
    deedsOf index number (log ++ more) =
      deedsOf index number log ++ deedsOf index number more := by
  rw [deedsOf, List.filter_append, List.map_append]
  rfl

theorem mem_deedsOf {index number : Nat} {log : List (Event E)} {deed : Deed E} :
    deed ∈ deedsOf index number log ↔ ⟨index, number, deed⟩ ∈ log := by
  simp only [deedsOf, List.mem_map, List.mem_filter, decide_eq_true_eq]
  constructor
  · rintro ⟨⟨thread, count, deed⟩, ⟨hmem, rfl, rfl⟩, rfl⟩
    exact hmem
  · intro hmem
    exact ⟨_, ⟨hmem, rfl, rfl⟩, rfl⟩

/-- A step adds to the record of its own call and of no other. -/
theorem deedsOf_noted (deed : Option (Deed E)) (thread count index number : Nat) :
    deedsOf index number (noted thread count deed) =
      if thread = index ∧ count = number then deed.toList else [] := by
  cases deed with
  | none => simp [deedsOf, noted]
  | some deed =>
      by_cases hcall : thread = index ∧ count = number
      · simp [deedsOf, noted, hcall]
      · simp [deedsOf, noted, hcall]

theorem append_noted_none (log : List (Event E)) (index number : Nat) :
    log ++ noted index number none = log :=
  List.append_nil log

theorem mem_append_noted {log : List (Event E)} {deed : Option (Deed E)}
    {index number : Nat} {event : Event E} :
    event ∈ log ++ noted index number deed ↔
      event ∈ log ∨ ∃ new, deed = some new ∧ event = ⟨index, number, new⟩ := by
  cases deed <;> simp [noted]

theorem pairwise_append_noted {holds : Event E → Event E → Prop}
    {log : List (Event E)} (hlog : log.Pairwise holds) {deed : Option (Deed E)}
    {index number : Nat}
    (hnew : ∀ new, deed = some new → ∀ event ∈ log,
      holds event ⟨index, number, new⟩) :
    (log ++ noted index number deed).Pairwise holds := by
  cases deed with
  | none => simpa [noted] using hlog
  | some new =>
      apply List.pairwise_append.mpr
      refine ⟨hlog, List.pairwise_singleton _ _, ?_⟩
      intro event hmem other hother
      rw [List.mem_singleton.mp hother]
      exact hnew new rfl event hmem

theorem Claimed.append {log : List (Event E)} (hclaimed : Claimed log)
    (more : List (Event E)) : Claimed (log ++ more) := by
  obtain ⟨event, hmem, hclaim⟩ := hclaimed
  exact ⟨event, List.mem_append_left more hmem, hclaim⟩

theorem Taken.append {log : List (Event E)} {ticket : Nat}
    (htaken : Taken log ticket) (more : List (Event E)) :
    Taken (log ++ more) ticket := by
  obtain ⟨event, hmem, hcovers⟩ := htaken
  exact ⟨event, List.mem_append_left more hmem, hcovers⟩

theorem taken_append_noted {log : List (Event E)} {deed : Option (Deed E)}
    {index number ticket : Nat} :
    Taken (log ++ noted index number deed) ticket ↔
      Taken log ticket ∨ ∃ first count : Nat, deed = some (.batch first count) ∧
        first ≤ ticket ∧ ticket < first + count := by
  constructor
  · rintro ⟨event, hmem, hcovers⟩
    rcases mem_append_noted.mp hmem with hold | ⟨new, hnew, rfl⟩
    · exact Or.inl ⟨event, hold, hcovers⟩
    · obtain ⟨first, count, rfl, hcovers⟩ := hcovers
      exact Or.inr ⟨first, count, hnew, hcovers⟩
  · rintro (htaken | ⟨first, count, rfl, hcovers⟩)
    · exact htaken.append _
    · refine ⟨⟨index, number, .batch first count⟩, ?_, first, count, rfl, hcovers⟩
      exact mem_append_noted.mpr (Or.inr ⟨_, rfl, rfl⟩)

/-- Once a close has turned the flag on, no further request is early. -/
theorem early_append_of_claimed {log : List (Event E)} (hclaimed : Claimed log)
    (more : List (Event E)) : early (log ++ more) = early log := by
  obtain ⟨event, hmem, hclaim⟩ := hclaimed
  have hshort : (log.takeWhile fun event => !event.deed.isClaim).length ≠
      log.length := by
    intro hlength
    have hopen := List.takeWhile_eq_self_iff.mp
      ((List.takeWhile_prefix _).eq_of_length hlength) event hmem
    rw [hclaim] at hopen
    contradiction
  unfold early
  rw [List.takeWhile_append, if_neg hshort]

theorem mem_early_append_of_mem {log : List (Event E)} {ticket : Ticket}
    (hearly : ticket ∈ early log) (more : List (Event E)) :
    ticket ∈ early (log ++ more) := by
  unfold early at hearly ⊢
  rw [List.takeWhile_append]
  split
  next hlength =>
    rw [(List.takeWhile_prefix _).eq_of_length hlength] at hearly
    rw [List.map_append, tickets_append]
    exact List.mem_append_left _ hearly
  next => exact hearly

theorem mem_early_append {log more : List (Event E)} {ticket : Ticket}
    (hearly : ticket ∈ early (log ++ more)) :
    ticket ∈ early log ∨ ticket ∈ tickets (more.map Event.deed) := by
  unfold early at hearly ⊢
  rw [List.takeWhile_append] at hearly
  split at hearly
  next hlength =>
    rw [List.map_append, tickets_append, List.mem_append] at hearly
    rw [(List.takeWhile_prefix _).eq_of_length hlength]
    apply hearly.imp_right
    have hsub := (List.takeWhile_prefix (l := more) fun event =>
      !event.deed.isClaim).sublist.map Event.deed
    exact fun hmem => (hsub.filterMap Deed.ticket?).subset hmem
  next => exact Or.inl hearly

theorem mem_early_append_noted {log : List (Event E)} {deed : Option (Deed E)}
    {index number : Nat} {ticket : Ticket}
    (hearly : ticket ∈ early (log ++ noted index number deed)) :
    ticket ∈ early log ∨ ∃ request, deed = some (.push ticket request) := by
  apply (mem_early_append hearly).imp_right
  intro hmem
  cases deed with
  | none => contradiction
  | some new =>
      cases new with
      | push other request =>
          have hsame : ticket = other := by
            simpa [noted, tickets, Deed.ticket?] using hmem
          exact ⟨request, by rw [hsame]⟩
      | _ => contradiction

theorem mem_tickets_of_early {log : List (Event E)} {ticket : Ticket}
    (hearly : ticket ∈ early log) : ticket ∈ tickets (log.map Event.deed) := by
  rw [← List.nil_append log] at hearly
  simpa [early, tickets] using mem_early_append hearly

end Record

/-! ## What a step adds to the record -/

section Notes

variable {ω μ E : Type} (writer : RequestWriter ω μ)
  (act : μ → Option (TableAct E))

def Thread.deed? (thread : Thread) (coordinator : Coordinator ω μ) :
    Option (Deed E) :=
  match thread.activity with
  | .checking _ => some (.check coordinator.closed)
  | .pushing request => some (.push (coordinator.nextTicket writer) request)
  | .claiming => some (.claim !coordinator.closed)
  | .flushing .deciding _ =>
    match coordinator.flight with
    | .resting _ requests =>
      if requests.isEmpty || coordinator.sealed then none
      else some (.batch coordinator.settled.size requests.length)
    | .writing _ => none
  | .flushing .writing _ =>
    match coordinator.flight with
    | .writing work =>
      match writer.result? work with
      | some (result, _) => some (.wrote result)
      | none => some (.work coordinator.settled.size (act work))
    | .resting _ _ => none
  | .closing _ =>
    match coordinator.flight with
    | .resting state _ => some (.shut (writer.close state).1)
    | .writing _ => none
  | _ => none

/-- Everything that a step of a thread can add to the record. -/
inductive Thread.Does (thread : Thread) (coordinator : Coordinator ω μ) :
    Deed E → Prop
  | check {request : Request} (hactivity : thread.activity = .checking request) :
      Does thread coordinator (.check coordinator.closed)
  | push {request : Request} (hactivity : thread.activity = .pushing request) :
      Does thread coordinator (.push (coordinator.nextTicket writer) request)
  | claim (hactivity : thread.activity = .claiming) :
      Does thread coordinator (.claim !coordinator.closed)
  | batch {ticket : Option Ticket} {state : ω} {requests : List Pending}
      (hactivity : thread.activity = .flushing .deciding ticket)
      (hflight : coordinator.flight = .resting state requests)
      (hsealed : coordinator.sealed = false) :
      Does thread coordinator
        (.batch coordinator.settled.size requests.length)
  | work {ticket : Option Ticket} {work : μ}
      (hactivity : thread.activity = .flushing .writing ticket)
      (hflight : coordinator.flight = .writing work)
      (hresult : writer.result? work = none) :
      Does thread coordinator (.work coordinator.settled.size (act work))
  | wrote {ticket : Option Ticket} {work : μ} {state : ω}
      {result : Except StoreError Unit}
      (hactivity : thread.activity = .flushing .writing ticket)
      (hflight : coordinator.flight = .writing work)
      (hresult : writer.result? work = some (result, state)) :
      Does thread coordinator (.wrote result)
  | shut {flushed : Except StoreError Unit} {state : ω} {requests : List Pending}
      (hactivity : thread.activity = .closing flushed)
      (hflight : coordinator.flight = .resting state requests) :
      Does thread coordinator (.shut (writer.close state).1)

/-- The activities whose steps leave nothing for the record. -/
def Activity.isQuiet : Activity → Bool
  | .checking _ => false
  | .pushing _ => false
  | .claiming => false
  | .closing _ => false
  | .flushing .deciding _ => false
  | .flushing .writing _ => false
  | _ => true

namespace Thread

variable {writer act} {thread : Thread} {coordinator : Coordinator ω μ}
  {activity : Activity} {ticket : Option Ticket} {state : ω}
  {requests : List Pending} {work : μ}

theorem does_of_deed? {deed : Deed E}
    (hdeed : thread.deed? writer act coordinator = some deed) :
    thread.Does writer act coordinator deed := by
  unfold deed? at hdeed
  split at hdeed
  next request hactivity =>
    cases hdeed
    exact .check hactivity
  next request hactivity =>
    cases hdeed
    exact .push hactivity
  next hactivity =>
    cases hdeed
    exact .claim hactivity
  next ticket hactivity =>
    split at hdeed
    next state requests hflight =>
      split at hdeed
      next => contradiction
      next hopen =>
        cases hdeed
        rw [Bool.or_eq_true, not_or, Bool.not_eq_true, Bool.not_eq_true] at hopen
        exact .batch hactivity hflight hopen.2
    next => contradiction
  next ticket hactivity =>
    split at hdeed
    next work hflight =>
      split at hdeed
      next result state hresult =>
        cases hdeed
        exact .wrote hactivity hflight hresult
      next hresult =>
        cases hdeed
        exact .work hactivity hflight hresult
    next => contradiction
  next flushed hactivity =>
    split at hdeed
    next state requests hflight =>
      cases hdeed
      exact .shut hactivity hflight
    next => contradiction
  next => contradiction

theorem deed?_of_isQuiet (hactivity : thread.activity = activity)
    (hquiet : activity.isQuiet = true) :
    thread.deed? writer act coordinator = none := by
  rw [deed?, hactivity]
  cases activity with
  | checking | pushing | claiming | closing => contradiction
  | flushing stage own =>
      cases stage with
      | deciding | writing => contradiction
      | counting | popping | rejecting | landing => rfl
  | idle | watching | electing | releasing | acquiring | sealing | leaving => rfl

theorem deed?_of_stays (hstays : thread.Stays coordinator) :
    thread.deed? writer act coordinator = none := by
  cases hstays with
  | idle hactivity | acquiring hactivity => exact deed?_of_isQuiet hactivity rfl
  | deciding hactivity hflight | writing hactivity hflight | closing hactivity hflight =>
      simp [deed?, hactivity, hflight]

/-- Nothing in flight, or nothing to be written any more. -/
theorem deed?_of_unwritten (hactivity : thread.activity = .flushing .deciding ticket)
    (hflight : coordinator.flight = .resting state requests)
    (hwhy : requests = [] ∨ coordinator.sealed = true) :
    thread.deed? writer act coordinator = none := by
  rcases hwhy with hempty | hsealed
  · simp [deed?, hactivity, hflight, hempty]
  · simp [deed?, hactivity, hflight, hsealed]

theorem deed?_of_batch (hactivity : thread.activity = .flushing .deciding ticket)
    (hflight : coordinator.flight = .resting state requests)
    (hrequests : requests ≠ []) (hsealed : coordinator.sealed = false) :
    thread.deed? writer act coordinator =
      some (.batch coordinator.settled.size requests.length) := by
  simp [deed?, hactivity, hflight, hrequests, hsealed]

theorem deed?_of_work (hactivity : thread.activity = .flushing .writing ticket)
    (hflight : coordinator.flight = .writing work)
    (hresult : writer.result? work = none) :
    thread.deed? writer act coordinator =
      some (.work coordinator.settled.size (act work)) := by
  simp [deed?, hactivity, hflight, hresult]

theorem deed?_of_wrote {result : Except StoreError Unit}
    (hactivity : thread.activity = .flushing .writing ticket)
    (hflight : coordinator.flight = .writing work)
    (hresult : writer.result? work = some (result, state)) :
    thread.deed? writer act coordinator = some (.wrote result) := by
  simp [deed?, hactivity, hflight, hresult]

theorem deed?_of_shut {flushed : Except StoreError Unit}
    (hactivity : thread.activity = .closing flushed)
    (hflight : coordinator.flight = .resting state requests) :
    thread.deed? writer act coordinator = some (.shut (writer.close state).1) := by
  simp [deed?, hactivity, hflight]

end Thread

namespace Ensemble

def event? (ensemble : Ensemble ω μ) (index : Nat) : Option (Event E) :=
  match ensemble.threads[index]? with
  | none => none
  | some thread =>
    (thread.deed? writer act ensemble.coordinator).map
      (Event.mk index thread.returns.length)

def events (ensemble : Ensemble ω μ) (schedule : List Nat) : List (Event E) :=
  ensemble.trace writer (event? writer act) schedule

theorem event?_toList {ensemble : Ensemble ω μ} {index : Nat} {thread : Thread}
    (hthread : ensemble.threads[index]? = some thread) :
    (ensemble.event? writer act index).toList =
      noted index thread.returns.length
        (thread.deed? writer act ensemble.coordinator) := by
  rw [event?, hthread]
  rfl

end Ensemble

end Notes

end MessageStore
