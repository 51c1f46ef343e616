import MessageStore.Proofs.CoordinatorFifo
import Mathlib.Tactic

/-!
# The calls of a publisher

How a thread that persists requests stands to the row of all pushes: its own
pushes are the requests of the calls it has come to so far, in order; it waits
for the last of them only; and what its calls have returned are the outcomes
found under their tickets.
-/

namespace MessageStore

namespace Activity

/-- The request of a call that has not pushed it yet. -/
def unpushed : Activity → Option Request
  | .checking request => some request
  | .pushing request => some request
  | _ => none

/-- The ticket of a call that has pushed its request. -/
def ticket? : Activity → Option Ticket
  | .watching ticket => some ticket
  | .electing ticket => some ticket
  | .flushing _ ticket => ticket
  | .releasing ticket => some ticket
  | _ => none

end Activity

/-- A thread that persists neither closes the coordinator nor its writer. -/
theorem Thread.Move.flags_eq {ω μ : Type} {writer : RequestWriter ω μ}
    {coordinator later : Coordinator ω μ} {thread next : Thread}
    (hmove : Thread.Move writer coordinator thread later next)
    (hpersisting : thread.activity.isPersisting = true) :
    later.closed = coordinator.closed ∧ later.sealed = coordinator.sealed := by
  rcases hmove.flags_cases with
    ⟨_, hclosed, hsealed⟩ | ⟨hactivity, _⟩ | ⟨flushed, hactivity, _⟩
  · exact ⟨hclosed, hsealed⟩
  · rw [hactivity] at hpersisting
    contradiction
  · rw [hactivity] at hpersisting
    contradiction

def pushesOf (index : Nat) (log : List Push) : List Push :=
  log.filter (·.thread = index)

theorem pushesOf_append (index : Nat) (log more : List Push) :
    pushesOf index (log ++ more) = pushesOf index log ++ pushesOf index more :=
  List.filter_append _ _

variable {ω μ : Type} {writer : RequestWriter ω μ}

/-- A thread that persists the requests of its plan, one call after the other. -/
structure Publishing (writer : RequestWriter ω μ) (plan : List Request)
    (log : List Push) (coordinator : Coordinator ω μ) (index : Nat)
    (thread : Thread) : Prop where
  persisting : thread.activity.isPersisting = true
  plan_eq : ∃ rest, thread.calls = rest.map Call.persist ∧
    (pushesOf index log).map Push.request ++
      (thread.activity.unpushed.toList ++ rest) = plan
  numbers : (pushesOf index log).map Push.number =
    List.range (pushesOf index log).length
  length_eq : (pushesOf index log).length =
    thread.returns.length + thread.activity.ticket?.toList.length
  ticket : ∀ ticket, thread.activity.ticket? = some ticket →
    ∃ request, log[ticket]? = some ⟨index, thread.returns.length, request⟩
  returned : ∀ (number : Nat) (value : Return),
    thread.returns.reverse[number]? = some value →
      ∃ ticket request outcome,
        log[ticket]? = some ⟨index, number, request⟩ ∧
          value = .persisted outcome ∧
          coordinator.outcome? writer ticket = some outcome

namespace Publishing

variable {plan : List Request} {log : List Push}
  {coordinator later : Coordinator ω μ} {index : Nat} {thread next : Thread}

/-- What other threads push and what becomes of requests does not disturb a
publisher. -/
theorem frame (hpublishing : Publishing writer plan log coordinator index thread)
    (hgrows : Coordinator.Grows writer coordinator later) {more : List Push}
    (hmore : ∀ push ∈ more, push.thread ≠ index) :
    Publishing writer plan (log ++ more) later index thread := by
  have hnone : pushesOf index more = [] := by
    refine List.filter_eq_nil_iff.mpr fun push hmem => ?_
    simpa using hmore push hmem
  have hpushes : pushesOf index (log ++ more) = pushesOf index log := by
    rw [pushesOf_append, hnone, List.append_nil]
  have hget : ∀ {ticket : Nat} {push : Push}, log[ticket]? = some push →
      (log ++ more)[ticket]? = some push := by
    intro ticket push hsome
    rw [List.getElem?_append_left (List.getElem?_eq_some_iff.mp hsome).1, hsome]
  constructor
  · exact hpublishing.persisting
  · rw [hpushes]
    exact hpublishing.plan_eq
  · rw [hpushes]
    exact hpublishing.numbers
  · rw [hpushes]
    exact hpublishing.length_eq
  · intro ticket hticket
    obtain ⟨request, hsome⟩ := hpublishing.ticket ticket hticket
    exact ⟨request, hget hsome⟩
  · intro number value hvalue
    obtain ⟨ticket, request, outcome, hsome, hpersisted, houtcome⟩ :=
      hpublishing.returned number value hvalue
    exact ⟨ticket, request, outcome, hget hsome, hpersisted,
      hgrows.outcome? houtcome⟩

theorem advance (hpublishing : Publishing writer plan log coordinator index thread)
    (hgrows : Coordinator.Grows writer coordinator later)
    (hcalls : next.calls = thread.calls) (hreturns : next.returns = thread.returns)
    (hunpushed : next.activity.unpushed = thread.activity.unpushed)
    (hticket : next.activity.ticket? = thread.activity.ticket?)
    (hpersisting : next.activity.isPersisting = true) :
    Publishing writer plan log later index next := by
  constructor
  · exact hpersisting
  · rw [hcalls, hunpushed]
    exact hpublishing.plan_eq
  · exact hpublishing.numbers
  · rw [hreturns, hticket]
    exact hpublishing.length_eq
  · rw [hreturns, hticket]
    exact hpublishing.ticket
  · intro number value hvalue
    rw [hreturns] at hvalue
    obtain ⟨ticket, request, outcome, hsome, hpersisted, houtcome⟩ :=
      hpublishing.returned number value hvalue
    exact ⟨ticket, request, outcome, hsome, hpersisted, hgrows.outcome? houtcome⟩

theorem call (hpublishing : Publishing writer plan log coordinator index thread)
    {request : Request} {calls : List Call} (hactivity : thread.activity = .idle)
    (hcalls : thread.calls = .persist request :: calls) :
    Publishing writer plan log coordinator index
      { thread with activity := .checking request, calls } := by
  have hlength := hpublishing.length_eq
  rw [hactivity] at hlength
  obtain ⟨rest, hrest, hplan⟩ := hpublishing.plan_eq
  rw [hactivity] at hplan
  cases rest with
  | nil =>
      rw [hcalls] at hrest
      contradiction
  | cons first rest =>
      rw [hcalls, List.map_cons, List.cons.injEq, Call.persist.injEq] at hrest
      obtain ⟨rfl, rfl⟩ := hrest
      constructor
      · rfl
      · exact ⟨rest, rfl, hplan⟩
      · exact hpublishing.numbers
      · exact hlength
      · intro ticket hticket
        contradiction
      · exact hpublishing.returned

theorem push (hpublishing : Publishing writer plan log coordinator index thread)
    {request : Request} (hactivity : thread.activity = .pushing request)
    (hgrows : Coordinator.Grows writer coordinator later) :
    Publishing writer plan (log ++ [⟨index, thread.returns.length, request⟩])
      later index (thread.next (.watching log.length)) := by
  have hpushes : pushesOf index (log ++ [⟨index, thread.returns.length, request⟩]) =
      pushesOf index log ++ [⟨index, thread.returns.length, request⟩] := by
    rw [pushesOf_append]
    simp [pushesOf]
  have hlength : (pushesOf index log).length = thread.returns.length := by
    have hall := hpublishing.length_eq
    rwa [hactivity] at hall
  constructor
  · rfl
  · obtain ⟨rest, hcalls, hplan⟩ := hpublishing.plan_eq
    refine ⟨rest, hcalls, ?_⟩
    rw [hactivity] at hplan
    rw [hpushes, List.map_append, List.append_assoc]
    exact hplan
  · rw [hpushes, List.map_append, List.length_append, hpublishing.numbers,
      List.length_singleton, List.range_succ, hlength]
    rfl
  · rw [hpushes, List.length_append, hlength]
    rfl
  · intro ticket hticket
    cases hticket
    refine ⟨request, ?_⟩
    rw [List.getElem?_append_right le_rfl, Nat.sub_self]
    rfl
  · intro number value hvalue
    obtain ⟨ticket, earlier, outcome, hsome, hpersisted, houtcome⟩ :=
      hpublishing.returned number value hvalue
    refine ⟨ticket, earlier, outcome, ?_, hpersisted, hgrows.outcome? houtcome⟩
    rw [List.getElem?_append_left (List.getElem?_eq_some_iff.mp hsome).1, hsome]

theorem see (hpublishing : Publishing writer plan log coordinator index thread)
    {ticket : Ticket} {outcome : Outcome}
    (hactivity : thread.activity = .watching ticket)
    (hsome : coordinator.outcome? writer ticket = some outcome) :
    Publishing writer plan log coordinator index
      (thread.return_ (.persisted outcome)) := by
  have hlength := hpublishing.length_eq
  have hticket := hpublishing.ticket
  obtain ⟨rest, hcalls, hplan⟩ := hpublishing.plan_eq
  rw [hactivity] at hlength hticket hplan
  obtain ⟨request, hpush⟩ := hticket ticket rfl
  constructor
  · rfl
  · exact ⟨rest, hcalls, hplan⟩
  · exact hpublishing.numbers
  · rw [hlength]
    rfl
  · intro other hother
    contradiction
  · intro number value hvalue
    simp only [Thread.return_, List.reverse_cons] at hvalue
    by_cases hlt : number < thread.returns.reverse.length
    · rw [List.getElem?_append_left hlt] at hvalue
      exact hpublishing.returned number value hvalue
    · rw [List.getElem?_append_right (Nat.le_of_not_lt hlt)] at hvalue
      have hnumber : number = thread.returns.length := by
        have hbound := (List.getElem?_eq_some_iff.mp hvalue).1
        rw [List.length_singleton] at hbound
        rw [List.length_reverse] at hlt hbound
        omega
      subst hnumber
      rw [List.length_reverse, Nat.sub_self, List.getElem?_cons_zero,
        Option.some.injEq] at hvalue
      exact ⟨ticket, request, outcome, hpush, hvalue.symm, hsome⟩

theorem ticket?_afterFlush {ticket : Option Ticket} (hticket : ticket.isSome = true)
    (result : Except StoreError Unit) :
    (Thread.afterFlush result ticket).ticket? = ticket ∧
      (Thread.afterFlush result ticket).unpushed = none ∧
      (Thread.afterFlush result ticket).isPersisting = true := by
  cases ticket with
  | none => contradiction
  | some own => exact ⟨rfl, rfl, rfl⟩

/-- A step of a publisher that pushes nothing. -/
theorem move (hpublishing : Publishing writer plan log coordinator index thread)
    (hmove : Thread.Move writer coordinator thread later next)
    (hgrows : Coordinator.Grows writer coordinator later)
    (hopen : coordinator.closed = false)
    (hquiet : thread.activity.pushing? = none) :
    Publishing writer plan log later index next := by
  have hpersisting := hpublishing.persisting
  cases hmove with
  | call hactivity hcalls => exact hpublishing.call hactivity hcalls
  | callClose hactivity hcalls =>
      obtain ⟨rest, hrest, _⟩ := hpublishing.plan_eq
      rw [hcalls] at hrest
      cases rest with
      | nil => contradiction
      | cons first rest =>
          rw [List.map_cons, List.cons.injEq] at hrest
          exact absurd hrest.1 (by simp)
  | refuse hactivity hclosed =>
      rw [hopen] at hclosed
      contradiction
  | push hactivity =>
      rw [hactivity] at hquiet
      contradiction
  | see hactivity hsome => exact hpublishing.see hactivity hsome
  | claimLate hactivity | claim hactivity | forbid hactivity | close hactivity
  | leave hactivity =>
      rw [hactivity] at hpersisting
      contradiction
  | win hactivity hwhy =>
      rcases hwhy with ⟨own, rfl, rfl⟩ | ⟨rfl, rfl⟩
      · exact hpublishing.advance hgrows rfl rfl (by rw [hactivity]; rfl)
          (by rw [hactivity]; rfl) rfl
      · rw [hactivity] at hpersisting
        contradiction
  | decideNothing hactivity | rejectEnd hactivity | landEnd hactivity =>
      rw [hactivity] at hpersisting
      obtain ⟨hticket, hunpushed, hafter⟩ :=
        ticket?_afterFlush hpersisting _
      exact hpublishing.advance hgrows rfl rfl (by rw [hactivity]; exact hunpushed)
        (by rw [hactivity]; exact hticket) hafter
  | accept hactivity | miss hactivity | lose hactivity | count hactivity
  | popEnd hactivity | pop hactivity | decideReject hactivity
  | decideWrite hactivity | written hactivity | release hactivity =>
      rw [hactivity] at hpersisting
      exact hpublishing.advance hgrows rfl rfl (by rw [hactivity]; rfl)
        (by rw [hactivity]; rfl) hpersisting
  | reject hactivity | write hactivity | land hactivity | stay =>
      exact hpublishing.advance hgrows rfl rfl rfl rfl hpersisting

/-- The calls of a thread are numbered in the order of its pushes. -/
theorem number_lt (hpublishing : Publishing writer plan log coordinator index thread)
    {push : Push} (hmem : push ∈ log) (hthread : push.thread = index) :
    push.number < (pushesOf index log).length := by
  have hmine : push ∈ pushesOf index log :=
    List.mem_filter.mpr ⟨hmem, by simpa using hthread⟩
  have hnumber := List.mem_map_of_mem (f := Push.number) hmine
  rw [hpublishing.numbers] at hnumber
  exact List.mem_range.mp hnumber

theorem exists_push
    (hpublishing : Publishing writer plan log coordinator index thread)
    {number : Nat} (hlt : number < (pushesOf index log).length) :
    ∃ push ∈ log, push.thread = index ∧ push.number = number := by
  have hnumber : number ∈ (pushesOf index log).map Push.number := by
    rw [hpublishing.numbers]
    exact List.mem_range.mpr hlt
  obtain ⟨push, hmine, hpush⟩ := List.mem_map.mp hnumber
  obtain ⟨hmem, hthread⟩ := List.mem_filter.mp hmine
  exact ⟨push, hmem, by simpa using hthread, hpush⟩

end Publishing

end MessageStore
