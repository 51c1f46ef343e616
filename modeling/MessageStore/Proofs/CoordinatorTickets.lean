import MessageStore.Proofs.CoordinatorElection

/-!
# What a step does to the requests

A step adds a request to the queue, takes one from it, hands one back or
changes those that the writer is at work on.  All requests keep their tickets,
and no request is settled but by the writer at work, by the batch that it was
part of, or by a refusal.
-/

namespace MessageStore

namespace Coordinator

variable {ω μ : Type} {writer : RequestWriter ω μ}

theorem outcome?_land_of_ne (coordinator : Coordinator ω μ)
    (settle : Pending → Pending) {ticket : Ticket}
    (hne : ticket ≠ coordinator.settled.size) :
    (coordinator.land settle).outcome? writer ticket =
      coordinator.outcome? writer ticket := by
  rcases coordinator.land_cases settle with hland | ⟨state, pending, requests, hflight, hland⟩
  · rw [hland]
  · have hknown : known writer
        { coordinator with
          flight := .resting state requests
          settled := coordinator.settled.push (settle pending) } =
          (coordinator.known writer).set coordinator.settled.size
            (settle pending) := by
      simp [known, inFlight, hflight]
    rw [hland, outcome?_eq, outcome?_eq, hknown, List.getElem?_set_ne hne.symm]

end Coordinator

namespace Thread

variable {ω μ : Type} {writer : RequestWriter ω μ} {valid : μ → Prop}
  {coordinator later : Coordinator ω μ} {thread next : Thread}

theorem Move.queue_cases (hmove : Move writer coordinator thread later next) :
    later.queue = coordinator.queue ∨
      (∃ request, later.queue = coordinator.queue ++ [Pending.fresh request]) ∨
      ∃ pending, coordinator.queue = pending :: later.queue := by
  cases hmove with
  | @push request hactivity => exact Or.inr (Or.inl ⟨request, rfl⟩)
  | pop hactivity =>
      rcases coordinator.pop_cases with hpop | ⟨pending, queue, _, _, hqueue, -, hpop⟩
      · exact Or.inl (by rw [hpop])
      · exact Or.inr (Or.inr ⟨pending, by rw [hpop, hqueue]⟩)
  | reject | land => exact Or.inl (coordinator.land_queue _)
  | call | callClose | refuse | accept | see | miss | lose | win | count
  | popEnd | decideNothing | decideReject | decideWrite | rejectEnd | write
  | written | landEnd | release | claimLate | claim | forbid | close | leave
  | stay => exact Or.inl rfl

/-- A request is handed back refused, or with what its batch came to. -/
theorem Move.settled_cases (hmove : Move writer coordinator thread later next) :
    later.settled = coordinator.settled ∨
      ∃ state pending requests,
        coordinator.flight = .resting state (pending :: requests) ∧
          ((∃ ticket, thread.activity = .flushing .rejecting ticket ∧
              later.settled = coordinator.settled.push (pending.fail .closed)) ∨
            ∃ result ticket,
              thread.activity = .flushing (.landing result) ticket ∧
                later.settled =
                  coordinator.settled.push (pending.conclude result)) := by
  cases hmove with
  | pop hactivity => exact Or.inl coordinator.pop_settled
  | @reject ticket hactivity =>
      rcases coordinator.land_cases _ with hland | ⟨state, pending, requests, hflight, hland⟩
      · exact Or.inl (by rw [hland])
      · exact Or.inr ⟨state, pending, requests, hflight,
          Or.inl ⟨ticket, hactivity, by rw [hland]⟩⟩
  | @land ticket result hactivity =>
      rcases coordinator.land_cases _ with hland | ⟨state, pending, requests, hflight, hland⟩
      · exact Or.inl (by rw [hland])
      · exact Or.inr ⟨state, pending, requests, hflight,
          Or.inr ⟨result, ticket, hactivity, by rw [hland]⟩⟩
  | call | callClose | refuse | accept | push | see | miss | lose | win | count
  | popEnd | decideNothing | decideReject | decideWrite | rejectEnd | write
  | written | landEnd | release | claimLate | claim | forbid | close | leave
  | stay => exact Or.inl rfl

theorem Move.settled_size_le (hmove : Move writer coordinator thread later next) :
    coordinator.settled.size ≤ later.settled.size := by
  rcases hmove.settled_cases with
    heq | ⟨state, pending, requests, _, ⟨_, _, heq⟩ | ⟨_, _, _, heq⟩⟩
  · rw [heq]
  · rw [heq, Array.size_push]
    omega
  · rw [heq, Array.size_push]
    omega

theorem Move.nextTicket_eq (hkeeps : writer.Keeps valid)
    (hvalid : coordinator.WorkValid valid)
    (hmove : Move writer coordinator thread later next) :
    later.nextTicket writer =
      coordinator.nextTicket writer + thread.activity.pushing?.toList.length := by
  cases hmove with
  | push hactivity =>
      rw [hactivity]
      simp [Coordinator.nextTicket, Coordinator.push, Coordinator.inFlight,
        Activity.pushing?, Nat.add_assoc]
  | pop hactivity =>
      rw [hactivity]
      rcases coordinator.pop_cases with hpop | ⟨_, _, _, _, hqueue, hflight, hpop⟩
      · rw [hpop]
        rfl
      · simp [hpop, Coordinator.nextTicket, Coordinator.inFlight, hqueue, hflight,
          Activity.pushing?, Nat.add_assoc, Nat.add_comm, Nat.add_left_comm]
  | decideWrite hactivity hflight =>
      rw [hactivity]
      simp [Coordinator.nextTicket, Coordinator.inFlight, hflight,
        hkeeps.requests_start, Activity.pushing?]
  | @write ticket work hactivity hflight =>
      rw [hactivity]
      have hlength := (hkeeps.requests_step (hvalid work hflight)).length_eq
      simp [Coordinator.nextTicket, Coordinator.inFlight, hflight, hlength,
        Activity.pushing?]
  | written hactivity hflight | close hactivity hflight =>
      rw [hactivity]
      simp [Coordinator.nextTicket, Coordinator.inFlight, hflight,
        Activity.pushing?]
  | reject hactivity | land hactivity =>
      rw [hactivity]
      rcases coordinator.land_cases _ with hland | ⟨_, _, _, hflight, hland⟩
      · rw [hland]
        rfl
      · simp [hland, Coordinator.nextTicket, Coordinator.inFlight, hflight,
          Activity.pushing?]
        omega
  | call hactivity | callClose hactivity | refuse hactivity | accept hactivity
  | see hactivity | miss hactivity | lose hactivity | count hactivity
  | popEnd hactivity | decideNothing hactivity | decideReject hactivity
  | rejectEnd hactivity | landEnd hactivity | release hactivity
  | claimLate hactivity | claim hactivity | forbid hactivity | leave hactivity =>
      rw [hactivity]
      rfl
  | win hactivity hwhy =>
      rw [hactivity]
      rcases hwhy with ⟨own, rfl, _⟩ | ⟨rfl, _⟩ <;> rfl
  | stay hstays =>
      rcases hstays with hactivity | hactivity | hactivity | hactivity | hactivity <;>
      · rw [hactivity]
        rfl

/-- A request is settled by the writer at work on it, or handed back. -/
theorem Move.settles_cases (hkeeps : writer.Keeps valid)
    (hvalid : coordinator.WorkValid valid)
    (hqueued : ∀ pending ∈ coordinator.queue, pending.outcome = none)
    (hmove : Move writer coordinator thread later next)
    {ticket : Ticket} {outcome : Outcome}
    (hnone : coordinator.outcome? writer ticket = none)
    (hsome : later.outcome? writer ticket = some outcome) :
    (∃ own work, thread.activity = .flushing .writing own ∧
        coordinator.flight = .writing work ∧ coordinator.settled.size ≤ ticket ∧
        ticket < coordinator.settled.size + (writer.requests work).length) ∨
      ∃ state pending requests,
        coordinator.flight = .resting state (pending :: requests) ∧
          ticket = coordinator.settled.size ∧
          ((∃ own, thread.activity = .flushing .rejecting own) ∨
            ∃ result own, thread.activity = .flushing (.landing result) own) := by
  have hsame : later.known writer ≠ coordinator.known writer := by
    intro hknown
    rw [Coordinator.outcome?_eq, hknown, ← Coordinator.outcome?_eq, hnone] at hsome
    contradiction
  have hland : ∀ settle, later = coordinator.land settle →
      ∃ state pending requests,
        coordinator.flight = .resting state (pending :: requests) ∧
          ticket = coordinator.settled.size := by
    rintro settle rfl
    have hticket : ticket = coordinator.settled.size := by
      by_contra hne
      rw [coordinator.outcome?_land_of_ne settle hne, hnone] at hsome
      contradiction
    rcases coordinator.land_cases settle with hland | ⟨state, pending, requests, hflight, -⟩
    · exact absurd (by rw [hland]) hsame
    · exact ⟨state, pending, requests, hflight, hticket⟩
  cases hmove with
  | @write own work hactivity hflight =>
      left
      have hlength := (hkeeps.requests_step (hvalid work hflight)).length_eq
      refine ⟨own, work, hactivity, hflight, ?_, ?_⟩
      · by_contra hlt
        rw [Coordinator.outcome?_eq] at hnone hsome
        simp only [Coordinator.known, Coordinator.inFlight, hflight] at hnone hsome
        rw [List.getElem?_append_left (by simpa using hlt)] at hnone hsome
        rw [hnone] at hsome
        contradiction
      · rw [Coordinator.outcome?_eq] at hsome
        obtain ⟨pending, hget, _⟩ := Option.bind_eq_some_iff.mp hsome
        have hlt := (List.getElem?_eq_some_iff.mp hget).1
        simpa [Coordinator.known, Coordinator.inFlight, hlength] using hlt
  | @reject own hactivity =>
      obtain ⟨state, pending, requests, hflight, hticket⟩ := hland _ rfl
      exact Or.inr ⟨state, pending, requests, hflight, hticket,
        Or.inl ⟨own, hactivity⟩⟩
  | @land own result hactivity =>
      obtain ⟨state, pending, requests, hflight, hticket⟩ := hland _ rfl
      exact Or.inr ⟨state, pending, requests, hflight, hticket,
        Or.inr ⟨result, own, hactivity⟩⟩
  | pop hactivity =>
      rcases coordinator.pop_cases with hpop | ⟨pending, _, _, _, hqueue, hflight, hpop⟩
      · exact absurd (by rw [hpop]) hsame
      · have hopen := hqueued pending (by simp [hqueue])
        rw [Coordinator.outcome?_eq] at hnone hsome
        simp only [hpop, Coordinator.known, Coordinator.inFlight, hflight,
          ← List.append_assoc] at hnone hsome
        rw [List.getElem?_append] at hsome
        split at hsome
        next =>
          rw [hnone] at hsome
          contradiction
        next =>
          obtain ⟨other, hget, houtcome⟩ := Option.bind_eq_some_iff.mp hsome
          have hother := List.mem_of_getElem? hget
          rw [List.mem_singleton.mp hother, hopen] at houtcome
          contradiction
  | decideWrite hactivity hflight =>
      exact absurd (by simp [Coordinator.known, Coordinator.inFlight, hflight,
        hkeeps.requests_start]) hsame
  | written hactivity hflight | close hactivity hflight =>
      exact absurd (by simp [Coordinator.known, Coordinator.inFlight, hflight]) hsame
  | call | callClose | refuse | accept | push | see | miss | lose | win | count
  | popEnd | decideNothing | decideReject | rejectEnd | landEnd | release
  | claimLate | claim | forbid | leave | stay => exact absurd rfl hsame

end Thread

end MessageStore
