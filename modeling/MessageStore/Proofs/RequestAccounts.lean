import MessageStore.Proofs.FlushStages

/-!
# What becomes of requests

Every request that was handed back was either part of a call of the writer, or
refused without one.  A request that was pushed before the closed flag was on
is never refused, and a request that is refused has no entry.
-/

namespace MessageStore

variable {ω μ E : Type} {writer : RequestWriter ω μ} {honest valid : μ → Prop}
  {act : μ → Option (TableAct E)} {coordinator later : Coordinator ω μ}
  {thread next : Thread} {log : List (Event E)} {index number : Nat}

namespace Thread.Does

theorem batch_first {first count : Nat}
    (hdoes : thread.Does writer act coordinator (.batch first count)) :
    first = coordinator.settled.size := by
  cases hdoes
  rfl

theorem settled_le_ticket {ticket : Nat} {request : Request}
    (hdoes : thread.Does writer act coordinator (.push ticket request)) :
    coordinator.settled.size ≤ ticket := by
  cases hdoes
  rw [Coordinator.nextTicket, Nat.add_assoc]
  exact Nat.le_add_right _ _

end Thread.Does

theorem Thread.tickets_noted (thread : Thread) (coordinator : Coordinator ω μ)
    (index number : Nat) :
    tickets ((noted index number (thread.deed? writer act coordinator)).map
        Event.deed) =
      thread.activity.pushing?.toList.map fun _ => coordinator.nextTicket writer := by
  cases hpushing : thread.activity.pushing? with
  | some request =>
      have hactivity := (Activity.pushing?_eq_some_iff _ _).mp hpushing
      rw [deed?, hactivity]
      rfl
  | none =>
      cases hdeed : thread.deed? writer act coordinator with
      | none => rfl
      | some deed =>
          cases does_of_deed? hdeed with
          | push hactivity =>
              rw [hactivity] at hpushing
              contradiction
          | _ => rfl

theorem Concluded.append_noted {ticket : Nat} {outcome : Outcome}
    (hconcluded : Concluded log ticket outcome)
    (hlt : ticket < coordinator.settled.size) (index number : Nat) :
    Concluded (log ++ noted index number (thread.deed? writer act coordinator))
      ticket outcome := by
  cases hconcluded with
  | written htaken hne => exact .written (htaken.append _) hne
  | refused hnot hlate =>
      apply Concluded.refused
      · intro htaken
        rcases taken_append_noted.mp htaken with
          hold | ⟨first, count, hdeed, hle, _⟩
        · exact hnot hold
        · have hfirst := (Thread.does_of_deed? hdeed).batch_first
          omega
      · intro hearly
        rcases mem_early_append_noted hearly with hold | ⟨request, hdeed⟩
        · exact hlate hold
        · have hle := (Thread.does_of_deed? hdeed).settled_le_ticket
          omega

namespace Coordinator

/-- A request refused in the middle of a flush was not part of any call. -/
theorem Stage.concluded_reject {ticket : Option Ticket}
    (haccounted : Accounted writer log coordinator)
    (hstage : Stage writer honest log coordinator index number
      (.flushing .rejecting ticket))
    {state : ω} {pending : Pending} {pendings : List Pending}
    (hflight : coordinator.flight = .resting state (pending :: pendings)) :
    (pending.fail .closed).outcome = some (.error .closed) ∧
      Concluded log coordinator.settled.size (.error .closed) := by
  obtain ⟨hsealed, requests, hgathered⟩ := hstage
  have hsame := hgathered.requests_eq hflight
  cases requests with
  | nil => exact absurd hsame (List.cons_ne_nil _ _)
  | cons request requests =>
      rw [List.map_cons, List.cons.injEq] at hsame
      obtain ⟨rfl, _⟩ := hsame
      refine ⟨rfl, .refused ?_ ?_⟩
      · intro htaken
        exact Nat.lt_irrefl _ (hgathered.taken_lt _ htaken)
      · intro hearly
        exact Nat.lt_irrefl _ ((haccounted.promised hsealed).2 _ hearly)

/-- A request handed back after a call of the writer was part of it. -/
theorem Stage.concluded_land {ticket : Option Ticket}
    {result : Except StoreError Unit}
    (hstage : Stage writer honest log coordinator index number
      (.flushing (.landing result) ticket))
    {state : ω} {pending : Pending} {pendings : List Pending}
    (hflight : coordinator.flight = .resting state (pending :: pendings)) :
    ∃ outcome, (pending.conclude result).outcome = some outcome ∧
      Concluded log coordinator.settled.size outcome := by
  obtain ⟨hback, _⟩ := hstage.handsBack hflight
  have hne := hback.outcome_ne pending (List.mem_cons_self ..)
  have htaken : Taken log coordinator.settled.size := by
    obtain ⟨first, total, hmem, hcovers⟩ := hback.called.taken (Nat.le_refl _)
      (Nat.lt_add_of_pos_right (Nat.succ_pos _))
    exact ⟨_, hmem, first, total, rfl, hcovers⟩
  cases hset : pending.outcome with
  | some outcome =>
      refine ⟨outcome, pending.keeps_conclude result outcome hset, .written htaken ?_⟩
      rintro rfl
      exact hne hset
  | none =>
      cases result with
      | ok _ => exact ⟨_, Pending.settle_outcome hset _, .written htaken (by simp)⟩
      | error cause =>
          exact ⟨_, Pending.settle_outcome hset _, .written htaken (by simp)⟩

namespace Accounted

theorem queue_unsettled (haccounted : Accounted writer log coordinator) :
    ∀ pending ∈ coordinator.queue, pending.outcome = none := by
  obtain ⟨requests, hqueue⟩ := haccounted.queued
  intro pending hmem
  rw [hqueue] at hmem
  obtain ⟨request, _, rfl⟩ := List.mem_map.mp hmem
  rfl

theorem settled_move (haccounted : Accounted writer log coordinator)
    (hstage : thread.activity.holds = true →
      Stage writer honest log coordinator index number thread.activity)
    (hmove : Thread.Move writer coordinator thread later next)
    (other n ticket : Nat) (pending : Pending)
    (hget : later.settled[ticket]? = some pending) :
    ∃ outcome, pending.outcome = some outcome ∧
      Concluded (log ++ noted other n (thread.deed? writer act coordinator))
        ticket outcome := by
  have hold : coordinator.settled[ticket]? = some pending →
      ∃ outcome, pending.outcome = some outcome ∧
        Concluded (log ++ noted other n (thread.deed? writer act coordinator))
          ticket outcome := by
    intro hsome
    obtain ⟨outcome, houtcome, hconcluded⟩ := haccounted.settled ticket pending hsome
    have hlt := (Array.getElem?_eq_some_iff.mp hsome).1
    exact ⟨outcome, houtcome, hconcluded.append_noted hlt other n⟩
  rcases hmove.settled_cases with
    hsame | ⟨state, first, rest, hflight,
      ⟨own, hactivity, hsettled⟩ | ⟨result, own, hactivity, hsettled⟩⟩
  · rw [hsame] at hget
    exact hold hget
  -- What is handed back now stands last; all others were settled before.
  · rw [hsettled, Array.getElem?_push] at hget
    split at hget
    next hticket =>
      cases hget
      rw [Thread.deed?_of_isQuiet hactivity rfl, append_noted_none, hticket]
      rw [hactivity] at hstage
      exact ⟨_, (hstage rfl).concluded_reject haccounted hflight⟩
    next => exact hold hget
  · rw [hsettled, Array.getElem?_push] at hget
    split at hget
    next hticket =>
      cases hget
      rw [Thread.deed?_of_isQuiet hactivity rfl, append_noted_none, hticket]
      rw [hactivity] at hstage
      exact (hstage rfl).concluded_land hflight
    next => exact hold hget

theorem queued_move (haccounted : Accounted writer log coordinator)
    (hmove : Thread.Move writer coordinator thread later next) :
    ∃ requests : List Request, later.queue = requests.map Pending.fresh := by
  obtain ⟨requests, hqueue⟩ := haccounted.queued
  rcases hmove.queue_cases with hsame | ⟨request, hpush⟩ | ⟨pending, hpop⟩
  · exact ⟨requests, hsame.trans hqueue⟩
  · refine ⟨requests ++ [request], ?_⟩
    rw [hpush, hqueue, List.map_append]
    rfl
  · rw [hqueue] at hpop
    cases requests with
    | nil => contradiction
    | cons request requests =>
        rw [List.map_cons, List.cons.injEq] at hpop
        exact ⟨requests, hpop.2.symm⟩

theorem entries_move (hspares : writer.Spares act honest)
    (haccounted : Accounted writer log coordinator)
    (hstage : thread.activity.holds = true →
      Stage writer honest log coordinator index number thread.activity)
    (other n : Nat) :
    ∀ event ∈ log ++ noted other n (thread.deed? writer act coordinator),
      ∀ ticket : Nat, event.EntryOf ticket →
        Taken (log ++ noted other n (thread.deed? writer act coordinator))
          ticket := by
  intro event hmem ticket hentry
  apply Taken.append
  rcases mem_append_noted.mp hmem with hold | ⟨new, hdeed, rfl⟩
  · exact haccounted.entries event hold ticket hentry
  · obtain ⟨first, handed, rfl, rfl⟩ := hentry
    generalize hact : some (TableAct.take handed) = done at hdeed
    cases Thread.does_of_deed? hdeed with
    | @work own work hactivity hflight hresult =>
        rw [hactivity] at hstage
        obtain ⟨hwork, _⟩ := (hstage rfl).atWork hflight
        have hlt := hspares.owner_lt hwork.honest hact.symm
        obtain ⟨first, total, hbatch, hcovers⟩ :=
          hwork.called.taken (Nat.le_add_right _ handed.owner)
            (Nat.add_lt_add_left hlt _)
        exact ⟨_, hbatch, first, total, rfl, hcovers⟩

theorem tickets_move (hkeeps : writer.Keeps valid)
    (hvalid : coordinator.WorkValid valid)
    (haccounted : Accounted writer log coordinator)
    (hmove : Thread.Move writer coordinator thread later next)
    (other n : Nat) :
    tickets ((log ++ noted other n (thread.deed? writer act coordinator)).map
      Event.deed) = List.range (later.nextTicket writer) := by
  rw [List.map_append, tickets_append, haccounted.tickets_eq,
    thread.tickets_noted coordinator, hmove.nextTicket_eq hkeeps hvalid]
  cases thread.activity.pushing? with
  | none => exact List.append_nil _
  | some request => exact List.range_succ.symm

/-- The first close seals the writer when no early request is left. -/
theorem promised_move (haccounted : Accounted writer log coordinator)
    (hstage : thread.activity.holds = true →
      Stage writer honest log coordinator index number thread.activity)
    (hmove : Thread.Move writer coordinator thread later next)
    (hsealed : later.sealed = true) (more : List (Event E)) :
    Promised (log ++ more) later.settled.size := by
  apply Promised.append
  apply Promised.mono ?_ hmove.settled_size_le
  rcases hmove.flags_cases with
    ⟨_, _, hsame⟩ | ⟨_, _, rfl, _⟩ | ⟨flushed, hactivity, _⟩
  · exact haccounted.promised (hsame.symm.trans hsealed)
  · exact haccounted.promised hsealed
  · rw [hactivity] at hstage
    exact (hstage rfl).2

theorem move (hkeeps : writer.Keeps valid) (hvalid : coordinator.WorkValid valid)
    (hspares : writer.Spares act honest)
    (haccounted : Accounted writer log coordinator)
    (hstage : thread.activity.holds = true →
      Stage writer honest log coordinator index number thread.activity)
    (hmove : Thread.Move writer coordinator thread later next) (other n : Nat) :
    Accounted writer
      (log ++ noted other n (thread.deed? writer act coordinator)) later where
  settled := haccounted.settled_move hstage hmove other n
  queued := haccounted.queued_move hmove
  entries := haccounted.entries_move hspares hstage other n
  tickets_eq := haccounted.tickets_move hkeeps hvalid hmove other n
  promised hsealed := haccounted.promised_move hstage hmove hsealed _

theorem start (state : ω) :
    Accounted writer ([] : List (Event E)) (.ofWriter state) where
  settled _ _ hget := by simp [ofWriter] at hget
  queued := ⟨[], rfl⟩
  entries _ hmem := by simp at hmem
  tickets_eq := rfl
  promised hsealed := by simp [ofWriter] at hsealed

end Accounted

end Coordinator

end MessageStore
