import MessageStore.Proofs.RequestAccounts

/-!
# Runs with closes

What every step of threads that persist and close keeps, put together: the
record of every thread, the order of closing, the account of all requests and
their stage in the flush under way.
-/

namespace MessageStore

variable {ω μ E : Type} {writer : RequestWriter ω μ} {honest valid : μ → Prop}
  {act : μ → Option (TableAct E)} {coordinator later : Coordinator ω μ}
  {thread next : Thread} {log : List (Event E)} {index number : Nat}

theorem Thread.Does.holds_of_batch {first count : Nat}
    (hdoes : thread.Does writer act coordinator (.batch first count)) :
    thread.activity.holds = true := by
  cases hdoes with
  | batch hactivity =>
      rw [hactivity]
      rfl

theorem Thread.deed?_ne_batch (hholds : thread.activity.holds = false)
    (first count : Nat) :
    thread.deed? writer act coordinator ≠ some (.batch first count) := by
  intro hdeed
  rw [(does_of_deed? hdeed).holds_of_batch] at hholds
  contradiction

namespace Coordinator

theorem StandsAt.frame {actor : Option (Nat × Thread)}
    (hstands : StandsAt writer honest log coordinator actor)
    (hqueue : coordinator.queue.length ≤ later.queue.length)
    (hflight : later.flight = coordinator.flight)
    (hsettled : later.settled = coordinator.settled)
    (hsealed : later.sealed = coordinator.sealed) {deed : Option (Deed E)}
    (hquiet : ∀ first count, deed ≠ some (.batch first count)) (index number : Nat) :
    StandsAt writer honest (log ++ noted index number deed) later actor := by
  cases actor with
  | none => exact (Gathered.congr hstands hflight hsettled).append_noted hquiet _ _
  | some actor => exact Stage.frame hstands hqueue hflight hsettled hsealed hquiet _ _

theorem StandsAt.flight_cases {actor : Option (Nat × Thread)}
    (hstands : StandsAt writer honest log coordinator actor) :
    (∃ requests, Gathered log coordinator requests) ∨
      (∃ index number work,
        AtWork writer honest log coordinator index number work) ∨
      ∃ index number requests, HandsBack log coordinator index number requests := by
  cases actor with
  | none => exact Or.inl ⟨[], hstands⟩
  | some actor =>
      obtain ⟨index, thread⟩ := actor
      unfold StandsAt Stage at hstands
      simp only at hstands
      split at hstands
      next => exact Or.inl ⟨[], hstands⟩
      next =>
        obtain ⟨_, requests, hgathered, _⟩ := hstands
        exact Or.inl ⟨requests, hgathered⟩
      next =>
        obtain ⟨requests, hgathered, _⟩ := hstands
        exact Or.inl ⟨requests, hgathered⟩
      next =>
        obtain ⟨_, requests, hgathered⟩ := hstands
        exact Or.inl ⟨requests, hgathered⟩
      next =>
        obtain ⟨work, hwork, _⟩ := hstands
        exact Or.inr (Or.inl ⟨_, _, work, hwork⟩)
      next =>
        obtain ⟨requests, hback, _⟩ := hstands
        exact Or.inr (Or.inr ⟨_, _, requests, hback⟩)
      next => exact Or.inl ⟨[], hstands.1⟩
      next => exact Or.inl ⟨[], hstands.2⟩

/-- While the writer is at work it is not sealed. -/
theorem StandsAt.sealed_eq {actor : Option (Nat × Thread)}
    (hstands : StandsAt writer honest log coordinator actor) {work : μ}
    (hwriting : coordinator.flight = .writing work) :
    coordinator.sealed = false := by
  rcases hstands.flight_cases with
    ⟨requests, ⟨state, hflight⟩, _⟩ | ⟨index, number, other, hwork⟩ |
      ⟨index, number, requests, ⟨state, hflight⟩, _⟩
  · rw [hwriting] at hflight
    contradiction
  · exact hwork.sealed_eq
  · rw [hwriting] at hflight
    contradiction

/-- No request in flight has been told that the writer is closed. -/
theorem StandsAt.outcome_ne (hspares : writer.Spares act honest)
    {actor : Option (Nat × Thread)}
    (hstands : StandsAt writer honest log coordinator actor) (pending : Pending)
    (hmem : pending ∈ coordinator.inFlight writer) :
    pending.outcome ≠ some (.error .closed) := by
  rcases hstands.flight_cases with
    ⟨requests, ⟨state, hflight⟩, _⟩ | ⟨index, number, work, hwork⟩ |
      ⟨index, number, requests, ⟨state, hflight⟩, hne, _⟩
  · rw [inFlight, hflight] at hmem
    obtain ⟨request, _, rfl⟩ := List.mem_map.mp hmem
    simp [Pending.fresh]
  · rw [inFlight, hwork.flight_eq] at hmem
    exact hspares.outcome_ne hwork.honest pending hmem
  · rw [inFlight, hflight] at hmem
    exact hne pending hmem

end Coordinator

namespace Ensemble

/-- The thread with the election, if there is one. -/
def actor (ensemble : Ensemble ω μ) (holder : Option Nat) :
    Option (Nat × Thread) :=
  holder.bind fun index => ensemble.threads[index]?.map (index, ·)

theorem actor_self {threads : Array Thread} (hthread : threads[index]? = some thread) :
    actor ⟨later, threads.setIfInBounds index next⟩ (some index) =
      some (index, next) := by
  simp [actor, getElem?_setIfInBounds_of_some hthread]

theorem actor_other {ensemble : Ensemble ω μ} {holder : Option Nat}
    (hthread : ensemble.threads[index]? = some thread)
    (hother : holder ≠ some index) :
    actor ⟨later, ensemble.threads.setIfInBounds index next⟩ holder =
      ensemble.actor holder := by
  cases holder with
  | none => rfl
  | some other =>
      have hne : index ≠ other := fun heq => hother (heq ▸ rfl)
      simp [actor, getElem?_setIfInBounds_of_some hthread, hne]

/-- What the thread with the election says of the requests goes on to hold,
whoever moves: only that thread takes requests along, and whoever wins the
election finds them as nobody had it. -/
theorem Elected.stands_move {ensemble : Ensemble ω μ} {holder : Option Nat}
    (helected : ensemble.Elected holder)
    (hthread : ensemble.threads[index]? = some thread)
    (hmove : Thread.Move writer ensemble.coordinator thread later next)
    {before after : Option (Nat × Thread) → Prop}
    (hbefore : before (ensemble.actor holder))
    (hholding : thread.activity.holds = true → before (some (index, thread)) →
      after (Coordinator.holding index next))
    (hwins : thread.activity.holds = false → ∀ ticket,
      next.activity = .flushing .counting ticket →
        later = { ensemble.coordinator with elected := true } → before none →
          after (some (index, next)))
    (hbystands : thread.activity.holds = false →
      (∃ request, thread.activity.pushing? = some request ∧
          later = ensemble.coordinator.push request) ∨
        (thread.activity.pushing? = none ∧
          later.queue = ensemble.coordinator.queue ∧
          later.settled = ensemble.coordinator.settled ∧
          later.flight = ensemble.coordinator.flight) →
      ∀ actor, before actor → after actor) :
    ∃ holder, Elected ⟨later, ensemble.threads.setIfInBounds index next⟩ holder ∧
      after (actor ⟨later, ensemble.threads.setIfInBounds index next⟩ holder) := by
  have hself := helected.holds_iff index thread hthread
  refine ⟨holderAfter index thread next holder, helected.move hthread hmove, ?_⟩
  cases hholds : thread.activity.holds with
  | true =>
      have hactor : ensemble.actor holder = some (index, thread) := by
        rw [hself.mp hholds]
        simp [actor, hthread]
      rw [hactor] at hbefore
      have hafter := hholding hholds hbefore
      unfold Coordinator.holding at hafter
      unfold holderAfter
      by_cases hnext : next.activity.holds = true
      · rw [if_pos hnext] at hafter ⊢
        rw [actor_self hthread]
        exact hafter
      · rw [if_neg hnext] at hafter ⊢
        rw [if_pos hholds]
        exact hafter
  | false =>
      have hother : holder ≠ some index := by
        intro heq
        rw [hself.mpr heq] at hholds
        contradiction
      rcases hmove.bystander_cases hholds with
        ⟨_, hfree, hlater, ticket, hactivity⟩ | ⟨request, hpush, hnext, hlater⟩ |
          ⟨hquiet, hnext, hsame⟩
      · -- It wins, so nobody had the election.
        have hnext : next.activity.holds = true := by
          rw [hactivity]
          rfl
        rw [holderAfter, if_pos hnext, actor_self hthread]
        rw [helected.holder_eq_none hfree] at hbefore
        exact hwins hholds ticket hactivity hlater hbefore
      · rw [holderAfter, hnext, hholds, if_neg Bool.false_ne_true,
          if_neg Bool.false_ne_true, actor_other hthread hother]
        exact hbystands hholds (Or.inl ⟨request, hpush, hlater⟩) _ hbefore
      · rw [holderAfter, hnext, hholds, if_neg Bool.false_ne_true,
          if_neg Bool.false_ne_true, actor_other hthread hother]
        exact hbystands hholds (Or.inr ⟨hquiet, hsame⟩) _ hbefore

/-- What holds while threads persist and close. -/
structure Guarded (writer : RequestWriter ω μ) (valid honest : μ → Prop)
    (log : List (Event E)) (ensemble : Ensemble ω μ) : Prop where
  work_valid : ensemble.coordinator.WorkValid valid
  recorded : ∀ (index : Nat) (thread : Thread),
    ensemble.threads[index]? = some thread →
      Recorded writer log ensemble.coordinator index thread
  closed : ∃ closer, ClosedBy log ensemble closer
  accounted : ensemble.coordinator.Accounted writer log
  stands : ∃ holder, ensemble.Elected holder ∧
    ensemble.coordinator.StandsAt writer honest log (ensemble.actor holder)

namespace Guarded

variable {ensemble : Ensemble ω μ}

theorem stage (hguarded : Guarded writer valid honest log ensemble)
    (hthread : ensemble.threads[index]? = some thread)
    (hholds : thread.activity.holds = true) :
    ensemble.coordinator.Stage writer honest log index thread.returns.length
      thread.activity := by
  obtain ⟨holder, helected, hstands⟩ := hguarded.stands
  have hactor : ensemble.actor holder = some (index, thread) := by
    rw [(helected.holds_iff index thread hthread).mp hholds]
    simp [actor, hthread]
  rw [hactor] at hstands
  exact hstands

theorem stands_move (hkeeps : writer.Keeps valid) (hspares : writer.Spares act honest)
    (hguarded : Guarded writer valid honest log ensemble)
    (hthread : ensemble.threads[index]? = some thread)
    (hmove : Thread.Move writer ensemble.coordinator thread later next) :
    ∃ holder, Elected ⟨later, ensemble.threads.setIfInBounds index next⟩ holder ∧
      later.StandsAt writer honest
        (log ++ noted index thread.returns.length
          (thread.deed? writer act ensemble.coordinator))
        (actor ⟨later, ensemble.threads.setIfInBounds index next⟩ holder) := by
  obtain ⟨holder, helected, hstands⟩ := hguarded.stands
  apply helected.stands_move hthread hmove hstands
  · intro _ hstage
    have hclaimed : thread.activity.isClosing = true → Claimed log := by
      intro hclosing
      have hdid := (hguarded.recorded index thread hthread).did
      exact ⟨_, mem_deedsOf.mp (hdid.claimed hclosing), rfl⟩
    exact Coordinator.Stage.move hkeeps hguarded.work_valid hspares
      hguarded.accounted hclaimed hstage hmove
  · intro hholds ticket hactivity hlater hgathered
    have hquiet : ∀ first count, thread.deed? writer act ensemble.coordinator ≠
        some (.batch first count) := Thread.deed?_ne_batch hholds
    have hgathered := Coordinator.Gathered.append_noted hgathered hquiet index
      thread.returns.length
    change Coordinator.Stage writer honest _ _ index next.returns.length
      next.activity
    rw [hactivity, hlater]
    exact hgathered.congr rfl rfl
  · intro hholds hbystands actor hstands
    have hsealed : later.sealed = ensemble.coordinator.sealed := by
      rcases hmove.flags_cases with
        ⟨_, _, hsame⟩ | ⟨_, _, rfl, _⟩ | ⟨flushed, hactivity, _⟩
      · exact hsame
      · rfl
      · rw [hactivity] at hholds
        contradiction
    have hquiet : ∀ first count, thread.deed? writer act ensemble.coordinator ≠
        some (.batch first count) := Thread.deed?_ne_batch hholds
    rcases hbystands with ⟨request, _, rfl⟩ | ⟨_, hqueue, hsettled, hflight⟩
    · -- It pushes, behind what the holder has counted.
      have hlength : ensemble.coordinator.queue.length ≤
          (ensemble.coordinator.push request).queue.length := by
        rw [Coordinator.push, List.length_append]
        exact Nat.le_add_right _ _
      exact hstands.frame hlength rfl rfl hsealed hquiet _ _
    · exact hstands.frame (Nat.le_of_eq (by rw [hqueue])) hflight hsettled hsealed
        hquiet _ _

theorem recorded_move (hkeeps : writer.Keeps valid)
    (hguarded : Guarded writer valid honest log ensemble)
    (hthread : ensemble.threads[index]? = some thread)
    (hmove : Thread.Move writer ensemble.coordinator thread later next)
    (other : Nat) (moved : Thread)
    (hmoved : (ensemble.threads.setIfInBounds index next)[other]? = some moved) :
    Recorded writer
      (log ++ noted index thread.returns.length
        (thread.deed? writer act ensemble.coordinator)) later other moved := by
  have hgrows := hmove.grows hkeeps hguarded.work_valid
  rcases moved_cases hthread hmoved with ⟨rfl, rfl⟩ | ⟨hne, hmoved⟩
  · exact (hguarded.recorded index thread hthread).move hmove hgrows
  · exact (hguarded.recorded other moved hmoved).frame hgrows hne _ _

theorem step (hkeeps : writer.Keeps valid) (hspares : writer.Spares act honest)
    (log : List (Event E)) (ensemble : Ensemble ω μ) (index : Nat)
    (hguarded : Guarded writer valid honest log ensemble) :
    Guarded writer valid honest
      (log ++ (ensemble.event? writer act index).toList)
      (ensemble.step writer index) := by
  rcases ensemble.step_cases writer index with
    ⟨hnone, hstep⟩ | ⟨thread, later, next, hthread, hmove, hstep⟩
  · have hevent : ensemble.event? writer act index = none := by
      rw [event?, hnone]
    rw [hevent, Option.toList_none, List.append_nil, hstep]
    exact hguarded
  · obtain ⟨closer, hclosed⟩ := hguarded.closed
    obtain ⟨holder, helected, hstands⟩ := hguarded.stands
    rw [hstep, event?_toList writer act hthread]
    constructor
    · exact hmove.work_valid hkeeps hguarded.work_valid
    · exact hguarded.recorded_move hkeeps hthread hmove
    · exact hclosed.move act hguarded.recorded (fun _ => hstands.sealed_eq) hthread
        hmove
    · exact hguarded.accounted.move hkeeps hguarded.work_valid hspares
        (hguarded.stage hthread) hmove _ _
    · exact hguarded.stands_move hkeeps hspares hthread hmove

/-- A request that was told that the writer is closed was not part of any call
of the writer, and was pushed after the closed flag was on. -/
theorem of_closed (hspares : writer.Spares act honest)
    (hguarded : Guarded writer valid honest log ensemble) {ticket : Nat}
    (hclosed : ensemble.coordinator.outcome? writer ticket =
      some (.error .closed)) :
    ¬Taken log ticket ∧ ticket ∉ early log := by
  obtain ⟨holder, _, hstands⟩ := hguarded.stands
  rw [Coordinator.outcome?_eq] at hclosed
  obtain ⟨pending, hget, houtcome⟩ := Option.bind_eq_some_iff.mp hclosed
  rw [Coordinator.known, List.getElem?_append] at hget
  split at hget
  next =>
    -- It was handed back: a call of the writer that it was part of ends with
    -- another outcome, and a late one is refused without a call.
    rw [Array.getElem?_toList] at hget
    obtain ⟨outcome, hset, hconcluded⟩ :=
      hguarded.accounted.settled ticket pending hget
    rw [houtcome, Option.some.injEq] at hset
    subst hset
    cases hconcluded with
    | written htaken hne => exact absurd rfl hne
    | refused hnot hlate => exact ⟨hnot, hlate⟩
  next =>
    exact absurd houtcome
      (hstands.outcome_ne hspares pending (List.mem_of_getElem? hget))

end Guarded

/-- The step of a thread settles a request. -/
def Completes (writer : RequestWriter ω μ) (ensemble : Ensemble ω μ)
    (index : Nat) (ticket : Ticket) (outcome : Outcome) : Prop :=
  ensemble.coordinator.outcome? writer ticket = none ∧
    (ensemble.step writer index).coordinator.outcome? writer ticket = some outcome

namespace Guarded

variable {ensemble : Ensemble ω μ}

/-- A request pushed before the closed flag was on is settled in the call that
had the writer write it. -/
theorem of_completes (hkeeps : writer.Keeps valid)
    (hguarded : Guarded writer valid honest log ensemble) {ticket : Nat}
    (hearly : ticket ∈ early log) {outcome : Outcome}
    (hcompletes : ensemble.Completes writer index ticket outcome) :
    ∃ event ∈ log, event.thread = index ∧
      event.number = (ensemble.returns index).length ∧ event.Covers ticket := by
  obtain ⟨hnone, hsome⟩ := hcompletes
  rcases ensemble.step_cases writer index with
    ⟨_, hstep⟩ | ⟨thread, later, next, hthread, hmove, hstep⟩
  · rw [hstep, hnone] at hsome
    contradiction
  · rw [hstep] at hsome
    have hreturns : (ensemble.returns index).length = thread.returns.length := by
      rw [returns, hthread, List.length_reverse]
    have hcovered : ∀ {place count : Nat},
        Called log index thread.returns.length place count → place ≤ ticket →
          ticket < place + count → ∃ event ∈ log, event.thread = index ∧
            event.number = (ensemble.returns index).length ∧
              event.Covers ticket := by
      intro place count hcalled hle hlt
      obtain ⟨first, total, hmem, hcovers⟩ := hcalled.taken hle hlt
      exact ⟨_, hmem, rfl, hreturns.symm, first, total, rfl, hcovers⟩
    rcases hmove.settles_cases hkeeps hguarded.work_valid
        hguarded.accounted.queue_unsettled hnone hsome with
      ⟨own, work, hactivity, hflight, hle, hlt⟩ |
        ⟨state, pending, rest, hflight, rfl,
          ⟨own, hactivity⟩ | ⟨result, own, hactivity⟩⟩
    · have hstage := hguarded.stage hthread (by rw [hactivity]; rfl)
      rw [hactivity] at hstage
      obtain ⟨hwork, _⟩ := hstage.atWork hflight
      exact hcovered hwork.called hle hlt
    · -- Refused only when the writer is sealed, with all early requests settled.
      have hstage := hguarded.stage hthread (by rw [hactivity]; rfl)
      rw [hactivity] at hstage
      have hlt := (hguarded.accounted.promised hstage.1).2 _ hearly
      exact absurd hlt (Nat.lt_irrefl _)
    · have hstage := hguarded.stage hthread (by rw [hactivity]; rfl)
      rw [hactivity] at hstage
      obtain ⟨hback, _⟩ := hstage.handsBack hflight
      apply hcovered hback.called (Nat.le_refl _)
      exact Nat.lt_add_of_pos_right (Nat.succ_pos _)

theorem elected_of_isShut (hguarded : Guarded writer valid honest log ensemble)
    {event : Event E} (hevent : ensemble.event? writer act index = some event)
    (hshut : event.deed.isShut = true) : ensemble.Elected (some index) := by
  obtain ⟨holder, helected, _⟩ := hguarded.stands
  unfold event? at hevent
  split at hevent
  next => contradiction
  next thread hthread =>
    obtain ⟨deed, hdeed, rfl⟩ := Option.map_eq_some_iff.mp hevent
    obtain ⟨flushed, hactivity⟩ := (Thread.does_of_deed? hdeed).of_isShut hshut
    have hholds : thread.activity.holds = true := by
      rw [hactivity]
      rfl
    rw [← (helected.holds_iff index thread hthread).mp hholds]
    exact helected

end Guarded

/-- Threads that make the calls of one list each. -/
def calling (state : ω) (plans : List (List Call)) : Ensemble ω μ where
  coordinator := .ofWriter state
  threads := (plans.map fun calls => ({ calls } : Thread)).toArray

theorem exists_calls {state : ω} {plans : List (List Call)}
    (hthread : (calling state plans : Ensemble ω μ).threads[index]? = some thread) :
    ∃ calls, thread = { calls } := by
  simp only [calling, List.getElem?_toArray, List.getElem?_map] at hthread
  obtain ⟨calls, _, rfl⟩ := Option.map_eq_some_iff.mp hthread
  exact ⟨calls, rfl⟩

theorem elected_calling (state : ω) (plans : List (List Call)) :
    (calling state plans : Ensemble ω μ).Elected none where
  elected_eq := rfl
  holds_iff := by
    intro index thread hthread
    obtain ⟨calls, rfl⟩ := exists_calls hthread
    simp [Activity.holds]
  lt_size := by
    intro index hindex
    contradiction

namespace Guarded

theorem start (state : ω) (plans : List (List Call)) :
    Guarded writer valid honest ([] : List (Event E)) (calling state plans) where
  work_valid := by
    rintro work ⟨⟩
  recorded := by
    intro index thread hthread
    obtain ⟨calls, rfl⟩ := exists_calls hthread
    exact Recorded.start _ index calls
  closed := by
    refine ⟨none, rfl, by simp, by simp, fun _ => rfl, ?_, by simp,
      List.Pairwise.nil, List.Pairwise.nil⟩
    intro index thread hthread
    obtain ⟨calls, rfl⟩ := exists_calls hthread
    exact Activity.sealedAs_of_not_isClosing rfl _
  accounted := Coordinator.Accounted.start state
  stands := by
    refine ⟨none, elected_calling state plans, ⟨state, rfl⟩, ?_⟩
    rintro ticket ⟨event, hmem, _⟩
    contradiction

theorem run (hkeeps : writer.Keeps valid) (hspares : writer.Spares act honest)
    (state : ω) (plans : List (List Call)) (schedule : List Nat) :
    Guarded writer valid honest
      ((calling state plans).events writer act schedule)
      ((calling state plans).run writer schedule) :=
  trace_induction writer (step hkeeps hspares) (start state plans) schedule

end Guarded

end Ensemble

end MessageStore
