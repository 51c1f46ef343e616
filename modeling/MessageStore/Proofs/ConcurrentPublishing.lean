import MessageStore.Proofs.PublisherCalls
import Mathlib.Tactic

/-!
# Concurrent publishing is first in, first out

However the steps of publishing threads interleave, the table ends up with
one block for every request that was pushed, in the order of the pushes, and
every call returns the outcome of its own request.  The order of the pushes
agrees with time: a call that has returned pushed before any call that had
not begun by then.
-/

namespace MessageStore

/-- How many calls the thread has begun: those that have returned, and the one
that it is making. -/
def Thread.begun (thread : Thread) : Nat :=
  match thread.activity with
  | .idle => thread.returns.length
  | _ => thread.returns.length + 1

namespace Ensemble

/-- Threads that persist the requests of one plan each. -/
def publishing {ω μ : Type} (state : ω) (plans : List (List Request)) :
    Ensemble ω μ where
  coordinator := .ofWriter state
  threads := (plans.map fun plan =>
    ({ calls := plan.map Call.persist } : Thread)).toArray

theorem publishing_thread {ω μ : Type} (state : ω) (plans : List (List Request))
    (index : Nat) :
    (publishing state plans : Ensemble ω μ).threads[index]? =
      plans[index]?.map fun plan => { calls := plan.map Call.persist } := by
  simp [publishing]

def begun {ω μ : Type} (ensemble : Ensemble ω μ) (index : Nat) : Nat :=
  match ensemble.threads[index]? with
  | none => 0
  | some thread => thread.begun

def stageOf {ω μ : Type} (ensemble : Ensemble ω μ) (holder : Option Nat) :
    Option Activity :=
  holder.bind fun index => ensemble.threads[index]?.map Thread.activity

variable {kind : TableKind} {σ : Type} {table : Table σ kind.Entry}

/-- What holds while threads publish over a table that never fails. -/
structure InTurn (ledger : table.Ledger) (good : σ → Prop)
    (start : List kind.Entry) (plans : List (List Request)) (log : List Push)
    (ensemble : Ensemble (TableWriter σ) (Delivery σ)) : Prop where
  closed_eq : ensemble.coordinator.closed = false
  sealed_eq : ensemble.coordinator.sealed = false
  work_valid : ensemble.coordinator.WorkValid fun delivery =>
    ∃ calls current, Chronicle.Tidy (E := kind.Entry) ⟨delivery, calls, current⟩
  size_eq : ensemble.threads.size = plans.length
  publishers : ∀ index thread plan, ensemble.threads[index]? = some thread →
    plans[index]? = some plan →
      Publishing (TableWriter.behaviour table kind.shape) plan log
        ensemble.coordinator index thread
  distinct : log.Pairwise fun first second =>
    first.thread = second.thread → first.number < second.number
  lt_length : ∀ push ∈ log, push.thread < plans.length
  stands : ∃ holder, ensemble.Elected holder ∧
    Coordinator.Stands ledger good start (log.map Push.request)
      ensemble.coordinator (ensemble.stageOf holder)

variable {ledger : table.Ledger} {good : σ → Prop} {start : List kind.Entry}
  {plans : List (List Request)} {log : List Push}
  {ensemble : Ensemble (TableWriter σ) (Delivery σ)}

theorem InTurn.exists_plan (hinTurn : InTurn ledger good start plans log ensemble)
    {index : Nat} {thread : Thread} (hthread : ensemble.threads[index]? = some thread) :
    ∃ plan, plans[index]? = some plan := by
  have hlt := (Array.getElem?_eq_some_iff.mp hthread).1
  rw [hinTurn.size_eq] at hlt
  exact ⟨plans[index], List.getElem?_eq_getElem hlt⟩

theorem stageOf_self {later : Coordinator (TableWriter σ) (Delivery σ)}
    {threads : Array Thread} {index : Nat} {thread next : Thread}
    (hthread : threads[index]? = some thread) :
    stageOf ⟨later, threads.setIfInBounds index next⟩ (some index) =
      some next.activity := by
  simp [stageOf, getElem?_setIfInBounds_of_some hthread]

theorem stageOf_other {later : Coordinator (TableWriter σ) (Delivery σ)}
    {index : Nat} {thread next : Thread} {holder : Option Nat}
    (hthread : ensemble.threads[index]? = some thread)
    (hother : holder ≠ some index) :
    stageOf ⟨later, ensemble.threads.setIfInBounds index next⟩ holder =
      ensemble.stageOf holder := by
  cases holder with
  | none => rfl
  | some other =>
      have hne : index ≠ other := fun heq => hother (heq ▸ rfl)
      simp [stageOf, getElem?_setIfInBounds_of_some hthread, hne]

theorem Elected.stageOf_eq {holder : Option Nat} (helected : ensemble.Elected holder)
    {index : Nat} {thread : Thread} (hthread : ensemble.threads[index]? = some thread)
    (hholds : thread.activity.holds = true) :
    ensemble.stageOf holder = some thread.activity := by
  rw [(helected.holds_iff index thread hthread).mp hholds]
  simp [stageOf, hthread]

theorem InTurn.stands_of_holds (hinTurn : InTurn ledger good start plans log ensemble)
    {index : Nat} {thread : Thread} (hthread : ensemble.threads[index]? = some thread)
    (hholds : thread.activity.holds = true) :
    Coordinator.Stands ledger good start (log.map Push.request) ensemble.coordinator
      (some thread.activity) := by
  obtain ⟨holder, helected, hstands⟩ := hinTurn.stands
  rwa [helected.stageOf_eq hthread hholds] at hstands

/-- Whoever moves, the requests stand as the election says. -/
theorem InTurn.stands_move (hreliable : table.Reliable good)
    (hinTurn : InTurn ledger good start plans log ensemble)
    {index : Nat} {thread next : Thread}
    {later : Coordinator (TableWriter σ) (Delivery σ)}
    (hthread : ensemble.threads[index]? = some thread)
    (hmove : Thread.Move (TableWriter.behaviour table kind.shape)
      ensemble.coordinator thread later next)
    (hpersisting : thread.activity.isPersisting = true) :
    ∃ holder, Elected ⟨later, ensemble.threads.setIfInBounds index next⟩ holder ∧
      Coordinator.Stands ledger good start
        (log.map Push.request ++ thread.activity.pushing?.toList) later
        (stageOf ⟨later, ensemble.threads.setIfInBounds index next⟩ holder) := by
  obtain ⟨holder, helected, hstands⟩ := hinTurn.stands
  have hself := helected.holds_iff index thread hthread
  refine ⟨holderAfter index thread next holder, helected.move hthread hmove, ?_⟩
  by_cases hholds : thread.activity.holds = true
  · rw [helected.stageOf_eq hthread hholds] at hstands
    have hlater := hstands.move hreliable hmove hholds hpersisting hinTurn.sealed_eq
    rw [Activity.pushing?_of_holds hholds, Option.toList_none, List.append_nil]
    unfold Coordinator.stage at hlater
    unfold holderAfter
    by_cases hnext : next.activity.holds = true
    · rw [if_pos hnext] at hlater ⊢
      rw [stageOf_self hthread]
      exact hlater
    · rw [if_neg hnext] at hlater ⊢
      rw [if_pos hholds]
      exact hlater
  · have hother : holder ≠ some index := fun heq => hholds (hself.mpr heq)
    rw [Bool.not_eq_true] at hholds
    rcases hmove.bystander_cases hholds with
      ⟨hquiet, hfree, rfl, ticket, hactivity⟩ | ⟨request, hpush, hnext, rfl⟩ |
        ⟨hquiet, hnext, hqueue, hsettled, hflight⟩
    · have hnone := helected.holder_eq_none hfree
      have hnext : next.activity.holds = true := by
        rw [hactivity]
        rfl
      rw [holderAfter, if_pos hnext, stageOf_self hthread, hactivity, hquiet,
        Option.toList_none, List.append_nil]
      rw [hnone] at hstands
      exact hstands
    · rw [holderAfter, hnext, hholds, if_neg Bool.false_ne_true,
        if_neg Bool.false_ne_true, stageOf_other hthread hother, hpush]
      exact hstands.push request
    · rw [holderAfter, hnext, hholds, if_neg Bool.false_ne_true,
        if_neg Bool.false_ne_true, stageOf_other hthread hother, hquiet,
        Option.toList_none, List.append_nil]
      exact hstands.congr hqueue hsettled hflight

/-- Only the thread that moves may push; to all others nothing happens. -/
theorem InTurn.publishing_move
    (hinTurn : InTurn ledger good start plans log ensemble)
    {index : Nat} {thread next : Thread}
    {later : Coordinator (TableWriter σ) (Delivery σ)}
    (hthread : ensemble.threads[index]? = some thread)
    (hmove : Thread.Move (TableWriter.behaviour table kind.shape)
      ensemble.coordinator thread later next)
    {other : Nat} {moved : Thread} {plan : List Request}
    (hmoved : (ensemble.threads.setIfInBounds index next)[other]? = some moved)
    (hplan : plans[other]? = some plan) :
    Publishing (TableWriter.behaviour table kind.shape) plan
      (log ++ (ensemble.push? index).toList) later other moved := by
  have hgrows := hmove.grows (TableWriter.behaviour_keeps table kind.shape)
    hinTurn.work_valid
  have hpush := push?_of_some hthread
  rcases moved_cases hthread hmoved with ⟨rfl, rfl⟩ | ⟨heq, hmoved⟩
  · have hpublishing := hinTurn.publishers index thread plan hthread hplan
    rw [hpush]
    cases hactivity : thread.activity.pushing? with
    | none =>
        rw [Option.map_none, Option.toList_none, List.append_nil]
        exact hpublishing.move hmove hgrows hinTurn.closed_eq hactivity
    | some request =>
        have hpushing := (Activity.pushing?_eq_some_iff _ _).mp hactivity
        obtain ⟨rfl, rfl⟩ := hmove.of_pushing hpushing
        obtain ⟨holder, _, hstands⟩ := hinTurn.stands
        rw [hstands.nextTicket_eq, List.length_map]
        exact hpublishing.push hpushing hgrows
  · refine (hinTurn.publishers other moved plan hmoved hplan).frame hgrows ?_
    intro push hmem
    rw [hpush] at hmem
    simp only [Option.mem_toList, Option.map_eq_some_iff] at hmem
    obtain ⟨request, _, rfl⟩ := hmem
    exact heq

/-- A new push is the last one of its thread. -/
theorem InTurn.distinct_push
    (hinTurn : InTurn ledger good start plans log ensemble) (index : Nat) :
    (log ++ (ensemble.push? index).toList).Pairwise
        (fun first second =>
          first.thread = second.thread → first.number < second.number) ∧
      ∀ push ∈ log ++ (ensemble.push? index).toList,
        push.thread < plans.length := by
  cases hpush : ensemble.push? index with
  | none =>
      rw [Option.toList_none, List.append_nil]
      exact ⟨hinTurn.distinct, hinTurn.lt_length⟩
  | some new =>
      unfold push? at hpush
      split at hpush
      next => contradiction
      next thread hthread =>
        obtain ⟨request, hpushing, rfl⟩ := Option.map_eq_some_iff.mp hpush
        obtain ⟨plan, hplan⟩ := hinTurn.exists_plan hthread
        have hpublishing := hinTurn.publishers index thread plan hthread hplan
        have hlength := hpublishing.length_eq
        rw [(Activity.pushing?_eq_some_iff _ _).mp hpushing] at hlength
        rw [Option.toList_some]
        constructor
        · refine List.pairwise_append.mpr
            ⟨hinTurn.distinct, List.pairwise_singleton _ _, ?_⟩
          intro earlier hmem other hother hthreads
          rw [List.mem_singleton.mp hother] at hthreads ⊢
          have hlt := hpublishing.number_lt hmem hthreads
          rw [hlength] at hlt
          exact hlt
        · intro push hmem
          rcases List.mem_append.mp hmem with hold | hnew
          · exact hinTurn.lt_length push hold
          · rw [List.mem_singleton.mp hnew]
            exact (List.getElem?_eq_some_iff.mp hplan).1

theorem InTurn.step (hreliable : table.Reliable good) (log : List Push)
    (ensemble : Ensemble (TableWriter σ) (Delivery σ)) (index : Nat)
    (hinTurn : InTurn ledger good start plans log ensemble) :
    InTurn ledger good start plans (log ++ (ensemble.push? index).toList)
      (ensemble.step (TableWriter.behaviour table kind.shape) index) := by
  obtain ⟨hdistinct, hlt⟩ := hinTurn.distinct_push index
  rcases ensemble.step_cases (TableWriter.behaviour table kind.shape) index with
    ⟨hnone, hstep⟩ | ⟨thread, later, next, hthread, hmove, hstep⟩
  · have hpush : ensemble.push? index = none := by
      rw [push?, hnone]
    rw [hpush, Option.toList_none, List.append_nil, hstep]
    exact hinTurn
  · obtain ⟨plan, hplan⟩ := hinTurn.exists_plan hthread
    have hpersisting :=
      (hinTurn.publishers index thread plan hthread hplan).persisting
    have hflags := hmove.flags_eq hpersisting
    rw [hstep]
    constructor
    · exact hflags.1.trans hinTurn.closed_eq
    · exact hflags.2.trans hinTurn.sealed_eq
    · exact hmove.work_valid (TableWriter.behaviour_keeps table kind.shape)
        hinTurn.work_valid
    · rw [Array.size_setIfInBounds]
      exact hinTurn.size_eq
    · intro other moved own hmoved hown
      exact hinTurn.publishing_move hthread hmove hmoved hown
    · exact hdistinct
    · exact hlt
    · obtain ⟨holder, helected, hstands⟩ :=
        hinTurn.stands_move hreliable hthread hmove hpersisting
      refine ⟨holder, helected, ?_⟩
      have hpush : (ensemble.push? index).toList.map Push.request =
          thread.activity.pushing?.toList := by
        rw [push?_of_some hthread]
        cases thread.activity.pushing? with
        | none => rfl
        | some request => rfl
      rw [List.map_append, hpush]
      exact hstands

theorem InTurn.initial {writer : TableWriter σ} (hready : writer.IsReady ledger good)
    (plans : List (List Request)) :
    InTurn ledger good (ledger.held writer.table) plans [] (publishing writer plans) where
  closed_eq := rfl
  sealed_eq := rfl
  work_valid := by
    rintro work ⟨⟩
  size_eq := by simp [Ensemble.publishing]
  publishers := by
    intro index thread plan hthread hplan
    rw [publishing_thread, hplan, Option.map_some, Option.some.injEq] at hthread
    subst hthread
    constructor
    · rfl
    · exact ⟨plan, rfl, rfl⟩
    · rfl
    · rfl
    · intro ticket hticket
      contradiction
    · intro number value hvalue
      simp at hvalue
  distinct := List.Pairwise.nil
  lt_length := by simp
  stands := by
    refine ⟨none, ⟨rfl, ?_, ?_⟩, writer, [], [], ⟨rfl, rfl, ?_, hready, ?_⟩, rfl, rfl⟩
    · intro index thread hthread
      rw [publishing_thread] at hthread
      obtain ⟨plan, _, rfl⟩ := Option.map_eq_some_iff.mp hthread
      simp [Activity.holds]
    · intro index hindex
      contradiction
    · intro written hmem
      contradiction
    · rw [List.flatMap_nil, List.append_nil]

theorem inTurn_run (hreliable : table.Reliable good) {writer : TableWriter σ}
    (hready : writer.IsReady ledger good) (plans : List (List Request))
    (schedule : List Nat) :
    InTurn ledger good (ledger.held writer.table) plans
      ((publishing writer plans).pushes (TableWriter.behaviour table kind.shape)
        schedule)
      ((publishing writer plans).run (TableWriter.behaviour table kind.shape)
        schedule) :=
  run_induction (TableWriter.behaviour table kind.shape)
    (InTurn.step hreliable) (InTurn.initial hready plans) schedule

theorem InTurn.verdict_of_returned (hreliable : table.Reliable good)
    (hinTurn : InTurn ledger good start plans log ensemble) {index : Nat} {thread : Thread}
    {plan : List Request} (hthread : ensemble.threads[index]? = some thread)
    (hplan : plans[index]? = some plan) {value : Return} (hvalue : value ∈ thread.returns) :
    ∃ request ∈ plan, ∃ block, value = .persisted (kind.shape.verdict request block) := by
  have hpublishing := hinTurn.publishers index thread plan hthread hplan
  obtain ⟨number, hnumber⟩ := List.mem_iff_getElem?.mp (List.mem_reverse.mpr hvalue)
  obtain ⟨ticket, request, outcome, hpush, rfl, houtcome⟩ :=
    hpublishing.returned number value hnumber
  obtain ⟨holder, -, hstands⟩ := hinTurn.stands
  have hrequest : (log.map Push.request)[ticket]? = some request := by
    rw [List.getElem?_map, hpush]
    rfl
  obtain ⟨block, rfl⟩ := hstands.verdict hreliable hrequest houtcome
  have hown : (⟨index, number, request⟩ : Push) ∈ pushesOf index log :=
    List.mem_filter.mpr ⟨List.mem_of_getElem? hpush, decide_eq_true rfl⟩
  obtain ⟨rest, -, rfl⟩ := hpublishing.plan_eq
  exact ⟨request, List.mem_append_left _ (List.mem_map_of_mem hown), block, rfl⟩

/-! ## When all calls have returned -/

theorem InTurn.exists_thread
    (hinTurn : InTurn ledger good start plans log ensemble) {index : Nat}
    (hlt : index < plans.length) :
    ∃ thread plan, ensemble.threads[index]? = some thread ∧
      plans[index]? = some plan ∧
      Publishing (TableWriter.behaviour table kind.shape) plan log
        ensemble.coordinator index thread := by
  have hsize : index < ensemble.threads.size := by
    rw [hinTurn.size_eq]
    exact hlt
  have hthread : ensemble.threads[index]? = some ensemble.threads[index] :=
    Array.getElem?_eq_getElem hsize
  have hplan : plans[index]? = some plans[index] := List.getElem?_eq_getElem hlt
  exact ⟨_, _, hthread, hplan, hinTurn.publishers index _ _ hthread hplan⟩

/-- A push is known by its thread and the number of its call. -/
theorem InTurn.ticket_unique
    (hinTurn : InTurn ledger good start plans log ensemble) {i j : Nat}
    {first second : Push} (hfirst : log[i]? = some first)
    (hsecond : log[j]? = some second) (hthread : first.thread = second.thread)
    (hnumber : first.number = second.number) : i = j := by
  obtain ⟨hi, hgeti⟩ := List.getElem?_eq_some_iff.mp hfirst
  obtain ⟨hj, hgetj⟩ := List.getElem?_eq_some_iff.mp hsecond
  have hdistinct := List.pairwise_iff_getElem.mp hinTurn.distinct
  rcases Nat.lt_trichotomy i j with hlt | heq | hgt
  · have hless := hdistinct i j hi hj hlt
    rw [hgeti, hgetj] at hless
    exact absurd (hless hthread) (by omega)
  · exact heq
  · have hless := hdistinct j i hj hi hgt
    rw [hgeti, hgetj] at hless
    exact absurd (hless hthread.symm) (by omega)

/-- When all calls have returned, nothing is in flight and nothing is queued,
and every call has returned the outcome under its ticket. -/
theorem InTurn.settled
    (hinTurn : InTurn ledger good start plans log ensemble)
    (hdone : ensemble.threads.all Thread.isDone = true) :
    ∃ (writer : TableWriter σ) (rows : List (Written kind.Entry)),
      ensemble.coordinator.flight = .resting writer [] ∧
        ensemble.coordinator.queue = [] ∧
        log.map Push.request = rows.map Written.request ∧
        (∀ written ∈ rows, written.IsWhole kind.shape) ∧
        ledger.held writer.table = start ++ rows.flatMap Written.block ∧
        ∀ (ticket : Nat) (push : Push) (written : Written kind.Entry),
          log[ticket]? = some push → rows[ticket]? = some written →
            ∃ outcome, written.pending.outcome = some outcome ∧
              (ensemble.returns push.thread)[push.number]? =
                some (.persisted outcome) := by
  obtain ⟨holder, helected, hstands⟩ := hinTurn.stands
  have hnone : holder = none := by
    cases hholder : holder with
    | none => rfl
    | some index =>
        have hlt := helected.lt_size index hholder
        have hthread : ensemble.threads[index]? = some ensemble.threads[index] :=
          Array.getElem?_eq_getElem hlt
        have hholds := (helected.holds_iff index _ hthread).mpr hholder
        rw [(isDone_of_all hdone hthread).1] at hholds
        contradiction
  rw [hnone] at hstands
  obtain ⟨writer, rows, waiting, hbrought, hsettled, hflight⟩ := hstands
  have hreturned : ∀ (ticket : Nat) (push : Push), log[ticket]? = some push →
      ∃ outcome,
        (ensemble.returns push.thread)[push.number]? =
          some (.persisted outcome) ∧
        (rows.map Written.pending)[ticket]?.bind (·.outcome) = some outcome := by
    intro ticket push hpush
    have hmem := List.mem_of_getElem? hpush
    obtain ⟨thread, plan, hthread, hplan, hpublishing⟩ :=
      hinTurn.exists_thread (hinTurn.lt_length push hmem)
    have hreturns : ensemble.returns push.thread = thread.returns.reverse := by
      rw [returns, hthread]
    have hlt : push.number < thread.returns.reverse.length := by
      have hnumber := hpublishing.number_lt hmem rfl
      rw [hpublishing.length_eq, (isDone_of_all hdone hthread).1] at hnumber
      rw [List.length_reverse]
      exact hnumber
    have hvalue := List.getElem?_eq_getElem hlt
    obtain ⟨other, request, outcome, hother, hpersisted, houtcome⟩ :=
      hpublishing.returned _ _ hvalue
    have hsame : other = ticket := hinTurn.ticket_unique hother hpush rfl rfl
    refine ⟨outcome, ?_, ?_⟩
    · rw [hreturns, hvalue, hpersisted]
    · rw [Coordinator.outcome?_eq, Coordinator.known, Coordinator.inFlight, hflight,
        hsettled, List.append_nil, hsame] at houtcome
      exact houtcome
  have hwaiting : waiting = [] := by
    cases hrest : waiting with
    | nil => rfl
    | cons request rest =>
        -- The first push after those written has returned, yet has no outcome.
        have hlog := congrArg List.length hbrought.log_eq
        rw [hrest] at hlog
        simp only [List.length_append, List.length_map, List.length_nil,
          List.length_cons] at hlog
        have hlt : rows.length < log.length := by omega
        obtain ⟨outcome, _, houtcome⟩ := hreturned rows.length log[rows.length]
          (List.getElem?_eq_getElem hlt)
        rw [List.getElem?_eq_none (by simp)] at houtcome
        contradiction
  rw [hwaiting] at hbrought
  refine ⟨writer, rows, hflight, hbrought.queue_eq, ?_, hbrought.whole,
    hbrought.held_eq, ?_⟩
  · simpa using hbrought.log_eq
  · intro ticket push written hpush hrow
    obtain ⟨outcome, hreturn, houtcome⟩ := hreturned ticket push hpush
    rw [List.getElem?_map, hrow] at houtcome
    exact ⟨outcome, houtcome, hreturn⟩

/-! ## The order of the pushes -/

theorem length_pushesOf_le_begun {ω μ : Type} {writer : RequestWriter ω μ}
    {plan : List Request} {log : List Push} {ensemble : Ensemble ω μ} {index : Nat}
    {thread : Thread}
    (hpublishing : Publishing writer plan log ensemble.coordinator index thread)
    (hthread : ensemble.threads[index]? = some thread) :
    (pushesOf index log).length ≤ ensemble.begun index := by
  have hone : ∀ ticket : Option Ticket, ticket.toList.length ≤ 1 := by
    intro ticket
    cases ticket <;> simp
  have hbegun : ensemble.begun index = thread.begun := by
    rw [begun, hthread]
  rw [hpublishing.length_eq, hbegun, Thread.begun]
  cases thread.activity with
  | idle => exact Nat.le_refl _
  | _ => exact Nat.add_le_add_left (hone _) _

/-- A call that has returned has pushed before any call that has not begun. -/
theorem InTurn.push_lt_push
    {before after : Ensemble (TableWriter σ) (Delivery σ)} {more : List Push}
    (hbefore : InTurn ledger good start plans log before)
    (hafter : InTurn ledger good start plans (log ++ more) after)
    {i j : Nat} {first second : Push} (hfirst : (log ++ more)[i]? = some first)
    (hsecond : (log ++ more)[j]? = some second)
    (hreturned : first.number < (before.returns first.thread).length)
    (hunbegun : before.begun second.thread ≤ second.number) : i < j := by
  have hi : i < log.length := by
    obtain ⟨thread, plan, hthread, _, hpublishing⟩ :=
      hbefore.exists_thread (hafter.lt_length first (List.mem_of_getElem? hfirst))
    rw [returns, hthread, List.length_reverse] at hreturned
    have hlength := hpublishing.length_eq
    obtain ⟨push, hmem, hsame, hnumber⟩ := hpublishing.exists_push
      (show first.number < (pushesOf first.thread log).length by omega)
    obtain ⟨place, hplace, rfl⟩ := List.getElem_of_mem hmem
    have hpush : (log ++ more)[place]? = some log[place] := by
      rw [List.getElem?_append_left hplace, List.getElem?_eq_getElem hplace]
    have heq := hafter.ticket_unique hfirst hpush hsame.symm hnumber.symm
    omega
  have hj : log.length ≤ j := by
    by_contra hlt
    rw [List.getElem?_append_left (by omega)] at hsecond
    have hmem := List.mem_of_getElem? hsecond
    obtain ⟨thread, plan, hthread, _, hpublishing⟩ :=
      hbefore.exists_thread (hbefore.lt_length second hmem)
    have hnumber := hpublishing.number_lt hmem rfl
    have hbegun := length_pushesOf_le_begun hpublishing hthread
    omega
  omega

theorem InTurn.pushesOf_eq
    (hinTurn : InTurn ledger good start plans log ensemble)
    (hdone : ensemble.threads.all Thread.isDone = true) {index : Nat}
    {plan : List Request} (hplan : plans[index]? = some plan) :
    (pushesOf index log).map Push.request = plan ∧
      (pushesOf index log).map Push.number = List.range plan.length ∧
      (ensemble.returns index).length = plan.length := by
  obtain ⟨thread, other, hthread, hother, hpublishing⟩ :=
    hinTurn.exists_thread (List.getElem?_eq_some_iff.mp hplan).1
  rw [hplan, Option.some.injEq] at hother
  subst hother
  obtain ⟨hactivity, hcalls⟩ := isDone_of_all hdone hthread
  obtain ⟨rest, hrest, hall⟩ := hpublishing.plan_eq
  rw [hcalls] at hrest
  have hnone : rest = [] := List.map_eq_nil_iff.mp hrest.symm
  rw [hactivity, hnone] at hall
  have hrequests : (pushesOf index log).map Push.request = plan := by
    simpa [Activity.unpushed] using hall
  have hlength : (pushesOf index log).length = plan.length := by
    rw [← hrequests, List.length_map]
  refine ⟨hrequests, ?_, ?_⟩
  · rw [hpublishing.numbers, hlength]
  · have hreturns := hpublishing.length_eq
    rw [hactivity, hlength] at hreturns
    rw [returns, hthread, List.length_reverse]
    exact hreturns.symm

end Ensemble

/-- The entries that a request leaves in the message table: none if it is
refused, else one for each of its payloads, or one without a payload. -/
def IsMessageBlock (request : Request) (block : List MessageEntry) : Prop :=
  if request.payloads = [] ∧ request.writePointer = none then block = []
  else List.Forall₂ (TableKind.message.Carries request)
    (if request.payloads = [] then [none] else request.payloads.map some) block

/-- What the call that publishes a request returns once the block is stored. -/
def messageAnswer (request : Request) (block : List MessageEntry) : Outcome :=
  if request.payloads = [] ∧ request.writePointer = none then
    .error (.invalidRequest request.topic
      "only transactional messages can have an empty payload")
  else .ok ⟨request.topic, block.length, block.head?.map MessageEntry.position,
    block.getLast?.map MessageEntry.position⟩

theorem verdict_eq_messageAnswer (request : Request) (block : List MessageEntry) :
    Shape.message.verdict request block = messageAnswer request block := by
  unfold Shape.verdict messageAnswer
  by_cases hpayloads : request.payloads = []
  · cases hpointer : request.writePointer with
    | none =>
        simp [Shape.draft, Shape.message, Request.isTransactional, hpayloads, hpointer]
    | some pointer =>
        simp only [Shape.draft, Shape.message, Request.isTransactional, hpayloads,
          hpointer, Option.isSome_some, if_true, reduceCtorEq, and_false, if_false]
        rfl
  · rw [if_neg (fun hrefused => hpayloads hrefused.1), Shape.draft, if_neg hpayloads]
    rfl

theorem isMessageBlock_of_renders {request : Request} {block : List MessageEntry}
    (hrenders : Shape.message.Renders request (Shape.message.contents request)
      block) : IsMessageBlock request block := by
  unfold IsMessageBlock
  by_cases hrefused : request.payloads = [] ∧ request.writePointer = none
  · rw [if_pos hrefused]
    have hcontents : Shape.message.contents request = [] := by
      simp [Shape.contents, Shape.draft, Shape.message, Request.isTransactional,
        hrefused]
    rw [hcontents] at hrenders
    exact List.forall₂_nil_left_iff.mp hrenders
  · rw [if_neg hrefused]
    cases hdraft : Shape.message.draft request with
    | ok contents =>
        have hwhole : contents = TableKind.message.whole request :=
          TableKind.whole_eq hdraft
        rw [Shape.contents, hdraft, hwhole] at hrenders
        exact @Shape.Renders.carries .message _ _ _ hrenders fun _ hmem => hmem
    | error error =>
        obtain ⟨hpayloads, hempty⟩ :=
          (Shape.message.draft_eq_error_iff _ _).mp hdraft
        have hpointer : request.writePointer ≠ none := fun hnone =>
          hrefused ⟨hpayloads, hnone⟩
        rw [← Option.isSome_iff_ne_none] at hpointer
        simp [Shape.message, Request.isTransactional, hpointer] at hempty

namespace Ensemble

/-- However threads that publish are interleaved, once all of their calls have
returned the message table holds one block for every push, in the order of the
pushes, and each call has returned the answer to its own request. -/
theorem publishing_is_first_in_first_out {σ : Type} {table : Table σ MessageEntry}
    (ledger : table.Ledger) {good : σ → Prop} (hreliable : table.Reliable good)
    {writer : TableWriter σ} (hready : writer.IsReady ledger good)
    (plans : List (List Request)) (schedule : List Nat)
    (hdone : ((publishing writer plans).run
      (TableWriter.behaviour table Shape.message) schedule).threads.all
        Thread.isDone = true) :
    let behaviour := TableWriter.behaviour table Shape.message
    let start := publishing writer plans
    let final := start.run behaviour schedule
    let log := start.pushes behaviour schedule
    ∃ (last : TableWriter σ) (blocks : List (List MessageEntry)),
      final.coordinator.flight = .resting last [] ∧
      final.coordinator.queue = [] ∧
      ledger.held last.table = ledger.held writer.table ++ blocks.flatten ∧
      blocks.length = log.length ∧
      (∀ (ticket : Nat) (push : Push) (block : List MessageEntry),
        log[ticket]? = some push → blocks[ticket]? = some block →
          IsMessageBlock push.request block ∧
            (final.returns push.thread)[push.number]? =
              some (.persisted (messageAnswer push.request block))) ∧
      (∀ (index : Nat) (plan : List Request), plans[index]? = some plan →
        (pushesOf index log).map Push.request = plan ∧
          (pushesOf index log).map Push.number = List.range plan.length ∧
          (final.returns index).length = plan.length) ∧
      ∀ (earlier later : List Nat), schedule = earlier ++ later →
        ∀ (i j : Nat) (first second : Push),
          log[i]? = some first → log[j]? = some second →
          first.number <
            ((start.run behaviour earlier).returns first.thread).length →
          (start.run behaviour earlier).begun second.thread ≤ second.number →
            i < j := by
  intro behaviour start final log
  have hinTurn : ∀ schedule, @InTurn .message σ table ledger good
      (ledger.held writer.table) plans (start.pushes behaviour schedule)
      (start.run behaviour schedule) :=
    fun schedule => inTurn_run hreliable hready plans schedule
  obtain ⟨last, rows, hflight, hqueue, hrequests, hwhole, hheld, hreturned⟩ :=
    (hinTurn schedule).settled hdone
  have hlength := congrArg List.length hrequests
  rw [List.length_map, List.length_map] at hlength
  refine ⟨last, rows.map Written.block, hflight, hqueue, ?_, ?_, ?_, ?_, ?_⟩
  · rw [hheld, List.flatMap_def]
  · rw [List.length_map, hlength]
  · intro ticket push block hpush hblock
    rw [List.getElem?_map] at hblock
    obtain ⟨written, hwritten, rfl⟩ := Option.map_eq_some_iff.mp hblock
    have hmem := hwhole written (List.mem_of_getElem? hwritten)
    have hrequest : push.request = written.request := by
      have hget := congrArg (fun requests => requests[ticket]?) hrequests
      simp only [List.getElem?_map] at hget
      rw [hpush, hwritten] at hget
      exact Option.some.inj hget
    obtain ⟨outcome, houtcome, hreturn⟩ :=
      hreturned ticket push written hpush hwritten
    rw [hmem.outcome_eq, Option.some.injEq] at houtcome
    rw [hrequest, hreturn, ← houtcome]
    exact ⟨isMessageBlock_of_renders hmem.renders,
      congrArg (fun told => some (Return.persisted told))
        (verdict_eq_messageAnswer _ _)⟩
  · intro index plan hplan
    exact (hinTurn schedule).pushesOf_eq hdone hplan
  · rintro earlier later rfl i j first second hfirst hsecond hreturn hbegun
    have hlog : log = start.pushes behaviour earlier ++
        (start.run behaviour earlier).pushes behaviour later :=
      pushes_append behaviour start earlier later
    have hafter := hinTurn (earlier ++ later)
    rw [pushes_append] at hafter
    rw [hlog] at hfirst hsecond
    exact (hinTurn earlier).push_lt_push hafter hfirst hsecond hreturn hbegun

/-- One id is left, so the first request does not fit into one call. -/
def lastId : TableWriter (MemoryTable MessageEntry) where
  table := {}
  clock := .counting 5
  sequencer := { last := some 5, next := 65535 }

/-- Two payloads and then none from one thread, one payload from another. -/
def twoPlans : List (List Request) :=
  [[.ofTexts ⟨"space", "a"⟩ ["x", "y"], .ofTexts ⟨"space", "c"⟩ []],
    [.ofTexts ⟨"space", "b"⟩ ["u"]]]

/-- Two threads that take turns at every step leave three blocks, the last one
empty. -/
theorem turns_leave_three_blocks :
    ((publishing lastId twoPlans).run
        (TableWriter.behaviour MemoryTable.behaviour Shape.message)
        ((List.range 110).map (· % 2))).threads.all Thread.isDone = true ∧
      ∃ (last : TableWriter (MemoryTable MessageEntry))
        (first second third : List MessageEntry),
        last.table.entries.toList = first ++ second ++ third ∧
          IsMessageBlock (.ofTexts ⟨"space", "a"⟩ ["x", "y"]) first ∧
          IsMessageBlock (.ofTexts ⟨"space", "b"⟩ ["u"]) second ∧ third = [] := by
  have hdone : ((publishing lastId twoPlans).run
      (TableWriter.behaviour MemoryTable.behaviour Shape.message)
      ((List.range 110).map (· % 2))).threads.all Thread.isDone = true := by
    decide +kernel
  have hlog : (publishing lastId twoPlans).pushes
      (TableWriter.behaviour MemoryTable.behaviour Shape.message)
      ((List.range 110).map (· % 2)) =
        [⟨0, 0, .ofTexts ⟨"space", "a"⟩ ["x", "y"]⟩,
          ⟨1, 0, .ofTexts ⟨"space", "b"⟩ ["u"]⟩,
          ⟨0, 1, .ofTexts ⟨"space", "c"⟩ []⟩] := by
    decide +kernel
  obtain ⟨last, blocks, _, _, hheld, hlength, hblocks, _⟩ :=
    publishing_is_first_in_first_out MemoryTable.ledger MemoryTable.reliable
      (⟨⟨rfl, rfl⟩, rfl⟩ : lastId.IsReady MemoryTable.ledger _) twoPlans
      ((List.range 110).map (· % 2)) hdone
  rw [hlog] at hlength hblocks
  obtain ⟨first, second, third, rfl⟩ := List.length_eq_three.mp hlength
  refine ⟨hdone, last, first, second, third, ?_, ?_, ?_, ?_⟩
  · simpa [MemoryTable.ledger, lastId] using hheld
  · exact (hblocks 0 _ first rfl rfl).1
  · exact (hblocks 1 _ second rfl rfl).1
  · have hthird := (hblocks 2 _ third rfl rfl).1
    rwa [IsMessageBlock, if_pos ⟨rfl, rfl⟩] at hthird

end Ensemble

end MessageStore
