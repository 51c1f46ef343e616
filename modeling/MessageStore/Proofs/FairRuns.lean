import MessageStore.Proofs.RequestPlaces
import Mathlib.Algebra.Order.BigOperators.Group.Finset
import Mathlib.Algebra.Order.Monoid.Prod
import Mathlib.Data.Prod.Lex
import Mathlib.Tactic

/-!
# Fair runs come to an end

Threads that find the election taken look for their outcomes and stand for
election again and again, so a run may go on for ever if only they take turns.
If every thread has its turn time and again, and the writer gets done with
every batch, all calls return: there is a rank that no step raises, and that a
step of the thread with the election lowers, or, if no thread has it, one or
two steps of any thread with a call to make.
-/

namespace MessageStore

/-! ## The steps of a writer -/

namespace RequestWriter

variable {ω μ : Type} (writer : RequestWriter ω μ)

/-- The writer gets done with its work some time. -/
def Ends (work : μ) : Prop :=
  ∃ n, (writer.result? (writer.step^[n] work)).isSome

/-- How many steps the writer takes until it is done. -/
noncomputable def stepsLeft (work : μ) : Nat :=
  sInf {n | (writer.result? (writer.step^[n] work)).isSome}

variable {writer}

theorem Ends.stepsLeft_lt {work : μ} (hends : writer.Ends work)
    (hresult : writer.result? work = none) :
    writer.stepsLeft (writer.step work) < writer.stepsLeft work := by
  have hdone : (writer.result? (writer.step^[writer.stepsLeft work] work)).isSome :=
    Nat.sInf_mem (s := {n | (writer.result? (writer.step^[n] work)).isSome}) hends
  cases hleft : writer.stepsLeft work with
  | zero =>
      rw [hleft, Function.iterate_zero, id_eq, hresult] at hdone
      contradiction
  | succ left =>
      rw [hleft, Function.iterate_succ_apply] at hdone
      exact Nat.lt_succ_of_le (Nat.sInf_le hdone)

end RequestWriter

theorem Coordinator.IsResting.length_inFlight_land_lt {ω μ : Type} {writer : RequestWriter ω μ}
    {coordinator : Coordinator ω μ} (hresting : coordinator.IsResting)
    (hsome : coordinator.inFlight writer ≠ []) (settle : Pending → Pending) :
    ((coordinator.land settle).inFlight writer).length <
      (coordinator.inFlight writer).length := by
  obtain ⟨state, requests, hflight⟩ := hresting
  cases requests with
  | nil => exact absurd (by rw [inFlight, hflight]) hsome
  | cons pending requests => simp [land_of_resting_cons hflight, inFlight, hflight]

/-! ## The rank of a thread -/

/-- Ranks are compared part by part: the calls to make, the elections to come,
and the stage of the thread with the election with what is left of it. -/
abbrev Rank :=
  Nat ×ₗ Nat ×ₗ Nat ×ₗ Nat

/-- What a call has still to do, the wait for its outcome aside. -/
def Activity.toDo : Activity → Nat
  | .idle => 0
  | .checking _ => 3
  | .pushing _ => 2
  | .claiming => 2
  | _ => 1

namespace Thread

variable {ω μ : Type} (writer : RequestWriter ω μ)

/-- What the thread has still to do, a call at a time. -/
def toDo (thread : Thread) : Nat :=
  4 * thread.calls.length + thread.activity.toDo

/-- One for a thread that may stand for election before its call returns. -/
def candidacy (coordinator : Coordinator ω μ) (thread : Thread) : Nat :=
  match thread.activity with
  | .watching own => if (coordinator.outcome? writer own).isSome then 0 else 1
  | .electing _ => 1
  | .acquiring => 1
  | _ => 0

/-- How far the thread is from giving the election up: the stage, and what is
left of it. -/
noncomputable def tenure (coordinator : Coordinator ω μ) (thread : Thread) : Nat ×ₗ Nat :=
  match thread.activity with
  | .flushing .counting _ => toLex (8, 0)
  | .flushing (.popping left) _ => toLex (7, left)
  | .flushing .deciding _ => toLex (6, 0)
  | .flushing .rejecting _ => toLex (5, (coordinator.inFlight writer).length)
  | .flushing .writing _ =>
    match coordinator.flight with
    | .writing work => toLex (5, writer.stepsLeft work)
    | .resting _ _ => toLex (5, 0)
  | .flushing (.landing _) _ => toLex (4, (coordinator.inFlight writer).length)
  | .sealing _ => toLex (3, 0)
  | .closing _ => toLex (2, 0)
  | .leaving _ => toLex (1, 0)
  | .releasing _ => toLex (1, 0)
  | _ => toLex (0, 0)

/-- What a thread does in its own call counts more than an election, and that
more than any of the steps of the thread that has won it. -/
noncomputable def rank (coordinator : Coordinator ω μ) (thread : Thread) : Rank :=
  toLex (thread.toDo, toLex (thread.candidacy writer coordinator,
    thread.tenure writer coordinator))

variable {writer} {valid : μ → Prop} {coordinator later : Coordinator ω μ}
  {thread next : Thread}

theorem rank_lt_iff : next.rank writer later < thread.rank writer coordinator ↔
    next.toDo < thread.toDo ∨ next.toDo = thread.toDo ∧
      (next.candidacy writer later < thread.candidacy writer coordinator ∨
        next.candidacy writer later = thread.candidacy writer coordinator ∧
          next.tenure writer later < thread.tenure writer coordinator) := by
  simp only [rank, Prod.Lex.toLex_lt_toLex]

theorem tenure_of_not_holds (hholds : thread.activity.holds = false) :
    thread.tenure writer coordinator = toLex (0, 0) := by
  unfold tenure
  cases hactivity : thread.activity with
  | idle | checking | pushing | watching | electing | claiming | acquiring => rfl
  | flushing | releasing | sealing | closing | leaving =>
      rw [hactivity] at hholds
      contradiction

theorem tenure_afterFlush_lt (result : Except StoreError Unit) (ticket : Option Ticket)
    {stage left : Nat} (hstage : 4 ≤ stage) :
    (thread.next (afterFlush result ticket)).tenure writer later < toLex (stage, left) := by
  cases ticket <;>
  · simp only [tenure, next, afterFlush, Prod.Lex.toLex_lt_toLex]
    omega

/-- What others do brings no thread further from its end. -/
theorem rank_le_of_grows (hgrows : Coordinator.Grows writer coordinator later)
    (hflight : thread.activity.holds = true → later.flight = coordinator.flight) :
    thread.rank writer later ≤ thread.rank writer coordinator := by
  have hcandidacy : thread.candidacy writer later ≤ thread.candidacy writer coordinator := by
    unfold candidacy
    split
    next own hactivity =>
      cases hknown : coordinator.outcome? writer own with
      | none => split <;> simp
      | some outcome => simp [hgrows.outcome? hknown]
    all_goals exact Nat.le_refl _
  have htenure : thread.tenure writer later = thread.tenure writer coordinator := by
    cases hholds : thread.activity.holds with
    | false => rw [tenure_of_not_holds hholds, tenure_of_not_holds hholds]
    | true => simp only [tenure, Coordinator.inFlight, hflight hholds]
  rw [rank, rank, htenure]
  rcases hcandidacy.lt_or_eq with hlt | heq
  · simp [Prod.Lex.toLex_le_toLex, hlt]
  · rw [heq]

/-- A thread whose step leaves everything to others: it has no call to make, or
finds the election taken, or stands for it next. -/
structure Waits (writer : RequestWriter ω μ) (coordinator later : Coordinator ω μ)
    (thread next : Thread) : Prop where
  holds_eq : thread.activity.holds = false
  later_eq : later = coordinator
  rank_le : next.rank writer later ≤ thread.rank writer coordinator
  why : thread.isDone = true ∨ coordinator.elected = true ∨
    (∃ own, thread.activity = .watching own) ∧ ∃ own, next.activity = .electing own

theorem rank_lt_of_toDo (hless : next.toDo < thread.toDo) :
    next.rank writer later < thread.rank writer coordinator :=
  rank_lt_iff.mpr (Or.inl hless)

theorem toDo_of_holds (hholds : thread.activity.holds = true) :
    thread.toDo = 4 * thread.calls.length + 1 := by
  unfold toDo
  cases hactivity : thread.activity with
  | flushing | releasing | sealing | closing | leaving => rfl
  | idle | checking | pushing | watching | electing | claiming | acquiring =>
      rw [hactivity] at hholds
      contradiction

theorem candidacy_of_holds (hholds : thread.activity.holds = true) :
    thread.candidacy writer coordinator = 0 := by
  unfold candidacy
  cases hactivity : thread.activity with
  | watching | electing | acquiring =>
      rw [hactivity] at hholds
      contradiction
  | idle | checking | pushing | claiming | flushing | releasing | sealing | closing | leaving =>
      rfl

/-- A thread that keeps the election comes nearer to giving it up. -/
theorem rank_lt_of_tenure (hholds : thread.activity.holds = true)
    (hkeeps : next.activity.holds = true) (hcalls : next.calls = thread.calls)
    (hless : next.tenure writer later < thread.tenure writer coordinator) :
    next.rank writer later < thread.rank writer coordinator := by
  refine rank_lt_iff.mpr (Or.inr ⟨?_, Or.inr ⟨?_, hless⟩⟩)
  · rw [toDo_of_holds hholds, toDo_of_holds hkeeps, hcalls]
  · rw [candidacy_of_holds hholds, candidacy_of_holds hkeeps]

theorem rank_lt_of_win {activity : Activity} {ticket : Option Ticket}
    (hactivity : thread.activity = activity)
    (hwhy : (∃ own, activity = .electing own ∧ ticket = some own) ∨
      activity = .acquiring ∧ ticket = none) :
    (thread.next (.flushing .counting ticket)).rank writer later <
      thread.rank writer coordinator := by
  refine rank_lt_iff.mpr (Or.inr ?_)
  rcases hwhy with ⟨own, rfl, rfl⟩ | ⟨rfl, rfl⟩ <;>
    simp [toDo, candidacy, hactivity, Thread.next, Activity.toDo]

theorem rank_lt_of_release {own : Ticket} {outcome : Outcome}
    (hactivity : thread.activity = .releasing own)
    (hsome : later.outcome? writer own = some outcome) :
    (thread.next (.watching own)).rank writer later < thread.rank writer coordinator := by
  refine rank_lt_iff.mpr (Or.inr ?_)
  simp [toDo, candidacy, tenure, hactivity, Thread.next, Activity.toDo, hsome,
    Prod.Lex.toLex_lt_toLex]

theorem Waits.of_miss {own : Ticket} (hactivity : thread.activity = .watching own)
    (hnone : coordinator.outcome? writer own = none) :
    Waits writer coordinator coordinator thread (thread.next (.electing own)) where
  holds_eq := by rw [hactivity]; rfl
  later_eq := rfl
  rank_le := by
    simp [rank, toDo, candidacy, tenure, hactivity, hnone, Thread.next, Activity.toDo]
  why := Or.inr (Or.inr ⟨⟨own, hactivity⟩, own, rfl⟩)

theorem Waits.of_lose {own : Ticket} (hactivity : thread.activity = .electing own)
    (helected : coordinator.elected = true) :
    Waits writer coordinator coordinator thread (thread.next (.watching own)) where
  holds_eq := by rw [hactivity]; rfl
  later_eq := rfl
  rank_le := by
    simp only [rank, toDo, candidacy, tenure, hactivity, Thread.next, Activity.toDo]
    split
    · simp [Prod.Lex.toLex_le_toLex]
    · exact le_refl _
  why := Or.inr (Or.inl helected)

/-- A thread with the election never stays where it is, for the flight is where it
needs it. -/
theorem Waits.of_stays (hstays : thread.Stays coordinator)
    (hflushes : thread.activity.holds = true →
      coordinator.Flushes writer thread.activity) :
    Waits writer coordinator coordinator thread thread := by
  cases hstays with
  | idle hactivity hcalls =>
      refine ⟨by rw [hactivity]; rfl, rfl, le_refl _, Or.inl ?_⟩
      simp [isDone, hactivity, hcalls]
  | acquiring hactivity helected =>
      exact ⟨by rw [hactivity]; rfl, rfl, le_refl _, Or.inr (Or.inl helected)⟩
  | deciding hactivity hflight =>
      rw [hactivity] at hflushes
      obtain ⟨⟨state, requests, hresting⟩, -⟩ := hflushes rfl
      rw [hflight] at hresting
      contradiction
  | writing hactivity hflight =>
      rw [hactivity] at hflushes
      obtain ⟨⟨work, hwriting⟩, -⟩ := hflushes rfl
      rw [hflight] at hwriting
      contradiction
  | closing hactivity hflight =>
      rw [hactivity] at hflushes
      obtain ⟨state, hlanded⟩ := hflushes rfl
      rw [hflight] at hlanded
      contradiction

/-- A step brings its thread nearer to its end, or the thread waits. -/
theorem Move.rank_lt_or_waits (hmove : Move writer coordinator thread later next)
    (hends : ∀ work, coordinator.flight = .writing work → writer.Ends work)
    (hflushes : thread.activity.holds = true →
      coordinator.Flushes writer thread.activity)
    (hrelease : ∀ own, thread.activity = .releasing own →
      ∃ outcome, coordinator.outcome? writer own = some outcome) :
    next.rank writer later < thread.rank writer coordinator ∨
      Waits writer coordinator later thread next := by
  cases hmove with
  | call hactivity hcalls | callClose hactivity hcalls =>
      refine Or.inl (rank_lt_of_toDo ?_)
      simp only [toDo, hactivity, hcalls, Activity.toDo, List.length_cons]
      omega
  | refuse hactivity | accept hactivity | push hactivity | see hactivity | claimLate hactivity
  | claim hactivity | leave hactivity =>
      refine Or.inl (rank_lt_of_toDo ?_)
      simp [toDo, hactivity, Activity.toDo, return_, Thread.next]
  | miss hactivity hnone => exact Or.inr (.of_miss hactivity hnone)
  | lose hactivity helected => exact Or.inr (.of_lose hactivity helected)
  | win hactivity hwhy => exact Or.inl (rank_lt_of_win hactivity hwhy)
  | release hactivity =>
      obtain ⟨outcome, hsome⟩ := hrelease _ hactivity
      exact Or.inl (rank_lt_of_release hactivity hsome)
  | count hactivity | popEnd hactivity | pop hactivity | decideReject hactivity
  | decideWrite hactivity | forbid hactivity | close hactivity =>
      refine Or.inl (rank_lt_of_tenure (by rw [hactivity]; rfl) rfl rfl ?_)
      simp [tenure, hactivity, Thread.next, Prod.Lex.toLex_lt_toLex]
  | written hactivity hflight =>
      refine Or.inl (rank_lt_of_tenure (by rw [hactivity]; rfl) rfl rfl ?_)
      simp [tenure, hactivity, hflight, Thread.next, Prod.Lex.toLex_lt_toLex]
  | @write ticket work hactivity hflight hresult =>
      have hholds : thread.activity.holds = true := by rw [hactivity]; rfl
      refine Or.inl (rank_lt_of_tenure hholds hholds rfl ?_)
      have hless := (hends work hflight).stepsLeft_lt hresult
      simp [tenure, hactivity, hflight, hless, Prod.Lex.toLex_lt_toLex]
  | @decideNothing ticket _ hactivity | @rejectEnd ticket hactivity
  | @landEnd ticket _ hactivity =>
      refine Or.inl (rank_lt_of_tenure (by rw [hactivity]; rfl) (holds_afterFlush _ _) rfl ?_)
      simp only [tenure, hactivity]
      exact tenure_afterFlush_lt _ ticket (by omega)
  | reject hactivity hsome | land hactivity hsome =>
      have hholds : thread.activity.holds = true := by rw [hactivity]; rfl
      refine Or.inl (rank_lt_of_tenure hholds hholds rfl ?_)
      have hresting : coordinator.IsResting := by
        rw [hactivity] at hflushes
        exact (hflushes rfl).1
      have hless := hresting.length_inFlight_land_lt hsome
      simpa [tenure, hactivity, Prod.Lex.toLex_lt_toLex] using hless _
  | stay hstays => exact Or.inr (.of_stays hstays hflushes)

end Thread

/-! ## The rank of an ensemble -/

namespace Ensemble

variable {ω μ : Type} (writer : RequestWriter ω μ)

noncomputable def rankOf (ensemble : Ensemble ω μ) (index : Nat) : Rank :=
  match ensemble.threads[index]? with
  | none => 0
  | some thread => thread.rank writer ensemble.coordinator

/-- What all threads together have still to do. -/
noncomputable def rank (ensemble : Ensemble ω μ) : Rank :=
  ∑ index ∈ Finset.range ensemble.threads.size, ensemble.rankOf writer index

/-- The requests stand as the election says, and the writer gets done with the
batch that it is at work on. -/
structure Live (writer : RequestWriter ω μ) (valid : μ → Prop) (ensemble : Ensemble ω μ) :
    Prop where
  placed : ∃ log, Placed writer valid log ensemble
  ends : ∀ work, ensemble.coordinator.flight = .writing work → writer.Ends work

variable {writer} {valid : μ → Prop} {ensemble : Ensemble ω μ}

theorem Live.rankOf_other_le (htends : writer.Tends valid) (hlive : ensemble.Live writer valid)
    {index other : Nat} (hother : index ≠ other) {thread next : Thread}
    {later : Coordinator ω μ} (hthread : ensemble.threads[index]? = some thread)
    (hmove : Thread.Move writer ensemble.coordinator thread later next) :
    rankOf writer ⟨later, ensemble.threads.setIfInBounds index next⟩ other ≤
      ensemble.rankOf writer other := by
  obtain ⟨log, hplaced⟩ := hlive.placed
  obtain ⟨holder, helected, -⟩ := hplaced.flushes
  simp only [rankOf, getElem?_setIfInBounds_of_some hthread, if_neg hother]
  cases hmoved : ensemble.threads[other]? with
  | none => exact le_refl _
  | some moved =>
      have hgrows := hmove.grows htends.toKeeps hplaced.work_valid
      refine Thread.rank_le_of_grows hgrows fun hholds => ?_
      have hholder := (helected.holds_iff other moved hmoved).mp hholds
      have hfree : thread.activity.holds = false := helected.holds_eq_false hthread <| by
        rw [hholder]
        exact fun heq => hother (Option.some.inj heq).symm
      rcases hmove.bystander_cases hfree with
        ⟨-, -, rfl, -⟩ | ⟨request, -, -, rfl⟩ | ⟨-, -, -, -, hflight⟩
      · rfl
      · rfl
      · exact hflight

/-- A step lowers the rank, or its thread waits and nothing else happens. -/
theorem Live.rank_step (htends : writer.Tends valid) (hlive : ensemble.Live writer valid)
    {index : Nat} {thread : Thread} (hthread : ensemble.threads[index]? = some thread) :
    (ensemble.step writer index).rank writer < ensemble.rank writer ∨
      ∃ later next, ensemble.step writer index =
        ⟨later, ensemble.threads.setIfInBounds index next⟩ ∧
        Thread.Waits writer ensemble.coordinator later thread next ∧
        (ensemble.step writer index).rank writer ≤ ensemble.rank writer := by
  obtain ⟨log, hplaced⟩ := hlive.placed
  rcases ensemble.step_cases writer index with
    ⟨hnone, -⟩ | ⟨mover, later, next, hmover, hmove, hstep⟩
  · rw [hthread] at hnone
    contradiction
  rw [hthread, Option.some.injEq] at hmover
  subst hmover
  have hlt : index < ensemble.threads.size := (Array.getElem?_eq_some_iff.mp hthread).1
  have hself : rankOf writer ⟨later, ensemble.threads.setIfInBounds index next⟩ index =
      next.rank writer later := by
    simp [rankOf, getElem?_setIfInBounds_of_some hthread]
  have hbefore : ensemble.rankOf writer index = thread.rank writer ensemble.coordinator := by
    simp [rankOf, hthread]
  have hothers : ∀ other ∈ Finset.range ensemble.threads.size, other ≠ index →
      rankOf writer ⟨later, ensemble.threads.setIfInBounds index next⟩ other ≤
        ensemble.rankOf writer other :=
    fun other _ hother => hlive.rankOf_other_le htends (Ne.symm hother) hthread hmove
  rw [hstep]
  simp only [rank, Array.size_setIfInBounds]
  rcases hmove.rank_lt_or_waits hlive.ends (hplaced.flushes_of_holds hthread)
      (fun own => hplaced.exists_own_outcome hthread) with hless | hwaits
  · left
    refine Finset.sum_lt_sum (fun other hmem => ?_)
      ⟨index, Finset.mem_range.mpr hlt, by rwa [hself, hbefore]⟩
    by_cases hother : other = index
    · rw [hother, hself, hbefore]
      exact hless.le
    · exact hothers other hmem hother
  · refine Or.inr ⟨later, next, rfl, hwaits, Finset.sum_le_sum fun other hmem => ?_⟩
    by_cases hother : other = index
    · rw [hother, hself, hbefore]
      exact hwaits.rank_le
    · exact hothers other hmem hother

/-! ## Turns -/

/-- The threads that come first in an endless order of turns. -/
def turns (order : Nat → Nat) (count : Nat) : List Nat :=
  (List.range count).map order

/-- The ensemble after so many turns. -/
def after (writer : RequestWriter ω μ) (ensemble : Ensemble ω μ) (order : Nat → Nat)
    (count : Nat) : Ensemble ω μ :=
  ensemble.run writer (turns order count)

theorem after_succ (order : Nat → Nat) (count : Nat) :
    ensemble.after writer order (count + 1) =
      (ensemble.after writer order count).step writer (order count) := by
  simp only [after, turns, run, List.range_succ, List.map_append, List.foldl_append]
  rfl

/-- Each of the threads has its turn time and again. -/
def IsFair (threads : Nat) (order : Nat → Nat) : Prop :=
  ∀ index < threads, ∀ time, ∃ later, time ≤ later ∧ order later = index

theorem isFair_mod (threads : Nat) : IsFair threads (· % threads) := by
  intro index hlt time
  refine ⟨threads * time + index, ?_, ?_⟩
  · exact (Nat.le_mul_of_pos_left time (Nat.zero_lt_of_lt hlt)).trans (Nat.le_add_right _ _)
  · change (threads * time + index) % threads = index
    rw [Nat.mul_add_mod, Nat.mod_eq_of_lt hlt]

theorem IsFair.exists_turn {threads index : Nat} {order : Nat → Nat}
    (hfair : IsFair threads order) (hlt : index < threads) {holds : Nat → Prop} {time : Nat}
    (hnow : holds time)
    (hlasts : ∀ now, time ≤ now → order now ≠ index → holds now → holds (now + 1)) :
    ∃ later, time ≤ later ∧ order later = index ∧ holds later := by
  obtain ⟨later, hle, hturn⟩ := hfair index hlt time
  obtain ⟨gap, rfl⟩ := Nat.exists_eq_add_of_le hle
  induction gap generalizing time with
  | zero => exact ⟨time, le_refl _, hturn, hnow⟩
  | succ gap ih =>
      by_cases hself : order time = index
      · exact ⟨time, le_refl _, hself, hnow⟩
      · obtain ⟨later, hafter, hlater⟩ := ih (hlasts time (le_refl _) hself hnow)
          (fun now hnow => hlasts now (by omega)) (by omega) (by rwa [Nat.add_right_comm])
        exact ⟨later, by omega, hlater⟩

section

variable {order : Nat → Nat}

/-- As long as the rank stays, a thread changes in its own turns only. -/
theorem Live.step_of_not_lt (htends : writer.Tends valid) (hlive : ensemble.Live writer valid)
    {index : Nat} (hrank : ¬(ensemble.step writer index).rank writer < ensemble.rank writer) :
    (ensemble.step writer index).coordinator = ensemble.coordinator ∧
      (ensemble.step writer index).rank writer ≤ ensemble.rank writer ∧
      (∀ other, index ≠ other →
        (ensemble.step writer index).threads[other]? = ensemble.threads[other]?) ∧
      ∀ thread, ensemble.threads[index]? = some thread → ∃ next,
        (ensemble.step writer index).threads[index]? = some next ∧
          Thread.Waits writer ensemble.coordinator ensemble.coordinator thread next := by
  cases hthread : ensemble.threads[index]? with
  | none =>
      have hstep : ensemble.step writer index = ensemble := by rw [step, hthread]
      rw [hstep]
      exact ⟨rfl, le_refl _, fun _ _ => rfl, nofun⟩
  | some thread =>
      rcases hlive.rank_step htends hthread with hless | ⟨later, next, hstep, hwaits, hle⟩
      · exact absurd hless hrank
      · have hlater := hwaits.later_eq
        subst hlater
        refine ⟨by rw [hstep], hle, fun other hother => ?_, ?_⟩
        · rw [hstep, getElem?_setIfInBounds_of_some hthread, if_neg hother]
        · rintro mover ⟨⟩
          refine ⟨next, ?_, hwaits⟩
          rw [hstep, getElem?_setIfInBounds_of_some hthread, if_pos rfl]

theorem size_after (ensemble : Ensemble ω μ) (order : Nat → Nat) (count : Nat) :
    (ensemble.after writer order count).threads.size = ensemble.threads.size := by
  induction count with
  | zero => rfl
  | succ count ih =>
      rw [after_succ]
      rcases (ensemble.after writer order count).step_cases writer (order count) with
        ⟨-, hstep⟩ | ⟨thread, later, next, -, -, hstep⟩
      · rw [hstep, ih]
      · rw [hstep, Array.size_setIfInBounds, ih]

/-- If no turn to come lowers the rank, the coordinator stays as it is, and each
thread waits in its turns. -/
theorem waits_of_not_lt (htends : writer.Tends valid)
    (hlive : ∀ time, (ensemble.after writer order time).Live writer valid) {time : Nat}
    (hrank : ∀ later, ¬(ensemble.after writer order later).rank writer <
      (ensemble.after writer order time).rank writer) {later : Nat} (hle : time ≤ later) :
    let now := ensemble.after writer order later
    let next := ensemble.after writer order (later + 1)
    now.coordinator = (ensemble.after writer order time).coordinator ∧
      (∀ other, order later ≠ other → next.threads[other]? = now.threads[other]?) ∧
      ∀ thread, now.threads[order later]? = some thread → ∃ moved,
        next.threads[order later]? = some moved ∧
          Thread.Waits writer now.coordinator now.coordinator thread moved := by
  have hstill : ∀ later, time ≤ later →
      (ensemble.after writer order later).coordinator =
          (ensemble.after writer order time).coordinator ∧
        (ensemble.after writer order later).rank writer ≤
          (ensemble.after writer order time).rank writer := by
    intro later hle
    induction later, hle using Nat.le_induction with
    | base => exact ⟨rfl, le_refl _⟩
    | succ now hle ih =>
        have hsteady := hrank (now + 1)
        rw [after_succ] at hsteady ⊢
        obtain ⟨hcoordinator, hfall, -⟩ :=
          (hlive now).step_of_not_lt htends fun hless => hsteady (hless.trans_le ih.2)
        exact ⟨hcoordinator.trans ih.1, hfall.trans ih.2⟩
  obtain ⟨hcoordinator, hfall⟩ := hstill later hle
  have hsteady := hrank (later + 1)
  rw [after_succ] at hsteady
  obtain ⟨-, -, hothers, hown⟩ :=
    (hlive later).step_of_not_lt htends fun hless => hsteady (hless.trans_le hfall)
  rw [← after_succ] at hothers hown
  exact ⟨hcoordinator, hothers, hown⟩

theorem exists_rank_lt (htends : writer.Tends valid)
    (hlive : ∀ time, (ensemble.after writer order time).Live writer valid)
    (hfair : IsFair ensemble.threads.size order) {time : Nat}
    (hunfinished : ¬(ensemble.after writer order time).threads.all Thread.isDone = true) :
    ∃ later, (ensemble.after writer order later).rank writer <
      (ensemble.after writer order time).rank writer := by
  by_contra hnone
  have hwaits := fun (later : Nat) (hle : time ≤ later) =>
    waits_of_not_lt htends hlive (not_exists.mp hnone) hle
  -- A thread that has its turn waits, and was left alone until then.
  have hturn : ∀ {index : Nat} {thread : Thread} {now : Nat}, time ≤ now →
      (ensemble.after writer order now).threads[index]? = some thread →
        ∃ later moved, time ≤ later ∧
          (ensemble.after writer order (later + 1)).threads[index]? = some moved ∧
          Thread.Waits writer (ensemble.after writer order time).coordinator
            (ensemble.after writer order time).coordinator thread moved := by
    intro index thread now hle hthread
    have hlt := (Array.getElem?_eq_some_iff.mp hthread).1
    rw [size_after] at hlt
    obtain ⟨later, hafter, hself, hkept⟩ : ∃ later, now ≤ later ∧ order later = index ∧
        (ensemble.after writer order later).threads[index]? = some thread :=
      hfair.exists_turn hlt hthread fun later hafter hother hkept =>
        ((hwaits later (hle.trans hafter)).2.1 index hother).trans hkept
    obtain ⟨hcoordinator, -, hown⟩ := hwaits later (hle.trans hafter)
    rw [hself, hcoordinator] at hown
    obtain ⟨moved, hmoved, hwaiting⟩ := hown thread hkept
    exact ⟨later, moved, hle.trans hafter, hmoved, hwaiting⟩
  obtain ⟨log, hplaced⟩ := (hlive time).placed
  obtain ⟨holder, helected, -⟩ := hplaced.flushes
  cases hholder : holder with
  | some index =>
      have hthread := Array.getElem?_eq_getElem (helected.lt_size index hholder)
      obtain ⟨_, _, -, -, hwaiting⟩ := hturn (le_refl _) hthread
      have hholds := (helected.holds_iff index _ hthread).mpr hholder
      rw [hwaiting.holds_eq] at hholds
      contradiction
  | none =>
      have hfree : (ensemble.after writer order time).coordinator.elected = false := by
        rw [helected.elected_eq, hholder]
        rfl
      obtain ⟨index, hlt, hundone⟩ : ∃ index,
          ∃ hlt : index < (ensemble.after writer order time).threads.size,
            ¬(ensemble.after writer order time).threads[index].isDone = true := by
        simpa only [Array.all_eq_true, not_forall] using hunfinished
      obtain ⟨later, moved, hle, hmoved, hwaiting⟩ :=
        hturn (le_refl _) (Array.getElem?_eq_getElem hlt)
      rcases hwaiting.why with hdone | helected | ⟨-, own, hstands⟩
      · exact hundone hdone
      · rw [hfree] at helected
        contradiction
      -- It stands for the election in its next turn, and wins.
      · obtain ⟨_, _, -, -, hagain⟩ := hturn (Nat.le_succ_of_le hle) hmoved
        rcases hagain.why with hdone | helected | ⟨⟨other, hwatching⟩, -⟩
        · simp [Thread.isDone, hstands] at hdone
        · rw [hfree] at helected
          contradiction
        · rw [hstands] at hwatching
          contradiction

theorem exists_all_done (htends : writer.Tends valid)
    (hlive : ∀ time, (ensemble.after writer order time).Live writer valid)
    (hfair : IsFair ensemble.threads.size order) :
    ∃ count, (ensemble.after writer order count).threads.all Thread.isDone = true := by
  have hends : ∀ rank time, (ensemble.after writer order time).rank writer = rank →
      ∃ count, (ensemble.after writer order count).threads.all Thread.isDone = true := by
    intro rank
    induction rank using WellFoundedLT.induction with
    | ind rank ih =>
        rintro time rfl
        by_cases hdone : (ensemble.after writer order time).threads.all Thread.isDone = true
        · exact ⟨time, hdone⟩
        · obtain ⟨later, hless⟩ := exists_rank_lt htends hlive hfair hdone
          exact ih _ hless later rfl
  exact hends _ 0 rfl

end

/-- However threads that persist and close take turns, if each of them has its
turn time and again and the writer gets done with every batch that it is given,
then all of their calls return. -/
theorem fair_turns_end (htends : writer.Tends valid) (state : ω) (plans : List (List Call))
    {order : Nat → Nat} (hfair : IsFair plans.length order)
    (hends : ∀ schedule work,
      ((calling state plans).run writer schedule).coordinator.flight = .writing work →
        writer.Ends work) :
    ∃ count, ((calling state plans).after writer order count).threads.all
      Thread.isDone = true := by
  have hlive : ∀ time, ((calling state plans).after writer order time).Live writer valid :=
    fun time => ⟨⟨_, run_induction writer (Placed.step htends) (Placed.start state plans) _⟩,
      hends _⟩
  exact exists_all_done htends hlive (by simpa [calling] using hfair)

/-! ## Rounds -/

theorem run_of_all_done (hdone : ensemble.threads.all Thread.isDone = true)
    (schedule : List Nat) : ensemble.run writer schedule = ensemble := by
  have hstep : ∀ index, ensemble.step writer index = ensemble := by
    intro index
    unfold step
    cases hthread : ensemble.threads[index]? with
    | none => rfl
    | some thread =>
        obtain ⟨hactivity, hcalls⟩ := isDone_of_all hdone hthread
        obtain ⟨hlt, rfl⟩ := Array.getElem?_eq_some_iff.mp hthread
        simp only [Thread.step, hactivity, hcalls, Array.setIfInBounds, hlt, dif_pos,
          Array.set_getElem_self]
  induction schedule with
  | nil => rfl
  | cons index schedule ih => rwa [run, List.foldl_cons, hstep]

theorem after_add (ensemble : Ensemble ω μ) (order : Nat → Nat) (count more : Nat) :
    ensemble.after writer order (count + more) =
      (ensemble.after writer order count).after writer (fun time => order (count + time)) more := by
  simp only [after, turns, run, List.range_add, List.map_append, List.foldl_append, List.map_map]
  rfl

theorem after_round (ensemble : Ensemble ω μ) (threads : Nat) :
    ensemble.after writer (· % threads) threads = ensemble.run writer (List.range threads) := by
  have hturns : turns (· % threads) threads = List.range threads := by
    refine (List.map_congr_left fun index hmem => ?_).trans (List.map_id _)
    exact Nat.mod_eq_of_lt (List.mem_range.mp hmem)
  rw [after, hturns]

theorem exists_runInTurn_of_done {rounds : Nat}
    (hdone : (ensemble.after writer (· % ensemble.threads.size)
      (ensemble.threads.size * rounds)).threads.all Thread.isDone = true) :
    ∃ final, ensemble.runInTurn writer rounds = some final := by
  unfold runInTurn
  induction rounds generalizing ensemble with
  | zero => exact ⟨ensemble, if_pos hdone⟩
  | succ rounds ih =>
      unfold runRounds
      split
      next => exact ⟨ensemble, rfl⟩
      next =>
        have hsize : (ensemble.run writer (List.range ensemble.threads.size)).threads.size =
            ensemble.threads.size := by
          rw [← after_round, size_after]
        refine ih ?_
        rw [Nat.mul_succ, Nat.add_comm, after_add, after_round] at hdone
        simp only [Nat.add_mod_left] at hdone
        rwa [hsize]

/-- Threads that are done after so many turns in a circle are done within some
number of rounds. -/
theorem exists_runInTurn {count : Nat}
    (hdone : (ensemble.after writer (· % ensemble.threads.size) count).threads.all
      Thread.isDone = true) :
    ∃ rounds final, ensemble.runInTurn writer rounds = some final := by
  refine ⟨count, exists_runInTurn_of_done ?_⟩
  rcases Nat.eq_zero_or_pos ensemble.threads.size with hnone | hsome
  · rw [hnone, Nat.zero_mul]
    simp [after, turns, run, Array.size_eq_zero_iff.mp hnone]
  · obtain ⟨more, hmore⟩ := Nat.exists_eq_add_of_le (Nat.le_mul_of_pos_left count hsome)
    rw [hmore, after_add, after, run_of_all_done hdone]
    exact hdone

end Ensemble

end MessageStore
