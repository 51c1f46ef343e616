import MessageStore.Proofs.DeliveryShares
import Mathlib.Tactic

/-!
# Where a request stands

A request of a batch stands in one of five ways.  It is untouched; it is under
way, with some of its entries handed over; it waits for the end of the call
with its last entry; that call has ended and the request is due to be settled;
or it is done.  The record decides what it may be told: that all its entries
are stored, or the cause of the one failed call with an entry of it.  A
delivery that gives up tells the requests left its last cause.

Each theorem here follows one request through one action of a delivery.
-/

namespace MessageStore

namespace Pending

theorem peek_peek (pending : Pending) : pending.peek.peek = pending.peek := by
  by_cases hlookahead : pending.peek.lookahead.isSome = true
  · rw [peek, hlookahead]
    rfl
  · have hremaining : pending.remaining = [] := by
      rw [peek_lookahead] at hlookahead
      simpa using hlookahead
    rw [peek, pending.peek_exhausted hremaining]
    simp

end Pending

section Standing

variable {E : Type} [TableEntry E] (shape : Shape E)

/-- What a request may be told in view of its share of the record. -/
inductive Fate (givenUp : StoreError → Prop) (request : Request)
    (share : Share E) : Outcome → Prop
  | stored (hclean : share.Clean)
      (hall : share.handed.length = (shape.contents request).length) :
      Fate givenUp request share
        (shape.verdict request (share.handed.map HandedEntry.entry))
  | failed {before : List (StoreCall E)} {call : StoreCall E} {cause : StoreError}
      (hpast : share.past = before ++ [call])
      (hbefore : ∀ earlier ∈ before, earlier.result = .ok ())
      (hcause : call.result = .error cause) :
      Fate givenUp request share (.error (.storage request.topic cause))
  | givenUp {cause : StoreError} (hclean : share.Clean) (hcause : givenUp cause) :
      Fate givenUp request share (.error (.storage request.topic cause))

/-- The request is settled as its share of the record demands. -/
structure Done (givenUp : StoreError → Prop) (request : Request)
    (share : Share E) (pending : Pending) : Prop where
  progress : pending.Progress shape request share.handed
  current_eq : share.current = []
  outcome : ∃ outcome, pending.outcome = some outcome ∧
    Fate shape givenUp request share outcome

/-- The request may have entries and may have more to come. -/
structure UnderWay (request : Request) (share : Share E) (pending : Pending) :
    Prop where
  progress : pending.Progress shape request share.handed
  outcome_eq : pending.outcome = none
  clean : share.Clean
  begun : share.current = [] → share.past = [] ∨ pending.remaining ≠ []

/-- The last entry of the request is in the call under way. -/
structure Waiting (request : Request) (share : Share E) (pending : Pending) :
    Prop where
  progress : pending.Progress shape request share.handed
  outcome_eq : pending.outcome = none
  clean : share.Clean
  current_ne : share.current ≠ []
  remaining_eq : pending.remaining = []

/-- The call that has just ended had entries of the request. -/
structure Due (result : Except StoreError Unit) (request : Request)
    (share : Share E) (pending : Pending) : Prop where
  progress : pending.Progress shape request share.handed
  outcome_eq : pending.outcome = none
  current_eq : share.current = []
  ended : ∃ before call, share.past = before ++ [call] ∧ call.handed ≠ [] ∧
    call.result = result ∧ ∀ earlier ∈ before, earlier.result = .ok ()

/-- Nobody has looked at the request. -/
def Untouched (request : Request) (share : Share E) (pending : Pending) : Prop :=
  pending = Pending.fresh request ∧ share = {}

end Standing

section Transitions

variable {E : Type} [TableEntry E] {shape : Shape E}
  {givenUp givenUp' : StoreError → Prop} {request : Request} {share : Share E}
  {pending next : Pending} {result : Except StoreError Unit}

theorem Fate.mono {outcome : Outcome}
    (hfate : Fate shape givenUp request share outcome)
    (hgivenUp : ∀ cause, givenUp cause → givenUp' cause) :
    Fate shape givenUp' request share outcome := by
  cases hfate with
  | stored hclean hall => exact .stored hclean hall
  | failed hpast hbefore hcause => exact .failed hpast hbefore hcause
  | givenUp hclean hcause => exact .givenUp hclean (hgivenUp _ hcause)

theorem Done.mono (hdone : Done shape givenUp request share pending)
    (hgivenUp : ∀ cause, givenUp cause → givenUp' cause) :
    Done shape givenUp' request share pending := by
  obtain ⟨outcome, hsome, hfate⟩ := hdone.outcome
  exact ⟨hdone.progress, hdone.current_eq, outcome, hsome, hfate.mono hgivenUp⟩

theorem Done.settle_eq (hdone : Done shape givenUp request share pending)
    (outcome : Outcome) : pending.settle outcome = pending := by
  obtain ⟨set, hset, _⟩ := hdone.outcome
  exact Pending.settle_of_outcome hset outcome

theorem Done.stored_eq_handed (hdone : Done shape givenUp request share pending)
    (hclean : share.Clean) : share.stored = share.handed := by
  have happend := hclean.stored_append_current
  rwa [hdone.current_eq, List.append_nil] at happend

theorem Done.close (hdone : Done shape givenUp request share pending)
    (result : Except StoreError Unit) :
    Done shape givenUp request (share.close result) pending := by
  rw [Share.close_of_nil hdone.current_eq]
  exact hdone

theorem Done.not_ready (hdone : Done shape givenUp request share pending) :
    Delivery.inspect shape pending ≠ .ready next := by
  intro hsight
  obtain ⟨outcome, hsome, _⟩ := hdone.outcome
  rw [(Pending.inspect_ready hsight).1] at hsome
  contradiction

theorem Untouched.underWay (huntouched : Untouched request share pending) :
    UnderWay shape request share pending := by
  obtain ⟨rfl, rfl⟩ := huntouched
  constructor
  · exact Pending.Progress.fresh shape request
  · rfl
  · intro call hmem
    contradiction
  · intro _
    exact Or.inl rfl

theorem UnderWay.peek (hunder : UnderWay shape request share pending) :
    UnderWay shape request share pending.peek := by
  constructor
  · exact hunder.progress.peek
  · rw [Pending.peek_outcome, hunder.outcome_eq]
  · exact hunder.clean
  · rw [Pending.peek_remaining]
    exact hunder.begun

/-- An empty request is settled by its draft when it is passed. -/
theorem UnderWay.done_of_empty (hlawful : shape.Lawful)
    (hunder : UnderWay shape request share pending)
    (hremaining : pending.remaining = []) (hentries : pending.entries = 0)
    (hempty : (shape.onEmpty pending.peek.request = .ok .skip ∧
        next = pending.peek.succeed) ∨
      ∃ error, shape.onEmpty pending.peek.request = .error error ∧
        next = pending.peek.fail error) :
    Done shape givenUp request share next := by
  have hprogress := hunder.progress
  have hhanded := hprogress.entries_eq_zero_iff.mp hentries
  have hpayloads := hprogress.payloads_eq_nil hremaining hhanded
  rw [hprogress.onEmpty_peek hlawful] at hempty
  have hcurrent : share.current = [] := (List.append_eq_nil_iff.mp hhanded).2
  have hnone : pending.peek.outcome = none := by
    rw [Pending.peek_outcome, hunder.outcome_eq]
  rcases hempty with ⟨hskip, rfl⟩ | ⟨error, herror, rfl⟩
  · have hdraft : shape.draft request = .ok [] := by
      simp [Shape.draft, hpayloads, hskip]
    have hall : share.handed.length = (shape.contents request).length := by
      simp [hhanded, Shape.contents, hdraft]
    refine ⟨hprogress.peek.settle _, hcurrent, _,
      Pending.settle_outcome hnone _, ?_⟩
    rw [← hprogress.peek.verdict_eq hdraft]
    exact .stored hunder.clean hall
  · have hdraft : shape.draft request = .error error := by
      simp [Shape.draft, hpayloads, herror]
    have hall : share.handed.length = (shape.contents request).length := by
      simp [hhanded, Shape.contents, hdraft]
    have hverdict : shape.verdict request (share.handed.map HandedEntry.entry) =
        .error error := by
      simp [Shape.verdict, hdraft]
    refine ⟨hprogress.peek.settle _, hcurrent, _,
      Pending.settle_outcome hnone _, ?_⟩
    rw [← hverdict]
    exact .stored hunder.clean hall

/-- A request that is passed waits for the end of the call under way, or it is
done. -/
theorem UnderWay.passed (hlawful : shape.Lawful)
    (hunder : UnderWay shape request share pending)
    (hsight : Delivery.inspect shape pending = .passed next) :
    Waiting shape request share next ∨ Done shape givenUp request share next := by
  rcases Pending.inspect_passed hsight with
    ⟨hsome, _⟩ | ⟨_, hremaining, hentries, rfl⟩ | ⟨_, hremaining, hentries, hempty⟩
  · exact absurd hunder.outcome_eq hsome
  · left
    refine ⟨hunder.progress.peek, ?_, hunder.clean, ?_, ?_⟩
    · rw [Pending.peek_outcome, hunder.outcome_eq]
    · -- With nothing in the call under way and no payload left, the request
      -- would have no entry at all.
      intro hcurrent
      rcases hunder.begun hcurrent with hpast | hmore
      · have hhanded : share.handed = [] := by
          simp [Share.handed, hpast, hcurrent]
        exact hentries (hunder.progress.entries_eq_zero_iff.mpr hhanded)
      · exact hmore hremaining
    · rw [Pending.peek_remaining, hremaining]
  · exact Or.inr (hunder.done_of_empty hlawful hremaining hentries hempty)

theorem Done.passed (hdone : Done shape givenUp request share pending)
    (hsight : Delivery.inspect shape pending = .passed next) :
    Done shape givenUp request share next := by
  obtain ⟨outcome, hsome, _⟩ := hdone.outcome
  rcases Pending.inspect_passed hsight with ⟨_, rfl⟩ | ⟨hnone, _⟩ | ⟨hnone, _⟩
  · exact hdone
  all_goals
    rw [hnone] at hsome
    contradiction

theorem UnderWay.draw (hlawful : shape.Lawful)
    (hunder : UnderWay shape request share pending)
    (hsight : Delivery.inspect shape pending = .ready next)
    {entry : HandedEntry E} {position : Position}
    (hentry : entry.entry =
      shape.entry next.take.2.request next.take.1 position) :
    UnderWay shape request (share.add entry) (next.take.2.record position) := by
  obtain ⟨hnone, rfl, hready⟩ := Pending.inspect_ready hsight
  have hready' : pending.peek.remaining ≠ [] ∨
      pending.peek.remaining = [] ∧ pending.peek.entries = 0 ∧
        shape.onEmpty pending.peek.peek.request = .ok .reference := by
    simpa [Pending.peek_peek] using hready
  constructor
  · rw [Share.handed_add]
    exact hunder.progress.peek.draw hlawful hready' hentry
  · simpa [Pending.take, Pending.record] using hnone
  · exact hunder.clean
  · intro hcurrent
    simp at hcurrent

theorem Waiting.close (hwaiting : Waiting shape request share pending)
    (result : Except StoreError Unit) :
    Due shape result request (share.close result) pending ∧
      pending.remaining = [] := by
  refine ⟨⟨?_, hwaiting.outcome_eq, ?_, share.past, ⟨share.current, result⟩, ?_,
    hwaiting.current_ne, rfl, hwaiting.clean⟩, hwaiting.remaining_eq⟩
  · rw [Share.handed_close]
    exact hwaiting.progress
  · rw [Share.close_of_ne_nil hwaiting.current_ne]
  · rw [Share.close_of_ne_nil hwaiting.current_ne]

theorem UnderWay.close (hunder : UnderWay shape request share pending)
    (hcurrent : share.current ≠ []) (result : Except StoreError Unit) :
    Due shape result request (share.close result) pending := by
  refine ⟨?_, hunder.outcome_eq, ?_, share.past, ⟨share.current, result⟩, ?_,
    hcurrent, rfl, hunder.clean⟩
  · rw [Share.handed_close]
    exact hunder.progress
  · rw [Share.close_of_ne_nil hcurrent]
  · rw [Share.close_of_ne_nil hcurrent]

theorem Due.handed_ne_nil (hdue : Due shape result request share pending) :
    share.handed ≠ [] := by
  obtain ⟨before, call, hpast, hhanded, _, _⟩ := hdue.ended
  intro hnil
  unfold Share.handed at hnil
  rw [hpast] at hnil
  simp [hhanded] at hnil

theorem Due.fail {cause : StoreError}
    (hdue : Due shape (.error cause) request share pending) :
    Done shape givenUp request share (pending.failStorage cause) := by
  obtain ⟨before, call, hpast, _, hresult, hbefore⟩ := hdue.ended
  refine ⟨hdue.progress.settle _, hdue.current_eq, _,
    Pending.settle_outcome hdue.outcome_eq _, ?_⟩
  rw [Pending.topic, hdue.progress.topic_eq]
  exact .failed hpast hbefore hresult

theorem Due.clean (hdue : Due shape (.ok ()) request share pending) :
    share.Clean := by
  obtain ⟨before, call, hpast, _, hresult, hbefore⟩ := hdue.ended
  intro other hmem
  rw [hpast] at hmem
  rcases List.mem_append.mp hmem with hold | hlast
  · exact hbefore other hold
  · rw [List.mem_singleton.mp hlast, hresult]

theorem Due.succeed (hdue : Due shape (.ok ()) request share pending)
    (hremaining : pending.remaining = []) :
    Done shape givenUp request share pending.succeed := by
  have hhanded := hdue.handed_ne_nil
  have hall := hdue.progress.length_eq hremaining hhanded
  refine ⟨hdue.progress.settle _, hdue.current_eq, _,
    Pending.settle_outcome hdue.outcome_eq _, ?_⟩
  cases hdraft : shape.draft request with
  | ok contents =>
      rw [← hdue.progress.verdict_eq hdraft]
      exact .stored hdue.clean hall
  | error error =>
      -- A request that is refused has no entries.
      have hzero : (shape.contents request).length = 0 := by
        simp [Shape.contents, hdraft]
      rw [hzero] at hall
      exact absurd (List.length_eq_zero_iff.mp hall) hhanded

theorem Due.conclude (hdue : Due shape result request share pending)
    (hremaining : pending.remaining = []) :
    Done shape givenUp request share (pending.conclude result) := by
  cases result with
  | ok _ => exact hdue.succeed hremaining
  | error cause => exact hdue.fail

theorem Due.peek (hdue : Due shape result request share pending) :
    Due shape result request share pending.peek := by
  refine ⟨hdue.progress.peek, ?_, hdue.current_eq, hdue.ended⟩
  rw [Pending.peek_outcome, hdue.outcome_eq]

theorem Done.conclude (hdone : Done shape givenUp request share pending)
    (result : Except StoreError Unit) :
    Done shape givenUp request share (pending.conclude result) := by
  cases result with
  | ok _ =>
      rw [Pending.conclude, Pending.succeed, hdone.settle_eq]
      exact hdone
  | error cause =>
      rw [Pending.conclude, Pending.failStorage, Pending.fail, hdone.settle_eq]
      exact hdone

/-- The request at hand goes on if its call was stored and it has more. -/
theorem Due.settleCurrent (hdue : Due shape result request share pending) :
    Done shape givenUp request share (Delivery.settleCurrent result pending) ∨
      UnderWay shape request share (Delivery.settleCurrent result pending) := by
  cases result with
  | error cause => exact Or.inl hdue.fail
  | ok _ =>
      have hopen : pending.isCompleted = false :=
        pending.isCompleted_eq_false_iff.mpr hdue.outcome_eq
      simp only [Delivery.settleCurrent, hopen, Bool.false_eq_true, if_false,
        Pending.peek_lookahead]
      split
      next hmore =>
        right
        refine ⟨hdue.progress.peek, ?_, hdue.clean, fun _ => Or.inr ?_⟩
        · rw [Pending.peek_outcome, hdue.outcome_eq]
        · rw [Pending.peek_remaining]
          intro hnil
          simp [hnil] at hmore
      next hnone =>
        left
        apply hdue.peek.succeed
        rw [Pending.peek_remaining]
        simpa using hnone

theorem Done.settleCurrent (hdone : Done shape givenUp request share pending)
    (result : Except StoreError Unit) :
    Done shape givenUp request share (Delivery.settleCurrent result pending) := by
  cases result with
  | error cause => exact hdone.conclude (.error cause)
  | ok _ =>
      obtain ⟨outcome, hsome, _⟩ := hdone.outcome
      simp only [Delivery.settleCurrent, Pending.isCompleted, hsome,
        Option.isSome_some, if_true]
      exact hdone

theorem UnderWay.giveUp {cause : StoreError}
    (hunder : UnderWay shape request share pending)
    (hcurrent : share.current = []) (hcause : givenUp cause) :
    Done shape givenUp request share (pending.failStorage cause) := by
  refine ⟨hunder.progress.settle _, hcurrent, _,
    Pending.settle_outcome hunder.outcome_eq _, ?_⟩
  rw [Pending.topic, hunder.progress.topic_eq]
  exact .givenUp hunder.clean hcause

end Transitions

end MessageStore
