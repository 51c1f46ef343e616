import MessageStore.Proofs.CoordinatorMoves
import Mathlib.Tactic

/-!
# The election and the row of requests

Two facts about publishers that hold for every writer.  At most one thread
holds the election, namely the one that has turned the flag on.  And the
requests taken from the queue stand in one row that only grows at its end and
keeps every outcome, so a ticket stays good for ever.
-/

namespace MessageStore

def Activity.holds : Activity → Bool
  | .flushing _ _ => true
  | .releasing _ => true
  | .sealing _ => true
  | .closing _ => true
  | .leaving _ => true
  | .idle => false
  | .checking _ => false
  | .pushing _ => false
  | .watching _ => false
  | .electing _ => false
  | .claiming => false
  | .acquiring => false

theorem Activity.pushing?_of_holds {activity : Activity}
    (hholds : activity.holds = true) : activity.pushing? = none := by
  cases activity with
  | pushing request => contradiction
  | _ => rfl

theorem Thread.holds_afterFlush (result : Except StoreError Unit)
    (ticket : Option Ticket) :
    (Thread.afterFlush result ticket).holds = true := by
  cases ticket <;> rfl

namespace Thread

variable {ω μ : Type} {writer : RequestWriter ω μ}
  {coordinator later : Coordinator ω μ} {thread next : Thread}

/-- A move leaves the election as it is, wins it or gives it up. -/
theorem Move.election_cases
    (hmove : Move writer coordinator thread later next) :
    (next.activity.holds = thread.activity.holds ∧
        later.elected = coordinator.elected) ∨
      (thread.activity.holds = false ∧ coordinator.elected = false ∧
        next.activity.holds = true ∧ later.elected = true) ∨
      (thread.activity.holds = true ∧ next.activity.holds = false ∧
        later.elected = false) := by
  cases hmove with
  | call hactivity | callClose hactivity | refuse hactivity | accept hactivity
  | push hactivity | see hactivity | miss hactivity | lose hactivity
  | count hactivity | popEnd hactivity | decideReject hactivity
  | decideWrite hactivity | write hactivity | written hactivity
  | claimLate hactivity | claim hactivity | forbid hactivity | close hactivity =>
      left
      rw [hactivity]
      exact ⟨rfl, rfl⟩
  | pop hactivity =>
      left
      rw [hactivity]
      exact ⟨rfl, coordinator.pop_flags.1⟩
  | decideNothing hactivity | rejectEnd hactivity | landEnd hactivity =>
      left
      rw [hactivity]
      exact ⟨Thread.holds_afterFlush _ _, rfl⟩
  | reject hactivity | land hactivity =>
      left
      exact ⟨rfl, (coordinator.land_flags _).1⟩
  | win hactivity hwhy helected =>
      right
      left
      refine ⟨?_, helected, rfl, rfl⟩
      rw [hactivity]
      rcases hwhy with ⟨own, rfl, _⟩ | ⟨rfl, _⟩ <;> rfl
  | release hactivity | leave hactivity =>
      right
      right
      rw [hactivity]
      exact ⟨rfl, rfl, rfl⟩
  | stay => exact Or.inl ⟨rfl, rfl⟩

/-- A thread without the election wins it, pushes its request or leaves the
requests alone. -/
theorem Move.bystander_cases
    (hmove : Move writer coordinator thread later next)
    (hholds : thread.activity.holds = false) :
    (thread.activity.pushing? = none ∧ coordinator.elected = false ∧
        later = { coordinator with elected := true } ∧
        ∃ ticket, next.activity = .flushing .counting ticket) ∨
      (∃ request, thread.activity.pushing? = some request ∧
        next.activity.holds = false ∧ later = coordinator.push request) ∨
      (thread.activity.pushing? = none ∧ next.activity.holds = false ∧
        later.queue = coordinator.queue ∧ later.settled = coordinator.settled ∧
        later.flight = coordinator.flight) := by
  cases hmove with
  | win hactivity hwhy helected =>
      left
      refine ⟨?_, helected, rfl, _, rfl⟩
      rw [hactivity]
      rcases hwhy with ⟨own, rfl, _⟩ | ⟨rfl, _⟩ <;> rfl
  | @push request hactivity =>
      right
      left
      refine ⟨request, ?_, rfl, rfl⟩
      rw [hactivity]
      rfl
  | call hactivity | callClose hactivity | refuse hactivity | accept hactivity
  | see hactivity | miss hactivity | lose hactivity | claimLate hactivity
  | claim hactivity =>
      right
      right
      rw [hactivity]
      exact ⟨rfl, rfl, rfl, rfl, rfl⟩
  | stay hstays =>
      right
      right
      refine ⟨?_, hholds, rfl, rfl, rfl⟩
      rcases hstays with hactivity | hactivity | hactivity | hactivity | hactivity <;>
        rw [hactivity] <;> rfl
  | count hactivity | popEnd hactivity | pop hactivity | decideNothing hactivity
  | decideReject hactivity | decideWrite hactivity | rejectEnd hactivity
  | reject hactivity | write hactivity | written hactivity | landEnd hactivity
  | land hactivity | release hactivity | forbid hactivity | close hactivity
  | leave hactivity =>
      rw [hactivity] at hholds
      contradiction

/-- The first close turns the closed flag on, later it seals the writer, and
nobody else touches either flag. -/
theorem Move.flags_cases
    (hmove : Move writer coordinator thread later next) :
    ((thread.activity = .claiming → coordinator.closed = true) ∧
        later.closed = coordinator.closed ∧ later.sealed = coordinator.sealed) ∨
      (thread.activity = .claiming ∧ coordinator.closed = false ∧
        later = { coordinator with closed := true } ∧
        next = thread.next .acquiring) ∨
      (∃ flushed, thread.activity = .sealing flushed ∧
        later = { coordinator with sealed := true }) := by
  cases hmove with
  | claim hactivity hopen =>
      exact Or.inr (Or.inl ⟨hactivity, hopen, rfl, rfl⟩)
  | @forbid flushed hactivity => exact Or.inr (Or.inr ⟨flushed, hactivity, rfl⟩)
  | claimLate hactivity hclosed => exact Or.inl ⟨fun _ => hclosed, rfl, rfl⟩
  | call hactivity | callClose hactivity | refuse hactivity | accept hactivity
  | push hactivity | see hactivity | miss hactivity | lose hactivity
  | count hactivity | popEnd hactivity | decideNothing hactivity
  | decideReject hactivity | decideWrite hactivity | rejectEnd hactivity
  | write hactivity | written hactivity | landEnd hactivity | release hactivity
  | close hactivity | leave hactivity =>
      left
      rw [hactivity]
      exact ⟨by simp, rfl, rfl⟩
  | pop hactivity =>
      left
      rw [hactivity]
      exact ⟨by simp, coordinator.pop_flags.2⟩
  | reject hactivity | land hactivity =>
      left
      rw [hactivity]
      exact ⟨by simp, (coordinator.land_flags _).2⟩
  | win hactivity hwhy =>
      left
      rw [hactivity]
      refine ⟨?_, rfl, rfl⟩
      rcases hwhy with ⟨own, rfl, _⟩ | ⟨rfl, _⟩ <;> simp
  | stay hstays =>
      left
      refine ⟨?_, rfl, rfl⟩
      rcases hstays with hactivity | hactivity | hactivity | hactivity | hactivity <;>
        simp [hactivity]

end Thread

namespace Ensemble

variable {ω μ : Type} {writer : RequestWriter ω μ}

/-- The flag is on exactly when a thread holds the election, and no other
thread holds it. -/
structure Elected (ensemble : Ensemble ω μ) (holder : Option Nat) : Prop where
  elected_eq : ensemble.coordinator.elected = holder.isSome
  holds_iff : ∀ index thread, ensemble.threads[index]? = some thread →
    (thread.activity.holds = true ↔ holder = some index)
  lt_size : ∀ index, holder = some index → index < ensemble.threads.size

theorem Elected.holder_eq_none {ensemble : Ensemble ω μ} {holder : Option Nat}
    (helected : ensemble.Elected holder)
    (hoff : ensemble.coordinator.elected = false) : holder = none := by
  have hflag := helected.elected_eq
  rw [hoff] at hflag
  exact Option.isNone_iff_eq_none.mp (by simpa using hflag.symm)

theorem Elected.holds_eq_false {ensemble : Ensemble ω μ} {holder : Option Nat}
    (helected : ensemble.Elected holder) {index : Nat} {thread : Thread}
    (hthread : ensemble.threads[index]? = some thread) (hother : holder ≠ some index) :
    thread.activity.holds = false := by
  rw [Bool.eq_false_iff]
  exact fun hholds => hother ((helected.holds_iff index thread hthread).mp hholds)

def holderAfter (index : Nat) (thread next : Thread) (holder : Option Nat) :
    Option Nat :=
  if next.activity.holds then some index
  else if thread.activity.holds then none
  else holder

theorem Elected.move {ensemble : Ensemble ω μ} {holder : Option Nat}
    (helected : ensemble.Elected holder) {index : Nat} {thread next : Thread}
    {later : Coordinator ω μ} (hthread : ensemble.threads[index]? = some thread)
    (hmove : Thread.Move writer ensemble.coordinator thread later next) :
    Elected ⟨later, ensemble.threads.setIfInBounds index next⟩
      (holderAfter index thread next holder) := by
  have hself := helected.holds_iff index thread hthread
  have hsize : index < ensemble.threads.size :=
    (Array.getElem?_eq_some_iff.mp hthread).1
  unfold holderAfter
  rcases hmove.election_cases with
    ⟨hsame, hflag⟩ | ⟨hbefore, hoff, hafter, hon⟩ | ⟨hbefore, hafter, hoff⟩
  · have hholder : (if next.activity.holds then some index
        else if thread.activity.holds then none else holder) = holder := by
      rw [hsame]
      by_cases hholds : thread.activity.holds = true
      · rw [if_pos hholds, hself.mp hholds]
      · rw [if_neg hholds, if_neg hholds]
    rw [hholder]
    constructor
    · rw [hflag]
      exact helected.elected_eq
    · intro other moved hmoved
      rcases moved_cases hthread hmoved with ⟨rfl, rfl⟩ | ⟨-, hmoved⟩
      · rw [hsame]
        exact hself
      · exact helected.holds_iff other moved hmoved
    · intro other hother
      rw [Array.size_setIfInBounds]
      exact helected.lt_size other hother
  · rw [if_pos hafter]
    have hnone := helected.holder_eq_none hoff
    constructor
    · exact hon
    · intro other moved hmoved
      rcases moved_cases hthread hmoved with ⟨rfl, rfl⟩ | ⟨hne, hmoved⟩
      · simp [hafter]
      · have hother := helected.holds_iff other moved hmoved
        rw [hnone] at hother
        simpa [hne] using hother
    · intro other hother
      cases hother
      rw [Array.size_setIfInBounds]
      exact hsize
  · rw [if_neg (by simp [hafter]), if_pos hbefore]
    constructor
    · exact hoff
    · intro other moved hmoved
      rcases moved_cases hthread hmoved with ⟨rfl, rfl⟩ | ⟨hne, hmoved⟩
      · simp [hafter]
      · have hother := helected.holds_iff other moved hmoved
        rw [hself.mp hbefore] at hother
        simpa [hne] using hother
    · intro other hother
      contradiction

end Ensemble

/-! ## The row of requests -/

/-- A writer that starts on a batch as it is and never changes an outcome. -/
structure RequestWriter.Keeps {ω μ : Type} (writer : RequestWriter ω μ)
    (valid : μ → Prop) : Prop where
  valid_start : ∀ state batch, valid (writer.start state batch)
  valid_step : ∀ {work}, valid work → valid (writer.step work)
  requests_start : ∀ state batch,
    writer.requests (writer.start state batch) = batch
  requests_step : ∀ {work}, valid work →
    List.Forall₂ Pending.Keeps (writer.requests work)
      (writer.requests (writer.step work))

namespace Coordinator

variable {ω μ : Type} (writer : RequestWriter ω μ)

/-- The requests taken from the queue so far, in order. -/
def known (coordinator : Coordinator ω μ) : List Pending :=
  coordinator.settled.toList ++ coordinator.inFlight writer

def WorkValid (valid : μ → Prop) (coordinator : Coordinator ω μ) : Prop :=
  ∀ work, coordinator.flight = .writing work → valid work

theorem outcome?_eq (coordinator : Coordinator ω μ) (ticket : Ticket) :
    coordinator.outcome? writer ticket =
      (coordinator.known writer)[ticket]?.bind (·.outcome) := by
  unfold outcome? known
  by_cases hlt : ticket < coordinator.settled.size
  · have hget : (coordinator.settled.toList ++ coordinator.inFlight writer)[ticket]? =
        some coordinator.settled[ticket] := by
      rw [List.getElem?_append_left (by simpa using hlt)]
      simp [hlt]
    rw [dif_pos hlt, hget]
    rfl
  · have hget : (coordinator.settled.toList ++ coordinator.inFlight writer)[ticket]? =
        (coordinator.inFlight writer)[ticket - coordinator.settled.size]? := by
      rw [List.getElem?_append_right (by simpa using hlt)]
      simp
    rw [dif_neg hlt, hget]
    cases (coordinator.inFlight writer)[ticket - coordinator.settled.size]? <;> rfl

/-- The row of requests has grown at its end at most, and no outcome has
changed. -/
def Grows (before later : Coordinator ω μ) : Prop :=
  ∃ front back, later.known writer = front ++ back ∧
    List.Forall₂ Pending.Keeps (before.known writer) front

variable {writer} {before later : Coordinator ω μ}

theorem Grows.of_known_eq (hknown : later.known writer = before.known writer) :
    Grows writer before later := by
  refine ⟨before.known writer, [], ?_, ?_⟩
  · rw [hknown, List.append_nil]
  · exact Pending.forall₂_keeps_refl _

theorem Grows.outcome? (hgrows : Grows writer before later) {ticket : Ticket}
    {outcome : Outcome} (hsome : before.outcome? writer ticket = some outcome) :
    later.outcome? writer ticket = some outcome := by
  obtain ⟨front, back, hknown, hkeeps⟩ := hgrows
  rw [outcome?_eq] at hsome ⊢
  obtain ⟨pending, hget, houtcome⟩ := Option.bind_eq_some_iff.mp hsome
  obtain ⟨hlt, hget⟩ := List.getElem?_eq_some_iff.mp hget
  have hlength := hkeeps.length_eq
  have hfront : ticket < front.length := hlength ▸ hlt
  have hkeep := List.Forall₂.get hkeeps hlt hfront
  rw [hknown, List.getElem?_append_left hfront, List.getElem?_eq_getElem hfront]
  simp only [Option.bind_some]
  apply hkeep outcome
  rw [List.get_eq_getElem, hget, houtcome]

theorem Grows.pop (coordinator : Coordinator ω μ) :
    Grows writer coordinator coordinator.pop := by
  rcases coordinator.pop_cases with hpop | ⟨pending, _, _, _, -, hflight, hpop⟩
  · exact .of_known_eq (by rw [hpop])
  · refine ⟨coordinator.known writer, [pending], ?_, ?_⟩
    · simp [hpop, known, inFlight, hflight]
    · exact Pending.forall₂_keeps_refl _

theorem Grows.land {settle : Pending → Pending}
    (hsettle : ∀ pending, Pending.Keeps pending (settle pending))
    (coordinator : Coordinator ω μ) :
    Grows writer coordinator (coordinator.land settle) := by
  rcases coordinator.land_cases settle with hland | ⟨_, pending, requests, hflight, hland⟩
  · exact .of_known_eq (by rw [hland])
  · refine ⟨coordinator.settled.toList ++ settle pending :: requests, [], ?_, ?_⟩
    · simp [hland, known, inFlight]
    · simp only [known, inFlight, hflight]
      exact (hsettle pending).forall₂_append_cons _ _

end Coordinator

/-- Whatever a thread does, the row of requests keeps its outcomes. -/
theorem Thread.Move.grows {ω μ : Type} {writer : RequestWriter ω μ}
    {valid : μ → Prop} (hkeeps : writer.Keeps valid)
    {coordinator later : Coordinator ω μ} {thread next : Thread}
    (hvalid : coordinator.WorkValid valid)
    (hmove : Thread.Move writer coordinator thread later next) :
    Coordinator.Grows writer coordinator later := by
  cases hmove with
  | decideWrite hactivity hflight hrequests hsealed =>
      apply Coordinator.Grows.of_known_eq
      simp [Coordinator.known, Coordinator.inFlight, hflight, hkeeps.requests_start]
  | @write ticket work hactivity hflight hresult =>
      refine ⟨coordinator.settled.toList ++ writer.requests (writer.step work), [],
        ?_, ?_⟩
      · simp [Coordinator.known, Coordinator.inFlight]
      · simp only [Coordinator.known, Coordinator.inFlight, hflight]
        apply List.rel_append
        · exact Pending.forall₂_keeps_refl _
        · exact hkeeps.requests_step (hvalid work hflight)
  | written hactivity hflight hresult =>
      apply Coordinator.Grows.of_known_eq
      simp [Coordinator.known, Coordinator.inFlight, hflight]
  | close hactivity hflight =>
      apply Coordinator.Grows.of_known_eq
      simp [Coordinator.known, Coordinator.inFlight, hflight]
  | pop => exact .pop coordinator
  | reject => exact .land (fun pending => pending.keeps_settle _) coordinator
  | land => exact .land (fun pending => pending.keeps_conclude _) coordinator
  | call | callClose | refuse | accept | push | see | miss | lose | win | count
  | popEnd | decideNothing | decideReject | rejectEnd | landEnd | release
  | claimLate | claim | forbid | leave | stay =>
      exact .of_known_eq rfl

theorem Thread.Move.work_valid {ω μ : Type} {writer : RequestWriter ω μ}
    {valid : μ → Prop} (hkeeps : writer.Keeps valid)
    {coordinator later : Coordinator ω μ} {thread next : Thread}
    (hvalid : coordinator.WorkValid valid)
    (hmove : Thread.Move writer coordinator thread later next) :
    later.WorkValid valid := by
  cases hmove with
  | decideWrite hactivity hflight hrequests hsealed =>
      rintro work ⟨⟩
      exact hkeeps.valid_start _ _
  | @write ticket work hactivity hflight hresult =>
      rintro other ⟨⟩
      exact hkeeps.valid_step (hvalid work hflight)
  | written | close =>
      rintro work ⟨⟩
  | pop =>
      intro work hflight
      rcases coordinator.pop_cases with hpop | ⟨_, _, _, _, -, -, hpop⟩
      · rw [hpop] at hflight
        exact hvalid work hflight
      · rw [hpop] at hflight
        contradiction
  | reject | land =>
      intro work hflight
      rcases coordinator.land_cases _ with hland | ⟨_, _, _, -, hland⟩
      · rw [hland] at hflight
        exact hvalid work hflight
      · rw [hland] at hflight
        contradiction
  | call | callClose | refuse | accept | push | see | miss | lose | win | count
  | popEnd | decideNothing | decideReject | rejectEnd | landEnd | release
  | claimLate | claim | forbid | leave | stay => exact hvalid

end MessageStore
