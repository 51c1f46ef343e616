import MessageStore.Proofs.CallRecords

/-!
# The order of closing

One close at most turns the closed flag on.  Only this close seals the writer
and closes it, and once the writer is sealed it is not called again: so
closing the writer is the last that is asked of it.
-/

namespace MessageStore

namespace Activity

/-- The first close, with the closed flag turned on. -/
def isClosing : Activity → Bool
  | .acquiring => true
  | .flushing _ ticket => ticket.isNone
  | .sealing _ => true
  | .closing _ => true
  | .leaving _ => true
  | .idle => false
  | .checking _ => false
  | .pushing _ => false
  | .watching _ => false
  | .electing _ => false
  | .releasing _ => false
  | .claiming => false

/-- Whether the writer is sealed when the first close comes to the activity. -/
def SealedAs (sealed : Bool) : Activity → Prop
  | .closing _ => sealed = true
  | .leaving _ => sealed = true
  | activity => activity.isClosing = true → sealed = false

/-- Whoever closes has turned the closed flag on in the same call. -/
theorem Did.claimed {E : Type} {activity : Activity} {deeds : List (Deed E)}
    (hdid : activity.Did deeds) (hclosing : activity.isClosing = true) :
    Deed.claim true ∈ deeds := by
  cases activity with
  | acquiring => exact ClosesFirst.claimed hdid
  | flushing stage ticket =>
      cases ticket with
      | none => exact ClosesFirst.claimed hdid
      | some own => contradiction
  | sealing flushed | closing flushed =>
      obtain ⟨results, hcloses, _⟩ := hdid
      exact hcloses.claimed
  | leaving result =>
      obtain ⟨results, flushed, closed, hcloses, _⟩ := hdid
      exact hcloses.claimed
  | _ => contradiction

theorem sealedAs_of_not_isClosing {activity : Activity}
    (hclosing : activity.isClosing = false) (sealed : Bool) :
    activity.SealedAs sealed := by
  cases activity with
  | closing | leaving => contradiction
  | _ =>
      intro hother
      rw [hclosing] at hother
      contradiction

end Activity

section Deeds

variable {ω μ E : Type} {writer : RequestWriter ω μ}
  {act : μ → Option (TableAct E)} {coordinator later : Coordinator ω μ}
  {thread next : Thread} {deed : Deed E}

namespace Thread

/-- Once the closed flag is on, no close is the first and no persist finds it
off. -/
theorem Does.ne_of_closed (hdoes : thread.Does writer act coordinator deed)
    (hclosed : coordinator.closed = true) :
    deed ≠ .claim true ∧ deed ≠ .check false := by
  cases hdoes <;> simp [hclosed]

/-- Whatever is asked of the writer, it is not sealed, at work on a batch or
being closed. -/
theorem Does.of_usesWriter (hdoes : thread.Does writer act coordinator deed)
    (huses : deed.usesWriter = true) :
    coordinator.sealed = false ∨ (∃ work, coordinator.flight = .writing work) ∨
      ∃ flushed, thread.activity = .closing flushed := by
  cases hdoes with
  | check | push | claim => contradiction
  | batch _ _ hsealed => exact Or.inl hsealed
  | @work _ work _ hflight | @wrote _ work _ _ _ hflight =>
      exact Or.inr (Or.inl ⟨work, hflight⟩)
  | @shut flushed _ _ hactivity => exact Or.inr (Or.inr ⟨flushed, hactivity⟩)

theorem Does.of_claim (hdoes : thread.Does writer act coordinator deed)
    (hclaim : deed = .claim true) :
    thread.activity = .claiming ∧ coordinator.closed = false := by
  cases hdoes with
  | claim hactivity => exact ⟨hactivity, by simpa using hclaim⟩
  | _ => contradiction

theorem Does.of_isShut (hdoes : thread.Does writer act coordinator deed)
    (hshut : deed.isShut = true) :
    ∃ flushed, thread.activity = .closing flushed := by
  cases hdoes with
  | @shut flushed _ _ hactivity => exact ⟨flushed, hactivity⟩
  | _ => contradiction

theorem Move.sealedAs (hmove : Move writer coordinator thread later next)
    (hsealed : thread.activity.SealedAs coordinator.sealed)
    (hopen : coordinator.closed = false → coordinator.sealed = false) :
    next.activity.SealedAs later.sealed := by
  have hafter : ∀ (result : Except StoreError Unit) (ticket : Option Ticket),
      (ticket.isNone = true → coordinator.sealed = false) →
        (afterFlush result ticket).SealedAs coordinator.sealed := by
    intro result ticket hnone
    cases ticket with
    | none => exact fun _ => hnone rfl
    | some own => exact Activity.sealedAs_of_not_isClosing rfl _
  cases hmove with
  | claim hactivity hclosed => exact fun _ => hopen hclosed
  | forbid hactivity => rfl
  | call | callClose | refuse | accept | push | see | miss | lose | release
  | claimLate | leave => exact Activity.sealedAs_of_not_isClosing rfl _
  | close hactivity | decideReject hactivity | decideWrite hactivity
  | count hactivity | popEnd hactivity | written hactivity =>
      rw [hactivity] at hsealed
      exact hsealed
  | write | stay => exact hsealed
  | pop hactivity =>
      rw [hactivity] at hsealed
      rw [coordinator.pop_flags.2.2]
      exact hsealed
  | reject | land =>
      rw [(coordinator.land_flags _).2.2]
      exact hsealed
  | decideNothing hactivity | rejectEnd hactivity | landEnd hactivity =>
      rw [hactivity] at hsealed
      exact hafter _ _ hsealed
  | win hactivity hwhy =>
      rw [hactivity] at hsealed
      rcases hwhy with ⟨own, rfl, rfl⟩ | ⟨rfl, rfl⟩
      · exact Activity.sealedAs_of_not_isClosing rfl _
      · exact hsealed

end Thread

/-- How the two flags and the record stand to the close that is the first, if
there is one: its thread and the number of its call. -/
structure ClosedBy (log : List (Event E)) (ensemble : Ensemble ω μ)
    (closer : Option (Nat × Nat)) : Prop where
  closed_eq : ensemble.coordinator.closed = closer.isSome
  claimed : ∀ index number, closer = some (index, number) →
    ⟨index, number, .claim true⟩ ∈ log
  claims : ∀ event ∈ log, event.deed = .claim true →
    closer = some (event.thread, event.number)
  sealed_closed : ensemble.coordinator.closed = false →
    ensemble.coordinator.sealed = false
  sealed_as : ∀ (index : Nat) (thread : Thread),
    ensemble.threads[index]? = some thread →
      thread.activity.SealedAs ensemble.coordinator.sealed
  shuts : ∀ event ∈ log, event.deed.isShut = true →
    closer = some (event.thread, event.number) ∧
      ensemble.coordinator.sealed = true
  after_claim : log.Pairwise fun earlier later => earlier.deed = .claim true →
    later.deed ≠ .claim true ∧ later.deed ≠ .check false
  after_shut : log.Pairwise fun earlier later => earlier.deed.isShut = true →
    later.deed.usesWriter = false

namespace ClosedBy

variable {log : List (Event E)} {ensemble : Ensemble ω μ}
  {closer : Option (Nat × Nat)} {index : Nat}

theorem closed_iff (hclosed : ClosedBy log ensemble closer) :
    ensemble.coordinator.closed = true ↔ Claimed log := by
  rw [hclosed.closed_eq, Option.isSome_iff_exists]
  constructor
  · rintro ⟨⟨index, number⟩, hcloser⟩
    exact ⟨_, hclosed.claimed index number hcloser, rfl⟩
  · rintro ⟨event, hmem, hclaim⟩
    exact ⟨_, hclosed.claims event hmem hclaim⟩

/-- A thread that closes does so in the call that turned the flag on. -/
theorem closer_eq (hclosed : ClosedBy log ensemble closer)
    (hrecorded : Recorded writer log coordinator index thread)
    (hclosing : thread.activity.isClosing = true) :
    closer = some (index, thread.returns.length) :=
  hclosed.claims _ (mem_deedsOf.mp (hrecorded.did.claimed hclosing)) rfl

/-- Nothing is asked of a writer that was closed. -/
theorem does_after_shut (hclosed : ClosedBy log ensemble closer)
    (hrecorded : Recorded writer log ensemble.coordinator index thread)
    (hwriting : ∀ work, ensemble.coordinator.flight = .writing work →
      ensemble.coordinator.sealed = false)
    (hdoes : thread.Does writer act ensemble.coordinator deed)
    {event : Event E} (hmem : event ∈ log) (hshut : event.deed.isShut = true) :
    deed.usesWriter = false := by
  obtain ⟨hcloser, hsealed⟩ := hclosed.shuts event hmem hshut
  rw [← Bool.not_eq_true]
  intro huses
  rcases hdoes.of_usesWriter huses with
    hopen | ⟨work, hflight⟩ | ⟨flushed, hactivity⟩
  · rw [hopen] at hsealed
    contradiction
  · rw [hwriting work hflight] at hsealed
    contradiction
  · have hclosing : thread.activity.isClosing = true := by
      rw [hactivity]
      rfl
    -- The event is of the same call, which has not closed the writer yet.
    have hsame := hclosed.closer_eq hrecorded hclosing
    rw [hcloser, Option.some.injEq, Prod.mk.injEq] at hsame
    have hdid := hrecorded.did
    rw [hactivity] at hdid
    obtain ⟨results, hcloses, _⟩ := hdid
    obtain ⟨number, count, other⟩ := event
    obtain ⟨rfl, rfl⟩ := hsame
    have hown : other ∈ deedsOf number thread.returns.length log :=
      mem_deedsOf.mpr hmem
    have hnone := List.filterMap_eq_nil_iff.mp hcloses.shuts_eq other hown
    cases other <;> contradiction

/-- A thread whose seal nobody has touched is where it was, or has moved. -/
theorem sealed_as_move (hclosed : ClosedBy log ensemble closer)
    (hthread : ensemble.threads[index]? = some thread)
    (hmove : Thread.Move writer ensemble.coordinator thread later next)
    (hsealed : later.sealed = ensemble.coordinator.sealed) (other : Nat)
    (moved : Thread)
    (hmoved : (ensemble.threads.setIfInBounds index next)[other]? = some moved) :
    moved.activity.SealedAs later.sealed := by
  rcases Ensemble.moved_cases hthread hmoved with ⟨rfl, rfl⟩ | ⟨-, hmoved⟩
  · exact hmove.sealedAs (hclosed.sealed_as index thread hthread)
      hclosed.sealed_closed
  · rw [hsealed]
    exact hclosed.sealed_as other moved hmoved

theorem of_isShut (hclosed : ClosedBy log ensemble closer)
    (hthread : ensemble.threads[index]? = some thread)
    (hrecorded : Recorded writer log ensemble.coordinator index thread)
    (hdoes : thread.Does writer act ensemble.coordinator deed)
    (hshut : deed.isShut = true) :
    closer = some (index, thread.returns.length) ∧
      ensemble.coordinator.sealed = true := by
  obtain ⟨flushed, hactivity⟩ := hdoes.of_isShut hshut
  have hsealed := hclosed.sealed_as index thread hthread
  rw [hactivity] at hsealed
  exact ⟨hclosed.closer_eq hrecorded (by rw [hactivity]; rfl), hsealed⟩

theorem order (act : μ → Option (TableAct E))
    (hclosed : ClosedBy log ensemble closer)
    (hrecorded : Recorded writer log ensemble.coordinator index thread)
    (hwriting : ∀ work, ensemble.coordinator.flight = .writing work →
      ensemble.coordinator.sealed = false) :
    (log ++ noted index thread.returns.length
        (thread.deed? writer act ensemble.coordinator)).Pairwise
        (fun earlier later => earlier.deed = .claim true →
          later.deed ≠ .claim true ∧ later.deed ≠ .check false) ∧
      (log ++ noted index thread.returns.length
        (thread.deed? writer act ensemble.coordinator)).Pairwise
        (fun earlier later => earlier.deed.isShut = true →
          later.deed.usesWriter = false) := by
  constructor
  · apply pairwise_append_noted hclosed.after_claim
    intro new hnew event hmem hclaim
    apply (Thread.does_of_deed? hnew).ne_of_closed
    exact hclosed.closed_iff.mpr ⟨event, hmem, hclaim⟩
  · apply pairwise_append_noted hclosed.after_shut
    intro new hnew event hmem hshut
    exact hclosed.does_after_shut hrecorded hwriting (Thread.does_of_deed? hnew)
      hmem hshut

theorem keep (hclosed : ClosedBy log ensemble closer)
    (hrecorded : Recorded writer log ensemble.coordinator index thread)
    (hwriting : ∀ work, ensemble.coordinator.flight = .writing work →
      ensemble.coordinator.sealed = false)
    (hthread : ensemble.threads[index]? = some thread)
    (hmove : Thread.Move writer ensemble.coordinator thread later next)
    (hlate : thread.activity = .claiming → ensemble.coordinator.closed = true)
    (hclosedEq : later.closed = ensemble.coordinator.closed)
    (hsealedEq : later.sealed = ensemble.coordinator.sealed) :
    ClosedBy
      (log ++ noted index thread.returns.length
        (thread.deed? writer act ensemble.coordinator))
      ⟨later, ensemble.threads.setIfInBounds index next⟩ closer := by
  obtain ⟨hafterClaim, hafterShut⟩ := hclosed.order act hrecorded hwriting
  refine ⟨?_, ?_, ?_, ?_, ?_, ?_, hafterClaim, hafterShut⟩
  · rw [← hclosed.closed_eq]
    exact hclosedEq
  · intro thread number hcloser
    exact List.mem_append_left _ (hclosed.claimed thread number hcloser)
  · intro event hmem hclaim
    rcases mem_append_noted.mp hmem with hold | ⟨new, hnew, rfl⟩
    · exact hclosed.claims event hold hclaim
    · obtain ⟨hactivity, hfree⟩ := (Thread.does_of_deed? hnew).of_claim hclaim
      rw [hlate hactivity] at hfree
      contradiction
  · rw [hclosedEq, hsealedEq]
    exact hclosed.sealed_closed
  · exact hclosed.sealed_as_move hthread hmove hsealedEq
  · intro event hmem hshut
    rw [hsealedEq]
    rcases mem_append_noted.mp hmem with hold | ⟨new, hnew, rfl⟩
    · exact hclosed.shuts event hold hshut
    · exact hclosed.of_isShut hthread hrecorded (Thread.does_of_deed? hnew) hshut

theorem claim (hclosed : ClosedBy log ensemble closer)
    (hrecorded : Recorded writer log ensemble.coordinator index thread)
    (hwriting : ∀ work, ensemble.coordinator.flight = .writing work →
      ensemble.coordinator.sealed = false)
    (hthread : ensemble.threads[index]? = some thread)
    (hactivity : thread.activity = .claiming)
    (hopen : ensemble.coordinator.closed = false) :
    ClosedBy
      (log ++ noted index thread.returns.length
        (thread.deed? writer act ensemble.coordinator))
      ⟨{ ensemble.coordinator with closed := true },
        ensemble.threads.setIfInBounds index (thread.next .acquiring)⟩
      (some (index, thread.returns.length)) := by
  obtain ⟨hafterClaim, hafterShut⟩ := hclosed.order act hrecorded hwriting
  refine ⟨rfl, ?_, ?_, ?_, ?_, ?_, hafterClaim, hafterShut⟩
  · rintro thread number ⟨⟩
    apply mem_append_noted.mpr
    refine Or.inr ⟨.claim true, ?_, rfl⟩
    rw [Thread.deed?, hactivity, hopen]
    rfl
  · intro event hmem hclaim
    rcases mem_append_noted.mp hmem with hold | ⟨new, hnew, rfl⟩
    · rw [hclosed.closed_iff.mpr ⟨event, hold, hclaim⟩] at hopen
      contradiction
    · rfl
  · intro hfree
    contradiction
  · have hmove : Thread.Move writer ensemble.coordinator thread
        { ensemble.coordinator with closed := true } (thread.next .acquiring) :=
      .claim hactivity hopen
    exact hclosed.sealed_as_move hthread hmove rfl
  · intro event hmem hshut
    rcases mem_append_noted.mp hmem with hold | ⟨new, hnew, rfl⟩
    · have hsealed := (hclosed.shuts event hold hshut).2
      rw [hclosed.sealed_closed hopen] at hsealed
      contradiction
    · obtain ⟨flushed, hother⟩ := (Thread.does_of_deed? hnew).of_isShut hshut
      rw [hactivity] at hother
      contradiction

theorem forbid (hclosed : ClosedBy log ensemble closer)
    (hrecorded : ∀ (index : Nat) (thread : Thread),
      ensemble.threads[index]? = some thread →
        Recorded writer log ensemble.coordinator index thread)
    (hthread : ensemble.threads[index]? = some thread)
    {flushed : Except StoreError Unit}
    (hactivity : thread.activity = .sealing flushed)
    (hmove : Thread.Move writer ensemble.coordinator thread
      { ensemble.coordinator with sealed := true } next) :
    ClosedBy log
      ⟨{ ensemble.coordinator with sealed := true },
        ensemble.threads.setIfInBounds index next⟩ closer := by
  have hcloser := hclosed.closer_eq (hrecorded index thread hthread)
    (by rw [hactivity]; rfl)
  refine ⟨hclosed.closed_eq, hclosed.claimed, hclosed.claims, ?_, ?_, ?_,
    hclosed.after_claim, hclosed.after_shut⟩
  · intro hfree
    rw [hclosed.closed_eq, hcloser] at hfree
    contradiction
  · intro other moved hmoved
    rcases Ensemble.moved_cases hthread hmoved with ⟨rfl, rfl⟩ | ⟨hne, hmoved⟩
    · exact hmove.sealedAs (hclosed.sealed_as index thread hthread)
        hclosed.sealed_closed
    · apply Activity.sealedAs_of_not_isClosing
      rw [← Bool.not_eq_true]
      intro hclosing
      have hsame := hclosed.closer_eq (hrecorded other moved hmoved) hclosing
      rw [hcloser, Option.some.injEq, Prod.mk.injEq] at hsame
      exact hne hsame.1
  · intro event hmem hshut
    exact ⟨(hclosed.shuts event hmem hshut).1, rfl⟩

theorem move (act : μ → Option (TableAct E)) (hclosed : ClosedBy log ensemble closer)
    (hrecorded : ∀ (index : Nat) (thread : Thread),
      ensemble.threads[index]? = some thread →
        Recorded writer log ensemble.coordinator index thread)
    (hwriting : ∀ work, ensemble.coordinator.flight = .writing work →
      ensemble.coordinator.sealed = false)
    (hthread : ensemble.threads[index]? = some thread)
    (hmove : Thread.Move writer ensemble.coordinator thread later next) :
    ∃ closer, ClosedBy
      (log ++ noted index thread.returns.length
        (thread.deed? writer act ensemble.coordinator))
      ⟨later, ensemble.threads.setIfInBounds index next⟩ closer := by
  have hown := hrecorded index thread hthread
  rcases hmove.flags_cases with
    ⟨hlate, hclosedEq, hsealedEq⟩ | ⟨hactivity, hopen, rfl, rfl⟩ |
      ⟨flushed, hactivity, rfl⟩
  · exact ⟨closer, hclosed.keep hown hwriting hthread hmove hlate hclosedEq
      hsealedEq⟩
  · exact ⟨_, hclosed.claim hown hwriting hthread hactivity hopen⟩
  · refine ⟨closer, ?_⟩
    rw [Thread.deed?_of_isQuiet hactivity rfl, append_noted_none]
    exact hclosed.forbid hrecorded hthread hactivity hmove

end ClosedBy

end Deeds

end MessageStore
