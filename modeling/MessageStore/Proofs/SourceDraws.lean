import MessageStore.Proofs.SourceHorizon
import Mathlib.Tactic

/-!
# What is drawn from a source

A payload is pulled when the last one has an entry, and no source is asked again
after its end.  So a request was polled as often as it has entries with a
payload, and perhaps once more; and just once more if it has succeeded, since
nothing but the end of its source shows that it is whole.

Each theorem here follows one request through one thing that a delivery does to
it.
-/

namespace MessageStore

namespace Request

/-- The request after so many polls. -/
def pulled (source : Request) (polls : Nat) : Request :=
  { source with answers := source.answers.drop polls, polls := source.polls + polls }

/-- The payloads that so many polls yield. -/
def yielded (source : Request) (polls : Nat) : List Bytes :=
  (List.range polls).filterMap source.answer

/-- One of so many polls has shown an end. -/
def HasEnded (source : Request) (polls : Nat) : Prop :=
  ∃ index < polls, source.answer index = none

variable (source : Request) (polls : Nat)

@[simp] theorem pulled_zero : source.pulled 0 = source := rfl

theorem poll_pulled :
    (source.pulled polls).poll = (source.answer polls, source.pulled (polls + 1)) := by
  have hhead : (source.answers.drop polls).head? = source.answers[polls]? := List.head?_drop
  have htail : (source.answers.drop polls).tail = source.answers.drop (polls + 1) :=
    List.tail_drop
  unfold poll pulled answer
  cases hanswers : source.answers.drop polls with
  | nil =>
      rw [hanswers] at hhead htail
      simp [← hhead, ← htail, Nat.add_assoc]
  | cons answer rest =>
      rw [hanswers] at hhead htail
      simp [← hhead, ← htail, Nat.add_assoc]

theorem yielded_succ :
    source.yielded (polls + 1) = source.yielded polls ++ (source.answer polls).toList := by
  rw [yielded, List.range_succ, List.filterMap_append]
  cases hanswer : source.answer polls <;> simp [yielded, hanswer]

theorem not_hasEnded_zero : ¬source.HasEnded 0 := by
  rintro ⟨index, hindex, -⟩
  contradiction

theorem hasEnded_succ :
    source.HasEnded (polls + 1) ↔ source.HasEnded polls ∨ source.answer polls = none := by
  constructor
  · rintro ⟨index, hindex, hnone⟩
    rcases Nat.lt_succ_iff_lt_or_eq.mp hindex with hlt | rfl
    · exact Or.inl ⟨index, hlt, hnone⟩
    · exact Or.inr hnone
  · rintro (⟨index, hindex, hnone⟩ | hnone)
    · exact ⟨index, Nat.lt_succ_of_lt hindex, hnone⟩
    · exact ⟨polls, Nat.lt_succ_self polls, hnone⟩

variable {source polls}

theorem length_yielded (hrunning : ¬source.HasEnded polls) :
    (source.yielded polls).length = polls := by
  induction polls with
  | zero => rfl
  | succ polls ih =>
      rw [hasEnded_succ, not_or] at hrunning
      obtain ⟨payload, hpayload⟩ := Option.ne_none_iff_exists'.mp hrunning.2
      rw [yielded_succ, List.length_append, ih hrunning.1, hpayload]
      rfl

end Request

namespace Pending

theorem peek_request_cases (pending : Pending) :
    pending.peek.request = pending.request ∨
      pending.peek.request = pending.request.poll.2 ∧ pending.lookahead = none ∧
        pending.exhausted = false := by
  cases hkept : pending.lookahead.isSome || pending.exhausted with
  | true => exact Or.inl (by rw [peek_of_kept pending hkept])
  | false =>
      obtain ⟨hlookahead, hexhausted⟩ := Bool.or_eq_false_iff.mp hkept
      rw [Option.isSome_eq_false_iff, Option.isNone_iff_eq_none] at hlookahead
      exact Or.inr ⟨by rw [peek_of_pulled pending hkept], hlookahead, hexhausted⟩

/-- How often the source was polled since the request was handed in. -/
def pollsSince (start pending : Pending) : Nat :=
  pending.request.polls - start.request.polls

/-- So many polls yielded the payloads that have an entry and the one that is
pulled ahead.  Only the last of them may have shown the end, as it must have if
the request has succeeded. -/
structure Drawn (source : Request) (payloads : List Bytes) (polls : Nat) (pending : Pending) :
    Prop where
  request_eq : pending.request = source.pulled polls
  yielded_eq : source.yielded polls = payloads ++ pending.lookahead.toList
  exhausted_iff : pending.exhausted = true ↔ source.HasEnded polls
  running : ¬source.HasEnded (polls - 1)
  lookahead_eq : pending.exhausted = true → pending.lookahead = none
  exhausted_of_ok : ∀ receipt, pending.outcome = some (.ok receipt) → pending.exhausted = true

namespace Drawn

variable {E : Type} {shape : Shape E} {source : Request} {payloads : List Bytes} {polls : Nat}
  {pending next : Pending}

theorem fresh (request : Request) : Drawn request [] 0 (Pending.fresh request) where
  request_eq := rfl
  yielded_eq := rfl
  exhausted_iff := ⟨nofun, fun hended => absurd hended request.not_hasEnded_zero⟩
  running := request.not_hasEnded_zero
  lookahead_eq := nofun
  exhausted_of_ok := nofun

theorem peek (hdrawn : Drawn source payloads polls pending) :
    ∃ more, Drawn source payloads more pending.peek := by
  cases hkept : pending.lookahead.isSome || pending.exhausted with
  | true => exact ⟨polls, by rwa [peek_of_kept pending hkept]⟩
  | false =>
      obtain ⟨hlookahead, hexhausted⟩ := Bool.or_eq_false_iff.mp hkept
      rw [Option.isSome_eq_false_iff, Option.isNone_iff_eq_none] at hlookahead
      have hpoll := source.poll_pulled polls
      rw [← hdrawn.request_eq] at hpoll
      have hended := hdrawn.exhausted_iff
      have hyielded := hdrawn.yielded_eq
      rw [hexhausted] at hended
      rw [hlookahead, Option.toList_none, List.append_nil] at hyielded
      refine ⟨polls + 1, ?_⟩
      rw [peek_of_pulled pending hkept, hpoll]
      constructor
      · rfl
      · rw [source.yielded_succ, hyielded]
      · rw [source.hasEnded_succ]
        simp [← hended]
      · exact fun hearlier => Bool.false_ne_true (hended.mpr hearlier)
      · intro hnone
        simpa using hnone
      · intro receipt hok
        have hdone := hdrawn.exhausted_of_ok receipt hok
        rw [hexhausted] at hdone
        contradiction

theorem settle (hdrawn : Drawn source payloads polls pending) {outcome : Outcome}
    (hok : ∀ receipt, outcome = .ok receipt → pending.exhausted = true) :
    Drawn source payloads polls (pending.settle outcome) := by
  cases houtcome : pending.outcome with
  | some set =>
      rw [settle_of_outcome houtcome]
      exact hdrawn
  | none =>
      have hsettled : pending.settle outcome = { pending with outcome := some outcome } := by
        simp [Pending.settle, houtcome]
      rw [hsettled]
      refine ⟨hdrawn.request_eq, hdrawn.yielded_eq, hdrawn.exhausted_iff, hdrawn.running,
        hdrawn.lookahead_eq, fun receipt hset => hok receipt ?_⟩
      exact Option.some.inj hset

theorem succeed (hdrawn : Drawn source payloads polls pending)
    (hexhausted : pending.exhausted = true) : Drawn source payloads polls pending.succeed :=
  hdrawn.settle fun _ _ => hexhausted

theorem fail (hdrawn : Drawn source payloads polls pending) (error : WriteError) :
    Drawn source payloads polls (pending.fail error) :=
  hdrawn.settle nofun

/-- The payload that was pulled ahead gets an entry. -/
theorem draw (hdrawn : Drawn source payloads polls pending) (houtcome : pending.outcome = none)
    (position : Position) :
    Drawn source (payloads ++ pending.lookahead.toList) polls
      ({ pending with lookahead := none }.record position) where
  request_eq := hdrawn.request_eq
  yielded_eq := by simpa [record] using hdrawn.yielded_eq
  exhausted_iff := hdrawn.exhausted_iff
  running := hdrawn.running
  lookahead_eq _ := rfl
  exhausted_of_ok receipt hok := by
    simp [record, houtcome] at hok

theorem ready (hdrawn : Drawn source payloads polls pending)
    (hsight : Delivery.inspect shape pending = .ready next) :
    ∃ more, Drawn source payloads more next := by
  obtain ⟨-, rfl, -⟩ := inspect_ready hsight
  exact hdrawn.peek

/-- A look that finds no entry to make settles the request after its source has
shown the end, if at all. -/
theorem passed (hdrawn : Drawn source payloads polls pending)
    (hsight : Delivery.inspect shape pending = .passed next) :
    ∃ more, Drawn source payloads more next := by
  obtain ⟨more, hpeek⟩ := hdrawn.peek
  rcases inspect_passed hsight with
    ⟨-, rfl⟩ | ⟨-, -, -, rfl⟩ | ⟨-, hnone, -, ⟨-, rfl⟩ | ⟨error, -, rfl⟩⟩
  · exact ⟨polls, hdrawn⟩
  · exact ⟨more, hpeek⟩
  · exact ⟨more, hpeek.succeed (pending.peek_exhausted hnone)⟩
  · exact ⟨more, hpeek.fail error⟩

theorem conclude (hdrawn : Drawn source payloads polls pending)
    (hdone : pending.outcome ≠ none ∨ pending.exhausted = true) (result : Except StoreError Unit) :
    Drawn source payloads polls (pending.conclude result) := by
  cases result with
  | error cause => exact hdrawn.fail _
  | ok done =>
      rcases hdone with hsome | hexhausted
      · obtain ⟨outcome, houtcome⟩ := Option.ne_none_iff_exists'.mp hsome
        rw [Pending.conclude, Pending.succeed, settle_of_outcome houtcome]
        exact hdrawn
      · exact hdrawn.succeed hexhausted

/-- After a call the request at hand succeeds when its source has shown the
end. -/
theorem settleCurrent (hdrawn : Drawn source payloads polls pending)
    (result : Except StoreError Unit) :
    ∃ more, Drawn source payloads more (Delivery.settleCurrent result pending) := by
  cases result with
  | error cause => exact ⟨polls, hdrawn.fail _⟩
  | ok done =>
      obtain ⟨more, hpeek⟩ := hdrawn.peek
      unfold Delivery.settleCurrent
      simp only
      split
      next => exact ⟨polls, hdrawn⟩
      next =>
        split
        next => exact ⟨more, hpeek⟩
        next hlookahead =>
          have hnone : pending.remaining = [] := by
            rw [peek_lookahead] at hlookahead
            simpa using hlookahead
          exact ⟨more, hpeek.succeed (pending.peek_exhausted hnone)⟩

end Drawn

/-- How a request stands to the one that was handed in and to the payloads that
have an entry: if it was settled already nobody touches it. -/
inductive Serves (start : Pending) (payloads : List Bytes) (pending : Pending) : Prop
  | settled (houtcome : start.outcome ≠ none) (heq : pending = start)
      (hnone : payloads = [])
  | opened (houtcome : start.outcome = none) {polls : Nat}
      (hdrawn : Drawn start.request payloads polls pending)

/-- The polls are counted by the payloads that have an entry, the one that is
pulled ahead and the end of the source. -/
theorem Drawn.polls_eq {source : Request} {payloads : List Bytes} {polls : Nat}
    {pending : Pending} (hdrawn : Drawn source payloads polls pending) :
    polls = payloads.length + pending.lookahead.toList.length + pending.exhausted.toNat := by
  have hyielded := congrArg List.length hdrawn.yielded_eq
  rw [List.length_append] at hyielded
  rw [← hyielded]
  cases hexhausted : pending.exhausted with
  | false =>
      have hrunning : ¬source.HasEnded polls := by
        rw [← hdrawn.exhausted_iff, hexhausted]
        exact Bool.false_ne_true
      exact (Request.length_yielded hrunning).symm
  | true =>
      have hrunning := hdrawn.running
      have hended := hdrawn.exhausted_iff.mp hexhausted
      cases polls with
      | zero => exact absurd hended source.not_hasEnded_zero
      | succ polls =>
          rw [Nat.add_sub_cancel] at hrunning
          rw [source.hasEnded_succ] at hended
          have hnone := hended.resolve_left hrunning
          rw [source.yielded_succ, hnone, Option.toList_none, List.append_nil,
            Request.length_yielded hrunning]
          rfl

theorem Drawn.pollsSince_eq {start pending : Pending} {payloads : List Bytes} {polls : Nat}
    (hdrawn : Drawn start.request payloads polls pending) : start.pollsSince pending = polls := by
  rw [pollsSince, hdrawn.request_eq]
  exact Nat.add_sub_cancel_left _ _

namespace Serves

variable {start pending : Pending} {payloads : List Bytes}

/-- An open request knows whether its source has ended. -/
theorem exhausted_iff (hserves : Serves start payloads pending) (hopen : pending.outcome = none) :
    pending.exhausted = true ↔ start.request.HasEnded (start.pollsSince pending) := by
  cases hserves with
  | settled houtcome heq hnone => exact absurd (heq ▸ hopen) houtcome
  | opened houtcome hdrawn =>
      rw [hdrawn.pollsSince_eq]
      exact hdrawn.exhausted_iff

/-- The payloads with an entry are the first that the source yielded, and the
polls are as many, or one more: for a payload pulled ahead or for the end. -/
theorem polls_eq (hserves : Serves start payloads pending) :
    let polls := start.pollsSince pending
    pending.request = start.request.pulled polls ∧
      payloads <+: start.request.yielded polls ∧
      (start.request.answer 0 = none → payloads = []) ∧
      polls ≤ payloads.length + 1 ∧
      (start.outcome = none → ∀ receipt, pending.outcome = some (.ok receipt) →
        polls = payloads.length + 1) := by
  cases hserves with
  | settled houtcome heq hnone =>
      subst heq hnone
      have hzero : pending.pollsSince pending = 0 := Nat.sub_self _
      rw [hzero]
      exact ⟨rfl, List.nil_prefix, fun _ => rfl, Nat.zero_le 1,
        fun hopen => absurd hopen houtcome⟩
  | @opened houtcome polls hdrawn =>
      have hcount := hdrawn.polls_eq
      have hprefix : payloads <+: start.request.yielded polls :=
        hdrawn.yielded_eq ▸ List.prefix_append _ _
      rw [hdrawn.pollsSince_eq]
      refine ⟨hdrawn.request_eq, hprefix, fun hempty => ?_, ?_, fun _ receipt hok => ?_⟩
      · -- A second poll would come after the end that the first has shown.
        have hone : polls - 1 = 0 := Nat.eq_zero_of_not_pos fun hpos =>
          hdrawn.running ⟨0, hpos, hempty⟩
        have hyielded : start.request.yielded polls = [] := by
          rcases Nat.le_one_iff_eq_zero_or_eq_one.mp (Nat.sub_eq_zero_iff_le.mp hone) with
            rfl | rfl
          · rfl
          · simp [Request.yielded, hempty]
        exact List.prefix_nil.mp (hyielded ▸ hprefix)
      · cases hexhausted : pending.exhausted with
        | true =>
            rw [hdrawn.lookahead_eq hexhausted, hexhausted] at hcount
            exact hcount.le
        | false =>
            have hone : pending.lookahead.toList.length ≤ 1 := by cases pending.lookahead <;> simp
            rw [hexhausted, Bool.toNat_false] at hcount
            omega
      · have hexhausted := hdrawn.exhausted_of_ok receipt hok
        rw [hdrawn.lookahead_eq hexhausted, hexhausted] at hcount
        exact hcount

end Serves

end Pending

end MessageStore
