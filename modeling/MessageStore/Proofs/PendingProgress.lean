import MessageStore.Proofs.DeliveryChronicle
import MessageStore.Proofs.TableContract
import Mathlib.Tactic

/-!
# How far a request has got

A request on its way is as many payloads short of its source as it has
entries: the payload pulled ahead counts as not written yet.  This file
relates a pending request to the request that was handed in and to the entries
made of it, and says what a look at it shows in each case.
-/

namespace MessageStore

namespace Pending

/-- A request that nobody has looked at. -/
def fresh (request : Request) : Pending :=
  { request }

/-- The payloads without an entry: one pulled ahead, then those of the source. -/
def remaining (pending : Pending) : List Bytes :=
  pending.lookahead.toList ++
    if pending.exhausted then [] else pending.request.payloads

/-! ## Settling changes the outcome only -/

section

variable (pending : Pending) (outcome : Outcome)

@[simp] theorem settle_request : (pending.settle outcome).request = pending.request := by
  unfold settle
  split <;> rfl

@[simp] theorem settle_remaining :
    (pending.settle outcome).remaining = pending.remaining := by
  unfold settle
  split <;> rfl

@[simp] theorem settle_entries : (pending.settle outcome).entries = pending.entries := by
  unfold settle
  split <;> rfl

@[simp] theorem settle_first : (pending.settle outcome).first = pending.first := by
  unfold settle
  split <;> rfl

@[simp] theorem settle_last : (pending.settle outcome).last = pending.last := by
  unfold settle
  split <;> rfl

end

theorem settle_outcome {pending : Pending} (hnone : pending.outcome = none)
    (outcome : Outcome) : (pending.settle outcome).outcome = some outcome := by
  simp [settle, hnone]

theorem settle_of_outcome {pending : Pending} {set : Outcome}
    (hsome : pending.outcome = some set) (outcome : Outcome) :
    pending.settle outcome = pending := by
  simp [settle, hsome]

theorem isCompleted_eq_false_iff (pending : Pending) :
    pending.isCompleted = false ↔ pending.outcome = none := by
  unfold isCompleted
  cases pending.outcome <;> simp

/-! ## Looking ahead -/

section

variable (pending : Pending)

@[simp] theorem peek_topic : pending.peek.request.topic = pending.request.topic := by
  unfold peek
  split <;> simp

@[simp] theorem peek_writePointer :
    pending.peek.request.writePointer = pending.request.writePointer := by
  unfold peek
  split <;> simp

@[simp] theorem peek_entries : pending.peek.entries = pending.entries := by
  unfold peek
  split <;> rfl

@[simp] theorem peek_first : pending.peek.first = pending.first := by
  unfold peek
  split <;> rfl

@[simp] theorem peek_last : pending.peek.last = pending.last := by
  unfold peek
  split <;> rfl

@[simp] theorem peek_outcome : pending.peek.outcome = pending.outcome := by
  unfold peek
  split <;> rfl

/-- Looking ahead shows the next payload without an entry. -/
theorem peek_lookahead : pending.peek.lookahead = pending.remaining.head? := by
  unfold peek remaining
  cases hlookahead : pending.lookahead with
  | some payload => simp [hlookahead]
  | none =>
      cases hexhausted : pending.exhausted with
      | true => simp [hlookahead]
      | false => simp [Request.poll_fst]

/-- Looking ahead uses no payload up. -/
@[simp] theorem peek_remaining : pending.peek.remaining = pending.remaining := by
  unfold peek remaining
  cases hlookahead : pending.lookahead with
  | some payload => simp [hlookahead]
  | none =>
      cases hexhausted : pending.exhausted with
      | true => simp [hlookahead, hexhausted]
      | false =>
          cases hpayloads : pending.request.payloads with
          | nil => simp [Request.poll_fst, hpayloads]
          | cons payload rest =>
              simp [Request.poll_fst, hpayloads, Request.payloads_poll_snd hpayloads]

/-- A source that shows no payload has ended. -/
theorem peek_exhausted (hnone : pending.remaining = []) :
    pending.peek.exhausted = true := by
  have hlookahead : pending.lookahead = none := by
    unfold remaining at hnone
    cases hlookahead : pending.lookahead with
    | none => rfl
    | some payload => simp [hlookahead] at hnone
  unfold peek
  cases hexhausted : pending.exhausted with
  | true => simp [hlookahead, hexhausted]
  | false =>
      have hpayloads : pending.request.payloads = [] := by
        simpa [remaining, hlookahead, hexhausted] using hnone
      simp [hlookahead, Request.poll_fst, hpayloads]

theorem take_fst : pending.take.1 = pending.remaining.head? := by
  unfold take
  exact pending.peek_lookahead

@[simp] theorem take_topic : pending.take.2.request.topic = pending.request.topic := by
  simp [take]

@[simp] theorem take_writePointer :
    pending.take.2.request.writePointer = pending.request.writePointer := by
  simp [take]

theorem take_remaining : pending.take.2.remaining = pending.remaining.tail := by
  have hpeek := pending.peek_remaining
  have hlookahead := pending.peek_lookahead
  cases hremaining : pending.remaining with
  | nil =>
      have hexhausted := pending.peek_exhausted hremaining
      simp [take, remaining, hexhausted]
  | cons payload rest =>
      rw [hremaining] at hpeek hlookahead
      unfold remaining at hpeek
      rw [hlookahead] at hpeek
      simpa [take, remaining] using hpeek

end

/-! ## What a look shows -/

/-- A request with an entry to make is shown with a payload pulled ahead, if
it has any; if not, it is to leave a reference. -/
theorem inspect_ready {E : Type} {shape : Shape E} {pending next : Pending}
    (hsight : Delivery.inspect shape pending = .ready next) :
    pending.outcome = none ∧ next = pending.peek ∧
      (pending.remaining ≠ [] ∨
        pending.remaining = [] ∧ pending.entries = 0 ∧
          shape.onEmpty pending.peek.request = .ok .reference) := by
  unfold Delivery.inspect at hsight
  split at hsight
  next => simp at hsight
  next hopen =>
    have hnone : pending.outcome = none := by
      rw [Bool.not_eq_true] at hopen
      exact pending.isCompleted_eq_false_iff.mp hopen
    simp only at hsight
    rw [peek_lookahead, peek_entries] at hsight
    split at hsight
    next hpayload =>
      refine ⟨hnone, (Sight.ready.inj hsight).symm, Or.inl ?_⟩
      intro hnil
      simp [hnil] at hpayload
    next hpayload =>
      have hnil : pending.remaining = [] := by simpa using hpayload
      split at hsight
      next hentries =>
        split at hsight
        next hempty =>
          refine ⟨hnone, (Sight.ready.inj hsight).symm, Or.inr ⟨hnil, hentries, hempty⟩⟩
        next => simp at hsight
        next => simp at hsight
      next => simp at hsight

/-- A request without an entry to make is settled already, waits for the
outcome of its last entry, or is empty and settled now. -/
theorem inspect_passed {E : Type} {shape : Shape E} {pending next : Pending}
    (hsight : Delivery.inspect shape pending = .passed next) :
    (pending.outcome ≠ none ∧ next = pending) ∨
      (pending.outcome = none ∧ pending.remaining = [] ∧ pending.entries ≠ 0 ∧
        next = pending.peek) ∨
      (pending.outcome = none ∧ pending.remaining = [] ∧ pending.entries = 0 ∧
        ((shape.onEmpty pending.peek.request = .ok .skip ∧
            next = pending.peek.succeed) ∨
          ∃ error, shape.onEmpty pending.peek.request = .error error ∧
            next = pending.peek.fail error)) := by
  unfold Delivery.inspect at hsight
  split at hsight
  next hcompleted =>
    left
    refine ⟨?_, (Sight.passed.inj hsight).symm⟩
    intro hnone
    rw [pending.isCompleted_eq_false_iff.mpr hnone] at hcompleted
    contradiction
  next hopen =>
    right
    have hnone : pending.outcome = none := by
      rw [Bool.not_eq_true] at hopen
      exact pending.isCompleted_eq_false_iff.mp hopen
    simp only at hsight
    rw [peek_lookahead, peek_entries] at hsight
    split at hsight
    next => simp at hsight
    next hpayload =>
      have hnil : pending.remaining = [] := by simpa using hpayload
      split at hsight
      next hentries =>
        right
        split at hsight
        next => simp at hsight
        next hempty =>
          exact ⟨hnone, hnil, hentries,
            Or.inl ⟨hempty, (Sight.passed.inj hsight).symm⟩⟩
        next error hempty =>
          exact ⟨hnone, hnil, hentries,
            Or.inr ⟨error, hempty, (Sight.passed.inj hsight).symm⟩⟩
      next hentries =>
        left
        exact ⟨hnone, hnil, hentries, (Sight.passed.inj hsight).symm⟩

/-- A request that is settled stays settled with the same outcome. -/
def Keeps (before later : Pending) : Prop :=
  ∀ outcome, before.outcome = some outcome → later.outcome = some outcome

theorem Keeps.of_outcome_eq {before later : Pending}
    (heq : later.outcome = before.outcome) : before.Keeps later := by
  intro outcome hsome
  rw [heq, hsome]

theorem forall₂_keeps_refl (row : List Pending) : List.Forall₂ Keeps row row :=
  List.forall₂_same.mpr fun _ _ => .of_outcome_eq rfl

theorem Keeps.forall₂_append_cons {before later : Pending}
    (hkeeps : before.Keeps later) (front rest : List Pending) :
    List.Forall₂ Keeps (front ++ before :: rest) (front ++ later :: rest) :=
  List.rel_append (forall₂_keeps_refl front)
    (List.Forall₂.cons hkeeps (forall₂_keeps_refl rest))

theorem keeps_settle (pending : Pending) (outcome : Outcome) :
    pending.Keeps (pending.settle outcome) := by
  intro set hset
  rw [settle_of_outcome hset, hset]

theorem keeps_conclude (pending : Pending) (result : Except StoreError Unit) :
    pending.Keeps (pending.conclude result) := by
  cases result with
  | ok _ => exact pending.keeps_settle _
  | error cause => exact pending.keeps_settle _

theorem keeps_ready {E : Type} {shape : Shape E} {pending next : Pending}
    (hsight : Delivery.inspect shape pending = .ready next) :
    pending.Keeps next := by
  obtain ⟨_, rfl, _⟩ := inspect_ready hsight
  exact .of_outcome_eq pending.peek_outcome

theorem keeps_passed {E : Type} {shape : Shape E} {pending next : Pending}
    (hsight : Delivery.inspect shape pending = .passed next) :
    pending.Keeps next := by
  rcases inspect_passed hsight with ⟨_, rfl⟩ | ⟨hnone, _⟩ | ⟨hnone, _⟩
  · exact .of_outcome_eq rfl
  all_goals
    intro outcome hsome
    rw [hnone] at hsome
    contradiction

theorem keeps_settleCurrent (pending : Pending) (result : Except StoreError Unit) :
    pending.Keeps (Delivery.settleCurrent result pending) := by
  intro outcome hsome
  cases result with
  | error cause => exact pending.keeps_settle _ outcome hsome
  | ok _ => simp [Delivery.settleCurrent, isCompleted, hsome]

/-! ## What a request keeps for good -/

/-- The topic and the write pointer, which nobody changes. -/
def label (pending : Pending) : Topic × Option UInt64 :=
  (pending.request.topic, pending.request.writePointer)

@[simp] theorem label_settle (pending : Pending) (outcome : Outcome) :
    (pending.settle outcome).label = pending.label := by
  simp [label]

@[simp] theorem label_peek (pending : Pending) : pending.peek.label = pending.label := by
  simp [label]

@[simp] theorem label_conclude (pending : Pending) (result : Except StoreError Unit) :
    (pending.conclude result).label = pending.label := by
  cases result <;> exact pending.label_settle _

theorem label_ready {E : Type} {shape : Shape E} {pending next : Pending}
    (hsight : Delivery.inspect shape pending = .ready next) :
    next.label = pending.label := by
  rw [(inspect_ready hsight).2.1, label_peek]

theorem label_passed {E : Type} {shape : Shape E} {pending next : Pending}
    (hsight : Delivery.inspect shape pending = .passed next) :
    next.label = pending.label := by
  rcases inspect_passed hsight with
    ⟨_, rfl⟩ | ⟨_, _, _, rfl⟩ | ⟨_, _, _, ⟨_, rfl⟩ | ⟨error, _, rfl⟩⟩
  · rfl
  · exact pending.label_peek
  · exact (pending.peek.label_settle _).trans pending.label_peek
  · exact (pending.peek.label_settle _).trans pending.label_peek

theorem label_settleCurrent (pending : Pending) (result : Except StoreError Unit) :
    (Delivery.settleCurrent result pending).label = pending.label := by
  unfold Delivery.settleCurrent
  split
  next => exact pending.label_settle _
  next =>
    split
    next => rfl
    next =>
      simp only
      split
      next => exact pending.label_peek
      next => exact (pending.peek.label_settle _).trans pending.label_peek

/-! ## Progress -/

/-- How a pending request stands to the request that was handed in and to the
entries that were made of it so far. -/
structure Progress {E : Type} [TableEntry E] (shape : Shape E) (request : Request)
    (handed : List (HandedEntry E)) (pending : Pending) : Prop where
  topic_eq : pending.request.topic = request.topic
  writePointer_eq : pending.request.writePointer = request.writePointer
  entries_eq : pending.entries = handed.length
  first_eq : pending.first = handed.head?.map HandedEntry.position
  last_eq : pending.last = handed.getLast?.map HandedEntry.position
  remaining_eq : pending.remaining = request.payloads.drop handed.length
  renders : shape.Renders request
    ((shape.contents request).take handed.length) (handed.map HandedEntry.entry)

namespace Progress

variable {E : Type} [TableEntry E] {shape : Shape E} {request : Request}
  {handed : List (HandedEntry E)} {pending : Pending}

theorem fresh (shape : Shape E) (request : Request) :
    Progress shape request [] (Pending.fresh request) where
  topic_eq := rfl
  writePointer_eq := rfl
  entries_eq := rfl
  first_eq := rfl
  last_eq := rfl
  remaining_eq := rfl
  renders := List.Forall₂.nil

theorem settle (hprogress : Progress shape request handed pending)
    (outcome : Outcome) : Progress shape request handed (pending.settle outcome) where
  topic_eq := by simpa using hprogress.topic_eq
  writePointer_eq := by simpa using hprogress.writePointer_eq
  entries_eq := by simpa using hprogress.entries_eq
  first_eq := by simpa using hprogress.first_eq
  last_eq := by simpa using hprogress.last_eq
  remaining_eq := by simpa using hprogress.remaining_eq
  renders := hprogress.renders

theorem peek (hprogress : Progress shape request handed pending) :
    Progress shape request handed pending.peek where
  topic_eq := by simpa using hprogress.topic_eq
  writePointer_eq := by simpa using hprogress.writePointer_eq
  entries_eq := by simpa using hprogress.entries_eq
  first_eq := by simpa using hprogress.first_eq
  last_eq := by simpa using hprogress.last_eq
  remaining_eq := by simpa using hprogress.remaining_eq
  renders := hprogress.renders

/-- No more entries are made of a request than it has contents. -/
theorem length_le (hprogress : Progress shape request handed pending) :
    handed.length ≤ (shape.contents request).length := by
  have hlength := hprogress.renders.length_eq
  rw [List.length_take, List.length_map] at hlength
  omega

theorem entries_eq_zero_iff (hprogress : Progress shape request handed pending) :
    pending.entries = 0 ↔ handed = [] := by
  rw [hprogress.entries_eq, List.length_eq_zero_iff]

/-- A request without entries and without payloads to come never had any. -/
theorem payloads_eq_nil (hprogress : Progress shape request handed pending)
    (hremaining : pending.remaining = []) (hhanded : handed = []) :
    request.payloads = [] := by
  have hdrop := hprogress.remaining_eq
  rw [hremaining, hhanded] at hdrop
  simpa using hdrop.symm

/-- A request with entries and without payloads to come has all its entries. -/
theorem length_eq (hprogress : Progress shape request handed pending)
    (hremaining : pending.remaining = []) (hhanded : handed ≠ []) :
    handed.length = (shape.contents request).length := by
  have hle := hprogress.length_le
  have hpos : 0 < handed.length := List.length_pos_iff.mpr hhanded
  by_cases hpayloads : request.payloads = []
  · have hone := shape.length_contents_le_one hpayloads
    omega
  · have hdrop := hprogress.remaining_eq
    rw [hremaining] at hdrop
    have hall : request.payloads.length ≤ handed.length :=
      List.drop_eq_nil_iff.mp hdrop.symm
    rw [shape.contents_of_payloads hpayloads, List.length_map] at hle ⊢
    omega

/-- What an empty request leaves in a table is decided by its topic and write
pointer alone. -/
theorem onEmpty_peek (hlawful : shape.Lawful)
    (hprogress : Progress shape request handed pending) :
    shape.onEmpty pending.peek.request = shape.onEmpty request :=
  hlawful.onEmpty_congr (by simpa using hprogress.topic_eq)
    (by simpa using hprogress.writePointer_eq)

/-- The next content is the payload taken, or none for a reference. -/
theorem contents_get (hlawful : shape.Lawful)
    (hprogress : Progress shape request handed pending)
    (hready : pending.remaining ≠ [] ∨
      pending.remaining = [] ∧ pending.entries = 0 ∧
        shape.onEmpty pending.peek.request = .ok .reference) :
    (shape.contents request)[handed.length]? = some pending.take.1 := by
  rw [take_fst]
  rcases hready with hremaining | ⟨hremaining, hentries, hempty⟩
  · have hdrop := hprogress.remaining_eq
    have hpayloads : request.payloads ≠ [] := by
      intro hnil
      rw [hnil, List.drop_nil] at hdrop
      exact hremaining hdrop
    rw [shape.contents_of_payloads hpayloads, List.getElem?_map, hdrop,
      List.head?_drop]
    cases hget : request.payloads[handed.length]? with
    | some payload => rfl
    | none =>
        rw [List.getElem?_eq_none_iff] at hget
        rw [List.drop_eq_nil_iff.mpr hget] at hdrop
        exact absurd hdrop hremaining
  · have hnil := hprogress.entries_eq_zero_iff.mp hentries
    have hpayloads := hprogress.payloads_eq_nil hremaining hnil
    rw [hprogress.onEmpty_peek hlawful] at hempty
    simp [Shape.contents, Shape.draft, hpayloads, hempty, hnil, hremaining]

theorem draw (hlawful : shape.Lawful)
    (hprogress : Progress shape request handed pending)
    (hready : pending.remaining ≠ [] ∨
      pending.remaining = [] ∧ pending.entries = 0 ∧
        shape.onEmpty pending.peek.request = .ok .reference)
    {entry : HandedEntry E} {position : Position}
    (hentry : entry.entry =
      shape.entry pending.take.2.request pending.take.1 position) :
    Progress shape request (handed ++ [entry])
      (pending.take.2.record position) := by
  have hposition : entry.position = position := by
    unfold HandedEntry.position
    rw [hentry, hlawful.position_entry]
  have hlength : (handed ++ [entry]).length = handed.length + 1 := by simp
  constructor
  · simpa [record] using hprogress.topic_eq
  · simpa [record] using hprogress.writePointer_eq
  · rw [hlength, ← hprogress.entries_eq]
    simp [record, take]
  · simp only [record, take, peek_first, hprogress.first_eq]
    cases handed <;> simp [hposition]
  · simp [record, hposition]
  · have htail := pending.take_remaining
    rw [hprogress.remaining_eq, List.tail_drop] at htail
    rw [hlength]
    exact htail
  · have hget := hprogress.contents_get hlawful hready
    have htake : (shape.contents request).take (handed.length + 1) =
        (shape.contents request).take handed.length ++ [pending.take.1] := by
      rw [List.take_add_one, hget]
      rfl
    rw [hlength, htake, List.map_append]
    refine List.rel_append hprogress.renders ?_
    refine List.Forall₂.cons ?_ List.Forall₂.nil
    have hcongr : shape.entry pending.take.2.request = shape.entry request :=
      hlawful.entry_congr (by simpa using hprogress.topic_eq)
        (by simpa using hprogress.writePointer_eq)
    rw [hentry, hlawful.position_entry, hcongr]

/-- A request that has all its entries is told where they are. -/
theorem verdict_eq (hprogress : Progress shape request handed pending)
    {contents : List (Option Bytes)}
    (hdraft : shape.draft request = .ok contents) :
    shape.verdict request (handed.map HandedEntry.entry) =
      .ok pending.receipt := by
  unfold Shape.verdict
  rw [hdraft]
  simp only [receipt, Pending.topic, hprogress.topic_eq, hprogress.entries_eq,
    hprogress.first_eq, hprogress.last_eq, List.length_map, List.head?_map,
    List.getLast?_map, Option.map_map]
  rfl

end Progress

end Pending

end MessageStore
