import MessageStore.Entry
import MessageStore.Storage.Memory
import MessageStore.Writer.Pending
import MessageStore.Writer.Shape
import Mathlib.Tactic

/-!
# What a writer and a table promise each other

A writer for one of the two tables uses two things of a shape: its entries say
where they stand, and it looks at nothing of a request but its topic and its
write pointer.  A table that keeps all or nothing of a call is described by
two views of its state, the entries that it holds and those that the call
under way has taken.  Which calls fail is left to the table.
-/

namespace MessageStore

/-! ## The two tables -/

inductive TableKind where
  | message
  | payload
  deriving DecidableEq, Repr

namespace TableKind

@[reducible] def Entry : TableKind → Type
  | .message => MessageEntry
  | .payload => PayloadEntry

instance tableEntry : (kind : TableKind) → TableEntry kind.Entry
  | .message => inferInstanceAs (TableEntry MessageEntry)
  | .payload => inferInstanceAs (TableEntry PayloadEntry)

def shape : (kind : TableKind) → Shape kind.Entry
  | .message => Shape.message
  | .payload => Shape.payload

end TableKind

/-! ## Shapes -/

namespace Request

theorem payloads_nil {request : Request} (hanswers : request.answers = []) :
    request.payloads = [] := by
  simp [payloads, hanswers]

theorem payloads_none {request : Request} {rest : List (Option Bytes)}
    (hanswers : request.answers = none :: rest) : request.payloads = [] := by
  simp [payloads, hanswers]

theorem payloads_some {request : Request} {payload : Bytes}
    {rest : List (Option Bytes)}
    (hanswers : request.answers = some payload :: rest) :
    request.payloads = payload :: { request with answers := rest }.payloads := by
  simp [payloads, hanswers]

/-- The first poll decides whether a request is empty. -/
theorem poll_fst (request : Request) :
    request.poll.1 = request.payloads.head? := by
  cases hanswers : request.answers with
  | nil => simp [poll, hanswers, payloads_nil hanswers]
  | cons answer rest =>
      cases answer with
      | none => simp [poll, hanswers, payloads_none hanswers]
      | some payload => simp [poll, hanswers, payloads_some hanswers]

theorem poll_fst_eq_none_iff (request : Request) :
    request.poll.1 = none ↔ request.payloads = [] := by
  rw [poll_fst, List.head?_eq_none_iff]

/-- A poll that yields a payload leaves the payloads after it. -/
theorem payloads_poll_snd {request : Request} {payload : Bytes}
    {rest : List Bytes} (hpayloads : request.payloads = payload :: rest) :
    request.poll.2.payloads = rest := by
  cases hanswers : request.answers with
  | nil => simp [payloads_nil hanswers] at hpayloads
  | cons answer answers =>
      cases answer with
      | none => simp [payloads_none hanswers] at hpayloads
      | some first =>
          rw [payloads_some hanswers, List.cons.injEq] at hpayloads
          rw [← hpayloads.2]
          simp [poll, hanswers, payloads]

@[simp] theorem payloads_ofPayloads (topic : Topic) (writePointer : Option UInt64)
    (payloads : List Bytes) : (ofPayloads topic writePointer payloads).payloads = payloads := by
  induction payloads with
  | nil => rfl
  | cons payload payloads ih => simpa [Request.payloads, ofPayloads] using ih

@[simp] theorem poll_snd_topic (request : Request) :
    request.poll.2.topic = request.topic := by
  unfold poll
  split <;> rfl

@[simp] theorem poll_snd_writePointer (request : Request) :
    request.poll.2.writePointer = request.writePointer := by
  unfold poll
  split <;> rfl

end Request

namespace Shape

/-- What is to be written of a request: the contents of its entries in order,
or why it is refused. -/
def draft {E : Type} (shape : Shape E) (request : Request) :
    Except WriteError (List (Option Bytes)) :=
  if request.payloads = [] then
    match shape.onEmpty request with
    | .ok .reference => .ok [none]
    | .ok .skip => .ok []
    | .error error => .error error
  else .ok (request.payloads.map some)

/-- The contents of all entries of a request; none if it is refused. -/
def contents {E : Type} (shape : Shape E) (request : Request) :
    List (Option Bytes) :=
  match shape.draft request with
  | .ok contents => contents
  | .error _ => []

theorem contents_of_payloads {E : Type} (shape : Shape E) {request : Request}
    (hpayloads : request.payloads ≠ []) :
    shape.contents request = request.payloads.map some := by
  simp [contents, draft, hpayloads]

theorem length_contents_le_one {E : Type} (shape : Shape E) {request : Request}
    (hpayloads : request.payloads = []) :
    (shape.contents request).length ≤ 1 := by
  unfold contents draft
  rw [if_pos hpayloads]
  cases shape.onEmpty request with
  | error error => simp
  | ok empty => cases empty <;> simp

variable {E : Type} [TableEntry E]

/-- A shape that looks at nothing of a request but its topic and its write
pointer, and whose entries stand where they were stamped. -/
structure Lawful (shape : Shape E) : Prop where
  position_entry : ∀ request payload position,
    TableEntry.position (shape.entry request payload position) = position
  entry_congr : ∀ {request other : Request},
    request.topic = other.topic → request.writePointer = other.writePointer →
      shape.entry request = shape.entry other
  onEmpty_congr : ∀ {request other : Request},
    request.topic = other.topic → request.writePointer = other.writePointer →
      shape.onEmpty request = shape.onEmpty other

theorem message_lawful : Shape.message.Lawful where
  position_entry _ _ _ := rfl
  entry_congr htopic hpointer := by
    funext payload position
    simp [Shape.message, Request.isTransactional, htopic, hpointer]
  onEmpty_congr {request other} htopic hpointer := by
    have htransactional : request.isTransactional = other.isTransactional := by
      unfold Request.isTransactional
      rw [hpointer]
    simp only [Shape.message]
    rw [htransactional, htopic]

theorem payload_lawful : Shape.payload.Lawful where
  position_entry _ _ _ := rfl
  entry_congr htopic hpointer := by
    funext payload position
    simp [Shape.payload, htopic, hpointer]
  onEmpty_congr _ _ := rfl

/-- The entries hold the given contents of a request, one each and in order,
wherever they stand. -/
def Renders (shape : Shape E) (request : Request)
    (contents : List (Option Bytes)) (entries : List E) : Prop :=
  List.Forall₂
    (fun content entry =>
      entry = shape.entry request content (TableEntry.position entry))
    contents entries

/-- What a publisher is told about a request once these entries of it are all
stored. -/
def verdict (shape : Shape E) (request : Request) (entries : List E) : Outcome :=
  match shape.draft request with
  | .ok _ =>
    .ok ⟨request.topic, entries.length,
      entries.head?.map TableEntry.position,
      entries.getLast?.map TableEntry.position⟩
  | .error error => .error error

end Shape

namespace TableKind

theorem shape_lawful : (kind : TableKind) → kind.shape.Lawful
  | .message => Shape.message_lawful
  | .payload => Shape.payload_lawful

/-- A request is only ever refused as invalid, under its own topic. -/
theorem onEmpty_error {kind : TableKind} {request : Request} {error : WriteError}
    (herror : kind.shape.onEmpty request = .error error) :
    ∃ reason, error = .invalidRequest request.topic reason := by
  cases kind with
  | message =>
      simp only [shape, Shape.message] at herror
      split at herror
      next => contradiction
      next =>
        cases herror
        exact ⟨_, rfl⟩
  | payload =>
      simp [shape, Shape.payload] at herror

end TableKind

/-! ## Tables -/

namespace Table

variable {σ E : Type}

/-- The table takes every entry that it is offered. -/
def IsGreedy (table : Table σ E) : Prop :=
  ∀ state, table.wants state = true

/-- A greedy table that keeps all entries of a call or none of them, seen by
what it holds and by what the call under way has taken. -/
structure Ledger (table : Table σ E) where
  held : σ → List E
  taken : σ → List E
  greedy : table.IsGreedy
  held_take : ∀ state entry, held (table.take state entry) = held state
  taken_take : ∀ state entry,
    taken (table.take state entry) = taken state ++ [entry]
  taken_finish : ∀ state, taken (table.finish state).2 = []
  held_finish_ok : ∀ state, (table.finish state).1 = .ok () →
    held (table.finish state).2 = held state ++ taken state
  held_finish_error : ∀ state cause, (table.finish state).1 = .error cause →
    held (table.finish state).2 = held state

/-- From the given states on no call of a table fails. -/
structure Reliable (table : Table σ E) (good : σ → Prop) : Prop where
  take : ∀ {state} entry, good state → good (table.take state entry)
  finish : ∀ {state}, good state → good (table.finish state).2
  succeeds : ∀ {state}, good state → (table.finish state).1 = .ok ()

end Table

namespace MemoryTable

variable {E : Type}

/-- The table in memory keeps all or nothing of a call. -/
def ledger : (behaviour : Table (MemoryTable E) E).Ledger where
  held table := table.entries.toList
  taken table := table.taken.toList
  greedy _ := rfl
  held_take _ _ := rfl
  taken_take _ _ := by simp [behaviour, take]
  taken_finish table := by
    simp only [behaviour, finish]
    split
    next => rfl
    next => split <;> rfl
  held_finish_ok table hok := by
    simp only [behaviour, finish] at hok ⊢
    split at hok
    next => contradiction
    next hclosed =>
      rw [if_neg hclosed]
      split at hok
      next => contradiction
      next => simp
  held_finish_error table cause herror := by
    simp only [behaviour, finish] at herror ⊢
    split at herror
    next hclosed => simp [hclosed]
    next hclosed =>
      rw [if_neg hclosed]
      split at herror
      next => rfl
      next => contradiction

/-- An open table in memory without planned failures never fails. -/
theorem reliable :
    (behaviour : Table (MemoryTable E) E).Reliable
      (fun table => table.closed = false ∧ table.failures = []) where
  take _ hgood := hgood
  finish := by
    rintro table ⟨hclosed, hfailures⟩
    simp [behaviour, finish, hclosed, hfailures]
  succeeds := by
    rintro table ⟨hclosed, hfailures⟩
    simp [behaviour, finish, hclosed, hfailures]

end MemoryTable

end MessageStore
