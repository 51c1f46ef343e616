import MessageStore.Proofs.RequestStanding
import Mathlib.Tactic

/-!
# How far a delivery looks into its sources

A step of a delivery polls a source once at most.  So what so many steps do is
settled by as many answers of each source, and a source that never ends may be
cut off behind them: no step will notice.

Two requests are alike for so many polls if they differ at most in what later
polls would answer.  A step of two deliveries whose requests are alike does the
same to both tables, and leaves the requests alike for one poll fewer.
-/

namespace MessageStore

namespace Request

/-- The answer of the source to one of the polls to come, counted from zero. -/
def answer (request : Request) (index : Nat) : Option Bytes :=
  request.answers[index]?.join

theorem poll_fst_eq_answer (request : Request) : request.poll.1 = request.answer 0 := by
  unfold poll answer
  cases request.answers <;> rfl

theorem answer_poll_snd (request : Request) (index : Nat) :
    request.poll.2.answer index = request.answer (index + 1) := by
  unfold poll answer
  cases request.answers with
  | nil => simp
  | cons answer rest => simp

@[simp] theorem poll_snd_polls (request : Request) :
    request.poll.2.polls = request.polls + 1 := by
  unfold poll
  split <;> rfl

/-- The two differ at most in what the source answers after so many polls. -/
structure Alike (count : Nat) (request other : Request) : Prop where
  topic_eq : request.topic = other.topic
  writePointer_eq : request.writePointer = other.writePointer
  polls_eq : request.polls = other.polls
  answer_eq : ∀ index < count, request.answer index = other.answer index

namespace Alike

variable {count : Nat} {request other : Request}

theorem mono {fewer : Nat} (halike : request.Alike count other) (hle : fewer ≤ count) :
    request.Alike fewer other where
  topic_eq := halike.topic_eq
  writePointer_eq := halike.writePointer_eq
  polls_eq := halike.polls_eq
  answer_eq index hindex := halike.answer_eq index (hindex.trans_le hle)

theorem poll_fst (halike : request.Alike (count + 1) other) : request.poll.1 = other.poll.1 := by
  rw [poll_fst_eq_answer, poll_fst_eq_answer, halike.answer_eq 0 count.succ_pos]

theorem poll_snd (halike : request.Alike (count + 1) other) :
    request.poll.2.Alike count other.poll.2 where
  topic_eq := by simpa using halike.topic_eq
  writePointer_eq := by simpa using halike.writePointer_eq
  polls_eq := by simpa using halike.polls_eq
  answer_eq index hindex := by
    rw [answer_poll_snd, answer_poll_snd, halike.answer_eq _ (Nat.succ_lt_succ hindex)]

end Alike

end Request

namespace Pending

/-! ## A look polls once at most -/

theorem peek_of_kept (pending : Pending)
    (hkept : (pending.lookahead.isSome || pending.exhausted) = true) : pending.peek = pending :=
  if_pos hkept

theorem peek_of_pulled (pending : Pending)
    (hpulled : (pending.lookahead.isSome || pending.exhausted) = false) :
    pending.peek =
      { pending with
        request := pending.request.poll.2
        lookahead := pending.request.poll.1
        exhausted := pending.request.poll.1.isNone } := by
  rw [peek, hpulled]
  rfl

/-- A payload that a look has shown is taken as it is. -/
theorem take_ready {E : Type} {shape : Shape E} {pending next : Pending}
    (hsight : Delivery.inspect shape pending = .ready next) :
    next.take = (next.lookahead, { next with lookahead := none }) := by
  obtain ⟨-, rfl, -⟩ := inspect_ready hsight
  rw [take, peek_peek]

/-- The two differ at most in what the source answers after so many polls. -/
def Alike (count : Nat) (pending other : Pending) : Prop :=
  ∃ request, pending.request.Alike count request ∧ other = { pending with request }

namespace Alike

variable {count : Nat} {pending other : Pending}

theorem refl (count : Nat) (pending : Pending) : pending.Alike count pending :=
  ⟨pending.request, ⟨rfl, rfl, rfl, fun _ _ => rfl⟩, rfl⟩

theorem mono {fewer : Nat} (halike : pending.Alike count other) (hle : fewer ≤ count) :
    pending.Alike fewer other := by
  obtain ⟨request, hrequest, rfl⟩ := halike
  exact ⟨request, hrequest.mono hle, rfl⟩

theorem settle (halike : pending.Alike count other) (outcome : Outcome) :
    (pending.settle outcome).Alike count (other.settle outcome) := by
  obtain ⟨request, hrequest, rfl⟩ := halike
  refine ⟨request, by simpa using hrequest, ?_⟩
  cases houtcome : pending.outcome <;> simp [Pending.settle, houtcome]

theorem succeed (halike : pending.Alike count other) :
    pending.succeed.Alike count other.succeed := by
  have hreceipt : other.receipt = pending.receipt := by
    obtain ⟨request, hrequest, rfl⟩ := halike
    simp [receipt, topic, hrequest.topic_eq]
  rw [Pending.succeed, Pending.succeed, hreceipt]
  exact halike.settle _

theorem failStorage (halike : pending.Alike count other) (cause : StoreError) :
    (pending.failStorage cause).Alike count (other.failStorage cause) := by
  have htopic : other.topic = pending.topic := by
    obtain ⟨request, hrequest, rfl⟩ := halike
    exact hrequest.topic_eq.symm
  rw [Pending.failStorage, Pending.failStorage, htopic]
  exact halike.settle _

theorem conclude (halike : pending.Alike count other) (result : Except StoreError Unit) :
    (pending.conclude result).Alike count (other.conclude result) := by
  cases result with
  | ok _ => exact halike.succeed
  | error cause => exact halike.failStorage cause

theorem peek (halike : pending.Alike (count + 1) other) :
    pending.peek.Alike count other.peek := by
  obtain ⟨request, hrequest, rfl⟩ := halike
  cases hkept : pending.lookahead.isSome || pending.exhausted with
  | true =>
      rw [peek_of_kept pending hkept, peek_of_kept { pending with request } hkept]
      exact ⟨request, hrequest.mono count.le_succ, rfl⟩
  | false =>
      rw [peek_of_pulled pending hkept, peek_of_pulled { pending with request } hkept]
      refine ⟨request.poll.2, hrequest.poll_snd, ?_⟩
      rw [hrequest.poll_fst]

theorem record (halike : pending.Alike count other) (position : Position) :
    (pending.record position).Alike count (other.record position) := by
  obtain ⟨request, hrequest, rfl⟩ := halike
  exact ⟨request, hrequest, rfl⟩

/-- Of two requests that a look has shown, alike payloads are taken. -/
theorem take {E : Type} {shape : Shape E} {first second : Pending}
    (halike : pending.Alike count other)
    (hfirst : Delivery.inspect shape first = .ready pending)
    (hsecond : Delivery.inspect shape second = .ready other) :
    other.take.1 = pending.take.1 ∧ pending.take.2.Alike count other.take.2 := by
  rw [take_ready hfirst, take_ready hsecond]
  obtain ⟨request, hrequest, rfl⟩ := halike
  exact ⟨rfl, request, hrequest, rfl⟩

theorem settleCurrent (halike : pending.Alike (count + 1) other)
    (result : Except StoreError Unit) :
    (Delivery.settleCurrent result pending).Alike count
      (Delivery.settleCurrent result other) := by
  cases result with
  | error cause => exact (halike.failStorage cause).mono count.le_succ
  | ok done =>
      have hpeek := halike.peek
      have hcompleted : other.isCompleted = pending.isCompleted := by
        obtain ⟨request, -, rfl⟩ := halike
        rfl
      have hlookahead : other.peek.lookahead = pending.peek.lookahead := by
        obtain ⟨request, -, hother⟩ := hpeek
        rw [hother]
      simp only [Delivery.settleCurrent, hcompleted, hlookahead]
      split
      · exact halike.mono count.le_succ
      · split
        · exact hpeek
        · exact hpeek.succeed

end Alike

end Pending

theorem Pending.forall₂_alike_refl (count : Nat) (row : List Pending) :
    List.Forall₂ (Pending.Alike count) row row :=
  List.forall₂_same.mpr fun pending _ => .refl count pending

theorem Pending.forall₂_alike_mono {fewer count : Nat} {row other : List Pending}
    (halike : List.Forall₂ (Pending.Alike count) row other) (hle : fewer ≤ count) :
    List.Forall₂ (Pending.Alike fewer) row other :=
  halike.imp fun _ _ hpending => hpending.mono hle

def Phase.isSettling : Phase → Bool
  | .settling _ _ => true
  | _ => false

/-- The two phases have requests to settle that differ at most in what the
source answers after so many polls. -/
inductive Phase.Alike (count : Nat) : Phase → Phase → Prop
  | same (phase : Phase) (hquiet : phase.isSettling = false) : Phase.Alike count phase phase
  | settling (result : Except StoreError Unit) {left other : List Pending}
      (hleft : List.Forall₂ (Pending.Alike count) left other) :
      Phase.Alike count (.settling result left) (.settling result other)

theorem Phase.Alike.mono {fewer count : Nat} {phase other : Phase}
    (halike : phase.Alike count other) (hle : fewer ≤ count) : phase.Alike fewer other := by
  cases halike with
  | same phase hquiet => exact .same phase hquiet
  | settling result hleft => exact .settling result (Pending.forall₂_alike_mono hleft hle)

namespace Delivery

variable {σ E : Type} [TableEntry E] {table : Table σ E} {shape : Shape E} {count : Nat}

/-- A look at two requests shows the same of both. -/
theorem inspect_alike (hlawful : shape.Lawful) {pending other : Pending}
    (halike : pending.Alike (count + 1) other) :
    (∃ first second, inspect shape pending = .ready first ∧
        inspect shape other = .ready second ∧ first.Alike count second) ∨
      ∃ first second, inspect shape pending = .passed first ∧
        inspect shape other = .passed second ∧ first.Alike count second := by
  have hcompleted : other.isCompleted = pending.isCompleted := by
    obtain ⟨request, -, rfl⟩ := halike
    rfl
  have hpeek := halike.peek
  obtain ⟨request, hrequest, hother⟩ := hpeek
  have hempty : shape.onEmpty other.peek.request = shape.onEmpty pending.peek.request := by
    rw [hother]
    exact hlawful.onEmpty_congr hrequest.topic_eq.symm hrequest.writePointer_eq.symm
  have hlookahead : other.peek.lookahead = pending.peek.lookahead := by rw [hother]
  have hentries : other.peek.entries = pending.peek.entries := by rw [hother]
  simp only [inspect, hcompleted, hlookahead, hentries, hempty]
  split
  next => exact Or.inr ⟨_, _, rfl, rfl, halike.mono count.le_succ⟩
  next =>
    split
    next => exact Or.inl ⟨_, _, rfl, rfl, halike.peek⟩
    next =>
      split
      next =>
        cases shape.onEmpty pending.peek.request with
        | error error => exact Or.inr ⟨_, _, rfl, rfl, halike.peek.settle _⟩
        | ok empty =>
            cases empty with
            | reference => exact Or.inl ⟨_, _, rfl, rfl, halike.peek⟩
            | skip => exact Or.inr ⟨_, _, rfl, rfl, halike.peek.succeed⟩
      next => exact Or.inr ⟨_, _, rfl, rfl, halike.peek⟩

/-- The two differ at most in what the sources answer after so many polls. -/
structure Alike (count : Nat) (delivery other : Delivery σ) : Prop where
  behind : List.Forall₂ (Pending.Alike count) delivery.behind other.behind
  touched : List.Forall₂ (Pending.Alike count) delivery.touched other.touched
  ahead : List.Forall₂ (Pending.Alike count) delivery.ahead other.ahead
  phase : delivery.phase.Alike count other.phase
  rest : other =
    { delivery with
      behind := other.behind, touched := other.touched, ahead := other.ahead
      phase := other.phase }

namespace Alike

variable {delivery other : Delivery σ}

theorem mono {fewer : Nat} (halike : delivery.Alike count other) (hle : fewer ≤ count) :
    delivery.Alike fewer other where
  behind := Pending.forall₂_alike_mono halike.behind hle
  touched := Pending.forall₂_alike_mono halike.touched hle
  ahead := Pending.forall₂_alike_mono halike.ahead hle
  phase := halike.phase.mono hle
  rest := halike.rest

theorem left (halike : delivery.Alike count other) :
    List.Forall₂ (Pending.Alike count) delivery.left other.left := by
  have hphase := halike.phase
  unfold Delivery.left
  generalize delivery.phase = phase at hphase ⊢
  generalize other.phase = phase' at hphase ⊢
  cases hphase with
  | same => exact Pending.forall₂_alike_refl count _
  | settling result hleft => exact hleft

theorem requests (halike : delivery.Alike count other) :
    List.Forall₂ (Pending.Alike count) delivery.requests other.requests :=
  List.rel_append (List.rel_append (List.rel_append (List.rel_reverse halike.behind) halike.left)
    (List.rel_reverse halike.touched)) halike.ahead

theorem cursor_eq (halike : delivery.Alike count other) : other.cursor = delivery.cursor := by
  unfold cursor
  rw [halike.behind.length_eq, halike.left.length_eq, halike.touched.length_eq]

theorem pass (halike : delivery.Alike count other) {pending next : Pending}
    {rest others : List Pending} (hpending : pending.Alike count next)
    (hrest : List.Forall₂ (Pending.Alike count) rest others) :
    (delivery.pass pending rest).Alike count (other.pass next others) := by
  have hwritten : other.written = delivery.written := by rw [halike.rest]
  unfold Delivery.pass
  rw [hwritten]
  split
  · refine ⟨.cons hpending halike.behind, halike.touched, hrest, halike.phase, ?_⟩
    rw [halike.rest]
  · refine ⟨halike.behind, .cons hpending halike.touched, hrest, halike.phase, ?_⟩
    rw [halike.rest]

omit [TableEntry E] in
theorem endWrite (halike : delivery.Alike count other) :
    (delivery.endWrite table).Alike count (other.endWrite table) := by
  obtain ⟨hbehind, htouched, hahead, -, hrest⟩ := halike
  refine ⟨hbehind, .nil, hahead, ?_, ?_⟩
  · rw [hrest]
    exact .settling _ (List.rel_reverse htouched)
  · rw [hrest]
    rfl

theorem entry_eq (hlawful : shape.Lawful) {pending next first second : Pending}
    (hpending : pending.Alike count next) (hfirst : inspect shape first = .ready pending)
    (hsecond : inspect shape second = .ready next) (position : Position) :
    shape.entry next.take.2.request next.take.1 position =
      shape.entry pending.take.2.request pending.take.1 position := by
  obtain ⟨hpayload, request, hrequest, hnext⟩ := hpending.take hfirst hsecond
  rw [hpayload, hnext]
  exact congrFun₂ (hlawful.entry_congr hrequest.topic_eq hrequest.writePointer_eq).symm _ _

theorem makeEntry (hlawful : shape.Lawful) (halike : delivery.Alike count other)
    {pending next first second : Pending} (hpending : pending.Alike count next)
    (hfirst : inspect shape first = .ready pending) (hsecond : inspect shape second = .ready next)
    {rest others : List Pending} (hothers : List.Forall₂ (Pending.Alike count) rest others)
    (budget : Nat) :
    (delivery.makeEntry table shape pending rest budget).Alike count
      (other.makeEntry table shape next others budget) := by
  obtain ⟨hbehind, htouched, -, -, hrest⟩ := halike
  have hentry := entry_eq hlawful hpending hfirst hsecond delivery.sequencer.stamp.1
  have hsequencer : other.sequencer = delivery.sequencer := by rw [hrest]
  have htable : other.table = delivery.table := by rw [hrest]
  refine ⟨hbehind, htouched, .cons ?_ hothers, .same _ rfl, ?_⟩
  · rw [hsequencer]
    exact (hpending.take hfirst hsecond).2.record _
  · unfold Delivery.makeEntry
    simp only [hsequencer, hentry]
    rw [hrest]

theorem afterWrite (halike : delivery.Alike (count + 1) other) (result : Except StoreError Unit) :
    (delivery.afterWrite result).Alike count (other.afterWrite result) := by
  have hwritten : other.written = delivery.written := by rw [halike.rest]
  obtain ⟨hbehind, htouched, hahead, -, hrest⟩ := halike.mono count.le_succ
  unfold Delivery.afterWrite
  rw [hwritten]
  split
  · refine ⟨hbehind, htouched, hahead, .same _ rfl, ?_⟩
    rw [hrest]
  · refine ⟨hbehind, htouched, ?_, .same _ rfl, ?_⟩
    · have hneeded := halike.ahead
      generalize delivery.ahead = row at hneeded ⊢
      generalize other.ahead = others at hneeded ⊢
      cases hneeded with
      | nil => exact .nil
      | cons hhead htail =>
          exact .cons (hhead.settleCurrent result) (Pending.forall₂_alike_mono htail count.le_succ)
    · rw [hrest]

/-- A step needs one answer of each source. -/
theorem step (hlawful : shape.Lawful) (halike : delivery.Alike (count + 1) other) :
    (delivery.step table shape).Alike count (other.step table shape) := by
  obtain ⟨state, sequencer, clock, behind, touched, ahead, written, failure, phase⟩ := delivery
  obtain ⟨state', sequencer', clock', behind', touched', ahead', written', failure', phase'⟩ :=
    other
  have hrest := halike.rest
  simp only [Delivery.mk.injEq] at hrest
  obtain ⟨rfl, rfl, rfl, -, -, -, rfl, rfl, -⟩ := hrest
  have hmono := halike.mono count.le_succ
  have hahead := halike.ahead
  cases hphase : halike.phase with
  | settling result hleft =>
      cases hleft with
      | nil => exact halike.afterWrite result
      | cons hhead htail =>
          exact ⟨.cons ((hhead.mono count.le_succ).conclude result) hmono.behind, hmono.touched,
            hmono.ahead, .settling result (Pending.forall₂_alike_mono htail count.le_succ), rfl⟩
  | same phase hquiet =>
      cases phase with
      | seeking =>
          cases hahead with
          | nil => exact ⟨hmono.behind, hmono.touched, .nil, .same _ rfl, rfl⟩
          | cons hhead htail =>
              have hrest := Pending.forall₂_alike_mono htail count.le_succ
              rcases inspect_alike hlawful hhead with
                ⟨first, second, hfirst, hsecond, hnext⟩ |
                ⟨first, second, hfirst, hsecond, hnext⟩
              · simp only [Delivery.step, hfirst, hsecond]
                exact ⟨hmono.behind, hmono.touched, .cons hnext hrest, .same _ rfl, rfl⟩
              · simp only [Delivery.step, hfirst, hsecond]
                exact hmono.pass hnext hrest
      | refreshing =>
          simp only [Delivery.step]
          split
          next => exact ⟨hmono.behind, hmono.touched, hmono.ahead, .same _ rfl, rfl⟩
          next => exact ⟨hmono.behind, hmono.touched, hmono.ahead, .same _ rfl, rfl⟩
      | offering budget =>
          simp only [Delivery.step]
          split
          next => exact ⟨hmono.behind, hmono.touched, hmono.ahead, .same _ rfl, rfl⟩
          next => exact hmono.endWrite
      | drawing budget =>
          cases hahead with
          | nil => exact hmono.endWrite
          | cons hhead htail =>
              have hrest := Pending.forall₂_alike_mono htail count.le_succ
              rcases inspect_alike hlawful hhead with
                ⟨first, second, hfirst, hsecond, hnext⟩ |
                ⟨first, second, hfirst, hsecond, hnext⟩
              · simp only [Delivery.step, hfirst, hsecond]
                exact hmono.makeEntry hlawful hnext hfirst hsecond hrest budget
              · simp only [Delivery.step, hfirst, hsecond]
                exact hmono.pass hnext hrest
      | settling result left => contradiction
      | abandoning cause =>
          cases hahead with
          | nil => exact ⟨hmono.behind, hmono.touched, .nil, .same _ rfl, rfl⟩
          | cons hhead htail =>
              exact ⟨.cons ((hhead.mono count.le_succ).failStorage cause) hmono.behind, hmono.touched,
                Pending.forall₂_alike_mono htail count.le_succ, .same _ rfl, rfl⟩
      | finished => exact hmono

/-- A step does the same to both tables. -/
theorem act_eq (hlawful : shape.Lawful) (halike : delivery.Alike (count + 1) other) :
    other.act table shape = delivery.act table shape := by
  have hcursor := halike.cursor_eq
  obtain ⟨state, sequencer, clock, behind, touched, ahead, written, failure, phase⟩ := delivery
  obtain ⟨state', sequencer', clock', behind', touched', ahead', written', failure', phase'⟩ :=
    other
  have hrest := halike.rest
  simp only [Delivery.mk.injEq] at hrest
  obtain ⟨rfl, rfl, rfl, -, -, -, rfl, rfl, -⟩ := hrest
  have hahead := halike.ahead
  cases halike.phase with
  | settling result hleft => rfl
  | same phase hquiet =>
      cases phase with
      | drawing budget =>
          cases hahead with
          | nil => rfl
          | cons hhead htail =>
              rcases inspect_alike hlawful hhead with
                ⟨first, second, hfirst, hsecond, hnext⟩ |
                ⟨first, second, hfirst, hsecond, hnext⟩
              · simp only [act, hfirst, hsecond, nextEntry, hcursor,
                  entry_eq hlawful hnext hfirst hsecond]
              · simp only [act, hfirst, hsecond]
      | seeking | refreshing | offering budget | settling result left | abandoning cause
      | finished => rfl

end Alike

end Delivery

namespace Chronicle

variable {σ E : Type} [TableEntry E] (table : Table σ E) {shape : Shape E}

/-- So many steps use no answers but as many of each source: on two batches that
are alike for so many polls, and some more, they do the same to the table and
leave the batches alike for the others. -/
theorem after_alike (hlawful : shape.Lawful) (n : Nat) {count : Nat}
    {chronicle other : Chronicle σ E} (halike : chronicle.delivery.Alike (count + n) other.delivery)
    (hcalls : other.calls = chronicle.calls) (hcurrent : other.current = chronicle.current) :
    let here := chronicle.after table shape n
    let there := other.after table shape n
    here.delivery.Alike count there.delivery ∧ there.calls = here.calls ∧
      there.current = here.current := by
  induction n generalizing count with
  | zero => exact ⟨halike, hcalls, hcurrent⟩
  | succ n ih =>
      rw [Nat.add_comm n, ← Nat.add_assoc] at halike
      obtain ⟨hdelivery, hcalls, hcurrent⟩ := ih halike
      simp only [after_succ]
      refine ⟨?_, ?_⟩
      · rw [step_delivery, step_delivery]
        exact hdelivery.step hlawful
      · have hact : (other.after table shape n).delivery.act table shape =
            (chronicle.after table shape n).delivery.act table shape :=
          hdelivery.act_eq hlawful
        unfold step
        rw [hact, hcalls, hcurrent]
        cases (chronicle.after table shape n).delivery.act table shape with
        | none => exact ⟨rfl, rfl⟩
        | some act => cases act <;> exact ⟨rfl, rfl⟩

end Chronicle

namespace TableWriter

variable {σ E : Type} [TableEntry E] (table : Table σ E) {shape : Shape E}

theorem deliver_alike (writer : TableWriter σ) {count : Nat} {batch others : List Pending}
    (halike : List.Forall₂ (Pending.Alike count) batch others) :
    (writer.deliver batch).Alike count (writer.deliver others) :=
  ⟨.nil, .nil, halike, .same _ rfl, rfl⟩

end TableWriter

end MessageStore
