import MessageStore.Proofs.SourceDraws
import Mathlib.Tactic

/-!
# The polls of the sources

A delivery polls its sources in turn.  It looks at one request only, the one
that it stands at; every request in front of that one is settled or has shown
the end of its source.

What a move does to the polls of the one request that it touches follows case by
case, and so how the requests of a batch are served at every moment.
-/

namespace MessageStore

/-! ## The payloads of the entries -/

/-- An entry holds what was taken for it: a payload, or none for a reference. -/
theorem TableKind.payload_entry {kind : TableKind} {pending next : Pending}
    (hsight : Delivery.inspect kind.shape pending = .ready next) (position : Position) :
    TableEntry.payload (kind.shape.entry next.take.2.request next.take.1 position) =
      next.lookahead := by
  have htake : next.take.1 = next.lookahead := by rw [Pending.take_ready hsight]
  rw [htake]
  cases kind with
  | message => rfl
  | payload =>
      obtain ⟨-, rfl, hmore⟩ := Pending.inspect_ready hsight
      rcases hmore with hremaining | ⟨-, -, hempty⟩
      · obtain ⟨payload, rest, hpayload⟩ := List.exists_cons_of_ne_nil hremaining
        rw [pending.peek_lookahead, hpayload]
        rfl
      · simp [shape, Shape.payload] at hempty

namespace Chronicle

theorem getElem?_append_cons_of_ne {α : Type} {front rest : List α} {index : Nat}
    (hindex : index ≠ front.length) (first second : α) :
    (front ++ first :: rest)[index]? = (front ++ second :: rest)[index]? := by
  rcases Nat.lt_or_gt_of_ne hindex with hlt | hgt
  · rw [List.getElem?_append_left hlt, List.getElem?_append_left hlt]
  · rw [List.getElem?_append_right (Nat.le_of_lt hgt),
      List.getElem?_append_right (Nat.le_of_lt hgt), List.getElem?_cons, List.getElem?_cons,
      if_neg (Nat.sub_ne_zero_of_lt hgt), if_neg (Nat.sub_ne_zero_of_lt hgt)]

section

variable {σ E : Type}

/-- The payloads in the entries that were handed over of a request. -/
def payloadsOf [TableEntry E] (chronicle : Chronicle σ E) (index : Nat) : List Bytes :=
  (chronicle.share index).handed.filterMap fun handed => TableEntry.payload handed.entry

variable {table : Table σ E} {shape : Shape E} {before later : Chronicle σ E}

theorem Touch.request_cases {delivery : Delivery σ} {front : List Pending}
    {pending next : Pending} {made : List (HandedEntry E)}
    (htouch : Touch shape delivery front pending next made) :
    next.request = pending.request ∨
      next.request = pending.peek.request ∧ delivery.passed = front ∧ pending.outcome = none := by
  cases htouch with
  | look hhand hsight =>
      obtain ⟨hopen, rfl, -⟩ := Pending.inspect_ready hsight
      exact Or.inr ⟨rfl, hhand, hopen⟩
  | pass hhand hsight =>
      rcases Pending.inspect_passed hsight with
        ⟨-, rfl⟩ | ⟨hopen, -, -, rfl⟩ | ⟨hopen, -, -, ⟨-, rfl⟩ | ⟨error, -, rfl⟩⟩
      · exact Or.inl rfl
      · exact Or.inr ⟨rfl, hhand, hopen⟩
      · exact Or.inr ⟨pending.peek.settle_request _, hhand, hopen⟩
      · exact Or.inr ⟨pending.peek.settle_request _, hhand, hopen⟩
  | draw hhand hsight =>
      have htake := Pending.take_ready hsight
      obtain ⟨hopen, rfl, -⟩ := Pending.inspect_ready hsight
      rw [htake]
      exact Or.inr ⟨rfl, hhand, hopen⟩
  | conclude hleft result =>
      left
      cases result <;> exact pending.settle_request _
  | settleCurrent hhand result =>
      cases result with
      | error cause => exact Or.inl (pending.settle_request _)
      | ok done =>
          unfold Delivery.settleCurrent
          simp only
          split
          next => exact Or.inl rfl
          next hcompleted =>
            rw [Bool.not_eq_true, Pending.isCompleted_eq_false_iff] at hcompleted
            split
            next => exact Or.inr ⟨rfl, hhand, hcompleted⟩
            next => exact Or.inr ⟨pending.peek.settle_request _, hhand, hcompleted⟩
  | abandon cause => exact Or.inl (pending.settle_request _)

/-- A move polls at most one source, that of the request at hand, which is open
then and has not shown the end of its source. -/
theorem Touch.poll_cases {delivery : Delivery σ} {front : List Pending}
    {pending next : Pending} {made : List (HandedEntry E)}
    (htouch : Touch shape delivery front pending next made) :
    next.request = pending.request ∨
      next.request = pending.request.poll.2 ∧ delivery.passed = front ∧
        pending.outcome = none ∧ pending.exhausted = false := by
  rcases htouch.request_cases with hsame | ⟨hpeek, hhand, hopen⟩
  · exact Or.inl hsame
  · rw [hpeek]
    exact pending.peek_request_cases.imp_right
      fun ⟨hpoll, _, hexhausted⟩ => ⟨hpoll, hhand, hopen, hexhausted⟩

theorem Touch.of_settled {delivery : Delivery σ} {front : List Pending} {pending next : Pending}
    {made : List (HandedEntry E)} (htouch : Touch shape delivery front pending next made)
    {outcome : Outcome} (houtcome : pending.outcome = some outcome) :
    next = pending ∧ made = [] := by
  have hcompleted : pending.isCompleted = true := by simp [Pending.isCompleted, houtcome]
  have hkept := fun outcome => Pending.settle_of_isCompleted hcompleted outcome
  have hpassed : Delivery.inspect shape pending = .passed pending := if_pos hcompleted
  cases htouch with
  | look hhand hsight =>
      rw [hpassed] at hsight
      contradiction
  | draw hhand hsight =>
      rw [hpassed] at hsight
      contradiction
  | pass hhand hsight =>
      rw [hpassed] at hsight
      cases hsight
      exact ⟨rfl, rfl⟩
  | conclude hleft result =>
      cases result <;> exact ⟨hkept _, rfl⟩
  | settleCurrent hhand result =>
      cases result with
      | error cause => exact ⟨hkept _, rfl⟩
      | ok done => exact ⟨if_pos hcompleted, rfl⟩
  | abandon cause => exact ⟨hkept _, rfl⟩

theorem Move.passed_cases (hmove : Move table shape before later) (htidy : before.Tidy) :
    ∀ pending ∈ later.delivery.passed, pending ∈ before.delivery.passed ∨
      pending.outcome ≠ none ∨ pending.exhausted = true := by
  have hsame : later.delivery.passed = before.delivery.passed →
      ∀ pending ∈ later.delivery.passed, pending ∈ before.delivery.passed ∨
        pending.outcome ≠ none ∨ pending.exhausted = true :=
    fun heq pending hmem => Or.inl (heq ▸ hmem)
  have hsettled : ∀ (pending : Pending) (outcome : Outcome),
      (pending.settle outcome).outcome ≠ none := fun pending outcome =>
    Option.isSome_iff_ne_none.mp (pending.isCompleted_settle outcome)
  cases hmove with
  | seekEnd hphase | seekReady hphase | refresh hphase | wait hphase | ask hphase
  | abandonEnd hphase => exact hsame (by simp [Delivery.passed, Delivery.left, hphase])
  | stay hphase => exact hsame rfl
  | finish hphase =>
      refine hsame ?_
      rcases hphase with ⟨budget, hphase, _⟩ | ⟨budget, hphase, _⟩ <;>
        simp [Delivery.passed, Delivery.left, Delivery.endWrite, hphase]
  | draw hphase =>
      exact hsame (by simp [Delivery.passed, Delivery.left, Delivery.makeEntry, hphase])
  | afterWrite hphase =>
      refine hsame ?_
      by_cases hwritten : before.delivery.written = 0 <;>
        simp [Delivery.passed, Delivery.left, Delivery.afterWrite, hphase, hwritten]
  | @pass pending next rest hphase hahead hsight =>
      have hnext : next.outcome ≠ none ∨ next.exhausted = true := by
        rcases Pending.inspect_passed hsight with
          ⟨hsome, rfl⟩ | ⟨-, hnone, -, rfl⟩ | ⟨-, -, -, ⟨-, rfl⟩ | ⟨error, -, rfl⟩⟩
        · exact Or.inl hsome
        · exact Or.inr (pending.peek_exhausted hnone)
        · exact Or.inl (hsettled _ _)
        · exact Or.inl (hsettled _ _)
      have hpassed : (before.delivery.pass next rest).passed =
          before.delivery.passed ++ [next] := by
        by_cases hwritten : before.delivery.written = 0
        · have hnil := (htidy.eq_nil_of_written hwritten).1
          rcases hphase with hphase | ⟨budget, hphase⟩ <;>
            simp [Delivery.passed, Delivery.left, Delivery.pass, hphase, hwritten, hnil]
        · rcases hphase with hphase | ⟨budget, hphase⟩ <;>
            simp [Delivery.passed, Delivery.left, Delivery.pass, hphase, hwritten]
      intro other hmem
      rw [hpassed] at hmem
      rcases List.mem_append.mp hmem with hold | hnew
      · exact Or.inl hold
      · exact Or.inr (List.mem_singleton.mp hnew ▸ hnext)
  | @settle result pending left hphase =>
      intro other hmem
      simp only [Delivery.passed, Delivery.left, hphase, List.mem_append, List.mem_reverse,
        List.mem_cons] at hmem ⊢
      rcases hmem with ((rfl | hbehind) | hleft) | htouched
      · refine Or.inr (Or.inl ?_)
        cases result <;> exact hsettled _ _
      · exact Or.inl (Or.inl (Or.inl hbehind))
      · exact Or.inl (Or.inl (Or.inr (Or.inr hleft)))
      · exact Or.inl (Or.inr htouched)
  | @abandon cause pending rest hphase hahead =>
      intro other hmem
      simp only [Delivery.passed, Delivery.left, hphase, List.mem_append, List.mem_reverse,
        List.mem_cons] at hmem ⊢
      rcases hmem with ((rfl | hbehind) | hleft) | htouched
      · exact Or.inr (Or.inl (hsettled _ _))
      · exact Or.inl (Or.inl (Or.inl hbehind))
      · exact Or.inl (Or.inl (Or.inr hleft))
      · exact Or.inl (Or.inr htouched)

end

section

variable {kind : TableKind} {σ : Type} {table : Table σ kind.Entry}
  {before later : Chronicle σ kind.Entry}

theorem Touch.serves {delivery : Delivery σ} {front : List Pending} {pending next start : Pending}
    {made : List (HandedEntry kind.Entry)} {payloads : List Bytes}
    (htouch : Touch kind.shape delivery front pending next made)
    (hdone : pending ∈ delivery.left → pending.outcome ≠ none ∨ pending.exhausted = true)
    (hserves : Pending.Serves start payloads pending) :
    Pending.Serves start
      (payloads ++ made.filterMap fun handed => TableEntry.payload handed.entry) next := by
  cases hserves with
  | settled houtcome heq hnone =>
      obtain ⟨outcome, hset⟩ := Option.ne_none_iff_exists'.mp houtcome
      obtain ⟨rfl, rfl⟩ := htouch.of_settled (heq ▸ hset)
      exact .settled houtcome heq (by simpa using hnone)
  | @opened houtcome polls hdrawn =>
      cases htouch with
      | look hhand hsight =>
          obtain ⟨more, hready⟩ := hdrawn.ready hsight
          exact .opened houtcome (by simpa using hready)
      | pass hhand hsight =>
          obtain ⟨more, hpassed⟩ := hdrawn.passed hsight
          exact .opened houtcome (by simpa using hpassed)
      | @draw looked hhand hsight =>
          have htake := Pending.take_ready hsight
          obtain ⟨hopen, hnext, -⟩ := Pending.inspect_ready hsight
          have hnone : looked.outcome = none := by rw [hnext, Pending.peek_outcome, hopen]
          obtain ⟨more, hready⟩ := hdrawn.ready hsight
          have hdraw := hready.draw hnone delivery.sequencer.stamp.1
          have hmade : [delivery.nextEntry kind.shape looked].filterMap
              (fun handed => TableEntry.payload handed.entry) = looked.lookahead.toList := by
            have hentry := TableKind.payload_entry hsight delivery.sequencer.stamp.1
            cases hpayload : looked.lookahead <;>
              simp [Delivery.nextEntry, hentry, hpayload]
          rw [hmade, htake]
          exact .opened houtcome hdraw
      | conclude hleft result =>
          exact .opened houtcome (by simpa using hdrawn.conclude (hdone hleft) result)
      | settleCurrent hhand result =>
          obtain ⟨more, hsettled⟩ := hdrawn.settleCurrent result
          exact .opened houtcome (by simpa using hsettled)
      | abandon cause =>
          rw [List.filterMap_nil, List.append_nil]
          exact .opened houtcome (hdrawn.fail _)

theorem payloadsOf_of_handed {index : Nat} {made : List (HandedEntry kind.Entry)}
    (hhanded : later.handed = before.handed ++ made) :
    later.payloadsOf index = before.payloadsOf index ++
      (made.filter (·.owner = index)).filterMap fun handed => TableEntry.payload handed.entry := by
  rw [payloadsOf, payloadsOf, share_handed, share_handed, hhanded, List.filter_append,
    List.filterMap_append]

/-- All requests of a batch are served, those in front to the end. -/
structure Serving (batch : List Pending) (chronicle : Chronicle σ kind.Entry) : Prop where
  tidy : chronicle.Tidy
  length_eq : chronicle.delivery.requests.length = batch.length
  passed : ∀ pending ∈ chronicle.delivery.passed,
    pending.outcome ≠ none ∨ pending.exhausted = true
  serves : ∀ index start pending, batch[index]? = some start →
    chronicle.delivery.requests[index]? = some pending →
      Pending.Serves start (chronicle.payloadsOf index) pending

theorem Serving.move {batch : List Pending} (hmove : Move table kind.shape before later)
    (hserving : before.Serving batch) : later.Serving batch where
  tidy := hserving.tidy.move hmove
  length_eq := (hmove.requests_keep hserving.tidy).length_eq.symm.trans hserving.length_eq
  passed pending hmem := (hmove.passed_cases hserving.tidy pending hmem).elim
    (hserving.passed pending) id
  serves index start pending hstart hpending := by
    rcases hmove.touch_cases hserving.tidy with
      ⟨hrequests, hhanded⟩ |
        ⟨front, old, next, rest, made, hbefore, hlater, hhanded, howner, htouch⟩
    · rw [hrequests] at hpending
      have hserves := hserving.serves index start pending hstart hpending
      rwa [payloadsOf, share_handed, hhanded, ← share_handed]
    · rw [payloadsOf_of_handed hhanded]
      by_cases hindex : index = front.length
      · subst hindex
        have hall : made.filter (·.owner = front.length) = made :=
          List.filter_eq_self.mpr fun entry hmem => by simpa using howner entry hmem
        have hnext : next = pending := by simpa [hlater] using hpending
        have hold : before.delivery.requests[front.length]? = some old := by simp [hbefore]
        subst hnext
        rw [hall]
        refine htouch.serves (fun hleft => hserving.passed old ?_)
          (hserving.serves _ start old hstart hold)
        exact List.mem_append_left _ (List.mem_append_right _ hleft)
      · have hnone : made.filter (·.owner = index) = [] := by
          refine List.filter_eq_nil_iff.mpr fun entry hmem => ?_
          simpa [howner entry hmem] using Ne.symm hindex
        have hsame : before.delivery.requests[index]? = some pending := by
          rw [← hpending, hbefore, hlater, getElem?_append_cons_of_ne hindex old next]
        rw [hnone, List.filterMap_nil, List.append_nil]
        exact hserving.serves index start pending hstart hsame

/-- A move polls a source only in its turn: the request is open and has not shown the
end of its source, and those in front of it are settled or have. -/
theorem Serving.poll_cases {batch : List Pending} (hserving : before.Serving batch)
    (hmove : Move table kind.shape before later) {index : Nat} {start old new : Pending}
    (hstart : batch[index]? = some start)
    (hold : before.delivery.requests[index]? = some old)
    (hnew : later.delivery.requests[index]? = some new) :
    new.request = old.request ∨
      new.request = old.request.poll.2 ∧ old.outcome = none ∧
        ¬start.request.HasEnded (start.pollsSince old) ∧
        ∀ earlier < index, ∀ first other, batch[earlier]? = some first →
          before.delivery.requests[earlier]? = some other →
          other.outcome ≠ none ∨ first.request.HasEnded (first.pollsSince other) := by
  rcases hmove.touch_cases hserving.tidy with
    ⟨hrequests, -⟩ | ⟨front, pending, next, rest, made, hbefore, hlater, -, -, htouch⟩
  · rw [hrequests, hold] at hnew
    cases hnew
    exact Or.inl rfl
  by_cases hindex : index = front.length
  · subst hindex
    obtain rfl : pending = old := by simpa [hbefore] using hold
    obtain rfl : next = new := by simpa [hlater] using hnew
    refine htouch.poll_cases.imp_right fun hpolled => ?_
    obtain ⟨hpoll, hhand, hopen, hexhausted⟩ := hpolled
    refine ⟨hpoll, hopen, ?_, fun earlier hearlier first other hfirst hother => ?_⟩
    · rw [← (hserving.serves _ start pending hstart hold).exhausted_iff hopen, hexhausted]
      exact Bool.false_ne_true
    · by_cases hsettled : other.outcome = none
      · have hserves := hserving.serves earlier first other hfirst hother
        rw [hbefore, List.getElem?_append_left hearlier] at hother
        rw [← hserves.exhausted_iff hsettled]
        exact hserving.passed other (hhand ▸ List.mem_of_getElem? hother)
      · exact Or.inl hsettled
  · rw [hlater, getElem?_append_cons_of_ne hindex next pending, ← hbefore, hold] at hnew
    cases hnew
    exact Or.inl rfl

theorem serving_after (table : Table σ kind.Entry) (writer : TableWriter σ) {batch : List Pending}
    (hbatch : ∀ pending ∈ batch, pending.outcome = none →
      pending = Pending.fresh pending.request) (n : Nat) :
    ((writer.chronicle batch).after table kind.shape n).Serving batch := by
  refine after_move_induction table kind.shape ?_
    (fun hmove hserving => hserving.move hmove) n
  have hpassed : (writer.deliver batch).passed = [] := rfl
  refine ⟨⟨rfl, rfl, rfl⟩, rfl, ?_, fun index start pending hstart hpending => ?_⟩
  · exact hpassed ▸ List.forall_mem_nil _
  have hsame : pending = start := Option.some.inj (hpending.symm.trans hstart)
  have hnone : (writer.chronicle batch : Chronicle σ kind.Entry).payloadsOf index = [] := by
    simp [payloadsOf, share_handed, handed, TableWriter.chronicle]
  rw [hsame, hnone]
  by_cases houtcome : start.outcome = none
  · have hfresh := Pending.Drawn.fresh start.request
    rw [← hbatch start (List.mem_of_getElem? hstart) houtcome] at hfresh
    exact .opened houtcome hfresh
  · exact .settled houtcome rfl rfl

end

end Chronicle

namespace TableWriter

/-- The sources of a batch are polled in turn and no more than is needed, whatever
they answer and whatever the table does.

A step polls a source only if its request is open, has not shown the end of its
source, and every earlier request is settled or has shown the end of its own.
At every moment the payloads in the entries of a request are the first that its
source yielded, none for a reference; the polls are at most one more, and just
one more if the request has succeeded.  These entries and no others have gone to
the table.  So many steps depend on as many answers
of each source only, so all this holds of sources that never end as well. -/
theorem sources_are_polled_in_turn (kind : TableKind) {σ : Type} (table : Table σ kind.Entry)
    (writer : TableWriter σ) {batch : List Pending}
    (hbatch : ∀ pending ∈ batch, pending.outcome = none →
      pending = Pending.fresh pending.request) (n : Nat) :
    let now := (writer.chronicle batch).after table kind.shape n
    let next := (writer.chronicle batch).after table kind.shape (n + 1)
    (∀ (index : Nat) (start before later : Pending), batch[index]? = some start →
      now.delivery.requests[index]? = some before →
      next.delivery.requests[index]? = some later →
      later.request = before.request ∨
        later.request = before.request.poll.2 ∧ before.outcome = none ∧
          ¬start.request.HasEnded (start.pollsSince before) ∧
          ∀ earlier < index, ∀ first other, batch[earlier]? = some first →
            now.delivery.requests[earlier]? = some other →
            other.outcome ≠ none ∨ first.request.HasEnded (first.pollsSince other)) ∧
    (∀ (index : Nat) (start pending : Pending), batch[index]? = some start →
      now.delivery.requests[index]? = some pending →
      let polls := start.pollsSince pending
      let payloads := now.payloadsOf index
      pending.request = start.request.pulled polls ∧
        payloads <+: start.request.yielded polls ∧
        (start.request.answer 0 = none → payloads = []) ∧
        polls ≤ payloads.length + 1 ∧
        (start.outcome = none → ∀ receipt, pending.outcome = some (.ok receipt) →
          polls = payloads.length + 1)) ∧
    (∀ result requests later,
      writer.write table kind.shape n batch = some (result, requests, later) →
      requests = now.delivery.requests) ∧
    Chronicle.Received table writer.table now.calls now.current now.delivery.table ∧
    ∀ others, List.Forall₂ (Pending.Alike n) batch others →
      let there := (writer.chronicle others).after table kind.shape n
      there.calls = now.calls ∧ there.current = now.current ∧
        List.Forall₂ (Pending.Alike 0) now.delivery.requests there.delivery.requests := by
  intro now next
  have hserving : now.Serving batch := Chronicle.serving_after table writer hbatch n
  have hmove : Chronicle.Move table kind.shape now next := by
    have hnext : next = now.step table kind.shape := Chronicle.after_succ table kind.shape n _
    rw [hnext]
    exact Chronicle.step_move table kind.shape now
  refine ⟨?_, ?_, ?_, received_after table kind.shape writer batch n, ?_⟩
  · intro index start before later hstart hbefore hlater
    exact hserving.poll_cases hmove hstart hbefore hlater
  · intro index start pending hstart hpending
    exact (hserving.serves index start pending hstart hpending).polls_eq
  · intro result requests later hwrite
    obtain ⟨-, -, hrequests, -⟩ :=
      (TableWriter.write_eq_some_iff table kind.shape n writer later batch requests result).mp
        hwrite
    exact hrequests.symm
  · intro others halike there
    have hdeliver : (writer.chronicle batch : Chronicle σ kind.Entry).delivery.Alike (0 + n)
        (writer.chronicle others : Chronicle σ kind.Entry).delivery := by
      rw [Nat.zero_add]
      exact writer.deliver_alike halike
    obtain ⟨hdelivery, hcalls, hcurrent⟩ :=
      Chronicle.after_alike table kind.shape_lawful n hdeliver rfl rfl
    exact ⟨hcalls, hcurrent, hdelivery.requests⟩

/-- A source that would yield again after its end, a request that is settled
already, and one payload. -/
def restlessBatch : List Pending :=
  [Pending.fresh ⟨⟨"space", "a"⟩, none, [some [1], none, some [2]], 0⟩,
    (Pending.fresh (.ofTexts ⟨"space", "b"⟩ ["x"])).fail .closed,
    Pending.fresh (.ofTexts ⟨"space", "c"⟩ ["y"])]

theorem restless_source_is_left_alone :
    let writer : TableWriter (MemoryTable MessageEntry) := { table := {}, clock := .counting 5 }
    let now := (writer.chronicle restlessBatch).after MemoryTable.behaviour Shape.message 40
    (∀ pending ∈ restlessBatch, pending.outcome = none →
      pending = Pending.fresh pending.request) ∧
      now.payloadsOf 0 = [[1]] ∧
      ∃ first, now.delivery.requests[0]? = some first ∧ first.request.polls = 2 := by
  intro writer now
  have hbatch : ∀ pending ∈ restlessBatch, pending.outcome = none →
      pending = Pending.fresh pending.request := by
    intro pending hmem hopen
    simp only [restlessBatch, List.mem_cons, List.not_mem_nil, or_false] at hmem
    rcases hmem with rfl | rfl | rfl
    · rfl
    · contradiction
    · rfl
  have hpayloads : now.payloadsOf 0 = [[1]] := by decide +kernel
  have hoks : now.delivery.requests[0]?.bind (·.outcome) =
      some (.ok ⟨⟨"space", "a"⟩, 1, some ⟨5, 0⟩, some ⟨5, 0⟩⟩) := by
    decide +kernel
  obtain ⟨first, hget, hok⟩ := Option.bind_eq_some_iff.mp hoks
  obtain ⟨-, hstands, -⟩ :=
    sources_are_polled_in_turn .message MemoryTable.behaviour writer hbatch 40
  obtain ⟨-, -, -, -, hpolls⟩ := hstands 0 _ first rfl hget
  refine ⟨hbatch, hpayloads, first, hget, ?_⟩
  have htwo : first.request.polls = (now.payloadsOf 0).length + 1 := hpolls rfl _ hok
  rw [htwo, hpayloads]
  rfl

end TableWriter

end MessageStore
