import MessageStore.Proofs.CoordinatorEvents

/-!
# The record of a call

What a call has done so far follows from what its thread is about to do: a
persist has pushed once or not at all, and the close that turned the closed
flag on has called the writer at most once before it closes it.  What a call
returned follows from its record.
-/

namespace MessageStore

section Record

variable {E : Type}

/-- What a flush came to: nothing was written, or one call of the writer
returned this. -/
def FlushedWith (results : List (Except StoreError Unit))
    (flushed : Except StoreError Unit) : Prop :=
  (results = [] ∧ flushed = .ok ()) ∨ results = [flushed]

/-- The record of the close that turned the closed flag on: what its calls of
the writer returned, and what closing the writer returned. -/
structure ClosesFirst (deeds : List (Deed E))
    (results shuts : List (Except StoreError Unit)) : Prop where
  claimed : Deed.claim true ∈ deeds
  results_eq : deeds.filterMap Deed.wrote? = results
  shuts_eq : deeds.filterMap Deed.shut? = shuts

/-- What the first close tells: the cause if its flush failed, else the cause
if closing the table failed, else that all went well. -/
structure Tells (flushed closed : Except StoreError Unit)
    (result : Except WriteError Unit) : Prop where
  unflushed : ∀ cause, flushed = .error cause → result = .error (.flush cause)
  unclosed : ∀ cause, flushed = .ok () → closed = .error cause →
    result = .error (.closeTable cause)
  succeeded : flushed = .ok () → closed = .ok () → result = .ok ()

theorem tells_closeResult (flushed closed : Except StoreError Unit) :
    Tells flushed closed (closeResult flushed closed) where
  unflushed := by
    rintro cause rfl
    rfl
  unclosed := by
    rintro cause rfl rfl
    rfl
  succeeded := by
    rintro rfl rfl
    rfl

/-- The first close has flushed, has closed the writer and returns. -/
def ClosedWith (deeds : List (Deed E)) (result : Except WriteError Unit) : Prop :=
  ∃ results flushed closed, ClosesFirst deeds results [closed] ∧
    FlushedWith results flushed ∧ Tells flushed closed result

def FlushStage.results : FlushStage → List (Except StoreError Unit)
  | .landing result => [result]
  | _ => []

/-- A call that flushes, for a request of its own or to close. -/
def Flushes (deeds : List (Deed E)) (results : List (Except StoreError Unit)) :
    Option Ticket → Prop
  | some ticket => tickets deeds = [ticket]
  | none => ClosesFirst deeds results []

/-- What a call has done by the time of the activity. -/
def Activity.Did (deeds : List (Deed E)) : Activity → Prop
  | .idle => deeds = []
  | .checking _ => deeds = []
  | .pushing _ => deeds = [.check false]
  | .watching ticket => tickets deeds = [ticket]
  | .electing ticket => tickets deeds = [ticket]
  | .flushing stage ticket => Flushes deeds stage.results ticket
  | .releasing ticket => tickets deeds = [ticket]
  | .claiming => deeds = []
  | .acquiring => ClosesFirst deeds [] []
  | .sealing flushed =>
    ∃ results, ClosesFirst deeds results [] ∧ FlushedWith results flushed
  | .closing flushed =>
    ∃ results, ClosesFirst deeds results [] ∧ FlushedWith results flushed
  | .leaving result => ClosedWith deeds result

theorem ClosesFirst.append {deeds : List (Deed E)}
    {results shuts : List (Except StoreError Unit)}
    (hcloses : ClosesFirst deeds results shuts) (deed : Deed E) :
    ClosesFirst (deeds ++ [deed]) (results ++ deed.wrote?.toList)
      (shuts ++ deed.shut?.toList) where
  claimed := List.mem_append_left _ hcloses.claimed
  results_eq := by
    rw [List.filterMap_append, hcloses.results_eq]
    cases hwrote : deed.wrote? <;> simp [hwrote]
  shuts_eq := by
    rw [List.filterMap_append, hcloses.shuts_eq]
    cases hshut : deed.shut? <;> simp [hshut]

theorem Flushes.append {deeds : List (Deed E)}
    {results : List (Except StoreError Unit)} {ticket : Option Ticket}
    (hflushes : Flushes deeds results ticket) (deed : Deed E)
    (hpush : deed.ticket? = none) (hshut : deed.shut? = none) :
    Flushes (deeds ++ [deed]) (results ++ deed.wrote?.toList) ticket := by
  cases ticket with
  | none =>
      have hcloses := ClosesFirst.append hflushes deed
      rwa [hshut] at hcloses
  | some own =>
      have hsame : tickets deeds = [own] := hflushes
      change tickets (deeds ++ [deed]) = [own]
      rw [tickets_append, hsame]
      simp [tickets, hpush]

theorem Flushes.afterFlush {deeds : List (Deed E)}
    {results : List (Except StoreError Unit)} {ticket : Option Ticket}
    (hflushes : Flushes deeds results ticket) {result : Except StoreError Unit}
    (hresult : FlushedWith results result) :
    (Thread.afterFlush result ticket).Did deeds := by
  cases ticket with
  | none => exact ⟨results, hflushes, hresult⟩
  | some own => exact hflushes

end Record

section Calls

variable {ω μ E : Type} {writer : RequestWriter ω μ}
  {act : μ → Option (TableAct E)} {coordinator later : Coordinator ω μ}
  {thread next : Thread} {log : List (Event E)} {index : Nat}

/-- What a call that did this may have returned. -/
def Returned (writer : RequestWriter ω μ) (coordinator : Coordinator ω μ)
    (deeds : List (Deed E)) : Return → Prop
  | .persisted outcome =>
    (deeds = [.check true] ∧ outcome = .error .closed) ∨
      ∃ ticket, tickets deeds = [ticket] ∧
        coordinator.outcome? writer ticket = some outcome
  | .closed result =>
    (deeds = [.claim false] ∧ result = .ok ()) ∨ ClosedWith deeds result

theorem Returned.mono {deeds : List (Deed E)} {value : Return}
    (hreturned : Returned writer coordinator deeds value)
    (hgrows : Coordinator.Grows writer coordinator later) :
    Returned writer later deeds value := by
  cases value with
  | persisted outcome =>
      apply hreturned.imp_right
      rintro ⟨ticket, htickets, houtcome⟩
      exact ⟨ticket, htickets, hgrows.outcome? houtcome⟩
  | closed result => exact hreturned

/-- The record of a call goes on in the next activity, or the call returns. -/
def Leads (writer : RequestWriter ω μ) (coordinator : Coordinator ω μ)
    (deeds : List (Deed E)) (thread next : Thread) : Prop :=
  (next.returns = thread.returns ∧ next.activity.Did deeds) ∨
    ∃ value, next = thread.return_ value ∧ Returned writer coordinator deeds value

section Kinds

variable {activity after : Activity} {deeds : List (Deed E)}

theorem append_deed_of_none (hnone : thread.deed? writer act coordinator = none)
    (deeds : List (Deed E)) :
    deeds ++ (thread.deed? writer act coordinator).toList = deeds := by
  rw [hnone, Option.toList_none, List.append_nil]

/-- A step that does nothing of note. -/
theorem Leads.quiet (hactivity : thread.activity = activity)
    (hnone : thread.deed? writer act coordinator = none)
    (hdid : thread.activity.Did deeds) (hreturns : next.returns = thread.returns)
    (hnext : activity.Did deeds → next.activity.Did deeds) :
    Leads writer coordinator (deeds ++ (thread.deed? writer act coordinator).toList)
      thread next := by
  rw [append_deed_of_none hnone]
  exact Or.inl ⟨hreturns, hnext (hactivity ▸ hdid)⟩

theorem Leads.deed {deed : Deed E} (hactivity : thread.activity = activity)
    (hdeed : thread.deed? writer act coordinator = some deed)
    (hdid : thread.activity.Did deeds) (hreturns : next.returns = thread.returns)
    (hnext : activity.Did deeds → next.activity.Did (deeds ++ [deed])) :
    Leads writer coordinator (deeds ++ (thread.deed? writer act coordinator).toList)
      thread next := by
  rw [hdeed]
  exact Or.inl ⟨hreturns, hnext (hactivity ▸ hdid)⟩

/-- A call that returns at once, since the closed flag is on. -/
theorem Leads.late {deed : Deed E} {value : Return}
    (hdeed : thread.deed? writer act coordinator = some deed) (hnone : deeds = [])
    (hreturned : Returned writer coordinator [deed] value) :
    Leads writer coordinator (deeds ++ (thread.deed? writer act coordinator).toList)
      thread (thread.return_ value) := by
  rw [hdeed, hnone]
  exact Or.inr ⟨value, rfl, hreturned⟩

theorem Leads.returns {value : Return} (hactivity : thread.activity = activity)
    (hquiet : activity.isQuiet = true) (hdid : thread.activity.Did deeds)
    (hreturned : activity.Did deeds → Returned writer coordinator deeds value) :
    Leads writer coordinator (deeds ++ (thread.deed? writer act coordinator).toList)
      thread (thread.return_ value) := by
  rw [append_deed_of_none (Thread.deed?_of_isQuiet hactivity hquiet)]
  exact Or.inr ⟨value, rfl, hreturned (hactivity ▸ hdid)⟩

end Kinds

/-- A step adds its deed to the record of its call, or ends the call. -/
theorem Thread.Move.did (act : μ → Option (TableAct E))
    (hmove : Thread.Move writer coordinator thread later next)
    {deeds : List (Deed E)} (hdid : thread.activity.Did deeds) :
    Leads writer coordinator (deeds ++ (thread.deed? writer act coordinator).toList)
      thread next := by
  cases hmove with
  | call hactivity | callClose hactivity | miss hactivity | lose hactivity
  | count hactivity | popEnd hactivity | pop hactivity | release hactivity
  | forbid hactivity =>
      exact .quiet hactivity (deed?_of_isQuiet hactivity rfl) hdid rfl id
  | reject hactivity | land hactivity =>
      exact .quiet rfl (deed?_of_isQuiet hactivity rfl) hdid rfl id
  | stay hstays => exact .quiet rfl (deed?_of_stays hstays) hdid rfl id
  | win hactivity hwhy =>
      rcases hwhy with ⟨own, rfl, rfl⟩ | ⟨rfl, rfl⟩ <;>
        exact .quiet hactivity (deed?_of_isQuiet hactivity rfl) hdid rfl id
  | refuse hactivity hclosed =>
      rw [hactivity] at hdid
      exact .late (by rw [deed?, hactivity, hclosed]) hdid (Or.inl ⟨rfl, rfl⟩)
  | accept hactivity hopen =>
      refine .deed hactivity (by rw [deed?, hactivity, hopen]) hdid rfl fun hnone => ?_
      exact congrArg (· ++ [_]) hnone
  | push hactivity =>
      refine .deed hactivity (by rw [deed?, hactivity]) hdid rfl fun hchecked => ?_
      exact congrArg (fun deeds => tickets (deeds ++ [_])) hchecked
  | see hactivity hsome =>
      exact .returns hactivity rfl hdid fun htickets => Or.inr ⟨_, htickets, hsome⟩
  | decideNothing hactivity hflight =>
      exact .quiet hactivity (deed?_of_unwritten hactivity hflight (Or.inl rfl)) hdid rfl
        fun hflushes => Flushes.afterFlush hflushes (Or.inl ⟨rfl, rfl⟩)
  | decideReject hactivity hflight hrequests hsealed =>
      exact .quiet hactivity (deed?_of_unwritten hactivity hflight (Or.inr hsealed)) hdid rfl id
  | decideWrite hactivity hflight hrequests hsealed =>
      exact .deed hactivity (deed?_of_batch hactivity hflight hrequests hsealed) hdid rfl
        fun hflushes => Flushes.append hflushes _ rfl rfl
  | rejectEnd hactivity =>
      exact .quiet hactivity (deed?_of_isQuiet hactivity rfl) hdid rfl
        fun hflushes => Flushes.afterFlush hflushes (Or.inl ⟨rfl, rfl⟩)
  | write hactivity hflight hresult =>
      refine .deed hactivity (deed?_of_work hactivity hflight hresult) hdid rfl
        fun hflushes => ?_
      rw [hactivity]
      exact Flushes.append hflushes _ rfl rfl
  | written hactivity hflight hresult =>
      exact .deed hactivity (deed?_of_wrote hactivity hflight hresult) hdid rfl
        fun hflushes => Flushes.append hflushes _ rfl rfl
  | landEnd hactivity =>
      exact .quiet hactivity (deed?_of_isQuiet hactivity rfl) hdid rfl
        fun hflushes => Flushes.afterFlush hflushes (Or.inr rfl)
  | claimLate hactivity hclosed =>
      rw [hactivity] at hdid
      exact .late (by rw [deed?, hactivity, hclosed]; rfl) hdid (Or.inl ⟨rfl, rfl⟩)
  | claim hactivity hopen =>
      refine .deed hactivity (by rw [deed?, hactivity, hopen]) hdid rfl fun hnone => ?_
      have hnone : deeds = [] := hnone
      rw [hnone]
      exact ⟨List.mem_singleton_self _, rfl, rfl⟩
  | @close flushed state requests hactivity hflight =>
      refine .deed hactivity (deed?_of_shut hactivity hflight) hdid rfl fun hclosing => ?_
      obtain ⟨results, hcloses, hflushed⟩ := hclosing
      have hafter : ClosesFirst (deeds ++ [.shut (writer.close state).1]) results
          [(writer.close state).1] := by
        simpa [Deed.wrote?, Deed.shut?] using
          hcloses.append (.shut (writer.close state).1)
      exact ⟨results, flushed, _, hafter, hflushed, tells_closeResult _ _⟩
  | leave hactivity => exact .returns hactivity rfl hdid fun hcloses => Or.inr hcloses

/-- The record of a thread: the call that it is making, and those that have
returned. -/
structure Recorded (writer : RequestWriter ω μ) (log : List (Event E))
    (coordinator : Coordinator ω μ) (index : Nat) (thread : Thread) : Prop where
  did : thread.activity.Did (deedsOf index thread.returns.length log)
  future : ∀ number, thread.returns.length < number →
    deedsOf index number log = []
  returned : ∀ number value, thread.returns.reverse[number]? = some value →
    Returned writer coordinator (deedsOf index number log) value

namespace Recorded

theorem frame (hrecorded : Recorded writer log coordinator index thread)
    (hgrows : Coordinator.Grows writer coordinator later) {other : Nat}
    (hother : other ≠ index) (number : Nat) (deed : Option (Deed E)) :
    Recorded writer (log ++ noted other number deed) later index thread := by
  have hsame : ∀ count, deedsOf index count (log ++ noted other number deed) =
      deedsOf index count log := by
    intro count
    rw [deedsOf_append, deedsOf_noted, if_neg fun hcall => hother hcall.1,
      List.append_nil]
  constructor
  · rw [hsame]
    exact hrecorded.did
  · intro count hlt
    rw [hsame]
    exact hrecorded.future count hlt
  · intro count value hvalue
    rw [hsame]
    exact (hrecorded.returned count value hvalue).mono hgrows

theorem move (hrecorded : Recorded writer log coordinator index thread)
    (hmove : Thread.Move writer coordinator thread later next)
    (hgrows : Coordinator.Grows writer coordinator later) :
    Recorded writer (log ++ noted index thread.returns.length
      (thread.deed? writer act coordinator)) later index next := by
  generalize hadded : noted index thread.returns.length
    (thread.deed? writer act coordinator) = added
  have hown : deedsOf index thread.returns.length (log ++ added) =
      deedsOf index thread.returns.length log ++
        (thread.deed? writer act coordinator).toList := by
    rw [← hadded, deedsOf_append, deedsOf_noted, if_pos ⟨rfl, rfl⟩]
  have hother : ∀ number, number ≠ thread.returns.length →
      deedsOf index number (log ++ added) = deedsOf index number log := by
    intro number hne
    rw [← hadded, deedsOf_append, deedsOf_noted, if_neg fun hcall => hne hcall.2.symm,
      List.append_nil]
  have hearlier : ∀ number value, thread.returns.reverse[number]? = some value →
      Returned writer later (deedsOf index number (log ++ added)) value := by
    intro number value hvalue
    have hlt := (List.getElem?_eq_some_iff.mp hvalue).1
    rw [List.length_reverse] at hlt
    rw [hother number (by omega)]
    exact (hrecorded.returned number value hvalue).mono hgrows
  rcases hmove.did act hrecorded.did with
    ⟨hreturns, hdid⟩ | ⟨value, rfl, hreturned⟩
  · constructor
    · rw [hreturns, hown]
      exact hdid
    · intro number hlt
      rw [hreturns] at hlt
      rw [hother number (by omega)]
      exact hrecorded.future number hlt
    · intro number value hvalue
      rw [hreturns] at hvalue
      exact hearlier number value hvalue
  · constructor
    · change deedsOf index (thread.returns.length + 1) _ = []
      rw [hother _ (by omega)]
      exact hrecorded.future _ (Nat.lt_succ_self _)
    · intro number hlt
      have hlater : thread.returns.length + 1 < number := hlt
      rw [hother number (by omega)]
      exact hrecorded.future number (by omega)
    · intro number other hvalue
      rw [Thread.return_, List.reverse_cons] at hvalue
      by_cases hlt : number < thread.returns.reverse.length
      · rw [List.getElem?_append_left hlt] at hvalue
        exact hearlier number other hvalue
      · have hbound := (List.getElem?_eq_some_iff.mp hvalue).1
        simp only [List.length_append, List.length_reverse,
          List.length_singleton] at hlt hbound
        have hnumber : number = thread.returns.length := by omega
        subst hnumber
        rw [List.getElem?_append_right (by simp), List.length_reverse,
          Nat.sub_self, List.getElem?_cons_zero, Option.some.injEq] at hvalue
        rw [← hvalue, hown]
        exact hreturned.mono hgrows

theorem start (coordinator : Coordinator ω μ) (index : Nat) (calls : List Call) :
    Recorded writer ([] : List (Event E)) coordinator index { calls } where
  did := rfl
  future _ _ := rfl
  returned _ _ hvalue := by simp at hvalue

end Recorded

end Calls

end MessageStore
