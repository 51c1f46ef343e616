import MessageStore.Proofs.RequestStanding
import Mathlib.Tactic

/-!
# Where the requests of a batch stand

The requests of a batch stand in rows: those behind the delivery are done,
those touched wait for the call under way, the one at hand is under way and
those after it are untouched.  Every move keeps the rows in order, whatever
the table does, and so all requests are done when the delivery has finished.
-/

namespace MessageStore

/-- The failure in which a delivery gives up after a call that took nothing. -/
def StoreError.afterNothing : Except StoreError Unit → StoreError
  | .ok () => .nothingTaken
  | .error cause => cause

section Rows

variable {E : Type}

/-- Pending requests from a place of the batch on, each standing as `holds`
says to the request at its place. -/
def Row (requests : List Request) (share : Nat → Share E)
    (holds : Request → Share E → Pending → Prop) : Nat → List Pending → Prop
  | _, [] => True
  | place, pending :: rest =>
    (∃ request, requests[place]? = some request ∧
        holds request (share place) pending) ∧
      Row requests share holds (place + 1) rest

variable {requests : List Request} {share later : Nat → Share E}
  {holds holds' : Request → Share E → Pending → Prop} {place : Nat}

theorem row_untouched_fresh (rest : List Request) (place : Nat)
    (hrest : requests.drop place = rest) :
    Row requests (fun _ => ({} : Share E)) Untouched place
      (rest.map Pending.fresh) := by
  induction rest generalizing place with
  | nil => trivial
  | cons request rest ih =>
      refine ⟨⟨request, ?_, rfl, rfl⟩, ih (place + 1) ?_⟩
      · rw [← Nat.add_zero place, ← List.getElem?_drop, hrest]
        rfl
      · rw [← List.tail_drop, hrest]
        rfl

theorem Row.append (front back : List Pending)
    (hfront : Row requests share holds place front)
    (hback : Row requests share holds (place + front.length) back) :
    Row requests share holds place (front ++ back) := by
  induction front generalizing place with
  | nil => exact hback
  | cons pending front ih =>
      refine ⟨hfront.1, ih hfront.2 ?_⟩
      rw [List.length_cons] at hback
      rwa [show place + 1 + front.length = place + (front.length + 1) by omega]

theorem Row.push {row : List Pending} {request : Request} {pending : Pending}
    (hrow : Row requests share holds place row.reverse)
    (hrequest : requests[place + row.length]? = some request)
    (hholds : holds request (share (place + row.length)) pending) :
    Row requests share holds place (pending :: row).reverse := by
  rw [List.reverse_cons]
  refine hrow.append _ _ ⟨⟨request, ?_, ?_⟩, trivial⟩
  · rwa [List.length_reverse]
  · rwa [List.length_reverse]

theorem Row.imp {row : List Pending} (hrow : Row requests share holds place row)
    (himp : ∀ owner request pending, place ≤ owner → owner < place + row.length →
      holds request (share owner) pending →
        holds' request (later owner) pending) :
    Row requests later holds' place row := by
  induction row generalizing place with
  | nil => trivial
  | cons pending row ih =>
      rw [List.length_cons] at himp
      obtain ⟨⟨request, hrequest, hholds⟩, hrest⟩ := hrow
      refine ⟨⟨request, hrequest, himp _ _ _ le_rfl (by omega) hholds⟩,
        ih hrest ?_⟩
      intro owner request pending hle hlt
      exact himp owner request pending (by omega) (by omega)

theorem Row.get {row : List Pending} (hrow : Row requests share holds place row)
    {index : Nat} {pending : Pending} (hget : row[index]? = some pending) :
    ∃ request, requests[place + index]? = some request ∧
      holds request (share (place + index)) pending := by
  induction row generalizing place index with
  | nil => simp at hget
  | cons first row ih =>
      cases index with
      | zero =>
          rw [List.getElem?_cons_zero, Option.some.injEq] at hget
          exact hget ▸ hrow.1
      | succ index =>
          rw [List.getElem?_cons_succ] at hget
          have hnext := ih hrow.2 hget
          rwa [show place + 1 + index = place + (index + 1) by omega] at hnext

/-- The request at hand stands as `holds` says, and nobody has looked at those
after it. -/
def Ahead (requests : List Request) (share : Nat → Share E)
    (holds : Request → Share E → Pending → Prop) (place : Nat) :
    List Pending → Prop
  | [] => True
  | pending :: rest =>
    (∃ request, requests[place]? = some request ∧
        holds request (share place) pending) ∧
      Row requests share Untouched (place + 1) rest

theorem Ahead.imp {row : List Pending}
    (hahead : Ahead requests share holds place row)
    (hhead : ∀ request pending, holds request (share place) pending →
      holds' request (later place) pending)
    (htail : ∀ owner request pending, place < owner →
      Untouched request (share owner) pending →
        Untouched request (later owner) pending) :
    Ahead requests later holds' place row := by
  cases row with
  | nil => trivial
  | cons pending rest =>
      obtain ⟨⟨request, hrequest, hholds⟩, hrest⟩ := hahead
      refine ⟨⟨request, hrequest, hhead _ _ hholds⟩, hrest.imp ?_⟩
      intro owner request pending hle _ huntouched
      exact htail owner request pending hle huntouched

theorem Ahead.row {row : List Pending}
    (hahead : Ahead requests share holds place row)
    (hhead : ∀ request share pending, holds request share pending →
      holds' request share pending)
    (htail : ∀ request share pending, Untouched request share pending →
      holds' request share pending) :
    Row requests share holds' place row := by
  cases row with
  | nil => trivial
  | cons pending rest =>
      obtain ⟨⟨request, hrequest, hholds⟩, hrest⟩ := hahead
      refine ⟨⟨request, hrequest, hhead _ _ _ hholds⟩, hrest.imp ?_⟩
      intro owner request pending _ _ huntouched
      exact htail _ _ _ huntouched

theorem Ahead.of_untouched {row : List Pending}
    (hrow : Row requests share Untouched place row)
    (himp : ∀ request share pending, Untouched request share pending →
      holds request share pending) :
    Ahead requests share holds place row := by
  cases row with
  | nil => trivial
  | cons pending rest =>
      obtain ⟨⟨request, hrequest, huntouched⟩, hrest⟩ := hrow
      exact ⟨⟨request, hrequest, himp _ _ _ huntouched⟩, hrest⟩

end Rows

section Postures

variable {E : Type} [TableEntry E] (shape : Shape E)

/-- The request may still be under way. -/
def Open (givenUp : StoreError → Prop) (request : Request) (share : Share E)
    (pending : Pending) : Prop :=
  Done shape givenUp request share pending ∨ UnderWay shape request share pending

/-- The request may wait for the end of the call under way. -/
def Touched (givenUp : StoreError → Prop) (request : Request) (share : Share E)
    (pending : Pending) : Prop :=
  Done shape givenUp request share pending ∨ Waiting shape request share pending

/-- The request may be due with all its entries. -/
def Ended (givenUp : StoreError → Prop) (result : Except StoreError Unit)
    (request : Request) (share : Share E) (pending : Pending) : Prop :=
  Done shape givenUp request share pending ∨
    Due shape result request share pending ∧ pending.remaining = []

/-- The request may be due, and may have more to come. -/
def Stopped (givenUp : StoreError → Prop) (result : Except StoreError Unit)
    (request : Request) (share : Share E) (pending : Pending) : Prop :=
  Done shape givenUp request share pending ∨
    Due shape result request share pending

/-- The request is done, or nothing has been said about it yet. -/
def Stance (givenUp : StoreError → Prop) (request : Request) (share : Share E)
    (pending : Pending) : Prop :=
  Done shape givenUp request share pending ∨
    pending.outcome = none ∧ pending.Progress shape request share.handed

variable {shape} {givenUp : StoreError → Prop} {request : Request}
  {share : Share E} {pending : Pending} {result : Except StoreError Unit}

theorem Open.stance (hopen : Open shape givenUp request share pending) :
    Stance shape givenUp request share pending :=
  hopen.imp_right fun hunder => ⟨hunder.outcome_eq, hunder.progress⟩

theorem Touched.stance (htouched : Touched shape givenUp request share pending) :
    Stance shape givenUp request share pending :=
  htouched.imp_right fun hwaiting => ⟨hwaiting.outcome_eq, hwaiting.progress⟩

theorem Stopped.stance
    (hstopped : Stopped shape givenUp result request share pending) :
    Stance shape givenUp request share pending :=
  hstopped.imp_right fun hdue => ⟨hdue.outcome_eq, hdue.progress⟩

theorem Ended.stance (hended : Ended shape givenUp result request share pending) :
    Stance shape givenUp request share pending :=
  Stopped.stance (hended.imp_right And.left)

end Postures

namespace Chronicle

variable {σ E : Type}

/-- A call that took no entry has ended in this failure. -/
def GivenUp (chronicle : Chronicle σ E) (cause : StoreError) : Prop :=
  ∃ call ∈ chronicle.calls,
    call.handed = [] ∧ cause = StoreError.afterNothing call.result

variable [TableEntry E] (shape : Shape E) (requests : List Request)

/-- The rows of a delivery that looks for entries. -/
structure Seeking (chronicle : Chronicle σ E) : Prop where
  touched : Row requests chronicle.share (Touched shape chronicle.GivenUp)
    chronicle.delivery.behind.length chronicle.delivery.touched.reverse
  ahead : Ahead requests chronicle.share (Open shape chronicle.GivenUp)
    (chronicle.delivery.behind.length + chronicle.delivery.touched.length)
    chronicle.delivery.ahead

/-- The rows of a delivery that settles the requests of a call. -/
structure Settling (result : Except StoreError Unit) (left : List Pending)
    (chronicle : Chronicle σ E) : Prop where
  row : Row requests chronicle.share (Ended shape chronicle.GivenUp result)
    chronicle.delivery.behind.length left
  ahead : Ahead requests chronicle.share (Stopped shape chronicle.GivenUp result)
    (chronicle.delivery.behind.length + left.length) chronicle.delivery.ahead

/-- The rows of a delivery that gives up. -/
structure GivingUp (cause : StoreError) (chronicle : Chronicle σ E) : Prop where
  givenUp : chronicle.GivenUp cause
  ahead : Ahead requests chronicle.share (Open shape chronicle.GivenUp)
    chronicle.delivery.behind.length chronicle.delivery.ahead

/-- The rows in front of the requests behind, by what the delivery does. -/
def Front (chronicle : Chronicle σ E) : Phase → Prop
  | .seeking | .refreshing | .drawing _ => Seeking shape requests chronicle
  | .offering _ =>
    Seeking shape requests chronicle ∧
      (chronicle.delivery.written ≠ 0 →
        (chronicle.share (chronicle.delivery.behind.length +
          chronicle.delivery.touched.length)).current ≠ [])
  | .settling result left =>
    if chronicle.delivery.written = 0 then
      left = [] ∧ GivingUp shape requests (StoreError.afterNothing result) chronicle
    else Settling shape requests result left chronicle
  | .abandoning cause => GivingUp shape requests cause chronicle
  | .finished => chronicle.delivery.ahead = []

/-- The requests of a batch stand in their rows. -/
structure Standing (chronicle : Chronicle σ E) : Prop where
  behind : Row requests chronicle.share (Done shape chronicle.GivenUp) 0
    chronicle.delivery.behind.reverse
  front : Front shape requests chronicle chronicle.delivery.phase

variable {table : Table σ E} {shape} {requests} {before later : Chronicle σ E}

theorem Standing.seekReady {pending next : Pending} {rest : List Pending}
    (hstanding : before.Standing shape requests)
    (hphase : before.delivery.phase = .seeking)
    (hahead : before.delivery.ahead = pending :: rest)
    (hsight : Delivery.inspect shape pending = .ready next) :
    Standing shape requests
      { before with delivery :=
        { before.delivery with ahead := next :: rest, phase := .refreshing } } := by
  have hfront := hstanding.front
  simp only [Front, hphase] at hfront
  refine ⟨hstanding.behind, hfront.touched, ?_⟩
  have hrow := hfront.ahead
  rw [hahead] at hrow
  obtain ⟨⟨request, hrequest, hopen⟩, hrest⟩ := hrow
  refine ⟨⟨request, hrequest, ?_⟩, hrest⟩
  rcases hopen with hdone | hunder
  · exact absurd hsight hdone.not_ready
  · obtain ⟨_, rfl, _⟩ := Pending.inspect_ready hsight
    exact Or.inr hunder.peek

theorem Standing.pass {pending next : Pending} {rest : List Pending}
    (hlawful : shape.Lawful) (htidy : before.Tidy)
    (hstanding : before.Standing shape requests)
    (hphase : before.delivery.phase = .seeking ∨
      ∃ budget, before.delivery.phase = .drawing budget)
    (hahead : before.delivery.ahead = pending :: rest)
    (hsight : Delivery.inspect shape pending = .passed next) :
    Standing shape requests
      { before with delivery := before.delivery.pass next rest } := by
  have hfront : ∀ later : Chronicle σ E,
      later.delivery.phase = before.delivery.phase →
      Seeking shape requests later →
        Front shape requests later later.delivery.phase := by
    intro later hlater hseeking
    rw [hlater]
    rcases hphase with hphase | ⟨budget, hphase⟩ <;> rwa [hphase]
  have hseeking : Seeking shape requests before := by
    have hbefore := hstanding.front
    rcases hphase with hphase | ⟨budget, hphase⟩ <;> rwa [hphase] at hbefore
  have hrow := hseeking.ahead
  rw [hahead] at hrow
  obtain ⟨⟨request, hrequest, hopen⟩, hrest⟩ := hrow
  have htouched : Touched shape before.GivenUp request
      (before.share (before.delivery.behind.length +
        before.delivery.touched.length)) next := by
    rcases hopen with hdone | hunder
    · exact Or.inl (hdone.passed hsight)
    · exact (hunder.passed hlawful hsight).symm
  have hnext : Ahead requests before.share (Open shape before.GivenUp)
      (before.delivery.behind.length + before.delivery.touched.length + 1) rest :=
    Ahead.of_untouched hrest fun _ _ _ huntouched => Or.inr huntouched.underWay
  by_cases hwritten : before.delivery.written = 0
  · -- Outside a call nothing waits for its end.
    obtain ⟨hnil, hcurrent⟩ := htidy.eq_nil_of_written hwritten
    rw [hnil, List.length_nil, Nat.add_zero] at hrequest htouched hnext
    have hdone : Done shape before.GivenUp request
        (before.share before.delivery.behind.length) next := by
      rcases htouched with hdone | hwaiting
      · exact hdone
      · exact absurd (share_current_eq_nil hcurrent _) hwaiting.current_ne
    have hpass : before.delivery.pass next rest =
        { before.delivery with
          behind := next :: before.delivery.behind, ahead := rest } :=
      if_pos hwritten
    rw [hpass]
    refine ⟨?_, hfront _ rfl ⟨?_, ?_⟩⟩
    · apply hstanding.behind.push
      · rwa [Nat.zero_add]
      · rwa [Nat.zero_add]
    · simp [hnil, Row]
    · simp only [hnil]
      exact hnext
  · have hpass : before.delivery.pass next rest =
        { before.delivery with
          touched := next :: before.delivery.touched, ahead := rest } :=
      if_neg hwritten
    rw [hpass]
    exact ⟨hstanding.behind,
      hfront _ rfl ⟨hseeking.touched.push hrequest htouched, hnext⟩⟩

/-- The end of a call makes every request with an entry in it due. -/
theorem Standing.finish (htidy : before.Tidy)
    (hstanding : before.Standing shape requests)
    (hphase : (∃ budget, before.delivery.phase = .offering budget ∧
        (table.wants before.delivery.table = false ∨ budget = 0)) ∨
      ∃ budget, before.delivery.phase = .drawing budget ∧
        before.delivery.ahead = []) :
    Standing shape requests
      { delivery := before.delivery.endWrite table
        calls := before.calls ++
          [⟨before.current, (table.finish before.delivery.table).1⟩]
        current := [] } := by
  set result := (table.finish before.delivery.table).1 with hresult
  set after : Chronicle σ E :=
    { delivery := before.delivery.endWrite table
      calls := before.calls ++ [⟨before.current, result⟩]
      current := [] } with hafter
  have hshare : ∀ owner, after.share owner = (before.share owner).close result :=
    share_finish before _ result
  have hgivenUp : ∀ cause, before.GivenUp cause → after.GivenUp cause := by
    rintro cause ⟨call, hmem, hnone⟩
    exact ⟨call, List.mem_append_left _ hmem, hnone⟩
  have hseeking : Seeking shape requests before := by
    have hbefore := hstanding.front
    rcases hphase with ⟨budget, hphase, _⟩ | ⟨budget, hphase, _⟩
    · rw [hphase] at hbefore
      exact hbefore.1
    · rwa [hphase] at hbefore
  have huntouched : ∀ owner request pending,
      Untouched request (before.share owner) pending →
        Untouched request (after.share owner) pending := by
    rintro owner request pending ⟨hfresh, hnone⟩
    rw [Untouched, hshare, hnone]
    exact ⟨hfresh, rfl⟩
  constructor
  · refine hstanding.behind.imp fun owner request pending _ _ hdone => ?_
    rw [hshare]
    exact (hdone.mono hgivenUp).close result
  · change Front shape requests after
      (.settling result before.delivery.touched.reverse)
    have hsame : after.delivery.written = before.delivery.written := rfl
    by_cases hwritten : before.delivery.written = 0
    · obtain ⟨hnil, hcurrent⟩ := htidy.eq_nil_of_written hwritten
      have hshares : after.share = before.share := by
        funext owner
        rw [hshare, Share.close_of_nil (share_current_eq_nil hcurrent owner)]
      rw [Front, hsame, if_pos hwritten, hnil]
      refine ⟨rfl, ⟨⟨[], result⟩, ?_, rfl, rfl⟩, ?_⟩
      · simp [hafter, hcurrent]
      · have hahead := hseeking.ahead
        rw [hnil, ← hshares] at hahead
        refine hahead.imp (fun request pending hopen => ?_) fun _ _ _ _ h => h
        exact hopen.imp_left fun hdone => hdone.mono hgivenUp
    · rw [Front, hsame, if_neg hwritten]
      constructor
      · refine hseeking.touched.imp fun owner request pending _ _ htouched => ?_
        rw [hshare]
        exact htouched.imp (fun hdone => (hdone.mono hgivenUp).close result)
          fun hwaiting => hwaiting.close result
      · rw [List.length_reverse]
        rcases hphase with ⟨budget, hphase, _⟩ | ⟨budget, hphase, hnil⟩
        · have hcurrent := hstanding.front
          rw [hphase] at hcurrent
          refine hseeking.ahead.imp (fun request pending hopen => ?_)
            fun owner request pending _ => huntouched owner request pending
          rw [hshare]
          exact hopen.imp (fun hdone => (hdone.mono hgivenUp).close result)
            fun hunder => hunder.close (hcurrent.2 hwritten) result
        · change Ahead requests after.share _ _ before.delivery.ahead
          rw [hnil]
          trivial

theorem Standing.draw {budget : Nat} {pending next : Pending}
    {rest : List Pending} (hlawful : shape.Lawful)
    (hstanding : before.Standing shape requests)
    (hphase : before.delivery.phase = .drawing budget)
    (hahead : before.delivery.ahead = pending :: rest)
    (hsight : Delivery.inspect shape pending = .ready next) :
    Standing shape requests
      { before with
        delivery := before.delivery.makeEntry table shape next rest budget
        current := before.current ++ [before.delivery.nextEntry shape next] } := by
  have hseeking : Seeking shape requests before := by
    have hbefore := hstanding.front
    rwa [hphase] at hbefore
  set entry := before.delivery.nextEntry shape next with hentry
  set after : Chronicle σ E :=
    { before with
      delivery := before.delivery.makeEntry table shape next rest budget
      current := before.current ++ [entry] } with hafter
  set here := before.delivery.behind.length + before.delivery.touched.length
    with hhere
  have howner : entry.owner = here := by
    simp [hentry, Delivery.nextEntry, Delivery.cursor, Delivery.left, hphase, hhere]
  have hself : after.share here = (before.share here).add entry := by
    rw [hafter, share_take, if_pos howner]
  have hother : ∀ owner, owner ≠ here → after.share owner = before.share owner := by
    intro owner hne
    rw [hafter, share_take, howner, if_neg hne.symm]
  have hrow := hseeking.ahead
  rw [hahead] at hrow
  obtain ⟨⟨request, hrequest, hopen⟩, hrest⟩ := hrow
  have hunder : UnderWay shape request (before.share here) pending := by
    rcases hopen with hdone | hunder
    · exact absurd hsight hdone.not_ready
    · exact hunder
  constructor
  · refine hstanding.behind.imp fun owner request pending _ hlt hdone => ?_
    rw [List.length_reverse] at hlt
    rw [hother owner (by omega)]
    exact hdone
  · refine ⟨⟨?_, ?_, ?_⟩, ?_⟩
    · refine hseeking.touched.imp fun owner request pending _ hlt htouched => ?_
      rw [List.length_reverse] at hlt
      rw [hother owner (by omega)]
      exact htouched
    · refine ⟨request, hrequest, Or.inr ?_⟩
      change UnderWay shape request (after.share here) _
      rw [hself]
      exact hunder.draw hlawful hsight rfl
    · refine hrest.imp fun owner request pending hle _ huntouched => ?_
      rw [hother owner (by omega)]
      exact huntouched
    · intro _
      change (after.share here).current ≠ []
      rw [hself]
      simp

theorem Standing.settle {result : Except StoreError Unit} {pending : Pending}
    {left : List Pending} (hstanding : before.Standing shape requests)
    (hphase : before.delivery.phase = .settling result (pending :: left)) :
    Standing shape requests
      { before with delivery :=
        { before.delivery with
          behind := pending.conclude result :: before.delivery.behind
          phase := .settling result left } } := by
  have hfront := hstanding.front
  rw [hphase, Front] at hfront
  by_cases hwritten : before.delivery.written = 0
  · rw [if_pos hwritten] at hfront
    exact absurd hfront.1 (List.cons_ne_nil _ _)
  · rw [if_neg hwritten] at hfront
    obtain ⟨⟨⟨request, hrequest, hended⟩, hleft⟩, hahead⟩ := hfront
    have hdone : Done shape before.GivenUp request
        (before.share before.delivery.behind.length) (pending.conclude result) := by
      rcases hended with hdone | ⟨hdue, hremaining⟩
      · exact hdone.conclude result
      · exact hdue.conclude hremaining
    constructor
    · apply hstanding.behind.push
      · rwa [Nat.zero_add]
      · rwa [Nat.zero_add]
    · change Front shape requests _ (.settling result left)
      rw [Front, if_neg hwritten]
      refine ⟨hleft, ?_⟩
      rw [List.length_cons] at hahead ⊢
      rwa [Nat.add_assoc, Nat.add_comm 1]

theorem Standing.afterWrite {result : Except StoreError Unit}
    (htidy : before.Tidy) (hstanding : before.Standing shape requests)
    (hphase : before.delivery.phase = .settling result []) :
    Standing shape requests
      { before with delivery := before.delivery.afterWrite result } := by
  have hfront := hstanding.front
  rw [hphase, Front] at hfront
  have hnil : before.delivery.touched = [] := by
    rw [Tidy, hphase] at htidy
    exact htidy.1
  by_cases hwritten : before.delivery.written = 0
  · rw [if_pos hwritten] at hfront
    have hafter : before.delivery.afterWrite result =
        { before.delivery with
          failure := before.delivery.failure <|>
            some (StoreError.afterNothing result)
          phase := .abandoning (StoreError.afterNothing result) } := by
      unfold Delivery.afterWrite
      rw [if_pos hwritten]
      cases result <;> rfl
    rw [hafter]
    exact ⟨hstanding.behind, hfront.2.givenUp, hfront.2.ahead⟩
  · rw [if_neg hwritten] at hfront
    unfold Delivery.afterWrite
    rw [if_neg hwritten]
    refine ⟨hstanding.behind, ?_, ?_⟩
    · rw [hnil]
      trivial
    · simp only [hnil]
      have hahead := hfront.ahead
      cases hrow : before.delivery.ahead with
      | nil => trivial
      | cons pending rest =>
          rw [hrow] at hahead
          obtain ⟨⟨request, hrequest, hstopped⟩, hrest⟩ := hahead
          refine ⟨⟨request, hrequest, ?_⟩, hrest⟩
          rcases hstopped with hdone | hdue
          · exact Or.inl (hdone.settleCurrent result)
          · exact hdue.settleCurrent

theorem Standing.abandon {cause : StoreError} {pending : Pending}
    {rest : List Pending} (htidy : before.Tidy)
    (hstanding : before.Standing shape requests)
    (hphase : before.delivery.phase = .abandoning cause)
    (hahead : before.delivery.ahead = pending :: rest) :
    Standing shape requests
      { before with delivery :=
        { before.delivery with
          behind := pending.failStorage cause :: before.delivery.behind
          ahead := rest } } := by
  have hfront := hstanding.front
  rw [hphase] at hfront
  have hcurrent : before.current = [] := by
    rw [Tidy, hphase] at htidy
    exact htidy.2.1
  have hrow := hfront.ahead
  rw [hahead] at hrow
  obtain ⟨⟨request, hrequest, hopen⟩, hrest⟩ := hrow
  have hdone : Done shape before.GivenUp request
      (before.share before.delivery.behind.length) (pending.failStorage cause) := by
    rcases hopen with hdone | hunder
    · exact hdone.conclude (.error cause)
    · exact hunder.giveUp (share_current_eq_nil hcurrent _) hfront.givenUp
  constructor
  · apply hstanding.behind.push
    · rwa [Nat.zero_add]
    · rwa [Nat.zero_add]
  · change Front shape requests _ before.delivery.phase
    rw [hphase]
    refine ⟨hfront.givenUp, ?_⟩
    exact Ahead.of_untouched hrest fun _ _ _ huntouched =>
      Or.inr huntouched.underWay

/-- Every move keeps the requests in their rows. -/
theorem Standing.move (hlawful : shape.Lawful)
    (hmove : Move table shape before later) (htidy : before.Tidy)
    (hstanding : before.Standing shape requests) :
    later.Standing shape requests := by
  have hfront := hstanding.front
  cases hmove with
  | seekEnd hphase hahead => exact ⟨hstanding.behind, hahead⟩
  | seekReady hphase hahead hsight => exact hstanding.seekReady hphase hahead hsight
  | pass hphase hahead hsight =>
      exact hstanding.pass hlawful htidy hphase hahead hsight
  | refresh hphase hadopt =>
      rw [hphase] at hfront
      refine ⟨hstanding.behind, ⟨hfront.touched, hfront.ahead⟩, ?_⟩
      intro hwritten
      rw [Tidy, hphase] at htidy
      exact absurd htidy.2.2 hwritten
  | wait hphase hadopt =>
      refine ⟨hstanding.behind, ?_⟩
      change Front shape requests _ before.delivery.phase
      rw [hphase] at hfront ⊢
      exact ⟨hfront.touched, hfront.ahead⟩
  | ask hphase hwants hbudget =>
      rw [hphase] at hfront
      exact ⟨hstanding.behind, hfront.1.touched, hfront.1.ahead⟩
  | finish hphase => exact hstanding.finish htidy hphase
  | draw hphase hahead hsight => exact hstanding.draw hlawful hphase hahead hsight
  | settle hphase => exact hstanding.settle hphase
  | afterWrite hphase => exact hstanding.afterWrite htidy hphase
  | abandon hphase hahead => exact hstanding.abandon htidy hphase hahead
  | abandonEnd hphase hahead => exact ⟨hstanding.behind, hahead⟩
  | stay hphase => exact hstanding

/-- Every request of the batch is done or not settled at all. -/
theorem Standing.row {chronicle : Chronicle σ E} (htidy : chronicle.Tidy)
    (hstanding : chronicle.Standing shape requests) :
    Row requests chronicle.share (Stance shape chronicle.GivenUp) 0
      chronicle.delivery.requests := by
  have huntouched : ∀ request share pending, Untouched request share pending →
      Stance shape chronicle.GivenUp request share pending :=
    fun _ _ _ huntouched => Open.stance (Or.inr huntouched.underWay)
  -- In every phase one row stands between the requests behind and ahead.
  have hjoin : ∀ middle,
      Row requests chronicle.share (Stance shape chronicle.GivenUp)
        chronicle.delivery.behind.length middle →
      Row requests chronicle.share (Stance shape chronicle.GivenUp)
        (chronicle.delivery.behind.length + middle.length)
        chronicle.delivery.ahead →
      Row requests chronicle.share (Stance shape chronicle.GivenUp) 0
        (chronicle.delivery.behind.reverse ++ middle ++
          chronicle.delivery.ahead) := by
    intro middle hmiddle hahead
    refine Row.append _ _ (Row.append _ _ ?_ ?_) ?_
    · exact hstanding.behind.imp fun _ _ _ _ _ hdone => Or.inl hdone
    · rwa [List.length_reverse, Nat.zero_add]
    · rwa [List.length_append, List.length_reverse, Nat.zero_add]
  have hseeking : Seeking shape requests chronicle →
      Row requests chronicle.share (Stance shape chronicle.GivenUp) 0
        (chronicle.delivery.behind.reverse ++
          chronicle.delivery.touched.reverse ++ chronicle.delivery.ahead) := by
    intro hrows
    refine hjoin _ (hrows.touched.imp fun _ _ _ _ _ h => h.stance) ?_
    rw [List.length_reverse]
    exact hrows.ahead.row (fun _ _ _ h => h.stance) huntouched
  have hfront := hstanding.front
  unfold Tidy at htidy
  unfold Delivery.requests
  cases hphase : chronicle.delivery.phase with
  | seeking | refreshing | drawing budget =>
      rw [hphase] at hfront
      simpa using hseeking hfront
  | offering budget =>
      rw [hphase] at hfront
      simpa using hseeking hfront.1
  | settling result left =>
      rw [hphase] at hfront htidy
      simp only [htidy.1, List.reverse_nil, List.append_nil]
      by_cases hwritten : chronicle.delivery.written = 0
      · rw [Front, if_pos hwritten] at hfront
        rw [hfront.1]
        exact hjoin [] trivial
          (hfront.2.ahead.row (fun _ _ _ h => h.stance) huntouched)
      · rw [Front, if_neg hwritten] at hfront
        exact hjoin left (hfront.row.imp fun _ _ _ _ _ h => h.stance)
          (hfront.ahead.row (fun _ _ _ h => h.stance) huntouched)
  | abandoning cause =>
      rw [hphase] at hfront htidy
      simp only [htidy.1, List.reverse_nil]
      rw [List.append_nil]
      exact hjoin [] trivial
        (hfront.ahead.row (fun _ _ _ h => h.stance) huntouched)
  | finished =>
      rw [hphase] at hfront htidy
      have hahead : chronicle.delivery.ahead = [] := hfront
      simp only [htidy.1, hahead, List.reverse_nil, List.append_nil]
      exact hstanding.behind.imp fun _ _ _ _ _ hdone => Or.inl hdone

theorem Standing.row_done {chronicle : Chronicle σ E} (htidy : chronicle.Tidy)
    (hstanding : chronicle.Standing shape requests)
    (hfinished : chronicle.delivery.isFinished = true) :
    Row requests chronicle.share (Done shape chronicle.GivenUp) 0
      chronicle.delivery.requests := by
  have hfront := hstanding.front
  have htouched := (htidy.eq_nil_of_isFinished hfinished).1
  unfold Delivery.isFinished at hfinished
  split at hfinished
  next hphase =>
    rw [hphase] at hfront
    have hahead : chronicle.delivery.ahead = [] := hfront
    simpa [Delivery.requests, hphase, htouched, hahead] using hstanding.behind
  next => contradiction

/-! ## Whole runs -/

/-- What every moment of a delivery of these requests has in common. -/
structure Regular (shape : Shape E) (requests : List Request)
    (chronicle : Chronicle σ E) : Prop where
  tidy : chronicle.Tidy
  order : chronicle.InOrder
  standing : chronicle.Standing shape requests
  length_eq : chronicle.delivery.requests.length = requests.length

theorem Regular.move (hlawful : shape.Lawful)
    (hmove : Move table shape before later)
    (hregular : before.Regular shape requests) : later.Regular shape requests where
  tidy := hregular.tidy.move hmove
  order := hregular.order.move hmove hregular.tidy
  standing := hregular.standing.move hlawful hmove hregular.tidy
  length_eq := by
    rw [← (hmove.requests_keep hregular.tidy).length_eq, hregular.length_eq]

theorem Regular.start (shape : Shape E) (writer : TableWriter σ)
    (requests : List Request) :
    Regular shape requests
      (writer.chronicle (requests.map Pending.fresh) : Chronicle σ E) where
  tidy := ⟨rfl, rfl, rfl⟩
  order := by
    constructor
    · exact List.Pairwise.nil
    · intro entry hmem
      simp [TableWriter.chronicle, handed] at hmem
    · intro entry hmem
      simp [TableWriter.chronicle, handed] at hmem
  standing := by
    refine ⟨trivial, trivial, ?_⟩
    exact Ahead.of_untouched (row_untouched_fresh requests 0 rfl)
      fun _ _ _ huntouched => Or.inr huntouched.underWay
  length_eq := by
    simp [TableWriter.chronicle, TableWriter.deliver, Delivery.requests]

theorem regular_after (table : Table σ E) (hlawful : shape.Lawful)
    (writer : TableWriter σ) (requests : List Request) (n : Nat) :
    Regular shape requests
      ((writer.chronicle (requests.map Pending.fresh)).after table shape n) :=
  after_move_induction table shape (Regular.start shape writer requests)
    (fun hmove hbefore => hbefore.move hlawful hmove) n

/-- What is known of one request at any moment. -/
theorem Regular.stance {chronicle : Chronicle σ E}
    (hregular : chronicle.Regular shape requests) {place : Nat}
    {request : Request} {pending : Pending}
    (hrequest : requests[place]? = some request)
    (hget : chronicle.delivery.requests[place]? = some pending) :
    Stance shape chronicle.GivenUp request (chronicle.share place) pending := by
  obtain ⟨other, hother, hstance⟩ :=
    (hregular.standing.row hregular.tidy).get hget
  rw [Nat.zero_add] at hother hstance
  rw [hrequest, Option.some.injEq] at hother
  exact hother ▸ hstance

/-- A delivery that has finished is done with every request. -/
theorem Regular.done {chronicle : Chronicle σ E}
    (hregular : chronicle.Regular shape requests)
    (hfinished : chronicle.delivery.isFinished = true) {place : Nat}
    {request : Request} {pending : Pending}
    (hrequest : requests[place]? = some request)
    (hget : chronicle.delivery.requests[place]? = some pending) :
    Done shape chronicle.GivenUp request (chronicle.share place) pending := by
  obtain ⟨other, hother, hdone⟩ :=
    (hregular.standing.row_done hregular.tidy hfinished).get hget
  rw [Nat.zero_add] at hother hdone
  rw [hrequest, Option.some.injEq] at hother
  exact hother ▸ hdone

end Chronicle

end MessageStore
