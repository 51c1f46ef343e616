import MessageStore.Proofs.PendingProgress
import Mathlib.Tactic

/-!
# The share of a request

The share of a request in a chronicle is the part of the record that is about
it: the calls that got entries of it, cut down to these entries, and its
entries in the call under way.  An inversion of the moves says which request a
move touches and how.  A delivery never turns back, so the entries
handed over stand in the order of their requests.  Hence what a table holds
is made up of one run for each request, the runs in the order of the batch.
-/

namespace MessageStore

namespace StoreCall

variable {E : Type}

/-- The call cut down to the entries of one request. -/
def of (owner : Nat) (call : StoreCall E) : StoreCall E :=
  ⟨call.handed.filter (·.owner = owner), call.result⟩

/-- The entries that the call made the table keep. -/
def stored (call : StoreCall E) : List (HandedEntry E) :=
  match call.result with
  | .ok () => call.handed
  | .error _ => []

theorem stored_of_ok {call : StoreCall E} (hok : call.result = .ok ()) :
    call.stored = call.handed := by
  simp [stored, hok]

theorem stored_of_error {call : StoreCall E} {cause : StoreError}
    (herror : call.result = .error cause) : call.stored = [] := by
  simp [stored, herror]

theorem stored_sublist (call : StoreCall E) :
    call.stored.Sublist call.handed := by
  unfold stored
  cases call.result with
  | ok _ => exact List.Sublist.refl _
  | error _ => exact List.nil_sublist _

theorem stored_of (owner : Nat) (call : StoreCall E) :
    (call.of owner).stored = call.stored.filter (·.owner = owner) := by
  unfold stored of
  cases call.result <;> simp

end StoreCall

/-- What a chronicle records of one request. -/
structure Share (E : Type) where
  past : List (StoreCall E) := []
  current : List (HandedEntry E) := []

namespace Share

variable {E : Type}

def handed (share : Share E) : List (HandedEntry E) :=
  share.past.flatMap StoreCall.handed ++ share.current

def stored (share : Share E) : List (HandedEntry E) :=
  share.past.flatMap StoreCall.stored

/-- No call that got entries of the request has failed. -/
def Clean (share : Share E) : Prop :=
  ∀ call ∈ share.past, call.result = .ok ()

def add (entry : HandedEntry E) (share : Share E) : Share E :=
  { share with current := share.current ++ [entry] }

def close (result : Except StoreError Unit) (share : Share E) : Share E :=
  match share.current with
  | [] => share
  | entry :: rest => { past := share.past ++ [⟨entry :: rest, result⟩] }

@[simp] theorem add_past (entry : HandedEntry E) (share : Share E) :
    (share.add entry).past = share.past := rfl

@[simp] theorem add_current (entry : HandedEntry E) (share : Share E) :
    (share.add entry).current = share.current ++ [entry] := rfl

@[simp] theorem handed_add (entry : HandedEntry E) (share : Share E) :
    (share.add entry).handed = share.handed ++ [entry] := by
  simp [handed]

theorem close_of_nil {share : Share E} (hcurrent : share.current = [])
    (result : Except StoreError Unit) : share.close result = share := by
  simp [close, hcurrent]

theorem close_of_ne_nil {share : Share E} (hcurrent : share.current ≠ [])
    (result : Except StoreError Unit) :
    share.close result =
      { past := share.past ++ [⟨share.current, result⟩] } := by
  cases hentries : share.current with
  | nil => exact absurd hentries hcurrent
  | cons entry rest => simp [close, hentries]

@[simp] theorem handed_close (result : Except StoreError Unit) (share : Share E) :
    (share.close result).handed = share.handed := by
  cases hcurrent : share.current <;> simp [close, handed, hcurrent]

/-- As long as no call has failed, everything handed over is stored, except in
the call under way. -/
theorem Clean.stored_append_current {share : Share E} (hclean : share.Clean) :
    share.stored ++ share.current = share.handed := by
  unfold stored handed
  congr 1
  apply List.flatMap_congr
  intro call hmem
  exact StoreCall.stored_of_ok (hclean call hmem)

end Share

namespace Delivery

variable {σ : Type}

/-- The requests in front of the one that the delivery stands at. -/
def passed (delivery : Delivery σ) : List Pending :=
  delivery.behind.reverse ++ delivery.left ++ delivery.touched.reverse

theorem requests_eq (delivery : Delivery σ) :
    delivery.requests = delivery.passed ++ delivery.ahead := rfl

theorem passed_length (delivery : Delivery σ) : delivery.passed.length = delivery.cursor := by
  simp [passed, cursor, Nat.add_assoc]

end Delivery

namespace Chronicle

variable {σ E : Type}

/-- What the chronicle records of the request at a place of the batch. -/
def share (chronicle : Chronicle σ E) (owner : Nat) : Share E where
  past := (chronicle.calls.map (StoreCall.of owner)).filter
    fun call => !call.handed.isEmpty
  current := chronicle.current.filter (·.owner = owner)

def stored (chronicle : Chronicle σ E) : List (HandedEntry E) :=
  chronicle.calls.flatMap StoreCall.stored

theorem share_current_eq_nil {chronicle : Chronicle σ E}
    (hcurrent : chronicle.current = []) (owner : Nat) :
    (chronicle.share owner).current = [] := by
  simp [share, hcurrent]

theorem share_take (chronicle : Chronicle σ E) (delivery : Delivery σ)
    (entry : HandedEntry E) (owner : Nat) :
    share { chronicle with delivery, current := chronicle.current ++ [entry] } owner =
      if entry.owner = owner then (chronicle.share owner).add entry
      else chronicle.share owner := by
  by_cases howner : entry.owner = owner
  · simp [share, Share.add, howner]
  · simp [share, howner]

theorem share_finish (chronicle : Chronicle σ E) (delivery : Delivery σ)
    (result : Except StoreError Unit) (owner : Nat) :
    share { delivery, calls := chronicle.calls ++ [⟨chronicle.current, result⟩] } owner =
      (chronicle.share owner).close result := by
  unfold share Share.close StoreCall.of
  cases hcurrent : chronicle.current.filter (·.owner = owner) with
  | nil => simp [hcurrent]
  | cons entry rest => simp [hcurrent]

private theorem flatMap_filter_isEmpty {calls : List (StoreCall E)}
    (entries : StoreCall E → List (HandedEntry E))
    (hentries : ∀ call, call.handed = [] → entries call = []) :
    (calls.filter fun call => !call.handed.isEmpty).flatMap entries =
      calls.flatMap entries := by
  induction calls with
  | nil => rfl
  | cons call calls ih =>
      cases hhanded : call.handed with
      | nil => simp [hhanded, hentries call hhanded, ih]
      | cons entry rest => simp [hhanded, ih]

theorem share_handed (chronicle : Chronicle σ E) (owner : Nat) :
    (chronicle.share owner).handed =
      chronicle.handed.filter (·.owner = owner) := by
  unfold Share.handed share handed
  rw [flatMap_filter_isEmpty StoreCall.handed (fun _ h => h), List.filter_append,
    List.filter_flatMap, List.flatMap_map]
  rfl

theorem share_stored (chronicle : Chronicle σ E) (owner : Nat) :
    (chronicle.share owner).stored =
      chronicle.stored.filter (·.owner = owner) := by
  have hempty : ∀ call : StoreCall E, call.handed = [] → call.stored = [] := by
    intro call hnil
    exact List.sublist_nil.mp (hnil ▸ call.stored_sublist)
  unfold Share.stored share stored
  rw [flatMap_filter_isEmpty StoreCall.stored hempty, List.filter_flatMap,
    List.flatMap_map]
  apply List.flatMap_congr
  intro call _
  exact call.stored_of owner

theorem stored_sublist_handed (chronicle : Chronicle σ E) :
    chronicle.stored.Sublist chronicle.handed := by
  have hcalls : chronicle.stored.Sublist
      (chronicle.calls.flatMap StoreCall.handed) := by
    unfold stored
    induction chronicle.calls with
    | nil => exact List.Sublist.refl _
    | cons call calls ih =>
        simp only [List.flatMap_cons]
        exact call.stored_sublist.append ih
  exact hcalls.trans (List.sublist_append_left _ _)

/-! ## The requests of the batch -/

variable {table : Table σ E} {shape : Shape E} {before later : Chronicle σ E}

/-- Only a call under way has entries or has passed requests, and it passes
none before its first entry. -/
def Tidy (chronicle : Chronicle σ E) : Prop :=
  match chronicle.delivery.phase with
  | .offering _ | .drawing _ =>
    chronicle.delivery.written = chronicle.current.length ∧
      (chronicle.delivery.written = 0 → chronicle.delivery.touched = [])
  | .settling _ _ =>
    chronicle.delivery.touched = [] ∧ chronicle.current = []
  | _ =>
    chronicle.delivery.touched = [] ∧ chronicle.current = [] ∧
      chronicle.delivery.written = 0

theorem Tidy.eq_nil_of_written {chronicle : Chronicle σ E}
    (htidy : chronicle.Tidy) (hwritten : chronicle.delivery.written = 0) :
    chronicle.delivery.touched = [] ∧ chronicle.current = [] := by
  unfold Tidy at htidy
  cases hphase : chronicle.delivery.phase with
  | offering budget | drawing budget =>
      rw [hphase] at htidy
      refine ⟨htidy.2 hwritten, List.length_eq_zero_iff.mp ?_⟩
      rw [← htidy.1, hwritten]
  | settling result left =>
      rw [hphase] at htidy
      exact htidy
  | seeking | refreshing | abandoning cause | finished =>
      rw [hphase] at htidy
      exact ⟨htidy.1, htidy.2.1⟩

theorem Tidy.eq_nil_of_isFinished {chronicle : Chronicle σ E}
    (htidy : chronicle.Tidy) (hfinished : chronicle.delivery.isFinished = true) :
    chronicle.delivery.touched = [] ∧ chronicle.current = [] := by
  unfold Delivery.isFinished at hfinished
  split at hfinished
  next hphase =>
    rw [Tidy, hphase] at htidy
    exact ⟨htidy.1, htidy.2.1⟩
  next => contradiction

theorem Tidy.move (hmove : Move table shape before later)
    (htidy : before.Tidy) : later.Tidy := by
  cases hmove with
  | seekEnd hphase hahead =>
      simpa [Tidy, hphase] using htidy
  | seekReady hphase hahead hsight =>
      simpa [Tidy, hphase] using htidy
  | @pass pending next rest hphase hahead hsight =>
      unfold Tidy at htidy ⊢
      rcases hphase with hphase | ⟨budget, hphase⟩
      · rw [hphase] at htidy
        simpa [hphase, Delivery.pass, htidy.2.2] using htidy
      · rw [hphase] at htidy
        by_cases hwritten : before.delivery.written = 0
        · simpa [hphase, Delivery.pass, hwritten] using htidy
        · simpa [hphase, Delivery.pass, hwritten] using htidy.1
  | refresh hphase hadopt =>
      simp only [Tidy, hphase] at htidy ⊢
      obtain ⟨htouched, hcurrent, hwritten⟩ := htidy
      simp [htouched, hcurrent, hwritten]
  | wait hphase hadopt =>
      simpa [Tidy, hphase] using htidy
  | ask hphase hwants hbudget =>
      simpa [Tidy, hphase] using htidy
  | finish hphase =>
      simp [Tidy, Delivery.endWrite]
  | draw hphase hahead hsight =>
      simp only [Tidy, hphase] at htidy
      simp [Tidy, Delivery.makeEntry, htidy.1]
  | settle hphase =>
      simpa [Tidy, hphase] using htidy
  | afterWrite hphase =>
      simp only [Tidy, hphase] at htidy
      by_cases hwritten : before.delivery.written = 0
      · simpa [Tidy, Delivery.afterWrite, hwritten] using htidy
      · simpa [Tidy, Delivery.afterWrite, hwritten] using htidy
  | abandon hphase hahead =>
      simpa [Tidy, hphase] using htidy
  | abandonEnd hphase hahead =>
      simpa [Tidy, hphase] using htidy
  | stay hphase => exact htidy

theorem tidy_after (table : Table σ E) (shape : Shape E) (writer : TableWriter σ)
    (batch : List Pending) (n : Nat) :
    ((writer.chronicle batch).after table shape n).Tidy :=
  after_move_induction table shape ⟨rfl, rfl, rfl⟩ (fun hmove htidy => htidy.move hmove) n

/-- What a move does to the one request that it changes, and what it hands over
of it. -/
inductive Touch (shape : Shape E) (delivery : Delivery σ) (front : List Pending)
    (pending : Pending) : Pending → List (HandedEntry E) → Prop
  | look {next : Pending} (hhand : delivery.passed = front)
      (hsight : Delivery.inspect shape pending = .ready next) :
      Touch shape delivery front pending next []
  | pass {next : Pending} (hhand : delivery.passed = front)
      (hsight : Delivery.inspect shape pending = .passed next) :
      Touch shape delivery front pending next []
  | draw {next : Pending} (hhand : delivery.passed = front)
      (hsight : Delivery.inspect shape pending = .ready next) :
      Touch shape delivery front pending
        (next.take.2.record delivery.sequencer.stamp.1) [delivery.nextEntry shape next]
  | conclude (hleft : pending ∈ delivery.left) (result : Except StoreError Unit) :
      Touch shape delivery front pending (pending.conclude result) []
  | settleCurrent (hhand : delivery.passed = front) (result : Except StoreError Unit) :
      Touch shape delivery front pending (Delivery.settleCurrent result pending) []
  | abandon (cause : StoreError) :
      Touch shape delivery front pending (pending.failStorage cause) []

/-- A move touches at most one request. -/
theorem Move.touch_cases (hmove : Move table shape before later) (htidy : before.Tidy) :
    (later.delivery.requests = before.delivery.requests ∧ later.handed = before.handed) ∨
      ∃ front pending next rest made,
        before.delivery.requests = front ++ pending :: rest ∧
          later.delivery.requests = front ++ next :: rest ∧
          later.handed = before.handed ++ made ∧
          (∀ entry ∈ made, entry.owner = front.length) ∧
          Touch shape before.delivery front pending next made := by
  cases hmove with
  | seekEnd hphase | refresh hphase | wait hphase | ask hphase | abandonEnd hphase =>
      exact Or.inl ⟨by simp [Delivery.requests, hphase], rfl⟩
  | finish hphase =>
      refine Or.inl ⟨?_, handed_finish _ _ _⟩
      rcases hphase with ⟨budget, hphase, _⟩ | ⟨budget, hphase, _⟩ <;>
        simp [Delivery.requests, Delivery.endWrite, hphase]
  | stay hphase => exact Or.inl ⟨rfl, rfl⟩
  | @seekReady pending next rest hphase hahead hsight =>
      refine Or.inr ⟨before.delivery.passed, pending, next, rest, [], ?_, ?_,
        (List.append_nil _).symm, List.forall_mem_nil _, .look rfl hsight⟩
      · rw [Delivery.requests_eq, hahead]
      · simp [Delivery.requests, Delivery.passed, Delivery.left, hphase]
  | @pass pending next rest hphase hahead hsight =>
      have hnil := fun hwritten => (htidy.eq_nil_of_written hwritten).1
      refine Or.inr ⟨before.delivery.passed, pending, next, rest, [], ?_, ?_,
        (List.append_nil _).symm, List.forall_mem_nil _, .pass rfl hsight⟩
      · rw [Delivery.requests_eq, hahead]
      · by_cases hwritten : before.delivery.written = 0
        · rcases hphase with hphase | ⟨budget, hphase⟩ <;>
            simp [Delivery.requests, Delivery.passed, Delivery.left, Delivery.pass, hphase,
              hwritten, hnil hwritten]
        · rcases hphase with hphase | ⟨budget, hphase⟩ <;>
            simp [Delivery.requests, Delivery.passed, Delivery.left, Delivery.pass, hphase,
              hwritten]
  | @draw budget pending next rest hphase hahead hsight =>
      refine Or.inr ⟨before.delivery.passed, pending, _, rest, _, ?_, ?_,
        handed_take _ _ _, ?_, .draw rfl hsight⟩
      · rw [Delivery.requests_eq, hahead]
      · simp [Delivery.requests, Delivery.passed, Delivery.left, Delivery.makeEntry, hphase]
      · intro entry hmem
        rw [List.mem_singleton.mp hmem, Delivery.passed_length]
        rfl
  | @settle result pending left hphase =>
      refine Or.inr ⟨before.delivery.behind.reverse, pending, pending.conclude result,
        left ++ before.delivery.touched.reverse ++ before.delivery.ahead, [], ?_, ?_,
        (List.append_nil _).symm, List.forall_mem_nil _, .conclude ?_ result⟩
      · simp [Delivery.requests, hphase]
      · simp [Delivery.requests]
      · simp [Delivery.left, hphase]
  | @afterWrite result hphase =>
      by_cases hwritten : before.delivery.written = 0
      · exact Or.inl
          ⟨by simp [Delivery.requests, Delivery.afterWrite, hphase, hwritten], rfl⟩
      · cases hahead : before.delivery.ahead with
        | nil =>
            exact Or.inl
              ⟨by simp [Delivery.requests, Delivery.afterWrite, hphase, hwritten, hahead], rfl⟩
        | cons pending rest =>
            refine Or.inr ⟨before.delivery.passed, pending,
              Delivery.settleCurrent result pending, rest, [], ?_, ?_,
              (List.append_nil _).symm, List.forall_mem_nil _, .settleCurrent rfl result⟩
            · rw [Delivery.requests_eq, hahead]
            · simp [Delivery.requests, Delivery.passed, Delivery.left, Delivery.afterWrite,
                hphase, hwritten, hahead]
  | @abandon cause pending rest hphase hahead =>
      have hnil : before.delivery.touched = [] := by
        simp only [Tidy, hphase] at htidy
        exact htidy.1
      refine Or.inr ⟨before.delivery.behind.reverse, pending, pending.failStorage cause, rest, [],
        ?_, ?_, (List.append_nil _).symm, List.forall_mem_nil _, .abandon cause⟩
      · simp [Delivery.requests, hphase, hahead, hnil]
      · simp [Delivery.requests, hphase, hnil]

theorem Touch.keeps {delivery : Delivery σ} {front : List Pending} {pending next : Pending}
    {made : List (HandedEntry E)} (htouch : Touch shape delivery front pending next made) :
    Pending.Keeps pending next := by
  cases htouch with
  | look hhand hsight => exact Pending.keeps_ready hsight
  | pass hhand hsight => exact Pending.keeps_passed hsight
  | draw hhand hsight =>
      intro outcome hsome
      rw [(Pending.inspect_ready hsight).1] at hsome
      contradiction
  | conclude hleft result => exact pending.keeps_conclude result
  | settleCurrent hhand result => exact pending.keeps_settleCurrent result
  | abandon cause => exact pending.keeps_settle _

theorem Touch.label_eq {delivery : Delivery σ} {front : List Pending} {pending next : Pending}
    {made : List (HandedEntry E)} (htouch : Touch shape delivery front pending next made) :
    next.label = pending.label := by
  cases htouch with
  | look hhand hsight => exact Pending.label_ready hsight
  | pass hhand hsight => exact Pending.label_passed hsight
  | draw hhand hsight =>
      obtain ⟨-, rfl, -⟩ := Pending.inspect_ready hsight
      simp [Pending.label, Pending.record]
  | conclude hleft result => exact pending.label_conclude result
  | settleCurrent hhand result => exact pending.label_settleCurrent result
  | abandon cause => exact pending.label_settle _

theorem Move.requests_keep (hmove : Move table shape before later)
    (htidy : before.Tidy) :
    List.Forall₂ Pending.Keeps before.delivery.requests
      later.delivery.requests := by
  rcases hmove.touch_cases htidy with
    ⟨heq, -⟩ | ⟨front, pending, next, rest, made, hbefore, hlater, -, -, htouch⟩
  · rw [heq]
    exact Pending.forall₂_keeps_refl _
  · rw [hbefore, hlater]
    exact htouch.keeps.forall₂_append_cons front rest

theorem Move.requests_label (hmove : Move table shape before later)
    (htidy : before.Tidy) :
    later.delivery.requests.map Pending.label =
      before.delivery.requests.map Pending.label := by
  rcases hmove.touch_cases htidy with
    ⟨heq, -⟩ | ⟨front, pending, next, rest, made, hbefore, hlater, -, -, htouch⟩
  · rw [heq]
  · rw [hbefore, hlater, List.map_append, List.map_append, List.map_cons, List.map_cons,
      htouch.label_eq]

/-! ## The order of the requests -/

theorem requests_length (delivery : Delivery σ) :
    delivery.requests.length = delivery.cursor + delivery.ahead.length := by
  rw [Delivery.requests_eq, List.length_append, Delivery.passed_length]

theorem Move.cursor_le (hmove : Move table shape before later) :
    before.delivery.cursor ≤ later.delivery.cursor := by
  cases hmove with
  | @pass pending next rest hphase hahead hsight =>
      unfold Delivery.cursor Delivery.left
      by_cases hwritten : before.delivery.written = 0
      · simp only [Delivery.pass, hwritten, if_true, List.length_cons]
        omega
      · simp only [Delivery.pass, hwritten, if_false, List.length_cons]
        omega
  | finish hphase =>
      rcases hphase with ⟨budget, hphase, _⟩ | ⟨budget, hphase, _⟩ <;>
        simp [Delivery.cursor, Delivery.left, Delivery.endWrite, hphase]
  | settle hphase =>
      simp [Delivery.cursor, Delivery.left, hphase]
      omega
  | afterWrite hphase =>
      by_cases hwritten : before.delivery.written = 0
      · simp [Delivery.cursor, Delivery.left, Delivery.afterWrite, hwritten, hphase]
      · simp [Delivery.cursor, Delivery.left, Delivery.afterWrite, hwritten, hphase]
  | draw hphase hahead hsight =>
      simp [Delivery.cursor, Delivery.left, Delivery.makeEntry, hphase]
  | seekEnd hphase | seekReady hphase | refresh hphase | wait hphase
  | ask hphase | abandon hphase | abandonEnd hphase | stay hphase =>
      simp [Delivery.cursor, Delivery.left, hphase]

/-- The entries stand in the order of their requests, none beyond the request
that the delivery stands at. -/
structure InOrder (chronicle : Chronicle σ E) : Prop where
  sorted : chronicle.handed.Pairwise fun first second =>
    first.owner ≤ second.owner
  le_cursor : ∀ entry ∈ chronicle.handed, entry.owner ≤ chronicle.delivery.cursor
  lt_length : ∀ entry ∈ chronicle.handed,
    entry.owner < chronicle.delivery.requests.length

/-- A move hands over nothing or an entry of the request at hand. -/
theorem Move.handed_cases (hmove : Move table shape before later) :
    later.handed = before.handed ∨
      ∃ pending rest entry, before.delivery.ahead = pending :: rest ∧
        entry.owner = before.delivery.cursor ∧
        later.handed = before.handed ++ [entry] := by
  cases hmove with
  | @draw budget pending next rest hphase hahead hsight =>
      exact Or.inr ⟨pending, rest, before.delivery.nextEntry shape next, hahead,
        rfl, handed_take _ _ _⟩
  | finish hphase => exact Or.inl (handed_finish _ _ _)
  | seekEnd | seekReady | pass | refresh | wait | ask | settle | afterWrite
  | abandon | abandonEnd | stay => exact Or.inl rfl

theorem InOrder.move (hmove : Move table shape before later)
    (htidy : before.Tidy) (horder : before.InOrder) : later.InOrder := by
  have hcursor := hmove.cursor_le
  have hlength := (hmove.requests_keep htidy).length_eq
  rcases hmove.handed_cases with heq | ⟨pending, rest, entry, hahead, howner, hlater⟩
  · constructor
    · rw [heq]
      exact horder.sorted
    · intro entry hmem
      rw [heq] at hmem
      exact (horder.le_cursor entry hmem).trans hcursor
    · intro entry hmem
      rw [heq] at hmem
      rw [← hlength]
      exact horder.lt_length entry hmem
  · have hinside : before.delivery.cursor < before.delivery.requests.length := by
      rw [requests_length, hahead, List.length_cons]
      omega
    constructor
    · rw [hlater]
      refine List.pairwise_append.mpr
        ⟨horder.sorted, List.pairwise_singleton _ _, ?_⟩
      intro old hmem new hnew
      rw [List.mem_singleton.mp hnew, howner]
      exact horder.le_cursor old hmem
    · intro other hmem
      rw [hlater] at hmem
      rcases List.mem_append.mp hmem with hold | hnew
      · exact (horder.le_cursor other hold).trans hcursor
      · rw [List.mem_singleton.mp hnew, howner]
        exact hcursor
    · intro other hmem
      rw [hlater] at hmem
      rw [← hlength]
      rcases List.mem_append.mp hmem with hold | hnew
      · exact horder.lt_length other hold
      · rw [List.mem_singleton.mp hnew, howner]
        exact hinside

private theorem filter_append_filter_of_sorted (entries : List (HandedEntry E))
    (hsorted : entries.Pairwise fun first second => first.owner ≤ second.owner)
    (bound : Nat) (hbound : ∀ entry ∈ entries, entry.owner ≤ bound) :
    entries.filter (·.owner < bound) ++ entries.filter (·.owner = bound) =
      entries := by
  induction entries with
  | nil => rfl
  | cons entry rest ih =>
      rw [List.pairwise_cons] at hsorted
      have hrest := ih hsorted.2 fun other hmem =>
        hbound other (List.mem_cons_of_mem _ hmem)
      by_cases hlt : entry.owner < bound
      · have hne : entry.owner ≠ bound := by omega
        simpa [hlt, hne] using hrest
      · have heq : entry.owner = bound := by
          have := hbound entry List.mem_cons_self
          omega
        -- From here on every entry belongs to the last request.
        have hnone : rest.filter (·.owner < bound) = [] := by
          apply List.filter_eq_nil_iff.mpr
          intro other hmem
          have hle := hsorted.1 other hmem
          simp only [decide_eq_true_eq]
          omega
        rw [hnone, List.nil_append] at hrest
        simp [heq, hnone, hrest]

/-- Entries in the order of their requests are the runs of these requests, one
after the other. -/
theorem eq_flatMap_filter_owner (count : Nat) (entries : List (HandedEntry E))
    (hsorted : entries.Pairwise fun first second => first.owner ≤ second.owner)
    (hbound : ∀ entry ∈ entries, entry.owner < count) :
    entries = (List.range count).flatMap
      fun owner => entries.filter (·.owner = owner) := by
  induction count generalizing entries with
  | zero =>
      cases entries with
      | nil => rfl
      | cons entry rest =>
          have := hbound entry List.mem_cons_self
          omega
  | succ count ih =>
      have hsplit := filter_append_filter_of_sorted entries hsorted count
        fun entry hmem => Nat.le_of_lt_succ (hbound entry hmem)
      have hfront := ih (entries.filter (·.owner < count)) (hsorted.filter _)
        fun entry hmem => by simpa using (List.mem_filter.mp hmem).2
      have hruns : (List.range count).flatMap
            (fun owner =>
              (entries.filter (·.owner < count)).filter (·.owner = owner)) =
          (List.range count).flatMap
            fun owner => entries.filter (·.owner = owner) := by
        apply List.flatMap_congr
        intro owner hmem
        have hlt := List.mem_range.mp hmem
        rw [List.filter_filter]
        apply List.filter_congr
        intro entry _
        by_cases howner : entry.owner = owner
        · simp [howner, hlt]
        · simp [howner]
      rw [List.range_succ, List.flatMap_append, ← hruns, ← hfront,
        List.flatMap_singleton]
      exact hsplit.symm

/-- What was stored is one run for each request, in the order of the batch. -/
theorem InOrder.stored_eq {chronicle : Chronicle σ E} (horder : chronicle.InOrder) :
    chronicle.stored =
      (List.range chronicle.delivery.requests.length).flatMap
        fun owner => (chronicle.share owner).stored := by
  have hsublist := chronicle.stored_sublist_handed
  have hruns := eq_flatMap_filter_owner chronicle.delivery.requests.length
    chronicle.stored (horder.sorted.sublist hsublist)
    fun entry hmem => horder.lt_length entry (hsublist.subset hmem)
  refine hruns.trans ?_
  apply List.flatMap_congr
  intro owner _
  exact (chronicle.share_stored owner).symm

end Chronicle

end MessageStore
