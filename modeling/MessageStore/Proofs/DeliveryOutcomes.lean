import MessageStore.Proofs.BatchesInTurn
import MessageStore.Proofs.DeliveryLedger
import Mathlib.Tactic

/-!
# What publishers are told

Two promises of a writer.  A request that is acknowledged stands in the table
in full, as one run, and its receipt says where; a request that failed for
storage has left a proper part of its entries.  And a failing call fails the
requests with an entry in it, no others: requests that are refused or skipped
are told so even in the middle of a failing call.
-/

namespace MessageStore

theorem Shape.draft_eq_error_iff {E : Type} (shape : Shape E) (request : Request)
    (error : WriteError) :
    shape.draft request = .error error ↔
      request.payloads = [] ∧ shape.onEmpty request = .error error := by
  unfold draft
  by_cases hpayloads : request.payloads = []
  · rw [if_pos hpayloads]
    cases hempty : shape.onEmpty request with
    | error other => simp [hpayloads]
    | ok empty => cases empty <;> simp
  · simp [hpayloads]

/-- The contents of the entries of a request that a table accepts: its payloads
in order.  In the message table a request without payloads leaves one entry
that has none. -/
def TableKind.whole : TableKind → Request → List (Option Bytes)
  | .message, request =>
    if request.payloads = [] then [none] else request.payloads.map some
  | .payload, request => request.payloads.map some

theorem TableKind.whole_eq {kind : TableKind} {request : Request}
    {contents : List (Option Bytes)}
    (hdraft : kind.shape.draft request = .ok contents) :
    contents = kind.whole request := by
  unfold Shape.draft at hdraft
  by_cases hpayloads : request.payloads = []
  · rw [if_pos hpayloads] at hdraft
    cases kind with
    | message =>
        simp only [TableKind.shape, Shape.message] at hdraft
        rw [whole, if_pos hpayloads]
        by_cases htransactional : request.isTransactional = true
        · simp only [htransactional, if_true, Except.ok.injEq] at hdraft
          exact hdraft.symm
        · simp [htransactional] at hdraft
    | payload =>
        simp only [TableKind.shape, Shape.payload, Except.ok.injEq] at hdraft
        rw [whole, hpayloads]
        exact hdraft.symm
  · rw [if_neg hpayloads, Except.ok.injEq] at hdraft
    cases kind with
    | message => rw [whole, if_neg hpayloads, hdraft]
    | payload => rw [whole, hdraft]

/-- The message table refuses a request whose source ends at the first poll if it
belongs to no transaction. -/
def TableKind.Refuses (kind : TableKind) (request : Request) : Prop :=
  kind = .message ∧ request.poll.1 = none ∧ request.writePointer = none

theorem TableKind.Refuses.draft_eq {kind : TableKind} {request : Request}
    (hrefuses : kind.Refuses request) :
    kind.shape.draft request = .error (.invalidRequest request.topic
      "only transactional messages can have an empty payload") := by
  obtain ⟨rfl, hpoll, hpointer⟩ := hrefuses
  rw [Shape.draft, if_pos (request.poll_fst_eq_none_iff.mp hpoll)]
  simp [shape, Shape.message, Request.isTransactional, hpointer]

theorem TableKind.refuses_of_draft {kind : TableKind} {request : Request}
    {error : WriteError} (hdraft : kind.shape.draft request = .error error) :
    kind.Refuses request := by
  obtain ⟨hpayloads, hempty⟩ := (kind.shape.draft_eq_error_iff _ _).mp hdraft
  cases kind with
  | message =>
      refine ⟨rfl, request.poll_fst_eq_none_iff.mpr hpayloads, ?_⟩
      by_contra hpointer
      rw [← ne_eq, ← Option.isSome_iff_ne_none] at hpointer
      simp [shape, Shape.message, Request.isTransactional, hpointer] at hempty
  | payload => cases hempty

/-- The entry holds this content of a request: it has the topic and the write
pointer of the request, and a message says whether there is a pointer. -/
def TableKind.Carries : (kind : TableKind) → Request → Option Bytes → kind.Entry → Prop
  | .message, request, content, entry =>
    entry.topic = request.topic ∧
      entry.transactional = request.writePointer.isSome ∧
      entry.writePointer = request.writePointer ∧ entry.payload = content
  | .payload, request, content, entry =>
    entry.topic = request.topic ∧ entry.writePointer = request.writePointer ∧
      some entry.payload = content

theorem TableKind.carries_entry {kind : TableKind} {request : Request}
    {content : Option Bytes} (hmem : content ∈ kind.whole request)
    (position : Position) :
    kind.Carries request content (kind.shape.entry request content position) := by
  cases kind with
  | message => exact ⟨rfl, rfl, rfl, rfl⟩
  | payload =>
      obtain ⟨payload, _, rfl⟩ := List.mem_map.mp hmem
      exact ⟨rfl, rfl, rfl⟩

theorem Shape.Renders.carries {kind : TableKind} {request : Request}
    {contents : List (Option Bytes)} {entries : List kind.Entry}
    (hrenders : kind.shape.Renders request contents entries)
    (hwhole : ∀ content ∈ contents, content ∈ kind.whole request) :
    List.Forall₂ (kind.Carries request) contents entries := by
  induction hrenders with
  | nil => exact .nil
  | @cons content entry contents entries hentry _ ih =>
      refine .cons ?_ (ih fun other hother => hwhole other (.tail _ hother))
      rw [hentry]
      exact TableKind.carries_entry (hwhole content (.head _)) _

theorem Pending.Progress.contents_eq_whole {kind : TableKind} {request : Request}
    {handed : List (HandedEntry kind.Entry)} {pending : Pending}
    (hprogress : pending.Progress kind.shape request handed)
    (hhanded : handed ≠ []) :
    kind.shape.contents request = kind.whole request := by
  have hle := hprogress.length_le
  have hpos := List.length_pos_iff.mpr hhanded
  cases hdraft : kind.shape.draft request with
  | error error =>
      rw [Shape.contents, hdraft, List.length_nil] at hle
      omega
  | ok contents => rw [Shape.contents, hdraft, TableKind.whole_eq hdraft]

/-- The entries are those of the whole request, and the receipt tells where
they are. -/
structure IsAcknowledged (kind : TableKind) (request : Request)
    (held : List kind.Entry) (receipt : Receipt) : Prop where
  whole : List.Forall₂ (kind.Carries request) (kind.whole request) held
  receipt_eq : receipt =
    ⟨request.topic, held.length, held.head?.map TableEntry.position,
      held.getLast?.map TableEntry.position⟩

namespace Share

variable {E : Type}

/-- What the table keeps of the request. -/
def block (share : Share E) : List E :=
  share.stored.map HandedEntry.entry

/-- The last call with entries of the request has failed and those before have
not.  The table keeps what these got, which is not all of the request. -/
def IsCutShort {kind : TableKind} (share : Share kind.Entry) (request : Request)
    (cause : StoreError) : Prop :=
  ∃ before failing, share.past = before ++ [failing] ∧
    (∀ call ∈ before, call.result = .ok ()) ∧
    failing.result = .error cause ∧ failing.handed ≠ [] ∧
    share.block = (before.flatMap StoreCall.handed).map HandedEntry.entry ∧
    share.block.length < (kind.whole request).length ∧
    List.Forall₂ (kind.Carries request)
      ((kind.whole request).take share.block.length) share.block

end Share

namespace Chronicle

variable {σ E : Type}

theorem of_handed_eq_nil_iff (owner : Nat) (call : StoreCall E) :
    (call.of owner).handed = [] ↔ ∀ entry ∈ call.handed, entry.owner ≠ owner := by
  simp [StoreCall.of, List.filter_eq_nil_iff]

theorem mem_share_past {chronicle : Chronicle σ E} {owner : Nat}
    {call : StoreCall E} (hmem : call ∈ chronicle.calls) {entry : HandedEntry E}
    (hentry : entry ∈ call.handed) (howner : entry.owner = owner) :
    call.of owner ∈ (chronicle.share owner).past := by
  refine List.mem_filter.mpr ⟨List.mem_map_of_mem hmem, ?_⟩
  have hne : (call.of owner).handed ≠ [] := fun hnil =>
    (of_handed_eq_nil_iff owner call).mp hnil entry hentry howner
  simpa using hne

theorem share_past_handed_ne (chronicle : Chronicle σ E) (owner : Nat) :
    ∀ call ∈ (chronicle.share owner).past, call.handed ≠ [] := by
  intro call hmem
  have hne := (List.mem_filter.mp hmem).2
  simpa using hne

end Chronicle

/-- What a request is told is what the calls with its entries came to. -/
structure IsFair (kind : TableKind) (calls : List (StoreCall kind.Entry))
    (place : Nat) (request : Request) (outcome : Outcome) : Prop where
  own : ∃ count, List.Forall₂ (kind.Carries request)
    ((kind.whole request).take count)
    (((calls.flatMap StoreCall.handed).filter (·.owner = place)).map
      HandedEntry.entry)
  refused : kind.Refuses request →
    outcome = .error (.invalidRequest request.topic
      "only transactional messages can have an empty payload")
  skipped : kind = .payload → request.poll.1 = none →
    ∃ receipt, outcome = .ok receipt ∧ receipt.entries = 0
  failed : ∀ before failing after cause, calls = before ++ failing :: after →
    failing.result = .error cause →
    (∃ entry ∈ failing.handed, entry.owner = place) →
      outcome = .error (.storage request.topic cause) ∧
        ∀ call ∈ after, ∀ entry ∈ call.handed, entry.owner ≠ place
  succeeded : ¬kind.Refuses request →
    (∀ call ∈ calls, call.result ≠ .ok () →
      ∀ entry ∈ call.handed, entry.owner ≠ place) →
    ∃ receipt, outcome = .ok receipt

section Fates

variable {kind : TableKind} {givenUp : StoreError → Prop} {request : Request}
  {share : Share kind.Entry} {pending : Pending}

theorem Done.fate {outcome : Outcome}
    (hdone : Done kind.shape givenUp request share pending)
    (hsome : pending.outcome = some outcome) :
    Fate kind.shape givenUp request share outcome := by
  obtain ⟨other, hother, hfate⟩ := hdone.outcome
  rw [hsome, Option.some.injEq] at hother
  exact hother ▸ hfate

theorem Done.acknowledged {receipt : Receipt}
    (hdone : Done kind.shape givenUp request share pending)
    (hok : pending.outcome = some (.ok receipt)) :
    IsAcknowledged kind request share.block receipt := by
  have hfate := hdone.fate hok
  generalize hverdict : (Except.ok receipt : Outcome) = outcome at hfate
  cases hfate with
  | failed | givenUp => contradiction
  | stored hclean hall =>
      unfold Shape.verdict at hverdict
      cases hdraft : kind.shape.draft request with
      | error error => simp [hdraft] at hverdict
      | ok contents =>
          simp only [hdraft, Except.ok.injEq] at hverdict
          have hcontents : kind.shape.contents request = contents := by
            simp [Shape.contents, hdraft]
          have hrenders := hdone.progress.renders
          rw [hall, List.take_length, hcontents, TableKind.whole_eq hdraft]
            at hrenders
          rw [Share.block, hdone.stored_eq_handed hclean]
          exact ⟨hrenders.carries fun _ hmem => hmem, hverdict⟩

/-- A failure of storage is told only after a call with entries of the request
has failed. -/
theorem Done.failed {topic : Topic} {cause : StoreError}
    (hdone : Done kind.shape givenUp request share pending)
    (hgivenUp : ∀ cause, ¬givenUp cause)
    (herror : pending.outcome = some (.error (.storage topic cause))) :
    topic = request.topic ∧ ∃ before failing, share.past = before ++ [failing] ∧
      (∀ call ∈ before, call.result = .ok ()) ∧
      failing.result = .error cause := by
  have hfate := hdone.fate herror
  generalize houtcome : (Except.error (.storage topic cause) : Outcome) = outcome
    at hfate
  cases hfate with
  | givenUp hclean hcause => exact absurd hcause (hgivenUp _)
  | stored hclean hall =>
      unfold Shape.verdict at houtcome
      cases hdraft : kind.shape.draft request with
      | ok contents => simp [hdraft] at houtcome
      | error error =>
          -- What a shape refuses is never a failure of storage.
          obtain ⟨_, hempty⟩ := (kind.shape.draft_eq_error_iff _ _).mp hdraft
          obtain ⟨reason, rfl⟩ := TableKind.onEmpty_error hempty
          simp [hdraft] at houtcome
  | failed hpast hbefore hcause =>
      simp only [Except.error.injEq, WriteError.storage.injEq] at houtcome
      obtain ⟨rfl, rfl⟩ := houtcome
      exact ⟨rfl, _, _, hpast, hbefore, hcause⟩

theorem Done.cut_short {topic : Topic} {cause : StoreError}
    (hdone : Done kind.shape givenUp request share pending)
    (hgivenUp : ∀ cause, ¬givenUp cause)
    (hhanded : ∀ call ∈ share.past, call.handed ≠ [])
    (herror : pending.outcome = some (.error (.storage topic cause))) :
    topic = request.topic ∧ share.IsCutShort request cause := by
  obtain ⟨htopic, before, failing, hpast, hbefore, hcause⟩ :=
    hdone.failed hgivenUp herror
  have hne : failing.handed ≠ [] := hhanded failing (by simp [hpast])
  have hstored : share.stored = before.flatMap StoreCall.handed := by
    unfold Share.stored
    rw [hpast, List.flatMap_append, List.flatMap_singleton,
      StoreCall.stored_of_error hcause, List.append_nil]
    exact List.flatMap_congr fun call hmem => StoreCall.stored_of_ok (hbefore call hmem)
  have hsplit : share.handed = share.stored ++ failing.handed := by
    rw [Share.handed, hdone.current_eq, List.append_nil, hstored, hpast]
    simp
  have hlt : share.stored.length < share.handed.length := by
    rw [hsplit, List.length_append]
    have hpos := List.length_pos_iff.mpr hne
    omega
  have hle := hdone.progress.length_le
  have hcontents : kind.shape.contents request = kind.whole request := by
    apply hdone.progress.contents_eq_whole
    rw [hsplit]
    simp [hne]
  rw [hcontents] at hle
  refine ⟨htopic, before, failing, hpast, hbefore, hcause, hne, ?_, ?_, ?_⟩
  · rw [Share.block, hstored]
  · rw [Share.block, List.length_map]
    omega
  · have hrenders := List.forall₂_take share.stored.length hdone.progress.renders
    rw [hcontents, List.take_take, Nat.min_eq_left hlt.le, ← List.map_take,
      hsplit, List.take_left] at hrenders
    rw [Share.block, List.length_map]
    exact Shape.Renders.carries hrenders fun _ hmem => List.mem_of_mem_take hmem

theorem Done.handed_eq_nil (hdone : Done kind.shape givenUp request share pending)
    (hcontents : kind.shape.contents request = []) : share.handed = [] := by
  have hle := hdone.progress.length_le
  rw [hcontents, List.length_nil, Nat.le_zero] at hle
  exact List.length_eq_zero_iff.mp hle

theorem Done.verdict_of_empty {outcome : Outcome}
    (hdone : Done kind.shape givenUp request share pending)
    (hgivenUp : ∀ cause, ¬givenUp cause)
    (hhanded : ∀ call ∈ share.past, call.handed ≠ [])
    (hcontents : kind.shape.contents request = [])
    (hsome : pending.outcome = some outcome) :
    outcome = kind.shape.verdict request [] := by
  have hnil := hdone.handed_eq_nil hcontents
  have hfate := hdone.fate hsome
  cases hfate with
  | stored hclean hall => rw [hnil, List.map_nil]
  | givenUp hclean hcause => exact absurd hcause (hgivenUp _)
  | @failed before call cause hpast hbefore hcause =>
      have hne := hhanded call (by simp [hpast])
      rw [Share.handed, hpast] at hnil
      simp [hne] at hnil

end Fates

namespace Chronicle

variable {σ : Type} {kind : TableKind} {chronicle : Chronicle σ kind.Entry}
  {givenUp : StoreError → Prop} {request : Request} {place : Nat}
  {pending : Pending} {outcome : Outcome}

private theorem last_of_append_eq {α : Type} {front xs ys : List α} {last x : α}
    (heq : front ++ [last] = xs ++ x :: ys) (hx : x ∉ front) :
    ys = [] ∧ last = x := by
  rcases List.eq_nil_or_concat ys with rfl | ⟨zs, z, rfl⟩
  · obtain ⟨_, hlast⟩ := List.append_inj' heq rfl
    exact ⟨rfl, List.head_eq_of_cons_eq hlast⟩
  · have hsplit : front ++ [last] = (xs ++ x :: zs) ++ [z] := by
      simpa using heq
    obtain ⟨hfront, _⟩ := List.append_inj' hsplit rfl
    exact absurd (by simp [hfront]) hx

/-- A failing call with an entry of a request is the last one with any. -/
theorem failed_of_done
    (hdone : Done kind.shape givenUp request (chronicle.share place) pending)
    (hgivenUp : ∀ cause, ¬givenUp cause) (hsome : pending.outcome = some outcome)
    {before after : List (StoreCall kind.Entry)} {failing : StoreCall kind.Entry}
    {cause : StoreError} (hcalls : chronicle.calls = before ++ failing :: after)
    (hcause : failing.result = .error cause)
    (hentry : ∃ entry ∈ failing.handed, entry.owner = place) :
    outcome = .error (.storage request.topic cause) ∧
      ∀ call ∈ after, ∀ entry ∈ call.handed, entry.owner ≠ place := by
  obtain ⟨entry, hentry, howner⟩ := hentry
  have hmem : failing ∈ chronicle.calls := by simp [hcalls]
  have hne : (failing.of place).handed ≠ [] := fun hnil =>
    (of_handed_eq_nil_iff place failing).mp hnil entry hentry howner
  have hfate := hdone.fate hsome
  cases hfate with
  | givenUp hclean hother => exact absurd hother (hgivenUp _)
  | stored hclean hall =>
      have hok : failing.result = .ok () :=
        hclean (failing.of place) (mem_share_past hmem hentry howner)
      rw [hcause] at hok
      contradiction
  | @failed good last other hpast hgood hlast =>
      have hsplit : (chronicle.share place).past =
          (before.map (StoreCall.of place)).filter
              (fun call => !call.handed.isEmpty) ++
            failing.of place ::
              (after.map (StoreCall.of place)).filter
                fun call => !call.handed.isEmpty := by
        simp [share, hcalls, hne]
      have hbad : failing.of place ∉ good := by
        intro hold
        have hok : failing.result = .ok () :=
          hgood (failing.of place) hold
        rw [hcause] at hok
        contradiction
      obtain ⟨hnone, rfl⟩ := last_of_append_eq (hpast.symm.trans hsplit) hbad
      have hsame : failing.result = .error other := hlast
      rw [hcause, Except.error.injEq] at hsame
      refine ⟨hsame ▸ rfl, ?_⟩
      intro call hafter
      have hempty := List.filter_eq_nil_iff.mp hnone _ (List.mem_map_of_mem hafter)
      exact (of_handed_eq_nil_iff place call).mp (by simpa using hempty)

/-- A request that no call has failed is told that it is written, unless it is
refused. -/
theorem succeeded_of_done
    (hdone : Done kind.shape givenUp request (chronicle.share place) pending)
    (hgivenUp : ∀ cause, ¬givenUp cause) (hsome : pending.outcome = some outcome)
    (haccepted : ¬kind.Refuses request)
    (hgood : ∀ call ∈ chronicle.calls, call.result ≠ .ok () →
      ∀ entry ∈ call.handed, entry.owner ≠ place) :
    ∃ receipt, outcome = .ok receipt := by
  have hfate := hdone.fate hsome
  cases hfate with
  | givenUp hclean hother => exact absurd hother (hgivenUp _)
  | stored hclean hall =>
      unfold Shape.verdict
      cases hdraft : kind.shape.draft request with
      | ok contents => exact ⟨_, rfl⟩
      | error error => exact absurd (TableKind.refuses_of_draft hdraft) haccepted
  | @failed before last cause hpast hbefore hlast =>
      have hin : last ∈ (chronicle.share place).past := by simp [hpast]
      have hne := chronicle.share_past_handed_ne place last hin
      obtain ⟨call, hmem, rfl⟩ :=
        List.mem_map.mp (List.mem_of_mem_filter hin)
      have hcause : call.result = .error cause := hlast
      have hbad : call.result ≠ .ok () := by simp [hcause]
      exact absurd ((of_handed_eq_nil_iff place call).mpr (hgood call hmem hbad))
        hne

theorem own_of_done
    (hdone : Done kind.shape givenUp request (chronicle.share place) pending) :
    ∃ count, List.Forall₂ (kind.Carries request) ((kind.whole request).take count)
      (((chronicle.calls.flatMap StoreCall.handed).filter
        (·.owner = place)).map HandedEntry.entry) := by
  have hcurrent : chronicle.current.filter (·.owner = place) = [] :=
    hdone.current_eq
  have hshare := chronicle.share_handed place
  rw [handed, List.filter_append, hcurrent, List.append_nil] at hshare
  rw [← hshare]
  by_cases hnil : (chronicle.share place).handed = []
  · refine ⟨0, ?_⟩
    rw [hnil]
    exact List.Forall₂.nil
  · have hrenders := hdone.progress.renders
    rw [hdone.progress.contents_eq_whole hnil] at hrenders
    exact ⟨_, hrenders.carries fun _ hmem => List.mem_of_mem_take hmem⟩

theorem fair_of_done
    (hdone : Done kind.shape givenUp request (chronicle.share place) pending)
    (hgivenUp : ∀ cause, ¬givenUp cause) (hsome : pending.outcome = some outcome) :
    IsFair kind chronicle.calls place request outcome := by
  have hhanded := chronicle.share_past_handed_ne place
  constructor
  · exact own_of_done hdone
  · intro hrefuses
    have hdraft := hrefuses.draft_eq
    have hcontents : kind.shape.contents request = [] := by
      rw [Shape.contents, hdraft]
    rw [hdone.verdict_of_empty hgivenUp hhanded hcontents hsome, Shape.verdict,
      hdraft]
  · rintro rfl hpoll
    have hpayloads := request.poll_fst_eq_none_iff.mp hpoll
    have hdraft : TableKind.payload.shape.draft request = .ok [] := by
      simp [Shape.draft, TableKind.shape, Shape.payload, hpayloads]
    have hcontents : TableKind.payload.shape.contents request = [] := by
      rw [Shape.contents, hdraft]
    rw [hdone.verdict_of_empty hgivenUp hhanded hcontents hsome, Shape.verdict,
      hdraft]
    exact ⟨_, rfl, rfl⟩
  · intro before failing after cause hcalls hcause hentry
    exact failed_of_done hdone hgivenUp hsome hcalls hcause hentry
  · exact succeeded_of_done hdone hgivenUp hsome

end Chronicle

namespace TableWriter

/-- Two ids are left, and the first call fails. -/
def failingOnce : TableWriter (MemoryTable MessageEntry) where
  table := { failures := ["full"] }
  clock := .counting 5
  sequencer := { last := some 5, next := 65534 }

/-- Three payloads, one payload, none. -/
def threeRequests : List Request :=
  [.ofTexts ⟨"space", "a"⟩ ["x", "y", "z"], .ofTexts ⟨"space", "b"⟩ ["u"],
    .ofTexts ⟨"space", "c"⟩ []]

/-- At every moment of a write the table holds one run of entries for each
request of the batch.  The run of an acknowledged request is all of it, and
the run of a request that has failed for storage is what the calls before the
failing one have stored. -/
theorem acknowledged_requests_are_held (kind : TableKind) {σ : Type}
    {table : Table σ kind.Entry} (ledger : table.Ledger) {writer : TableWriter σ}
    (htaken : ledger.taken writer.table = []) (requests : List Request)
    (moment : Nat) :
    let now := (writer.chronicle (requests.map Pending.fresh)).after table
      kind.shape moment
    ledger.held now.delivery.table =
        ledger.held writer.table ++
          (List.range requests.length).flatMap
            (fun place => (now.share place).block) ∧
      (∀ result pendings later,
        writer.write table kind.shape moment (requests.map Pending.fresh) =
            some (result, pendings, later) →
          pendings = now.delivery.requests ∧
            later.table = now.delivery.table) ∧
      ∀ (place : Nat) (request : Request) (pending : Pending),
        requests[place]? = some request →
        now.delivery.requests[place]? = some pending →
          (∀ receipt, pending.outcome = some (.ok receipt) →
            IsAcknowledged kind request (now.share place).block receipt) ∧
          ∀ topic cause, pending.outcome = some (.error (.storage topic cause)) →
            topic = request.topic ∧
              (now.share place).IsCutShort request cause := by
  intro now
  have hregular : now.Regular kind.shape requests :=
    Chronicle.regular_after table kind.shape_lawful writer requests moment
  have hfed : now.Fed kind.shape :=
    Chronicle.fed_after kind.shape ledger.greedy writer _ moment
  have hbooked : now.Booked ledger (ledger.held writer.table) :=
    Chronicle.booked_after ledger htaken _ moment
  refine ⟨?_, ?_, ?_⟩
  · rw [hbooked.held, hregular.order.stored_eq, hregular.length_eq,
      List.map_flatMap]
    rfl
  · intro result pendings later hwrite
    obtain ⟨_, _, hrequests, hlater⟩ :=
      (write_eq_some_iff table kind.shape moment writer later _ pendings
        result).mp hwrite
    exact ⟨hrequests.symm, hlater ▸ rfl⟩
  · intro place request pending hrequest hget
    rcases hregular.stance hrequest hget with hdone | ⟨hnone, _⟩
    · refine ⟨fun receipt hok => hdone.acknowledged hok, ?_⟩
      intro topic cause herror
      exact hdone.cut_short hfed.not_givenUp (now.share_past_handed_ne place)
        herror
    · simp [hnone]

/-- The first request is cut short by the failing call; the second one stands
in the table. -/
theorem second_request_is_held :
    let now := (failingOnce.chronicle (threeRequests.map Pending.fresh)).after
      MemoryTable.behaviour Shape.message 40
    MemoryTable.ledger.taken failingOnce.table = [] ∧
      @Share.IsCutShort .message (now.share 0)
        (.ofTexts ⟨"space", "a"⟩ ["x", "y", "z"]) (.injected "full") ∧
      IsAcknowledged .message (.ofTexts ⟨"space", "b"⟩ ["u"]) (now.share 1).block
        ⟨⟨"space", "b"⟩, 1, some ⟨6, 0⟩, some ⟨6, 0⟩⟩ := by
  intro now
  have hheld := acknowledged_requests_are_held .message MemoryTable.ledger
    (by rfl : MemoryTable.ledger.taken failingOnce.table = []) threeRequests 40
  have hfirst : now.delivery.requests[0]?.bind (·.outcome) =
      some (.error (.storage ⟨"space", "a"⟩ (.injected "full"))) := by
    decide +kernel
  have hsecond : now.delivery.requests[1]?.bind (·.outcome) =
      some (.ok ⟨⟨"space", "b"⟩, 1, some ⟨6, 0⟩, some ⟨6, 0⟩⟩) := by
    decide +kernel
  obtain ⟨first, hget, hfailed⟩ := Option.bind_eq_some_iff.mp hfirst
  obtain ⟨second, hget', hok⟩ := Option.bind_eq_some_iff.mp hsecond
  exact ⟨rfl, ((hheld.2.2 0 _ first rfl hget).2 _ _ hfailed).2,
    (hheld.2.2 1 _ second rfl hget').1 _ hok⟩

/-- With a greedy table a write comes to the failure of its first failing
call, and tells every request what the calls with its entries came to.  The table
has been through these calls and through nothing else. -/
theorem failing_calls_fail_their_requests (kind : TableKind) {σ : Type}
    {table : Table σ kind.Entry} (hgreedy : table.IsGreedy)
    {writer later : TableWriter σ} {requests : List Request} {limit : Nat}
    {result : Except StoreError Unit} {pendings : List Pending}
    (hwrite : writer.write table kind.shape limit (requests.map Pending.fresh) =
      some (result, pendings, later)) :
    let calls := ((writer.chronicle (requests.map Pending.fresh)).after table
      kind.shape limit).calls
    (result = .ok () ↔ ∀ call ∈ calls, call.result = .ok ()) ∧
      (∀ cause, result = .error cause ↔
        ∃ before failing after, calls = before ++ failing :: after ∧
          failing.result = .error cause ∧
          ∀ call ∈ before, call.result = .ok ()) ∧
      pendings.length = requests.length ∧
      (∀ (place : Nat) (request : Request), requests[place]? = some request →
        ∃ pending outcome, pendings[place]? = some pending ∧
          pending.outcome = some outcome ∧
          IsFair kind calls place request outcome) ∧
      Chronicle.Received table writer.table calls [] later.table := by
  intro calls
  have hreceived := (received_of_write hwrite).2
  obtain ⟨hfinished, rfl, rfl, rfl⟩ :=
    (write_eq_some_iff table kind.shape limit writer later _ pendings
      result).mp hwrite
  set final := (writer.chronicle (requests.map Pending.fresh)).after table
    kind.shape limit with hfinal
  have hregular : final.Regular kind.shape requests :=
    Chronicle.regular_after table kind.shape_lawful writer requests limit
  have hfed : final.Fed kind.shape :=
    Chronicle.fed_after kind.shape hgreedy writer _ limit
  refine ⟨hfed.result_eq_ok_iff, hfed.result_eq_error_iff, hregular.length_eq, ?_,
    hreceived⟩
  intro place request hrequest
  have hlt : place < final.delivery.requests.length := by
    rw [hregular.length_eq]
    exact (List.getElem?_eq_some_iff.mp hrequest).1
  have hget := List.getElem?_eq_getElem hlt
  have hdone := hregular.done hfinished hrequest hget
  obtain ⟨outcome, hsome, _⟩ := hdone.outcome
  exact ⟨_, outcome, hget, hsome,
    Chronicle.fair_of_done hdone hfed.not_givenUp hsome⟩

/-- The write comes to the failure of its first call, and the empty request is
told that it is refused. -/
theorem empty_request_is_refused :
    ∃ pendings later,
      failingOnce.write MemoryTable.behaviour Shape.message 40
          (threeRequests.map Pending.fresh) =
        some (.error (.injected "full"), pendings, later) ∧
      pendings.length = 3 ∧
      ∃ pending, pendings[2]? = some pending ∧
        pending.outcome = some (.error (.invalidRequest ⟨"space", "c"⟩
          "only transactional messages can have an empty payload")) := by
  let final := ((failingOnce.chronicle (threeRequests.map Pending.fresh)).after
    MemoryTable.behaviour Shape.message 40).delivery
  have hfinished : final.isFinished = true := by decide +kernel
  have hresult : final.result = .error (.injected "full") := by decide +kernel
  have hwrite : failingOnce.write MemoryTable.behaviour Shape.message 40
      (threeRequests.map Pending.fresh) =
        some (.error (.injected "full"), final.requests, ofDelivery final) :=
    (write_eq_some_iff _ _ _ _ _ _ _ _).mpr ⟨hfinished, hresult, rfl, rfl⟩
  obtain ⟨_, _, hlength, houtcomes, _⟩ :=
    failing_calls_fail_their_requests .message (fun _ => rfl) hwrite
  obtain ⟨pending, outcome, hget, hsome, hfair⟩ :=
    houtcomes 2 (.ofTexts ⟨"space", "c"⟩ []) rfl
  refine ⟨final.requests, ofDelivery final, hwrite, hlength, pending, hget, ?_⟩
  rw [hsome, hfair.refused ⟨rfl, rfl, rfl⟩]
  rfl

end TableWriter

end MessageStore
