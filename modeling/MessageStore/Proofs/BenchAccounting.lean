import MessageStore.Proofs.BenchPayloads
import MessageStore.Proofs.TimelyPublishing
import Mathlib.Tactic

/-!
# Accounting for a benchmark

When all publishers of a benchmark over an empty table in memory are done, the
report counts every message, and the table holds every payload once: those of one
publisher in the order in which it made them, wherever those of the others stand.
-/

namespace MessageStore

/-! ## Publishing requests with payloads -/

theorem Shape.map_payload_of_renders {request : Request} {contents : List (Option Bytes)}
    {entries : List MessageEntry} (hrenders : Shape.message.Renders request contents entries) :
    entries.map MessageEntry.payload = contents := by
  induction hrenders with
  | nil => rfl
  | cons hentry _ ih =>
      rw [List.map_cons, ih, hentry]
      rfl

/-- A request with payloads leaves one entry for each of them, and is told how
many there are. -/
theorem Written.IsWhole.of_payloads {written : Written MessageEntry}
    (hwhole : written.IsWhole Shape.message) (hpayloads : written.request.payloads ≠ []) :
    written.block.map MessageEntry.payload = written.request.payloads.map some ∧
      ∃ receipt, written.pending.outcome = some (.ok receipt) ∧
        receipt.entries = written.request.payloads.length := by
  have hrenders := hwhole.renders
  rw [Shape.contents_of_payloads _ hpayloads] at hrenders
  have hblock := Shape.map_payload_of_renders hrenders
  have hlength := congrArg List.length hblock
  rw [List.length_map, List.length_map] at hlength
  have houtcome := hwhole.outcome_eq
  rw [Shape.verdict, Shape.draft, if_neg hpayloads] at houtcome
  exact ⟨hblock, _, houtcome, hlength⟩

/-- What a list has in order is in order in any list without repetitions that it
is a part of. -/
theorem pairwise_of_sublist {α : Type} {holds : α → α → Prop} {part whole : List α}
    (hpart : part.Pairwise holds) (hsublist : part.Sublist whole) (hnodup : whole.Nodup) :
    whole.Pairwise fun first second => first ∈ part → second ∈ part → holds first second := by
  induction hsublist with
  | slnil => exact .nil
  | @cons part whole head hsublist ih =>
      obtain ⟨hhead, hrest⟩ := List.nodup_cons.mp hnodup
      refine .cons (fun second _ hfirst => ?_) (ih hpart hrest)
      exact absurd (hsublist.subset hfirst) hhead
  | @cons_cons part whole head hsublist ih =>
      obtain ⟨hhead, hrest⟩ := List.nodup_cons.mp hnodup
      obtain ⟨hbefore, hpart⟩ := List.pairwise_cons.mp hpart
      have hpast : ∀ {element}, element ∈ whole → element ∈ head :: part → element ∈ part :=
        fun hmem helement => (List.mem_cons.mp helement).resolve_left fun heq => hhead (heq ▸ hmem)
      refine .cons (fun second hmem _ hsecond => hbefore second (hpast hmem hsecond)) ?_
      refine (ih hpart hrest).imp_of_mem fun hfirst hsecond himp hmem hmem' => ?_
      exact himp (hpast hfirst hmem) (hpast hsecond hmem')

namespace Ensemble

/-- What threads with payloads in every request come to when all of their calls
have returned. -/
structure PublishedAll (plans : List (List Request)) (log : List Push)
    (final : Ensemble (TableWriter (MemoryTable MessageEntry))
      (Delivery (MemoryTable MessageEntry)))
    (entries : List MessageEntry) : Prop where
  /-- The pushes stand in the table one after the other. -/
  payloads_eq : entries.map MessageEntry.payload =
    log.flatMap fun push => push.request.payloads.map some
  thread_lt : ∀ push ∈ log, push.thread < plans.length
  requests_eq : ∀ (index : Nat) (plan : List Request), plans[index]? = some plan →
    (pushesOf index log).map Push.request = plan
  /-- Each call returns a receipt for all its payloads. -/
  receipts : ∀ (index : Nat) (plan : List Request), plans[index]? = some plan →
    List.Forall₂ (fun value request => ∃ receipt,
      value = .persisted (.ok receipt) ∧ receipt.entries = request.payloads.length)
      (final.returns index) plan

section

variable {good : MemoryTable MessageEntry → Prop} {start : List MessageEntry}
  {plans : List (List Request)} {log : List Push}
  {final : Ensemble (TableWriter (MemoryTable MessageEntry))
    (Delivery (MemoryTable MessageEntry))}

theorem InTurn.mem_plan
    (hinTurn : @InTurn .message _ _ MemoryTable.ledger good start plans log final)
    (hdone : final.threads.all Thread.isDone = true) {push : Push} (hmem : push ∈ log) :
    ∃ plan ∈ plans, push.request ∈ plan := by
  have hplan := List.getElem?_eq_getElem (hinTurn.lt_length push hmem)
  obtain ⟨hrequests, -, -⟩ := hinTurn.pushesOf_eq hdone hplan
  refine ⟨_, List.mem_of_getElem? hplan, ?_⟩
  rw [← hrequests]
  exact List.mem_map_of_mem (List.mem_filter.mpr ⟨hmem, decide_eq_true rfl⟩)

/-- Every request of a plan has been pushed. -/
theorem InTurn.exists_ticket
    (hinTurn : @InTurn .message _ _ MemoryTable.ledger good start plans log final)
    (hdone : final.threads.all Thread.isDone = true) {index number : Nat} {plan : List Request}
    (hplan : plans[index]? = some plan) {request : Request}
    (hrequest : plan[number]? = some request) :
    ∃ ticket : Nat, log[ticket]? = some ⟨index, number, request⟩ := by
  obtain ⟨hrequests, hnumbers, -⟩ := hinTurn.pushesOf_eq hdone hplan
  rw [← hrequests, List.getElem?_map, Option.map_eq_some_iff] at hrequest
  obtain ⟨push, hpush, rfl⟩ := hrequest
  obtain ⟨hmem, hthread⟩ := List.mem_filter.mp (List.mem_of_getElem? hpush)
  have hnumber : push.number = number := by
    have hget := congrArg (·[number]?) hnumbers
    simp only [List.getElem?_map, hpush, Option.map_some] at hget
    obtain ⟨_, hrange⟩ := List.getElem?_eq_some_iff.mp hget.symm
    rw [← hrange, List.getElem_range]
  obtain ⟨ticket, hlt, rfl⟩ := List.getElem_of_mem hmem
  refine ⟨ticket, ?_⟩
  rw [List.getElem?_eq_getElem hlt, ← of_decide_eq_true hthread, ← hnumber]

theorem InTurn.publishedAll
    (hinTurn : @InTurn .message _ _ MemoryTable.ledger good [] plans log final)
    (hdone : final.threads.all Thread.isDone = true)
    (hpayloads : ∀ plan ∈ plans, ∀ request ∈ plan, request.payloads ≠ []) :
    ∃ last, final.coordinator.flight = .resting last [] ∧
      PublishedAll plans log final last.table.entries.toList := by
  obtain ⟨last, rows, hflight, -, hrequests, hwhole, hheld, hreturned⟩ := hinTurn.settled hdone
  have hsome : ∀ push ∈ log, push.request.payloads ≠ [] := by
    intro push hmem
    obtain ⟨plan, hplan, hrequest⟩ := hinTurn.mem_plan hdone hmem
    exact hpayloads plan hplan _ hrequest
  have hrow : ∀ written ∈ rows, written.request.payloads ≠ [] := by
    intro written hmem
    have hrequest : written.request ∈ log.map Push.request :=
      hrequests ▸ List.mem_map_of_mem hmem
    obtain ⟨push, hpush, hsame⟩ := List.mem_map.mp hrequest
    exact hsame ▸ hsome push hpush
  refine ⟨last, hflight, ?_, hinTurn.lt_length,
    fun index plan hplan => (hinTurn.pushesOf_eq hdone hplan).1, fun index plan hplan => ?_⟩
  · have hentries : last.table.entries.toList = rows.flatMap Written.block := hheld
    calc last.table.entries.toList.map MessageEntry.payload
        = rows.flatMap fun written => written.block.map MessageEntry.payload := by
          rw [hentries, List.map_flatMap]
      _ = rows.flatMap fun written => written.request.payloads.map some :=
          List.flatMap_congr fun written hmem =>
            ((hwhole written hmem).of_payloads (hrow written hmem)).1
      _ = (rows.map Written.request).flatMap fun request => request.payloads.map some := by
          rw [List.flatMap_map]
      _ = log.flatMap fun push => push.request.payloads.map some := by
          rw [← hrequests, List.flatMap_map]
  · obtain ⟨hplans, hnumbers, hlength⟩ := hinTurn.pushesOf_eq hdone hplan
    refine List.forall₂_iff_get.mpr ⟨hlength, fun number hvalue hlt => ?_⟩
    obtain ⟨ticket, hpush⟩ :=
      hinTurn.exists_ticket hdone hplan (List.getElem?_eq_getElem hlt)
    have hrequest := congrArg (·[ticket]?) hrequests
    simp only [List.getElem?_map, hpush, Option.map_some] at hrequest
    obtain ⟨written, hwritten, hsame⟩ := Option.map_eq_some_iff.mp hrequest.symm
    have hmem := List.mem_of_getElem? hwritten
    obtain ⟨-, receipt, houtcome, hentries⟩ := (hwhole written hmem).of_payloads (hrow written hmem)
    obtain ⟨outcome, hsettled, hreturn⟩ := hreturned ticket _ written hpush hwritten
    rw [houtcome, Option.some.injEq] at hsettled
    subst hsettled
    rw [hsame] at hentries
    exact ⟨receipt, (List.getElem?_eq_some_iff.mp hreturn).2, hentries⟩

end

end Ensemble

namespace Bench

/-! ## The publishers -/

section Publishers

variable {ω μ : Type}

theorem spawn_all (callsOf : Nat → List Call) (publishers : List Nat) (ensemble : Ensemble ω μ) :
    publishers.foldl (fun ensemble publisher => ensemble.spawn (callsOf publisher)) ensemble =
      { ensemble with
        threads := ensemble.threads ++ (publishers.map fun publisher =>
          ({ calls := callsOf publisher } : Thread)).toArray } := by
  induction publishers generalizing ensemble with
  | nil => simp
  | cons publisher publishers ih =>
      rw [List.foldl_cons, ih]
      simp [Ensemble.spawn]

/-- The requests of all publishers. -/
def plans (arguments : BenchArguments) : List (List Request) :=
  (List.range arguments.threads).map (requests arguments)

theorem length_plans (arguments : BenchArguments) :
    (plans arguments).length = arguments.threads := by
  rw [plans, List.length_map, List.length_range]

theorem plans_getElem? (arguments : BenchArguments) {publisher : Nat}
    (hlt : publisher < arguments.threads) :
    (plans arguments)[publisher]? = some (requests arguments publisher) := by
  rw [plans, List.getElem?_map, List.getElem?_range hlt, Option.map_some]

theorem publishers_eq (arguments : BenchArguments) (start : ω) :
    (publishers arguments start : Ensemble ω μ) = .publishing start (plans arguments) := by
  rw [publishers, spawn_all, Ensemble.publishing, plans, List.map_map]
  simp only [Array.empty_append, calls_eq]
  rfl

theorem payloads_ne_nil (arguments : BenchArguments) :
    ∀ plan ∈ plans arguments, ∀ request ∈ plan, request.payloads ≠ [] := by
  intro plan hplan request hrequest
  obtain ⟨publisher, -, rfl⟩ := List.mem_map.mp hplan
  obtain ⟨⟨size, number⟩, hsized, rfl⟩ := List.mem_map.mp hrequest
  have hsize := (size_bounds (List.fst_mem_of_mem_zipIdx hsized)).1
  intro hnone
  have hlength := congrArg List.length hnone
  simp only [Request.ofTexts, Request.payloads_ofPayloads, List.length_map, List.length_range,
    List.length_nil] at hlength
  omega

end Publishers

/-! ## The report -/

/-- A publisher adds up the entries of its receipts. -/
theorem written_eq {returns : List Return} {counts : List Nat}
    (hreceipts : List.Forall₂ (fun value count => ∃ receipt : Receipt,
      value = .persisted (.ok receipt) ∧ receipt.entries = count) returns counts) :
    written returns = .ok counts.sum := by
  unfold written
  rw [← Nat.zero_add counts.sum]
  generalize 0 = start
  induction hreceipts generalizing start with
  | nil => rfl
  | cons hvalue _ ih =>
      obtain ⟨receipt, rfl, rfl⟩ := hvalue
      rw [List.foldlM_cons, List.sum_cons, ← Nat.add_assoc]
      exact ih _

theorem report_eq {ω μ : Type} {arguments : BenchArguments} {ensemble : Ensemble ω μ}
    (hwritten : ∀ publisher < arguments.threads,
      written (ensemble.returns publisher) = .ok arguments.messages) :
    report arguments ensemble = .ok {
      threads := arguments.threads
      requests := arguments.threads * (arguments.messages ⌈/⌉ max arguments.batch 1)
      messages := arguments.threads * arguments.messages } := by
  have hcounts : ∀ publishers : List Nat, (∀ publisher ∈ publishers,
      written (ensemble.returns publisher) = .ok arguments.messages) →
      publishers.mapM (fun publisher => written (ensemble.returns publisher)) =
        .ok (List.replicate publishers.length arguments.messages) := by
    intro publishers hall
    induction publishers with
    | nil => rfl
    | cons publisher publishers ih =>
        obtain ⟨hfirst, hrest⟩ := List.forall_mem_cons.mp hall
        rw [List.mapM_cons, hfirst, ih hrest]
        rfl
  rw [report, hcounts _ fun publisher hmem => hwritten publisher (List.mem_range.mp hmem),
    List.length_range]
  have hsum : (List.replicate arguments.threads arguments.messages).foldl (· + ·) 0 =
      arguments.threads * arguments.messages := by
    rw [← List.sum_eq_foldl, List.sum_replicate, smul_eq_mul]
  rw [Nat.mul_comm arguments.threads (_ ⌈/⌉ _), ← length_sizes, ← hsum]
  rfl

/-! ## The table -/

/-- The payload of a message as the table holds it. -/
def stored (text : String) : Option Bytes :=
  some (Utf8.encode text)

theorem stored_injective : Function.Injective stored := by
  intro text other heq
  have hdecoded := congrArg Utf8.decode? (Option.some.inj heq)
  simpa only [Utf8.decode?_encode, Option.some.injEq] using hdecoded

theorem flatMap_stored (arguments : BenchArguments) (publisher : Nat) :
    (requests arguments publisher).flatMap (fun request => request.payloads.map some) =
      (texts (sizes arguments.messages arguments.batch) publisher).map stored := by
  rw [← List.map_flatMap, flatMap_payloads, List.map_map]
  rfl

section

variable {arguments : BenchArguments} {log : List Push}
  {final : Ensemble (TableWriter (MemoryTable MessageEntry))
    (Delivery (MemoryTable MessageEntry))}
  {entries : List MessageEntry}

theorem written_of_publishedAll
    (hall : Ensemble.PublishedAll (plans arguments) log final entries) {publisher : Nat}
    (hlt : publisher < arguments.threads) :
    written (final.returns publisher) = .ok arguments.messages := by
  have hreceipts := hall.receipts publisher _ (plans_getElem? arguments hlt)
  rw [written_eq (List.forall₂_map_right_iff.mpr hreceipts), ← List.length_flatMap,
    flatMap_payloads, List.length_map, length_texts, sum_sizes]

theorem flatMap_pushesOf
    (hall : Ensemble.PublishedAll (plans arguments) log final entries) {publisher : Nat}
    (hlt : publisher < arguments.threads) :
    (pushesOf publisher log).flatMap (fun push => push.request.payloads.map some) =
      (texts (sizes arguments.messages arguments.batch) publisher).map stored := by
  have hrequests := hall.requests_eq publisher _ (plans_getElem? arguments hlt)
  rw [← flatMap_stored, ← hrequests, List.flatMap_map]

theorem payloads_perm (hall : Ensemble.PublishedAll (plans arguments) log final entries) :
    (entries.map MessageEntry.payload).Perm
      (((List.range arguments.threads).flatMap
        (texts (sizes arguments.messages arguments.batch))).map stored) := by
  have hlog := perm_flatMap_pushesOf (length_plans arguments ▸ hall.thread_lt)
  rw [hall.payloads_eq, List.map_flatMap]
  refine (hlog.symm.flatMap_right _).trans (.of_eq ?_)
  rw [List.flatMap_assoc]
  exact List.flatMap_congr fun publisher hmem =>
    flatMap_pushesOf hall (List.mem_range.mp hmem)

theorem payloads_sublist (hall : Ensemble.PublishedAll (plans arguments) log final entries)
    {publisher : Nat} (hlt : publisher < arguments.threads) :
    ((texts (sizes arguments.messages arguments.batch) publisher).map stored).Sublist
      (entries.map MessageEntry.payload) := by
  rw [hall.payloads_eq, ← flatMap_pushesOf hall hlt]
  exact List.filter_sublist.flatMap _

end

/-- The payload of the entry at the index is the text. -/
def StandsAt (entries : List MessageEntry) (index : Nat) (text : String) : Prop :=
  (entries.map MessageEntry.payload)[index]? = some (stored text)

/-- Every message stands in the table once, and those of one publisher in the
order of its requests and of the places in them. -/
structure HoldsAll (arguments : BenchArguments) (entries : List MessageEntry) : Prop where
  length_eq : entries.length = arguments.threads * arguments.messages
  count_eq : ∀ publisher < arguments.threads, ∀ request size,
    (sizes arguments.messages arguments.batch)[request]? = some size → ∀ place < size,
      (entries.map MessageEntry.payload).count (stored (payload publisher request place)) = 1
  in_order : ∀ publisher < arguments.threads, ∀ message other : Nat × Nat,
    Prod.Lex (· < ·) (· < ·) message other → ∀ first second,
      StandsAt entries first (payload publisher message.1 message.2) →
        StandsAt entries second (payload publisher other.1 other.2) → first < second

section

variable {arguments : BenchArguments} {log : List Push}
  {final : Ensemble (TableWriter (MemoryTable MessageEntry))
    (Delivery (MemoryTable MessageEntry))}
  {entries : List MessageEntry}

theorem nodup_payloads (hall : Ensemble.PublishedAll (plans arguments) log final entries) :
    (entries.map MessageEntry.payload).Nodup :=
  (payloads_perm hall).nodup_iff.mpr ((nodup_texts _ _).map stored_injective)

theorem mem_texts_of_standsAt
    (hall : Ensemble.PublishedAll (plans arguments) log final entries)
    {publisher request place index : Nat}
    (hstands : StandsAt entries index (payload publisher request place)) :
    payload publisher request place ∈
      texts (sizes arguments.messages arguments.batch) publisher := by
  have hmem := (payloads_perm hall).subset (List.mem_of_getElem? hstands)
  obtain ⟨text, htext, hsame⟩ := List.mem_map.mp hmem
  obtain rfl := stored_injective hsame
  obtain ⟨owner, -, hmade⟩ := List.mem_flatMap.mp htext
  obtain ⟨made, hplace, heq⟩ := List.mem_map.mp hmade
  obtain ⟨rfl, -, -⟩ := payload_inj heq
  exact hmade

/-- Of two messages of one publisher the one that stands first was made first. -/
theorem lex_of_standsAt (hall : Ensemble.PublishedAll (plans arguments) log final entries)
    {publisher : Nat} (hlt : publisher < arguments.threads) {message other : Nat × Nat}
    {first second : Nat} (hfirst : StandsAt entries first (payload publisher message.1 message.2))
    (hsecond : StandsAt entries second (payload publisher other.1 other.2))
    (hless : first < second) : Prod.Lex (· < ·) (· < ·) message other := by
  have hmade : ((texts (sizes arguments.messages arguments.batch) publisher).map stored).Pairwise
      fun before after => ∀ message other : Nat × Nat,
        before = stored (payload publisher message.1 message.2) →
        after = stored (payload publisher other.1 other.2) →
          Prod.Lex (· < ·) (· < ·) message other := by
    rw [texts, List.map_map, List.pairwise_map]
    refine (places_increasing _).imp ?_
    rintro ⟨request, place⟩ ⟨request', place'⟩ hlex message other hbefore hafter
    obtain ⟨-, hrequest, hplace⟩ := payload_inj (stored_injective hbefore)
    obtain ⟨-, hrequest', hplace'⟩ := payload_inj (stored_injective hafter)
    subst hrequest hplace hrequest' hplace'
    exact hlex
  have hheld := pairwise_of_sublist hmade (payloads_sublist hall hlt) (nodup_payloads hall)
  obtain ⟨hlt, hget⟩ := List.getElem?_eq_some_iff.mp hfirst
  obtain ⟨hlt', hget'⟩ := List.getElem?_eq_some_iff.mp hsecond
  have hpair := List.pairwise_iff_getElem.mp hheld first second hlt hlt' hless
  rw [hget, hget'] at hpair
  exact hpair (List.mem_map_of_mem (mem_texts_of_standsAt hall hfirst))
    (List.mem_map_of_mem (mem_texts_of_standsAt hall hsecond)) message other rfl rfl

theorem holdsAll_of_publishedAll
    (hall : Ensemble.PublishedAll (plans arguments) log final entries) :
    HoldsAll arguments entries where
  length_eq := by
    have hlength := (payloads_perm hall).length_eq
    simp only [List.length_map, List.length_flatMap, length_texts, sum_sizes,
      List.map_const', List.length_range, List.sum_replicate, smul_eq_mul] at hlength
    exact hlength
  count_eq publisher hlt request size hsize place hplace := by
    have hmem : payload publisher request place ∈
        texts (sizes arguments.messages arguments.batch) publisher :=
      List.mem_map.mpr ⟨(request, place), mem_places.mpr ⟨size, hsize, hplace⟩, rfl⟩
    exact List.count_eq_one_of_mem (nodup_payloads hall)
      ((payloads_sublist hall hlt).subset (List.mem_map_of_mem hmem))
  in_order publisher hlt message other hlex first second hfirst hsecond := by
    have hirrefl : ∀ message : Nat × Nat, ¬Prod.Lex (· < ·) (· < ·) message message :=
      fun message hself => by simp [Prod.lex_def] at hself
    rcases Nat.lt_trichotomy first second with hless | heq | hmore
    · exact hless
    · subst heq
      have hsame := stored_injective (Option.some.inj (hfirst.symm.trans hsecond))
      obtain ⟨-, hrequest, hplace⟩ := payload_inj hsame
      rw [Prod.ext hrequest hplace] at hlex
      exact absurd hlex (hirrefl other)
    · have hback := lex_of_standsAt hall hlt hsecond hfirst hmore
      rw [Prod.lex_def] at hlex hback
      omega

end

/-! ## Runs -/

theorem weigh_plans (arguments : BenchArguments) :
    weigh (plans arguments).flatten = arguments.threads * arguments.messages := by
  have hplan : ∀ publisher < arguments.threads,
      weigh (requests arguments publisher) = arguments.messages := by
    intro publisher hlt
    have hplans := List.mem_of_getElem? (plans_getElem? arguments hlt)
    have hweight : (requests arguments publisher).map Request.weight =
        (requests arguments publisher).map fun request => request.payloads.length :=
      List.map_congr_left fun request hmem =>
        max_eq_right (List.length_pos_iff.mpr (payloads_ne_nil arguments _ hplans request hmem))
    rw [weigh, hweight, ← List.length_flatMap, flatMap_payloads, List.length_map, length_texts,
      sum_sizes]
  have hweights : (plans arguments).map weigh =
      List.replicate arguments.threads arguments.messages := by
    rw [plans, List.map_map, List.eq_replicate_iff, List.length_map, List.length_range]
    refine ⟨rfl, fun weight hmem => ?_⟩
    obtain ⟨publisher, hlt, rfl⟩ := List.mem_map.mp hmem
    exact hplan publisher (List.mem_range.mp hlt)
  have hsum : weigh (plans arguments).flatten = ((plans arguments).map weigh).sum := by
    rw [weigh, List.map_flatten, List.sum_flatten, List.map_map]
    rfl
  rw [hsum, hweights, List.sum_replicate, smul_eq_mul]

section

variable (arguments : BenchArguments) (clock : Clock)

/-- Nothing is under way in an empty table in memory, and it never fails. -/
theorem isReady_empty : TableWriter.IsReady MemoryTable.ledger
    (fun table : MemoryTable MessageEntry => table.closed = false ∧ table.failures = [])
    { table := {}, clock } :=
  ⟨⟨rfl, rfl⟩, rfl⟩

theorem inTurn_run (schedule : List Nat) :
    @Ensemble.InTurn .message _ _ MemoryTable.ledger
      (fun table => table.closed = false ∧ table.failures = []) [] (plans arguments)
      ((publishers arguments { table := {}, clock }).pushes Ensemble.messageWriter schedule)
      ((publishers arguments { table := {}, clock }).run Ensemble.messageWriter schedule) := by
  rw [publishers_eq]
  exact @Ensemble.inTurn_run .message _ _ MemoryTable.ledger _ MemoryTable.reliable _
    (isReady_empty clock) (plans arguments) schedule

/-- No call of a publisher fails, so none of them gives up. -/
theorem giveUp_eq (schedule : List Nat) (index : Nat) {publisher : Thread}
    (hpublisher : ((publishers arguments { table := {}, clock }).run Ensemble.messageWriter
      schedule).threads[index]? = some publisher) : giveUp publisher = publisher := by
  have hinTurn := inTurn_run arguments clock schedule
  obtain ⟨plan, hplan⟩ := hinTurn.exists_plan hpublisher
  unfold giveUp
  split
  next error earlier hreturns =>
    obtain ⟨request, hrequest, block, hverdict⟩ :=
      hinTurn.verdict_of_returned MemoryTable.reliable hpublisher hplan
        (hreturns ▸ List.mem_cons_self)
    have hpayloads := payloads_ne_nil arguments _ (List.mem_of_getElem? hplan) _ hrequest
    rw [Shape.verdict, Shape.draft, if_neg hpayloads] at hverdict
    simp at hverdict
  next => rfl

theorem stepPublisher_eq (schedule : List Nat) (index : Nat) :
    stepPublisher Ensemble.messageWriter
        ((publishers arguments { table := {}, clock }).run Ensemble.messageWriter schedule) index =
      (publishers arguments { table := {}, clock }).run Ensemble.messageWriter
        (schedule ++ [index]) := by
  rw [stepPublisher, Ensemble.run_append]
  refine congrArg (Ensemble.mk _) (Array.ext_getElem? fun other => ?_)
  rw [Array.getElem?_modify]
  split
  next =>
    refine (Option.map_congr fun thread hthread => ?_).trans (congrFun Option.map_id _)
    refine giveUp_eq arguments clock (schedule ++ [index]) other ?_
    rw [Ensemble.run_append]
    exact hthread
  next => rfl

theorem runPublishers_eq (earlier schedule : List Nat) :
    runPublishers Ensemble.messageWriter
        ((publishers arguments { table := {}, clock }).run Ensemble.messageWriter earlier)
        schedule =
      (publishers arguments { table := {}, clock }).run Ensemble.messageWriter
        (earlier ++ schedule) := by
  induction schedule generalizing earlier with
  | nil => rw [List.append_nil]; rfl
  | cons index schedule ih =>
      rw [runPublishers, List.foldl_cons, stepPublisher_eq, ← runPublishers, ih,
        List.append_assoc, List.singleton_append]

theorem runRounds_eq (limit : Nat) (schedule : List Nat) :
    ((publishers arguments { table := {}, clock }).run Ensemble.messageWriter schedule).runRounds
        (runPublishers Ensemble.messageWriter) limit =
      ((publishers arguments { table := {}, clock }).run Ensemble.messageWriter
        schedule).runInTurn Ensemble.messageWriter limit := by
  unfold Ensemble.runInTurn
  induction limit generalizing schedule with
  | zero => rfl
  | succ limit ih =>
      unfold Ensemble.runRounds
      split
      next => rfl
      next =>
        dsimp only
        rw [runPublishers_eq, ih, Ensemble.run_append]

/-- In fair turns the publishers are done some time, if the clock shows a
timestamp for each of their messages. -/
theorem fair_publishers_end
    (hrises : clock.Rises (arguments.threads * arguments.messages) none) {order : Nat → Nat}
    (hfair : Ensemble.IsFair arguments.threads order) :
    ∃ count, ((publishers arguments { table := {}, clock }).after Ensemble.messageWriter order
      count).threads.all Thread.isDone = true := by
  rw [publishers_eq]
  exact @Ensemble.fair_publishing_ends .message _ _ MemoryTable.ledger _ MemoryTable.reliable _
    (isReady_empty clock) (plans arguments) (by rwa [weigh_plans]) _ (by rwa [length_plans])

/-- The rounds in which the program lets them take turns come to an end. -/
theorem exists_rounds (hrises : clock.Rises (arguments.threads * arguments.messages) none) :
    ∃ rounds final, (publishers arguments { table := {}, clock }).runRounds
      (runPublishers Ensemble.messageWriter) rounds = some final := by
  have hsize : (publishers arguments { table := ({} : MemoryTable MessageEntry), clock } :
      Ensemble (TableWriter (MemoryTable MessageEntry))
        (Delivery (MemoryTable MessageEntry))).threads.size = arguments.threads := by
    rw [publishers_eq, Ensemble.publishing, List.size_toArray, List.length_map, length_plans]
  obtain ⟨count, hdone⟩ :=
    fair_publishers_end arguments clock hrises (Ensemble.isFair_mod arguments.threads)
  rw [← hsize] at hdone
  obtain ⟨rounds, final, hrounds⟩ := Ensemble.exists_runInTurn hdone
  exact ⟨rounds, final, (runRounds_eq arguments clock rounds []).trans hrounds⟩

end

/-- The messages of a publisher are cut into requests of one size, the last one
aside.  However the publishers of a benchmark over an empty table in memory take
turns, none of them gives up, and once they are done all of them are accounted for:
the report counts the requests and the messages, and the table holds every message
once.  They are done some time if each of them has its turn time and again, and the
clock shows a timestamp for each message. -/
theorem publishers_account_for_all_messages (arguments : BenchArguments) (clock : Clock) :
    let cut := sizes arguments.messages arguments.batch
    let most := max arguments.batch 1
    let requests := arguments.messages ⌈/⌉ most
    let start := publishers arguments { table := {}, clock }
    (cut.sum = arguments.messages ∧ cut.length = requests ∧
      (∀ size ∈ cut, 1 ≤ size ∧ size ≤ most) ∧ ∀ size ∈ cut.dropLast, size = most) ∧
    (∀ schedule : List Nat,
      let final := runPublishers Ensemble.messageWriter start schedule
      final = start.run Ensemble.messageWriter schedule ∧
      (final.threads.all Thread.isDone = true →
        report arguments final = .ok {
          threads := arguments.threads
          requests := arguments.threads * requests
          messages := arguments.threads * arguments.messages } ∧
        ∃ last, final.coordinator.flight = .resting last [] ∧
          HoldsAll arguments last.table.entries.toList)) ∧
    ∀ order : Nat → Nat, Ensemble.IsFair arguments.threads order →
      clock.Rises (arguments.threads * arguments.messages) none →
        ∃ count, (start.after Ensemble.messageWriter order count).threads.all
          Thread.isDone = true := by
  intro cut most requests start
  refine ⟨⟨sum_sizes _ _, length_sizes _ _, fun size => size_bounds,
    fun size => size_of_mem_dropLast⟩, ?_, fun order hfair hrises =>
    fair_publishers_end arguments clock hrises hfair⟩
  intro schedule final
  have hfinal : final = start.run Ensemble.messageWriter schedule :=
    runPublishers_eq arguments clock [] schedule
  refine ⟨hfinal, fun hdone => ?_⟩
  rw [hfinal] at hdone ⊢
  obtain ⟨last, hflight, hall⟩ :=
    (inTurn_run arguments clock schedule).publishedAll hdone (payloads_ne_nil arguments)
  exact ⟨report_eq fun publisher hlt => written_of_publishedAll hall hlt, last, hflight,
    holdsAll_of_publishedAll hall⟩

end Bench

end MessageStore
