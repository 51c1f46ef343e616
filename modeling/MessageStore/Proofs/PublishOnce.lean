import MessageStore.Proofs.DeliveryEnd
import MessageStore.Proofs.JournalPairs

/-!
# Publishing one request

Without faults a request that is published to a journal leaves one block of
entries behind the valid prefix, all that it asks for, unless it is refused.
It comes to its end if the clock moves on once for every timestamp that the
payloads need.
-/

namespace MessageStore

/-- The clock moves on often enough for so many entries at new positions. -/
def Clock.Suffices (clock : Clock) (entries : Nat) : Prop :=
  ∃ count, clock.Rises count none ∧ entries ≤ Sequencer.limit * count

theorem Clock.suffices_zero (clock : Clock) : clock.Suffices 0 :=
  ⟨0, .done _ _, Nat.zero_le _⟩

theorem Clock.suffices_of_increasing {clock : Clock} {entries : Nat}
    (hincreasing : ∀ index, index + 1 < entries →
      clock.reading (clock.reads + index) < clock.reading (clock.reads + index + 1)) :
    clock.Suffices entries := by
  refine ⟨entries, rises_of_increasing nofun hincreasing, ?_⟩
  rw [Sequencer.limit]
  omega

/-- One entry can always be made, so a request without payloads can leave a
reference. -/
theorem Clock.Suffices.chances_le {clock : Clock} {request : Request}
    (hclock : clock.Suffices request.payloads.length) :
    ∃ count, clock.Rises count none ∧
      (([request].map Pending.fresh).map Pending.chances).sum ≤ Sequencer.limit * count := by
  have hchances : (([request].map Pending.fresh).map Pending.chances).sum =
      max 1 request.payloads.length := by
    simp [Pending.chances_fresh]
  rw [hchances]
  obtain ⟨count, hrises, hfits⟩ := hclock
  cases count with
  | zero =>
      refine ⟨1, rises_one clock, ?_⟩
      rw [Sequencer.limit] at *
      omega
  | succ count =>
      refine ⟨count + 1, hrises, ?_⟩
      rw [Sequencer.limit] at *
      omega

theorem Shape.exists_receipt {E : Type} [TableEntry E] {shape : Shape E} {request : Request}
    {contents : List (Option Bytes)} (hdraft : shape.draft request = .ok contents)
    (entries : List E) : ∃ receipt, shape.verdict request entries = .ok receipt :=
  ⟨_, by rw [verdict, hdraft]⟩

/-- A table that keeps what it is given has one request as a whole in the end,
and nothing else has come to it. -/
theorem TableWriter.exists_write_one {kind : TableKind} {σ : Type} {table : Table σ kind.Entry}
    {shows : List kind.Entry → List kind.Entry → σ → Prop} (hkeeps : table.Keeps shows)
    {writer : TableWriter σ} (hnew : writer.sequencer = {}) {held : List kind.Entry}
    (hshows : shows held [] writer.table) (request : Request)
    (hclock : writer.clock.Suffices request.payloads.length) :
    ∃ (enough : Nat) (written : Written kind.Entry) (last : TableWriter σ),
      (∀ limit, enough ≤ limit → writer.write table kind.shape limit [Pending.fresh request] =
        some (.ok (), [written.pending], last)) ∧
      written.request = request ∧ written.IsWhole kind.shape ∧
      shows (held ++ written.block) [] last.table := by
  obtain ⟨count, hrises, hchances⟩ := hclock.chances_le
  have hstart : writer.clock.Rises count writer.sequencer.last := by
    rw [hnew]
    exact hrises
  obtain ⟨enough, ⟨result, pendings, last⟩, hwrite⟩ :=
    exists_write_of_rises kind.shape hkeeps.greedy hstart hchances
  obtain ⟨hfinished, hresult, hpendings, hlast⟩ :=
    (write_eq_some_iff ..).mp (hwrite enough (Nat.le_refl _))
  obtain ⟨hok, -, rows, hrequests, hrows, hwhole, -, hlater⟩ :=
    exists_kept hkeeps hshows [request] enough hfinished
  obtain ⟨written, rfl⟩ : ∃ written, rows = [written] := by
    have hlength := congrArg List.length hrequests
    rw [List.length_map] at hlength
    exact List.length_eq_one_iff.mp hlength
  have hpending : pendings = [written.pending] := hpendings.symm.trans hrows.symm
  refine ⟨enough, written, last, ?_, List.singleton_inj.mp hrequests,
    hwhole written (List.mem_singleton_self written), ?_⟩
  · rw [hok] at hresult
    rw [hresult, ← hpending]
    exact hwrite
  · rw [← hlast]
    rw [List.flatMap_singleton] at hlater
    exact hlater

theorem TableWriter.exists_writeOnce (kind : TableKind) {σ : Type} {table : Table σ kind.Entry}
    {shows : List kind.Entry → List kind.Entry → σ → Prop} (hkeeps : table.Keeps shows)
    (hcloses : ∀ {held state}, shows held [] state → (table.close state).1 = .ok ())
    (writer : TableWriter σ) (hnew : writer.sequencer = {}) {held : List kind.Entry}
    (hshows : shows held [] writer.table) (request : Request)
    (hclock : writer.clock.Suffices request.payloads.length) :
    ∃ enough block state last,
      (∀ limit, enough ≤ limit → writer.writeOnce table kind.shape limit request =
        some (kind.shape.verdict request block, last)) ∧
      kind.shape.Renders request (kind.shape.contents request) block ∧
      shows (held ++ block) [] state ∧ last.table = (table.close state).2 := by
  obtain ⟨enough, written, last, hwrite, rfl, hwhole, hlater⟩ :=
    exists_write_one hkeeps hnew hshows request hclock
  refine ⟨enough, written.block, last.table, { last with table := (table.close last.table).2 },
    fun limit hlimit => ?_, hwhole.renders, hlater, rfl⟩
  have houtcome : (written.pending.conclude (.ok ())).outcome =
      some (kind.shape.verdict written.request written.block) :=
    written.pending.keeps_conclude _ _ hwhole.outcome_eq
  have hwritten := hwrite limit hlimit
  rw [Pending.fresh] at hwritten
  rw [writeOnce, hwritten]
  simp only [close, hcloses hlater, List.head?_cons, Option.bind_some, houtcome]

namespace Publish

variable {config : Config} {path : String} {volume : Volume}

/-- A request that is published to a journal in use is told what becomes of
it, and leaves its block there. -/
theorem toJournal_serves (kind : TableKind) (hroom : Room.forBatch config.writer = .ok ())
    {held : List kind.Entry} (hserves : Journal.Serves volume path held) (request : Request)
    {clock : Clock} (hclock : clock.Suffices request.payloads.length) :
    ∃ enough block later after id opened,
      (∀ limit, enough ≤ limit →
        toJournal kind.shape limit config path request clock volume =
          some ((kind.shape.verdict request block).mapError .writing, later, after)) ∧
      kind.shape.Renders request (kind.shape.contents request) block ∧
      Journal.Serves after path (held ++ block) ∧
      Journal.Opens volume path id opened ∧ opened.Refills after id := by
  obtain ⟨id, opened, journal, ready, hopens, hready, hrefills, hfaultless, hsound, hhosts,
    hshows⟩ := hserves.openRepaired hroom
  have hcloses {held : List kind.Entry} {table : JournalTable}
      (hshows : JournalTable.Shows ready id held [] table) :
      ((JournalTable.behaviour kind.Entry).close table).1 = .ok () := by
    obtain ⟨closed, hclose, -⟩ := Journal.Serves.of_shows hfaultless hsound hhosts hshows
    rw [hclose]
  obtain ⟨enough, block, state, last, honce, hrenders, hlater, hlast⟩ :=
    TableWriter.exists_writeOnce kind (JournalTable.keeps hfaultless hhosts) hcloses
      { table := { journal, volume := ready }, clock } rfl hshows request hclock
  obtain ⟨closed, hclose, hmore, hafter⟩ :=
    Journal.Serves.of_shows hfaultless hsound hhosts hlater
  rw [hclose] at hlast
  refine ⟨enough, block, last.clock, closed.volume, id, opened, ?_, hrenders, hafter, hopens,
    hrefills.trans hmore⟩
  intro limit hlimit
  rw [toJournal, hready]
  simp only [honce limit hlimit, hlast]

theorem toJournal_alone (kind : TableKind) (hroom : Room.forBatch config.writer = .ok ())
    {first second : String} {E : Type} [TableEntry E] {held : List kind.Entry}
    {others : List E} (hserves : Journal.Serves volume first held)
    (hothers : Journal.Serves volume second others)
    (hpair : Journal.Pair volume first second) (request : Request) {clock : Clock}
    (hclock : clock.Suffices request.payloads.length) :
    ∃ enough block later after,
      (∀ limit, enough ≤ limit →
        toJournal kind.shape limit config first request clock volume =
          some ((kind.shape.verdict request block).mapError .writing, later, after)) ∧
      kind.shape.Renders request (kind.shape.contents request) block ∧
      Journal.Serves after first (held ++ block) ∧ Journal.Serves after second others ∧
      Journal.Pair after first second := by
  obtain ⟨enough, block, later, after, id, opened, hrun, hrenders, hafter, hopens, hrefills⟩ :=
    toJournal_serves kind hroom hserves request hclock
  obtain ⟨hfaultless, hsound, -, hvalid⟩ := hothers
  obtain ⟨hlater, hcontent⟩ := hpair.apart.left_alone hfaultless hsound hopens hrefills
  obtain ⟨other, both, _, _, hagain, -⟩ := hlater.apart_symm
  rw [← hcontent] at hvalid
  exact ⟨enough, block, later, after, hrun, hrenders, hafter,
    ⟨hafter.faultless, hafter.sound, ⟨other, both, hagain⟩, hvalid⟩, hlater⟩

end Publish

/-! ## What is to be published -/

namespace PublishArguments

/-- Why nothing is published. -/
def failure? (arguments : PublishArguments) : Option Failure :=
  if arguments.writePointer.isSome then none
  else if arguments.payloadTable then some .pointerMissing
  else if arguments.payloads = [] then
    some (.writing (.invalidRequest arguments.topic
      "only transactional messages can have an empty payload"))
  else none

/-- The texts of the entries for the message table.  A reference has none. -/
def messageTexts (arguments : PublishArguments) : List (Option String) :=
  if arguments.failure?.isSome then []
  else if arguments.payloadTable ∨ arguments.payloads = [] then [none]
  else arguments.payloads.map some

/-- The texts of the entries for the payload table. -/
def payloadTexts (arguments : PublishArguments) : List (Option String) :=
  if arguments.payloadTable ∧ arguments.writePointer.isSome then arguments.payloads.map some
  else []

variable {arguments : PublishArguments}

@[simp] theorem messageRequest_payloads (arguments : PublishArguments) :
    arguments.messageRequest.payloads =
      if arguments.payloadTable then [] else arguments.payloadBytes := by
  rw [messageRequest, Request.payloads_ofPayloads]

@[simp] theorem messageRequest_isTransactional (arguments : PublishArguments) :
    arguments.messageRequest.isTransactional = arguments.writePointer.isSome :=
  rfl

@[simp] theorem messageRequest_topic (arguments : PublishArguments) :
    arguments.messageRequest.topic = arguments.topic :=
  rfl

@[simp] theorem payloadRequest_payloads (arguments : PublishArguments) :
    arguments.payloadRequest.payloads = arguments.payloadBytes := by
  rw [payloadRequest, Request.payloads_ofPayloads]

theorem messageRequest_draft
    (hpointer : arguments.payloadTable = true → arguments.writePointer.isSome = true) :
    (∃ error, Shape.message.draft arguments.messageRequest = .error error ∧
        arguments.failure? = some (.writing error)) ∨
      Shape.message.draft arguments.messageRequest =
          .ok (arguments.messageTexts.map (Option.map Utf8.encode)) ∧
        arguments.failure? = none := by
  obtain ⟨topic, writePointer, payloadTable, payloads⟩ := arguments
  cases payloadTable <;> cases writePointer <;> cases payloads <;>
    simp_all [payloadBytes, Shape.draft, Shape.message, failure?, messageTexts]

theorem payloadRequest_draft (arguments : PublishArguments) :
    Shape.payload.draft arguments.payloadRequest = .ok (arguments.payloadBytes.map some) := by
  rw [Shape.draft, payloadRequest_payloads]
  split
  next hnone =>
    rw [hnone]
    rfl
  next => rfl

end PublishArguments

/-- A publish that has been carried out, with the entries that it left in the
two tables. -/
structure Publication where
  arguments : PublishArguments
  conclusion : Conclusion
  messages : List MessageEntry
  payloads : List PayloadEntry

/-- It left all that its arguments ask for, and fails if they cannot be
published. -/
structure Publication.IsWhole (publication : Publication) : Prop where
  failure : publication.conclusion.failure = publication.arguments.failure?
  messages : Shape.message.Renders publication.arguments.messageRequest
    (publication.arguments.messageTexts.map (Option.map Utf8.encode)) publication.messages
  payloads : Shape.payload.Renders publication.arguments.payloadRequest
    (publication.arguments.payloadTexts.map (Option.map Utf8.encode)) publication.payloads

namespace Publish

/-! ## Both journals -/

/-- Both journals are in use, as two files, and hold the given entries. -/
structure Ready (config : Config) (volume : Volume) (messages : List MessageEntry)
    (payloads : List PayloadEntry) : Prop where
  messages : Journal.Serves volume config.messageJournal messages
  payloads : Journal.Serves volume config.payloadJournal payloads
  pair : Journal.Pair volume config.messageJournal config.payloadJournal

/-- A publish comes to its end and leaves both journals in use, each with what
belongs into it. -/
def Completes (config : Config) (volume : Volume) (messages : List MessageEntry)
    (payloads : List PayloadEntry) (arguments : PublishArguments) (clock : Clock) : Prop :=
  ∃ (enough : Nat) (publication : Publication), publication.arguments = arguments ∧
    publication.IsWhole ∧
    (∀ limit, enough ≤ limit →
      run limit config arguments clock volume = some publication.conclusion) ∧
    Ready config publication.conclusion.volume (messages ++ publication.messages)
      (payloads ++ publication.payloads)

variable {config : Config} {volume : Volume} {messages : List MessageEntry}
  {payloads : List PayloadEntry}

namespace Ready

theorem messagePhase (hroom : Room.forBatch config.writer = .ok ())
    (hready : Ready config volume messages payloads) {arguments : PublishArguments}
    (hpointer : arguments.payloadTable = true → arguments.writePointer.isSome = true)
    (printed : List Printed) {clock : Clock}
    (hclock : clock.Suffices arguments.messageRequest.payloads.length) :
    ∃ enough conclusion block,
      (∀ limit, enough ≤ limit →
        Publish.messagePhase limit config arguments printed clock volume = some conclusion) ∧
      conclusion.failure = arguments.failure? ∧
      Shape.message.Renders arguments.messageRequest
        (arguments.messageTexts.map (Option.map Utf8.encode)) block ∧
      Ready config conclusion.volume (messages ++ block) payloads := by
  obtain ⟨enough, block, later, after, hrun, hrenders, hmessages, hpayloads, hpair⟩ :=
    toJournal_alone .message hroom hready.messages hready.payloads hready.pair
      arguments.messageRequest hclock
  have hafter : Ready config after (messages ++ block) payloads := ⟨hmessages, hpayloads, hpair⟩
  rw [TableKind.shape, Shape.contents] at hrenders
  rcases PublishArguments.messageRequest_draft hpointer with
    ⟨error, hdraft, hfailure⟩ | ⟨hdraft, hfailure⟩
  · refine ⟨enough, { printed, failure := some (.writing error), volume := after }, block, ?_,
      hfailure.symm, ?_, hafter⟩
    · intro limit hlimit
      have hjournal := hrun limit hlimit
      rw [TableKind.shape, Shape.verdict, hdraft] at hjournal
      rw [Publish.messagePhase, hjournal]
      rfl
    · rw [hdraft] at hrenders
      rw [PublishArguments.messageTexts, hfailure]
      exact hrenders
  · obtain ⟨receipt, hverdict⟩ := Shape.exists_receipt hdraft block
    refine ⟨enough, { printed := printed ++ [.json receipt.toJson], volume := after }, block, ?_,
      hfailure.symm, ?_, hafter⟩
    · intro limit hlimit
      have hjournal := hrun limit hlimit
      rw [TableKind.shape, hverdict] at hjournal
      rw [Publish.messagePhase, hjournal]
      rfl
    · rw [hdraft] at hrenders
      exact hrenders

theorem publish_messages (hroom : Room.forBatch config.writer = .ok ())
    (hready : Ready config volume messages payloads) {arguments : PublishArguments}
    (htable : arguments.payloadTable = false) {clock : Clock}
    (hclock : clock.Suffices arguments.payloads.length) :
    Completes config volume messages payloads arguments clock := by
  have hlength : arguments.messageRequest.payloads.length = arguments.payloads.length := by
    simp [htable, PublishArguments.payloadBytes]
  rw [← hlength] at hclock
  obtain ⟨enough, conclusion, block, hrun, hfailure, hrenders, hafter⟩ :=
    hready.messagePhase hroom (by simp [htable]) [] hclock
  have hnone : arguments.payloadTexts = [] := by
    simp [PublishArguments.payloadTexts, htable]
  refine ⟨enough, ⟨arguments, conclusion, block, []⟩, rfl, ⟨hfailure, hrenders, ?_⟩, ?_, ?_⟩
  · rw [hnone]
    exact .nil
  · intro limit hlimit
    rw [run, htable]
    exact hrun limit hlimit
  · rw [List.append_nil]
    exact hafter

/-- The payload table is not for publishes outside any transaction. -/
theorem publish_refused (hready : Ready config volume messages payloads)
    {arguments : PublishArguments} (htable : arguments.payloadTable = true)
    (hpointer : arguments.writePointer = none) (clock : Clock) :
    Completes config volume messages payloads arguments clock := by
  have hfailure : arguments.failure? = some .pointerMissing := by
    simp [PublishArguments.failure?, htable, hpointer]
  refine ⟨0, ⟨arguments, { failure := some .pointerMissing, volume }, [], []⟩, rfl,
    ⟨hfailure.symm, ?_, ?_⟩, ?_, ?_⟩
  · rw [PublishArguments.messageTexts, hfailure]
    exact .nil
  · rw [PublishArguments.payloadTexts, hpointer, if_neg (by simp)]
    exact .nil
  · intro limit hlimit
    simp [run, htable, hpointer]
  · simpa using hready

/-- With the payload table the message journal gets its reference when the
payloads are there. -/
theorem publish_payloads (hroom : Room.forBatch config.writer = .ok ())
    (hready : Ready config volume messages payloads) {arguments : PublishArguments}
    (htable : arguments.payloadTable = true) {pointer : UInt64}
    (hpointer : arguments.writePointer = some pointer) {clock : Clock}
    (hclock : clock.Suffices arguments.payloads.length) :
    Completes config volume messages payloads arguments clock := by
  have hlength : arguments.payloadRequest.payloads.length = arguments.payloads.length := by
    simp [PublishArguments.payloadBytes]
  rw [← hlength] at hclock
  obtain ⟨enough, block, later, between, hfirst, hpayloadBlock, hpayloads, hmessages, hpair⟩ :=
    toJournal_alone .payload hroom hready.payloads hready.messages hready.pair.symm
      arguments.payloadRequest hclock
  obtain ⟨receipt, hverdict⟩ :=
    Shape.exists_receipt (PublishArguments.payloadRequest_draft arguments) block
  have hbetween : Ready config between messages (payloads ++ block) :=
    ⟨hmessages, hpayloads, hpair.symm⟩
  have hreference : later.Suffices arguments.messageRequest.payloads.length := by
    rw [PublishArguments.messageRequest_payloads, htable]
    exact later.suffices_zero
  obtain ⟨more, conclusion, messageBlock, hsecond, hfailure, hrenders, hafter⟩ :=
    hbetween.messagePhase hroom (by simp [hpointer]) [.json receipt.toJson] hreference
  refine ⟨max enough more, ⟨arguments, conclusion, messageBlock, block⟩, rfl,
    ⟨hfailure, hrenders, ?_⟩, ?_, hafter⟩
  · have htexts : arguments.payloadTexts.map (Option.map Utf8.encode) =
        arguments.payloadBytes.map some := by
      simp [PublishArguments.payloadTexts, htable, hpointer, PublishArguments.payloadBytes]
    rw [TableKind.shape, Shape.contents, PublishArguments.payloadRequest_draft] at hpayloadBlock
    rw [htexts]
    exact hpayloadBlock
  · intro limit hlimit
    have hjournal := hfirst limit (Nat.le_trans (Nat.le_max_left ..) hlimit)
    rw [TableKind.shape, hverdict] at hjournal
    rw [run, htable, hpointer, hjournal]
    exact hsecond limit (Nat.le_trans (Nat.le_max_right ..) hlimit)

theorem publish (hroom : Room.forBatch config.writer = .ok ())
    (hready : Ready config volume messages payloads) (arguments : PublishArguments)
    {clock : Clock} (hclock : clock.Suffices arguments.payloads.length) :
    Completes config volume messages payloads arguments clock := by
  cases htable : arguments.payloadTable with
  | false => exact hready.publish_messages hroom htable hclock
  | true =>
      cases hpointer : arguments.writePointer with
      | none => exact hready.publish_refused htable hpointer clock
      | some pointer => exact hready.publish_payloads hroom htable hpointer hclock

end Ready

end Publish

end MessageStore
