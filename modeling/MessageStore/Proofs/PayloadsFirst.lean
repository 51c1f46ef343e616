import MessageStore.Proofs.PublishAndDump

/-!
# Payloads come first

A publish to the payload table gives the message journal a reference only when
the payload journal has all the payloads.  Whatever step of writing the payloads
fails, the message journal is left alone then.

All this needs that a line which was cut short before is cut off by the repair,
and a repair looks at the path before the opening makes directories.  A path that
goes through a missing directory and back up again leads to no file at first and
to an old one later.
-/

namespace MessageStore

namespace Publish

variable {limit : Nat} {config : Config} {arguments : PublishArguments} {clock later : Clock}
  {volume between after : Volume} {conclusion : Conclusion}

/-! ## The two phases -/

/-- The payload journal has gained the payloads of a publish, in order and with its
topic and write pointer, behind what the repair has kept. -/
def GainsPayloads (config : Config) (arguments : PublishArguments) (volume after : Volume) :
    Prop :=
  ∃ location id, ∃ kept block : List PayloadEntry,
    after.tree.find config.payloadJournal = .ok (location, .file id) ∧
    Scan.validEntries PayloadEntry (after.content id).bytes = kept ++ block ∧
    Journal.Kept volume id kept ∧
    (block.map fun entry => (entry.topic, entry.writePointer, entry.payload)) =
      arguments.payloads.map fun text =>
        (arguments.topic, arguments.writePointer, Utf8.encode text)

/-- Other entries than before are read from the message journal. -/
def ChangesMessages (config : Config) (volume after : Volume) : Prop :=
  ∃ location id, after.tree.find config.messageJournal = .ok (location, .file id) ∧
    Scan.validEntries MessageEntry (after.content id).bytes ≠
      Scan.validEntries MessageEntry (volume.content id).bytes

theorem not_changesMessages (hspares : volume.Spares after config.messageJournal) :
    ¬ ChangesMessages config volume after := by
  rintro ⟨location, id, hfind, hchanged⟩
  rw [(hspares.same location id hfind).2] at hchanged
  exact hchanged rfl

/-- A publish to the payload table ends with its first phase if that fails. -/
theorem run_cases (htable : arguments.payloadTable = true) {pointer : UInt64}
    (hpointer : arguments.writePointer = some pointer)
    (hrun : run limit config arguments clock volume = some conclusion) :
    ∃ outcome later between,
      toJournal Shape.payload limit config config.payloadJournal arguments.payloadRequest clock
        volume = some (outcome, later, between) ∧
      ((∃ failure, outcome = .error failure ∧ conclusion.failure = some failure ∧
          conclusion.volume = between) ∨
        ∃ receipt, outcome = .ok receipt ∧
          messagePhase limit config arguments [.json receipt.toJson] later between =
            some conclusion) := by
  simp only [run, htable, hpointer, Option.isNone_some, Bool.not_true, Bool.false_eq_true,
    if_false] at hrun
  split at hrun
  next => contradiction
  next failure later between hpayloads =>
    cases hrun
    exact ⟨_, later, between, hpayloads, .inl ⟨failure, rfl, rfl, rfl⟩⟩
  next receipt later between hpayloads =>
    exact ⟨_, later, between, hpayloads, .inr ⟨receipt, rfl, hrun⟩⟩

theorem messagePhase_tends (hsound : volume.Sound) {printed : List Printed}
    (hrun : messagePhase limit config arguments printed clock volume = some conclusion) :
    volume.Tends conclusion.volume config.messageJournal := by
  rw [messagePhase] at hrun
  split at hrun
  next => contradiction
  next hmessages =>
    cases hrun
    exact toJournal_tends hsound hmessages
  next hmessages =>
    cases hrun
    exact toJournal_tends hsound hmessages

theorem map_of_carries {block : List PayloadEntry}
    (hcarries : List.Forall₂ (TableKind.payload.Carries arguments.payloadRequest)
      (TableKind.payload.whole arguments.payloadRequest) block) :
    (block.map fun entry => (entry.topic, entry.writePointer, entry.payload)) =
      arguments.payloads.map fun text =>
        (arguments.topic, arguments.writePointer, Utf8.encode text) := by
  rw [TableKind.whole, PublishArguments.payloadRequest_payloads, PublishArguments.payloadBytes,
    List.map_map, List.forall₂_map_left_iff] at hcarries
  generalize arguments.payloads = texts at hcarries
  induction hcarries with
  | nil => rfl
  | cons hentry _ ih =>
      obtain ⟨htopic, hpointer, hpayload⟩ := hentry
      rw [List.map_cons, List.map_cons, ih, htopic, hpointer, Option.some.inj hpayload]
      rfl

theorem gainsPayloads (hsound : volume.Sound)
    (hdistinct : volume.Distinct "messages.jsonl" "payloads.jsonl")
    (hmends : Journal.Mends PayloadEntry config volume config.payloadJournal) {receipt : Receipt}
    (hrun : toJournal Shape.payload limit config config.payloadJournal arguments.payloadRequest
      clock volume = some (.ok receipt, later, between))
    (htends : between.Tends after config.messageJournal) :
    GainsPayloads config arguments volume after := by
  have hpayloads := toJournal_tends hsound hrun
  obtain ⟨location, id, kept, block, hfind, hwhole, hkept, hcarries⟩ :=
    toJournal_acknowledged .payload hsound hmends hrun
  have hspares : between.Spares after config.payloadJournal :=
    htends.spares (hpayloads.sound hsound) Path.isPlain_messages Path.isPlain_payloads (by decide)
      (by decide) (hpayloads.distinct hsound (by decide) hdistinct)
  have hstays := hspares.stays location id hfind
  refine ⟨location, id, kept, block, hstays, ?_, hkept, map_of_carries hcarries⟩
  rw [(hspares.same location id hstays).2]
  exact hwhole.validEntries_eq

/-- If a publish to the payload table has changed what is read from the message
journal, or has not failed, then its payloads are all there to be read from the
payload journal.  And if the payloads cannot be written, whichever step fails and
whatever of them is in the file then, the publish fails as that did and leaves the
message journal alone. -/
theorem references_follow_their_payloads (hsound : volume.Sound)
    (hdistinct : volume.Distinct "messages.jsonl" "payloads.jsonl")
    (htable : arguments.payloadTable = true) {pointer : UInt64}
    (hpointer : arguments.writePointer = some pointer)
    (hrun : run limit config arguments clock volume = some conclusion) :
    (Journal.Mends PayloadEntry config volume config.payloadJournal →
      ChangesMessages config volume conclusion.volume ∨ conclusion.failure = none →
        GainsPayloads config arguments volume conclusion.volume) ∧
    ∀ failure later between,
      toJournal Shape.payload limit config config.payloadJournal arguments.payloadRequest clock
          volume = some (.error failure, later, between) →
        conclusion.failure = some failure ∧ conclusion.volume = between ∧
          volume.Spares conclusion.volume config.messageJournal := by
  obtain ⟨outcome, later, between, hpayloads, hcases⟩ := run_cases htable hpointer hrun
  have htends := toJournal_tends hsound hpayloads
  have hspares : volume.Spares between config.messageJournal :=
    htends.spares hsound Path.isPlain_payloads Path.isPlain_messages (by decide) (by decide)
      hdistinct.symm
  constructor
  · intro hmends hdone
    rcases hcases with ⟨failure, rfl, hfailed, rfl⟩ | ⟨receipt, rfl, hmessages⟩
    · rcases hdone with hchanged | hnone
      · exact absurd hchanged (not_changesMessages hspares)
      · rw [hfailed] at hnone
        contradiction
    · exact gainsPayloads hsound hdistinct hmends hpayloads
        (messagePhase_tends (htends.sound hsound) hmessages)
  · intro failure otherLater otherBetween hfailed
    obtain ⟨rfl, rfl, rfl⟩ : outcome = .error failure ∧ later = otherLater ∧
        between = otherBetween := by
      simpa using hpayloads.symm.trans hfailed
    rcases hcases with ⟨other, hsame, hconclusion, rfl⟩ | ⟨receipt, hsame, -⟩
    · cases hsame
      exact ⟨hconclusion, rfl, hspares⟩
    · contradiction

end Publish

theorem Journal.mends_of_find {E : Type} [TableEntry E] {config : Config} {volume : Volume}
    {path : String} {location : Location} {id : Nat}
    (hquiet : volume.faults volume.operations = none)
    (hfind : volume.tree.find path = .ok (location, .file id)) : Mends E config volume path :=
  fun _ _ _ _ _ _ => .inl ⟨_, _, Volume.fileSize_found hfind hquiet⟩

/-! ## A payload journal with a torn line -/

namespace Volume

theorem ready_withTornPayload : Publish.Ready .inWorkingDirectory withTornPayload [] [] := by
  have hplaces : withTornPayload.tree.Places Config.inWorkingDirectory.payloadJournal []
      "payloads.jsonl" (some 0) := .of_name Path.isPlain_payloads (by decide) (by decide)
  have hmissing : withTornPayload.tree.Places Config.inWorkingDirectory.messageJournal []
      "messages.jsonl" none := .of_name Path.isPlain_messages (by decide) (by decide)
  have hquiet : withTornPayload.Faultless := fun _ => rfl
  have hopens : ∃ id opened,
      Journal.Opens withTornPayload Config.inWorkingDirectory.payloadJournal id opened :=
    ⟨_, Journal.exists_opens hquiet hplaces hplaces.directories⟩
  have hopensMessages : ∃ id opened,
      Journal.Opens withTornPayload Config.inWorkingDirectory.messageJournal id opened :=
    ⟨_, Journal.exists_opens hquiet hmissing hmissing.directories⟩
  refine ⟨⟨hquiet, sound_withTornPayload, hopensMessages, ?_⟩,
    ⟨hquiet, sound_withTornPayload, hopens, ?_⟩,
    Config.pair hquiet sound_withTornPayload hopensMessages hopens ?_⟩
  · rw [contentAt?, hmissing.find_none]
    exact Scan.Whole.nil.validPrefix
  · rw [contentAt?, hplaces.find]
    exact ⟨[], [0x7B], rfl, .nil, Scan.stuck_of_unbroken (by decide)⟩
  · intro location place id hfind
    rw [hmissing.find_none] at hfind
    contradiction

end Volume

namespace Publish

/-- The torn line is cut off, and the payload and its reference are written.  When
the repair fails nothing is. -/
theorem torn_payload_gives_way :
    (∃ limit conclusion,
      run limit .inWorkingDirectory onePayload (.stopped 9) .withTornPayload = some conclusion ∧
      conclusion.failure = none ∧
      GainsPayloads .inWorkingDirectory onePayload .withTornPayload conclusion.volume) ∧
    ∃ failing : Volume, ∃ conclusion,
      run 0 .inWorkingDirectory onePayload (.stopped 9) failing = some conclusion ∧
      conclusion.failure = some (.repairingJournal Config.inWorkingDirectory.payloadJournal
        (.io (.system .storageFull))) ∧
      failing.Spares conclusion.volume Config.inWorkingDirectory.messageJournal := by
  constructor
  · have hclock : (Clock.stopped 9).Suffices onePayload.payloads.length :=
      ⟨1, Clock.rises_one _, by decide⟩
    obtain ⟨enough, publication, harguments, hwhole, hrun, -⟩ :=
      Volume.ready_withTornPayload.publish rfl onePayload hclock
    have hnone : publication.conclusion.failure = none := by
      rw [hwhole.failure, harguments]
      rfl
    have hplaces : Volume.withTornPayload.tree.Places Config.inWorkingDirectory.payloadJournal []
        "payloads.jsonl" (some 0) := .of_name Path.isPlain_payloads (by decide) (by decide)
    have hgains := references_follow_their_payloads Volume.sound_withTornPayload
      Volume.distinct_withTornPayload rfl rfl (hrun enough (Nat.le_refl _))
    exact ⟨enough, publication.conclusion, hrun enough (Nat.le_refl _), hnone,
      hgains.1 (Journal.mends_of_find rfl hplaces.find) (.inr hnone)⟩
  · let failing : Volume :=
      { Volume.withTornPayload with faults := fun _ => some ⟨.storageFull, 0⟩ }
    have hstops : run 0 .inWorkingDirectory onePayload (.stopped 9) failing =
        some { failure := some (.repairingJournal Config.inWorkingDirectory.payloadJournal
            (.io (.system .storageFull))), volume := { failing with operations := 1 } } := rfl
    have hsound : failing.Sound := Volume.sound_withTornPayload
    have hspares := (references_follow_their_payloads hsound Volume.distinct_withTornPayload rfl
      rfl hstops).2 _ _ _ rfl
    exact ⟨failing, _, hstops, rfl, hspares.2.2⟩

open Volume (withTornPayload)

/-- By a path that leads to nothing until a directory is made, a torn line is not cut
off.  The payload is written behind it and cannot be read, and still the message
journal gets the reference. -/
theorem reference_without_a_payload : ∃ limit conclusion reference,
    run limit .throughAnother onePayload (.stopped 9) withTornPayload = some conclusion ∧
    conclusion.failure = none ∧
    (Journal.readValid (E := MessageEntry) withTornPayload
      Config.throughAnother.messageJournal).1 = .ok [] ∧
    (Journal.readValid (E := MessageEntry) conclusion.volume
      Config.throughAnother.messageJournal).1 = .ok [reference] ∧
    reference.topic = onePayload.topic ∧ reference.writePointer = onePayload.writePointer ∧
    reference.payload = none ∧
    (Journal.readValid (E := PayloadEntry) conclusion.volume
      Config.throughAnother.payloadJournal).1 = .ok [] := by
  obtain ⟨enough, conclusion, reference, hrun, hnone, hserves, hreference, location, block, hfind,
    hbytes⟩ := run_behind_torn_line
  refine ⟨enough, conclusion, reference, hrun enough (Nat.le_refl _), hnone, ?_,
    hserves.readValid, ?_, ?_, ?_,
    Journal.readValid_behind_torn_line hserves.faultless hfind hbytes⟩
  · have hmissing : withTornPayload.tree.find Config.throughAnother.messageJournal =
        .error (.system .notFound) :=
      Volume.find_missing_another Path.isPlain_messages Volume.check_messages_another
    rw [Journal.readValid, Journal.scan_missing (fun _ => rfl) hmissing]
    rfl
  · rw [hreference]
    rfl
  · rw [hreference]
    rfl
  · rw [hreference]
    rfl

end Publish

end MessageStore
