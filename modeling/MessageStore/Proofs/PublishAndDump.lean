import MessageStore.Command.Dump
import MessageStore.Proofs.UnseenLine

/-!
# What was published is printed

After any publishes without faults a dump prints the entries of the valid
prefix that was there before, and then, publish by publish, one line for each
entry that belongs into the table: its topic as text, and the text that was
given as its payload.

This needs that the repair before a journal is opened has looked at the file that
is opened then.  Otherwise a torn line stays there, and no text behind it is
printed.
-/

namespace MessageStore

/-! ## Lines -/

namespace Dump

/-- The line of a text for a topic, or of a reference if there is no text. -/
def lineOf (topic : Topic) (position : Position) (text : Option String) : Json :=
  .ofMembers <|
    [("topic", .ofString (topic.space ++ ":" ++ topic.name)),
      ("position", .ofString
        (toString position.timestamp.toNat ++ "." ++ toString position.sequence.toNat)),
      ("timestamp", .ofNat position.timestamp.toNat),
      ("sequence_id", .ofNat position.sequence.toNat)] ++
      Json.optionalMember "payload" Json.ofString text

variable {E : Type} [TableEntry E]

/-- The line of an entry.  Octets that are no text are replaced. -/
def lineFor (entry : E) : Json :=
  lineOf (TableEntry.topic entry) (TableEntry.position entry)
    ((TableEntry.payload entry).map Utf8.decodeLossy)

theorem line_eq_lineFor (entry : E) : line entry = lineFor entry := by
  rw [line, lineFor, lineOf]
  cases TableEntry.payload entry with
  | none => rfl
  | some payload => rfl

theorem lineFor_isWritten (entry : E) : (lineFor entry).IsWritten := by
  rw [lineFor, lineOf]
  apply Json.isWritten_ofMembers
  intro member hmem
  rcases List.mem_append.mp hmem with hfixed | hpayload
  · simp only [List.mem_cons, List.not_mem_nil, or_false] at hfixed
    rcases hfixed with rfl | rfl | rfl | rfl
    · exact Json.isWritten_ofString _
    · exact Json.isWritten_ofString _
    · exact Json.isWritten_ofNat _
    · exact Json.isWritten_ofNat _
  · cases htext : (TableEntry.payload entry).map Utf8.decodeLossy with
    | none =>
        rw [htext] at hpayload
        contradiction
    | some text =>
        rw [htext] at hpayload
        obtain rfl := List.mem_singleton.mp hpayload
        exact Json.isWritten_ofString text

/-- The entry is for the topic, holds just the text, and is printed with both. -/
structure Prints (topic : Topic) (text : Option String) (entry : E) : Prop where
  topic_eq : TableEntry.topic entry = topic
  payload_eq : TableEntry.payload entry = text.map Utf8.encode
  line_eq : lineFor entry = lineOf topic (TableEntry.position entry) text

theorem prints_of_payload {topic : Topic} {text : Option String} {entry : E}
    (htopic : TableEntry.topic entry = topic)
    (hpayload : TableEntry.payload entry = text.map Utf8.encode) : Prints topic text entry := by
  refine ⟨htopic, hpayload, ?_⟩
  have hshown : (TableEntry.payload entry).map Utf8.decodeLossy = text := by
    rw [hpayload, Option.map_map]
    cases text with
    | none => rfl
    | some text => exact congrArg some (Utf8.decodeLossy_encode text)
  rw [lineFor, htopic, hshown]

theorem Prints.exists_one {topic : Topic} {text : Option String} {entries : List E}
    (hprints : List.Forall₂ (Prints topic) [text] entries) :
    ∃ entry, Prints topic text entry ∧ entries = [entry] := by
  obtain ⟨entry, rest, hentry, hrest, rfl⟩ := List.forall₂_cons_left_iff.mp hprints
  exact ⟨entry, hentry, congrArg _ (List.forall₂_nil_left_iff.mp hrest)⟩

/-- The dump of a table prints one line for each entry, in order; if a topic is
asked for, one for each of the entries whose topic it is. -/
structure Lists (config : Config) (payloads : Bool) (volume : Volume) (entries : List E) :
    Prop where
  failure_eq : ∀ topic, (run config ⟨topic, payloads⟩ volume).failure = none
  printed_all : (run config ⟨none, payloads⟩ volume).printed =
    entries.map fun entry => .json (lineFor entry)
  printed_topic : ∀ topic, (run config ⟨some topic, payloads⟩ volume).printed =
    (entries.filter fun entry => TableEntry.topic entry = topic).map
      fun entry => .json (lineFor entry)
  unbroken : ∀ entry ∈ entries, 0x0A ∉ (lineFor entry).render

theorem printed_of_serves {path : String} {volume : Volume} {entries : List E}
    (hserves : Journal.Serves volume path entries) (topic : Option Topic) :
    (table E path topic volume).failure = none ∧
      (table E path topic volume).printed =
        (entries.filter fun entry => admits topic (TableEntry.topic entry)).map
          fun entry => .json (lineFor entry) := by
  have hlines : (fun entry : E => Printed.json (line entry)) =
      fun entry => .json (lineFor entry) :=
    funext fun entry => congrArg _ (line_eq_lineFor entry)
  have hread := hserves.readValid
  rw [table]
  split
  next cause after hfailed =>
    rw [hfailed] at hread
    contradiction
  next found after hfound =>
    rw [hfound] at hread
    cases hread
    exact ⟨rfl, congrArg (List.map · _) hlines⟩

theorem Lists.of_printed {config : Config} {payloads : Bool} {volume : Volume}
    {entries : List E}
    (hprinted : ∀ topic, (run config ⟨topic, payloads⟩ volume).failure = none ∧
      (run config ⟨topic, payloads⟩ volume).printed =
        (entries.filter fun entry => admits topic (TableEntry.topic entry)).map
          fun entry => .json (lineFor entry)) :
    Lists config payloads volume entries where
  failure_eq topic := (hprinted topic).1
  printed_all := by
    have hall : entries.filter (fun entry => admits none (TableEntry.topic entry)) = entries :=
      List.filter_eq_self.mpr fun _ _ => rfl
    rw [(hprinted none).2, hall]
  printed_topic topic := (hprinted (some topic)).2
  unbroken entry _ := (lineFor_isWritten entry).unbroken

end Dump

namespace Publish

/-! ## Publishing again and again -/

/-- Carries out publishes one after the other, each with the clock that it
reads: how each of them ends, and the volume afterwards. -/
def runAll (limit : Nat) (config : Config) :
    List (PublishArguments × Clock) → Volume → Option (List Conclusion × Volume)
  | [], volume => some ([], volume)
  | (arguments, clock) :: runs, volume =>
    match run limit config arguments clock volume with
    | none => none
    | some conclusion =>
      match runAll limit config runs conclusion.volume with
      | none => none
      | some (conclusions, volume) => some (conclusion :: conclusions, volume)

variable {config : Config} {volume : Volume} {messages : List MessageEntry}
  {payloads : List PayloadEntry}

namespace Ready

theorem publishAll (hroom : Room.forBatch config.writer = .ok ())
    (hready : Ready config volume messages payloads) {runs : List (PublishArguments × Clock)}
    (hclocks : ∀ run ∈ runs, run.2.Suffices run.1.payloads.length) :
    ∃ (enough : Nat) (publications : List Publication) (after : Volume),
      publications.map Publication.arguments = runs.map Prod.fst ∧
      (∀ publication ∈ publications, publication.IsWhole) ∧
      (∀ limit, enough ≤ limit → runAll limit config runs volume =
        some (publications.map Publication.conclusion, after)) ∧
      Ready config after (messages ++ publications.flatMap Publication.messages)
        (payloads ++ publications.flatMap Publication.payloads) := by
  induction runs generalizing volume messages payloads with
  | nil => exact ⟨0, [], volume, rfl, by simp, fun _ _ => rfl, by simpa using hready⟩
  | cons first runs ih =>
      obtain ⟨arguments, clock⟩ := first
      obtain ⟨hclock, hothers⟩ := List.forall_mem_cons.mp hclocks
      obtain ⟨enough, publication, rfl, hwhole, hrun, hbetween⟩ :=
        hready.publish hroom arguments hclock
      obtain ⟨more, publications, after, harguments, hall, hruns, hafter⟩ :=
        ih hbetween hothers
      refine ⟨max enough more, publication :: publications, after, ?_, ?_, ?_, ?_⟩
      · rw [List.map_cons, harguments, List.map_cons]
      · exact List.forall_mem_cons.mpr ⟨hwhole, hall⟩
      · intro limit hlimit
        rw [runAll, hrun limit (Nat.le_trans (Nat.le_max_left ..) hlimit)]
        simp only
        rw [hruns limit (Nat.le_trans (Nat.le_max_right ..) hlimit), List.map_cons]
      · rw [List.flatMap_cons, List.flatMap_cons, ← List.append_assoc, ← List.append_assoc]
        exact hafter

theorem lists_messages (hready : Ready config volume messages payloads) :
    Dump.Lists config false volume messages :=
  .of_printed (Dump.printed_of_serves hready.messages)

theorem lists_payloads (hready : Ready config volume messages payloads) :
    Dump.Lists config true volume payloads :=
  .of_printed (Dump.printed_of_serves hready.payloads)

end Ready

end Publish

/-! ## What is printed of a publish -/

namespace Publication

variable {publication : Publication}

/-- What a publish left is printed text by text, and it fails if it can leave
nothing. -/
structure IsPrinted (publication : Publication) : Prop where
  failure : publication.conclusion.failure = publication.arguments.failure?
  messages : List.Forall₂ (Dump.Prints publication.arguments.topic)
    publication.arguments.messageTexts publication.messages
  payloads : List.Forall₂ (Dump.Prints publication.arguments.topic)
    publication.arguments.payloadTexts publication.payloads

theorem IsWhole.isPrinted (hwhole : publication.IsWhole) : publication.IsPrinted := by
  refine ⟨hwhole.failure, ?_, ?_⟩
  · have hmessages := List.forall₂_map_left_iff.mp hwhole.messages
    refine hmessages.imp fun text entry hentry => ?_
    rw [hentry]
    exact Dump.prints_of_payload rfl rfl
  · have hpayloads := hwhole.payloads
    rw [PublishArguments.payloadTexts] at hpayloads ⊢
    split at hpayloads
    next hboth =>
      rw [if_pos hboth]
      rw [List.map_map, Shape.Renders, List.forall₂_map_left_iff] at hpayloads
      rw [List.forall₂_map_left_iff]
      refine hpayloads.imp fun text entry hentry => ?_
      rw [hentry]
      exact Dump.prints_of_payload rfl rfl
    next hneither =>
      rw [if_neg hneither, List.forall₂_nil_left_iff.mp hpayloads]
      exact .nil

end Publication

/-- In the directory of a store there are two files, unless one file had the
names of both. -/
theorem Config.pair {config : Config} {volume : Volume} (hfaultless : volume.Faultless)
    (hsound : volume.Sound)
    (hmessages : ∃ id opened, Journal.Opens volume config.messageJournal id opened)
    (hpayloads : ∃ id opened, Journal.Opens volume config.payloadJournal id opened)
    (htwo : Journal.TwoFiles volume config.messageJournal config.payloadJournal) :
    Journal.Pair volume config.messageJournal config.payloadJournal :=
  Journal.pair_of_names hfaultless hsound Path.isPlain_messages Path.isPlain_payloads
    (by decide) (by decide) hmessages hpayloads htwo

/-- The journal at a path can be opened, and a repair before has looked at the file
that this opens, unless it is a new one. -/
structure Journal.IsSeen (config : Config) (volume : Volume) (path : String) : Prop where
  opens : ∃ journal opened, «open» volume path config.storage.synced = (.ok journal, opened)
  looked : ∀ journal opened id,
    «open» volume path config.storage.synced = (.ok journal, opened) →
      journal.file = some id → id < volume.contents.size →
        ∃ size looked, volume.fileSize path = (.ok size, looked)

/-- What was looked at is what the path leads to, then as before; and a path that gets
a new file led to nothing before. -/
theorem Journal.IsSeen.exists_opens {config : Config} {volume : Volume} {path : String}
    (hseen : IsSeen config volume path) (hfaultless : volume.Faultless)
    (hsound : volume.Sound) : ∃ id opened, Opens volume path id opened := by
  obtain ⟨journal, opened, hopen⟩ := hseen.opens
  obtain ⟨id, rfl, -⟩ := open_eq_ok hsound hopen
  obtain ⟨tree, hmade, hfile⟩ := exists_tree_of_open hfaultless hopen
  have hextended := volume.tree.makeDirectories_extended (Path.above path)
  rw [hmade] at hextended
  obtain ⟨directory, name, found, hplaces, ⟨rfl, -⟩ | ⟨rfl, hnew, -⟩⟩ :=
    Volume.fileFor_places hfile
  · have hthere : id < volume.contents.size :=
      hsound.extended hextended _ _ _ (Tree.node?_of_lookup hplaces.standing)
    obtain ⟨size, looked, hlook⟩ := hseen.looked _ opened id hopen rfl hthere
    obtain ⟨-, place, hfind⟩ := Volume.fileSize_eq_ok hlook
    have hsame := (hextended.find path).eq_of_ok hfind
    obtain rfl := Except.ok.inj (hsame.symm.trans hplaces.find)
    exact ⟨id, opened, open_of_tree hfaultless hmade hfile, .inl ⟨_, hfind⟩⟩
  · refine ⟨id, opened, open_of_tree hfaultless hmade hfile, .inr ⟨?_, hnew⟩⟩
    rcases hextended.find path with hmissing | hsame
    · exact hmissing
    · exact hsame.symm.trans hplaces.find_none

theorem Journal.Opens.isSeen {config : Config} {volume opened : Volume} {path : String}
    {id : Nat} (hopens : Opens volume path id opened) (hfaultless : volume.Faultless) :
    IsSeen config volume path where
  opens := ⟨_, _, hopens.opens _⟩
  looked := by
    intro journal other file hopen hfile hthere
    rw [hopens.opens] at hopen
    cases hopen
    obtain rfl : id = file := Option.some.inj hfile
    obtain ⟨location, hfind⟩ := hopens.found_of_lt hthere
    exact ⟨_, _, Volume.fileSize_found hfind (hfaultless _)⟩

/-- Whatever the two journals held, after any publishes without faults a dump
prints the valid prefix that was there, and behind it what was published, one
after the other: no text is lost, doubled or changed.  A publish without
payloads and outside any transaction fails and leaves nothing. -/
theorem Publish.published_texts_are_dumped {config : Config} {volume : Volume}
    (hroom : Room.forBatch config.writer = .ok ()) (hfaultless : volume.Faultless)
    (hsound : volume.Sound)
    (hmessages : Journal.IsSeen config volume config.messageJournal)
    (hpayloads : Journal.IsSeen config volume config.payloadJournal)
    (htwo : Journal.TwoFiles volume config.messageJournal config.payloadJournal)
    {runs : List (PublishArguments × Clock)}
    (hclocks : ∀ run ∈ runs, run.2.Suffices run.1.payloads.length) :
    ∃ (messages : List MessageEntry) (payloads : List PayloadEntry)
      (publications : List Publication) (enough : Nat) (after : Volume),
      Scan.ValidPrefix ((volume.contentAt? config.messageJournal).getD []) messages ∧
      Scan.ValidPrefix ((volume.contentAt? config.payloadJournal).getD []) payloads ∧
      publications.map Publication.arguments = runs.map Prod.fst ∧
      (∀ publication ∈ publications, publication.IsPrinted) ∧
      (∀ limit, enough ≤ limit → runAll limit config runs volume =
        some (publications.map Publication.conclusion, after)) ∧
      Dump.Lists config false after (messages ++ publications.flatMap Publication.messages) ∧
      Dump.Lists config true after (payloads ++ publications.flatMap Publication.payloads) := by
  have hopensMessages := hmessages.exists_opens hfaultless hsound
  have hopensPayloads := hpayloads.exists_opens hfaultless hsound
  obtain ⟨messages, hmessages⟩ :=
    Scan.exists_validPrefix MessageEntry ((volume.contentAt? config.messageJournal).getD [])
  obtain ⟨payloads, hpayloads⟩ :=
    Scan.exists_validPrefix PayloadEntry ((volume.contentAt? config.payloadJournal).getD [])
  have hready : Ready config volume messages payloads :=
    ⟨⟨hfaultless, hsound, hopensMessages, hmessages⟩,
      ⟨hfaultless, hsound, hopensPayloads, hpayloads⟩,
      config.pair hfaultless hsound hopensMessages hopensPayloads htwo⟩
  obtain ⟨enough, publications, after, harguments, hwhole, hruns, hafter⟩ :=
    hready.publishAll hroom hclocks
  exact ⟨messages, payloads, publications, enough, after, hmessages, hpayloads, harguments,
    fun publication hmem => (hwhole publication hmem).isPrinted, hruns,
    hafter.lists_messages, hafter.lists_payloads⟩

/-- The journals are in the working directory itself. -/
def Config.inWorkingDirectory : Config :=
  { storage := { directory := "" } }

namespace Volume

/-- A message journal in the working directory, with nothing but a torn line. -/
def withTornLine : Volume :=
  { tree := { nodes := [(["messages.jsonl"], .file 0)] }
    contents := #[.ofBytes [0x7B]] }

theorem sound_withTornLine : withTornLine.Sound := by
  intro location id hfile
  have hstands : withTornLine.tree.node? location = none ∨
      withTornLine.tree.node? location = some .directory ∨
      withTornLine.tree.node? location = some (.file 0) := by
    by_cases hroot : location = []
    · exact .inr (.inl (if_pos hroot))
    · rw [Tree.node?, if_neg hroot, withTornLine]
      by_cases hthere : ["messages.jsonl"] = location <;> simp [hthere]
  rw [hfile] at hstands
  obtain rfl : id = 0 := by simpa using hstands
  exact Nat.zero_lt_one

theorem places_messages :
    withTornLine.tree.Places Config.inWorkingDirectory.messageJournal [] "messages.jsonl"
      (some 0) :=
  .of_name Path.isPlain_messages (by decide) (by decide)

theorem places_payloads :
    withTornLine.tree.Places Config.inWorkingDirectory.payloadJournal [] "payloads.jsonl" none :=
  .of_name Path.isPlain_payloads (by decide) (by decide)

theorem seen_messages : Journal.IsSeen .inWorkingDirectory withTornLine
    Config.inWorkingDirectory.messageJournal := by
  obtain ⟨opened, hopens⟩ := Journal.exists_opens (fun _ => rfl) places_messages
    (congrArg _ (Path.above_name Path.isPlain_messages))
  exact hopens.isSeen fun _ => rfl

theorem seen_payloads : Journal.IsSeen .inWorkingDirectory withTornLine
    Config.inWorkingDirectory.payloadJournal := by
  obtain ⟨opened, hopens⟩ := Journal.exists_opens (fun _ => rfl) places_payloads
    (congrArg _ (Path.above_name Path.isPlain_payloads))
  exact hopens.isSeen fun _ => rfl

theorem messages_withTornLine {entries : List MessageEntry}
    (hvalid : Scan.ValidPrefix
      ((withTornLine.contentAt? Config.inWorkingDirectory.messageJournal).getD []) entries) :
    entries = [] := by
  have hcontent : withTornLine.contentAt? Config.inWorkingDirectory.messageJournal =
      some [0x7B] := by
    rw [contentAt?, places_messages.find]
    rfl
  rw [hcontent] at hvalid
  exact hvalid.unique ⟨[], [0x7B], rfl, .nil, Scan.stuck_of_unbroken (by decide)⟩

theorem payloads_withTornLine {entries : List PayloadEntry}
    (hvalid : Scan.ValidPrefix
      ((withTornLine.contentAt? Config.inWorkingDirectory.payloadJournal).getD []) entries) :
    entries = [] := by
  rw [contentAt?, places_payloads.find_none] at hvalid
  exact hvalid.unique Scan.Whole.nil.validPrefix

end Volume

namespace Publish

/-- A torn line is cut off.  Then a publish to the payload table leaves its text
there and a reference in the message table, and one of nothing is refused. -/
theorem torn_line_gives_way :
    ∃ limit conclusions after message payload,
      runAll limit .inWorkingDirectory
          [(⟨⟨"ns1", "t1"⟩, some 5, true, ["y"]⟩, .stopped 9),
            (⟨⟨"ns1", "t1"⟩, none, false, []⟩, .stopped 9)]
          .withTornLine = some (conclusions, after) ∧
        conclusions.map Conclusion.failure =
          [none, some (.writing (.invalidRequest ⟨"ns1", "t1"⟩
            "only transactional messages can have an empty payload"))] ∧
        (Dump.run .inWorkingDirectory {} after).printed =
          [.json (Dump.lineOf ⟨"ns1", "t1"⟩ message none)] ∧
        (Dump.run .inWorkingDirectory { payloads := true } after).printed =
          [.json (Dump.lineOf ⟨"ns1", "t1"⟩ payload (some "y"))] := by
  have htwo : Journal.TwoFiles .withTornLine Config.inWorkingDirectory.messageJournal
      Config.inWorkingDirectory.payloadJournal := by
    intro location place id _ hfind
    rw [Volume.places_payloads.find_none] at hfind
    contradiction
  obtain ⟨messages, payloads, publications, enough, after, hfirst, hsecond, harguments, hprinted,
    hruns, hlists, hlistsPayloads⟩ :=
    @published_texts_are_dumped .inWorkingDirectory .withTornLine rfl (fun _ => rfl)
      Volume.sound_withTornLine Volume.seen_messages Volume.seen_payloads htwo
      [(⟨⟨"ns1", "t1"⟩, some 5, true, ["y"]⟩, .stopped 9),
        (⟨⟨"ns1", "t1"⟩, none, false, []⟩, .stopped 9)]
      (List.forall_mem_cons.mpr ⟨⟨1, Clock.rises_one _, by decide⟩,
        List.forall_mem_singleton.mpr (Clock.suffices_zero _)⟩)
  obtain rfl := Volume.messages_withTornLine hfirst
  obtain rfl := Volume.payloads_withTornLine hsecond
  obtain ⟨⟨_, first, firstMessages, firstPayloads⟩, ⟨_, second, secondMessages, secondPayloads⟩,
    rfl⟩ : ∃ published refused, publications = [published, refused] := by
    have hlength := congrArg List.length harguments
    rw [List.length_map] at hlength
    exact List.length_eq_two.mp hlength
  simp only [List.map_cons, List.map_nil, List.cons.injEq, and_true] at harguments
  obtain ⟨rfl, rfl⟩ := harguments
  obtain ⟨hpublished, hrefused⟩ := List.forall_mem_cons.mp hprinted
  have hmessageText : List.Forall₂ (Dump.Prints ⟨"ns1", "t1"⟩) [none] firstMessages :=
    hpublished.messages
  have hpayloadText : List.Forall₂ (Dump.Prints ⟨"ns1", "t1"⟩) [some "y"] firstPayloads :=
    hpublished.payloads
  obtain ⟨message, hmessage, rfl⟩ := Dump.Prints.exists_one hmessageText
  obtain ⟨payload, hpayload, rfl⟩ := Dump.Prints.exists_one hpayloadText
  obtain ⟨hfailure, hnoMessage, hnoPayload⟩ := List.forall_mem_singleton.mp hrefused
  obtain rfl : secondMessages = [] := List.forall₂_nil_left_iff.mp hnoMessage
  obtain rfl : secondPayloads = [] := List.forall₂_nil_left_iff.mp hnoPayload
  refine ⟨enough, _, after, TableEntry.position message, TableEntry.position payload,
    hruns enough (Nat.le_refl _), ?_, ?_, ?_⟩
  · exact congrArg₂ (fun published refused => [published, refused]) hpublished.failure hfailure
  · rw [hlists.printed_all, ← hmessage.line_eq]
    rfl
  · rw [hlistsPayloads.printed_all, ← hpayload.line_eq]
    rfl

/-- By a path that leads to nothing until a directory is made, a torn line is not cut
off.  A text is published behind it without any failure, and is not printed. -/
theorem published_text_is_not_dumped : ∃ limit conclusions after,
    runAll limit .throughAnother [(⟨⟨"ns1", "t1"⟩, some 5, true, ["a"]⟩, .stopped 9)]
        .withTornPayload = some (conclusions, after) ∧
      conclusions.map Conclusion.failure = [none] ∧
      (Dump.run .throughAnother { payloads := true } after).failure = none ∧
      (Dump.run .throughAnother { payloads := true } after).printed = [] := by
  obtain ⟨enough, conclusion, reference, hrun, hnone, hserves, -, location, block, hfind, hbytes⟩ :=
    run_behind_torn_line
  have hread := Journal.readValid_behind_torn_line hserves.faultless hfind hbytes
  have hdump : (Dump.run .throughAnother { payloads := true } conclusion.volume).failure = none ∧
      (Dump.run .throughAnother { payloads := true } conclusion.volume).printed = [] := by
    simp only [Dump.run, if_true, Dump.table]
    split
    next cause later hfailed =>
      rw [hfailed] at hread
      contradiction
    next entries later hfound =>
      rw [hfound] at hread
      cases hread
      exact ⟨rfl, rfl⟩
  refine ⟨enough, [conclusion], conclusion.volume, ?_, congrArg (fun told => [told]) hnone, hdump⟩
  have hone := hrun enough (Nat.le_refl _)
  rw [onePayload] at hone
  simp only [runAll, hone]

end Publish

end MessageStore
