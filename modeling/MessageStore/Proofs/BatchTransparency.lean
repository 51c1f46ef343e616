import MessageStore.Proofs.DeliveryPositions
import MessageStore.Proofs.ReliableDelivery

/-!
# Batches do not show

A writer may get its requests all in one batch or one by one.  With a table
that takes what it is offered and never fails, both leave the same entries in
the same order, but for where they stand, and tell every request the same.
What is left is decided by the requests alone: the contents of each, one
request after the other.
-/

namespace MessageStore

namespace TableKind

/-- The same entry at another position. -/
def moved : (kind : TableKind) → Position → kind.Entry → kind.Entry
  | .message, position, entry => { (entry : MessageEntry) with position }
  | .payload, position, entry => { (entry : PayloadEntry) with position }

theorem moved_shape_entry (kind : TableKind) (request : Request) (content : Option Bytes)
    (position other : Position) :
    kind.moved position (kind.shape.entry request content other) =
      kind.shape.entry request content position := by
  cases kind <;> rfl

/-- All that some requests leave in a table, as if each entry stood at one and
the same position. -/
def flatEntries (kind : TableKind) (position : Position) (requests : List Request) :
    List kind.Entry :=
  requests.flatMap fun request =>
    (kind.shape.contents request).map fun content =>
      kind.shape.entry request content position

end TableKind

/-- Two requests were both written, with equally many entries, or both refused
as invalid for the same reason. -/
def Pending.SettledAlike (first second : Pending) : Prop :=
  (∃ receipt other : Receipt, first.outcome = some (.ok receipt) ∧
      second.outcome = some (.ok other) ∧ receipt.entries = other.entries) ∨
    ∃ topic reason, first.outcome = some (.error (.invalidRequest topic reason)) ∧
      second.outcome = some (.error (.invalidRequest topic reason))

section

variable {kind : TableKind}

theorem Shape.Renders.map_moved {request : Request} {contents : List (Option Bytes)}
    {entries : List kind.Entry} (hrenders : kind.shape.Renders request contents entries)
    (position : Position) :
    entries.map (kind.moved position) =
      contents.map fun content => kind.shape.entry request content position := by
  induction hrenders with
  | nil => rfl
  | cons hentry _ ih => rw [List.map_cons, List.map_cons, ih, hentry, kind.moved_shape_entry]

theorem Written.IsWhole.length_block {written : Written kind.Entry}
    (hwhole : written.IsWhole kind.shape) :
    written.block.length = (kind.shape.contents written.request).length :=
  hwhole.renders.length_eq.symm

theorem Written.map_moved_blocks {rows : List (Written kind.Entry)}
    (hwhole : ∀ written ∈ rows, written.IsWhole kind.shape) (position : Position) :
    (rows.flatMap Written.block).map (kind.moved position) =
      kind.flatEntries position (rows.map Written.request) := by
  rw [TableKind.flatEntries, List.map_flatMap, List.flatMap_map]
  apply List.flatMap_congr
  intro written hmem
  exact (hwhole written hmem).renders.map_moved position

theorem Written.IsWhole.settledAlike {first second : Written kind.Entry}
    (hfirst : first.IsWhole kind.shape) (hsecond : second.IsWhole kind.shape)
    (hrequest : first.request = second.request) :
    first.pending.SettledAlike second.pending := by
  have hlength := hfirst.length_block
  rw [hrequest, ← hsecond.length_block] at hlength
  have hone := hfirst.outcome_eq
  have hother := hsecond.outcome_eq
  rw [hrequest] at hone
  unfold Shape.verdict at hone hother
  cases hdraft : kind.shape.draft second.request with
  | ok contents =>
      rw [hdraft] at hone hother
      exact Or.inl ⟨_, _, hone, hother, hlength⟩
  | error error =>
      rw [hdraft] at hone hother
      obtain ⟨reason, rfl⟩ :=
        kind.onEmpty_error ((Shape.draft_eq_error_iff _ _ _).mp hdraft).2
      exact Or.inr ⟨_, reason, hone, hother⟩

theorem Written.forall₂_settledAlike {rows others : List (Written kind.Entry)}
    (hrows : ∀ written ∈ rows, written.IsWhole kind.shape)
    (hothers : ∀ written ∈ others, written.IsWhole kind.shape)
    (hrequests : rows.map Written.request = others.map Written.request) :
    List.Forall₂ Pending.SettledAlike (rows.map Written.pending)
      (others.map Written.pending) := by
  induction rows generalizing others with
  | nil =>
      rw [List.map_eq_nil_iff.mp hrequests.symm]
      exact .nil
  | cons row rows ih =>
      obtain ⟨other, others, rfl, hrequest, hrest⟩ := List.map_eq_cons_iff.mp hrequests.symm
      refine .cons ?_ (ih (fun written hmem => hrows written (List.mem_cons_of_mem _ hmem))
        (fun written hmem => hothers written (List.mem_cons_of_mem _ hmem)) hrest.symm)
      exact (hrows row List.mem_cons_self).settledAlike (hothers other List.mem_cons_self)
        hrequest.symm

end

/-! ## Batches one after the other -/

namespace TableWriter

section

variable {σ E : Type} (table : Table σ E) (shape : Shape E) (limit : Nat)

/-- Writes batches one after the other, if each takes at most `limit` steps:
all requests in order, and the writer afterwards. -/
def writeAll : TableWriter σ → List (List Pending) → Option (List Pending × TableWriter σ)
  | writer, [] => some ([], writer)
  | writer, batch :: batches =>
    match writer.write table shape limit batch with
    | none => none
    | some (_, requests, writer) =>
      match writeAll writer batches with
      | none => none
      | some (others, writer) => some (requests ++ others, writer)

/-- What the calls that succeed make the table store meanwhile, in order. -/
def storedInTurn : TableWriter σ → List (List Pending) → List E
  | _, [] => []
  | writer, batch :: batches =>
    ((writer.chronicle batch).after table shape limit).stored.map HandedEntry.entry ++
      match writer.write table shape limit batch with
      | some (_, _, writer) => storedInTurn writer batches
      | none => []

/-- All batches are done just when the first one is, and then the others by the
writer that it leaves. -/
theorem writeAll_cons {writer last : TableWriter σ} {batch : List Pending}
    {batches : List (List Pending)} {pendings : List Pending}
    (hwrite : writer.writeAll table shape limit (batch :: batches) = some (pendings, last)) :
    let final := (writer.chronicle batch).after table shape limit
    let next := ofDelivery final.delivery
    final.delivery.isFinished = true ∧ ∃ others,
      next.writeAll table shape limit batches = some (others, last) ∧
      pendings = final.delivery.requests ++ others ∧
      writer.storedInTurn table shape limit (batch :: batches) =
        final.stored.map HandedEntry.entry ++ next.storedInTurn table shape limit batches ∧
      handedInTurn table shape limit writer (batch :: batches) =
        final.handed ++ handedInTurn table shape limit next batches := by
  intro final next
  rw [writeAll] at hwrite
  split at hwrite
  next => contradiction
  next result requests later hbatch =>
    split at hwrite
    next => contradiction
    next others last hothers =>
      obtain ⟨rfl, rfl⟩ := Prod.mk.inj (Option.some.inj hwrite)
      obtain ⟨hfinished, -, rfl, rfl⟩ :=
        (write_eq_some_iff table shape limit writer later _ requests result).mp hbatch
      refine ⟨hfinished, others, hothers, rfl, ?_, ?_⟩
      · rw [storedInTurn, hbatch]
      · rw [handedInTurn, hbatch]

end

variable {kind : TableKind} {σ τ : Type} {table : Table σ kind.Entry} {limit : Nat}

theorem writeAll_kept {shows : List kind.Entry → List kind.Entry → σ → Prop}
    (hkeeps : table.Keeps shows) {writer later : TableWriter σ} (held : List kind.Entry)
    (hshows : shows held [] writer.table) {batches : List (List Request)}
    {pendings : List Pending}
    (hwrite : writer.writeAll table kind.shape limit (batches.map (·.map Pending.fresh)) =
      some (pendings, later)) :
    ∃ rows : List (Written kind.Entry),
      rows.map Written.request = batches.flatten ∧
      rows.map Written.pending = pendings ∧
      (∀ written ∈ rows, written.IsWhole kind.shape) ∧
      writer.storedInTurn table kind.shape limit (batches.map (·.map Pending.fresh)) =
        rows.flatMap Written.block ∧
      (handedInTurn table kind.shape limit writer
        (batches.map (·.map Pending.fresh))).map HandedEntry.entry =
          rows.flatMap Written.block ∧
      shows (held ++ rows.flatMap Written.block) [] later.table := by
  induction batches generalizing writer held pendings with
  | nil =>
      obtain ⟨rfl, rfl⟩ := Prod.mk.inj (Option.some.inj hwrite)
      refine ⟨[], rfl, rfl, ?_, rfl, rfl, ?_⟩
      · intro written hmem
        contradiction
      · rwa [List.flatMap_nil, List.append_nil]
  | cons batch batches ih =>
      rw [List.map_cons] at hwrite ⊢
      obtain ⟨hfinished, others, hothers, rfl, hinTurn, hhandedInTurn⟩ :=
        writeAll_cons table kind.shape limit hwrite
      obtain ⟨-, hhanded, front, hfront, hpendings, hfrontWhole, hstored, hshown⟩ :=
        exists_kept hkeeps hshows batch limit hfinished
      obtain ⟨back, hback, hrest, hbackWhole, hmore, hmoreHanded, hlast⟩ :=
        ih _ hshown hothers
      refine ⟨front ++ back, ?_, ?_, ?_, ?_, ?_, ?_⟩
      · rw [List.map_append, hfront, hback, List.flatten_cons]
      · rw [List.map_append, hpendings, hrest]
      · intro written hmem
        exact (List.mem_append.mp hmem).elim (hfrontWhole written) (hbackWhole written)
      · rw [hinTurn, hstored, hmore, List.flatMap_append]
      · rw [hhandedInTurn, List.map_append, ← hhanded, hstored, hmoreHanded,
          List.flatMap_append]
      · rwa [List.flatMap_append, ← List.append_assoc]

/-- However a list of requests is cut into batches, whatever the clock shows and
whatever table takes the entries as long as it takes all and never fails: the
entries stored are the same but for their positions, and so is what each
request is told but for the positions in its receipt. -/
theorem batching_is_transparent {other : Table τ kind.Entry} {good : σ → Prop}
    {fine : τ → Prop}
    (hgreedy : table.IsGreedy) (hreliable : table.Reliable good)
    (hgreedyToo : other.IsGreedy) (hreliableToo : other.Reliable fine)
    {first firstLater : TableWriter σ} (hfirst : good first.table)
    {second secondLater : TableWriter τ} (hsecond : fine second.table)
    {batches otherBatches : List (List Request)}
    (hbatches : batches.flatten = otherBatches.flatten) {otherLimit : Nat}
    {pendings otherPendings : List Pending}
    (hwrite : first.writeAll table kind.shape limit (batches.map (·.map Pending.fresh)) =
      some (pendings, firstLater))
    (hwriteToo : second.writeAll other kind.shape otherLimit
      (otherBatches.map (·.map Pending.fresh)) = some (otherPendings, secondLater)) :
    (∀ position, (first.storedInTurn table kind.shape limit
          (batches.map (·.map Pending.fresh))).map (kind.moved position) =
        (second.storedInTurn other kind.shape otherLimit
          (otherBatches.map (·.map Pending.fresh))).map (kind.moved position)) ∧
      pendings.length = batches.flatten.length ∧
      List.Forall₂ Pending.SettledAlike pendings otherPendings := by
  obtain ⟨rows, hrequests, hpendings, hwhole, hstored, -, -⟩ :=
    writeAll_kept (hreliable.keeps hgreedy) [] hfirst hwrite
  obtain ⟨others, hrequestsToo, hpendingsToo, hwholeToo, hstoredToo, -, -⟩ :=
    writeAll_kept (hreliableToo.keeps hgreedyToo) [] hsecond hwriteToo
  have hsame : rows.map Written.request = others.map Written.request := by
    rw [hrequests, hrequestsToo, hbatches]
  refine ⟨?_, ?_, ?_⟩
  · intro position
    rw [hstored, hstoredToo, Written.map_moved_blocks hwhole,
      Written.map_moved_blocks hwholeToo, hsame]
  · rw [← hpendings, ← hrequests, List.length_map, List.length_map]
  · rw [← hpendings, ← hpendingsToo]
    exact Written.forall₂_settledAlike hwhole hwholeToo hsame

/-- A clock that goes on, and one that shows the same for ever. -/
def ticking : TableWriter (MemoryTable MessageEntry) :=
  { table := {}, clock := .counting 5 }

def standing : TableWriter (MemoryTable MessageEntry) :=
  { table := {}, clock := .stopped 9 }

theorem three_requests_in_one_batch :
    ∃ pendings others later last,
      ticking.writeAll MemoryTable.behaviour Shape.message 40
          ([threeRequests].map (·.map Pending.fresh)) = some (pendings, later) ∧
        standing.writeAll MemoryTable.behaviour Shape.message 40
            ((threeRequests.map fun request => [request]).map (·.map Pending.fresh)) =
          some (others, last) ∧
        pendings.length = 3 ∧ List.Forall₂ Pending.SettledAlike pendings others := by
  have hfirst : (ticking.writeAll MemoryTable.behaviour Shape.message 40
      ([threeRequests].map (·.map Pending.fresh))).isSome = true := by
    decide +kernel
  have hsecond : (standing.writeAll MemoryTable.behaviour Shape.message 40
      ((threeRequests.map fun request => [request]).map (·.map Pending.fresh))).isSome =
        true := by
    decide +kernel
  obtain ⟨⟨pendings, later⟩, hwrite⟩ := Option.isSome_iff_exists.mp hfirst
  obtain ⟨⟨others, last⟩, hwriteToo⟩ := Option.isSome_iff_exists.mp hsecond
  have hcuts : [threeRequests].flatten =
      (threeRequests.map fun request => [request]).flatten := rfl
  have hgreedy : (MemoryTable.behaviour : Table _ TableKind.message.Entry).IsGreedy :=
    fun _ => rfl
  obtain ⟨-, hlength, halike⟩ :=
    batching_is_transparent hgreedy MemoryTable.reliable hgreedy MemoryTable.reliable
      (⟨rfl, rfl⟩ : ticking.table.closed = false ∧ ticking.table.failures = [])
      (⟨rfl, rfl⟩ : standing.table.closed = false ∧ standing.table.failures = [])
      hcuts hwrite hwriteToo
  exact ⟨pendings, others, later, last, hwrite, hwriteToo, hlength, halike⟩

end TableWriter

end MessageStore
