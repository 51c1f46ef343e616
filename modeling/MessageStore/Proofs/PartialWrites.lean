import MessageStore.Proofs.JournalSession
import MessageStore.Proofs.TornText
import Mathlib

/-!
# Writes that fail halfway

A write that fails may have put a first part of its lines into the journal,
and nothing takes them back.  Whole lines among them are read like any
others.  A line that was torn runs into the next one that is written, and
from there on the journal cannot be read, whatever was accepted afterwards.
-/

namespace MessageStore

/-! ## Lines behind a torn line -/

/-- Octets without a line feed, or with a record text in front of the first
one. -/
inductive Ragged (E : Type) [TableEntry E] (bytes : Bytes) : Prop where
  | unended (hunbroken : 0x0A ∉ bytes)
  | ended (before : Bytes) (entry : E) (rest : Bytes) (hunbroken : 0x0A ∉ before)
      (hbytes : bytes = before ++ Record.text entry ++ [0x0A] ++ rest)

namespace Ragged

variable {E : Type} [TableEntry E] {bytes : Bytes}

theorem append {tail : Bytes} (htail : 0x0A ∉ tail) (hragged : Ragged E bytes) :
    Ragged E (tail ++ bytes) := by
  cases hragged with
  | unended hunbroken =>
      apply Ragged.unended
      simp [htail, hunbroken]
  | ended before entry rest hunbroken hbytes =>
      apply Ragged.ended (tail ++ before) entry rest
      · simp [htail, hunbroken]
      · rw [hbytes]
        simp only [List.append_assoc]

theorem lines {entries : List E} (hragged : Ragged E bytes) :
    Ragged E (entries.flatMap Record.line ++ bytes) := by
  cases entries with
  | nil => exact hragged
  | cons entry entries =>
      apply Ragged.ended [] entry (entries.flatMap Record.line ++ bytes) List.not_mem_nil
      rw [List.flatMap_cons, Record.line_eq]
      simp only [List.append_assoc, List.nil_append]

/-- Behind a torn record nothing can be read. -/
theorem readValid [TableEntry.Lawful E] (entries : List E) {torn : Bytes}
    (htorn : 0x0A ∉ 0x7B :: torn) (hragged : Ragged E bytes) :
    Scan.readValid (.ofReading ⟨entries.flatMap Record.line ++ (0x7B :: torn ++ bytes), none⟩) =
      .ok entries := by
  cases hragged with
  | unended hunbroken =>
      have htail : 0x0A ∉ 0x7B :: torn ++ bytes := by
        rw [List.mem_append, not_or]
        exact ⟨htorn, hunbroken⟩
      rw [Scan.ofReading_records entries htail, Scan.readValid, Scan.ending]
      simp
  | ended before entry rest hunbroken hbytes =>
      have hline : 0x0A ∉ 0x7B :: (torn ++ before) ++ Record.text entry := by
        rw [List.mem_append, ← List.cons_append, List.mem_append, not_or, not_or]
        exact ⟨⟨htorn, hunbroken⟩, Record.text_unbroken entry⟩
      have hbehind : 0x7B :: torn ++ bytes =
          0x7B :: (torn ++ before) ++ Record.text entry ++ [0x0A] ++ rest := by
        rw [hbytes]
        simp only [List.append_assoc, List.cons_append]
      rw [hbehind, Scan.ofReading_malformed entries hline (Record.parse?_torn _ entry)]
      simp [Scan.readValid]

end Ragged

namespace Journal

namespace Account

variable {E : Type} [TableEntry E] {account : Account E} {accounts : List (Account E)}

/-- The entries whose lines a call has wholly written. -/
def whole (account : Account E) : List E :=
  account.entries.take (Record.wholeLines account.entries account.written.length)

/-- Whether a call has left a part of a line behind. -/
def isTorn (account : Account E) : Bool :=
  (account.whole.flatMap Record.line).length ≠ account.written.length

/-- The entries of all whole lines in front of the first one that was torn. -/
def surviving : List (Account E) → List E
  | [] => []
  | account :: accounts =>
    account.whole ++ if account.isTorn then [] else surviving accounts

theorem Fair.written_part (hfair : account.Fair) :
    account.written <+: account.entries.flatMap Record.line := by
  cases hfair with
  | refused _ _ hafter =>
      rw [written, hafter, List.drop_length]
      exact List.nil_prefix
  | stored _ _ hafter => rw [written, hafter, List.drop_left]
  | failed _ _ hwritten hafter => rwa [written, hafter, List.drop_left]

theorem Fair.exists_tail (hfair : account.Fair) :
    ∃ tail, account.written = account.whole.flatMap Record.line ++ tail ∧
      (tail = [] ∨ ∃ next : E, tail <+: Record.text next) := by
  obtain ⟨tail, htake, htail⟩ :=
    Record.take_records account.entries account.written.length
  rw [← List.prefix_iff_eq_take.mp hfair.written_part] at htake
  exact ⟨tail, htake, htail⟩

variable [TableEntry.Lawful E]

theorem ragged (hfair : ∀ account ∈ accounts, account.Fair) :
    Ragged E (accounts.flatMap written) := by
  induction accounts with
  | nil => exact .unended List.not_mem_nil
  | cons account accounts ih =>
      obtain ⟨tail, hwritten, htail⟩ := (hfair account List.mem_cons_self).exists_tail
      have hrest := ih fun other hmem => hfair other (List.mem_cons_of_mem _ hmem)
      rw [List.flatMap_cons, hwritten, List.append_assoc]
      exact (hrest.append (Record.unbroken_of_torn htail)).lines

/-- What calls have written is read up to the first line that was torn. -/
theorem readValid_surviving (before : List E) (hfair : ∀ account ∈ accounts, account.Fair) :
    Scan.readValid (.ofReading
        ⟨before.flatMap Record.line ++ accounts.flatMap written, none⟩) =
      .ok (before ++ surviving accounts) := by
  -- The whole lines of each account join `before`, until one leaves a tail.
  induction accounts generalizing before with
  | nil =>
      rw [List.flatMap_nil, Scan.ofReading_records before List.not_mem_nil]
      simp [Scan.readValid, Scan.ending, surviving]
  | cons account accounts ih =>
      have hlater : ∀ other ∈ accounts, other.Fair :=
        fun other hmem => hfair other (List.mem_cons_of_mem _ hmem)
      obtain ⟨tail, hwritten, htail⟩ := (hfair account List.mem_cons_self).exists_tail
      have hbytes : before.flatMap Record.line ++ (account :: accounts).flatMap written =
          (before ++ account.whole).flatMap Record.line ++
            (tail ++ accounts.flatMap written) := by
        rw [List.flatMap_cons, hwritten, List.flatMap_append]
        simp only [List.append_assoc]
      rw [hbytes, surviving, ← List.append_assoc before]
      cases tail with
      | nil =>
          have hwhole : account.isTorn = false := by simp [isTorn, hwritten]
          rw [if_neg (by simp [hwhole]), List.nil_append]
          exact ih (before ++ account.whole) hlater
      | cons octet torn =>
          have htorn : account.isTorn = true := by simp [isTorn, hwritten]
          obtain ⟨next, hnext⟩ := htail.resolve_left (List.cons_ne_nil _ _)
          obtain ⟨rest, hstart⟩ := Record.exists_text_eq_cons next
          obtain ⟨rfl, _⟩ := List.cons_prefix_cons.mp (hstart ▸ hnext)
          rw [if_pos htorn, List.append_nil]
          exact Ragged.readValid _ (Record.unbroken_of_torn htail) (ragged hlater)

omit [TableEntry.Lawful E] in
/-- A call that put all its lines into the journal left none torn, and so did
one that put nothing there. -/
theorem Fair.whole_eq (hfair : account.Fair)
    (hclean : account.accepted = false → account.written = []) :
    account.whole = (if account.accepted then account.entries else []) ∧
      account.isTorn = false := by
  obtain ⟨tail, hwritten, _⟩ := hfair.exists_tail
  cases haccepted : account.accepted with
  | false =>
      have hnone : account.whole = [] := by
        have hempty := hclean haccepted
        rw [hwritten, List.append_eq_nil_iff, List.flatMap_eq_nil_iff] at hempty
        rw [List.eq_nil_iff_forall_not_mem]
        intro entry hmem
        have hline := Record.line_length_pos entry
        rw [hempty.1 entry hmem] at hline
        contradiction
      exact ⟨hnone, by simp [isTorn, hnone, hclean haccepted]⟩
  | true =>
      have hall : account.written = account.entries.flatMap Record.line := by
        cases hfair with
        | refused _ hresult => simp [accepted, hresult, Except.isOk, Except.toBool] at haccepted
        | stored _ _ hafter => rw [written, hafter, List.drop_left]
        | failed _ hresult => simp [accepted, hresult, Except.isOk, Except.toBool] at haccepted
      have hlast : Record.lineEnd account.entries account.entries.length ≤
          account.written.length := by
        rw [hall, Record.lineEnd, List.take_length]
      have hwhole : account.whole = account.entries :=
        List.take_of_length_le ((Record.lineEnd_le_iff (Nat.le_refl _)).mp hlast)
      exact ⟨hwhole, by simp [isTorn, hwhole, hall]⟩

omit [TableEntry.Lawful E] in
/-- As long as failing writes leave nothing behind, what survives is what was
accepted. -/
theorem surviving_eq_accepted (hfair : ∀ account ∈ accounts, account.Fair)
    (hclean : ∀ account ∈ accounts, account.accepted = false → account.written = []) :
    surviving accounts = (accounts.filter accepted).flatMap entries := by
  induction accounts with
  | nil => rfl
  | cons account accounts ih =>
      obtain ⟨hwhole, htorn⟩ := (hfair account List.mem_cons_self).whole_eq
        (hclean account List.mem_cons_self)
      have hrest := ih (fun other hmem => hfair other (List.mem_cons_of_mem _ hmem))
        fun other hmem => hclean other (List.mem_cons_of_mem _ hmem)
      rw [surviving, hwhole, htorn, hrest, List.filter_cons]
      cases account.accepted with
      | false => rfl
      | true => rfl

end Account

namespace Session

variable {E : Type} [TableEntry E] {session : Session E} {path : String} {id : Nat}

/-- What is read when nothing fails any more. -/
def recovered (session : Session E) (path : String) : Except ReadError (List E) :=
  (readValid { session.volume with faults := fun _ => none } path).1

theorem Balanced.recovered [TableEntry.Lawful E] {faults : Nat → Option Fault}
    (hbalanced : session.Balanced path id faults) :
    session.recovered path = .ok (Account.surviving session.accounts) := by
  obtain ⟨location, hfind⟩ := hbalanced.hosts.find
  have hquiet : Volume.Faultless { session.volume with faults := fun _ => none } :=
    fun _ => rfl
  have hread := Account.readValid_surviving [] hbalanced.fair
  rw [Session.recovered, readValid, scan_found hquiet hfind]
  rw [List.flatMap_nil, List.nil_append, ← hbalanced.content] at hread
  exact hread

theorem run_stores (session : Session E) (path : String) (hhandles : session.handles.length = 1)
    (hclosed : session.closed = []) (batches : List (List E)) :
    ((batches.map (.store 0)).foldl (step path) session).accounts.map Account.storing =
      session.accounts.map Account.storing ++ batches.map ((0, false, ·)) := by
  induction batches generalizing session with
  | nil => exact (List.append_nil _).symm
  | cons batch batches ih =>
      have hlength : (session.step path (.store 0 batch)).handles.length = 1 := by
        rw [step]
        split
        next => simpa [store] using hhandles
        next => exact hhandles
      rw [List.map_cons, List.foldl_cons, ih _ hlength (by rw [step_closed, hclosed]; rfl),
        step_storings, hhandles, hclosed]
      simp [Call.storing?]

theorem Balanced.step_store {faults : Nat → Option Fault}
    (hbalanced : session.Balanced path id faults) {index : Nat} {journal handle : Journal}
    (hjournal : session.handles[index]? = some journal) (hopen : index ∉ session.closed)
    {entries : List E} {result : Except StoreError Unit} {after : Volume} {written : Bytes}
    (happend : journal.append session.volume entries.length (entries.flatMap Record.line) =
      (result, handle, after))
    (hgains : session.volume.Gains after path id written) :
    session.step path (.store index entries) = { session with
      volume := after
      handles := session.handles.set index handle
      accounts := session.accounts ++
        [⟨index, false, entries, result, session.accounts.flatMap Account.written,
          session.accounts.flatMap Account.written ++ written⟩] } := by
  simp only [Session.step, hjournal, Session.store, JournalTable.store_eq, happend,
    hbalanced.hosts.contentAt?, hgains.hosts.contentAt?, Option.getD_some, hgains.bytes,
    hbalanced.content]
  simp [hopen]

end Session

/-- Stores through one handle, any of which may fail after a first part of its
lines was written: afterwards the whole lines in front of the first torn one
are read.  These are the entries that were accepted as long as failing writes
leave nothing behind. -/
theorem whole_lines_survive_failures (kind : TableKind) {volume : Volume} {path : String}
    (hsound : volume.Sound) (hopens : OpensEmpty volume path) (synced : Bool)
    (batches : List (List kind.Entry)) :
    let session := Session.after volume path (.open synced :: batches.map (.store 0))
    session.accounts.map Account.storing = batches.map ((0, false, ·)) ∧
    session.recovered path = .ok (Account.surviving session.accounts) ∧
    ((∀ account ∈ session.accounts, account.accepted = false → account.written = []) →
      session.recovered path = .ok session.accepted) := by
  intro session
  obtain ⟨id, opened, hopened, hbalanced⟩ :=
    Session.step_open (E := kind.Entry) hsound hopens synced
  have hsession : session = (batches.map (.store 0)).foldl (Session.step path)
      { volume := opened, handles := [{ path, file := some id, synced }] } := by
    rw [← hopened]
    rfl
  have hrun : session.Balanced path id volume.faults := hsession ▸ hbalanced.run _
  refine ⟨?_, hrun.recovered, fun hclean => ?_⟩
  · rw [hsession]
    exact Session.run_stores _ path rfl rfl batches
  · rw [hrun.recovered, Account.surviving_eq_accepted hrun.fair hclean]
    rfl

/-! ## A write that fails and one that does not -/

/-- A volume that fails in one operation, after a number of octets. -/
def failingAt (operation progress : Nat) : Volume :=
  { Volume.workingIn "/" with
    faults := fun count => if count = operation then some ⟨.storageFull, progress⟩ else none }

theorem opensEmpty_failingAt (progress : Nat) : OpensEmpty (failingAt 2 progress) "d/j" :=
  ⟨by cbv, by cbv⟩

theorem failing_store {E : Type} [TableEntry E] (progress : Nat) {first second : List E}
    (hfirst : first ≠ []) (hsecond : second ≠ []) :
    let session : Session E := Session.after (failingAt 2 progress) "d/j"
      [.open false, .store 0 first, .store 0 second]
    (∃ id, session.Balanced "d/j" id (failingAt 2 progress).faults) ∧
      session.accounts =
        [⟨0, false, first, .error (.io (.system .storageFull)), [],
          (first.flatMap Record.line).take progress⟩,
        ⟨0, false, second, .ok (), (first.flatMap Record.line).take progress,
          (first.flatMap Record.line).take progress ++ second.flatMap Record.line⟩] := by
  intro session
  have hlines : ∀ {entries : List E}, entries ≠ [] → entries.flatMap Record.line ≠ [] := by
    intro entries hne hempty
    obtain ⟨entry, hmem⟩ := List.exists_mem_of_ne_nil entries hne
    have hline := Record.line_length_pos entry
    rw [List.flatMap_eq_nil_iff.mp hempty entry hmem] at hline
    contradiction
  have hsound : (failingAt 2 progress).Sound := Volume.sound_workingIn "/"
  obtain ⟨id, opened, hopened, hbalanced⟩ :=
    Session.step_open (E := E) hsound (opensEmpty_failingAt progress) false
  have hcount : opened.operations = 2 := by
    have hsame := congrArg (fun session => session.volume.operations) hopened
    rw [← hsame]
    cbv
  have hjournal : [({ path := "d/j", file := some id, synced := false } : Journal)][0]? =
      some { path := "d/j", file := some id, synced := false } := rfl
  have hfile : Journal.file { path := "d/j", file := some id, synced := false } = some id := rfl
  -- The first store meets the fault, the second one is the operation after it.
  have hfault : opened.faults opened.operations = some ⟨.storageFull, progress⟩ := by
    rw [hbalanced.faults, hcount]
    rfl
  obtain ⟨torn, hfail, htorn, hnext⟩ :=
    append_of_fault hbalanced.hosts hfile hfault first.length (hlines hfirst)
  have hfirstStep := hbalanced.step_store hjournal List.not_mem_nil hfail htorn
  have hsecondBalanced := hfirstStep ▸ hbalanced.step (.store 0 first)
  have hquiet : torn.faults torn.operations = none := by
    rw [htorn.faults, hbalanced.faults, hnext, hcount]
    rfl
  obtain ⟨last, hstored, hgains, _⟩ :=
    append_of_none htorn.hosts hfile hquiet rfl second.length (hlines hsecond)
  have hsecondStep := hsecondBalanced.step_store hjournal List.not_mem_nil hstored hgains
  have hsession : session = Session.step "d/j" (Session.step "d/j"
      { volume := opened, handles := [{ path := "d/j", file := some id, synced := false }] }
      (.store 0 first)) (.store 0 second) := by
    rw [← hopened]
    rfl
  constructor
  · rw [hsession]
    exact ⟨id, (hbalanced.step _).step _⟩
  · rw [hsession, hfirstStep, hsecondStep]
    simp [Account.written]

theorem nothing_written_is_nothing_lost :
    let first : MessageEntry := ⟨⟨"a", "b"⟩, false, none, some [1, 2], ⟨5, 0⟩⟩
    let second : MessageEntry := ⟨⟨"a", "c"⟩, true, some 7, none, ⟨5, 1⟩⟩
    let session := Session.after (failingAt 2 0) "d/j"
      ([.open false, .store 0 [first], .store 0 [second]] : List (Call TableKind.message.Entry))
    session.accepted = [second] ∧ session.recovered "d/j" = .ok [second] := by
  intro first second session
  have hsound : (failingAt 2 0).Sound := Volume.sound_workingIn "/"
  obtain ⟨_, haccounts⟩ := failing_store 0 (List.cons_ne_nil first [])
    (List.cons_ne_nil second [])
  obtain ⟨_, _, hclean⟩ := whole_lines_survive_failures .message hsound
    (opensEmpty_failingAt 0) false [[first], [second]]
  have haccepted : session.accepted = [second] := by
    rw [Session.accepted, haccounts]
    rfl
  refine ⟨haccepted, haccepted ▸ hclean ?_⟩
  intro account hmem hfailed
  change account ∈ session.accounts at hmem
  rw [haccounts, List.mem_cons, List.mem_singleton] at hmem
  rcases hmem with rfl | rfl
  · simp [Account.written]
  · contradiction

theorem surviving_torn {E : Type} [TableEntry E] [TableEntry.Lawful E] (first second : E)
    (result : Except StoreError Unit) (later : List (Account E)) :
    Account.surviving (⟨0, false, [first, second], result, [],
      ([first, second].flatMap Record.line).take ((Record.line first).length + 1)⟩ :: later) =
        [first] := by
  generalize haccount : Account.mk 0 false [first, second] result [] _ = account
  have hentries : account.entries = [first, second] := by rw [← haccount]
  have hwritten : account.written =
      ([first, second].flatMap Record.line).take ((Record.line first).length + 1) := by
    rw [← haccount]
    rfl
  have hlong : ¬ (Record.line second).length ≤ 1 := by
    have htext := List.length_pos_iff.mpr (Record.text_ne_nil second)
    rw [Record.line_eq, List.length_append, List.length_singleton]
    omega
  have hlength : account.written.length = (Record.line first).length + 1 := by
    rw [hwritten, List.length_take, List.flatMap_cons, List.flatMap_singleton,
      List.length_append]
    omega
  have hwhole : account.whole = [first] := by
    simp [Account.whole, hlength, hentries, Record.wholeLines, hlong]
  have htorn : account.isTorn = true := by
    simp [Account.isTorn, hwhole, hlength]
  rw [Account.surviving, hwhole, if_pos htorn, List.append_nil]

/-- The first entry of a call that failed is read, and the entry of the call
after it, which was accepted, is lost. -/
theorem torn_line_hides_an_accepted_entry :
    let first : MessageEntry := ⟨⟨"a", "b"⟩, false, none, some [1, 2], ⟨5, 0⟩⟩
    let second : MessageEntry := ⟨⟨"a", "c"⟩, true, some 7, none, ⟨5, 1⟩⟩
    let session := Session.after (failingAt 2 ((Record.line first).length + 1)) "d/j"
      ([.open false, .store 0 [first, second], .store 0 [second]] :
        List (Call TableKind.message.Entry))
    session.accepted = [second] ∧ session.recovered "d/j" = .ok [first] := by
  intro first second session
  obtain ⟨⟨id, hbalanced⟩, haccounts⟩ := failing_store ((Record.line first).length + 1)
    (List.cons_ne_nil first [second]) (List.cons_ne_nil second [])
  constructor
  · rw [Session.accepted, haccounts]
    rfl
  · rw [hbalanced.recovered, haccounts]
    exact congrArg Except.ok (surviving_torn first second _ _)

end Journal

end MessageStore
