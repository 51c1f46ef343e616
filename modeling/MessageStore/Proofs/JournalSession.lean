import MessageStore.Proofs.JournalFile
import MessageStore.Proofs.JournalLines
import Mathlib.Tactic

/-!
# Sessions with a journal

In a session any number of handles are opened on one journal, store entries
in it and are closed.  Each call that stores leaves an account behind: what
the file held before and after it, and what it returned.  The file is the
sum of these accounts, and so are the counters of the handles.  Without
faults everything that was accepted is read back, and nothing else.
-/

namespace MessageStore

namespace Journal

/-- What is done with a journal: its handles are numbered as they are
opened. -/
inductive Call (E : Type) where
  | open (synced : Bool)
  | store (handle : Nat) (entries : List E)
  | close (handle : Nat)

namespace Call

variable {E : Type}

def isOpening : Call E → Bool
  | .open _ => true
  | _ => false

/-- The handles that are closed after a call, with so many opened before. -/
def closing (opened : Nat) (closed : List Nat) : Call E → List Nat
  | .close handle => if handle < opened then handle :: closed else closed
  | _ => closed

/-- What a call is to store, with which handle, and whether that is closed.
Handles that were not opened cannot be used. -/
def storing? (opened : Nat) (closed : List Nat) : Call E → Option (Nat × Bool × List E)
  | .store handle entries =>
    if handle < opened then some (handle, closed.contains handle, entries) else none
  | _ => none

/-- All that calls are to store. -/
def storings (opened : Nat) (closed : List Nat) :
    List (Call E) → List (Nat × Bool × List E)
  | [] => []
  | call :: calls =>
    (call.storing? opened closed).toList ++
      storings (opened + if call.isOpening then 1 else 0) (call.closing opened closed) calls

/-- The entries that calls are to store with handles that are open. -/
def admitted (calls : List (Call E)) : List E :=
  ((storings 0 [] calls).filter fun storing => !storing.2.1).flatMap (·.2.2)

theorem storings_stores (batches : List (List E)) :
    storings 1 [] (batches.map (.store 0)) = batches.map ((0, false, ·)) := by
  induction batches with
  | nil => rfl
  | cons batch batches ih => exact congrArg ((0, false, batch) :: ·) ih

/-- With one handle everything is admitted. -/
theorem admitted_stores (synced : Bool) (batches : List (List E)) :
    admitted (.open synced :: batches.map (.store 0)) = batches.flatten := by
  have hstorings : storings 0 [] (.open synced :: batches.map (.store 0)) =
      batches.map ((0, false, ·)) := storings_stores batches
  rw [admitted, hstorings, List.filter_map, List.flatMap_map]
  simp [Function.comp_def]

end Call

/-- The account of one call that stores: with which handle, whether that had
been closed, what was stored, what came of it, and the file around it. -/
structure Account (E : Type) where
  handle : Nat
  closed : Bool
  entries : List E
  result : Except StoreError Unit
  before : Bytes
  after : Bytes

namespace Account

variable {E : Type}

def storing (account : Account E) : Nat × Bool × List E :=
  (account.handle, account.closed, account.entries)

def accepted (account : Account E) : Bool :=
  account.result.isOk

def written (account : Account E) : Bytes :=
  account.after.drop account.before.length

/-- What the accepted calls of a handle add up to by some measure. -/
def total (measure : Account E → Nat) (accounts : List (Account E)) (index : Nat) : Nat :=
  ((accounts.filter fun account => account.accepted && account.handle = index).map
    measure).sum

theorem total_append (measure : Account E → Nat) (accounts : List (Account E))
    (account : Account E) (index : Nat) :
    total measure (accounts ++ [account]) index = total measure accounts index +
      if account.accepted && account.handle = index then measure account else 0 := by
  rw [total, List.filter_append, List.map_append, List.sum_append, ← total]
  cases hcounts : account.accepted && decide (account.handle = index) with
  | false => simp [hcounts]
  | true => simp [hcounts]

theorem total_eq_zero (measure : Account E → Nat) {accounts : List (Account E)}
    {index : Nat} (hnone : ∀ account ∈ accounts, account.handle ≠ index) :
    total measure accounts index = 0 := by
  have hempty : (accounts.filter fun account =>
      account.accepted && account.handle = index) = [] := by
    rw [List.filter_eq_nil_iff]
    intro account hmem
    simp [hnone account hmem]
  rw [total, hempty]
  rfl

end Account

structure Session (E : Type) where
  volume : Volume
  handles : List Journal := []
  closed : List Nat := []
  accounts : List (Account E) := []

namespace Session

variable {E : Type} [TableEntry E]

/-- A store through a handle, as a table is called. -/
def store (path : String) (session : Session E) (index : Nat) (journal : Journal)
    (entries : List E) : Session E :=
  let (result, table, _) :=
    (JournalTable.behaviour E).store { journal, volume := session.volume } entries
  { session with
    volume := table.volume
    handles := session.handles.set index table.journal
    accounts := session.accounts ++
      [{ handle := index
         closed := session.closed.contains index
         entries, result
         before := (session.volume.contentAt? path).getD []
         after := (table.volume.contentAt? path).getD [] }] }

def step (path : String) (session : Session E) : Call E → Session E
  | .open synced =>
    match Journal.open session.volume path synced with
    | (.ok journal, volume) =>
      { session with volume, handles := session.handles ++ [journal] }
    | (.error _, volume) => { session with volume }
  | .store index entries =>
    match session.handles[index]? with
    | some journal => session.store path index journal entries
    | none => session
  | .close index =>
    match session.handles[index]? with
    | some journal =>
      let (_, journal, volume) := journal.close session.volume
      { session with
        volume
        handles := session.handles.set index journal
        closed := index :: session.closed }
    | none => session

/-- The session after some calls. -/
def after (volume : Volume) (path : String) (calls : List (Call E)) : Session E :=
  calls.foldl (step path) { volume }

/-! ## What the accounts add up to -/

/-- The entries of all calls that were accepted, in the order of the calls. -/
def accepted (session : Session E) : List E :=
  (session.accounts.filter Account.accepted).flatMap Account.entries

def recordsOf (session : Session E) (index : Nat) : Nat :=
  Account.total (fun account => account.entries.length) session.accounts index

def bytesOf (session : Session E) (index : Nat) : Nat :=
  Account.total (fun account => account.after.length - account.before.length)
    session.accounts index

end Session

/-! ## Accounts in order -/

/-- What can come of a call that stores: a closed handle stores nothing, and
an open one puts all lines behind what the file held, or a first part of
them if it fails. -/
inductive Account.Fair {E : Type} [TableEntry E] (account : Account E) : Prop where
  | refused (hclosed : account.closed = true) (hresult : account.result = .error .closed)
      (hafter : account.after = account.before)
  | stored (hopen : account.closed = false) (hresult : account.result = .ok ())
      (hafter : account.after =
        account.before ++ account.entries.flatMap Record.line)
  | failed {error : IoError} (hopen : account.closed = false)
      (hresult : account.result = .error (.io error)) {written : Bytes}
      (hwritten : written <+: account.entries.flatMap Record.line)
      (hafter : account.after = account.before ++ written)

namespace Session

variable {E : Type} [TableEntry E] {session : Session E} {path : String} {id : Nat}
  {faults : Nat → Option Fault}

/-- The file of a session and the counters of its handles are what its
accounts say. -/
structure Balanced (path : String) (id : Nat) (faults : Nat → Option Fault)
    (session : Session E) : Prop where
  hosts : session.volume.Hosts path id
  faults : session.volume.faults = faults
  content : (session.volume.content id).bytes = session.accounts.flatMap Account.written
  fair : ∀ account ∈ session.accounts, account.Fair
  granted : session.volume.Faultless → ∀ account ∈ session.accounts,
    account.closed = false → account.result = .ok ()
  owned : ∀ account ∈ session.accounts, account.handle < session.handles.length
  closed : ∀ index ∈ session.closed, index < session.handles.length
  file : ∀ index journal, session.handles[index]? = some journal →
    journal.file = if index ∈ session.closed then none else some id
  counted : ∀ index journal, session.handles[index]? = some journal →
    journal.recordsWritten = session.recordsOf index ∧
      journal.bytesWritten = session.bytesOf index

omit [TableEntry E] in
theorem handle_set_cases {handles : List Journal} {index other : Nat} {handle found : Journal}
    (hfound : (handles.set index handle)[other]? = some found) :
    (other = index ∧ found = handle) ∨ (other ≠ index ∧ handles[other]? = some found) := by
  by_cases hsame : other = index
  · subst hsame
    obtain ⟨hinside, hvalue⟩ := List.getElem?_eq_some_iff.mp hfound
    rw [List.getElem_set_self] at hvalue
    exact .inl ⟨rfl, hvalue.symm⟩
  · rw [List.getElem?_set_ne (Ne.symm hsame)] at hfound
    exact .inr ⟨hsame, hfound⟩

namespace Balanced

/-- One more account keeps the balance if its handle and the file go along
with it. -/
theorem add (hbalanced : session.Balanced path id faults) {account : Account E}
    {journal handle : Journal} {volume : Volume} {index : Nat}
    (hjournal : session.handles[index]? = some journal) (hindex : account.handle = index)
    (hgains : session.volume.Gains volume path id account.written) (hfair : account.Fair)
    (hgranted : session.volume.Faultless → account.closed = false → account.result = .ok ())
    (hfile : handle.file = journal.file)
    (hrecords : handle.recordsWritten = journal.recordsWritten +
      if account.accepted then account.entries.length else 0)
    (hbytes : handle.bytesWritten = journal.bytesWritten +
      if account.accepted then account.after.length - account.before.length else 0) :
    Balanced path id faults { session with
      volume
      handles := session.handles.set index handle
      accounts := session.accounts ++ [account] } := by
  subst hindex
  have hinside : account.handle < session.handles.length :=
    (List.getElem?_eq_some_iff.mp hjournal).1
  constructor
  · exact hgains.hosts
  · rw [hgains.faults, hbalanced.faults]
  · rw [hgains.bytes, hbalanced.content, List.flatMap_append, List.flatMap_singleton]
  · intro other hmem
    rcases List.mem_append.mp hmem with hmem | hmem
    · exact hbalanced.fair other hmem
    · rwa [List.mem_singleton.mp hmem]
  · intro hfaultless other hmem
    have hbefore : session.volume.Faultless := by
      rwa [Volume.Faultless, hgains.faults] at hfaultless
    rcases List.mem_append.mp hmem with hmem | hmem
    · exact hbalanced.granted hbefore other hmem
    · rw [List.mem_singleton.mp hmem]
      exact hgranted hbefore
  · intro other hmem
    rw [List.length_set]
    rcases List.mem_append.mp hmem with hmem | hmem
    · exact hbalanced.owned other hmem
    · rwa [List.mem_singleton.mp hmem]
  · intro index hmem
    rw [List.length_set]
    exact hbalanced.closed index hmem
  · intro index found hfound
    rcases handle_set_cases hfound with ⟨rfl, rfl⟩ | ⟨_, hfound⟩
    · rw [hfile]
      exact hbalanced.file _ journal hjournal
    · exact hbalanced.file index found hfound
  -- Only the counters of the handle that was used go up.
  · intro index found hfound
    rw [recordsOf, bytesOf, Account.total_append, Account.total_append]
    rcases handle_set_cases hfound with ⟨rfl, rfl⟩ | ⟨hne, hfound⟩
    · obtain ⟨hbooked, hfilled⟩ := hbalanced.counted _ journal hjournal
      rw [hrecords, hbytes, hbooked, hfilled]
      simp [recordsOf, bytesOf]
    · have hkept := hbalanced.counted index found hfound
      rw [recordsOf, bytesOf] at hkept
      simpa [Ne.symm hne] using hkept

theorem store (hbalanced : session.Balanced path id faults) {index : Nat} {journal : Journal}
    (hjournal : session.handles[index]? = some journal) (entries : List E) :
    (session.store path index journal entries).Balanced path id faults := by
  have hfile := hbalanced.file index journal hjournal
  have hbefore := hbalanced.hosts.contentAt?
  rw [Session.store, JournalTable.store_eq]
  by_cases hclosed : index ∈ session.closed
  · rw [if_pos hclosed] at hfile
    have hrefused : journal.append session.volume entries.length
        (entries.flatMap Record.line) = (.error .closed, journal, session.volume) := by
      rw [append, hfile]
    simp only [hrefused]
    apply hbalanced.add hjournal rfl
    · rw [Account.written, List.drop_length]
      exact .none hbalanced.hosts _
    · exact .refused (by simpa using hclosed) rfl rfl
    · intro _ hopen
      simp [hclosed] at hopen
    · rfl
    · rfl
    · rfl
  · rw [if_neg hclosed] at hfile
    have hcount : entries.flatMap Record.line = [] → entries.length = 0 := by
      intro hempty
      cases entries with
      | nil => rfl
      | cons entry entries => simp [Record.line_eq] at hempty
    obtain ⟨result, handle, volume, written, happend, hgains, hresult⟩ :=
      append_cases hbalanced.hosts hfile hcount
    have hafter := hgains.hosts.contentAt?
    have hopened : session.closed.contains index = false := by simpa using hclosed
    simp only [happend, hbefore, hafter, Option.getD_some, hgains.bytes, hopened]
    rcases hresult with ⟨rfl, rfl, rfl⟩ | ⟨⟨error, rfl⟩, hprefix, rfl, hfault⟩
    · apply hbalanced.add hjournal rfl
      · rwa [Account.written, List.drop_left]
      · exact .stored rfl rfl rfl
      · exact fun _ _ => rfl
      · rfl
      · rfl
      · simp [Account.accepted, Except.isOk, Except.toBool]
    · apply hbalanced.add hjournal rfl
      · rwa [Account.written, List.drop_left]
      · exact .failed rfl rfl hprefix rfl
      · exact fun hfaultless => absurd hfaultless hfault
      · rfl
      · rfl
      · rfl

theorem openAgain (hbalanced : session.Balanced path id faults) (synced : Bool) :
    (session.step path (.open synced)).Balanced path id faults := by
  obtain ⟨result, count, hopen, hresult⟩ := open_hosted hbalanced.hosts synced
  have hhosts := hbalanced.hosts.operations count
  rw [Session.step, hopen]
  rcases hresult with rfl | ⟨⟨error, rfl⟩, _⟩
  -- The new handle has no account yet, and its counters are at zero.
  · have hlast : ∀ index found,
        (session.handles ++ [{ path, file := some id, synced }])[index]? = some found →
        session.handles[index]? = some found ∨
          index = session.handles.length ∧ found = { path, file := some id, synced } := by
      intro index found hfound
      by_cases hinside : index < session.handles.length
      · rw [List.getElem?_append_left hinside] at hfound
        exact .inl hfound
      · rw [List.getElem?_append_right (by omega), List.getElem?_singleton] at hfound
        split at hfound
        next hzero => exact .inr ⟨by omega, (Option.some.inj hfound).symm⟩
        next => contradiction
    constructor
    · exact hhosts
    · exact hbalanced.faults
    · exact hbalanced.content
    · exact hbalanced.fair
    · exact hbalanced.granted
    · intro account hmem
      have howned := hbalanced.owned account hmem
      simp only [List.length_append, List.length_singleton]
      omega
    · intro index hmem
      have hinside := hbalanced.closed index hmem
      simp only [List.length_append, List.length_singleton]
      omega
    · intro index found hfound
      rcases hlast index found hfound with hfound | ⟨rfl, rfl⟩
      · exact hbalanced.file index found hfound
      · rw [if_neg fun hmem => absurd (hbalanced.closed _ hmem) (Nat.lt_irrefl _)]
    · intro index found hfound
      rcases hlast index found hfound with hfound | ⟨rfl, rfl⟩
      · exact hbalanced.counted index found hfound
      · have hnone : ∀ account ∈ session.accounts,
            account.handle ≠ session.handles.length :=
          fun account hmem => Nat.ne_of_lt (hbalanced.owned account hmem)
        rw [recordsOf, bytesOf, Account.total_eq_zero _ hnone, Account.total_eq_zero _ hnone]
        exact ⟨rfl, rfl⟩
  · exact { hbalanced with hosts := hhosts }

theorem close (hbalanced : session.Balanced path id faults) (index : Nat) :
    (session.step path (.close index)).Balanced path id faults := by
  rw [Session.step]
  split
  next journal hjournal =>
    obtain ⟨result, count, hclose⟩ := journal.close_cases session.volume
    have hinside : index < session.handles.length :=
      (List.getElem?_eq_some_iff.mp hjournal).1
    rw [hclose]
    constructor
    · exact hbalanced.hosts.operations count
    · exact hbalanced.faults
    · exact hbalanced.content
    · exact hbalanced.fair
    · exact hbalanced.granted
    · intro account hmem
      rw [List.length_set]
      exact hbalanced.owned account hmem
    · intro other hmem
      rw [List.length_set]
      rcases List.mem_cons.mp hmem with rfl | hmem
      · exact hinside
      · exact hbalanced.closed other hmem
    · intro other found hfound
      rcases handle_set_cases hfound with ⟨rfl, rfl⟩ | ⟨hne, hfound⟩
      · rw [if_pos List.mem_cons_self]
      · simpa [hne] using hbalanced.file other found hfound
    · intro other found hfound
      rcases handle_set_cases hfound with ⟨rfl, rfl⟩ | ⟨_, hfound⟩
      · exact hbalanced.counted _ journal hjournal
      · exact hbalanced.counted other found hfound
  next => exact hbalanced

theorem step (hbalanced : session.Balanced path id faults) (call : Call E) :
    (session.step path call).Balanced path id faults := by
  cases call with
  | «open» synced => exact hbalanced.openAgain synced
  | store index entries =>
      rw [Session.step]
      split
      next journal hjournal => exact hbalanced.store hjournal entries
      next => exact hbalanced
  | close index => exact hbalanced.close index

theorem run (hbalanced : session.Balanced path id faults) (calls : List (Call E)) :
    (calls.foldl (Session.step path) session).Balanced path id faults := by
  induction calls generalizing session with
  | nil => exact hbalanced
  | cons call calls ih => exact ih (hbalanced.step call)

end Balanced

theorem Balanced.step_handles (hbalanced : session.Balanced path id faults)
    (hfaults : ∀ operation, faults operation = none) (call : Call E) :
    (session.step path call).handles.length =
      session.handles.length + if call.isOpening then 1 else 0 := by
  cases call with
  | «open» synced =>
      obtain ⟨result, count, hopen, rfl | ⟨_, hfault⟩⟩ := open_hosted hbalanced.hosts synced
      · rw [Session.step, hopen]
        simp [Call.isOpening]
      · rw [Volume.Faultless, hbalanced.faults] at hfault
        exact absurd hfaults hfault
  | store index entries =>
      rw [Session.step]
      split
      next => simp [Session.store, Call.isOpening]
      next => rfl
  | close index =>
      rw [Session.step]
      split
      next => simp [Call.isOpening]
      next => rfl

theorem step_closed (session : Session E) (path : String) (call : Call E) :
    (session.step path call).closed = call.closing session.handles.length session.closed := by
  cases call with
  | «open» synced =>
      rw [Session.step]
      split
      next => rfl
      next => rfl
  | store index entries =>
      rw [Session.step]
      split
      next => rfl
      next => rfl
  | close index =>
      rw [Session.step, Call.closing]
      split
      next journal hjournal =>
        rw [if_pos (List.getElem?_eq_some_iff.mp hjournal).1]
      next hnone => rw [if_neg (by simpa using hnone)]

theorem step_storings (session : Session E) (path : String) (call : Call E) :
    (session.step path call).accounts.map Account.storing =
      session.accounts.map Account.storing ++
        (call.storing? session.handles.length session.closed).toList := by
  cases call with
  | «open» synced =>
      rw [Session.step]
      split
      next => simp [Call.storing?]
      next => simp [Call.storing?]
  | store index entries =>
      rw [Session.step, Call.storing?]
      split
      next journal hjournal =>
        rw [if_pos (List.getElem?_eq_some_iff.mp hjournal).1]
        simp [Session.store, Account.storing]
      next hnone =>
        rw [if_neg (by simpa using hnone)]
        simp
  | close index =>
      rw [Session.step]
      split
      next => simp [Call.storing?]
      next => simp [Call.storing?]

/-- Without faults there is an account of every call that was to store, and a
handle of every opening. -/
theorem Balanced.run_storings (hbalanced : session.Balanced path id faults)
    (hfaults : ∀ operation, faults operation = none) (calls : List (Call E)) :
    (calls.foldl (Session.step path) session).handles.length =
        session.handles.length + calls.countP Call.isOpening ∧
      (calls.foldl (Session.step path) session).accounts.map Account.storing =
        session.accounts.map Account.storing ++
          Call.storings session.handles.length session.closed calls := by
  induction calls generalizing session with
  | nil => exact ⟨rfl, (List.append_nil _).symm⟩
  | cons call calls ih =>
      obtain ⟨hhandles, hstorings⟩ := ih (hbalanced.step call)
      have hopened := hbalanced.step_handles hfaults call
      constructor
      · rw [List.foldl_cons, hhandles, hopened, List.countP_cons]
        omega
      · rw [List.foldl_cons, hstorings, hopened, step_closed, step_storings, Call.storings,
          List.append_assoc]

theorem Balanced.faultless (hbalanced : session.Balanced path id faults)
    (hfaults : ∀ operation, faults operation = none) : session.volume.Faultless := by
  rwa [Volume.Faultless, hbalanced.faults]

end Session

/-! ## Sessions without faults -/

variable {E : Type} [TableEntry E]

/-- An account that did not fail adds its lines to the file if it was
accepted, and nothing otherwise. -/
theorem Account.Fair.written_eq {account : Account E} (hfair : account.Fair)
    (hgranted : account.closed = false → account.result = .ok ()) :
    account.written =
      if account.accepted then account.entries.flatMap Record.line else [] := by
  cases hfair with
  | refused _ hresult hafter =>
      rw [written, hafter, List.drop_length, accepted, hresult]
      rfl
  | stored _ hresult hafter =>
      rw [written, hafter, List.drop_left, accepted, hresult]
      rfl
  | failed hopen hresult =>
      rw [hgranted hopen] at hresult
      contradiction

theorem Account.flatMap_written {accounts : List (Account E)}
    (hfair : ∀ account ∈ accounts, account.Fair)
    (hgranted : ∀ account ∈ accounts, account.closed = false → account.result = .ok ()) :
    accounts.flatMap written =
      ((accounts.filter accepted).flatMap entries).flatMap Record.line := by
  induction accounts with
  | nil => rfl
  | cons account accounts ih =>
      have hfirst := (hfair account List.mem_cons_self).written_eq
        (hgranted account List.mem_cons_self)
      have hrest := ih (fun other hmem => hfair other (List.mem_cons_of_mem _ hmem))
        fun other hmem => hgranted other (List.mem_cons_of_mem _ hmem)
      rw [List.flatMap_cons, hfirst, hrest, List.filter_cons]
      split
      next => simp
      next => rfl

/-- Without faults a call is accepted unless its handle is closed. -/
theorem Account.Fair.accepted_eq {account : Account E} (hfair : account.Fair)
    (hgranted : account.closed = false → account.result = .ok ()) :
    account.accepted = !account.storing.2.1 := by
  cases hfair with
  | refused hclosed hresult =>
      simp [accepted, storing, hclosed, hresult, Except.isOk, Except.toBool]
  | stored hopen hresult =>
      simp [accepted, storing, hopen, hresult, Except.isOk, Except.toBool]
  | failed hopen hresult =>
      rw [hgranted hopen] at hresult
      contradiction

theorem Account.accepted_storings {accounts : List (Account E)}
    (hfair : ∀ account ∈ accounts, account.Fair)
    (hgranted : ∀ account ∈ accounts, account.closed = false → account.result = .ok ()) :
    (accounts.filter accepted).flatMap entries =
      ((accounts.map storing).filter fun storing => !storing.2.1).flatMap (·.2.2) := by
  have hfilter : accounts.filter accepted =
      accounts.filter fun account => !account.storing.2.1 := by
    apply List.filter_congr
    intro account hmem
    exact (hfair account hmem).accepted_eq (hgranted account hmem)
  rw [hfilter, List.filter_map, List.flatMap_map]
  rfl

theorem Session.Balanced.content_accepted {session : Session E} {path : String}
    {id : Nat} {faults : Nat → Option Fault}
    (hbalanced : session.Balanced path id faults)
    (hfaultless : session.volume.Faultless) :
    (session.volume.content id).bytes = session.accepted.flatMap Record.line := by
  rw [hbalanced.content, Session.accepted]
  exact Account.flatMap_written hbalanced.fair (hbalanced.granted hfaultless)

/-! ## From the first opening on -/

/-- The journal at a path can be opened, and is empty then: there was no file
or an empty one. -/
def OpensEmpty (volume : Volume) (path : String) : Prop :=
  («open» volume path false).1.isOk = true ∧
    («open» volume path false).2.contentAt? path = some []

theorem OpensEmpty.exists_open {volume : Volume} {path : String}
    (hopens : OpensEmpty volume path) :
    ∃ journal opened, «open» volume path false = (.ok journal, opened) ∧
      opened.contentAt? path = some [] := by
  obtain ⟨hok, hempty⟩ := hopens
  cases hopen : «open» volume path false with
  | mk result opened =>
      rw [hopen] at hok hempty
      cases result with
      | error error => contradiction
      | ok journal => exact ⟨journal, opened, rfl, hempty⟩

theorem open_synced {volume opened : Volume} {path : String} {journal : Journal}
    (hopen : «open» volume path false = (.ok journal, opened)) (synced : Bool) :
    «open» volume path synced = (.ok { journal with synced }, opened) := by
  rw [«open»] at hopen ⊢
  split at hopen
  next => simp at hopen
  next made hmade =>
    split at hopen
    next => simp at hopen
    next file last hfile =>
      cases hopen
      rfl

namespace Session

variable {E : Type} [TableEntry E] {volume : Volume} {path : String}

theorem step_open (hsound : volume.Sound) (hopens : OpensEmpty volume path)
    (synced : Bool) :
    ∃ id opened, step path ({ volume } : Session E) (.open synced) =
        { volume := opened, handles := [{ path, file := some id, synced }] } ∧
      Balanced path id volume.faults
        ({ volume := opened, handles := [{ path, file := some id, synced }] } : Session E) := by
  obtain ⟨journal, opened, hopen, hempty⟩ := hopens.exists_open
  obtain ⟨id, rfl, hhosts, _, hfaults, _⟩ := open_eq_ok hsound hopen
  have hcontent : (opened.content id).bytes = [] := by
    simpa [hhosts.contentAt?] using hempty
  refine ⟨id, opened, by rw [step, open_synced hopen synced]; rfl, ?_⟩
  constructor
  · exact hhosts
  · exact hfaults
  · exact hcontent
  · nofun
  · exact fun _ => nofun
  · nofun
  · nofun
  · intro index found hfound
    cases index with
    | zero =>
        cases hfound
        rfl
    | succ index => simp at hfound
  · intro index found hfound
    cases index with
    | zero =>
        cases hfound
        exact ⟨rfl, rfl⟩
    | succ index => simp at hfound

/-- Without an opening a session does nothing; from the first one on it keeps
the balance. -/
theorem after_cases (hsound : volume.Sound) (hopens : OpensEmpty volume path)
    (calls : List (Call E)) :
    after volume path calls = { volume } ∨
      ∃ id, (after volume path calls).Balanced path id volume.faults := by
  induction calls with
  | nil => exact .inl rfl
  | cons call calls ih =>
      cases call with
      | «open» synced =>
          obtain ⟨id, opened, hopened, hbalanced⟩ := step_open (E := E) hsound hopens synced
          rw [after, List.foldl_cons, hopened]
          exact .inr ⟨id, hbalanced.run calls⟩
      | store index entries => exact ih
      | close index => exact ih

theorem after_storings (hsound : volume.Sound) (hfaultless : volume.Faultless)
    (hopens : OpensEmpty volume path) (calls : List (Call E)) :
    (after volume path calls).handles.length = calls.countP Call.isOpening ∧
      (after volume path calls).accounts.map Account.storing = Call.storings 0 [] calls := by
  induction calls with
  | nil => exact ⟨rfl, rfl⟩
  | cons call calls ih =>
      cases call with
      | «open» synced =>
          obtain ⟨id, opened, hopened, hbalanced⟩ := step_open (E := E) hsound hopens synced
          obtain ⟨hhandles, hstorings⟩ := hbalanced.run_storings hfaultless calls
          rw [after, List.foldl_cons, hopened]
          constructor
          · rw [hhandles, List.countP_cons]
            simp [Call.isOpening, Nat.add_comm]
          · exact hstorings
      | store index entries => exact ih
      | close index => exact ih

/-- Once it was opened the journal holds the lines of what was admitted. -/
theorem after_open (hsound : volume.Sound) (hfaultless : volume.Faultless)
    (hopens : OpensEmpty volume path) (synced : Bool) (calls : List (Call E)) :
    ∃ id, (after volume path (.open synced :: calls)).volume.Faultless ∧
      (after volume path (.open synced :: calls)).volume.Hosts path id ∧
      ((after volume path (.open synced :: calls)).volume.content id).bytes =
        (Call.admitted (.open synced :: calls)).flatMap Record.line := by
  obtain ⟨_, hstorings⟩ := after_storings hsound hfaultless hopens (.open synced :: calls)
  obtain ⟨id, opened, hopened, hbalanced⟩ := step_open (E := E) hsound hopens synced
  have hrun : (after volume path (.open synced :: calls)).Balanced path id volume.faults := by
    rw [after, List.foldl_cons, hopened]
    exact hbalanced.run calls
  have hquiet := hrun.faultless hfaultless
  refine ⟨id, hquiet, hrun.hosts, ?_⟩
  rw [Call.admitted, ← hstorings,
    ← Account.accepted_storings hrun.fair (hrun.granted hquiet)]
  exact hrun.content_accepted hquiet

end Session

end Journal

end MessageStore
