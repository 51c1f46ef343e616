import MessageStore.Proofs.ValidPrefix

/-!
# The longest prefix of whole lines

A scan is a function of the octets that it reads: so many of them are whole
lines that hold entries, and no longer prefix is made of such lines.  A scan
whose reading failed finds in what it got just what is there, and only the
failure itself is put down as one of reading.
-/

namespace MessageStore
namespace Scan

variable {E : Type} [TableEntry E] {bytes : Bytes} {entries : List E}

variable (E) in
/-- How many octets the whole lines in front have. -/
def validSize (bytes : Bytes) : Nat :=
  (ofReading ⟨bytes, none⟩ : Scan E).valid

variable (E) in
/-- The entries of the whole lines in front. -/
def validEntries (bytes : Bytes) : List E :=
  (ofReading ⟨bytes, none⟩ : Scan E).entries.map (·.1)

theorem ValidPrefix.validEntries_eq (hvalid : ValidPrefix bytes entries) :
    validEntries E bytes = entries :=
  hvalid.scan.1

theorem validPrefix_validEntries (bytes : Bytes) : ValidPrefix bytes (validEntries E bytes) := by
  obtain ⟨entries, hvalid⟩ := exists_validPrefix E bytes
  rwa [hvalid.validEntries_eq]

theorem Whole.validEntries_eq (hwhole : Whole bytes entries) : validEntries E bytes = entries :=
  hwhole.validPrefix.validEntries_eq

theorem Whole.validSize_eq (hwhole : Whole bytes entries) : validSize E bytes = bytes.length :=
  hwhole.valid_eq

theorem validSize_le (bytes : Bytes) : validSize E bytes ≤ bytes.length :=
  (validPrefix_validEntries bytes).scan.2.1

theorem whole_take (bytes : Bytes) :
    Whole (bytes.take (validSize E bytes)) (validEntries E bytes) := by
  have hwhole := (validPrefix_validEntries (E := E) bytes).scan.2.2
  exact hwhole

/-- The first so many octets of a journal are whole lines with these entries,
and no longer prefix is made of whole lines. -/
structure LongestWhole (bytes : Bytes) (size : Nat) (entries : List E) : Prop where
  inside : size ≤ bytes.length
  whole : Whole (bytes.take size) entries
  longest : ∀ (longer : Bytes) (others : List E), longer <+: bytes → Whole longer others →
    longer.length ≤ size

/-- Whole lines in front of others belong to the valid prefix. -/
theorem Whole.length_le {longer : Bytes} {others : List E} (hwhole : Whole longer others)
    (hbegins : longer <+: bytes) : longer.length ≤ validSize E bytes := by
  obtain ⟨rest, rfl⟩ := hbegins
  obtain ⟨_, valid, after, rfl, hvalid, hstuck⟩ := exists_validPrefix E rest
  rw [← List.append_assoc, validSize, (hwhole.append hvalid).valid_append hstuck,
    List.length_append]
  exact Nat.le_add_right _ _

theorem longestWhole (bytes : Bytes) :
    LongestWhole bytes (validSize E bytes) (validEntries E bytes) where
  inside := validSize_le bytes
  whole := whole_take bytes
  longest _ _ hbegins hwhole := hwhole.length_le hbegins

theorem LongestWhole.of_stuck {rest : Bytes} (hwhole : Whole bytes entries)
    (hstuck : Stuck E rest) : LongestWhole (bytes ++ rest) bytes.length entries := by
  have hvalid : ValidPrefix (bytes ++ rest) entries := ⟨bytes, rest, rfl, hwhole, hstuck⟩
  have hlongest := longestWhole (E := E) (bytes ++ rest)
  rwa [validSize, hwhole.valid_append hstuck, hvalid.validEntries_eq] at hlongest

theorem LongestWhole.unique {size other : Nat} {others : List E}
    (hlongest : LongestWhole bytes size entries) (hother : LongestWhole bytes other others) :
    size = other ∧ entries = others := by
  have hsize : size = other := by
    have hle := hother.longest _ _ (List.take_prefix _ _) hlongest.whole
    have hge := hlongest.longest _ _ (List.take_prefix _ _) hother.whole
    rw [List.length_take_of_le hlongest.inside] at hle
    rw [List.length_take_of_le hother.inside] at hge
    exact Nat.le_antisymm hle hge
  refine ⟨hsize, ?_⟩
  have hwhole := hlongest.whole
  rw [hsize] at hwhole
  exact hwhole.validPrefix.unique hother.whole.validPrefix

/-- Of fewer octets the first entries are found. -/
theorem validEntries_prefix {fewer : Bytes} (hbegins : fewer <+: bytes) :
    validEntries E fewer <+: validEntries E bytes := by
  have hfront := (List.take_prefix (validSize E fewer) fewer).trans hbegins
  obtain ⟨rest, hrest⟩ := hfront
  obtain ⟨others, valid, after, rfl, hvalid, hstuck⟩ := exists_validPrefix E rest
  have hboth : ValidPrefix bytes (validEntries E fewer ++ others) :=
    ⟨_, after, by rw [← hrest, List.append_assoc], (whole_take fewer).append hvalid, hstuck⟩
  rw [hboth.validEntries_eq]
  exact List.prefix_append _ _

/-! ## Scans whose reading failed -/

theorem walk_failure (tail : Bytes) (failure : Option IoError) (number offset : Nat)
    (found : List (E × Nat)) (lines : List Bytes) :
    (walk tail failure number offset found lines).entries =
        (walk tail none number offset found lines).entries ∧
      ∀ error, (walk tail failure number offset found lines).fault = some (.io error) →
        failure = some error := by
  induction lines generalizing number offset found with
  | nil =>
      refine ⟨rfl, fun error hio => ?_⟩
      cases failure with
      | none =>
          simp only [walk, ending] at hio
          split at hio <;> simp at hio
      | some other => simpa [walk, ending] using hio
  | cons line lines ih =>
      simp only [walk]
      cases hread : (readLine number line : Except ReadError E) with
      | ok entry => exact ih _ _ _
      | error fault =>
          refine ⟨rfl, fun error hio => ?_⟩
          obtain rfl := Option.some.inj hio
          cases flawed_of_readLine hread

/-- What is found, and how far the valid part goes, is a matter of the octets alone. -/
theorem entries_ofReading (reading : Reading) :
    (ofReading reading : Scan E).entries = (ofReading ⟨reading.bytes, none⟩ : Scan E).entries :=
  (walk_failure _ reading.failure 1 0 [] _).1

theorem valid_ofReading (reading : Reading) :
    (ofReading reading : Scan E).valid = validSize E reading.bytes := by
  rw [validSize, valid, valid, entries_ofReading]

theorem failure_of_io {reading : Reading} {error : IoError}
    (hio : (ofReading reading : Scan E).fault = some (.io error)) :
    reading.failure = some error :=
  (walk_failure _ reading.failure 1 0 [] _).2 error hio

/-- A scan that read everything and found no fault has found whole lines only. -/
theorem validSize_of_fault_none {bytes : Bytes}
    (hfault : (ofReading ⟨bytes, none⟩ : Scan E).fault = none) :
    validSize E bytes = bytes.length := by
  obtain ⟨entries, valid, rest, rfl, hwhole, hstuck⟩ := exists_validPrefix E bytes
  rw [validSize, hwhole.valid_append hstuck, List.length_append]
  rw [hwhole.ofReading_append rest none] at hfault
  suffices hnone : rest = [] by simp [hnone]
  have hquiet : (ofReading ⟨rest, none⟩ : Scan E).fault = none := by
    simpa [shift] using hfault
  exact hstuck.ofReading.2.eq_none_iff.mp hquiet

end Scan
end MessageStore
