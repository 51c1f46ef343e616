import MessageStore.Proofs.LongestPrefix

/-!
# Records tell entries apart

Since a record is read back from its text, the text of a record belongs to one
entry only, and a journal of whole lines to one list of entries.  So what is
missing is never taken for what is there but empty or zero.
-/

namespace MessageStore

namespace Record

variable {E : Type} [TableEntry E] [TableEntry.Lawful E]

theorem parse?_text (entry : E) : parse? (text entry) = some (ofEntry entry) :=
  parse?_render (ofEntry entry)

theorem text_injective : Function.Injective (text : E → Bytes) := by
  intro entry other hsame
  have hread : some (ofEntry entry) = some (ofEntry other) := by
    rw [← parse?_text entry, hsame, parse?_text]
  exact congrArg Record.entry (Option.some.inj hread)

/-- The lines of a journal tell its entries. -/
theorem lines_injective : Function.Injective fun entries : List E => entries.flatMap line := by
  intro entries others hsame
  calc
    entries = Scan.validEntries E (entries.flatMap line) :=
      (Scan.whole_lines entries).validEntries_eq.symm
    _ = Scan.validEntries E (others.flatMap line) := congrArg _ hsame
    _ = others := (Scan.whole_lines others).validEntries_eq

/-- Ways to make an entry that are told apart make different texts. -/
theorem nodup_texts {α : Type} {variants : List α} {make : α → E}
    (hvariants : (variants.map make).Nodup) : (variants.map (text ∘ make)).Nodup := by
  rw [← List.map_map]
  exact hvariants.map text_injective

/-- Every entry of every table is written on one line, and the record read from it
is the one written, with its entry and its checksum.  No other entry is written
like that.  Above all an entry without a payload is not written like one with an
empty payload, nor one without a write pointer like one whose pointer is zero. -/
theorem records_round_trip :
    (∀ (kind : TableKind) (entry : kind.Entry),
      0x0A ∉ text entry ∧
      ∃ record : Record kind.Entry, parse? (text entry) = some record ∧
        record = ofEntry entry ∧ record.entry = entry ∧
        record.checksum = Crc32.checksum (TableEntry.toJson entry).render ∧
        record.verify = true) ∧
    (∀ kind : TableKind, Function.Injective (text : kind.Entry → Bytes)) ∧
    (∀ entry : MessageEntry,
      ([(none, none), (none, some []), (some 0, none), (some 0, some [])].map
        (text ∘ fun choice => { entry with
          writePointer := choice.1
          payload := choice.2 })).Nodup) ∧
    ∀ entry : PayloadEntry,
      ([none, some 0].map
        (text ∘ fun pointer => { entry with writePointer := pointer })).Nodup := by
  refine ⟨fun kind entry => ?_, fun kind => text_injective, fun entry => ?_, fun entry => ?_⟩
  · exact ⟨text_unbroken entry, ofEntry entry, parse?_text entry, rfl, rfl, rfl,
      verify_ofEntry entry⟩
  · exact nodup_texts (by simp)
  · exact nodup_texts (by simp)

end Record

end MessageStore
