import MessageStore.Journal.Record
import MessageStore.Proofs.EscapedText
import MessageStore.Proofs.TableContract
import Mathlib.Data.List.TakeWhile
import Mathlib.Tactic

/-!
# Records are read back

Every entry is written as a value whose text spells that value, and is read
back from it.  So the record of an entry is read back from its line, and its
checksum is right.
-/

namespace MessageStore

namespace Decimal

/-- A digit of a numeral is an octet of the same value. -/
theorem toUInt8_of_isDigit {c : Char} (hdigit : c.isDigit = true) :
    48 ≤ c.toNat ∧ c.toNat ≤ 57 ∧ c.toNat.toUInt8.toNat = c.toNat := by
  have hrange : 48 ≤ c.toNat ∧ c.toNat ≤ 57 := by
    simpa [Char.isDigit, UInt32.le_iff_toNat_le] using hdigit
  refine ⟨hrange.1, hrange.2, ?_⟩
  rw [Nat.toUInt8_eq, UInt8.toNat_ofNat']
  exact Nat.mod_eq_of_lt (by omega)

theorem isDigit_of_mem_digits {n : Nat} {octet : UInt8} (hmem : octet ∈ digits n) :
    isDigit octet = true := by
  obtain ⟨c, hc, rfl⟩ := List.mem_map.mp hmem
  have hdigit := Nat.isDigit_of_mem_toDigits (by decide) (by decide) hc
  obtain ⟨hlow, hhigh, hnat⟩ := toUInt8_of_isDigit hdigit
  simp only [isDigit, Bool.and_eq_true, decide_eq_true_eq, UInt8.le_iff_toNat_le, hnat]
  exact ⟨hlow, hhigh⟩

theorem value_digits (n : Nat) : value (digits n) = n := by
  have hfold : ∀ characters : List Char, (∀ c ∈ characters, c.isDigit = true) →
      ∀ start, (characters.map fun c => c.toNat.toUInt8).foldl
        (fun n octet => n * 10 + (octet.toNat - 48)) start =
          Nat.ofDigitChars 10 characters start := by
    intro characters
    induction characters with
    | nil => intros; simp
    | cons c characters ih =>
        intro hall start
        obtain ⟨_, _, hnat⟩ := toUInt8_of_isDigit (hall c List.mem_cons_self)
        rw [List.map_cons, List.foldl_cons, hnat,
          ih fun other hmem => hall other (List.mem_cons_of_mem _ hmem)]
        rw [Nat.ofDigitChars_cons, Nat.mul_comm]
        rfl
  rw [value, digits, hfold _ fun c hc =>
    Nat.isDigit_of_mem_toDigits (by decide) (by decide) hc]
  exact Nat.ofDigitChars_ten_toDigits

theorem read?_digits (n : Nat) : read? (digits n) = some n := by
  have hne : digits n ≠ [] := by
    simp [digits, Nat.toDigits_ne_nil]
  have hall : (digits n).all isDigit = true :=
    List.all_eq_true.mpr fun octet hmem => isDigit_of_mem_digits hmem
  rw [read?, if_pos ⟨hne, hall⟩, value_digits]

/-- Only zero itself is written with a zero in front. -/
theorem exists_digits_eq_cons {n : Nat} (hn : n ≠ 0) :
    ∃ first rest, digits n = first :: rest ∧ first ≠ 0x30 := by
  induction n using Nat.strongRecOn with
  | ind n ih =>
      by_cases hlt : n < 10
      · refine ⟨_, [], by rw [digits, Nat.toDigits_of_lt_base hlt]; rfl, ?_⟩
        have hall : ∀ n < 10, n ≠ 0 → (Nat.digitChar n).toNat.toUInt8 ≠ 0x30 := by
          decide
        exact hall n hlt hn
      · obtain ⟨first, rest, hdigits, hfirst⟩ := ih (n / 10) (by omega) (by omega)
        refine ⟨first, rest ++ [(Nat.digitChar (n % 10)).toNat.toUInt8], ?_, hfirst⟩
        rw [digits, Nat.toDigits_of_base_le (by decide) (by omega), List.map_append]
        rw [digits] at hdigits
        rw [hdigits]
        rfl

end Decimal

namespace Json

theorem isNumber_of_digits {first : UInt8} {rest : Bytes} (hzero : first ≠ 0x30)
    (hdigits : ∀ octet ∈ first :: rest, Decimal.isDigit octet = true) :
    isNumber (first :: rest) = true := by
  have hfirst := hdigits first List.mem_cons_self
  have hminus : first ≠ 0x2D := by
    rintro rfl
    contradiction
  have hrest : rest.dropWhile Decimal.isDigit = [] := by
    rw [List.dropWhile_eq_nil_iff]
    exact fun octet hmem => hdigits octet (List.mem_cons_of_mem _ hmem)
  rw [isNumber]
  · rw [isUnsigned, if_neg hzero, hfirst, hrest]
    rfl
  · exact fun _ hsame => absurd (List.cons.inj hsame).1 hminus

theorem isNumeral_digits (n : Nat) : IsNumeral (Decimal.digits n) := by
  refine ⟨fun octet hmem => Decimal.isDigit_of_mem_digits hmem, ?_⟩
  by_cases hzero : n = 0
  · subst hzero
    decide
  · obtain ⟨first, rest, hdigits, hfirst⟩ := Decimal.exists_digits_eq_cons hzero
    rw [hdigits]
    apply isNumber_of_digits hfirst
    rw [← hdigits]
    exact fun octet hmem => Decimal.isDigit_of_mem_digits hmem

theorem asNat?_ofNat {n bound : Nat} (hlt : n < bound) :
    asNat? bound (ofNat n) = some n := by
  simp [asNat?, ofNat, Decimal.read?_digits, hlt]

@[simp] theorem asUInt8?_ofNat (octet : UInt8) :
    asUInt8? (ofNat octet.toNat) = some octet := by
  simp [asUInt8?, asNat?_ofNat octet.toNat_lt]

@[simp] theorem asUInt16?_ofNat (n : UInt16) : asUInt16? (ofNat n.toNat) = some n := by
  simp [asUInt16?, asNat?_ofNat n.toNat_lt]

@[simp] theorem asUInt32?_ofNat (n : UInt32) : asUInt32? (ofNat n.toNat) = some n := by
  simp [asUInt32?, asNat?_ofNat n.toNat_lt]

@[simp] theorem asUInt64?_ofNat (n : UInt64) : asUInt64? (ofNat n.toNat) = some n := by
  simp [asUInt64?, asNat?_ofNat n.toNat_lt]

@[simp] theorem asBool?_bool (value : Bool) : asBool? (.bool value) = some value :=
  rfl

@[simp] theorem asString?_ofString (text : String) :
    asString? (ofString text) = some text :=
  unescape?_escape text

@[simp] theorem asBytes?_ofBytes (bytes : Bytes) :
    asBytes? (ofBytes bytes) = some bytes := by
  simp only [asBytes?, ofBytes]
  induction bytes with
  | nil => rfl
  | cons octet bytes ih => simp [ih]

@[simp] theorem members?_escape (members : List (String × Json)) :
    members? (members.map fun (name, value) => (escape name, value)) =
      some members := by
  unfold members?
  induction members with
  | nil => rfl
  | cons member members ih => simp [unescape?_escape, ih]

theorem asOption?_ofOption {α : Type} {write : α → Json} {read : Json → Option α}
    (hnull : ∀ value, write value ≠ .null) (hread : ∀ value, read (write value) = some value)
    (value : Option α) : asOption? read (ofOption write value) = some value := by
  cases value with
  | none => rfl
  | some value =>
      rw [ofOption, asOption?, hread]
      · rfl
      · exact hnull value

@[simp] theorem asOption?_ofNat {α : Type} (read : Json → Option α) (n : Nat) :
    asOption? read (ofNat n) = (read (ofNat n)).map some :=
  rfl

@[simp] theorem asOption?_ofOption_ofNat (pointer : Option UInt64) :
    asOption? asUInt64? (ofOption (fun pointer => ofNat pointer.toNat) pointer) =
      some pointer := by
  apply asOption?_ofOption
  · exact fun _ => Json.noConfusion
  · exact asUInt64?_ofNat

@[simp] theorem asOption?_ofOption_ofBytes (payload : Option Bytes) :
    asOption? asBytes? (ofOption ofBytes payload) = some payload := by
  apply asOption?_ofOption
  · exact fun _ => Json.noConfusion
  · exact asBytes?_ofBytes

theorem isWritten_ofNat (n : Nat) : (ofNat n).IsWritten :=
  .number (isNumeral_digits n)

theorem isWritten_ofString (text : String) : (ofString text).IsWritten :=
  .string (isStringBody_escape text)

theorem isWritten_ofBytes (bytes : Bytes) : (ofBytes bytes).IsWritten := by
  apply IsWritten.array
  intro item hmem
  obtain ⟨octet, _, rfl⟩ := List.mem_map.mp hmem
  exact isWritten_ofNat _

theorem isWritten_ofMembers {members : List (String × Json)}
    (hvalues : ∀ member ∈ members, member.2.IsWritten) :
    (ofMembers members).IsWritten := by
  apply IsWritten.object
  · intro member hmem
    obtain ⟨named, _, rfl⟩ := List.mem_map.mp hmem
    exact isStringBody_escape _
  · intro member hmem
    obtain ⟨named, hnamed, rfl⟩ := List.mem_map.mp hmem
    exact hvalues named hnamed

theorem isWritten_ofOption {α : Type} {write : α → Json}
    (hwrite : ∀ value, (write value).IsWritten) (value : Option α) :
    (ofOption write value).IsWritten := by
  cases value with
  | none => exact .null
  | some value => exact hwrite value

end Json

/-! ## Entries -/

/-- Entries that are written legibly and read back. -/
class TableEntry.Lawful (E : Type) [TableEntry E] : Prop where
  isWritten : ∀ entry : E, (TableEntry.toJson entry).IsWritten
  ofJson?_toJson : ∀ entry : E,
    TableEntry.ofJson? (TableEntry.toJson entry) = some entry

theorem Topic.isWritten_toJson (topic : Topic) : topic.toJson.IsWritten := by
  apply Json.isWritten_ofMembers
  intro member hmem
  simp only [List.mem_cons, List.not_mem_nil, or_false] at hmem
  rcases hmem with rfl | rfl <;> exact Json.isWritten_ofString _

@[simp] theorem Topic.ofJson?_toJson (topic : Topic) :
    Topic.ofJson? topic.toJson = some topic := by
  simp only [toJson, ofJson?, Json.ofMembers, Json.members?_escape]
  simp [Json.required?, Json.member?]

instance MessageEntry.lawful : TableEntry.Lawful MessageEntry where
  isWritten entry := by
    apply Json.isWritten_ofMembers
    intro member hmem
    simp only [List.mem_append, List.mem_cons, List.not_mem_nil, or_false] at hmem
    rcases hmem with ((rfl | rfl) | hpointer) | rfl | rfl | rfl
    · exact entry.topic.isWritten_toJson
    · exact .bool entry.transactional
    · cases hsome : entry.writePointer with
      | none => simp [hsome, Json.optionalMember] at hpointer
      | some pointer =>
          rw [hsome, Json.optionalMember, List.mem_singleton] at hpointer
          rw [hpointer]
          exact Json.isWritten_ofNat _
    · exact Json.isWritten_ofOption Json.isWritten_ofBytes _
    · exact Json.isWritten_ofNat _
    · exact Json.isWritten_ofNat _
  ofJson?_toJson entry := by
    change ofJson? entry.toJson = some entry
    simp only [toJson, ofJson?, Json.ofMembers, Json.members?_escape]
    rcases entry with ⟨topic, transactional, _ | pointer, payload, position⟩
    · simp [Json.required?, Json.optional?, Json.member?, Json.optionalMember]
    · simp [Json.required?, Json.optional?, Json.member?, Json.optionalMember]

instance PayloadEntry.lawful : TableEntry.Lawful PayloadEntry where
  isWritten entry := by
    apply Json.isWritten_ofMembers
    intro member hmem
    simp only [List.mem_cons, List.not_mem_nil, or_false] at hmem
    rcases hmem with rfl | rfl | rfl | rfl | rfl
    · exact entry.topic.isWritten_toJson
    · exact Json.isWritten_ofOption (fun _ => Json.isWritten_ofNat _) _
    · exact Json.isWritten_ofBytes _
    · exact Json.isWritten_ofNat _
    · exact Json.isWritten_ofNat _
  ofJson?_toJson entry := by
    change ofJson? entry.toJson = some entry
    simp only [toJson, ofJson?, Json.ofMembers, Json.members?_escape]
    simp [Json.required?, Json.optional?, Json.member?]

instance TableKind.lawful : (kind : TableKind) → TableEntry.Lawful kind.Entry
  | .message => MessageEntry.lawful
  | .payload => PayloadEntry.lawful

/-! ## Records -/

namespace Record

variable {E : Type} [TableEntry E]

@[simp] theorem verify_ofEntry (entry : E) : (ofEntry entry).verify = true := by
  simp [verify, ofEntry]

variable [TableEntry.Lawful E]

theorem isWritten_toJson (record : Record E) : record.toJson.IsWritten := by
  apply Json.isWritten_ofMembers
  intro member hmem
  simp only [List.mem_cons, List.not_mem_nil, or_false] at hmem
  rcases hmem with rfl | rfl
  · exact TableEntry.Lawful.isWritten record.entry
  · exact Json.isWritten_ofNat _

theorem ofJson?_toJson (record : Record E) : ofJson? record.toJson = some record := by
  simp only [toJson, ofJson?, Json.ofMembers, Json.members?_escape]
  simp [Json.required?, Json.member?, TableEntry.Lawful.ofJson?_toJson]

theorem parse?_render (record : Record E) : parse? record.toJson.render = some record := by
  rw [parse?, record.isWritten_toJson.parse?_render]
  exact ofJson?_toJson record

theorem unbroken (record : Record E) : 0x0A ∉ record.toJson.render :=
  record.isWritten_toJson.unbroken

end Record

end MessageStore
