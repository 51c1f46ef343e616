import MessageStore.Json.Quoted
import MessageStore.Proofs.JsonReadBack
import Mathlib.Tactic

/-!
# Escaped text is read back

A text is escaped character by character.  What a character is written as is
no end of the string that it stands in, holds no line feed, and spells that
character again, first as UTF-8 and then as an escape.
-/

namespace MessageStore

namespace Utf8

/-- The octets of a character beyond ASCII are all beyond ASCII. -/
theorem mem_utf8EncodeChar {c : Char} {octet : UInt8}
    (hmem : octet ∈ String.utf8EncodeChar c) :
    (c.toNat < 128 ∧ octet.toNat = c.toNat) ∨ 128 ≤ octet.toNat := by
  simp only [String.utf8EncodeChar] at hmem
  by_cases hascii : c.val.toNat ≤ 127
  · rw [if_pos hascii, List.mem_singleton] at hmem
    left
    subst hmem
    constructor
    · exact Nat.lt_succ_of_le hascii
    · rw [UInt8.toNat_ofNat']
      exact Nat.mod_eq_of_lt (by omega)
  · right
    rw [if_neg hascii] at hmem
    split at hmem
    next =>
      simp only [List.mem_cons, List.not_mem_nil, or_false] at hmem
      rcases hmem with rfl | rfl <;> rw [UInt8.toNat_ofNat'] <;> omega
    next =>
      split at hmem
      next =>
        simp only [List.mem_cons, List.not_mem_nil, or_false] at hmem
        rcases hmem with rfl | rfl | rfl <;> rw [UInt8.toNat_ofNat'] <;> omega
      next =>
        simp only [List.mem_cons, List.not_mem_nil, or_false] at hmem
        rcases hmem with rfl | rfl | rfl | rfl <;> rw [UInt8.toNat_ofNat'] <;> omega

theorem piecesFrom_single {octet : UInt8} (hsingle : octet.toNat < 128)
    (found : List (Option Char)) (rest : Bytes) :
    piecesFrom none found (octet :: rest) =
      piecesFrom none (some (Char.ofNat octet.toNat) :: found) rest := by
  have hlt : octet < 0x80 := UInt8.lt_iff_toNat_lt.mpr hsingle
  simp [piecesFrom, step, start, lead, hlt]

theorem lead_of_two {octet : UInt8} (hlow : 0xC2 ≤ octet.toNat)
    (hhigh : octet.toNat < 0xE0) :
    lead octet = .opens ⟨1, octet.toNat - 0xC0, 0x80, 0xBF⟩ := by
  simp only [lead, UInt8.lt_iff_toNat_lt, UInt8.reduceToNat]
  rw [if_neg (by omega), if_neg (by omega), if_pos hhigh]

theorem lead_of_three {octet : UInt8} (hlow : 0xE0 ≤ octet.toNat)
    (hhigh : octet.toNat < 0xF0) :
    lead octet = .opens ⟨2, octet.toNat - 0xE0,
      if octet.toNat = 0xE0 then 0xA0 else 0x80,
      if octet.toNat = 0xED then 0x9F else 0xBF⟩ := by
  simp only [lead, UInt8.lt_iff_toNat_lt, ← UInt8.toNat_inj, UInt8.reduceToNat]
  rw [if_neg (by omega), if_neg (by omega), if_neg (by omega)]
  by_cases hfirst : octet.toNat = 0xE0
  · simp [hfirst]
  · by_cases hsurrogate : octet.toNat = 0xED
    · simp [hsurrogate]
    · simp [hfirst, hsurrogate, hhigh]

theorem lead_of_four {octet : UInt8} (hlow : 0xF0 ≤ octet.toNat)
    (hhigh : octet.toNat ≤ 0xF4) :
    lead octet = .opens ⟨3, octet.toNat - 0xF0,
      if octet.toNat = 0xF0 then 0x90 else 0x80,
      if octet.toNat = 0xF4 then 0x8F else 0xBF⟩ := by
  simp only [lead, UInt8.lt_iff_toNat_lt, ← UInt8.toNat_inj, UInt8.reduceToNat]
  rw [if_neg (by omega), if_neg (by omega), if_neg (by omega), if_neg (by omega),
    if_neg (by omega), if_neg (by omega)]
  by_cases hfirst : octet.toNat = 0xF0
  · simp [hfirst]
  · by_cases hlast : octet.toNat = 0xF4
    · simp [hlast]
    · have hlt : octet.toNat < 0xF4 := by omega
      simp [hfirst, hlast, hlt]

theorem piecesFrom_opens {octet : UInt8} {begun : Partial}
    (hlead : lead octet = .opens begun) (found : List (Option Char))
    (rest : Bytes) :
    piecesFrom none found (octet :: rest) = piecesFrom (some begun) found rest := by
  simp [piecesFrom, step, start, hlead]

theorem piecesFrom_owed {bits : Nat} {low high octet : UInt8}
    (hlow : low.toNat ≤ octet.toNat) (hhigh : octet.toNat ≤ high.toNat)
    (owed : Nat) (found : List (Option Char)) (rest : Bytes) :
    piecesFrom (some ⟨owed + 2, bits, low, high⟩) found (octet :: rest) =
      piecesFrom (some ⟨owed + 1, bits * 64 + (octet.toNat - 0x80), 0x80, 0xBF⟩)
        found rest := by
  have hrange : low ≤ octet ∧ octet ≤ high :=
    ⟨UInt8.le_iff_toNat_le.mpr hlow, UInt8.le_iff_toNat_le.mpr hhigh⟩
  rw [piecesFrom, step, if_pos hrange, if_neg (by simp)]
  rfl

theorem piecesFrom_tail {bits owed : Nat} {octet : UInt8}
    (htail : 0x80 ≤ octet.toNat ∧ octet.toNat ≤ 0xBF)
    (found : List (Option Char)) (rest : Bytes) :
    piecesFrom (some ⟨owed + 2, bits, 0x80, 0xBF⟩) found (octet :: rest) =
      piecesFrom (some ⟨owed + 1, bits * 64 + (octet.toNat - 0x80), 0x80, 0xBF⟩)
        found rest := by
  have hlow : (0x80 : UInt8).toNat ≤ octet.toNat := htail.1
  have hhigh : octet.toNat ≤ (0xBF : UInt8).toNat := htail.2
  exact piecesFrom_owed hlow hhigh owed found rest

theorem piecesFrom_last {bits : Nat} {octet : UInt8}
    (htail : 0x80 ≤ octet.toNat ∧ octet.toNat ≤ 0xBF)
    (found : List (Option Char)) (rest : Bytes) :
    piecesFrom (some ⟨1, bits, 0x80, 0xBF⟩) found (octet :: rest) =
      piecesFrom none (some (Char.ofNat (bits * 64 + (octet.toNat - 0x80))) :: found)
        rest := by
  have hrange : 0x80 ≤ octet ∧ octet ≤ 0xBF :=
    ⟨UInt8.le_iff_toNat_le.mpr htail.1, UInt8.le_iff_toNat_le.mpr htail.2⟩
  rw [piecesFrom, step, if_pos hrange, if_pos le_rfl]

theorem piecesFrom_two {first second : UInt8} (hlow : 0xC2 ≤ first.toNat)
    (hhigh : first.toNat < 0xE0)
    (hsecond : 0x80 ≤ second.toNat ∧ second.toNat ≤ 0xBF)
    (found : List (Option Char)) (rest : Bytes) :
    piecesFrom none found (first :: second :: rest) =
      piecesFrom none
        (some (Char.ofNat ((first.toNat - 0xC0) * 64 + (second.toNat - 0x80))) ::
          found) rest := by
  rw [piecesFrom_opens (lead_of_two hlow hhigh), piecesFrom_last hsecond]

theorem piecesFrom_three {first second third : UInt8} (hlow : 0xE0 ≤ first.toNat)
    (hhigh : first.toNat < 0xF0)
    (hsecond : 0x80 ≤ second.toNat ∧ second.toNat ≤ 0xBF)
    (hlong : first.toNat = 0xE0 → 0xA0 ≤ second.toNat)
    (hsurrogate : first.toNat = 0xED → second.toNat ≤ 0x9F)
    (hthird : 0x80 ≤ third.toNat ∧ third.toNat ≤ 0xBF)
    (found : List (Option Char)) (rest : Bytes) :
    piecesFrom none found (first :: second :: third :: rest) =
      piecesFrom none
        (some (Char.ofNat (((first.toNat - 0xE0) * 64 + (second.toNat - 0x80)) * 64 +
          (third.toNat - 0x80))) :: found) rest := by
  have hleast : (if first.toNat = 0xE0 then 0xA0 else 0x80 : UInt8).toNat ≤
      second.toNat := by
    split
    next heq => exact hlong heq
    next => exact hsecond.1
  have hmost : second.toNat ≤
      (if first.toNat = 0xED then 0x9F else 0xBF : UInt8).toNat := by
    split
    next heq => exact hsurrogate heq
    next => exact hsecond.2
  rw [piecesFrom_opens (lead_of_three hlow hhigh), piecesFrom_owed hleast hmost,
    piecesFrom_last hthird]

theorem piecesFrom_four {first second third fourth : UInt8}
    (hlow : 0xF0 ≤ first.toNat) (hhigh : first.toNat ≤ 0xF4)
    (hsecond : 0x80 ≤ second.toNat ∧ second.toNat ≤ 0xBF)
    (hlong : first.toNat = 0xF0 → 0x90 ≤ second.toNat)
    (hbound : first.toNat = 0xF4 → second.toNat ≤ 0x8F)
    (hthird : 0x80 ≤ third.toNat ∧ third.toNat ≤ 0xBF)
    (hfourth : 0x80 ≤ fourth.toNat ∧ fourth.toNat ≤ 0xBF)
    (found : List (Option Char)) (rest : Bytes) :
    piecesFrom none found (first :: second :: third :: fourth :: rest) =
      piecesFrom none
        (some (Char.ofNat ((((first.toNat - 0xF0) * 64 + (second.toNat - 0x80)) * 64 +
          (third.toNat - 0x80)) * 64 + (fourth.toNat - 0x80))) :: found) rest := by
  have hleast : (if first.toNat = 0xF0 then 0x90 else 0x80 : UInt8).toNat ≤
      second.toNat := by
    split
    next heq => exact hlong heq
    next => exact hsecond.1
  have hmost : second.toNat ≤
      (if first.toNat = 0xF4 then 0x8F else 0xBF : UInt8).toNat := by
    split
    next heq => exact hbound heq
    next => exact hsecond.2
  rw [piecesFrom_opens (lead_of_four hlow hhigh), piecesFrom_owed hleast hmost,
    piecesFrom_tail hthird, piecesFrom_last hfourth]

/-- What a character is encoded as is cut back into this character. -/
theorem piecesFrom_utf8EncodeChar (c : Char) (found : List (Option Char))
    (rest : Bytes) :
    piecesFrom none found (String.utf8EncodeChar c ++ rest) =
      piecesFrom none (some c :: found) rest := by
  have hvalid : c.toNat < 0xD800 ∨ 0xDFFF < c.toNat ∧ c.toNat < 0x110000 := c.valid
  have hspelled : ∀ n, n = c.toNat → Char.ofNat n = c := by
    rintro n rfl
    exact Char.ofNat_toNat c
  have hnat : ∀ n, n < 256 → (UInt8.ofNat n).toNat = n := by
    intro n hlt
    rw [UInt8.toNat_ofNat']
    exact Nat.mod_eq_of_lt hlt
  have htail : ∀ n, (UInt8.ofNat (n % 64 + 128)).toNat = n % 64 + 128 :=
    fun n => hnat _ (by omega)
  simp only [String.utf8EncodeChar, Char.toNat_val]
  split
  next hone =>
    have hoctet := hnat c.toNat (by omega)
    rw [List.singleton_append, piecesFrom_single (by omega), hspelled _ hoctet]
  split
  next hone htwo =>
    have hfirst := hnat (c.toNat / 64 % 32 + 192) (by omega)
    have hsecond := htail c.toNat
    simp only [List.cons_append, List.nil_append]
    rw [piecesFrom_two (by omega) (by omega) (by omega), hspelled _ (by omega)]
  split
  next htwo hthree =>
    have hfirst := hnat (c.toNat / 4096 % 16 + 224) (by omega)
    have hsecond := htail (c.toNat / 64)
    have hthird := htail c.toNat
    simp only [List.cons_append, List.nil_append]
    rw [piecesFrom_three (by omega) (by omega) (by omega) (by omega) (by omega)
      (by omega), hspelled _ (by omega)]
  next hthree =>
    have hfirst := hnat (c.toNat / 262144 % 8 + 240) (by omega)
    have hsecond := htail (c.toNat / 4096)
    have hthird := htail (c.toNat / 64)
    have hfourth := htail c.toNat
    simp only [List.cons_append, List.nil_append]
    rw [piecesFrom_four (by omega) (by omega) (by omega) (by omega) (by omega)
      (by omega) (by omega), hspelled _ (by omega)]

theorem pieces_encode (text : String) : pieces (encode text) = text.toList.map some := by
  have hpieces : ∀ (characters : List Char) (found : List (Option Char)),
      piecesFrom none found (characters.flatMap String.utf8EncodeChar) =
        found.reverse ++ characters.map some := by
    intro characters
    induction characters with
    | nil => simp [piecesFrom]
    | cons c characters ih =>
        intro found
        rw [List.flatMap_cons, piecesFrom_utf8EncodeChar, ih]
        simp
  rw [pieces, encode, hpieces, List.reverse_nil, List.nil_append]

theorem decode?_encode (text : String) : decode? (encode text) = some text := by
  have hall : ∀ characters : List Char,
      (characters.map some).mapM id = some characters := by
    intro characters
    induction characters with
    | nil => rfl
    | cons c characters ih => simp [ih]
  rw [decode?, pieces_encode, hall]
  simp

/-- A text that is shown after it was encoded has no replacement characters. -/
theorem decodeLossy_encode (text : String) : decodeLossy (encode text) = text := by
  rw [decodeLossy, pieces_encode, List.map_map]
  have hsame : (fun piece : Option Char => piece.getD '\uFFFD') ∘ some = id := rfl
  rw [hsame, List.map_id, String.ofList_toList]

end Utf8

namespace Json

/-- Behind a backslash the octet stands for the character. -/
def IsShortFor (octet : UInt8) (c : Char) : Prop :=
  octet ≠ 0x75 ∧ 0x20 ≤ octet.toNat ∧ octet.toNat < 128 ∧
    isShortEscape octet = true ∧ shortEscape? (Char.ofNat octet.toNat) = some c

/-- A character is written as a short escape, as an escape by number, or as it
is. -/
theorem escapeChar_cases (c : Char) :
    (∃ octet, IsShortFor octet c ∧ escapeChar c = [0x5C, octet]) ∨
      (c.toNat < 0x20 ∧ escapeChar c =
        [0x5C, 0x75, 0x30, 0x30, hexOctet (c.toNat / 16), hexOctet (c.toNat % 16)]) ∨
      (c ≠ '"' ∧ c ≠ '\\' ∧ 0x20 ≤ c.toNat ∧
        escapeChar c = String.utf8EncodeChar c) := by
  have hshort : ∀ other octet, IsShortFor octet other →
      escapeChar other = [0x5C, octet] → c = other →
        ∃ octet, IsShortFor octet c ∧ escapeChar c = [0x5C, octet] := by
    rintro other octet hfor heq rfl
    exact ⟨octet, hfor, heq⟩
  unfold IsShortFor at hshort
  by_cases hquote : c = '"'
  · exact Or.inl (hshort '"' 0x22 (by decide) rfl hquote)
  by_cases hbackslash : c = '\\'
  · exact Or.inl (hshort '\\' 0x5C (by decide) rfl hbackslash)
  by_cases hbackspace : c = '\x08'
  · exact Or.inl (hshort '\x08' 0x62 (by decide) rfl hbackspace)
  by_cases hfeed : c = '\x0c'
  · exact Or.inl (hshort '\x0c' 0x66 (by decide) rfl hfeed)
  by_cases hline : c = '\n'
  · exact Or.inl (hshort '\n' 0x6E (by decide) rfl hline)
  by_cases hreturn : c = '\r'
  · exact Or.inl (hshort '\r' 0x72 (by decide) rfl hreturn)
  by_cases htab : c = '\t'
  · exact Or.inl (hshort '\t' 0x74 (by decide) rfl htab)
  right
  unfold escapeChar
  rw [if_neg hquote, if_neg hbackslash, if_neg hbackspace, if_neg hfeed,
    if_neg hline, if_neg hreturn, if_neg htab]
  by_cases hcontrol : c.toNat < 0x20
  · left
    exact ⟨hcontrol, if_pos hcontrol⟩
  · right
    exact ⟨hquote, hbackslash, by omega, if_neg hcontrol⟩

/-! ## Inside the quotation marks -/

/-- Neither a quotation mark nor a backslash nor a control character. -/
def IsPlain (octet : UInt8) : Prop :=
  octet ≠ 0x22 ∧ octet ≠ 0x5C ∧ 0x20 ≤ octet.toNat

theorem isPlain_of_mem_utf8EncodeChar {c : Char} (hquote : c ≠ '"')
    (hbackslash : c ≠ '\\') (hcontrol : 0x20 ≤ c.toNat) {octet : UInt8}
    (hmem : octet ∈ String.utf8EncodeChar c) : IsPlain octet := by
  have hchar : ∀ other : Char, c ≠ other → c.toNat ≠ other.toNat :=
    fun other hne heq => hne (Char.toNat_inj.mp heq)
  have h22 : c.toNat ≠ 0x22 := hchar '"' hquote
  have h5C : c.toNat ≠ 0x5C := hchar '\\' hbackslash
  simp only [IsPlain, ne_eq, ← UInt8.toNat_inj, UInt8.reduceToNat]
  rcases Utf8.mem_utf8EncodeChar hmem with ⟨_, heq⟩ | hlarge <;> omega

theorem hasEscapes_plain {octets : Bytes} (hplain : ∀ octet ∈ octets, IsPlain octet)
    (rest : Bytes) : hasEscapes (octets ++ rest) = hasEscapes rest := by
  induction octets with
  | nil => rfl
  | cons octet octets ih =>
      have hne := (hplain octet List.mem_cons_self).2.1
      have hrest := ih fun other hmem => hplain other (List.mem_cons_of_mem _ hmem)
      rw [List.cons_append, ← hrest]
      simp [hasEscapes, hne]

theorem lexFrom?_plain {octets : Bytes} (hplain : ∀ octet ∈ octets, IsPlain octet)
    (before : Bytes) (tokens : List Token) (rest : Bytes) :
    lexFrom? (.string before) tokens (octets ++ rest) =
      lexFrom? (.string (octets.reverse ++ before)) tokens rest := by
  induction octets generalizing before with
  | nil => rfl
  | cons octet octets ih =>
      obtain ⟨hquote, hbackslash, hcontrol⟩ := hplain octet List.mem_cons_self
      have hnot : ¬ octet < 0x20 := by
        simpa [UInt8.lt_iff_toNat_lt] using hcontrol
      rw [List.cons_append, lexFrom?]
      simp only [lexStep?, hquote, hbackslash, hnot, if_false]
      rw [ih fun other hmem => hplain other (List.mem_cons_of_mem _ hmem)]
      simp

theorem lexFrom?_escaped {octet : UInt8} (hcontrol : 0x20 ≤ octet.toNat)
    (before : Bytes) (tokens : List Token) (rest : Bytes) :
    lexFrom? (.string before) tokens (0x5C :: octet :: rest) =
      lexFrom? (.string (octet :: 0x5C :: before)) tokens rest := by
  have hnot : ¬ octet < 0x20 := by
    simpa [UInt8.lt_iff_toNat_lt] using hcontrol
  simp [lexFrom?, lexStep?, hnot]

theorem hexOctet_spec : ∀ digit < 16,
    hexDigit? (hexOctet digit) = some digit ∧ IsPlain (hexOctet digit) ∧
      (hexOctet digit).toNat < 128 := by
  unfold IsPlain
  decide

theorem hasEscapes_escapeChar (c : Char) (rest : Bytes) :
    hasEscapes (escapeChar c ++ rest) = hasEscapes rest := by
  rcases escapeChar_cases c with
    ⟨octet, hfor, heq⟩ | ⟨hcontrol, heq⟩ | ⟨hquote, hbackslash, hlarge, heq⟩
  · obtain ⟨hne, _, _, hshort, _⟩ := hfor
    rw [heq, List.cons_append, List.singleton_append, hasEscapes, hshort,
      Bool.true_and]
    intro a b c d later hsame
    exact absurd hsame hne
  · have hhigh := (hexOctet_spec (c.toNat / 16) (by omega)).1
    have hlow := (hexOctet_spec (c.toNat % 16) (by omega)).1
    have hzero : hexDigit? 0x30 = some 0 := by decide
    rw [heq]
    simp [hasEscapes, hhigh, hlow, hzero]
  · rw [heq]
    apply hasEscapes_plain
    exact fun octet hmem =>
      isPlain_of_mem_utf8EncodeChar hquote hbackslash hlarge hmem

theorem isPlain_of_mem_hexOctets {c : Char} (hcontrol : c.toNat < 0x20)
    {octet : UInt8}
    (hmem : octet ∈ [0x30, 0x30, hexOctet (c.toNat / 16), hexOctet (c.toNat % 16)]) :
    IsPlain octet := by
  have hdigit : ∀ digit < 16, IsPlain (hexOctet digit) := fun digit hlt =>
    (hexOctet_spec digit hlt).2.1
  have hzero : IsPlain 0x30 := hdigit 0 (by decide)
  simp only [List.mem_cons, List.not_mem_nil, or_false] at hmem
  rcases hmem with rfl | rfl | rfl | rfl
  · exact hzero
  · exact hzero
  · exact hdigit _ (by omega)
  · exact hdigit _ (by omega)

theorem lexFrom?_escapeChar (c : Char) (before : Bytes) (tokens : List Token)
    (rest : Bytes) :
    lexFrom? (.string before) tokens (escapeChar c ++ rest) =
      lexFrom? (.string ((escapeChar c).reverse ++ before)) tokens rest := by
  rcases escapeChar_cases c with
    ⟨octet, hfor, heq⟩ | ⟨hcontrol, heq⟩ | ⟨hquote, hbackslash, hlarge, heq⟩
  · rw [heq]
    exact lexFrom?_escaped hfor.2.1 before tokens rest
  · have hletter : 0x20 ≤ (0x75 : UInt8).toNat := by decide
    rw [heq, List.cons_append, List.cons_append, lexFrom?_escaped hletter,
      lexFrom?_plain fun octet hmem => isPlain_of_mem_hexOctets hcontrol hmem]
    simp
  · rw [heq]
    apply lexFrom?_plain
    exact fun octet hmem =>
      isPlain_of_mem_utf8EncodeChar hquote hbackslash hlarge hmem

theorem unbroken_escapeChar (c : Char) : 0x0A ∉ escapeChar c := by
  have hplain : ∀ {octets : Bytes}, (∀ octet ∈ octets, IsPlain octet) →
      0x0A ∉ octets := by
    intro octets hoctets hmem
    exact absurd (hoctets _ hmem).2.2 (by decide)
  rcases escapeChar_cases c with
    ⟨octet, hfor, heq⟩ | ⟨hcontrol, heq⟩ | ⟨hquote, hbackslash, hlarge, heq⟩
  · rw [heq]
    intro hmem
    simp only [List.mem_cons, List.not_mem_nil, or_false] at hmem
    rcases hmem with hmem | rfl
    · contradiction
    · exact absurd hfor.2.1 (by decide)
  · have hdigits : 0x0A ∉ [0x30, 0x30, hexOctet (c.toNat / 16),
        hexOctet (c.toNat % 16)] :=
      hplain fun octet hmem => isPlain_of_mem_hexOctets hcontrol hmem
    rw [heq, List.mem_cons, List.mem_cons, not_or, not_or]
    exact ⟨by decide, by decide, hdigits⟩
  · rw [heq]
    apply hplain
    exact fun octet hmem =>
      isPlain_of_mem_utf8EncodeChar hquote hbackslash hlarge hmem

/-- Whatever a text holds, its written form is the body of a string. -/
theorem isStringBody_escape (text : String) : IsStringBody (escape text) := by
  unfold escape
  induction text.toList with
  | nil => exact ⟨rfl, fun _ _ _ => rfl, List.not_mem_nil⟩
  | cons c characters ih =>
      rw [List.flatMap_cons]
      constructor
      · rw [hasEscapes_escapeChar]
        exact ih.escapes
      · intro before tokens rest
        rw [List.append_assoc, lexFrom?_escapeChar, ih.lexed]
        simp
      · intro hmem
        rcases List.mem_append.mp hmem with hhere | hlater
        · exact unbroken_escapeChar c hhere
        · exact ih.unbroken hlater

/-! ## What is spelled -/

theorem toNat_ofNat_of_ascii : ∀ n < 128, (Char.ofNat n).toNat = n := by
  decide

theorem utf8EncodeChar_ofNat {octet : UInt8} (hascii : octet.toNat < 128) :
    String.utf8EncodeChar (Char.ofNat octet.toNat) = [octet] := by
  simp only [String.utf8EncodeChar, Char.toNat_val, toNat_ofNat_of_ascii _ hascii]
  rw [if_pos (by omega), UInt8.ofNat_toNat]

theorem codeUnit?_hexOctets : ∀ high < 16, ∀ low < 16,
    codeUnit? '0' '0' (Char.ofNat (hexOctet high).toNat)
      (Char.ofNat (hexOctet low).toNat) = some (high * 16 + low) := by
  decide

/-- What a character is written as is the encoding of some characters that
spell it. -/
theorem exists_spelling (c : Char) :
    ∃ spelling : List Char,
      escapeChar c = spelling.flatMap String.utf8EncodeChar ∧
      ∀ spelled rest, unescapeFrom? spelled (spelling ++ rest) =
        unescapeFrom? (c :: spelled) rest := by
  have hbackslash : String.utf8EncodeChar '\\' = [0x5C] := by decide
  rcases escapeChar_cases c with
    ⟨octet, hfor, heq⟩ | ⟨hcontrol, heq⟩ | ⟨hquote, hplain, hlarge, heq⟩
  · obtain ⟨hne, _, hascii, _, hshort⟩ := hfor
    refine ⟨['\\', Char.ofNat octet.toNat], ?_, ?_⟩
    · simp [heq, hbackslash, utf8EncodeChar_ofNat hascii]
    · intro spelled rest
      rw [List.cons_append, List.singleton_append, unescapeFrom?, hshort]
      intro _ _ _ _ _ hsame
      apply absurd _ hne
      rw [← UInt8.toNat_inj, ← toNat_ofNat_of_ascii _ hascii, hsame]
      rfl
  · refine ⟨['\\', 'u', '0', '0', Char.ofNat (hexOctet (c.toNat / 16)).toNat,
      Char.ofNat (hexOctet (c.toNat % 16)).toNat], ?_, ?_⟩
    · have hhigh := (hexOctet_spec (c.toNat / 16) (by omega)).2.2
      have hlow := (hexOctet_spec (c.toNat % 16) (by omega)).2.2
      have hu : String.utf8EncodeChar 'u' = [0x75] := by decide
      have hzero : String.utf8EncodeChar '0' = [0x30] := by decide
      simp [heq, hbackslash, hu, hzero, utf8EncodeChar_ofNat hhigh,
        utf8EncodeChar_ofNat hlow]
    · intro spelled rest
      have hunit := codeUnit?_hexOctets (c.toNat / 16) (by omega) (c.toNat % 16)
        (by omega)
      have hsame : c.toNat / 16 * 16 + c.toNat % 16 = c.toNat := by omega
      rw [hsame] at hunit
      simp only [List.cons_append, List.nil_append]
      rw [unescapeFrom?, hunit]
      simp only
      rw [if_pos (Or.inl (by omega)), Char.ofNat_toNat]
  · refine ⟨[c], by simp [heq], ?_⟩
    intro spelled rest
    rw [List.singleton_append, unescapeFrom?]
    · exact fun _ _ _ _ _ hsame => absurd hsame hplain
    · exact fun _ _ hsame => absurd hsame hplain
    · exact fun hsame => absurd hsame hplain

theorem unescape?_escape (text : String) : unescape? (escape text) = some text := by
  have hspelling : ∀ characters : List Char, ∃ spelling : List Char,
      characters.flatMap escapeChar = spelling.flatMap String.utf8EncodeChar ∧
      ∀ spelled, unescapeFrom? spelled spelling =
        some (spelled.reverse ++ characters) := by
    intro characters
    induction characters with
    | nil => exact ⟨[], rfl, by simp [unescapeFrom?]⟩
    | cons c characters ih =>
        obtain ⟨first, hfirst, hread⟩ := exists_spelling c
        obtain ⟨later, hlater, hrest⟩ := ih
        refine ⟨first ++ later, ?_, ?_⟩
        · rw [List.flatMap_cons, List.flatMap_append, hfirst, hlater]
        · intro spelled
          rw [hread, hrest]
          simp
  obtain ⟨spelling, hwritten, hread⟩ := hspelling text.toList
  have hdecoded : Utf8.decode? (escape text) = some (String.ofList spelling) := by
    have hencode : escape text = Utf8.encode (String.ofList spelling) := by
      rw [escape, hwritten, Utf8.encode, String.toList_ofList]
    rw [hencode, Utf8.decode?_encode]
  rw [unescape?, hdecoded]
  simp [hread]

end Json

end MessageStore
