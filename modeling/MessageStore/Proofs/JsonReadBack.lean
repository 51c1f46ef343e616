import MessageStore.Json.Basic
import MessageStore.Json.Parser
import Mathlib.Tactic

/-!
# Written JSON is read back

The tokens of a value are written one after the other without anything in
between.  The lexer still tells them apart, because of two neighbours one is
always a punctuation mark or a string, which ends by itself; and the parser
puts the tokens of a value together to the value that they came from.  None of
this holds of every tree, since a numeral or the body of a string may be any
octets at all: it holds of the values that are well written.
-/

namespace MessageStore.Json

structure IsNumeral (numeral : Bytes) : Prop where
  digits : ∀ octet ∈ numeral, Decimal.isDigit octet = true
  isNumber : isNumber numeral = true

/-- Octets that the lexer takes for a part of a string wherever they stand in
one, and that hold no line feed. -/
structure IsStringBody (body : Bytes) : Prop where
  escapes : hasEscapes body = true
  lexed : ∀ before tokens rest,
    lexFrom? (.string before) tokens (body ++ rest) =
      lexFrom? (.string (body.reverse ++ before)) tokens rest
  unbroken : 0x0A ∉ body

namespace Token

def isDelimited : Token → Bool
  | .null => false
  | .bool _ => false
  | .number _ => false
  | _ => true

def IsWritten : Token → Prop
  | .number numeral => IsNumeral numeral
  | .string body => IsStringBody body
  | _ => True

theorem IsWritten.unbroken {token : Token} (hwritten : token.IsWritten) :
    0x0A ∉ token.bytes := by
  cases token with
  | number numeral =>
      intro hmem
      have hdigit := hwritten.digits _ hmem
      contradiction
  | string body =>
      have hbody := IsStringBody.unbroken hwritten
      simpa [bytes] using hbody
  | bool value => cases value <;> decide
  | _ => decide

end Token

/-! ## The lexer -/

/-- An octet that no word and no number goes on with ends what was begun. -/
theorem lexStep?_of_lexEnd? {tokens whole : List Token} {state : LexState}
    {octet : UInt8} (hends : lexEnd? tokens state = some whole)
    (hword : isWordPart octet = false) (hnumber : isNumberPart octet = false) :
    lexStep? tokens octet state = lexBetween? whole octet := by
  cases state with
  | between =>
      cases hends
      rfl
  | word letters => simp [lexStep?, hword, hends]
  | number numeral => simp [lexStep?, hnumber, hends]
  | string body => contradiction
  | escape body => contradiction

theorem lexFrom?_digits {digits : Bytes}
    (hdigits : ∀ octet ∈ digits, Decimal.isDigit octet = true)
    (begun : Bytes) (tokens : List Token) (rest : Bytes) :
    lexFrom? (.number begun) tokens (digits ++ rest) =
      lexFrom? (.number (digits.reverse ++ begun)) tokens rest := by
  induction digits generalizing begun with
  | nil => rfl
  | cons octet digits ih =>
      have hpart : isNumberPart octet = true := by
        simp [isNumberPart, hdigits octet List.mem_cons_self]
      rw [List.cons_append, lexFrom?]
      simp only [lexStep?, hpart, if_true]
      rw [ih fun other hmem => hdigits other (List.mem_cons_of_mem _ hmem)]
      simp

theorem isWordPart_of_isDigit {octet : UInt8}
    (hdigit : Decimal.isDigit octet = true) : isWordPart octet = false := by
  simp only [Decimal.isDigit, isWordPart, Bool.and_eq_true, decide_eq_true_eq,
    Bool.and_eq_false_iff, decide_eq_false_iff_not, UInt8.le_iff_toNat_le] at *
  left
  exact fun hle => absurd (hle.trans hdigit.2) (by decide)

theorem lexBetween?_of_isDigit {octet : UInt8}
    (hdigit : Decimal.isDigit octet = true) (found : List Token) :
    lexBetween? found octet = some (.number [octet], found) := by
  have hne : ∀ other, Decimal.isDigit other = false → octet ≠ other := by
    rintro other hother rfl
    rw [hdigit] at hother
    contradiction
  have hspace : isSpace octet = false := by
    simp [isSpace, hne 0x20 rfl, hne 0x09 rfl, hne 0x0A rfl, hne 0x0D rfl]
  simp [lexBetween?, hspace, isWordPart_of_isDigit hdigit, isNumberPart, hdigit,
    hne 0x5B rfl, hne 0x5D rfl, hne 0x7B rfl, hne 0x7D rfl, hne 0x2C rfl,
    hne 0x3A rfl, hne 0x22 rfl]

theorem lexFrom?_punctuation {token : Token} {octet : UInt8}
    (hword : isWordPart octet = false) (hnumber : isNumberPart octet = false)
    (hbetween : ∀ whole,
      lexBetween? whole octet = some (.between, token :: whole))
    {tokens whole : List Token} {state : LexState}
    (hends : lexEnd? tokens state = some whole) (rest : Bytes) :
    lexFrom? state tokens (octet :: rest) =
      lexFrom? .between (token :: whole) rest := by
  rw [lexFrom?, lexStep?_of_lexEnd? hends hword hnumber, hbetween]

theorem lexFrom?_string {body : Bytes} (hbody : IsStringBody body)
    {tokens whole : List Token} {state : LexState}
    (hends : lexEnd? tokens state = some whole) (rest : Bytes) :
    lexFrom? state tokens (0x22 :: body ++ [0x22] ++ rest) =
      lexFrom? .between (.string body :: whole) rest := by
  rw [List.cons_append, List.cons_append, lexFrom?,
    lexStep?_of_lexEnd? hends rfl rfl]
  change lexFrom? (.string []) whole (body ++ [0x22] ++ rest) = _
  rw [List.append_assoc, hbody.lexed, List.singleton_append, lexFrom?]
  simp [lexStep?, hbody.escapes]

theorem lexFrom?_numeral {numeral : Bytes} (hnumeral : IsNumeral numeral)
    (tokens : List Token) (rest : Bytes) :
    lexFrom? .between tokens (numeral ++ rest) =
      lexFrom? (.number numeral.reverse) tokens rest := by
  cases numeral with
  | nil =>
      have hnumber := hnumeral.isNumber
      contradiction
  | cons octet digits =>
      have hdigit := hnumeral.digits octet List.mem_cons_self
      rw [List.cons_append, lexFrom?, lexStep?, lexBetween?_of_isDigit hdigit]
      simp only
      rw [lexFrom?_digits fun other hmem =>
        hnumeral.digits other (List.mem_cons_of_mem _ hmem)]
      rw [List.reverse_cons]

/-- A token is found behind others if it or what stands before it ends by
itself. -/
theorem lexFrom?_token {token : Token} (hwritten : token.IsWritten)
    {tokens whole : List Token} {state : LexState}
    (hends : lexEnd? tokens state = some whole)
    (hfree : state = .between ∨ token.isDelimited = true) (rest : Bytes) :
    ∃ later found, lexFrom? state tokens (token.bytes ++ rest) =
        lexFrom? later found rest ∧
      lexEnd? found later = some (token :: whole) ∧
      (token.isDelimited = true → later = .between) := by
  cases token with
  | openArray | closeArray | openObject | closeObject | comma | colon =>
      refine ⟨.between, _, ?_, rfl, fun _ => rfl⟩
      exact lexFrom?_punctuation rfl rfl (fun _ => rfl) hends rest
  | string body =>
      exact ⟨.between, _, lexFrom?_string hwritten hends rest, rfl, fun _ => rfl⟩
  | null =>
      obtain rfl : state = .between := hfree.resolve_right Bool.false_ne_true
      cases hends
      exact ⟨.word (Bytes.ofAscii "null").reverse, tokens, rfl, rfl, nofun⟩
  | bool value =>
      obtain rfl : state = .between := hfree.resolve_right Bool.false_ne_true
      cases hends
      cases value with
      | false =>
          exact ⟨.word (Bytes.ofAscii "false").reverse, tokens, rfl, rfl, nofun⟩
      | true =>
          exact ⟨.word (Bytes.ofAscii "true").reverse, tokens, rfl, rfl, nofun⟩
  | number numeral =>
      obtain rfl : state = .between := hfree.resolve_right Bool.false_ne_true
      cases hends
      refine ⟨.number numeral.reverse, tokens, ?_, ?_, nofun⟩
      · exact lexFrom?_numeral hwritten tokens rest
      · simp [lexEnd?, IsNumeral.isNumber hwritten]

/-- Of two neighbours one ends by itself. -/
def Tight (tokens : List Token) : Prop :=
  tokens.IsChain fun first second =>
    first.isDelimited = true ∨ second.isDelimited = true

/-- Tokens that are well written and stand apart from each other are found
again. -/
theorem lexFrom?_tokens {row : List Token} (hwritten : ∀ token ∈ row, token.IsWritten)
    (htight : Tight row) {tokens whole : List Token} {state : LexState}
    (hends : lexEnd? tokens state = some whole)
    (hfree : state = .between ∨ ∀ token ∈ row.head?, token.isDelimited = true)
    (rest : Bytes) :
    ∃ later found, lexFrom? state tokens (row.flatMap Token.bytes ++ rest) =
        lexFrom? later found rest ∧
      lexEnd? found later = some (row.reverse ++ whole) := by
  induction row generalizing tokens whole state with
  | nil => exact ⟨state, tokens, rfl, hends⟩
  | cons token row ih =>
      have hfirst : state = .between ∨ token.isDelimited = true := by
        simpa using hfree
      obtain ⟨middle, between, hlexed, hmiddle, hbetween⟩ :=
        lexFrom?_token (hwritten token List.mem_cons_self) hends hfirst
          (row.flatMap Token.bytes ++ rest)
      have hnext : middle = .between ∨ ∀ next ∈ row.head?, next.isDelimited = true := by
        by_cases hdelimited : token.isDelimited = true
        · exact Or.inl (hbetween hdelimited)
        · right
          intro next hnext
          exact ((List.isChain_cons.mp htight).1 next hnext).resolve_left hdelimited
      obtain ⟨later, found, hrest, hlater⟩ :=
        ih (fun other hmem => hwritten other (List.mem_cons_of_mem _ hmem))
          (List.isChain_cons.mp htight).2 hmiddle hnext
      refine ⟨later, found, ?_, ?_⟩
      · rw [List.flatMap_cons, List.append_assoc, hlexed, hrest]
      · simpa using hlater

theorem lex?_tokens {row : List Token} (hwritten : ∀ token ∈ row, token.IsWritten)
    (htight : Tight row) : lex? (row.flatMap Token.bytes) = some row := by
  have hstart : lexEnd? [] .between = some [] := rfl
  obtain ⟨later, found, hlexed, hends⟩ :=
    lexFrom?_tokens hwritten htight hstart (Or.inl rfl) []
  rw [List.append_nil] at hlexed hends
  rw [lex?, hlexed, lexFrom?, hends]
  simp

/-! ## Values -/

/-- Every numeral and every string in the value is well written. -/
inductive IsWritten : Json → Prop
  | null : IsWritten .null
  | bool (value : Bool) : IsWritten (.bool value)
  | number {numeral : Bytes} (hnumeral : IsNumeral numeral) :
      IsWritten (.number numeral)
  | string {body : Bytes} (hbody : IsStringBody body) : IsWritten (.string body)
  | array {items : List Json} (hitems : ∀ item ∈ items, IsWritten item) :
      IsWritten (.array items)
  | object {members : List (Bytes × Json)}
      (hkeys : ∀ member ∈ members, IsStringBody member.1)
      (hvalues : ∀ member ∈ members, IsWritten member.2) :
      IsWritten (.object members)

/-- Tokens, the last one first, that the lexer can tell apart. -/
structure Legible (tokens : List Token) : Prop where
  written : ∀ token ∈ tokens, token.IsWritten
  tight : Tight tokens

theorem Legible.cons {token : Token} {tokens : List Token}
    (hlegible : Legible tokens) (hwritten : token.IsWritten)
    (hapart : ∀ last ∈ tokens.head?,
      token.isDelimited = true ∨ last.isDelimited = true) :
    Legible (token :: tokens) where
  written := by
    intro other hmem
    rcases List.mem_cons.mp hmem with rfl | hold
    · exact hwritten
    · exact hlegible.written other hold
  tight := List.isChain_cons.mpr ⟨hapart, hlegible.tight⟩

theorem Legible.delimited {token : Token} {tokens : List Token}
    (hlegible : Legible tokens) (hwritten : token.IsWritten)
    (hdelimited : token.isDelimited = true) : Legible (token :: tokens) :=
  hlegible.cons hwritten fun _ _ => Or.inl hdelimited

/-- A value can stand behind these tokens. -/
structure Inviting (tokens : List Token) : Prop where
  legible : Legible tokens
  delimited : ∀ last ∈ tokens.head?, last.isDelimited = true

theorem Legible.separate {tokens : List Token} (hlegible : Legible tokens)
    {started : Bool} (hstarted : started = true ∨ Inviting tokens) :
    Inviting (separate started tokens) := by
  cases started with
  | false =>
      simpa [Json.separate] using hstarted
  | true =>
      refine ⟨hlegible.delimited trivial rfl, ?_⟩
      simp [Json.separate, Token.isDelimited]

theorem itemsOnto_legible {items : List Json}
    (hitems : ∀ item ∈ items, ∀ tokens, Inviting tokens →
      Legible (item.tokensOnto tokens))
    {started : Bool} {tokens : List Token} (hlegible : Legible tokens)
    (hstarted : started = true ∨ Inviting tokens) :
    Legible (itemsOnto items started tokens) := by
  induction items generalizing started tokens with
  | nil => exact hlegible
  | cons item items ih =>
      rw [itemsOnto]
      apply ih fun other hmem => hitems other (List.mem_cons_of_mem _ hmem)
      · exact hitems item List.mem_cons_self _ (hlegible.separate hstarted)
      · exact Or.inl rfl

theorem membersOnto_legible {members : List (Bytes × Json)}
    (hkeys : ∀ member ∈ members, IsStringBody member.1)
    (hvalues : ∀ member ∈ members, ∀ tokens, Inviting tokens →
      Legible (member.2.tokensOnto tokens))
    {started : Bool} {tokens : List Token} (hlegible : Legible tokens)
    (hstarted : started = true ∨ Inviting tokens) :
    Legible (membersOnto members started tokens) := by
  induction members generalizing started tokens with
  | nil => exact hlegible
  | cons member members ih =>
      have hkey : Token.IsWritten (.string member.1) :=
        hkeys member List.mem_cons_self
      have hinviting := hlegible.separate hstarted
      have hcolon : Inviting
          (.colon :: .string member.1 :: separate started tokens) := by
        constructor
        · exact (hinviting.legible.delimited hkey rfl).delimited trivial rfl
        · simp [Token.isDelimited]
      rw [membersOnto, memberOnto]
      apply ih
      · exact fun other hmem => hkeys other (List.mem_cons_of_mem _ hmem)
      · exact fun other hmem => hvalues other (List.mem_cons_of_mem _ hmem)
      · exact hvalues member List.mem_cons_self _ hcolon
      · exact Or.inl rfl

theorem IsWritten.tokensOnto_legible {value : Json} (hvalue : value.IsWritten)
    (tokens : List Token) (hinviting : Inviting tokens) :
    Legible (value.tokensOnto tokens) := by
  have hlast := hinviting.delimited
  induction hvalue generalizing tokens with
  | null | bool =>
      exact hinviting.legible.cons trivial fun last hmem => Or.inr (hlast last hmem)
  | number hnumeral =>
      exact hinviting.legible.cons hnumeral fun last hmem => Or.inr (hlast last hmem)
  | string hbody =>
      exact hinviting.legible.delimited hbody rfl
  | array hitems ih =>
      have hopen : Legible (.openArray :: tokens) :=
        hinviting.legible.delimited trivial rfl
      rw [tokensOnto]
      refine Legible.delimited ?_ trivial rfl
      apply itemsOnto_legible _ hopen
      · exact Or.inr ⟨hopen, by simp [Token.isDelimited]⟩
      · exact fun item hmem tokens hinviting =>
          ih item hmem tokens hinviting hinviting.delimited
  | object hkeys hvalues ih =>
      have hopen : Legible (.openObject :: tokens) :=
        hinviting.legible.delimited trivial rfl
      rw [tokensOnto]
      refine Legible.delimited ?_ trivial rfl
      apply membersOnto_legible hkeys _ hopen
      · exact Or.inr ⟨hopen, by simp [Token.isDelimited]⟩
      · exact fun member hmem tokens hinviting =>
          ih member hmem tokens hinviting hinviting.delimited

theorem IsWritten.tokens_legible {value : Json} (hvalue : value.IsWritten) :
    Legible value.tokens.reverse := by
  rw [tokens, List.reverse_reverse]
  apply hvalue.tokensOnto_legible
  exact ⟨⟨by simp, List.isChain_nil⟩, by simp⟩

theorem IsWritten.lex?_render {value : Json} (hvalue : value.IsWritten) :
    lex? value.render = some value.tokens := by
  have hlegible := hvalue.tokens_legible
  apply lex?_tokens
  · intro token hmem
    exact hlegible.written token (List.mem_reverse.mpr hmem)
  · have htight := List.isChain_reverse.mp hlegible.tight
    exact htight.imp fun _ _ hapart => hapart.symm

theorem IsWritten.unbroken {value : Json} (hvalue : value.IsWritten) :
    0x0A ∉ value.render := by
  intro hmem
  obtain ⟨token, htoken, hoctet⟩ := List.mem_flatMap.mp hmem
  have hwritten := hvalue.tokens_legible.written token (List.mem_reverse.mpr htoken)
  exact hwritten.unbroken hoctet

/-! ## The parser -/

namespace ParseState

/-- A value can begin here; it belongs into the innermost of the containers. -/
def Awaits (state : ParseState) (around : List Open) : Prop :=
  ∀ token, token ≠ .closeArray → state.step? token = begin? around token

theorem awaits_valueDue (around : List Open) : Awaits (.valueDue around) around :=
  fun _ _ => rfl

theorem awaits_itemDue (around : List Open) :
    Awaits (.itemDue around) (.array [] :: around) := by
  intro token hne
  cases token with
  | closeArray => contradiction
  | _ => rfl

/-- One more token, behind those that led to a state. -/
theorem run?_reverse_cons {start state : ParseState} {tokens : List Token}
    (hrun : start.run? tokens.reverse = some state) (token : Token) :
    start.run? (token :: tokens).reverse = state.step? token := by
  rw [List.reverse_cons, run?_append, hrun, Option.bind_some, run?]
  cases state.step? token <;> rfl

variable {start : ParseState}

/-- The items of an array that has some already.  The state is one in which an
item may end. -/
theorem run?_itemsOnto {items : List Json}
    (hitems : ∀ item ∈ items, ∀ {state around tokens},
      start.run? tokens.reverse = some state → state.Awaits around →
        start.run? (item.tokensOnto tokens).reverse = some (.close item around))
    {earlier : List Json} {around : List Open} {tokens : List Token}
    (hrun : start.run? tokens.reverse = some (.afterItem earlier around)) :
    start.run? (itemsOnto items true tokens).reverse =
      some (.afterItem (items.reverse ++ earlier) around) := by
  induction items generalizing earlier tokens with
  | nil => exact hrun
  | cons item items ih =>
      have hcomma : start.run? (Token.comma :: tokens).reverse =
          some (.valueDue (.array earlier :: around)) :=
        run?_reverse_cons hrun .comma
      have hitem := hitems item List.mem_cons_self hcomma (awaits_valueDue _)
      have hrest := ih (fun other hmem => hitems other (List.mem_cons_of_mem _ hmem))
        hitem
      rw [itemsOnto, separate, if_pos rfl, hrest]
      simp

theorem run?_array {items : List Json}
    (hitems : ∀ item ∈ items, ∀ {state around tokens},
      start.run? tokens.reverse = some state → state.Awaits around →
        start.run? (item.tokensOnto tokens).reverse = some (.close item around))
    {state : ParseState} {around : List Open} {tokens : List Token}
    (hrun : start.run? tokens.reverse = some state) (hawaits : state.Awaits around) :
    start.run? (tokensOnto (.array items) tokens).reverse =
      some (.close (.array items) around) := by
  have hopen : start.run? (Token.openArray :: tokens).reverse =
      some (.itemDue around) := by
    rw [run?_reverse_cons hrun, hawaits _ (by simp)]
    rfl
  rw [tokensOnto]
  cases items with
  | nil => rw [itemsOnto, run?_reverse_cons hopen]; rfl
  | cons item items =>
      have hitem := hitems item List.mem_cons_self hopen (awaits_itemDue around)
      have hrest := run?_itemsOnto
        (fun other hmem => hitems other (List.mem_cons_of_mem _ hmem)) hitem
      rw [itemsOnto, separate, if_neg Bool.false_ne_true, run?_reverse_cons hrest]
      simp [step?]

theorem run?_membersOnto {members : List (Bytes × Json)}
    (hvalues : ∀ member ∈ members, ∀ {state around tokens},
      start.run? tokens.reverse = some state → state.Awaits around →
        start.run? (member.2.tokensOnto tokens).reverse =
          some (.close member.2 around))
    {earlier : List (Bytes × Json)} {around : List Open} {tokens : List Token}
    (hrun : start.run? tokens.reverse = some (.afterMember earlier around)) :
    start.run? (membersOnto members true tokens).reverse =
      some (.afterMember (members.reverse ++ earlier) around) := by
  induction members generalizing earlier tokens with
  | nil => exact hrun
  | cons member members ih =>
      have hcomma := run?_reverse_cons hrun .comma
      have hkey := run?_reverse_cons hcomma (.string member.1)
      have hcolon := run?_reverse_cons hkey .colon
      have hvalue := hvalues member List.mem_cons_self hcolon (awaits_valueDue _)
      have hrest := ih (fun other hmem => hvalues other (List.mem_cons_of_mem _ hmem))
        hvalue
      rw [membersOnto, memberOnto, separate, if_pos rfl, hrest]
      simp

theorem run?_object {members : List (Bytes × Json)}
    (hvalues : ∀ member ∈ members, ∀ {state around tokens},
      start.run? tokens.reverse = some state → state.Awaits around →
        start.run? (member.2.tokensOnto tokens).reverse =
          some (.close member.2 around))
    {state : ParseState} {around : List Open} {tokens : List Token}
    (hrun : start.run? tokens.reverse = some state) (hawaits : state.Awaits around) :
    start.run? (tokensOnto (.object members) tokens).reverse =
      some (.close (.object members) around) := by
  have hopen : start.run? (Token.openObject :: tokens).reverse =
      some (.firstKeyDue around) := by
    rw [run?_reverse_cons hrun, hawaits _ (by simp)]
    rfl
  rw [tokensOnto]
  cases members with
  | nil => rw [membersOnto, run?_reverse_cons hopen]; rfl
  | cons member members =>
      have hkey := run?_reverse_cons hopen (.string member.1)
      have hcolon := run?_reverse_cons hkey .colon
      have hvalue := hvalues member List.mem_cons_self hcolon (awaits_valueDue _)
      have hrest := run?_membersOnto
        (fun other hmem => hvalues other (List.mem_cons_of_mem _ hmem)) hvalue
      rw [membersOnto, memberOnto, separate, if_neg Bool.false_ne_true,
        run?_reverse_cons hrest]
      simp [step?]

end ParseState

theorem IsWritten.run?_tokensOnto {value : Json} (hvalue : value.IsWritten)
    {start state : ParseState} {around : List Open} {tokens : List Token}
    (hrun : start.run? tokens.reverse = some state) (hawaits : state.Awaits around) :
    start.run? (value.tokensOnto tokens).reverse = some (.close value around) := by
  induction hvalue generalizing state around tokens with
  | null | bool | number | string =>
      rw [tokensOnto, ParseState.run?_reverse_cons hrun, hawaits _ (by simp)]
      rfl
  | array hitems ih =>
      exact ParseState.run?_array (fun item hmem => ih item hmem) hrun hawaits
  | object hkeys hvalues ih =>
      exact ParseState.run?_object (fun member hmem => ih member hmem) hrun hawaits

/-- The text of a value that is well written spells this value. -/
theorem IsWritten.parse?_render {value : Json} (hvalue : value.IsWritten) :
    parse? value.render = some value := by
  have hstart : ParseState.run? (.valueDue []) [].reverse = some (.valueDue []) := rfl
  have hrun := hvalue.run?_tokensOnto hstart (ParseState.awaits_valueDue [])
  rw [parse?, hvalue.lex?_render]
  simp only [ofTokens?, tokens]
  rw [hrun]
  rfl

end MessageStore.Json
