import MessageStore.Proofs.JournalLines
import Mathlib.Tactic

/-!
# Texts behind a torn text

A text that breaks off leaves the lexer between two tokens, at the end of
one or within a string.  A record text behind it is then taken for one value
more, or its first name is read outside the quotation marks.  Nothing that
begins like an object and goes on with a record text is a JSON text, so a torn
record makes the record behind it unreadable.
-/

namespace MessageStore

namespace Json

/-! ## Lexing goes on -/

theorem lexBetween?_suffix {tokens found : List Token} {octet : UInt8} {state : LexState}
    (hstep : lexBetween? tokens octet = some (state, found)) : tokens <:+ found := by
  unfold lexBetween? at hstep
  repeat' split at hstep
  all_goals cases hstep
  all_goals simp

theorem lexEnd?_suffix {tokens found : List Token} {state : LexState}
    (hends : lexEnd? tokens state = some found) : tokens <:+ found := by
  cases state with
  | between => exact Option.some.inj hends ▸ List.suffix_rfl
  | word letters =>
      obtain ⟨token, _, rfl⟩ := Option.map_eq_some_iff.mp hends
      exact List.suffix_cons _ _
  | number numeral =>
      simp only [lexEnd?] at hends
      split at hends
      next =>
        cases hends
        exact List.suffix_cons _ _
      next => contradiction
  | string body => contradiction
  | escape body => contradiction

theorem lexStep?_suffix {tokens found : List Token} {octet : UInt8} {state next : LexState}
    (hstep : lexStep? tokens octet state = some (next, found)) : tokens <:+ found := by
  cases state with
  | between => exact lexBetween?_suffix hstep
  | word letters =>
      simp only [lexStep?] at hstep
      split at hstep
      next =>
        cases hstep
        exact List.suffix_rfl
      next =>
        obtain ⟨whole, hends, hnext⟩ := Option.bind_eq_some_iff.mp hstep
        exact (lexEnd?_suffix hends).trans (lexBetween?_suffix hnext)
  | number numeral =>
      simp only [lexStep?] at hstep
      split at hstep
      next =>
        cases hstep
        exact List.suffix_rfl
      next =>
        obtain ⟨whole, hends, hnext⟩ := Option.bind_eq_some_iff.mp hstep
        exact (lexEnd?_suffix hends).trans (lexBetween?_suffix hnext)
  | string body =>
      simp only [lexStep?] at hstep
      repeat' split at hstep
      all_goals cases hstep
      all_goals simp
  | escape body =>
      simp only [lexStep?] at hstep
      split at hstep
      next => contradiction
      next =>
        cases hstep
        exact List.suffix_rfl

/-- Where a text breaks off, the lexer stands somewhere with some tokens. -/
theorem lexFrom?_append {first second : Bytes} {state : LexState}
    {tokens all : List Token}
    (hlexed : lexFrom? state tokens (first ++ second) = some all) :
    ∃ later found, tokens <:+ found ∧ lexFrom? later found second = some all := by
  induction first generalizing state tokens with
  | nil => exact ⟨state, tokens, List.suffix_rfl, hlexed⟩
  | cons octet first ih =>
      rw [List.cons_append, lexFrom?] at hlexed
      split at hlexed
      next => contradiction
      next next found hstep =>
        obtain ⟨later, last, hsuffix, hrest⟩ := ih hlexed
        exact ⟨later, last, (lexStep?_suffix hstep).trans hsuffix, hrest⟩

/-- The name of the first member of a record, in its text. -/
def recordStart : Bytes :=
  0x7B :: 0x22 :: Bytes.ofAscii "entry" ++ [0x22]

/-- Behind a string that did not end, the first name of a record stands
outside the quotation marks, and there is no such word. -/
theorem lexEnd?_of_recordStart {state : LexState} {tokens all : List Token} {rest : Bytes}
    (hlexed : lexFrom? state tokens (recordStart ++ rest) = some all) :
    ∃ whole, lexEnd? tokens state = some whole := by
  -- The quotation mark that opens the name closes the string, and a letter
  -- cannot follow that.
  have hstring : ∀ body, lexFrom? (.string body) tokens
      (0x22 :: Bytes.ofAscii "entry" ++ [0x22] ++ rest) = none := by
    intro body
    rw [List.cons_append, List.cons_append, lexFrom?, lexStep?, if_pos rfl]
    dsimp only
    cases hasEscapes body.reverse with
    | false => rfl
    | true => rfl
  cases hends : lexEnd? tokens state with
  | some whole => exact ⟨whole, rfl⟩
  | none =>
      rw [recordStart, List.cons_append, List.cons_append, lexFrom?] at hlexed
      cases state with
      | between => contradiction
      | word letters =>
          rw [lexStep?, hends] at hlexed
          contradiction
      | number numeral =>
          rw [lexStep?, hends] at hlexed
          contradiction
      | string body =>
          change lexFrom? (.string (0x7B :: body)) tokens _ = _ at hlexed
          rw [hstring] at hlexed
          contradiction
      | escape body =>
          change lexFrom? (.string (0x7B :: body)) tokens _ = _ at hlexed
          rw [hstring] at hlexed
          contradiction

/-! ## The tokens of a value -/

theorem suffix_separate (started : Bool) (tokens : List Token) :
    tokens <:+ separate started tokens := by
  cases started with
  | false => exact List.suffix_rfl
  | true => exact List.suffix_cons _ _

mutual

/-- The tokens of a value stand behind those before it. -/
theorem suffix_tokensOnto : ∀ (value : Json) (tokens : List Token),
    tokens <:+ value.tokensOnto tokens
  | .null, _ => List.suffix_cons _ _
  | .bool _, _ => List.suffix_cons _ _
  | .number _, _ => List.suffix_cons _ _
  | .string _, _ => List.suffix_cons _ _
  | .array items, _ =>
    ((List.suffix_cons _ _).trans (suffix_itemsOnto items false _)).trans
      (List.suffix_cons _ _)
  | .object members, _ =>
    ((List.suffix_cons _ _).trans (suffix_membersOnto members false _)).trans
      (List.suffix_cons _ _)

theorem suffix_itemsOnto : ∀ (items : List Json) (started : Bool) (tokens : List Token),
    tokens <:+ itemsOnto items started tokens
  | [], _, _ => List.suffix_rfl
  | item :: items, started, tokens =>
    ((suffix_separate started tokens).trans (suffix_tokensOnto item _)).trans
      (suffix_itemsOnto items true _)

theorem suffix_membersOnto : ∀ (members : List (Bytes × Json)) (started : Bool)
    (tokens : List Token), tokens <:+ membersOnto members started tokens
  | [], _, _ => List.suffix_rfl
  | member :: members, started, tokens =>
    ((suffix_separate started tokens).trans (suffix_memberOnto member _)).trans
      (suffix_membersOnto members true _)

theorem suffix_memberOnto : ∀ (member : Bytes × Json) (tokens : List Token),
    tokens <:+ memberOnto member tokens
  | (_, value), _ =>
    ((List.suffix_cons _ _).trans (List.suffix_cons _ _)).trans (suffix_tokensOnto value _)

end

theorem tokens_object (key : Bytes) (value : Json) (members : List (Bytes × Json)) :
    ∃ rest, tokens (.object ((key, value) :: members)) =
      .openObject :: .string key :: .colon :: rest := by
  obtain ⟨rest, hrest⟩ : [.colon, .string key, .openObject] <:+
      tokensOnto (.object ((key, value) :: members)) [] := by
    rw [tokensOnto, membersOnto, memberOnto]
    exact ((suffix_tokensOnto value _).trans (suffix_membersOnto members true _)).trans
      (List.suffix_cons _ _)
  refine ⟨rest.reverse, ?_⟩
  rw [tokens, ← hrest, List.reverse_append]
  rfl

/-! ## Parsing goes on -/

namespace ParseState

theorem close_ne_valueDue (value : Json) (around rest : List Open) :
    close value around ≠ .valueDue rest := by
  cases around with
  | nil => nofun
  | cons container around =>
      cases container with
      | array items => nofun
      | object members key => nofun

theorem begin?_ne_valueDue {around rest : List Open} {token : Token} {next : ParseState}
    (hbegin : begin? around token = some next) : next ≠ .valueDue rest := by
  cases token with
  | null | bool | number | string =>
      exact Option.some.inj hbegin ▸ close_ne_valueDue _ around rest
  | openArray | openObject => exact Option.some.inj hbegin ▸ nofun
  | closeArray | closeObject | comma | colon => contradiction

/-- Only at the very start the whole value is due. -/
theorem step?_ne_start {state next : ParseState} {token : Token}
    (hstep : state.step? token = some next) : next ≠ .valueDue [] := by
  unfold step? at hstep
  split at hstep
  all_goals first
    | exact begin?_ne_valueDue hstep
    | exact Option.some.inj hstep ▸ close_ne_valueDue _ _ _
    | exact Option.some.inj hstep ▸ nofun
    | contradiction

theorem run?_ne_start {state last : ParseState} {row : List Token}
    (hstart : state ≠ .valueDue []) (hrun : state.run? row = some last) :
    last ≠ .valueDue [] := by
  induction row generalizing state with
  | nil => exact Option.some.inj hrun ▸ hstart
  | cons token row ih =>
      rw [run?] at hrun
      split at hrun
      next => contradiction
      next next hstep => exact ih (step?_ne_start hstep) hrun

/-- Behind the start no text is complete with an object at its end. -/
theorem run?_object_ne_done {state last : ParseState} (hstart : state ≠ .valueDue [])
    {key : Bytes} {value : Json} {members : List (Bytes × Json)}
    (hwritten : IsWritten (.object ((key, value) :: members)))
    (hrun : state.run? (tokens (.object ((key, value) :: members))) = some last)
    (whole : Json) : last ≠ .done whole := by
  have hinside : ∀ container around, state.Awaits (container :: around) →
      last ≠ .done whole := by
    intro container around hawaits
    have hbefore : state.run? [].reverse = some state := rfl
    have hvalue := hwritten.run?_tokensOnto hbefore hawaits
    rw [← tokens, hrun] at hvalue
    rw [Option.some.inj hvalue]
    cases container with
    | array items =>
        intro hdone
        contradiction
    | object members key =>
        intro hdone
        contradiction
  obtain ⟨rest, hrest⟩ := tokens_object key value members
  rw [hrest, run?] at hrun
  cases state with
  | valueDue around =>
      cases around with
      | nil => contradiction
      | cons container around => exact hinside container around (awaits_valueDue _)
  | itemDue around => exact hinside (.array []) around (awaits_itemDue around)
  | keyDue | firstKeyDue | colonDue | afterItem | afterMember | done => contradiction

end ParseState

/-! ## Behind an open brace -/

/-- The lexer finds a value behind whatever stands before it, if it comes
through at all. -/
theorem lexFrom?_behind {value : Json} (hwritten : value.IsWritten)
    (hdelimited : ∀ first ∈ value.tokens.head?, first.isDelimited = true)
    {state : LexState} {tokens whole all : List Token}
    (hends : lexEnd? tokens state = some whole)
    (hlexed : lexFrom? state tokens value.render = some all) :
    all = whole.reverse ++ value.tokens := by
  have hlegible := hwritten.tokens_legible
  have htight : Tight value.tokens :=
    (List.isChain_reverse.mp hlegible.tight).imp fun _ _ hapart => hapart.symm
  obtain ⟨later, found, hrest, hlater⟩ :=
    lexFrom?_tokens (fun token hmem => hlegible.written token (List.mem_reverse.mpr hmem))
      htight hends (Or.inr hdelimited) []
  rw [List.append_nil, ← render, hlexed, lexFrom?, hlater] at hrest
  rw [Option.some.inj hrest]
  simp

theorem render_recordStart (value : Json) (members : List (Bytes × Json)) :
    ∃ rest, render (.object ((Bytes.ofAscii "entry", value) :: members)) =
      recordStart ++ rest := by
  obtain ⟨rest, htokens⟩ := tokens_object (Bytes.ofAscii "entry") value members
  refine ⟨0x3A :: rest.flatMap Token.bytes, ?_⟩
  rw [render, htokens]
  rfl

/-- What begins like an object and ends with a text that begins like the one
of a record is no text. -/
theorem parse?_behind_brace (torn : Bytes) {value : Json} {members : List (Bytes × Json)}
    (hwritten : IsWritten (.object ((Bytes.ofAscii "entry", value) :: members))) :
    parse? (0x7B :: torn ++ render (.object ((Bytes.ofAscii "entry", value) :: members))) =
      none := by
  obtain ⟨rest, htokens⟩ := tokens_object (Bytes.ofAscii "entry") value members
  obtain ⟨more, hrender⟩ := render_recordStart value members
  rw [parse?]
  split
  next => rfl
  next all hlexed =>
    change lexFrom? .between [.openObject] (torn ++ _) = some all at hlexed
    obtain ⟨state, tokens, hsuffix, hlast⟩ := lexFrom?_append hlexed
    obtain ⟨whole, hends⟩ := lexEnd?_of_recordStart (hrender ▸ hlast)
    have hall := lexFrom?_behind hwritten (by simp [htokens, Token.isDelimited]) hends hlast
    obtain ⟨between, rfl⟩ := hsuffix.trans (lexEnd?_suffix hends)
    rw [List.reverse_append] at hall
    -- The parser has left its start with the brace, and only from the start an
    -- object completes the text.
    have hnever : ∀ last, ParseState.run? (.valueDue []) all = some last →
        ∀ found, last ≠ .done found := by
      intro last hrun found
      rw [hall, ParseState.run?_append] at hrun
      obtain ⟨middle, hfirst, hsecond⟩ := Option.bind_eq_some_iff.mp hrun
      have hopened : ParseState.firstKeyDue [] ≠ .valueDue [] := by simp
      have hmiddle := ParseState.run?_ne_start hopened hfirst
      exact ParseState.run?_object_ne_done hmiddle hwritten hsecond found
    rw [ofTokens?]
    split
    next found hrun => exact absurd rfl (hnever _ hrun found)
    next => rfl

end Json

namespace Record

variable {E : Type} [TableEntry E]

theorem toJson_eq (record : Record E) :
    record.toJson = .object [(Bytes.ofAscii "entry", TableEntry.toJson record.entry),
      (Json.escape "checksum", .ofNat record.checksum.toNat)] := by
  have hname : Json.escape "entry" = Bytes.ofAscii "entry" := by decide
  rw [← hname]
  rfl

theorem exists_text_eq_cons (entry : E) : ∃ rest, text entry = 0x7B :: rest := by
  obtain ⟨rest, hrender⟩ := Json.render_recordStart (TableEntry.toJson entry)
    [(Json.escape "checksum", .ofNat (checksumOf entry).toNat)]
  rw [text, toJson_eq]
  exact ⟨_, hrender⟩

/-- A record that a torn one runs into is lost. -/
theorem parse?_torn [TableEntry.Lawful E] (torn : Bytes) (entry : E) :
    parse? (0x7B :: torn ++ text entry) = (none : Option (Record E)) := by
  have hwritten := (ofEntry entry).isWritten_toJson
  rw [toJson_eq] at hwritten
  rw [parse?, text, toJson_eq, Json.parse?_behind_brace torn hwritten]
  rfl

end Record

end MessageStore
