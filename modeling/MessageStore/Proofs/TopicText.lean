import MessageStore.Topic
import Mathlib.Data.Set.Function

/-!
# Topics and their texts

Only the first colon of a text counts: what stands before it is the namespace,
what stands after it is the name, and further colons belong to the name.  So
every text with a colon is the text of a topic whose namespace holds none, and
this topic is what is read from the text, unless a part is empty.

Reading and showing therefore undo each other on the readable topics.  Among
all topics they do not: a namespace with a colon shares its text with a topic
that has this colon in its name.
-/

namespace MessageStore

namespace Topic

/-! ## The first colon -/

theorem splitAtColon_of_notMem {text : List Char} (htext : ':' ∉ text) :
    splitAtColon text = none := by
  induction text with
  | nil => rfl
  | cons c rest ih =>
      rw [List.mem_cons, not_or] at htext
      rw [splitAtColon, if_neg (Ne.symm htext.1), ih htext.2, Option.map_none]

theorem splitAtColon_append {before : List Char} (hbefore : ':' ∉ before)
    (after : List Char) :
    splitAtColon (before ++ ':' :: after) = some (before, after) := by
  induction before with
  | nil => rfl
  | cons c rest ih =>
      rw [List.mem_cons, not_or] at hbefore
      rw [List.cons_append, splitAtColon, if_neg (Ne.symm hbefore.1), ih hbefore.2,
        Option.map_some]

/-- `before` and `after` stand on the two sides of the first colon of a text. -/
structure HasSides (text before after : String) : Prop where
  eq_append : text = before ++ ":" ++ after
  notMem_before : ':' ∉ before.toList

theorem exists_hasSides {text : String} (htext : ':' ∈ text.toList) :
    ∃ before after, HasSides text before after := by
  obtain ⟨before, after, hsplit, hbefore⟩ := List.eq_append_cons_of_mem htext
  refine ⟨String.ofList before, String.ofList after, ?_, ?_⟩
  · rw [← String.toList_inj, hsplit]
    simp
  · rwa [String.toList_ofList]

variable {text before after : String}

theorem HasSides.splitAtColon_eq (hsides : HasSides text before after) :
    splitAtColon text.toList = some (before.toList, after.toList) := by
  have htext : text.toList = before.toList ++ ':' :: after.toList := by
    simp [hsides.eq_append]
  rw [htext, splitAtColon_append hsides.notMem_before]

/-! ## Reading -/

/-- What a text is read as.  No topic comes from a text without a colon, nor from
one with nothing on one side of its first colon. -/
inductive Reads (text : String) : Except ParseError Topic → Prop where
  | missingSeparator (htext : ':' ∉ text.toList) :
      Reads text (.error (.missingSeparator text))
  | empty {before after : String} (hsides : HasSides text before after)
      (hempty : before = "" ∨ after = "") : Reads text (.error (.empty text))
  | topic {before after : String} (hsides : HasSides text before after)
      (hbefore : before ≠ "") (hafter : after ≠ "") : Reads text (.ok ⟨before, after⟩)

theorem parse_of_notMem (htext : ':' ∉ text.toList) :
    parse text = .error (.missingSeparator text) := by
  rw [parse, splitAtColon_of_notMem htext]

theorem HasSides.parse_eq (hsides : HasSides text before after) :
    parse text =
      if before = "" ∨ after = "" then .error (.empty text) else .ok ⟨before, after⟩ := by
  rw [parse, hsides.splitAtColon_eq]
  simp

theorem parse_reads (text : String) : Reads text (parse text) := by
  by_cases htext : ':' ∈ text.toList
  · obtain ⟨before, after, hsides⟩ := exists_hasSides htext
    rw [hsides.parse_eq]
    by_cases hempty : before = "" ∨ after = ""
    · rw [if_pos hempty]
      exact .empty hsides hempty
    · rw [if_neg hempty]
      rw [not_or] at hempty
      exact .topic hsides hempty.1 hempty.2
  · rw [parse_of_notMem htext]
    exact .missingSeparator htext

theorem parse_eq_iff {result : Except ParseError Topic} :
    parse text = result ↔ Reads text result := by
  constructor
  · rintro rfl
    exact parse_reads text
  · intro hreads
    cases hreads with
    | missingSeparator htext => exact parse_of_notMem htext
    | empty hsides hempty => rw [hsides.parse_eq, if_pos hempty]
    | topic hsides hbefore hafter =>
        rw [hsides.parse_eq, if_neg (not_or.mpr ⟨hbefore, hafter⟩)]

theorem parse_eq_error_iff {cause : ParseError} :
    parse text = .error cause ↔
      (cause = .missingSeparator text ∧ ':' ∉ text.toList) ∨
        cause = .empty text ∧
          ∃ before after, HasSides text before after ∧ (before = "" ∨ after = "") := by
  rw [parse_eq_iff]
  constructor
  · intro hreads
    cases hreads with
    | missingSeparator htext => exact .inl ⟨rfl, htext⟩
    | empty hsides hempty => exact .inr ⟨rfl, _, _, hsides, hempty⟩
  · rintro (⟨rfl, htext⟩ | ⟨rfl, before, after, hsides, hempty⟩)
    · exact .missingSeparator htext
    · exact .empty hsides hempty

/-! ## Reading what was shown -/

/-- Both parts hold something, and the namespace holds no colon. -/
structure IsReadable (topic : Topic) : Prop where
  space_ne : topic.space ≠ ""
  notMem_space : ':' ∉ topic.space.toList
  name_ne : topic.name ≠ ""

theorem parse_eq_ok_iff {topic : Topic} :
    parse text = .ok topic ↔ topic.IsReadable ∧ topic.text = text := by
  rw [parse_eq_iff]
  constructor
  · intro hreads
    cases hreads with
    | topic hsides hbefore hafter =>
        exact ⟨⟨hbefore, hsides.notMem_before, hafter⟩, hsides.eq_append.symm⟩
  · rintro ⟨hreadable, rfl⟩
    exact .topic ⟨rfl, hreadable.notMem_space⟩ hreadable.space_ne hreadable.name_ne

example : parse "jobs:mail:daily" = .ok ⟨"jobs", "mail:daily"⟩ := by rfl

theorem exists_parse_iff :
    (∃ topic, parse text = .ok topic) ↔
      ∃ before after, HasSides text before after ∧ before ≠ "" ∧ after ≠ "" := by
  constructor
  · rintro ⟨topic, hparse⟩
    obtain ⟨hreadable, hsame⟩ := parse_eq_ok_iff.mp hparse
    exact ⟨topic.space, topic.name, ⟨hsame.symm, hreadable.notMem_space⟩,
      hreadable.space_ne, hreadable.name_ne⟩
  · rintro ⟨before, after, hsides, hbefore, hafter⟩
    exact ⟨_, parse_eq_iff.mpr (.topic hsides hbefore hafter)⟩

theorem parse_text_iff {topic : Topic} :
    parse topic.text = .ok topic ↔ topic.IsReadable := by
  rw [parse_eq_ok_iff, and_iff_left rfl]

theorem text_injOn : Set.InjOn Topic.text {topic | topic.IsReadable} := by
  intro first hfirst second hsecond hsame
  have hread := parse_text_iff.mpr hfirst
  rw [hsame, parse_text_iff.mpr hsecond] at hread
  exact (Except.ok.inj hread).symm

/-- A colon may stand in the namespace or in the name, and the text is the same. -/
theorem text_not_injective : ¬ Function.Injective Topic.text := by
  intro hinjective
  have hsame : (⟨"jobs:mail", "daily"⟩ : Topic) = ⟨"jobs", "mail:daily"⟩ :=
    hinjective (by decide)
  exact absurd hsame (by decide)

/-- A text is read as a topic just if its first colon has something on both sides;
the cause of a failure tells whether there is a colon.  The topic is one that shows
as this text again, and a topic is read back from its text just if its namespace
is neither empty nor broken by a colon and its name is not empty.  So no two of the
topics that can be read share a text, while other topics do. -/
theorem readable_topics_round_trip :
    (∀ text : String,
      ((∃ topic, parse text = .ok topic) ↔
        ∃ before after, HasSides text before after ∧ before ≠ "" ∧ after ≠ "") ∧
      (∀ cause, parse text = .error cause ↔
        (cause = .missingSeparator text ∧ ':' ∉ text.toList) ∨
          cause = .empty text ∧
            ∃ before after, HasSides text before after ∧ (before = "" ∨ after = "")) ∧
      ∀ topic, parse text = .ok topic ↔ topic.IsReadable ∧ topic.text = text) ∧
    (∀ topic : Topic, parse topic.text = .ok topic ↔ topic.IsReadable) ∧
    Set.InjOn Topic.text {topic | ∃ source, parse source = .ok topic} ∧
    ¬ Function.Injective Topic.text := by
  refine ⟨fun text => ⟨exists_parse_iff, fun cause => parse_eq_error_iff,
    fun topic => parse_eq_ok_iff⟩, fun topic => parse_text_iff, ?_, text_not_injective⟩
  apply text_injOn.mono
  rintro topic ⟨source, hparse⟩
  exact (parse_eq_ok_iff.mp hparse).1

end Topic

end MessageStore
