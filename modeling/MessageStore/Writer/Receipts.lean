import MessageStore.Writer.Pending

/-!
# Comparing receipts

A publisher can check its receipts: each request should start after the one
before it ended, and no two requests should share a position.  A position
that is missing counts as earlier than every position.
-/

namespace MessageStore

namespace Position

/-- Whether a position that may be missing is strictly before another. -/
def isBefore : Option Position → Option Position → Bool
  | _, none => false
  | none, some _ => true
  | some first, some second => first ≠ second && first.precedes second

end Position

namespace Receipt

/-- Whether every receipt starts after the end of the one before it, the first
one after a given position, and none ends earlier than it starts. -/
def areOrderedAfter : Option Position → List Receipt → Bool
  | _, [] => true
  | last, receipt :: rest =>
    Position.isBefore last receipt.first &&
      !Position.isBefore receipt.last receipt.first &&
      areOrderedAfter receipt.last rest

/-- Whether every receipt starts after the one before it ended, and ends no
earlier than it starts.  A first receipt without positions does not start
after anything. -/
def areOrdered (receipts : List Receipt) : Bool :=
  areOrderedAfter none receipts

/-- Whether every receipt starts after the end of the one before it. -/
def areApart : List Receipt → Bool
  | receipt :: next :: rest =>
    Position.isBefore receipt.last next.first && areApart (next :: rest)
  | _ => true

/-- Whether the receipts, in the order in which they start, stand apart from
each other.  So no two of them share a position, and at most one of them has
no positions. -/
def areDisjoint (receipts : List Receipt) : Bool :=
  areApart (receipts.mergeSort fun receipt next =>
    !Position.isBefore next.first receipt.first)

end Receipt

end MessageStore
