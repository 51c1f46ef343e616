import MessageStore.Bytes

/-!
# The content of a file

A file grows by pieces, so that appending to it does not go through what it
holds already.
-/

namespace MessageStore

/-- The content of a file, as the pieces written to it, the last one first. -/
structure Content where
  pieces : List Bytes := []
  deriving Repr, Inhabited

namespace Content

def bytes (content : Content) : Bytes :=
  content.pieces.reverse.flatten

def ofBytes (bytes : Bytes) : Content :=
  ⟨[bytes]⟩

def size (content : Content) : Nat :=
  content.pieces.foldr (fun piece size => piece.length + size) 0

def append (content : Content) (bytes : Bytes) : Content :=
  ⟨bytes :: content.pieces⟩

@[simp] theorem bytes_ofBytes (bytes : Bytes) : (ofBytes bytes).bytes = bytes := by
  simp [ofBytes, Content.bytes]

@[simp] theorem bytes_append (content : Content) (bytes : Bytes) :
    (content.append bytes).bytes = content.bytes ++ bytes := by
  simp [append, Content.bytes]

theorem size_eq_length (content : Content) :
    content.size = content.bytes.length := by
  obtain ⟨pieces⟩ := content
  induction pieces with
  | nil => rfl
  | cons piece rest ih =>
    have h : size ⟨piece :: rest⟩ = piece.length + size ⟨rest⟩ := rfl
    rw [h, ih]
    simp [Content.bytes, Nat.add_comm]

end Content

end MessageStore
