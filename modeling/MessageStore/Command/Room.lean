import MessageStore.Command.Conclusion

/-!
# Room in memory

Some commands make room for what they will hold before they hold any of it,
so a number that is far too large ends them at once.  A block of memory that
is larger than any block can be is refused; one that is merely larger than
the memory there is ends the program from outside.
-/

namespace MessageStore.Room

/-- No block of memory has more octets. -/
def largestBlock : Nat := 9223372036854775800

/-- A program can address this many octets. -/
def addressable : Nat := 140737488355328

/-- Makes room for `count` things of `size` octets each. -/
def reserve (count size : Nat) : Except Failure Unit :=
  if largestBlock < count * size then .error .oversized
  else if addressable ≤ count * size then .error .outOfMemory
  else .ok ()

/-- How many octets a request takes while it is written. -/
def requestSize : Nat := 176

def forBatch (config : WriterConfig) : Except Failure Unit :=
  reserve config.batchCapacity requestSize

end MessageStore.Room
