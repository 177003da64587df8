/-!
# Settings of a connection

The sizes that a connection works with, with their defaults.
-/

namespace RespStore

/-- The sizes that a connection works with. -/
structure Settings where
  /-- The least room given to a chunk of outbound replies, in bytes. -/
  minimumBuffer : Nat := 4096
  /-- Buffered reply bytes above which nothing is read until they are written. -/
  writeBudget : Nat := 64 * 1024
  /-- The largest request accepted, in bytes. -/
  maxFrame : Nat := 512 * 1024 * 1024
  /-- How many messages wait for a connection before new ones are lost. -/
  queueCapacity : Nat := 1024
  deriving Repr, DecidableEq

end RespStore
