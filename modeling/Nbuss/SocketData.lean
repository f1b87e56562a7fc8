import Nbuss.ServerWrite

/-!
# `SocketData`

The state `ThreadedServer2` keeps for a descriptor number: the counter behind
`lock` and `release`, and the queue of buffers that wait for the descriptor to
become writable.

A `std::deque` is a list here, written from its *back*: the head of the list is
the item the worker takes next, `push_back` puts an item in front of the list and
`push_front` puts it behind.  Read that way, the bytes still to be sent are the
items of the list one after the other (`SocketData.queued`).
-/

namespace Nbuss

/-- `SocketData::WriteItem`; `data_size` is the length of `data`. -/
structure WriteItem where
  data : List UInt8
  deriving DecidableEq, Repr

/-- `SocketData`: the fields `uses` and `writeQueue`. -/
structure SocketData where
  uses : Int := 0
  writeQueue : List WriteItem := []
  deriving DecidableEq, Repr

/-- `deque::push_front`, on a list that starts at the back. -/
def pushFront (writeQueue : List WriteItem) (item : WriteItem) : List WriteItem :=
  writeQueue ++ [item]

/-- `deque::push_back`, on a list that starts at the back. -/
def pushBack (writeQueue : List WriteItem) (item : WriteItem) : List WriteItem :=
  item :: writeQueue

namespace SocketData

/-- `SocketData::lock`, when no other thread interferes: it blocks (`none`) while
`uses > 0`. -/
def lock (sd : SocketData) : Option SocketData :=
  if 0 < sd.uses then none else some { sd with uses := sd.uses + 1 }

/-- `SocketData::release`. -/
def release (sd : SocketData) : SocketData := { sd with uses := sd.uses - 1 }

/-- `SocketData::_cleanup`, which is all that `cleanup(false)` does. -/
def cleanup (_ : SocketData) : SocketData := { uses := 0, writeQueue := [] }

/-- The bytes that wait in the queue, read from back to front. -/
def queued (sd : SocketData) : List UInt8 := sd.writeQueue.flatMap WriteItem.data

end SocketData

end Nbuss
