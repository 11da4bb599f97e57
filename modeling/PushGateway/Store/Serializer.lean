import PushGateway.Duration
import PushGateway.Snapshot.Contents
import PushGateway.Table

/-!
The owner of the table. Requests are handled one at a time. A change makes the state dirty and
sets a deadline one interval ahead, at which the table is written to the snapshot file; a write
that fails is tried again one interval later.
-/

namespace PushGateway

/-- A moment: nanoseconds on a clock that never goes back, and milliseconds of the time of day. -/
structure Moment where
  elapsed : Nat
  unixMillis : UInt64
  deriving DecidableEq, Repr

/-- The clock shows only moments below this: two to the power 63 seconds. -/
def Moment.limit : Nat := 9223372036854775808 * Duration.nanosPerSecond

/-- Timers go off at whole milliseconds: at the first that is not before the deadline. -/
def Moment.alarm (deadline : Nat) : Nat := (deadline + 999999) / 1000000 * 1000000

inductive Store.Request
  | push (key : GroupingKey) (families : List Family)
  | delete (key : GroupingKey)
  | snapshot
  | flush
  | shutdown
  deriving DecidableEq

inductive StoreError
  | invalid (error : ValidationError)
  | timeout
  | shutDown
  | persistence (error : SnapshotError)
  deriving DecidableEq

def StoreError.message : StoreError → String
  | .invalid error => "invalid push: " ++ error.message
  | .timeout => "metric store did not respond in time"
  | .shutDown => "metric store is shut down"
  | .persistence error => "persistence: " ++ error.message

inductive Store.Answer
  | done
  | deleted (existed : Bool)
  | groups (groups : List Group)
  deriving DecidableEq

abbrev Store.Reply := Except StoreError Store.Answer

/-- While the file is held its contents are kept here. A stopped owner handles nothing more, and its
file is given back. -/
structure Serializer where
  table : Table
  file : Option Snapshot.Contents
  writes : Nat
  interval : Duration
  dirty : Bool
  deadline : Option Nat
  stopped : Bool
  deriving DecidableEq

namespace Serializer

def start (table : Table) (file : Option Snapshot.Contents) (interval : Duration) : Serializer :=
  ⟨table, file, 0, interval, false, none, false⟩

/-- The moment one interval ahead, if the clock can show it. -/
def deadlineAfter (interval : Duration) (now : Nat) : Option Nat :=
  if now + interval.nanos < Moment.limit then some (now + interval.nanos) else none

/-- Sets a deadline, if there is a file to write and none is set yet. -/
def arm (s : Serializer) (now : Nat) : Serializer :=
  if s.file.isSome && s.deadline.isNone then { s with deadline := deadlineAfter s.interval now }
  else s

def markDirty (s : Serializer) (now : Nat) : Serializer := { s with dirty := true }.arm now

/-- Writes the table, if there is a file. Whether an attempt succeeds is up to the disk. -/
def write (s : Serializer) (now : Nat) (succeeds : Bool) : Serializer × Except SnapshotError Unit :=
  if s.file.isNone then (s, .ok ())
  else if succeeds then
    ({ s with
      file := some (.ofGroups s.table.snapshot)
      writes := s.writes + 1
      dirty := false }, .ok ())
  else (s.markDirty now, .error .unwritten)

def writeNow (s : Serializer) (now : Nat) (succeeds : Bool) :
    Serializer × Except SnapshotError Unit :=
  { s with deadline := none }.write now succeeds

/-- The last write, after which the file may be given back. -/
def finish (s : Serializer) (now : Nat) (succeeds : Bool) :
    Serializer × Except SnapshotError Unit :=
  let (s, result) := s.writeNow now succeeds
  ({ s with deadline := none, stopped := true }, result)

def fire (s : Serializer) (now : Nat) (succeeds : Bool) : Serializer :=
  if s.dirty then (s.writeNow now succeeds).1 else { s with deadline := none }

def replyOf : Except SnapshotError Unit → Store.Reply
  | .ok () => .ok .done
  | .error e => .error (.persistence e)

/-- The end of the numbers is the end of the owner: it is gone as it is, without a last write, and
whoever asked gets no other answer than those who ask later. -/
def fail (s : Serializer) : Serializer := { s with stopped := true }

def handle (s : Serializer) (now : Moment) (succeeds : Bool) :
    Store.Request → Serializer × Store.Reply
  | .push key families => match s.table.push key families now.unixMillis with
    | .ok (table, _) => ({ s with table }.markDirty now.elapsed, .ok .done)
    | .error (.invalid e) => (s, .error (.invalid e))
    | .error .overflow => (s.fail, .error .shutDown)
  | .delete key =>
    let (table, existed) := s.table.delete key
    (if existed then { s with table }.markDirty now.elapsed else { s with table },
      .ok (.deleted existed))
  | .snapshot => (s, .ok (.groups s.table.snapshot))
  | .flush =>
    let (s, result) := s.writeNow now.elapsed succeeds
    (s, replyOf result)
  | .shutdown =>
    let (s, result) := s.finish now.elapsed succeeds
    (s, replyOf result)

end Serializer

end PushGateway
