import PushGateway.Store.Options
import PushGateway.Store.Serializer

/-!
The store as its callers see it: a queue of bounded length in front of the owner of the table. A
caller asks for a place, and waits if all are taken until one is free or its time is over. A place
is kept until the request that is put there is taken out, and by its caller even when the owner has
stopped: what is put there then is never taken out.
-/

namespace PushGateway

structure Store.Call where
  id : Nat
  request : Store.Request
  deriving DecidableEq

/-- The requests in the queue in their order, the calls with a place that they have not filled yet,
and the calls that wait for a place. -/
structure Store where
  serializer : Serializer
  depth : Nat
  depth_pos : 0 < depth
  timeout : Duration
  queue : List Store.Call
  reserved : List Store.Call
  waiting : List Store.Call
  deriving DecidableEq

namespace Store

/-- A store that starts with the given table, and holds a file if its contents are given. -/
def start (o : StoreOptions) (table : Table) (file : Option Snapshot.Contents) : Store where
  serializer := .start table file o.persistenceInterval
  depth := max o.queueDepth 1
  depth_pos := by omega
  timeout := o.requestTimeout
  queue := []
  reserved := []
  waiting := []

def inMemory : Store := .start .default .empty none

def isShutDown (s : Store) : Bool := s.serializer.stopped

abbrev Replies := List (Nat × Reply)

def freePlaces (s : Store) : Nat := s.depth - (s.queue.length + s.reserved.length)

/-- A new call gets a place if more are free than those who wait will take, and else waits. -/
def reserve (s : Store) (c : Call) : Store × Replies :=
  if s.isShutDown then (s, [(c.id, .error .shutDown)])
  else if s.waiting.length < s.freePlaces then ({ s with reserved := s.reserved ++ [c] }, [])
  else ({ s with waiting := s.waiting ++ [c] }, [])

/-- One of those who wait takes a place, if there is one for it and all before it. -/
def enter (s : Store) (i : Nat) : Store :=
  match s.waiting[i]? with
  | none => s
  | some c =>
    if i < s.freePlaces then
      { s with reserved := s.reserved ++ [c], waiting := s.waiting.eraseIdx i }
    else s

/-- One of the calls with a place puts its request there. -/
def send (s : Store) (i : Nat) : Store :=
  match s.reserved[i]? with
  | none => s
  | some c => { s with queue := s.queue ++ [c], reserved := s.reserved.eraseIdx i }

/-- The time of the call with the given number is over; this matters only while it waits. -/
def expire (s : Store) (id : Nat) : Store × Replies :=
  if s.waiting.any fun c => c.id == id then
    ({ s with waiting := s.waiting.filter fun c => c.id != id }, [(id, .error .timeout)])
  else (s, [])

/-- What is in the queue is dropped, and nobody waits any more. The places are not taken away. -/
def close (s : Store) : Store × Replies :=
  ({ s with queue := [], waiting := [] },
    (s.queue ++ s.waiting).map fun c => (c.id, .error .shutDown))

/-- Takes the first request out of the queue. A stopped owner takes none. -/
def serve (s : Store) (now : Moment) (succeeds : Bool) : Store × Replies :=
  if s.isShutDown then (s, [])
  else match s.queue with
    | [] => (s, [])
    | c :: queue =>
      let (serializer, reply) := s.serializer.handle now succeeds c.request
      let s := { s with serializer, queue }
      if serializer.stopped then
        let (s, replies) := s.close
        (s, (c.id, reply) :: replies)
      else (s, [(c.id, reply)])

/-- A call that fills the place it gets at once. Its time is over at once if callers do not wait at
all. -/
def issue (s : Store) (c : Call) : Store × Replies :=
  let (s, replies) := s.reserve c
  let s := s.send 0
  if s.timeout.nanos = 0 then
    let (s, expired) := s.expire c.id
    (s, replies ++ expired)
  else (s, replies)

def issueAll (s : Store) : List Call → Store × Replies
  | [] => (s, [])
  | c :: cs =>
    let (s, replies) := s.issue c
    let (s, more) := s.issueAll cs
    (s, replies ++ more)

/-- Serves as many requests. Who waited fills the place that each of them leaves. -/
def serveMany (s : Store) (now : Moment) (succeeds : Bool) : Nat → Store × Replies
  | 0 => (s, [])
  | n + 1 =>
    let (s, replies) := s.serve now succeeds
    let (s, more) := ((s.enter 0).send 0).serveMany now succeeds n
    (s, replies ++ more)

def run (s : Store) (now : Moment) (succeeds : Bool) (calls : List Call) : Store × Replies :=
  let (s, replies) := s.issueAll calls
  let (s, more) := s.serveMany now succeeds (s.queue.length + s.waiting.length)
  (s, replies ++ more)

def call (s : Store) (now : Moment) (succeeds : Bool) (r : Request) : Store × Reply :=
  let (s, replies) := s.run now succeeds [⟨0, r⟩]
  (s, match replies with
    | (_, reply) :: _ => reply
    | [] => .error .shutDown)

/-- Lets the clock come to the given moment: a deadline whose alarm is before it fires then. -/
def tick (s : Store) (now : Nat) (succeeds : Bool) : Store :=
  if s.isShutDown then s
  else match s.serializer.deadline with
    | some due =>
      let alarm := Moment.alarm due
      if alarm < now then { s with serializer := s.serializer.fire alarm succeeds } else s
    | none => s

def abandon (s : Store) (now : Nat) (succeeds : Bool) : Store :=
  if s.isShutDown then s else { s with serializer := (s.serializer.finish now succeeds).1 }

end Store

end PushGateway
