import PushGateway.Proofs.TableReplay

/-! Sessions of a store and its callers: any interleaving of calls, of callers that get a place or
put their request there, of times that are over, of requests handled and of timers, with a record of
what happened. -/

namespace PushGateway

namespace Store

/-- What is recorded: a caller asks, its request enters the queue, it is taken out and handled at
some time of day, the caller gets an answer. -/
inductive Note
  | issued (c : Call)
  | queued (c : Call)
  | handled (c : Call) (now : UInt64)
  | answered (id : Nat) (reply : Reply)
  deriving DecidableEq

section Log

def Note.issued? : Note → Option Call
  | .issued c => some c
  | _ => none

def Note.queued? : Note → Option Call
  | .queued c => some c
  | _ => none

def Note.handled? : Note → Option (Call × UInt64)
  | .handled c now => some (c, now)
  | _ => none

def Note.answered? : Note → Option (Nat × Reply)
  | .answered id reply => some (id, reply)
  | _ => none

def issued (log : List Note) : List Call := log.filterMap Note.issued?

def queued (log : List Note) : List Call := log.filterMap Note.queued?

def handled (log : List Note) : List (Call × UInt64) := log.filterMap Note.handled?

def answered (log : List Note) : Replies := log.filterMap Note.answered?

def notes (replies : Replies) : List Note := replies.map fun (id, reply) => .answered id reply

attribute [simp] Note.issued? Note.queued? Note.handled? Note.answered?

variable (x : Note) (log log' : List Note) (replies : Replies)

@[simp] lemma issued_nil : issued [] = [] := rfl

@[simp] lemma issued_cons : issued (x :: log) = x.issued?.toList ++ issued log := by
  cases x <;> rfl

@[simp] lemma issued_append : issued (log ++ log') = issued log ++ issued log' :=
  List.filterMap_append

@[simp] lemma queued_nil : queued [] = [] := rfl

@[simp] lemma queued_cons : queued (x :: log) = x.queued?.toList ++ queued log := by
  cases x <;> rfl

@[simp] lemma queued_append : queued (log ++ log') = queued log ++ queued log' :=
  List.filterMap_append

@[simp] lemma handled_nil : handled [] = [] := rfl

@[simp] lemma handled_cons : handled (x :: log) = x.handled?.toList ++ handled log := by
  cases x <;> rfl

@[simp] lemma handled_append : handled (log ++ log') = handled log ++ handled log' :=
  List.filterMap_append

@[simp] lemma answered_nil : answered [] = [] := rfl

@[simp] lemma answered_cons : answered (x :: log) = x.answered?.toList ++ answered log := by
  cases x <;> rfl

@[simp] lemma answered_append : answered (log ++ log') = answered log ++ answered log' :=
  List.filterMap_append

@[simp] lemma issued_notes : issued (notes replies) = [] := by
  induction replies with
  | nil => rfl
  | cons p replies ih => exact ih

@[simp] lemma queued_notes : queued (notes replies) = [] := by
  induction replies with
  | nil => rfl
  | cons p replies ih => exact ih

@[simp] lemma handled_notes : handled (notes replies) = [] := by
  induction replies with
  | nil => rfl
  | cons p replies ih => exact ih

@[simp] lemma answered_notes : answered (notes replies) = replies := by
  induction replies with
  | nil => rfl
  | cons p replies ih => exact congrArg (p :: ·) ih

end Log

/-- A store with its callers, who are numbered by `count`. -/
structure Session where
  store : Store
  count : Nat
  log : List Note

namespace Session

inductive Event
  | call (r : Request)
  | enter (i : Nat)
  | send (i : Nat)
  | expire (id : Nat)
  | serve (now : Moment) (succeeds : Bool)
  | tick (now : Nat) (succeeds : Bool)

def call (s : Session) (r : Request) : Session :=
  let c : Call := ⟨s.count, r⟩
  let (store, replies) := s.store.reserve c
  { s with store, count := s.count + 1, log := s.log ++ .issued c :: notes replies }

/-- A caller that has a place sends its request in a step of its own, whatever happened since. -/
def send (s : Session) (i : Nat) : Session :=
  match s.store.reserved[i]? with
  | none => s
  | some c => { s with store := s.store.send i, log := s.log ++ [.queued c] }

def expire (s : Session) (id : Nat) : Session :=
  let (store, replies) := s.store.expire id
  { s with store, log := s.log ++ notes replies }

def serve (s : Session) (now : Moment) (succeeds : Bool) : Session :=
  if s.store.isShutDown then s
  else match s.store.queue with
    | [] => s
    | c :: _ =>
      let (store, replies) := s.store.serve now succeeds
      { s with store, log := s.log ++ .handled c now.unixMillis :: notes replies }

def step (s : Session) : Event → Session
  | .call r => s.call r
  | .enter i => { s with store := s.store.enter i }
  | .send i => s.send i
  | .expire id => s.expire id
  | .serve now succeeds => s.serve now succeeds
  | .tick now succeeds => { s with store := s.store.tick now succeeds }

def after (s : Session) (events : List Event) : Session := events.foldl step s

def opened (o : StoreOptions) (table : Table) (file : Option Snapshot.Contents) : Session :=
  ⟨.start o table file, 0, []⟩

end Session

end Store

end PushGateway
