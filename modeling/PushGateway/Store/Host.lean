import PushGateway.Snapshot.Restore
import PushGateway.Store.Queue

/-!
Stores side by side: one clock, one disk, and handles that name stores. A store that has lost its
last handle makes its final write when the clock next moves.
-/

namespace PushGateway

/-- A store, and the number of the lease of the file it holds. -/
structure Host.Tenant where
  store : Store
  lease : Option Nat
  deriving DecidableEq

structure Host where
  elapsed : Nat
  disk : Snapshot.Disk
  tenants : List Host.Tenant
  handles : SortedMap String Nat
  deriving DecidableEq

namespace Host

def empty (home : Snapshot.Path) : Host := ⟨0, .empty home, [], .empty⟩

def moment (h : Host) : Moment := ⟨h.elapsed, UInt64.ofNat (h.elapsed / 1000000)⟩

def named? (h : Host) (handle : String) : Option (Nat × Tenant) := do
  let i ← h.handles.get? handle
  return (i, ← h.tenants[i]?)

def settle (d : Snapshot.Disk) (t : Tenant) : Snapshot.Disk × Tenant :=
  match t.lease, t.store.serializer.file with
  | some number, some contents =>
    if t.store.isShutDown then (d.release ⟨number, contents⟩, { t with lease := none }) else (d, t)
  | _, _ => (d, t)

def setTenant (h : Host) (i : Nat) (t : Tenant) : Host :=
  let (disk, t) := settle h.disk t
  { h with disk, tenants := h.tenants.set i t }

/-- What a store starts from: the disk, the contents of its file and the groups. -/
def restored (d : Snapshot.Disk) : Option String → Snapshot.Restored
  | some file => Snapshot.restore d file
  | none => .nothing d

def tenantOf (options : StoreOptions) (table : Table) (r : Snapshot.Restored) : Tenant where
  store := .start options table (r.file.map Snapshot.Lease.contents)
  lease := r.file.map Snapshot.Lease.number

/-- There is no store if no number follows a restored one or if the queue is too long. -/
def tenant? (options : StoreOptions) (r : Snapshot.Restored) : Option Tenant := do
  let table ← Table.ofGroups? r.groups
  if options.queueDepth ≤ StoreOptions.depthLimit then some (tenantOf options table r) else none

def openStore? (h : Host) (handle : String) (options : StoreOptions) : Option (Host × Nat) := do
  let r := restored h.disk options.persistenceFile
  let t ← tenant? options r
  return ({ h with
    disk := r.disk
    tenants := h.tenants ++ [t]
    handles := h.handles.insert handle h.tenants.length }, t.store.serializer.table.size)

/-- Issues requests to one store all at once; the replies are in the order of the requests. A timer
that goes off at this very moment comes before them. -/
def request? (h : Host) (handle : String) (requests : List Store.Request) :
    Option (Host × List Store.Reply) := do
  let (i, t) ← h.named? handle
  let calls := requests.zipIdx.map fun (r, id) => (⟨id, r⟩ : Store.Call)
  let (store, replies) := (t.store.tick (h.elapsed + 1) true).run h.moment true calls
  return (h.setTenant i { t with store }, calls.map fun c =>
    (replies.lookup c.id).getD (.error .shutDown))

def writes? (h : Host) (handle : String) : Option Nat :=
  (h.named? handle).map fun t => t.2.store.serializer.writes

def clone? (h : Host) (handle copy : String) : Option Host :=
  (h.handles.get? handle).map fun i => { h with handles := h.handles.insert copy i }

def drop? (h : Host) (handle : String) : Option Host :=
  (h.handles.get? handle).map fun _ => { h with handles := h.handles.erase handle }

/-- The final write of a store without handles, or the deadline of one that has some. -/
def advance (h : Host) (later : Nat) (i : Nat) : Host :=
  match h.tenants[i]? with
  | none => h
  | some t =>
    let store := if h.handles.values.contains i then t.store.tick later true
      else t.store.abandon h.elapsed true
    h.setTenant i { t with store }

/-- Lets time pass. In no time nothing happens. -/
def sleep (h : Host) (d : Duration) : Host :=
  if d.nanos = 0 then h
  else
    let later := h.elapsed + d.nanos
    let h := (List.range h.tenants.length).foldl (fun h i => h.advance later i) h
    { h with elapsed := later }

end Host

end PushGateway
