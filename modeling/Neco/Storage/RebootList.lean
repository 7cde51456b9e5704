import Neco.Lib.Run
import Neco.Lib.Numeral
import Neco.Storage.Keys
import Neco.Rebooter.Storage
import Mathlib.Logic.Function.Basic

/-!
# The reboot list in etcd

The keys of the reboot list and the functions that change it, each `Get` and each `Txn` of
which is one step. An entry is kept under its index in hexadecimal, and the index of the next
entry under a key of its own. Any number of clients take steps in any order.

What the list is for is said by `Fifo`: entries are appended, replaced in place and removed.
-/

namespace Neco.RebootList

open KeyValue
open Rebooter (RebootListEntry)

/-- A value in etcd: the JSON of an entry, or another text. -/
inductive Value
  | entry (e : RebootListEntry)
  | text (s : String)
deriving DecidableEq, Repr

abbrev Keys := KV String Value

/-- `json.Unmarshal` into a `RebootListEntry`. -/
def Value.unmarshal : Value → Option RebootListEntry
  | .entry e => some e
  | .text _ => none

/-- `strconv.ParseInt(value, 10, 64)`. -/
def Value.parseInt : Value → Option Int
  | .entry _ => none
  | .text s => atoi s.toList

def keyNecoRebooterRebootList : String := "neco-rebooter/reboot-list/"
def keyNecoRebooterWriteIndex : String := "neco-rebooter/write-index"

/-- The range of the list's keys. -/
def inRebootList (key : String) : Bool := hasPrefix key keyNecoRebooterRebootList

/-- The format `%016x` of an `int64`: the sign takes one of the 16 places. -/
def formatHex : Int → List Char
  | .ofNat n => (Nat.toDigits 16 n).leftpad 16 '0'
  | .negSucc n => '-' :: (Nat.toDigits 16 (n + 1)).leftpad 15 '0'

def rebootListEntryKey (index : Int) : String :=
  keyNecoRebooterRebootList ++ String.ofList (formatHex index)

/-- `writeIndex+1` in 64 bits. -/
def nextWriteIndex (writeIndex : Int) : Int := Int.bmod (writeIndex + 1) (2 ^ 64)

/-- `GetRebootListEntries`; `none` when a value is not the JSON of an entry. -/
def getRebootListEntries (kv : Keys) : Option (List RebootListEntry) :=
  (kv.getRange inRebootList).mapM fun p => p.value.unmarshal

/-! ### The list as a queue -/

/-- A transaction that etcd has committed. -/
inductive Commit
  | registered (e : RebootListEntry)
  | updated (e : RebootListEntry)
  | removed (index : Int)
deriving DecidableEq, Repr

/-- The list as the users of the storage see it, with its past: the registrations in the order
of their commits, each with its client, and the indices of entries that were removed. -/
structure Fifo where
  registered : List (Nat × RebootListEntry)
  removed : List Int
  entries : List RebootListEntry
deriving DecidableEq, Repr

def Fifo.empty : Fifo := ⟨[], [], []⟩

def Fifo.apply (q : Fifo) (client : Nat) : Commit → Fifo
  | .registered e =>
    { q with
      registered := q.registered ++ [(client, e)]
      entries := q.entries ++ [e] }
  | .updated e => { q with entries := q.entries.map fun x => if x.index = e.index then e else x }
  | .removed index =>
    { q with
      -- An index that names no entry may still be given to one.
      removed := if q.entries.any (·.index = index) then q.removed ++ [index] else q.removed
      entries := q.entries.filter (·.index ≠ index) }

/-! ### The storage functions step by step -/

inductive Operation
  | registerRebootListEntry (entry : RebootListEntry)
  | updateRebootListEntry (entry : RebootListEntry)
  | removeRebootListEntry (leaderKey : String) (entry : RebootListEntry)
deriving DecidableEq, Repr

def Operation.entry : Operation → RebootListEntry
  | .registerRebootListEntry e => e
  | .updateRebootListEntry e => e
  | .removeRebootListEntry _ e => e

/-- How far an operation is: between its `Get` and its `Txn` it remembers what it has read. -/
inductive Progress
  | start
  | compareIndex (writeIndex : Int) (rev : Nat)
  | compare (rev : Nat)
deriving DecidableEq, Repr

inductive Error
  | notFound
  | noLeader
  /-- The write index is not a number. -/
  | parse
  /-- A request to etcd has failed, possibly after it was carried out. -/
  | etcd
deriving DecidableEq, Repr

inductive Client
  | idle
  | running (op : Operation) (progress : Progress)
  /-- The registration has set the index of its entry. -/
  | registered (e : RebootListEntry)
  | succeeded
  | failed (e : Error)
deriving DecidableEq, Repr

/-- The write index and its revision, as `RegisterRebootListEntry` reads them. -/
def readWriteIndex (kv : Keys) : Option (Int × Nat) :=
  match kv.get keyNecoRebooterWriteIndex with
  | none => some (0, 0)
  | some p => p.value.parseInt.map fun value => (value, p.modRevision)

/-- The result of one request: the keys and what the client does next. -/
structure Outcome where
  kv : Keys
  next : Client

/-- One request of an operation. -/
def request (kv : Keys) : Operation → Progress → Option Outcome
  | .registerRebootListEntry e, .start =>
    match readWriteIndex kv with
    | none => some ⟨kv, .failed .parse⟩
    | some (index, rev) =>
      some ⟨kv, .running (.registerRebootListEntry e) (.compareIndex index rev)⟩
  | .registerRebootListEntry e, .compareIndex index rev =>
    let e' := { e with index := index }
    if kv.modRevision keyNecoRebooterWriteIndex = rev then
      some
        { kv := kv.commit
            [.put (rebootListEntryKey index) (.entry e'),
              .put keyNecoRebooterWriteIndex (.text (itoa (nextWriteIndex index)))]
          next := .registered e' }
    else some ⟨kv, .running (.registerRebootListEntry e') .start⟩
  | .updateRebootListEntry e, .start =>
    match kv.get (rebootListEntryKey e.index) with
    | none => some ⟨kv, .failed .notFound⟩
    | some p => some ⟨kv, .running (.updateRebootListEntry e) (.compare p.modRevision)⟩
  | .updateRebootListEntry e, .compare rev =>
    if kv.modRevision (rebootListEntryKey e.index) = rev then
      some ⟨kv.put (rebootListEntryKey e.index) (.entry e), .succeeded⟩
    else some ⟨kv, .running (.updateRebootListEntry e) .start⟩
  | .removeRebootListEntry leaderKey e, .start =>
    if (kv.get leaderKey).isSome then
      some ⟨kv.delete (rebootListEntryKey e.index), .succeeded⟩
    else some ⟨kv, .failed .noLeader⟩
  | _, _ => none

/-! ### Clients in parallel -/

structure State where
  kv : Keys
  clients : Nat → Client
  /-- A ghost: no step depends on it. -/
  fifo : Fifo

def start : State := ⟨.empty, fun _ => .idle, .empty⟩

inductive Action
  /-- A client that runs nothing calls a function. -/
  | call (client : Nat) (op : Operation)
  | request (client : Nat)
  /-- etcd carries out a request, but its answer is lost. -/
  | loseAnswer (client : Nat)
  | loseRequest (client : Nat)
  /-- Another key, such as that of a leader, is put or deleted. -/
  | putOther (key : String) (value : Value)
  | deleteOther (key : String)

def isOther (key : String) : Bool := !inRebootList key && key != keyNecoRebooterWriteIndex

/-- What an operation asks for, as its caller has put it: the entry that was passed, under the
index that was read. -/
def Operation.asked : Operation → Progress → Option Commit
  | .registerRebootListEntry e, .compareIndex index _ => some (.registered { e with index := index })
  | .registerRebootListEntry _, _ => none
  | .updateRebootListEntry e, _ => some (.updated e)
  | .removeRebootListEntry _ e, _ => some (.removed e.index)

/-- A request after which its operation has returned without an error. -/
def Client.hasReturned : Client → Bool
  | .registered _ => true
  | .succeeded => true
  | _ => false

/-- The queue after a request: it changes as asked when the operation succeeds. -/
def Outcome.queue (o : Outcome) (op : Operation) (progress : Progress) (q : Fifo)
    (client : Nat) : Fifo :=
  if o.next.hasReturned then (op.asked progress).elim q (q.apply client) else q

/-- What a request leaves, with the client's next state. -/
def State.finish (s : State) (client : Nat) (op : Operation) (progress : Progress) (o : Outcome)
    (next : Client) : State where
  kv := o.kv
  clients := Function.update s.clients client next
  fifo := o.queue op progress s.fifo client

def step (s : State) : Action → Option State
  | .call client op =>
    match s.clients client with
    | .running _ _ => none
    | _ =>
      if IsInt op.entry.index then
        some { s with clients := Function.update s.clients client (.running op .start) }
      else none
  | .request client =>
    match s.clients client with
    | .running op progress =>
      (RebootList.request s.kv op progress).map fun o => s.finish client op progress o o.next
    | _ => none
  | .loseAnswer client =>
    match s.clients client with
    | .running op progress =>
      (RebootList.request s.kv op progress).map fun o => s.finish client op progress o (.failed .etcd)
    | _ => none
  | .loseRequest client =>
    match s.clients client with
    | .running _ _ => some { s with clients := Function.update s.clients client (.failed .etcd) }
    | _ => none
  | .putOther key value => if isOther key then some { s with kv := s.kv.put key value } else none
  | .deleteOther key => if isOther key then some { s with kv := s.kv.delete key } else none

end Neco.RebootList
