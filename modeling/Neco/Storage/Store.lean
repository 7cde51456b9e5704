import Neco.Lib.History
import Neco.Update
import Mathlib.Data.List.Sort

/-!
# The etcd keys of the update process

etcd is taken as its linear history: the list of transactions that `storage`
commits, where a transaction's revision is its position. Transactions on keys
that the update process does not read are `other`.
-/

namespace Neco

/-- A committed transaction. `putStatus` also records, for the proofs only, the mod
revision of the request that the reporting worker was handling. -/
inductive Change where
  | putRequest (req : UpdateRequest)
  | putReconfigureRequest (req : UpdateRequest)
  | clearStatusAndContents
  | putStatus (lrn : Int) (st : UpdateStatus) (handling : Nat)
  | updateNecoRelease (version : String)
  | registerBootserver (lrn : Int)
  | deleteBootServer (lrn : Int)
  | other
  deriving DecidableEq, Repr

def keyBootServer (lrn : Int) : String := "info/bootservers/" ++ toString lrn

/-- `current` holds the request with its mod revision; `latest` is empty while no
release is recorded; `bootservers` is in the order of the etcd keys. -/
structure Store where
  current : Option (UpdateRequest × Nat)
  statuses : Statuses
  latest : String
  bootservers : List Int

def Store.empty : Store := ⟨none, ∅, "", []⟩

def Store.apply (s : Store) (rev : Nat) : Change → Store
  | .putRequest req => { s with current := some (req, rev) }
  | .putReconfigureRequest req => { s with current := some (req, rev), statuses := ∅ }
  | .clearStatusAndContents => { s with current := none, statuses := ∅ }
  | .putStatus lrn st _ => { s with statuses := s.statuses.insert lrn st }
  | .updateNecoRelease version => { s with latest := version }
  | .registerBootserver lrn =>
    if lrn ∈ s.bootservers then s
    else { s with bootservers :=
      s.bootservers.orderedInsert (fun a b => keyBootServer a ≤ keyBootServer b) lrn }
  | .deleteBootServer lrn => { s with bootservers := s.bootservers.erase lrn }
  | .other => s

/-- What a reader sees after the transactions `h`. -/
def store (h : List Change) : Store := History.replay Store.apply .empty h

@[simp] theorem store_nil : store [] = .empty := rfl

@[simp] theorem store_concat (h : List Change) (c : Change) :
    store (h ++ [c]) = (store h).apply (h.length + 1) c :=
  History.replay_concat _ _ _ _

/-- The request that a transaction puts under `status/current`. -/
def Change.request? : Change → Option UpdateRequest
  | .putRequest req => some req
  | .putReconfigureRequest req => some req
  | _ => none

/-- Whether a transaction writes under `info/`, the prefix `WaitInfo` watches. -/
def Change.isInfo : Change → Bool
  | .updateNecoRelease _ => true
  | .registerBootserver _ => true
  | .deleteBootServer _ => true
  | _ => false

/-- Whether a transaction writes under `status/`. -/
def Change.isStatus : Change → Bool
  | .putRequest _ => true
  | .putReconfigureRequest _ => true
  | .clearStatusAndContents => true
  | .putStatus _ _ _ => true
  | _ => false

def lastRequestStep (last : Option Nat) (rev : Nat) : Change → Option Nat
  | .putRequest req => if req.stop then last else some rev
  | .putReconfigureRequest req => if req.stop then last else some rev
  | .clearStatusAndContents => none
  | _ => last

/-- The mod revision of the request that `status/current` holds or held before its
`stop` was set; `none` when there is no request. -/
def lastRequest (h : List Change) : Option Nat := History.replay lastRequestStep none h

@[simp] theorem lastRequest_nil : lastRequest [] = none := rfl

@[simp] theorem lastRequest_concat (h : List Change) (c : Change) :
    lastRequest (h ++ [c]) = lastRequestStep (lastRequest h) (h.length + 1) c :=
  History.replay_concat _ _ _ _

/-- `NewSnapshot`: one consistent view, taken at a revision. -/
structure Snapshot where
  revision : Nat
  request : Option UpdateRequest
  statuses : Statuses
  latest : String
  servers : List Int

def newSnapshot (h : List Change) : Snapshot where
  revision := h.length
  request := (store h).current.map Prod.fst
  statuses := (store h).statuses
  latest := (store h).latest
  servers := (store h).bootservers

end Neco
