import Atrib.Lib.InsertionMap
import Mathlib.Algebra.Order.Ring.Int

/-!
# The store of idempotent writes

`createWriteIdempotencyStore` of `services/atribd/src/idempotency.ts`. A write
call that carries an idempotency key is `begin`: the store forgets completed
entries by age and then by number, looks the key up, and answers from the entry
or makes a pending one. `complete` puts the result in.

Both work on the entries in memory at once and then wait for the state file.
The writes stand in a chain of promises, each with the text the state had when
it was asked for; a write that fails rejects the chain, and whatever is chained
to it afterwards is rejected without being tried. A restart reads the file.

The clock counts milliseconds, and the file holds the state itself in place of
its JSON text. A store without a state file is one whose writes land at once
and that is never restarted. `hashKey` is the commitment of a key.
-/

namespace Atrib.Atribd

open Lib

inductive EntryStatus (ρ : Type) where
  | pending
  | completed (result : ρ)
deriving DecidableEq

structure IdempotencyEntry (ρ : Type) where
  keyHash : String
  binding : String
  status : EntryStatus ρ
  createdAt : ℤ
  updatedAt : ℤ
deriving DecidableEq

namespace IdempotencyEntry

variable {ρ : Type}

def isCompleted (entry : IdempotencyEntry ρ) : Bool :=
  match entry.status with
  | .completed _ => true
  | .pending => false

end IdempotencyEntry

/-- The entries of `state`, by the hashes of their keys. -/
abbrev Entries (ρ : Type) := InsertionMap String (IdempotencyEntry ρ)

structure IdempotencyState (ρ : Type) where
  profile : String
  entries : Entries ρ := ∅
deriving DecidableEq

structure StoreOptions where
  profile : String := "unknown"
  windowMs : ℤ := 7 * 24 * 60 * 60 * 1000
  maxEntries : ℕ := 10000
  hashKey : String → String

/-- What `begin` answers, or rejects with. -/
inductive BeginAnswer (ρ : Type) where
  | owner
  | replay (result : ρ)
  | bindingMismatch
  | indeterminate
  /-- `idempotency store is full of unresolved pending entries` -/
  | full
deriving DecidableEq

/-- What a call did to the entry of a key: a `begin` made it pending, or a `complete` gave it a
result. -/
structure Update (ρ : Type) where
  keyHash : String
  binding : String
  status : EntryStatus ρ
  time : ℤ
deriving DecidableEq

/-- A call that waits for its write, and the state of the moment it asked for it. -/
structure StateWrite (ρ : Type) where
  update : Update ρ
  snapshot : IdempotencyState ρ
deriving DecidableEq

/-- How a write went: whether it could be written, whether the call returned, whether the key
has an entry in memory then, and what the file holds. -/
structure Outcome (ρ : Type) where
  write : StateWrite ρ
  ok : Bool
  returned : Bool
  inMemory : Bool
  file : Option (IdempotencyState ρ)

/-- The last three fields are a record of the run and read by nothing. -/
structure IdempotencyStore (ρ : Type) where
  state : IdempotencyState ρ
  clock : ℤ := 0
  /-- the writes of the chain that are still to come -/
  writes : List (StateWrite ρ) := []
  /-- `persistence` is rejected -/
  broken : Bool := false
  file : Option (IdempotencyState ρ) := none
  /-- what the entries in memory have gone through -/
  made : List (Update ρ) := []
  /-- what the callers have been told -/
  returned : List (Update ρ) := []
  outcomes : List (Outcome ρ) := []

/-- `elapsed` is the time between the two readings of the clock in `begin`. -/
inductive StoreAction (ρ : Type) where
  | tick (elapsed : ℕ)
  | begin (key binding : String) (elapsed : ℕ)
  | complete (keyHash binding : String) (result : ρ)
  | write (ok : Bool)
  | restart

namespace StoreOptions

variable {ρ : Type} (options : StoreOptions)

/-- A character beyond the first plane is two code units, and each is replaced. -/
def safeProfile (profile : String) : String :=
  let safe := (profile.toList.flatMap fun c =>
    if c.isAlphanum || c = '.' || c = '_' || c = '-' then [c]
    else if c.toNat < 0x10000 then ['_'] else ['_', '_']).take 64
  if safe = [] then "unknown" else String.ofList safe

def freshState : IdempotencyState ρ := { profile := safeProfile options.profile }

/-- A file of this store is well formed, so only the profile is left to check. -/
def loadState (file : Option (IdempotencyState ρ)) : IdempotencyState ρ :=
  match file with
  | some parsed =>
      if parsed.profile = safeProfile options.profile then parsed else options.freshState
  | none => options.freshState

def pruneEntry (now : ℤ) (entries : Entries ρ) (entry : IdempotencyEntry ρ) : Entries ρ :=
  if entry.updatedAt < now - options.windowMs ∨ options.maxEntries ≤ entries.size then
    entries.filter fun key _ => key ≠ entry.keyHash
  else entries

def pruneCompleted (now : ℤ) (entries : Entries ρ) : Entries ρ :=
  ((entries.values.filter (·.isCompleted)).mergeSort fun left right =>
    decide (left.updatedAt ≤ right.updatedAt)).foldl (options.pruneEntry now) entries

/-- What `begin` finds for a key among the entries that are left. -/
def answer (entries : Entries ρ) (keyHash binding : String) : BeginAnswer ρ :=
  match entries.get? keyHash with
  | some prior =>
      if prior.binding ≠ binding then .bindingMismatch
      else
        match prior.status with
        | .completed result => .replay result
        | .pending => .indeterminate
  | none => if options.maxEntries ≤ entries.size then .full else .owner

end StoreOptions

namespace IdempotencyStore

variable {ρ : Type} (options : StoreOptions)

/-- The store of a new process. -/
def load (file : Option (IdempotencyState ρ)) (clock : ℤ) (returned : List (Update ρ))
    (outcomes : List (Outcome ρ)) : IdempotencyStore ρ :=
  { state := options.loadState file, clock, file, made := returned, returned, outcomes }

/-- The entry of a key is set, and a write of the state is asked for. -/
def putEntry (s : IdempotencyStore ρ) (entry : IdempotencyEntry ρ) (update : Update ρ) :
    IdempotencyStore ρ :=
  let state := { s.state with entries := s.state.entries.set entry.keyHash entry }
  { s with
    state
    writes := s.writes ++ [⟨update, state⟩]
    made := s.made ++ [update] }

def prune (s : IdempotencyStore ρ) : IdempotencyStore ρ :=
  { s with state := { s.state with
      entries := options.pruneCompleted s.clock s.state.entries } }

/-- The answer of `begin`, which it gives at once unless it is `owner`. -/
def beginAnswer (s : IdempotencyStore ρ) (key binding : String) : BeginAnswer ρ :=
  options.answer (s.prune options).state.entries (options.hashKey key) binding

def begin (s : IdempotencyStore ρ) (key binding : String) (elapsed : ℕ) : IdempotencyStore ρ :=
  let pruned := s.prune options
  let keyHash := options.hashKey key
  match options.answer pruned.state.entries keyHash binding with
  | .owner =>
      let now := s.clock + elapsed
      { pruned with clock := now }.putEntry
        { keyHash, binding, status := .pending, createdAt := now, updatedAt := now }
        { keyHash, binding, status := .pending, time := now }
  | _ => pruned

/-- The entry a completion belongs to. -/
def matching (s : IdempotencyStore ρ) (keyHash binding : String) : Option (IdempotencyEntry ρ) :=
  (s.state.entries.get? keyHash).filter fun prior => prior.binding = binding

/-- A completion without a matching entry is rejected and changes nothing. -/
def complete (s : IdempotencyStore ρ) (keyHash binding : String) (result : ρ) :
    IdempotencyStore ρ :=
  match s.matching keyHash binding with
  | some prior =>
      s.putEntry
        { keyHash, binding, status := .completed result, createdAt := prior.createdAt,
          updatedAt := s.clock }
        { keyHash, binding, status := .completed result, time := s.clock }
  | none => s

/-- The next write of the chain, which would go well or not. -/
def write (s : IdempotencyStore ρ) (ok : Bool) : IdempotencyStore ρ :=
  match s.writes with
  | [] => s
  | w :: writes =>
      let landed := ok && !s.broken
      let file := if landed then some w.snapshot else s.file
      { s with
        writes
        broken := !landed
        file
        returned := if landed then s.returned ++ [w.update] else s.returned
        outcomes := s.outcomes ++
          [⟨w, ok, landed, s.state.entries.has w.update.keyHash, file⟩] }

def step (s : IdempotencyStore ρ) : StoreAction ρ → IdempotencyStore ρ
  | .tick elapsed => { s with clock := s.clock + elapsed }
  | .begin key binding elapsed => s.begin options key binding elapsed
  | .complete keyHash binding result => s.complete keyHash binding result
  | .write ok => s.write ok
  | .restart => load options s.file s.clock s.returned s.outcomes

end IdempotencyStore

end Atrib.Atribd
