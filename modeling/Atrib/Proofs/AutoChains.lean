import Atrib.Lib.Run
import Atrib.Mcp.AutoChain

/-!
# When the records of a wrapped server form one chain

The chain root that a context would give to its next record is the one at which
the chain of its committed records ends. A record keeps to that chain if the
chain root is still the same when it is committed as when it was read; so if no
two calls of a context are between building and committing at the same time.
Likewise the parent's hash is named once if the call that is to name it is not
overtaken by another that is.
-/

namespace Atrib.AutoChain

open Lib InsertionMap

variable {H : Hash} {codec : RecordCodec} {options : AtribOptions}

/-! ## Chains -/

variable (H codec) in
/-- Each record has the chain root its context has come to, and moves it on. -/
def SingleChains (root : String → String) : List AtribRecord → Prop
  | [] => True
  | r :: rs => r.chainRoot = root r.contextId ∧
      SingleChains (Function.update root r.contextId ("sha256:" ++ recordHashHex H codec r)) rs

instance decidableSingleChains : ∀ (root : String → String) (records : List AtribRecord),
    Decidable (SingleChains H codec root records)
  | _, [] => isTrue trivial
  | root, r :: rs =>
      have := decidableSingleChains
        (Function.update root r.contextId ("sha256:" ++ recordHashHex H codec r)) rs
      inferInstanceAs (Decidable (_ ∧ _))

variable (H codec) in
/-- The chain roots the contexts have come to. -/
def rootsAfter (root : String → String) (records : List AtribRecord) : String → String :=
  records.foldl
    (fun root r => Function.update root r.contextId ("sha256:" ++ recordHashHex H codec r)) root

theorem singleChains_append {records : List AtribRecord} {r : AtribRecord} :
    ∀ {root : String → String}, SingleChains H codec root (records ++ [r]) ↔
      SingleChains H codec root records ∧
        r.chainRoot = rootsAfter H codec root records r.contextId := by
  induction records with
  | nil =>
      intro root
      simp [SingleChains, rootsAfter]
  | cons first records ih =>
      intro root
      rw [List.cons_append, SingleChains, SingleChains, ih, and_assoc]
      rfl

theorem rootsAfter_append (root : String → String) (records : List AtribRecord) (r : AtribRecord) :
    rootsAfter H codec root (records ++ [r]) =
      Function.update (rootsAfter H codec root records) r.contextId
        ("sha256:" ++ recordHashHex H codec r) := by
  rw [rootsAfter, List.foldl_append]
  rfl

theorem recordHashHex_ne_empty (record : AtribRecord) : recordHashHex H codec record ≠ "" := by
  intro h
  have hlen := congrArg (fun text : String => text.toList.length) h
  simp [recordHashHex, recordDigest] at hlen

/-! ## The members a commit depends on -/

theorem mem_informedByList {draft : Draft} {references : List String} {hash : String} :
    hash ∈ (informedByList options draft references).getD [] ↔
      draft.parentRecordHashSeeded = true ∧ options.parentRecordHashSeed = some hash ∨
        hash ∈ references := by
  have hmem : ∀ list : List String, hash ∈ ((if list = [] then none
      else some (sortBy (fun a b => compare (JsValue.codeUnits a) (JsValue.codeUnits b))
        list) : Option (List String)).getD []) ↔ hash ∈ list := by
    intro list
    split
    · next hnil => simp [hnil]
    · simp
  rw [informedByList]
  simp only [hmem, InsertionSet.mem_ofList, List.mem_append]
  refine or_congr_left ?_
  cases draft.parentRecordHashSeeded <;> simp [Option.mem_toList]

theorem chainRootOf_set {s : WrappedServer} {contextId : String} {record : AtribRecord}
    (other : String) :
    ({ s with lastRecordHashByContext :=
        s.lastRecordHashByContext.set contextId (recordHashHex H codec record) } :
      WrappedServer).chainRootOf H options other =
      Function.update (s.chainRootOf H options) contextId
        ("sha256:" ++ recordHashHex H codec record) other := by
  rw [WrappedServer.chainRootOf, get?_set, Function.update_apply]
  split
  · have hsome : (some (recordHashHex H codec record)).filter (· ≠ "") =
        some (recordHashHex H codec record) := by
      simp [Option.filter, recordHashHex_ne_empty]
    rw [resolveChainRoot, hsome]
    rfl
  · rfl

/-! ## Careful runs -/

variable (H options) in
/-- Nothing has come in between since the record was begun: the chain root of
the context is still the one that was read, and the parent's hash, if the record
is to name it, has not been named. No other reference is the parent's hash, and
if writing to the result throws, the record is mirrored and does not name it. -/
def CarefulMove (s : WrappedServer) : CallMove → Prop
  | .commit index completion => ∀ draft ∈ s.drafts[index]?,
      draft.chainRoot = s.chainRootOf H options draft.contextId ∧
        (draft.parentRecordHashSeeded = true → s.parentRecordHashSeedConsumed = false) ∧
        (∀ parent ∈ options.parentRecordHashSeed, parent ∉ completion.references) ∧
        (completion.outboundThrows = true →
          options.onRecord = true ∧ draft.parentRecordHashSeeded = false)
  | _ => True

instance (s : WrappedServer) : ∀ move, Decidable (CarefulMove H options s move)
  | .build _ | .abandon _ => isTrue trivial
  | .commit index _ => inferInstanceAs (Decidable (∀ draft ∈ s.drafts[index]?, _ ∧ _))

/-- The records that name a hash. -/
def naming (hash : String) (records : List AtribRecord) : List AtribRecord :=
  records.filter fun record => decide (hash ∈ record.informedBy.getD [])

def records (s : WrappedServer) : List AtribRecord := s.committed.map (·.signed)

variable (H codec options) in
/-- The chain root a context starts with: that of its newest seed record, of the
environment, or of its genesis. -/
def firstRoot : String → String := (atrib H codec options).chainRootOf H options

variable (H codec options) in
/-- The committed records form one chain in each context, and one of them at
most names the parent's hash. -/
structure Linear (records : List AtribRecord) : Prop where
  chains : SingleChains H codec (firstRoot H codec options) records
  parent : ∀ parent ∈ options.parentRecordHashSeed, (naming parent records).length ≤ 1

variable (H codec options) in
structure Tracked (s : WrappedServer) : Prop extends Linear H codec options (records s) where
  tails : s.chainRootOf H options = rootsAfter H codec (firstRoot H codec options) (records s)
  unnamed : s.parentRecordHashSeedConsumed = false →
    ∀ parent ∈ options.parentRecordHashSeed, naming parent (records s) = []

theorem tracked_atrib : Tracked H codec options (atrib H codec options) where
  chains := trivial
  parent _ _ := Nat.zero_le _
  tails := rfl
  unnamed _ _ _ := rfl

theorem Tracked.commit {s : WrappedServer} (h : Tracked H codec options s) {index : ℕ}
    {completion : Completion} (hcareful : CarefulMove H options s (.commit index completion)) :
    Tracked H codec options (s.commit H codec options index completion) := by
  rw [WrappedServer.commit]
  cases hdraft : s.drafts[index]? with
  | none => exact h
  | some draft =>
      obtain ⟨hroot, hseed, hreferences, hthrows⟩ := hcareful draft hdraft
      let built := finish H codec options draft completion
      have hmirrored : (options.onRecord || !completion.outboundThrows) = true := by
        cases hcase : completion.outboundThrows with
        | false => simp
        | true => simp [(hthrows hcase).1]
      have hnames : ∀ parent ∈ options.parentRecordHashSeed,
          parent ∈ built.signed.informedBy.getD [] ↔ draft.parentRecordHashSeeded = true := by
        intro parent hparent
        have hmem : parent ∈ built.signed.informedBy.getD [] ↔ _ := mem_informedByList
        rw [hmem]
        exact ⟨fun h => (h.resolve_right (hreferences parent hparent)).1,
          fun h => Or.inl ⟨h, hparent⟩⟩
      have hnaming : ∀ parent, naming parent (records s ++ [built.signed]) =
          naming parent (records s) ++
            if parent ∈ built.signed.informedBy.getD [] then [built.signed] else [] := by
        intro parent
        rw [naming, List.filter_append, ← naming, List.filter_singleton]
        by_cases hmem : parent ∈ built.signed.informedBy.getD [] <;> simp [hmem]
      have hrecords : records { s with
          drafts := s.drafts.eraseIdx index
          lastRecordHashByContext :=
            s.lastRecordHashByContext.set built.contextId built.recordHashHex
          committed := s.committed ++ [built]
          parentRecordHashSeedConsumed := s.parentRecordHashSeedConsumed ||
            built.parentRecordHashSeeded && !completion.outboundThrows } =
          records s ++ [built.signed] := by
        simp [records]
      simp only
      rw [if_pos hmirrored]
      refine ⟨⟨?_, ?_⟩, ?_, ?_⟩
      · rw [hrecords, singleChains_append]
        refine ⟨h.chains, ?_⟩
        rw [← h.tails]
        exact hroot
      · intro parent hparent
        rw [hrecords, hnaming]
        split
        · next hmem =>
            have hnone := h.unnamed (hseed ((hnames parent hparent).1 hmem)) parent hparent
            rw [hnone]
            simp
        · rw [List.append_nil]
          exact h.parent parent hparent
      · rw [hrecords, rootsAfter_append, ← h.tails]
        funext other
        exact chainRootOf_set other
      · intro hconsumed parent hparent
        obtain ⟨hold, hnew⟩ := Bool.or_eq_false_iff.1 hconsumed
        have hunseeded : draft.parentRecordHashSeeded = false := by
          cases hcase : completion.outboundThrows with
          | true => exact (hthrows hcase).2
          | false =>
              rw [hcase, Bool.not_false, Bool.and_true] at hnew
              exact hnew
        have hnot : parent ∉ built.signed.informedBy.getD [] := by
          rw [hnames parent hparent, hunseeded]
          decide
        rw [hrecords, hnaming, if_neg hnot, List.append_nil]
        exact h.unnamed hold parent hparent

theorem Tracked.step {s : WrappedServer} (h : Tracked H codec options s) (move : CallMove)
    (hcareful : CarefulMove H options s move) :
    Tracked H codec options (s.step H codec options move) := by
  cases move with
  | build call => exact ⟨⟨h.chains, h.parent⟩, h.tails, h.unnamed⟩
  | commit index completion => exact h.commit hcareful
  | abandon index => exact ⟨⟨h.chains, h.parent⟩, h.tails, h.unnamed⟩

/-- Where no call is overtaken, the committed records of a context are one chain
in the order in which they were committed, and one of them at most names the
parent's hash. -/
theorem autoChain_linear (H : Hash) (codec : RecordCodec) (options : AtribOptions)
    (moves : List CallMove)
    (hcareful : Always (WrappedServer.step H codec options) (CarefulMove H options)
      (atrib H codec options) moves) :
    Linear H codec options
      (records (run (WrappedServer.step H codec options) (atrib H codec options) moves)) := by
  have hstep : ∀ s move, Tracked H codec options s → CarefulMove H options s move →
      Tracked H codec options (s.step H codec options move) := fun _ move h hc => h.step move hc
  exact (run_invariant hstep tracked_atrib hcareful).toLinear

/-! ### Two calls of a spawned process -/

namespace SpawnSample

def context : String := "aaaaaaaaaaaaaaaaaaaaaaaaaaaaaaaa"

def parentHash : String :=
  "sha256:7777777777777777777777777777777777777777777777777777777777777777"

def spawned : AtribOptions where
  parentRecordHashSeed := some parentHash

/-- The members of a signed tool call that chaining has no part in. -/
def fields (timestamp : ℤ) (signature : String) : AtribRecord where
  contentId := some "sha256:dc8e783725aa24117b22496ca67b151f64d604ff54f9f35d84090f28f1cb06c6"
  creatorKey := "iojj3XQJ8ZX9UtstPLpdcspnCb8dlBIb83SIAbQPb1w"
  chainRoot := ""
  eventType := "https://atrib.dev/v1/types/tool_call"
  contextId := ""
  timestamp := timestamp
  rest := [("signature", signature), ("spec_version", "atrib/1.0")]

/-- JCS for records with these members. -/
def canonicalCall (record : AtribRecord) : Bytes :=
  let member (key value : String) : Bytes :=
    utf8 "\"" ++ utf8 key ++ utf8 "\":\"" ++ utf8 value ++ utf8 "\","
  utf8 "\x7b" ++ member "chain_root" record.chainRoot ++
    member "content_id" (record.contentId.getD "") ++ member "context_id" record.contextId ++
    member "creator_key" record.creatorKey ++ member "event_type" record.eventType ++
    (record.informedBy.elim [] fun hashes =>
      utf8 "\"informed_by\":[\"" ++ ((hashes.map utf8).intersperse (utf8 "\",\"")).flatten ++
        utf8 "\"],") ++
    (record.rest.map fun entry => member entry.1 entry.2).flatten ++
    utf8 "\"timestamp\":" ++
    (Nat.toDigits 10 record.timestamp.toNat).map (fun c => UInt8.ofNat c.toNat) ++ utf8 "\x7d"

def firstSignature : String :=
  "9EybUIdpGx-6i-6x2oIDUAu-ls2yRId2RETr11_7fTP8VtUB5qmL1V2d1L6a3f-UiU3SZBt352LT_YCueWdSAg"

/-- The first of the records that are signed. -/
def firstCall : AtribRecord :=
  { fields 1 firstSignature with
    contextId := context
    chainRoot := "sha256:3ba3f5f43b92602683c19aee62a20342b084dd5971ddd33808d81a328879a547"
    informedBy := some [parentHash] }

def callCodec : RecordCodec where
  canonicalRecord := canonicalCall
  verifyRecord _ := true

/-- SHA-256, the digests of the context and of the first record being known. -/
def hash : Hash where
  sha256 data :=
    if data = utf8 context then
      hexBytes "3ba3f5f43b92602683c19aee62a20342b084dd5971ddd33808d81a328879a547".toList
    else if data = canonicalCall firstCall then
      hexBytes "8b865a25d43042ff6df944c616ebf5bfa208eb4d350ef4b2510ce1ced732b156".toList
    else Hash.fips180.sha256 data
  length_sha256 data := by
    split
    · decide +kernel
    · split
      · decide +kernel
      · exact Hash.length_sha256 _ _

def call : ToolCall := ⟨none, context⟩

def firstCompletion : Completion where
  references := []
  fields := fields 1 firstSignature

def overtakenCompletion : Completion where
  references := []
  fields := fields 2
    "owR9WJ7w9-6BDgfEVv5JclEuQHQYBiqSBEHGNI5eP1ONH6ZM7A_mIh-2ZCDI-H9U2fxf3smkcRqKEfdZs6wICw"

def nextCompletion : Completion where
  references := []
  fields := fields 2
    "clytqp94uSuHifaEHU7yrTjM1tm8wVeZSdrll6ZExognLvvIFews00Ihii00WIY91Xzn76AFXzY62zYTyzy0Dw"

/-- Both calls build their record before either commits it. -/
def overlapping : List CallMove :=
  [.build call, .build call, .commit 0 firstCompletion, .commit 0 overtakenCompletion]

/-- The second record chains to the genesis as well, and names the parent's hash
once more. -/
theorem autoChain_forks :
    let committed := records (run (WrappedServer.step hash callCodec spawned)
      (atrib hash callCodec spawned) overlapping)
    ¬SingleChains hash callCodec (firstRoot hash callCodec spawned) committed ∧
      ¬(naming parentHash committed).length ≤ 1 := by
  decide +kernel

/-- One call after the other. -/
def successive : List CallMove :=
  [.build call, .commit 0 firstCompletion, .build call, .commit 0 nextCompletion]

theorem careful_successive : Always (WrappedServer.step hash callCodec spawned)
    (CarefulMove hash spawned) (atrib hash callCodec spawned) successive := by
  decide +kernel

theorem autoChain_linear_successive :
    Linear hash callCodec spawned (records (run (WrappedServer.step hash callCodec spawned)
      (atrib hash callCodec spawned) successive)) :=
  autoChain_linear hash callCodec spawned successive careful_successive

end SpawnSample

end Atrib.AutoChain
