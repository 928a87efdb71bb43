import Mathlib.Tactic.Linarith
import Atrib.Directory.AuditProof
import Atrib.Proofs.AnchorChain

/-!
# An honest directory under step 5

The directory has published one anchor for each epoch, signed, chained and
included in the log, and every server answers what it should. The query then
gets through all its checks up to the audit proof, from any state, and at the
audit proof it depends on the distance alone: the proof has one step for each
epoch, and step 5 hands over two roots whatever the distance.
-/

namespace Atrib.Verify

open Lib (Effect JsValue JsNumber)
open Lib.Effect (Yields Throws)
open Directory (Akd AppendOnlyProof)

variable {σ : Type}

/-! ## The history -/

/-- An anchor with what the directory knows of it. -/
structure PublishedAnchor extends WalkedAnchor where
  timestamp : ℚ
  /-- The root of the epoch. -/
  digest : Bytes

/-- A directory, its log, and the source of its bodies. -/
structure DirectoryHistory (σ : Type) where
  operatorKey : String
  origin : String
  logEndpoint : String
  logKey : TrustedCheckpointKey
  fetchAnchorBody : String → Effect σ JsValue
  firstEpoch : ℕ
  /-- How many anchors there are. -/
  count : ℕ
  anchors : ℕ → PublishedAnchor

namespace DirectoryHistory

def inputs (d : DirectoryHistory σ) : StepOneInputs σ :=
  ⟨d.logEndpoint, d.operatorKey, d.fetchAnchorBody⟩

def epoch (d : DirectoryHistory σ) (i : ℕ) : JsValue :=
  .number (.finite (d.firstEpoch + i : ℕ))

/-- The log lists the newest entry first. -/
def entries (d : DirectoryHistory σ) : List JsValue :=
  (List.range d.count).reverse.map fun i => (d.anchors i).commitment.entry

end DirectoryHistory

variable (P : Platform σ) (d : DirectoryHistory σ)

/-- The operator has signed the body, the log has its entry, and both say the same. -/
structure HonestAnchor (i : ℕ) (anchor : PublishedAnchor) : Prop where
  entryType : anchor.commitment.entry.member "event_type" = .string "directory_anchor"
  entryCreator : anchor.commitment.entry.member "creator_key" = .string d.operatorKey
  entryContext : anchor.commitment.entry.member "context_id" =
    .string (deriveDirectoryContextId P d.origin)
  entryTimestamp : anchor.commitment.entry.member "timestamp_ms" =
    .number (.finite anchor.timestamp)
  entryHash : ∃ text, anchor.commitment.entry.member "record_hash" = .string text ∧
    normalizeAnchorRecordHash text = some anchor.commitment.recordHash
  entryIndex : normalizeAnchorLogIndex anchor.commitment.entry = some anchor.commitment.logIndex
  bodyType : anchor.body.member "event_type" = .string EVENT_TYPE_DIRECTORY_ANCHOR_URI
  bodyCreator : anchor.body.member "creator_key" = .string d.operatorKey
  bodyContext : anchor.body.member "context_id" = .string (deriveDirectoryContextId P d.origin)
  bodyTimestamp : anchor.body.member "timestamp" = .number (.finite anchor.timestamp)
  origin : (anchor.body.member "metadata").member "directory_origin" = .string d.origin
  epoch : anchor.toWalkedAnchor.epoch = d.epoch i
  root : ∃ hex, anchor.toWalkedAnchor.root = .string hex ∧
    hexToBytes P (.string hex) = .ok anchor.digest
  rootLength : anchor.digest.length = 32
  hashes : anchorBodyHash P anchor.body = .ok (some anchor.commitment.recordHash)
  signature : ∃ text, anchor.body.member "signature" = .string text ∧ text ≠ ""
  signed : ∃ canonical, P.canonicalize (anchor.body.without "signature") = .ok (some canonical) ∧
    anchorSignatureOk P anchor.body canonical d.operatorKey = .ok true

/-- One anchor for each epoch, each naming the one before it. -/
structure HonestHistory : Prop where
  originPresent : d.origin ≠ ""
  anchor : ∀ i < d.count, HonestAnchor P d i (d.anchors i)
  chained : ∀ i, i + 1 < d.count → ∃ text,
    (d.anchors (i + 1)).body.member "chain_root" = .string text ∧
      normalizeAnchorRecordHash text = some (d.anchors i).commitment.recordHash
  ordered : ∀ i, i + 1 < d.count →
    (d.anchors i).commitment.logIndex < (d.anchors (i + 1)).commitment.logIndex
  distinct : ∀ i < d.count, ∀ j < d.count,
    (d.anchors i).commitment.recordHash = (d.anchors j).commitment.recordHash → i = j
  notGenesis : ∀ i < d.count, (d.anchors i).commitment.recordHash ≠
    directoryAnchorGenesisRoot P (deriveDirectoryContextId P d.origin)

/-! ## The servers -/

/-- From whatever state, the answer is this body. -/
def Answers (call : Effect σ Response) (body : JsValue) : Prop :=
  Yields call fun res => res.isOk ∧ res.json = .ok body

/-- A single-epoch proof for every epoch of the range, each accepted for the two
honest roots of its epochs. -/
structure HonestAudit (akd : Akd) (d : DirectoryHistory σ) (prior current : ℕ)
    (proof : AppendOnlyProof akd.AzksElement) : Prop where
  epochs : proof.epochs = (List.range (current - prior)).map (d.firstEpoch + prior + ·)
  length : proof.proofs.length = current - prior
  accepted : ∀ k single, proof.proofs[k]? = some single →
    akd.verifyConsecutiveAppendOnly single (d.anchors (prior + k)).digest
      (d.anchors (prior + k + 1)).digest (d.firstEpoch + prior + k + 1)

variable (creatorKey : String) (opts : ResolveIdentityOptions σ) (akd : Akd)

/-- What the directory, the log and the source of bodies answer; `current` is the
newest anchor that is no later than the time of the query. -/
structure HonestServers (lookupBody : JsValue) (current : ℕ) : Prop where
  lookup : ∃ key, P.encodeURIComponent creatorKey = .ok key ∧
    Answers (P.fetchFn (withoutTrailingSlash opts.endpoint ++ "/lookup/" ++ key)) lookupBody
  claim : isClaimFor creatorKey (lookupBody.member "claim")
  lookupEpoch : lookupBody.member "epoch" = d.epoch current
  lookupFound : lookupBody.member "found" = .bool true
  anchor : ∃ body, Answers (P.fetchFn (withoutTrailingSlash opts.endpoint ++ "/anchor")) body ∧
    body.member "directory_origin" = .string d.origin
  entries : ∃ body, Answers (P.fetchFn (withoutTrailingSlash d.logEndpoint ++ "/by-context/" ++
    deriveDirectoryContextId P d.origin)) body ∧ body.member "entries" = .array d.entries
  bodies : ∀ i < d.count, Yields (d.fetchAnchorBody (d.anchors i).commitment.recordHash)
    (· = (d.anchors i).body)
  proofs : ∀ i < d.count, ∃ body bundle checkpoint,
    Answers (P.fetchFn (withoutTrailingSlash d.logEndpoint ++ "/proof/" ++
      withoutHashStart (d.anchors i).commitment.recordHash)) body ∧
    anchorProofBundle? body = some bundle ∧
    checkAnchorInclusion P d.logKey (d.anchors i).commitment bundle = .ok checkpoint
  audits : ∀ prior < current, ∃ body text bytes proof,
    Answers (P.fetchFn (withoutTrailingSlash opts.endpoint ++ "/audit-proof?from=" ++
      P.text.toText (.finite (d.firstEpoch + prior : ℕ)) ++ "&to=" ++
      P.text.toText (.finite (d.firstEpoch + current : ℕ)))) body ∧
    body.member "from_epoch" = d.epoch prior ∧ body.member "to_epoch" = d.epoch current ∧
    body.member "proof" = .string text ∧ text ≠ "" ∧
    base64urlToBytes P (.string text) = .ok bytes ∧ akd.deserialize bytes = .ok proof ∧
    HonestAudit akd d prior current proof

/-- The verifier's options, with the real callback for the audit proof and the hash
of the anchor it consulted before. What it asks of witnesses and of the lookup proof
is up to it, as long as its own witness options do not make step 3 throw. -/
structure Consults (lookupBody : JsValue) (prior current : ℕ) : Prop where
  inputs : stepOneInputs opts = some d.inputs
  logKey : opts.logCheckpointKey = some d.logKey
  audit : opts.verifyAuditProof = some akd.verifyAuditProof
  previous : ∃ p, present opts.previousAnchorRecordHash = some p ∧
    normalizeAnchorRecordHash p = some (d.anchors prior).commitment.recordHash
  order : prior ≤ current
  published : current < d.count
  atTime : (d.anchors current).timestamp ≤ T P opts
  newest : ∀ i, current < i → i < d.count → T P opts < (d.anchors i).timestamp
  witnesses : ∀ session, ¬ Throws
    (runStepThree P opts d.logEndpoint (d.anchors current).commitment) session
  lookupProof : ∀ verifyLookupProof vrfPublicKey, opts.verifyLookupProof = some verifyLookupProof →
    opts.directoryVrfPublicKey = some vrfPublicKey → ∀ text bytes,
      lookupBody.member "proof" = .string text →
      base64urlToBytes P (.string text) = .ok bytes →
      verifyLookupProof ⟨vrfPublicKey, (d.anchors current).digest,
        .finite (d.firstEpoch + current : ℕ), creatorKey, bytes⟩ = .ok true

/-! ## The checks an honest anchor passes -/

variable {P d creatorKey opts akd} {lookupBody : JsValue} {prior current : ℕ}

theorem isOk_ne_404 {res : Response} (h : res.isOk) : res.status ≠ 404 := by
  intro hstatus
  simp [Response.isOk, hstatus] at h

theorem truthy_of_member {value : JsValue} {key text : String}
    (h : value.member key = .string text) : value.truthy = true := by
  obtain ⟨members, rfl⟩ := JsValue.eq_object_of_member h
  rfl

theorem yields_lookUp (hservers : HonestServers P d creatorKey opts akd lookupBody current) :
    Yields (lookUp P creatorKey opts) (· = some lookupBody) := by
  obtain ⟨key, hkey, hanswer⟩ := hservers.lookup
  refine Yields.catching ?_
  refine Yields.lift_bind hkey ?_
  refine (yields_ask hanswer).bind fun res hres => ?_
  rw [if_neg (isOk_ne_404 hres.1), if_neg (by simp [hres.1])]
  exact Yields.lift_bind hres.2 (Yields.pure rfl)

theorem yields_fetchDirectoryOrigin (hhistory : HonestHistory P d)
    (hservers : HonestServers P d creatorKey opts akd lookupBody current) :
    Yields (fetchDirectoryOrigin P opts) (· = some d.origin) := by
  obtain ⟨body, hanswer, horigin⟩ := hservers.anchor
  refine Yields.catching ?_
  refine (yields_ask hanswer).bind fun res hres => ?_
  rw [if_neg (by simp [hres.1])]
  refine Yields.lift_bind hres.2 ?_
  refine Yields.lift_bind (JsValue.get_of_member horigin nofun) ?_
  have hfilter : (JsValue.string d.origin).string?.filter (· ≠ "") = some d.origin := by
    simp [JsValue.string?, hhistory.originPresent]
  rw [hfilter]
  exact Yields.pure rfl

theorem yields_fetchEntries
    (hservers : HonestServers P d creatorKey opts akd lookupBody current) :
    Yields (fetchEntries P d.logEndpoint (deriveDirectoryContextId P d.origin))
      (· = some (.array d.entries)) := by
  obtain ⟨body, hanswer, hentries⟩ := hservers.entries
  refine Yields.catching ?_
  refine (yields_ask hanswer).bind fun res hres => ?_
  rw [if_neg (isOk_ne_404 hres.1), if_neg (by simp [hres.1])]
  refine Yields.lift_bind hres.2 ?_
  refine Yields.lift_bind (JsValue.get_of_member hentries nofun) ?_
  exact Yields.pure rfl

/-! ## The anchor that is selected -/

theorem isAnchorEntry_honest {i : ℕ} {anchor : PublishedAnchor} (h : HonestAnchor P d i anchor)
    (time : ℚ) :
    isAnchorEntry P d.operatorKey time anchor.commitment.entry =
      .ok (decide (anchor.timestamp ≤ time)) := by
  rw [isAnchorEntry, JsValue.get_of_member h.entryType nofun]
  have hmatch : JsValue.strictEq (.string "directory_anchor") (.string "directory_anchor") ∧
      ((anchor.commitment.entry.member "creator_key").strictEq (.string d.operatorKey)) := by
    simp [h.entryCreator]
  show (if _ then _ else _) = _
  rw [if_pos hmatch, h.entryTimestamp]
  refine congrArg Except.ok ?_
  show (JsNumber.finite _).le (.finite _) = _
  simp [JsNumber.le, JsNumber.lt, JsNumber.eq, le_iff_lt_or_eq]

theorem filterEntries_honest (hhistory : HonestHistory P d) (time : ℚ) (is : List ℕ)
    (his : ∀ i ∈ is, i < d.count) :
    filterEntries P d.operatorKey time (is.map fun i => (d.anchors i).commitment.entry) =
      .ok ((is.filter fun i => (d.anchors i).timestamp ≤ time).map
        fun i => (d.anchors i).commitment.entry) := by
  induction is with
  | nil => rfl
  | cons i is ih =>
      have hi := hhistory.anchor i (his i List.mem_cons_self)
      rw [List.map_cons, filterEntries, isAnchorEntry_honest hi,
        ih fun j hj => his j (List.mem_cons_of_mem _ hj)]
      by_cases htime : (d.anchors i).timestamp ≤ time
      · simp [htime, bind, Except.bind, pure, Except.pure]
      · simp [htime, bind, Except.bind, pure, Except.pure]

/-- From the newest down, the first that passes is the newest that passes. -/
theorem head?_filter_reverse_range {p : ℕ → Bool} {n : ℕ} (hn : p n) (m : ℕ)
    (hlater : ∀ i, n < i → i < n + 1 + m → p i = false) :
    ((List.range (n + 1 + m)).reverse.filter p).head? = some n := by
  induction m with
  | zero => simp [List.range_succ, hn]
  | succ m ih =>
      rw [← Nat.add_assoc, List.range_succ, List.reverse_append, List.reverse_singleton,
        List.singleton_append, List.filter_cons_of_neg]
      · exact ih fun i hi hm => hlater i hi (by omega)
      · simp [hlater (n + 1 + m) (by omega) (by omega)]

theorem matchingEntries_honest (hhistory : HonestHistory P d)
    (hconsults : Consults P d creatorKey opts akd lookupBody prior current) :
    ∃ older, matchingEntries P d.operatorKey (T P opts) (.array d.entries) =
      .ok ((d.anchors current).commitment.entry :: older) := by
  have hpublished := hconsults.published
  have hfilter := filterEntries_honest hhistory (T P opts) (List.range d.count).reverse
    fun i hi => List.mem_range.1 (List.mem_reverse.1 hi)
  have hhead := head?_filter_reverse_range (p := fun i => (d.anchors i).timestamp ≤ T P opts)
    (n := current) (by simpa using hconsults.atTime) (d.count - (current + 1)) fun i hi hlt => by
      have := hconsults.newest i hi (by omega)
      simpa using this
  rw [show current + 1 + (d.count - (current + 1)) = d.count by omega] at hhead
  obtain ⟨older, holder⟩ := List.head?_eq_some_iff.1 hhead
  rw [holder] at hfilter
  exact ⟨_, hfilter⟩

theorem withHashPrefix_of_normalize {text normalized : String}
    (h : normalizeAnchorRecordHash text = some normalized) : withHashPrefix text = normalized := by
  rw [normalizeAnchorRecordHash] at h
  split at h
  · exact Option.some.inj h
  · cases h

theorem normalize_of_normalize {text normalized : String}
    (h : normalizeAnchorRecordHash text = some normalized) :
    normalizeAnchorRecordHash normalized = some normalized := by
  have hprefixed := withHashPrefix_of_normalize h
  rw [normalizeAnchorRecordHash] at h ⊢
  rw [← hprefixed, withHashPrefix_idem, hprefixed]
  rw [hprefixed] at h
  exact h

theorem fetchBody_honest {fetchAnchorBody : String → Effect σ JsValue} {recordHash : String}
    {body : JsValue} (h : Yields (fetchAnchorBody recordHash) (· = body)) (start : String) :
    Yields (fetchBody fetchAnchorBody recordHash start) (· = some body) := by
  refine Yields.catching ?_
  exact (yields_ask h).bind_eq (Yields.pure rfl)

theorem isAnchorBody_honest (hhistory : HonestHistory P d) {i : ℕ} {anchor : PublishedAnchor}
    (h : HonestAnchor P d i anchor) : isAnchorBody anchor.body = true := by
  obtain ⟨signature, hsignature, hne⟩ := h.signature
  obtain ⟨hex, hroot, -⟩ := h.root
  have hepoch := h.epoch
  rw [WalkedAnchor.epoch] at hepoch
  rw [WalkedAnchor.root] at hroot
  simp [isAnchorBody, h.origin, hepoch, hroot, hsignature, JsValue.string?, JsValue.number?,
    DirectoryHistory.epoch, hhistory.originPresent, hne]

/-- What step 1 has found of an honest directory. -/
def FindsCurrent (d : DirectoryHistory σ) (current : ℕ) (found : StepOneSuccess) : Prop :=
  found.anchorCommitment = (d.anchors current).commitment ∧ found.anchorCommitments = d.entries ∧
    found.directoryOrigin = d.origin ∧ found.currentBody = (d.anchors current).body

theorem yields_runStepOne (hhistory : HonestHistory P d)
    (hservers : HonestServers P d creatorKey opts akd lookupBody current)
    (hconsults : Consults P d creatorKey opts akd lookupBody prior current) :
    Yields (runStepOne P opts d.inputs) fun result =>
      ∃ found, result = some found ∧ FindsCurrent d current found := by
  have hanchor := hhistory.anchor current hconsults.published
  obtain ⟨older, hmatching⟩ := matchingEntries_honest hhistory hconsults
  obtain ⟨text, htext, hnormalized⟩ := hanchor.entryHash
  refine (yields_fetchDirectoryOrigin hhistory hservers).bind_eq ?_
  refine (yields_fetchEntries hservers).bind_eq ?_
  show Yields (selectAnchor P opts d.inputs d.origin (.array d.entries)) _
  refine Yields.lift_bind hmatching ?_
  dsimp only
  rw [if_neg (by simp [hanchor.entryContext]), hanchor.entryIndex]
  refine Yields.lift_bind (a := text) (by rw [htext]; rfl) ?_
  rw [withHashPrefix_of_normalize hnormalized]
  refine (fetchBody_honest (hservers.bodies current hconsults.published) _).bind_eq ?_
  dsimp only
  rw [if_neg (by simp [truthy_of_member hanchor.bodyCreator]),
    if_neg (by simp [isAnchorBody_honest hhistory hanchor]),
    if_neg (by simp [hanchor.bodyCreator, DirectoryHistory.inputs])]
  refine Yields.lift_bind (a := .number (.finite (d.anchors current).timestamp))
    (by rw [hanchor.entryTimestamp]; rfl) ?_
  refine (yields_warnIf _ _).seq ((yields_removeWarning _).seq ?_)
  exact Yields.pure ⟨_, rfl, rfl, rfl, rfl, rfl⟩

theorem yields_verifyAnchorBody {i : ℕ} {anchor : PublishedAnchor}
    (h : HonestAnchor P d i anchor) (start : String) :
    Yields (verifyAnchorBody P anchor.body d.operatorKey anchor.commitment d.origin start)
      (· = true) := by
  obtain ⟨metadata, hmetadata, horigin⟩ : ∃ metadata, anchor.body.get "metadata" = .ok metadata ∧
      metadata.get "directory_origin" = .ok (.string d.origin) := by
    have horigin := JsValue.get_of_member h.origin nofun
    refine ⟨anchor.body.member "metadata", JsValue.get_of_member rfl fun hnone => ?_, horigin⟩
    rw [hnone] at horigin
    cases horigin
  have hmismatches : commitmentMismatches anchor.body (.string d.origin) anchor.commitment
      d.origin = [] := by
    simp [commitmentMismatches, AnchorCommitment.creatorKey, AnchorCommitment.contextId,
      AnchorCommitment.timestampMs, h.bodyCreator, h.entryCreator, h.bodyContext, h.entryContext,
      h.bodyTimestamp, h.entryTimestamp, h.bodyType]
  obtain ⟨canonical, hcanonical, hsignature⟩ := h.signed
  refine Yields.lift_bind (a := .string d.origin) (by rw [hmetadata]; exact horigin) ?_
  dsimp only
  refine (yields_warnIf _ _).seq ?_
  refine Yields.bind_eq (a := true) (Yields.lift_bind h.hashes ?_) ?_
  · dsimp only
    rw [if_pos rfl]
    exact Yields.pure rfl
  refine Yields.lift_bind hcanonical ?_
  dsimp only
  rw [hsignature, hmismatches]
  exact Yields.pure rfl

theorem yields_verifyAnchorLogInclusion
    (hservers : HonestServers P d creatorKey opts akd lookupBody current) {i : ℕ}
    (hi : i < d.count) (start : String) :
    Yields (verifyAnchorLogInclusion P d.logEndpoint (some d.logKey) (d.anchors i).commitment start)
      (· = .confirmed) := by
  obtain ⟨body, bundle, checkpoint, hanswer, hbundle, hcheck⟩ := hservers.proofs i hi
  have hget : body.get "log_index" = .ok (body.member "log_index") := by
    refine JsValue.get_of_member rfl fun hnone => ?_
    rw [anchorProofBundle?, hnone] at hbundle
    cases hbundle
  have hfetch : Yields (fetchAnchorProofBundle P d.logEndpoint (d.anchors i).commitment)
      (· = .bundle bundle) := by
    refine Yields.catching ?_
    refine (yields_ask hanswer).bind fun res hres => ?_
    rw [if_neg (by simp [hres.1])]
    refine Yields.lift_bind hres.2 (Yields.lift_bind hget ?_)
    rw [hbundle]
    exact Yields.pure rfl
  refine hfetch.bind_eq ?_
  dsimp only
  rw [hcheck]
  exact Yields.pure rfl

/-! ## The walk of an honest history -/

theorem lookup_map_of_injective {α β γ : Type} [BEq β] [LawfulBEq β] {f : α → β} {g : α → γ}
    {l : List α} {x : α} (hinj : ∀ a ∈ l, f a = f x → a = x) (hx : x ∈ l) :
    (l.map fun a => (f a, g a)).lookup (f x) = some (g x) := by
  induction l with
  | nil => cases hx
  | cons a l ih =>
      rw [List.map_cons, List.lookup_cons]
      by_cases hsame : f x = f a
      · rw [hinj a List.mem_cons_self hsame.symm, beq_self_eq_true]
      · rw [beq_eq_false_iff_ne.2 hsame]
        refine ih (fun b hb => hinj b (List.mem_cons_of_mem _ hb)) ?_
        rcases List.mem_cons.1 hx with rfl | hx
        · exact absurd rfl hsame
        · exact hx

/-- The map of step 5 has every anchor of the directory. -/
theorem commitmentsByHash_honest (hhistory : HonestHistory P d) (is : List ℕ)
    (his : ∀ i ∈ is, i < d.count) :
    commitmentsByHash d.operatorKey (.string (deriveDirectoryContextId P d.origin))
        (is.map fun i => (d.anchors i).commitment.entry) =
      .ok (is.map fun i => ((d.anchors i).commitment.recordHash, (d.anchors i).commitment)) := by
  induction is with
  | nil => rfl
  | cons i is ih =>
      have hi := hhistory.anchor i (his i List.mem_cons_self)
      obtain ⟨text, htext, hnormalized⟩ := hi.entryHash
      rw [List.map_cons, commitmentsByHash, htext,
        ih fun j hj => his j (List.mem_cons_of_mem _ hj)]
      simp [textWithStart, bind, Except.bind, pure, Except.pure, hnormalized, hi.entryIndex,
        hi.entryCreator, hi.entryContext, hi.entryType]

theorem commitmentOf_honest (hhistory : HonestHistory P d) {i : ℕ} (hi : i < d.count) :
    commitmentOf ((List.range d.count).reverse.map fun i =>
        ((d.anchors i).commitment.recordHash, (d.anchors i).commitment))
      (d.anchors i).commitment.recordHash = some (d.anchors i).commitment := by
  rw [commitmentOf, ← List.map_reverse, List.reverse_reverse]
  refine lookup_map_of_injective (f := fun i => (d.anchors i).commitment.recordHash)
    (g := fun i => (d.anchors i).commitment) (fun j hj h => ?_) (List.mem_range.2 hi)
  exact hhistory.distinct j (List.mem_range.1 hj) i hi h

theorem lessThan_finite (text : Lib.NumberText) (a b : ℚ) :
    (JsValue.number (.finite a)).lessThan text (.number (.finite b)) = .ok (decide (a < b)) := rfl

/-- The inputs of step 5 for this directory. -/
def DirectoryHistory.stepFive (d : DirectoryHistory σ) (akd : Akd) : StepFiveInputs σ :=
  ⟨d.operatorKey, d.origin, d.logEndpoint, d.fetchAnchorBody, akd.verifyAuditProof⟩

theorem epochsInOrder_honest (hhistory : HonestHistory P d) {i : ℕ} (hi : i + 1 < d.count) :
    epochsInOrder P (d.anchors (i + 1)).toWalkedAnchor (d.anchors i).toWalkedAnchor =
      .ok true := by
  have hlater : ¬ ((d.firstEpoch + (i + 1) : ℕ) : ℚ) < ((d.firstEpoch + i : ℕ) : ℚ) := by
    exact_mod_cast not_lt.2 (by omega : d.firstEpoch + i ≤ d.firstEpoch + (i + 1))
  have hne : ¬ ((d.firstEpoch + i : ℕ) : ℚ) = ((d.firstEpoch + (i + 1) : ℕ) : ℚ) := by
    exact_mod_cast (by omega : d.firstEpoch + i ≠ d.firstEpoch + (i + 1))
  rw [epochsInOrder, (hhistory.anchor i (by omega)).epoch, (hhistory.anchor (i + 1) hi).epoch,
    DirectoryHistory.epoch, DirectoryHistory.epoch, lessThan_finite, decide_eq_false hlater]
  show Except.ok _ = _
  rw [JsValue.strictEq_finite, decide_eq_false hne]
  rfl

theorem yields_checkParent (hhistory : HonestHistory P d)
    (hservers : HonestServers P d creatorKey opts akd lookupBody current)
    (hkey : opts.logCheckpointKey = some d.logKey) {i : ℕ} (hi : i + 1 < d.count) :
    Yields (checkParent P opts (d.stepFive akd) (d.anchors (i + 1)).toWalkedAnchor
      (d.anchors i).commitment) (· = (.confirmed, (d.anchors i).body)) := by
  have hparent := hhistory.anchor i (by omega)
  refine (fetchBody_honest (hservers.bodies i (by omega)) _).bind_eq ?_
  dsimp only
  rw [if_neg (by simp [truthy_of_member hparent.bodyCreator])]
  refine (yields_verifyAnchorBody hparent _).bind_eq ?_
  rw [if_neg (by simp), hkey]
  refine (yields_verifyAnchorLogInclusion hservers (by omega) _).bind_eq ?_
  rw [if_neg (by simp)]
  exact Yields.lift_bind (epochsInOrder_honest hhistory hi) (Yields.pure rfl)

theorem parentCommitment_honest (hhistory : HonestHistory P d) (previousHash : String)
    {seen : List String} {i : ℕ} (hi : i + 1 < d.count)
    (hseen : (d.anchors i).commitment.recordHash ∉ seen) :
    parentCommitment previousHash
        (directoryAnchorGenesisRoot P (deriveDirectoryContextId P d.origin))
        ((List.range d.count).reverse.map fun i =>
          ((d.anchors i).commitment.recordHash, (d.anchors i).commitment))
        seen (d.anchors (i + 1)).toWalkedAnchor (some (d.anchors i).commitment.recordHash) =
      .ok (d.anchors i).commitment := by
  have horder := hhistory.ordered i hi
  rw [parentCommitment, if_neg (hhistory.notGenesis i (by omega)), if_neg (by simpa using hseen),
    commitmentOf_honest hhistory (by omega)]
  dsimp only
  rw [dif_neg (by omega)]

/-- From an anchor the walk comes to every earlier one. -/
theorem yields_walkAnchors (hhistory : HonestHistory P d)
    (hservers : HonestServers P d creatorKey opts akd lookupBody current)
    (hkey : opts.logCheckpointKey = some d.logKey) {i : ℕ} (hprior : prior ≤ i)
    (hi : i < d.count) (seen : List String)
    (hseen : ∀ k < i, (d.anchors k).commitment.recordHash ∉ seen) :
    Yields (walkAnchors P opts (d.stepFive akd) (d.anchors prior).commitment.recordHash
      (directoryAnchorGenesisRoot P (deriveDirectoryContextId P d.origin))
      ((List.range d.count).reverse.map fun i =>
        ((d.anchors i).commitment.recordHash, (d.anchors i).commitment))
      seen (d.anchors i).toWalkedAnchor) (· = (.confirmed, (d.anchors prior).toWalkedAnchor)) := by
  induction i, hprior using Nat.le_induction generalizing seen with
  | base =>
      rw [walkAnchors, if_pos rfl]
      exact Yields.pure rfl
  | succ i hprior ih =>
      have hnotYet : (d.anchors (i + 1)).commitment.recordHash ≠
          (d.anchors prior).commitment.recordHash := fun h => by
        have := hhistory.distinct (i + 1) hi prior (by omega) h
        omega
      obtain ⟨text, htext, hnormalized⟩ := hhistory.chained i hi
      have hparent := parentCommitment_honest hhistory (d.anchors prior).commitment.recordHash hi
        (hseen i (by omega))
      rw [walkAnchors, if_neg hnotYet]
      refine Yields.lift_bind (a := text) (by rw [htext]; rfl) ?_
      rw [hnormalized]
      split
      · next h =>
          rw [hparent] at h
          cases h
      next parent h =>
        rw [hparent] at h
        cases h
        refine (yields_checkParent hhistory hservers hkey hi).bind_eq ?_
        dsimp only
        rw [if_pos rfl]
        refine ih (by omega) _ fun k hk hmem => ?_
        rcases List.mem_cons.1 hmem with h | h
        · have := hhistory.distinct k (by omega) i (by omega) h
          omega
        · exact hseen k (by omega) h

/-! ## The audit proof -/

/-- The real callback accepts the two roots of one step, and no other number of steps. -/
theorem verifyAuditProof_honest (hhistory : HonestHistory P d) {bytes : Bytes}
    {proof : AppendOnlyProof akd.AzksElement} (horder : prior < current)
    (hpublished : current < d.count) (hproof : akd.deserialize bytes = .ok proof)
    (haudit : HonestAudit akd d prior current proof) :
    akd.verifyAuditProof ⟨[(d.anchors prior).digest, (d.anchors current).digest], bytes⟩ =
      .ok (decide (current = prior + 1)) := by
  have hepochs : proof.epochs.length = current - prior := by rw [haudit.epochs]; simp
  rw [akd.verifyAuditProof_pair (hhistory.anchor prior (by omega)).rootLength
    (hhistory.anchor current hpublished).rootLength hproof (by rw [hepochs, haudit.length]),
    hepochs]
  by_cases hnext : current = prior + 1
  · subst hnext
    have hlength := haudit.length
    have hone := haudit.epochs
    rw [show prior + 1 - prior = 1 by omega] at hlength hone
    obtain ⟨single, hsingle⟩ := List.length_eq_one_iff.1 hlength
    have haccepted := haudit.accepted 0 single (by rw [hsingle]; rfl)
    rw [hsingle, hone]
    simpa [Akd.verifySteps] using haccepted
  · have hfar : (current - prior == 1) = false := by
      rw [beq_eq_false_iff_ne]
      omega
    rw [hfar, decide_eq_false hnext]
    rfl

theorem yields_fetchAuditProof
    (hservers : HonestServers P d creatorKey opts akd lookupBody current)
    (horder : prior < current) :
    Yields (fetchAuditProof P opts (d.epoch prior) (d.epoch current)) fun answer =>
      ∃ text bytes proof, answer = .proof text ∧ base64urlToBytes P (.string text) = .ok bytes ∧
        akd.deserialize bytes = .ok proof ∧ HonestAudit akd d prior current proof := by
  obtain ⟨body, text, bytes, proof, hanswer, hfrom, hto, htext, hne, hbytes, hproof, haudit⟩ :=
    hservers.audits prior horder
  refine Yields.catching (Yields.lift_bind rfl (Yields.lift_bind rfl ?_))
  refine (yields_ask hanswer).bind fun res hres => ?_
  rw [if_neg (by simp [hres.1])]
  refine Yields.lift_bind hres.2 (Yields.lift_bind (JsValue.get_of_member hfrom nofun) ?_)
  dsimp only
  have hfilter : (body.member "proof").string?.filter (· ≠ "") = some text := by
    simp [htext, JsValue.string?, hne]
  rw [if_neg (by simp [DirectoryHistory.epoch, hto]), hfilter]
  exact Yields.pure ⟨text, bytes, proof, rfl, hbytes, hproof, haudit⟩

/-- Between two different anchors it is the distance that counts. -/
theorem yields_compareEndpoints (hhistory : HonestHistory P d)
    (hservers : HonestServers P d creatorKey opts akd lookupBody current)
    (horder : prior < current) (hpublished : current < d.count) :
    Yields (compareEndpoints P opts (d.stepFive akd) (d.anchors prior).toWalkedAnchor
      (d.anchors current).toWalkedAnchor)
      (· = if current = prior + 1 then .confirmed else .rejected) := by
  have hprior := hhistory.anchor prior (by omega)
  have hcurrent := hhistory.anchor current hpublished
  have hforward : ¬ ((d.firstEpoch + current : ℕ) : ℚ) < ((d.firstEpoch + prior : ℕ) : ℚ) := by
    exact_mod_cast not_lt.2 (by omega : d.firstEpoch + prior ≤ d.firstEpoch + current)
  have hne : ¬ ((d.firstEpoch + current : ℕ) : ℚ) = ((d.firstEpoch + prior : ℕ) : ℚ) := by
    exact_mod_cast (by omega : d.firstEpoch + current ≠ d.firstEpoch + prior)
  rw [compareEndpoints, hprior.epoch, hcurrent.epoch]
  refine Yields.lift_bind (a := false) ?_ ?_
  · rw [DirectoryHistory.epoch, DirectoryHistory.epoch, lessThan_finite, decide_eq_false hforward]
  rw [if_neg Bool.false_ne_true,
    if_neg (by rw [DirectoryHistory.epoch, DirectoryHistory.epoch, JsValue.strictEq_finite]
               simpa using hne)]
  refine (yields_fetchAuditProof hservers horder).bind fun answer hanswer => ?_
  obtain ⟨text, bytes, proof, rfl, hbytes, hproof, haudit⟩ := hanswer
  obtain ⟨priorHex, hpriorHex, hpriorRoot⟩ := hprior.root
  obtain ⟨currentHex, hcurrentHex, hcurrentRoot⟩ := hcurrent.root
  have hdecode : decodeAudit P (d.anchors prior).toWalkedAnchor (d.anchors current).toWalkedAnchor
      text = .ok ⟨[(d.anchors prior).digest, (d.anchors current).digest], bytes⟩ := by
    simp [decodeAudit, hpriorHex, hcurrentHex, hpriorRoot, hcurrentRoot, hbytes,
      hprior.rootLength, hcurrent.rootLength, bind, Except.bind, pure, Except.pure]
  show Yields (checkAuditProof P _ _ _ text) _
  have hverify : (d.stepFive akd).verifyAuditProof
      ⟨[(d.anchors prior).digest, (d.anchors current).digest], bytes⟩ =
        .ok (decide (current = prior + 1)) :=
    verifyAuditProof_honest hhistory horder hpublished hproof haudit
  rw [checkAuditProof, hdecode]
  dsimp only
  rw [hverify]
  by_cases hnext : current = prior + 1
  · rw [decide_eq_true hnext, if_pos hnext]
    exact (yields_removeWarning _).seq (Yields.pure rfl)
  · rw [decide_eq_false hnext, if_neg hnext]
    exact (yields_warn _).seq (Yields.pure rfl)

/-- Step 5 confirms an honest history up to a distance of one epoch, and rejects it
beyond. -/
theorem yields_runStepFive (hhistory : HonestHistory P d)
    (hservers : HonestServers P d creatorKey opts akd lookupBody current)
    (hkey : opts.logCheckpointKey = some d.logKey) {p : String}
    (hp : normalizeAnchorRecordHash p = some (d.anchors prior).commitment.recordHash)
    (horder : prior ≤ current) (hpublished : current < d.count) :
    Yields (runStepFive P opts (d.stepFive akd) p d.entries (d.anchors current).toWalkedAnchor)
      (· = if current ≤ prior + 1 then .confirmed else .rejected) := by
  have hcurrent := hhistory.anchor current hpublished
  obtain ⟨text, -, hnormalized⟩ := hcurrent.entryHash
  unfold runStepFive
  rw [hp]
  dsimp only
  rw [normalize_of_normalize hnormalized]
  dsimp only
  rcases Nat.eq_or_lt_of_le horder with rfl | hlt
  · rw [if_pos rfl, if_pos (by omega)]
    exact (yields_removeWarning _).seq (Yields.pure rfl)
  have hdifferent : (d.anchors prior).commitment.recordHash ≠
      (d.anchors current).commitment.recordHash := fun h => by
    have := hhistory.distinct prior (by omega) current hpublished h
    omega
  rw [if_neg hdifferent]
  show Yields (walkBack P opts (d.stepFive akd) (d.anchors prior).commitment.recordHash d.entries
    (d.anchors current).toWalkedAnchor) _
  have hknown := commitmentsByHash_honest hhistory (List.range d.count).reverse
    fun i hi => List.mem_range.1 (List.mem_reverse.1 hi)
  refine Yields.lift_bind (by rw [AnchorCommitment.contextId, hcurrent.entryContext]; exact hknown) ?_
  rw [if_neg (by rw [commitmentOf_honest hhistory (by omega)]; simp), hkey]
  refine (yields_verifyAnchorLogInclusion hservers hpublished _).bind_eq ?_
  rw [if_neg (by simp)]
  have hcontext : ((d.anchors current).body.member "context_id").string?.getD "" =
      deriveDirectoryContextId P d.origin := by
    rw [hcurrent.bodyContext]
    rfl
  dsimp only
  rw [hcontext]
  refine (yields_walkAnchors hhistory hservers hkey horder hpublished _ fun k hk hmem => ?_).bind_eq
    ?_
  · have := hhistory.distinct k (by omega) current hpublished (List.mem_singleton.1 hmem)
    omega
  dsimp only
  rw [if_pos rfl]
  refine (yields_compareEndpoints hhistory hservers hlt hpublished).mono fun outcome h => ?_
  rw [h]
  simp only [show current = prior + 1 ↔ current ≤ prior + 1 by omega]

/-! ## The query -/

theorem yields_applyRevocationOnly :
    Yields (applyRevocationOnly (σ := σ) creatorKey opts) fun _ => True := by
  unfold applyRevocationOnly
  split
  · exact (yields_warn _).seq (Yields.pure trivial)
  split
  · exact Yields.pure trivial
  · exact (yields_warnIf _ _).seq ((yields_warnIf _ _).seq (Yields.pure trivial))

/-- The result keeps what it was put together from. -/
theorem yields_conclude {result : IdentityResolution} {Q : IdentityResolution → Prop}
    (h : ∀ status warnings, Q { result with keyRevocationStatus := status, warnings }) :
    Yields (conclude (σ := σ) creatorKey opts result) Q := by
  refine yields_applyRevocationOnly.bind fun status _ => ?_
  exact fun session => ⟨_, session, rfl, h status session.warnings⟩

theorem yields_checkLookupProof {verifyLookupProof : VerifyLookupProofInput → Except String Bool}
    {vrfPublicKey : Bytes} {proof : String} {rootHash : JsValue} {digest : Bytes}
    {currentEpoch : JsNumber} (hroot : hexToBytes P rootHash = .ok digest)
    (hlength : digest.length = 32)
    (haccepts : ∀ bytes, base64urlToBytes P (.string proof) = .ok bytes →
      verifyLookupProof ⟨vrfPublicKey, digest, currentEpoch, creatorKey, bytes⟩ = .ok true) :
    Yields (checkLookupProof P creatorKey verifyLookupProof vrfPublicKey proof rootHash
      currentEpoch) (· = .confirmed) := by
  have hdecode : decodeLookup P rootHash proof = .ok (digest, P.buffers.ofBase64url (proof ++
      String.ofList (List.replicate ((4 - (unitChars proof).length % 4) % 4) '='))) := by
    simp [decodeLookup, hroot, hlength, base64urlToBytes, bind, Except.bind, pure, Except.pure]
  rw [checkLookupProof, hdecode]
  dsimp only
  rw [haccepts _ rfl]
  exact (yields_removeWarning _).seq (Yields.pure rfl)

theorem yields_runStepSeven (hhistory : HonestHistory P d)
    (hconsults : Consults P d creatorKey opts akd lookupBody prior current)
    {verifyLookupProof : VerifyLookupProofInput → Except String Bool} {vrfPublicKey : Bytes}
    (hverify : opts.verifyLookupProof = some verifyLookupProof)
    (hvrf : opts.directoryVrfPublicKey = some vrfPublicKey) :
    Yields (runStepSeven P creatorKey opts verifyLookupProof vrfPublicKey
      (lookupBody.member "proof") (some (d.anchors current).body)) (· ≠ .rejected) := by
  have hanchor := hhistory.anchor current hconsults.published
  obtain ⟨hex, hhex, hroot⟩ := hanchor.root
  have hepoch := hanchor.epoch
  rw [WalkedAnchor.root] at hhex
  rw [WalkedAnchor.epoch] at hepoch
  unfold runStepSeven
  split
  · exact (yields_warn _).seq (Yields.pure nofun)
  next proof hproof =>
    have htext := JsValue.eq_string_of_string? (Option.filter_eq_some_iff.1 hproof).1
    dsimp only
    rw [hhex, hepoch]
    refine (yields_checkLookupProof hroot hanchor.rootLength fun bytes hbytes => ?_).mono
      fun outcome h => ?_
    · exact hconsults.lookupProof verifyLookupProof vrfPublicKey hverify hvrf proof bytes htext
        hbytes
    · rw [h]
      nofun

theorem stepFiveInputs_honest {found : StepOneSuccess}
    (hconsults : Consults P d creatorKey opts akd lookupBody prior current)
    (hfound : FindsCurrent d current found) :
    ∃ p, stepFiveInputs opts found = some (d.stepFive akd, p) ∧
      normalizeAnchorRecordHash p = some (d.anchors prior).commitment.recordHash := by
  obtain ⟨p, hpresent, hp⟩ := hconsults.previous
  refine ⟨p, ?_, hp⟩
  rw [stepFiveInputs, hconsults.audit, hpresent, hconsults.inputs]
  show some (_, _) = some (_, _)
  rw [hfound.2.2.1]
  rfl

/-- The result as the distance has it. -/
def Verdict (prior current : ℕ) (result : IdentityResolution) : Prop :=
  (result.appendOnlyConsistent = some true ∧ result.identityResolutionMethod ≠ .rejected) ↔
    current ≤ prior + 1

theorem yields_concludeClaim (hhistory : HonestHistory P d)
    (hservers : HonestServers P d creatorKey opts akd lookupBody current)
    (hconsults : Consults P d creatorKey opts akd lookupBody prior current)
    {found : StepOneSuccess} (hfound : FindsCurrent d current found) (anchor : AnchorSurface) :
    Yields (concludeClaim P creatorKey opts lookupBody (lookupBody.member "claim") true
      (some found) (some anchor)) (Verdict prior current) := by
  obtain ⟨p, hinputs, hp⟩ := stepFiveInputs_honest hconsults hfound
  obtain ⟨hcommitment, hentries, -, hbody⟩ := hfound
  unfold concludeClaim
  refine Yields.bind (P := (· ≠ .rejected)) ?_ fun lookup hlookup => ?_
  · split
    · next verifyLookupProof vrfPublicKey hverify hvrf =>
        simp only [Option.map_some, hbody]
        exact yields_runStepSeven hhistory hconsults hverify hvrf
    · exact Yields.pure nofun
  rw [if_neg hlookup]
  refine Yields.bind_eq (a := if current ≤ prior + 1 then .confirmed else .rejected) ?_ ?_
  · dsimp only
    rw [hinputs, hentries, hbody, hcommitment]
    exact yields_runStepFive hhistory hservers hconsults.logKey hp hconsults.order
      hconsults.published
  by_cases hnear : current ≤ prior + 1
  · rw [if_pos hnear]
    exact yields_conclude fun status warnings => iff_of_true ⟨rfl, nofun⟩ hnear
  · rw [if_neg hnear]
    exact yields_conclude fun status warnings => iff_of_false (fun h => h.2 rfl) hnear

theorem yields_resolveAnchored (hhistory : HonestHistory P d)
    (hservers : HonestServers P d creatorKey opts akd lookupBody current)
    (hconsults : Consults P d creatorKey opts akd lookupBody prior current)
    {found : StepOneSuccess} (hfound : FindsCurrent d current found) :
    Yields (resolveAnchored P creatorKey opts lookupBody (lookupBody.member "claim") d.inputs found)
      (Verdict prior current) := by
  have hanchor := hhistory.anchor current hconsults.published
  have hall := hfound
  obtain ⟨hcommitment, -, horigin, hbody⟩ := hfound
  unfold resolveAnchored
  refine Yields.bind_eq (a := true) ?_ ?_
  · rw [hcommitment, horigin, hbody]
    exact yields_verifyAnchorBody hanchor _
  dsimp only
  rw [if_neg (by simp)]
  refine (yields_removeWarning _).seq ?_
  have hepoch : epochMismatch lookupBody found.currentBody = false := by
    have hsame := hanchor.epoch
    rw [WalkedAnchor.epoch] at hsame
    rw [epochMismatch, hservers.lookupEpoch, hbody, hsame, DirectoryHistory.epoch,
      JsValue.strictEq_finite]
    simp
  rw [hepoch, if_neg Bool.false_ne_true, hcommitment]
  refine Yields.bind (P := fun _ => True) (fun session => ?_) fun witnessCount _ => ?_
  · rcases Effect.cases_on (runStepThree P opts d.inputs.logEndpoint
      (d.anchors current).commitment) session with ⟨count, session', hok⟩ | ⟨e, session', herror⟩
    · exact ⟨count, session', hok, trivial⟩
    · exact absurd ⟨e, session', herror⟩ (hconsults.witnesses session)
  exact yields_concludeClaim hhistory hservers hconsults hall _

/-- Whatever the distance, the query of an honest directory comes to its end, and what
it says of the directory is right only up to a distance of one epoch. -/
theorem yields_resolveIdentity (hhistory : HonestHistory P d)
    (hservers : HonestServers P d creatorKey opts akd lookupBody current)
    (hconsults : Consults P d creatorKey opts akd lookupBody prior current) :
    Yields (resolveIdentity P creatorKey opts) (Verdict prior current) := by
  intro world
  have hquery : Yields (resolveQuery P creatorKey opts) (Verdict prior current) := by
    refine (yields_lookUp hservers).bind_eq ?_
    refine Yields.lift_bind (JsValue.get_of_member hservers.lookupFound nofun) ?_
    rw [if_neg (by simp [JsValue.strictEq])]
    dsimp only
    rw [if_neg (by simp [hservers.claim])]
    unfold resolveClaim
    rw [hconsults.inputs]
    refine (yields_runStepOne hhistory hservers hconsults).bind fun result hresult => ?_
    obtain ⟨found, rfl, hfound⟩ := hresult
    exact yields_resolveAnchored hhistory hservers hconsults hfound
  obtain ⟨result, session, hresult, hverdict⟩ := hquery ⟨world, uncheckedWarnings⟩
  exact ⟨result, session.world, by rw [resolveIdentity, hresult], hverdict⟩

end Atrib.Verify
