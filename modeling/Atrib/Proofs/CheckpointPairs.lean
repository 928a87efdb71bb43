import Atrib.Proofs.SessionConsistency
import Atrib.Verify.CheckpointPair

/-!
# What a pair of checkpoints says about its signer

An honest signer extends one leaf list, so that a list has the second root and
its prefix the first. Both checks then acquit the signer as long as the evidence
passes, and of evidence that does not pass both make a verdict: whoever brings
it along decides.
-/

namespace Atrib

/-- Some leaf list has the second root, and its prefix of the first size has
the first. -/
def AppendOnly {Leaf : Type} (root : List Leaf → Except String String)
    (firstSize secondSize : ℚ) (firstRoot secondRoot : String) : Prop :=
  ∃ leaves : List Leaf, ∃ m : ℕ, firstSize = m ∧ secondSize = leaves.length ∧
    m ≤ leaves.length ∧ root leaves = .ok secondRoot ∧ root (leaves.take m) = .ok firstRoot

/-- One size has one root. -/
theorem AppendOnly.root_eq {Leaf : Type} {root : List Leaf → Except String String}
    {firstSize secondSize : ℚ} {firstRoot secondRoot : String}
    (h : AppendOnly root firstSize secondSize firstRoot secondRoot)
    (hsize : firstSize = secondSize) : firstRoot = secondRoot := by
  obtain ⟨leaves, m, hm, hlen, -, hsecond, hfirst⟩ := h
  have hall : m = leaves.length := by
    rw [hm, hlen] at hsize
    exact_mod_cast hsize
  rw [hall, List.take_length, hsecond] at hfirst
  exact (Except.ok.inj hfirst).symm

variable {H : Hash}

namespace SessionCheckpoint

variable {canonicalRecord : SessionCheckpointRecord → Bytes}
  {first second : SessionCheckpointRecord} {opts : CheckConsecutiveSessionCheckpointsOptions}

variable (H canonicalRecord) in
/-- The second checkpoint continues the first in the session of one signer. -/
structure Linked (first second : SessionCheckpointRecord) : Prop where
  prior : second.checkpoint.priorCheckpoint = some (recordHashRef H canonicalRecord first)
  firstIndex : second.checkpoint.firstIndex = first.checkpoint.treeSize
  creatorKey : first.creatorKey = second.creatorKey
  contextId : first.contextId = second.contextId

variable (H) in
/-- The evidence is absent, or it shows what it is meant to show. -/
def Passes (first second : SessionCheckpoint)
    (opts : CheckConsecutiveSessionCheckpointsOptions) : Prop :=
  match opts.secondLeaves, opts.consistencyProof with
  | some secondLeaves, _ =>
      computeSessionRoot H secondLeaves = .ok second.sessionRoot ∧
        ∃ proof, sessionConsistencyProof H first.treeSize secondLeaves = .ok proof ∧
          verifyPair H first second proof = some true
  | none, some consistencyProof => verifyPair H first second consistencyProof = some true
  | none, none => True

variable (H canonicalRecord) in
/-- The check ends, and not in a verdict against the signer. -/
def Acquits (first second : SessionCheckpointRecord)
    (opts : CheckConsecutiveSessionCheckpointsOptions) : Prop :=
  ∃ check, checkConsecutiveSessionCheckpoints H canonicalRecord first second opts = some check ∧
    check.equivocation = none

theorem passes_iff {first second : SessionCheckpoint} :
    Passes H first second opts ↔
      ∃ verdict, checkEvidence H first second opts = some verdict ∧ verdict ≠ some false := by
  obtain ⟨secondLeaves, consistencyProof⟩ := opts
  rw [Passes, checkEvidence]
  cases secondLeaves with
  | some secondLeaves =>
      dsimp only
      cases sessionConsistencyProof H first.treeSize secondLeaves with
      | error message => simp
      | ok proof =>
          cases hverify : verifyPair H first second proof with
          | none => simp [hverify]
          | some verifies =>
              cases verifies with
              | false => simp [hverify]
              | true => cases hroot : computeSessionRoot H secondLeaves <;> simp [hverify]
  | none =>
      cases consistencyProof with
      | none => simp
      | some consistencyProof =>
          dsimp only
          cases verifyPair H first second consistencyProof <;> simp

/-- Two checkpoints of an honest signer are no direct pair. -/
theorem detect_eq_none
    (happend : AppendOnly (computeSessionRoot H) first.checkpoint.treeSize
      second.checkpoint.treeSize first.checkpoint.sessionRoot second.checkpoint.sessionRoot) :
    detectSessionCheckpointEquivocation H canonicalRecord first second = none := by
  have hroot := happend.root_eq
  simp only [detectSessionCheckpointEquivocation]
  split
  · rfl
  split
  · rfl
  split
  · rfl
  next hsize => rw [if_pos (hroot (not_not.1 hsize))]

theorem acquits_iff (hlinked : Linked H canonicalRecord first second)
    (happend : AppendOnly (computeSessionRoot H) first.checkpoint.treeSize
      second.checkpoint.treeSize first.checkpoint.sessionRoot second.checkpoint.sessionRoot) :
    Acquits H canonicalRecord first second opts ↔
      Passes H first.checkpoint second.checkpoint opts := by
  rw [passes_iff, Acquits, checkConsecutiveSessionCheckpoints]
  cases checkEvidence H first.checkpoint second.checkpoint opts with
  | none => simp
  | some verdict =>
      have hlink := And.intro hlinked.prior
        (And.intro hlinked.firstIndex (And.intro hlinked.creatorKey hlinked.contextId))
      by_cases hverdict : verdict = some false
      · simp [hlink, hverdict]
      · simp [hlink, hverdict, detect_eq_none happend]

theorem checkEvidence_proof {first second : SessionCheckpoint} (proof : List Bytes) :
    checkEvidence H first second { consistencyProof := some proof } =
      (verifyPair H first second proof).map some := by
  show (verifyPair H first second proof).bind (fun verifies => some (some verifies)) = _
  cases verifyPair H first second proof <;> rfl

/-- Evidence that does not pass makes a verdict. -/
theorem verdict_of_fails (hlinked : Linked H canonicalRecord first second)
    (hfails : checkEvidence H first.checkpoint second.checkpoint opts = some (some false)) :
    ∃ check evidence,
      checkConsecutiveSessionCheckpoints H canonicalRecord first second opts = some check ∧
        check.equivocation = some evidence ∧ evidence.reason = .appendOnlyViolation := by
  have hlink := And.intro hlinked.prior
    (And.intro hlinked.firstIndex (And.intro hlinked.creatorKey hlinked.contextId))
  rw [checkConsecutiveSessionCheckpoints, hfails]
  exact ⟨_, _, rfl, by simp [hlink]; rfl, rfl⟩

end SessionCheckpoint

namespace Verify.SessionCheckpoint

variable {canonicalRecord : SessionCheckpointRecord → Bytes}
  {first second : SessionCheckpointRecord} {fcp scp : SessionCheckpointBody}
  {opts : CheckConsecutiveSessionCheckpointsOptions}

variable (H canonicalRecord) in
/-- The second record carries a checkpoint that continues that of the first. -/
structure Linked (first second : SessionCheckpointRecord) (fcp scp : SessionCheckpointBody) :
    Prop where
  firstCheckpoint : first.checkpoint = some fcp
  secondCheckpoint : second.checkpoint = some scp
  prior : scp.priorCheckpoint = some (sessionCheckpointRecordHash H canonicalRecord first)
  firstIndex : scp.firstIndex = fcp.treeSize
  creatorKey : first.creatorKey = second.creatorKey
  contextId : first.contextId = second.contextId

variable (H) in
/-- A proof that is supplied verifies, and of two leaf lists the first is the
prefix of the second that the first checkpoint commits to. -/
def Passes (fcp scp : SessionCheckpointBody) (opts : CheckConsecutiveSessionCheckpointsOptions) :
    Prop :=
  (∀ proof, opts.consistencyProof = some proof → verifyPair H fcp scp proof = some true) ∧
    ∀ firstLeaves, opts.firstLeaves = some firstLeaves →
      ∀ secondLeaves, opts.secondLeaves = some secondLeaves →
        isPrefixAppendOnly firstLeaves secondLeaves fcp = true

variable (H canonicalRecord) in
/-- The check ends, and not in a verdict against the signer. -/
def Acquits (first second : SessionCheckpointRecord)
    (opts : CheckConsecutiveSessionCheckpointsOptions) : Prop :=
  ∃ check, checkConsecutiveSessionCheckpoints H canonicalRecord first second opts = some check ∧
    check.equivocation = none

theorem passes_iff :
    Passes H fcp scp opts ↔ appendOnly opts (some fcp) ≠ some false ∧
      ∃ verdict, consistencyProofVerifies H opts (some fcp) (some scp) = some verdict ∧
        verdict ≠ some false := by
  obtain ⟨firstLeaves, secondLeaves, consistencyProof⟩ := opts
  have hleaves :
      appendOnly ⟨firstLeaves, secondLeaves, consistencyProof⟩ (some fcp) ≠ some false ↔
      ∀ first, firstLeaves = some first → ∀ second, secondLeaves = some second →
        isPrefixAppendOnly first second fcp = true := by
    cases firstLeaves <;> cases secondLeaves <;> simp [appendOnly]
  have hproof : (∃ verdict, consistencyProofVerifies H
      ⟨firstLeaves, secondLeaves, consistencyProof⟩ (some fcp) (some scp) = some verdict ∧
        verdict ≠ some false) ↔
      ∀ proof, consistencyProof = some proof → verifyPair H fcp scp proof = some true := by
    cases consistencyProof with
    | none => simp [consistencyProofVerifies]
    | some proof =>
        cases hverify : verifyPair H fcp scp proof <;> simp [consistencyProofVerifies, hverify]
  rw [Passes, hleaves, hproof, and_comm]

theorem detect_eq_none (hfirst : first.checkpoint = some fcp)
    (hsecond : second.checkpoint = some scp)
    (happend : AppendOnly (recomputeSessionRoot H) fcp.treeSize scp.treeSize fcp.sessionRoot
      scp.sessionRoot) :
    detectSessionCheckpointEquivocation H canonicalRecord first second = none := by
  have hroot := happend.root_eq
  simp only [detectSessionCheckpointEquivocation, hfirst, hsecond]
  split
  · rfl
  split
  · rfl
  split
  · rfl
  next hsize => rw [if_pos (hroot (not_not.1 hsize))]

theorem acquits_iff (hlinked : Linked H canonicalRecord first second fcp scp)
    (happend : AppendOnly (recomputeSessionRoot H) fcp.treeSize scp.treeSize fcp.sessionRoot
      scp.sessionRoot) :
    Acquits H canonicalRecord first second opts ↔ Passes H fcp scp opts := by
  have hfirst := hlinked.firstCheckpoint
  have hsecond := hlinked.secondCheckpoint
  have hdetect : detectSessionCheckpointEquivocation H canonicalRecord first second = none :=
    detect_eq_none hfirst hsecond happend
  have hindex : firstIndexMatches (some fcp) (some scp) = true := by
    simp [firstIndexMatches, hlinked.firstIndex]
  rw [passes_iff, Acquits, checkConsecutiveSessionCheckpoints]
  simp only [hfirst, hsecond]
  cases consistencyProofVerifies H opts (some fcp) (some scp) with
  | none => simp
  | some verdict =>
      have hlink := And.intro hlinked.prior
        (And.intro hindex (And.intro hlinked.creatorKey hlinked.contextId))
      by_cases hbad : verdict = some false ∨ appendOnly opts (some fcp) = some false
      · have hfails : ¬ (appendOnly opts (some fcp) ≠ some false ∧ verdict ≠ some false) := by
          rintro ⟨hleaves, hproof⟩
          exact hbad.elim hproof hleaves
        simp [hlink, hbad]
        tauto
      · simp [hlink, hbad, hdetect]
        tauto

end Verify.SessionCheckpoint

/-- Of an honest pair, both checks acquit the signer exactly when the evidence
that is brought along passes. -/
theorem acquits_iff_passes (H : Hash) :
    (∀ (canonicalRecord : SessionCheckpointRecord → Bytes)
        (first second : SessionCheckpointRecord)
        (opts : SessionCheckpoint.CheckConsecutiveSessionCheckpointsOptions),
      SessionCheckpoint.Linked H canonicalRecord first second →
        AppendOnly (SessionCheckpoint.computeSessionRoot H) first.checkpoint.treeSize
          second.checkpoint.treeSize first.checkpoint.sessionRoot
          second.checkpoint.sessionRoot →
        (SessionCheckpoint.Acquits H canonicalRecord first second opts ↔
          SessionCheckpoint.Passes H first.checkpoint second.checkpoint opts)) ∧
    ∀ (canonicalRecord : Verify.SessionCheckpoint.SessionCheckpointRecord → Bytes)
        (first second : Verify.SessionCheckpoint.SessionCheckpointRecord)
        (fcp scp : Verify.SessionCheckpoint.SessionCheckpointBody)
        (opts : Verify.SessionCheckpoint.CheckConsecutiveSessionCheckpointsOptions),
      Verify.SessionCheckpoint.Linked H canonicalRecord first second fcp scp →
        AppendOnly (Verify.SessionCheckpoint.recomputeSessionRoot H) fcp.treeSize scp.treeSize
          fcp.sessionRoot scp.sessionRoot →
        (Verify.SessionCheckpoint.Acquits H canonicalRecord first second opts ↔
          Verify.SessionCheckpoint.Passes H fcp scp opts) :=
  ⟨fun _ _ _ _ hlinked happend => SessionCheckpoint.acquits_iff hlinked happend,
    fun _ _ _ _ _ _ hlinked happend => Verify.SessionCheckpoint.acquits_iff hlinked happend⟩

/-! ## An honest pair and an empty proof -/

/-- JCS of a checkpoint record without optional members. -/
def pairBytes (record : AtribRecord) (checkpoint : String) : Bytes :=
  let member := fun ((name, text) : String × String) => "\"" ++ name ++ "\":\"" ++ text ++ "\","
  let members := fun list : List (String × String) => String.join (list.map member)
  utf8 ("\x7b" ++ members [("chain_root", record.chainRoot)] ++ "\"checkpoint\":\x7b" ++
    checkpoint ++ "\x7d," ++ members ([("content_id", record.contentId.getD ""),
      ("context_id", record.contextId), ("creator_key", record.creatorKey),
      ("event_type", record.eventType)] ++ record.rest) ++
    "\"timestamp\":" ++ toString record.timestamp ++ "\x7d")

def checkpointMembers (firstIndex : ℚ) (priorCheckpoint : Option String) (sessionRoot : String)
    (treeSize : ℚ) : String :=
  "\"first_index\":" ++ toString firstIndex ++ "," ++
    (priorCheckpoint.elim "" fun prior => "\"prior_checkpoint\":\"" ++ prior ++ "\",") ++
    "\"session_root\":\"" ++ sessionRoot ++ "\",\"tree_size\":" ++ toString treeSize

def pairCanonical (record : SessionCheckpointRecord) : Bytes :=
  pairBytes record.toAtribRecord (checkpointMembers record.checkpoint.firstIndex
    record.checkpoint.priorCheckpoint record.checkpoint.sessionRoot record.checkpoint.treeSize)

def pairKey : String := "iojj3XQJ8ZX9UtstPLpdcspnCb8dlBIb83SIAbQPb1w"

def pairContext : String := "11111111111111111111111111111111"

/-- The checkpoint over one leaf, signed. -/
def firstOfPair : SessionCheckpointRecord where
  contentId := some "sha256:89601eeb0b82436563c295c61359be112f8cabdfe00b52302f3af8bfa6827b3b"
  creatorKey := pairKey
  chainRoot := "sha256:8a83665f3798727f14f92ad0e6c99fdab08ee731d6cd644c131223fd2f4fed2a"
  eventType := "https://atrib.dev/v1/types/session_checkpoint"
  contextId := pairContext
  timestamp := 1767225600000
  rest := [("signature",
      "RVRH0tkK7eBMmGacKBC3d4J-_E4ilxXPmI8Fy8p_3sceMERA1m0PeijY8C59dkWtINtLw7M5F8zXDE20fRAcCA"),
    ("spec_version", "atrib/1.0")]
  checkpoint := {
    firstIndex := 0
    sessionRoot := sha256Ref (Hash.fips180.rootOf (SessionCheckpoint.twoLeaves.take 1))
    treeSize := 1 }

/-- The checkpoint over two leaves that continues it, signed with the same key. -/
def secondOfPair : SessionCheckpointRecord where
  contentId := firstOfPair.contentId
  creatorKey := pairKey
  chainRoot := SessionCheckpoint.recordHashRef .fips180 pairCanonical firstOfPair
  eventType := firstOfPair.eventType
  contextId := pairContext
  timestamp := 1767225610000
  rest := [("signature",
      "VoecNCdSRWPqC05V3nGRRVmpWRVDkuD05n9h8GXdMqggCCFCX88d1vkzlSEda6x22OHz_ImR61qNHxaqBaGfBg"),
    ("spec_version", "atrib/1.0")]
  checkpoint := {
    firstIndex := 1
    priorCheckpoint := some (SessionCheckpoint.recordHashRef .fips180 pairCanonical firstOfPair)
    sessionRoot := sha256Ref (Hash.fips180.rootOf SessionCheckpoint.twoLeaves)
    treeSize := 2 }

theorem linked_pair :
    SessionCheckpoint.Linked .fips180 pairCanonical firstOfPair secondOfPair where
  prior := by rw [secondOfPair]
  firstIndex := by rw [secondOfPair, firstOfPair]
  creatorKey := (show firstOfPair.creatorKey = pairKey from rfl).trans rfl
  contextId := (show firstOfPair.contextId = pairContext from rfl).trans rfl

theorem appendOnly_pair :
    AppendOnly (SessionCheckpoint.computeSessionRoot .fips180) firstOfPair.checkpoint.treeSize
      secondOfPair.checkpoint.treeSize firstOfPair.checkpoint.sessionRoot
      secondOfPair.checkpoint.sessionRoot := by
  exact ⟨SessionCheckpoint.twoLeaves, 1, rfl, rfl, by decide,
    SessionCheckpoint.computeSessionRoot_eq _ (by decide) (by decide),
    SessionCheckpoint.computeSessionRoot_eq _ (by decide) (by decide)⟩

/-- The honest pair with an empty list as the proof of its consistency. -/
theorem acquits_iff_passes_pair :
    SessionCheckpoint.Acquits .fips180 pairCanonical firstOfPair secondOfPair
        { consistencyProof := some [] } ↔
      SessionCheckpoint.Passes .fips180 firstOfPair.checkpoint secondOfPair.checkpoint
        { consistencyProof := some [] } :=
  (acquits_iff_passes .fips180).1 pairCanonical firstOfPair secondOfPair
    { consistencyProof := some [] } linked_pair appendOnly_pair

/-- The honest signer of the pair is reported. -/
theorem not_acquits_pair :
    SessionCheckpoint.Linked .fips180 pairCanonical firstOfPair secondOfPair ∧
      AppendOnly (SessionCheckpoint.computeSessionRoot .fips180) firstOfPair.checkpoint.treeSize
        secondOfPair.checkpoint.treeSize firstOfPair.checkpoint.sessionRoot
        secondOfPair.checkpoint.sessionRoot ∧
      ∃ check evidence,
        SessionCheckpoint.checkConsecutiveSessionCheckpoints .fips180 pairCanonical firstOfPair
          secondOfPair { consistencyProof := some [] } = some check ∧
        check.equivocation = some evidence ∧ evidence.reason = .appendOnlyViolation := by
  refine ⟨linked_pair, appendOnly_pair, ?_⟩
  have hverify : SessionCheckpoint.verifyPair .fips180 firstOfPair.checkpoint
      secondOfPair.checkpoint [] = some false :=
    (SessionCheckpoint.verifySessionConsistency_sha256Ref .fips180 (m := 1) (n := 2)
      (Hash.length_rootOf _ _) (Hash.length_rootOf _ _) _).trans (by decide +kernel)
  refine SessionCheckpoint.verdict_of_fails linked_pair ?_
  rw [SessionCheckpoint.checkEvidence_proof, hverify]
  rfl

end Atrib
