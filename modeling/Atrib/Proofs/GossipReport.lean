import Atrib.Proofs.AppendOnlyVerdict
import Atrib.Proofs.Consistency
import Atrib.Proofs.Encodings
import Atrib.Proofs.Inclusion
import Atrib.Verify.CheckpointGossip
import Mathlib.Data.List.Lex

/-!
# What a gossip report says

A report is consistent only if every observation verifies and every pair has
been compared and agrees; all verified observations are of the one log whose key
is pinned, so what is left out of a comparison shows as inconclusive.

The order of the observations shows nowhere but in one place. Of several
incidents with one id, which differ in their times, the first found is kept. The
observations are sorted by time, so the first is the earliest: its left side is
the earliest there is, and its right side the earliest that comes after. For
this a split must not depend on which of several copies of a note is looked at,
and it does not as long as roots bind their leaf hashes.
-/

namespace Atrib.Verify

open Lib (EarliestFirst InsertionSet.mem_ofList InsertionSet.nodup_ofList InsertionSet.ofList adjacent
  addFirst bind_ok firsts pairs sortBy)

variable {H : Hash} {codec : GossipCodec} {ed : Ed25519} {buffers : Buffers}
  {operatorKey : TrustedCheckpointKey} {observations : List CheckpointGossipObservation}
  {observation : CheckpointGossipObservation} {v w : VerifiedCheckpointGossipObservation}

/-! ## Verified observations -/

theorem parseCheckpointBody_ok {body : List Char} {origin : String} {treeSize : ℕ}
    {rootHash : Bytes} (h : parseCheckpointBody buffers body = .ok (origin, treeSize, rootHash)) :
    1 ≤ treeSize ∧ treeSize ≤ MAX_SAFE_INTEGER ∧ rootHash.length = 32 := by
  unfold parseCheckpointBody at h
  split at h
  case h_2 => cases h
  split at h
  · cases h
  split at h
  · cases h
  split at h
  · cases h
  next hrange =>
  cases hroot : decodeBase64 buffers (String.ofList ‹List Char›) (some 32)
      "checkpoint root hash" with
  | error message =>
      rw [hroot] at h
      cases h
  | ok bytes =>
      rw [hroot] at h
      cases h
      refine ⟨by omega, by omega, ?_⟩
      unfold decodeBase64 at hroot
      split at hroot
      · cases hroot
      dsimp only at hroot
      split at hroot
      · cases hroot
      split at hroot
      · cases hroot
      next hlength =>
      cases hroot
      exact not_not.1 hlength

theorem verifyOperatorCheckpoint_ok {note : String} {checkpoint : ParsedCheckpointNote}
    (h : verifyOperatorCheckpoint H ed buffers note operatorKey = .ok checkpoint) :
    checkpoint.origin = operatorKey.name ∧
      CheckpointView.WellFormed ⟨checkpoint.treeSize, checkpoint.rootHash⟩ := by
  unfold verifyOperatorCheckpoint at h
  obtain ⟨parsed, hparsed, h⟩ := bind_ok h
  have hsame : parsed.origin = operatorKey.name ∧ parsed = checkpoint := by
    split at h
    · cases h
    next horigin =>
    refine ⟨not_not.1 horigin, ?_⟩
    obtain ⟨publicKey, -, h⟩ := bind_ok h
    obtain ⟨keyId, -, h⟩ := bind_ok h
    dsimp only at h
    split at h
    · cases h
    obtain ⟨valid, -, h⟩ := bind_ok h
    split at h
    · exact Except.ok.inj h
    · cases h
  obtain ⟨horigin, rfl⟩ := hsame
  refine ⟨horigin, ?_⟩
  unfold parseCheckpointNote at hparsed
  split at hparsed
  · cases hparsed
  obtain ⟨⟨origin, treeSize, rootHash⟩, hbody, hparsed⟩ := bind_ok hparsed
  obtain ⟨hpos, hsafe, hlength⟩ := parseCheckpointBody_ok hbody
  dsimp only at hparsed
  split at hparsed
  · split at hparsed
    · cases hparsed
    · cases hparsed
      exact ⟨hpos, hsafe, hlength⟩
  · cases hparsed

/-- An observation is verified, and its note is this checkpoint. -/
structure VerifiesAs (H : Hash) (ed : Ed25519) (buffers : Buffers)
    (operatorKey : TrustedCheckpointKey) (observation : CheckpointGossipObservation)
    (checkpoint : ParsedCheckpointNote) (v : VerifiedCheckpointGossipObservation) : Prop where
  verified : verifyObservation H ed buffers operatorKey observation = .ok v
  operator : verifyOperatorCheckpoint H ed buffers observation.checkpointNote operatorKey =
    .ok checkpoint
  note : v.checkpointHash = hashText H observation.checkpointNote
  origin : v.origin = operatorKey.name
  treeSize : v.treeSize = checkpoint.treeSize
  root : v.rootHashBase64url = Atrib.base64urlEncode checkpoint.rootHash
  leafHashes : ∀ hashes ∈ v.leafHashes, Carries H hashes ⟨checkpoint.treeSize, checkpoint.rootHash⟩ ∧
    ∀ hash ∈ hashes, hash.length = 32

theorem verifyLeafHashes_ok {checkpoint : ParsedCheckpointNote} {leafHashes : List LeafHash}
    {hashes : List Bytes} (h : verifyLeafHashes H buffers checkpoint leafHashes = .ok hashes) :
    Carries H hashes ⟨checkpoint.treeSize, checkpoint.rootHash⟩ ∧
      ∀ hash ∈ hashes, hash.length = 32 := by
  unfold verifyLeafHashes at h
  obtain ⟨hashes', hnormal, h⟩ := bind_ok h
  dsimp only at h
  split at h
  · cases h
  next hlength =>
  obtain ⟨root, hroot, h⟩ := bind_ok h
  split at h
  · cases h
  next hsame =>
  cases h
  obtain ⟨hall, hmth⟩ := (checkpointRootFromLeafHashes_ok_iff H).1 hroot
  exact ⟨⟨not_not.1 hlength, hmth.trans (not_not.1 hsame)⟩, hall⟩

theorem verifyObservation_ok (h : verifyObservation H ed buffers operatorKey observation = .ok v) :
    ∃ checkpoint, VerifiesAs H ed buffers operatorKey observation checkpoint v := by
  have hverified := h
  unfold verifyObservation at h
  dsimp only at h
  split at h
  · cases h
  split at h
  · cases h
  split at h
  · cases h
  next checkpoint hoperator =>
  have horigin := (verifyOperatorCheckpoint_ok hoperator).1
  split at h
  · cases h
    exact ⟨checkpoint, hverified, hoperator, rfl, horigin, rfl, rfl, fun _ h => nomatch h⟩
  · split at h
    · cases h
    next hashes hhashes =>
    cases h
    refine ⟨checkpoint, hverified, hoperator, rfl, horigin, rfl, rfl, fun hashes' h => ?_⟩
    cases h
    exact verifyLeafHashes_ok hhashes

theorem verifyObservation_of {checkpoint : ParsedCheckpointNote} {observedAtMs : ℕ}
    (hsource : ¬ (observation.sourceId = "" ∨ observation.sourceId.toList.contains '\n' ∨
      observation.sourceId.toList.contains '\r'))
    (htime : observation.observedAtMs.safeIndex? = some observedAtMs)
    (hoperator : verifyOperatorCheckpoint H ed buffers observation.checkpointNote operatorKey =
      .ok checkpoint) (hleaves : observation.leafHashes = none) :
    verifyObservation H ed buffers operatorKey observation =
      .ok ⟨⟨observation.sourceId, observedAtMs, hashText H observation.checkpointNote,
        checkpoint.treeSize, Atrib.base64urlEncode checkpoint.rootHash⟩, checkpoint.origin, none⟩ := by
  unfold verifyObservation
  simp only [if_neg hsource, htime, hoperator, hleaves]

/-! ## Pairs -/

theorem comparePair_comm (v w : VerifiedCheckpointGossipObservation) :
    comparePair v w = comparePair w v := by
  unfold comparePair
  by_cases horigin : v.origin = w.origin
  · rw [if_neg (not_not.2 horigin), if_neg (not_not.2 horigin.symm)]
    by_cases hsize : v.treeSize = w.treeSize
    · rw [if_pos hsize, if_pos hsize.symm]
      simp only [ne_comm]
    · rw [if_neg hsize, if_neg (Ne.symm hsize)]
      cases v.leafHashes with
      | none => cases w.leafHashes <;> rfl
      | some l =>
          cases w.leafHashes with
          | none => rfl
          | some l' => simp only [min_comm, eq_comm]
  · rw [if_pos horigin, if_pos (Ne.symm horigin)]

theorem comparePair_self (v : VerifiedCheckpointGossipObservation) :
    comparePair v v = .compatible := by
  simp [comparePair]

variable {S : List VerifiedCheckpointGossipObservation}

theorem exists_pair (hv : v ∈ S) (hw : w ∈ S) (hne : comparePair v w ≠ .compatible) :
    (v, w) ∈ pairs S ∨ (w, v) ∈ pairs S := by
  refine Lib.mem_pairs_or hv hw ?_
  rintro rfl
  exact hne (comparePair_self v)

theorem splitIncident_eq_some {pair : VerifiedCheckpointGossipObservation ×
    VerifiedCheckpointGossipObservation} {c : CheckpointGossipIncident} :
    splitIncident H codec pair = some c ↔ ∃ kind, comparePair pair.1 pair.2 = .split kind ∧
      incident H codec kind pair.1.origin pair.1.toIncidentObservation
        pair.2.toIncidentObservation = c := by
  unfold splitIncident
  cases comparePair pair.1 pair.2 <;> simp

theorem found_of_split {pair : VerifiedCheckpointGossipObservation ×
    VerifiedCheckpointGossipObservation} (hpair : pair ∈ pairs S)
    {kind : CheckpointGossipIncidentKind} (h : comparePair pair.1 pair.2 = .split kind) :
    foundIncidents H codec S ≠ [] := by
  have hsplit : splitIncident H codec pair = some _ := splitIncident_eq_some.2 ⟨kind, h, rfl⟩
  exact List.ne_nil_of_mem (List.mem_append_left _ (List.mem_filterMap.2 ⟨pair, hpair, hsplit⟩))

theorem mem_verifiedObservations : v ∈ verifiedObservations codec
      (observations.map (verifyObservation H ed buffers operatorKey)) ↔
    ∃ observation ∈ observations,
      verifyObservation H ed buffers operatorKey observation = .ok v := by
  rw [verifiedObservations, Lib.mem_sortBy, List.mem_filterMap]
  simp only [List.mem_map, exists_exists_and_eq_and]
  refine exists_congr fun observation => and_congr_right fun _ => ?_
  cases verifyObservation H ed buffers operatorKey observation <;> simp [Except.toOption]

/-! ## Consistency and conflict -/

/-- The observations that verify, as the analysis sorts them. -/
def verifiedOf (H : Hash) (codec : GossipCodec) (ed : Ed25519) (buffers : Buffers)
    (operatorKey : TrustedCheckpointKey) (observations : List CheckpointGossipObservation) :
    List VerifiedCheckpointGossipObservation :=
  verifiedObservations codec (observations.map (verifyObservation H ed buffers operatorKey))

theorem conflict_iff :
    (analyzeCheckpointGossip H codec ed buffers observations operatorKey).status = .conflict ↔
      foundIncidents H codec (verifiedOf H codec ed buffers operatorKey observations) ≠ [] := by
  have hfirsts := @Lib.firsts_eq_nil _ _ _ (fun c : CheckpointGossipIncident => c.incidentId)
    (foundIncidents H codec (verifiedOf H codec ed buffers operatorKey observations))
  rw [Lib.firsts] at hfirsts
  rw [ne_eq, ← hfirsts]
  unfold analyzeCheckpointGossip
  dsimp only
  split
  · next h => exact iff_of_true rfl h
  · next h =>
    refine iff_of_false ?_ h
    split
    · rintro ⟨⟩
    · split <;> rintro ⟨⟩

theorem of_consistent (h : (analyzeCheckpointGossip H codec ed buffers observations
      operatorKey).status = .consistent) :
    foundIncidents H codec (verifiedOf H codec ed buffers operatorKey observations) = [] ∧
      ∀ pair ∈ pairs (verifiedOf H codec ed buffers operatorKey observations),
        comparePair pair.1 pair.2 ≠ .uncompared := by
  constructor
  · by_contra hne
    rw [conflict_iff.2 hne] at h
    cases h
  · unfold analyzeCheckpointGossip at h
    dsimp only at h
    split at h
    · cases h
    split at h
    · cases h
    split at h
    · cases h
    next hcount =>
    intro pair hpair huncompared
    refine hcount (List.count_pos_iff.2 ?_)
    exact huncompared ▸ List.mem_map_of_mem hpair

/-- In a consistent report every pair has been compared and agrees. -/
theorem compatible_of_consistent (h : (analyzeCheckpointGossip H codec ed buffers observations
      operatorKey).status = .consistent)
    (hv : v ∈ verifiedOf H codec ed buffers operatorKey observations)
    (hw : w ∈ verifiedOf H codec ed buffers operatorKey observations) :
    comparePair v w = .compatible := by
  obtain ⟨hnone, hcompared⟩ := of_consistent h
  have hpair : ∀ pair ∈ pairs (verifiedOf H codec ed buffers operatorKey observations),
      comparePair pair.1 pair.2 = .compatible := by
    intro pair hpair
    cases hverdict : comparePair pair.1 pair.2 with
    | uncompared => exact absurd hverdict (hcompared pair hpair)
    | compatible => rfl
    | split kind => exact absurd hnone (found_of_split hpair hverdict)
  by_contra hne
  rcases exists_pair hv hw hne with hvw | hwv
  · exact hne (hpair _ hvw)
  · exact hne ((comparePair_comm v w).trans (hpair _ hwv))

/-- Two checkpoints of one log agree: at one size they have one root, and the smaller is
accepted as an earlier state of the larger, given the leaf hashes of the larger. -/
structure Agree (H : Hash) (a b : ParsedCheckpointNote) : Prop where
  origin : a.origin = b.origin
  sameSize : a.treeSize = b.treeSize → a.rootHash = b.rootHash
  smaller : a.treeSize < b.treeSize → ∃ leafHashes, verifyCheckpointConsistencyFromLeafHashes H
    (some ⟨a.treeSize, a.rootHash⟩) ⟨b.treeSize, b.rootHash⟩ leafHashes = .ok true

variable {a b : CheckpointGossipObservation} {ca cb : ParsedCheckpointNote}

theorem agree_of_compatible (ha : VerifiesAs H ed buffers operatorKey a ca v)
    (hb : VerifiesAs H ed buffers operatorKey b cb w) (h : comparePair v w = .compatible) :
    Agree H ca cb := by
  obtain ⟨hkeya, hwfa⟩ := verifyOperatorCheckpoint_ok ha.operator
  obtain ⟨hkeyb, hwfb⟩ := verifyOperatorCheckpoint_ok hb.operator
  rw [comparePair, if_neg (not_not.2 (ha.origin.trans hb.origin.symm)), ha.treeSize, hb.treeSize,
    ha.root, hb.root] at h
  refine ⟨hkeya.trans hkeyb.symm, fun hsize => ?_, fun hsize => ?_⟩
  · rw [if_pos hsize] at h
    split at h
    · cases h
    · next hroot => exact base64urlEncode_inj (not_not.1 hroot)
  · rw [if_neg hsize.ne] at h
    cases hleavesa : v.leafHashes with
    | none =>
        rw [hleavesa] at h
        cases h
    | some l =>
        cases hleavesb : w.leafHashes with
        | none =>
            rw [hleavesa, hleavesb] at h
            cases h
        | some l' =>
            rw [hleavesa, hleavesb, min_eq_left hsize.le] at h
            dsimp only at h
            split at h
            case isFalse => cases h
            next htake =>
            obtain ⟨hcara, -⟩ := ha.leafHashes l hleavesa
            obtain ⟨hcarb, hallb⟩ := hb.leafHashes l' hleavesb
            refine ⟨l', (verifyCheckpointConsistency_of_carries H hwfb hallb hcarb).2 ?_⟩
            rintro view ⟨⟩
            refine ⟨hwfa, (carriesPrefix_iff H).2 ⟨?_, ?_⟩⟩
            · rw [hcarb.length_eq]
              exact hsize.le
            · rw [← htake, List.take_of_length_le hcara.length_eq.le]
              exact hcara.root_eq

theorem conflict_of_split (hv : v ∈ verifiedOf H codec ed buffers operatorKey observations)
    (hw : w ∈ verifiedOf H codec ed buffers operatorKey observations)
    {kind : CheckpointGossipIncidentKind} (h : comparePair v w = .split kind) :
    (analyzeCheckpointGossip H codec ed buffers observations operatorKey).status = .conflict := by
  refine conflict_iff.2 ?_
  rcases exists_pair hv hw (by rw [h]; exact fun h => nomatch h) with hvw | hwv
  · exact found_of_split hvw h
  · exact found_of_split hwv ((comparePair_comm w v).trans h)


/-! ## Incidents and their times -/

/-- What the source relies on: `localeCompare` orders the texts consistently and tells the
texts of two hashes apart. -/
structure GossipCodec.Lawful (codec : GossipCodec) : Prop where
  trans : Std.TransCmp codec.localeCompare
  hashes : ∀ d d' : Bytes, codec.localeCompare (sha256Ref d) (sha256Ref d') = .eq →
    sha256Ref d = sha256Ref d'

/-- What an incident id is the hash of. -/
def CheckpointGossipIncident.content (c : CheckpointGossipIncident) : IncidentContent where
  kind := c.kind
  origin := c.origin
  sources := c.sources
  observations := c.observations.map (·.withoutTime)

def CheckpointGossipIncident.times (c : CheckpointGossipIncident) : List ℕ :=
  c.observations.map (·.observedAtMs)

/-- Two observations in the order in which an incident has them. -/
def Before (codec : GossipCodec) (a b : IncidentObservation) : Prop :=
  (compareIncidentObservation codec a b).isLE = true

section Order

variable {origin : String} {kind : CheckpointGossipIncidentKind} {o o' p p' : IncidentObservation}

theorem transCmp_incidentObservation (hlaw : codec.Lawful) :
    Std.TransCmp (compareIncidentObservation codec) := by
  have hlocale := hlaw.trans
  have hsource := Lib.transCmp_on codec.localeCompare fun o : IncidentObservation => o.sourceId
  have htime := Lib.transCmp_on (compare : ℕ → ℕ → Ordering)
    fun o : IncidentObservation => o.observedAtMs
  have hhash := Lib.transCmp_on codec.localeCompare fun o : IncidentObservation => o.checkpointHash
  exact Lib.transCmp_then (Lib.transCmp_then hsource htime) hhash

theorem transCmp_observation (hlaw : codec.Lawful) : Std.TransCmp (compareObservation codec) := by
  have hlocale := hlaw.trans
  have hincident := transCmp_incidentObservation hlaw
  have horigin := Lib.transCmp_on codec.localeCompare
    fun v : VerifiedCheckpointGossipObservation => v.origin
  exact Lib.transCmp_then horigin (Lib.transCmp_on (compareIncidentObservation codec)
    fun v : VerifiedCheckpointGossipObservation => v.toIncidentObservation)

theorem Before.time_le (hlaw : codec.Lawful) (h : Before codec o p)
    (hsource : o.sourceId = p.sourceId) : o.observedAtMs ≤ p.observedAtMs := by
  have hlocale := hlaw.trans
  have hself : codec.localeCompare p.sourceId p.sourceId = .eq := Std.ReflCmp.compare_self
  rw [Before, compareIncidentObservation, hsource, hself] at h
  by_contra hlt
  rw [Nat.compare_eq_gt.2 (not_le.1 hlt)] at h
  cases h

theorem observations_incident (h : Before codec o p) :
    (incident H codec kind origin o p).observations = [o, p] :=
  List.mergeSort_of_pairwise (List.pairwise_pair.2 h)

theorem content_incident (h : Before codec o p) :
    (incident H codec kind origin o p).content =
      incidentContent kind origin [o, p] := by
  rw [CheckpointGossipIncident.content, observations_incident h, incidentContent, incident]
  simp only [incidentContent]
  rw [show sortBy (compareIncidentObservation codec) [o, p] = [o, p] from
    List.mergeSort_of_pairwise (List.pairwise_pair.2 h)]

theorem incidentId_incident :
    (incident H codec kind origin o p).incidentId =
      sha256Ref (H.sha256 (codec.canonicalize (incident H codec kind origin o p).content)) := rfl

theorem incident_comm (hlaw : codec.Lawful)
    (hne : codec.localeCompare o.checkpointHash p.checkpointHash ≠ .eq) :
    incident H codec kind origin o p = incident H codec kind origin p o := by
  have htrans := transCmp_incidentObservation hlaw
  have hlocale := hlaw.trans
  have hhash : ∀ x y : IncidentObservation, compareIncidentObservation codec x y = .eq →
      codec.localeCompare x.checkpointHash y.checkpointHash = .eq := by
    intro x y h
    rw [compareIncidentObservation, Ordering.then_eq_eq] at h
    exact h.2
  have hsort : sortBy (compareIncidentObservation codec) [o, p] =
      sortBy (compareIncidentObservation codec) [p, o] := by
    refine Lib.sortBy_eq_of_perm (List.Perm.swap p o []) fun x hx y hy heq => ?_
    rcases List.mem_pair.1 hx with rfl | rfl <;> rcases List.mem_pair.1 hy with rfl | rfl
    · rfl
    · exact absurd (hhash _ _ heq) hne
    · exact absurd (Std.OrientedCmp.eq_symm (hhash _ _ heq)) hne
    · rfl
  rw [incident, incident, hsort]

/-- The time is all that an incident has beside its content. -/
theorem eq_of_content_times {c c' : CheckpointGossipIncident} (hid : c.incidentId = c'.incidentId)
    (hcontent : c.content = c'.content) (htimes : c.times = c'.times) : c = c' := by
  obtain ⟨id, kind, origin, sources, observations⟩ := c
  obtain ⟨id', kind', origin', sources', observations'⟩ := c'
  simp only [CheckpointGossipIncident.content, IncidentContent.mk.injEq, true_and] at hcontent
  obtain ⟨rfl, rfl, rfl, hobservations⟩ := hcontent
  obtain rfl : id = id' := hid
  congr 1
  rw [CheckpointGossipIncident.times, CheckpointGossipIncident.times] at htimes
  have hzip : ∀ os os' : List IncidentObservation,
      os.map (·.withoutTime) = os'.map (·.withoutTime) →
        os.map (·.observedAtMs) = os'.map (·.observedAtMs) → os = os' := by
    intro os
    induction os with
    | nil => intro os' h _; exact (List.map_eq_nil_iff.1 h.symm).symm
    | cons o os ih =>
        intro os' h ht
        cases os' with
        | nil => cases h
        | cons o' os' =>
            obtain ⟨ho, hos⟩ := List.cons.inj h
            obtain ⟨ht, hts⟩ := List.cons.inj ht
            obtain ⟨source, time, hash, size, root⟩ := o
            obtain ⟨source', time', hash', size', root'⟩ := o'
            simp only [IncidentObservation.withoutTime, Prod.mk.injEq] at ho
            obtain ⟨rfl, rfl, rfl, rfl⟩ := ho
            obtain rfl : time = time' := ht
            rw [ih os' hos hts]
  exact hzip _ _ hobservations htimes

theorem times_incident (h : Before codec o p) :
    (incident H codec kind origin o p).times = [o.observedAtMs, p.observedAtMs] := by
  rw [CheckpointGossipIncident.times, observations_incident h]
  rfl

theorem content_inj {kind' : CheckpointGossipIncidentKind} {origin' : String}
    (h : Before codec o p) (h' : Before codec o' p')
    (heq : (incident H codec kind origin o p).content =
      (incident H codec kind' origin' o' p').content) :
    kind = kind' ∧ o.withoutTime = o'.withoutTime ∧ p.withoutTime = p'.withoutTime := by
  rw [content_incident h, content_incident h'] at heq
  have hobservations := congrArg IncidentContent.observations heq
  obtain ⟨hfirst, hrest⟩ := List.cons.inj hobservations
  exact ⟨congrArg IncidentContent.kind heq, hfirst, (List.cons.inj hrest).1⟩

theorem IncidentObservation.withoutTime_eq (h : o.withoutTime = o'.withoutTime) :
    o.sourceId = o'.sourceId ∧ o.checkpointHash = o'.checkpointHash ∧ o.treeSize = o'.treeSize ∧
      o.rootHashBase64url = o'.rootHashBase64url := by
  simpa [IncidentObservation.withoutTime] using h

theorem content_congr (h : Before codec o p) (h' : Before codec o' p')
    (hfirst : o.withoutTime = o'.withoutTime) (hsecond : p.withoutTime = p'.withoutTime) :
    (incident H codec kind origin o p).content = (incident H codec kind origin o' p').content := by
  rw [content_incident h, content_incident h']
  have hsources : [o, p].map (·.sourceId) = [o', p'].map (·.sourceId) := by
    simp [(IncidentObservation.withoutTime_eq hfirst).1,
      (IncidentObservation.withoutTime_eq hsecond).1]
  have hobservations : [o, p].map (·.withoutTime) = [o', p'].map (·.withoutTime) := by
    simp [hfirst, hsecond]
  rw [incidentContent, incidentContent, hsources, hobservations]

/-- Of two incidents with one content the one with the earlier sides is the earlier. -/
theorem times_le (h : Before codec o p) (h' : Before codec o' p')
    (hfirst : o.observedAtMs ≤ o'.observedAtMs) (hsecond : p.observedAtMs ≤ p'.observedAtMs)
    {kind' : CheckpointGossipIncidentKind} {origin' : String} :
    (incident H codec kind origin o p).times ≤ (incident H codec kind' origin' o' p').times := by
  rw [times_incident h, times_incident h']
  rcases hfirst.lt_or_eq with hlt | heq
  · exact le_of_lt (List.Lex.rel hlt)
  · rw [heq]
    rcases hsecond.lt_or_eq with hlt | heq
    · exact le_of_lt (List.Lex.cons (List.Lex.rel hlt))
    · rw [heq]

/-! ## Splits -/

/-- The verified observations are told apart as far as the incidents go. -/
structure ToldApart (codec : GossipCodec) (origin : String)
    (S : List VerifiedCheckpointGossipObservation) : Prop where
  origins : ∀ v ∈ S, v.origin = origin
  hashes : ∀ v ∈ S, ∀ w ∈ S, codec.localeCompare v.checkpointHash w.checkpointHash = .eq →
    v.checkpointHash = w.checkpointHash
  trees : ∀ v ∈ S, ∀ w ∈ S, v.checkpointHash = w.checkpointHash →
    v.treeSize = w.treeSize ∧ v.rootHashBase64url = w.rootHashBase64url
  leaves : ∀ v ∈ S, ∀ w ∈ S, v.checkpointHash = w.checkpointHash →
    ∀ l ∈ v.leafHashes, ∀ l' ∈ w.leafHashes, l = l'

theorem ToldApart.subset {S' : List VerifiedCheckpointGossipObservation}
    (h : ToldApart codec origin S) (hsub : S' ⊆ S) : ToldApart codec origin S' where
  origins v hv := h.origins v (hsub hv)
  hashes v hv w hw := h.hashes v (hsub hv) w (hsub hw)
  trees v hv w hw := h.trees v (hsub hv) w (hsub hw)
  leaves v hv w hw := h.leaves v (hsub hv) w (hsub hw)

/-- Two that split have different notes. -/
theorem hash_ne_of_split (hsep : ToldApart codec origin S) (hv : v ∈ S) (hw : w ∈ S)
    (h : comparePair v w = .split kind) : v.checkpointHash ≠ w.checkpointHash := by
  intro heq
  obtain ⟨hsize, hroot⟩ := hsep.trees v hv w hw heq
  have horigin : v.origin = w.origin := (hsep.origins v hv).trans (hsep.origins w hw).symm
  rw [comparePair, if_neg (not_not.2 horigin), if_pos hsize, if_neg (not_not.2 hroot)] at h
  cases h

theorem leafHashes_of_prefixSplit (h : comparePair v w = .split .prefixSplitView) :
    ∃ l, v.leafHashes = some l := by
  unfold comparePair at h
  split at h
  · cases h
  split at h
  · split at h <;> cases h
  split at h
  · next l _ hl _ => exact ⟨l, hl⟩
  · cases h

/-- A copy of the left side splits in the same way, if it has what it takes. -/
theorem split_copy {v' w' : VerifiedCheckpointGossipObservation} (hsep : ToldApart codec origin S)
    (hv : v ∈ S) (hv' : v' ∈ S) (hw' : w' ∈ S) (hhash : v.checkpointHash = v'.checkpointHash)
    (h : comparePair v w = .split kind) (h' : comparePair v' w' = .split kind) :
    comparePair v w' = .split kind := by
  obtain ⟨hsize, hroot⟩ := hsep.trees v hv v' hv' hhash
  have horigin : v.origin = w'.origin := (hsep.origins v hv).trans (hsep.origins w' hw').symm
  have horigin' : v'.origin = w'.origin := (hsep.origins v' hv').trans (hsep.origins w' hw').symm
  unfold comparePair at h' ⊢
  rw [if_neg (not_not.2 horigin')] at h'
  rw [if_neg (not_not.2 horigin), hsize, hroot]
  by_cases hsame : v'.treeSize = w'.treeSize
  · rw [if_pos hsame] at h' ⊢
    exact h'
  · rw [if_neg hsame] at h' ⊢
    cases hl' : v'.leafHashes with
    | none =>
        rw [hl'] at h'
        cases h'
    | some l' =>
        cases hlw : w'.leafHashes with
        | none =>
            rw [hl', hlw] at h'
            cases h'
        | some lw =>
            rw [hl', hlw] at h'
            -- the kind is that of prefixes, so the left side has been compared with leaf hashes
            obtain rfl : kind = .prefixSplitView := by
              dsimp only at h'
              split at h'
              · cases h'
              · exact (PairVerdict.split.inj h').symm
            obtain ⟨l, hl⟩ := leafHashes_of_prefixSplit h
            obtain rfl := hsep.leaves v hv v' hv' hhash l hl l' hl'
            rw [hl]
            exact h'

theorem mem_splits {c : CheckpointGossipIncident} :
    c ∈ (pairs S).filterMap (splitIncident H codec) ↔ ∃ v w kind, (v, w) ∈ pairs S ∧
      comparePair v w = .split kind ∧
        incident H codec kind v.origin v.toIncidentObservation w.toIncidentObservation = c := by
  rw [List.mem_filterMap]
  constructor
  · intro h
    obtain ⟨⟨v, w⟩, hpair, h⟩ := h
    obtain ⟨kind, hverdict, heq⟩ := splitIncident_eq_some.1 h
    exact ⟨v, w, kind, hpair, hverdict, heq⟩
  · intro h
    obtain ⟨v, w, kind, hpair, hverdict, heq⟩ := h
    exact ⟨(v, w), hpair, splitIncident_eq_some.2 ⟨kind, hverdict, heq⟩⟩

/-- The splits of the members, in whatever order they stand. -/
theorem mem_splits_iff (hlaw : codec.Lawful) (hsep : ToldApart codec origin S)
    {c : CheckpointGossipIncident} :
    c ∈ (pairs S).filterMap (splitIncident H codec) ↔ ∃ v ∈ S, ∃ w ∈ S, ∃ kind,
      comparePair v w = .split kind ∧
        incident H codec kind origin v.toIncidentObservation w.toIncidentObservation = c := by
  rw [mem_splits]
  constructor
  · intro h
    obtain ⟨v, w, kind, hpair, hverdict, heq⟩ := h
    obtain ⟨hv, hw⟩ := Lib.mem_of_mem_pairs hpair
    exact ⟨v, hv, w, hw, kind, hverdict, hsep.origins v hv ▸ heq⟩
  · intro h
    obtain ⟨v, hv, w, hw, kind, hverdict, heq⟩ := h
    rcases exists_pair hv hw (by rw [hverdict]; exact fun h => nomatch h) with hvw | hwv
    · exact ⟨v, w, kind, hvw, hverdict, (hsep.origins v hv).symm ▸ heq⟩
    · refine ⟨w, v, kind, hwv, (comparePair_comm w v).trans hverdict, ?_⟩
      rw [hsep.origins w hw, ← heq]
      refine (incident_comm hlaw fun h => ?_).symm
      exact hash_ne_of_split hsep hv hw hverdict (hsep.hashes v hv w hw h)

/-- Among the splits the first with a content is the earliest with it. -/
theorem earliestFirst_splits (hlaw : codec.Lawful) (hsep : ToldApart codec origin S)
    (hsorted : S.Pairwise fun v w => Before codec v.toIncidentObservation w.toIncidentObservation) :
    EarliestFirst CheckpointGossipIncident.content CheckpointGossipIncident.times
      ((pairs S).filterMap (splitIncident H codec)) := by
  induction S with
  | nil => exact fun c hc => nomatch hc
  | cons v l ih =>
      obtain ⟨hfirst, hrest⟩ := List.pairwise_cons.1 hsorted
      have hv := @List.mem_cons_self _ v l
      have hl := List.subset_cons_self v l
      have hside : EarliestFirst CheckpointGossipIncident.content CheckpointGossipIncident.times
          ((l.map fun w => (v, w)).filterMap (splitIncident H codec)) := by
        refine EarliestFirst.of_pairwise (List.pairwise_filterMap.2 (List.pairwise_map.2 ?_))
        refine hrest.imp_of_mem fun {w w'} hw hw' hbefore c hc c' hc' hcontent => ?_
        obtain ⟨kind, -, rfl⟩ := splitIncident_eq_some.1 hc
        obtain ⟨kind', -, rfl⟩ := splitIncident_eq_some.1 hc'
        obtain ⟨-, -, hsecond⟩ := content_inj (hfirst w hw) (hfirst w' hw') hcontent
        refine times_le (hfirst w hw) (hfirst w' hw') le_rfl (hbefore.time_le hlaw ?_)
        exact (IncidentObservation.withoutTime_eq hsecond).1
      rw [pairs, List.filterMap_append]
      refine hside.append (ih (hsep.subset hl) hrest) ?_
      intro c' hc' c hc
      obtain ⟨v', w', kind, hpair, hverdict', rfl⟩ := mem_splits.1 hc'
      obtain ⟨hv', hw'⟩ := Lib.mem_of_mem_pairs hpair
      have hbefore' := Lib.pairwise_of_mem_pairs hrest hpair
      have hcontent : c.content = (incident H codec kind v'.origin v'.toIncidentObservation
          w'.toIncidentObservation).content := by
        simpa using List.find?_some hc
      obtain ⟨⟨v₀, w₀⟩, hpair₀, hsplit⟩ := List.mem_filterMap.1 (List.mem_of_find?_eq_some hc)
      obtain ⟨w, hw, heq⟩ := List.mem_map.1 hpair₀
      obtain ⟨rfl, rfl⟩ := Prod.mk.inj heq
      obtain ⟨kind', hverdict, rfl⟩ := splitIncident_eq_some.1 hsplit
      dsimp only at hverdict hcontent
      obtain ⟨rfl, hsides, -⟩ := content_inj (hfirst w hw) hbefore' hcontent
      obtain ⟨hsource, hhash, -, -⟩ := IncidentObservation.withoutTime_eq hsides
      -- the left side of the first split also splits with the right side of the other
      have hcopy := split_copy hsep hv (hl hv') (hl hw') hhash hverdict hverdict'
      have horigin : v'.origin = v.origin :=
        (hsep.origins v' (hl hv')).trans (hsep.origins v hv).symm
      have hsame : (incident H codec kind' v.origin v.toIncidentObservation
          w'.toIncidentObservation).content = (incident H codec kind' v'.origin
            v'.toIncidentObservation w'.toIncidentObservation).content := by
        rw [horigin]
        exact content_congr (hfirst w' hw') hbefore' hsides rfl
      have hmem : incident H codec kind' v.origin v.toIncidentObservation w'.toIncidentObservation ∈
          (l.map fun w => (v, w)).filterMap (splitIncident H codec) := by
        refine List.mem_filterMap.2 ⟨(v, w'), List.mem_map_of_mem hw', ?_⟩
        exact splitIncident_eq_some.2 ⟨kind', hcopy, rfl⟩
      refine (hside _ hmem _ (by rw [hsame]; exact hc)).trans ?_
      exact times_le (hfirst w' hw') hbefore' ((hfirst v' hv').time_le hlaw hsource) le_rfl

/-! ## Rollbacks -/

/-- The history of a source, without the leaf hashes. -/
def sourceHistory (codec : GossipCodec) (S : List VerifiedCheckpointGossipObservation)
    (source : String) : List IncidentObservation :=
  sortBy (fun left right => (compare left.observedAtMs right.observedAtMs).then
    (codec.localeCompare left.checkpointHash right.checkpointHash))
    ((S.filter (·.sourceId = source)).map (·.toIncidentObservation))

def rollbackOf (H : Hash) (codec : GossipCodec) (origin : String)
    (pair : IncidentObservation × IncidentObservation) : Option CheckpointGossipIncident :=
  if pair.2.treeSize < pair.1.treeSize then
    some (incident H codec .sourceRollback origin pair.1 pair.2)
  else none

def rollbacks (H : Hash) (codec : GossipCodec) (origin : String)
    (S : List VerifiedCheckpointGossipObservation) : List CheckpointGossipIncident :=
  (InsertionSet.ofList (S.map (·.sourceId))).flatMap fun source =>
    (adjacent (sourceHistory codec S source)).filterMap (rollbackOf H codec origin)

theorem foundIncidents_eq (hsep : ToldApart codec origin S) :
    foundIncidents H codec S =
      (pairs S).filterMap (splitIncident H codec) ++ rollbacks H codec origin S := by
  rw [foundIncidents, histories, rollbacks, List.flatMap_map]
  congr 1
  refine List.flatMap_congr fun source _ => ?_
  have hhistory : sourceHistory codec S source =
      (sortBy (fun left right => (compare left.observedAtMs right.observedAtMs).then
        (codec.localeCompare left.checkpointHash right.checkpointHash))
        (S.filter (·.sourceId = source))).map (·.toIncidentObservation) := by
    refine (List.map_mergeSort ?_).symm
    exact fun _ _ _ _ => rfl
  rw [hhistory, Lib.adjacent_map, List.filterMap_map]
  refine List.filterMap_congr fun pair hpair => ?_
  have hmem := Lib.mem_sortBy.1 (Lib.mem_of_mem_adjacent hpair).2
  rw [rollbackIncident, hsep.origins _ (List.mem_filter.1 hmem).1]
  rfl

theorem mem_sourceHistory {source : String} :
    o ∈ sourceHistory codec S source ↔
      ∃ v ∈ S, v.sourceId = source ∧ v.toIncidentObservation = o := by
  rw [sourceHistory, Lib.mem_sortBy, List.mem_map]
  simp only [List.mem_filter, decide_eq_true_eq, and_assoc]

theorem transCmp_history (hlaw : codec.Lawful) :
    Std.TransCmp fun left right : IncidentObservation =>
      (compare left.observedAtMs right.observedAtMs).then
        (codec.localeCompare left.checkpointHash right.checkpointHash) := by
  have hlocale := hlaw.trans
  exact Lib.transCmp_then
    (Lib.transCmp_on (compare : ℕ → ℕ → Ordering) fun o : IncidentObservation => o.observedAtMs)
    (Lib.transCmp_on codec.localeCompare fun o : IncidentObservation => o.checkpointHash)

theorem sourceHistory_pairwise (hlaw : codec.Lawful) {source : String} :
    (sourceHistory codec S source).Pairwise (Before codec) := by
  have htrans := transCmp_history hlaw
  have hlocale := hlaw.trans
  refine (Lib.sortBy_pairwise _).imp_of_mem fun {o p} ho hp hle => ?_
  obtain ⟨v, -, hv, rfl⟩ := mem_sourceHistory.1 ho
  obtain ⟨w, -, hw, rfl⟩ := mem_sourceHistory.1 hp
  have hself : codec.localeCompare source source = .eq := Std.ReflCmp.compare_self
  rw [Before, compareIncidentObservation, hv, hw, hself]
  exact hle

theorem mem_rollbacks {c : CheckpointGossipIncident} :
    c ∈ rollbacks H codec origin S ↔ ∃ source ∈ S.map (·.sourceId),
      ∃ pair ∈ adjacent (sourceHistory codec S source), rollbackOf H codec origin pair = some c := by
  simp only [rollbacks, List.mem_flatMap, InsertionSet.mem_ofList, List.mem_filterMap]

theorem rollbackOf_eq_some {pair : IncidentObservation × IncidentObservation}
    {c : CheckpointGossipIncident} (h : rollbackOf H codec origin pair = some c) :
    c = incident H codec .sourceRollback origin pair.1 pair.2 := by
  unfold rollbackOf at h
  split at h
  · exact (Option.some.inj h).symm
  · cases h

theorem earliestFirst_rollbacks (hlaw : codec.Lawful) :
    EarliestFirst CheckpointGossipIncident.content CheckpointGossipIncident.times
      (rollbacks H codec origin S) := by
  refine EarliestFirst.flatMap (fun source _ => ?_) ?_
  · have hsorted := @sourceHistory_pairwise codec S hlaw source
    refine EarliestFirst.of_pairwise (List.pairwise_filterMap.2 ?_)
    refine (Lib.adjacent_pairwise hsorted).imp_of_mem fun {p q} hp hq hbefore c hc c' hc' _ => ?_
    obtain rfl := rollbackOf_eq_some hc
    obtain rfl := rollbackOf_eq_some hc'
    have hsource : ∀ o ∈ sourceHistory codec S source, o.sourceId = source := by
      intro o ho
      obtain ⟨v, -, hv, rfl⟩ := mem_sourceHistory.1 ho
      exact hv
    obtain ⟨hp₁, hp₂⟩ := Lib.mem_of_mem_adjacent hp
    obtain ⟨hq₁, hq₂⟩ := Lib.mem_of_mem_adjacent hq
    refine times_le (Lib.pairwise_of_mem_adjacent hsorted hp)
      (Lib.pairwise_of_mem_adjacent hsorted hq) ?_ ?_
    · exact hbefore.1.time_le hlaw ((hsource _ hp₁).trans (hsource _ hq₁).symm)
    · exact hbefore.2.time_le hlaw ((hsource _ hp₂).trans (hsource _ hq₂).symm)
  · refine (InsertionSet.nodup_ofList _).imp fun {source source'} hne c hc c' hc' hcontent => ?_
    obtain ⟨pair, hpair, hc⟩ := List.mem_filterMap.1 hc
    obtain ⟨pair', hpair', hc'⟩ := List.mem_filterMap.1 hc'
    obtain rfl := rollbackOf_eq_some hc
    obtain rfl := rollbackOf_eq_some hc'
    obtain ⟨-, hfirst, -⟩ := content_inj
      (Lib.pairwise_of_mem_adjacent (sourceHistory_pairwise hlaw) hpair)
      (Lib.pairwise_of_mem_adjacent (sourceHistory_pairwise hlaw) hpair') hcontent
    obtain ⟨v, -, hv, hvpair⟩ := mem_sourceHistory.1 (Lib.mem_of_mem_adjacent hpair).1
    obtain ⟨w, -, hw, hwpair⟩ := mem_sourceHistory.1 (Lib.mem_of_mem_adjacent hpair').1
    rw [← hvpair, ← hwpair] at hfirst
    exact hne (hv.symm.trans ((IncidentObservation.withoutTime_eq hfirst).1.trans hw))

/-! ## The order of the observations -/

variable {S' : List VerifiedCheckpointGossipObservation}

theorem sourceHistory_congr (hlaw : codec.Lawful) (hsep : ToldApart codec origin S)
    (hperm : S.Perm S') (source : String) :
    sourceHistory codec S source = sourceHistory codec S' source := by
  have htrans := transCmp_history hlaw
  refine Lib.sortBy_eq_of_perm ((hperm.filter _).map _) fun o ho p hp heq => ?_
  obtain ⟨v, hv, rfl⟩ := List.mem_map.1 ho
  obtain ⟨w, hw, rfl⟩ := List.mem_map.1 hp
  rw [List.mem_filter, decide_eq_true_eq] at hv hw
  obtain ⟨htime, hhash⟩ := Ordering.then_eq_eq.1 heq
  have hnote := hsep.hashes v hv.1 w hw.1 hhash
  obtain ⟨hsize, hroot⟩ := hsep.trees v hv.1 w hw.1 hnote
  obtain ⟨⟨source, time, hash, size, root⟩, _, _⟩ := v
  obtain ⟨⟨source', time', hash', size', root'⟩, _, _⟩ := w
  obtain rfl : source' = source := hw.2.trans hv.2.symm
  obtain rfl : time = time' := Nat.compare_eq_eq.1 htime
  obtain rfl : hash = hash' := hnote
  obtain rfl : size = size' := hsize
  obtain rfl : root = root' := hroot
  rfl

theorem mem_found_congr (hlaw : codec.Lawful) (hsep : ToldApart codec origin S)
    (hperm : S.Perm S') {c : CheckpointGossipIncident} :
    c ∈ foundIncidents H codec S ↔ c ∈ foundIncidents H codec S' := by
  have hsep' := hsep.subset hperm.symm.subset
  rw [foundIncidents_eq hsep, foundIncidents_eq hsep', List.mem_append, List.mem_append,
    mem_splits_iff hlaw hsep, mem_splits_iff hlaw hsep', mem_rollbacks, mem_rollbacks]
  simp only [hperm.mem_iff, (hperm.map _).mem_iff, sourceHistory_congr hlaw hsep hperm]

theorem kind_of_split (h : comparePair v w = .split kind) : kind ≠ .sourceRollback := by
  rintro rfl
  unfold comparePair at h
  split at h
  · cases h
  split at h
  · split at h <;> cases h
  split at h
  · dsimp only at h
    split at h <;> cases h
  · cases h

theorem earliestFirst_found (hlaw : codec.Lawful) (hsep : ToldApart codec origin S)
    (hsorted : S.Pairwise fun v w => Before codec v.toIncidentObservation w.toIncidentObservation) :
    EarliestFirst CheckpointGossipIncident.content CheckpointGossipIncident.times
      (foundIncidents H codec S) := by
  rw [foundIncidents_eq hsep]
  refine (earliestFirst_splits hlaw hsep hsorted).append (earliestFirst_rollbacks hlaw) ?_
  intro c hc first hfirst
  have hcontent : first.content = c.content := by simpa using List.find?_some hfirst
  obtain ⟨v, w, kind, -, hverdict, rfl⟩ := mem_splits.1 (List.mem_of_find?_eq_some hfirst)
  obtain ⟨_, _, pair, _, hc⟩ := mem_rollbacks.1 hc
  obtain rfl := rollbackOf_eq_some hc
  exact absurd (congrArg IncidentContent.kind hcontent) (kind_of_split hverdict)

theorem incidentId_found {c : CheckpointGossipIncident} (hsep : ToldApart codec origin S)
    (h : c ∈ foundIncidents H codec S) :
    c.incidentId = sha256Ref (H.sha256 (codec.canonicalize c.content)) := by
  rw [foundIncidents_eq hsep, List.mem_append] at h
  rcases h with h | h
  · obtain ⟨v, w, kind, -, -, rfl⟩ := mem_splits.1 h
    exact incidentId_incident
  · obtain ⟨_, _, pair, _, h⟩ := mem_rollbacks.1 h
    obtain rfl := rollbackOf_eq_some h
    exact incidentId_incident

/-- Where ids tell contents apart, the same incidents are kept. -/
theorem mem_firsts_found_congr (hlaw : codec.Lawful) (hsep : ToldApart codec origin S)
    (hperm : S.Perm S')
    (hsorted : S.Pairwise fun v w => Before codec v.toIncidentObservation w.toIncidentObservation)
    (hsorted' : S'.Pairwise fun v w => Before codec v.toIncidentObservation w.toIncidentObservation)
    (hids : ∀ c ∈ foundIncidents H codec S, ∀ c' ∈ foundIncidents H codec S,
      c.incidentId = c'.incidentId → c.content = c'.content) {c : CheckpointGossipIncident} :
    c ∈ firsts (·.incidentId) (foundIncidents H codec S) ↔
      c ∈ firsts (·.incidentId) (foundIncidents H codec S') := by
  have hsep' := hsep.subset hperm.symm.subset
  have hsame : ∀ c, c ∈ foundIncidents H codec S ↔ c ∈ foundIncidents H codec S' :=
    fun c => mem_found_congr hlaw hsep hperm
  have hkey : ∀ c ∈ foundIncidents H codec S, ∀ c' ∈ foundIncidents H codec S,
      (c.content = c'.content ↔ c.incidentId = c'.incidentId) := by
    intro c hc c' hc'
    refine ⟨fun heq => ?_, hids c hc c' hc'⟩
    rw [incidentId_found hsep hc, incidentId_found hsep hc', heq]
  refine Lib.mem_firsts_congr hsame ((earliestFirst_found hlaw hsep hsorted).congr_key hkey)
    ((earliestFirst_found hlaw hsep' hsorted').congr_key fun c hc c' hc' => ?_) ?_
  · exact hkey c ((hsame c).2 hc) c' ((hsame c').2 hc')
  · exact fun c hc c' hc' hid htimes => eq_of_content_times hid (hids c hc c' hc' hid) htimes

end Order

/-! ## Hashes tell apart what is hashed -/

/-- The inputs of SHA-256: the notes, the incidents, and the nodes over the leaf hashes. -/
def gossipInputs (H : Hash) (codec : GossipCodec) (observations : List CheckpointGossipObservation)
    (verified : List VerifiedCheckpointGossipObservation) : List Bytes :=
  observations.map (fun o => utf8 o.checkpointNote) ++
    (foundIncidents H codec verified).map (fun c => codec.canonicalize c.content) ++
      verified.flatMap fun v =>
        H.nodeInputs (leafHashAt (v.leafHashes.getD [])) 0 (v.leafHashes.getD []).length

/-- Different incidents have different canonical forms. -/
def CanonicalForms (codec : GossipCodec) (found : List CheckpointGossipIncident) : Prop :=
  ∀ c ∈ found, ∀ c' ∈ found, codec.canonicalize c.content = codec.canonicalize c'.content →
    c.content = c'.content

theorem leafHashes_inj {inputs l l' : List Bytes} (hcf : H.CollisionFree inputs)
    {view : CheckpointView} (hcar : Carries H l view) (hcar' : Carries H l' view)
    (hpos : 1 ≤ view.treeSize) (hall : ∀ hash ∈ l, hash.length = 32)
    (hall' : ∀ hash ∈ l', hash.length = 32)
    (hin : H.nodeInputs (leafHashAt l) 0 l.length ⊆ inputs)
    (hin' : H.nodeInputs (leafHashAt l') 0 l'.length ⊆ inputs) : l = l' := by
  have hlength := hcar.length_eq.trans hcar'.length_eq.symm
  have hne : l ≠ [] := List.ne_nil_of_length_pos (by have := hcar.length_eq; omega)
  have hne' : l' ≠ [] := List.ne_nil_of_length_pos (by have := hcar'.length_eq; omega)
  have hroot := hcar.root_eq.trans hcar'.root_eq.symm
  rw [treeHash_of_ne_nil H hne, treeHash_of_ne_nil H hne', ← hlength] at hroot
  rw [← hlength] at hin'
  have hat := H.mth_inj hcf (fun i hi => ?_) (fun i hi => ?_) hin hin' hroot
  · refine List.ext_getElem hlength fun i hi hi' => ?_
    have heq := hat i hi
    rwa [leafHashAt_of_lt hi, leafHashAt_of_lt hi'] at heq
  · rw [leafHashAt_of_lt hi]
    exact hall _ (List.getElem_mem hi)
  · rw [leafHashAt_of_lt (hlength ▸ hi)]
    exact hall' _ (List.getElem_mem (hlength ▸ hi))

theorem mem_verifiedOf : v ∈ verifiedOf H codec ed buffers operatorKey observations ↔
    ∃ observation ∈ observations, ∃ checkpoint,
      VerifiesAs H ed buffers operatorKey observation checkpoint v := by
  rw [verifiedOf, mem_verifiedObservations]
  refine exists_congr fun observation => and_congr_right fun _ => ⟨verifyObservation_ok, ?_⟩
  intro h
  obtain ⟨checkpoint, h⟩ := h
  exact h.verified

theorem toldApart_verifiedOf (hlaw : codec.Lawful) (hcf : H.CollisionFree (gossipInputs H codec
      observations (verifiedOf H codec ed buffers operatorKey observations))) :
    ToldApart codec operatorKey.name
      (verifiedOf H codec ed buffers operatorKey observations) := by
  have hnote : ∀ a ∈ observations, ∀ b ∈ observations, ∀ ca cb v w,
      VerifiesAs H ed buffers operatorKey a ca v → VerifiesAs H ed buffers operatorKey b cb w →
        v.checkpointHash = w.checkpointHash → ca = cb := by
    intro a ha b hb ca cb v w hva hwb heq
    rw [hva.note, hwb.note, hashText, hashText] at heq
    have hin : ∀ o ∈ observations, utf8 o.checkpointNote ∈ gossipInputs H codec observations
        (verifiedOf H codec ed buffers operatorKey observations) := fun o ho =>
      List.mem_append_left _ (List.mem_append_left _ (List.mem_map.2 ⟨o, ho, rfl⟩))
    have htext := utf8_inj (hcf _ (hin a ha) _ (hin b hb) (sha256Ref_inj heq))
    have hoperator := hva.operator
    rw [htext, hwb.operator] at hoperator
    exact (Except.ok.inj hoperator).symm
  refine ⟨fun v hv => ?_, fun v hv w hw heq => ?_, fun v hv w hw heq => ?_,
    fun v hv w hw heq l hl l' hl' => ?_⟩
  all_goals obtain ⟨a, ha, ca, hva⟩ := mem_verifiedOf.1 hv
  · exact hva.origin
  all_goals obtain ⟨b, hb, cb, hwb⟩ := mem_verifiedOf.1 hw
  · rw [hva.note, hwb.note] at heq ⊢
    exact hlaw.hashes _ _ heq
  · obtain rfl := hnote a ha b hb ca cb v w hva hwb heq
    exact ⟨hva.treeSize.trans hwb.treeSize.symm, hva.root.trans hwb.root.symm⟩
  · obtain rfl := hnote a ha b hb ca cb v w hva hwb heq
    obtain ⟨hcar, hall⟩ := hva.leafHashes l hl
    obtain ⟨hcar', hall'⟩ := hwb.leafHashes l' hl'
    have hwf := (verifyOperatorCheckpoint_ok hva.operator).2
    have hin : ∀ v ∈ verifiedOf H codec ed buffers operatorKey observations, ∀ l ∈ v.leafHashes,
        H.nodeInputs (leafHashAt l) 0 l.length ⊆ gossipInputs H codec observations
          (verifiedOf H codec ed buffers operatorKey observations) := by
      intro v hv l hl x hx
      refine List.mem_append_right _ (List.mem_flatMap.2 ⟨v, hv, ?_⟩)
      rw [Option.mem_def.1 hl]
      exact hx
    exact leafHashes_inj hcf hcar hcar' hwf.one_le_treeSize hall hall' (hin v hv l hl)
      (hin w hw l' hl')

theorem sorted_verifiedOf (hlaw : codec.Lawful) :
    (verifiedOf H codec ed buffers operatorKey observations).Pairwise
      fun v w => Before codec v.toIncidentObservation w.toIncidentObservation := by
  have htrans := transCmp_observation hlaw
  have hlocale := hlaw.trans
  refine (Lib.sortBy_pairwise _).imp_of_mem fun {v w} hv hw hle => ?_
  obtain ⟨_, _, _, hv⟩ := mem_verifiedOf.1 hv
  obtain ⟨_, _, _, hw⟩ := mem_verifiedOf.1 hw
  have hself : codec.localeCompare operatorKey.name operatorKey.name = .eq :=
    Std.ReflCmp.compare_self
  rw [compareObservation, hv.origin, hw.origin, hself] at hle
  exact hle

/-! ## Another order -/

variable {observations' : List CheckpointGossipObservation}

theorem verifiedOf_perm (h : observations.Perm observations') :
    (verifiedOf H codec ed buffers operatorKey observations).Perm
      (verifiedOf H codec ed buffers operatorKey observations') :=
  (Lib.sortBy_perm _).trans (((h.map _).filterMap _).trans (Lib.sortBy_perm _).symm)

theorem mem_incidents {c : CheckpointGossipIncident} :
    c ∈ (analyzeCheckpointGossip H codec ed buffers observations operatorKey).incidents ↔
      c ∈ firsts (·.incidentId)
        (foundIncidents H codec (verifiedOf H codec ed buffers operatorKey observations)) := by
  unfold analyzeCheckpointGossip
  exact Lib.mem_sortBy

theorem uncompared_iff : ((pairs S).map fun pair => comparePair pair.1 pair.2).count .uncompared > 0
    ↔ ∃ v ∈ S, ∃ w ∈ S, comparePair v w = .uncompared := by
  rw [gt_iff_lt, List.count_pos_iff, List.mem_map]
  constructor
  · intro h
    obtain ⟨⟨v, w⟩, hpair, hverdict⟩ := h
    obtain ⟨hv, hw⟩ := Lib.mem_of_mem_pairs hpair
    exact ⟨v, hv, w, hw, hverdict⟩
  · intro h
    obtain ⟨v, hv, w, hw, hverdict⟩ := h
    rcases exists_pair hv hw (by rw [hverdict]; exact fun h => nomatch h) with hvw | hwv
    · exact ⟨_, hvw, hverdict⟩
    · exact ⟨_, hwv, (comparePair_comm w v).trans hverdict⟩

theorem status_congr (h : observations.Perm observations')
    (hfound : foundIncidents H codec (verifiedOf H codec ed buffers operatorKey observations) = [] ↔
      foundIncidents H codec (verifiedOf H codec ed buffers operatorKey observations') = []) :
    (analyzeCheckpointGossip H codec ed buffers observations operatorKey).status =
      (analyzeCheckpointGossip H codec ed buffers observations' operatorKey).status := by
  have hverified := @verifiedOf_perm H codec ed buffers operatorKey _ _ h
  unfold analyzeCheckpointGossip
  refine if_congr (not_congr ?_) rfl (if_congr (not_congr ?_) rfl (if_congr ?_ rfl rfl))
  · exact Lib.firsts_eq_nil.trans (hfound.trans Lib.firsts_eq_nil.symm)
  · rw [← List.length_eq_zero_iff, ← List.length_eq_zero_iff, ((h.map _).filterMap _).length_eq]
  · refine uncompared_iff.trans (Iff.trans ?_ uncompared_iff.symm)
    refine exists_congr fun v => and_congr hverified.mem_iff (exists_congr fun w => ?_)
    exact and_congr_left' hverified.mem_iff

theorem consistent_of (hverified : ∀ o ∈ observations, ∃ v,
      verifyObservation H ed buffers operatorKey o = .ok v)
    (hfound : foundIncidents H codec (verifiedOf H codec ed buffers operatorKey observations) = [])
    (hcompared : ∀ v ∈ verifiedOf H codec ed buffers operatorKey observations,
      ∀ w ∈ verifiedOf H codec ed buffers operatorKey observations,
        comparePair v w ≠ .uncompared) :
    (analyzeCheckpointGossip H codec ed buffers observations operatorKey).status = .consistent := by
  unfold analyzeCheckpointGossip
  refine (if_neg (not_not.2 (Lib.firsts_eq_nil.2 hfound))).trans
    ((if_neg (not_not.2 ?_)).trans (if_neg fun h => ?_))
  · refine List.eq_nil_iff_forall_not_mem.2 fun issue hissue => ?_
    obtain ⟨result, hresult, hissue⟩ := List.mem_filterMap.1 hissue
    obtain ⟨o, ho, rfl⟩ := List.mem_map.1 hresult
    obtain ⟨v, hv⟩ := hverified o ho
    rw [hv] at hissue
    cases hissue
  · obtain ⟨v, hv, w, hw, hverdict⟩ := uncompared_iff.1 h
    exact hcompared v hv w hw hverdict

namespace GossipSample

open Sample (checkpoint checkpointBody checkpointLine logKey ofBase64 platform rootText)

def quoted (text : String) : String := "\"" ++ text ++ "\""

def kindText : CheckpointGossipIncidentKind → String
  | .sameSizeSplitView => "same_size_split_view"
  | .prefixSplitView => "prefix_split_view"
  | .sourceRollback => "source_rollback"

def observationText (o : String × String × ℕ × String) : String :=
  "\x7b\"checkpoint_hash\":" ++ quoted o.2.1 ++ ",\"root_hash_base64url\":" ++ quoted o.2.2.2 ++
    ",\"source_id\":" ++ quoted o.1 ++ ",\"tree_size\":" ++ toString o.2.2.1 ++ "\x7d"

/-- For texts without escapes. -/
def incidentText (c : IncidentContent) : String :=
  "\x7b\"kind\":" ++ quoted (kindText c.kind) ++ ",\"observations\":[" ++
    ",".intercalate (c.observations.map observationText) ++ "],\"origin\":" ++ quoted c.origin ++
      ",\"schema\":" ++ quoted c.schema ++ ",\"sources\":[" ++
        ",".intercalate (c.sources.map quoted) ++ "]\x7d"

def gossipCodec : GossipCodec := ⟨compare, fun c => utf8 (incidentText c)⟩

def seen (source : String) (time : ℕ) : CheckpointGossipObservation :=
  { sourceId := source, observedAtMs := .finite time, checkpointNote := checkpoint }

def parsed : ParsedCheckpointNote :=
  ⟨checkpointBody, "log.example", 3, ofBase64 rootText, [checkpointLine]⟩

def verifiedSeen (source : String) (time : ℕ) : VerifiedCheckpointGossipObservation where
  sourceId := source
  observedAtMs := time
  checkpointHash := hashText platform.hash checkpoint
  treeSize := 3
  rootHashBase64url := Atrib.base64urlEncode (ofBase64 rootText)
  origin := "log.example"
  leafHashes := none

theorem lawful : gossipCodec.Lawful where
  trans := inferInstanceAs (Std.TransCmp (compare : String → String → Ordering))
  hashes d d' h := by
    have hcompare : compare (sha256Ref d) (sha256Ref d') = .eq := h
    exact Std.LawfulEqCmp.eq_of_compare hcompare

theorem verifyObservation_seen {source : String} {time : ℕ} (hsource : ¬ (source = "" ∨
      source.toList.contains '\n' ∨ source.toList.contains '\r')) (htime : time ≤ 2 ^ 53 - 1) :
    verifyObservation platform.hash platform.ed platform.buffers logKey (seen source time) =
      .ok (verifiedSeen source time) := by
  have hindex : (seen source time).observedAtMs.safeIndex? = some time :=
    Lib.JsNumber.safeIndex?_natCast htime
  have hoperator : verifyOperatorCheckpoint platform.hash platform.ed platform.buffers
      (seen source time).checkpointNote logKey = .ok parsed := Sample.verifyOperatorCheckpoint_eq
  exact verifyObservation_of hsource hindex hoperator rfl

theorem verifies {source : String} {time : ℕ} (hsource : ¬ (source = "" ∨
      source.toList.contains '\n' ∨ source.toList.contains '\r')) (htime : time ≤ 2 ^ 53 - 1) :
    VerifiesAs platform.hash platform.ed platform.buffers logKey (seen source time) parsed
      (verifiedSeen source time) where
  verified := verifyObservation_seen hsource htime
  operator := Sample.verifyOperatorCheckpoint_eq
  note := rfl
  origin := rfl
  treeSize := rfl
  root := rfl
  leafHashes _ h := nomatch h

theorem verifiedOf_seen : verifiedOf platform.hash gossipCodec platform.ed platform.buffers logKey
    [seen "a.example" 1, seen "b.example" 2] =
      [verifiedSeen "a.example" 1, verifiedSeen "b.example" 2] := by
  rw [verifiedOf, List.map_cons, List.map_singleton, verifyObservation_seen (by decide) (by decide),
    verifyObservation_seen (by decide) (by decide)]
  exact List.mergeSort_of_pairwise (List.pairwise_pair.2 (by decide))

def observed : List CheckpointGossipObservation := [seen "a.example" 1, seen "b.example" 2]

theorem found_nil : foundIncidents platform.hash gossipCodec
    [verifiedSeen "a.example" 1, verifiedSeen "b.example" 2] = [] := by
  simp [foundIncidents, pairs, splitIncident, comparePair, histories, verifiedSeen, sortBy, adjacent,
    InsertionSet.ofList, Lib.InsertionSet.add]

theorem consistent_observed : (analyzeCheckpointGossip platform.hash gossipCodec platform.ed
    platform.buffers observed logKey).status = .consistent := by
  refine consistent_of ?_ ?_ ?_
  · intro o ho
    rcases List.mem_pair.1 ho with rfl | rfl
    · exact ⟨_, verifyObservation_seen (by decide) (by decide)⟩
    · exact ⟨_, verifyObservation_seen (by decide) (by decide)⟩
  · rw [observed, verifiedOf_seen]
    exact found_nil
  · rw [observed, verifiedOf_seen]
    intro v hv w hw
    rcases List.mem_pair.1 hv with rfl | rfl <;> rcases List.mem_pair.1 hw with rfl | rfl <;>
      simp [comparePair, verifiedSeen]

end GossipSample

end Atrib.Verify
