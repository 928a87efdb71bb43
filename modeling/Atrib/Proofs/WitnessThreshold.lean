import Atrib.Proofs.CheckpointNotes
import Mathlib.Algebra.BigOperators.Group.Finset.Basic

/-!
# Witnesses that count

A signature line counts for the entry of the list that has its name and key
identifier, the last one if there are several, and once. So what is counted are
entries: a key that is listed under two names can count twice, and one whose
entry has been taken by another key of the same name and identifier does not.
-/

namespace Atrib.Verify

open LogNode (computeKeyId)

section

variable {H : Hash} {ed : Ed25519} {buffers : Buffers} {body : String}
  {nowSeconds maxAgeSeconds futureSkewSeconds : ℚ}

variable (ed buffers body nowSeconds maxAgeSeconds futureSkewSeconds) in
/-- A fresh cosignature that is good for a key, under a name and a key identifier. -/
def cosigns (name : String) (keyId publicKey : Bytes) (line : String) : Bool :=
  match parseSignatureLine buffers line with
  | none => false
  | some parsed =>
      let timestamp := bigUint64OfBytes ((parsed.payload.drop 4).take 8)
      parsed.payload.length = 76 ∧ parsed.name = name ∧ parsed.payload.take 4 = keyId ∧
        timestamp ≤ MAX_SAFE_INTEGER ∧ (timestamp : ℚ) ≤ nowSeconds + futureSkewSeconds ∧
          nowSeconds - timestamp ≤ maxAgeSeconds ∧
            ed.verify true (parsed.payload.drop 12) (cosignatureInput body timestamp) publicKey

/-- `${name}:${keyId}` -/
def identityText (name : String) (keyId : Bytes) : String := name ++ ":" ++ hexEncode keyId

theorem identityText_inj {name name' : String} {keyId keyId' : Bytes} (hlen : keyId.length = 4)
    (hlen' : keyId'.length = 4) (h : identityText name keyId = identityText name' keyId') :
    name = name' ∧ keyId = keyId' := by
  have hcolon : ":".toList = [':'] := rfl
  have hchars := congrArg String.toList h
  simp only [identityText, String.toList_append, toList_hexEncode, hcolon] at hchars
  have hlength : (hexDigits keyId).length = (hexDigits keyId').length := by
    rw [length_hexDigits, length_hexDigits, hlen, hlen']
  obtain ⟨hname, hdigits⟩ := List.append_inj' hchars hlength
  refine ⟨String.toList_inj.1 (List.append_cancel_right hname), ?_⟩
  rw [← hexBytes_hexDigits keyId, hdigits, hexBytes_hexDigits]

theorem mem_of_lookup {l : List (String × Bytes)} {identity : String} {publicKey : Bytes}
    (h : l.lookup identity = some publicKey) : (identity, publicKey) ∈ l := by
  obtain ⟨before, after, rfl, -⟩ := List.lookup_eq_some_iff.1 h
  exact List.mem_append_right _ List.mem_cons_self

/-! ## A line -/

theorem cosigns_of_parse {line name : String} {parsed : ParsedSignatureLine}
    {keyId publicKey : Bytes} (h : parseSignatureLine buffers line = some parsed) :
    cosigns ed buffers body nowSeconds maxAgeSeconds futureSkewSeconds name keyId publicKey line =
        true ↔
      parsed.payload.length = 76 ∧ parsed.name = name ∧ parsed.payload.take 4 = keyId ∧
        bigUint64OfBytes ((parsed.payload.drop 4).take 8) ≤ MAX_SAFE_INTEGER ∧
        (bigUint64OfBytes ((parsed.payload.drop 4).take 8) : ℚ) ≤
          nowSeconds + futureSkewSeconds ∧
        nowSeconds - bigUint64OfBytes ((parsed.payload.drop 4).take 8) ≤ maxAgeSeconds ∧
        ed.verify true (parsed.payload.drop 12)
          (cosignatureInput body (bigUint64OfBytes ((parsed.payload.drop 4).take 8)))
            publicKey = true := by
  rw [cosigns, h]
  exact decide_eq_true_iff

theorem length_of_cosigns {line name : String} {keyId publicKey : Bytes}
    (h : cosigns ed buffers body nowSeconds maxAgeSeconds futureSkewSeconds name keyId publicKey
      line = true) : keyId.length = 4 := by
  cases hparsed : parseSignatureLine buffers line with
  | none => simp [cosigns, hparsed] at h
  | some parsed =>
      obtain ⟨hlength, -, rfl, -⟩ := (cosigns_of_parse hparsed).1 h
      rw [List.length_take, hlength]
      rfl

/-- The entry that a line counts for. -/
def Counts (ed : Ed25519) (buffers : Buffers) (body : String)
    (nowSeconds maxAgeSeconds futureSkewSeconds : ℚ) (trusted : List (String × Bytes))
    (line identity : String) : Prop :=
  ∃ name keyId publicKey, identity = identityText name keyId ∧
    trusted.reverse.lookup identity = some publicKey ∧
      cosigns ed buffers body nowSeconds maxAgeSeconds futureSkewSeconds name keyId publicKey
        line = true

/-- A round adds what the line counts for. -/
theorem countWitness_spec {trusted : List (String × Bytes)}
    (hkeys : ∀ e ∈ trusted, e.2.length = 32)
    (state : List WitnessCosignatureVerification × List String) (line : String) :
    ∃ state', countWitness ed buffers trusted body nowSeconds maxAgeSeconds futureSkewSeconds
        state line = .ok state' ∧ (state.2.Nodup → state'.2.Nodup) ∧
      ∀ identity, identity ∈ state'.2 ↔ identity ∈ state.2 ∨ Counts ed buffers body nowSeconds
        maxAgeSeconds futureSkewSeconds trusted line identity := by
  -- a line that is refused counts for no entry that has not been counted
  have hrefused : ∀ state' : List WitnessCosignatureVerification × List String,
      state'.2 = state.2 → (∀ identity, Counts ed buffers body nowSeconds maxAgeSeconds
        futureSkewSeconds trusted line identity → identity ∈ state.2) →
      (state.2.Nodup → state'.2.Nodup) ∧ ∀ identity, identity ∈ state'.2 ↔
        identity ∈ state.2 ∨ Counts ed buffers body nowSeconds maxAgeSeconds futureSkewSeconds
          trusted line identity := by
    intro state' heq hcounts
    rw [heq]
    exact ⟨id, fun identity => ⟨.inl, fun h => h.elim id (hcounts identity)⟩⟩
  unfold countWitness
  cases hparsed : parseSignatureLine buffers line with
  | none =>
      refine ⟨state, rfl, hrefused state rfl ?_⟩
      rintro identity ⟨name, keyId, publicKey, -, -, hcosigns⟩
      simp [cosigns, hparsed] at hcosigns
  | some parsed =>
      dsimp only
      generalize hidentity : parsed.name ++ ":" ++ hexEncode (parsed.payload.take 4) = own
      generalize htimestamp : bigUint64OfBytes ((parsed.payload.drop 4).take 8) = timestamp
      -- what the line counts for, in terms of its parts
      have hcounts : ∀ identity, Counts ed buffers body nowSeconds maxAgeSeconds futureSkewSeconds
          trusted line identity ↔ identity = own ∧ parsed.payload.length = 76 ∧
            timestamp ≤ MAX_SAFE_INTEGER ∧ (timestamp : ℚ) ≤ nowSeconds + futureSkewSeconds ∧
              nowSeconds - timestamp ≤ maxAgeSeconds ∧ ∃ publicKey,
                trusted.reverse.lookup own = some publicKey ∧
                  ed.verify true (parsed.payload.drop 12) (cosignatureInput body timestamp)
                    publicKey = true := by
        intro identity
        subst hidentity htimestamp
        constructor
        · rintro ⟨name, keyId, publicKey, rfl, hlookup, hcosigns⟩
          obtain ⟨hlength, rfl, rfl, hsafe, hfuture, hstale, hverify⟩ :=
            (cosigns_of_parse hparsed).1 hcosigns
          exact ⟨rfl, hlength, hsafe, hfuture, hstale, publicKey, hlookup, hverify⟩
        · rintro ⟨rfl, hlength, hsafe, hfuture, hstale, publicKey, hlookup, hverify⟩
          exact ⟨_, _, publicKey, rfl, hlookup, (cosigns_of_parse hparsed).2
            ⟨hlength, rfl, rfl, hsafe, hfuture, hstale, hverify⟩⟩
      split
      · next hlength =>
          refine ⟨state, rfl, hrefused state rfl fun identity h => ?_⟩
          exact absurd ((hcounts identity).1 h).2.1 hlength
      · next hlength =>
          split
          · next hlookup =>
              refine ⟨_, rfl, hrefused _ rfl fun identity h => ?_⟩
              obtain ⟨-, -, -, -, -, publicKey, hsome, -⟩ := (hcounts identity).1 h
              rw [hlookup] at hsome
              cases hsome
          · next publicKey hlookup =>
              split
              · next hsafe =>
                  refine ⟨_, rfl, hrefused _ rfl fun identity h => ?_⟩
                  exact absurd ((hcounts identity).1 h).2.2.1 (not_le.2 hsafe)
              · next hsafe =>
                  split
                  · next hfuture =>
                      refine ⟨_, rfl, hrefused _ rfl fun identity h => ?_⟩
                      exact absurd ((hcounts identity).1 h).2.2.2.1 (not_le.2 hfuture)
                  · next hfuture =>
                      split
                      · next hstale =>
                          refine ⟨_, rfl, hrefused _ rfl fun identity h => ?_⟩
                          exact absurd ((hcounts identity).1 h).2.2.2.2.1 (not_le.2 hstale)
                      · next hstale =>
                          split
                          · next hcounted =>
                              refine ⟨_, rfl, hrefused _ rfl fun identity h => ?_⟩
                              rw [((hcounts identity).1 h).1]
                              exact List.contains_iff_mem.1 hcounted
                          · next hcounted =>
                              have hsigned : (parsed.payload.drop 12).length = 64 := by
                                rw [List.length_drop]
                                omega
                              have hkey : publicKey.length = 32 :=
                                hkeys _ (List.mem_reverse.1 (mem_of_lookup hlookup))
                              simp only [Ed25519.verifyAsync, hsigned, hkey, ne_eq, not_true,
                                if_false, bind, Except.bind, pure, Except.pure]
                              split
                              · next hverify =>
                                  refine ⟨_, rfl, fun hnodup => ?_, fun identity => ?_⟩
                                  · refine List.nodup_append.2 ⟨hnodup, by simp, ?_⟩
                                    rintro a ha b hb rfl
                                    rw [List.mem_singleton.1 hb] at ha
                                    exact hcounted (List.contains_iff_mem.2 ha)
                                  · rw [List.mem_append, List.mem_singleton, hcounts identity]
                                    refine or_congr_right ⟨fun h => ?_, And.left⟩
                                    exact ⟨h, not_not.1 hlength, not_lt.1 hsafe, not_lt.1 hfuture,
                                      not_lt.1 hstale, publicKey, hlookup, hverify⟩
                              · next hverify =>
                                  refine ⟨_, rfl, hrefused _ rfl fun identity h => ?_⟩
                                  obtain ⟨-, -, -, -, -, publicKey', hlookup', hverify'⟩ :=
                                    (hcounts identity).1 h
                                  rw [hlookup] at hlookup'
                                  cases hlookup'
                                  exact absurd hverify' hverify

theorem countWitnesses_spec {trusted : List (String × Bytes)}
    (hkeys : ∀ e ∈ trusted, e.2.length = 32) (lines : List String) :
    ∀ state : List WitnessCosignatureVerification × List String, ∃ state',
      lines.foldlM (countWitness ed buffers trusted body nowSeconds maxAgeSeconds
        futureSkewSeconds) state = .ok state' ∧ (state.2.Nodup → state'.2.Nodup) ∧
      ∀ identity, identity ∈ state'.2 ↔ identity ∈ state.2 ∨ ∃ line ∈ lines, Counts ed buffers
        body nowSeconds maxAgeSeconds futureSkewSeconds trusted line identity := by
  induction lines with
  | nil => exact fun state => ⟨state, rfl, id, fun identity => by simp⟩
  | cons line lines ih =>
      intro state
      obtain ⟨next, hnext, hnodup, hmem⟩ := @countWitness_spec ed buffers body nowSeconds
        maxAgeSeconds futureSkewSeconds _ hkeys state line
      obtain ⟨last, hlast, hnodup', hmem'⟩ := ih next
      refine ⟨last, ?_, hnodup' ∘ hnodup, fun identity => ?_⟩
      · rw [List.foldlM_cons, hnext]
        exact hlast
      · rw [hmem', hmem]
        simp only [List.mem_cons, exists_eq_or_imp, or_assoc]

/-! ## The keys that are listed -/

/-- The names and keys of the list. -/
def trustedWitnesses (buffers : Buffers) (keys : List TrustedCheckpointKey) :
    List (String × Bytes) :=
  keys.filterMap fun key => (normalizePublicKey buffers key.publicKey).toOption.map (key.name, ·)

/-- The identifier of the key of a witness. -/
def keyIdOf (H : Hash) (witness : String × Bytes) : Bytes := computeKeyId H witness.1 witness.2

def identityOf (H : Hash) (witness : String × Bytes) : String :=
  identityText witness.1 (keyIdOf H witness)

theorem length_keyIdOf (H : Hash) (witness : String × Bytes) : (keyIdOf H witness).length = 4 := by
  rw [keyIdOf, computeKeyId, List.length_take, H.length_sha256]
  rfl

theorem length_of_normalize {key : PublicKey} {publicKey : Bytes}
    (h : normalizePublicKey buffers key = .ok publicKey) : publicKey.length = 32 := by
  unfold normalizePublicKey at h
  split at h
  · split at h
    · cases h
    · next hlength =>
        cases h
        exact not_not.1 hlength
  · split at h
    · cases h
    · dsimp only at h
      split at h
      · cases h
      · next hlength =>
          cases h
          exact not_not.1 hlength

theorem witnessIdentity_ok {key : TrustedCheckpointKey} {entry : String × Bytes}
    (h : witnessIdentity H buffers key = .ok entry) :
    ∃ publicKey, normalizePublicKey buffers key.publicKey = .ok publicKey ∧
      entry = (identityOf H (key.name, publicKey), publicKey) := by
  unfold witnessIdentity at h
  cases hkey : normalizePublicKey buffers key.publicKey with
  | error message =>
      rw [hkey] at h
      cases h
  | ok publicKey =>
      rw [hkey] at h
      simp only [bind, Except.bind, pure, Except.pure, checkpointKeyId] at h
      split at h
      · cases h
      · next keyId hid =>
          split at hid
          · cases hid
          · split at hid
            · cases hid
            · cases hid
              cases h
              exact ⟨publicKey, rfl, rfl⟩

theorem trusted_eq {keys : List TrustedCheckpointKey} {trusted : List (String × Bytes)}
    (h : keys.mapM (witnessIdentity H buffers) = .ok trusted) :
    trusted = (trustedWitnesses buffers keys).map (fun w => (identityOf H w, w.2)) ∧
      ∀ w ∈ trustedWitnesses buffers keys, w.2.length = 32 := by
  induction keys generalizing trusted with
  | nil =>
      cases h
      exact ⟨rfl, by simp [trustedWitnesses]⟩
  | cons key keys ih =>
      rw [List.mapM_cons] at h
      cases hentry : witnessIdentity H buffers key with
      | error message =>
          rw [hentry] at h
          cases h
      | ok entry =>
          rw [hentry] at h
          cases hrest : keys.mapM (witnessIdentity H buffers) with
          | error message =>
              rw [hrest] at h
              cases h
          | ok rest =>
              rw [hrest] at h
              cases h
              obtain ⟨publicKey, hkey, rfl⟩ := witnessIdentity_ok hentry
              obtain ⟨rfl, hlengths⟩ := ih hrest
              have hcons : trustedWitnesses buffers (key :: keys) =
                  (key.name, publicKey) :: trustedWitnesses buffers keys := by
                simp [trustedWitnesses, hkey, Except.toOption]
              rw [hcons]
              exact ⟨rfl, List.forall_mem_cons.2 ⟨length_of_normalize hkey, hlengths⟩⟩

/-! ## What is counted -/

/-- The last entry of a name and a key identifier has the key. -/
def inForce (H : Hash) (witnesses : List (String × Bytes)) (witness : String × Bytes) : Bool :=
  (witnesses.reverse.find? fun w => w.1 = witness.1 ∧ keyIdOf H w = keyIdOf H witness).map
    Prod.snd = some witness.2

variable (H ed buffers body nowSeconds maxAgeSeconds futureSkewSeconds) in
/-- The witness has a good line. -/
def hasCosigned (lines : List String) (witness : String × Bytes) : Bool :=
  lines.any (cosigns ed buffers body nowSeconds maxAgeSeconds futureSkewSeconds witness.1
    (keyIdOf H witness) witness.2)

variable (H ed buffers body nowSeconds maxAgeSeconds futureSkewSeconds) in
/-- The witnesses with a good line. -/
def cosigners (witnesses : List (String × Bytes)) (lines : List String) :
    Finset (String × Bytes) :=
  (witnesses.filter (hasCosigned H ed buffers body nowSeconds maxAgeSeconds futureSkewSeconds
    lines)).toFinset

theorem lookup_map {α : Type} (g : α → String) (k : α → Bytes) (identity : String) (l : List α) :
    (l.map fun v => (g v, k v)).lookup identity = (l.find? fun v => g v = identity).map k := by
  induction l with
  | nil => rfl
  | cons v l ih =>
      rw [List.map_cons, List.lookup_cons, List.find?_cons]
      by_cases hv : g v = identity
      · simp [hv]
      · have hne : (identity == g v) = false := beq_eq_false_iff_ne.2 (Ne.symm hv)
        simp [hv, hne, ih]

theorem identityOf_eq_iff {v w : String × Bytes} :
    identityOf H v = identityOf H w ↔ v.1 = w.1 ∧ keyIdOf H v = keyIdOf H w := by
  constructor
  · exact identityText_inj (length_keyIdOf H v) (length_keyIdOf H w)
  · rintro ⟨hname, hid⟩
    rw [identityOf, hname, hid]
    rfl

theorem lookup_trusted (witnesses : List (String × Bytes)) (identity : String) :
    (witnesses.map fun w => (identityOf H w, w.2)).reverse.lookup identity =
      (witnesses.reverse.find? fun w => identityOf H w = identity).map Prod.snd := by
  rw [← List.map_reverse, lookup_map]

theorem lookup_of_inForce {witnesses : List (String × Bytes)} {w : String × Bytes} :
    inForce H witnesses w = true ↔
      (witnesses.map fun w => (identityOf H w, w.2)).reverse.lookup (identityOf H w) =
        some w.2 := by
  rw [lookup_trusted, inForce, decide_eq_true_iff]
  simp only [identityOf_eq_iff]

/-- The entries counted, each once. -/
theorem counted_card {witnesses : List (String × Bytes)} {lines counted : List String}
    (hnodup : counted.Nodup)
    (hmem : ∀ identity, identity ∈ counted ↔ ∃ line ∈ lines, Counts ed buffers body nowSeconds
      maxAgeSeconds futureSkewSeconds (witnesses.map fun w => (identityOf H w, w.2)) line
        identity) :
    counted.length = ((cosigners H ed buffers body nowSeconds maxAgeSeconds futureSkewSeconds
      witnesses lines).filter fun w => inForce H witnesses w).card := by
  have himage : counted.toFinset = ((cosigners H ed buffers body nowSeconds maxAgeSeconds
      futureSkewSeconds witnesses lines).filter fun w => inForce H witnesses w).image
        (identityOf H) := by
    ext identity
    rw [List.mem_toFinset, hmem, Finset.mem_image]
    constructor
    · rintro ⟨line, hline, name, keyId, publicKey, rfl, hlookup, hcosigns⟩
      have hlookup' := hlookup
      rw [lookup_trusted] at hlookup'
      obtain ⟨v, hv, rfl⟩ := Option.map_eq_some_iff.1 hlookup'
      have hidentity : identityOf H v = identityText name keyId := by
        simpa using List.find?_some hv
      obtain ⟨rfl, rfl⟩ := identityText_inj (length_keyIdOf H v) (length_of_cosigns hcosigns)
        hidentity
      have hforce : inForce H witnesses v = true := lookup_of_inForce.2 hlookup
      refine ⟨v, ?_, rfl⟩
      simp only [Finset.mem_filter, cosigners, List.mem_toFinset, List.mem_filter]
      refine ⟨⟨List.mem_reverse.1 (List.mem_of_find?_eq_some hv), ?_⟩, hforce⟩
      exact List.any_eq_true.2 ⟨line, hline, hcosigns⟩
    · rintro ⟨w, hw, rfl⟩
      simp only [Finset.mem_filter, cosigners, List.mem_toFinset, List.mem_filter] at hw
      obtain ⟨⟨-, hgood⟩, hforce⟩ := hw
      obtain ⟨line, hline, hcosigns⟩ := List.any_eq_true.1 hgood
      exact ⟨line, hline, _, _, _, rfl, lookup_of_inForce.1 hforce, hcosigns⟩
  have hinj : Set.InjOn (identityOf H) ((cosigners H ed buffers body nowSeconds maxAgeSeconds
      futureSkewSeconds witnesses lines).filter fun w => inForce H witnesses w) := by
    intro v hv w hw heq
    have hforce := lookup_of_inForce.1 (Finset.mem_filter.1 hv).2
    rw [heq, lookup_of_inForce.1 (Finset.mem_filter.1 hw).2] at hforce
    exact Prod.ext (identityOf_eq_iff.1 heq).1 (Option.some.inj hforce).symm
  rw [← List.toFinset_card_of_nodup hnodup, himage, Finset.card_image_of_injOn hinj]

/-! ## Keys and entries -/

/-- The witnesses that count, of those with a good line. -/
def countedWitnesses (H : Hash) (witnesses : List (String × Bytes))
    (good : Finset (String × Bytes)) : Finset (String × Bytes) :=
  good.filter fun w => inForce H witnesses w

/-- How many names more than one the keys count under. -/
def furtherNames (H : Hash) (witnesses : List (String × Bytes)) (good : Finset (String × Bytes)) :
    ℕ :=
  ∑ publicKey ∈ (countedWitnesses H witnesses good).image Prod.snd,
    (((countedWitnesses H witnesses good).filter fun w => w.2 = publicKey).card - 1)

/-- The keys with a good line that do not count under any name. -/
def hiddenKeys (H : Hash) (witnesses : List (String × Bytes)) (good : Finset (String × Bytes)) :
    Finset Bytes :=
  good.image Prod.snd \ (countedWitnesses H witnesses good).image Prod.snd

theorem card_counted (H : Hash) (witnesses : List (String × Bytes))
    (good : Finset (String × Bytes)) :
    (countedWitnesses H witnesses good).card + (hiddenKeys H witnesses good).card =
      (good.image Prod.snd).card + furtherNames H witnesses good := by
  have hsub : (countedWitnesses H witnesses good).image Prod.snd ⊆ good.image Prod.snd :=
    Finset.image_subset_image (Finset.filter_subset _ _)
  have hkeys : (hiddenKeys H witnesses good).card +
      ((countedWitnesses H witnesses good).image Prod.snd).card = (good.image Prod.snd).card :=
    Finset.card_sdiff_add_card_eq_card hsub
  have hnames : (countedWitnesses H witnesses good).card =
      ((countedWitnesses H witnesses good).image Prod.snd).card +
        furtherNames H witnesses good := by
    rw [Finset.card_eq_sum_card_image Prod.snd, furtherNames, Finset.card_eq_sum_ones,
      ← Finset.sum_add_distrib]
    refine Finset.sum_congr rfl fun publicKey hkey => ?_
    obtain ⟨w, hw, rfl⟩ := Finset.mem_image.1 hkey
    have hpos : 0 < ((countedWitnesses H witnesses good).filter fun v => v.2 = w.2).card :=
      Finset.card_pos.2 ⟨w, Finset.mem_filter.2 ⟨hw, rfl⟩⟩
    omega
  omega

/-- No two keys of the list have one name and one key identifier. -/
def KeyIdsApart (H : Hash) (witnesses : List (String × Bytes)) : Prop :=
  ∀ v ∈ witnesses, ∀ w ∈ witnesses, v.1 = w.1 → keyIdOf H v = keyIdOf H w → v.2 = w.2

theorem inForce_of_apart {witnesses : List (String × Bytes)} (h : KeyIdsApart H witnesses)
    {w : String × Bytes} (hw : w ∈ witnesses) : inForce H witnesses w = true := by
  rw [inForce, decide_eq_true_iff]
  cases hfind : witnesses.reverse.find? fun v => v.1 = w.1 ∧ keyIdOf H v = keyIdOf H w with
  | none =>
      have hnone := List.find?_eq_none.1 hfind w (List.mem_reverse.2 hw)
      simp at hnone
  | some v =>
      obtain ⟨hname, hid⟩ := by simpa using List.find?_some hfind
      have hv := List.mem_reverse.1 (List.mem_of_find?_eq_some hfind)
      exact congrArg some (h v hv w hw hname hid)

end

/-! ## The threshold -/

/-- The trusted witnesses with a good line in a note. -/
def cosignersOf (H : Hash) (ed : Ed25519) (buffers : Buffers) (currentSeconds : ℚ)
    (options : VerifyWitnessThresholdOptions) (checkpoint : ParsedCheckpointNote) :
    Finset (String × Bytes) :=
  cosigners H ed buffers checkpoint.body (options.nowSeconds.getD currentSeconds)
    (options.maxAgeSeconds.getD (24 * 60 * 60)) (options.futureSkewSeconds.getD (5 * 60))
    (trustedWitnesses buffers options.witnessKeys) checkpoint.signatureLines

theorem validWitnesses_eq {H : Hash} {ed : Ed25519} {buffers : Buffers} {currentSeconds : ℚ}
    {note : String} {options : VerifyWitnessThresholdOptions} {checkpoint : ParsedCheckpointNote}
    {result : WitnessThresholdVerification}
    (hoperator : verifyOperatorCheckpoint H ed buffers note options.operatorKey = .ok checkpoint)
    (hresult : verifyCheckpointWitnessThreshold H ed buffers currentSeconds note options =
      .ok result) :
    result.validWitnesses = (countedWitnesses H (trustedWitnesses buffers options.witnessKeys)
      (cosignersOf H ed buffers currentSeconds options checkpoint)).card := by
  unfold verifyCheckpointWitnessThreshold at hresult
  rw [hoperator] at hresult
  dsimp only at hresult
  split at hresult
  · cases hresult
  · split at hresult
    · cases hresult
    · split at hresult
      · cases hresult
      · split at hresult
        · cases hresult
        · cases htrusted : options.witnessKeys.mapM (witnessIdentity H buffers) with
          | error message =>
              rw [htrusted] at hresult
              cases hresult
          | ok trusted =>
              obtain ⟨rfl, hlengths⟩ := trusted_eq htrusted
              have hkeys : ∀ e ∈ (trustedWitnesses buffers options.witnessKeys).map
                  (fun w => (identityOf H w, w.2)), e.2.length = 32 := by
                rintro _ he
                obtain ⟨w, hw, rfl⟩ := List.mem_map.1 he
                exact hlengths w hw
              obtain ⟨counted, hcounted, hnodup, hmem⟩ := @countWitnesses_spec ed buffers
                checkpoint.body (options.nowSeconds.getD currentSeconds)
                (options.maxAgeSeconds.getD (24 * 60 * 60))
                (options.futureSkewSeconds.getD (5 * 60)) _ hkeys
                checkpoint.signatureLines ([], [])
              rw [htrusted] at hresult
              simp only [bind, Except.bind, pure, Except.pure, hcounted] at hresult
              cases hresult
              refine counted_card (hnodup List.nodup_nil) fun identity => ?_
              rw [hmem identity]
              simp

/-- The count is that of the keys with a good line exactly when as many keys are hidden as names
are counted beyond the first; where key identifiers do not collide, when no key has good lines
under two names. -/
theorem validWitnesses_eq_iff {H : Hash} {ed : Ed25519} {buffers : Buffers} {currentSeconds : ℚ}
    {note : String} {options : VerifyWitnessThresholdOptions} {checkpoint : ParsedCheckpointNote}
    {result : WitnessThresholdVerification}
    (hoperator : verifyOperatorCheckpoint H ed buffers note options.operatorKey = .ok checkpoint)
    (hresult : verifyCheckpointWitnessThreshold H ed buffers currentSeconds note options =
      .ok result) :
    (result.validWitnesses =
        ((cosignersOf H ed buffers currentSeconds options checkpoint).image Prod.snd).card ↔
      furtherNames H (trustedWitnesses buffers options.witnessKeys)
          (cosignersOf H ed buffers currentSeconds options checkpoint) =
        (hiddenKeys H (trustedWitnesses buffers options.witnessKeys)
          (cosignersOf H ed buffers currentSeconds options checkpoint)).card) ∧
    (KeyIdsApart H (trustedWitnesses buffers options.witnessKeys) →
      (result.validWitnesses =
          ((cosignersOf H ed buffers currentSeconds options checkpoint).image Prod.snd).card ↔
        ∀ v ∈ cosignersOf H ed buffers currentSeconds options checkpoint,
          ∀ w ∈ cosignersOf H ed buffers currentSeconds options checkpoint,
            v.2 = w.2 → v.1 = w.1)) := by
  have hcount := validWitnesses_eq hoperator hresult
  have hcard := card_counted H (trustedWitnesses buffers options.witnessKeys)
    (cosignersOf H ed buffers currentSeconds options checkpoint)
  refine ⟨by omega, fun hapart => ?_⟩
  have hall : countedWitnesses H (trustedWitnesses buffers options.witnessKeys)
      (cosignersOf H ed buffers currentSeconds options checkpoint) =
        cosignersOf H ed buffers currentSeconds options checkpoint := by
    refine Finset.filter_true_of_mem fun w hw => inForce_of_apart hapart ?_
    exact (List.mem_filter.1 (List.mem_toFinset.1 hw)).1
  rw [hcount, hall, eq_comm, Finset.card_image_iff]
  constructor
  · intro hinj v hv w hw heq
    rw [hinj hv hw heq]
  · exact fun h v hv w hw heq => Prod.ext (h v hv w hw heq) heq

/-! ## One key under two names -/

theorem exists_result {H : Hash} {ed : Ed25519} {buffers : Buffers} {currentSeconds : ℚ}
    {note : String} {options : VerifyWitnessThresholdOptions} {checkpoint : ParsedCheckpointNote}
    {trusted : List (String × Bytes)}
    (hoperator : verifyOperatorCheckpoint H ed buffers note options.operatorKey = .ok checkpoint)
    (hrequired : ¬(!(options.requiredWitnesses.getD 1).isInt ∨ options.requiredWitnesses.getD 1 < 0))
    (hnow : isSafeNonNegative (options.nowSeconds.getD currentSeconds) = true)
    (hage : isSafeNonNegative (options.maxAgeSeconds.getD (24 * 60 * 60)) = true)
    (hskew : isSafeNonNegative (options.futureSkewSeconds.getD (5 * 60)) = true)
    (htrusted : options.witnessKeys.mapM (witnessIdentity H buffers) = .ok trusted) :
    ∃ result, verifyCheckpointWitnessThreshold H ed buffers currentSeconds note options =
      .ok result := by
  obtain ⟨rfl, hlengths⟩ := trusted_eq htrusted
  have hkeys : ∀ e ∈ (trustedWitnesses buffers options.witnessKeys).map
      (fun w => (identityOf H w, w.2)), e.2.length = 32 := by
    rintro _ he
    obtain ⟨w, hw, rfl⟩ := List.mem_map.1 he
    exact hlengths w hw
  obtain ⟨counted, hcounted, -⟩ := @countWitnesses_spec ed buffers checkpoint.body
    (options.nowSeconds.getD currentSeconds) (options.maxAgeSeconds.getD (24 * 60 * 60))
    (options.futureSkewSeconds.getD (5 * 60)) _ hkeys
    checkpoint.signatureLines ([], [])
  unfold verifyCheckpointWitnessThreshold
  simp only [hrequired, if_false, hoperator, hnow, hage, hskew, Bool.not_true, Bool.false_eq_true,
    htrusted, hcounted, bind, Except.bind, pure, Except.pure]
  exact ⟨_, rfl⟩

namespace ThresholdSample

open NoteSample (body bytesOf length_bytesOf length_publicKey length_rootHash length_signAsync plain
  publicKey rootHash seed signAsync)
open LogNode (signatureLine formatCheckpointBody)

/-- The key of the witness. -/
def witnessKey : Bytes :=
  bytesOf 32 0x22fc297792f0b6ffc0bfcfdb7edb0c0aa14e025a365ec0e342e86e3829cb74b6

def timestamp : ℕ := 1767225600

/-- The signature of the witness over the body and the time. -/
def cosignature : Bytes :=
  bytesOf 64 (0x18f7905ac1631193ed57972f3740c6b5301311da4628a8c3340e81a44b245868 * 2 ^ 256 +
    0xd111c6ca6ee77a6a71dd2bb259442c796816c0cba8a5d523b8e82e47e049f80c)

def ed25519 : Ed25519 where
  verify _ signature message key :=
    key = publicKey ∧ message = utf8 (body plain) ∧
        signature = signAsync (utf8 (body plain)) seed ∨
      key = witnessKey ∧ message = cosignatureInput (body plain) timestamp ∧
        signature = cosignature

def witness (name : String) : String × Bytes := (name, witnessKey)

/-- The line of the witness under a name. -/
def line (name : String) : String :=
  signatureLine .node name (keyIdOf .fips180 (witness name)) (bytesOf 8 timestamp ++ cosignature)

def operatorLine : String :=
  signatureLine .node plain (computeKeyId .fips180 plain publicKey)
    (signAsync (utf8 (body plain)) seed)

def note : String :=
  String.ofList ((body plain).toList ++ '\n' :: joinLines [operatorLine, line "a", line "b"])

def checkpoint : ParsedCheckpointNote :=
  ⟨body plain, plain, 4821937, rootHash, [operatorLine, line "a", line "b"]⟩

/-- The caller trusts the key under each of the names. -/
def options (names : List String) : VerifyWitnessThresholdOptions where
  operatorKey := ⟨plain, .bytes publicKey⟩
  witnessKeys := names.map fun name => ⟨name, .bytes witnessKey⟩
  requiredWitnesses := some 2

theorem nameOk_letter {name : String} (h : name ∈ ["a", "b"]) : NameOk name := by
  simp only [List.mem_cons, List.not_mem_nil, or_false] at h
  rcases h with rfl | rfl
  · exact nameOk_of_all (by decide) (by decide)
  · exact nameOk_of_all (by decide) (by decide)

theorem verifyOperatorCheckpoint_note (names : List String) :
    verifyOperatorCheckpoint .fips180 ed25519 .node note (options names).operatorKey =
      .ok checkpoint := by
  have hname : NameOk plain := nameOk_of_all (by decide) (by decide)
  refine verifyOperatorCheckpoint_lines hname ⟨by decide, by decide⟩ length_rootHash
    length_publicKey (length_signAsync _) ?_ (decide_eq_true (.inl ⟨rfl, rfl, rfl⟩))
    String.toList_ofList
  intro l hl
  simp only [List.mem_cons, List.not_mem_nil, or_false] at hl
  rcases hl with rfl | rfl
  · exact lineOk_signatureLine (nameOk_letter (by decide)).origin.newline _ _
  · exact lineOk_signatureLine (nameOk_letter (by decide)).origin.newline _ _

theorem cosigns_line {name : String} (h : name ∈ ["a", "b"]) :
    cosigns ed25519 .node (body plain) timestamp (24 * 60 * 60) (5 * 60) name
      (keyIdOf .fips180 (witness name)) witnessKey (line name) = true := by
  have hid := length_keyIdOf .fips180 (witness name)
  have hne : keyIdOf .fips180 (witness name) ++ (bytesOf 8 timestamp ++ cosignature) ≠ [] := by
    intro hnil
    have hlength := congrArg List.length hnil
    rw [List.length_append, hid] at hlength
    cases hlength
  have htake : (keyIdOf .fips180 (witness name) ++ (bytesOf 8 timestamp ++ cosignature)).take 4 =
      keyIdOf .fips180 (witness name) := by
    rw [← hid, List.take_left]
  have hdrop : (keyIdOf .fips180 (witness name) ++ (bytesOf 8 timestamp ++ cosignature)).drop 4 =
      bytesOf 8 timestamp ++ cosignature := by
    rw [← hid, List.drop_left]
  have hdrop12 : (keyIdOf .fips180 (witness name) ++ (bytesOf 8 timestamp ++ cosignature)).drop 12 =
      cosignature := by
    rw [show (12 : ℕ) = 4 + 8 from rfl, ← List.drop_drop, hdrop]
    exact List.drop_left' (length_bytesOf 8 timestamp)
  have htime : bigUint64OfBytes (((keyIdOf .fips180 (witness name) ++
      (bytesOf 8 timestamp ++ cosignature)).drop 4).take 8) = timestamp := by
    rw [hdrop, List.take_left' (length_bytesOf 8 timestamp)]
    decide
  refine (cosigns_of_parse (parseSignatureLine_signatureLine (nameOk_letter h) hne)).2 ?_
  rw [htime, hdrop12]
  refine ⟨?_, rfl, htake, by decide, ?_, ?_, ?_⟩
  · rw [List.length_append, hid, List.length_append, length_bytesOf, cosignature, length_bytesOf]
  · norm_num
  · norm_num
  · exact decide_eq_true (.inr ⟨rfl, rfl, rfl⟩)

theorem trustedWitnesses_options (names : List String) :
    trustedWitnesses .node (options names).witnessKeys = names.map witness := by
  have hlength : witnessKey.length = 32 := length_bytesOf ..
  simp [trustedWitnesses, options, normalizePublicKey, hlength, Except.toOption, witness,
    List.filterMap_map]

theorem mapM_witnessIdentity {names : List String} (h : ∀ name ∈ names, name ∈ ["a", "b"]) :
    ∃ trusted, (options names).witnessKeys.mapM (witnessIdentity .fips180 .node) = .ok trusted := by
  induction names with
  | nil => exact ⟨[], rfl⟩
  | cons name names ih =>
      obtain ⟨rest, hrest⟩ := ih fun x hx => h x (List.mem_cons_of_mem _ hx)
      have hlength : witnessKey.length = 32 := length_bytesOf ..
      have hnormal : normalizePublicKey .node (.bytes witnessKey) = .ok witnessKey := by
        rw [normalizePublicKey, if_neg (not_not.2 hlength)]
      have hid := checkpointKeyId_eq (H := .fips180) (nameOk_letter (h name List.mem_cons_self))
        hlength
      refine ⟨(identityOf .fips180 (witness name), witnessKey) :: rest, ?_⟩
      show List.mapM _ (⟨name, .bytes witnessKey⟩ :: (options names).witnessKeys) = _
      rw [List.mapM_cons, hrest, witnessIdentity]
      simp only [hnormal, hid, bind, Except.bind, pure, Except.pure]
      rfl

theorem exists_result_options {names : List String} (h : ∀ name ∈ names, name ∈ ["a", "b"]) :
    ∃ result, verifyCheckpointWitnessThreshold .fips180 ed25519 .node timestamp note
      (options names) = .ok result := by
  obtain ⟨trusted, htrusted⟩ := mapM_witnessIdentity h
  have hrequired : ¬(!((some 2 : Option ℚ).getD 1).isInt ∨ (some 2 : Option ℚ).getD 1 < 0) := by
    decide
  have hnow : isSafeNonNegative (timestamp : ℚ) = true := by decide
  have hage : isSafeNonNegative (24 * 60 * 60) = true := by decide +kernel
  have hskew : isSafeNonNegative (5 * 60) = true := by decide +kernel
  exact exists_result (verifyOperatorCheckpoint_note names) hrequired hnow hage hskew htrusted

/-- The key has a good line under each name. -/
theorem cosignersOf_options {names : List String} (h : ∀ name ∈ names, name ∈ ["a", "b"]) :
    cosignersOf .fips180 ed25519 .node timestamp (options names) checkpoint =
      (names.map witness).toFinset := by
  rw [cosignersOf, cosigners, trustedWitnesses_options, List.filter_eq_self.2]
  intro w hw
  obtain ⟨name, hname, rfl⟩ := List.mem_map.1 hw
  have hline : line name ∈ checkpoint.signatureLines := by
    have hletter := h name hname
    simp only [List.mem_cons, List.not_mem_nil, or_false] at hletter
    rcases hletter with rfl | rfl
    · exact List.mem_cons_of_mem _ List.mem_cons_self
    · exact List.mem_cons_of_mem _ (List.mem_cons_of_mem _ List.mem_cons_self)
  exact List.any_eq_true.2 ⟨_, hline, cosigns_line (h name hname)⟩

theorem keyIdsApart_options (names : List String) :
    KeyIdsApart .fips180 (trustedWitnesses .node (options names).witnessKeys) := by
  rw [trustedWitnesses_options]
  intro v hv w hw _ _
  obtain ⟨name, -, rfl⟩ := List.mem_map.1 hv
  obtain ⟨name', -, rfl⟩ := List.mem_map.1 hw
  rfl

end ThresholdSample

open ThresholdSample in
theorem validWitnesses_eq_iff_one :
    ∃ result, verifyCheckpointWitnessThreshold .fips180 ed25519 .node timestamp note
        (options ["a"]) = .ok result ∧
      result.validWitnesses = ((cosignersOf .fips180 ed25519 .node timestamp (options ["a"])
        checkpoint).image Prod.snd).card := by
  have hnames : ∀ name ∈ ["a"], name ∈ ["a", "b"] := by decide
  obtain ⟨result, hresult⟩ := exists_result_options hnames
  obtain ⟨-, hiff⟩ := validWitnesses_eq_iff (verifyOperatorCheckpoint_note ["a"]) hresult
  refine ⟨result, hresult, (hiff (keyIdsApart_options ["a"])).2 ?_⟩
  rw [cosignersOf_options hnames]
  intro v hv w hw _
  simp only [List.map_cons, List.map_nil, List.mem_toFinset, List.mem_singleton] at hv hw
  rw [hv, hw]

open ThresholdSample in
/-- One key, listed under two names, makes up a threshold of two. -/
theorem one_key_counts_twice :
    ∃ result, verifyCheckpointWitnessThreshold .fips180 ed25519 .node timestamp note
        (options ["a", "b"]) = .ok result ∧
      result.validWitnesses = 2 ∧
      ((cosignersOf .fips180 ed25519 .node timestamp (options ["a", "b"]) checkpoint).image
        Prod.snd).card = 1 := by
  have hnames : ∀ name ∈ ["a", "b"], name ∈ ["a", "b"] := fun _ h => h
  obtain ⟨result, hresult⟩ := exists_result_options hnames
  refine ⟨result, hresult, ?_, ?_⟩
  · rw [validWitnesses_eq (verifyOperatorCheckpoint_note ["a", "b"]) hresult,
      cosignersOf_options hnames, countedWitnesses, Finset.filter_true_of_mem]
    · decide
    · intro w hw
      refine inForce_of_apart (keyIdsApart_options ["a", "b"]) ?_
      rw [trustedWitnesses_options]
      exact List.mem_toFinset.1 hw
  · rw [cosignersOf_options hnames]
    decide

end Atrib.Verify
