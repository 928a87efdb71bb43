import Atrib.Proofs.Encodings
import Atrib.Verify.EvaluateDelegation
import Mathlib.Data.List.Pairwise

/-!
# What the delegation walk depends on

The walk asks of a list of certificates which of them cover a key, which of
those are evidence, and whether two of these conflict; the order of the list
does not matter to any of this. It then reports on a single certificate, the
first of those it may choose from, so a list may be rearranged without effect
exactly if it has no conflict and all choices give the same report. Among the
certificates of one principal nothing makes this so.
-/

namespace Atrib.Verify

open Lib (JsNumber)

variable {H : Hash} {codec : DelegationCodec} {record : AtribRecord} {genesis : Option AtribRecord}
  {options : EvaluateDelegationOptions} {certs certs' : List DelegationCertificate}
  {cert : DelegationCertificate}

/-! ## Evidence -/

/-- A certificate is evidence (§1.11.2) if it has no errors of its own and its principal is
not the run key of a certificate without errors. -/
structure IsEvidence (codec : DelegationCodec) (certs : List DelegationCertificate)
    (cert : DelegationCertificate) : Prop where
  valid : delegationCertErrors codec cert = []
  unchained : ∀ other ∈ certs, delegationCertErrors codec other = [] →
    other.runPubkey ≠ cert.principalKey

theorem evidenceErrors_eq_nil : evidenceErrors codec certs cert = [] ↔
    IsEvidence codec certs cert := by
  unfold evidenceErrors
  constructor
  · intro h
    by_cases hvalid : delegationCertErrors codec cert = []
    · refine ⟨hvalid, fun other hother herrors hkey => ?_⟩
      have hchained : certs.any (fun other => other.runPubkey = cert.principalKey ∧
          delegationCertErrors codec other = []) = true :=
        List.any_eq_true.2 ⟨other, hother, decide_eq_true ⟨hkey, herrors⟩⟩
      rw [if_pos ⟨hvalid, hchained⟩] at h
      cases h
    · rw [if_neg fun hboth => hvalid hboth.1] at h
      exact absurd h hvalid
  · intro h
    rw [if_neg, h.valid]
    rintro ⟨-, hchained⟩
    obtain ⟨other, hother, hboth⟩ := List.any_eq_true.1 hchained
    obtain ⟨hkey, herrors⟩ := of_decide_eq_true hboth
    exact h.unchained other hother herrors hkey

theorem mem_coveringCertificates : cert ∈ coveringCertificates record certs ↔
    cert ∈ certs ∧ cert.runPubkey = record.creatorKey := by
  rw [coveringCertificates, List.mem_filter, decide_eq_true_eq]

theorem mem_validCertificates : cert ∈ validCertificates codec record certs ↔
    cert ∈ certs ∧ cert.runPubkey = record.creatorKey ∧ IsEvidence codec certs cert := by
  rw [validCertificates, List.mem_filter, decide_eq_true_eq, mem_coveringCertificates,
    evidenceErrors_eq_nil, and_assoc]

/-! ## Conflicts and choices -/

/-- Two principals certify the key of the record for the same time. -/
def Ambiguous (codec : DelegationCodec) (record : AtribRecord)
    (certs : List DelegationCertificate) : Prop :=
  ∃ a ∈ validCertificates codec record certs, ∃ b ∈ validCertificates codec record certs,
    conflicting a b = true

theorem conflicting_comm (a b : DelegationCertificate) : conflicting a b = conflicting b a := by
  rw [conflicting, conflicting, windowsOverlap, windowsOverlap, Bool.and_comm (b.windowFrom.le _)]
  simp only [ne_comm]

theorem pairwise_iff_not_ambiguous :
    (validCertificates codec record certs).Pairwise (fun a b => conflicting a b = false) ↔
      ¬ Ambiguous codec record certs := by
  constructor
  · rintro hpairwise ⟨a, ha, b, hb, hconflict⟩
    have hsymm : Std.Symm fun a b => conflicting a b = false :=
      ⟨fun x y h => (conflicting_comm y x).trans h⟩
    have hself : ∀ x ∈ validCertificates codec record certs, conflicting x x = false :=
      fun x _ => by simp [conflicting]
    have hfalse := List.Pairwise.forall_of_forall hself hpairwise ha hb
    rw [hfalse] at hconflict
    cases hconflict
  · intro h
    refine List.pairwise_of_forall_mem_list fun a ha b hb => Bool.eq_false_iff.2 fun hconflict => ?_
    exact h ⟨a, ha, b, hb, hconflict⟩

/-- The certificates that the walk may report on: all for the key if none is evidence, and
else those of them in whose window the time is, or all if there is no such one. -/
def choices (codec : DelegationCodec) (record : AtribRecord) (options : EvaluateDelegationOptions)
    (certs : List DelegationCertificate) : List DelegationCertificate :=
  let valid := validCertificates codec record certs
  let current := valid.filter (inWindow · (evaluationTime record options))
  if valid = [] then coveringCertificates record certs
  else if current = [] then valid
  else current

/-- The report on a certificate, if it is the one to be reported on. -/
def report (H : Hash) (codec : DelegationCodec) (record : AtribRecord)
    (genesis : Option AtribRecord) (options : EvaluateDelegationOptions)
    (certs : List DelegationCertificate) (cert : DelegationCertificate) : DelegationOutcome :=
  if validCertificates codec record certs = [] then rejectedOutcome H codec certs cert
  else resolvedOutcome H codec record genesis options cert

theorem evaluateDelegation_of_not_ambiguous (h : ¬ Ambiguous codec record certs) :
    evaluateDelegation H codec record genesis certs options =
      ((choices codec record options certs).head?.map
        (report H codec record genesis options certs)).getD
        { delegationUnresolved := (genesisCommitment record genesis).isSome } := by
  have hpairwise := pairwise_iff_not_ambiguous.2 h
  unfold evaluateDelegation choices report
  cases hcovering : coveringCertificates record certs with
  | nil =>
      have hvalid : validCertificates codec record certs = [] := by
        rw [validCertificates, hcovering, List.filter_nil]
      simp only [hvalid, if_true]
      rfl
  | cons first others =>
      cases hvalid : validCertificates codec record certs with
      | nil =>
          simp only [if_true]
          rfl
      | cons head rest =>
          rw [hvalid] at hpairwise
          simp only [if_pos hpairwise, reduceCtorEq, if_false]
          cases hfind : (head :: rest).find? (inWindow · (evaluationTime record options)) with
          | none =>
              rw [if_pos (List.filter_eq_nil_iff.2 (List.find?_eq_none.1 hfind))]
              rfl
          | some selected =>
              have hhead := hfind
              rw [← List.head?_filter] at hhead
              rw [if_neg fun hnil => by rw [hnil] at hhead; cases hhead]
              rw [hhead]
              rfl

theorem evaluateDelegation_of_ambiguous (h : Ambiguous codec record certs) :
    evaluateDelegation H codec record genesis certs options =
      { delegationAmbiguous := true
        candidates := (validCertificates codec record certs).map
          (candidateFacts H codec record genesis options) } := by
  have hpairwise := mt pairwise_iff_not_ambiguous.1 (not_not.2 h)
  obtain ⟨a, ha, -⟩ := h
  unfold evaluateDelegation
  cases hcovering : coveringCertificates record certs with
  | nil =>
      rw [validCertificates, hcovering] at ha
      cases ha
  | cons first others =>
      cases hvalid : validCertificates codec record certs with
      | nil =>
          rw [hvalid] at ha
          cases ha
      | cons head rest =>
          rw [hvalid] at hpairwise
          exact if_neg hpairwise

/-! ## Certificates as a set -/

theorem IsEvidence.of_same (hsame : ∀ cert, cert ∈ certs' ↔ cert ∈ certs)
    (h : IsEvidence codec certs cert) : IsEvidence codec certs' cert :=
  ⟨h.valid, fun other hother => h.unchained other ((hsame other).1 hother)⟩

theorem evidenceErrors_of_same (hsame : ∀ cert, cert ∈ certs' ↔ cert ∈ certs) :
    evidenceErrors codec certs' cert = evidenceErrors codec certs cert := by
  have hany : certs'.any (fun other => other.runPubkey = cert.principalKey ∧
      delegationCertErrors codec other = []) = certs.any (fun other =>
        other.runPubkey = cert.principalKey ∧ delegationCertErrors codec other = []) := by
    rw [Bool.eq_iff_iff, List.any_eq_true, List.any_eq_true]
    simp only [hsame]
  rw [evidenceErrors, evidenceErrors, hany]

theorem mem_validCertificates_of_same (hsame : ∀ cert, cert ∈ certs' ↔ cert ∈ certs) :
    cert ∈ validCertificates codec record certs' ↔
      cert ∈ validCertificates codec record certs := by
  rw [validCertificates, validCertificates, List.mem_filter, List.mem_filter,
    mem_coveringCertificates, mem_coveringCertificates, hsame, evidenceErrors_of_same hsame]

theorem ambiguous_of_same (hsame : ∀ cert, cert ∈ certs' ↔ cert ∈ certs) :
    Ambiguous codec record certs' ↔ Ambiguous codec record certs := by
  simp only [Ambiguous, mem_validCertificates_of_same hsame]

theorem eq_nil_iff_of_same {α : Type*} {l l' : List α} (h : ∀ a, a ∈ l' ↔ a ∈ l) :
    l' = [] ↔ l = [] := by
  simp only [List.eq_nil_iff_forall_not_mem, h]

theorem mem_choices_of_same (hsame : ∀ cert, cert ∈ certs' ↔ cert ∈ certs) :
    cert ∈ choices codec record options certs' ↔ cert ∈ choices codec record options certs := by
  have hvalid : ∀ cert, cert ∈ validCertificates codec record certs' ↔
      cert ∈ validCertificates codec record certs := fun _ => mem_validCertificates_of_same hsame
  have hcurrent : ∀ cert, cert ∈ (validCertificates codec record certs').filter
      (inWindow · (evaluationTime record options)) ↔
        cert ∈ (validCertificates codec record certs).filter
          (inWindow · (evaluationTime record options)) := by
    intro cert
    rw [List.mem_filter, List.mem_filter, hvalid]
  simp only [choices, eq_nil_iff_of_same hvalid, eq_nil_iff_of_same hcurrent]
  split
  · rw [mem_coveringCertificates, mem_coveringCertificates, hsame]
  · split
    · exact hvalid cert
    · exact hcurrent cert

theorem report_of_same (hsame : ∀ cert, cert ∈ certs' ↔ cert ∈ certs) :
    report H codec record genesis options certs' cert =
      report H codec record genesis options certs cert := by
  have hvalid : ∀ cert, cert ∈ validCertificates codec record certs' ↔
      cert ∈ validCertificates codec record certs := fun _ => mem_validCertificates_of_same hsame
  simp only [report, eq_nil_iff_of_same hvalid, rejectedOutcome, evidenceErrors_of_same hsame]

/-! ## One report for all orders -/

/-- The walk reports the same of two certificates: their errors if it rejects them, and
else their principal and their facts. -/
structure SameReport (H : Hash) (codec : DelegationCodec) (record : AtribRecord)
    (options : EvaluateDelegationOptions) (certs : List DelegationCertificate)
    (a b : DelegationCertificate) : Prop where
  hash : safeCertHash H codec a = safeCertHash H codec b
  rejected : validCertificates codec record certs = [] →
    evidenceErrors codec certs a = evidenceErrors codec certs b
  resolved : validCertificates codec record certs ≠ [] → a.principalKey = b.principalKey ∧
    contextBound record a = contextBound record b ∧
      scopeCheck record options a = scopeCheck record options b

theorem inWindow_of_mem_choices {a b : DelegationCertificate}
    (hvalid : validCertificates codec record certs ≠ [])
    (ha : a ∈ choices codec record options certs) (hb : b ∈ choices codec record options certs) :
    inWindow a (evaluationTime record options) = inWindow b (evaluationTime record options) := by
  unfold choices at ha hb
  simp only [if_neg hvalid] at ha hb
  by_cases hcurrent : (validCertificates codec record certs).filter
      (inWindow · (evaluationTime record options)) = []
  · rw [if_pos hcurrent] at ha hb
    have hnone := List.filter_eq_nil_iff.1 hcurrent
    rw [Bool.eq_false_iff.2 (hnone a ha), Bool.eq_false_iff.2 (hnone b hb)]
  · rw [if_neg hcurrent] at ha hb
    rw [(List.mem_filter.1 ha).2, (List.mem_filter.1 hb).2]

theorem report_eq_iff {a b : DelegationCertificate}
    (ha : a ∈ choices codec record options certs) (hb : b ∈ choices codec record options certs) :
    report H codec record genesis options certs a = report H codec record genesis options certs b ↔
      SameReport H codec record options certs a b := by
  unfold report
  by_cases hvalid : validCertificates codec record certs = []
  · rw [if_pos hvalid, if_pos hvalid]
    simp only [rejectedOutcome, DelegationOutcome.mk.injEq, Option.some.injEq, true_and, and_true]
    constructor
    · intro h
      exact ⟨h.1, fun _ => h.2, fun hne => absurd hvalid hne⟩
    · intro h
      exact ⟨h.hash, h.rejected hvalid⟩
  · have hwindow := inWindow_of_mem_choices hvalid ha hb
    rw [if_neg hvalid, if_neg hvalid]
    constructor
    · intro h
      simp only [resolvedOutcome, candidateFacts, DelegationOutcome.mk.injEq, Option.some.injEq]
        at h
      obtain ⟨-, hkey, hhash, -, -, -, -, hcontext, -, hscope, -⟩ := h
      exact ⟨hhash, fun hnil => absurd hnil hvalid, fun _ => ⟨hkey, hcontext, hscope⟩⟩
    · intro h
      obtain ⟨hkey, hcontext, hscope⟩ := h.resolved hvalid
      simp only [resolvedOutcome, candidateFacts, h.hash, hkey, hcontext, hscope, hwindow]

theorem validCertificates_cons (h : cert ∈ certs) :
    validCertificates codec record (cert :: certs) =
      if cert ∈ validCertificates codec record certs then
        cert :: validCertificates codec record certs
      else validCertificates codec record certs := by
  have hsame : ∀ c, c ∈ cert :: certs ↔ c ∈ certs := by
    intro c
    rw [List.mem_cons, or_iff_right_of_imp fun heq => heq ▸ h]
  have herrors : (fun c => decide (evidenceErrors codec (cert :: certs) c = [])) =
      fun c => decide (evidenceErrors codec certs c = []) := by
    funext c
    rw [evidenceErrors_of_same hsame]
  rw [validCertificates, validCertificates, herrors, coveringCertificates, coveringCertificates,
    List.filter_filter, List.filter_filter, List.filter_cons]
  simp only [List.mem_filter, h, true_and]

theorem covering_of_mem_choices (h : cert ∈ choices codec record options certs) :
    cert ∈ coveringCertificates record certs := by
  unfold choices at h
  dsimp only at h
  split at h
  · exact h
  · split at h
    · exact (List.mem_filter.1 h).1
    · exact (List.mem_filter.1 (List.mem_filter.1 h).1).1

/-- What the walk may report on, it does report on if it is put first. -/
theorem head?_choices_cons (h : cert ∈ choices codec record options certs) :
    (choices codec record options (cert :: certs)).head? = some cert := by
  have hcovers := covering_of_mem_choices h
  have hcerts := (mem_coveringCertificates.1 hcovers).1
  have hcons := @validCertificates_cons codec record _ _ hcerts
  unfold choices at h ⊢
  dsimp only at h ⊢
  by_cases hvalid : validCertificates codec record certs = []
  · rw [hvalid, if_neg List.not_mem_nil] at hcons
    rw [hcons, if_pos rfl, coveringCertificates, List.filter_cons,
      if_pos (decide_eq_true (mem_coveringCertificates.1 hcovers).2)]
    rfl
  · rw [if_neg hvalid] at h
    have hmem : cert ∈ validCertificates codec record certs := by
      split at h
      · exact h
      · exact (List.mem_filter.1 h).1
    rw [if_pos hmem] at hcons
    rw [hcons, if_neg (List.cons_ne_nil _ _)]
    by_cases hcurrent : (validCertificates codec record certs).filter
        (inWindow · (evaluationTime record options)) = []
    · have hnot := List.filter_eq_nil_iff.1 hcurrent cert hmem
      rw [List.filter_cons, if_neg hnot, if_pos hcurrent]
      rfl
    · rw [if_neg hcurrent] at h
      rw [List.filter_cons, if_pos (List.mem_filter.1 h).2, if_neg (List.cons_ne_nil _ _)]
      rfl

/-- The verdict is one for all arrangements of the certificates, with or without copies,
exactly if no two of them conflict and all that may be reported on give the same report. -/
theorem evaluateDelegation_sameSet_iff (H : Hash) (codec : DelegationCodec) (record : AtribRecord)
    (genesis : Option AtribRecord) (options : EvaluateDelegationOptions)
    (certs : List DelegationCertificate) :
    (∀ certs', (∀ cert, cert ∈ certs' ↔ cert ∈ certs) →
        evaluateDelegation H codec record genesis certs' options =
          evaluateDelegation H codec record genesis certs options) ↔
      ¬ Ambiguous codec record certs ∧
        ∀ a ∈ choices codec record options certs, ∀ b ∈ choices codec record options certs,
          SameReport H codec record options certs a b := by
  have hcopy : ∀ {a}, a ∈ certs → ∀ c, c ∈ a :: certs ↔ c ∈ certs := by
    intro a ha c
    rw [List.mem_cons, or_iff_right_of_imp fun heq => heq ▸ ha]
  constructor
  · intro hall
    have hclear : ¬ Ambiguous codec record certs := by
      intro hambiguous
      obtain ⟨a, ha, -⟩ := id hambiguous
      have hmem := (mem_validCertificates.1 ha).1
      -- a copy is one more candidate
      have hsame := congrArg (fun outcome => outcome.candidates.length) (hall _ (hcopy hmem))
      rw [evaluateDelegation_of_ambiguous hambiguous,
        evaluateDelegation_of_ambiguous ((ambiguous_of_same (hcopy hmem)).2 hambiguous),
        validCertificates_cons hmem, if_pos ha] at hsame
      simp at hsame
    refine ⟨hclear, fun a ha b hb => (@report_eq_iff H codec record genesis _ _ _ _ ha hb).1 ?_⟩
    have hfirst : ∀ c ∈ choices codec record options certs,
        evaluateDelegation H codec record genesis certs options =
          report H codec record genesis options certs c := by
      intro c hc
      have hmem := (mem_coveringCertificates.1 (covering_of_mem_choices hc)).1
      rw [← hall _ (hcopy hmem), evaluateDelegation_of_not_ambiguous
        (mt (ambiguous_of_same (hcopy hmem)).1 hclear), head?_choices_cons hc]
      exact report_of_same (hcopy hmem)
    rw [← hfirst a ha, ← hfirst b hb]
  · rintro ⟨hclear, hreport⟩ certs' hsame
    rw [evaluateDelegation_of_not_ambiguous hclear,
      evaluateDelegation_of_not_ambiguous (mt (ambiguous_of_same hsame).1 hclear)]
    have hchoices : ∀ c, c ∈ choices codec record options certs' ↔
        c ∈ choices codec record options certs := fun _ => mem_choices_of_same hsame
    cases hhead : (choices codec record options certs).head? with
    | none =>
        rw [List.head?_eq_none_iff, ← eq_nil_iff_of_same hchoices] at hhead
        rw [hhead]
        rfl
    | some a =>
        have ha := List.mem_of_head? hhead
        cases hhead' : (choices codec record options certs').head? with
        | none =>
            rw [List.head?_eq_none_iff, eq_nil_iff_of_same hchoices] at hhead'
            rw [hhead'] at ha
            cases ha
        | some b =>
            have hb := (hchoices b).1 (List.mem_of_head? hhead')
            exact (report_of_same hsame).trans ((report_eq_iff hb ha).2 (hreport b hb a ha))

/-! ## Depth one -/

/-- What a report at depth 1 says of a certificate is true of it and of the record. -/
structure TrueReport (H : Hash) (codec : DelegationCodec) (record : AtribRecord)
    (genesis : Option AtribRecord) (options : EvaluateDelegationOptions)
    (cert : DelegationCertificate) (outcome : DelegationOutcome) : Prop where
  principal : outcome.principalKey = some cert.principalKey
  hash : outcome.certHash = some (safeCertHash H codec cert)
  window : ∃ within, outcome.inWindow = some within ∧
    (within = true ↔ (cert.notBefore.getD (.finite 0)).le (evaluationTime record options) ∧
      (evaluationTime record options).le cert.notAfter)
  /-- A time counts as trusted only if the caller has given one. -/
  trusted : outcome.timeTrusted = some true ↔
    ∃ time ∈ options.trustedTimeMs, time.safeIndex?.isSome ∧ evaluationTime record options = time
  claimed : outcome.timeTrusted ≠ some true →
    evaluationTime record options = .finite record.timestamp
  unbound : outcome.contextBound = none ↔ cert.contextId = none
  context : outcome.contextBound = some true ↔ cert.contextId = some record.contextId
  uncommitted : outcome.certBound = none ↔
    ∀ first ∈ genesis, first.creatorKey = record.creatorKey → delegationCertHash first = none
  committed : outcome.certBound = some true ↔
    ∃ first ∈ genesis, first.creatorKey = record.creatorKey ∧
      delegationCertHash first = some (safeCertHash H codec cert)

theorem evaluationTime_trusted {time : JsNumber} (h : options.trustedTime? = some time) :
    time ∈ options.trustedTimeMs ∧ time.safeIndex?.isSome ∧
      evaluationTime record options = time := by
  obtain ⟨hgiven, hsafe⟩ := Option.filter_eq_some_iff.1 h
  exact ⟨hgiven, hsafe, by rw [evaluationTime, h]; rfl⟩

theorem genesisCommitment_eq_some {hash : String} : genesisCommitment record genesis = some hash ↔
    ∃ first ∈ genesis, first.creatorKey = record.creatorKey ∧
      delegationCertHash first = some hash := by
  simp only [genesisCommitment, Option.bind_eq_some_iff, Option.filter_eq_some_iff,
    decide_eq_true_eq, Option.mem_def, and_assoc]

theorem inWindow_iff {time : JsNumber} : inWindow cert time = true ↔
    (cert.notBefore.getD (.finite 0)).le time ∧ time.le cert.notAfter := by
  rw [inWindow, Bool.and_eq_true]
  rfl

theorem trueReport_resolvedOutcome : TrueReport H codec record genesis options cert
    (resolvedOutcome H codec record genesis options cert) where
  principal := rfl
  hash := rfl
  window := ⟨_, rfl, inWindow_iff⟩
  trusted := by
    simp only [resolvedOutcome, candidateFacts, Option.some.injEq]
    constructor
    · intro h
      obtain ⟨time, htime⟩ := Option.isSome_iff_exists.1 h
      exact ⟨time, evaluationTime_trusted htime⟩
    · rintro ⟨time, hgiven, hsafe, -⟩
      rw [EvaluateDelegationOptions.trustedTime?, hgiven, Option.filter_some, if_pos hsafe]
      rfl
  claimed := by
    simp only [resolvedOutcome, candidateFacts, ne_eq, Option.some.injEq, Bool.not_eq_true,
      Option.isSome_eq_false_iff, Option.isNone_iff_eq_none]
    intro h
    rw [evaluationTime, h]
    rfl
  unbound := by simp only [resolvedOutcome, candidateFacts, contextBound, Option.map_eq_none_iff]
  context := by
    simp only [resolvedOutcome, candidateFacts, contextBound, Option.map_eq_some_iff, beq_iff_eq]
    constructor
    · rintro ⟨id, hid, rfl⟩
      exact hid
    · intro h
      exact ⟨_, h, rfl⟩
  uncommitted := by
    simp only [resolvedOutcome, candidateFacts, Option.map_eq_none_iff]
    rw [Option.eq_none_iff_forall_ne_some]
    constructor
    · intro h first hfirst hkey
      rw [Option.eq_none_iff_forall_ne_some]
      intro hash hhash
      exact h hash (genesisCommitment_eq_some.2 ⟨first, hfirst, hkey, hhash⟩)
    · intro h hash hcommits
      obtain ⟨first, hfirst, hkey, hhash⟩ := genesisCommitment_eq_some.1 hcommits
      rw [h first hfirst hkey] at hhash
      cases hhash
  committed := by
    simp only [resolvedOutcome, candidateFacts, Option.map_eq_some_iff, beq_iff_eq]
    constructor
    · rintro ⟨hash, hhash, rfl⟩
      exact genesisCommitment_eq_some.1 hhash
    · intro h
      exact ⟨_, genesisCommitment_eq_some.2 h, rfl⟩

theorem signatureVerifies_of_delegationCertErrors (h : delegationCertErrors codec cert = []) :
    delegationCertSignatureVerifies codec cert = true := by
  by_contra hfails
  simp only [delegationCertErrors, if_neg hfails] at h
  by_cases hkeys : ((if isWellFormedKey cert.principalKey then [] else ["principal_key_malformed"]) ++
      if isWellFormedKey cert.runPubkey then [] else ["run_pubkey_malformed"]) ≠ []
  · rw [if_pos hkeys] at h
    exact hkeys h
  · rw [if_neg hkeys] at h
    split at h <;> cases h

/-- Depth 1 is the verdict only for a certificate that its principal has signed for the key
of the record, that is the end of a chain of one, and that no other principal contests. -/
theorem depth_one_sound
    (h : (evaluateDelegation H codec record genesis certs options).depth = 1) :
    ∃ cert ∈ certs, cert.runPubkey = record.creatorKey ∧
      delegationCertErrors codec cert = [] ∧ delegationCertSignatureVerifies codec cert = true ∧
      (∀ other ∈ certs, delegationCertErrors codec other = [] →
        other.runPubkey ≠ cert.principalKey) ∧
      (∀ other ∈ certs, other.runPubkey = record.creatorKey → IsEvidence codec certs other →
        other.principalKey ≠ cert.principalKey → windowsOverlap cert other = false) ∧
      TrueReport H codec record genesis options cert
        (evaluateDelegation H codec record genesis certs options) := by
  have hclear : ¬ Ambiguous codec record certs := by
    intro hambiguous
    rw [evaluateDelegation_of_ambiguous hambiguous] at h
    cases h
  rw [evaluateDelegation_of_not_ambiguous hclear] at h ⊢
  cases hhead : (choices codec record options certs).head? with
  | none =>
      rw [hhead] at h
      cases h
  | some cert =>
      rw [hhead] at h
      simp only [Option.map_some, Option.getD_some] at h ⊢
      by_cases hvalid : validCertificates codec record certs = []
      · rw [report, if_pos hvalid] at h
        cases h
      · have hmem : cert ∈ validCertificates codec record certs := by
          have hchoice := List.mem_of_head? hhead
          unfold choices at hchoice
          dsimp only at hchoice
          rw [if_neg hvalid] at hchoice
          split at hchoice
          · exact hchoice
          · exact (List.mem_filter.1 hchoice).1
        obtain ⟨hcerts, hcovers, hevidence⟩ := mem_validCertificates.1 hmem
        refine ⟨cert, hcerts, hcovers, hevidence.valid,
          signatureVerifies_of_delegationCertErrors hevidence.valid, hevidence.unchained, ?_, ?_⟩
        · intro other hother hkey hother' hprincipal
          by_contra hoverlap
          refine hclear ⟨cert, hmem, other, mem_validCertificates.2 ⟨hother, hkey, hother'⟩, ?_⟩
          rw [conflicting, Bool.eq_true_of_not_eq_false hoverlap, Bool.and_true]
          exact decide_eq_true (Ne.symm hprincipal)
        · rw [report, if_neg hvalid]
          exact trueReport_resolvedOutcome

/-! ## Two certificates of one principal -/

namespace WalkSample

/-- JCS of a certificate without a scope whose times are whole numbers. -/
def certificateText (cert : DelegationCertificate) (signature : List (String × String)) : Bytes :=
  let member := fun ((name, text) : String × String) =>
    utf8 "\"" ++ utf8 name ++ utf8 "\":" ++ utf8 text
  let quoted := fun (text : String) => "\"" ++ text ++ "\""
  let number : JsNumber → String
    | .finite q => toString q.num
    | _ => "null"
  let members := (cert.rest.map fun (name, text) => (name, quoted text)) ++
    (cert.contextId.toList.map fun text => ("context_id", quoted text)) ++
    [("not_after", number cert.notAfter)] ++
    (cert.notBefore.toList.map fun x => ("not_before", number x)) ++
    [("principal_key", quoted cert.principalKey), ("run_pubkey", quoted cert.runPubkey)] ++
    signature.map fun (name, text) => (name, quoted text)
  utf8 "\x7b" ++ ((members.map member).intersperse (utf8 ",")).flatten ++ utf8 "\x7d"

def principal : String := "iojj3XQJ8ZX9UtstPLpdcspnCb8dlBIb83SIAbQPb1w"

def runKey : String := "gTl3Dqh9F19Wo1Rmw0x-zMuNipG07jeiXfYPW4_Js5Q"

def firstCertificate : DelegationCertificate where
  principalKey := principal
  runPubkey := runKey
  signature :=
    "T4LWss61BwSVul-RKZbLgpCQSo4ovqRcUFYJRMOMcf3bbAyO6fQL9yBUHx7Fk_2bJ7lFZYZ8BcZzGEGD3puDBw"
  notAfter := .finite 1767312000000
  rest := [("cert_type", "atrib/delegation-cert/v1")]

/-- The principal has certified the key once more, for one context. -/
def secondCertificate : DelegationCertificate where
  principalKey := principal
  runPubkey := runKey
  signature :=
    "w-Fl4WELgvKGYeSQyEDizCLmpKAHFfnlCFxwc46xbpv8yceN2Y1HZkCQ8A-ejDSrSmHH5KEE_rt-YfsAavv_Ag"
  contextId := some "11111111111111111111111111111111"
  notAfter := .finite 1767312000000
  rest := [("cert_type", "atrib/delegation-cert/v1")]

/-- Ed25519 on the two certificates: the principal has signed these messages. -/
def issuedCodec : DelegationCodec where
  canonicalize cert := some (certificateText cert [("signature", cert.signature)])
  canonicalizeUnsigned cert := some (certificateText cert [])
  verify signature message key := [firstCertificate, secondCertificate].any fun cert =>
    base64urlDecode cert.signature = some signature && certificateText cert [] = message &&
      base64urlDecode cert.principalKey = some key

/-- A call made with the run key on the first of January. -/
def call : AtribRecord where
  creatorKey := runKey
  chainRoot := "sha256:8a83665f3798727f14f92ad0e6c99fdab08ee731d6cd644c131223fd2f4fed2a"
  eventType := "https://atrib.dev/v1/types/tool_call"
  contextId := "11111111111111111111111111111111"
  timestamp := 1767225604000

theorem errors_of_issued {cert : DelegationCertificate}
    (hcert : cert ∈ [firstCertificate, secondCertificate])
    (hprincipal : isWellFormedKey cert.principalKey = true)
    (hrun : isWellFormedKey cert.runPubkey = true) (hne : cert.runPubkey ≠ cert.principalKey)
    (hlength : (base64urlDecode cert.signature).any (·.length == 64) = true) :
    delegationCertErrors issuedCodec cert = [] := by
  obtain ⟨sig, hsig, hlength⟩ := (Option.any_eq_true _ _).1 hlength
  obtain ⟨key, hkey, hkeyLength⟩ :=
    (Option.any_eq_true _ _).1 (Bool.and_eq_true_iff.1 hprincipal).2
  have hverify : issuedCodec.verify sig (certificateText cert []) key = true := by
    simp only [issuedCodec, List.any_eq_true]
    exact ⟨cert, hcert, by simp [hsig, hkey]⟩
  have hsigned : delegationCertSignatureVerifies issuedCodec cert = true := by
    simp only [delegationCertSignatureVerifies, hkey, hsig]
    exact Bool.and_eq_true_iff.2 ⟨Bool.and_eq_true_iff.2 ⟨hkeyLength, hlength⟩, hverify⟩
  simp [delegationCertErrors, hprincipal, hrun, hne, hsigned]

theorem runKey_ne_principal : runKey ≠ principal := by simp [runKey, principal]

theorem errors_firstCertificate : delegationCertErrors issuedCodec firstCertificate = [] := by
  refine errors_of_issued (List.mem_pair.2 (.inl rfl)) ?_ ?_ runKey_ne_principal ?_ <;>
    simp only [isWellFormedKey, base64urlDecode_eq] <;> decide +kernel

theorem errors_secondCertificate : delegationCertErrors issuedCodec secondCertificate = [] := by
  refine errors_of_issued (List.mem_pair.2 (.inr rfl)) ?_ ?_ runKey_ne_principal ?_ <;>
    simp only [isWellFormedKey, base64urlDecode_eq] <;> decide +kernel

theorem isEvidence_of_issued {certs : List DelegationCertificate}
    (hrun : ∀ other ∈ certs, other.runPubkey = runKey) {cert : DelegationCertificate}
    (hvalid : delegationCertErrors issuedCodec cert = []) (hprincipal : cert.principalKey = principal) :
    IsEvidence issuedCodec certs cert := by
  refine ⟨hvalid, fun other hother _ => ?_⟩
  rw [hrun other hother, hprincipal]
  decide

/-- The walk reports on the first of the certificates that the principal has issued. -/
theorem evaluateDelegation_issued {certs : List DelegationCertificate} {cert : DelegationCertificate}
    (hissued : ∀ c ∈ cert :: certs, c.runPubkey = runKey ∧ c.principalKey = principal ∧
      delegationCertErrors issuedCodec c = [])
    (hwindow : inWindow cert (.finite 1767225604000) = true) :
    evaluateDelegation .fips180 issuedCodec call none (cert :: certs) {} =
      resolvedOutcome .fips180 issuedCodec call none {} cert := by
  have hrun := fun c hc => (hissued c hc).1
  have hcovering : coveringCertificates call (cert :: certs) = cert :: certs :=
    List.filter_eq_self.2 fun c hc => decide_eq_true (hrun c hc)
  have hvalid : validCertificates issuedCodec call (cert :: certs) = cert :: certs := by
    rw [validCertificates, hcovering]
    refine List.filter_eq_self.2 fun c hc => decide_eq_true (evidenceErrors_eq_nil.2 ?_)
    exact isEvidence_of_issued hrun (hissued c hc).2.2 (hissued c hc).2.1
  have hpairwise : (cert :: certs).Pairwise fun a b => conflicting a b = false :=
    List.pairwise_of_forall_mem_list fun a ha b hb => by
      rw [conflicting, (hissued a ha).2.1, (hissued b hb).2.1]
      simp
  unfold evaluateDelegation
  simp only [hcovering, hvalid, if_pos hpairwise]
  rw [List.find?_cons_of_pos (by exact hwindow)]
  rfl

/-- The record is reported under one certificate or the other, as they are listed. -/
theorem certificates_listed_otherwise :
    ¬ ∀ certs', (∀ cert, cert ∈ certs' ↔ cert ∈ [firstCertificate, secondCertificate]) →
      evaluateDelegation .fips180 issuedCodec call none certs' {} =
        evaluateDelegation .fips180 issuedCodec call none
          [firstCertificate, secondCertificate] {} := by
  intro hall
  have hswapped := congrArg DelegationOutcome.contextBound
    (hall [secondCertificate, firstCertificate] (by simp [or_comm]))
  have hissued : ∀ c ∈ [secondCertificate, firstCertificate], c.runPubkey = runKey ∧
      c.principalKey = principal ∧ delegationCertErrors issuedCodec c = [] := by
    intro c hc
    rcases List.mem_pair.1 hc with rfl | rfl
    · exact ⟨rfl, rfl, errors_secondCertificate⟩
    · exact ⟨rfl, rfl, errors_firstCertificate⟩
  rw [evaluateDelegation_issued hissued (by decide +kernel),
    evaluateDelegation_issued (fun c hc => hissued c (List.mem_pair.2 (List.mem_pair.1 hc).symm))
      (by decide +kernel)] at hswapped
  exact absurd hswapped (by decide)

/-- The call is traced to the principal. -/
theorem depth_one_sound_call :
    (evaluateDelegation .fips180 issuedCodec call none [firstCertificate] {}).depth = 1 ∧
      ∃ cert ∈ [firstCertificate], cert.runPubkey = call.creatorKey ∧
        delegationCertErrors issuedCodec cert = [] ∧
        delegationCertSignatureVerifies issuedCodec cert = true ∧
        (∀ other ∈ [firstCertificate], delegationCertErrors issuedCodec other = [] →
          other.runPubkey ≠ cert.principalKey) ∧
        (∀ other ∈ [firstCertificate], other.runPubkey = call.creatorKey →
          IsEvidence issuedCodec [firstCertificate] other →
            other.principalKey ≠ cert.principalKey → windowsOverlap cert other = false) ∧
        TrueReport .fips180 issuedCodec call none {} cert
          (evaluateDelegation .fips180 issuedCodec call none [firstCertificate] {}) :=
  have hdepth :
      (evaluateDelegation .fips180 issuedCodec call none [firstCertificate] {}).depth = 1 := by
    rw [evaluateDelegation_issued (by simpa using ⟨rfl, rfl, errors_firstCertificate⟩)
      (by decide +kernel)]
    rfl
  ⟨hdepth, depth_one_sound hdepth⟩

end WalkSample

end Atrib.Verify
