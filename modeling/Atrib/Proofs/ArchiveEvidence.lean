import Atrib.ArchiveNode.Server
import Atrib.Proofs.ArchiveDurability
import Mathlib.Data.List.Induction

/-!
# Where published evidence comes from

The blocks of an entry have come in with a submission or been made of an input
of one, and the inputs of an entry have come in with submissions; a merge drops
some of them and makes up none. So every block of an answer is accounted for. A
fact of a record stays what it was until a submission gives it a value.
-/

namespace Atrib.ArchiveNode

open Lib InsertionMap

variable {P : Platform} {V : Verifier} {window : JsNumber}

/-! ## Accounting for a block -/

namespace ArchiveServer

/-- The input has been submitted for the record. -/
def Submitted (s : ArchiveServer) (hash : String) (input : JsValue) : Prop :=
  ∃ submission, (hash, submission) ∈ s.submitted ∧ input ∈ submission.authorizationEvidence

/-- The verifier has made the block of an input submitted for the record. -/
def Computed (s : ArchiveServer) (hash : String) (block : JsValue) : Prop :=
  ∃ input, s.Submitted hash input ∧ ⟨hash, input, block⟩ ∈ s.produced

/-- The block has been submitted for the record as it is. -/
def Precomputed (s : ArchiveServer) (hash : String) (block : JsValue) : Prop :=
  ∃ submission, (hash, submission) ∈ s.submitted ∧ block ∈ submission.evidence

def Accounted (s : ArchiveServer) (hash : String) (block : JsValue) : Prop :=
  s.Computed hash block ∨ s.Precomputed hash block

/-- Nothing that was recorded is gone. -/
structure Grows (s s' : ArchiveServer) : Prop where
  submitted : s.submitted ⊆ s'.submitted
  produced : s.produced ⊆ s'.produced

variable {s s' : ArchiveServer} {hash : String} {input block : JsValue}

theorem Submitted.mono (h : s.Submitted hash input) (hgrows : s.Grows s') :
    s'.Submitted hash input := by
  obtain ⟨submission, hmem, hinput⟩ := h
  exact ⟨submission, hgrows.submitted hmem, hinput⟩

theorem Accounted.mono (h : s.Accounted hash block) (hgrows : s.Grows s') :
    s'.Accounted hash block := by
  rcases h with ⟨input, hinput, hproduced⟩ | ⟨submission, hmem, hblock⟩
  · exact Or.inl ⟨input, hinput.mono hgrows, hgrows.produced hproduced⟩
  · exact Or.inr ⟨submission, hgrows.submitted hmem, hblock⟩

end ArchiveServer

/-! ## What is stored of a submission -/

theorem mem_of_selectInputs {x401 : Bool} {inputs selected : List JsValue}
    (h : selectInputs x401 inputs = .ok selected) {input : JsValue} (hinput : input ∈ selected) :
    input ∈ inputs := by
  induction inputs generalizing selected with
  | nil =>
      obtain rfl := Except.ok.inj h
      exact hinput
  | cons first inputs ih =>
      rw [selectInputs] at h
      cases htest : isX401AuthorizationEvidence first with
      | error e => simp [htest, bind, Except.bind] at h
      | ok isX401 =>
          cases hrest : selectInputs x401 inputs with
          | error e => simp [htest, hrest, bind, Except.bind] at h
          | ok rest =>
              simp only [htest, hrest, bind, Except.bind, pure, Except.pure, Except.ok.injEq] at h
              rw [← h] at hinput
              split at hinput
              · rcases List.mem_cons.1 hinput with rfl | hmem
                · exact List.mem_cons_self
                · exact List.mem_cons_of_mem _ (ih hrest hmem)
              · exact List.mem_cons_of_mem _ (ih hrest hinput)

/-- A submission is stored with some of its inputs, its own blocks and blocks
that have been made of its inputs. -/
theorem sanitize_spec {nowMs : JsNumber} {submission storage : ArchiveSubmissionEnvelope}
    {inputs : List JsValue}
    (h : sanitizeEvidenceBeforeStorage P V nowMs submission = .ok (storage, inputs)) :
    storage.record = submission.record ∧ storage.resolvedFacts = submission.resolvedFacts ∧
      (∀ input ∈ storage.authorizationEvidence, input ∈ submission.authorizationEvidence) ∧
      (∀ input ∈ inputs, input ∈ submission.authorizationEvidence) ∧
      ∀ block ∈ storage.evidence, block ∈ submission.evidence ∨
        ∃ input ∈ inputs, block = V.verifyAuthorizationEvidence nowMs input := by
  rw [sanitizeEvidenceBeforeStorage] at h
  cases hx401 : selectInputs true submission.authorizationEvidence with
  | error e => simp [hx401, bind, Except.bind] at h
  | ok x401Inputs =>
      simp only [hx401, bind, Except.bind, pure, Except.pure] at h
      split at h
      · obtain ⟨rfl, rfl⟩ := Prod.mk.inj (Except.ok.inj h)
        exact ⟨rfl, rfl, fun _ hinput => hinput, fun _ hinput => (List.not_mem_nil hinput).elim,
          fun _ hblock => Or.inl hblock⟩
      · cases hkept : selectInputs false submission.authorizationEvidence with
        | error e => simp [hkept] at h
        | ok kept =>
            simp only [hkept] at h
            obtain ⟨rfl, rfl⟩ := Prod.mk.inj (Except.ok.inj h)
            refine ⟨rfl, rfl, fun input hinput => mem_of_selectInputs hkept hinput,
              fun _ hinput => hinput, fun block hblock => ?_⟩
            rcases List.mem_append.1 (mem_of_mem_unseenObjects hblock) with hmem | hmem
            · exact Or.inl hmem
            · obtain ⟨input, hinput, rfl⟩ := List.mem_map.1 (List.mem_of_mem_filter hmem)
              exact Or.inr ⟨input, hinput, rfl⟩

/-! ## The entries after a put -/

theorem nextEntry_spec {submission : ArchiveSubmissionEnvelope} {nowMs : JsNumber}
    {next : StoredArchiveEntry}
    (h : ArchiveStore.nextEntry P window submission nowMs = some next) :
    recordHash P submission.record = some next.recordHash ∧
      next.authorizationEvidence = submission.authorizationEvidence ∧
      next.evidence = submission.evidence ∧ next.resolvedFacts = submission.resolvedFacts := by
  rw [ArchiveStore.nextEntry] at h
  cases hhash : recordHash P submission.record with
  | none => simp [hhash] at h
  | some hash =>
      simp only [hhash, Option.bind_eq_bind, Option.bind_some] at h
      obtain ⟨_, -, h⟩ := Option.bind_eq_some_iff.1 h
      rw [← Option.some.inj h]
      exact ⟨rfl, rfl, rfl, rfl⟩

theorem entries_put {s : ArchiveStore} {submission : ArchiveSubmissionEnvelope} {nowMs : JsNumber}
    {next : StoredArchiveEntry}
    (h : ArchiveStore.nextEntry P window submission nowMs = some next) :
    (s.put P window submission nowMs).entries =
      s.entries.set next.recordHash (s.mergedEntry P next) := by
  rw [ArchiveStore.put, h]
  simp only
  split <;> rfl

/-- A merged entry has nothing that neither the old nor the new entry has. -/
theorem mergedEntry_sub {s : ArchiveStore} {next : StoredArchiveEntry} :
    (∀ input ∈ (s.mergedEntry P next).authorizationEvidence, input ∈ next.authorizationEvidence ∨
      ∃ existing, s.entries.get? next.recordHash = some existing ∧
        input ∈ existing.authorizationEvidence) ∧
    ∀ block ∈ (s.mergedEntry P next).evidence, block ∈ next.evidence ∨
      ∃ existing, s.entries.get? next.recordHash = some existing ∧ block ∈ existing.evidence := by
  rw [ArchiveStore.mergedEntry]
  cases hget : s.entries.get? next.recordHash with
  | none => exact ⟨fun _ h => Or.inl h, fun _ h => Or.inl h⟩
  | some existing =>
      constructor
      all_goals
        intro item hitem
        rcases List.mem_append.1 (mem_of_mem_unseenObjects hitem) with hmem | hmem
        · exact Or.inr ⟨existing, rfl, hmem⟩
        · exact Or.inl hmem

theorem mergedEntry_recordHash {s : ArchiveStore} {next : StoredArchiveEntry}
    (h : ∀ existing, s.entries.get? next.recordHash = some existing →
      existing.recordHash = next.recordHash) :
    (s.mergedEntry P next).recordHash = next.recordHash := by
  rw [ArchiveStore.mergedEntry]
  cases hget : s.entries.get? next.recordHash with
  | none => rfl
  | some existing => exact h existing hget

/-- A fact of the old entry is there with its value or with the one that the
new entry gives it. -/
theorem exists_fact_mergeEntries {existing next : StoredArchiveEntry} {fact : String × JsValue}
    (hfact : fact ∈ existing.facts.entries) :
    ∃ value, (fact.1, value) ∈ (mergeEntries P existing next).facts.entries ∧
      (value = fact.2 ∨ (fact.1, value) ∈ next.facts.entries) := by
  rw [facts_mergeEntries]
  by_cases hgiven : ∃ value, (fact.1, value) ∈ next.facts.entries
  · obtain ⟨value, hvalue⟩ := hgiven
    exact ⟨value, mem_entries_setAll_of_nodup next.facts.nodup hvalue, Or.inr hvalue⟩
  · refine ⟨fact.2, mem_entries_setAll_of_agree hfact fun e he hkey => ?_, Or.inl rfl⟩
    exact absurd ⟨e.2, hkey ▸ he⟩ hgiven

/-! ## What holds along a run -/

namespace ArchiveServer

/-- What is stored and what has been answered is accounted for. -/
structure Traced (s : ArchiveServer) : Prop where
  keyed : ∀ hash entry, s.store.entries.get? hash = some entry → entry.recordHash = hash
  inputs : ∀ hash entry, s.store.entries.get? hash = some entry →
    ∀ input ∈ entry.authorizationEvidence, s.Submitted hash input
  evidence : ∀ hash entry, s.store.entries.get? hash = some entry →
    ∀ block ∈ entry.evidence, s.Accounted hash block
  answers : ∀ reply ∈ s.answers, ∀ body, reply.body? = some body →
    ∀ block ∈ body.evidence, s.Accounted body.recordHash block

/-- The facts of the records are those they had, but for values that later
submissions give. -/
def FactsKept (s s' : ArchiveServer) : Prop :=
  ∃ later, s'.submitted = s.submitted ++ later ∧
    ∀ hash entry, s.store.entries.get? hash = some entry →
      ∃ entry', s'.store.entries.get? hash = some entry' ∧
        ∀ fact ∈ entry.facts.entries, ∃ value, (fact.1, value) ∈ entry'.facts.entries ∧
          (value = fact.2 ∨ ∃ submission, (hash, submission) ∈ later ∧
            (fact.1, value) ∈ (submission.resolvedFacts.getD ∅).entries)

theorem FactsKept.of_eq {s s' : ArchiveServer} (hsubmitted : s'.submitted = s.submitted)
    (hstore : s'.store = s.store) : FactsKept s s' := by
  refine ⟨[], by rw [hsubmitted, List.append_nil], fun hash entry h => ⟨entry, ?_, ?_⟩⟩
  · rw [hstore]
    exact h
  · exact fun fact hfact => ⟨fact.2, hfact, Or.inl rfl⟩

theorem FactsKept.trans {a b c : ArchiveServer} (hab : FactsKept a b) (hbc : FactsKept b c) :
    FactsKept a c := by
  obtain ⟨first, hfirst, hab⟩ := hab
  obtain ⟨second, hsecond, hbc⟩ := hbc
  refine ⟨first ++ second, by rw [hsecond, hfirst, List.append_assoc], fun hash entry h => ?_⟩
  obtain ⟨entry', hentry', hfacts⟩ := hab hash entry h
  obtain ⟨entry'', hentry'', hfacts'⟩ := hbc hash entry' hentry'
  refine ⟨entry'', hentry'', fun fact hfact => ?_⟩
  obtain ⟨value, hvalue, hfrom⟩ := hfacts fact hfact
  obtain ⟨value', hvalue', hfrom'⟩ := hfacts' (fact.1, value) hvalue
  refine ⟨value', hvalue', ?_⟩
  rcases hfrom' with rfl | ⟨submission, hmem, hgiven⟩
  · rcases hfrom with heq | ⟨submission, hmem, hgiven⟩
    · exact Or.inl heq
    · exact Or.inr ⟨submission, List.mem_append_left _ hmem, hgiven⟩
  · exact Or.inr ⟨submission, List.mem_append_right _ hmem, hgiven⟩

namespace Traced

variable {s : ArchiveServer} (h : Traced s)

include h

/-- A step that leaves the entries alone and answers with no body. -/
theorem answer {reply : Answer} (hreply : reply.body? = none) : Traced (s.answer reply) where
  keyed := h.keyed
  inputs := h.inputs
  evidence := h.evidence
  answers r hr body hbody := by
    rcases List.mem_append.1 hr with hr | hr
    · exact h.answers r hr body hbody
    · rw [List.mem_singleton.1 hr, hreply] at hbody
      cases hbody

theorem verify (hash : String) (nowMs : JsNumber) (inputs : List JsValue) :
    Traced (s.verify V hash nowMs inputs) := by
  have hgrows : s.Grows (s.verify V hash nowMs inputs) :=
    ⟨fun _ hmem => hmem, fun _ hmem => List.mem_append_left _ hmem⟩
  exact ⟨h.keyed, fun hash entry he input hi => (h.inputs hash entry he input hi).mono hgrows,
    fun hash entry he block hb => (h.evidence hash entry he block hb).mono hgrows,
    fun reply hr body hbody block hb => (h.answers reply hr body hbody block hb).mono hgrows⟩

/-- An entry whose inputs and blocks are accounted for gives such an answer. -/
theorem respond {entry : StoredArchiveEntry} {nowMs : JsNumber} {reply : RecordResponse → Answer}
    (hreply : ∀ body, (reply body).body? = some body)
    (hinputs : ∀ input ∈ entry.authorizationEvidence, s.Submitted entry.recordHash input)
    (hevidence : ∀ block ∈ entry.evidence, s.Accounted entry.recordHash block) :
    Traced (s.respond P V nowMs entry reply) := by
  have hverify : Traced (s.verify V entry.recordHash nowMs entry.authorizationEvidence) :=
    h.verify entry.recordHash nowMs entry.authorizationEvidence
  have hgrows : s.Grows (s.respond P V nowMs entry reply) :=
    ⟨fun _ hmem => hmem, fun _ hmem => List.mem_append_left _ hmem⟩
  refine { hverify with answers := fun r hr body hbody block hblock => ?_ }
  rcases List.mem_append.1 hr with hr | hr
  · exact hverify.answers r hr body hbody block hblock
  · rw [List.mem_singleton.1 hr, hreply] at hbody
    obtain rfl := Option.some.inj hbody
    rcases List.mem_append.1 (mem_of_mem_unseenObjects hblock) with hmem | hmem
    · exact (hevidence block hmem).mono hgrows
    · -- the block is made now
      obtain ⟨input, hinput, rfl⟩ := List.mem_map.1 hmem
      refine Or.inl ⟨input, (hinputs input hinput).mono hgrows, ?_⟩
      exact List.mem_append_right _ (List.mem_map.2 ⟨input, hinput, rfl⟩)

/-- What a submission is stored as is accounted for by what is recorded of it. -/
theorem store {hash : String} {submission storage : ArchiveSubmissionEnvelope}
    {verifiedMs storedMs : JsNumber} {inputs : List JsValue} {next : StoredArchiveEntry}
    (hhash : recordHash P submission.record = some hash)
    (hsanitize : sanitizeEvidenceBeforeStorage P V verifiedMs submission = .ok (storage, inputs))
    (hnext : ArchiveStore.nextEntry P window storage storedMs = some next) :
    let verified := s.verify V hash verifiedMs inputs
    let s' : ArchiveServer := { verified with
      store := verified.store.put P window storage storedMs
      submitted := verified.submitted ++ [(hash, submission)] }
    Traced s' ∧ s'.store.entries.get? hash = some (s.store.mergedEntry P next) ∧
      FactsKept s s' := by
  intro verified s'
  obtain ⟨hrecord, hfacts, hsome, hverified, hblocks⟩ := sanitize_spec hsanitize
  obtain ⟨hkey, hnextInputs, hnextEvidence, hnextFacts⟩ := nextEntry_spec hnext
  rw [hrecord, hhash] at hkey
  obtain rfl := Option.some.inj hkey
  have hgrows : s.Grows s' :=
    ⟨fun _ hmem => List.mem_append_left _ hmem, fun _ hmem => List.mem_append_left _ hmem⟩
  have hentries : s'.store.entries =
      s.store.entries.set next.recordHash (s.store.mergedEntry P next) := entries_put hnext
  have hmine : ∀ input ∈ submission.authorizationEvidence, s'.Submitted next.recordHash input :=
    fun input hinput =>
      ⟨submission, List.mem_append_right _ (List.mem_singleton_self _), hinput⟩
  have hmergedKey : (s.store.mergedEntry P next).recordHash = next.recordHash :=
    mergedEntry_recordHash fun existing hexisting => h.keyed _ existing hexisting
  have hmergedInputs : ∀ input ∈ (s.store.mergedEntry P next).authorizationEvidence,
      s'.Submitted next.recordHash input := by
    intro input hinput
    rcases mergedEntry_sub.1 input hinput with hmem | ⟨existing, hexisting, hmem⟩
    · rw [hnextInputs] at hmem
      exact hmine input (hsome input hmem)
    · exact (h.inputs _ existing hexisting input hmem).mono hgrows
  have hmergedEvidence : ∀ block ∈ (s.store.mergedEntry P next).evidence,
      s'.Accounted next.recordHash block := by
    intro block hblock
    rcases mergedEntry_sub.2 block hblock with hmem | ⟨existing, hexisting, hmem⟩
    · rw [hnextEvidence] at hmem
      rcases hblocks block hmem with hgiven | ⟨input, hinput, rfl⟩
      · exact Or.inr ⟨submission, List.mem_append_right _ (List.mem_singleton_self _), hgiven⟩
      · refine Or.inl ⟨input, hmine input (hverified input hinput), ?_⟩
        exact List.mem_append_right _ (List.mem_map.2 ⟨input, hinput, rfl⟩)
    · exact (h.evidence _ existing hexisting block hmem).mono hgrows
  refine ⟨⟨?_, ?_, ?_, ?_⟩, ?_, ?_⟩
  · intro hash entry hentry
    rw [hentries, get?_set] at hentry
    split at hentry
    · next heq => rw [← Option.some.inj hentry, hmergedKey, heq]
    · exact h.keyed hash entry hentry
  · intro hash entry hentry
    rw [hentries, get?_set] at hentry
    split at hentry
    · next heq =>
        rw [← Option.some.inj hentry, heq]
        exact hmergedInputs
    · exact fun input hinput => (h.inputs hash entry hentry input hinput).mono hgrows
  · intro hash entry hentry
    rw [hentries, get?_set] at hentry
    split at hentry
    · next heq =>
        rw [← Option.some.inj hentry, heq]
        exact hmergedEvidence
    · exact fun block hblock => (h.evidence hash entry hentry block hblock).mono hgrows
  · exact fun reply hr body hbody block hb => (h.answers reply hr body hbody block hb).mono hgrows
  · rw [hentries, get?_set_self]
  · refine ⟨[(next.recordHash, submission)], rfl, fun hash entry hentry => ?_⟩
    rw [hentries, get?_set]
    split
    · next heq =>
        subst heq
        refine ⟨_, rfl, fun fact hfact => ?_⟩
        have hmerged : s.store.mergedEntry P next = mergeEntries P entry next := by
          rw [ArchiveStore.mergedEntry, hentry]
        rw [hmerged]
        obtain ⟨value, hvalue, hfrom⟩ := @exists_fact_mergeEntries P entry next fact hfact
        refine ⟨value, hvalue, hfrom.imp_right fun hgiven => ?_⟩
        rw [StoredArchiveEntry.facts, hnextFacts, hfacts] at hgiven
        exact ⟨submission, List.mem_singleton_self _, hgiven⟩
    · exact ⟨entry, hentry, fun fact hfact => ⟨fact.2, hfact, Or.inl rfl⟩⟩

theorem archive {hash : String} {submission : ArchiveSubmissionEnvelope}
    {verifiedMs storedMs answeredMs : JsNumber}
    (hhash : recordHash P submission.record = some hash) :
    Traced (s.archive P V window hash submission verifiedMs storedMs answeredMs) ∧
      FactsKept s (s.archive P V window hash submission verifiedMs storedMs answeredMs) := by
  rw [ArchiveServer.archive]
  cases hsanitize : sanitizeEvidenceBeforeStorage P V verifiedMs submission with
  | error e => exact ⟨h.answer rfl, FactsKept.of_eq rfl rfl⟩
  | ok sanitized =>
      obtain ⟨storage, inputs⟩ := sanitized
      simp only
      cases hnext : ArchiveStore.nextEntry P window storage storedMs with
      | none => exact ⟨(h.verify hash verifiedMs inputs).answer rfl, FactsKept.of_eq rfl rfl⟩
      | some next =>
          obtain ⟨htraced, hentry, hfacts⟩ := h.store hhash hsanitize hnext
          refine ⟨htraced.respond (fun _ => rfl) ?_ ?_, hfacts⟩
          · have hkey := htraced.keyed _ _ hentry
            exact fun input hinput => hkey ▸ htraced.inputs _ _ hentry input hinput
          · have hkey := htraced.keyed _ _ hentry
            exact fun block hblock => hkey ▸ htraced.evidence _ _ hentry block hblock

theorem step (move : ServerMove) :
    Traced (s.step P V window move) ∧ FactsKept s (s.step P V window move) := by
  have hanswer : ∀ reply : Answer, reply.body? = none →
      Traced (s.answer reply) ∧ FactsKept s (s.answer reply) :=
    fun reply hreply => ⟨h.answer hreply, FactsKept.of_eq rfl rfl⟩
  cases move with
  | submit body commitment verifiedMs storedMs answeredMs =>
      rw [ArchiveServer.step]
      cases body with
      | tooLarge => exact hanswer _ rfl
      | invalid => exact hanswer _ rfl
      | json parsed =>
          rw [ArchiveServer.handleSubmit]
          cases normalizeArchiveSubmission parsed with
          | error e => exact hanswer _ rfl
          | ok submission =>
              simp only
              split
              · cases hhash : recordHash P submission.record with
                | none => exact hanswer _ rfl
                | some hash =>
                    cases commitment with
                    | error detail => exact hanswer _ rfl
                    | ok _ => exact h.archive hhash
              · exact hanswer _ rfl
  | read hash evidenceOnly nowMs =>
      rw [ArchiveServer.step, get]
      cases hget : s.store.entries.get? hash with
      | none => exact hanswer _ rfl
      | some entry =>
          simp only
          by_cases hexpired : (entry.archivedAtMs.add entry.retentionWindowMs).lt nowMs = true
          · rw [if_pos hexpired]
            exact hanswer _ rfl
          · rw [if_neg hexpired, ArchiveServer.handleRecord]
            have hkey := h.keyed hash entry hget
            refine ⟨h.respond (fun body => ?_) ?_ ?_, FactsKept.of_eq rfl rfl⟩
            · cases evidenceOnly <;> rfl
            · exact hkey ▸ h.inputs hash entry hget
            · exact hkey ▸ h.evidence hash entry hget

end Traced

theorem traced_start : Traced {} where
  keyed _ _ h := by cases h
  inputs _ _ h := by cases h
  evidence _ _ h := by cases h
  answers _ h := by cases h

/-- Every block of evidence that is answered for a record has been made by the
verifier of an input submitted for that record, or submitted for it as it is;
and a fact that a record has keeps its value until a submission for the record
gives it another. -/
theorem archive_traces (P : Platform) (V : Verifier) (window : JsNumber)
    (moves later : List ServerMove) :
    (∀ reply ∈ (run (step P V window) {} moves).answers, ∀ body, reply.body? = some body →
      ∀ block ∈ body.evidence,
        (run (step P V window) {} moves).Computed body.recordHash block ∨
          (run (step P V window) {} moves).Precomputed body.recordHash block) ∧
      FactsKept (run (step P V window) {} moves) (run (step P V window) {} (moves ++ later)) := by
  have htraced : ∀ moves, Traced (run (step P V window) {} moves) := by
    intro moves
    induction moves using List.reverseRecOn with
    | nil => exact traced_start
    | append_singleton moves move ih =>
        rw [run_snoc]
        exact (ih.step move).1
  refine ⟨(htraced moves).answers, ?_⟩
  induction later using List.reverseRecOn with
  | nil =>
      rw [List.append_nil]
      exact FactsKept.of_eq rfl rfl
  | append_singleton later move ih =>
      rw [← List.append_assoc, run_snoc]
      exact ih.trans ((htraced _).step move).2

end ArchiveServer

/-! ### A block that nobody has verified -/

namespace EvidenceSample

open ArchiveSample (stringify)

/-- An observation whose signature verifies. -/
def signedRecord : AtribRecordLike :=
  ⟨.object [
    ("chain_root",
      .string "sha256:3ba3f5f43b92602683c19aee62a20342b084dd5971ddd33808d81a328879a547"),
    ("content_id",
      .string "sha256:0000000000000000000000000000000000000000000000000000000000000000"),
    ("context_id", .string "aaaaaaaaaaaaaaaaaaaaaaaaaaaaaaaa"),
    ("creator_key", .string "iojj3XQJ8ZX9UtstPLpdcspnCb8dlBIb83SIAbQPb1w"),
    ("event_type", .string "https://atrib.dev/v1/types/observation"),
    ("signature", .string ("A7aqpdKiD8AQpke0M2agaGwGqYWoZ0u8_Tzqsfqcf5W" ++
      "75nFav6zjaFpHSIrDkL_4VWjG9OCUuhRYvpEk5z3HCw")),
    ("spec_version", .string "atrib/1.0"), ("timestamp", .number (.finite 1))], by decide⟩

/-- SHA-256, the digest of the record being known. -/
def signedHash : Hash where
  sha256 data :=
    if data = stringify signedRecord.val then
      hexBytes "9b8685d75cd18834b5ce889631c8dd3a3ad585f05dd67b3edf56ffb6513d4c54".toList
    else Hash.fips180.sha256 data
  length_sha256 data := by
    split
    · decide +kernel
    · exact Hash.length_sha256 _ _

def signedPlatform : Platform where
  canonicalRecord value := some (stringify value)
  hash := signedHash
  stringify := stringify
  parse _ := none

def verifier : Verifier where
  signatureOk record := decide (record = signedRecord)
  verifyAuthorizationEvidence _ _ :=
    .object [("protocol", .string "oauth"), ("valid", .bool false)]

/-- A block as the verifier would make it of a token that is valid. -/
def claimedBlock : JsValue :=
  .object [("protocol", .string "oauth"), ("valid", .bool true), ("subject", .string "alice")]

/-- The block is submitted by itself, with no token. -/
def claimedMoves : List ServerMove :=
  [.submit (.json (.object [("record", signedRecord.val), ("evidence", .array [claimedBlock])]))
    (.ok ()) (.finite 2) (.finite 2) (.finite 2)]

def claimedServer : ArchiveServer :=
  run (ArchiveServer.step signedPlatform verifier (.finite 9)) {} claimedMoves

/-- The archive answers with the block although its verifier has made none. -/
theorem evidence_not_computed :
    ∃ reply ∈ claimedServer.answers, ∃ body, reply.body? = some body ∧
      ∃ block ∈ body.evidence, ¬claimedServer.Computed body.recordHash block := by
  have hproduced : claimedServer.produced.length = 0 := by decide +kernel
  have hevidence : (claimedServer.answers.filterMap Answer.body?).map (·.evidence) =
      [[claimedBlock]] := by decide +kernel
  have hmem : [claimedBlock] ∈ (claimedServer.answers.filterMap Answer.body?).map (·.evidence) := by
    rw [hevidence]
    exact List.mem_singleton_self _
  obtain ⟨body, hbody, hblocks⟩ := List.mem_map.1 hmem
  obtain ⟨reply, hreply, hsome⟩ := List.mem_filterMap.1 hbody
  refine ⟨reply, hreply, body, hsome, claimedBlock, hblocks ▸ List.mem_singleton_self _, ?_⟩
  rintro ⟨input, -, hmade⟩
  rw [List.length_eq_zero_iff.1 hproduced] at hmade
  cases hmade

end EvidenceSample

end Atrib.ArchiveNode
