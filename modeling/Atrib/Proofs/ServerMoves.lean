import Atrib.LogNode.Server
import Atrib.Proofs.TreeRuns

/-!
# What a stretch of the event loop can do

`Move` lists every way a step changes a server whose tree holds `raw`, guards
included, and `step_move` is the one place the handlers are unfolded: the
errors that cannot happen over such a tree are gone from it, and a bundle in
flight is written out as the proof for an index at a size. The invariants of
the following files are case analyses of `Move`.

`LockOrder` is the first of them. A submission leaves the queue only when all
submissions before it have released the lock, so at most one is inside.
-/

namespace Atrib.LogNode

open Lib.Merkle
open MerkleTree (Represents append_cases)

variable (H : Hash)

/-- The bundle for an index of a list of entries. -/
def pendingOf (raw : List Bytes) (i : ℕ) : PendingBundle where
  logIndex := i
  treeSize := raw.length
  inclusionProof := (auditPath H.nodeHash (H.leafAt raw) i 0 raw.length).reverse
  leafHash := H.leafAt raw i
  rootHash := H.rootOf raw

theorem beginProofBundle_eq {tree : MerkleTree} {raw : List Bytes} (h : Represents H tree raw)
    {i : ℕ} (hi : i < raw.length) : beginProofBundle H tree i = .ok (pendingOf H raw i) := by
  rw [beginProofBundle, h.inclusionProof_eq hi, h.leafHash_eq hi,
    h.root_eq (List.ne_nil_of_length_pos (by omega)), h.size_eq, ← H.leafAt_of_lt hi]
  rfl

/-- Every change of a server over `raw`. -/
inductive Move (raw : List Bytes) (s : Server) : Action → Server → List Bytes → Prop
  | stay (a : Action) : Move raw s a s raw
  | errored (a : Action) (status : ℕ) (message : String) :
      Move raw s a (s.respond (.error status message)) raw
  | answered (a : Action) {recordHash : Bytes} {proof : ProofBundle}
      (hget : s.proofCache.get recordHash = some proof) :
      Move raw s a (s.respond (.proof recordHash proof)) raw
  | enqueued (entry : EntryInput) :
      Move raw s (.submit entry) { s with submissions := s.submissions ++ [.waiting entry] } raw
  | deduplicated {ticket : ℕ} {io : AppendIo} {entry : EntryInput} {proof : ProofBundle}
      (hwait : s.submissions[ticket]? = some (.waiting entry))
      (hlock : s.lockFree ticket = true)
      (hget : s.proofCache.get entry.recordHash = some proof) :
      Move raw s (.resume ticket io)
        ((s.respond (.proof entry.recordHash proof)).setSubmission ticket .released) raw
  | appendFailed {ticket : ℕ} {io : AppendIo} {entry : EntryInput} {tree : MerkleTree}
      (hwait : s.submissions[ticket]? = some (.waiting entry))
      (hlock : s.lockFree ticket = true) (htree : Represents H tree raw) :
      Move raw s (.resume ticket io)
        (({ s with tree := tree }.setSubmission ticket .released).respond
          (.error 500 "internal error")) raw
  | appended {ticket : ℕ} {io : AppendIo} {entry : EntryInput} {tree : MerkleTree}
      (hwait : s.submissions[ticket]? = some (.waiting entry))
      (hlock : s.lockFree ticket = true)
      (hmiss : s.proofCache.get entry.recordHash = none)
      (htree : Represents H tree (raw ++ [serializeEntry entry])) :
      Move raw s (.resume ticket io)
        ({ s with tree := tree }.setSubmission ticket
          (.signing entry (pendingOf H (raw ++ [serializeEntry entry]) raw.length)))
        (raw ++ [serializeEntry entry])
  | submitSigned {ticket : ℕ} {signature : Bytes} {entry : EntryInput} {pending : PendingBundle}
      (hsign : s.submissions[ticket]? = some (.signing entry pending)) :
      Move raw s (.submitSigned ticket signature)
        ((((s.remember entry.recordHash (pending.signed signature)).setSubmission ticket
          .released).respond (.proof entry.recordHash
            (pending.signed signature))).notifySubscribers
              (decodeEntry (serializeEntry entry) pending.logIndex)) raw
  | submitSignFailed {ticket : ℕ} {entry : EntryInput} {pending : PendingBundle}
      (hsign : s.submissions[ticket]? = some (.signing entry pending)) :
      Move raw s (.submitSignFailed ticket)
        { (s.setSubmission ticket .released).respond (.error 500 "internal error") with
          signerFailed := true } raw
  | lookupBegun {recordHash : Bytes} {i : ℕ} (hi : i < raw.length)
      (hhash : recordHashOf raw[i] = recordHash) :
      Move raw s (.lookup recordHash)
        { s with lookups := s.lookups ++ [.signing recordHash (pendingOf H raw i)] } raw
  | lookupSigned {id : ℕ} {signature : Bytes} {recordHash : Bytes} {pending : PendingBundle}
      (hsign : s.lookups[id]? = some (.signing recordHash pending)) :
      Move raw s (.lookupSigned id signature)
        { (s.remember recordHash (pending.signed signature)).respond
            (.proof recordHash (pending.signed signature)) with
          lookups := s.lookups.set id .done } raw
  | lookupSignFailed {id : ℕ} (a : Action) :
      Move raw s a
        { s.respond (.error 500 "internal error") with
          lookups := s.lookups.set id .done, signerFailed := true } raw
  | checkpointBegun (a : Action) :
      Move raw s a
        { s with checkpoints := s.checkpoints ++ [.signing raw.length (H.rootOf raw)] } raw
  | checkpointSigned (a : Action) {id treeSize : ℕ} {rootHash signature : Bytes} :
      Move raw s a
        { s.respond (.checkpoint ⟨treeSize, rootHash, signature⟩) with
          checkpoints := s.checkpoints.set id .done } raw
  | checkpointSignFailed (a : Action) {id : ℕ} :
      Move raw s a
        { s.respond (.error 500 "internal error") with
          checkpoints := s.checkpoints.set id .done, signerFailed := true } raw
  | connected (filters : LogEntryFilters) {events : List StreamEvent}
      (hevents : filters.afterIndex.isSome → events = Server.replay s.tree filters) :
      Move raw s (.connect filters)
        { s with
          subscribers := s.subscribers ++ [⟨filters, (s.tree.size : ℤ) - 1, true, events⟩] } raw
  | disconnected (id : ℕ) :
      Move raw s (.disconnect id)
        { s with
          subscribers := s.subscribers.modify id fun sub => { sub with connected := false } } raw

theorem resume_move {s : Server} {raw : List Bytes} (h : Represents H s.tree raw) (ticket : ℕ)
    (io : AppendIo) : ∃ raw', Move H raw s (.resume ticket io) (s.resume H ticket io) raw' := by
  rw [Server.resume]
  split
  · next entry hwait =>
      split
      · next hlock =>
          split
          · next proof hget => exact ⟨raw, .deduplicated hwait hlock hget⟩
          · next hmiss =>
              rcases append_cases H h ⟨serializeEntry entry, io⟩ with
                ⟨hok, hrep, -⟩ | ⟨k, message, herr, hrep, -⟩
              · have hbegin := beginProofBundle_eq H hrep (i := raw.length) (by simp)
                simp only [MerkleTree.step] at hbegin hrep
                simp only [hok, hbegin]
                exact ⟨_, .appended hwait hlock hmiss hrep⟩
              · simp only [herr]
                exact ⟨raw, .appendFailed hwait hlock hrep⟩
      · exact ⟨raw, .stay _⟩
  · exact ⟨raw, .stay _⟩

theorem lookup_move {s : Server} {raw : List Bytes} (h : Represents H s.tree raw)
    (recordHash : Bytes) :
    Move H raw s (.lookup recordHash) (s.lookup H recordHash) raw := by
  rw [Server.lookup]
  split
  · next proof hget => exact .answered _ hget
  · split
    · exact .errored _ _ _
    · next i hi =>
        obtain ⟨hlt, hhash, -⟩ := List.findIdx?_eq_some_iff_getElem.1 hi
        rw [h.rawEntries] at hlt
        simp only [h.rawEntries, decide_eq_true_eq] at hhash
        rw [beginProofBundle_eq H h hlt]
        exact .lookupBegun hlt hhash

theorem checkpoint_move {s : Server} {raw : List Bytes} (h : Represents H s.tree raw) :
    Move H raw s .checkpoint (s.checkpoint H) raw := by
  rw [Server.checkpoint, h.size_eq]
  split
  · exact .errored _ _ _
  · next hpos =>
      rw [h.root_eq (by rintro rfl; exact hpos rfl)]
      exact .checkpointBegun _

/-- Every step is a move. -/
theorem step_move {s : Server} {raw : List Bytes} (h : Represents H s.tree raw) (a : Action) :
    ∃ raw', Move H raw s a (s.step H a) raw' := by
  cases a with
  | submit entry =>
      rw [Server.step, Server.submit]
      split
      · next proof hget => exact ⟨raw, .answered _ hget⟩
      · exact ⟨raw, .enqueued entry⟩
  | resume ticket io => exact resume_move H h ticket io
  | submitSigned ticket signature =>
      rw [Server.step, Server.submitSigned]
      split
      · next entry pending hsign => exact ⟨raw, .submitSigned hsign⟩
      · exact ⟨raw, .stay _⟩
  | submitSignFailed ticket =>
      rw [Server.step, Server.submitSignFailed]
      split
      · next entry pending hsign => exact ⟨raw, .submitSignFailed hsign⟩
      · exact ⟨raw, .stay _⟩
  | lookup recordHash => exact ⟨raw, lookup_move H h recordHash⟩
  | lookupSigned id signature =>
      rw [Server.step, Server.lookupSigned]
      split
      · next recordHash pending hsign => exact ⟨raw, .lookupSigned hsign⟩
      · exact ⟨raw, .stay _⟩
  | lookupSignFailed id =>
      rw [Server.step, Server.lookupSignFailed]
      split
      · exact ⟨raw, .lookupSignFailed _⟩
      · exact ⟨raw, .stay _⟩
  | checkpoint => exact ⟨raw, checkpoint_move H h⟩
  | checkpointSigned id signature =>
      rw [Server.step, Server.checkpointSigned]
      split
      · exact ⟨raw, .checkpointSigned _⟩
      · exact ⟨raw, .stay _⟩
  | checkpointSignFailed id =>
      rw [Server.step, Server.checkpointSignFailed]
      split
      · exact ⟨raw, .checkpointSignFailed _⟩
      · exact ⟨raw, .stay _⟩
  | connect filters =>
      rw [Server.step, Server.connect]
      split
      · exact ⟨raw, .errored _ _ _⟩
      · exact ⟨raw, .connected filters fun hafter => by simp [hafter]⟩
  | disconnect id => exact ⟨raw, .disconnected id⟩

/-! ## The tree and the lock -/

theorem Move.represents {H : Hash} {raw raw' : List Bytes} {s s' : Server} {a : Action}
    (h : Represents H s.tree raw) (hmove : Move H raw s a s' raw') :
    Represents H s'.tree raw' := by
  cases hmove with
  | appendFailed _ _ htree => exact htree
  | appended _ _ _ htree => exact htree
  | _ => exact h

/-- The log only grows. -/
theorem Move.grows {H : Hash} {raw raw' : List Bytes} {s s' : Server} {a : Action}
    (hmove : Move H raw s a s' raw') : raw <+: raw' := by
  cases hmove with
  | appended => exact List.prefix_append _ _
  | _ => exact List.prefix_refl _

/-- A submission that waits no longer has only released ones before it. -/
def LockOrder (submissions : List SubmissionState) : Prop :=
  ∀ (ticket : ℕ) (state : SubmissionState), submissions[ticket]? = some state →
    (∀ entry, state ≠ .waiting entry) →
      ∀ before < ticket, submissions[before]? = some SubmissionState.released

theorem LockOrder.before {s : Server} (h : LockOrder s.submissions) {ticket : ℕ}
    (hlock : s.lockFree ticket = true) :
    ∀ before < ticket, s.submissions[before]? = some .released := by
  intro before hlt
  cases ticket with
  | zero => omega
  | succ last =>
      have hlast : s.submissions[last]? = some .released := by
        simp only [Server.lockFree] at hlock
        split at hlock
        · next heq => exact heq
        · cases hlock
      rcases Nat.lt_or_eq_of_le (Nat.le_of_lt_succ hlt) with hlt' | rfl
      · exact h last _ hlast (by simp) before hlt'
      · exact hlast

/-- Changing a submission to a state that waits no longer keeps the order when
all before it have released, and no released one is changed. -/
theorem LockOrder.set {submissions : List SubmissionState} (h : LockOrder submissions)
    {ticket : ℕ} {state : SubmissionState}
    (hbefore : ∀ before < ticket, submissions[before]? = some .released)
    (hcur : submissions[ticket]? ≠ some .released) :
    LockOrder (submissions.set ticket state) := by
  intro ticket' state' hget hstate before hlt
  by_cases heq : ticket' = ticket
  · subst heq
    rw [List.getElem?_set_ne (by omega)]
    exact hbefore before hlt
  · rw [List.getElem?_set_ne (Ne.symm heq)] at hget
    have hrel := h ticket' state' hget hstate before hlt
    rw [List.getElem?_set_ne]
    · exact hrel
    · rintro rfl
      exact hcur hrel

theorem LockOrder.append {submissions : List SubmissionState} (h : LockOrder submissions)
    (entry : EntryInput) : LockOrder (submissions ++ [.waiting entry]) := by
  intro ticket state hget hstate before hlt
  have hin : ticket < submissions.length := by
    by_contra hge
    rw [List.getElem?_append_right (by omega)] at hget
    have := List.mem_of_getElem? hget
    exact hstate entry (List.mem_singleton.1 this)
  rw [List.getElem?_append_left hin] at hget
  rw [List.getElem?_append_left (by omega)]
  exact h ticket state hget hstate before hlt

theorem LockOrder.signing_unique {submissions : List SubmissionState}
    (h : LockOrder submissions) {t t' : ℕ} {e e' : EntryInput} {p p' : PendingBundle}
    (ht : submissions[t]? = some (.signing e p)) (ht' : submissions[t']? = some (.signing e' p')) :
    t = t' := by
  rcases Nat.lt_trichotomy t t' with hlt | heq | hlt
  · have := h t' _ ht' (by simp) t hlt
    rw [ht] at this
    cases this
  · exact heq
  · have := h t _ ht (by simp) t' hlt
    rw [ht'] at this
    cases this

/-- The head of the queue finds nobody inside. -/
theorem LockOrder.not_signing {s : Server} (h : LockOrder s.submissions) {ticket : ℕ}
    {entry : EntryInput} (hwait : s.submissions[ticket]? = some (.waiting entry))
    (hlock : s.lockFree ticket = true) {t : ℕ} {e : EntryInput} {p : PendingBundle} :
    s.submissions[t]? ≠ some (.signing e p) := by
  intro hsign
  rcases Nat.lt_trichotomy t ticket with hlt | rfl | hlt
  · rw [h.before hlock t hlt] at hsign
    cases hsign
  · rw [hwait] at hsign
    cases hsign
  · have := h t _ hsign (by simp) ticket hlt
    rw [hwait] at this
    cases this

theorem Move.lockOrder {H : Hash} {raw raw' : List Bytes} {s s' : Server} {a : Action}
    (h : LockOrder s.submissions) (hmove : Move H raw s a s' raw') :
    LockOrder s'.submissions := by
  cases hmove with
  | enqueued entry => exact h.append entry
  | deduplicated hwait hlock _ => exact h.set (h.before hlock) (by simp [hwait])
  | appendFailed hwait hlock _ => exact h.set (h.before hlock) (by simp [hwait])
  | appended hwait hlock _ _ => exact h.set (h.before hlock) (by simp [hwait])
  | submitSigned hsign => exact h.set (h _ _ hsign (by simp)) (by simp [hsign])
  | submitSignFailed hsign => exact h.set (h _ _ hsign (by simp)) (by simp [hsign])
  | _ => exact h

end Atrib.LogNode
