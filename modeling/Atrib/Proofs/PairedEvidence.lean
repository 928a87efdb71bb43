import Atrib.Proofs.CommittedRecords

/-!
# Calls through the wrapped handler

That the attribution does not show: a call that is answered has called the
upstream handler once, and its answer is what the handler gave, up to the `_meta`
of a result. This holds of every run (`Unaffected`).

In the paired mode a receipt that the upstream handler gets is one of a record
that has been committed, and a record of the outcome follows, which names it.
Three things come in between. The evidence of a request is read after the
arguments have been replaced, and may throw; a callback may write its receipt
into the arguments and throw; and the `_meta` of the result may be one that
cannot be written, when the outcome has been mirrored but is not queued.
`CleanMove` excludes these. What a call has committed is followed through its
phases in `PairedCall`.
-/

namespace Atrib.Middleware

open Lib (JsValue run run_keeps run_invariant Always)
open LocalSubstrate (encodeToken)

variable {P : Platform} {options : AtribOptions} {s s' : Server}

/-! ## One call moves -/

/-- Only one call has changed, and only that call has committed. -/
structure Touches (s s' : Server) (index : ℕ) (call : Call) : Prop where
  calls : s'.calls = s.calls.set index call
  destroyed : s'.destroyed = s.destroyed
  commits : ∃ new, s'.commits = s.commits ++ new ∧ ∀ commit ∈ new, commit.call = index

theorem touches_setCall (index : ℕ) (call : Call) : Touches s (s.setCall index call) index call :=
  ⟨rfl, rfl, [], (List.append_nil _).symm, fun _ h => (List.not_mem_nil h).elim⟩

theorem Touches.of_commitRecord {index : ℕ} {role : Role} {built : BuiltRecord} {written : Bool}
    {call : Call} (h : Touches (s.commitRecord options index role built written) s' index call) :
    Touches s s' index call where
  calls := h.calls
  destroyed := h.destroyed
  commits := by
    obtain ⟨new, hnew, hcalls⟩ := h.commits
    simp only [Server.commitRecord] at hnew
    split at hnew
    · refine ⟨⟨index, role, built, written, s.privateKey⟩ :: new, by rw [hnew]; simp, ?_⟩
      intro commit hcommit
      rcases List.mem_cons.1 hcommit with rfl | hcommit
      · rfl
      · exact hcalls commit hcommit
    · exact ⟨new, hnew, hcalls⟩

/-- What a call has committed. -/
def Server.ownCommits (s : Server) (index : ℕ) : List Commit :=
  s.commits.filter (·.call = index)

theorem Touches.ownCommits_of_ne {index : ℕ} {call : Call} (h : Touches s s' index call)
    {other : ℕ} (hne : other ≠ index) : s'.ownCommits other = s.ownCommits other := by
  obtain ⟨new, hnew, hcalls⟩ := h.commits
  have hnone : new.filter (fun commit => decide (commit.call = other)) = [] := by
    rw [List.filter_eq_nil_iff]
    intro commit hcommit
    simpa [hcalls commit hcommit] using Ne.symm hne
  rw [Server.ownCommits, Server.ownCommits, hnew, List.filter_append, hnone, List.append_nil]

/-- What holds of every call, with what the call has committed. Only calls have committed. -/
structure AllCalls (Q : ℕ → List Commit → Bool → Call → Prop) (s : Server) : Prop where
  holds : ∀ index call, s.calls[index]? = some call →
    Q index (s.ownCommits index) s.destroyed call
  commits : ∀ commit ∈ s.commits, commit.call < s.calls.length

/-- One call has moved, and what holds of calls and what they have committed holds of it. -/
def MovesTo (Q : List Commit → Call → Prop) (s s' : Server) (index : ℕ) : Prop :=
  ∃ call, Touches s s' index call ∧ Q (s'.ownCommits index) call

theorem MovesTo.of_commitRecord {Q : List Commit → Call → Prop} {index : ℕ} {role : Role}
    {built : BuiltRecord} {written : Bool}
    (h : MovesTo Q (s.commitRecord options index role built written) s' index) :
    MovesTo Q s s' index := by
  obtain ⟨call, htouches, hcall⟩ := h
  exact ⟨call, htouches.of_commitRecord, hcall⟩

theorem MovesTo.mono {Q Q' : List Commit → Call → Prop} {index : ℕ} (h : MovesTo Q s s' index)
    (hQ : ∀ own call, Q own call → Q' own call) : MovesTo Q' s s' index := by
  obtain ⟨call, htouches, hcall⟩ := h
  exact ⟨call, htouches, hQ _ call hcall⟩

/-- What else the move has changed before does not matter. -/
theorem MovesTo.of_same {Q : List Commit → Call → Prop} {s₁ : Server} {index : ℕ}
    (h : MovesTo Q s₁ s' index) (hcalls : s₁.calls = s.calls)
    (hdestroyed : s₁.destroyed = s.destroyed) (hcommits : s₁.commits = s.commits) :
    MovesTo Q s s' index := by
  obtain ⟨call, htouches, hcall⟩ := h
  refine ⟨call, ⟨?_, ?_, ?_⟩, hcall⟩
  · rw [htouches.calls, hcalls]
  · rw [htouches.destroyed, hdestroyed]
  · rw [← hcommits]
    exact htouches.commits

section

variable {Q : ℕ → List Commit → Bool → Call → Prop}

/-- It is to be shown again for the call that moves. -/
theorem AllCalls.movesTo (h : AllCalls Q s) {index : ℕ} {before : Call}
    (hbefore : s.calls[index]? = some before)
    (hmoves : MovesTo (fun own call => Q index own s.destroyed call) s s' index) :
    AllCalls Q s' := by
  obtain ⟨call, htouches, hcall⟩ := hmoves
  refine ⟨fun other call' hget => ?_, fun commit hcommit => ?_⟩
  · rw [htouches.destroyed]
    rw [htouches.calls] at hget
    by_cases hother : other = index
    · subst hother
      rw [List.getElem?_set_self', Option.map_eq_map, Option.map_eq_some_iff] at hget
      obtain ⟨-, -, rfl⟩ := hget
      exact hcall
    · rw [List.getElem?_set_ne (Ne.symm hother)] at hget
      rw [htouches.ownCommits_of_ne hother]
      exact h.holds other call' hget
  · obtain ⟨new, hnew, hown⟩ := htouches.commits
    rw [htouches.calls, List.length_set]
    rw [hnew] at hcommit
    rcases List.mem_append.1 hcommit with hcommit | hcommit
    · exact h.commits commit hcommit
    · rw [hown commit hcommit]
      exact (List.getElem?_eq_some_iff.1 hbefore).1

theorem AllCalls.append (h : AllCalls Q s) {call : Call}
    (hcall : Q s.calls.length [] s.destroyed call) :
    AllCalls Q { s with calls := s.calls ++ [call] } := by
  refine ⟨fun index call' hget => ?_, fun commit hcommit => ?_⟩
  · rcases Nat.lt_trichotomy index s.calls.length with hlt | rfl | hgt
    · rw [List.getElem?_append_left hlt] at hget
      exact h.holds index call' hget
    · rw [List.getElem?_concat_length] at hget
      cases hget
      have hnone : s.ownCommits s.calls.length = [] := by
        rw [Server.ownCommits, List.filter_eq_nil_iff]
        intro commit hcommit
        simpa using (h.commits commit hcommit).ne
      rw [← hnone] at hcall
      exact hcall
    · rw [List.getElem?_eq_none (by simp; omega)] at hget
      cases hget
  · have hbefore := h.commits commit hcommit
    simp only [List.length_append, List.length_singleton]
    omega

/-- A call that goes straight on to the upstream handler. -/
theorem setCall_append (call call' : Call) :
    ({ s with calls := s.calls ++ [call] } : Server).setCall s.calls.length call' =
      { s with calls := s.calls ++ [call'] } := by
  simp [Server.setCall]

/-- The moves of a call, each from the phase it is for. -/
structure CallMoves (P : Platform) (options : AtribOptions)
    (Q : ℕ → List Commit → Bool → Call → Prop) (s : Server) (move : Move) : Prop where
  receive : ∀ params extra, move = .call params extra →
    AllCalls Q (s.receive options params extra)
  keyReady : ∀ index input call job, move = .keyReady index input →
    s.calls[index]? = some call → call.phase = .awaitingKey job →
    MovesTo (fun own => Q index own s.destroyed) s
      (s.keyReady P options index call job input) index
  resolved : ∀ index input call job draft, move = .resolved index input →
    s.calls[index]? = some call → call.phase = .resolving job draft →
    MovesTo (fun own => Q index own s.destroyed) s
      (s.resolved P options index call job draft input) index
  signatureReady : ∀ index input call job draft members signature,
    move = .signatureReady index input → s.calls[index]? = some call →
    call.phase = .signing job draft members signature →
    MovesTo (fun own => Q index own s.destroyed) s
      (s.signatureReady P options index call job draft members signature input) index
  handlerReturns : ∀ index result call preBuilt, move = .handlerReturns index result →
    s.calls[index]? = some call → call.phase = .running preBuilt →
    MovesTo (fun own => Q index own s.destroyed) s
      (s.handlerReturns P options index call preBuilt result) index
  handlerThrows : ∀ index error call preBuilt, move = .handlerThrows index error →
    s.calls[index]? = some call → call.phase = .running preBuilt →
    MovesTo (fun own => Q index own s.destroyed) s
      (s.handlerThrows options index call preBuilt error) index
  destroy : move = .destroy → AllCalls Q s.destroy

theorem AllCalls.step (h : AllCalls Q s) {move : Move} (hmoves : CallMoves P options Q s move) :
    AllCalls Q (s.step P options move) := by
  cases move with
  | call params extra => exact hmoves.receive params extra rfl
  | destroy => exact hmoves.destroy rfl
  | keyReady index input =>
      simp only [Server.step]
      split
      · exact h
      · next call hget =>
          split
          · next job hphase =>
              exact h.movesTo hget (hmoves.keyReady index input call job rfl hget hphase)
          · exact h
  | resolved index input =>
      simp only [Server.step]
      split
      · exact h
      · next call hget =>
          split
          · next job draft hphase =>
              exact h.movesTo hget (hmoves.resolved index input call job draft rfl hget hphase)
          · exact h
  | signatureReady index input =>
      simp only [Server.step]
      split
      · exact h
      · next call hget =>
          split
          · next job draft members signature hphase =>
              exact h.movesTo hget (hmoves.signatureReady index input call job draft members
                signature rfl hget hphase)
          · exact h
  | handlerReturns index result =>
      simp only [Server.step]
      split
      · exact h
      · next call hget =>
          split
          · next preBuilt hphase =>
              exact h.movesTo hget
                (hmoves.handlerReturns index result call preBuilt rfl hget hphase)
          · exact h
  | handlerThrows index error =>
      simp only [Server.step]
      split
      · exact h
      · next call hget =>
          split
          · next preBuilt hphase =>
              exact h.movesTo hget (hmoves.handlerThrows index error call preBuilt rfl hget hphase)
          · exact h

end

/-! ## Transparency -/

namespace Job

/-- What the upstream handler has given when the record is built. -/
def given : Job → Option (Except Thrown HandlerResult)
  | .preCall => none
  | .postCall result | .outcome result _ => some (.ok result)
  | .failure error _ => some (.error error)

end Job

/-- The answer is what the handler has given, up to `_meta`. -/
def SameButMeta : Except Thrown HandlerResult → Except Thrown JsValue → Prop
  | .error error, .error error' => error' = error
  | .ok result, .ok value => value.without "_meta" = result.value.without "_meta"
  | _, _ => False

/-- The handler has been called once when it runs, and its outcome is kept to the answer. -/
def Transparent (call : Call) : Prop :=
  match call.phase with
  | .awaitingKey job | .resolving job _ | .signing job _ _ _ =>
      call.upstream.length = (if job.given.isSome then 1 else 0) ∧ call.given = job.given
  | .running _ => call.upstream.length = 1 ∧ call.given = none
  | .answered answer =>
      call.upstream.length = 1 ∧ ∃ given, call.given = some given ∧ SameButMeta given answer

theorem filter_map_withMember (members : List (String × JsValue)) (key : String)
    (member : JsValue) :
    (members.map fun entry => if entry.1 = key then (key, member) else entry).filter
        (fun entry => decide (entry.1 ≠ key)) =
      members.filter fun entry => decide (entry.1 ≠ key) := by
  induction members with
  | nil => rfl
  | cons entry members ih =>
      by_cases hkey : entry.1 = key
      · simpa [hkey] using ih
      · simpa [hkey] using ih

theorem without_withMember (value member : JsValue) (key : String) :
    (withMember value key member).without key = value.without key := by
  cases value with
  | object members =>
      simp only [withMember]
      split
      · simp only [JsValue.without, filter_map_withMember]
      · simp [JsValue.without]
  | _ => rfl

theorem sameButMeta_ok (result : HandlerResult) : SameButMeta (.ok result) (.ok result.value) := rfl

theorem sameButMeta_error (error : Thrown) : SameButMeta (.error error) (.error error) := rfl

theorem sameButMeta_attributed (params : JsValue) (result : HandlerResult) (built : BuiltRecord)
    (token : String) :
    SameButMeta (.ok result) (.ok (attributed options params result built token)) :=
  without_withMember _ _ _

/-- The call has not got beyond its job. -/
def JobKept (job : Job) (call : Call) : Prop :=
  call.upstream.length = (if job.given.isSome then 1 else 0) ∧ call.given = job.given

/-- How far a call is from its answer when its job is done. -/
def Job.rank : Job → ℕ
  | .preCall => 4
  | .postCall _ | .outcome _ _ | .failure _ _ => 0

/-- How far a call is from its answer. -/
def Phase.rank : Phase → ℕ
  | .awaitingKey job => job.rank + 3
  | .resolving job _ => job.rank + 2
  | .signing job _ _ _ => job.rank + 1
  | .running _ => 4
  | .answered _ => 0

/-- One call has moved, is still transparent, and is as near to its answer as this. -/
abbrev TransparentMove (n : ℕ) (s s' : Server) (index : ℕ) : Prop :=
  MovesTo (fun _ call => Transparent call ∧ call.phase.rank ≤ n) s s' index

theorem transparent_answer {call : Call} {given : Except Thrown HandlerResult}
    {answer : Except Thrown JsValue} (hcount : call.upstream.length = 1)
    (hgiven : call.given = some given) (hsame : SameButMeta given answer) (index n : ℕ) :
    TransparentMove n s (s.answer index call answer) index :=
  ⟨_, touches_setCall index _, ⟨hcount, given, hgiven, hsame⟩, Nat.zero_le n⟩

theorem transparent_callUpstream {call : Call} (h : JobKept .preCall call) (index : ℕ)
    (preBuilt : Option BuiltRecord) :
    TransparentMove 4 s (s.callUpstream index call preBuilt) index := by
  refine ⟨_, touches_setCall index _, ⟨?_, h.2⟩, le_rfl⟩
  have hnone : call.upstream.length = 0 := h.1
  simp [hnone]

theorem transparent_abandon {job : Job} {call : Call} (h : JobKept job call) (index : ℕ) :
    TransparentMove job.rank s (s.abandon index call job) index := by
  cases job with
  | preCall => exact transparent_callUpstream h index none
  | postCall result => exact transparent_answer h.1 h.2 (sameButMeta_ok _) index _
  | outcome result request => exact transparent_answer h.1 h.2 (sameButMeta_ok _) index _
  | failure error request => exact transparent_answer h.1 h.2 (sameButMeta_error _) index _

theorem transparent_commitResult {call : Call} {result : HandlerResult}
    (hcount : call.upstream.length = 1) (hgiven : call.given = some (.ok result)) (index n : ℕ)
    (role : Role) (built : BuiltRecord) :
    TransparentMove n s (s.commitResult P options index call role built result) index := by
  unfold Server.commitResult
  split
  · exact (transparent_answer hcount hgiven (sameButMeta_ok _) index _).of_commitRecord
  · split
    · next token _ _ =>
        have hsame : SameButMeta (.ok result)
            (.ok (attributed options call.params result built token)) :=
          sameButMeta_attributed call.params result built token
        exact (transparent_answer hcount hgiven hsame index n).of_commitRecord
    · exact (transparent_answer hcount hgiven (sameButMeta_ok _) index _).of_commitRecord

theorem transparent_finishPreCall {call : Call} (h : JobKept .preCall call) (index : ℕ)
    (built : BuiltRecord) (input : SignatureInput) :
    TransparentMove 4 s (s.finishPreCall P options index call built input) index := by
  have hafter : JobKept .preCall (Server.afterTransform call built input.transform) := h
  unfold Server.finishPreCall
  split
  · simp only
    split
    · exact transparent_callUpstream hafter index none
    · split
      · exact transparent_callUpstream hafter index (some built)
      · split
        · exact transparent_callUpstream hafter index none
        · exact (transparent_callUpstream hafter index (some built)).of_commitRecord
  · exact transparent_callUpstream h index none

theorem transparent_finish {job : Job} {call : Call} (h : JobKept job call) (index : ℕ)
    (built : BuiltRecord) (input : SignatureInput) :
    TransparentMove job.rank s (s.finish P options index call job built input) index := by
  cases job with
  | preCall => exact transparent_finishPreCall h index built input
  | postCall result => exact transparent_commitResult h.1 h.2 index _ .plain built
  | outcome result request => exact transparent_commitResult h.1 h.2 index _ .outcome built
  | failure error request =>
      simp only [Server.finish]
      split
      · exact transparent_answer h.1 h.2 (sameButMeta_error _) index _
      · exact (transparent_answer h.1 h.2 (sameButMeta_error _) index _).of_commitRecord

theorem transparent_handlerReturns {call : Call} (hcount : call.upstream.length = 1) (index : ℕ)
    (preBuilt : Option BuiltRecord) (result : HandlerResult) :
    TransparentMove 3 s (s.handlerReturns P options index call preBuilt result) index := by
  have hgiven : ({ call with given := some (.ok result) } : Call).given = some (.ok result) := rfl
  have hcount : ({ call with given := some (.ok result) } : Call).upstream.length = 1 := hcount
  unfold Server.handlerReturns
  simp only
  split
  · exact transparent_answer hcount hgiven (sameButMeta_ok _) index _
  · split
    · exact transparent_answer hcount hgiven (sameButMeta_ok _) index _
    · cases sidecarEvidence options call.extra with
      | error e => exact transparent_answer hcount hgiven (sameButMeta_ok _) index _
      | ok evidence =>
          cases preBuilt with
          | none => exact ⟨_, touches_setCall index _, ⟨hcount, rfl⟩, le_rfl⟩
          | some built =>
              simp only
              split
              · exact ⟨_, touches_setCall index _, ⟨hcount, rfl⟩, le_rfl⟩
              · exact transparent_commitResult hcount hgiven index _ .plain built

theorem transparent_handlerThrows {call : Call} (hcount : call.upstream.length = 1) (index : ℕ)
    (preBuilt : Option BuiltRecord) (error : Thrown) :
    TransparentMove 3 s (s.handlerThrows options index call preBuilt error) index := by
  have hgiven :
      ({ call with given := some (.error error) } : Call).given = some (.error error) := rfl
  have hcount : ({ call with given := some (.error error) } : Call).upstream.length = 1 := hcount
  unfold Server.handlerThrows
  simp only
  split
  · split
    · exact ⟨_, touches_setCall index _, ⟨hcount, rfl⟩, le_rfl⟩
    · exact transparent_answer hcount hgiven (sameButMeta_error _) index _
  · exact transparent_answer hcount hgiven (sameButMeta_error _) index _

theorem transparent_keyReady {call : Call} {job : Job} (hphase : call.phase = .awaitingKey job)
    (h : Transparent call) (index : ℕ) (input : BuildInput) :
    TransparentMove (job.rank + 2) s (s.keyReady P options index call job input) index := by
  simp only [Transparent, hphase] at h
  have hkept : JobKept job { call with unsigned := true } := h
  unfold Server.keyReady
  simp only
  split
  · exact ((transparent_abandon hkept index).mono fun _ _ hcall =>
      ⟨hcall.1, hcall.2.trans (Nat.le_add_right _ _)⟩).of_same rfl rfl rfl
  · exact MovesTo.of_same ⟨_, touches_setCall index _, hkept, le_rfl⟩ rfl rfl rfl

theorem transparent_resolved {call : Call} {job : Job} {draft : Draft}
    (hphase : call.phase = .resolving job draft) (h : Transparent call) (index : ℕ)
    (input : SignInput) :
    TransparentMove (job.rank + 1) s (s.resolved P options index call job draft input) index := by
  simp only [Transparent, hphase] at h
  have hkept : JobKept job { call with unsigned := true } := h
  unfold Server.resolved
  split
  · exact (transparent_abandon hkept index).mono fun _ _ hcall =>
      ⟨hcall.1, hcall.2.trans (Nat.le_add_right _ _)⟩
  · exact MovesTo.of_same ⟨_, touches_setCall index _, hkept, le_rfl⟩ rfl rfl rfl

theorem transparent_signatureReady {call : Call} {job : Job} {draft : Draft}
    {members : List (String × JsValue)} {signature : Except String String}
    (hphase : call.phase = .signing job draft members signature) (h : Transparent call)
    (index : ℕ) (input : SignatureInput) :
    TransparentMove job.rank s
      (s.signatureReady P options index call job draft members signature input) index := by
  simp only [Transparent, hphase] at h
  unfold Server.signatureReady
  split
  · have hkept : JobKept job { call with unsigned := true } := h
    exact transparent_abandon hkept index
  · next built _ => exact transparent_finish h index built input

theorem transparent_running {call : Call} {preBuilt : Option BuiltRecord}
    (hphase : call.phase = .running preBuilt) (h : Transparent call) :
    call.upstream.length = 1 := by
  simp only [Transparent, hphase] at h
  exact h.1

/-- Every call is transparent. -/
abbrev AllTransparent (s : Server) : Prop := AllCalls (fun _ _ _ => Transparent) s

theorem AllTransparent.receive (h : AllTransparent s) (params extra : JsValue) :
    AllTransparent (s.receive options params extra) := by
  unfold Server.receive
  split
  · exact h.append ⟨rfl, rfl⟩
  · simp only [Server.callUpstream, setCall_append]
    exact h.append ⟨rfl, rfl⟩

theorem AllTransparent.destroy (h : AllTransparent s) : AllTransparent s.destroy := by
  unfold Server.destroy
  split
  · exact h
  · exact ⟨h.holds, h.commits⟩

theorem AllTransparent.step (h : AllTransparent s) (move : Move) :
    AllTransparent (s.step P options move) := by
  have htransparent {n : ℕ} {s' : Server} {index : ℕ} (hmoves : TransparentMove n s s' index) :
      MovesTo (fun _ => Transparent) s s' index := hmoves.mono fun _ _ hcall => hcall.1
  refine AllCalls.step h ⟨fun params extra _ => h.receive params extra, ?_, ?_, ?_, ?_, ?_,
    fun _ => h.destroy⟩
  · intro index input call job _ hget hphase
    exact htransparent (transparent_keyReady hphase (h.holds index call hget) index input)
  · intro index input call job draft _ hget hphase
    exact htransparent (transparent_resolved hphase (h.holds index call hget) index input)
  · intro index input call job draft members signature _ hget hphase
    exact htransparent (transparent_signatureReady hphase (h.holds index call hget) index input)
  · intro index result call preBuilt _ hget hphase
    have hcount := transparent_running hphase (h.holds index call hget)
    exact htransparent (transparent_handlerReturns hcount index preBuilt result)
  · intro index error call preBuilt _ hget hphase
    have hcount := transparent_running hphase (h.holds index call hget)
    exact htransparent (transparent_handlerThrows hcount index preBuilt error)

/-- What the call waits for in this phase. -/
def Phase.Awaits (index : ℕ) : Phase → Move → Prop
  | .awaitingKey _, .keyReady other _ => other = index
  | .resolving _ _, .resolved other _ => other = index
  | .signing _ _ _ _, .signatureReady other _ => other = index
  | .running _, .handlerReturns other _ => other = index
  | .running _, .handlerThrows other _ => other = index
  | _, _ => False

/-- What a call waits for brings it nearer to its answer, whatever it is. -/
theorem AllTransparent.nearer (h : AllTransparent s) {index : ℕ} {call : Call} {move : Move}
    (hget : s.calls[index]? = some call) (hawaits : call.phase.Awaits index move) :
    ∃ call', (s.step P options move).calls[index]? = some call' ∧
      call'.phase.rank < call.phase.rank := by
  have hcall := h.holds index call hget
  have hlt : index < s.calls.length := (List.getElem?_eq_some_iff.1 hget).1
  have hnear {n : ℕ} {s' : Server} (hmoves : TransparentMove n s s' index)
      (hrank : n < call.phase.rank) :
      ∃ call', s'.calls[index]? = some call' ∧ call'.phase.rank < call.phase.rank := by
    obtain ⟨call', htouches, -, hle⟩ := hmoves
    refine ⟨call', ?_, hle.trans_lt hrank⟩
    rw [htouches.calls, List.getElem?_set_self hlt]
  cases hphase : call.phase with
  | awaitingKey job =>
      rw [hphase] at hawaits hnear
      cases move with
      | keyReady other input =>
          obtain rfl : other = index := hawaits
          simp only [Server.step, hget, hphase]
          exact hnear (transparent_keyReady hphase hcall other input) (by simp [Phase.rank])
      | _ => exact hawaits.elim
  | resolving job draft =>
      rw [hphase] at hawaits hnear
      cases move with
      | resolved other input =>
          obtain rfl : other = index := hawaits
          simp only [Server.step, hget, hphase]
          exact hnear (transparent_resolved hphase hcall other input) (by simp [Phase.rank])
      | _ => exact hawaits.elim
  | signing job draft members signature =>
      rw [hphase] at hawaits hnear
      cases move with
      | signatureReady other input =>
          obtain rfl : other = index := hawaits
          simp only [Server.step, hget, hphase]
          exact hnear (transparent_signatureReady hphase hcall other input) (by simp [Phase.rank])
      | _ => exact hawaits.elim
  | running preBuilt =>
      rw [hphase] at hawaits hnear
      have hcount := transparent_running hphase hcall
      cases move with
      | handlerReturns other result =>
          obtain rfl : other = index := hawaits
          simp only [Server.step, hget, hphase]
          exact hnear (transparent_handlerReturns hcount other preBuilt result)
            (by simp [Phase.rank])
      | handlerThrows other error =>
          obtain rfl : other = index := hawaits
          simp only [Server.step, hget, hphase]
          exact hnear (transparent_handlerThrows hcount other preBuilt error) (by simp [Phase.rank])
      | _ => exact hawaits.elim
  | answered answer =>
      rw [hphase] at hawaits
      cases move <;> exact hawaits.elim

/-! ## The record of an outcome names its request -/

/-- The hash is the one of the record, which its receipt carries. -/
def HashOf (P : Platform) (built : BuiltRecord) : Prop :=
  ∃ bytes, LocalSubstrate.canonicalRecord P.toPlatform built.signed = .ok bytes ∧
    built.recordHashHex = hexEncode (P.hash.sha256 bytes)

/-- `chain_root` and `informed_by` both name the hash. -/
def Names (record : JsValue) (recordHashHex : String) : Prop :=
  record.member "chain_root" = .string ("sha256:" ++ recordHashHex) ∧
    ∃ references, record.member "informed_by" = .array references ∧
      .string ("sha256:" ++ recordHashHex) ∈ references

theorem HashOf.ne_empty {built : BuiltRecord} (h : HashOf P built) : built.recordHashHex ≠ "" := by
  obtain ⟨bytes, -, hhash⟩ := h
  intro hempty
  have hlength := congrArg (fun text => text.toList.length) (hhash.symm.trans hempty)
  simp [length_hexDigits] at hlength

theorem resolveChainRoot_of_ne {contextId hash : String} (hne : hash ≠ "")
    (others autoChainTailHex : Option String) :
    AutoChain.resolveChainRoot P.hash options.toAtribOptions contextId ((some hash).or others)
      autoChainTailHex = "sha256:" ++ hash := by
  have hkept : ((some hash).or others).filter (· ≠ "") = some hash := by simp [hne]
  rw [AutoChain.resolveChainRoot, hkept]

theorem chainRoot_of_draftOf {params : JsValue} {job : Job} {input : BuildInput} {draft : Draft}
    (h : draftOf P options s params job input = .ok draft) {hash : String}
    (hprior : job.priorRecordHashHex = some hash) (hne : hash ≠ "") :
    draft.priorRecordHashHex = some hash ∧ draft.chainRoot = "sha256:" ++ hash := by
  cases hcontent : computeContentId P options (toolNameOf params) with
  | error e =>
      simp only [draftOf, hcontent] at h
      cases h
  | ok contentId =>
      simp only [draftOf, hcontent] at h
      obtain rfl := Except.ok.inj h
      refine ⟨hprior, ?_⟩
      rw [hprior]
      exact resolveChainRoot_of_ne hne _ _

theorem mem_informedByList {draft : Draft} {hash : String}
    (hprior : draft.priorRecordHashHex = some hash) (references : List String) :
    ∃ hashes, informedByList options draft references = some hashes ∧
      "sha256:" ++ hash ∈ hashes := by
  unfold informedByList
  simp only [hprior, Option.map_some, Option.toList_some, List.singleton_append]
  generalize (if draft.parentRecordHashSeeded then options.parentRecordHashSeed.toList else []) ++
    references = others
  have hmem : "sha256:" ++ hash ∈ Lib.InsertionSet.ofList (("sha256:" ++ hash) :: others) :=
    Lib.InsertionSet.mem_ofList.2 List.mem_cons_self
  rw [if_neg (List.ne_nil_of_mem hmem)]
  exact ⟨_, rfl, Lib.mem_sortBy.2 hmem⟩

theorem lookup_append_right {members others : List (String × JsValue)} {key : String}
    (h : ∀ entry ∈ members, entry.1 ≠ key) :
    (members ++ others).lookup key = others.lookup key := by
  rw [List.lookup_append, lookup_eq_none_of_ne h, Option.none_or]

theorem names_of_recordMembers {draft : Draft} {params : JsValue} {resultForHash : Option JsValue}
    {input : SignInput} {members : List (String × JsValue)}
    (h : recordMembers P options draft params resultForHash input = .ok members) {hash : String}
    (hprior : draft.priorRecordHashHex = some hash) (hroot : draft.chainRoot = "sha256:" ++ hash)
    (signature : String) : Names (withSignature members signature) hash := by
  have hlisted : ∃ hashes, informedByList options draft input.references = some hashes ∧
      "sha256:" ++ hash ∈ hashes := mem_informedByList hprior input.references
  obtain ⟨hashes, hinformed, hmem⟩ := hlisted
  unfold recordMembers at h
  cases htool : toolNameMembers P options draft.toolName with
  | error e =>
      simp only [optionalMembers, htool] at h
      cases h
  | ok toolName =>
      simp only [optionalMembers, htool, hinformed] at h
      cases h
      have hargs : ∀ entry ∈ commitmentMembers P "args_hash" "args_salt" (some (argumentsOf params))
          options.effectiveDisclosure.args input.argsSalt, entry.1 ≠ "informed_by" := by
        intro entry hentry
        rcases commitmentMembers_keys P hentry with hkey | hkey
        · simp [hkey]
        · simp [hkey]
      refine ⟨?_, hashes.map .string, ?_, List.mem_map_of_mem hmem⟩
      · simp [withSignature, fixedMembers, JsValue.member, JsValue.get, Except.toOption,
          List.lookup_cons, hroot]
      · simp only [withSignature, fixedMembers, JsValue.member, JsValue.get, Except.toOption,
          List.append_assoc, List.cons_append, List.nil_append, Option.map_some, Option.toList_some,
          List.lookup_cons]
        rw [lookup_append_right hargs]
        simp

theorem hashOf_builtRecord {draft : Draft} {members : List (String × JsValue)} {signed : JsValue}
    {built : BuiltRecord} (h : builtRecord P options draft members signed = .ok built) :
    HashOf P built := by
  cases hbytes : LocalSubstrate.canonicalRecord P.toPlatform signed with
  | error e =>
      simp only [builtRecord, hbytes] at h
      cases h
  | ok bytes =>
      simp only [builtRecord, hbytes] at h
      cases h
      exact ⟨bytes, hbytes, rfl⟩

theorem signed_of_signerSignRecord {members : List (String × JsValue)}
    {answer : Except String String} {nowMs : Lib.JsNumber} {signed : JsValue}
    (h : signerSignRecord P members answer nowMs = .ok signed) :
    ∃ signature, signed = withSignature members signature := by
  unfold signerSignRecord at h
  cases answer with
  | error e =>
      split at h
      · cases h
      · cases h
  | ok signature =>
      split at h
      · cases h
      · by_cases hverified : verifyRecord P (withSignature members signature) nowMs = true
        · simp only [Bind.bind, Except.bind, hverified] at h
          exact ⟨signature, (Except.ok.inj h).symm⟩
        · simp only [Bind.bind, Except.bind, hverified] at h
          cases h

theorem signedRecord_spec {draft : Draft} {members : List (String × JsValue)}
    {signature : Except String String} {input : SignatureInput} {built : BuiltRecord}
    (h : signedRecord P options draft members signature input = .ok built) :
    (∃ signature, built.signed = withSignature members signature) ∧ HashOf P built := by
  unfold signedRecord at h
  split at h
  · cases hsigned : signerSignRecord P members input.answer input.nowMs with
    | error e =>
        rw [hsigned] at h
        cases h
    | ok signed =>
        rw [hsigned] at h
        rw [signed_of_builtRecord h]
        exact ⟨signed_of_signerSignRecord hsigned, hashOf_builtRecord h⟩
  · cases signature with
    | error e => cases h
    | ok signature => exact ⟨⟨signature, signed_of_builtRecord h⟩, hashOf_builtRecord h⟩

theorem creator_key_of_membersOf {draft : Draft} {members : List (String × JsValue)}
    (h : MembersOf P options draft members) (signature : String) :
    (withSignature members signature).get "creator_key" =
      .ok (.string (publicKeyB64 P options)) := by
  obtain ⟨now, -, hkey, -⟩ := h.fixed signature
  exact JsValue.get_of_member hkey (by simp)

theorem encodeToken_eq_ok {built : BuiltRecord} {draft : Draft} {members : List (String × JsValue)}
    (hmembers : MembersOf P options draft members) {signature : String}
    (hsigned : built.signed = withSignature members signature) (hhash : HashOf P built) :
    (∃ token, encodeToken P.toPlatform built.signed = .ok token) ↔
      ∃ bytes, P.base64urlDecode (.string (publicKeyB64 P options)) = .ok bytes := by
  obtain ⟨bytes, hbytes, -⟩ := hhash
  rw [encodeToken, hbytes, hsigned, creator_key_of_membersOf hmembers]
  cases hkey : P.base64urlDecode (.string (publicKeyB64 P options)) with
  | error e => simp [Bind.bind, Except.bind, hkey]
  | ok key => simp [Bind.bind, Except.bind, hkey, Pure.pure, Except.pure]

/-! ## The condition -/

/-- Reading the evidence of a request does not throw. -/
def EvidenceRead (options : AtribOptions) (extra : JsValue) : Prop :=
  (sidecarEvidence options extra).toOption.isSome = true

/-- The callback leaves its receipt in the arguments. -/
def placesReceipt (call : Call) (transform : Transform) : Bool :=
  (transform.result.toOption.join.or
    (if (call.params.member "arguments").isNullish then none else transform.inPlace)).isSome

/-- The callback that places a receipt does not throw, nor does reading the evidence, and the
`_meta` of the result can be written. -/
def CleanMove (options : AtribOptions) (s : Server) : Move → Prop
  | .signatureReady index input => ∀ call draft members signature, s.calls[index]? = some call →
      call.phase = .signing .preCall draft members signature →
      placesReceipt call input.transform = true →
      input.transform.result.toOption.isSome = true ∧ EvidenceRead options call.extra
  | .handlerReturns index result => ∀ call request, s.calls[index]? = some call →
      call.phase = .running (some request) → s.destroyed = false → result.isObject = true →
      result.metaWritable = true
  | _ => True

/-! ## Paired evidence -/

/-- No receipt has been given to the upstream handler. -/
def NoReceipt (call : Call) : Prop := ∀ upstream ∈ call.upstream, upstream.receipt = none

/-- A receipt that the upstream handler got is the one of the request, which had been committed. -/
def Receipts (index : ℕ) (call : Call) (request : BuiltRecord) : Prop :=
  ∀ upstream ∈ call.upstream, ∀ built, upstream.receipt = some built → built = request ∧
    ∃ commit ∈ upstream.committed, commit.call = index ∧ commit.role = .request ∧
      commit.built = request ∧ commit.queued = true

def outcomes (own : List Commit) : List Commit := own.filter (·.role = .outcome)

/-- One outcome has been committed, and it names the request. -/
def OutcomeOf (own : List Commit) (request : BuiltRecord) : Prop :=
  ∃ outcome, outcomes own = [outcome] ∧ outcome.queued = true ∧
    Names outcome.built.signed request.recordHashHex

/-- The request has been committed, and nothing stands in the way of its outcome. -/
structure Requested (P : Platform) (options : AtribOptions) (index : ℕ) (own : List Commit)
    (call : Call) (request : BuiltRecord) : Prop where
  outcomes : outcomes own = []
  receipts : Receipts index call request
  hash : HashOf P request
  evidence : EvidenceRead options call.extra
  creatorKey : ∃ bytes, P.base64urlDecode (.string (publicKeyB64 P options)) = .ok bytes

section

variable (P : Platform) (options : AtribOptions) (index : ℕ) (own : List Commit)

def JobPaired (call : Call) : Job → Prop
  | .preCall => outcomes own = [] ∧ call.upstream = [] ∧ call.receipt = none
  | .postCall _ => NoReceipt call
  | .outcome result request =>
      Requested P options index own call request ∧
        (result.isObject = true → result.metaWritable = true)
  | .failure _ request => Requested P options index own call request

/-- The draft of an outcome chains to its request. -/
def DraftPaired (job : Job) (draft : Draft) : Prop :=
  ∀ hash, job.priorRecordHashHex = some hash → hash ≠ "" →
    draft.priorRecordHashHex = some hash ∧ draft.chainRoot = "sha256:" ++ hash

def MembersPaired (job : Job) (members : List (String × JsValue)) : Prop :=
  ∀ hash, job.priorRecordHashHex = some hash → hash ≠ "" →
    ∀ signature, Names (withSignature members signature) hash

/-- What a call has committed, phase by phase. -/
def PairedCall (destroyed : Bool) (call : Call) : Prop :=
  match call.phase with
  | .awaitingKey job => JobPaired P options index own call job
  | .resolving job draft => JobPaired P options index own call job ∧ DraftPaired job draft
  | .signing job draft members _ =>
      JobPaired P options index own call job ∧ MembersOf P options draft members ∧
        MembersPaired job members
  | .running none => NoReceipt call
  | .running (some request) => Requested P options index own call request
  | .answered _ =>
      NoReceipt call ∨ ∃ request, Receipts index call request ∧ HashOf P request ∧
        (call.unsigned = false → destroyed = false → OutcomeOf own request)

end

variable {index : ℕ}

variable {own : List Commit}

theorem Requested.of_same {call call' : Call} {request : BuiltRecord}
    (h : Requested P options index own call request) (hupstream : call'.upstream = call.upstream)
    (hextra : call'.extra = call.extra) : Requested P options index own call' request where
  outcomes := h.outcomes
  receipts := by
    rw [Receipts, hupstream]
    exact h.receipts
  hash := h.hash
  evidence := by
    rw [hextra]
    exact h.evidence
  creatorKey := h.creatorKey

theorem JobPaired.of_same {call call' : Call} {job : Job}
    (h : JobPaired P options index own call job) (hupstream : call'.upstream = call.upstream)
    (hextra : call'.extra = call.extra) (hreceipt : call'.receipt = call.receipt) :
    JobPaired P options index own call' job := by
  cases job with
  | preCall => exact ⟨h.1, hupstream.trans h.2.1, hreceipt.trans h.2.2⟩
  | postCall result =>
      rw [JobPaired, NoReceipt, hupstream]
      exact h
  | outcome result request => exact ⟨h.1.of_same hupstream hextra, h.2⟩
  | failure error request => exact Requested.of_same h hupstream hextra

theorem ownCommits_setCall (other : ℕ) (call : Call) :
    (s.setCall other call).ownCommits index = s.ownCommits index := rfl

theorem ownCommits_commitRecord (role : Role) (built : BuiltRecord) :
    (s.commitRecord options index role built true).ownCommits index =
      s.ownCommits index ++ [⟨index, role, built, true, s.privateKey⟩] := by
  simp [Server.commitRecord, Server.ownCommits]

/-- The call moves, and its part of the paired evidence is there. -/
abbrev PairedMove (P : Platform) (options : AtribOptions) (s s' : Server) (index : ℕ) : Prop :=
  MovesTo (fun own => PairedCall P options index own s.destroyed) s s' index

theorem paired_answer_none {call : Call} (h : NoReceipt call) (answer : Except Thrown JsValue) :
    PairedMove P options s (s.answer index call answer) index :=
  ⟨_, touches_setCall index _, Or.inl h⟩

theorem paired_callUpstream_none {call : Call} (hupstream : call.upstream = [])
    (hreceipt : call.receipt = none) :
    PairedMove P options s (s.callUpstream index call none) index := by
  refine ⟨_, touches_setCall index _, fun upstream hmem => ?_⟩
  simp only [hupstream, List.nil_append, List.mem_singleton] at hmem
  rw [hmem]
  exact hreceipt

/-- An outcome could not be built. -/
theorem paired_answer_unsigned {call : Call} {request : BuiltRecord}
    (h : Receipts index call request) (hhash : HashOf P request) (hunsigned : call.unsigned = true) (answer : Except Thrown JsValue) :
    PairedMove P options s (s.answer index call answer) index := by
  refine ⟨_, touches_setCall index _, Or.inr ⟨request, h, hhash, fun hsigned => ?_⟩⟩
  simp [hunsigned] at hsigned

theorem paired_answer_destroyed {call : Call} {request : BuiltRecord}
    (h : Receipts index call request) (hhash : HashOf P request) (hdestroyed : s.destroyed = true)
    (answer : Except Thrown JsValue) :
    PairedMove P options s (s.answer index call answer) index := by
  refine ⟨_, touches_setCall index _, Or.inr ⟨request, h, hhash, fun _ hnot => ?_⟩⟩
  simp [hdestroyed] at hnot

theorem paired_abandon {job : Job} {call : Call}
    (h : JobPaired P options index (s.ownCommits index) call job)
    (hunsigned : call.unsigned = true) :
    PairedMove P options s (s.abandon index call job) index := by
  cases job with
  | preCall => exact paired_callUpstream_none h.2.1 h.2.2
  | postCall result => exact paired_answer_none h _
  | outcome result request => exact paired_answer_unsigned h.1.receipts h.1.hash hunsigned _
  | failure error request => exact paired_answer_unsigned h.receipts h.hash hunsigned _

/-- The outcome is committed, and the call is answered. -/
theorem paired_outcome {call : Call} {request built : BuiltRecord}
    (h : Requested P options index (s.ownCommits index) call request)
    (hnames : Names built.signed request.recordHashHex) (answer : Except Thrown JsValue) :
    PairedMove P options s
      ((s.commitRecord options index .outcome built true).answer index call answer) index := by
  refine MovesTo.of_commitRecord ⟨_, touches_setCall index _, ?_⟩
  refine Or.inr ⟨request, h.receipts, h.hash, fun _ _ => ?_⟩
  rw [Server.answer, ownCommits_setCall, ownCommits_commitRecord]
  refine ⟨⟨index, .outcome, built, true, s.privateKey⟩, ?_, rfl, hnames⟩
  have houtcomes := h.outcomes
  simp only [outcomes] at houtcomes ⊢
  simp [List.filter_append, houtcomes]

theorem paired_commitResult {call : Call} {request built : BuiltRecord} {result : HandlerResult}
    (h : Requested P options index (s.ownCommits index) call request)
    (hnames : Names built.signed request.recordHashHex)
    (hwritable : result.isObject = true → result.metaWritable = true)
    (htoken : ∃ token, encodeToken P.toPlatform built.signed = .ok token) :
    PairedMove P options s (s.commitResult P options index call .outcome built result) index := by
  obtain ⟨token, htoken⟩ := htoken
  unfold Server.commitResult
  split
  · exact paired_outcome h hnames _
  · next hobject =>
      rw [hwritable (by simpa using hobject), htoken]
      exact paired_outcome h hnames _

theorem paired_commitResult_plain {call : Call} (h : NoReceipt call) (built : BuiltRecord)
    (result : HandlerResult) :
    PairedMove P options s (s.commitResult P options index call .plain built result) index := by
  unfold Server.commitResult
  split
  · exact (paired_answer_none h _).of_commitRecord
  · split
    · exact (paired_answer_none h _).of_commitRecord
    · exact (paired_answer_none h _).of_commitRecord

/-- The request is committed before the upstream handler gets its receipt. -/
theorem paired_request {call : Call} {request : BuiltRecord}
    (h : JobPaired P options index (s.ownCommits index)
      { call with receipt := none } .preCall)
    (hreceipt : call.receipt = none ∨ call.receipt = some request) (hhash : HashOf P request)
    (hevidence : EvidenceRead options call.extra)
    (hkey : ∃ bytes, P.base64urlDecode (.string (publicKeyB64 P options)) = .ok bytes) :
    PairedMove P options s
      ((s.commitRecord options index .request request true).callUpstream index call (some request))
      index := by
  obtain ⟨houtcomes, hupstream, -⟩ := h
  simp only at hupstream
  refine MovesTo.of_commitRecord ⟨_, touches_setCall index _, ?_⟩
  refine ⟨?_, ?_, hhash, hevidence, hkey⟩
  · rw [Server.callUpstream, ownCommits_setCall, ownCommits_commitRecord]
    simp only [outcomes] at houtcomes ⊢
    simp [List.filter_append, houtcomes]
  · intro upstream hmem built hbuilt
    simp only [hupstream, List.nil_append, List.mem_singleton] at hmem
    subst hmem
    simp only at hbuilt
    rcases hreceipt with hnone | hsome
    · rw [hnone] at hbuilt
      cases hbuilt
    · rw [hsome] at hbuilt
      cases hbuilt
      refine ⟨rfl, ⟨index, .request, request, true, s.privateKey⟩, ?_, rfl, rfl, rfl, rfl⟩
      simp [Server.commitRecord]

theorem receipt_afterTransform (call : Call) (built : BuiltRecord) (transform : Transform) :
    (Server.afterTransform call built transform).receipt =
      if placesReceipt call transform = true then some built else none := by
  have hmap (value : Option JsValue) :
      value.map (fun _ => built) = if value.isSome = true then some built else none := by
    cases value with
    | none => rfl
    | some _ => rfl
  exact hmap _

theorem evidenceRead_iff {extra : JsValue} :
    EvidenceRead options extra ↔ ∃ evidence, sidecarEvidence options extra = .ok evidence := by
  rw [EvidenceRead]
  cases sidecarEvidence options extra with
  | error e => simp [Except.toOption]
  | ok evidence => simp [Except.toOption]

theorem paired_finishPreCall (hpaired : options.paired = true) {call : Call} {built : BuiltRecord}
    {input : SignatureInput} (h : JobPaired P options index (s.ownCommits index) call .preCall)
    (hhash : HashOf P built)
    (hkey : (∃ token, encodeToken P.toPlatform built.signed = .ok token) →
      ∃ bytes, P.base64urlDecode (.string (publicKeyB64 P options)) = .ok bytes)
    (hclean : placesReceipt call input.transform = true →
      input.transform.result.toOption.isSome = true ∧ EvidenceRead options call.extra) :
    PairedMove P options s (s.finishPreCall P options index call built input) index := by
  obtain ⟨houtcomes, hupstream, hreceipt⟩ := h
  have hplaced := receipt_afterTransform call built input.transform
  unfold Server.finishPreCall
  split
  · next token _ htoken =>
      simp only
      split
      · next error hresult =>
          refine paired_callUpstream_none hupstream ?_
          rw [hplaced, if_neg]
          intro hplaces
          have hok := (hclean hplaces).1
          simp [hresult, Except.toOption] at hok
      · rw [if_neg (by simp [hpaired])]
        split
        · next error hevidence =>
            refine paired_callUpstream_none hupstream ?_
            rw [hplaced, if_neg]
            intro hplaces
            obtain ⟨evidence, hread⟩ := evidenceRead_iff.1 (hclean hplaces).2
            cases hread.symm.trans hevidence
        · next evidence hevidence =>
            refine paired_request ⟨houtcomes, hupstream, rfl⟩ ?_ hhash
              (evidenceRead_iff.2 ⟨evidence, hevidence⟩) (hkey ⟨token, htoken⟩)
            rw [hplaced]
            split
            · exact Or.inr rfl
            · exact Or.inl rfl
  · exact paired_callUpstream_none hupstream hreceipt

theorem paired_finish (hpaired : options.paired = true) {job : Job} {call : Call} {draft : Draft}
    {members : List (String × JsValue)} {signature : Except String String} {input : SignatureInput}
    {built : BuiltRecord} (h : JobPaired P options index (s.ownCommits index) call job)
    (hmembers : MembersOf P options draft members) (hnames : MembersPaired job members)
    (hbuilt : signedRecord P options draft members signature input = .ok built)
    (hclean : job = .preCall → placesReceipt call input.transform = true →
      input.transform.result.toOption.isSome = true ∧ EvidenceRead options call.extra) :
    PairedMove P options s (s.finish P options index call job built input) index := by
  obtain ⟨⟨text, hsigned⟩, hhash⟩ := signedRecord_spec hbuilt
  have htoken := encodeToken_eq_ok hmembers hsigned hhash
  have hnamed (request : BuiltRecord) (hrequest : HashOf P request)
      (hprior : job.priorRecordHashHex = some request.recordHashHex) :
      Names built.signed request.recordHashHex := by
    rw [hsigned]
    exact hnames request.recordHashHex hprior hrequest.ne_empty text
  cases job with
  | preCall => exact paired_finishPreCall hpaired h hhash htoken.1 (hclean rfl)
  | postCall result => exact paired_commitResult_plain h built result
  | outcome result request =>
      exact paired_commitResult h.1 (hnamed request h.1.hash rfl) h.2 (htoken.2 h.1.creatorKey)
  | failure error request =>
      obtain ⟨evidence, hevidence⟩ := evidenceRead_iff.1 h.evidence
      simp only [Server.finish, hevidence]
      exact paired_outcome h (hnamed request h.hash rfl) _

theorem paired_handlerReturns (hpaired : options.paired = true) {call : Call}
    {preBuilt : Option BuiltRecord} {result : HandlerResult}
    (hphase : call.phase = .running preBuilt)
    (h : PairedCall P options index (s.ownCommits index) s.destroyed call)
    (hclean : preBuilt.isSome = true → s.destroyed = false → result.isObject = true →
      result.metaWritable = true) :
    PairedMove P options s (s.handlerReturns P options index call preBuilt result) index := by
  simp only [PairedCall, hphase] at h
  unfold Server.handlerReturns
  simp only
  cases preBuilt with
  | none =>
      have hnone : NoReceipt { call with given := some (.ok result) } := h
      split
      · exact paired_answer_none hnone _
      · split
        · exact paired_answer_none hnone _
        · cases sidecarEvidence options call.extra with
          | error e => exact paired_answer_none hnone _
          | ok evidence => exact ⟨_, touches_setCall index _, hnone⟩
  | some request =>
      obtain ⟨evidence, hevidence⟩ := evidenceRead_iff.1 h.evidence
      split
      · next hdestroyed =>
          have hreceipts : Receipts index { call with given := some (.ok result) } request :=
            h.receipts
          exact paired_answer_destroyed hreceipts h.hash hdestroyed _
      · next hdestroyed =>
          rw [Bool.not_eq_true] at hdestroyed
          simp only [hpaired, hevidence, Option.isSome_some, Bool.and_self, Bool.not_true,
            Bool.and_false, Bool.false_eq_true, if_false, if_true]
          exact ⟨_, touches_setCall index _, h.of_same rfl rfl, hclean rfl hdestroyed⟩

theorem paired_handlerThrows (hpaired : options.paired = true) {call : Call}
    {preBuilt : Option BuiltRecord} (hphase : call.phase = .running preBuilt)
    (h : PairedCall P options index (s.ownCommits index) s.destroyed call) (error : Thrown) :
    PairedMove P options s (s.handlerThrows options index call preBuilt error) index := by
  simp only [PairedCall, hphase] at h
  unfold Server.handlerThrows
  simp only
  cases preBuilt with
  | none =>
      have hnone : NoReceipt { call with given := some (.error error) } := h
      exact paired_answer_none hnone _
  | some request =>
      simp only [hpaired, Bool.true_and]
      split
      · exact ⟨_, touches_setCall index _, h.of_same rfl rfl⟩
      · next hdestroyed =>
          have hreceipts : Receipts index { call with given := some (.error error) } request :=
            h.receipts
          exact paired_answer_destroyed hreceipts h.hash (by simpa using hdestroyed) _

theorem paired_keyReady {call : Call} {job : Job} (hphase : call.phase = .awaitingKey job)
    (h : PairedCall P options index (s.ownCommits index) s.destroyed call) (input : BuildInput) :
    PairedMove P options s (s.keyReady P options index call job input) index := by
  simp only [PairedCall, hphase] at h
  unfold Server.keyReady
  simp only
  split
  · have hunsigned : JobPaired P options index (s.ownCommits index)
        { call with unsigned := true } job := h.of_same rfl rfl rfl
    exact MovesTo.of_same (paired_abandon hunsigned rfl) rfl rfl rfl
  · next draft hdraft =>
      exact MovesTo.of_same ⟨_, touches_setCall index _, h.of_same rfl rfl rfl,
        fun hash hprior hne => chainRoot_of_draftOf hdraft hprior hne⟩ rfl rfl rfl

theorem paired_resolved {call : Call} {job : Job} {draft : Draft}
    (hphase : call.phase = .resolving job draft)
    (h : PairedCall P options index (s.ownCommits index) s.destroyed call) (input : SignInput) :
    PairedMove P options s (s.resolved P options index call job draft input) index := by
  simp only [PairedCall, hphase] at h
  obtain ⟨hjob, hdraft⟩ := h
  unfold Server.resolved
  split
  · exact paired_abandon (hjob.of_same rfl rfl rfl) rfl
  · next members hmembers =>
      refine MovesTo.of_same ⟨_, touches_setCall index _, hjob.of_same rfl rfl rfl,
        membersOf_recordMembers P options hmembers, fun hash hprior hne => ?_⟩ rfl rfl rfl
      obtain ⟨hdraftPrior, hroot⟩ := hdraft hash hprior hne
      exact names_of_recordMembers hmembers hdraftPrior hroot

theorem paired_signatureReady (hpaired : options.paired = true) {call : Call} {job : Job}
    {draft : Draft} {members : List (String × JsValue)} {signature : Except String String}
    {input : SignatureInput} (hphase : call.phase = .signing job draft members signature)
    (h : PairedCall P options index (s.ownCommits index) s.destroyed call)
    (hclean : job = .preCall → placesReceipt call input.transform = true →
      input.transform.result.toOption.isSome = true ∧ EvidenceRead options call.extra) :
    PairedMove P options s (s.signatureReady P options index call job draft members signature input)
      index := by
  simp only [PairedCall, hphase] at h
  obtain ⟨hjob, hmembers, hnames⟩ := h
  unfold Server.signatureReady
  split
  · exact paired_abandon (hjob.of_same rfl rfl rfl) rfl
  · next built hbuilt => exact paired_finish hpaired hjob hmembers hnames hbuilt hclean

/-! ## Runs -/

theorem PairedCall.destroyed {call : Call} {destroyed : Bool}
    (h : PairedCall P options index own destroyed call) :
    PairedCall P options index own true call := by
  cases hphase : call.phase with
  | awaitingKey job => simpa only [PairedCall, hphase] using h
  | resolving job draft => simpa only [PairedCall, hphase] using h
  | signing job draft members signature => simpa only [PairedCall, hphase] using h
  | running preBuilt =>
      cases preBuilt with
      | none => simpa only [PairedCall, hphase] using h
      | some request => simpa only [PairedCall, hphase] using h
  | answered answer =>
      simp only [PairedCall, hphase] at h ⊢
      rcases h with hnone | ⟨request, hreceipts, hhash, -⟩
      · exact Or.inl hnone
      · exact Or.inr ⟨request, hreceipts, hhash, nofun⟩

theorem paired_step (hpaired : options.paired = true) {move : Move}
    (h : AllCalls (PairedCall P options) s) (hclean : CleanMove options s move) :
    AllCalls (PairedCall P options) (s.step P options move) := by
  refine AllCalls.step h ⟨?_, ?_, ?_, ?_, ?_, ?_, ?_⟩
  · intro params extra _
    unfold Server.receive
    split
    · exact h.append ⟨rfl, rfl, rfl⟩
    · simp only [Server.callUpstream, setCall_append]
      refine h.append fun upstream hmem => ?_
      rw [List.mem_singleton.1 hmem]
  · intro index input call job _ hget hphase
    exact paired_keyReady hphase (h.holds index call hget) input
  · intro index input call job draft _ hget hphase
    exact paired_resolved hphase (h.holds index call hget) input
  · rintro index input call job draft members signature rfl hget hphase
    refine paired_signatureReady hpaired hphase (h.holds index call hget) fun hjob => ?_
    subst hjob
    exact hclean call draft members signature hget hphase
  · rintro index result call preBuilt rfl hget hphase
    refine paired_handlerReturns hpaired hphase (h.holds index call hget) fun hbuilt => ?_
    obtain ⟨request, rfl⟩ := Option.isSome_iff_exists.1 hbuilt
    exact hclean call request hget hphase
  · intro index error call preBuilt _ hget hphase
    exact paired_handlerThrows hpaired hphase (h.holds index call hget) error
  · intro _
    unfold Server.destroy
    split
    · exact h
    · exact ⟨fun index call hget => (h.holds index call hget).destroyed, h.commits⟩

theorem allCalls_atrib (Q : ℕ → List Commit → Bool → Call → Prop) (codec : RecordCodec) :
    AllCalls Q (atrib P options codec) := by
  have hcalls : (atrib P options codec).calls = [] := rfl
  have hcommits : (atrib P options codec).commits = [] := rfl
  refine ⟨fun index call hget => ?_, fun commit hcommit => ?_⟩
  · rw [hcalls] at hget
    cases hget
  · rw [hcommits] at hcommit
    cases hcommit

/-- The upstream handler has been called once for every call that has got to it, the caller gets
what it gave, and nothing that a call waits for keeps it from its answer. -/
structure Unaffected (P : Platform) (options : AtribOptions) (s : Server) : Prop where
  transparent : ∀ (index : ℕ) (call : Call), s.calls[index]? = some call → Transparent call
  nearer : ∀ (index : ℕ) (call : Call) (move : Move), s.calls[index]? = some call →
    call.phase.Awaits index move →
    ∃ call', (s.step P options move).calls[index]? = some call' ∧
      call'.phase.rank < call.phase.rank

/-- A receipt that the upstream handler got is of a record that was committed before, and one
outcome that names the record is committed when the call is answered. -/
structure Evidenced (P : Platform) (s : Server) : Prop where
  receipts : ∀ (index : ℕ) (call : Call), s.calls[index]? = some call →
    ∀ upstream ∈ call.upstream, ∀ request, upstream.receipt = some request → HashOf P request ∧
      ∃ commit ∈ upstream.committed, commit.call = index ∧ commit.role = .request ∧
        commit.built = request ∧ commit.queued = true
  outcomes : ∀ (index : ℕ) (call : Call) (answer : Except Thrown JsValue),
    s.calls[index]? = some call → call.phase = .answered answer → call.unsigned = false →
    s.destroyed = false → ∀ upstream ∈ call.upstream, ∀ request,
      upstream.receipt = some request → OutcomeOf (s.ownCommits index) request

theorem PairedCall.receipt_eq {call : Call} {destroyed : Bool}
    (h : PairedCall P options index own destroyed call) {upstream : UpstreamCall}
    (hmem : upstream ∈ call.upstream) {request : BuiltRecord}
    (hreceipt : upstream.receipt = some request) :
    Receipts index call request ∧ HashOf P request ∧
      ∀ answer, call.phase = .answered answer → call.unsigned = false → destroyed = false →
        OutcomeOf own request := by
  have hnone (h : NoReceipt call) : False := by
    have hno := h upstream hmem
    rw [hreceipt] at hno
    cases hno
  have hrequested {request' : BuiltRecord} (h : Receipts index call request')
      (hhash : HashOf P request') : Receipts index call request ∧ HashOf P request := by
    obtain ⟨rfl, -⟩ := h upstream hmem request hreceipt
    exact ⟨h, hhash⟩
  have hjob {job : Job} (h : JobPaired P options index own call job) :
      Receipts index call request ∧ HashOf P request := by
    cases job with
    | preCall =>
        rw [h.2.1] at hmem
        cases hmem
    | postCall result => exact (hnone h).elim
    | outcome result request' => exact hrequested h.1.receipts h.1.hash
    | failure error request' => exact hrequested h.receipts h.hash
  cases hphase : call.phase with
  | awaitingKey job =>
      simp only [PairedCall, hphase] at h
      simpa [hphase] using hjob h
  | resolving job draft =>
      simp only [PairedCall, hphase] at h
      simpa [hphase] using hjob h.1
  | signing job draft members signature =>
      simp only [PairedCall, hphase] at h
      simpa [hphase] using hjob h.1
  | running preBuilt =>
      cases preBuilt with
      | none =>
          simp only [PairedCall, hphase] at h
          exact (hnone h).elim
      | some request' =>
          simp only [PairedCall, hphase] at h
          simpa [hphase] using hrequested h.receipts h.hash
  | answered answer =>
      simp only [PairedCall, hphase] at h
      rcases h with hno | ⟨request', hreceipts, hhash, houtcome⟩
      · exact (hnone hno).elim
      · obtain ⟨rfl, -⟩ := hreceipts upstream hmem request hreceipt
        exact ⟨hreceipts, hhash, fun _ _ => houtcome⟩

theorem evidenced_of_allCalls (h : AllCalls (PairedCall P options) s) : Evidenced P s where
  receipts index call hget upstream hmem request hreceipt := by
    obtain ⟨hreceipts, hhash, -⟩ := (h.holds index call hget).receipt_eq hmem hreceipt
    exact ⟨hhash, (hreceipts upstream hmem request hreceipt).2⟩
  outcomes index call answer hget hphase hunsigned hdestroyed upstream hmem request hreceipt := by
    obtain ⟨-, -, houtcome⟩ := (h.holds index call hget).receipt_eq hmem hreceipt
    exact houtcome answer hphase hunsigned hdestroyed

/-- The attribution does not show in any run, and in the paired mode its evidence is complete in
the runs that meet the condition. -/
theorem attribution_transparent (codec : RecordCodec) (moves : List Move) :
    Unaffected P options (run (Server.step P options) (atrib P options codec) moves) ∧
      (options.paired = true →
        Always (Server.step P options) (CleanMove options) (atrib P options codec) moves →
        Evidenced P (run (Server.step P options) (atrib P options codec) moves)) := by
  refine ⟨?_, fun hpaired hclean => ?_⟩
  · have hstep : ∀ s move, AllTransparent s → AllTransparent (Server.step P options s move) :=
      fun _ move h => h.step move
    have h : AllTransparent (run (Server.step P options) (atrib P options codec) moves) :=
      run_keeps hstep moves (allCalls_atrib _ codec)
    exact ⟨h.holds, fun index call move hget hawaits => h.nearer hget hawaits⟩
  · have hstep : ∀ s move, AllCalls (PairedCall P options) s → CleanMove options s move →
        AllCalls (PairedCall P options) (Server.step P options s move) :=
      fun _ _ h hmove => paired_step hpaired h hmove
    exact evidenced_of_allCalls (run_invariant hstep (allCalls_atrib _ codec) hclean)

namespace ReceiptSample

open DestroySample (codec creatorKey)

/-- JCS of a text without escapes, a natural number, a list of texts or no members. -/
def canonicalMember : JsValue → String
  | .string text => "\"" ++ text ++ "\""
  | .number (.finite q) => toString q.num
  | .array values =>
      "[" ++ ",".intercalate (values.map fun value => "\"" ++ value.string?.getD "" ++ "\"") ++ "]"
  | _ => "\x7b\x7d"

def canonicalText : JsValue → String
  | .object members =>
      let sorted := Lib.sortBy
        (fun a b => compare (JsValue.codeUnits a.1) (JsValue.codeUnits b.1)) members
      "\x7b" ++ ",".intercalate
        (sorted.map fun entry => "\"" ++ entry.1 ++ "\":" ++ canonicalMember entry.2) ++ "\x7d"
  | value => canonicalMember value

/-- The signatures of the record of the request, of 585 bytes, and of its outcome. -/
def requestSignature : Bytes :=
  hexBytes ("5a04e3549b89fe33e169520736f93ded8cd7e05a7e4b43e4381ebbd2d3ed5f38" ++
    "b1547e90b051a3f538457529ac16c939cf49d7949587accc70f840bf7d223b02").toList

def outcomeSignature : Bytes :=
  hexBytes ("76fe076804c5a589daa0ac3b2fa716585ad3d4fafa38c462f3458f4e18762f03" ++
    "c229943d2b65512c72762fad83367403cf757730ceceb22cef62f04faec12d02").toList

def platform : Platform :=
  { DestroySample.platform with
    canonicalize := fun value => .ok (some (canonicalText value))
    sign := fun message _ => if message.length = 585 then requestSignature else outcomeSignature }

/-- `buildMcpOAuthEvidenceFromExtra` for an `authInfo` that has a resource. -/
def oauthEvidence (extra : JsValue) : Except String (Option JsValue) := do
  let authInfo := extra.member "authInfo"
  if !LocalSubstrate.isObject authInfo then return none
  let resource ← JsValue.toText platform.text (authInfo.member "resource")
  return some (.object [("protocol", .string "mcp_oauth"), ("claimsVerified", .bool true),
    ("claims", .object [("resource", .string resource)]), ("resource", .string resource),
    ("protectedResourceMetadata", .object [("resource", .string resource)])])

def atribOptions : AtribOptions where
  creatorKey := creatorKey
  length_creatorKey := DestroySample.atribOptions.length_creatorKey
  serverUrl := "https://mcp.example"
  preCallTransform := true
  verifiableAction := true
  oauthEvidence := oauthEvidence

/-- The arguments with the receipt of the request. -/
def transformed : JsValue :=
  .object [("receipt", .string
    "zKq3ENbSPHy6WbS66pLX_1eSq-xPm_BpdLokrYAWo_s.iojj3XQJ8ZX9UtstPLpdcspnCb8dlBIb83SIAbQPb1w")]

theorem length_drawn : (List.replicate 16 7 : Bytes).length = 16 := by decide

/-- The call up to the upstream handler. -/
def request (extra : JsValue) : List Move := [
  .call DestroySample.params extra,
  .keyReady 0 ⟨.ok .undefined, ⟨List.replicate 16 7, length_drawn⟩⟩,
  .resolved 0 ⟨[], List.replicate 16 7, List.replicate 16 9, 1⟩,
  .signatureReady 0 { answer := .error "", nowMs := .finite 1,
                      transform := { result := .ok (some transformed) } }]

def outcome : List Move := [
  .handlerReturns 0 { value := .object [] },
  .keyReady 0 ⟨.ok .undefined, ⟨List.replicate 16 7, length_drawn⟩⟩,
  .resolved 0 ⟨[], List.replicate 16 7, List.replicate 16 9, 2⟩,
  .signatureReady 0 { answer := .error "", nowMs := .finite 2,
                      transform := { result := .ok none } }]

def server (moves : List Move) : Server :=
  run (Server.step platform atribOptions) (atrib platform atribOptions codec) moves

/-- A resource that has no text. -/
def extra : JsValue :=
  .object [("authInfo", .object [("resource", .object [("toString", .string "resource")])])]

/-- Of each call of the upstream handler, whether it had a receipt and how many records had been
committed. -/
def receipts (s : Server) : List (List (Bool × ℕ)) :=
  s.calls.map fun call =>
    call.upstream.map fun upstream => (upstream.receipt.isSome, upstream.committed.length)

/-- The upstream handler gets the receipt of the one record of its request. -/
example : receipts (server (request (.object []))) = [[(true, 1)]] := by decide +kernel

/-- The evidence cannot be read, and the receipt is of no record that has been committed. -/
theorem dangling_receipt :
    atribOptions.paired = true ∧ ¬Evidenced platform (server (request extra)) := by
  have hreceipts : receipts (server (request extra)) = [[(true, 0)]] := by decide +kernel
  refine ⟨rfl, fun hevidenced => ?_⟩
  obtain ⟨call, hcalls, hcall⟩ := List.map_eq_singleton_iff.1 hreceipts
  obtain ⟨upstream, hupstream, hpair⟩ := List.map_eq_singleton_iff.1 hcall
  obtain ⟨hsome, hlength⟩ := Prod.mk.inj hpair
  obtain ⟨built, hbuilt⟩ := Option.isSome_iff_exists.1 hsome
  have hget : (server (request extra)).calls[0]? = some call := by rw [hcalls]; rfl
  have hmem : upstream ∈ call.upstream := by rw [hupstream]; exact List.mem_singleton_self _
  obtain ⟨-, commit, hcommit, -⟩ := hevidenced.receipts 0 call hget upstream hmem built hbuilt
  rw [List.length_eq_zero_iff.1 hlength] at hcommit
  cases hcommit

/-- Nothing is committed of it later either. -/
example : (server (request extra)).commits.length = 0 := by decide +kernel

theorem clean : Always (Server.step platform atribOptions) (CleanMove atribOptions)
    (atrib platform atribOptions codec) (request (.object []) ++ outcome) := by
  have hextras : (server ((request (.object [])).take 3)).calls.map (·.extra) = [.object []] := by
    decide +kernel
  refine ⟨trivial, trivial, trivial, fun call draft members signature hget _ _ => ⟨rfl, ?_⟩,
    fun call request _ _ _ _ => rfl, trivial, trivial,
    fun call draft members signature _ _ hplaces => ?_, trivial⟩
  · have hextra : ((server ((request (.object [])).take 3)).calls.map (·.extra))[0]? =
        some call.extra := by
      rw [List.getElem?_map]
      exact congrArg (Option.map Call.extra) hget
    rw [hextras] at hextra
    rw [← Option.some.inj hextra]
    rfl
  · simp [placesReceipt, Except.toOption] at hplaces

/-- The request is committed before there is an outcome. -/
example : (server (request (.object []))).commits.map (·.role) = [.request] := by decide +kernel

/-- The roles of what is committed, where the evidence can be read. -/
theorem attribution_transparent_sample :
    (server (request (.object []) ++ outcome)).commits.map (·.role) = [.request, .outcome] ∧
      Evidenced platform (server (request (.object []) ++ outcome)) := by
  refine ⟨by decide +kernel, ?_⟩
  exact (attribution_transparent codec _).2 rfl clean

end ReceiptSample

end Atrib.Middleware
