import Atrib.Lib.Run
import Atrib.Mcp.Middleware
import Atrib.Proofs.Encodings
import Atrib.Proofs.RecordOwnership
import Atrib.Proofs.SignedRecords

/-!
# What the middleware commits verifies

The wrapped handler looks whether `destroy` has been called, and then it waits:
for the public key, for the resolver of references, for the signature. The
records it commits verify as long as `destroy` does not come in between, and as
long as the context that the process has taken over from the seed is one. Both
are necessary: a key that is zeroed while a call waits is signed with all the
same, and a context is not looked at again before it is signed.

The fields that verification checks come from the request by several ways; each
of these gives 32 hex digits or nothing. With a signer in another process there
is nothing to show, since the middleware verifies what it is sent.
-/

namespace Atrib.Middleware

open Lib (JsNumber JsValue run Always run_invariant)
open LocalSubstrate (encodeToken)
open Verify (base64urlDecode)

/-! ## Records that are built -/

variable (P : Platform) (options : AtribOptions)

/-- The members of a record, of which none is a signature. -/
def MembersOf (draft : Draft) (members : List (String × JsValue)) : Prop :=
  ∃ now rest, members = fixedMembers P options draft now ++ rest ∧
    ∀ entry ∈ rest, entry.1 ≠ "signature" ∧ entry.1 ≠ "signers"

theorem commitmentMembers_keys {hashKey saltKey : String} {value : Option JsValue}
    {scheme : CommitmentScheme} {saltBytes : Bytes} {entry : String × JsValue}
    (h : entry ∈ commitmentMembers P hashKey saltKey value scheme saltBytes) :
    entry.1 = hashKey ∨ entry.1 = saltKey := by
  unfold commitmentMembers at h
  repeat' split at h
  · cases h
  · cases h
  · cases h
  · next commitment _ =>
      rcases List.mem_cons.1 h with rfl | hsalt
      · exact Or.inl rfl
      · simp only [Option.mem_toList, Option.map_eq_some_iff] at hsalt
        obtain ⟨salt, -, rfl⟩ := hsalt
        exact Or.inr rfl

theorem toolNameMembers_keys {toolName : JsValue} {members : List (String × JsValue)}
    (h : toolNameMembers P options toolName = .ok members) {entry : String × JsValue}
    (hentry : entry ∈ members) : entry.1 = "tool_name" := by
  unfold toolNameMembers at h
  split at h
  · cases h
    cases hentry
  · cases h
    rw [List.mem_singleton.1 hentry]
  · cases htext : JsValue.toText P.text toolName with
    | error e =>
        rw [htext] at h
        cases h
    | ok text =>
        rw [htext] at h
        cases h
        rw [List.mem_singleton.1 hentry]

theorem membersOf_recordMembers {draft : Draft} {params : JsValue} {resultForHash : Option JsValue}
    {input : SignInput} {members : List (String × JsValue)}
    (h : recordMembers P options draft params resultForHash input = .ok members) :
    MembersOf P options draft members := by
  unfold recordMembers at h
  cases hoptional : optionalMembers P options draft params resultForHash input with
  | error e =>
      rw [hoptional] at h
      cases h
  | ok rest =>
      rw [hoptional] at h
      cases h
      refine ⟨input.now, rest, rfl, fun entry hentry => ?_⟩
      unfold optionalMembers at hoptional
      cases htool : toolNameMembers P options draft.toolName with
      | error e =>
          rw [htool] at hoptional
          cases hoptional
      | ok toolName =>
          rw [htool] at hoptional
          cases hoptional
          simp only [List.mem_append, List.mem_map, Option.mem_toList, Option.map_eq_some_iff]
            at hentry
          rcases hentry with (((hargs | ⟨hashes, -, rfl⟩) | hresult) | ⟨token, -, rfl⟩) | hname
          · rcases commitmentMembers_keys P hargs with hkey | hkey
            · simp [hkey]
            · simp [hkey]
          · simp
          · rcases commitmentMembers_keys P hresult with hkey | hkey
            · simp [hkey]
            · simp [hkey]
          · simp
          · simp [toolNameMembers_keys P options htool hname]

variable {P options}

theorem MembersOf.keys {draft : Draft} {members : List (String × JsValue)}
    (h : MembersOf P options draft members) : Unsigned members := by
  obtain ⟨now, rest, rfl, hrest⟩ := h
  intro entry hentry
  rcases List.mem_append.1 hentry with hfixed | hentry
  · simp only [fixedMembers, List.mem_cons, List.not_mem_nil, or_false] at hfixed
    rcases hfixed with rfl | rfl | rfl | rfl | rfl | rfl | rfl <;> simp
  · exact hrest entry hentry

/-- What the fixed members are read as. -/
theorem MembersOf.fixed {draft : Draft} {members : List (String × JsValue)}
    (h : MembersOf P options draft members) (signature : String) :
    ∃ now : ℕ,
      (withSignature members signature).member "spec_version" = .string "atrib/1.0" ∧
      (withSignature members signature).member "creator_key" = .string (publicKeyB64 P options) ∧
      (withSignature members signature).member "event_type" = .string draft.eventType ∧
      (withSignature members signature).member "context_id" = .string draft.contextId ∧
      (withSignature members signature).member "timestamp" = .number (.finite now) := by
  obtain ⟨now, rest, rfl, -⟩ := h
  refine ⟨now, ?_⟩
  simp [withSignature, fixedMembers, JsValue.member, JsValue.get, Except.toOption, List.lookup_cons]

/-! ## Records that verify -/

/-- The record verifies, whenever the clock is at most five minutes behind it. -/
def Verifies (P : Platform) (record : JsValue) : Prop :=
  ∃ timestamp : ℕ, record.member "timestamp" = .number (.finite timestamp) ∧
    ∀ nowMs : ℕ, timestamp ≤ nowMs + 5 * 60 * 1000 →
      verifyRecord P record (.finite nowMs) = true

theorem natural?_natCast (n : ℕ) : natural? (.number (.finite n)) = some n := by
  have hnatural : ((n : ℚ)).isInt = true ∧ 0 ≤ (n : ℚ) := ⟨rfl, Nat.cast_nonneg n⟩
  rw [natural?, if_pos hnatural]
  rfl

theorem verifyTimestamp_natCast {timestamp nowMs : ℕ} :
    verifyTimestamp (.number (.finite timestamp)) (.finite nowMs) = true ↔
      timestamp ≤ nowMs + 5 * 60 * 1000 := by
  rw [verifyTimestamp, natural?_natCast, natural?_natCast]
  simp

/-- Only one of the checks looks at the clock. -/
theorem verifies_of_verifyRecord {record : JsValue} {timestamp : ℕ} {nowMs : JsNumber}
    (htimestamp : record.member "timestamp" = .number (.finite timestamp))
    (h : verifyRecord P record nowMs = true) : Verifies P record := by
  refine ⟨timestamp, htimestamp, fun nowMs' hclock => ?_⟩
  simp only [verifyRecord, Bool.and_eq_true] at h ⊢
  refine ⟨⟨h.1.1, ?_⟩, h.2⟩
  rw [htimestamp]
  exact verifyTimestamp_natCast.2 hclock

/-- A context and an event type that pass. -/
def DraftSound (draft : Draft) : Prop :=
  isHex32 draft.contextId = true ∧
    (draft.eventType = EVENT_TYPE_TOOL_CALL_URI ∨ draft.eventType = EVENT_TYPE_TRANSACTION_URI)

theorem isValidEventTypeUri_of_draftSound {draft : Draft} (h : DraftSound draft) :
    isValidEventTypeUri (.string draft.eventType) = true := by
  rcases h.2 with htype | htype
  · rw [htype]
    decide +kernel
  · rw [htype]
    decide +kernel

/-- What is signed with the key of the process verifies under it. -/
theorem verifySignature_signed (hP : P.Lawful) (hsigner : options.signer = none) {draft : Draft}
    {members : List (String × JsValue)} (hmembers : MembersOf P options draft members)
    {signature : String}
    (hsignature : signatureOf P (withSignature members "") options.creatorKey = .ok signature) :
    verifySignature P (withSignature members signature) = .ok true := by
  obtain ⟨now, -, hkey, -⟩ := hmembers.fixed signature
  rw [publicKeyB64, hsigner, Option.getD_none] at hkey
  exact hmembers.keys.verifySignature hP (options.length_creatorKey hsigner) hkey hsignature

theorem verifies_signed (hP : P.Lawful) (hsigner : options.signer = none) {draft : Draft}
    (hdraft : DraftSound draft) {members : List (String × JsValue)}
    (hmembers : MembersOf P options draft members) {signature : String}
    (hsignature : signatureOf P (withSignature members "") options.creatorKey = .ok signature) :
    Verifies P (withSignature members signature) := by
  obtain ⟨now, hversion, -, htype, hcontext, htimestamp⟩ := hmembers.fixed signature
  refine @verifies_of_verifyRecord _ _ _ (.finite now) htimestamp ?_
  have hclock : verifyTimestamp (.number (.finite now)) (.finite now) = true :=
    verifyTimestamp_natCast.2 (by omega)
  simp only [verifyRecord, verifySignature_signed hP hsigner hmembers hsignature, hversion, htype,
    hcontext, htimestamp, isValidEventTypeUri_of_draftSound hdraft, hclock, Except.toOption,
    Option.getD_some, LocalSubstrate.strictEq_string_iff, Bool.and_true, Bool.true_and,
    JsValue.string?, Option.any_some, Bool.and_eq_true]
  exact ⟨trivial, hdraft.1⟩

/-- What the signer's process is asked for is verified when it comes. -/
theorem verifies_signerSignRecord {draft : Draft} {members : List (String × JsValue)}
    (hmembers : MembersOf P options draft members) {answer : Except String String}
    {nowMs : JsNumber} {signed : JsValue}
    (h : signerSignRecord P members answer nowMs = .ok signed) : Verifies P signed := by
  unfold signerSignRecord at h
  cases answer with
  | error e =>
      split at h
      · cases h
      · cases h
  | ok signature =>
      obtain ⟨now, -, -, -, -, htimestamp⟩ := hmembers.fixed signature
      split at h
      · cases h
      · by_cases hverified : verifyRecord P (withSignature members signature) nowMs = true
        · simp only [Bind.bind, Except.bind, hverified] at h
          obtain rfl : withSignature members signature = signed := Except.ok.inj h
          exact verifies_of_verifyRecord htimestamp hverified
        · simp only [Bind.bind, Except.bind, hverified] at h
          cases h

/-! ## The context of a record -/

theorem isHex32_resolvedContext {params : JsValue} {contextIdResolver : Except String JsValue}
    {contextId : String} (h : resolvedContext params contextIdResolver = some contextId) :
    isHex32 contextId = true := by
  rw [resolvedContext, Option.or_eq_some_iff, Option.or_eq_some_iff] at h
  rcases h with (hinbound | ⟨-, htraceparent⟩) | ⟨-, hresolver⟩
  · obtain ⟨inbound, hread, hcontext⟩ := Option.bind_eq_some_iff.1 hinbound
    exact isHex32_inbound hread hcontext
  · obtain ⟨traceparent, -, hsecond⟩ := Option.bind_eq_some_iff.1 htraceparent
    exact isHex32_secondPart hsecond
  · exact (Option.filter_eq_some_iff.1 hresolver).2

/-- A context for the process that may be used. An empty one is replaced. -/
def StableSound (stableContextId : Option String) : Prop :=
  ∀ contextId, stableContextId = some contextId → contextId = "" ∨ isHex32 contextId = true

theorem contextOf_sound {stableContextId : Option String} (h : StableSound stableContextId)
    (params : JsValue) (input : BuildInput) :
    isHex32 (contextOf options stableContextId params input).1 = true ∧
      StableSound (contextOf options stableContextId params input).2 := by
  unfold contextOf
  split
  · next contextId hresolved => exact ⟨isHex32_resolvedContext hresolved, h⟩
  · split
    · have hcontext : isHex32 ((stableContextId.filter (· ≠ "")).getD
          (hexEncode input.random.val)) = true := by
        cases hstable : stableContextId.filter (· ≠ "") with
        | none => exact isHex32_hexEncode _
        | some contextId =>
            obtain ⟨hsome, hne⟩ := Option.filter_eq_some_iff.1 hstable
            exact (h contextId hsome).resolve_left (by simpa using hne)
      refine ⟨hcontext, fun contextId hsome => Or.inr ?_⟩
      obtain rfl := Option.some.inj hsome
      exact hcontext
    · exact ⟨isHex32_hexEncode _, h⟩

theorem draftOf_sound {s : Server} (h : StableSound s.stableContextId) {params : JsValue} {job : Job}
    {input : BuildInput} {draft : Draft} (hdraft : draftOf P options s params job input = .ok draft) :
    DraftSound draft := by
  cases hcontent : computeContentId P options (toolNameOf params) with
  | error e =>
      simp only [draftOf, hcontent] at hdraft
      cases hdraft
  | ok contentId =>
      simp only [draftOf, hcontent] at hdraft
      obtain rfl := Except.ok.inj hdraft
      refine ⟨(contextOf_sound h params input).1, ?_⟩
      simp only [eventTypeOverride]
      split
      · split
        · exact Or.inl rfl
        · simp only [Option.getD_none]
          split
          · exact Or.inr rfl
          · exact Or.inl rfl
      · simp only [Option.getD_none]
        split
        · exact Or.inr rfl
        · exact Or.inl rfl

/-! ## The condition -/

/-- Between a look at `destroyed` and the commit that follows. -/
def Phase.inSection : Phase → Bool
  | .awaitingKey _ | .resolving _ _ | .signing _ _ _ _ => true
  | .running _ | .answered _ => false

/-- `destroy` comes while no call is about to sign, or there is nothing to zero. -/
def CarefulDestroy (options : AtribOptions) (s : Server) : Move → Prop
  | .destroy => options.signer.isSome = true ∨ s.destroyed = true ∨
      ∀ call ∈ s.calls, call.phase.inSection = false
  | _ => True

/-- The context taken over from the seed may be used, or it is the signer's to refuse. -/
def SeedSound (P : Platform) (options : AtribOptions) (codec : RecordCodec) : Prop :=
  options.signer = none → StableSound (atrib P options codec).stableContextId

/-- What has been committed verifies, and no key that signs or is there when a record is
committed has been zeroed. -/
structure Sound (P : Platform) (options : AtribOptions) (s : Server) : Prop where
  verifies : ∀ commit ∈ s.commits, Verifies P commit.built.signed
  intact : options.signer = none → ∀ commit ∈ s.commits, commit.privateKey = options.creatorKey
  signed : ∀ key ∈ s.signedWith, key = options.creatorKey

/-! ## One move -/

/-- What a call that waits has made so far. -/
def PhaseSound (P : Platform) (options : AtribOptions) : Phase → Prop
  | .awaitingKey _ | .running none | .answered _ => True
  | .resolving _ draft => options.signer = none → DraftSound draft
  | .signing _ draft members signature =>
      MembersOf P options draft members ∧ (options.signer = none → DraftSound draft ∧
        signature = signatureOf P (withSignature members "") options.creatorKey)
  | .running (some built) => Verifies P built.signed

structure Inv (P : Platform) (options : AtribOptions) (s : Server) : Prop extends
    Sound P options s where
  key : s.destroyed = false → s.privateKey = options.creatorKey
  calm : options.signer = none → s.destroyed = true → ∀ call ∈ s.calls, call.phase.inSection = false
  stable : options.signer = none → StableSound s.stableContextId
  phases : ∀ call ∈ s.calls, PhaseSound P options call.phase

variable {s : Server}

theorem Inv.setCall (h : Inv P options s) {index : ℕ} {call : Call}
    (hphase : PhaseSound P options call.phase)
    (hcalm : options.signer = none → s.destroyed = true → call.phase.inSection = false) :
    Inv P options (s.setCall index call) where
  verifies := h.verifies
  intact := h.intact
  signed := h.signed
  key := h.key
  stable := h.stable
  calm hsigner hdestroyed call' hcall := by
    rcases List.mem_or_eq_of_mem_set hcall with hcall | rfl
    · exact h.calm hsigner hdestroyed call' hcall
    · exact hcalm hsigner hdestroyed
  phases call' hcall := by
    rcases List.mem_or_eq_of_mem_set hcall with hcall | rfl
    · exact h.phases call' hcall
    · exact hphase

theorem Inv.answer (h : Inv P options s) (index : ℕ) (call : Call) (a : Except Thrown JsValue) :
    Inv P options (s.answer index call a) :=
  h.setCall trivial fun _ _ => rfl

theorem Inv.callUpstream (h : Inv P options s) (index : ℕ) (call : Call)
    {preBuilt : Option BuiltRecord} (hbuilt : ∀ built, preBuilt = some built → Verifies P built.signed) :
    Inv P options (s.callUpstream index call preBuilt) := by
  refine h.setCall ?_ fun _ _ => rfl
  cases preBuilt with
  | none => trivial
  | some built => exact hbuilt built rfl

theorem Inv.callUpstream_none (h : Inv P options s) (index : ℕ) (call : Call) :
    Inv P options (s.callUpstream index call none) :=
  h.callUpstream index call nofun

theorem Inv.abandon (h : Inv P options s) (index : ℕ) (call : Call) (job : Job) :
    Inv P options (s.abandon index call job) := by
  cases job with
  | preCall => exact h.callUpstream_none index call
  | postCall result => exact h.answer index call _
  | outcome result request => exact h.answer index call _
  | failure error request => exact h.answer index call _

/-- A record that verifies is committed, and the key is still there. -/
theorem Inv.commitRecord (h : Inv P options s) {built : BuiltRecord}
    (hbuilt : Verifies P built.signed) (hthere : options.signer = none → s.destroyed = false)
    (index : ℕ) (role : Role) (written : Bool) :
    Inv P options (s.commitRecord options index role built written) where
  key := h.key
  calm := h.calm
  stable := h.stable
  phases := h.phases
  signed := h.signed
  verifies commit hcommit := by
    simp only [Server.commitRecord] at hcommit
    split at hcommit
    · rcases List.mem_append.1 hcommit with hcommit | hcommit
      · exact h.verifies commit hcommit
      · rw [List.mem_singleton.1 hcommit]
        exact hbuilt
    · exact h.verifies commit hcommit
  intact hsigner commit hcommit := by
    simp only [Server.commitRecord] at hcommit
    split at hcommit
    · rcases List.mem_append.1 hcommit with hcommit | hcommit
      · exact h.intact hsigner commit hcommit
      · rw [List.mem_singleton.1 hcommit]
        exact h.key (hthere hsigner)
    · exact h.intact hsigner commit hcommit

theorem signed_of_builtRecord {draft : Draft} {members : List (String × JsValue)} {signed : JsValue}
    {built : BuiltRecord} (h : builtRecord P options draft members signed = .ok built) :
    built.signed = signed := by
  cases hbytes : LocalSubstrate.canonicalRecord P.toPlatform signed with
  | error e =>
      simp only [builtRecord, hbytes] at h
      cases h
  | ok bytes =>
      simp only [builtRecord, hbytes] at h
      cases h
      rfl

/-- The record that a call has waited for verifies. -/
theorem verifies_signedRecord (hP : P.Lawful) {job : Job} {draft : Draft}
    {members : List (String × JsValue)} {signature : Except String String} {input : SignatureInput}
    (hphase : PhaseSound P options (.signing job draft members signature)) {built : BuiltRecord}
    (h : signedRecord P options draft members signature input = .ok built) :
    Verifies P built.signed := by
  obtain ⟨hmembers, hlocal⟩ := hphase
  unfold signedRecord at h
  cases hsigner : options.signer with
  | some key =>
      simp only [hsigner, Option.isSome_some, if_true] at h
      cases hsigned : signerSignRecord P members input.answer input.nowMs with
      | error e =>
          rw [hsigned] at h
          cases h
      | ok signed =>
          rw [hsigned] at h
          rw [signed_of_builtRecord h]
          exact verifies_signerSignRecord hmembers hsigned
  | none =>
      obtain ⟨hdraft, rfl⟩ := hlocal hsigner
      simp only [hsigner, Option.isSome_none, Bool.false_eq_true, if_false] at h
      cases hsignature : signatureOf P (withSignature members "") options.creatorKey with
      | error e =>
          rw [hsignature] at h
          cases h
      | ok signature =>
          rw [hsignature] at h
          rw [signed_of_builtRecord h]
          exact verifies_signed hP hsigner hdraft hmembers hsignature

theorem Inv.commitResult (h : Inv P options s) {built : BuiltRecord}
    (hbuilt : Verifies P built.signed) (hthere : options.signer = none → s.destroyed = false)
    (index : ℕ) (call : Call) (role : Role) (result : HandlerResult) :
    Inv P options (s.commitResult P options index call role built result) := by
  have hcommitted (written : Bool) := h.commitRecord hbuilt hthere index role written
  unfold Server.commitResult
  split
  · exact (hcommitted true).answer index call _
  · split
    · exact (hcommitted true).answer index call _
    · exact (hcommitted false).answer index call _

theorem Inv.finishPreCall (h : Inv P options s) {built : BuiltRecord}
    (hbuilt : Verifies P built.signed) (hthere : options.signer = none → s.destroyed = false)
    (index : ℕ) (call : Call) (input : SignatureInput) :
    Inv P options (s.finishPreCall P options index call built input) := by
  have hsome : ∀ built', some built = some built' → Verifies P built'.signed := by
    intro built' hsame
    cases hsame
    exact hbuilt
  unfold Server.finishPreCall
  split
  · simp only
    split
    · exact h.callUpstream_none index _
    · split
      · exact h.callUpstream index _ hsome
      · split
        · exact h.callUpstream_none index _
        · exact (h.commitRecord hbuilt hthere index .request true).callUpstream index _ hsome
  · exact h.callUpstream_none index _

theorem Inv.finish (h : Inv P options s) {built : BuiltRecord} (hbuilt : Verifies P built.signed)
    (hthere : options.signer = none → s.destroyed = false) (index : ℕ) (call : Call) (job : Job)
    (input : SignatureInput) : Inv P options (s.finish P options index call job built input) := by
  cases job with
  | preCall => exact h.finishPreCall hbuilt hthere index call input
  | postCall result => exact h.commitResult hbuilt hthere index call .plain result
  | outcome result request => exact h.commitResult hbuilt hthere index call .outcome result
  | failure error request =>
      simp only [Server.finish]
      split
      · exact h.answer index call _
      · exact (h.commitRecord hbuilt hthere index .outcome true).answer index call _

/-- A call in a section has the key. -/
theorem Inv.there (h : Inv P options s) {call : Call} (hcall : call ∈ s.calls)
    (hsection : call.phase.inSection = true) : options.signer = none → s.destroyed = false := by
  intro hsigner
  by_contra hdestroyed
  rw [Bool.not_eq_false] at hdestroyed
  rw [h.calm hsigner hdestroyed call hcall] at hsection
  cases hsection

theorem Inv.append (h : Inv P options s) {call : Call} (hphase : PhaseSound P options call.phase)
    (hcalm : options.signer = none → s.destroyed = true → call.phase.inSection = false) :
    Inv P options { s with calls := s.calls ++ [call] } where
  verifies := h.verifies
  intact := h.intact
  signed := h.signed
  key := h.key
  stable := h.stable
  calm hsigner hdestroyed call' hcall := by
    rcases List.mem_append.1 hcall with hcall | hcall
    · exact h.calm hsigner hdestroyed call' hcall
    · rw [List.mem_singleton.1 hcall]
      exact hcalm hsigner hdestroyed
  phases call' hcall := by
    rcases List.mem_append.1 hcall with hcall | hcall
    · exact h.phases call' hcall
    · rw [List.mem_singleton.1 hcall]
      exact hphase

theorem Inv.receive (h : Inv P options s) (params extra : JsValue) :
    Inv P options (s.receive options params extra) := by
  unfold Server.receive
  split
  · next hbefore =>
      refine h.append trivial fun _ hdestroyed => ?_
      simp [hdestroyed] at hbefore
  · refine Inv.callUpstream_none (h.append ?_ fun _ _ => rfl) _ _
    trivial

theorem Inv.keyReady (h : Inv P options s) (index : ℕ) (call : Call) (job : Job)
    (hthere : options.signer = none → s.destroyed = false) (input : BuildInput) :
    Inv P options (s.keyReady P options index call job input) := by
  have hstable : Inv P options
      { s with stableContextId := (contextOf options s.stableContextId call.params input).2 } :=
    { h with stable := fun hsigner => (contextOf_sound (h.stable hsigner) call.params input).2 }
  unfold Server.keyReady
  simp only
  split
  · exact hstable.abandon index _ job
  · next draft hdraft =>
      refine hstable.setCall (fun hsigner => draftOf_sound (h.stable hsigner) hdraft) ?_
      intro hsigner hdestroyed
      rw [hthere hsigner] at hdestroyed
      cases hdestroyed

theorem Inv.resolved (h : Inv P options s) (index : ℕ) (call : Call) {job : Job} {draft : Draft}
    (hdraft : options.signer = none → DraftSound draft)
    (hthere : options.signer = none → s.destroyed = false) (input : SignInput) :
    Inv P options (s.resolved P options index call job draft input) := by
  unfold Server.resolved
  split
  · exact h.abandon index _ job
  · next members hmembers =>
      have hsigned : Inv P options { s with signedWith :=
          if options.signer.isSome then s.signedWith else s.signedWith ++ [s.privateKey] } := by
        refine { h with signed := fun key hkey => ?_ }
        simp only at hkey
        split at hkey
        · exact h.signed key hkey
        · next hnone =>
            rcases List.mem_append.1 hkey with hkey | hkey
            · exact h.signed key hkey
            · rw [List.mem_singleton.1 hkey]
              exact h.key (hthere (by simpa using hnone))
      refine hsigned.setCall ⟨membersOf_recordMembers P options hmembers, fun hsigner =>
        ⟨hdraft hsigner, ?_⟩⟩ ?_
      · rw [h.key (hthere hsigner)]
      · intro hsigner hdestroyed
        rw [hthere hsigner] at hdestroyed
        cases hdestroyed

theorem Inv.handlerReturns (h : Inv P options s) (index : ℕ) (call : Call)
    {preBuilt : Option BuiltRecord} (hbuilt : ∀ built, preBuilt = some built → Verifies P built.signed)
    (result : HandlerResult) :
    Inv P options (s.handlerReturns P options index call preBuilt result) := by
  unfold Server.handlerReturns
  simp only
  split
  · exact h.answer index _ _
  · next hdestroyed =>
      rw [Bool.not_eq_true] at hdestroyed
      have hcalm (job : Job) : options.signer = none → s.destroyed = true →
          (Phase.awaitingKey job).inSection = false := by simp [hdestroyed]
      split
      · exact h.answer index _ _
      · cases hevidence : sidecarEvidence options call.extra with
        | error e => exact h.answer index _ _
        | ok evidence =>
            cases preBuilt with
            | none => exact h.setCall trivial (hcalm _)
            | some built =>
                simp only
                split
                · exact h.setCall trivial (hcalm _)
                · exact h.commitResult (hbuilt built rfl) (fun _ => hdestroyed) index _ .plain result

theorem Inv.handlerThrows (h : Inv P options s) (index : ℕ) (call : Call)
    (preBuilt : Option BuiltRecord) (error : Thrown) :
    Inv P options (s.handlerThrows options index call preBuilt error) := by
  unfold Server.handlerThrows
  simp only
  split
  · split
    · next hnot =>
        refine h.setCall trivial fun _ hdestroyed => ?_
        simp [hdestroyed] at hnot
    · exact h.answer index _ _
  · exact h.answer index _ _

theorem Inv.destroy (h : Inv P options s) (hcareful : CarefulDestroy options s .destroy) :
    Inv P options s.destroy := by
  unfold Server.destroy
  split
  · exact h
  · next hnot =>
      refine ⟨⟨h.verifies, h.intact, h.signed⟩, nofun, fun hsigner _ => ?_, h.stable, h.phases⟩
      rcases hcareful with hsome | hdestroyed | hcalm
      · rw [hsigner] at hsome
        cases hsome
      · exact absurd hdestroyed hnot
      · exact hcalm

theorem Inv.step (hP : P.Lawful) (h : Inv P options s) (move : Move)
    (hcareful : CarefulDestroy options s move) : Inv P options (s.step P options move) := by
  cases move with
  | call params extra => exact h.receive params extra
  | destroy => exact h.destroy hcareful
  | keyReady index input =>
      simp only [Server.step]
      split
      · exact h
      · next call hget =>
          have hcall := List.mem_of_getElem? hget
          split
          · next job hphase => exact h.keyReady index call job (h.there hcall (by rw [hphase]; rfl)) input
          · exact h
  | resolved index input =>
      simp only [Server.step]
      split
      · exact h
      · next call hget =>
          have hcall := List.mem_of_getElem? hget
          have hsound := h.phases call hcall
          split
          · next job draft hphase =>
              rw [hphase] at hsound
              exact h.resolved index call hsound (h.there hcall (by rw [hphase]; rfl)) input
          · exact h
  | signatureReady index input =>
      simp only [Server.step]
      split
      · exact h
      · next call hget =>
          have hcall := List.mem_of_getElem? hget
          have hsound := h.phases call hcall
          split
          · next job draft members signature hphase =>
              rw [hphase] at hsound
              unfold Server.signatureReady
              split
              · exact h.abandon index _ job
              · next built hbuilt =>
                  exact h.finish (verifies_signedRecord hP hsound hbuilt)
                    (h.there hcall (by rw [hphase]; rfl)) index call job input
          · exact h
  | handlerReturns index result =>
      simp only [Server.step]
      split
      · exact h
      · next call hget =>
          have hsound := h.phases call (List.mem_of_getElem? hget)
          split
          · next preBuilt hphase =>
              refine h.handlerReturns index call (fun built hbuilt => ?_) result
              rw [hphase, hbuilt] at hsound
              exact hsound
          · exact h
  | handlerThrows index error =>
      simp only [Server.step]
      split
      · exact h
      · next call hget =>
          split
          · next preBuilt hphase => exact h.handlerThrows index call preBuilt error
          · exact h

/-! ## Runs -/

theorem inv_atrib {codec : RecordCodec} (hseed : SeedSound P options codec) :
    Inv P options (atrib P options codec) := by
  have hcommits : (atrib P options codec).commits = [] := rfl
  have hsigned : (atrib P options codec).signedWith = [] := rfl
  have hcalls : (atrib P options codec).calls = [] := rfl
  have hkey : (atrib P options codec).privateKey = options.creatorKey := rfl
  refine ⟨⟨?_, fun _ => ?_, ?_⟩, fun _ => hkey, fun _ _ => ?_, hseed, ?_⟩
  · simp [hcommits]
  · simp [hcommits]
  · simp [hsigned]
  · simp [hcalls]
  · simp [hcalls]

/-- While `destroy` comes between the sections only, every record that is committed verifies,
and no zeroed key signs or is there at a commit. -/
theorem committed_sound (hP : P.Lawful) {codec : RecordCodec} (hseed : SeedSound P options codec)
    {moves : List Move} (hcareful : Always (Server.step P options) (CarefulDestroy options)
      (atrib P options codec) moves) :
    Sound P options (run (Server.step P options) (atrib P options codec) moves) := by
  have hstep : ∀ s move, Inv P options s → CarefulDestroy options s move →
      Inv P options (Server.step P options s move) :=
    fun _ move h hmove => h.step hP move hmove
  exact (run_invariant hstep (inv_atrib hseed) hcareful).toSound

namespace DestroySample

open LocalSubstrate (OwnerSample.canonicalText)

def creatorKey : Bytes := List.replicate 32 1

def zeroedKey : Bytes := List.replicate 32 0

def publicKey : Bytes :=
  hexBytes "8a88e3dd7409f195fd52db2d3cba5d72ca6709bf1d94121bf3748801b40f6f5c".toList

/-- The public key of 32 zeros. -/
def zeroedPublicKey : Bytes :=
  hexBytes "3b6a27bcceb6a42d62a3a8d02a6f0d73653215771de243a63ac048a18b59da29".toList

/-- What the two keys make of the record that is signed. -/
def signature : Bytes :=
  hexBytes ("68ab84907f221d03afeabae6aea2147b14b125e5c71a462d125900f406d4d526" ++
    "7ef00ab3cdb178a0a6eeea2a2081c6e0c5c069ed7978b9e8272654b39a469f03").toList

def zeroedSignature : Bytes :=
  hexBytes ("ac1d808ede60020fb6488b357137f4038dc65366fb85934b25c252b3fa08e767" ++
    "15c865c7b6f8b6d57ee407049a6685d93f9c6a471c1ee685bae12c833536f407").toList

/-- Ed25519 for the two keys and the one record, and JCS for records with its members. -/
def platform : Platform where
  toPlatform := { LocalSubstrate.OwnerSample.platform with
    canonicalize := fun record =>
      .ok (some (OwnerSample.canonicalText
        (match record.member "signature" with
        | .string text => "\"signature\":\"" ++ text ++ "\","
        | _ => ""))) }
  getPublicKey key := if key = creatorKey then publicKey else zeroedPublicKey
  sign _ key := if key = creatorKey then signature else zeroedSignature
  verify sig _ key := !(sig = zeroedSignature && key = publicKey)
  text := ⟨fun _ => "", fun _ => .nan, fun _ => none⟩

theorem lawful : platform.Lawful where
  length_getPublicKey key _ := by
    simp only [platform, publicKey, zeroedPublicKey, toList_eq_charsOf]
    split <;> decide +kernel
  length_sign _ key _ := by
    simp only [platform, signature, zeroedSignature, toList_eq_charsOf]
    split <;> decide +kernel
  verify_sign _ key _ := by
    simp only [platform, publicKey, zeroedPublicKey, signature, zeroedSignature, toList_eq_charsOf]
    split <;> decide +kernel

def atribOptions : AtribOptions where
  creatorKey := creatorKey
  length_creatorKey _ := by decide
  serverUrl := "https://mcp.example"

def codec : RecordCodec where
  canonicalRecord _ := []
  verifyRecord _ := true

theorem seedSound : SeedSound platform atribOptions codec := by
  intro _ contextId hstable
  have hnone : (atrib platform atribOptions codec).stableContextId = none := by decide +kernel
  rw [hnone] at hstable
  cases hstable

def params : JsValue :=
  .object [("name", .string "search"), ("arguments", .object []), ("_meta", .object [
    ("traceparent", .string "00-aaaaaaaaaaaaaaaaaaaaaaaaaaaaaaaa-bbbbbbbbbbbbbbbb-01")])]

/-- The call up to the end of the upstream handler, and what is left of it. -/
def before : List Move := [.call params (.object []), .handlerReturns 0 { value := .object [] }]

def after : List Move := [
  .keyReady 0 ⟨.ok .undefined, ⟨List.replicate 16 7, by decide⟩⟩, .resolved 0 ⟨[], [], [], 1⟩,
  .signatureReady 0 { answer := .error "", nowMs := .finite 1, transform := { result := .ok none } }]

def server (moves : List Move) : Server :=
  run (Server.step platform atribOptions) (atrib platform atribOptions codec) moves

/-- The time of each committed record, and whether it verifies then. -/
def verdicts (s : Server) : List (JsValue × Bool) :=
  s.commits.map fun commit =>
    (commit.built.signed.member "timestamp", verifyRecord platform commit.built.signed (.finite 1))

/-- `destroy` comes when the handler has returned and the key is waited for. -/
theorem zeroed_key_signs :
    platform.Lawful ∧ SeedSound platform atribOptions codec ∧
      let s := server (before ++ [.destroy] ++ after)
      (∃ commit ∈ s.commits, ¬Verifies platform commit.built.signed) ∧
        s.signedWith = [zeroedKey] := by
  have hverdicts : verdicts (server (before ++ [.destroy] ++ after)) =
      [(.number (.finite 1), false)] := by decide +kernel
  refine ⟨lawful, seedSound, ?_, by decide +kernel⟩
  obtain ⟨commit, hcommits, hcommit⟩ := List.map_eq_singleton_iff.1 hverdicts
  refine ⟨commit, by rw [hcommits]; exact List.mem_singleton_self _, ?_⟩
  rintro ⟨timestamp, htimestamp, hverifies⟩
  obtain ⟨htime, hverdict⟩ := Prod.mk.inj hcommit
  rw [htimestamp] at htime
  obtain rfl : timestamp = 1 := by
    simpa using htime
  have hnow : verifyRecord platform commit.built.signed (.finite 1) = true := by
    simpa using hverifies 1 (by omega)
  rw [hnow] at hverdict
  cases hverdict

theorem careful : Always (Server.step platform atribOptions) (CarefulDestroy atribOptions)
    (atrib platform atribOptions codec) (before ++ after ++ [.destroy]) := by
  refine ⟨trivial, trivial, trivial, trivial, trivial, Or.inr (Or.inr ?_), trivial⟩
  decide +kernel

/-- `destroy` comes when the call has been answered. -/
theorem committed_sound_after :
    Sound platform atribOptions (server (before ++ after ++ [.destroy])) :=
  committed_sound lawful seedSound careful

end DestroySample

end Atrib.Middleware
