import Atrib.Atribd.ContextWriteLocks
import Atrib.Lib.Run
import Mathlib.Data.List.Chain
import Mathlib.Data.List.Infix

/-!
# Writes to one context are serialised

The chain of promises of a key is a queue. `Queues s q` says so: `q k` holds the
calls for `k` that have not released, in the order in which they came; each
waits for the one before it, the entry of `k` points to the last of them and
counts them, and all but the first are still waiting. A call that comes is
appended, and only the first can leave.

From that follows all the claim asks for but one thing. `routeToolCall` calls the
primitive before it looks at the signal, so a call that was cancelled while it
was queued is started all the same when its turn comes.
-/

namespace Atrib.Atribd

open Lib

namespace Daemon

variable {κ : Type} {s : Daemon κ} {q : κ → List ℕ}

/-- The calls that hold or await a lock stand in queues. -/
structure Queues (s : Daemon κ) (q : κ → List ℕ) : Prop where
  mem : ∀ {i call}, s.calls i = some call → (i ∈ q call.key ↔ call.phase ≠ .released)
  call : ∀ {k i}, i ∈ q k → ∃ call, s.calls i = some call ∧ call.key = k
  fresh : ∀ {i}, s.callCount ≤ i → s.calls i = none
  unused : ∀ {e}, s.entryCount ≤ e → s.entries e = {}
  sorted : ∀ k, (q k).Pairwise (· < ·)
  idle : ∀ {k}, q k = [] → s.tails k = none
  held : ∀ {k}, q k ≠ [] → ∃ e, s.tails k = some e ∧
    ∀ {i call}, i ∈ q k → s.calls i = some call → call.entry = e
  entry : ∀ {k e}, s.tails k = some e → e < s.entryCount ∧
    (s.entries e).depth = (q k).length ∧ (s.entries e).chain = (q k).getLast?
  distinct : ∀ {k k' e}, s.tails k = some e → s.tails k' = some e → k = k'
  chained : ∀ k, (q k).IsChain fun i j => ∀ call, s.calls j = some call → call.prior = some i
  head : ∀ {k i call}, (q k).head? = some i → s.calls i = some call →
    s.resolved call.prior = true
  waiting : ∀ {k i call}, i ∈ (q k).tail → s.calls i = some call → call.phase = .queued
  passed : ∀ {i call}, s.calls i = some call → call.phase = .released →
    ∀ j ∈ q call.key, i < j

namespace Queues

theorem lt_callCount (h : Queues s q) {i : ℕ} {call : WriteCall κ} (hcall : s.calls i = some call) :
    i < s.callCount := by
  by_contra hle
  rw [h.fresh (not_lt.1 hle)] at hcall
  cases hcall

/-- The first of a queue is not among the others. -/
theorem not_mem_tail (h : Queues s q) {k : κ} {i : ℕ} (hhead : (q k).head? = some i) :
    i ∉ (q k).tail := by
  intro htail
  have hsorted := h.sorted k
  cases hq : q k with
  | nil =>
      rw [hq] at hhead
      cases hhead
  | cons first rest =>
      rw [hq] at hhead htail hsorted
      obtain rfl : first = i := Option.some.inj hhead
      exact absurd ((List.pairwise_cons.1 hsorted).1 first htail) (lt_irrefl _)

/-- A call that holds its lock is the first of its queue. -/
theorem head_of_not_queued (h : Queues s q) {i : ℕ} {call : WriteCall κ}
    (hcall : s.calls i = some call) (hreleased : call.phase ≠ .released)
    (hqueued : call.phase ≠ .queued) : (q call.key).head? = some i := by
  have hmem := (h.mem hcall).2 hreleased
  cases hq : q call.key with
  | nil =>
      rw [hq] at hmem
      cases hmem
  | cons first rest =>
      rw [hq] at hmem
      rcases List.mem_cons.1 hmem with rfl | hrest
      · rfl
      · have htail : i ∈ (q call.key).tail := by
          rw [hq]
          exact hrest
        exact absurd (h.waiting htail hcall) hqueued

/-- In a chain each member but the first has one before it. -/
theorem exists_before {R : ℕ → ℕ → Prop} {i : ℕ} :
    ∀ {l : List ℕ}, l.IsChain R → i ∈ l.tail → ∃ p ∈ l, R p i := by
  intro l
  induction l with
  | nil => exact fun _ h => nomatch h
  | cons first rest ih =>
      intro hchain hmem
      cases rest with
      | nil => cases hmem
      | cons second rest =>
          rw [List.isChain_cons_cons] at hchain
          rcases List.mem_cons.1 hmem with rfl | hmem
          · exact ⟨first, List.mem_cons_self, hchain.1⟩
          · obtain ⟨p, hp, hR⟩ := ih hchain.2 hmem
            exact ⟨p, List.mem_cons_of_mem _ hp, hR⟩

/-- The promise of a call that has not released has not resolved. -/
theorem not_resolved (h : Queues s q) {k : κ} {p : ℕ} (hp : p ∈ q k) :
    s.resolved (some p) = false := by
  obtain ⟨call, hcall, rfl⟩ := h.call hp
  have hphase := (h.mem hcall).1 hp
  show (s.calls p).any _ = false
  rw [hcall]
  exact decide_eq_false hphase

/-- Only the first of a queue may go on. -/
theorem head_of_resolved (h : Queues s q) {i : ℕ} {call : WriteCall κ}
    (hcall : s.calls i = some call) (hreleased : call.phase ≠ .released)
    (hresolved : s.resolved call.prior = true) : (q call.key).head? = some i := by
  have hmem := (h.mem hcall).2 hreleased
  by_cases htail : i ∈ (q call.key).tail
  · obtain ⟨p, hp, hprior⟩ := exists_before (h.chained call.key) htail
    rw [hprior call hcall, h.not_resolved hp] at hresolved
    cases hresolved
  · cases hq : q call.key with
    | nil =>
        rw [hq] at hmem
        cases hmem
    | cons first rest =>
        rw [hq] at hmem htail
        exact congrArg some ((List.mem_cons.1 hmem).resolve_right htail).symm

/-! ### What an action does to the queues -/

/-- A promise looks the same after a change of a call that neither releases nor revives it. -/
theorem resolved_update {i : ℕ} {call call' : WriteCall κ} (hcall : s.calls i = some call)
    (hreleased : call'.phase = .released ↔ call.phase = .released) {s' : Daemon κ}
    (hcalls : s'.calls = Function.update s.calls i (some call')) (promise : Option ℕ) :
    s'.resolved promise = s.resolved promise := by
  cases promise with
  | none => rfl
  | some p =>
      show (s'.calls p).any _ = (s.calls p).any _
      rw [hcalls]
      by_cases hp : p = i
      · subst hp
        rw [Function.update_self, hcall]
        exact decide_eq_decide.2 hreleased
      · rw [Function.update_of_ne hp]

/-- A call moves on, in its place in the queue. -/
theorem update (h : Queues s q) {i : ℕ} {call : WriteCall κ} (hcall : s.calls i = some call)
    (call' : WriteCall κ) (hkey : call'.key = call.key) (hentry : call'.entry = call.entry)
    (hprior : call'.prior = call.prior)
    (hreleased : call'.phase = .released ↔ call.phase = .released)
    (htail : i ∈ (q call.key).tail → call'.phase = .queued) (started settledCalls : List ℕ) :
    Queues { s.setCall i call' with started, settledCalls } q := by
  have hresolved : ∀ promise, Daemon.resolved { s.setCall i call' with started, settledCalls }
      promise = s.resolved promise := resolved_update hcall hreleased rfl
  have hcases : ∀ {j c}, Function.update s.calls i (some call') j = some c →
      (j = i ∧ c = call') ∨ (j ≠ i ∧ s.calls j = some c) := by
    intro j c hj
    by_cases hne : j = i
    · rw [hne, Function.update_self, Option.some.injEq] at hj
      exact .inl ⟨hne, hj.symm⟩
    · rw [Function.update_of_ne hne] at hj
      exact .inr ⟨hne, hj⟩
  constructor
  case mem =>
    intro j c hj
    rcases hcases hj with ⟨rfl, rfl⟩ | ⟨-, hj⟩
    · rw [hkey, h.mem hcall]
      exact not_congr hreleased.symm
    · exact h.mem hj
  case call =>
    intro k j hj
    obtain ⟨c, hc, hk⟩ := h.call hj
    by_cases hne : j = i
    · subst hne
      rw [hcall, Option.some.injEq] at hc
      subst hc
      exact ⟨call', Function.update_self .., hkey.trans hk⟩
    · exact ⟨c, (Function.update_of_ne hne ..).trans hc, hk⟩
  case fresh =>
    intro j hj
    have hne : j ≠ i := by
      rintro rfl
      rw [h.fresh hj] at hcall
      cases hcall
    exact (Function.update_of_ne hne ..).trans (h.fresh hj)
  case unused => exact h.unused
  case sorted => exact h.sorted
  case idle => exact h.idle
  case held =>
    intro k hk
    obtain ⟨e, he, hall⟩ := h.held hk
    refine ⟨e, he, fun {j c} hmem hj => ?_⟩
    rcases hcases hj with ⟨rfl, rfl⟩ | ⟨-, hj⟩
    · exact hentry.trans (hall hmem hcall)
    · exact hall hmem hj
  case entry => exact h.entry
  case distinct => exact h.distinct
  case chained =>
    intro k
    refine (h.chained k).imp fun a b hab c hb => ?_
    rcases hcases hb with ⟨rfl, rfl⟩ | ⟨-, hb⟩
    · exact hprior.trans (hab call hcall)
    · exact hab c hb
  case head =>
    intro k j c hhead hj
    rw [hresolved]
    rcases hcases hj with ⟨rfl, rfl⟩ | ⟨-, hj⟩
    · rw [hprior]
      exact h.head hhead hcall
    · exact h.head hhead hj
  case waiting =>
    intro k j c hmem hj
    rcases hcases hj with ⟨rfl, rfl⟩ | ⟨-, hj⟩
    · obtain ⟨c, hc, rfl⟩ := h.call (List.mem_of_mem_tail hmem)
      rw [hcall, Option.some.injEq] at hc
      exact htail (hc ▸ hmem)
    · exact h.waiting hmem hj
  case passed =>
    intro j c hj hphase
    rcases hcases hj with ⟨rfl, rfl⟩ | ⟨-, hj⟩
    · rw [hkey]
      exact h.passed hcall (hreleased.1 hphase)
    · exact h.passed hj hphase

theorem init : Queues ({} : Daemon κ) fun _ => [] where
  mem h := nomatch h
  call h := nomatch h
  fresh _ := rfl
  unused _ := rfl
  sorted _ := .nil
  idle _ := rfl
  held h := absurd rfl h
  entry h := nomatch h
  distinct h := nomatch h
  chained _ := .nil
  head h := nomatch h
  waiting h := nomatch h
  passed h := nomatch h

/-- The entry a call finds, or makes, counts the calls before it and holds their last. -/
theorem entry_found (h : Queues s q) (key : κ) :
    (s.entries ((s.tails key).getD s.entryCount)).depth = (q key).length ∧
    (s.entries ((s.tails key).getD s.entryCount)).chain = (q key).getLast? := by
  cases htail : s.tails key with
  | some e => exact (h.entry htail).2
  | none =>
      have hq : q key = [] := by
        by_contra hq
        obtain ⟨e, he, -⟩ := h.held hq
        rw [htail] at he
        cases he
      rw [Option.getD_none, h.unused le_rfl, hq]
      exact ⟨rfl, rfl⟩

/-- It is the entry of no other key. -/
theorem entry_found_ne (h : Queues s q) {key k : κ} {e : ℕ} (hk : k ≠ key)
    (he : s.tails k = some e) : e ≠ (s.tails key).getD s.entryCount := by
  cases htail : s.tails key with
  | some e' =>
      rintro rfl
      exact hk (h.distinct he htail)
  | none => exact (h.entry he).1.ne

theorem not_mem_of_callCount (h : Queues s q) {k : κ} : s.callCount ∉ q k := by
  intro hmem
  obtain ⟨c, hc, -⟩ := h.call hmem
  exact absurd (h.lt_callCount hc) (lt_irrefl _)

variable [DecidableEq κ]

theorem entry_found_lt (h : Queues s q) (key : κ) (idempotent : Bool) :
    s.entryCount ≤ (s.arrive key idempotent).entryCount ∧
    (s.tails key).getD s.entryCount < (s.arrive key idempotent).entryCount := by
  simp only [Daemon.arrive]
  cases htail : s.tails key with
  | some e => exact ⟨le_rfl, (h.entry htail).1⟩
  | none => exact ⟨Nat.le_succ _, Nat.lt_succ_self _⟩

/-- A call that comes is the last of its queue. -/
theorem arrive (h : Queues s q) (key : κ) (idempotent : Bool) :
    Queues (s.arrive key idempotent) (Function.update q key (q key ++ [s.callCount])) := by
  obtain ⟨hdepth, hchain⟩ := h.entry_found key
  have hnew : (s.arrive key idempotent).calls s.callCount =
      some { key, idempotent, entry := (s.tails key).getD s.entryCount,
             prior := (s.entries ((s.tails key).getD s.entryCount)).chain } :=
    Function.update_self (β := fun _ => Option (WriteCall κ)) ..
  have hsame : ∀ {j}, j ≠ s.callCount → (s.arrive key idempotent).calls j = s.calls j :=
    fun hne => Function.update_of_ne hne ..
  have hold : ∀ {j c}, s.calls j = some c → (s.arrive key idempotent).calls j = some c :=
    fun hj => (hsame (h.lt_callCount hj).ne).trans hj
  have hmember : ∀ {k j}, j ∈ q k → (s.arrive key idempotent).calls j = s.calls j := by
    intro k j hj
    exact hsame fun heq => h.not_mem_of_callCount (heq ▸ hj)
  have hresolved : ∀ promise, (s.arrive key idempotent).resolved promise = s.resolved promise := by
    rintro (_ | p)
    · rfl
    · by_cases hp : p = s.callCount
      · subst hp
        show Option.any _ _ = Option.any _ _
        rw [hnew, h.fresh le_rfl]
        rfl
      · show Option.any _ _ = Option.any _ _
        rw [hsame hp]
  have hsplit : ∀ {k j}, j ∈ Function.update q key (q key ++ [s.callCount]) k →
      j ∈ q k ∨ (k = key ∧ j = s.callCount) := by
    intro k j hj
    by_cases hk : k = key
    · subst hk
      rw [Function.update_self] at hj
      exact (List.mem_append.1 hj).imp_right fun h => ⟨rfl, List.mem_singleton.1 h⟩
    · rw [Function.update_of_ne hk] at hj
      exact .inl hj
  have hlast : (s.arrive key idempotent).tails key = some ((s.tails key).getD s.entryCount) :=
    Function.update_self (β := fun _ => Option ℕ) ..
  have hentryLast : (s.arrive key idempotent).entries ((s.tails key).getD s.entryCount) =
      ⟨some s.callCount, (s.entries ((s.tails key).getD s.entryCount)).depth + 1⟩ :=
    Function.update_self (β := fun _ => LockEntry) ..
  have htails : ∀ {k e}, (s.arrive key idempotent).tails k = some e →
      (k = key ∧ e = (s.tails key).getD s.entryCount) ∨ (k ≠ key ∧ s.tails k = some e) := by
    intro k e he
    by_cases hk : k = key
    · subst hk
      exact .inl ⟨rfl, Option.some.inj (he.symm.trans hlast)⟩
    · exact .inr ⟨hk, (Function.update_of_ne hk ..).symm.trans he⟩
  constructor
  case mem =>
    intro j c hj
    by_cases hne : j = s.callCount
    · subst hne
      obtain rfl := Option.some.inj (hnew.symm.trans hj)
      rw [Function.update_self]
      simp
    · rw [hsame hne] at hj
      rw [← h.mem hj]
      refine ⟨fun hmem => (hsplit hmem).resolve_right fun hlast => hne hlast.2, fun hmem => ?_⟩
      by_cases hk : c.key = key
      · rw [hk, Function.update_self, ← hk]
        exact List.mem_append_left _ hmem
      · rwa [Function.update_of_ne hk]
  case call =>
    intro k j hj
    rcases hsplit hj with hj | ⟨rfl, rfl⟩
    · obtain ⟨c, hc, hk⟩ := h.call hj
      exact ⟨c, hold hc, hk⟩
    · exact ⟨_, hnew, rfl⟩
  case fresh =>
    intro j hj
    exact (hsame (Nat.lt_of_succ_le hj).ne').trans (h.fresh (Nat.le_of_succ_le hj))
  case unused =>
    intro e he
    obtain ⟨hle, hlt⟩ := h.entry_found_lt key idempotent
    exact (Function.update_of_ne (hlt.trans_le he).ne' ..).trans (h.unused (hle.trans he))
  case sorted =>
    intro k
    by_cases hk : k = key
    · subst hk
      rw [Function.update_self, List.pairwise_append]
      refine ⟨h.sorted k, List.pairwise_singleton .., fun j hj n hn => ?_⟩
      obtain rfl := List.mem_singleton.1 hn
      obtain ⟨c, hc, -⟩ := h.call hj
      exact h.lt_callCount hc
    · rw [Function.update_of_ne hk]
      exact h.sorted k
  case idle =>
    intro k hk
    by_cases hkey : k = key
    · rw [hkey, Function.update_self] at hk
      exact absurd hk (by simp)
    · rw [Function.update_of_ne hkey] at hk
      exact (Function.update_of_ne hkey ..).trans (h.idle hk)
  case held =>
    intro k hk
    by_cases hkey : k = key
    · subst hkey
      refine ⟨_, hlast, fun {j c} hj hc => ?_⟩
      rcases hsplit hj with hj | ⟨-, rfl⟩
      · rw [hmember hj] at hc
        obtain ⟨e, he, hall⟩ := h.held (List.ne_nil_of_mem hj)
        rw [he]
        exact hall hj hc
      · obtain rfl := Option.some.inj (hnew.symm.trans hc)
        rfl
    · rw [Function.update_of_ne hkey] at hk ⊢
      obtain ⟨e, he, hall⟩ := h.held hk
      exact ⟨e, (Function.update_of_ne hkey ..).trans he,
        fun hj hc => hall hj ((hmember hj).symm.trans hc)⟩
  case entry =>
    intro k e he
    obtain ⟨hle, hlt⟩ := h.entry_found_lt key idempotent
    rcases htails he with ⟨rfl, rfl⟩ | ⟨hk, he⟩
    · rw [Function.update_self, List.length_append, List.getLast?_concat, hentryLast, hdepth]
      exact ⟨hlt, rfl, rfl⟩
    · obtain ⟨hcount, hentry⟩ := h.entry he
      rw [Function.update_of_ne hk]
      refine ⟨hcount.trans_le hle, ?_⟩
      rw [show (s.arrive key idempotent).entries e = s.entries e from
        Function.update_of_ne (h.entry_found_ne hk he) ..]
      exact hentry
  case distinct =>
    intro k k' e he he'
    rcases htails he with ⟨rfl, rfl⟩ | ⟨hk, hk_tail⟩
    · rcases htails he' with ⟨rfl, -⟩ | ⟨hk', hk_tail'⟩
      · rfl
      · exact absurd rfl (h.entry_found_ne hk' hk_tail')
    · rcases htails he' with ⟨rfl, hfound⟩ | ⟨hk', hk_tail'⟩
      · exact absurd hfound (h.entry_found_ne hk hk_tail)
      · exact h.distinct hk_tail hk_tail'
  case chained =>
    intro k
    have hkeep : (q k).IsChain fun i j => ∀ call,
        (s.arrive key idempotent).calls j = some call → call.prior = some i := by
      refine (h.chained k).imp_of_mem_imp fun _ b _ hb hab c hc => hab c ?_
      rwa [hmember hb] at hc
    by_cases hk : k = key
    · subst hk
      rw [Function.update_self, List.isChain_append]
      refine ⟨hkeep, List.isChain_singleton _, fun last hlast n hn c hc => ?_⟩
      obtain rfl : s.callCount = n := Option.some.inj hn
      obtain rfl := Option.some.inj (hnew.symm.trans hc)
      exact hchain.trans hlast
    · rwa [Function.update_of_ne hk]
  case head =>
    intro k j c hhead hj
    rw [hresolved]
    by_cases hmem : j ∈ q k
    · rw [hmember hmem] at hj
      refine h.head (k := k) ?_ hj
      by_cases hk : k = key
      · subst hk
        rwa [Function.update_self, List.head?_append_of_ne_nil _ (List.ne_nil_of_mem hmem)] at hhead
      · rwa [Function.update_of_ne hk] at hhead
    · obtain ⟨rfl, rfl⟩ := (hsplit (List.mem_of_mem_head? hhead)).resolve_left hmem
      obtain rfl := Option.some.inj (hnew.symm.trans hj)
      rw [Function.update_self] at hhead
      cases hq : q k with
      | nil =>
          rw [hchain, hq]
          rfl
      | cons first rest =>
          rw [hq, List.cons_append, List.head?_cons, Option.some.injEq] at hhead
          rw [hq, hhead] at hmem
          exact absurd List.mem_cons_self hmem
  case waiting =>
    intro k j c hmem hj
    by_cases hne : j = s.callCount
    · subst hne
      obtain rfl := Option.some.inj (hnew.symm.trans hj)
      rfl
    · rw [hsame hne] at hj
      refine h.waiting (k := k) ?_ hj
      by_cases hk : k = key
      · subst hk
        rw [Function.update_self] at hmem
        cases hq : q k with
        | nil =>
            rw [hq] at hmem
            cases hmem
        | cons first rest =>
            rw [hq] at hmem
            exact (List.mem_append.1 hmem).resolve_right fun hlast =>
              hne (List.mem_singleton.1 hlast)
      · rwa [Function.update_of_ne hk] at hmem
  case passed =>
    intro j c hj hphase i hi
    by_cases hne : j = s.callCount
    · subst hne
      obtain rfl := Option.some.inj (hnew.symm.trans hj)
      cases hphase
    · rw [hsame hne] at hj
      rcases hsplit hi with hi | ⟨-, rfl⟩
      · exact h.passed hj hphase i hi
      · exact h.lt_callCount hj

/-- The first of a queue leaves it. -/
theorem releaseLock (h : Queues s q) {i : ℕ} {call : WriteCall κ} (hcall : s.calls i = some call)
    (hhead : (q call.key).head? = some i) :
    Queues (s.releaseLock i call) (Function.update q call.key (q call.key).tail) := by
  obtain ⟨rest, hq⟩ : ∃ rest, q call.key = i :: rest := by
    cases hq : q call.key with
    | nil =>
        rw [hq] at hhead
        cases hhead
    | cons first rest =>
        rw [hq] at hhead
        exact ⟨rest, congrArg (· :: rest) (Option.some.inj hhead)⟩
  rw [hq, List.tail_cons]
  have hmem : i ∈ q call.key := hq ▸ List.mem_cons_self
  obtain ⟨e, htail, hentries⟩ := h.held (List.ne_nil_of_mem hmem)
  obtain rfl := hentries hmem hcall
  obtain ⟨hcount, hdepth, hchain⟩ := h.entry htail
  rw [hq] at hdepth hchain
  have hsorted := h.sorted call.key
  rw [hq, List.pairwise_cons] at hsorted
  have hself : (s.releaseLock i call).calls i = some { call with phase := .released } :=
    Function.update_self (β := fun _ => Option (WriteCall κ)) ..
  have hsame : ∀ {j}, j ≠ i → (s.releaseLock i call).calls j = s.calls j :=
    fun hne => Function.update_of_ne hne ..
  have hkeeps : ∀ {j c}, (s.releaseLock i call).calls j = some c → ∃ c', s.calls j = some c' ∧
      c.key = c'.key ∧ c.entry = c'.entry ∧ c.prior = c'.prior := by
    intro j c hj
    by_cases hne : j = i
    · subst hne
      obtain rfl := Option.some.inj (hself.symm.trans hj)
      exact ⟨call, hcall, rfl, rfl, rfl⟩
    · exact ⟨c, (hsame hne).symm.trans hj, rfl, rfl, rfl⟩
  have hresolved : ∀ {promise}, s.resolved promise = true →
      (s.releaseLock i call).resolved promise = true := by
    rintro (_ | p) hp
    · rfl
    · by_cases hne : p = i
      · subst hne
        show Option.any _ _ = true
        rw [hself]
        rfl
      · show Option.any _ _ = true
        rw [hsame hne]
        exact hp
  have hsub : ∀ {k j}, j ∈ Function.update q call.key rest k → j ∈ q k ∧ j ≠ i := by
    intro k j hj
    by_cases hk : k = call.key
    · subst hk
      rw [Function.update_self] at hj
      rw [hq]
      exact ⟨List.mem_cons_of_mem _ hj, (hsorted.1 j hj).ne'⟩
    · rw [Function.update_of_ne hk] at hj
      refine ⟨hj, ?_⟩
      rintro rfl
      obtain ⟨c, hc, rfl⟩ := h.call hj
      rw [hcall, Option.some.injEq] at hc
      exact hk (congrArg WriteCall.key hc.symm)
  have hrelease : (s.releaseLock i call).tails =
      if (s.entries call.entry).depth - 1 = 0 ∧ s.tails call.key = some call.entry then
        Function.update s.tails call.key none
      else s.tails := rfl
  have hemptied : rest = [] → (s.releaseLock i call).tails call.key = none := by
    rintro rfl
    rw [hrelease, if_pos ⟨by rw [hdepth]; rfl, htail⟩, Function.update_self]
  have hkept : rest ≠ [] → (s.releaseLock i call).tails call.key = some call.entry := by
    intro hrest
    have hdepth' : (s.entries call.entry).depth - 1 ≠ 0 := by
      rw [hdepth, List.length_cons, Nat.add_sub_cancel]
      exact fun hlen => hrest (List.eq_nil_of_length_eq_zero hlen)
    rw [hrelease, if_neg fun hd => hdepth' hd.1, htail]
  have hother : ∀ {k}, k ≠ call.key → (s.releaseLock i call).tails k = s.tails k := by
    intro k hk
    rw [hrelease]
    split
    · exact Function.update_of_ne hk ..
    · rfl
  have htails : ∀ {k e}, (s.releaseLock i call).tails k = some e →
      s.tails k = some e ∧ (k = call.key → rest ≠ []) := by
    intro k e he
    by_cases hk : k = call.key
    · subst hk
      have hrest : rest ≠ [] := by
        intro hnil
        rw [hemptied hnil] at he
        cases he
      rw [hkept hrest] at he
      exact ⟨htail.trans he, fun _ => hrest⟩
    · rw [hother hk] at he
      exact ⟨he, fun heq => absurd heq hk⟩
  constructor
  case mem =>
    intro j c hj
    by_cases hne : j = i
    · subst hne
      obtain rfl := Option.some.inj (hself.symm.trans hj)
      exact ⟨fun hmem => absurd rfl (hsub hmem).2, fun hphase => absurd rfl hphase⟩
    · rw [hsame hne] at hj
      rw [← h.mem hj]
      refine ⟨fun hmem => (hsub hmem).1, fun hmem => ?_⟩
      by_cases hk : c.key = call.key
      · rw [hk, hq] at hmem
        rw [hk, Function.update_self]
        exact (List.mem_cons.1 hmem).resolve_left hne
      · rwa [Function.update_of_ne hk]
  case call =>
    intro k j hj
    obtain ⟨hj, hne⟩ := hsub hj
    obtain ⟨c, hc, hk⟩ := h.call hj
    exact ⟨c, (hsame hne).trans hc, hk⟩
  case fresh =>
    intro j hj
    have hne : j ≠ i := (h.lt_callCount hcall).trans_le hj |>.ne'
    exact (hsame hne).trans (h.fresh hj)
  case unused =>
    intro e he
    exact (Function.update_of_ne (hcount.trans_le he).ne' ..).trans (h.unused he)
  case sorted =>
    intro k
    by_cases hk : k = call.key
    · subst hk
      rw [Function.update_self]
      exact hsorted.2
    · rw [Function.update_of_ne hk]
      exact h.sorted k
  case idle =>
    intro k hk
    by_cases hkey : k = call.key
    · subst hkey
      rw [Function.update_self] at hk
      exact hemptied hk
    · rw [Function.update_of_ne hkey] at hk
      exact (hother hkey).trans (h.idle hk)
  case held =>
    intro k hk
    by_cases hkey : k = call.key
    · subst hkey
      rw [Function.update_self] at hk
      refine ⟨_, hkept hk, fun {j c} hj hc => ?_⟩
      obtain ⟨c', hc', -, hentry, -⟩ := hkeeps hc
      exact hentry.trans (hentries (hsub hj).1 hc')
    · rw [Function.update_of_ne hkey] at hk ⊢
      obtain ⟨e, he, hall⟩ := h.held hk
      refine ⟨e, (hother hkey).trans he, fun {j c} hj hc => ?_⟩
      obtain ⟨c', hc', -, hentry, -⟩ := hkeeps hc
      exact hentry.trans (hall hj hc')
  case entry =>
    intro k e he
    obtain ⟨he, hrest⟩ := htails he
    by_cases hk : k = call.key
    · subst hk
      rw [htail, Option.some.injEq] at he
      subst he
      rw [Function.update_self, show (s.releaseLock i call).entries call.entry =
        ⟨(s.entries call.entry).chain, (s.entries call.entry).depth - 1⟩ from
        Function.update_self (β := fun _ => LockEntry) .., hdepth, hchain]
      obtain ⟨second, rest', hrest'⟩ := List.exists_cons_of_ne_nil (hrest rfl)
      rw [hrest', List.getLast?_cons_cons]
      exact ⟨hcount, rfl, rfl⟩
    · have hne : e ≠ call.entry := fun heq => hk (h.distinct he (heq ▸ htail))
      rw [Function.update_of_ne hk, show (s.releaseLock i call).entries e = s.entries e from
        Function.update_of_ne hne ..]
      exact h.entry he
  case distinct =>
    intro k k' e he he'
    exact h.distinct (htails he).1 (htails he').1
  case chained =>
    intro k
    have hkeep : ∀ {l : List ℕ},
        (l.IsChain fun a b => ∀ c, s.calls b = some c → c.prior = some a) →
        l.IsChain fun a b => ∀ c, (s.releaseLock i call).calls b = some c → c.prior = some a := by
      intro l hl
      refine hl.imp fun a b hab c hb => ?_
      obtain ⟨c', hc', -, -, hprior⟩ := hkeeps hb
      exact hprior.trans (hab c' hc')
    refine hkeep ?_
    by_cases hk : k = call.key
    · subst hk
      have hold := h.chained call.key
      rw [hq] at hold
      rw [Function.update_self]
      exact hold.tail
    · rw [Function.update_of_ne hk]
      exact h.chained k
  case head =>
    intro k j c hhead hj
    by_cases hk : k = call.key
    · subst hk
      rw [Function.update_self] at hhead
      cases rest with
      | nil => cases hhead
      | cons second rest =>
          obtain rfl : second = j := Option.some.inj hhead
          obtain ⟨c', hc', -, -, hprior⟩ := hkeeps hj
          have hold := h.chained call.key
          rw [hq, List.isChain_cons_cons] at hold
          rw [hprior, hold.1 c' hc']
          show Option.any _ _ = true
          rw [hself]
          rfl
    · obtain ⟨c', hc', -, -, hprior⟩ := hkeeps hj
      rw [Function.update_of_ne hk] at hhead
      rw [hprior]
      exact hresolved (h.head hhead hc')
  case waiting =>
    intro k j c hmem hj
    rw [hsame (hsub (List.mem_of_mem_tail hmem)).2] at hj
    refine h.waiting (k := k) ?_ hj
    by_cases hk : k = call.key
    · subst hk
      rw [Function.update_self] at hmem
      rw [hq]
      exact List.mem_of_mem_tail hmem
    · rwa [Function.update_of_ne hk] at hmem
  case passed =>
    intro j c hj hphase i' hi'
    by_cases hne : j = i
    · subst hne
      obtain rfl := Option.some.inj (hself.symm.trans hj)
      have hrest : i' ∈ rest := by rwa [Function.update_self] at hi'
      exact hsorted.1 i' hrest
    · rw [hsame hne] at hj
      exact h.passed hj hphase i' (hsub hi').1

end Queues

end Daemon

end Atrib.Atribd
