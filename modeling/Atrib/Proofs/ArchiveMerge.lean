import Atrib.ArchiveNode.Store

/-!
# What a merge keeps

An entry covers another if it has all its log proofs, evidence items and
resolved facts. A merge covers both entries it is made of, as long as
`JSON.stringify` tells their items apart and no fact has two values. An entry
is read back from the object it is.
-/

namespace Atrib.ArchiveNode

open Lib InsertionMap

/-! ## Covering -/

/-- The entry has what the other has. -/
structure Covers (entry other : StoredArchiveEntry) : Prop where
  logProofs : ∀ item ∈ other.logProofs, item ∈ entry.logProofs
  authorizationEvidence : ∀ item ∈ other.authorizationEvidence, item ∈ entry.authorizationEvidence
  evidence : ∀ item ∈ other.evidence, item ∈ entry.evidence
  resolvedFacts : ∀ fact ∈ other.facts.entries, fact ∈ entry.facts.entries

instance (entry other : StoredArchiveEntry) : Decidable (Covers entry other) :=
  decidable_of_iff ((∀ item ∈ other.logProofs, item ∈ entry.logProofs) ∧
    (∀ item ∈ other.authorizationEvidence, item ∈ entry.authorizationEvidence) ∧
    (∀ item ∈ other.evidence, item ∈ entry.evidence) ∧
    ∀ fact ∈ other.facts.entries, fact ∈ entry.facts.entries)
    ⟨fun ⟨a, b, c, d⟩ => ⟨a, b, c, d⟩, fun ⟨a, b, c, d⟩ => ⟨a, b, c, d⟩⟩

theorem Covers.refl (entry : StoredArchiveEntry) : Covers entry entry :=
  ⟨fun _ h => h, fun _ h => h, fun _ h => h, fun _ h => h⟩

theorem Covers.trans {a b c : StoredArchiveEntry} (hab : Covers a b) (hbc : Covers b c) :
    Covers a c where
  logProofs item h := hab.logProofs item (hbc.logProofs item h)
  authorizationEvidence item h :=
    hab.authorizationEvidence item (hbc.authorizationEvidence item h)
  evidence item h := hab.evidence item (hbc.evidence item h)
  resolvedFacts fact h := hab.resolvedFacts fact (hbc.resolvedFacts fact h)

/-! ## Items -/

variable {P : Platform}

/-- The items have texts of their own. -/
def TellsApart (P : Platform) (items : List JsValue) : Prop :=
  ∀ a ∈ items, ∀ b ∈ items, P.stringify a = P.stringify b → a = b

instance (items : List JsValue) : Decidable (TellsApart P items) :=
  inferInstanceAs (Decidable (∀ a ∈ items, ∀ b ∈ items, P.stringify a = P.stringify b → a = b))

theorem mem_of_mem_unseenObjects {items : List JsValue} {item : JsValue} :
    ∀ {seen : List Bytes}, item ∈ unseenObjects P seen items → item ∈ items := by
  induction items with
  | nil => exact fun h => h
  | cons first items ih =>
      intro seen h
      rw [unseenObjects] at h
      split at h
      · exact List.mem_cons_of_mem _ (ih h)
      · rcases List.mem_cons.1 h with rfl | h
        · exact List.mem_cons_self
        · exact List.mem_cons_of_mem _ (ih h)

/-- The first item with a text is kept. -/
theorem exists_mem_unseenObjects {items : List JsValue} {item : JsValue} (hitem : item ∈ items) :
    ∀ {seen : List Bytes}, P.stringify item ∉ seen →
      ∃ kept ∈ unseenObjects P seen items, P.stringify kept = P.stringify item := by
  induction items with
  | nil => cases hitem
  | cons first items ih =>
      intro seen hseen
      by_cases htext : P.stringify item = P.stringify first
      · refine ⟨first, ?_, htext.symm⟩
        rw [unseenObjects, if_neg (htext ▸ hseen)]
        exact List.mem_cons_self
      · have hmem : item ∈ items :=
          (List.mem_cons.1 hitem).resolve_left fun h => htext (congrArg _ h)
        rw [unseenObjects]
        split
        · exact ih hmem hseen
        · have hunseen : P.stringify item ∉ P.stringify first :: seen := by
            rw [List.mem_cons, not_or]
            exact ⟨htext, hseen⟩
          obtain ⟨kept, hkept, heq⟩ := ih hmem hunseen
          exact ⟨kept, List.mem_cons_of_mem _ hkept, heq⟩

/-- Items that have texts of their own are all kept. -/
theorem mem_dedupeObjects {items : List JsValue} (happart : TellsApart P items) {item : JsValue} :
    item ∈ dedupeObjects P items ↔ item ∈ items := by
  refine ⟨mem_of_mem_unseenObjects, fun h => ?_⟩
  have hunseen : P.stringify item ∉ ([] : List Bytes) := List.not_mem_nil
  obtain ⟨kept, hkept, heq⟩ := exists_mem_unseenObjects h hunseen
  have : kept = item := happart kept (mem_of_mem_unseenObjects hkept) item h heq
  exact this ▸ hkept

/-! ## Merging -/

/-- No fact has another value in the second entry. -/
def FactsAgree (existing next : StoredArchiveEntry) : Prop :=
  ∀ fact ∈ existing.facts.entries, ∀ fact' ∈ next.facts.entries, fact'.1 = fact.1 → fact'.2 = fact.2

instance (existing next : StoredArchiveEntry) : Decidable (FactsAgree existing next) :=
  inferInstanceAs (Decidable (∀ fact ∈ existing.facts.entries, ∀ fact' ∈ next.facts.entries,
    fact'.1 = fact.1 → fact'.2 = fact.2))

variable (P) in
/-- The merge of two entries loses nothing. -/
structure Mergeable (existing next : StoredArchiveEntry) : Prop where
  logProofs : TellsApart P (existing.logProofs ++ next.logProofs)
  authorizationEvidence : TellsApart P (existing.authorizationEvidence ++ next.authorizationEvidence)
  evidence : TellsApart P (existing.evidence ++ next.evidence)
  facts : FactsAgree existing next

instance (existing next : StoredArchiveEntry) : Decidable (Mergeable P existing next) :=
  decidable_of_iff (TellsApart P (existing.logProofs ++ next.logProofs) ∧
    TellsApart P (existing.authorizationEvidence ++ next.authorizationEvidence) ∧
    TellsApart P (existing.evidence ++ next.evidence) ∧ FactsAgree existing next)
    ⟨fun ⟨a, b, c, d⟩ => ⟨a, b, c, d⟩, fun ⟨a, b, c, d⟩ => ⟨a, b, c, d⟩⟩

theorem facts_mergeEntries (existing next : StoredArchiveEntry) :
    (mergeEntries P existing next).facts = existing.facts.setAll next.facts.entries := by
  rw [StoredArchiveEntry.facts, mergeEntries]
  cases hexisting : existing.resolvedFacts with
  | some facts => rfl
  | none =>
      cases hnext : next.resolvedFacts with
      | some facts => rfl
      | none => simp [StoredArchiveEntry.facts, hexisting, hnext, setAll]

theorem mergeEntries_covers {existing next : StoredArchiveEntry} (h : Mergeable P existing next) :
    Covers (mergeEntries P existing next) existing where
  logProofs item hitem := (mem_dedupeObjects h.logProofs).2 (List.mem_append_left _ hitem)
  authorizationEvidence item hitem :=
    (mem_dedupeObjects h.authorizationEvidence).2 (List.mem_append_left _ hitem)
  evidence item hitem := (mem_dedupeObjects h.evidence).2 (List.mem_append_left _ hitem)
  resolvedFacts fact hfact := by
    rw [facts_mergeEntries]
    exact mem_entries_setAll_of_agree hfact (h.facts fact hfact)

theorem mergeEntries_covers_next {existing next : StoredArchiveEntry}
    (h : Mergeable P existing next) : Covers (mergeEntries P existing next) next where
  logProofs item hitem := (mem_dedupeObjects h.logProofs).2 (List.mem_append_right _ hitem)
  authorizationEvidence item hitem :=
    (mem_dedupeObjects h.authorizationEvidence).2 (List.mem_append_right _ hitem)
  evidence item hitem := (mem_dedupeObjects h.evidence).2 (List.mem_append_right _ hitem)
  resolvedFacts fact hfact := by
    rw [facts_mergeEntries]
    exact mem_entries_setAll_of_nodup next.facts.nodup hfact

/-! ## Reading an entry back -/

theorem atribRecordLike?_val (record : AtribRecordLike) :
    atribRecordLike? record.val = some record := dif_pos record.property

theorem isStoredEntry_toJson (entry : StoredArchiveEntry) :
    isStoredEntry entry.toJson = some entry := by
  have hfacts : members? (entry.toJson.member "resolvedFacts") = entry.resolvedFacts := by
    rw [StoredArchiveEntry.toJson]
    cases entry.resolvedFacts with
    | none => rfl
    | some facts => exact congrArg some (setAll_entries facts)
  rw [isStoredEntry, hfacts]
  show (do
    let record ← atribRecordLike? entry.record.val
    some { entry with record } : Option StoredArchiveEntry) = some entry
  rw [atribRecordLike?_val]
  rfl

theorem toJson_injective {a b : StoredArchiveEntry} (h : a.toJson = b.toJson) : a = b :=
  Option.some.inj (by rw [← isStoredEntry_toJson a, h, isStoredEntry_toJson])

end Atrib.ArchiveNode
