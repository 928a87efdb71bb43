import Atrib.Lib.Grouping
import Atrib.Proofs.Encodings
import Atrib.Recall.Recall

/-!
# What is said of a record

The annotations and the revisions of the mirror are grouped by the record they
are about, so what the two maps have for a record is a matter of the annotations
and of the revisions of it alone. Of the annotations it has the greatest label,
the topics, and the newest summary, the later line winning a tie.
-/

namespace Atrib.Recall.Mirror

open Lib (InsertionMap InsertionSet.add JsValue groupStep membersOf sortBy)

/-! ## The records about a record -/

def annotationsOf (loaded : List LoadedRecord) (hash : RecordHash) : List LoadedRecord :=
  membersOf LoadedRecord.annotationTarget loaded hash

def revisionsOf (loaded : List LoadedRecord) (hash : RecordHash) : List LoadedRecord :=
  membersOf LoadedRecord.revised loaded hash

/-- What the loop over the annotations of a record ends with. -/
def binOf (annotations : List LoadedRecord) : AnnotationBin :=
  annotations.foldl (fun bin lr => bin.add lr.content lr.record.timestamp) {}

theorem get?_annotations (loaded : List LoadedRecord) (hash : RecordHash) :
    (aggregateAnnotationsByRecord loaded).get? hash =
      if annotationsOf loaded hash = [] then none
      else some (binOf (annotationsOf loaded hash)).result := by
  have hstep : addAnnotation = groupStep LoadedRecord.annotationTarget {}
      (fun bin lr => bin.add lr.content lr.record.timestamp) := by
    funext bins lr
    unfold addAnnotation groupStep
    cases lr.annotationTarget <;> rfl
  rw [aggregateAnnotationsByRecord, InsertionMap.get?_mapVal, hstep, Lib.get?_grouped]
  unfold annotationsOf binOf
  split <;> rfl

theorem get?_revisions (P : Platform) (loaded : List LoadedRecord) (hash : RecordHash) :
    (aggregateRevisionsByRecord P loaded).get? hash =
      if revisionsOf loaded hash = [] then none
      else some ((sortBy (compareRevision P) (revisionsOf loaded hash)).map (·.recordHash)) := by
  have hstep : addRevision = groupStep LoadedRecord.revised []
      (fun revisions lr => revisions ++ [lr]) := by
    funext bins lr
    rw [addRevision, groupStep]
    cases lr.revised <;> rfl
  rw [aggregateRevisionsByRecord, InsertionMap.get?_mapVal, hstep, Lib.get?_grouped]
  unfold revisionsOf
  split
  · rfl
  · rw [Option.map_some, List.foldl_append_eq_append, List.nil_append, ← List.flatMap_def,
      List.flatMap_singleton']

theorem length_revisions (P : Platform) (loaded : List LoadedRecord) (hash : RecordHash) :
    (((aggregateRevisionsByRecord P loaded).get? hash).map List.length).getD 0 =
      (revisionsOf loaded hash).length := by
  rw [get?_revisions]
  split
  · next hnil => rw [hnil]; rfl
  · rw [Option.map_some, Option.getD_some, List.length_map, Lib.length_sortBy]

/-- There is no list without revisions. -/
theorem filter_revisions (P : Platform) (loaded : List LoadedRecord) (hash : RecordHash) :
    ((aggregateRevisionsByRecord P loaded).get? hash).filter (· ≠ []) =
      (aggregateRevisionsByRecord P loaded).get? hash := by
  have hlength := length_revisions P loaded hash
  cases hget : (aggregateRevisionsByRecord P loaded).get? hash with
  | none => rfl
  | some revisions =>
      rw [get?_revisions] at hget
      split at hget
      · cases hget
      · next hne =>
          refine Option.filter_eq_some_iff.2 ⟨rfl, decide_eq_true fun hnil => hne ?_⟩
          rw [get?_revisions, if_neg hne] at hlength
          rw [← Option.some.inj hget, List.map_eq_nil_iff] at hnil
          rw [hnil] at hlength
          exact List.length_eq_zero_iff.1 hlength.symm

theorem has_eq_isSome_get? {ν : Type} (m : InsertionMap RecordHash ν) (hash : RecordHash) :
    m.has hash = (m.get? hash).isSome := by
  rw [Bool.eq_iff_iff, InsertionMap.has_eq_true, InsertionMap.mem_keys_iff_get?]

/-! ## The labels -/

/-- The importance, if it has a grade. -/
def LoadedRecord.label (lr : LoadedRecord) : Option String :=
  (lr.content.member "importance").string?.filter fun label => (IMPORTANCE_NUMERIC.lookup label).isSome

theorem maxImportance_eq_none {labels : List String} : maxImportance labels = none ↔ labels = [] := by
  cases labels <;> simp [maxImportance]

theorem binOf_append (l : List LoadedRecord) (lr : LoadedRecord) :
    binOf (l ++ [lr]) = (binOf l).add lr.content lr.record.timestamp := by
  rw [binOf, List.foldl_append]
  rfl

theorem importances_binOf (l : List LoadedRecord) :
    (binOf l).importances = l.filterMap LoadedRecord.label := by
  induction l using List.reverseRecOn with
  | nil => rfl
  | append_singleton l lr ih =>
      rw [binOf_append, List.filterMap_append]
      show (binOf l).importances ++ lr.label.toList = _
      rw [ih]
      cases hlabel : lr.label <;> simp [hlabel]

/-! ## The topics -/

def LoadedRecord.topics (lr : LoadedRecord) : List String :=
  contentStrings lr.content "topics" ++ contentStrings lr.content "topic_tags"

theorem mem_topics_binOf {l : List LoadedRecord} {topic : String} :
    topic ∈ (binOf l).topics ↔ ∃ lr ∈ l, topic ∈ lr.topics := by
  induction l using List.reverseRecOn with
  | nil => simp [binOf]
  | append_singleton l lr ih =>
      rw [binOf_append]
      show topic ∈ lr.topics.foldl InsertionSet.add (binOf l).topics ↔ _
      rw [Lib.InsertionSet.mem_foldl_add, ih]
      simp only [List.mem_append, List.mem_singleton]
      constructor
      · rintro (⟨lr', hlr', htopic⟩ | htopic)
        · exact ⟨lr', Or.inl hlr', htopic⟩
        · exact ⟨lr, Or.inr rfl, htopic⟩
      · rintro ⟨lr', hlr' | rfl, htopic⟩
        · exact Or.inl ⟨lr', hlr', htopic⟩
        · exact Or.inr htopic

theorem nodup_topics_binOf (l : List LoadedRecord) : (binOf l).topics.Nodup := by
  induction l using List.reverseRecOn with
  | nil => exact List.nodup_nil
  | append_singleton l lr ih =>
      rw [binOf_append]
      exact Lib.InsertionSet.nodup_foldl_add ih

/-- Texts in the order of their code units. -/
theorem sortBy_codeUnits_eq_iff {l l' : List String} (hl : l.Nodup) (hl' : l'.Nodup) :
    sortBy (fun a b => compare (JsValue.codeUnits a) (JsValue.codeUnits b)) l =
        sortBy (fun a b => compare (JsValue.codeUnits a) (JsValue.codeUnits b)) l' ↔
      ∀ text, text ∈ l ↔ text ∈ l' := by
  have htrans := Lib.transCmp_on (compare : List ℕ → List ℕ → Ordering) JsValue.codeUnits
  constructor
  · intro h text
    rw [← Lib.mem_sortBy, h, Lib.mem_sortBy]
  · intro h
    refine Lib.sortBy_eq_of_perm ((List.perm_ext_iff_of_nodup hl hl').2 h) fun a _ b _ hab => ?_
    exact codeUnits_inj (Std.LawfulEqCmp.eq_of_compare hab)

theorem result_topics_eq_iff {l l' : List LoadedRecord} :
    (binOf l).result.topics = (binOf l').result.topics ↔
      ∀ topic, topic ∈ (binOf l).topics ↔ topic ∈ (binOf l').topics := by
  have hsort := sortBy_codeUnits_eq_iff (nodup_topics_binOf l) (nodup_topics_binOf l')
  simp only [AnnotationBin.result]
  split
  · next hnil =>
      split
      · next hnil' => simp [hnil, hnil']
      · next hne' =>
          obtain ⟨topic, htopic⟩ := List.exists_mem_of_ne_nil _ hne'
          refine iff_of_false (by simp) fun h => ?_
          have hmem := (h topic).2 htopic
          rw [hnil] at hmem
          cases hmem
  · next hne =>
      split
      · next hnil' =>
          obtain ⟨topic, htopic⟩ := List.exists_mem_of_ne_nil _ hne
          refine iff_of_false (by simp) fun h => ?_
          have hmem := (h topic).1 htopic
          rw [hnil'] at hmem
          cases hmem
      · rw [Option.some.injEq, hsort]

/-! ## The summary -/

def LoadedRecord.summary (lr : LoadedRecord) : Option String :=
  (lr.content.member "summary").string?

/-- No later line has a summary that is as new, and no earlier line a newer one. -/
def HasNewest (l : List LoadedRecord) (lr : LoadedRecord) : Prop :=
  ∃ before after, l = before ++ lr :: after ∧ lr.summary.isSome ∧
    (∀ lr' ∈ before, lr'.summary.isSome → lr'.record.timestamp ≤ lr.record.timestamp) ∧
    ∀ lr' ∈ after, lr'.summary.isSome → lr'.record.timestamp < lr.record.timestamp

/-- There is one such line. -/
theorem HasNewest.unique {l : List LoadedRecord} {a b : LoadedRecord} (ha : HasNewest l a)
    (hb : HasNewest l b) : a = b := by
  obtain ⟨beforeA, afterA, rfl, hsomeA, hbeforeA, hafterA⟩ := ha
  obtain ⟨beforeB, afterB, heq, hsomeB, hbeforeB, hafterB⟩ := hb
  rcases List.append_eq_append_iff.1 heq with ⟨middle, hbefore, hrest⟩ | ⟨middle, hbefore, hrest⟩
  · cases middle with
    | nil => exact (List.cons.inj hrest).1
    | cons _ middle =>
        obtain ⟨rfl, rfl⟩ := List.cons.inj hrest
        have hle := hbeforeB a (by rw [hbefore]; simp) hsomeA
        exact absurd (hafterA b (by simp) hsomeB) (not_lt.2 hle)
  · cases middle with
    | nil => exact (List.cons.inj hrest).1.symm
    | cons _ middle =>
        obtain ⟨rfl, rfl⟩ := List.cons.inj hrest
        have hle := hbeforeA b (by rw [hbefore]; simp) hsomeB
        exact absurd (hafterB a (by simp) hsomeA) (not_lt.2 hle)

theorem HasNewest.mem {l : List LoadedRecord} {lr : LoadedRecord} (h : HasNewest l lr) :
    lr ∈ l ∧ lr.summary.isSome ∧
      ∀ lr' ∈ l, lr'.summary.isSome → lr'.record.timestamp ≤ lr.record.timestamp := by
  obtain ⟨before, after, rfl, hsome, hbefore, hafter⟩ := h
  refine ⟨List.mem_append_right _ List.mem_cons_self, hsome, fun lr' hlr' hsummary => ?_⟩
  rcases List.mem_append.1 hlr' with hlr' | hlr'
  · exact hbefore lr' hlr' hsummary
  · rcases List.mem_cons.1 hlr' with rfl | hlr'
    · exact le_rfl
    · exact le_of_lt (hafter lr' hlr' hsummary)

/-- A line that has no summary, or an older one, changes nothing. -/
theorem HasNewest.concat {l : List LoadedRecord} {newest lr : LoadedRecord} (h : HasNewest l newest)
    (holder : lr.summary.isSome → lr.record.timestamp < newest.record.timestamp) :
    HasNewest (l ++ [lr]) newest := by
  obtain ⟨before, after, rfl, hsome, hbefore, hafter⟩ := h
  refine ⟨before, after ++ [lr], by simp, hsome, hbefore, fun lr' hlr' hsummary => ?_⟩
  rcases List.mem_append.1 hlr' with hlr' | hlr'
  · exact hafter lr' hlr' hsummary
  · rw [List.mem_singleton.1 hlr'] at hsummary ⊢
    exact holder hsummary

/-- Where there is a summary, the loop keeps the newest. -/
theorem summary_binOf (l : List LoadedRecord) :
    (∀ lr ∈ l, lr.summary = none) ∧ (binOf l).summary = none ∧ (binOf l).summaryTs = none ∨
      ∃ lr, HasNewest l lr ∧ (binOf l).summary = lr.summary ∧
        (binOf l).summaryTs = some lr.record.timestamp := by
  induction l using List.reverseRecOn with
  | nil => exact Or.inl ⟨fun _ h => absurd h List.not_mem_nil, rfl, rfl⟩
  | append_singleton l lr ih =>
      rw [binOf_append]
      cases hsummary : lr.summary with
      | none =>
          have hstay : ((binOf l).add lr.content lr.record.timestamp).summary = (binOf l).summary ∧
              ((binOf l).add lr.content lr.record.timestamp).summaryTs = (binOf l).summaryTs := by
            rw [LoadedRecord.summary] at hsummary
            simp only [AnnotationBin.add, hsummary, and_self]
          rw [hstay.1, hstay.2]
          rcases ih with ⟨hnone, hsum, hts⟩ | ⟨newest, hnewest, hbin⟩
          · refine Or.inl ⟨fun lr' hlr' => ?_, hsum, hts⟩
            rcases List.mem_append.1 hlr' with hlr' | hlr'
            · exact hnone lr' hlr'
            · rwa [List.mem_singleton.1 hlr']
          · refine Or.inr ⟨newest, hnewest.concat fun hsome => ?_, hbin⟩
            rw [hsummary] at hsome
            cases hsome
      | some text =>
          have hmember := hsummary
          rw [LoadedRecord.summary] at hmember
          by_cases hnewer : (binOf l).summaryTs.all (· ≤ lr.record.timestamp) = true
          · have hadd : ((binOf l).add lr.content lr.record.timestamp).summary = some text ∧
                ((binOf l).add lr.content lr.record.timestamp).summaryTs =
                  some lr.record.timestamp := by
              simp only [AnnotationBin.add, hmember, hnewer, if_true, and_self]
            refine Or.inr ⟨lr, ⟨l, [], rfl, by rw [hsummary]; rfl, ?_, by simp⟩,
              hadd.1.trans hsummary.symm, hadd.2⟩
            intro lr' hlr' hsome
            rcases ih with ⟨hnone, -⟩ | ⟨newest, hnewest, -, hts⟩
            · rw [hnone lr' hlr'] at hsome
              cases hsome
            · rw [hts, Option.all_some, decide_eq_true_iff] at hnewer
              exact le_trans (hnewest.mem.2.2 lr' hlr' hsome) hnewer
          · have hadd : ((binOf l).add lr.content lr.record.timestamp).summary = (binOf l).summary ∧
                ((binOf l).add lr.content lr.record.timestamp).summaryTs = (binOf l).summaryTs := by
              simp only [AnnotationBin.add, hmember, if_neg hnewer, and_self]
            rw [hadd.1, hadd.2]
            rcases ih with ⟨-, -, hts⟩ | ⟨newest, hnewest, hsum, hts⟩
            · rw [hts] at hnewer
              exact absurd rfl hnewer
            · rw [hts, Option.all_some, decide_eq_true_iff, not_le] at hnewer
              exact Or.inr ⟨newest, hnewest.concat fun _ => hnewer, hsum, hts⟩

end Atrib.Recall.Mirror
