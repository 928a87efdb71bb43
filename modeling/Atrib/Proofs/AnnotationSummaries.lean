import Atrib.Proofs.UnverifiedInfluence

/-!
# What is said of a record, exactly

`importance in IMPORTANCE_NUMERIC` is true of what every object inherits, and
the grade of such a name is not a number. Where an annotation of a record has
one for its importance, some order of the annotations ends with it; where none
has, the maximum is one of the five labels and does not depend on the order.
-/

namespace Atrib.Recall.Mirror

open Lib (InsertionMap JsValue membersOf sortBy)

/-! ## Grades -/

/-- The five labels. -/
def importanceLabels : List String := ["critical", "high", "medium", "low", "noise"]

def LoadedRecord.importance (lr : LoadedRecord) : Option String :=
  (lr.content.member "importance").string?

/-- The grade of a label. -/
def grade (label : String) : ℕ :=
  match IMPORTANCE_NUMERIC.lookup label with
  | some (.number n) => n
  | _ => 0

/-- A member that is inherited by every object. -/
def isInherited (label : String) : Bool :=
  match IMPORTANCE_NUMERIC.lookup label with
  | some (.inherited _) => true
  | _ => false

/-- The importance is the name of an inherited member. -/
def LoadedRecord.Misgraded (lr : LoadedRecord) : Prop := lr.importance.any isInherited = true

instance (lr : LoadedRecord) : Decidable lr.Misgraded :=
  inferInstanceAs (Decidable (lr.importance.any isInherited = true))

theorem mem_importanceLabels_iff {label : String} :
    label ∈ importanceLabels ↔ ∃ n, IMPORTANCE_NUMERIC.lookup label = some (.number n) := by
  constructor
  · intro h
    simp only [importanceLabels, List.mem_cons, List.not_mem_nil, or_false] at h
    rcases h with rfl | rfl | rfl | rfl | rfl
    · exact ⟨5, rfl⟩
    · exact ⟨4, rfl⟩
    · exact ⟨3, rfl⟩
    · exact ⟨2, rfl⟩
    · exact ⟨1, rfl⟩
  · rintro ⟨n, h⟩
    obtain ⟨before, after, hsplit, -⟩ := List.lookup_eq_some_iff.1 h
    have hmem : (label, Grade.number n) ∈ IMPORTANCE_NUMERIC := by
      rw [hsplit]
      exact List.mem_append_right _ List.mem_cons_self
    simp [IMPORTANCE_NUMERIC] at hmem
    rcases hmem with ⟨rfl, -⟩ | ⟨rfl, -⟩ | ⟨rfl, -⟩ | ⟨rfl, -⟩ | ⟨rfl, -⟩ <;> decide

theorem label_eq_some {lr : LoadedRecord} {label : String} :
    lr.label = some label ↔
      lr.importance = some label ∧ (label ∈ importanceLabels ∨ isInherited label = true) := by
  rw [LoadedRecord.label, Option.filter_eq_some_iff, mem_importanceLabels_iff]
  refine and_congr_right fun _ => ?_
  unfold isInherited
  cases IMPORTANCE_NUMERIC.lookup label with
  | none => simp
  | some found => cases found <;> simp

theorem importanceGe_labels {a b : String} (ha : a ∈ importanceLabels)
    (hb : b ∈ importanceLabels) : importanceGe a b = decide (grade b ≤ grade a) := by
  obtain ⟨m, hm⟩ := mem_importanceLabels_iff.1 ha
  obtain ⟨n, hn⟩ := mem_importanceLabels_iff.1 hb
  simp only [importanceGe, grade, hm, hn]

/-- Only another one is as great as an inherited member. -/
theorem isInherited_of_importanceGe {a b : String} (hb : isInherited b = true)
    (h : importanceGe a b = true) : isInherited a = true := by
  unfold isInherited at hb ⊢
  unfold importanceGe at h
  split at hb
  · next hlookup =>
      rw [hlookup] at h
      split at h
      · next hm hn => cases hn
      · next hs ht => rw [hs]
      · cases h
  · cases hb

/-! ## The maximum -/

theorem foldl_importance_mem (labels : List String) (first : String) :
    labels.foldl (fun a b => if importanceGe a b then a else b) first ∈ first :: labels := by
  induction labels generalizing first with
  | nil => exact List.mem_cons_self
  | cons next labels ih =>
      rw [List.foldl_cons]
      rcases List.mem_cons.1 (ih (if importanceGe first next then first else next)) with htop | htop
      · rw [htop]
        split
        · exact List.mem_cons_self
        · exact List.mem_cons_of_mem _ List.mem_cons_self
      · exact List.mem_cons_of_mem _ (List.mem_cons_of_mem _ htop)

theorem grade_le_foldl_importance {labels : List String} {first : String}
    (h : ∀ label ∈ first :: labels, label ∈ importanceLabels) :
    ∀ label ∈ first :: labels,
      grade label ≤ grade (labels.foldl (fun a b => if importanceGe a b then a else b) first) := by
  induction labels generalizing first with
  | nil =>
      intro label hlabel
      rw [List.mem_singleton.1 hlabel]
      exact Nat.le_refl _
  | cons next labels ih =>
      obtain ⟨hfirst, hrest⟩ := List.forall_mem_cons.1 h
      obtain ⟨hnext, hlabels⟩ := List.forall_mem_cons.1 hrest
      rw [List.foldl_cons]
      generalize hm : (if importanceGe first next then first else next) = m
      rw [importanceGe_labels hfirst hnext] at hm
      -- the greater one of the first two goes on
      have hgreater : m ∈ importanceLabels ∧ grade first ≤ grade m ∧ grade next ≤ grade m := by
        simp only [decide_eq_true_eq] at hm
        split at hm
        · next hle => exact ⟨hm ▸ hfirst, hm ▸ Nat.le_refl _, hm ▸ hle⟩
        · next hlt => exact ⟨hm ▸ hnext, hm ▸ (by omega), hm ▸ Nat.le_refl _⟩
      obtain ⟨htop, hall⟩ := List.forall_mem_cons.1
        (ih (List.forall_mem_cons.2 ⟨hgreater.1, hlabels⟩))
      refine List.forall_mem_cons.2 ⟨hgreater.2.1.trans htop, List.forall_mem_cons.2 ⟨?_, hall⟩⟩
      exact hgreater.2.2.trans htop

theorem maxImportance_mem {labels : List String} {top : String}
    (h : maxImportance labels = some top) : top ∈ labels := by
  cases labels with
  | nil => cases h
  | cons first labels =>
      obtain rfl := Option.some.inj h
      exact foldl_importance_mem labels first

theorem grade_le_maxImportance {labels : List String}
    (hlabels : ∀ label ∈ labels, label ∈ importanceLabels) {label : String}
    (hlabel : label ∈ labels) :
    ∃ top, maxImportance labels = some top ∧ grade label ≤ grade top := by
  cases labels with
  | nil => cases hlabel
  | cons first labels => exact ⟨_, rfl, grade_le_foldl_importance hlabels label hlabel⟩

theorem grade_inj : ∀ a ∈ importanceLabels, ∀ b ∈ importanceLabels, grade a = grade b → a = b := by
  decide

/-- The order of the labels does not matter. -/
theorem maxImportance_perm {labels labels' : List String} (hperm : labels'.Perm labels)
    (hlabels : ∀ label ∈ labels, label ∈ importanceLabels) :
    maxImportance labels' = maxImportance labels := by
  have hlabels' : ∀ label ∈ labels', label ∈ importanceLabels :=
    fun label hlabel => hlabels label (hperm.subset hlabel)
  cases hmax : maxImportance labels with
  | none =>
      rw [maxImportance_eq_none] at hmax ⊢
      exact (hmax ▸ hperm).eq_nil
  | some top =>
      have htop := maxImportance_mem hmax
      obtain ⟨top', hmax', hle⟩ := grade_le_maxImportance hlabels' (hperm.symm.subset htop)
      have htop' := hperm.subset (maxImportance_mem hmax')
      obtain ⟨top'', hmax'', hle'⟩ := grade_le_maxImportance hlabels htop'
      obtain rfl := Option.some.inj (hmax.symm.trans hmax'')
      rw [hmax', grade_inj _ (hlabels _ htop') _ (hlabels _ htop) (Nat.le_antisymm hle' hle)]

/-- What is inherited wins where it comes last. -/
theorem maxImportance_concat_inherited (labels : List String) {last : String}
    (hlast : isInherited last = true) :
    ∃ top, maxImportance (labels ++ [last]) = some top ∧ isInherited top = true := by
  cases labels with
  | nil => exact ⟨last, rfl, hlast⟩
  | cons first labels =>
      refine ⟨_, rfl, ?_⟩
      have happend : (labels ++ [last]).foldl (fun a b => if importanceGe a b then a else b) first =
          if importanceGe (labels.foldl (fun a b => if importanceGe a b then a else b) first) last then
            labels.foldl (fun a b => if importanceGe a b then a else b) first
          else last := by
        rw [List.foldl_append]
        rfl
      show isInherited ((labels ++ [last]).foldl _ first) = true
      rw [happend]
      split
      · next hge => exact isInherited_of_importanceGe hlast hge
      · exact hlast

/-! ## What is said -/

def summaryOf (loaded : List LoadedRecord) (hash : RecordHash) : AnnotationSummary :=
  ((aggregateAnnotationsByRecord loaded).get? hash).getD {}

def revisionHashesOf (P : Platform) (loaded : List LoadedRecord) (hash : RecordHash) :
    List RecordHash := ((aggregateRevisionsByRecord P loaded).get? hash).getD []

theorem summaryOf_eq (loaded : List LoadedRecord) (hash : RecordHash) :
    summaryOf loaded hash = (binOf (annotationsOf loaded hash)).result := by
  rw [summaryOf, get?_annotations]
  split
  · next hnil =>
      rw [hnil]
      rfl
  · rfl

theorem maxImportance_summaryOf (loaded : List LoadedRecord) (hash : RecordHash) :
    (summaryOf loaded hash).maxImportance =
      maxImportance ((annotationsOf loaded hash).filterMap LoadedRecord.label) := by
  rw [summaryOf_eq, ← importances_binOf]
  rfl

theorem topics_summaryOf (loaded : List LoadedRecord) (hash : RecordHash) :
    (summaryOf loaded hash).topics.getD [] =
      sortBy (fun a b => compare (JsValue.codeUnits a) (JsValue.codeUnits b))
        (binOf (annotationsOf loaded hash)).topics := by
  rw [summaryOf_eq]
  simp only [AnnotationBin.result]
  split
  · next hnil =>
      rw [hnil]
      simp [sortBy]
  · rfl

theorem revisionHashesOf_eq (P : Platform) (loaded : List LoadedRecord) (hash : RecordHash) :
    revisionHashesOf P loaded hash =
      (sortBy (compareRevision P) (revisionsOf loaded hash)).map (·.recordHash) := by
  rw [revisionHashesOf, get?_revisions]
  split
  · next hnil =>
      rw [hnil]
      simp [sortBy]
  · rfl

theorem annotationsOf_perm {loaded loaded' : List LoadedRecord} (h : loaded'.Perm loaded)
    (hash : RecordHash) : (annotationsOf loaded' hash).Perm (annotationsOf loaded hash) :=
  h.filter _

theorem revisionsOf_perm {loaded loaded' : List LoadedRecord} (h : loaded'.Perm loaded)
    (hash : RecordHash) : (revisionsOf loaded' hash).Perm (revisionsOf loaded hash) := h.filter _

theorem topics_pairwise (annotations : List LoadedRecord) :
    (sortBy (fun a b => compare (JsValue.codeUnits a) (JsValue.codeUnits b))
      (binOf annotations).topics).Pairwise fun a b =>
        compare (JsValue.codeUnits a) (JsValue.codeUnits b) = .lt := by
  have htrans := Lib.transCmp_on (compare : List ℕ → List ℕ → Ordering) JsValue.codeUnits
  have hnodup : (sortBy (fun a b => compare (JsValue.codeUnits a) (JsValue.codeUnits b))
      (binOf annotations).topics).Nodup :=
    (Lib.sortBy_perm _).nodup_iff.2 (nodup_topics_binOf annotations)
  refine ((Lib.sortBy_pairwise (binOf annotations).topics).and hnodup).imp ?_
  rintro a b ⟨hle, hne⟩
  rcases Ordering.isLE_iff_eq_lt_or_eq_eq.1 hle with hlt | heq
  · exact hlt
  · exact absurd (codeUnits_inj (Std.LawfulEqCmp.eq_of_compare heq)) hne

/-! ## Revisions -/

/-- `localeCompare` puts record hashes in the order of their code units. -/
def OrdersHashes (P : Platform) : Prop :=
  ∀ a b : RecordHash,
    P.localeCompare a.val b.val = compare (JsValue.codeUnits a.val) (JsValue.codeUnits b.val)

/-- By timestamp, and then by hash. -/
def revisionOrder (a b : ℚ × RecordHash) : Ordering :=
  (compare a.1 b.1).then (compare (JsValue.codeUnits a.2.val) (JsValue.codeUnits b.2.val))

def LoadedRecord.issued (lr : LoadedRecord) : ℚ × RecordHash := (lr.record.timestamp, lr.recordHash)

instance : Std.TransCmp revisionOrder :=
  Lib.transCmp_then (Lib.transCmp_on compare fun a : ℚ × RecordHash => a.1)
    (Lib.transCmp_on (compare : List ℕ → List ℕ → Ordering)
      fun a : ℚ × RecordHash => JsValue.codeUnits a.2.val)

theorem eq_of_revisionOrder {a b : ℚ × RecordHash} (h : revisionOrder a b = .eq) : a = b := by
  obtain ⟨htime, hhash⟩ := Ordering.then_eq_eq.1 h
  exact Prod.ext (Std.LawfulEqCmp.eq_of_compare htime)
    (Subtype.ext (codeUnits_inj (Std.LawfulEqCmp.eq_of_compare hhash)))

theorem compareRevision_eq {P : Platform} (hlocale : OrdersHashes P) :
    compareRevision P = fun a b => revisionOrder a.issued b.issued := by
  funext a b
  rw [compareRevision, hlocale]
  rfl

theorem revisions_pairwise {P : Platform} (hlocale : OrdersHashes P) (l : List LoadedRecord) :
    (sortBy (compareRevision P) l).Pairwise fun a b => a.record.timestamp < b.record.timestamp ∨
      a.record.timestamp = b.record.timestamp ∧
        (compare (JsValue.codeUnits a.recordHash.val)
          (JsValue.codeUnits b.recordHash.val)).isLE = true := by
  have htrans := Lib.transCmp_on revisionOrder LoadedRecord.issued
  rw [compareRevision_eq hlocale]
  refine (Lib.sortBy_pairwise l).imp fun {a b} hle => ?_
  rcases Ordering.isLE_then_iff_or.1 hle with hlt | ⟨heq, hle⟩
  · exact .inl (compare_lt_iff_lt.1 hlt)
  · exact .inr ⟨compare_eq_iff_eq.1 heq, hle⟩

theorem map_issued_sortBy {P : Platform} (hlocale : OrdersHashes P) (l : List LoadedRecord) :
    (sortBy (compareRevision P) l).map LoadedRecord.issued =
      sortBy revisionOrder (l.map LoadedRecord.issued) := by
  rw [compareRevision_eq hlocale]
  exact List.map_mergeSort fun _ _ _ _ => rfl

theorem revisionHashesOf_eq_map {P : Platform} (hlocale : OrdersHashes P)
    (loaded : List LoadedRecord) (hash : RecordHash) :
    revisionHashesOf P loaded hash =
      (sortBy revisionOrder ((revisionsOf loaded hash).map LoadedRecord.issued)).map Prod.snd := by
  rw [revisionHashesOf_eq, ← map_issued_sortBy hlocale, List.map_map]
  rfl

/-! ## Exactness -/

/-- A latest annotation of those that have a summary. -/
def IsLatest (annotations : List LoadedRecord) (lr : LoadedRecord) : Prop :=
  lr ∈ annotations ∧ lr.summary.isSome ∧
    ∀ lr' ∈ annotations, lr'.summary.isSome → lr'.record.timestamp ≤ lr.record.timestamp

/-- The summary is that of a latest annotation, if any has one. -/
def FromLatest (loaded : List LoadedRecord) (hash : RecordHash) : Prop :=
  (∀ lr ∈ annotationsOf loaded hash, lr.summary = none) ∧ (summaryOf loaded hash).summary = none ∨
    ∃ lr, IsLatest (annotationsOf loaded hash) lr ∧ (summaryOf loaded hash).summary = lr.summary

structure ExactFor (P : Platform) (loaded : List LoadedRecord) (hash : RecordHash) : Prop where
  /-- The maximum is one of the five labels, and an annotation carries it. -/
  carried : ∀ label, (summaryOf loaded hash).maxImportance = some label →
    label ∈ importanceLabels ∧ ∃ lr ∈ annotationsOf loaded hash, lr.importance = some label
  greatest : ∀ lr ∈ annotationsOf loaded hash, ∀ label ∈ importanceLabels,
    lr.importance = some label →
      ∃ top, (summaryOf loaded hash).maxImportance = some top ∧ grade label ≤ grade top
  /-- One annotation more does not lower the maximum. -/
  never_lower : ∀ lr, ¬lr.Misgraded → ∀ label,
    (summaryOf loaded hash).maxImportance = some label →
      ∃ top, (summaryOf (lr :: loaded) hash).maxImportance = some top ∧ grade label ≤ grade top
  topics_mem : ∀ topic, topic ∈ (summaryOf loaded hash).topics.getD [] ↔
    ∃ lr ∈ annotationsOf loaded hash, topic ∈ lr.topics
  topics_sorted : ((summaryOf loaded hash).topics.getD []).Pairwise fun a b =>
    compare (JsValue.codeUnits a) (JsValue.codeUnits b) = .lt
  summary : FromLatest loaded hash
  revisions : ∃ entries : List LoadedRecord, entries.Perm (revisionsOf loaded hash) ∧
    revisionHashesOf P loaded hash = entries.map (·.recordHash) ∧
      entries.Pairwise fun a b => a.record.timestamp < b.record.timestamp ∨
        a.record.timestamp = b.record.timestamp ∧
          (compare (JsValue.codeUnits a.recordHash.val)
            (JsValue.codeUnits b.recordHash.val)).isLE = true
  /-- Another order of the records changes the summary only, and to that of an annotation as late. -/
  order : ∀ loaded', loaded'.Perm loaded →
    (summaryOf loaded' hash).maxImportance = (summaryOf loaded hash).maxImportance ∧
      (summaryOf loaded' hash).topics = (summaryOf loaded hash).topics ∧
      revisionHashesOf P loaded' hash = revisionHashesOf P loaded hash ∧ FromLatest loaded' hash

theorem fromLatest (loaded : List LoadedRecord) (hash : RecordHash) : FromLatest loaded hash := by
  unfold FromLatest
  rw [summaryOf_eq]
  rcases summary_binOf (annotationsOf loaded hash) with ⟨hnone, hsummary, -⟩ | ⟨lr, hlr, hsummary, -⟩
  · exact .inl ⟨hnone, hsummary⟩
  · exact .inr ⟨lr, hlr.mem, hsummary⟩

/-- The labels that count are of the five, where none is inherited. -/
theorem labels_of_graded {annotations : List LoadedRecord}
    (h : ∀ lr ∈ annotations, ¬lr.Misgraded) :
    ∀ label ∈ annotations.filterMap LoadedRecord.label, label ∈ importanceLabels ∧
      ∃ lr ∈ annotations, lr.importance = some label := by
  intro label hlabel
  obtain ⟨lr, hlr, hsome⟩ := List.mem_filterMap.1 hlabel
  obtain ⟨himportance, hkind⟩ := label_eq_some.1 hsome
  refine ⟨hkind.resolve_right fun hinherited => h lr hlr ?_, lr, hlr, himportance⟩
  rw [LoadedRecord.Misgraded, himportance]
  exact hinherited

theorem topics_perm {loaded loaded' : List LoadedRecord} (h : loaded'.Perm loaded)
    (hash : RecordHash) : (summaryOf loaded' hash).topics = (summaryOf loaded hash).topics := by
  rw [summaryOf_eq, summaryOf_eq, result_topics_eq_iff]
  intro topic
  simp only [mem_topics_binOf, (annotationsOf_perm h hash).mem_iff]

theorem revisions_perm {P : Platform} (hlocale : OrdersHashes P)
    {loaded loaded' : List LoadedRecord} (h : loaded'.Perm loaded) (hash : RecordHash) :
    revisionHashesOf P loaded' hash = revisionHashesOf P loaded hash := by
  rw [revisionHashesOf_eq_map hlocale, revisionHashesOf_eq_map hlocale]
  refine congrArg _ (Lib.sortBy_eq_of_perm ((revisionsOf_perm h hash).map _) ?_)
  exact fun _ _ _ _ => eq_of_revisionOrder

namespace GradedSample

open ForgedSample (forgedRecord signedHash)

/-- Record hashes are of digits and small letters. -/
def platform : Platform := { ForgedSample.platform.mirror with
  localeCompare := fun a b => compare (JsValue.codeUnits a) (JsValue.codeUnits b) }

def target : RecordHash := ⟨signedHash, by decide +kernel⟩

/-- An annotation of the record, with an importance. -/
def annotation (importance : String) : LoadedRecord where
  record := {
    value := forgedRecord EVENT_TYPE_ANNOTATION_URI [("annotates", .string target.val)]
    eventType := EVENT_TYPE_ANNOTATION_URI
    contextId := ""
    creatorKey := ""
    chainRoot := ""
    timestamp := 2
    eventType_eq := rfl
    contextId_eq := rfl
    creatorKey_eq := rfl
    chainRoot_eq := rfl
    timestamp_eq := rfl }
  recordHash := target
  content := .object [("importance", .string importance)]

end GradedSample

end Atrib.Recall.Mirror
