import Mathlib.Algebra.BigOperators.Group.Finset.Basic
import Mathlib.Algebra.Order.Field.Basic
import Mathlib.Analysis.SpecialFunctions.Log.Basic
import Mathlib.Tactic.Positivity
import Atrib.Lib.Grouping
import Atrib.Recall.Bm25

/-!
# The two paths of BM25

`bm25Score` counts a term as often as the query has it, with the last document
that has the id; `bm25ScoresForQuery` counts it once, with the last such document
that has the term. The scores agree, whatever the idf values are, just when each
term of the query that a document under the id has is there once, and in the
last document too.
-/

namespace Atrib.Recall

open Lib (InsertionMap InsertionSet.ofList groupStep membersOf)

/-! ## Counts -/

theorem get?_countTokens (tokens : List String) (tok : String) :
    (countTokens ∅ tokens).get? tok = if tok ∈ tokens then some (tokens.count tok) else none := by
  have hgrouped := Lib.get?_grouped (fun t : String => some t) 0 (fun n _ => n + 1) tokens tok
  have hmembers : membersOf (fun t : String => some t) tokens tok = tokens.filter (· = tok) := by
    simp only [membersOf, Option.some.injEq]
  have hlength : ∀ l : List String, ∀ n, l.foldl (fun n _ => n + 1) n = n + l.length := by
    intro l
    induction l with
    | nil => exact fun n => rfl
    | cons t l ih =>
        intro n
        rw [List.foldl_cons, ih, List.length_cons]
        omega
  rw [hmembers, hlength] at hgrouped
  refine hgrouped.trans ?_
  by_cases hmem : tok ∈ tokens
  · have hne : tokens.filter (· = tok) ≠ [] :=
      List.ne_nil_of_mem (List.mem_filter.2 ⟨hmem, decide_eq_true rfl⟩)
    rw [if_neg hne, if_pos hmem, Nat.zero_add, List.count_eq_length_filter]
    rfl
  · have hnil : tokens.filter (· = tok) = [] := by
      rw [List.filter_eq_nil_iff]
      rintro t ht htok
      exact hmem (of_decide_eq_true htok ▸ ht)
    rw [if_pos hnil, if_neg hmem]

/-! ## The index -/

/-- The last document that passes a test. -/
def lastDoc (test : BM25Doc → Bool) (corpus : List BM25Doc) : Option BM25Doc :=
  corpus.reverse.find? test

theorem lastDoc_concat (test : BM25Doc → Bool) (corpus : List BM25Doc) (d : BM25Doc) :
    lastDoc test (corpus ++ [d]) = if test d then some d else lastDoc test corpus := by
  rw [lastDoc, List.reverse_append, List.reverse_singleton, List.singleton_append, List.find?_cons]
  cases test d <;> rfl

theorem lastDoc_eq_none {test : BM25Doc → Bool} {corpus : List BM25Doc} :
    lastDoc test corpus = none ↔ ∀ d ∈ corpus, test d = false := by
  simp [lastDoc]

theorem lastDoc_mem {test : BM25Doc → Bool} {corpus : List BM25Doc} {d : BM25Doc}
    (h : lastDoc test corpus = some d) : d ∈ corpus ∧ test d = true :=
  ⟨List.mem_reverse.1 (List.mem_of_find?_eq_some h), List.find?_some h⟩

/-- The last document that passes two tests is the last that passes one, where it passes both. -/
theorem lastDoc_and {p q : BM25Doc → Bool} {corpus : List BM25Doc} {d : BM25Doc}
    (h : lastDoc p corpus = some d) (hq : q d = true) :
    lastDoc (fun d => p d && q d) corpus = some d := by
  unfold lastDoc at h ⊢
  obtain ⟨hp, before, after, hsplit, hbefore⟩ := List.find?_eq_some_iff_append.1 h
  refine List.find?_eq_some_iff_append.2 ⟨by rw [hp, hq]; rfl, before, after, hsplit, fun a ha => ?_⟩
  have hnot := hbefore a ha
  simp only [Bool.not_eq_true', Bool.and_eq_false_imp] at hnot ⊢
  rw [hnot]
  nofun

/-- With the id. -/
def hasId (docId : String) (d : BM25Doc) : Bool := d.id = docId

/-- With the token. -/
def hasToken (tok : String) (d : BM25Doc) : Bool := tok ∈ d.tokens

theorem tallyOf_concat (corpus : List BM25Doc) (d : BM25Doc) :
    tallyOf (corpus ++ [d]) = (tallyOf corpus).add d := by
  rw [tallyOf, List.foldl_append]
  rfl

theorem get?_docs (corpus : List BM25Doc) (docId : String) :
    (tallyOf corpus).docs.get? docId = (lastDoc (hasId docId) corpus).map fun d =>
      ⟨d.tokens.length, countTokens ∅ d.tokens⟩ := by
  induction corpus using List.reverseRecOn with
  | nil => rfl
  | append_singleton corpus d ih =>
      rw [tallyOf_concat, Tally.add, lastDoc_concat, InsertionMap.get?_set, ih]
      by_cases hid : d.id = docId
      · rw [if_pos hid.symm, if_pos (show hasId docId d = true from decide_eq_true hid)]
        rfl
      · rw [if_neg (Ne.symm hid), if_neg (by simpa [hasId] using hid)]

/-- A loop over entries posts under each token once. -/
theorem get?_foldl_post (id tok : String) :
    ∀ (es : List (String × ℕ)) (postings : InsertionMap String (InsertionMap String ℕ)),
      (es.map Prod.fst).Nodup →
      ((es.foldl (post id) postings).get? tok).getD ∅ =
        match es.find? fun e => e.1 = tok with
        | none => (postings.get? tok).getD ∅
        | some e => ((postings.get? tok).getD ∅).set id e.2
  | [], postings, _ => rfl
  | e :: es, postings, hnodup => by
      obtain ⟨hnot, hnodup⟩ := List.nodup_cons.1 hnodup
      rw [List.foldl_cons, get?_foldl_post id tok es _ hnodup, List.find?_cons]
      by_cases htok : e.1 = tok
      · have hrest : es.find? (fun e => e.1 = tok) = none := by
          rw [List.find?_eq_none]
          intro e' he' heq
          exact hnot (htok ▸ of_decide_eq_true heq ▸ List.mem_map_of_mem he')
        rw [hrest, decide_eq_true htok]
        simp only [post, htok, InsertionMap.get?_set_self, Option.getD_some]
      · rw [decide_eq_false htok]
        have hsame : (post id postings e).get? tok = postings.get? tok :=
          InsertionMap.get?_set_of_ne (Ne.symm htok) _ _
        simp only [hsame]

theorem get?_postings (corpus : List BM25Doc) (tok docId : String) :
    (((tallyOf corpus).postings.get? tok).getD ∅).get? docId =
      (lastDoc (fun d => hasId docId d && hasToken tok d) corpus).map fun d =>
        d.tokens.count tok := by
  induction corpus using List.reverseRecOn with
  | nil => rfl
  | append_singleton corpus d ih =>
      rw [tallyOf_concat, Tally.add, lastDoc_concat,
        get?_foldl_post _ _ _ _ (countTokens ∅ d.tokens).nodup]
      have hcount := get?_countTokens d.tokens tok
      rw [InsertionMap.get?] at hcount
      cases hfound : (countTokens ∅ d.tokens).entries.find? fun e => e.1 = tok with
      | none =>
          rw [hfound, Option.map_none] at hcount
          have hnot : tok ∉ d.tokens := fun hmem => by simp [hmem] at hcount
          rw [if_neg (by simp [hasToken, hnot])]
          exact ih
      | some e =>
          rw [hfound, Option.map_some] at hcount
          have hmem : tok ∈ d.tokens := by
            by_contra hnot
            rw [if_neg hnot] at hcount
            cases hcount
          rw [if_pos hmem] at hcount
          simp only
          rw [InsertionMap.get?_set, ih]
          by_cases hid : d.id = docId
          · rw [if_pos hid.symm, if_pos (by simp [hasId, hasToken, hid, hmem]), hcount]
            rfl
          · rw [if_neg (Ne.symm hid), if_neg (by simp [hasId, hid])]

theorem totalLength_tallyOf (corpus : List BM25Doc) :
    (tallyOf corpus).totalLength = (corpus.map fun d => d.tokens.length).sum := by
  induction corpus using List.reverseRecOn with
  | nil => rfl
  | append_singleton corpus d ih =>
      rw [tallyOf_concat, Tally.add, ih, List.map_append, List.sum_append]
      simp

/-! ## Sums -/

section Sums

variable {K : Type} [Field K]

/-- A loop that adds to a number. -/
theorem foldl_adds {σ α : Type} (value : σ → K) {step : σ → α → σ} {f : α → K}
    (hstep : ∀ s a, value (step s a) = value s + f a) (l : List α) (s : σ) :
    value (l.foldl step s) = value s + (l.map f).sum := by
  induction l generalizing s with
  | nil => exact (add_zero _).symm
  | cons a l ih => rw [List.foldl_cons, ih, hstep, List.map_cons, List.sum_cons, add_assoc]

/-- Of the entries of a map, one at most is under a key. -/
theorem sum_entries_eq (m : InsertionMap String ℕ) (docId : String) (f : ℕ → K) :
    (m.entries.map fun e => if e.1 = docId then f e.2 else 0).sum =
      ((m.get? docId).map f).getD 0 := by
  obtain ⟨es, hnodup⟩ := m
  unfold InsertionMap.get?
  induction es with
  | nil => rfl
  | cons e es ih =>
      obtain ⟨hnot, hnodup⟩ := List.nodup_cons.1 hnodup
      have hrest := ih hnodup
      simp only at hrest ⊢
      rw [List.map_cons, List.sum_cons, hrest, List.find?_cons]
      by_cases hid : e.1 = docId
      · have hnone : es.find? (fun e => e.1 = docId) = none := by
          rw [List.find?_eq_none]
          intro e' he' heq
          exact hnot (hid ▸ of_decide_eq_true heq ▸ List.mem_map_of_mem he')
        rw [if_pos hid, hnone, decide_eq_true hid]
        exact add_zero _
      · rw [if_neg hid, decide_eq_false hid, zero_add]

/-- `numerator / denominator` -/
def BM25Index.weight (index : BM25Index K) (length tf : ℕ) : K :=
  tf * (index.k1 + 1) / (tf + index.k1 * (1 - index.b + index.b * (length / index.avgdl)))

def BM25Index.idfOf (index : BM25Index K) (qt : String) : K := (index.idf.get? qt).getD 0

/-- How often the posting of a term has it for a document. -/
def BM25Index.posted (index : BM25Index K) (docId qt : String) : ℕ :=
  (((index.postings.get? qt).getD ∅).get? docId).getD 0

@[simp] theorem weight_zero (index : BM25Index K) (length : ℕ) : index.weight length 0 = 0 := by
  simp [BM25Index.weight]

variable [DecidableEq K]

theorem bm25Score_eq_sum (index : BM25Index K) {docId : String} {doc : IndexedDoc}
    (hdoc : index.docs.get? docId = some doc) (havgdl : index.avgdl ≠ 0)
    (queryTokens : List String) :
    bm25Score index docId queryTokens = (queryTokens.map fun qt =>
      index.idfOf qt * index.weight doc.length ((doc.tf.get? qt).getD 0)).sum := by
  rw [bm25Score, hdoc]
  simp only
  by_cases hnil : queryTokens = []
  · rw [if_pos hnil, hnil]
    rfl
  · rw [if_neg hnil, if_neg havgdl]
    refine (foldl_adds id (fun score qt => ?_) queryTokens 0).trans (zero_add _)
    cases htf : doc.tf.get? qt with
    | none => simp
    | some tf =>
        cases tf with
        | zero => simp
        | succ tf => rfl

theorem bm25ScoresForQuery_eq_sum (index : BM25Index K) (docId : String)
    (havgdl : index.avgdl ≠ 0) (queryTokens : List String) :
    ((bm25ScoresForQuery index queryTokens).get? docId).getD 0 =
      ((InsertionSet.ofList queryTokens).map fun qt =>
        ((index.docs.get? docId).map fun doc =>
          index.idfOf qt * index.weight doc.length (index.posted docId qt)).getD 0).sum := by
  rw [bm25ScoresForQuery]
  by_cases hnil : queryTokens = []
  · rw [if_pos (.inl hnil), hnil]
    rfl
  · rw [if_neg (not_or.2 ⟨hnil, havgdl⟩)]
    refine (foldl_adds (fun scores : InsertionMap String K => (scores.get? docId).getD 0)
      (fun scores qt => ?_) (InsertionSet.ofList queryTokens) ∅).trans (zero_add _)
    -- of a posting, only the entry of the document counts
    have hentry : ∀ scores (entry : String × ℕ),
        ((index.addScore qt scores entry).get? docId).getD 0 = (scores.get? docId).getD 0 +
          if entry.1 = docId then
            ((index.docs.get? docId).map fun doc =>
              index.idfOf qt * index.weight doc.length entry.2).getD 0
          else 0 := by
      intro scores entry
      by_cases hid : entry.1 = docId
      · rw [BM25Index.addScore, hid, if_pos rfl]
        cases index.docs.get? docId with
        | none => exact (add_zero _).symm
        | some doc => rw [InsertionMap.get?_set_self]; rfl
      · rw [if_neg hid, add_zero, BM25Index.addScore]
        cases index.docs.get? entry.1 with
        | none => rfl
        | some doc =>
            simp only
            rw [InsertionMap.get?_set_of_ne (Ne.symm hid)]
    unfold BM25Index.posted
    cases hposting : index.postings.get? qt with
    | none =>
        have hzero : ((∅ : InsertionMap String ℕ).get? docId).getD 0 = 0 := rfl
        simp only [Option.getD_none, hzero, weight_zero, mul_zero]
        cases index.docs.get? docId <;> exact (add_zero _).symm
    | some posting =>
        simp only [Option.getD_some]
        rw [foldl_adds (fun scores : InsertionMap String K => (scores.get? docId).getD 0) hentry,
          sum_entries_eq posting docId fun tf => ((index.docs.get? docId).map fun doc =>
            index.idfOf qt * index.weight doc.length tf).getD 0]
        congr 1
        cases posting.get? docId with
        | none => cases index.docs.get? docId <;> simp
        | some tf => rfl

end Sums

/-! ## Agreement -/

/-- Both paths give the document the same score, whatever the idf values are. -/
def PathsAgree {K : Type} [Field K] [DecidableEq K] (index : BM25Index K)
    (queryTokens : List String) (docId : String) : Prop :=
  ∀ idf : InsertionMap String K,
    ((bm25ScoresForQuery { index with idf } queryTokens).get? docId).getD 0 =
      bm25Score { index with idf } docId queryTokens

section

variable {K : Type} [Field K]

/-- The idf values set the terms apart from each other. -/
theorem forall_idf_iff {terms : Finset String} {f g : String → K} :
    (∀ idf : InsertionMap String K, ∑ qt ∈ terms, (idf.get? qt).getD 0 * f qt =
      ∑ qt ∈ terms, (idf.get? qt).getD 0 * g qt) ↔ ∀ qt ∈ terms, f qt = g qt := by
  constructor
  · intro h qt hqt
    have hone := h ((∅ : InsertionMap String K).set qt 1)
    have hother : ∀ (f : String → K), ∑ x ∈ terms,
        (((∅ : InsertionMap String K).set qt 1).get? x).getD 0 * f x = f qt := by
      intro f
      rw [Finset.sum_eq_single_of_mem qt hqt]
      · rw [InsertionMap.get?_set_self, Option.getD_some, one_mul]
      · intro x _ hx
        rw [InsertionMap.get?_set_of_ne hx]
        exact zero_mul _
    rwa [hother, hother] at hone
  · exact fun h idf => Finset.sum_congr rfl fun qt hqt => by rw [h qt hqt]

variable [DecidableEq K]

theorem pathsAgree_iff_weight {index : BM25Index K} {docId : String} {doc : IndexedDoc}
    (hdoc : index.docs.get? docId = some doc) (havgdl : index.avgdl ≠ 0)
    (queryTokens : List String) :
    PathsAgree index queryTokens docId ↔ ∀ qt ∈ queryTokens,
      index.weight doc.length (index.posted docId qt) =
        queryTokens.count qt * index.weight doc.length ((doc.tf.get? qt).getD 0) := by
  have hterms : (InsertionSet.ofList queryTokens).toFinset = queryTokens.toFinset := by
    ext qt
    simp
  have hagree : PathsAgree index queryTokens docId ↔ ∀ idf : InsertionMap String K,
      ∑ qt ∈ queryTokens.toFinset, (idf.get? qt).getD 0 *
          index.weight doc.length (index.posted docId qt) =
        ∑ qt ∈ queryTokens.toFinset, (idf.get? qt).getD 0 *
          (queryTokens.count qt * index.weight doc.length ((doc.tf.get? qt).getD 0)) := by
    refine forall_congr' fun idf => ?_
    rw [bm25Score_eq_sum { index with idf } hdoc havgdl, Finset.sum_list_map_count,
      bm25ScoresForQuery_eq_sum { index with idf } docId havgdl,
      ← List.sum_toFinset _ (Lib.InsertionSet.nodup_ofList queryTokens), hterms]
    simp only [hdoc, Option.map_some, Option.getD_some, nsmul_eq_mul]
    refine Eq.congr rfl (Finset.sum_congr rfl fun qt _ => ?_)
    exact mul_left_comm _ _ _
  rw [hagree, forall_idf_iff]
  simp only [List.mem_toFinset]

end

section

variable {K : Type} [Field K] [LinearOrder K] [IsStrictOrderedRing K]

theorem weight_pos (index : BM25Index K) (hk1 : 0 ≤ index.k1) (hb : 0 ≤ index.b)
    (hb1 : index.b ≤ 1) (havgdl : 0 < index.avgdl) (length : ℕ) {tf : ℕ} (htf : 0 < tf) :
    0 < index.weight length tf := by
  have hlength : (0 : K) ≤ length / index.avgdl := by positivity
  have hnorm : 0 ≤ 1 - index.b + index.b * (length / index.avgdl) :=
    add_nonneg (sub_nonneg.2 hb1) (mul_nonneg hb hlength)
  have htf' : (0 : K) < tf := Nat.cast_pos.2 htf
  exact div_pos (by positivity) (by positivity)

theorem avgdl_pos (log : K → K) {corpus : List BM25Doc} {k1 b : K} {d : BM25Doc}
    (hd : d ∈ corpus) {qt : String} (hqt : qt ∈ d.tokens) :
    0 < (buildBM25Index log corpus k1 b).avgdl := by
  have hcorpus : 0 < corpus.length := List.length_pos_of_mem hd
  have htotal : 0 < (tallyOf corpus).totalLength := by
    rw [totalLength_tallyOf]
    refine (List.length_pos_of_mem hqt).trans_le ?_
    exact List.single_le_sum (fun _ _ => Nat.zero_le _) _
      (List.mem_map_of_mem (f := fun d : BM25Doc => d.tokens.length) hd)
  show 0 < if 0 < corpus.length then ((tallyOf corpus).totalLength : K) / (corpus.length : K) else 0
  rw [if_pos hcorpus]
  exact div_pos (Nat.cast_pos.2 htotal) (Nat.cast_pos.2 hcorpus)

/-- What keeps the paths together for one term of the query. -/
def SameTerm (corpus : List BM25Doc) (queryTokens : List String) (docId qt : String) : Prop :=
  (∃ d ∈ corpus, d.id = docId ∧ qt ∈ d.tokens) →
    queryTokens.count qt = 1 ∧ ∃ d, lastDoc (hasId docId) corpus = some d ∧ qt ∈ d.tokens

theorem sameTerm_iff_weight (log : K → K) {k1 b : K} (hk1 : 0 ≤ k1) (hb : 0 ≤ b) (hb1 : b ≤ 1)
    {corpus : List BM25Doc} {docId : String} {d : BM25Doc}
    (hlast : lastDoc (hasId docId) corpus = some d) (queryTokens : List String) (qt : String) :
    (buildBM25Index log corpus k1 b).weight d.tokens.length
        ((buildBM25Index log corpus k1 b).posted docId qt) =
      queryTokens.count qt * (buildBM25Index log corpus k1 b).weight d.tokens.length
        (((countTokens ∅ d.tokens).get? qt).getD 0) ↔
      SameTerm corpus queryTokens docId qt := by
  obtain ⟨hd, hid⟩ := lastDoc_mem hlast
  have hposted : (buildBM25Index log corpus k1 b).posted docId qt =
      ((lastDoc (fun d => hasId docId d && hasToken qt d) corpus).map fun d =>
        d.tokens.count qt).getD 0 := congrArg (Option.getD · 0) (get?_postings corpus qt docId)
  rw [hposted, get?_countTokens, SameTerm, hlast]
  by_cases hqt : qt ∈ d.tokens
  · -- the posting is that of the last document
    have hpos := weight_pos (buildBM25Index log corpus k1 b) hk1 hb hb1
      (avgdl_pos log hd hqt) d.tokens.length (List.count_pos_iff.2 hqt)
    rw [lastDoc_and hlast (decide_eq_true hqt), if_pos hqt]
    simp only [Option.map_some, Option.getD_some]
    rw [eq_comm, mul_eq_right₀ hpos.ne', Nat.cast_eq_one]
    constructor
    · exact fun hcount _ => ⟨hcount, d, rfl, hqt⟩
    · exact fun h => (h ⟨d, hd, of_decide_eq_true hid, hqt⟩).1
  · rw [if_neg hqt, Option.getD_none, weight_zero, mul_zero]
    have hnot : ¬∃ d', some d = some d' ∧ qt ∈ d'.tokens := by
      rintro ⟨d', hd', hmem⟩
      exact hqt (Option.some.inj hd' ▸ hmem)
    cases hboth : lastDoc (fun d => hasId docId d && hasToken qt d) corpus with
    | none =>
        refine iff_of_true (weight_zero _ _) ?_
        rintro ⟨d', hd', hid', hmem⟩
        have htest := lastDoc_eq_none.1 hboth d' hd'
        simp [hasId, hasToken, hid', hmem] at htest
    | some d' =>
        -- an earlier document has left the term in the posting
        obtain ⟨hd', htest⟩ := lastDoc_mem hboth
        obtain ⟨hid', hmem⟩ := Bool.and_eq_true_iff.1 htest
        have hmem' : qt ∈ d'.tokens := of_decide_eq_true hmem
        refine iff_of_false (ne_of_gt ?_) fun h => hnot (h ⟨d', hd', of_decide_eq_true hid', hmem'⟩).2
        exact weight_pos (buildBM25Index log corpus k1 b) hk1 hb hb1
          (avgdl_pos log hd' hmem') d.tokens.length (List.count_pos_iff.2 hmem')

/-- Each term of the query that a document under the id has must be there once, and in the last
of these documents. -/
theorem pathsAgree_iff (log : K → K) {k1 b : K} (hk1 : 0 ≤ k1) (hb : 0 ≤ b) (hb1 : b ≤ 1)
    (corpus : List BM25Doc) (queryTokens : List String) (docId : String) :
    PathsAgree (buildBM25Index log corpus k1 b) queryTokens docId ↔
      ∀ qt ∈ queryTokens, SameTerm corpus queryTokens docId qt := by
  have hdocs : (buildBM25Index log corpus k1 b).docs.get? docId =
      (lastDoc (hasId docId) corpus).map fun d => ⟨d.tokens.length, countTokens ∅ d.tokens⟩ :=
    get?_docs corpus docId
  by_cases havgdl : (buildBM25Index log corpus k1 b).avgdl = 0
  · refine iff_of_true (fun idf => ?_) fun qt _ => ?_
    · rw [bm25ScoresForQuery, if_pos (.inr havgdl), bm25Score]
      cases (buildBM25Index log corpus k1 b).docs.get? docId with
      | none => rfl
      | some doc =>
          simp only
          rw [if_pos havgdl, ite_self]
          rfl
    · rintro ⟨d, hd, -, hqt⟩
      exact absurd havgdl (avgdl_pos log hd hqt).ne'
  cases hlast : lastDoc (hasId docId) corpus with
  | none =>
      rw [hlast, Option.map_none] at hdocs
      refine iff_of_true (fun idf => ?_) fun qt _ => ?_
      · rw [bm25ScoresForQuery_eq_sum { buildBM25Index log corpus k1 b with idf } docId
          havgdl, bm25Score, hdocs]
        simp
      · rintro ⟨d, hd, hid, -⟩
        have htest := lastDoc_eq_none.1 hlast d hd
        rw [hasId, decide_eq_true hid] at htest
        cases htest
  | some d =>
      rw [hlast, Option.map_some] at hdocs
      rw [pathsAgree_iff_weight hdocs havgdl]
      exact forall₂_congr fun qt _ => sameTerm_iff_weight log hk1 hb hb1 hlast queryTokens qt

end

namespace Bm25Sample

/-- Two records, the first in two mirrors. -/
def corpus : List BM25Doc :=
  [⟨"first", ["deploy", "api"]⟩, ⟨"second", ["deploy", "docs"]⟩, ⟨"first", ["deploy"]⟩]

theorem pathsAgree_deploy :
    PathsAgree (buildBM25Index Real.log corpus) ["deploy", "docs"] "first" := by
  refine (pathsAgree_iff Real.log (by norm_num) (by norm_num) (by norm_num) corpus
    ["deploy", "docs"] "first").2 ?_
  simp [SameTerm, corpus, lastDoc, hasId]

/-- The logarithm, to first order. -/
def index : BM25Index ℚ := buildBM25Index (· - 1) corpus (3 / 2) (3 / 4)

/-- A word that is said twice, and one that only the first mirror has. -/
theorem paths_disagree :
    (((bm25ScoresForQuery index ["docs", "docs"]).get? "second").getD 0 ≠
      bm25Score index "second" ["docs", "docs"]) ∧
    (((bm25ScoresForQuery index ["api"]).get? "first").getD 0 ≠
      bm25Score index "first" ["api"]) := by
  decide +kernel

end Bm25Sample

end Atrib.Recall
