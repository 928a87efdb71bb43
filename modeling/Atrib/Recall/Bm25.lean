import Mathlib.Algebra.Field.Basic
import Mathlib.Data.Nat.Cast.Basic
import Atrib.Lib.InsertionMap

/-!
# BM25

The index of `services/atrib-recall/src/scoring.ts` and its two ways to a score:
`bm25Score` goes over the terms of a query for one document,
`bm25ScoresForQuery` over the postings of the terms for all documents.

Arithmetic is exact, over a field, and so `Math.log` is a parameter.
-/

namespace Atrib.Recall

open Lib (InsertionMap InsertionSet.ofList)

structure BM25Doc where
  id : String
  tokens : List String

/-- `{ length, tf }` -/
structure IndexedDoc where
  length : ℕ
  tf : InsertionMap String ℕ

structure BM25Index (K : Type) where
  docs : InsertionMap String IndexedDoc
  postings : InsertionMap String (InsertionMap String ℕ)
  idf : InsertionMap String K
  avgdl : K
  k1 : K
  b : K

/-! ## Building -/

/-- One more under each of the tokens. -/
def countTokens (counts : InsertionMap String ℕ) (tokens : List String) : InsertionMap String ℕ :=
  tokens.foldl (fun counts tok => counts.set tok ((counts.get? tok).getD 0 + 1)) counts

/-- What the loop over the corpus fills. -/
structure Tally where
  docs : InsertionMap String IndexedDoc := ∅
  df : InsertionMap String ℕ := ∅
  postings : InsertionMap String (InsertionMap String ℕ) := ∅
  totalLength : ℕ := 0

/-- `posting.set(id, count)` for the posting of a token. -/
def post (id : String) (postings : InsertionMap String (InsertionMap String ℕ))
    (entry : String × ℕ) : InsertionMap String (InsertionMap String ℕ) :=
  postings.set entry.1 (((postings.get? entry.1).getD ∅).set id entry.2)

def Tally.add (tally : Tally) (d : BM25Doc) : Tally :=
  let tf := countTokens ∅ d.tokens
  { docs := tally.docs.set d.id ⟨d.tokens.length, tf⟩
    totalLength := tally.totalLength + d.tokens.length
    df := countTokens tally.df (InsertionSet.ofList d.tokens)
    postings := tf.entries.foldl (post d.id) tally.postings }

def tallyOf (corpus : List BM25Doc) : Tally := corpus.foldl Tally.add {}

variable {K : Type} [Field K] [DecidableEq K]

local instance atLeastTwo_two : Nat.AtLeastTwo 2 := ⟨le_rfl⟩

/-- Robertson and Sparck Jones, smoothed by 1. -/
def buildBM25Index (log : K → K) (corpus : List BM25Doc) (k1 : K := 3 / 2) (b : K := 3 / 4) :
    BM25Index K :=
  let tally := tallyOf corpus
  let N : K := corpus.length
  { docs := tally.docs
    postings := tally.postings
    idf := tally.df.mapVal fun _ (count : ℕ) => log ((N - count + 1 / 2) / (count + 1 / 2) + 1)
    avgdl := if 0 < corpus.length then tally.totalLength / N else 0
    k1
    b }

/-! ## Scores -/

/-- `idf * (numerator / denominator)` -/
def BM25Index.termScore (index : BM25Index K) (qt : String) (doc : IndexedDoc) (tf : ℕ) : K :=
  let idf := (index.idf.get? qt).getD 0
  let numerator := tf * (index.k1 + 1)
  let denominator := tf + index.k1 * (1 - index.b + index.b * (doc.length / index.avgdl))
  idf * (numerator / denominator)

def bm25Score (index : BM25Index K) (docId : String) (queryTokens : List String) : K :=
  match index.docs.get? docId with
  | none => 0
  | some doc =>
      if queryTokens = [] then 0
      else if index.avgdl = 0 then 0
      else
        queryTokens.foldl (fun score qt =>
          match doc.tf.get? qt with
          | none | some 0 => score
          | some tf => score + index.termScore qt doc tf) 0

/-- One round of the loop over a posting. -/
def BM25Index.addScore (index : BM25Index K) (qt : String) (scores : InsertionMap String K)
    (entry : String × ℕ) : InsertionMap String K :=
  match index.docs.get? entry.1 with
  | none => scores
  | some doc =>
      scores.set entry.1 ((scores.get? entry.1).getD 0 + index.termScore qt doc entry.2)

def bm25ScoresForQuery (index : BM25Index K) (queryTokens : List String) :
    InsertionMap String K :=
  if queryTokens = [] ∨ index.avgdl = 0 then ∅
  else
    (InsertionSet.ofList queryTokens).foldl (fun scores qt =>
      match index.postings.get? qt with
      | none => scores
      | some posting => posting.entries.foldl (index.addScore qt) scores) ∅

end Atrib.Recall
