import Atrib.GraphNode.GraphBuilder
import Atrib.Lib.Forest
import Atrib.Lib.Run
import Mathlib.Data.List.Induction

/-!
# The components of the chains

The graph builder keeps a forest of parents for its `CHAIN_PRECEDES` edges. A
search puts the node it starts from under its root and no other, and a union
puts one root under another, so in whatever order edges are taken, and whatever
is searched for in between, two nodes have one root when the edges connect them
and at no other time.
-/

namespace Atrib.GraphNode

open Lib (run)
open Lib.Forest (Climb Grounded HasRoot Represents Same hasRoot_compress hasRoot_link)
open Verify

/-! ## The parents -/

/-- Where the climb goes from a node. -/
def up (parent : ChainParent) (id : String) : Option String :=
  (parent.get? id).filter (· ≠ id)

theorem up_set {parent : ChainParent} {id root : String} (hne : id ≠ root) :
    up (parent.set id root) = Function.update (up parent) id (some root) := by
  funext x
  by_cases hx : x = id
  · subst hx
    rw [up, Lib.InsertionMap.get?_set_self, Function.update_self]
    simp [hne.symm]
  · rw [up, Lib.InsertionMap.get?_set_of_ne hx, Function.update_of_ne hx]
    rfl

theorem mem_keys_of_up {parent : ChainParent} {id : String} (h : up parent id ≠ none) :
    id ∈ parent.keys := by
  rw [Lib.InsertionMap.mem_keys_iff_get?]
  cases hget : parent.get? id with
  | none => exact absurd (by rw [up, hget]; rfl) h
  | some next => rfl

theorem climb_eq {parent : ChainParent} {n : ℕ} {id root : String}
    (h : Climb (up parent) n id root) {steps : ℕ} (hsteps : n ≤ steps) :
    climb parent steps id = root := by
  induction h generalizing steps with
  | @here r h =>
      cases steps with
      | zero => rfl
      | succ steps =>
          unfold climb
          split
          · rfl
          · next next hget =>
              refine if_pos (by_contra fun hne => ?_)
              simp [up, hget, hne] at h
  | @step n x y r hup _ ih =>
      cases steps with
      | zero => omega
      | succ steps =>
          obtain ⟨hget, hne⟩ := Option.filter_eq_some_iff.1 hup
          unfold climb
          rw [hget]
          exact (if_neg (of_decide_eq_true hne)).trans (ih (by omega))

/-- The rounds are enough, and more of them change nothing. -/
theorem climb_hasRoot {parent : ChainParent} (h : Grounded (up parent)) (id : String) {steps : ℕ}
    (hsteps : parent.size ≤ steps) : HasRoot (up parent) id (climb parent steps id) := by
  obtain ⟨root, n, hclimb⟩ := h id
  have hlength := hclimb.le_length fun x hx => mem_keys_of_up hx
  rw [Lib.InsertionMap.keys, List.length_map] at hlength
  rw [climb_eq hclimb (hlength.trans hsteps)]
  exact ⟨n, hclimb⟩

theorem findChainRoot_hasRoot {parent : ChainParent} (h : Grounded (up parent)) (id : String) :
    HasRoot (up parent) id (findChainRoot parent id).1 := climb_hasRoot h id (Nat.le_succ _)

/-- A search leaves every root what it was. -/
theorem hasRoot_findChainRoot {parent : ChainParent} (h : Grounded (up parent)) (id x r : String) :
    HasRoot (up (findChainRoot parent id).2) x r ↔ HasRoot (up parent) x r := by
  have hroot := findChainRoot_hasRoot h id
  unfold findChainRoot at hroot ⊢
  dsimp only at hroot ⊢
  split
  · rfl
  · next hne => rw [up_set hne, hasRoot_compress hroot hne]

theorem Represents.findChainRoot {parent : ChainParent} {R : String → String → Prop}
    (h : Represents (up parent) R) (id : String) :
    Represents (up (GraphNode.findChainRoot parent id).2) R :=
  h.congr (hasRoot_findChainRoot h.grounded id) fun _ _ => Iff.rfl

theorem Represents.unionChain {parent : ChainParent} {R R' : String → String → Prop}
    (h : Represents (up parent) R) {a b : String} (hR : ∀ x y, R' x y ↔ R x y ∨ x = a ∧ y = b) :
    Represents (up (GraphNode.unionChain parent a b)) R' := by
  have ha := findChainRoot_hasRoot h.grounded a
  have h₁ := Represents.findChainRoot h a
  have hb := findChainRoot_hasRoot h₁.grounded b
  have h₂ := Represents.findChainRoot h₁ b
  have ha₂ := (hasRoot_findChainRoot h₁.grounded b a _).2
    ((hasRoot_findChainRoot h.grounded a a _).2 ha)
  have hb₂ := (hasRoot_findChainRoot h₁.grounded b b _).2 hb
  refine h₂.link ha₂ hb₂ (fun x r => ?_) hR
  unfold GraphNode.unionChain
  dsimp only
  split
  · next hne => rw [up_set hne, hasRoot_link ha₂.root hb₂.root hne]
  · next heq =>
      rw [not_not.1 heq]
      constructor
      · exact fun hx => ⟨r, hx, by split <;> simp_all⟩
      · rintro ⟨s, hs, rfl⟩
        split
        · next hs' => exact hs' ▸ hs
        · exact hs

/-! ## Unions and searches in any order -/

inductive ChainMove where
  | union (a b : String)
  | find (id : String)

def ChainMove.apply (parent : ChainParent) : ChainMove → ChainParent
  | .union a b => unionChain parent a b
  | .find id => (findChainRoot parent id).2

/-- The pairs that are joined. -/
def Joined (moves : List ChainMove) (a b : String) : Prop := .union a b ∈ moves

theorem represents_run (moves : List ChainMove) :
    Represents (up (run ChainMove.apply ∅ moves)) (Joined moves) := by
  induction moves using List.reverseRecOn with
  | nil =>
      refine Lib.Forest.represents_discrete.congr (fun x r => Iff.rfl) fun x y => ?_
      simp [Joined]
  | append_singleton moves move ih =>
      rw [Lib.run_snoc]
      cases move with
      | union a b =>
          refine Represents.unionChain ih fun x y => ?_
          simp [Joined]
      | find id =>
          refine (Represents.findChainRoot ih id).congr (fun _ _ => Iff.rfl) fun x y => ?_
          simp [Joined]

theorem represents_searches {parent : ChainParent} {R : String → String → Prop}
    (h : Represents (up parent) R) (searches : List String) :
    Represents (up (run ChainMove.apply parent (searches.map .find))) R := by
  induction searches generalizing parent with
  | nil => exact h
  | cons id searches ih => exact ih (Represents.findChainRoot h id)

/-- Two searches, one after the other. -/
theorem findChainRoot_eq_iff {parent : ChainParent} {R : String → String → Prop}
    (h : Represents (up parent) R) (a b : String) :
    (findChainRoot parent a).1 = (findChainRoot (findChainRoot parent a).2 b).1 ↔
      Relation.EqvGen R a b := by
  have ha := findChainRoot_hasRoot h.grounded a
  have h' := Represents.findChainRoot h a
  have hb := (hasRoot_findChainRoot h.grounded a b _).1 (findChainRoot_hasRoot h'.grounded b)
  rw [← h.same_iff]
  constructor
  · intro heq
    exact ⟨_, ha, heq ▸ hb⟩
  · rintro ⟨r, hra, hrb⟩
    exact (ha.unique hra).trans (hrb.unique hb)

/-! ## The edges of the builder -/

/-- An edge joins its ends. -/
def moveOf (edge : GraphEdge) : ChainMove := .union edge.source edge.target

/-- Step 1 joins the ends of the edges it draws. -/
theorem chainParent_chainPrecedes (infos : List RecordInfo) (nodes : List GraphNode)
    (d : Derivation) :
    ∃ drawn, (nodes.foldl (chainPrecedes infos true) d).edges = d.edges ++ drawn ∧
      (∀ edge ∈ drawn, edge.type = .chainPrecedes) ∧
      (nodes.foldl (chainPrecedes infos true) d).chainParent =
        run ChainMove.apply d.chainParent (drawn.map moveOf) := by
  induction nodes generalizing d with
  | nil => exact ⟨[], (List.append_nil _).symm, by simp, rfl⟩
  | cons node nodes ih =>
      rw [List.foldl_cons]
      obtain ⟨drawn, hedges, htype, hparent⟩ := ih (chainPrecedes infos true d node)
      have hsame : chainPrecedes infos true d node = d →
          ∃ drawn, (nodes.foldl (chainPrecedes infos true) (chainPrecedes infos true d node)).edges =
              d.edges ++ drawn ∧ (∀ edge ∈ drawn, edge.type = .chainPrecedes) ∧
            (nodes.foldl (chainPrecedes infos true)
              (chainPrecedes infos true d node)).chainParent =
                run ChainMove.apply d.chainParent (drawn.map moveOf) := by
        intro heq
        rw [heq] at hedges hparent ⊢
        exact ⟨drawn, hedges, htype, hparent⟩
      by_cases hskip : (node.isGenesis || node.eventType = .gapNode) = true
      · exact hsame (if_pos hskip)
      · cases hroot : node.chainRoot.filter (· ≠ "") with
        | none => exact hsame (by rw [chainPrecedes, if_neg hskip, hroot])
        | some chainRoot =>
            cases hfound : nodeIdOfHash infos (withoutHashPrefix chainRoot) with
            | none => exact hsame (by simp only [chainPrecedes, if_neg hskip, hroot, hfound])
            | some parentId =>
                have hstep : (chainPrecedes infos true d node).edges =
                      d.edges ++ [⟨.chainPrecedes, parentId, node.id, true, none⟩] ∧
                    (chainPrecedes infos true d node).chainParent =
                      unionChain d.chainParent parentId node.id := by
                  simp only [chainPrecedes, if_neg hskip, hroot, hfound, if_true, and_self]
                refine ⟨⟨.chainPrecedes, parentId, node.id, true, none⟩ :: drawn, ?_, ?_, ?_⟩
                · rw [hedges, hstep.1, List.append_assoc]
                  rfl
                · exact List.forall_mem_cons.2 ⟨rfl, htype⟩
                · rw [hparent, hstep.2]
                  rfl

/-- Joined by an edge, in its direction. -/
def Linked (edges : List GraphEdge) (a b : String) : Prop :=
  ∃ edge ∈ edges, edge.type = .chainPrecedes ∧ edge.source = a ∧ edge.target = b

theorem represents_chainPrecedes (infos : List RecordInfo) (nodes : List GraphNode) :
    Represents (up (nodes.foldl (chainPrecedes infos true) {}).chainParent)
      (Linked (nodes.foldl (chainPrecedes infos true) {}).edges) := by
  obtain ⟨drawn, hedges, htype, hparent⟩ := chainParent_chainPrecedes infos nodes {}
  rw [hparent]
  refine (represents_run _).congr (fun _ _ => Iff.rfl) fun x y => ?_
  rw [hedges]
  simp only [Joined, Linked, List.nil_append, List.mem_map, moveOf, ChainMove.union.injEq]
  exact exists_congr fun edge => ⟨fun ⟨hmem, h⟩ => ⟨hmem, htype edge hmem, h⟩,
    fun ⟨hmem, _, h⟩ => ⟨hmem, h⟩⟩

/-- In whatever order unions and searches are made, two nodes have one root just when the pairs
that are joined connect them, no node is above itself, and a search climbs no further than the
parents there are. So it is with the edges that the builder draws, whatever is searched for
afterwards. -/
theorem findChainRoot_eq_iff_connected :
    (∀ (moves : List ChainMove) (a b : String),
      let parent := run ChainMove.apply ∅ moves
      ((findChainRoot parent a).1 = (findChainRoot (findChainRoot parent a).2 b).1 ↔
        Relation.EqvGen (Joined moves) a b) ∧
      ¬Relation.TransGen (fun x y => up parent x = some y) a a ∧
      up parent (findChainRoot parent a).1 = none ∧
      ∀ steps, parent.size ≤ steps → climb parent steps a = (findChainRoot parent a).1) ∧
    ∀ (infos : List RecordInfo) (nodes : List GraphNode) (searches : List String) (a b : String),
      let d := nodes.foldl (chainPrecedes infos true) {}
      let parent := run ChainMove.apply d.chainParent (searches.map .find)
      (findChainRoot parent a).1 = (findChainRoot (findChainRoot parent a).2 b).1 ↔
        Relation.EqvGen (Linked d.edges) a b := by
  constructor
  · intro moves a b
    have h := represents_run moves
    have hroot := findChainRoot_hasRoot h.grounded a
    refine ⟨findChainRoot_eq_iff h a b, h.grounded.acyclic a, hroot.root, fun steps hsteps => ?_⟩
    exact (climb_hasRoot h.grounded a hsteps).unique hroot
  · intro infos nodes searches a b
    exact findChainRoot_eq_iff (represents_searches (represents_chainPrecedes infos nodes) searches)
      a b

end Atrib.GraphNode
