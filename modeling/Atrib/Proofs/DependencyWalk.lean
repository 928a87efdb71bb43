import Atrib.Verify.EvidenceStatements

/-!
# The walk and the tree

The references of a statement unfold to a tree, which is infinite where they
form a cycle. The walk goes over it with budgets for its depth, its references
and its bytes. It finds nothing to object to just when the tree is finite, within
the budgets and sound, and every relation in it can be read.

The counts are the invariant: a walk that has found nothing has counted the
references and the bytes of the part of the tree it has seen.
-/

namespace Atrib.Verify.EvidenceStatements

open Lib (Effect JsValue sortBy)

variable {E : EvidenceSet}

/-! ## References -/

/-- The references that the walk is after, where their relations can be read. -/
def chosen (E : EvidenceSet) (node : Info) (selectedRelations : List String) : List JsValue :=
  sortBy (fun a b => E.localeCompare (E.jcs a) (E.jcs b)) <| (refs node).filter fun ref =>
    match relationText E ref with
    | .ok relation => selectedRelations.contains relation
    | .error _ => false

/-- Every relation of the references can be converted. -/
def Readable (E : EvidenceSet) (node : Info) : Prop :=
  ∀ ref ∈ refs node, ∃ relation, relationText E ref = .ok relation

theorem filterM_eq_ok {α : Type} {f : α → Except String Bool} {l kept : List α} :
    l.filterM f = .ok kept ↔ (∀ a ∈ l, ∃ b, f a = .ok b) ∧
      kept = l.filter fun a => match f a with
        | .ok b => b
        | .error _ => false := by
  have haux : ∀ acc, List.filterAuxM f l acc = .ok kept.reverse ↔
      (∀ a ∈ l, ∃ b, f a = .ok b) ∧ kept.reverse = (l.filter fun a => match f a with
        | .ok b => b
        | .error _ => false).reverse ++ acc := by
    induction l with
    | nil =>
        intro acc
        simp only [List.filterAuxM, pure, Except.pure, Except.ok.injEq, List.filter_nil,
          List.reverse_nil, List.nil_append]
        exact ⟨fun h => ⟨nofun, h.symm⟩, fun h => h.2.symm⟩
    | cons a l ih =>
        intro acc
        rw [List.filterAuxM, List.forall_mem_cons, List.filter_cons]
        cases hfa : f a with
        | error e => exact iff_of_false nofun fun h => nomatch h.1.1
        | ok b =>
            show List.filterAuxM f l (cond b (a :: acc) acc) = _ ↔ _
            rw [ih]
            cases b <;> simp
  have hrun : l.filterM f = (List.filterAuxM f l []).map List.reverse := by
    rw [List.filterM]
    cases List.filterAuxM f l [] <;> rfl
  have h := haux []
  rw [List.append_nil, List.reverse_inj] at h
  rw [← h, hrun]
  cases List.filterAuxM f l [] with
  | error e => exact iff_of_false nofun nofun
  | ok found =>
      show Except.ok found.reverse = _ ↔ _
      rw [Except.ok.injEq, Except.ok.injEq]
      exact List.reverse_eq_iff

theorem entries_eq_ok {node : Info} {selectedRelations : List String} {found : List JsValue} :
    entries E node selectedRelations = .ok found ↔
      Readable E node ∧ found = chosen E node selectedRelations := by
  have hread : ∀ ref, (∃ b, (do return selectedRelations.contains (← relationText E ref)) =
      (.ok b : Except String Bool)) ↔ ∃ relation, relationText E ref = .ok relation := by
    intro ref
    cases relationText E ref with
    | error e => exact iff_of_false nofun nofun
    | ok relation => exact iff_of_true ⟨_, rfl⟩ ⟨_, rfl⟩
  have hsame : ∀ ref, (match (do return selectedRelations.contains (← relationText E ref) :
      Except String Bool) with
        | .ok b => b
        | .error _ => false) = match relationText E ref with
          | .ok relation => selectedRelations.contains relation
          | .error _ => false := by
    intro ref
    cases relationText E ref <;> rfl
  rw [entries, Lib.bind_eq_ok]
  simp only [filterM_eq_ok, hread, hsame]
  constructor
  · rintro ⟨kept, ⟨hreadable, rfl⟩, hfound⟩
    exact ⟨hreadable, (Except.ok.inj hfound).symm⟩
  · rintro ⟨hreadable, rfl⟩
    exact ⟨_, ⟨hreadable, rfl⟩, rfl⟩

/-! ## The tree -/

/-- The references of a node, each with what is under it. -/
inductive RefForest
  | nil
  | artifact (ref : JsValue) (bytes : Bytes) (rest : RefForest)
  | record (ref : JsValue) (linked : Info) (below rest : RefForest)

/-- What the references unfold to. -/
inductive Unfolds (E : EvidenceSet) : List JsValue → RefForest → Prop
  | nil : Unfolds E [] .nil
  | artifact {ref : JsValue} {refs : List JsValue} {hash : String} {bytes : Bytes}
      {rest : RefForest} (hartifact : isArtifact ref = true) (hhash : hashText E ref = .ok hash)
      (hbytes : E.artifacts.get? hash = some bytes) (hrest : Unfolds E refs rest) :
      Unfolds E (ref :: refs) (.artifact ref bytes rest)
  | record {ref : JsValue} {refs : List JsValue} {hash : String} {linked : Info}
      {below rest : RefForest} (hrecord : isArtifact ref = false)
      (hhash : hashText E ref = .ok hash) (hlinked : E.byHash.get? hash = some linked)
      (hbelow : Unfolds E (chosen E linked followed) below) (hrest : Unfolds E refs rest) :
      Unfolds E (ref :: refs) (.record ref linked below rest)

namespace RefForest

def count : RefForest → ℕ
  | nil => 0
  | artifact _ _ rest => 1 + rest.count
  | record _ _ below rest => 1 + below.count + rest.count

def bytes : RefForest → ℕ
  | nil => 0
  | artifact _ bytes rest => bytes.length + rest.bytes
  | record _ _ below rest => below.bytes + rest.bytes

def depth : RefForest → ℕ
  | nil => 0
  | artifact _ _ rest => rest.depth
  | record _ _ below rest => max (below.depth + 1) rest.depth

/-- No record is on the path to it, which `path` is the start of. -/
def NoRepeat : RefForest → List String → Prop
  | nil, _ => True
  | artifact _ _ rest, path => rest.NoRepeat path
  | record _ linked below rest, path =>
      linked.hash ∉ path ∧ below.NoRepeat (path ++ [linked.hash]) ∧ rest.NoRepeat path

/-- Artifacts of a size and with the hash that is referred to, and records of integrity. -/
def Sound (E : EvidenceSet) : RefForest → Prop
  | nil => True
  | artifact ref bytes rest => bytes.length ≤ 1048576 ∧
      (JsValue.string (E.bytesHash bytes)).strictEq (ref.member "hash") = true ∧ rest.Sound E
  | record _ linked below rest => linked.integrity = .supported ∧ below.Sound E ∧ rest.Sound E

/-- Every relation in the tree can be converted. -/
def AllReadable (E : EvidenceSet) : RefForest → Prop
  | nil => True
  | artifact _ _ rest => rest.AllReadable E
  | record _ linked below rest => Readable E linked ∧ below.AllReadable E ∧ rest.AllReadable E

end RefForest

/-- References unfold to one tree only. -/
theorem Unfolds.unique {refs : List JsValue} {f g : RefForest} (hf : Unfolds E refs f)
    (hg : Unfolds E refs g) : f = g := by
  induction hf generalizing g with
  | nil =>
      cases hg
      rfl
  | artifact hartifact hhash hbytes _ ih =>
      cases hg with
      | artifact _ hhash' hbytes' hrest =>
          obtain rfl := Except.ok.inj (hhash.symm.trans hhash')
          obtain rfl := Option.some.inj (hbytes.symm.trans hbytes')
          rw [ih hrest]
      | record hrecord => exact absurd (hartifact.symm.trans hrecord) (by decide)
  | record hrecord hhash hlinked _ _ ihbelow ih =>
      cases hg with
      | artifact hartifact => exact absurd (hartifact.symm.trans hrecord) (by decide)
      | record _ hhash' hlinked' hbelow hrest =>
          obtain rfl := Except.ok.inj (hhash.symm.trans hhash')
          obtain rfl := Option.some.inj (hlinked.symm.trans hlinked')
          rw [ihbelow hbelow, ih hrest]

/-! ## One reference -/

/-- The reference is to bytes with another hash, or to a record that is rejected. -/
def Bad (E : EvidenceSet) (ref : JsValue) : Prop :=
  ∃ hash, hashText E ref = .ok hash ∧
    ((isArtifact ref = true ∧ ∃ bytes, E.artifacts.get? hash = some bytes ∧
        (JsValue.string (E.bytesHash bytes)).strictEq (ref.member "hash") = false) ∨
      (isArtifact ref = false ∧ ∃ linked, E.byHash.get? hash = some linked ∧
        linked.integrity = .rejected))

/-- What a visit can come to. -/
inductive Visited (E : EvidenceSet) (next : Info → Effect Walk Unit) (ref : JsValue) (s : Walk) :
    Except String Bool × Walk → Prop
  | failed (goOn : Bool) (bytesSeen : ℕ) (failure : EvidenceDimension)
      (hcount : goOn = true → s.count + 1 ≤ 256) (hbad : failure.state = .rejected → Bad E ref) :
      Visited E next ref s (.ok goOn, ⟨s.count + 1, bytesSeen, s.failures ++ [failure]⟩)
  | thrown (error : String) :
      Visited E next ref s (.error error, { s with count := s.count + 1 })
  | held (hash : String) (bytes : Bytes) (hcount : s.count + 1 ≤ 256)
      (hseen : s.bytesSeen + bytes.length ≤ 16777216) (hartifact : isArtifact ref = true)
      (hhash : hashText E ref = .ok hash) (hbytes : E.artifacts.get? hash = some bytes)
      (hlength : bytes.length ≤ 1048576)
      (hsame : (JsValue.string (E.bytesHash bytes)).strictEq (ref.member "hash") = true) :
      Visited E next ref s
        (.ok true, ⟨s.count + 1, s.bytesSeen + bytes.length, s.failures⟩)
  | linked (hash : String) (linked : Info) (hcount : s.count + 1 ≤ 256)
      (hrecord : isArtifact ref = false) (hhash : hashText E ref = .ok hash)
      (hlinked : E.byHash.get? hash = some linked) (hsupported : linked.integrity = .supported) :
      Visited E next ref s ((next linked >>= fun _ => pure true) { s with count := s.count + 1 })

theorem visited (next : Info → Effect Walk Unit) (ref : JsValue) (s : Walk) :
    Visited E next ref s (visit E next ref s) := by
  unfold visit
  simp only
  split
  · exact .failed false s.bytesSeen _ nofun nofun
  next hcount =>
  have hcount := not_lt.1 hcount
  split
  · exact .thrown _
  next hash hhash =>
  split
  · next hartifact =>
      split
      · exact .failed true s.bytesSeen _ (fun _ => hcount) nofun
      next bytes hbytes =>
      split
      · exact .failed false _ _ nofun nofun
      next hseen =>
      unfold artifactBytes
      by_cases hlength : 1048576 < bytes.length
      · rw [if_pos hlength]
        exact .failed true _ _ (fun _ => hcount) nofun
      rw [if_neg hlength]
      simp only
      split
      · next hsame =>
          exact .held hash bytes hcount (not_lt.1 hseen) hartifact hhash hbytes (not_lt.1 hlength)
            hsame
      · next hsame =>
          exact .failed true _ _ (fun _ => hcount) fun _ =>
            ⟨hash, hhash, .inl ⟨hartifact, bytes, hbytes, by simpa using hsame⟩⟩
  · next hrecord =>
      have hrecord : isArtifact ref = false := by simpa using hrecord
      split
      · exact .failed true s.bytesSeen _ (fun _ => hcount) nofun
      next linked hlinked =>
      split
      · exact .failed true s.bytesSeen _ (fun _ => hcount) nofun
      next hunresolved =>
      split
      · next hrejected =>
          exact .failed true s.bytesSeen _ (fun _ => hcount) fun _ =>
            ⟨hash, hhash, .inr ⟨hrecord, linked, hlinked, hrejected⟩⟩
      next hrejected =>
      refine .linked hash linked hcount hrecord hhash hlinked ?_
      exact linked.integrity_mem.resolve_right (not_or.2 ⟨hrejected, hunresolved⟩)

theorem walkRefs_cons (next : Info → Effect Walk Unit) (ref : JsValue) (refs : List JsValue)
    (s : Walk) : walkRefs E next (ref :: refs) s = match visit E next ref s with
      | (.ok true, s') => walkRefs E next refs s'
      | (.ok false, s') => (.ok (), s')
      | (.error error, s') => (.error error, s') := by
  rw [walkRefs]
  rcases Effect.cases_on (visit E next ref) s with ⟨goOn, s', hok⟩ | ⟨error, s', herror⟩
  · rw [Effect.bind_of_ok hok, hok]
    cases goOn <;> rfl
  · rw [Effect.bind_of_error herror, herror]

theorem walkRefs_cons_of_ok {next : Info → Effect Walk Unit} {ref : JsValue} {refs : List JsValue}
    {s s' : Walk} (h : visit E next ref s = (.ok true, s')) :
    walkRefs E next (ref :: refs) s = walkRefs E next refs s' := by
  rw [walkRefs_cons, h]

theorem walk_succ_of_mem {room : ℕ} {node : Info} {path selectedRelations : List String}
    (h : node.hash ∈ path) (s : Walk) : walk E room node path selectedRelations s =
      (.ok (), s.fail (dim .unresolved (some "dependency_cycle"))) := by
  unfold walk
  rw [if_pos (List.contains_iff_mem.2 h)]

theorem walk_zero {node : Info} {path selectedRelations : List String} (h : node.hash ∉ path)
    (s : Walk) : walk E 0 node path selectedRelations s =
      (.ok (), s.fail (dim .unresolved (some "resource_limit"))) := by
  unfold walk
  rw [if_neg (by simpa using h)]

theorem walk_succ {room : ℕ} {node : Info} {path selectedRelations : List String}
    (h : node.hash ∉ path) (s : Walk) : walk E (room + 1) node path selectedRelations s =
      match entries E node selectedRelations with
      | .error error => (.error error, s)
      | .ok found =>
          walkRefs E (fun linked => walk E room linked (path ++ [node.hash]) followed) found s := by
  have hfresh : ¬path.contains node.hash = true := by simpa using h
  rw [walk]
  exact if_neg hfresh

/-! ## References counted -/

theorem count_walkRefs {next : Info → Effect Walk Unit} {room : ℕ}
    (hnext : ∀ linked s, s.count ≤ 256 → (next linked s).2.count ≤ 256 + room) :
    ∀ (refs : List JsValue) (s : Walk), s.count ≤ 256 + room →
      (walkRefs E next refs s).2.count ≤ 256 + (room + 1)
  | [], s, h => h.trans (by omega)
  | ref :: refs, s, h => by
      have hvisited := visited (E := E) next ref s
      rw [walkRefs_cons]
      generalize visit E next ref s = result at hvisited ⊢
      cases hvisited with
      | failed goOn bytesSeen failure hcount hbad =>
          cases goOn with
          | false =>
              show s.count + 1 ≤ 256 + (room + 1)
              omega
          | true => exact count_walkRefs hnext refs _ ((hcount rfl).trans (by omega))
      | thrown error =>
          show s.count + 1 ≤ 256 + (room + 1)
          omega
      | held hash bytes hcount => exact count_walkRefs hnext refs _ (hcount.trans (by omega))
      | linked hash linked hcount =>
          -- what the walk below has counted is under the bound of one level less
          have hbelow := hnext linked { s with count := s.count + 1 } hcount
          rcases Effect.cases_on (next linked) { s with count := s.count + 1 } with
            ⟨u, s', hok⟩ | ⟨error, s', herror⟩
          · rw [hok] at hbelow
            rw [Effect.bind_of_ok hok]
            exact count_walkRefs hnext refs s' hbelow
          · rw [herror] at hbelow
            rw [Effect.bind_of_error herror]
            exact hbelow.trans (by omega)

/-- One reference more than the limit at most for each level of the path. -/
theorem count_walk (room : ℕ) (node : Info) (path selectedRelations : List String) (s : Walk)
    (h : s.count ≤ 256) : (walk E room node path selectedRelations s).2.count ≤ 256 + room := by
  induction room generalizing node path selectedRelations s with
  | zero =>
      by_cases hmem : node.hash ∈ path
      · rw [walk_succ_of_mem hmem]
        exact h
      · rw [walk_zero hmem]
        exact h
  | succ room ih =>
      by_cases hmem : node.hash ∈ path
      · rw [walk_succ_of_mem hmem]
        exact h.trans (by omega)
      rw [walk_succ hmem]
      cases entries E node selectedRelations with
      | error error => exact h.trans (by omega)
      | ok found =>
          exact count_walkRefs (fun linked s hs => ih linked _ _ s hs) found s (h.trans (by omega))

/-! ## Failures -/

/-- Failures have been added, and a rejected one with a reason. -/
def Adds (reason : Prop) (s s' : Walk) : Prop :=
  ∃ more, s'.failures = s.failures ++ more ∧ ∀ failure ∈ more, failure.state = .rejected → reason

theorem Adds.refl (reason : Prop) {s s' : Walk} (h : s'.failures = s.failures) :
    Adds reason s s' := ⟨[], by rw [h, List.append_nil], nofun⟩

theorem Adds.trans {reason : Prop} {s s' s'' : Walk} (h : Adds reason s s')
    (h' : Adds reason s' s'') : Adds reason s s'' := by
  obtain ⟨more, hmore, hreason⟩ := h
  obtain ⟨more', hmore', hreason'⟩ := h'
  refine ⟨more ++ more', by rw [hmore', hmore, List.append_assoc], fun failure hfailure => ?_⟩
  exact (List.mem_append.1 hfailure).elim (hreason failure) (hreason' failure)

theorem Adds.eq_nil {reason : Prop} {s s' : Walk} (h : Adds reason s s')
    (hnil : s'.failures = []) : s.failures = [] := by
  obtain ⟨more, hmore, -⟩ := h
  exact (List.append_eq_nil_iff.1 (hmore.symm.trans hnil)).1

/-- The record that a reference leads on to. -/
def LeadsTo (E : EvidenceSet) (ref : JsValue) (linked : Info) : Prop :=
  isArtifact ref = false ∧ ∃ hash, hashText E ref = .ok hash ∧ E.byHash.get? hash = some linked ∧
    linked.integrity = .supported

theorem adds_walkRefs {next : Info → Effect Walk Unit} {reason : Prop} :
    ∀ (refs : List JsValue) (s : Walk), (∀ ref ∈ refs, (Bad E ref → reason) ∧
      ∀ linked, LeadsTo E ref linked → ∀ s, Adds reason s (next linked s).2) →
      Adds reason s (walkRefs E next refs s).2
  | [], s, _ => .refl reason rfl
  | ref :: refs, s, h => by
      obtain ⟨⟨hbad, hlead⟩, hrefs⟩ := List.forall_mem_cons.1 h
      have hvisited := visited (E := E) next ref s
      rw [walkRefs_cons]
      generalize visit E next ref s = result at hvisited ⊢
      cases hvisited with
      | failed goOn bytesSeen failure hcount hfailure =>
          have hadds : Adds reason s ⟨s.count + 1, bytesSeen, s.failures ++ [failure]⟩ := by
            refine ⟨[failure], rfl, fun other hother hrejected => ?_⟩
            rw [List.mem_singleton.1 hother] at hrejected
            exact hbad (hfailure hrejected)
          cases goOn with
          | false => exact hadds
          | true => exact hadds.trans (adds_walkRefs refs _ hrefs)
      | thrown error => exact .refl reason rfl
      | held => exact (Adds.refl reason rfl).trans (adds_walkRefs refs _ hrefs)
      | linked hash linked hcount hrecord hhash hlinked hsupported =>
          have hbelow := hlead linked ⟨hrecord, hash, hhash, hlinked, hsupported⟩
            { s with count := s.count + 1 }
          have hstart : Adds reason s { s with count := s.count + 1 } := .refl reason rfl
          rcases Effect.cases_on (next linked) { s with count := s.count + 1 } with
            ⟨u, s', hok⟩ | ⟨error, s', herror⟩
          · rw [hok] at hbelow
            rw [Effect.bind_of_ok hok]
            exact hstart.trans (hbelow.trans (adds_walkRefs refs s' hrefs))
          · rw [herror] at hbelow
            rw [Effect.bind_of_error herror]
            exact hstart.trans hbelow

theorem adds_walk {reason : Prop} {P : JsValue → Prop} (hbad : ∀ ref, P ref → Bad E ref → reason)
    (hlead : ∀ ref linked, P ref → LeadsTo E ref linked → ∀ ref' ∈ chosen E linked followed, P ref')
    (room : ℕ) (node : Info) (path selectedRelations : List String) (s : Walk)
    (hnode : ∀ ref ∈ chosen E node selectedRelations, P ref) :
    Adds reason s (walk E room node path selectedRelations s).2 := by
  have hfail : ∀ (s : Walk) reasonText,
      Adds reason s (s.fail (dim .unresolved (some reasonText))) := fun s _ =>
    ⟨[_], rfl, fun failure hfailure hrejected => by
      rw [List.mem_singleton.1 hfailure] at hrejected
      cases hrejected⟩
  induction room generalizing node path selectedRelations s with
  | zero =>
      by_cases hmem : node.hash ∈ path
      · rw [walk_succ_of_mem hmem]
        exact hfail s _
      · rw [walk_zero hmem]
        exact hfail s _
  | succ room ih =>
      by_cases hmem : node.hash ∈ path
      · rw [walk_succ_of_mem hmem]
        exact hfail s _
      rw [walk_succ hmem]
      cases hentries : entries E node selectedRelations with
      | error error => exact .refl reason rfl
      | ok found =>
          obtain ⟨-, rfl⟩ := entries_eq_ok.1 hentries
          refine adds_walkRefs _ s fun ref href => ⟨hbad ref (hnode ref href), ?_⟩
          intro linked hlinked s
          exact ih linked _ _ s (hlead ref linked (hnode ref href) hlinked)

/-- A walk only adds to the failures. -/
theorem grows_walk (room : ℕ) (node : Info) (path selectedRelations : List String) (s : Walk) :
    Adds True s (walk E room node path selectedRelations s).2 :=
  adds_walk (P := fun _ => True) (fun _ _ _ => trivial) (fun _ _ _ _ _ _ => trivial) room node path
    selectedRelations s fun _ _ => trivial

theorem grows_walkRefs (room : ℕ) (path : List String) (refs : List JsValue) (s : Walk) :
    Adds True s (walkRefs E (fun linked => walk E room linked path followed) refs s).2 :=
  adds_walkRefs refs s fun _ _ => ⟨fun _ => trivial, fun linked _ s => grows_walk room linked _ _ s⟩

/-! ## The walk over a tree -/

/-- The tree of some references is within what is left of the budgets. -/
structure Fits (E : EvidenceSet) (f : RefForest) (path : List String) (room : ℕ) (s : Walk) :
    Prop where
  noRepeat : f.NoRepeat path
  depth : f.depth ≤ room
  count : s.count + f.count ≤ 256
  bytes : s.bytesSeen + f.bytes ≤ 16777216
  sound : f.Sound E
  readable : f.AllReadable E

/-- The walk has counted a tree, and has found nothing. -/
def Walk.seen (s : Walk) (f : RefForest) : Walk :=
  ⟨s.count + f.count, s.bytesSeen + f.bytes, s.failures⟩

theorem visit_artifact {next : Info → Effect Walk Unit} {ref : JsValue} {s : Walk} {hash : String}
    {bytes : Bytes} (hcount : s.count + 1 ≤ 256) (hseen : s.bytesSeen + bytes.length ≤ 16777216)
    (hartifact : isArtifact ref = true) (hhash : hashText E ref = .ok hash)
    (hbytes : E.artifacts.get? hash = some bytes) (hlength : bytes.length ≤ 1048576)
    (hsame : (JsValue.string (E.bytesHash bytes)).strictEq (ref.member "hash") = true) :
    visit E next ref s = (.ok true, ⟨s.count + 1, s.bytesSeen + bytes.length, s.failures⟩) := by
  simp only [visit, if_neg (not_lt.2 hcount), hhash, if_pos hartifact, hbytes,
    if_neg (not_lt.2 hseen), artifactBytes, if_neg (not_lt.2 hlength), if_pos hsame]

theorem visit_record {next : Info → Effect Walk Unit} {ref : JsValue} {s s' : Walk} {hash : String}
    {linked : Info} (hcount : s.count + 1 ≤ 256) (hrecord : isArtifact ref = false)
    (hhash : hashText E ref = .ok hash) (hlinked : E.byHash.get? hash = some linked)
    (hsupported : linked.integrity = .supported)
    (hnext : next linked { s with count := s.count + 1 } = (.ok (), s')) :
    visit E next ref s = (.ok true, s') := by
  simp only [visit, if_neg (not_lt.2 hcount), hhash, hrecord, hlinked, hsupported]
  exact Effect.bind_of_ok hnext

/-- A tree that fits is walked without a failure. -/
theorem walkRefs_of_fits {refs : List JsValue} {f : RefForest} (hf : Unfolds E refs f)
    {path : List String} {room : ℕ} {s : Walk} (h : Fits E f path room s) :
    walkRefs E (fun linked => walk E room linked path followed) refs s = (.ok (), s.seen f) := by
  induction hf generalizing path room s with
  | nil => rfl
  | @artifact ref refs hash bytes rest hartifact hhash hbytes hrest ih =>
      obtain ⟨hlength, hsame, hsound⟩ := h.sound
      have hcount := h.count
      have hseen := h.bytes
      simp only [RefForest.count, RefForest.bytes] at hcount hseen
      rw [walkRefs_cons_of_ok
        (visit_artifact (by omega) (by omega) hartifact hhash hbytes hlength hsame)]
      have hfits : Fits E rest path room ⟨s.count + 1, s.bytesSeen + bytes.length, s.failures⟩ :=
        ⟨h.noRepeat, h.depth, by simpa only [Nat.add_assoc] using hcount,
          by simpa only [Nat.add_assoc] using hseen, hsound, h.readable⟩
      rw [ih hfits, Walk.seen, Walk.seen, RefForest.count, RefForest.bytes]
      simp only [Nat.add_assoc]
  | @record ref refs hash linked below rest hrecord hhash hlinked hbelow hrest ihbelow ih =>
      obtain ⟨hfresh, hbelowRepeat, hrestRepeat⟩ := h.noRepeat
      obtain ⟨hsupported, hbelowSound, hrestSound⟩ := h.sound
      obtain ⟨hreadable, hbelowReadable, hrestReadable⟩ := h.readable
      have hcount := h.count
      have hseen := h.bytes
      have hdepth := h.depth
      simp only [RefForest.count, RefForest.bytes, RefForest.depth] at hcount hseen hdepth
      obtain ⟨room, rfl⟩ : ∃ room', room = room' + 1 := ⟨room - 1, by omega⟩
      -- the walk below starts with the reference counted
      have hwalk : walk E (room + 1) linked path followed { s with count := s.count + 1 } =
          (.ok (), Walk.seen { s with count := s.count + 1 } below) := by
        rw [walk_succ hfresh, entries_eq_ok.2 ⟨hreadable, rfl⟩]
        exact ihbelow ⟨hbelowRepeat, by omega, by simp only; omega, by simp only; omega, hbelowSound,
          hbelowReadable⟩
      rw [walkRefs_cons_of_ok
        (visit_record (by omega) hrecord hhash hlinked hsupported hwalk)]
      have hfits : Fits E rest path (room + 1)
          (Walk.seen { s with count := s.count + 1 } below) :=
        ⟨hrestRepeat, by omega, by simp only [Walk.seen]; omega, by simp only [Walk.seen]; omega,
          hrestSound, hrestReadable⟩
      rw [ih hfits, Walk.seen, Walk.seen, Walk.seen, RefForest.count, RefForest.bytes]
      simp only [Nat.add_assoc]

/-! ## The tree of a walk -/

/-- What a walk over references that has found nothing says. -/
def Explored (E : EvidenceSet) (refs : List JsValue) (path : List String) (room : ℕ)
    (s s' : Walk) : Prop :=
  ∃ f, Unfolds E refs f ∧ (s.count ≤ 256 → s.bytesSeen ≤ 16777216 → Fits E f path room s) ∧
    s' = s.seen f

theorem explored_nil (path : List String) (room : ℕ) (s : Walk) : Explored E [] path room s s :=
  ⟨.nil, .nil, fun hcount hbytes => ⟨trivial, Nat.zero_le _, hcount, hbytes, trivial, trivial⟩, rfl⟩

theorem explored_walkRefs {room : ℕ} {path : List String}
    (hnext : ∀ linked s s', walk E room linked path followed s = (.ok (), s') → s'.failures = [] →
      linked.hash ∉ path ∧ Readable E linked ∧ ∃ room', room = room' + 1 ∧
        Explored E (chosen E linked followed) (path ++ [linked.hash]) room' s s') :
    ∀ (refs : List JsValue) (s s' : Walk),
      walkRefs E (fun linked => walk E room linked path followed) refs s = (.ok (), s') →
        s'.failures = [] → Explored E refs path room s s'
  | [], s, s', h, _ => by
      obtain rfl : s = s' := congrArg Prod.snd h
      exact explored_nil path room s
  | ref :: refs, s, s', h, hnil => by
      have hvisited := visited (E := E) (fun linked => walk E room linked path followed) ref s
      have hrefs := fun t : Walk => grows_walkRefs (E := E) room path refs t
      rw [walkRefs_cons] at h
      generalize visit E (fun linked => walk E room linked path followed) ref s = result
        at hvisited h
      cases hvisited with
      | failed goOn bytesSeen failure hcount hbad =>
          -- a failure stays
          have hsome : s.failures ++ [failure] ≠ [] := List.concat_ne_nil _ _
          cases goOn with
          | false =>
              obtain rfl := congrArg Prod.snd h
              exact absurd hnil hsome
          | true =>
              have hgrows := hrefs ⟨s.count + 1, bytesSeen, s.failures ++ [failure]⟩
              simp only at h
              rw [h] at hgrows
              exact absurd (hgrows.eq_nil hnil) hsome
      | thrown error => cases h
      | held hash bytes hcount hseen hartifact hhash hbytes hlength hsame =>
          obtain ⟨rest, hrest, hfits, rfl⟩ := explored_walkRefs hnext refs _ s' h hnil
          refine ⟨.artifact ref bytes rest, .artifact hartifact hhash hbytes hrest, fun _ _ => ?_, ?_⟩
          · obtain ⟨hrepeat, hdepth, hcount, hseen, hsound, hreadable⟩ := hfits hcount hseen
            simp only [Nat.add_assoc] at hcount hseen
            exact ⟨hrepeat, hdepth, hcount, hseen, ⟨hlength, hsame, hsound⟩, hreadable⟩
          · simp only [Walk.seen, RefForest.count, RefForest.bytes, Nat.add_assoc]
      | linked hash linked hcount hrecord hhash hlinked hsupported =>
          rcases Effect.cases_on (walk E room linked path followed)
            { s with count := s.count + 1 } with ⟨u, t, hok⟩ | ⟨error, t, herror⟩
          · rw [Effect.bind_of_ok hok] at h
            have h : walkRefs E _ refs t = (.ok (), s') := h
            have hgrows := hrefs t
            rw [h] at hgrows
            obtain ⟨hfresh, hreadable, room', rfl, below, hbelow, hfitsBelow, rfl⟩ :=
              hnext linked _ t hok (hgrows.eq_nil hnil)
            obtain ⟨rest, hrest, hfits, rfl⟩ := explored_walkRefs hnext refs _ s' h hnil
            refine ⟨.record ref linked below rest, .record hrecord hhash hlinked hbelow hrest,
              fun _ hseen => ?_, ?_⟩
            · obtain ⟨hrepeat', hdepth', hcount', hseen', hsound', hreadable'⟩ :=
                hfitsBelow hcount hseen
              obtain ⟨hrepeat, hdepth, hcount, hseen, hsound, hreadable⟩ := hfits hcount' hseen'
              simp only [Walk.seen] at hcount hseen
              refine ⟨⟨hfresh, hrepeat', hrepeat⟩, ?_, ?_, ?_, ⟨hsupported, hsound', hsound⟩,
                ⟨‹_›, hreadable', hreadable⟩⟩
              · simp only [RefForest.depth]
                omega
              · simp only [RefForest.count]
                omega
              · simp only [RefForest.bytes]
                omega
            · simp only [Walk.seen, RefForest.count, RefForest.bytes, Nat.add_assoc]
          · rw [Effect.bind_of_error herror] at h
            cases h

theorem explored_walk (room : ℕ) (node : Info) (path selectedRelations : List String) (s s' : Walk)
    (h : walk E room node path selectedRelations s = (.ok (), s')) (hnil : s'.failures = []) :
    node.hash ∉ path ∧ Readable E node ∧ ∃ room', room = room' + 1 ∧
      Explored E (chosen E node selectedRelations) (path ++ [node.hash]) room' s s' := by
  have hfail : ∀ reason, s.fail (dim .unresolved (some reason)) ≠ s' := by
    rintro reason rfl
    exact List.concat_ne_nil _ _ hnil
  have hfresh : node.hash ∉ path := fun hmem => by
    rw [walk_succ_of_mem hmem] at h
    exact hfail _ (congrArg Prod.snd h)
  induction room generalizing node path selectedRelations s s' with
  | zero =>
      rw [walk_zero hfresh] at h
      exact absurd (congrArg Prod.snd h) (hfail _)
  | succ room ih =>
      rw [walk_succ hfresh] at h
      cases hentries : entries E node selectedRelations with
      | error error =>
          rw [hentries] at h
          cases h
      | ok found =>
          obtain ⟨hreadable, rfl⟩ := entries_eq_ok.1 hentries
          rw [hentries] at h
          refine ⟨hfresh, hreadable, room, rfl, explored_walkRefs (fun linked t t' ht hnil' => ?_) _
            s s' h hnil⟩
          have hfail' : ∀ reason, t.fail (dim .unresolved (some reason)) ≠ t' := by
            rintro reason rfl
            exact List.concat_ne_nil _ _ hnil'
          refine ih linked _ _ t t' ht hnil' hfail' fun hmem => ?_
          rw [walk_succ_of_mem hmem] at ht
          exact hfail' _ (congrArg Prod.snd ht)

/-! ## What is resolved -/

/-- The tree of the references of a statement is finite, within the budgets and sound. -/
structure Supports (E : EvidenceSet) (info : Info) (relations : List String) (f : RefForest) :
    Prop where
  unfolds : Unfolds E (chosen E info relations) f
  noRepeat : f.NoRepeat [info.hash]
  depth : f.depth ≤ 32
  count : f.count ≤ 256
  bytes : f.bytes ≤ 16777216
  sound : f.Sound E

theorem Supports.unique {info : Info} {relations : List String} {f g : RefForest}
    (hf : Supports E info relations f) (hg : Supports E info relations g) : f = g :=
  hf.unfolds.unique hg.unfolds

theorem dependencyWalk_eq_ok_iff (info : Info) (relations : List String) :
    (∃ s, dependencyWalk E info relations = (.ok (), s) ∧ s.failures = []) ↔
      ∃ f, Supports E info relations f ∧ Readable E info ∧ f.AllReadable E := by
  constructor
  · rintro ⟨s, h, hnil⟩
    obtain ⟨-, hreadable, room, hroom, f, hf, hfits, -⟩ := explored_walk 33 info [] relations {} s h hnil
    obtain rfl : room = 32 := by omega
    obtain ⟨hrepeat, hdepth, hcount, hbytes, hsound, hbelow⟩ :=
      hfits (Nat.zero_le _) (Nat.zero_le _)
    rw [Nat.zero_add] at hcount hbytes
    exact ⟨f, ⟨hf, hrepeat, hdepth, hcount, hbytes, hsound⟩, hreadable, hbelow⟩
  · rintro ⟨f, ⟨hf, hrepeat, hdepth, hcount, hbytes, hsound⟩, hreadable, hbelow⟩
    refine ⟨Walk.seen {} f, ?_, rfl⟩
    rw [dependencyWalk, walk_succ List.not_mem_nil, entries_eq_ok.2 ⟨hreadable, rfl⟩]
    refine walkRefs_of_fits hf ⟨hrepeat, hdepth, ?_, ?_, hsound, hbelow⟩
    · simpa using hcount
    · simpa using hbytes

theorem dependencies_eq_ok {info : Info} {relations : List String} {d : EvidenceDimension} :
    dependencies E info relations = .ok d ↔ ∃ s, dependencyWalk E info relations = (.ok (), s) ∧
      d = if s.failures = [] then dim .supported
        else
          { state := if s.failures.any (·.state = .rejected) then .rejected else .unresolved
            basis := []
            reasons := sortedSet (s.failures.flatMap (·.reasons)) } := by
  rw [dependencies]
  rcases dependencyWalk E info relations with ⟨error | u, s⟩
  · exact iff_of_false nofun fun ⟨_, h, _⟩ => nomatch h
  · simp only [Prod.mk.injEq, true_and, exists_eq_left']
    split
    · rw [Except.ok.injEq, eq_comm]
    · rw [Except.ok.injEq, eq_comm]

theorem dependencies_supported_iff (info : Info) (relations : List String) :
    (∃ d, dependencies E info relations = .ok d ∧ d.state = .supported) ↔
      ∃ f, Supports E info relations f ∧ Readable E info ∧ f.AllReadable E := by
  rw [← dependencyWalk_eq_ok_iff]
  simp only [dependencies_eq_ok]
  constructor
  · rintro ⟨d, ⟨s, hwalk, rfl⟩, hstate⟩
    refine ⟨s, hwalk, ?_⟩
    by_contra hsome
    rw [if_neg hsome] at hstate
    simp only at hstate
    split at hstate <;> cases hstate
  · rintro ⟨s, hwalk, hnil⟩
    exact ⟨_, ⟨s, hwalk, rfl⟩, by rw [if_pos hnil]; rfl⟩

/-- The references that the walk from a statement can come to. -/
inductive Reaches (E : EvidenceSet) (info : Info) (relations : List String) : JsValue → Prop
  | first {ref : JsValue} (href : ref ∈ chosen E info relations) : Reaches E info relations ref
  | next {ref ref' : JsValue} {linked : Info} (href : Reaches E info relations ref)
      (hlinked : LeadsTo E ref linked) (href' : ref' ∈ chosen E linked followed) :
      Reaches E info relations ref'

theorem bad_of_rejected {info : Info} {relations : List String} {d : EvidenceDimension}
    (h : dependencies E info relations = .ok d) (hstate : d.state = .rejected) :
    ∃ ref, Reaches E info relations ref ∧ Bad E ref := by
  have hadds : Adds (∃ ref, Reaches E info relations ref ∧ Bad E ref) {}
      (dependencyWalk E info relations).2 :=
    adds_walk (P := Reaches E info relations) (fun ref href hbad => ⟨ref, href, hbad⟩)
      (fun ref linked href hlinked ref' href' => .next href hlinked href') 33 info [] relations {}
      fun ref href => .first href
  obtain ⟨s, hwalk, rfl⟩ := dependencies_eq_ok.1 h
  obtain ⟨more, hmore, hreason⟩ := hadds
  rw [hwalk] at hmore
  have hsome : s.failures ≠ [] := fun hnil => by
    rw [if_pos hnil] at hstate
    cases hstate
  rw [if_neg hsome] at hstate
  simp only at hstate
  split at hstate
  · next hany =>
      obtain ⟨failure, hfailure, hrejected⟩ := List.any_eq_true.1 hany
      have hmore : s.failures = more := hmore
      exact hreason failure (hmore ▸ hfailure) (of_decide_eq_true hrejected)
  · cases hstate

/-- What is resolved from a statement is exact, and bounded. -/
structure Exact (E : EvidenceSet) (info : Info) (relations : List String) : Prop where
  bounded : (dependencyWalk E info relations).2.count ≤ 256 + 33
  supported : (∃ d, dependencies E info relations = .ok d ∧ d.state = .supported) ↔
    ∃ f, Supports E info relations f
  rejected : ∀ d, dependencies E info relations = .ok d → d.state = .rejected →
    ∃ ref, Reaches E info relations ref ∧ Bad E ref

namespace WalkSample

/-- The opening of a statement whose only reference has an object for its relation. -/
def info : Info where
  hash := "sha256:0"
  body := .object [("basis", .array [.object [("relation", .object [("toString", .string "")])]])]
  integrity := .rejected
  integrity_mem := .inr (.inl rfl)

def evidence : EvidenceSet where
  hash := .fips180
  text := ⟨fun _ => "", fun _ => .nan, fun _ => none⟩
  jcs := fun _ => ""
  localeCompare := fun _ _ => .eq
  infos := [info]
  artifacts := ∅

end WalkSample

end Atrib.Verify.EvidenceStatements
