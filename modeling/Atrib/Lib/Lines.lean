import Mathlib.Data.List.Basic
import Mathlib.Data.List.Infix

/-!
# Texts and their lines

A text is cut where one of the given ends of line stands; of the ends that fit
at a place the first in the list is taken. A reader that looks at a text line
by line and skips blank lines sees no difference between a text cut as a whole
and one cut at some newlines first, provided the newline is an end of line and
part of another end only as its last element, after nothing but ends.
-/

namespace Atrib.Lib.Lines

variable {α : Type*} [DecidableEq α] (ends : List (List α))

/-- The end of line a text begins with. -/
def endAt (text : List α) : Option (List α) := ends.find? (·.isPrefixOf text)

/-- Put an element before the first line. -/
def consHead (c : α) : List (List α) → List (List α)
  | [] => [[c]]
  | line :: lines => (c :: line) :: lines

/-- The lines of a text that begins with the last `skip` elements of an end of
line. -/
def linesFrom : ℕ → List α → List (List α)
  | _, [] => [[]]
  | skip + 1, _ :: text => linesFrom skip text
  | 0, c :: text =>
      match endAt ends (c :: text) with
      | some e => [] :: linesFrom (e.length - 1) text
      | none => consHead c (linesFrom 0 text)

/-- The lines of a text, without their ends. -/
def lines (text : List α) : List (List α) := linesFrom ends 0 text

/-- Every line is blank. -/
def Blank (ls : List (List α)) : Prop := ∀ l ∈ ls, l = []

instance (ls : List (List α)) : Decidable (Blank ls) :=
  inferInstanceAs (Decidable (∀ l ∈ ls, l = []))

/-- No end of line begins anywhere in the text. -/
def OneLine (text : List α) : Prop := ∀ u ∈ text.tails, u = [] ∨ endAt ends u = none

instance (text : List α) : Decidable (OneLine ends text) :=
  inferInstanceAs (Decidable (∀ u ∈ text.tails, u = [] ∨ endAt ends u = none))

/-- What makes a newline a place to cut a text at first. -/
structure Newline (nl : α) : Prop where
  mem : [nl] ∈ ends
  nonempty : [] ∉ ends
  last : ∀ e ∈ ends, nl ∉ e.dropLast ∧ (e.getLast? = some nl → Blank (lines ends e.dropLast))

section Lemmas

variable {ends}

theorem linesFrom_some {c : α} {text e : List α} (h : endAt ends (c :: text) = some e) :
    linesFrom ends 0 (c :: text) = [] :: linesFrom ends (e.length - 1) text := by
  rw [linesFrom, h]

theorem linesFrom_none {c : α} {text : List α} (h : endAt ends (c :: text) = none) :
    linesFrom ends 0 (c :: text) = consHead c (linesFrom ends 0 text) := by
  rw [linesFrom, h]

omit [DecidableEq α] in
theorem consHead_append {c : α} {a b : List (List α)} (ha : a ≠ []) :
    consHead c (a ++ b) = consHead c a ++ b := by
  cases a with
  | nil => exact absurd rfl ha
  | cons line lines => rfl

omit [DecidableEq α] in
theorem consHead_ne_nil (c : α) (a : List (List α)) : consHead c a ≠ [] := by
  cases a <;> simp [consHead]

theorem linesFrom_ne_nil (skip : ℕ) (text : List α) : linesFrom ends skip text ≠ [] := by
  induction text generalizing skip with
  | nil => simp [linesFrom]
  | cons c text ih =>
      cases skip with
      | succ skip => exact ih skip
      | zero =>
          rw [linesFrom]
          split
          · simp
          · exact consHead_ne_nil _ _

theorem linesFrom_skip (u text : List α) : linesFrom ends u.length (u ++ text) = lines ends text := by
  induction u with
  | nil => rfl
  | cons c u ih => exact ih

theorem OneLine.lines_eq {text : List α} (h : OneLine ends text) : lines ends text = [text] := by
  induction text with
  | nil => rfl
  | cons c text ih =>
      have hrest : linesFrom ends 0 text = [text] :=
        ih fun u hu => h u (List.mem_cons_of_mem _ hu)
      have hnone : endAt ends (c :: text) = none :=
        (h _ List.mem_cons_self).resolve_left (by simp)
      rw [lines, linesFrom_none hnone, hrest]
      rfl

theorem endAt_mem {text e : List α} (h : endAt ends text = some e) : e ∈ ends ∧ e <+: text := by
  have hfound := List.find?_some h
  exact ⟨List.mem_of_find?_eq_some h, List.isPrefixOf_iff_prefix.1 hfound⟩

/-- An end of a text at the start of a longer one is the end of the longer one. -/
theorem endAt_of_append {text rest e : List α} (h : endAt ends (text ++ rest) = some e)
    (he : e <+: text) : endAt ends text = some e := by
  rw [endAt, List.find?_eq_some_iff_append] at h ⊢
  obtain ⟨-, before, after, hends, hbefore⟩ := h
  refine ⟨List.isPrefixOf_iff_prefix.2 he, before, after, hends, fun e' he' => ?_⟩
  have hnot := hbefore e' he'
  rw [Bool.not_eq_true', Bool.eq_false_iff, ne_eq, List.isPrefixOf_iff_prefix] at hnot ⊢
  exact fun hpre => hnot (hpre.trans (List.prefix_append text rest))

theorem endAt_eq_none_of_append {text rest : List α} (h : endAt ends (text ++ rest) = none) :
    endAt ends text = none := by
  rw [endAt, List.find?_eq_none] at h ⊢
  intro e he hpre
  refine h e he ?_
  rw [List.isPrefixOf_iff_prefix] at hpre ⊢
  exact hpre.trans (List.prefix_append text rest)

/-- The beginning of one line is one line. -/
theorem OneLine.of_prefix {text u : List α} (h : OneLine ends text) (hu : u <+: text) :
    OneLine ends u := by
  obtain ⟨t, rfl⟩ := hu
  intro v hv
  obtain ⟨w, rfl⟩ := (List.mem_tails _ _).1 hv
  rcases h (v ++ t) ((List.mem_tails _ _).2 ⟨w, by rw [List.append_assoc]⟩) with hnil | hnone
  · exact Or.inl (List.append_eq_nil_iff.1 hnil).1
  · exact Or.inr (endAt_eq_none_of_append hnone)

end Lemmas

namespace Newline

variable {ends} {nl : α} (h : Newline ends nl)

include h

theorem last_eq {w v : List α} (he : w ++ nl :: v ∈ ends) : v = [] ∧ Blank (lines ends w) := by
  obtain ⟨hnot, hblank⟩ := h.last _ he
  cases v with
  | nil => exact ⟨rfl, by simpa using hblank⟩
  | cons c v => exact absurd (by simp [List.dropLast_append_of_ne_nil]) hnot

/-- At a newline the end of line is the newline. -/
theorem endAt_newline (rest : List α) : endAt ends (nl :: rest) = some [nl] := by
  cases hend : endAt ends (nl :: rest) with
  | none =>
      have hnone := List.find?_eq_none.1 hend [nl] h.mem
      simp at hnone
  | some e =>
      obtain ⟨hmem, hpre⟩ := endAt_mem hend
      cases e with
      | nil => exact absurd hmem h.nonempty
      | cons c e =>
          obtain rfl := (List.cons_prefix_cons.1 hpre).1
          rw [(h.last_eq (w := []) hmem).1]

/-- The lines of a text that goes on after a newline are those of the part up
to the newline, but for blank lines at its end, and those of the rest. -/
theorem linesFrom_append (rest : List α) : ∀ {u : List α} {skip : ℕ}, skip ≤ u.length →
    ∃ a b, a ≠ [] ∧ Blank b ∧ linesFrom ends skip u = a ++ b ∧
      linesFrom ends skip (u ++ nl :: rest) = a ++ lines ends rest := by
  intro u
  induction u with
  | nil =>
      intro skip hskip
      obtain rfl : skip = 0 := by simpa using hskip
      refine ⟨[[]], [], by simp, by simp [Blank], by simp [linesFrom], ?_⟩
      simp [linesFrom, h.endAt_newline, lines]
  | cons c u ih =>
      intro skip hskip
      cases skip with
      | succ skip => exact ih (by simpa using hskip)
      | zero =>
          cases hend : endAt ends (c :: (u ++ nl :: rest)) with
          | none =>
              obtain ⟨a, b, ha, hb, hu, hwhole⟩ := ih (Nat.zero_le u.length)
              have hend' : endAt ends (c :: u) = none := endAt_eq_none_of_append hend
              refine ⟨consHead c a, b, consHead_ne_nil c a, hb, ?_, ?_⟩
              · rw [linesFrom_none hend', hu]
                exact consHead_append ha
              · rw [List.cons_append, linesFrom_none hend, hwhole]
                exact consHead_append ha
          | some e =>
              obtain ⟨hmem, hpre⟩ := endAt_mem hend
              by_cases hinside : e <+: c :: u
              · have hlen := hinside.length_le
                rw [List.length_cons] at hlen
                obtain ⟨a, b, -, hb, hu, hwhole⟩ := @ih (e.length - 1) (by omega)
                refine ⟨[] :: a, b, by simp, hb, ?_, ?_⟩
                · rw [linesFrom_some (endAt_of_append hend hinside), hu]
                  rfl
                · rw [List.cons_append, linesFrom_some hend, hwhole]
                  rfl
              · -- the end goes up to the newline, and what is before it there is blank
                obtain ⟨v, rfl⟩ : ∃ v, e = (c :: u) ++ nl :: v := by
                  obtain ⟨w, hw⟩ | ⟨w, hw⟩ := List.prefix_or_prefix_of_prefix hpre
                    (List.prefix_append (c :: u) (nl :: rest))
                  · exact absurd ⟨w, hw⟩ hinside
                  · cases w with
                    | nil => exact absurd ⟨[], by simpa using hw.symm⟩ hinside
                    | cons d w =>
                        rw [← hw] at hpre
                        have hd := (List.prefix_append_right_inj (c :: u)).1 hpre
                        obtain rfl := (List.cons_prefix_cons.1 hd).1
                        exact ⟨w, hw.symm⟩
                obtain ⟨rfl, hblank⟩ := h.last_eq hmem
                obtain ⟨b, hb⟩ : ∃ b, linesFrom ends 0 (c :: u) = [] :: b := by
                  cases hlines : linesFrom ends 0 (c :: u) with
                  | nil => exact absurd hlines (linesFrom_ne_nil 0 _)
                  | cons l b =>
                      have hl := hblank l (by rw [lines, hlines]; exact List.mem_cons_self)
                      exact ⟨b, by rw [hl]⟩
                refine ⟨[[]], b, by simp, ?_, hb, ?_⟩
                · intro l hl
                  exact hblank l (by rw [lines, hb]; exact List.mem_cons_of_mem _ hl)
                · rw [List.cons_append, linesFrom_some hend]
                  have hlen : ((c :: u) ++ [nl]).length - 1 = (u ++ [nl]).length := by simp
                  have hskip : linesFrom ends (u ++ [nl]).length (u ++ [nl] ++ rest) = lines ends rest :=
                    linesFrom_skip (u ++ [nl]) rest
                  rw [List.append_assoc, List.singleton_append] at hskip
                  simp only [hlen, hskip, List.singleton_append]

/-- A reader that gets nothing from a blank line reads a text in parts. -/
theorem filterMap_lines {β : Type*} {read : List α → Option β} (hread : read [] = none)
    (u rest : List α) :
    (lines ends (u ++ nl :: rest)).filterMap read =
      (lines ends u).filterMap read ++ (lines ends rest).filterMap read := by
  obtain ⟨a, b, -, hb, hu, hwhole⟩ := h.linesFrom_append rest (Nat.zero_le u.length)
  have hblank : b.filterMap read = [] := by
    rw [List.filterMap_eq_nil_iff]
    intro l hl
    rw [hb l hl, hread]
  rw [lines, lines, hwhole, hu, List.filterMap_append, List.filterMap_append, hblank,
    List.append_nil]

/-- So does a reader of a text that has no open line at its end and goes on. -/
theorem filterMap_lines_append {β : Type*} {read : List α → Option β} (hread : read [] = none)
    {old : List α} (hold : old = [] ∨ old.getLast? = some nl) (app : List α) :
    (lines ends (old ++ app)).filterMap read =
      (lines ends old).filterMap read ++ (lines ends app).filterMap read := by
  rcases hold with rfl | hlast
  · simp [lines, linesFrom, hread]
  · obtain ⟨w, rfl⟩ := List.getLast?_eq_some_iff.1 hlast
    rw [List.append_assoc, List.singleton_append, h.filterMap_lines hread, h.filterMap_lines hread]
    simp [lines, linesFrom, hread]

end Newline

/-! ## Newlines alone -/

section Split

variable {ends} {nl : α}

theorem newline_singleton (nl : α) : Newline [[nl]] nl :=
  ⟨by simp, by simp, by simp [lines, linesFrom, Blank]⟩

/-- Cut at newlines only, the first line ends at the first newline. -/
theorem lines_newline {u : List α} (hu : nl ∉ u) (rest : List α) :
    lines [[nl]] (u ++ nl :: rest) = u :: lines [[nl]] rest := by
  induction u with
  | nil =>
      rw [lines, List.nil_append, linesFrom_some ((newline_singleton nl).endAt_newline rest)]
      rfl
  | cons c u ih =>
      rw [List.mem_cons, not_or] at hu
      have hnone : endAt [[nl]] (c :: (u ++ nl :: rest)) = none := by
        simp [endAt, List.isPrefixOf, hu.1]
      have htail : linesFrom [[nl]] 0 (u ++ nl :: rest) = u :: lines [[nl]] rest := ih hu.2
      rw [lines, List.cons_append, linesFrom_none hnone, htail]
      rfl

theorem lines_of_no_newline {u : List α} (hu : nl ∉ u) : lines [[nl]] u = [u] := by
  refine OneLine.lines_eq fun v hv => ?_
  cases v with
  | nil => exact Or.inl rfl
  | cons c v =>
      have hc : nl ≠ c := fun h =>
        hu (((List.mem_tails _ _).1 hv).subset (h ▸ List.mem_cons_self))
      exact Or.inr (by simp [endAt, List.isPrefixOf, hc])

/-- A line is not cut any more. -/
theorem lines_of_mem_lines {u line : List α} (h : line ∈ lines [[nl]] u) :
    lines [[nl]] line = [line] := by
  induction hlen : u.length using Nat.strongRecOn generalizing u with
  | _ n ih =>
      by_cases hnl : nl ∈ u
      · obtain ⟨v, rest, rfl, hv⟩ := List.eq_append_cons_of_mem hnl
        rw [lines_newline hv] at h
        rcases List.mem_cons.1 h with rfl | h
        · exact lines_of_no_newline hv
        · exact ih rest.length (by simp at hlen; omega) h rfl
      · rw [lines_of_no_newline hnl, List.mem_singleton] at h
        rw [h, lines_of_no_newline hnl]

/-- A text can be cut at newlines first and its parts at all ends afterwards. -/
theorem Newline.filterMap_lines_split (h : Newline ends nl) {β : Type*} {read : List α → Option β}
    (hread : read [] = none) (u : List α) :
    (lines ends u).filterMap read =
      (lines [[nl]] u).flatMap fun line => (lines ends line).filterMap read := by
  induction hlen : u.length using Nat.strongRecOn generalizing u with
  | _ n ih =>
      by_cases hnl : nl ∈ u
      · obtain ⟨v, rest, rfl, hv⟩ := List.eq_append_cons_of_mem hnl
        have hrest := ih rest.length (by simp at hlen; omega) rest rfl
        rw [h.filterMap_lines hread, lines_newline hv, List.flatMap_cons, hrest]
      · rw [lines_of_no_newline hnl, List.flatMap_singleton]

end Split

end Atrib.Lib.Lines
