import Atrib.Lib.Decimal
import Atrib.LogNode.Tiles
import Atrib.WitnessNode.Witness

/-!
# The path of a tile

The witness writes the index of a tile in groups of three digits and the log
reads it back. Between the two stand the groups: a path is the groups with an
`x` before all but the last, and it is the path of its index when its first
group is not all zeros, unless it is the only one. What the log reads besides
are unpadded decimals and paths with groups of zeros in front.
-/

namespace Atrib.LogNode

open Lib.Decimal (Digits Canonical value digits_toDigits canonical_toDigits)
open WitnessNode (encodeTileIndex groupsOfThree markGroups padStart tilePath withWidth)

/-! ## Digits -/

theorem allDigits_iff {text : List Char} : allDigits text = true ↔ Digits text :=
  List.all_eq_true

theorem canonicalDecimal_iff {text : List Char} : canonicalDecimal text = true ↔ Canonical text := by
  constructor
  · intro h
    match text, h with
    | [c], h =>
        by_cases hc : c = '0'
        · subst hc
          exact canonical_toDigits 0
        · have hdigits : Digits [c] := allDigits_iff.1 (by simpa [canonicalDecimal, hc] using h)
          exact ⟨hdigits, List.cons_ne_nil _ _, fun hhead => absurd (Option.some.inj hhead) hc⟩
    | c :: d :: text, h =>
        simp only [canonicalDecimal, ne_eq, Bool.and_eq_true, decide_eq_true_eq] at h
        exact ⟨allDigits_iff.1 h.2, List.cons_ne_nil _ _,
          fun hhead => absurd (Option.some.inj hhead) h.1⟩
  · rintro ⟨hdigits, hne, hhead⟩
    match text, hdigits, hne, hhead with
    | [c], hdigits, _, _ =>
        by_cases hc : c = '0'
        · subst hc
          rfl
        · simpa [canonicalDecimal, hc] using allDigits_iff.2 hdigits
    | c :: d :: text, hdigits, _, hhead =>
        have hc : c ≠ '0' := fun hc => absurd (hhead (congrArg some hc)) (by simp)
        simpa [canonicalDecimal, hc] using allDigits_iff.2 hdigits

theorem not_mem_of_digits {text : List Char} {c : Char} (hc : c.isDigit = false)
    (h : Digits text) : c ∉ text := by
  intro hmem
  rw [h c hmem] at hc
  cases hc

/-! ## Groups -/

/-- Groups of three digits, at least one. -/
structure Groups (groups : List (List Char)) : Prop where
  ne_nil : groups ≠ []
  length : ∀ group ∈ groups, group.length = 3
  digits : ∀ group ∈ groups, Digits group

namespace Groups

variable {groups : List (List Char)}

theorem cons {group : List Char} (h : Groups (group :: groups)) (hne : groups ≠ []) :
    Groups groups :=
  ⟨hne, fun g hg => h.length g (List.mem_cons_of_mem _ hg),
    fun g hg => h.digits g (List.mem_cons_of_mem _ hg)⟩

theorem digits_flatten (h : Groups groups) : Digits groups.flatten := by
  intro c hc
  obtain ⟨group, hgroup, hcg⟩ := List.mem_flatten.1 hc
  exact h.digits group hgroup c hcg

theorem length_flatten (h : Groups groups) : groups.flatten.length = groups.length * 3 := by
  rw [List.length_flatten, List.map_congr_left (g := fun _ => 3) fun g hg => h.length g hg]
  simp

theorem flatten_ne_nil (h : Groups groups) : groups.flatten ≠ [] := by
  intro hnil
  have hlength := h.length_flatten
  have hpos := List.length_pos_iff.2 h.ne_nil
  rw [hnil, List.length_nil] at hlength
  omega

end Groups

theorem flatten_groupsOfThree {text : List Char} (h : text.length % 3 = 0) :
    (groupsOfThree text).flatten = text := by
  fun_induction groupsOfThree text with
  | case1 a b c text ih =>
      rw [List.flatten_cons, ih (by simpa [Nat.add_assoc] using h)]
      rfl
  | case2 text hshort =>
      match text, hshort with
      | [], _ => rfl
      | [_], _ => simp at h
      | [_, _], _ => simp at h
      | a :: b :: c :: text, hshort => exact absurd rfl (hshort a b c text)

theorem groups_groupsOfThree {text : List Char} (hdigits : Digits text) (hne : text ≠ [])
    (h : text.length % 3 = 0) : Groups (groupsOfThree text) := by
  have hflat := flatten_groupsOfThree h
  refine ⟨?_, ?_, ?_⟩
  · intro hnil
    rw [hnil] at hflat
    exact hne hflat.symm
  · clear hflat hne hdigits h
    fun_induction groupsOfThree text with
    | case1 a b c text ih =>
        intro group hgroup
        rcases List.mem_cons.1 hgroup with rfl | hgroup
        · rfl
        · exact ih group hgroup
    | case2 => simp
  · intro group hgroup c hc
    exact hdigits c (hflat ▸ List.mem_flatten.2 ⟨group, hgroup, hc⟩)

theorem groupsOfThree_flatten {groups : List (List Char)} (h : ∀ g ∈ groups, g.length = 3) :
    groupsOfThree groups.flatten = groups := by
  induction groups with
  | nil => rfl
  | cons group groups ih =>
      match group, h group List.mem_cons_self with
      | [a, b, c], _ =>
          rw [List.flatten_cons]
          exact congrArg _ (ih fun g hg => h g (List.mem_cons_of_mem _ hg))

/-! ## A path and its groups -/

/-- The path that the groups make up. -/
def groupPath (groups : List (List Char)) : List Char := ['/'].intercalate (markGroups groups)

theorem markGroups_eq {groups : List (List Char)} {last : List Char} :
    markGroups (groups ++ [last]) = groups.map ('x' :: ·) ++ [last] := by
  induction groups with
  | nil => rfl
  | cons group groups ih =>
      cases groups with
      | nil => rfl
      | cons next groups => exact congrArg _ ih

theorem Groups.no_slash {groups : List (List Char)} (h : Groups groups) :
    ∀ segment ∈ markGroups groups, '/' ∉ segment := by
  obtain ⟨front, last, rfl⟩ := (List.eq_nil_or_concat' groups).resolve_left h.ne_nil
  intro segment hsegment
  rw [markGroups_eq, List.mem_append, List.mem_map, List.mem_singleton] at hsegment
  have hdigits : ∀ g ∈ front ++ [last], '/' ∉ g := fun g hg => not_mem_of_digits rfl (h.digits g hg)
  rcases hsegment with ⟨g, hg, rfl⟩ | rfl
  · rw [List.mem_cons]
    rintro (hx | hmem)
    · exact absurd hx (by decide)
    · exact hdigits g (List.mem_append_left _ hg) hmem
  · exact hdigits _ (by simp)

theorem splitOn_groupPath {groups : List (List Char)} (h : Groups groups) :
    (groupPath groups).splitOn '/' = markGroups groups := by
  refine List.splitOn_intercalate '/' h.no_slash fun hnil => ?_
  obtain ⟨front, last, rfl⟩ := (List.eq_nil_or_concat' groups).resolve_left h.ne_nil
  rw [markGroups_eq] at hnil
  simp at hnil

/-- A path of several groups is none of three digits. -/
theorem groupPath_starts {groups : List (List Char)} {group : List Char} (h : groups ≠ []) :
    ∃ rest, groupPath (group :: groups) = 'x' :: (group ++ '/' :: rest) := by
  obtain ⟨next, groups, rfl⟩ := List.exists_cons_of_ne_nil h
  have hne : markGroups (next :: groups) ≠ [] := by
    cases groups <;> simp [markGroups]
  refine ⟨['/'].intercalate (markGroups (next :: groups)), ?_⟩
  rw [groupPath, show markGroups (group :: next :: groups) =
    ('x' :: group) :: markGroups (next :: groups) from rfl, List.intercalate_cons_of_ne_nil hne]
  simp

/-- The groups of a path read back. -/
theorem indexText_groupPath {groups : List (List Char)} (h : Groups groups) :
    indexText (groupPath groups) = some (groups.flatten, true) := by
  obtain ⟨front, last, rfl⟩ := (List.eq_nil_or_concat' groups).resolve_left h.ne_nil
  have hlast : last.length = 3 := h.length last (by simp)
  have hdigits : allDigits last = true := allDigits_iff.2 (h.digits last (by simp))
  cases front with
  | nil =>
      have hpath : groupPath [last] = last := List.intercalate_singleton
      rw [List.nil_append, hpath, indexText, if_pos (by simp [hlast, hdigits])]
      simp
  | cons group front =>
      have hstart : ¬((groupPath (group :: front ++ [last])).length = 3 ∧
          allDigits (groupPath (group :: front ++ [last])) = true) := by
        obtain ⟨rest, hrest⟩ := @groupPath_starts (front ++ [last]) group (by simp)
        rw [List.cons_append, hrest]
        simp [allDigits]
      have hgroups : ∀ g ∈ group :: front, g.length = 3 ∧ allDigits g = true := fun g hg =>
        ⟨h.length g (List.mem_append_left _ hg),
          allDigits_iff.2 (h.digits g (List.mem_append_left _ hg))⟩
      have htails : (List.map (fun g => 'x' :: g) (group :: front)).map List.tail =
          group :: front := by
        rw [List.map_map]
        exact List.map_id _
      rw [indexText, if_neg (by simpa using hstart), segmentedIndex, splitOn_groupPath h,
        markGroups_eq, List.getLast?_concat]
      simp only [List.dropLast_concat, htails, List.flatten_append]
      rw [if_pos]
      · simp
      · simp only [List.length_append, List.length_map, List.length_cons, List.length_nil, hlast,
          hdigits, Bool.and_eq_true, decide_eq_true_eq, List.all_map, List.all_eq_true]
        refine ⟨⟨⟨by omega, trivial⟩, trivial⟩, fun g hg => ?_⟩
        obtain ⟨hlength, hall⟩ := hgroups g hg
        simp [hlength, hall]

/-- A canonical path is made of groups. -/
theorem exists_groups_of_indexText {path digits : List Char}
    (h : indexText path = some (digits, true)) :
    ∃ groups, Groups groups ∧ path = groupPath groups ∧ digits = groups.flatten := by
  unfold indexText at h
  split at h
  · next hthree =>
      simp only [Bool.and_eq_true, decide_eq_true_eq] at hthree
      simp only [Option.some.injEq, Prod.mk.injEq, and_true] at h
      refine ⟨[path], ⟨by simp, by simpa using hthree.1, ?_⟩, ?_, by simp [h]⟩
      · simpa using allDigits_iff.1 hthree.2
      · exact List.intercalate_singleton.symm
  · split at h
    · next found hsegmented =>
        simp only [Option.some.injEq, Prod.mk.injEq, and_true] at h
        subst h
        unfold segmentedIndex at hsegmented
        have hpath := @List.intercalate_splitOn _ path _ _ '/'
        revert hsegmented
        generalize path.splitOn '/' = segments at hpath
        intro hsegmented
        rcases List.eq_nil_or_concat' segments with rfl | ⟨front, last, rfl⟩
        · cases hsegmented
        · simp only [List.getLast?_concat, List.dropLast_concat] at hsegmented
          split at hsegmented
          · next hshape =>
              simp only [Bool.and_eq_true, decide_eq_true_eq, List.all_eq_true] at hshape
              obtain ⟨⟨⟨-, hlength⟩, hdigits⟩, hfront⟩ := hshape
              have hmarked : front = (front.map List.tail).map ('x' :: ·) := by
                rw [List.map_map]
                refine (List.map_id front).symm.trans (List.map_congr_left fun g hg => ?_)
                have hhead := (hfront g hg).1.2
                cases g with
                | nil => cases hhead
                | cons c g => simpa using hhead
              refine ⟨front.map List.tail ++ [last], ⟨by simp, ?_, ?_⟩, ?_, ?_⟩
              · intro g hg
                rcases List.mem_append.1 hg with hg | hg
                · obtain ⟨segment, hsegment, rfl⟩ := List.mem_map.1 hg
                  rw [List.length_tail, (hfront segment hsegment).1.1]
                · rw [List.mem_singleton.1 hg, hlength]
              · intro g hg
                rcases List.mem_append.1 hg with hg | hg
                · obtain ⟨segment, hsegment, rfl⟩ := List.mem_map.1 hg
                  exact allDigits_iff.1 (hfront segment hsegment).2
                · rw [List.mem_singleton.1 hg]
                  exact allDigits_iff.1 hdigits
              · rw [groupPath, markGroups_eq, ← hmarked, hpath]
              · simpa using (Option.some.inj hsegmented).symm
          · cases hsegmented
    · split at h <;> cases h

/-! ## The index of a path -/

/-- The only group, or a first group that is not all zeros. -/
def NoZeroGroup (groups : List (List Char)) : Prop :=
  groups.length = 1 ∨ groups.head? ≠ some ['0', '0', '0']

/-- The decimal form of the number of some groups, filled up to whole groups,
is the digits of these groups. -/
theorem padded_eq_flatten {groups : List (List Char)} (h : Groups groups)
    (hzero : NoZeroGroup groups) :
    padStart (Nat.toDigits 10 (value groups.flatten))
      (((Nat.toDigits 10 (value groups.flatten)).length + 2) / 3 * 3) = groups.flatten := by
  have hle := Lib.Decimal.length_toDigits_le h.digits_flatten h.flatten_ne_nil
  have hpos := Nat.length_toDigits_pos (b := 10) (n := value groups.flatten)
  have hlength := h.length_flatten
  have hgroups := List.length_pos_iff.2 h.ne_nil
  -- as many digits as the groups after the first have are not enough
  have hmore : groups.length * 3 < (Nat.toDigits 10 (value groups.flatten)).length + 3 := by
    match groups, h, hzero with
    | [group], _, _ => simp only [List.length_singleton]; omega
    | group :: next :: groups, h, hzero =>
        have hhead : group ≠ ['0', '0', '0'] := by
          rintro rfl
          rcases hzero with hone | hhead
          · simp at hone
          · exact hhead rfl
        have hgroup : 1 ≤ value group := by
          by_contra hlt
          have heq := Lib.Decimal.eq_of_value_eq (t := ['0', '0', '0'])
            (h.digits group List.mem_cons_self) (Lib.Decimal.digits_replicate 3)
            (h.length group List.mem_cons_self) (by rw [show value group = 0 by omega]; rfl)
          exact hhead heq
        have hrest := (h.cons (List.cons_ne_nil _ _)).length_flatten
        by_contra hshort
        have hfew : (Nat.toDigits 10 (value (group :: next :: groups).flatten)).length ≤
            (next :: groups).length * 3 := by
          simp only [List.length_cons] at hshort ⊢
          omega
        have hlt := (Nat.length_toDigits_le_iff (by decide) (by simp)).1 hfew
        rw [List.flatten_cons, Lib.Decimal.value_append, hrest] at hlt
        have := Nat.mul_le_mul_left (10 ^ ((next :: groups).length * 3)) hgroup
        omega
  have hround : ((Nat.toDigits 10 (value groups.flatten)).length + 2) / 3 * 3 =
      groups.flatten.length := by omega
  rw [hround]
  exact (Lib.Decimal.eq_replicate_append_toDigits h.digits_flatten h.flatten_ne_nil).symm

/-- The path of an index is made of the groups that have its value and none too many. -/
theorem encodeTileIndex_value {groups : List (List Char)} (h : Groups groups)
    (hzero : NoZeroGroup groups) (hsafe : value groups.flatten ≤ MAX_SAFE_INTEGER) :
    encodeTileIndex (value groups.flatten) = .ok (groupPath groups) := by
  rw [encodeTileIndex, if_neg (by omega)]
  simp only [padded_eq_flatten h hzero, groupsOfThree_flatten h.length, groupPath]

theorem exists_groups_of_index (index : ℕ) :
    ∃ groups, Groups groups ∧ NoZeroGroup groups ∧ value groups.flatten = index := by
  obtain ⟨padding, hlt, hmod⟩ : ∃ padding < 3,
      (padding + (Nat.toDigits 10 index).length) % 3 = 0 :=
    ⟨(2 * (Nat.toDigits 10 index).length) % 3, by omega, by omega⟩
  have hdigits : Digits (List.replicate padding '0' ++ Nat.toDigits 10 index) :=
    (Lib.Decimal.digits_replicate _).append (digits_toDigits _)
  have hlength : (List.replicate padding '0' ++ Nat.toDigits 10 index).length % 3 = 0 := by
    rwa [List.length_append, List.length_replicate]
  have hflat := flatten_groupsOfThree hlength
  have hgroups := groups_groupsOfThree hdigits (by simp) hlength
  have hvalue : value (groupsOfThree (List.replicate padding '0' ++
      Nat.toDigits 10 index)).flatten = index := by
    rw [hflat, Lib.Decimal.value_replicate_append]
    exact Nat.ofDigitChars_ten_toDigits
  refine ⟨_, hgroups, ?_, hvalue⟩
  by_contra hzero
  simp only [NoZeroGroup, not_or, not_not] at hzero
  obtain ⟨groups, hcons⟩ := List.head?_eq_some_iff.1 hzero.2
  rw [hcons] at hgroups hvalue hzero hflat
  have hne : groups ≠ [] := by
    rintro rfl
    exact hzero.1 rfl
  -- the zeros of the first group are more than were filled up with
  have hrest := hgroups.cons hne
  have hle := Lib.Decimal.length_toDigits_le hrest.digits_flatten hrest.flatten_ne_nil
  have hsame : value groups.flatten = index := by
    rw [← hvalue, List.flatten_cons]
    exact (Lib.Decimal.value_replicate_append 3 groups.flatten).symm
  rw [hsame] at hle
  have hlen := congrArg List.length hflat
  rw [List.flatten_cons, List.length_append, List.length_append, List.length_replicate] at hlen
  simp only [List.length_cons, List.length_nil] at hlen
  omega

theorem exists_groups_of_encodeTileIndex {index : ℕ} (hsafe : index ≤ MAX_SAFE_INTEGER) :
    ∃ groups, Groups groups ∧ value groups.flatten = index ∧
      encodeTileIndex index = .ok (groupPath groups) := by
  obtain ⟨groups, h, hzero, rfl⟩ := exists_groups_of_index index
  exact ⟨groups, h, rfl, encodeTileIndex_value h hzero hsafe⟩

/-! ## The width -/

theorem isSuffixOf_eq_false {suffix text : List Char} {c : Char} (hc : c ∈ suffix)
    (h : c ∉ text) : suffix.isSuffixOf text = false :=
  Bool.eq_false_iff.2 fun hsuffix => h ((List.isSuffixOf_iff_suffix.1 hsuffix).subset hc)

/-- A path with no dot has no width. -/
theorem splitWidth_of_no_dot {path : List Char} (h : '.' ∉ path) : splitWidth path = (path, none) := by
  have hsuffix := @isSuffixOf_eq_false ['.', 'p', '/'] _ '.' (by simp)
    fun hmem => h (List.mem_of_mem_take (i := path.length -
      (path.reverse.takeWhile Char.isDigit).reverse.length) hmem)
  unfold splitWidth
  simp only [hsuffix, Bool.and_false, Bool.false_and, Bool.false_eq_true, if_false]

theorem takeWhile_reverse_withWidth (path : List Char) (width : ℕ) :
    ((withWidth path (some width)).reverse.takeWhile Char.isDigit).reverse =
      Nat.toDigits 10 width := by
  rw [withWidth, List.reverse_append, List.takeWhile_append_of_pos
    fun c hc => digits_toDigits width c (List.mem_reverse.1 hc)]
  simp

theorem splitWidth_withWidth {path : List Char} (hpath : path ≠ []) {width : ℕ} (h : 1 ≤ width) :
    splitWidth (withWidth path (some width)) = (path, some (Nat.toDigits 10 width)) := by
  have hpos := List.length_pos_iff.2 hpath
  have htake : (withWidth path (some width)).take
      ((withWidth path (some width)).length - (Nat.toDigits 10 width).length) =
        path ++ ['.', 'p', '/'] := by
    rw [withWidth, List.length_append, Nat.add_sub_cancel, List.take_left]
  have hzero : Nat.toDigits 10 width ≠ ['0'] := by
    intro heq
    have hvalue := congrArg value heq
    rw [value, Nat.ofDigitChars_ten_toDigits] at hvalue
    rw [hvalue] at h
    exact absurd h (by decide)
  unfold splitWidth
  simp only [takeWhile_reverse_withWidth, htake]
  rw [if_pos]
  · simp
  · simp only [canonicalDecimal_iff.2 (canonical_toDigits width), hzero, Bool.true_and,
      Bool.and_eq_true, decide_eq_true_eq, List.isSuffixOf_iff_suffix, List.length_append,
      ne_eq, not_false_eq_true, decide_true]
    exact ⟨List.suffix_append _ _, by simp only [List.length_cons, List.length_nil]; omega⟩

/-- There is a width behind a text, or there is none. -/
theorem splitWidth_cases (text : List Char) :
    splitWidth text = (text, none) ∨
      ∃ path width, path ≠ [] ∧ 1 ≤ width ∧ text = withWidth path (some width) := by
  unfold splitWidth
  simp only
  split
  · next hshape =>
      simp only [Bool.and_eq_true, decide_eq_true_eq, List.isSuffixOf_iff_suffix, ne_eq] at hshape
      obtain ⟨⟨⟨hcanonical, hzero⟩, path, hrest⟩, hlength⟩ := hshape
      have hform := (canonicalDecimal_iff.1 hcanonical).toDigits_value
      refine .inr ⟨path, value (text.reverse.takeWhile Char.isDigit).reverse, ?_, ?_, ?_⟩
      · rintro rfl
        rw [← hrest] at hlength
        simp at hlength
      · by_contra hlt
        rw [show value (text.reverse.takeWhile Char.isDigit).reverse = 0 by omega] at hform
        exact hzero hform.symm
      · have hsplit := List.take_append_drop (text.length -
          (text.reverse.takeWhile Char.isDigit).reverse.length) text
        have hsuffix : (text.reverse.takeWhile Char.isDigit).reverse <:+ text := by
          rw [← List.reverse_prefix, List.reverse_reverse]
          exact List.takeWhile_prefix _
        rw [withWidth, hform, hrest]
        rw [← List.suffix_iff_eq_drop.1 hsuffix] at hsplit
        exact hsplit.symm
  · exact .inl rfl

/-! ## Round trips -/

/-- The widths of partial tiles. -/
def IsWidth (width : Option ℕ) : Prop := ∀ w ∈ width, 1 ≤ w ∧ w < TILE_SIZE

theorem parseTileAddress_withWidth {path digits : List Char} {canonical : Bool} {width : Option ℕ}
    (hpath : '.' ∉ path) (hne : path ≠ []) (hwidth : IsWidth width)
    (hindex : indexText path = some (digits, canonical))
    (hsafe : decimal digits ≤ MAX_SAFE_INTEGER) :
    ∃ address, parseTileAddress (withWidth path width) = some address ∧
      address.index = value digits ∧ address.width = width ∧
      (canonical = true → address.canonical = true) := by
  cases width with
  | none =>
      rw [withWidth, parseTileAddress, splitWidth_of_no_dot hpath]
      simp only [hindex, dif_pos hsafe]
      exact ⟨_, rfl, rfl, rfl, fun h => h⟩
  | some width =>
      have hw := hwidth width rfl
      have hdecimal : decimal (Nat.toDigits 10 width) = width := Nat.ofDigitChars_ten_toDigits
      rw [parseTileAddress, splitWidth_withWidth hne hw.1]
      simp only [hindex, dif_pos hsafe]
      rw [dif_pos (by rwa [hdecimal])]
      exact ⟨_, rfl, rfl, congrArg some hdecimal, fun _ => rfl⟩

/-- What an accepted text is made of. -/
theorem parseTileAddress_eq_some {text : List Char} {address : TileAddress}
    (h : parseTileAddress text = some address) :
    ∃ path digits canonical, (splitWidth text).1 = path ∧ text = withWidth path address.width ∧
      indexText path = some (digits, canonical) ∧ address.index = value digits := by
  unfold parseTileAddress at h
  rcases splitWidth_cases text with hsplit | ⟨path, width, hne, hpos, rfl⟩
  · simp only [hsplit] at h
    split at h
    · cases h
    · next digits canonical hindex =>
        split at h
        · cases h
          exact ⟨text, digits, canonical, by rw [hsplit], rfl, hindex, rfl⟩
        · cases h
  · simp only [splitWidth_withWidth hne hpos] at h
    split at h
    · cases h
    · next digits canonical hindex =>
        split at h
        · split at h
          · cases h
            have hdecimal : decimal (Nat.toDigits 10 width) = width := Nat.ofDigitChars_ten_toDigits
            exact ⟨path, digits, canonical, by rw [splitWidth_withWidth hne hpos],
              congrArg (fun w => withWidth path (some w)) hdecimal.symm, hindex, rfl⟩
          · cases h
        · cases h

theorem no_dot_of_digits {text : List Char} (h : Digits text) : '.' ∉ text :=
  not_mem_of_digits rfl h

theorem Groups.no_dot {groups : List (List Char)} (h : Groups groups) : '.' ∉ groupPath groups := by
  induction groups with
  | nil => exact absurd rfl h.ne_nil
  | cons group groups ih =>
      have hgroup := no_dot_of_digits (h.digits group List.mem_cons_self)
      cases groups with
      | nil => rwa [groupPath, show markGroups [group] = [group] from rfl,
          List.intercalate_singleton]
      | cons next groups =>
          have hrest := ih (h.cons (List.cons_ne_nil _ _))
          have hne : markGroups (next :: groups) ≠ [] := by
            cases groups <;> simp [markGroups]
          rw [groupPath, show markGroups (group :: next :: groups) =
            ('x' :: group) :: markGroups (next :: groups) from rfl,
            List.intercalate_cons_of_ne_nil hne]
          simp only [List.cons_append, List.append_assoc, List.mem_cons, List.mem_append,
            List.nil_append]
          rintro (hx | hmem | hslash | hmem)
          · exact absurd hx (by decide)
          · exact hgroup hmem
          · exact absurd hslash (by decide)
          · exact hrest hmem

theorem Groups.path_ne_nil {groups : List (List Char)} (h : Groups groups) :
    groupPath groups ≠ [] := by
  intro hnil
  have hread := indexText_groupPath h
  rw [hnil] at hread
  cases hread

/-- What the witness writes, the log reads as it was meant, and so it does an
unpadded index of less than three digits. A path that the log reads is the
one that the witness writes for its address, if it is neither an unpadded
decimal of another length than three nor starts with a group of zeros. -/
theorem tileAddress_roundTrip :
    (∀ index ≤ MAX_SAFE_INTEGER, ∃ path, encodeTileIndex index = .ok path ∧
      ∀ width, IsWidth width → ∃ address, parseTileAddress (withWidth path width) = some address ∧
        address.index = index ∧ address.width = width ∧ address.canonical = true) ∧
    (∀ index < 100, ∀ width, IsWidth width → ∃ address,
      parseTileAddress (withWidth (Nat.toDigits 10 index) width) = some address ∧
        address.index = index ∧ address.width = width) ∧
    ∀ text address, parseTileAddress text = some address →
      (canonicalDecimal (splitWidth text).1 = true → (splitWidth text).1.length = 3) →
      ¬['x', '0', '0', '0', '/'] <+: text →
      (encodeTileIndex address.index).map (withWidth · address.width) = .ok text := by
  refine ⟨fun index hsafe => ?_, fun index hsmall width hwidth => ?_, ?_⟩
  · obtain ⟨groups, h, rfl, hencode⟩ := exists_groups_of_encodeTileIndex hsafe
    refine ⟨_, hencode, fun width hwidth => ?_⟩
    obtain ⟨address, hparse, hindex, haddress, hcanonical⟩ := parseTileAddress_withWidth h.no_dot
      h.path_ne_nil hwidth (indexText_groupPath h) hsafe
    exact ⟨address, hparse, hindex, haddress, hcanonical rfl⟩
  · have hcanonical := canonical_toDigits index
    have hlength : (Nat.toDigits 10 index).length ≤ 2 :=
      (Nat.length_toDigits_le_iff (by decide) (by decide)).2 hsmall
    have hvalue : decimal (Nat.toDigits 10 index) = index := Nat.ofDigitChars_ten_toDigits
    have hread : ∃ canonical, indexText (Nat.toDigits 10 index) =
        some (Nat.toDigits 10 index, canonical) := by
      have hsegmented : segmentedIndex (Nat.toDigits 10 index) = none := by
        have hslash : ∀ l ∈ [Nat.toDigits 10 index], '/' ∉ l := by
          simpa using not_mem_of_digits rfl hcanonical.digits
        have hsplit := List.splitOn_intercalate '/' hslash (by simp)
        rw [List.intercalate_singleton] at hsplit
        rw [segmentedIndex, hsplit]
        rfl
      refine ⟨false, ?_⟩
      rw [indexText, if_neg (by simp; omega), hsegmented]
      simp only [canonicalDecimal_iff.2 hcanonical, if_true]
    obtain ⟨canonical, hindex⟩ := hread
    obtain ⟨address, hparse, haddress, hw, -⟩ := parseTileAddress_withWidth
      (no_dot_of_digits hcanonical.digits) hcanonical.ne_nil hwidth hindex
      (by rw [hvalue]; exact hsmall.le.trans (by decide))
    exact ⟨address, hparse, haddress.trans hvalue, hw⟩
  · intro text address hparse halias hzeros
    obtain ⟨path, digits, canonical, hpath, rfl, hread, hindex⟩ := parseTileAddress_eq_some hparse
    rw [hpath] at halias
    obtain ⟨groups, h, rfl, rfl⟩ : ∃ groups, Groups groups ∧ path = groupPath groups ∧
        digits = groups.flatten := by
      cases canonical with
      | true => exact exists_groups_of_indexText hread
      | false =>
          -- only an unpadded decimal of another length than three is read like this
          unfold indexText at hread
          split at hread
          · cases hread
          · next hthree =>
              split at hread
              · cases hread
              · split at hread
                · next hcanonical =>
                    have hdigits := (canonicalDecimal_iff.1 hcanonical).digits
                    exact absurd (by simpa using ⟨halias hcanonical, allDigits_iff.2 hdigits⟩) hthree
                · cases hread
    have hzero : NoZeroGroup groups := by
      match groups, h, hzeros with
      | [group], _, _ => exact .inl rfl
      | group :: next :: groups, _, hzeros =>
          refine .inr fun hhead => ?_
          obtain rfl : group = ['0', '0', '0'] := Option.some.inj hhead
          obtain ⟨rest, hrest⟩ :=
            @groupPath_starts (next :: groups) ['0', '0', '0'] (List.cons_ne_nil _ _)
          refine hzeros ?_
          rw [hrest]
          cases address.width with
          | none => exact ⟨rest, rfl⟩
          | some width => exact ⟨rest ++ ['.', 'p', '/'] ++ Nat.toDigits 10 width, by simp [withWidth]⟩
    have hsafe : value groups.flatten ≤ MAX_SAFE_INTEGER := hindex ▸ address.index_safe
    rw [hindex, encodeTileIndex_value h hzero hsafe]
    rfl

/-- `x001/x234/567.p/3` -/
theorem tileAddress_roundTrip_millions : ∃ address,
    parseTileAddress (withWidth "x001/x234/567".toList (some 3)) = some address ∧
      address.index = 1234567 ∧ address.width = some 3 ∧ address.canonical = true := by
  obtain ⟨path, hpath, hread⟩ := tileAddress_roundTrip.1 1234567 (by decide)
  obtain rfl : "x001/x234/567".toList = path := by
    have hencode : encodeTileIndex 1234567 = .ok "x001/x234/567".toList := by decide +kernel
    rw [hencode] at hpath
    exact Except.ok.inj hpath
  exact hread (some 3) (by simp [IsWidth, TILE_SIZE])

/-- Tile 5 has the paths `005` and `5`. -/
theorem not_only_encoding : ¬∀ text address, parseTileAddress text = some address →
    (encodeTileIndex address.index).map (withWidth · address.width) = .ok text := by
  intro h
  obtain ⟨address, hparse, hindex, hwidth⟩ := @parseTileAddress_withWidth ['5'] ['5'] false none
    (by decide) (by decide) (by simp [IsWidth]) (by decide +kernel) (by decide +kernel)
  have hencode := h _ address hparse
  rw [hindex, hwidth.1] at hencode
  exact absurd hencode (by decide +kernel)

end Atrib.LogNode
