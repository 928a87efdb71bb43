import Atrib.Lib.Effect
import Atrib.Lib.Texts
import Atrib.Mcp.Context
import Atrib.Proofs.Encodings
import Atrib.Proofs.EntryRoundTrip

/-!
# The context of a call comes back

What is written into the `_meta` of a result is read from a request with the same
members. A token has no separator of any of the texts that it is put in, and the
new entry goes before the others, so that it is the one that is found. Of the
others stay as many as fit.
-/

namespace Atrib.Middleware

open Lib (JsValue bind_ok)
open Lib.Texts (trim trim_eq_self_iff trim_eq_self_of_forall mem_of_mem_trim
  not_mem_of_mem_splitOn)
open Verify (base64urlDecode base64urlDecode_base64urlEncode isSpace)

/-! ## Tokens -/

theorem mem_base64urlChars {bytes : Bytes} {c : Char} (h : c ∈ base64urlChars bytes) :
    ∃ n < 64, c = base64urlChar n := by
  obtain ⟨hlt, hchars⟩ := Verify.mapM_base64urlValue (Verify.mapM_base64urlChars bytes)
  rw [hchars] at h
  obtain ⟨n, hn, rfl⟩ := List.mem_map.1 h
  exact ⟨n, hlt n hn, rfl⟩

/-- A character of a token, to which none of the separators belongs. -/
def isTokenChar (c : Char) : Bool :=
  c != ',' && !isSpace c && !isOptionalSpace c && isNoLineBreak c

theorem isTokenChar_base64urlChar {n : ℕ} (h : n < 64) :
    isTokenChar (base64urlChar n) = true ∧ base64urlChar n ≠ '.' := by
  revert n
  decide +kernel

/-- The token of a hash and a key. -/
def tokenOf (recordHash creatorKey : Bytes) : String :=
  base64urlEncode recordHash ++ "." ++ base64urlEncode creatorKey

theorem toList_tokenOf (recordHash creatorKey : Bytes) :
    (tokenOf recordHash creatorKey).toList =
      base64urlChars recordHash ++ '.' :: base64urlChars creatorKey := by
  simp [tokenOf, base64urlEncode]

theorem isTokenChar_tokenOf (recordHash creatorKey : Bytes) :
    ∀ c ∈ (tokenOf recordHash creatorKey).toList, isTokenChar c = true := by
  intro c hc
  rw [toList_tokenOf, List.mem_append, List.mem_cons] at hc
  rcases hc with hc | rfl | hc
  · obtain ⟨n, hn, rfl⟩ := mem_base64urlChars hc
    exact (isTokenChar_base64urlChar hn).1
  · decide
  · obtain ⟨n, hn, rfl⟩ := mem_base64urlChars hc
    exact (isTokenChar_base64urlChar hn).1

theorem base64urlChars_ne_nil {bytes : Bytes} (h : bytes ≠ []) : base64urlChars bytes ≠ [] := by
  fun_cases base64urlChars bytes <;> simp_all

theorem decodeToken_tokenOf {recordHash creatorKey : Bytes} (hhash : recordHash.length = 32)
    (hkey : creatorKey.length = 32) :
    decodeToken (tokenOf recordHash creatorKey) = some ⟨recordHash, creatorKey⟩ := by
  have hdot : ∀ c ∈ base64urlChars recordHash, (c != '.') = true := by
    intro c hc
    obtain ⟨n, hn, rfl⟩ := mem_base64urlChars hc
    exact bne_iff_ne.2 (isTokenChar_base64urlChar hn).2
  have hnil : ∀ {bytes : Bytes}, bytes.length = 32 → base64urlChars bytes ≠ [] := fun h =>
    base64urlChars_ne_nil fun h' => by rw [h'] at h; cases h
  have hdecode : ∀ bytes : Bytes,
      base64urlDecode (String.ofList (base64urlChars bytes)) = some bytes :=
    base64urlDecode_base64urlEncode
  rw [decodeToken, toList_tokenOf, List.takeWhile_append_of_pos hdot,
    List.dropWhile_append_of_pos hdot]
  simp [hnil hhash, hnil hkey, hdecode, hhash, hkey]

/-- Only a text is decoded into 32 bytes. -/
theorem string_of_decodeText {value : JsValue} {bytes : Bytes}
    (h : decodeText value = .ok bytes) (hlength : bytes.length = 32) :
    ∃ text, value = .string text ∧ base64urlDecode text = some bytes := by
  cases value with
  | string text =>
      rw [decodeText] at h
      cases hdecode : base64urlDecode text with
      | none => rw [hdecode] at h; cases h
      | some found =>
          rw [hdecode] at h
          obtain rfl : found = bytes := Except.ok.inj h
          exact ⟨text, rfl, hdecode⟩
  | _ =>
      rw [decodeText] at h
      · rw [← Except.ok.inj h] at hlength
        cases hlength
      · simp

/-- The token of a record whose key is one of 32 bytes. -/
theorem encodeToken_eq {P : Platform} {record : JsValue} {bytes creatorKey : Bytes}
    (hbytes : canonicalBytes P record = .ok bytes)
    (hkey : decodeText (record.member "creator_key") = .ok creatorKey)
    (hlength : creatorKey.length = 32) :
    Outbound.encodeToken P record = .ok (tokenOf (P.hash.sha256 bytes) creatorKey) := by
  have hdecode : Outbound.base64urlDecode P (record.member "creator_key") = .ok creatorKey := by
    obtain ⟨text, htext, -⟩ := string_of_decodeText hkey hlength
    rwa [htext] at hkey ⊢
  simp only [Outbound.encodeToken, hbytes, hdecode, bind, Except.bind]
  rfl

/-! ## Lists of entries -/

theorem trimChars_eq_trim (chars : List Char) : trimChars chars = trim isSpace chars := rfl

variable {key existing : String}

theorem comma_of_otherEntries {member : List Char} (h : member ∈ otherEntries key existing) :
    ',' ∉ member := by
  obtain ⟨part, hpart, rfl⟩ := List.mem_map.1 (List.mem_filter.1 h).1
  exact fun hcomma => not_mem_of_mem_splitOn hpart (mem_of_mem_trim hcomma)

theorem hasKey_of_otherEntries {member : List Char} (h : member ∈ otherEntries key existing) :
    hasKey key member = false := by
  have hkept := (List.mem_filter.1 h).2
  rw [Bool.and_eq_true, Bool.not_eq_true'] at hkept
  exact hkept.2

theorem toList_joinEntries (entry : String) (others : List (List Char)) :
    (joinEntries entry others).toList = List.intercalate [','] (entry.toList :: others) := by
  cases others with
  | nil => simp [joinEntries]
  | cons first others =>
      rw [joinEntries, if_neg (List.cons_ne_nil _ _), List.intercalate_cons_cons]
      simp

/-- Entries without a comma come apart again. -/
theorem splitChars_joinEntries {entry : String} {others : List (List Char)}
    (hentry : ',' ∉ entry.toList) (hothers : ∀ other ∈ others, ',' ∉ other) :
    splitChars ',' (joinEntries entry others).toList = entry.toList :: others := by
  rw [splitChars, toList_joinEntries]
  exact List.splitOn_intercalate ',' (List.forall_mem_cons.2 ⟨hentry, hothers⟩)
    (List.cons_ne_nil _ _)

/-! ## What the readers take -/

/-- At most four blanks are dropped of those that the writer drops all. -/
theorem afterEquals_dropOptionalSpace {chars rest : List Char}
    (h : afterEquals (dropOptionalSpace chars) = some rest) :
    afterEquals (chars.dropWhile isSpace) = some rest := by
  let spaces := (chars.takeWhile isOptionalSpace).take 4
  have hprefix : spaces <+: chars := (List.take_prefix _ _).trans (List.takeWhile_prefix _)
  have hspace : ∀ c ∈ spaces, isSpace c = true := by
    intro c hc
    have hoptional := List.mem_takeWhile_imp (List.mem_of_mem_take hc)
    rw [isOptionalSpace, Bool.or_eq_true, beq_iff_eq, beq_iff_eq] at hoptional
    rcases hoptional with rfl | rfl <;> decide
  have hchars : chars = spaces ++ dropOptionalSpace chars :=
    (List.prefix_iff_eq_append.1 hprefix).symm
  rw [hchars, List.dropWhile_append_of_pos hspace]
  generalize dropOptionalSpace chars = left at h ⊢
  unfold afterEquals at h
  split at h
  · rw [List.dropWhile_cons_of_neg (by decide)]
    exact h
  · cases h

/-- Nothing that the reader takes is left among the others. -/
theorem atribEntry_eq_none {member : List Char} (h : hasKey "atrib" member = false) :
    atribEntry member = none := by
  rw [hasKey, Option.isSome_eq_false_iff, Option.isNone_iff_eq_none,
    Option.bind_eq_none_iff] at h
  rw [atribEntry, Option.bind_eq_bind, Option.bind_eq_none_iff]
  intro chars hchars
  rw [Option.bind_eq_none_iff]
  intro value hvalue
  exact absurd ((h chars hchars).symm.trans (afterEquals_dropOptionalSpace hvalue)) (by simp)

theorem sessionEntry_eq_none {member : List Char} (h : hasKey "atrib-session" member = false) :
    sessionEntry member = none := by
  rw [hasKey, Option.isSome_eq_false_iff, Option.isNone_iff_eq_none,
    Option.bind_eq_none_iff] at h
  rw [sessionEntry, Option.bind_eq_bind, Option.bind_eq_none_iff]
  intro chars hchars
  rw [h chars hchars, Option.bind_none]

/-! ## Merging -/

/-- The text has the entry first, the only one with its key, and after it as many of the other
entries there were, from the first on, as it can have. -/
def Merged (key : String) (read : List Char → Option (List Char)) (fits : String → Prop)
    (entry existing merged : String) : Prop :=
  ∃ kept ≤ (otherEntries key existing).length,
    splitChars ',' merged.toList = entry.toList :: (otherEntries key existing).take kept ∧
    hasKey key entry.toList = true ∧
    (∀ member ∈ (otherEntries key existing).take kept,
      hasKey key member = false ∧ read member = none) ∧
    (fits merged ∨ kept = 0 ∧ ¬fits entry) ∧
    ∀ n ≤ (otherEntries key existing).length,
      fits (joinEntries entry ((otherEntries key existing).take n)) → n ≤ kept

/-- At most 32 members. -/
def FitsTracestate (tracestate : String) : Prop :=
  (splitChars ',' tracestate.toList).length ≤ 32

/-- At most 64 members and 8192 bytes. -/
def FitsBaggage (baggage : String) : Prop :=
  (splitChars ',' baggage.toList).length ≤ 64 ∧ (utf8 baggage).length ≤ 8192

variable {entry : String}

theorem splitChars_entry (hentry : ',' ∉ entry.toList) :
    splitChars ',' entry.toList = [entry.toList] :=
  @splitChars_joinEntries entry [] hentry fun _ h => absurd h List.not_mem_nil

theorem splitChars_take (hentry : ',' ∉ entry.toList) (n : ℕ) :
    splitChars ',' (joinEntries entry ((otherEntries key existing).take n)).toList =
      entry.toList :: (otherEntries key existing).take n :=
  splitChars_joinEntries hentry fun _ h => comma_of_otherEntries (List.mem_of_mem_take h)

theorem merged_of_fits {read : List Char → Option (List Char)} {fits : String → Prop}
    (hread : ∀ member, hasKey key member = false → read member = none)
    (hentry : ',' ∉ entry.toList) (hkey : hasKey key entry.toList = true) {kept : ℕ}
    (hkept : kept ≤ (otherEntries key existing).length)
    (hfits : fits (joinEntries entry ((otherEntries key existing).take kept)) ∨
      kept = 0 ∧ ¬fits entry)
    (hmost : ∀ n ≤ (otherEntries key existing).length,
      fits (joinEntries entry ((otherEntries key existing).take n)) → n ≤ kept) :
    Merged key read fits entry existing
      (joinEntries entry ((otherEntries key existing).take kept)) := by
  refine ⟨kept, hkept, splitChars_take hentry kept, hkey, fun member hmember => ?_, hfits, hmost⟩
  have hother := hasKey_of_otherEntries (List.mem_of_mem_take hmember)
  exact ⟨hother, hread member hother⟩

theorem merged_mergeTracestate (existing : String) (hentry : ',' ∉ entry.toList)
    (hkey : hasKey "atrib" entry.toList = true) :
    Merged "atrib" atribEntry FitsTracestate entry existing (mergeTracestate entry existing) := by
  have htake : (otherEntries "atrib" existing).take 31 =
      (otherEntries "atrib" existing).take (min 31 (otherEntries "atrib" existing).length) := by
    rw [List.take_eq_take_iff]
    omega
  rw [mergeTracestate, htake]
  refine merged_of_fits (fun _ => atribEntry_eq_none) hentry hkey (Nat.min_le_right _ _)
    (.inl ?_) fun n hn hfits => ?_
  · rw [FitsTracestate, splitChars_take hentry, List.length_cons, List.length_take]
    omega
  · rw [FitsTracestate, splitChars_take hentry, List.length_cons, List.length_take] at hfits
    omega

/-- As many of the entries are kept as the bytes allow. -/
theorem capBytes_spec (entry : String) (others : List (List Char)) :
    ∃ kept ≤ others.length, capBytes entry others = joinEntries entry (others.take kept) ∧
      (kept = 0 ∨ (utf8 (joinEntries entry (others.take kept))).length ≤ 8192) ∧
      ∀ n ≤ others.length, kept < n →
        8192 < (utf8 (joinEntries entry (others.take n))).length := by
  fun_induction capBytes entry others with
  | case1 => exact ⟨0, le_rfl, rfl, .inl rfl, fun n hn hlt => by simp at hn; omega⟩
  | case2 first others hfits =>
      refine ⟨(first :: others).length, le_rfl, ?_, .inr ?_, fun n hn hlt => by omega⟩
      · rw [List.take_length]
      · rw [List.take_length]
        exact hfits
  | case3 first others hlong ih =>
      obtain ⟨kept, hkept, hcap, hbytes, hmost⟩ := ih
      rw [List.length_dropLast, List.length_cons] at hkept
      have htake : ∀ n ≤ others.length,
          (first :: others).dropLast.take n = (first :: others).take n := by
        intro n hn
        rw [List.dropLast_eq_take, List.take_take, List.length_cons]
        congr 1
        omega
      rw [htake kept (by omega)] at hcap hbytes
      refine ⟨kept, by rw [List.length_cons]; omega, hcap, hbytes, fun n hn hlt => ?_⟩
      rw [List.length_cons] at hn
      rcases Nat.lt_or_ge others.length n with hall | hfew
      · obtain rfl : n = others.length + 1 := by omega
        rw [← List.length_cons (a := first), List.take_length]
        omega
      · rw [← htake n hfew]
        exact hmost n (by rw [List.length_dropLast, List.length_cons]; omega) hlt

theorem merged_mergeBaggage {sessionToken : String} (existing : String)
    (hentry : ',' ∉ ("atrib-session=" ++ sessionToken).toList)
    (hkey : hasKey "atrib-session" ("atrib-session=" ++ sessionToken).toList = true) :
    Merged "atrib-session" sessionEntry FitsBaggage ("atrib-session=" ++ sessionToken) existing
      (mergeBaggageAtribSession sessionToken existing) := by
  obtain ⟨kept, hkept, hcap, hbytes, hmost⟩ := capBytes_spec ("atrib-session=" ++ sessionToken)
    ((otherEntries "atrib-session" existing).take 63)
  rw [List.length_take] at hkept
  have htake : ∀ n ≤ 63, ((otherEntries "atrib-session" existing).take 63).take n =
      (otherEntries "atrib-session" existing).take n := by
    intro n hn
    rw [List.take_take, Nat.min_eq_left hn]
  rw [htake kept (by omega)] at hcap hbytes
  rw [mergeBaggageAtribSession, hcap]
  refine merged_of_fits (fun _ => sessionEntry_eq_none) hentry hkey (by omega) ?_
    fun n hn hfits => ?_
  · by_cases hfew : (utf8 (joinEntries ("atrib-session=" ++ sessionToken)
        ((otherEntries "atrib-session" existing).take kept))).length ≤ 8192
    · refine .inl ⟨?_, hfew⟩
      rw [splitChars_take hentry, List.length_cons, List.length_take]
      omega
    · obtain rfl := hbytes.resolve_right hfew
      exact .inr ⟨rfl, fun hfits => hfew hfits.2⟩
  · obtain ⟨hmembers, hfew⟩ := hfits
    rw [splitChars_take hentry, List.length_cons, List.length_take] at hmembers
    by_contra hlt
    have hlong := hmost n (by rw [List.length_take]; omega) (by omega)
    rw [htake n (by omega)] at hlong
    omega

/-! ## Reading the new entries -/

theorem isTokenChar_spec {c : Char} (h : isTokenChar c = true) :
    c ≠ ',' ∧ isSpace c = false ∧ isOptionalSpace c = false ∧ isNoLineBreak c = true := by
  simpa [isTokenChar, and_assoc] using h

section

variable {token : String}

theorem dropOptionalSpace_eq_self {chars : List Char}
    (h : ∀ c ∈ chars, isOptionalSpace c = false) : dropOptionalSpace chars = chars := by
  have hnone : chars.takeWhile isOptionalSpace = [] := by
    rw [List.takeWhile_eq_nil_iff]
    exact fun hlt => by simpa using h _ (List.getElem_mem hlt)
  rw [dropOptionalSpace, hnone]
  rfl

theorem afterKey_atrib (text : List Char) :
    afterKey "atrib" ("atrib=".toList ++ text) = some ('=' :: text) := by
  simp [afterKey, List.isPrefixOf]

theorem afterKey_session (text : List Char) :
    afterKey "atrib-session" ("atrib-session=".toList ++ text) = some ('=' :: text) := by
  simp [afterKey, List.isPrefixOf]

theorem isTokenChar_entry (h : ∀ c ∈ token.toList, isTokenChar c = true) :
    ∀ c ∈ ("atrib=" ++ token).toList, isTokenChar c = true := by
  intro c hc
  rw [String.toList_append, List.mem_append] at hc
  rcases hc with hc | hc
  · exact List.all_eq_true.1 (by decide : "atrib=".toList.all isTokenChar = true) c hc
  · exact h c hc

/-- The entry of a token is its own trimmed text, of which the token is read. -/
theorem atribEntry_token (h : ∀ c ∈ token.toList, isTokenChar c = true) :
    atribEntry (trimChars ("atrib=" ++ token).toList) = some token.toList := by
  rw [trimChars_eq_trim, trim_eq_self_of_forall fun c hc =>
    (isTokenChar_spec (isTokenChar_entry h c hc)).2.1]
  have hequals : dropOptionalSpace ('=' :: token.toList) = '=' :: token.toList := rfl
  have hvalue : dropOptionalSpace token.toList = token.toList :=
    dropOptionalSpace_eq_self fun c hc => (isTokenChar_spec (h c hc)).2.2.1
  have hline : token.toList.all isNoLineBreak = true :=
    List.all_eq_true.2 fun c hc => (isTokenChar_spec (h c hc)).2.2.2
  rw [String.toList_append, atribEntry, afterKey_atrib]
  simp only [Option.bind_eq_bind, Option.bind_some, hequals, afterEquals, hvalue, hline, if_pos]

theorem parseTracestateAtrib_first {tracestate : String} {others : List (List Char)}
    (h : ∀ c ∈ token.toList, isTokenChar c = true)
    (hsplit : splitChars ',' tracestate.toList = ("atrib=" ++ token).toList :: others) :
    parseTracestateAtrib tracestate = some token := by
  have htrim : trimChars token.toList = token.toList := by
    rw [trimChars_eq_trim]
    exact trim_eq_self_of_forall fun c hc => (isTokenChar_spec (h c hc)).2.1
  rw [parseTracestateAtrib, hsplit, List.findSome?_cons, atribEntry_token h]
  simp only [Option.map_some, htrim, String.ofList_toList]

end

/-- A session token as it can stand in baggage. -/
structure SessionToken (session : String) : Prop where
  nonempty : session ≠ ""
  comma : ',' ∉ session.toList
  semicolon : ';' ∉ session.toList
  trimmed : trimChars session.toList = session.toList

namespace SessionToken

variable {session : String}

/-- The entry of a session is its own trimmed text, of which the session is read. -/
theorem sessionEntry_eq (h : SessionToken session) :
    sessionEntry (trimChars ("atrib-session=" ++ session).toList) = some session.toList := by
  have hne : session.toList ≠ [] := by simpa using h.nonempty
  obtain ⟨hfirst, hlast⟩ := trim_eq_self_iff.1 ((trimChars_eq_trim _).symm.trans h.trimmed)
  have htrim : trimChars ("atrib-session=" ++ session).toList =
      ("atrib-session=" ++ session).toList := by
    rw [trimChars_eq_trim, trim_eq_self_iff]
    refine ⟨fun _ => ?_, fun _ => ?_⟩
    · simp only [String.toList_append]
      rfl
    · simp only [String.toList_append]
      rw [List.getLast_append_of_ne_nil _ hne]
      exact hlast hne
  have hvalue : session.toList.dropWhile isSpace = session.toList := by
    rw [List.dropWhile_eq_self_iff]
    intro hlength
    rw [List.getElem_zero, hfirst hne]
    exact Bool.false_ne_true
  have hgroup : session.toList.takeWhile (· != ';') = session.toList := by
    rw [List.takeWhile_eq_self_iff]
    intro c hc
    exact bne_iff_ne.2 fun heq => h.semicolon (heq ▸ hc)
  have hequals : ('=' :: session.toList).dropWhile isSpace = '=' :: session.toList := rfl
  rw [htrim, String.toList_append, sessionEntry, afterKey_session]
  simp only [Option.bind_eq_bind, Option.bind_some, hequals, afterEquals, hvalue, hgroup]
  rfl

theorem comma_entry (h : SessionToken session) : ',' ∉ ("atrib-session=" ++ session).toList := by
  intro hcomma
  rw [String.toList_append, List.mem_append] at hcomma
  rcases hcomma with hcomma | hcomma
  · exact absurd hcomma (by decide)
  · exact h.comma hcomma

theorem merged (h : SessionToken session) (existing : String) :
    Merged "atrib-session" sessionEntry FitsBaggage ("atrib-session=" ++ session) existing
      (mergeBaggageAtribSession session existing) := by
  refine merged_mergeBaggage existing h.comma_entry ?_
  rw [hasKey, String.toList_append, afterKey_session]
  rfl

theorem parseBaggage_first (h : SessionToken session) {baggage : String}
    {others : List (List Char)}
    (hsplit : splitChars ',' baggage.toList = ("atrib-session=" ++ session).toList :: others) :
    parseBaggageAtribSession baggage = some session := by
  rw [parseBaggageAtribSession, hsplit, List.findSome?_cons, h.sessionEntry_eq]
  simp only [Option.map_some, h.trimmed, String.ofList_toList]

end SessionToken

/-! ## The members of `_meta` -/

section

variable (members : List (String × JsValue)) (key : String) (member : JsValue)

theorem withMember_object :
    ∃ written, withMember (.object members) key member = .object written := by
  rw [withMember]
  split
  · exact ⟨_, rfl⟩
  · exact ⟨_, rfl⟩

theorem lookup_map_other {other : String} (h : other ≠ key) :
    (members.map fun entry => if entry.1 = key then (key, member) else entry).lookup other =
      members.lookup other := by
  induction members with
  | nil => rfl
  | cons entry members ih =>
      obtain ⟨name, value⟩ := entry
      by_cases hname : name = key
      · subst hname
        simp only [List.map_cons, if_pos, List.lookup_cons, beq_eq_false_iff_ne.2 h, ih]
      · simp only [List.map_cons, if_neg hname, List.lookup_cons, ih]

theorem lookup_map_self (h : key ∈ members.map Prod.fst) :
    (members.map fun entry => if entry.1 = key then (key, member) else entry).lookup key =
      some member := by
  induction members with
  | nil => cases h
  | cons entry members ih =>
      obtain ⟨name, value⟩ := entry
      by_cases hname : name = key
      · subst hname
        simp only [List.map_cons, if_pos, List.lookup_cons, BEq.rfl]
      · have hmem := (List.mem_cons.1 h).resolve_left (Ne.symm hname)
        simp only [List.map_cons, if_neg hname, List.lookup_cons,
          beq_eq_false_iff_ne.2 (Ne.symm hname), ih hmem]

theorem member_withMember_self :
    (withMember (.object members) key member).member key = member := by
  rw [withMember]
  split
  · next h =>
      exact JsValue.member_of_get (by
        rw [JsValue.get, lookup_map_self members key member (List.contains_iff_mem.1 h)]
        rfl)
  · next h =>
      refine JsValue.member_of_get ?_
      have hnone : members.lookup key = none := by
        rw [List.lookup_eq_none_iff]
        intro entry hentry
        simp only [List.contains_iff_mem, List.mem_map, not_exists, not_and] at h
        exact bne_iff_ne.2 (Ne.symm (h entry hentry))
      rw [JsValue.get, List.lookup_append, hnone]
      simp

theorem member_withMember_other (value : JsValue) {other : String} (h : other ≠ key) :
    (withMember value key member).member other = value.member other := by
  cases value with
  | object members =>
      rw [withMember]
      split
      · simp only [JsValue.member, JsValue.get, lookup_map_other members key member h]
      · simp only [JsValue.member, JsValue.get, List.lookup_append, List.lookup_cons,
          List.lookup_nil, beq_eq_false_iff_ne.2 h, Option.or_none]
  | _ => rfl

end

/-- The text that a member has, and none where it is no text. -/
def textOf (value : JsValue) (key : String) : String := (value.member key).string?.getD ""

/-- What is written where there is a session. -/
theorem outboundMeta_members {resultMeta : JsValue} (hmeta : ∀ items, resultMeta ≠ .array items)
    (token : String) (traceparent : Option String) {session : String} (hsession : session ≠ "") :
    let written := outboundMeta resultMeta token traceparent (some session)
    written.member "atrib" = .string token ∧ written.member "X-Atrib-Chain" = .string token ∧
      written.member "tracestate" =
        .string (mergeTracestate ("atrib=" ++ token) (textOf resultMeta "tracestate")) ∧
      written.member "baggage" =
        .string (mergeBaggageAtribSession session (textOf resultMeta "baggage")) := by
  obtain ⟨existing, hexisting, hsame⟩ : ∃ existing,
      (if resultMeta.isObject then resultMeta else .object []) = .object existing ∧
        ∀ key, (JsValue.object existing).member key = resultMeta.member key := by
    cases resultMeta with
    | object members => exact ⟨members, rfl, fun _ => rfl⟩
    | array items => exact absurd rfl (hmeta items)
    | _ => exact ⟨[], rfl, fun _ => rfl⟩
  intro written
  let tracestate := mergeTracestate ("atrib=" ++ token) (textOf resultMeta "tracestate")
  obtain ⟨first, hfirst⟩ := withMember_object existing "atrib" (.string token)
  obtain ⟨second, hsecond⟩ := withMember_object first "tracestate" (.string tracestate)
  obtain ⟨third, hthird⟩ := withMember_object second "X-Atrib-Chain" (.string token)
  have hatrib : (JsValue.object third).member "atrib" = .string token := by
    rw [← hthird, member_withMember_other _ _ _ (by decide), ← hsecond,
      member_withMember_other _ _ _ (by decide), ← hfirst, member_withMember_self]
  have htracestate : (JsValue.object third).member "tracestate" = .string tracestate := by
    rw [← hthird, member_withMember_other _ _ _ (by decide), ← hsecond, member_withMember_self]
  have hchain : (JsValue.object third).member "X-Atrib-Chain" = .string token := by
    rw [← hthird, member_withMember_self]
  have hbaggage : (JsValue.object third).member "baggage" = resultMeta.member "baggage" := by
    rw [← hthird, member_withMember_other _ _ _ (by decide), ← hsecond,
      member_withMember_other _ _ _ (by decide), ← hfirst,
      member_withMember_other _ _ _ (by decide), hsame]
  obtain ⟨traced, hother, hwritten⟩ : ∃ traced,
      (∀ key, key ≠ "traceparent" →
        (JsValue.object traced).member key = (JsValue.object third).member key) ∧
        written = withMember (.object traced) "baggage"
          (.string (mergeBaggageAtribSession session (textOf resultMeta "baggage"))) := by
    have hsome : (some session).filter (· ≠ "") = some session := by simp [hsession]
    show ∃ traced, _ ∧ outboundMeta resultMeta token traceparent (some session) = _
    simp only [outboundMeta, hexisting, hsame, hsome]
    rw [← textOf, hfirst, hsecond, hthird]
    cases traceparent.filter (· ≠ "") with
    | none =>
        refine ⟨third, fun _ _ => rfl, ?_⟩
        simp only [hbaggage, textOf]
    | some text =>
        obtain ⟨traced, htraced⟩ := withMember_object third "traceparent" (.string text)
        have hother : ∀ key, key ≠ "traceparent" →
            (JsValue.object traced).member key = (JsValue.object third).member key := by
          intro key hkey
          rw [← htraced, member_withMember_other _ _ _ hkey]
        refine ⟨traced, hother, ?_⟩
        simp only [htraced, hother "baggage" (by decide), hbaggage, textOf]
  rw [hwritten]
  refine ⟨?_, ?_, ?_, member_withMember_self _ _ _⟩
  · rw [member_withMember_other _ _ _ (by decide), hother _ (by decide), hatrib]
  · rw [member_withMember_other _ _ _ (by decide), hother _ (by decide), hchain]
  · rw [member_withMember_other _ _ _ (by decide), hother _ (by decide), htracestate]

/-! ## The round trip -/

/-- The keys that a token is written under. -/
def carriers : List String := ["atrib", "tracestate", "X-Atrib-Chain"]

/-- A request's `_meta` with what was written under one of the keys, and the baggage. -/
def CarriesOnly (carrier : String) (written requestMeta : JsValue) : Prop :=
  requestMeta.member carrier = written.member carrier ∧
    requestMeta.member "baggage" = written.member "baggage" ∧
    ∀ other ∈ carriers ++ ["x-atrib-chain"], other ≠ carrier →
      requestMeta.member other = .undefined

/-- The request is read as one of the record with the hash, its creator and the session. -/
def ReadAs (recordHash creatorKey : Bytes) (session : String) (params : JsValue) : Prop :=
  ∃ inbound, readInboundContext params = some inbound ∧ inbound.recordHash = recordHash ∧
    inbound.creatorKey = creatorKey ∧ inbound.sessionToken = some session

theorem metaText_undefined {members : JsValue} {key : String}
    (h : members.member key = .undefined) : metaText members key = none := by
  rw [metaText, h]
  rfl

theorem metaText_string {members : JsValue} {key text : String}
    (h : members.member key = .string text) (hne : text ≠ "") :
    metaText members key = some text := by
  rw [metaText, h]
  simp [JsValue.string?, hne]

theorem readAs_of_carriesOnly {written params : JsValue} {token : DecodedToken}
    {text tracestate baggage session carrier : String} (hdecode : decodeToken text = some token)
    (htext : text ≠ "") (hatrib : written.member "atrib" = .string text)
    (hchain : written.member "X-Atrib-Chain" = .string text)
    (htracestate : written.member "tracestate" = .string tracestate)
    (hparse : parseTracestateAtrib tracestate = some text)
    (hbaggage : written.member "baggage" = .string baggage)
    (hsession : parseBaggageAtribSession baggage = some session) (hcarrier : carrier ∈ carriers)
    (hparams : CarriesOnly carrier written (params.member "_meta")) :
    ReadAs token.recordHash token.creatorKey session params := by
  obtain ⟨hsame, hsameBaggage, hothers⟩ := hparams
  have htraceNe : tracestate ≠ "" := fun h => by rw [h] at hparse; cases hparse
  have hbaggageNe : baggage ≠ "" := fun h => by rw [h] at hsession; cases hsession
  have hfound : ((metaText (params.member "_meta") "baggage").bind parseBaggageAtribSession) =
      some session := by
    rw [metaText_string (hsameBaggage.trans hbaggage) hbaggageNe, Option.bind_some, hsession]
  let contextId := (metaText (params.member "_meta") "traceparent").bind extractTraceId
  refine ⟨⟨token.recordHash, token.creatorKey, contextId, some session⟩, ?_, rfl, rfl, rfl⟩
  simp only [carriers, List.mem_cons, List.not_mem_nil, or_false] at hcarrier
  rcases hcarrier with rfl | rfl | rfl
  · have hmeta := metaText_string (hsame.trans hatrib) htext
    simp only [readInboundContext, hmeta, hdecode, hfound, Option.bind_some, Option.some_or]
    rfl
  · have hmeta := metaText_undefined (hothers "atrib" (by decide) (by decide))
    have htrace := metaText_string (hsame.trans htracestate) htraceNe
    simp only [readInboundContext, hmeta, htrace, hparse, hdecode, hfound, Option.bind_some,
      Option.bind_none, Option.none_or, Option.some_or, if_neg htext]
    rfl
  · have hmeta := metaText_undefined (hothers "atrib" (by decide) (by decide))
    have htrace := metaText_undefined (hothers "tracestate" (by decide) (by decide))
    have hheader : ((params.member "_meta").member "X-Atrib-Chain").orElse
        ((params.member "_meta").member "x-atrib-chain") = .string text := by
      rw [hsame, hchain]
      rfl
    have hfilter : (some text).filter (· ≠ "") = some text := by simp [htext]
    simp only [readInboundContext, hmeta, htrace, hheader, JsValue.string?, hfilter, hdecode,
      hfound, Option.bind_some, Option.bind_none, Option.none_or]
    rfl

/-- A record's token and a session come back from whatever they are written into, under each of
the keys. Of what was there before stays as much as fits, in its order. -/
theorem context_round_trip {P : Platform} {record : JsValue} {bytes : Bytes}
    (hsigned : verifySignature P record = .ok true) (hbytes : canonicalBytes P record = .ok bytes)
    {result : List (String × JsValue)}
    (hmeta : ∀ items, (JsValue.object result).member "_meta" ≠ .array items)
    (traceparent : Option String) {session : String} (hsession : SessionToken session) :
    ∃ token creatorKey written tracestate baggage,
      decodeText (record.member "creator_key") = .ok creatorKey ∧
      Outbound.encodeToken P record = .ok token ∧
      Outbound.writeOutboundContext P (.object result) record ⟨traceparent, some session⟩ =
        .ok written ∧
      (∀ carrier ∈ carriers, ∀ params,
        CarriesOnly carrier (written.member "_meta") (params.member "_meta") →
          ReadAs (P.hash.sha256 bytes) creatorKey session params) ∧
      (written.member "_meta").member "tracestate" = .string tracestate ∧
      (written.member "_meta").member "baggage" = .string baggage ∧
      (splitChars ',' tracestate.toList).length ≤ 32 ∧
      (splitChars ',' baggage.toList).length ≤ 64 ∧
      ((utf8 ("atrib-session=" ++ session)).length ≤ 8192 → (utf8 baggage).length ≤ 8192) ∧
      Merged "atrib" atribEntry FitsTracestate ("atrib=" ++ token)
        (textOf ((JsValue.object result).member "_meta") "tracestate") tracestate ∧
      Merged "atrib-session" sessionEntry FitsBaggage ("atrib-session=" ++ session)
        (textOf ((JsValue.object result).member "_meta") "baggage") baggage := by
  obtain ⟨creatorKey, hcreator, hlength⟩ := LogNode.decodeText_of_verifySignature hsigned
  let token := tokenOf (P.hash.sha256 bytes) creatorKey
  have hchars : ∀ c ∈ token.toList, isTokenChar c = true := isTokenChar_tokenOf _ _
  have hdecode := decodeToken_tokenOf (P.hash.length_sha256 bytes) hlength
  have htoken : token ≠ "" := fun h => by
    have hchars := congrArg String.toList h
    rw [toList_tokenOf] at hchars
    simp at hchars
  have hencode : Outbound.encodeToken P record = .ok token :=
    encodeToken_eq hbytes hcreator hlength
  let written := withMember (.object result) "_meta"
    (outboundMeta ((JsValue.object result).member "_meta") token traceparent (some session))
  have hwritten : written.member "_meta" = _ := member_withMember_self result "_meta" _
  obtain ⟨hatrib, hchain, htracestate, hbaggage⟩ :=
    outboundMeta_members hmeta token traceparent hsession.nonempty
  have hcomma : ',' ∉ ("atrib=" ++ token).toList := fun h =>
    (isTokenChar_spec (isTokenChar_entry hchars _ h)).1 rfl
  have hkey : hasKey "atrib" ("atrib=" ++ token).toList = true := by
    rw [hasKey, String.toList_append, afterKey_atrib]
    rfl
  have hmergedTrace := merged_mergeTracestate
    (textOf ((JsValue.object result).member "_meta") "tracestate") hcomma hkey
  have hmergedBaggage := hsession.merged
    (textOf ((JsValue.object result).member "_meta") "baggage")
  obtain ⟨keptTrace, -, hsplitTrace, -, -, hfitsTrace, -⟩ := id hmergedTrace
  obtain ⟨keptBaggage, -, hsplitBaggage, -, -, hfitsBaggage, -⟩ := id hmergedBaggage
  refine ⟨token, creatorKey, written, _, _, hcreator, hencode, ?_,
    fun carrier hcarrier params hparams => ?_, hwritten ▸ htracestate, hwritten ▸ hbaggage,
    ?_, ?_, ?_, hmergedTrace, hmergedBaggage⟩
  · simp only [Outbound.writeOutboundContext, hencode, bind, Except.bind]
    rfl
  · rw [hwritten] at hparams
    exact readAs_of_carriesOnly hdecode htoken hatrib hchain htracestate
      (parseTracestateAtrib_first hchars hsplitTrace) hbaggage
      (hsession.parseBaggage_first hsplitBaggage) hcarrier hparams
  · rcases hfitsTrace with hfits | ⟨rfl, -⟩
    · exact hfits
    · rw [hsplitTrace]
      exact Nat.le_add_left 1 31
  · rcases hfitsBaggage with hfits | ⟨rfl, -⟩
    · exact hfits.1
    · rw [hsplitBaggage]
      exact Nat.le_add_left 1 63
  · intro halone
    rcases hfitsBaggage with hfits | ⟨-, hlong⟩
    · exact hfits.2
    · refine absurd ⟨?_, halone⟩ hlong
      rw [splitChars_entry hsession.comma_entry]
      exact Nat.le_add_left 1 63

theorem sessionToken_of_readInboundContext {params : JsValue} {inbound : InboundContext}
    (h : readInboundContext params = some inbound) :
    inbound.sessionToken =
      (metaText (params.member "_meta") "baggage").bind parseBaggageAtribSession := by
  simp only [readInboundContext, Option.bind_eq_bind, Option.bind_eq_some_iff] at h
  obtain ⟨token, -, hinbound⟩ := h
  cases hinbound
  rfl

namespace CarriedSample

open LogNode (SpelledSample.platform SpelledSample.canonicalSpelling
  SpelledSample.accepted_canonicalSpelling verifySignature_of_verifyRecord)
open Recall.Mirror (ForgedSample.canonicalText)

/-- A result that has a stale entry, and other vendors' entries. -/
def result : List (String × JsValue) :=
  [("_meta", .object [
    ("tracestate", .string "vendor=1,, atrib \t = stale ,other=2"),
    ("baggage", .string "atrib-session = old;ttl=1, user=7")])]

def recordBytes : Bytes := utf8 (ForgedSample.canonicalText SpelledSample.canonicalSpelling)

theorem verified :
    verifySignature SpelledSample.platform SpelledSample.canonicalSpelling = .ok true :=
  verifySignature_of_verifyRecord SpelledSample.accepted_canonicalSpelling.verified

theorem canonicalBytes_record :
    canonicalBytes SpelledSample.platform SpelledSample.canonicalSpelling = .ok recordBytes := rfl

theorem context_round_trip_stale :
    ∃ creatorKey written,
      Outbound.writeOutboundContext SpelledSample.platform (.object result)
          SpelledSample.canonicalSpelling ⟨none, some "session-1"⟩ = .ok written ∧
      ∀ carrier ∈ carriers, ∀ params,
        CarriesOnly carrier (written.member "_meta") (params.member "_meta") →
          ReadAs (SpelledSample.platform.hash.sha256 recordBytes) creatorKey "session-1"
            params := by
  have hmeta : ∀ items, (JsValue.object result).member "_meta" ≠ .array items :=
    fun items h => by cases h
  have hsession : SessionToken "session-1" := ⟨by decide, by decide, by decide, by decide⟩
  obtain ⟨_, creatorKey, written, _, _, -, -, hwritten, hread, -⟩ :=
    context_round_trip verified canonicalBytes_record hmeta none hsession
  exact ⟨creatorKey, written, hwritten, hread⟩

/-- A session without a name is not written, and the one that was there before is read. -/
theorem empty_session_not_written :
    ∃ written params,
      Outbound.writeOutboundContext SpelledSample.platform (.object result)
          SpelledSample.canonicalSpelling ⟨none, some ""⟩ = .ok written ∧
      CarriesOnly "atrib" (written.member "_meta") (params.member "_meta") ∧
      ∀ recordHash creatorKey, ¬ReadAs recordHash creatorKey "" params := by
  obtain ⟨creatorKey, hcreator, hlength⟩ := LogNode.decodeText_of_verifySignature verified
  have hencode := encodeToken_eq canonicalBytes_record hcreator hlength
  generalize tokenOf _ creatorKey = token at hencode
  let old := "atrib-session = old;ttl=1, user=7"
  let request : JsValue :=
    .object [("_meta", .object [("atrib", .string token), ("baggage", .string old)])]
  let written := withMember (.object result) "_meta"
    (outboundMeta ((JsValue.object result).member "_meta") token none (some ""))
  refine ⟨written, request, ?_, ⟨rfl, rfl, ?_⟩, ?_⟩
  · simp only [Outbound.writeOutboundContext, hencode, bind, Except.bind]
    rfl
  · intro other hother hne
    simp only [carriers, List.mem_append, List.mem_cons, List.not_mem_nil, or_false] at hother
    rcases hother with (rfl | rfl | rfl) | rfl
    · exact absurd rfl hne
    · rfl
    · rfl
    · rfl
  · rintro recordHash creatorKey ⟨inbound, hread, -, -, hsession⟩
    rw [sessionToken_of_readInboundContext hread] at hsession
    have hmeta : metaText (request.member "_meta") "baggage" = some old := rfl
    have hold : parseBaggageAtribSession old = some "old" := by decide
    rw [hmeta, Option.bind_some, hold] at hsession
    exact absurd hsession (by decide)

end CarriedSample

end Atrib.Middleware
