import Atrib.Lib.Texts
import Atrib.Mcp.ContentId
import Atrib.Proofs.Encodings
import Mathlib.Data.List.Infix

/-!
# What the id of a tool tells apart

A normalized URL has lost one slash at its end. Where its path ended in two, it
is normalized further when it comes again. The text that is hashed has a colon
between the URL and the name of the tool, and colons of their own are in either:
two texts come apart in the same place when the names have as many of them.
-/

namespace Atrib.ContentId

open Lib.Texts (append_cons_inj_of_count)

/-! ## One slash less -/

/-- The path without a slash at its end. -/
def strip (path : List Char) : List Char :=
  if path.getLast? = some '/' then path.dropLast else path

theorem strip_concat (path : List Char) (c : Char) :
    strip (path ++ [c]) = if c = '/' then path else path ++ [c] := by
  simp [strip]

theorem strip_strip_iff (path : List Char) :
    strip (strip path) = strip path ↔ ¬['/', '/'] <:+ path := by
  rw [← List.reverse_prefix]
  rcases List.eq_nil_or_concat path with rfl | ⟨path, c, rfl⟩
  · simp [strip]
  · rw [List.concat_eq_append, strip_concat]
    by_cases hc : c = '/'
    · rw [if_pos hc, hc]
      rcases List.eq_nil_or_concat path with rfl | ⟨path, c, rfl⟩
      · simp [strip]
      · rw [List.concat_eq_append, strip_concat]
        by_cases hc : c = '/'
        · simp [hc]
        · simp [hc, Ne.symm hc]
    · rw [if_neg hc, strip_concat, if_neg hc]
      simp [Ne.symm hc]

variable {P : Platform}

theorem toList_sliceLast (text : String) : (sliceLast text).toList = text.toList.dropLast := by
  rw [sliceLast, String.toList_ofList]

/-- A slash at the end of what is written is one of the path. -/
theorem endsWithSlash_iff (h : Whatwg P) {url : String} {parsed : ParsedUrl}
    (hparse : P.parseUrl url = some parsed) (hsegments : parsed.Hierarchical) :
    endsWithSlash (parsed.protocol ++ "//" ++ parsed.host ++ parsed.pathname) = true ↔
      parsed.pathname.toList.getLast? = some '/' := by
  rw [endsWithSlash, beq_iff_eq, String.toList_append, List.getLast?_append]
  cases hlast : parsed.pathname.toList.getLast? with
  | some c => simp
  | none =>
      have hpath : parsed.pathname = "" := by simpa using hlast
      have hhost : parsed.host ≠ "" :=
        hsegments.resolve_left fun hspecial => h.rooted hparse hspecial hpath
      simp only [Option.none_or, reduceCtorEq, iff_false]
      rw [String.toList_append, List.getLast?_append_of_ne_nil _ (by simpa using hhost)]
      exact fun hslash => h.slash_host hparse (List.mem_of_getLast? hslash)

/-- A URL is written without the slash at the end of its path. -/
theorem toList_normalize (h : Whatwg P) {url : String} {parsed : ParsedUrl}
    (hparse : P.parseUrl url = some parsed) (hsegments : parsed.Hierarchical) :
    (normalizeServerUrl P url).toList =
      (parsed.protocol ++ "//" ++ parsed.host).toList ++ strip parsed.pathname.toList := by
  have hurl : url ≠ "" := fun hempty => by
    rw [hempty, h.empty] at hparse
    cases hparse
  have hslash := endsWithSlash_iff h hparse hsegments
  rw [normalizeServerUrl, if_neg hurl, hparse]
  dsimp only
  by_cases hroot : parsed.pathname = "/"
  · have hnone : strip "/".toList = [] := rfl
    rw [if_pos hroot, hroot, hnone, List.append_nil, if_neg (by simp), toList_sliceLast,
      String.toList_append]
    exact List.dropLast_concat
  · rw [if_neg hroot, strip]
    by_cases hlast : parsed.pathname.toList.getLast? = some '/'
    · have hne : parsed.pathname.toList ≠ [] := fun hnil => by
        rw [hnil] at hlast
        cases hlast
      rw [if_pos (by simp [hslash.2 hlast, hroot]), if_pos hlast, toList_sliceLast,
        String.toList_append, List.dropLast_append_of_ne_nil hne]
    · rw [if_neg (by simp [hslash, hlast]), if_neg hlast, String.toList_append]

/-! ## Normalizing twice -/

/-- What is written of a URL is parsed into it again, without the slash. -/
theorem parseUrl_normalize (h : Whatwg P) {url : String} {parsed : ParsedUrl}
    (hparse : P.parseUrl url = some parsed) (hsegments : parsed.Hierarchical) :
    P.parseUrl (normalizeServerUrl P url) = some { parsed with
      pathname :=
        if parsed.protocol ∈ specialSchemes ∧ strip parsed.pathname.toList = [] then "/"
        else String.ofList (strip parsed.pathname.toList) } := by
  have hnormal : normalizeServerUrl P url =
      parsed.protocol ++ "//" ++ parsed.host ++ String.ofList (strip parsed.pathname.toList) := by
    rw [← String.toList_inj, toList_normalize h hparse hsegments]
    simp only [String.toList_append, String.toList_ofList]
  obtain ⟨rest, hpath, hrest⟩ : ∃ rest,
      parsed.pathname = String.ofList (strip parsed.pathname.toList) ++ rest ∧
        (rest = "" ∨ rest.toList.head? = some '/') := by
    rw [strip]
    split
    · next hlast =>
        refine ⟨"/", ?_, .inr rfl⟩
        rw [← String.toList_inj, String.toList_append, String.toList_ofList]
        exact (List.dropLast_append_getLast? '/' hlast).symm
    · exact ⟨"", by simp, .inl rfl⟩
  have hempty : String.ofList (strip parsed.pathname.toList) = "" ↔
      strip parsed.pathname.toList = [] := by
    rw [← String.toList_inj, String.toList_ofList]
    rfl
  rw [hnormal, h.reparse hparse hsegments _ rest hpath hrest]
  simp only [hempty]

theorem normalize_idem_iff (h : Whatwg P) {url : String} {parsed : ParsedUrl}
    (hparse : P.parseUrl url = some parsed) (hsegments : parsed.Hierarchical) :
    normalizeServerUrl P (normalizeServerUrl P url) = normalizeServerUrl P url ↔
      ¬['/', '/'] <:+ parsed.pathname.toList := by
  have hagain := parseUrl_normalize h hparse hsegments
  rw [← String.toList_inj, toList_normalize h hagain hsegments,
    toList_normalize h hparse hsegments, List.append_cancel_left_eq, ← strip_strip_iff]
  split
  · next hroot =>
      have hnone : strip "/".toList = [] := rfl
      rw [hroot.2, hnone]
      simp [strip]
  · rw [String.toList_ofList]

/-- The text is no URL, nor is what it is in lower case. -/
def NoUrl (P : Platform) (url : String) : Prop :=
  P.parseUrl url = none ∧ P.parseUrl (P.toLowerCase url) = none

theorem normalize_idem_of_noUrl (h : Whatwg P) {url : String} (hno : url = "" ∨ NoUrl P url) :
    normalizeServerUrl P (normalizeServerUrl P url) = normalizeServerUrl P url := by
  by_cases hempty : url = ""
  · have hnone : normalizeServerUrl P "" = "" := if_pos rfl
    rw [hempty, hnone, hnone]
  · have hno := hno.resolve_left hempty
    have hlower : normalizeServerUrl P url = P.toLowerCase url := by
      rw [normalizeServerUrl, if_neg hempty, hno.1]
    rw [hlower, normalizeServerUrl, hno.2]
    split
    · next hnone => exact hnone.symm
    · exact h.toLowerCase_idem url

/-! ## The id -/

/-- The text that is hashed. -/
def idInput (P : Platform) (serverUrl toolName : String) : Bytes :=
  utf8 (normalizeServerUrl P serverUrl ++ ":" ++ toolName)

theorem idInput_eq_of_computeContentId {url url' tool tool' : String}
    (hcf : P.hash.CollisionFree [idInput P url tool, idInput P url' tool'])
    (h : computeContentId P url tool = computeContentId P url' tool') :
    normalizeServerUrl P url ++ ":" ++ tool = normalizeServerUrl P url' ++ ":" ++ tool' :=
  utf8_inj (hcf (idInput P url tool) (by simp) (idInput P url' tool') (by simp) (sha256Ref_inj h))

/-- Of two tools with one id the URLs and the names are the same when the names have equally
many colons. -/
theorem eq_iff_of_computeContentId {url url' tool tool' : String}
    (hcf : P.hash.CollisionFree [idInput P url tool, idInput P url' tool'])
    (h : computeContentId P url tool = computeContentId P url' tool') :
    normalizeServerUrl P url = normalizeServerUrl P url' ∧ tool = tool' ↔
      tool.toList.count ':' = tool'.toList.count ':' := by
  refine ⟨fun hsame => by rw [hsame.2], fun hcount => ?_⟩
  have hinput := congrArg String.toList (idInput_eq_of_computeContentId hcf h)
  simp only [String.toList_append, List.append_assoc] at hinput
  obtain ⟨hurl, htool⟩ := append_cons_inj_of_count hinput hcount
  exact ⟨String.toList_inj.1 hurl, String.toList_inj.1 htool⟩

namespace PortSample

def secure (host pathname : String) : ParsedUrl := ⟨"https:", host, pathname⟩

/-- Some URLs in lower case, and what they are parsed into. -/
def urls : List (String × ParsedUrl) := [
  ("https://a.com//", secure "a.com" "//"), ("https://a.com/", secure "a.com" "/"),
  ("https://a.com", secure "a.com" "/"), ("https://a.com:8080/", secure "a.com:8080" "/"),
  ("https://a.com:8080", secure "a.com:8080" "/")]

def platform : Platform where
  parseUrl url := urls.lookup url
  toLowerCase text := text
  hash := .fips180

theorem mem_of_parseUrl {url : String} {parsed : ParsedUrl}
    (h : platform.parseUrl url = some parsed) : (url, parsed) ∈ urls := by
  obtain ⟨before, after, hurls, -⟩ := List.lookup_eq_some_iff.1 h
  rw [hurls]
  exact List.mem_append_right _ List.mem_cons_self

theorem whatwg : Whatwg platform where
  empty := rfl
  rooted {url parsed} h _ := by
    have hall : ∀ entry ∈ urls, entry.2.pathname ≠ "" := by decide
    exact hall _ (mem_of_parseUrl h)
  slash_host {url parsed} h := by
    have hall : ∀ entry ∈ urls, '/' ∉ entry.2.host.toList := by decide
    exact hall _ (mem_of_parseUrl h)
  reparse {url parsed} h _ kept rest hpath _ := by
    have hall : ∀ entry ∈ urls, ∀ kept ∈ entry.2.pathname.toList.inits,
        platform.parseUrl (entry.2.protocol ++ "//" ++ entry.2.host ++ String.ofList kept) =
          some { entry.2 with
            pathname := if entry.2.protocol ∈ specialSchemes ∧ String.ofList kept = "" then "/"
              else String.ofList kept } := by decide +kernel
    have hkept : kept.toList ∈ parsed.pathname.toList.inits := by
      rw [List.mem_inits, hpath, String.toList_append]
      exact List.prefix_append _ _
    have hentry := hall _ (mem_of_parseUrl h) _ hkept
    rwa [String.ofList_toList] at hentry
  toLowerCase_idem _ := rfl

end PortSample

end Atrib.ContentId
