import Atrib.Lib.Decimal
import Atrib.LogNode.Checkpoint
import Atrib.Proofs.Encodings

/-!
# Checkpoints read back
-/

namespace Atrib.Verify

/-! ## Base64 -/

theorem base64Value_base64Char {n : ℕ} (h : n < 64) : base64Value (base64Char n) = some n := by
  revert n
  decide +kernel

/-- The characters that are not padding. -/
def isBase64Digit (c : Char) : Bool := c.isAlphanum || c == '+' || c == '/'

theorem isBase64Digit_base64Char {n : ℕ} (h : n < 64) : isBase64Digit (base64Char n) = true := by
  revert n
  decide +kernel

theorem isSpace_base64Char {n : ℕ} (h : n < 64) : isSpace (base64Char n) = false := by
  revert n
  decide +kernel

theorem ne_pad_of_isBase64Digit {c : Char} (h : isBase64Digit c = true) : c ≠ '=' := by
  rintro rfl
  revert h
  decide

theorem base64urlValues_lt (bytes : Bytes) : ∀ n ∈ base64urlValues bytes, n < 64 := by
  fun_induction base64urlValues bytes with
  | case1 => simp
  | case2 b0 =>
      have h0 := b0.toNat_lt
      simp only [List.mem_cons, List.not_mem_nil, or_false]
      rintro n (rfl | rfl) <;> omega
  | case3 b0 b1 =>
      have h0 := b0.toNat_lt
      have h1 := b1.toNat_lt
      simp only [List.mem_cons, List.not_mem_nil, or_false]
      rintro n (rfl | rfl | rfl) <;> omega
  | case4 b0 b1 b2 bytes ih =>
      have h0 := b0.toNat_lt
      have h1 := b1.toNat_lt
      have h2 := b2.toNat_lt
      simp only [List.mem_cons]
      rintro n (rfl | rfl | rfl | rfl | hn)
      · omega
      · omega
      · omega
      · omega
      · exact ih n hn

/-- How many signs of equality stand at the end. -/
def padding (bytes : Bytes) : ℕ := (3 - bytes.length % 3) % 3

theorem base64Chars_eq (bytes : Bytes) :
    base64Chars bytes =
      (base64urlValues bytes).map base64Char ++ List.replicate (padding bytes) '=' := by
  fun_induction base64Chars bytes with
  | case1 | case2 | case3 => rfl
  | case4 b0 b1 b2 bytes ih =>
      have hpadding : padding (b0 :: b1 :: b2 :: bytes) = padding bytes := by
        simp only [padding, List.length_cons]
        omega
      rw [ih, base64urlValues, hpadding]
      rfl

theorem isBase64Digit_of_mem {bytes : Bytes} {c : Char}
    (h : c ∈ (base64urlValues bytes).map base64Char) : isBase64Digit c = true := by
  obtain ⟨n, hn, rfl⟩ := List.mem_map.1 h
  exact isBase64Digit_base64Char (base64urlValues_lt bytes n hn)

theorem base64Bytes_base64Chars (bytes : Bytes) : base64Bytes (base64Chars bytes) = bytes := by
  have hdigits : (base64Chars bytes).takeWhile (· ≠ '=') =
      (base64urlValues bytes).map base64Char := by
    rw [base64Chars_eq, List.takeWhile_append_of_pos]
    · cases hn : padding bytes <;> simp [List.replicate_succ]
    · intro c hc
      simpa using ne_pad_of_isBase64Digit (isBase64Digit_of_mem hc)
  have hvalues : ((base64urlValues bytes).map base64Char).filterMap base64Value =
      base64urlValues bytes := by
    rw [List.filterMap_map, List.filterMap_congr (g := some), List.filterMap_some]
    intro n hn
    exact base64Value_base64Char (base64urlValues_lt bytes n hn)
  rw [base64Bytes, hdigits, hvalues, base64urlBytes_base64urlValues]

theorem length_base64Chars (bytes : Bytes) : (base64Chars bytes).length % 4 = 0 := by
  fun_induction base64Chars bytes with
  | case1 => rfl
  | case2 | case3 => simp
  | case4 b0 b1 b2 bytes ih => simp only [List.length_cons]; omega

theorem isBase64Text_of {text : String} {digits : List Char} {n : ℕ}
    (htext : text.toList = digits ++ List.replicate n '=') (hne : digits ≠ [])
    (hdigits : ∀ c ∈ digits, isBase64Digit c = true) (hn : n < 3) : isBase64Text text = true := by
  have htake : text.toList.takeWhile isBase64Digit = digits := by
    rw [htext, List.takeWhile_append_of_pos hdigits]
    cases n <;> simp [List.replicate_succ, isBase64Digit]
  have hdrop : text.toList.drop digits.length = List.replicate n '=' := by
    rw [htext, List.drop_left]
  have hdigit : (fun c : Char => c.isAlphanum || c == '+' || c == '/') = isBase64Digit := rfl
  rw [isBase64Text, hdigit, htake, hdrop]
  have hpadding : n = 0 ∨ n = 1 ∨ n = 2 := by omega
  rcases hpadding with rfl | rfl | rfl <;> simp [hne]

theorem isBase64Text_base64Chars {bytes : Bytes} (hne : bytes ≠ []) :
    isBase64Text (String.ofList (base64Chars bytes)) = true := by
  have hvalues : base64urlValues bytes ≠ [] := by
    match bytes, hne with
    | [_], _ => exact List.cons_ne_nil _ _
    | [_, _], _ => exact List.cons_ne_nil _ _
    | _ :: _ :: _ :: _, _ => exact List.cons_ne_nil _ _
  refine isBase64Text_of (String.toList_ofList.trans (base64Chars_eq bytes)) ?_
    (fun c hc => isBase64Digit_of_mem hc) (Nat.mod_lt _ (by decide))
  exact fun h => hvalues (List.map_eq_nil_iff.1 h)

theorem decodeBase64_toBase64 {bytes : Bytes} (hne : bytes ≠ []) {length : Option ℕ}
    (hlength : ∀ n, length = some n → bytes.length = n) (label : String) :
    decodeBase64 .node (Buffers.node.toBase64 bytes) length label = .ok bytes := by
  have hback : Buffers.node.ofBase64 (Buffers.node.toBase64 bytes) = bytes := by
    show base64Bytes (String.ofList (base64Chars bytes)).toList = bytes
    rw [String.toList_ofList, base64Bytes_base64Chars]
  have htext : ¬(!isBase64Text (Buffers.node.toBase64 bytes) ∨
      (Buffers.node.toBase64 bytes).toList.length % 4 ≠ 0) := by
    have hmod : (Buffers.node.toBase64 bytes).toList.length % 4 = 0 := by
      show (String.ofList (base64Chars bytes)).toList.length % 4 = 0
      rw [String.toList_ofList, length_base64Chars]
    have hshape : isBase64Text (Buffers.node.toBase64 bytes) = true := isBase64Text_base64Chars hne
    simp [hmod, hshape]
  rw [decodeBase64, if_neg htext, hback]
  dsimp only
  rw [if_neg (not_not.2 rfl)]
  cases length with
  | none => rfl
  | some n =>
      dsimp only
      rw [if_neg (not_not.2 (hlength n rfl))]

/-- None of the characters of a base64 text is a space. -/
theorem isSpace_base64Chars {bytes : Bytes} {c : Char} (h : c ∈ base64Chars bytes) :
    isSpace c = false := by
  rw [base64Chars_eq, List.mem_append] at h
  rcases h with h | h
  · obtain ⟨n, hn, rfl⟩ := List.mem_map.1 h
    exact isSpace_base64Char (base64urlValues_lt bytes n hn)
  · rw [List.eq_of_mem_replicate h]
    rfl

theorem newline_not_mem_toBase64 (bytes : Bytes) :
    '\n' ∉ (Buffers.node.toBase64 bytes).toList := by
  show '\n' ∉ (String.ofList (base64Chars bytes)).toList
  rw [String.toList_ofList]
  intro h
  exact absurd (isSpace_base64Chars h) (by decide)

/-- A text that is decoded is the one that its bytes are encoded in. -/
theorem toBase64_of_decodeBase64 {buffers : Buffers} {text label : String} {length : Option ℕ}
    {bytes : Bytes} (h : decodeBase64 buffers text length label = .ok bytes) :
    buffers.toBase64 bytes = text := by
  unfold decodeBase64 at h
  split at h
  · cases h
  · dsimp only at h
    split at h
    · cases h
    · next hback =>
        split at h
        · cases h
          exact not_not.1 hback
        · split at h
          · cases h
          · cases h
            exact not_not.1 hback

/-! ## Sizes -/

open Lib.Decimal (Canonical canonical_toDigits value)

theorem decimal?_eq_some {text : List Char} {n : ℕ} :
    decimal? text = some n ↔ Canonical text ∧ value text = n := by
  have hfold : text.foldl (fun n c => 10 * n + (c.toNat - '0'.toNat)) 0 = value text := rfl
  have hhead : text ≠ [] → (text.headD '0' ≠ '0' ∨ text = ['0'] ↔
      (text.head? = some '0' → text = ['0'])) := by
    cases text with
    | nil => simp
    | cons c text => by_cases hc : c = '0' <;> simp [hc]
  rw [decimal?, hfold]
  constructor
  · intro h
    split at h
    · next hok =>
        obtain ⟨hne, hdigits, hstart⟩ := hok
        cases h
        exact ⟨⟨List.all_eq_true.1 hdigits, hne, (hhead hne).1 hstart⟩, rfl⟩
    · cases h
  · rintro ⟨⟨hdigits, hne, hstart⟩, rfl⟩
    exact if_pos ⟨hne, List.all_eq_true.2 hdigits, (hhead hne).2 hstart⟩

theorem decimal?_toDigits (n : ℕ) : decimal? (Nat.toDigits 10 n) = some n :=
  decimal?_eq_some.2 ⟨canonical_toDigits n, Nat.ofDigitChars_ten_toDigits⟩

theorem toDigits_of_decimal? {text : List Char} {n : ℕ} (h : decimal? text = some n) :
    Nat.toDigits 10 n = text := by
  obtain ⟨hcanonical, rfl⟩ := decimal?_eq_some.1 h
  exact hcanonical.toDigits_value

theorem newline_not_mem_toDigits (n : ℕ) : '\n' ∉ Nat.toDigits 10 n := by
  intro h
  have hdigit := (canonical_toDigits n).digits _ h
  revert hdigit
  decide

/-! ## Lines -/

theorem splitAtBlankLine_newline {text : List Char} (h : text.head? ≠ some '\n') :
    splitAtBlankLine ('\n' :: text) =
      (splitAtBlankLine text).map fun parts => ('\n' :: parts.1, parts.2) := by
  cases text with
  | nil => rfl
  | cons c text =>
      have hc : c ≠ '\n' := fun heq => h (heq ▸ rfl)
      rw [splitAtBlankLine]
      intro rest _ heq
      exact hc (List.cons.inj heq).1

theorem splitAtBlankLine_line {line text : List Char} (h : '\n' ∉ line) :
    splitAtBlankLine (line ++ text) =
      (splitAtBlankLine text).map fun parts => (line ++ parts.1, parts.2) := by
  induction line with
  | nil => simp
  | cons c line ih =>
      have hc : c ≠ '\n' := fun heq => h (heq ▸ List.mem_cons_self)
      rw [List.cons_append, splitAtBlankLine, ih fun hmem => h (List.mem_cons_of_mem _ hmem),
        Option.map_map]
      · rfl
      · intro rest heq
        exact absurd heq hc

/-! ## Bodies -/

open LogNode (formatCheckpointBody)

/-- The name stands on a line of its own. -/
structure OriginOk (origin : String) : Prop where
  ne_empty : origin ≠ ""
  newline : '\n' ∉ origin.toList
  carriage : '\r' ∉ origin.toList

def SizeOk (treeSize : ℕ) : Prop := 1 ≤ treeSize ∧ treeSize ≤ MAX_SAFE_INTEGER

theorem toList_formatCheckpointBody (buffers : Buffers) (origin : String) (treeSize : ℕ)
    (rootHash : Bytes) :
    (formatCheckpointBody buffers origin treeSize rootHash).toList =
      origin.toList ++ '\n' :: (Nat.toDigits 10 treeSize ++ '\n' ::
        ((buffers.toBase64 rootHash).toList ++ ['\n'])) := by
  have hnewline : "\n".toList = ['\n'] := rfl
  simp [formatCheckpointBody, hnewline]

theorem not_mem_of_mem_splitOn {sep : Char} {text part : List Char}
    (h : part ∈ text.splitOn sep) : sep ∉ part := by
  induction text generalizing part with
  | nil =>
      obtain rfl : part = [] := by simpa using h
      exact List.not_mem_nil
  | cons c text ih =>
      rw [List.splitOn_cons_eq_if_modifyHead] at h
      split at h
      · rcases List.mem_cons.1 h with rfl | h
        · exact List.not_mem_nil
        · exact ih h
      · next hne =>
          cases hsplit : text.splitOn sep with
          | nil => exact absurd hsplit (List.splitOn_ne_nil sep text)
          | cons first rest =>
              rw [hsplit, List.modifyHead_cons] at h
              rcases List.mem_cons.1 h with rfl | h
              · intro hmem
                rcases List.mem_cons.1 hmem with rfl | hmem
                · exact hne BEq.rfl
                · exact ih (hsplit ▸ List.mem_cons_self) hmem
              · exact ih (hsplit ▸ List.mem_cons_of_mem _ h)

/-- A body that is accepted is the one that is formatted from what it says. -/
theorem format_of_parseCheckpointBody {buffers : Buffers} {body : List Char} {origin : String}
    {treeSize : ℕ} {rootHash : Bytes}
    (h : parseCheckpointBody buffers body = .ok (origin, treeSize, rootHash)) :
    OriginOk origin ∧ SizeOk treeSize ∧
      (formatCheckpointBody buffers origin treeSize rootHash).toList = body := by
  unfold parseCheckpointBody at h
  split at h
  · next originText sizeText rootText hsplit =>
      split at h
      · cases h
      · next horigin =>
          split at h
          · cases h
          · next size hsize =>
              split at h
              · cases h
              · next hrange =>
                  cases hroot : decodeBase64 buffers (String.ofList rootText) (some 32)
                      "checkpoint root hash" with
                  | error message =>
                      rw [hroot] at h
                      cases h
                  | ok root =>
                      rw [hroot] at h
                      cases h
                      refine ⟨⟨?_, ?_, ?_⟩, ⟨by omega, by omega⟩, ?_⟩
                      · exact fun hempty => horigin (.inl (by simpa using hempty))
                      · rw [String.toList_ofList]
                        exact not_mem_of_mem_splitOn (hsplit ▸ List.mem_cons_self)
                      · rw [String.toList_ofList]
                        intro hmem
                        exact horigin (.inr (List.contains_iff_mem.2 hmem))
                      · rw [toList_formatCheckpointBody, toDigits_of_decimal? hsize,
                          toBase64_of_decodeBase64 hroot, String.toList_ofList,
                          String.toList_ofList]
                        have hjoin := @List.intercalate_splitOn _ body _ _ '\n'
                        rw [hsplit] at hjoin
                        rw [← hjoin]
                        simp [List.intercalate]
  · cases h

theorem parseCheckpointBody_format {origin : String} {treeSize : ℕ} {rootHash : Bytes}
    (horigin : OriginOk origin) (hsize : SizeOk treeSize) (hroot : rootHash.length = 32) :
    parseCheckpointBody .node (formatCheckpointBody .node origin treeSize rootHash).toList =
      .ok (origin, treeSize, rootHash) := by
  have hne : rootHash ≠ [] := by
    rintro rfl
    cases hroot
  have hsplit : (formatCheckpointBody .node origin treeSize rootHash).toList.splitOn '\n' =
      [origin.toList, Nat.toDigits 10 treeSize, (Buffers.node.toBase64 rootHash).toList, []] := by
    rw [toList_formatCheckpointBody,
      List.splitOn_append_cons_self_of_not_mem horigin.newline,
      List.splitOn_append_cons_self_of_not_mem (newline_not_mem_toDigits treeSize),
      List.splitOn_append_cons_self_of_not_mem (newline_not_mem_toBase64 rootHash),
      List.splitOn_nil]
  have hstart : ¬(origin.toList = [] ∨ origin.toList.contains '\r') := by
    rintro (h | h)
    · exact horigin.ne_empty (String.toList_eq_nil_iff.1 h)
    · exact horigin.carriage (List.contains_iff_mem.1 h)
  unfold parseCheckpointBody
  rw [hsplit]
  dsimp only
  rw [if_neg hstart, decimal?_toDigits]
  dsimp only
  obtain ⟨hlow, hhigh⟩ := hsize
  rw [if_neg (by omega), String.ofList_toList, String.ofList_toList,
    decodeBase64_toBase64 hne fun n hn => by rw [hroot, ← Option.some.inj hn]]
  rfl

/-! ## Notes -/

/-- A line that may stand under a body. -/
structure LineOk (line : String) : Prop where
  ne_empty : line ≠ ""
  newline : '\n' ∉ line.toList

/-- Each line with its end. -/
def joinLines (lines : List String) : List Char := lines.flatMap fun line => line.toList ++ ['\n']

theorem joinLines_eq {lines : List String} (hne : lines ≠ []) :
    joinLines lines = ['\n'].intercalate (lines.map String.toList) ++ ['\n'] := by
  induction lines with
  | nil => exact absurd rfl hne
  | cons line lines ih =>
      cases hlines : lines with
      | nil => simp [joinLines]
      | cons next rest =>
          rw [hlines] at ih
          rw [List.map_cons, List.intercalate_cons_of_ne_nil (by simp), List.append_assoc,
            ← ih (List.cons_ne_nil _ _)]
          simp [joinLines]

theorem head?_append_ne_newline {line text : List Char} (hne : line ≠ []) (h : '\n' ∉ line) :
    (line ++ text).head? ≠ some '\n' := by
  cases line with
  | nil => exact absurd rfl hne
  | cons c line =>
      intro heq
      rw [List.cons_append, List.head?_cons] at heq
      exact h (Option.some.inj heq ▸ List.mem_cons_self)

theorem toBase64_ne_nil {bytes : Bytes} (hne : bytes ≠ []) :
    (Buffers.node.toBase64 bytes).toList ≠ [] := by
  show (String.ofList (base64Chars bytes)).toList ≠ []
  rw [String.toList_ofList]
  match bytes, hne with
  | [_], _ => exact List.cons_ne_nil _ _
  | [_, _], _ => exact List.cons_ne_nil _ _
  | _ :: _ :: _ :: _, _ => exact List.cons_ne_nil _ _

theorem splitAtBlankLine_format {origin : String} {treeSize : ℕ} {rootHash : Bytes}
    (horigin : OriginOk origin) (hroot : rootHash.length = 32) (rest : List Char) :
    splitAtBlankLine ((formatCheckpointBody .node origin treeSize rootHash).toList ++
      '\n' :: rest) =
        some ((formatCheckpointBody .node origin treeSize rootHash).toList, rest) := by
  have hne : rootHash ≠ [] := by
    rintro rfl
    cases hroot
  rw [toList_formatCheckpointBody]
  simp only [List.append_assoc, List.cons_append, List.nil_append]
  rw [splitAtBlankLine_line horigin.newline,
    splitAtBlankLine_newline (head?_append_ne_newline Nat.toDigits_ne_nil
      (newline_not_mem_toDigits treeSize)),
    splitAtBlankLine_line (newline_not_mem_toDigits treeSize),
    splitAtBlankLine_newline (head?_append_ne_newline (toBase64_ne_nil hne)
      (newline_not_mem_toBase64 rootHash)),
    splitAtBlankLine_line (newline_not_mem_toBase64 rootHash), splitAtBlankLine]
  rfl

theorem parseCheckpointNote_lines {note : String} {origin : String} {treeSize : ℕ}
    {rootHash : Bytes} {lines : List String} (horigin : OriginOk origin) (hsize : SizeOk treeSize)
    (hroot : rootHash.length = 32) (hlines : ∀ line ∈ lines, LineOk line) (hne : lines ≠ [])
    (hnote : note.toList = (formatCheckpointBody .node origin treeSize rootHash).toList ++
      '\n' :: joinLines lines) :
    parseCheckpointNote .node note =
      .ok ⟨formatCheckpointBody .node origin treeSize rootHash, origin, treeSize, rootHash,
        lines⟩ := by
  have hsplit : (['\n'].intercalate (lines.map String.toList)).splitOn '\n' =
      lines.map String.toList := by
    refine List.splitOn_intercalate _ ?_ (by simpa using hne)
    rintro _ hmem
    obtain ⟨line, hline, rfl⟩ := List.mem_map.1 hmem
    exact (hlines line hline).newline
  have hblank : (lines.map String.toList).any (· == []) = false := by
    rw [List.any_eq_false]
    rintro _ hmem
    obtain ⟨line, hline, rfl⟩ := List.mem_map.1 hmem
    rw [beq_iff_eq, String.toList_eq_nil_iff]
    exact (hlines line hline).ne_empty
  have hback : (lines.map String.toList).map String.ofList = lines := by
    rw [List.map_map]
    exact (List.map_congr_left fun _ _ => String.ofList_toList).trans (List.map_id _)
  unfold parseCheckpointNote
  rw [hnote, splitAtBlankLine_format horigin hroot]
  dsimp only
  rw [parseCheckpointBody_format horigin hsize hroot, joinLines_eq hne, List.reverse_append]
  simp only [List.reverse_singleton, List.singleton_append, List.reverse_reverse, hsplit, hblank,
    hback, bind, Except.bind, pure, Except.pure, String.ofList_toList]
  rfl

/-- What a note says is what stands in its body. -/
theorem format_of_parseCheckpointNote {buffers : Buffers} {note : String}
    {parsed : ParsedCheckpointNote} (h : parseCheckpointNote buffers note = .ok parsed) :
    OriginOk parsed.origin ∧ SizeOk parsed.treeSize ∧
      formatCheckpointBody buffers parsed.origin parsed.treeSize parsed.rootHash = parsed.body := by
  unfold parseCheckpointNote at h
  split at h
  · cases h
  · next body signatureText hsplit =>
      cases hbody : parseCheckpointBody buffers body with
      | error message =>
          rw [hbody] at h
          cases h
      | ok parts =>
          obtain ⟨origin, treeSize, rootHash⟩ := parts
          rw [hbody] at h
          simp only [bind, Except.bind, pure, Except.pure] at h
          split at h
          · split at h
            · cases h
            · cases h
              obtain ⟨horigin, hsize, hformat⟩ := format_of_parseCheckpointBody hbody
              refine ⟨horigin, hsize, ?_⟩
              rw [← hformat]
              exact String.ofList_toList.symm
          · cases h

/-! ## Signature lines -/

open LogNode (computeKeyId createCheckpointSigner signatureLine)

/-- A name that can stand in a signature line. -/
structure NameOk (name : String) : Prop where
  ne_empty : name ≠ ""
  spaces : ∀ c ∈ name.toList, isSpace c = false

theorem nameOk_of_all {name : String} (hne : name ≠ "")
    (hspaces : name.toList.all (fun c => !isSpace c) = true) : NameOk name :=
  ⟨hne, by simpa using hspaces⟩

theorem NameOk.not_mem {name : String} (h : NameOk name) {c : Char} (hc : isSpace c = true) :
    c ∉ name.toList := fun hmem => by
  rw [h.spaces c hmem] at hc
  cases hc

theorem NameOk.origin {name : String} (h : NameOk name) : OriginOk name :=
  ⟨h.ne_empty, h.not_mem rfl, h.not_mem rfl⟩

theorem toList_signatureLine (buffers : Buffers) (name : String) (keyId sigBytes : Bytes) :
    (signatureLine buffers name keyId sigBytes).toList =
      '—' :: ' ' :: (name.toList ++ ' ' :: (buffers.toBase64 (keyId ++ sigBytes)).toList) := by
  have hdash : "— ".toList = ['—', ' '] := rfl
  have hspace : " ".toList = [' '] := rfl
  simp [signatureLine, hdash, hspace]

theorem lineOk_signatureLine {origin : String} (horigin : '\n' ∉ origin.toList)
    (keyId sigBytes : Bytes) : LineOk (signatureLine .node origin keyId sigBytes) := by
  refine ⟨fun h => ?_, ?_⟩
  · have hnil := congrArg String.toList h
    rw [toList_signatureLine] at hnil
    cases hnil
  · rw [toList_signatureLine]
    simp [horigin, newline_not_mem_toBase64]

theorem parseSignatureLine_signatureLine {name : String} (hname : NameOk name)
    {keyId sigBytes : Bytes} (hne : keyId ++ sigBytes ≠ []) :
    parseSignatureLine .node (signatureLine .node name keyId sigBytes) =
      some ⟨name, keyId ++ sigBytes⟩ := by
  have hspaces : ∀ c ∈ (Buffers.node.toBase64 (keyId ++ sigBytes)).toList,
      isSpace c = false := by
    intro c hc
    have hchars : c ∈ (String.ofList (base64Chars (keyId ++ sigBytes))).toList := hc
    rw [String.toList_ofList] at hchars
    exact isSpace_base64Chars hchars
  have hsplit : (name.toList ++ ' ' :: (Buffers.node.toBase64 (keyId ++ sigBytes)).toList).splitOn
      ' ' = [name.toList, (Buffers.node.toBase64 (keyId ++ sigBytes)).toList] := by
    rw [List.splitOn_append_cons_self_of_not_mem (hname.not_mem rfl), List.splitOn_eq_singleton]
    intro hmem
    exact absurd (hspaces _ hmem) (by decide)
  have hok : ¬(name.toList = [] ∨ (Buffers.node.toBase64 (keyId ++ sigBytes)).toList = [] ∨
      name.toList.any isSpace ∨
        (Buffers.node.toBase64 (keyId ++ sigBytes)).toList.any isSpace) := by
    simp only [String.toList_eq_nil_iff, List.any_eq_true, not_or, not_exists, not_and,
      Bool.not_eq_true]
    refine ⟨hname.ne_empty, ?_, hname.spaces, hspaces⟩
    rw [← String.toList_eq_nil_iff]
    exact toBase64_ne_nil hne
  unfold parseSignatureLine
  rw [toList_signatureLine]
  have hdecode : decodeBase64 .node (Buffers.node.toBase64 (keyId ++ sigBytes)) none
      "base64 value" = .ok (keyId ++ sigBytes) :=
    decodeBase64_toBase64 hne (by simp) _
  simp only [hsplit, hok, if_false, String.ofList_toList, hdecode]

theorem nameOk_of_parseSignatureLine {buffers : Buffers} {line : String}
    {parsed : ParsedSignatureLine} (h : parseSignatureLine buffers line = some parsed) :
    NameOk parsed.name := by
  unfold parseSignatureLine at h
  split at h
  · split at h
    · next name payload hsplit =>
        split at h
        · cases h
        · next hok =>
            split at h
            · cases h
              simp only [List.any_eq_true, not_or, not_exists, not_and, Bool.not_eq_true] at hok
              obtain ⟨hne, -, hspaces, -⟩ := hok
              refine ⟨by simpa using hne, ?_⟩
              rw [String.toList_ofList]
              exact hspaces
            · cases h
    · cases h
  · cases h

/-! ## The operator's signature -/

section

variable {H : Hash} {ed : Ed25519}

theorem of_verifyOperatorCheckpoint {buffers : Buffers} {note : String}
    {key : TrustedCheckpointKey} {checkpoint : ParsedCheckpointNote}
    (h : verifyOperatorCheckpoint H ed buffers note key = .ok checkpoint) :
    parseCheckpointNote buffers note = .ok checkpoint ∧ checkpoint.origin = key.name ∧
      NameOk key.name := by
  unfold verifyOperatorCheckpoint at h
  cases hnote : parseCheckpointNote buffers note with
  | error message =>
      rw [hnote] at h
      cases h
  | ok parsed =>
      rw [hnote] at h
      simp only [bind, Except.bind, pure, Except.pure, throw, throwThe, MonadExceptOf.throw] at h
      split at h
      · cases h
      · next horigin =>
          split at h
          · cases h
          · split at h
            · cases h
            · split at h
              · cases h
              · next candidate hfind =>
                  split at h
                  · cases h
                  · split at h
                    · cases h
                      obtain ⟨hname, -⟩ := by simpa using List.find?_some hfind
                      have hmem := (List.mem_filter.1 (List.mem_of_find?_eq_some hfind)).1
                      obtain ⟨line, -, hline⟩ := List.mem_filterMap.1 hmem
                      refine ⟨rfl, not_not.1 horigin, ?_⟩
                      rw [← hname]
                      exact nameOk_of_parseSignatureLine hline
                    · cases h

theorem checkpointKeyId_eq {name : String} (hname : NameOk name) {publicKey : Bytes}
    (hkey : publicKey.length = 32) :
    checkpointKeyId H name publicKey = .ok (computeKeyId H name publicKey) := by
  have hok : ¬(name = "" ∨ name.toList.contains '\n') := by
    rintro (h | h)
    · exact hname.ne_empty h
    · exact hname.origin.newline (List.contains_iff_mem.1 h)
  rw [checkpointKeyId, if_neg hok, if_neg (not_not.2 hkey)]
  rfl

/-- The signature of the log on the first line is found, whatever lines follow. -/
theorem verifyOperatorCheckpoint_lines {note : String} {origin : String} {treeSize : ℕ}
    {rootHash publicKey sigBytes : Bytes} {lines : List String} (hname : NameOk origin)
    (hsize : SizeOk treeSize) (hroot : rootHash.length = 32) (hkey : publicKey.length = 32)
    (hlength : sigBytes.length = 64) (hlines : ∀ line ∈ lines, LineOk line)
    (hverifies : ed.verify true sigBytes
      (utf8 (formatCheckpointBody .node origin treeSize rootHash)) publicKey = true)
    (hnote : note.toList = (formatCheckpointBody .node origin treeSize rootHash).toList ++
      '\n' :: joinLines
        (signatureLine .node origin (computeKeyId H origin publicKey) sigBytes :: lines)) :
    verifyOperatorCheckpoint H ed .node note ⟨origin, .bytes publicKey⟩ =
      .ok ⟨formatCheckpointBody .node origin treeSize rootHash, origin, treeSize, rootHash,
        signatureLine .node origin (computeKeyId H origin publicKey) sigBytes :: lines⟩ := by
  have hidLength : (computeKeyId H origin publicKey).length = 4 := by
    rw [computeKeyId, List.length_take, H.length_sha256]
    rfl
  have hpayload : (computeKeyId H origin publicKey ++ sigBytes).length = 68 := by
    rw [List.length_append, hidLength, hlength]
  have hne : computeKeyId H origin publicKey ++ sigBytes ≠ [] := by
    intro h
    rw [h] at hpayload
    cases hpayload
  have htake : (computeKeyId H origin publicKey ++ sigBytes).take 4 =
      computeKeyId H origin publicKey := by
    rw [← hidLength, List.take_left]
  have hdrop : (computeKeyId H origin publicKey ++ sigBytes).drop 4 = sigBytes := by
    rw [← hidLength, List.drop_left]
  have hnormal : normalizePublicKey .node (.bytes publicKey) = .ok publicKey :=
    if_neg (not_not.2 hkey)
  have hall : ∀ line ∈ signatureLine .node origin (computeKeyId H origin publicKey) sigBytes ::
      lines, LineOk line :=
    List.forall_mem_cons.2 ⟨lineOk_signatureLine hname.origin.newline _ _, hlines⟩
  have hsigned : ed.verifyAsync sigBytes
      (utf8 (formatCheckpointBody .node origin treeSize rootHash)) publicKey = .ok true := by
    rw [Ed25519.verifyAsync, if_neg (not_not.2 hlength), if_neg (not_not.2 hkey), hverifies]
  unfold verifyOperatorCheckpoint
  rw [parseCheckpointNote_lines hname.origin hsize hroot hall (List.cons_ne_nil _ _) hnote]
  simp only [bind, Except.bind, pure, Except.pure, hnormal, checkpointKeyId_eq hname hkey,
    List.filterMap_cons, parseSignatureLine_signatureLine hname hne]
  rw [if_neg (not_not.2 rfl), List.filter_cons_of_pos (by simp [hpayload]),
    List.find?_cons_of_pos (by simp [htake])]
  simp only [hdrop, hsigned, if_true]

/-- What the log signs reads back, and its signature verifies, exactly where the name and the size
can stand in a note; and a body that is accepted has one spelling. -/
theorem checkpoint_roundTrip (H : Hash) (ed : Ed25519)
    (signAsync : (message privateKey : Bytes) → Bytes) (privateKey : Bytes) {publicKey : Bytes}
    (origin : String) (treeSize : ℕ) {rootHash : Bytes} (hkey : publicKey.length = 32)
    (hroot : rootHash.length = 32)
    (hlength : (signAsync (utf8 (formatCheckpointBody .node origin treeSize rootHash))
      privateKey).length = 64)
    (hverifies : ed.verify true
      (signAsync (utf8 (formatCheckpointBody .node origin treeSize rootHash)) privateKey)
      (utf8 (formatCheckpointBody .node origin treeSize rootHash)) publicKey = true) :
    ((∃ parsed, parseCheckpointNote .node
        ((createCheckpointSigner H .node signAsync privateKey publicKey origin).sign treeSize
          rootHash) = .ok parsed ∧
        parsed.origin = origin ∧ parsed.treeSize = treeSize ∧ parsed.rootHash = rootHash) ↔
      OriginOk origin ∧ SizeOk treeSize) ∧
    ((∃ parsed, verifyOperatorCheckpoint H ed .node
        ((createCheckpointSigner H .node signAsync privateKey publicKey origin).sign treeSize
          rootHash) ⟨origin, .bytes publicKey⟩ = .ok parsed ∧
        parsed.body = formatCheckpointBody .node origin treeSize rootHash ∧
        parsed.origin = origin ∧ parsed.treeSize = treeSize ∧ parsed.rootHash = rootHash) ↔
      NameOk origin ∧ SizeOk treeSize) ∧
    ∀ buffers note parsed, parseCheckpointNote buffers note = .ok parsed →
      formatCheckpointBody buffers parsed.origin parsed.treeSize parsed.rootHash =
        parsed.body := by
  have hnote : ((createCheckpointSigner H .node signAsync privateKey publicKey origin).sign
      treeSize rootHash).toList =
        (formatCheckpointBody .node origin treeSize rootHash).toList ++
          '\n' :: joinLines [signatureLine .node origin (computeKeyId H origin publicKey)
            (signAsync (utf8 (formatCheckpointBody .node origin treeSize rootHash))
              privateKey)] := by
    have hnewline : "\n".toList = ['\n'] := rfl
    simp [createCheckpointSigner, joinLines, hnewline]
  refine ⟨⟨?_, ?_⟩, ⟨?_, ?_⟩, fun buffers note parsed h => (format_of_parseCheckpointNote h).2.2⟩
  · rintro ⟨parsed, hparsed, rfl, rfl, -⟩
    obtain ⟨horigin, hsize, -⟩ := format_of_parseCheckpointNote hparsed
    exact ⟨horigin, hsize⟩
  · rintro ⟨horigin, hsize⟩
    refine ⟨_, parseCheckpointNote_lines horigin hsize hroot ?_ (List.cons_ne_nil _ _) hnote, rfl,
      rfl, rfl⟩
    exact List.forall_mem_singleton.2 (lineOk_signatureLine horigin.newline _ _)
  · rintro ⟨parsed, hparsed, -, -, rfl, -⟩
    obtain ⟨hread, -, hname⟩ := of_verifyOperatorCheckpoint hparsed
    exact ⟨hname, (format_of_parseCheckpointNote hread).2.1⟩
  · rintro ⟨hname, hsize⟩
    exact ⟨_, verifyOperatorCheckpoint_lines hname hsize hroot hkey hlength (by simp) hverifies
      hnote, rfl, rfl, rfl, rfl⟩

end

/-! ### Two names -/

namespace NoteSample

/-- The bytes of a number, the first one highest. -/
def bytesOf (length n : ℕ) : Bytes :=
  (List.range length).map fun i => UInt8.ofNat (n / 256 ^ (length - 1 - i))

@[simp] theorem length_bytesOf (length n : ℕ) : (bytesOf length n).length = length := by
  simp [bytesOf]

def seed : Bytes := List.replicate 32 0x42

def publicKey : Bytes :=
  bytesOf 32 0x2152f8d19b791d24453242e15f2eab6cb7cffa7b6a5ed30097960e069881db12

def rootHash : Bytes :=
  bytesOf 32 0x0ac5186a91863e8e1d90c808014aa89bf5da8e3ee1d9f07630f0378f68f1ab62

theorem length_publicKey : publicKey.length = 32 := length_bytesOf ..

theorem length_rootHash : rootHash.length = 32 := length_bytesOf ..

def body (origin : String) : String := formatCheckpointBody .node origin 4821937 rootHash

def plain : String := "log.atrib.dev/v1"

def spaced : String := "atrib log"

/-- The signatures of the key over the bodies with either name. -/
def signAsync (message _privateKey : Bytes) : Bytes :=
  if message = utf8 (body plain) then
    bytesOf 64 (0x87eecfa5240186cc79a40daca4ff1aeaf52f462d74c5add394ed28392d7ddfbc * 2 ^ 256 +
      0x19c3e89d5b07ef2c6c44dca889180eab252d0a382d17427d2d7db30416b1f30b)
  else
    bytesOf 64 (0xecff8a074722411c709fcf60a420a3c1fc70d09dee1cc23eba6228715df2eee2 * 2 ^ 256 +
      0xc8ed22fb5ca0df0f6052044bb4b147c94b08ab2cd8351614fef02049d2483305)

theorem length_signAsync (message : Bytes) : (signAsync message seed).length = 64 := by
  unfold signAsync
  split <;> exact length_bytesOf ..

def ed25519 : Ed25519 where
  verify _ signature message key :=
    key = publicKey ∧ (message = utf8 (body plain) ∨ message = utf8 (body spaced)) ∧
      signature = signAsync message seed

theorem verifies {name : String} (h : utf8 (body name) ∈ [utf8 (body plain), utf8 (body spaced)]) :
    ed25519.verify true (signAsync (utf8 (body name)) seed) (utf8 (body name)) publicKey = true :=
  decide_eq_true ⟨rfl, by simpa using h, rfl⟩

end NoteSample

open NoteSample in
theorem checkpoint_roundTrip_log :
    ∃ parsed, verifyOperatorCheckpoint .fips180 ed25519 .node
      ((createCheckpointSigner .fips180 .node signAsync seed publicKey plain).sign 4821937
        rootHash) ⟨plain, .bytes publicKey⟩ = .ok parsed ∧
      parsed.body = body plain ∧ parsed.origin = plain ∧ parsed.treeSize = 4821937 ∧
        parsed.rootHash = rootHash := by
  have hroundTrip := checkpoint_roundTrip .fips180 ed25519 signAsync seed plain 4821937
    length_publicKey length_rootHash (length_signAsync _) (verifies List.mem_cons_self)
  have hname : NameOk plain := nameOk_of_all (by decide) (by decide)
  exact hroundTrip.2.1.2 ⟨hname, by decide, by decide⟩

open NoteSample in
/-- A name with a space in it cannot stand in a signature line. -/
theorem spaced_name_unverified :
    ed25519.verify true (signAsync (utf8 (body spaced)) seed) (utf8 (body spaced)) publicKey =
      true ∧
    ¬∃ parsed, verifyOperatorCheckpoint .fips180 ed25519 .node
      ((createCheckpointSigner .fips180 .node signAsync seed publicKey spaced).sign 4821937
        rootHash) ⟨spaced, .bytes publicKey⟩ = .ok parsed := by
  refine ⟨verifies (List.mem_cons_of_mem _ List.mem_cons_self), ?_⟩
  rintro ⟨parsed, hparsed⟩
  obtain ⟨-, -, hname⟩ := of_verifyOperatorCheckpoint hparsed
  have hspace : ' ' ∈ spaced.toList := by decide
  exact absurd (hname.spaces _ hspace) (by decide)

end Atrib.Verify
