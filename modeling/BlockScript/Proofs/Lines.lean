import BlockScript.Proofs.Transcript

/-!
# The lines of a text

In UTF-8 the byte 10 stands for nothing but a line feed. So the bytes of lines one after the other
fall into the bytes of each line again (`Text.splitLines_join`), and each of them is decoded as the
line that it was.
-/

namespace BlockScript

namespace Text

/-- Each text ends with its only line feed, but that the last one may have none. -/
inductive IsLines : List String → Prop
  | nil : IsLines []
  | last {line : String} : line ≠ "" → '\n' ∉ line.toList → IsLines [line]
  | cons {body : String} {rest : List String} :
      '\n' ∉ body.toList → IsLines rest → IsLines ((body ++ "\n") :: rest)

/-- Some of the lines, in order, are lines. -/
theorem IsLines.filter {lines : List String} (h : IsLines lines) (p : String → Bool) :
    IsLines (lines.filter p) := by
  induction h with
  | nil => exact .nil
  | @last line hne hline =>
    by_cases hp : p line = true
    · rw [List.filter_cons_of_pos hp]
      exact .last hne hline
    · rw [List.filter_cons_of_neg hp]
      exact .nil
  | @cons body rest hbody _ ih =>
    by_cases hp : p (body ++ "\n") = true
    · rw [List.filter_cons_of_pos hp]
      exact .cons hbody ih
    · rw [List.filter_cons_of_neg hp]
      exact ih

theorem IsLines.singleton {lines : List String} (h : IsLines lines) {line : String}
    (hline : line ∈ lines) : IsLines [line] := by
  induction h with
  | nil => cases hline
  | last hne hbody =>
    obtain rfl := List.mem_singleton.mp hline
    exact .last hne hbody
  | cons hbody _ ih =>
    rcases List.mem_cons.mp hline with rfl | hline
    · exact .cons hbody .nil
    · exact ih hline

theorem IsLines.map {lines : List String} (h : ∀ line ∈ lines, '\n' ∉ line.toList) :
    IsLines (lines.map (· ++ "\n")) := by
  induction lines with
  | nil => exact .nil
  | cons line rest ih =>
    exact .cons (h line List.mem_cons_self) (ih fun l hl => h l (List.mem_cons_of_mem line hl))

/-! ## Bytes -/

theorem toList_loop_eq (bs : ByteArray) (i : Nat) (read : List UInt8) :
    ByteArray.toList.loop bs i read = read.reverse ++ bs.data.toList.drop i := by
  fun_induction ByteArray.toList.loop bs i read with
  | case1 i read h ih =>
    have hi : i < bs.data.toList.length := by simpa using h
    have hget : bs.get! i = bs.data.toList[i] := by
      simp [ByteArray.get!, h]
    rw [ih, List.drop_eq_getElem_cons hi, hget]
    simp
  | case2 i read h =>
    rw [List.drop_eq_nil_of_le (by simpa using Nat.le_of_not_lt h)]
    simp

theorem toList_eq_data_toList (bs : ByteArray) : bs.toList = bs.data.toList := by
  rw [ByteArray.toList, toList_loop_eq]
  rfl

theorem toList_toUTF8_append (s t : String) :
    (s ++ t).toUTF8.toList = s.toUTF8.toList ++ t.toUTF8.toList := by
  rw [toUTF8_append, toList_eq_data_toList, toList_eq_data_toList, toList_eq_data_toList,
    ByteArray.toList_data_append]

theorem toList_toUTF8 (s : String) : s.toUTF8.toList = s.toList.flatMap String.utf8EncodeChar := by
  have hencode : s.toList.utf8Encode = s.toUTF8 := String.utf8Encode_toList
  rw [← hencode, toList_eq_data_toList, List.utf8Encode, List.data_toByteArray]

/-- Only a line feed has the byte 10. -/
theorem eq_newline_of_mem_utf8EncodeChar {c : Char} (h : 10 ∈ String.utf8EncodeChar c) :
    c = '\n' := by
  have hbyte : ∀ n, n < 256 → 10 = UInt8.ofNat n → n = 10 := by
    intro n hn heq
    have htoNat := congrArg UInt8.toNat heq
    rw [UInt8.toNat_ofNat_of_lt' hn] at htoNat
    exact htoNat.symm
  -- Every byte of a character that takes several is at least 128.
  have hlarge : ∀ n k base, 0 < k → 128 ≤ base → k + base ≤ 256 →
      10 ≠ UInt8.ofNat (n % k + base) := by
    intro n k base hk hbase hsum heq
    have hmod := Nat.mod_lt n hk
    have hten := hbyte (n % k + base) (by omega) heq
    omega
  unfold String.utf8EncodeChar at h
  simp only at h
  split at h
  · rename_i hsmall
    have hten := hbyte c.val.toNat (by omega) (List.mem_singleton.mp h)
    exact Char.ext (UInt32.toNat_inj.mp hten)
  · exfalso
    split at h
    · simp only [List.mem_cons, List.not_mem_nil, or_false] at h
      rcases h with h | h <;> exact hlarge _ _ _ (by omega) (by omega) (by omega) h
    · split at h
      · simp only [List.mem_cons, List.not_mem_nil, or_false] at h
        rcases h with h | h | h <;> exact hlarge _ _ _ (by omega) (by omega) (by omega) h
      · simp only [List.mem_cons, List.not_mem_nil, or_false] at h
        rcases h with h | h | h | h <;> exact hlarge _ _ _ (by omega) (by omega) (by omega) h

theorem ten_not_mem_toUTF8 {s : String} (h : '\n' ∉ s.toList) : 10 ∉ s.toUTF8.toList := by
  rw [toList_toUTF8]
  intro hmem
  obtain ⟨c, hc, hten⟩ := List.mem_flatMap.mp hmem
  rw [eq_newline_of_mem_utf8EncodeChar hten] at hc
  exact h hc

/-! ## Splitting -/

theorem ne_ten_of_not_mem {bytes : List UInt8} (h : 10 ∉ bytes) :
    ∀ b ∈ bytes, decide (b ≠ 10) = true := by
  intro b hb
  rw [decide_eq_true_eq]
  rintro rfl
  exact h hb

theorem splitLines_append {body : List UInt8} (h : 10 ∉ body) (rest : List UInt8) :
    splitLines (body ++ 10 :: rest) = (body ++ [10]) :: splitLines rest := by
  have htake : (body ++ 10 :: rest).takeWhile (· ≠ 10) = body := by
    rw [List.takeWhile_append_of_pos (ne_ten_of_not_mem h)]
    simp
  have hdrop : (body ++ 10 :: rest).dropWhile (· ≠ 10) = 10 :: rest := by
    rw [List.dropWhile_append_of_pos (ne_ten_of_not_mem h)]
    simp
  rw [splitLines]
  split
  · rename_i hnil
    rw [hdrop] at hnil
    cases hnil
  · rename_i feed others hcons
    rw [hdrop] at hcons
    cases hcons
    rw [htake]

theorem splitLines_of_not_mem {line : List UInt8} (h : 10 ∉ line) :
    splitLines line = if line.isEmpty then [] else [line] := by
  have hdrop : (line ++ []).dropWhile (· ≠ 10) = [] :=
    List.dropWhile_append_of_pos (ne_ten_of_not_mem h)
  rw [List.append_nil] at hdrop
  rw [splitLines]
  split
  · rfl
  · rename_i feed others hcons
    rw [hdrop] at hcons
    cases hcons

/-- The bytes of lines fall into the bytes of each line. -/
theorem splitLines_join {lines : List String} (h : IsLines lines) :
    splitLines (String.join lines).toUTF8.toList = lines.map fun line => line.toUTF8.toList := by
  induction h with
  | nil =>
    rw [String.join_nil, splitLines_of_not_mem (ten_not_mem_toUTF8 (by simp)), toList_toUTF8]
    rfl
  | @last line hne hline =>
    have hbytes : ¬ line.toUTF8.toList.isEmpty := by
      rw [toList_toUTF8, List.isEmpty_iff, List.flatMap_eq_nil_iff]
      intro hnil
      obtain ⟨c, cs, hcs⟩ := List.exists_cons_of_ne_nil (mt String.toList_eq_nil_iff.mp hne)
      exact String.utf8EncodeChar_ne_nil (hnil c (by rw [hcs]; exact List.mem_cons_self))
    rw [String.join_cons, String.join_nil, String.append_empty,
      splitLines_of_not_mem (ten_not_mem_toUTF8 hline), if_neg hbytes]
    rfl
  | @cons body rest hbody _ ih =>
    have hfeed : "\n".toUTF8.toList = [10] := by
      rw [toList_toUTF8]
      rfl
    rw [String.join_cons, toList_toUTF8_append, toList_toUTF8_append, hfeed, List.append_assoc,
      List.singleton_append, splitLines_append (ten_not_mem_toUTF8 hbody), ih, List.map_cons,
      toList_toUTF8_append, hfeed]

end Text

theorem Console.decode_toUTF8 (line : String) :
    decode ⟨line.toUTF8.toList.toArray⟩ = .ok line := by
  have hbytes : (⟨line.toUTF8.toList.toArray⟩ : ByteArray) = line.toUTF8 := by
    rw [Text.toList_eq_data_toList]
  rw [hbytes, decode, fromUTF8?_toUTF8]

end BlockScript
