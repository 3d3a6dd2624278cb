import Mathlib.Data.List.DropRight
import SlotStore.ContentKey

/-!
Content keys as text. What is read is the text between the white space at both ends: forty hexadecimal
digits of either case name the key that is written as these digits in lower case, and for any other text
the refusal says which rule it breaks first, its length or its first character that is no digit.
-/

namespace SlotStore

/-- The second text is what stands between the white space at both ends of the first one. -/
structure Trims (text core : List Char) : Prop where
  split : ∃ left right, text = left ++ core ++ right ∧ (∀ char ∈ left, isBlank char = true) ∧
    ∀ char ∈ right, isBlank char = true
  first : ∀ char ∈ core.head?, isBlank char = false
  last : ∀ char ∈ core.getLast?, isBlank char = false

theorem Trims.of_filled {core : List Char} (filled : ∀ char ∈ core, isBlank char = false) :
    Trims core core where
  split := ⟨[], [], (List.append_nil core).symm, nofun, nofun⟩
  first := fun char member => filled char (List.mem_of_mem_head? member)
  last := fun char member => filled char (List.mem_of_mem_getLast? member)

theorem Trims.pad {text core left right : List Char} (trims : Trims text core)
    (leftBlank : ∀ char ∈ left, isBlank char = true)
    (rightBlank : ∀ char ∈ right, isBlank char = true) : Trims (left ++ text ++ right) core := by
  obtain ⟨⟨before, behind, rfl, beforeBlank, behindBlank⟩, first, last⟩ := trims
  refine ⟨⟨left ++ before, behind ++ right, by simp only [List.append_assoc], ?_, ?_⟩, first, last⟩
  · exact List.forall_mem_append.mpr ⟨leftBlank, beforeBlank⟩
  · exact List.forall_mem_append.mpr ⟨behindBlank, rightBlank⟩

theorem dropWhile_of_head {text : List Char} (first : ∀ char ∈ text.head?, isBlank char = false) :
    text.dropWhile isBlank = text := by
  cases text with
  | nil => rfl
  | cons char rest =>
    have filled : isBlank char = false := first char rfl
    exact List.dropWhile_cons_of_neg (by simp [filled])

theorem head_dropWhile (text : List Char) :
    ∀ char ∈ (text.dropWhile isBlank).head?, isBlank char = false := by
  intro char member
  have front := List.head?_dropWhile_not isBlank text
  rw [Option.mem_def.mp member] at front
  exact front

theorem Trims.trimBlank_eq {text core : List Char} (trims : Trims text core) :
    trimBlank text = core := by
  obtain ⟨left, right, rfl, leftBlank, rightBlank⟩ := trims.split
  have behind : (right.reverse ++ core.reverse).dropWhile isBlank = core.reverse := by
    rw [List.dropWhile_append_of_pos fun char member => rightBlank char (List.mem_reverse.mp member)]
    exact dropWhile_of_head (by rw [List.head?_reverse]; exact trims.last)
  rw [trimBlank, List.append_assoc, List.dropWhile_append_of_pos leftBlank]
  cases core with
  | nil =>
    rw [List.nil_append, List.dropWhile_eq_nil_iff.mpr rightBlank]
    rfl
  | cons char rest =>
    have ahead : (char :: rest ++ right).dropWhile isBlank = char :: rest ++ right :=
      dropWhile_of_head trims.first
    rw [ahead, List.reverse_append, behind, List.reverse_reverse]

theorem trims_trimBlank (text : List Char) : Trims text (trimBlank text) := by
  have ahead := List.takeWhile_append_dropWhile (p := isBlank) (l := text)
  have behind := congrArg List.reverse
    (List.takeWhile_append_dropWhile (p := isBlank) (l := (text.dropWhile isBlank).reverse))
  rw [List.reverse_append, List.reverse_reverse] at behind
  refine ⟨⟨text.takeWhile isBlank,
    ((text.dropWhile isBlank).reverse.takeWhile isBlank).reverse, ?_, fun _ => List.mem_takeWhile_imp,
    fun char member => List.mem_takeWhile_imp (List.mem_reverse.mp member)⟩, ?_, ?_⟩
  · rw [List.append_assoc, trimBlank, behind, ahead]
  · intro char member
    apply head_dropWhile text
    rw [← behind, List.head?_append, ← trimBlank, Option.mem_def.mp member]
    rfl
  · intro char member
    rw [trimBlank, List.getLast?_reverse] at member
    exact head_dropWhile _ char member

def IsHexDigit (char : Char) : Prop :=
  '0' ≤ char ∧ char ≤ '9' ∨ 'a' ≤ char ∧ char ≤ 'f' ∨ 'A' ≤ char ∧ char ≤ 'F'

instance : DecidablePred IsHexDigit := fun char =>
  inferInstanceAs (Decidable ('0' ≤ char ∧ char ≤ '9' ∨ 'a' ≤ char ∧ char ≤ 'f' ∨
    'A' ≤ char ∧ char ≤ 'F'))

theorem hexValue?_eq_none_iff {char : Char} : hexValue? char = none ↔ ¬ IsHexDigit char := by
  unfold hexValue? IsHexDigit
  split
  · simp [*]
  · split
    · simp [*]
    · split
      · simp [*]
      · simp [*]

theorem IsHexDigit.toNat_lt {char : Char} (digit : IsHexDigit char) : char.toNat < 128 := by
  rcases digit with ⟨_, high⟩ | ⟨_, high⟩ | ⟨_, high⟩
  · exact Nat.lt_of_le_of_lt high (by decide)
  · exact Nat.lt_of_le_of_lt high (by decide)
  · exact Nat.lt_of_le_of_lt high (by decide)

theorem IsHexDigit.of_ascii {char : Char} (digit : IsHexDigit char) (property : Char → Prop)
    (holds : ∀ code : Fin 128, IsHexDigit (Char.ofNat code) → property (Char.ofNat code)) :
    property char := by
  have same : Char.ofNat char.toNat = char := Char.ofNat_toNat char
  rw [← same]
  exact holds ⟨char.toNat, digit.toNat_lt⟩ (same.symm ▸ digit)

theorem IsHexDigit.not_isBlank {char : Char} (digit : IsHexDigit char) : isBlank char = false :=
  digit.of_ascii (fun char => isBlank char = false) (by decide)

theorem isHexDigit_of_hexValue? {char : Char} {value : Nat} (read : hexValue? char = some value) :
    IsHexDigit char := by
  by_contra none
  cases (hexValue?_eq_none_iff.mpr none).symm.trans read

/-- The value of a digit is below sixteen and is written as the digit in lower case. -/
theorem hexDigit_of_hexValue? {char : Char} {value : Nat} (read : hexValue? char = some value) :
    value < 16 ∧ hexDigit value = char.toLower := by
  obtain ⟨other, listed, same, written⟩ := (isHexDigit_of_hexValue? read).of_ascii
    (fun char => ∃ value ∈ List.range 16, hexValue? char = some value ∧
      hexDigit value = char.toLower) (by decide)
  cases same.symm.trans read
  exact ⟨List.mem_range.mp listed, written⟩

theorem isHexDigit_hexDigit {value : Nat} (small : value < 16) : IsHexDigit (hexDigit value) :=
  isHexDigit_of_hexValue? (hexValue?_hexDigit value small)

theorem exists_first_flaw {text : List Char} (flawed : ¬ ∀ char ∈ text, IsHexDigit char) :
    ∃ front first behind, text = front ++ first :: behind ∧ (∀ char ∈ front, IsHexDigit char) ∧
      ¬ IsHexDigit first ∧ text.find? (fun char => ¬ IsHexDigit char) = some first := by
  cases found : text.find? fun char => ¬ IsHexDigit char with
  | none => exact absurd (by simpa using List.find?_eq_none.mp found) flawed
  | some first =>
    obtain ⟨flaw, front, behind, split, digits⟩ := List.find?_eq_some_iff_append.mp found
    exact ⟨front, first, behind, split, by simpa using digits, by simpa using flaw, rfl⟩

namespace ContentKey

theorem eq_nil_of_unpaired {text : List Char} (even : text.length % 2 = 0)
    (short : ∀ high low rest, text = high :: low :: rest → False) : text = [] := by
  cases text with
  | nil => rfl
  | cons high rest =>
    cases rest with
    | nil => cases even
    | cons low rest => exact (short high low rest rfl).elim

theorem bytesOfDigits_of_digits {text : List Char} (even : text.length % 2 = 0)
    (digits : ∀ char ∈ text, IsHexDigit char) :
    ∃ bytes, bytesOfDigits text = .ok bytes ∧ bytes.flatMap hexByte = text.map Char.toLower := by
  induction text using bytesOfDigits.induct with
  | case1 high low rest none =>
    exact absurd (digits high (by simp)) (hexValue?_eq_none_iff.mp none)
  | case2 high low rest upper none read =>
    exact absurd (digits low (by simp)) (hexValue?_eq_none_iff.mp none)
  | case3 high low rest upper lower readLow readHigh ih =>
    obtain ⟨bytes, others, written⟩ := ih (by simp only [List.length_cons] at even; omega)
      fun char member => digits char (by simp [member])
    obtain ⟨upperSmall, upperWritten⟩ := hexDigit_of_hexValue? readHigh
    obtain ⟨lowerSmall, lowerWritten⟩ := hexDigit_of_hexValue? readLow
    -- the byte falls into the two values again when it is written
    have value : (UInt8.ofNat (16 * upper + lower)).toNat = 16 * upper + lower :=
      UInt8.toNat_ofNat_of_lt (show 16 * upper + lower < 256 by omega)
    have first : (16 * upper + lower) / 16 = upper := by omega
    have second : (16 * upper + lower) % 16 = lower := by omega
    refine ⟨UInt8.ofNat (16 * upper + lower) :: bytes, ?_, ?_⟩
    · simp only [bytesOfDigits, readHigh, readLow, others]
      rfl
    · rw [List.flatMap_cons, hexByte, value, first, second, upperWritten, lowerWritten, written]
      rfl
  | case4 text short =>
    rw [eq_nil_of_unpaired even short]
    exact ⟨[], rfl, rfl⟩

theorem bytesOfDigits_of_flaw {text : List Char} {first : Char} (even : text.length % 2 = 0)
    (found : text.find? (fun char => ¬ IsHexDigit char) = some first) :
    bytesOfDigits text = .error (.digit first) := by
  induction text using bytesOfDigits.induct with
  | case1 high low rest none =>
    rw [List.find?_cons_of_pos (by simpa using hexValue?_eq_none_iff.mp none)] at found
    cases found
    simp only [bytesOfDigits, none]
  | case2 high low rest upper none readHigh =>
    have digit := isHexDigit_of_hexValue? readHigh
    rw [List.find?_cons_of_neg (by simpa using digit),
      List.find?_cons_of_pos (by simpa using hexValue?_eq_none_iff.mp none)] at found
    cases found
    simp only [bytesOfDigits, none, readHigh]
  | case3 high low rest upper lower readLow readHigh ih =>
    have digit := isHexDigit_of_hexValue? readHigh
    have other := isHexDigit_of_hexValue? readLow
    rw [List.find?_cons_of_neg (by simpa using digit),
      List.find?_cons_of_neg (by simpa using other)] at found
    have flaw := ih (by simp only [List.length_cons] at even; omega) found
    simp only [bytesOfDigits, readHigh, readLow, flaw]
    rfl
  | case4 text short =>
    rw [eq_nil_of_unpaired even short] at found
    cases found

theorem bytesOfDigits_hexByte (bytes : Bytes) :
    bytesOfDigits (bytes.flatMap hexByte) = .ok bytes := by
  induction bytes with
  | nil => rfl
  | cons byte rest ih =>
    have small : byte.toNat < 256 := byte.toNat_lt
    have high := hexValue?_hexDigit (byte.toNat / 16) (by omega)
    have low := hexValue?_hexDigit (byte.toNat % 16) (by omega)
    have whole : 16 * (byte.toNat / 16) + byte.toNat % 16 = byte.toNat := Nat.div_add_mod ..
    rw [List.flatMap_cons, hexByte]
    simp only [List.cons_append, List.nil_append, bytesOfDigits, high, low, ih, whole]
    rw [UInt8.ofNat_toNat]
    rfl

variable {text : List Char} {key : ContentKey}

theorem ofDigits_of_length (wrong : ¬ (text.length = 40 ∧ ∀ char ∈ text, char.toNat < 128)) :
    ofDigits text = .error (.length text.length) := by
  unfold ofDigits
  rw [dif_neg (by simpa using wrong)]

theorem ofDigits_of_flaw (length : text.length = 40) (ascii : ∀ char ∈ text, char.toNat < 128)
    {flaw : TextFlaw} (refused : bytesOfDigits text = .error flaw) :
    ofDigits text = .error flaw := by
  unfold ofDigits
  rw [dif_pos ⟨length, by simpa using ascii⟩]
  split
  · rename_i other same
    cases same.symm.trans refused
    rfl
  · rename_i bytes read
    cases read.symm.trans refused

theorem ofDigits_of_bytes (length : text.length = 40) (ascii : ∀ char ∈ text, char.toNat < 128)
    (read : bytesOfDigits text = .ok key.bytes) : ofDigits text = .ok key := by
  unfold ofDigits
  rw [dif_pos ⟨length, by simpa using ascii⟩]
  split
  · rename_i flaw refused
    cases refused.symm.trans read
  · rename_i bytes same
    exact congrArg Except.ok (ext (Except.ok.inj (same.symm.trans read)))

theorem toList_text (key : ContentKey) : key.text.toList = key.bytes.flatMap hexByte :=
  String.toList_ofList

theorem length_text (key : ContentKey) : key.text.toList.length = 40 := by
  have pairs : ∀ bytes : Bytes, (bytes.flatMap hexByte).length = 2 * bytes.length := by
    intro bytes
    induction bytes with
    | nil => rfl
    | cons byte rest ih =>
      rw [List.flatMap_cons, List.length_append, ih, List.length_cons, Nat.mul_succ, Nat.add_comm]
      rfl
  rw [toList_text, pairs, key.length_eq]

theorem digits_text (key : ContentKey) : ∀ char ∈ key.text.toList, IsHexDigit char := by
  intro char member
  rw [toList_text] at member
  obtain ⟨byte, _, digit⟩ := List.mem_flatMap.mp member
  have small : byte.toNat < 256 := byte.toNat_lt
  rcases List.mem_cons.mp digit with rfl | lower
  · exact isHexDigit_hexDigit (by omega)
  · rw [List.mem_singleton.mp lower]
    exact isHexDigit_hexDigit (by omega)

/-- A key is read back from its text. -/
theorem ofDigits_text (key : ContentKey) : ofDigits key.text.toList = .ok key :=
  ofDigits_of_bytes key.length_text (fun char member => (key.digits_text char member).toNat_lt)
    (by rw [toList_text, bytesOfDigits_hexByte])

theorem ofDigits_of_digits (length : text.length = 40) (digits : ∀ char ∈ text, IsHexDigit char) :
    ∃ key, ofDigits text = .ok key ∧ key.text = String.ofList (text.map Char.toLower) := by
  obtain ⟨bytes, read, written⟩ := bytesOfDigits_of_digits (by rw [length]) digits
  let key : ContentKey := ⟨bytes, length_of_bytesOfDigits 20 length read⟩
  refine ⟨key, ?_, congrArg String.ofList written⟩
  exact ofDigits_of_bytes length (fun char member => (digits char member).toNat_lt) read

theorem digits_of_ofDigits (read : ofDigits text = .ok key) :
    text.length = 40 ∧ ∀ char ∈ text, IsHexDigit char := by
  by_cases right : text.length = 40 ∧ ∀ char ∈ text, char.toNat < 128
  · refine ⟨right.1, ?_⟩
    by_contra flawed
    obtain ⟨_, first, _, _, _, _, found⟩ := exists_first_flaw flawed
    have flaw := bytesOfDigits_of_flaw (by rw [right.1]) found
    cases (ofDigits_of_flaw right.1 right.2 flaw).symm.trans read
  · cases (ofDigits_of_length right).symm.trans read

theorem trims_text (key : ContentKey) : Trims key.text.toList key.text.toList :=
  .of_filled fun char member => (key.digits_text char member).not_isBlank

/-- The text form of content keys. A text is read as what stands between the white space at its ends,
and it names a key just where that is forty hexadecimal digits of either case; the key is then written
as these digits in lower case. The text of every key, in whatever white space, names that key. Forty
ASCII characters that are not all digits are refused for the first one that is none, and every other
text for its length in characters, white space at its ends not counted. -/
theorem text_form_of_key (text : String) : ∃ core, (∀ other, Trims text.toList other ↔ other = core) ∧
    ((∃ key, parse text = .ok key) ↔ core.length = 40 ∧ ∀ char ∈ core, IsHexDigit char) ∧
    (∀ key, parse text = .ok key → key.text = String.ofList (core.map Char.toLower)) ∧
    (∀ (key : ContentKey) (left right : List Char), (∀ char ∈ left, isBlank char = true) →
      (∀ char ∈ right, isBlank char = true) → text.toList = left ++ key.text.toList ++ right →
        parse text = .ok key) ∧
    (core.length = 40 → (∀ char ∈ core, char.toNat < 128) → (¬ ∀ char ∈ core, IsHexDigit char) →
      ∃ front first behind, core = front ++ first :: behind ∧ (∀ char ∈ front, IsHexDigit char) ∧
        ¬ IsHexDigit first ∧ parse text = .error (.digit first)) ∧
    (¬ (core.length = 40 ∧ ∀ char ∈ core, char.toNat < 128) →
      parse text = .error (.length core.length)) := by
  refine ⟨trimBlank text.toList, fun other => ⟨fun trims => trims.trimBlank_eq.symm, ?_⟩, ?_, ?_, ?_,
    ?_, ofDigits_of_length⟩
  · rintro rfl
    exact trims_trimBlank text.toList
  · constructor
    · rintro ⟨key, read⟩
      exact digits_of_ofDigits read
    · rintro ⟨length, digits⟩
      obtain ⟨key, read, _⟩ := ofDigits_of_digits length digits
      exact ⟨key, read⟩
  · intro key read
    obtain ⟨length, digits⟩ := digits_of_ofDigits read
    obtain ⟨other, same, written⟩ := ofDigits_of_digits length digits
    cases same.symm.trans read
    exact written
  · intro key left right leftBlank rightBlank split
    rw [parse, split, (key.trims_text.pad leftBlank rightBlank).trimBlank_eq, ofDigits_text]
  · intro length ascii flawed
    obtain ⟨front, first, behind, split, digits, none, found⟩ := exists_first_flaw flawed
    have flaw := bytesOfDigits_of_flaw (by rw [length]) found
    exact ⟨front, first, behind, split, digits, none, ofDigits_of_flaw length ascii flaw⟩

/-- A key between white space of two kinds, a text of forty bytes that is only twenty characters long,
and one of forty characters whose last one is no digit. -/
theorem text_form_of_wide_text :
    parse (String.ofList ('\u3000' :: (replicate 0xab).text.toList ++ ['\n'])) =
        .ok (replicate 0xab) ∧
      (String.ofList (List.replicate 20 'é')).utf8ByteSize = 40 ∧
      parse (String.ofList (List.replicate 20 'é')) = .error (.length 20) ∧
      parse (String.ofList (List.replicate 39 'a' ++ ['g'])) = .error (.digit 'g') := by
  obtain ⟨_, _, _, _, spaced, _⟩ :=
    text_form_of_key (String.ofList ('\u3000' :: (replicate 0xab).text.toList ++ ['\n']))
  obtain ⟨wide, onlyWide, _, _, _, _, short⟩ :=
    text_form_of_key (String.ofList (List.replicate 20 'é'))
  obtain ⟨flawed, onlyFlawed, _, _, _, flaw, _⟩ :=
    text_form_of_key (String.ofList (List.replicate 39 'a' ++ ['g']))
  rw [String.toList_ofList] at onlyWide onlyFlawed
  have accented : ∀ char ∈ List.replicate 20 'é', isBlank char = false := by
    intro char member
    rw [List.eq_of_mem_replicate member]
    rfl
  have letters : ∀ char ∈ List.replicate 39 'a' ++ ['g'], char = 'a' ∨ char = 'g' := by simp
  have narrow : ∀ char ∈ List.replicate 39 'a' ++ ['g'],
      isBlank char = false ∧ char.toNat < 128 := by
    intro char member
    rcases letters char member with rfl | rfl
    · exact ⟨rfl, by decide⟩
    · exact ⟨rfl, by decide⟩
  cases (onlyWide _).mp (.of_filled accented)
  cases (onlyFlawed _).mp (.of_filled fun char member => (narrow char member).1)
  refine ⟨spaced _ ['\u3000'] ['\n'] (by simp [isBlank]) (by simp [isBlank]) (by simp),
    by decide +kernel, short (by simp), ?_⟩
  obtain ⟨front, first, behind, split, _, none, answer⟩ := flaw rfl
    (fun char member => (narrow char member).2)
    (fun digits => absurd (digits 'g' (by simp)) (by decide))
  rcases letters first (split ▸ by simp) with rfl | rfl
  · exact absurd (by decide) none
  · exact answer

end ContentKey

end SlotStore
