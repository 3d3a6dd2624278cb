import SlotStore.Lz4.Factor
import SlotStore.Proofs.Lz4.Coding

/-!
The factoring of a byte string is a legal block that stands for that string, so decoding undoes
compression. The output of the sequences found so far is a prefix of the data, and a copy of bytes
that were compared makes it a longer one.
-/

namespace SlotStore.Lz4

theorem or_shiftLeft_of_lt (low shift power : Nat) (same : 2 ^ shift = power) (small : low < power)
    {high : Nat} (bounded : high * power < 2 ^ 32) :
    low ||| high <<< shift % 2 ^ 32 = low + power * high := by
  subst same
  rw [Nat.mod_eq_of_lt (by rwa [Nat.shiftLeft_eq]), Nat.or_comm,
    ← Nat.shiftLeft_add_eq_or_of_lt small, Nat.shiftLeft_eq, Nat.mul_comm, Nat.add_comm]

theorem toNat_word32 (data : Array UInt8) (pos : Nat) :
    (word32 data pos).toNat = (byteAt data pos).toNat + 256 * (byteAt data (pos + 1)).toNat +
      65536 * (byteAt data (pos + 2)).toNat + 16777216 * (byteAt data (pos + 3)).toNat := by
  have bound (pos : Nat) : (byteAt data pos).toNat < 256 := (byteAt data pos).toNat_lt
  have first := bound pos
  have second := bound (pos + 1)
  have third := bound (pos + 2)
  have fourth := bound (pos + 3)
  have eight : UInt32.toNat 8 % 32 = 8 := rfl
  have sixteen : UInt32.toNat 16 % 32 = 16 := rfl
  have twentyFour : UInt32.toNat 24 % 32 = 24 := rfl
  simp only [word32, UInt32.toNat_or, UInt32.toNat_shiftLeft, UInt8.toNat_toUInt32, eight, sixteen,
    twentyFour]
  rw [or_shiftLeft_of_lt (byteAt data pos).toNat 8 256 rfl (by omega) (by omega)]
  rw [or_shiftLeft_of_lt _ 16 65536 rfl (by omega) (by omega)]
  rw [or_shiftLeft_of_lt _ 24 16777216 rfl (by omega) (by omega)]

theorem byteAt_of_word32 {data : Array UInt8} {left right : Nat}
    (same : word32 data left = word32 data right) {index : Nat} (inside : index < 4) :
    byteAt data (left + index) = byteAt data (right + index) := by
  have sum := congrArg UInt32.toNat same
  rw [toNat_word32, toNat_word32] at sum
  have bound (pos : Nat) : (byteAt data pos).toNat < 256 := (byteAt data pos).toNat_lt
  have := bound left
  have := bound (left + 1)
  have := bound (left + 2)
  have := bound (left + 3)
  have := bound right
  have := bound (right + 1)
  have := bound (right + 2)
  have := bound (right + 3)
  apply UInt8.toNat_inj.mp
  match index, inside with
  | 0, _ => simp only [Nat.add_zero]; omega
  | 1, _ => omega
  | 2, _ => omega
  | 3, _ => omega

theorem sharedBefore_le (data : Array UInt8) (start here earlier : Nat) (behind : start ≤ here) :
    sharedBefore data start here earlier ≤ here - start ∧
      sharedBefore data start here earlier ≤ earlier := by
  induction here generalizing earlier with
  | zero => simp [sharedBefore]
  | succ here ih =>
    cases earlier with
    | zero => simp [sharedBefore]
    | succ earlier =>
      unfold sharedBefore
      split
      · rename_i shared
        have := ih earlier shared.1
        omega
      · omega

theorem byteAt_of_sharedBefore (data : Array UInt8) (start here earlier : Nat) {index : Nat}
    (inside : index < sharedBefore data start here earlier) :
    byteAt data (here - 1 - index) = byteAt data (earlier - 1 - index) := by
  induction here generalizing earlier index with
  | zero => simp [sharedBefore] at inside
  | succ here ih =>
    cases earlier with
    | zero => simp [sharedBefore] at inside
    | succ earlier =>
      unfold sharedBefore at inside
      split at inside
      · rename_i shared
        cases index with
        | zero => exact shared.2
        | succ index =>
          have nearer : index < sharedBefore data start here earlier := by omega
          have step := ih earlier nearer
          rw [show here + 1 - 1 - (index + 1) = here - 1 - index by omega,
            show earlier + 1 - 1 - (index + 1) = earlier - 1 - index by omega]
          exact step
      · omega

theorem le_matchEnd (data : Array UInt8) (limit here earlier : Nat) :
    here ≤ matchEnd data limit here earlier := by
  fun_induction matchEnd data limit here earlier with
  | case1 here earlier same ih => omega
  | case2 here earlier differs => exact Nat.le_refl _

theorem matchEnd_le (data : Array UInt8) (limit here earlier : Nat) :
    matchEnd data limit here earlier ≤ max here limit := by
  fun_induction matchEnd data limit here earlier with
  | case1 here earlier same ih => omega
  | case2 here earlier differs => omega

theorem byteAt_of_matchEnd (data : Array UInt8) (limit here earlier : Nat) {index : Nat}
    (inside : here + index < matchEnd data limit here earlier) :
    byteAt data (here + index) = byteAt data (earlier + index) := by
  fun_induction matchEnd data limit here earlier generalizing index with
  | case1 here earlier same ih =>
    cases index with
    | zero => exact same.2
    | succ index =>
      have nearer : here + 1 + index < matchEnd data limit (here + 1) (earlier + 1) := by omega
      have step := ih nearer
      rw [show here + (index + 1) = here + 1 + index by omega,
        show earlier + (index + 1) = earlier + 1 + index by omega]
      exact step
  | case2 here earlier differs => omega

theorem le_matchEnd_of_same {data : Array UInt8} {limit here earlier count : Nat}
    (below : here + count ≤ limit)
    (same : ∀ index < count, byteAt data (here + index) = byteAt data (earlier + index)) :
    here + count ≤ matchEnd data limit here earlier := by
  induction count generalizing here earlier with
  | zero => exact le_matchEnd data limit here earlier
  | succ count ih =>
    unfold matchEnd
    rw [if_pos ⟨by omega, same 0 (by omega)⟩]
    have behind (index : Nat) (inside : index < count) :
        byteAt data (here + 1 + index) = byteAt data (earlier + 1 + index) := by
      have next := same (index + 1) (by omega)
      rwa [show here + (index + 1) = here + 1 + index by omega,
        show earlier + (index + 1) = earlier + 1 + index by omega] at next
    have step := ih (Nat.add_right_comm here count 1 ▸ below) behind
    omega

theorem getD_setIfInBounds_le (table : Array Nat) (index value slot : Nat) :
    (table.setIfInBounds index value).getD slot 0 ≤ max value (table.getD slot 0) := by
  rw [Array.getD_eq_getD_getElem?, Array.getD_eq_getD_getElem?, Array.getElem?_setIfInBounds]
  split
  · split
    · exact Nat.le_max_left _ _
    · exact Nat.zero_le _
  · exact Nat.le_max_right _ _

/-- What the search proposes lies before where it was found, near enough, and starts with the same
four bytes; the table goes on to hold no position behind the one that was found. -/
theorem search_some {data : Array UInt8} {table grown : Array Nat} {here misses found earlier : Nat}
    (below : ∀ slot, table.getD slot 0 < here)
    (result : search data table here misses = (grown, some (found, earlier))) :
    here ≤ found ∧ found + searchMargin ≤ data.size ∧ earlier < found ∧
      found - earlier ≤ farthest ∧ word32 data earlier = word32 data found ∧
        ∀ slot, grown.getD slot 0 ≤ found := by
  have noted (table : Array Nat) {here : Nat} (below : ∀ slot, table.getD slot 0 < here)
      (slot : Nat) : (table.setIfInBounds (slotOf data here) here).getD slot 0 ≤ here := by
    have bound := getD_setIfInBounds_le table (slotOf data here) here slot
    have old := below slot
    omega
  fun_induction search data table here misses with
  | case1 table here misses short => cases result
  | case2 table here misses long slot proposed table' near =>
    obtain ⟨tables, match'⟩ := Prod.mk.inj result
    obtain ⟨rfl, rfl⟩ := Prod.mk.inj (Option.some.inj match')
    subst tables
    exact ⟨Nat.le_refl _, by omega, below slot, near.1, near.2, noted table below⟩
  | case3 table here misses long slot proposed table' far ih =>
    have onward : ∀ slot, table'.getD slot 0 < here + (32 + misses) / 32 := by
      intro slot
      have bound := noted table below slot
      have step : 0 < (32 + misses) / 32 := Nat.div_pos (by omega) (by decide)
      exact Nat.lt_of_le_of_lt bound (by omega)
    obtain ⟨behind, rest⟩ := ih onward result
    exact ⟨by omega, rest⟩

theorem toList_getD {data : Array UInt8} {pos : Nat} (inside : pos < data.size) :
    data.toList[pos]? = some (byteAt data pos) := by
  rw [byteAt, Array.getD_eq_getD_getElem?, Array.getElem?_toList, Array.getElem?_eq_getElem inside]
  rfl

theorem copyBack_take {data output : Array UInt8} {pos offset length : Nat}
    (held : output.toList = data.toList.take pos) (back : 0 < offset) (reaches : offset ≤ pos)
    (inside : pos + length ≤ data.size)
    (same : ∀ index < length, byteAt data (pos + index) = byteAt data (pos - offset + index)) :
    (copyBack output offset length).toList = data.toList.take (pos + length) := by
  induction length generalizing output pos with
  | zero => exact held
  | succ length ih =>
    have size : output.size = pos := by
      rw [← Array.length_toList, held, List.length_take, Array.length_toList]
      omega
    have copied : output.getD (output.size - offset) 0 = byteAt data pos := by
      have first := same 0 (by omega)
      have source : output.toList[pos - offset]? = some (byteAt data (pos - offset)) := by
        rw [held, List.getElem?_take, if_pos (by omega), toList_getD (by omega)]
      rw [Array.getD_eq_getD_getElem?, size, ← Array.getElem?_toList, source]
      exact first.symm
    have grown : (output.push (output.getD (output.size - offset) 0)).toList =
        data.toList.take (pos + 1) := by
      rw [Array.toList_push, copied, held, List.take_add_one, toList_getD (by omega)]
      rfl
    have step := ih grown (by omega) (by omega) (by
      intro index small
      have next := same (index + 1) (by omega)
      rwa [show pos + (index + 1) = pos + 1 + index by omega,
        show pos - offset + (index + 1) = pos + 1 - offset + index by omega] at next)
    rwa [show pos + 1 + length = pos + (length + 1) by omega] at step

/-- A match behind a prefix of the data gives a legal sequence that makes a longer prefix. -/
theorem expand_take {data output : Array UInt8} {start head offset stop : Nat}
    (held : output.toList = data.toList.take start) (ordered : start ≤ head)
    (long : head + shortestCopy ≤ stop) (inside : stop ≤ data.size) (back : 0 < offset)
    (near : offset ≤ farthest) (reaches : offset ≤ head)
    (same : ∀ index < stop - head, byteAt data (head + index) = byteAt data (head - offset + index)) :
    let sequence : Sequence := ⟨(data.extract start head).toList, offset, stop - head⟩
    sequence.Legal data.size output ∧ (sequence.expand output).toList = data.toList.take stop := by
  intro sequence
  simp only [shortestCopy] at long
  have size : output.size = start := by
    rw [← Array.length_toList, held, List.length_take, Array.length_toList]
    omega
  have literals : sequence.literals.length = head - start := by
    have count : sequence.literals.length = min (head - start) (data.size - start) := by
      simp [sequence]
    omega
  have grown : (output ++ sequence.literals).toList = data.toList.take head := by
    rw [Array.toList_appendList, held]
    have piece : sequence.literals = (data.toList.drop start).take (head - start) := by
      simp [sequence, List.extract_eq_take_drop]
    rw [piece, ← List.take_add]
    congr 1
    omega
  have full := copyBack_take grown back reaches (by omega) same
  rw [show head + (stop - head) = stop by omega] at full
  refine ⟨⟨?_, back, ?_, ?_, ?_⟩, full⟩
  · change 4 ≤ stop - head
    omega
  · simp only [farthest] at near
    exact Nat.lt_succ_of_le near
  · rw [size, literals]
    change offset ≤ _
    omega
  · rw [Sequence.size_expand, size, literals]
    change _ + (stop - head) ≤ _
    omega

theorem match_spec {data : Array UInt8} {start found earlier : Nat} (ordered : start ≤ found)
    (room : found + searchMargin ≤ data.size) (before : earlier < found)
    (same : word32 data earlier = word32 data found) :
    let back := sharedBefore data start found earlier
    let stop := matchEnd data (data.size - matchMargin) (found - back + 4) (earlier - back + 4)
    start ≤ found - back ∧ back ≤ earlier ∧ found + 4 ≤ stop ∧ stop ≤ data.size ∧
      ∀ index < stop - (found - back),
        byteAt data (found - back + index) = byteAt data (earlier - back + index) := by
  intro back stop
  obtain ⟨low, inside⟩ := sharedBefore_le data start found earlier ordered
  simp only [searchMargin] at room
  have word {index : Nat} (small : index < 4) :
      byteAt data (found + index) = byteAt data (earlier + index) :=
    (byteAt_of_word32 same small).symm
  -- Up to four bytes behind the match that was found, bytes are shared backwards or by the words.
  have near : ∀ index < back + 4,
      byteAt data (found - back + index) = byteAt data (earlier - back + index) := by
    intro index small
    by_cases inBack : index < back
    · have under : back - 1 - index < back := by omega
      have shared := byteAt_of_sharedBefore data start found earlier under
      rwa [show found - 1 - (back - 1 - index) = found - back + index by omega,
        show earlier - 1 - (back - 1 - index) = earlier - back + index by omega] at shared
    · have under : index - back < 4 := by omega
      have equal := word under
      rwa [show found + (index - back) = found - back + index by omega,
        show earlier + (index - back) = earlier - back + index by omega] at equal
  have far : found - back + 4 + back ≤ stop := by
    refine le_matchEnd_of_same (by simp only [matchMargin]; omega) ?_
    intro index small
    have equal := near (index + 4) (by omega)
    rwa [show found - back + (index + 4) = found - back + 4 + index by omega,
      show earlier - back + (index + 4) = earlier - back + 4 + index by omega] at equal
  have most := matchEnd_le data (data.size - matchMargin) (found - back + 4) (earlier - back + 4)
  have margin : matchMargin = 6 := rfl
  refine ⟨by omega, inside, by omega, by omega, ?_⟩
  · intro index small
    by_cases first : index < 4
    · exact near index (by omega)
    · have under : found - back + 4 + (index - 4) < stop := by omega
      have equal := byteAt_of_matchEnd data (data.size - matchMargin) (found - back + 4)
        (earlier - back + 4) under
      rwa [show found - back + 4 + (index - 4) = found - back + index by omega,
        show earlier - back + 4 + (index - 4) = earlier - back + index by omega] at equal

/-- The sequences found from a start on are legal behind the data before it, and with them the
output reaches to where the last literals start. -/
theorem factorFrom_spec {data : Array UInt8} {table : Array Nat} {start here : Nat}
    (below : ∀ slot, table.getD slot 0 < here) (ordered : start ≤ here) (inside : start ≤ data.size)
    {output : Array UInt8} (held : output.toList = data.toList.take start) :
    AllLegal data.size output (factorFrom data table start here).1 ∧
      (expandAll output (factorFrom data table start here).1).toList =
        data.toList.take (factorFrom data table start here).2 ∧
      (factorFrom data table start here).2 ≤ data.size := by
  induction gap : data.size - start using Nat.strongRecOn generalizing
    table start here output with
  | ind gap ih =>
    unfold factorFrom
    split
    · exact ⟨trivial, held, inside⟩
    · rename_i grown found earlier proposed
      obtain ⟨behind, room, before, near, same, noted⟩ := search_some below proposed
      have reached : start ≤ found := by omega
      obtain ⟨low, most, long, limit, equal⟩ := match_spec reached room before same
      simp only
      generalize sharedBefore data start found earlier = back at low most long limit equal ⊢
      generalize matchEnd data (data.size - matchMargin) (found - back + 4) (earlier - back + 4) =
        stop at long limit equal ⊢
      split
      · have offset : found - back - (earlier - back) = found - earlier := by omega
        have source : earlier - back = found - back - (found - earlier) := by omega
        rw [source] at equal
        obtain ⟨legal, longer⟩ := expand_take held low (by simp only [shortestCopy]; omega) limit
          (by omega) near (by omega) equal
        have onward (slot : Nat) :
            (grown.setIfInBounds (slotOf data (stop - 2)) (stop - 2)).getD slot 0 < stop := by
          have bound := getD_setIfInBounds_le grown (slotOf data (stop - 2)) (stop - 2) slot
          have old := noted slot
          omega
        obtain ⟨rest, reached, last⟩ :=
          ih (data.size - stop) (by omega) onward (Nat.le_refl stop) limit longer rfl
        rw [offset]
        exact ⟨⟨legal, rest⟩, reached, last⟩
      · exact ⟨trivial, held, inside⟩

/-- The block of a byte string is legal and stands for it. -/
theorem expand_factor (bytes : Bytes) :
    AllLegal bytes.length #[] (factor bytes).sequences ∧ (factor bytes).expand = bytes := by
  unfold factor
  simp only
  split
  · exact ⟨trivial, rfl⟩
  · have zeros (slot : Nat) : (Array.replicate 4096 0).getD slot 0 < 1 := by
      rw [Array.getD_eq_getD_getElem?, Array.getElem?_replicate]
      split <;> decide
    have empty : (#[] : Array UInt8).toList = bytes.toArray.toList.take 0 := rfl
    obtain ⟨legal, reached, last⟩ :=
      factorFrom_spec zeros (Nat.zero_le 1) (Nat.zero_le _) empty
    generalize factorFrom bytes.toArray (Array.replicate 4096 0) 0 1 = found at legal reached ⊢
    refine ⟨legal, ?_⟩
    have rest : (bytes.toArray.extract found.2 bytes.toArray.size).toList = bytes.drop found.2 := by
      rw [Array.toList_extract, List.extract_eq_take_drop, List.take_of_length_le (by simp)]
    simp only [Block.expand, rest]
    change (expandAll #[] found.1).toList ++ _ = bytes
    rw [reached, List.take_append_drop]

/-- Decoding undoes compression. -/
theorem decode_compress (bytes : Bytes) : decode bytes.length (compress bytes) = .ok bytes := by
  obtain ⟨legal, whole⟩ := expand_factor bytes
  rw [compress, decode_encode legal (Nat.le_of_eq (congrArg List.length whole)), whole]

end SlotStore.Lz4
