import SlotStore.Proofs.Container.Words
import SlotStore.Proofs.Scanning

/-!
The grammar of the guard walk. Behind the header a file that can be walked holds blocks, one behind the
other: a guard word, as many bytes as its magnitude says, and the same word again. They end at a zero
word, or where no word is left. The walk accepts these files and no others. Carried out in words of 64
bits it is the same walk, but for one place near the end of the longest files.
-/

namespace SlotStore

/-- A region in the file with the guard words around it. -/
structure Block where
  guard : Int
  body : Bytes
  signed : -2 ^ 63 ≤ guard ∧ guard < 2 ^ 63
  nonzero : guard ≠ 0
  whole : guard.natAbs % granule = 0
  length_body : body.length = guard.natAbs

namespace Block

def bytes (block : Block) : Bytes := Bytes.ofInt block.guard ++ block.body ++ Bytes.ofInt block.guard

@[simp] theorem length_bytes (block : Block) : block.bytes.length = block.guard.natAbs + 16 := by
  simp only [bytes, List.length_append, Bytes.length_ofInt, block.length_body]
  omega

/-- What the walk reports of a block at a position. -/
def scanned (block : Block) (pos : Nat) : ScannedRegion :=
  ⟨pos + 8, block.guard.natAbs, decide (0 < block.guard)⟩

/-- What the walk reports of blocks from a position on. -/
def scannedFrom (pos : Nat) : List Block → List ScannedRegion
  | [] => []
  | block :: rest => block.scanned pos :: scannedFrom (pos + block.bytes.length) rest

end Block

/-- The bytes of blocks one behind the other. -/
def blockBytes (blocks : List Block) : Bytes := blocks.flatMap Block.bytes

@[simp] theorem blockBytes_nil : blockBytes [] = [] := rfl

@[simp] theorem blockBytes_cons (block : Block) (rest : List Block) :
    blockBytes (block :: rest) = block.bytes ++ blockBytes rest := List.flatMap_cons ..

/-- No block is to follow: a zero word is next, or too few bytes for a word are left. -/
def Ends (bytes : Bytes) : Prop := bytes.length < 8 ∨ bytes.take 8 = Bytes.zeros 8

namespace File

variable {file : File} {pos : Nat}

theorem length_drop (file : File) (pos : Nat) : (file.toList.drop pos).length = file.size - pos := by
  rw [List.length_drop, length_toList]

theorem drop_of_append {start rest : Bytes} (held : file.toList.drop pos = start ++ rest) :
    file.toList.drop (pos + start.length) = rest := by
  rw [← List.drop_drop, held, List.drop_left]

theorem intAt_of_drop {value : Int} {rest : Bytes} (low : -2 ^ 63 ≤ value) (high : value < 2 ^ 63)
    (held : file.toList.drop pos = Bytes.ofInt value ++ rest) : file.intAt pos = value := by
  refine intAt_of_slice ?_ low high
  rw [toList_slice, held, ← Bytes.length_ofInt value, List.take_left]

theorem drop_eq_intAt (within : pos + 8 ≤ file.size) :
    file.toList.drop pos = Bytes.ofInt (file.intAt pos) ++ file.toList.drop (pos + 8) := by
  have length : (file.slice pos 8).length = 8 := by
    rw [length_slice]
    omega
  rw [intAt, Bytes.ofInt_toInt length, toList_slice, ← List.drop_drop, List.take_append_drop]

theorem ends_drop_iff : Ends (file.toList.drop pos) ↔
    file.size < pos + 8 ∨ file.intAt pos = 0 := by
  unfold Ends
  rw [length_drop, ← toList_slice]
  by_cases short : file.size < pos + 8
  · exact iff_of_true (Or.inl (by omega)) (Or.inl short)
  · have length : (file.slice pos 8).length = 8 := by
      rw [length_slice]
      omega
    rw [or_iff_right (by omega), or_iff_right short]
    constructor
    · intro zeros
      rw [intAt, zeros]
      decide
    · intro zero
      rw [← Bytes.ofInt_toInt length, ← intAt, zero]
      decide

/-- A block stands where a word that can be a guard has its partner within the file. -/
theorem block_of_guards (nonzero : file.intAt pos ≠ 0)
    (whole : (file.intAt pos).natAbs % granule = 0)
    (within : pos + (file.intAt pos).natAbs + 16 ≤ file.size)
    (paired : file.intAt (pos + 8 + (file.intAt pos).natAbs) = file.intAt pos) :
    ∃ block : Block, block.guard = file.intAt pos ∧ block.bytes <+: file.toList.drop pos := by
  have length : (file.slice (pos + 8) (file.intAt pos).natAbs).length = (file.intAt pos).natAbs := by
    rw [length_slice]
    omega
  refine ⟨⟨file.intAt pos, file.slice (pos + 8) (file.intAt pos).natAbs, file.intAt_bounds pos,
    nonzero, whole, length⟩, rfl, file.toList.drop (pos + 8 + (file.intAt pos).natAbs + 8), ?_⟩
  have behind : pos + 8 + (file.intAt pos).natAbs + 8 ≤ file.size := by omega
  have closing := drop_eq_intAt behind
  rw [paired] at closing
  have joined := List.take_append_drop (file.intAt pos).natAbs (file.toList.drop (pos + 8))
  rw [List.drop_drop] at joined
  simp only [Block.bytes, List.append_assoc, ← closing, toList_slice, joined]
  exact (drop_eq_intAt (by omega)).symm

theorem guards_of_block {block : Block} (here : block.bytes <+: file.toList.drop pos) :
    file.intAt pos = block.guard ∧ pos + block.guard.natAbs + 16 ≤ file.size ∧
      file.intAt (pos + 8 + block.guard.natAbs) = block.guard := by
  obtain ⟨rest, held⟩ := here
  have length := congrArg List.length held
  rw [List.length_append, Block.length_bytes, length_drop] at length
  rw [Block.bytes, List.append_assoc, List.append_assoc] at held
  have behind := drop_of_append held.symm
  rw [Bytes.length_ofInt] at behind
  have closing := drop_of_append behind
  rw [block.length_body] at closing
  exact ⟨intAt_of_drop block.signed.1 block.signed.2 held.symm, by omega,
    intAt_of_drop block.signed.1 block.signed.2 closing⟩

end File

namespace Scan

variable {file : File} {pos : Nat}

theorem walk_of_ends (ended : Ends (file.toList.drop pos)) : walk file pos = .ok ([], pos) := by
  unfold walk
  rcases File.ends_drop_iff.mp ended with short | zero
  · rw [dif_neg (by omega)]
  · split
    · simp only [zero, if_true]
    · rfl

/-- The walk passes a block. -/
theorem walk_of_block {block : Block} (here : block.bytes <+: file.toList.drop pos) :
    walk file pos = (walk file (pos + block.bytes.length)).map fun found =>
      (block.scanned pos :: found.1, found.2) := by
  obtain ⟨leading, within, trailing⟩ := File.guards_of_block here
  have onward : pos + 8 + block.guard.natAbs + 8 = pos + block.bytes.length := by
    rw [Block.length_bytes]
    omega
  rw [walk, dif_pos (by omega)]
  simp only [leading, trailing, onward]
  rw [if_neg block.nonzero, if_neg (by rw [block.whole]; decide), if_neg (by omega), if_neg (by simp)]
  cases walk file (pos + block.bytes.length) <;> rfl

theorem walk_of_broken (unended : ¬ Ends (file.toList.drop pos))
    (broken : ∀ block : Block, ¬ block.bytes <+: file.toList.drop pos) :
    ∃ damage, walk file pos = .error damage := by
  rw [File.ends_drop_iff, not_or] at unended
  obtain ⟨enough, nonzero⟩ := unended
  rw [walk, dif_pos (by omega)]
  simp only
  rw [if_neg nonzero]
  split
  · exact ⟨_, rfl⟩
  rename_i whole
  split
  · exact ⟨_, rfl⟩
  rename_i within
  split
  · exact ⟨_, rfl⟩
  rename_i paired
  obtain ⟨block, _, here⟩ :=
    File.block_of_guards nonzero (not_not.mp whole) (by omega) (not_not.mp paired)
  exact absurd here (broken block)

theorem walk_of_blocks {blocks : List Block} {tail : Bytes}
    (held : file.toList.drop pos = blockBytes blocks ++ tail) (ended : Ends tail) :
    walk file pos = .ok (Block.scannedFrom pos blocks, pos + (blockBytes blocks).length) := by
  induction blocks generalizing pos with
  | nil => exact walk_of_ends (held ▸ ended)
  | cons block rest ih =>
    rw [blockBytes_cons, List.append_assoc] at held
    rw [walk_of_block ⟨_, held.symm⟩, ih (File.drop_of_append held), blockBytes_cons,
      List.length_append, ← Nat.add_assoc]
    rfl

theorem blocks_of_walk {pos : Nat} {found : List ScannedRegion × Nat} (walked : walk file pos = .ok found) :
    ∃ blocks tail, file.toList.drop pos = blockBytes blocks ++ tail ∧ Ends tail ∧
      found = (Block.scannedFrom pos blocks, pos + (blockBytes blocks).length) := by
  by_cases ended : Ends (file.toList.drop pos)
  · rw [walk_of_ends ended] at walked
    exact ⟨[], _, rfl, ended, (Except.ok.inj walked).symm⟩
  by_cases met : ∃ block : Block, block.bytes <+: file.toList.drop pos
  · obtain ⟨block, here⟩ := met
    obtain ⟨_, within, _⟩ := File.guards_of_block here
    have width := block.length_bytes
    rw [walk_of_block here] at walked
    cases onward : walk file (pos + block.bytes.length) with
    | error damage =>
      rw [onward] at walked
      cases walked
    | ok later =>
      obtain ⟨blocks, tail, held, done, rfl⟩ := blocks_of_walk onward
      obtain ⟨rest, split⟩ := here
      rw [onward] at walked
      rw [File.drop_of_append split.symm] at held
      refine ⟨block :: blocks, tail, ?_, done, ?_⟩
      · rw [← split, held, blockBytes_cons, List.append_assoc]
      · rw [blockBytes_cons, List.length_append, ← Nat.add_assoc]
        exact (Except.ok.inj walked).symm
  · obtain ⟨damage, stopped⟩ := walk_of_broken ended (not_exists.mp met)
    cases stopped.symm.trans walked
termination_by file.size - pos

/-- What stands at a position, in words: nothing more, damage, or a region and the position behind it.
The end of a region is tested, but eight more are added to it untested. -/
def stepInWords (file : File) (pos : Nat) :
    Option (Except Damage (Option (ScannedRegion × Nat))) :=
  (Word.add? pos 8).bind fun offset =>
    if file.size < offset then some (.ok none)
    else
      let guard := file.intAt pos
      let capacity := guard.natAbs
      if guard = 0 then some (.ok none)
      else if capacity % granule ≠ 0 then some (.error (.misalignedLength offset capacity))
      else
        (Container.fitsInWords file offset capacity).bind fun fits =>
          if fits = false then some (.error (.walkOverruns offset capacity file.size))
          else
            (Word.add? offset capacity).bind fun trailing =>
              if file.intAt trailing ≠ guard then
                some (.error (.guardsDiffer offset guard (file.intAt trailing)))
              else
                (Word.add? trailing 8).map fun next =>
                  .ok (some (⟨offset, capacity, decide (0 < guard)⟩, next))

theorem lt_of_stepInWords {region : ScannedRegion} {next : Nat}
    (stepped : stepInWords file pos = some (.ok (some (region, next)))) :
    pos < next ∧ pos < file.size := by
  unfold stepInWords at stepped
  obtain ⟨offset, first, stepped⟩ := Option.bind_eq_some_iff.mp stepped
  have low := Word.add?_eq_some_iff.mp first
  split at stepped
  · cases stepped
  simp only at stepped
  split at stepped
  · cases stepped
  split at stepped
  · cases stepped
  obtain ⟨fits, _, stepped⟩ := Option.bind_eq_some_iff.mp stepped
  split at stepped
  · cases stepped
  obtain ⟨trailing, second, stepped⟩ := Option.bind_eq_some_iff.mp stepped
  have middle := Word.add?_eq_some_iff.mp second
  split at stepped
  · cases stepped
  obtain ⟨behind, third, same⟩ := Option.map_eq_some_iff.mp stepped
  have high := Word.add?_eq_some_iff.mp third
  cases same
  omega

/-- The walk from one guard position on, in words. -/
def walkInWords (file : File) (pos : Nat) : Option (Except Damage (List ScannedRegion × Nat)) :=
  match _stepped : stepInWords file pos with
  | none => none
  | some (.error damage) => some (.error damage)
  | some (.ok none) => some (.ok ([], pos))
  | some (.ok (some (region, next))) =>
    (walkInWords file next).map fun walked =>
      walked.map fun found => (region :: found.1, found.2)
termination_by file.size - pos
decreasing_by
  have := lt_of_stepInWords _stepped
  omega

/-- Blocks lead up to the least word that there is, and that stands sixteen bytes before `2 ^ 63`. -/
def Overreaches (file : File) (pos : Nat) : Prop :=
  ∃ blocks, blockBytes blocks ++ Bytes.ofInt (-2 ^ 63) <+: file.toList.drop pos ∧
    pos + (blockBytes blocks).length = 2 ^ 63 - 16

theorem Overreaches.here (least : file.intAt pos = -2 ^ 63) (last : pos = 2 ^ 63 - 16)
    (within : pos + 8 ≤ file.size) : Overreaches file pos :=
  ⟨[], ⟨_, least ▸ (File.drop_eq_intAt within).symm⟩, last⟩

theorem Overreaches.cons {block : Block} (here : block.bytes <+: file.toList.drop pos)
    (overreaches : Overreaches file (pos + block.bytes.length)) : Overreaches file pos := by
  obtain ⟨blocks, ⟨rest, held⟩, last⟩ := overreaches
  obtain ⟨behind, split⟩ := here
  refine ⟨block :: blocks, ⟨rest, ?_⟩, ?_⟩
  · rw [← split, ← File.drop_of_append split.symm, ← held, blockBytes_cons]
    simp only [List.append_assoc]
  · rw [blockBytes_cons, List.length_append, ← Nat.add_assoc, last]

theorem stepInWords_of_ends (small : pos + 8 < 2 ^ 64) (ended : Ends (file.toList.drop pos)) :
    stepInWords file pos = some (.ok none) := by
  rw [stepInWords, Word.add?_of_lt small, Option.bind_some]
  rcases File.ends_drop_iff.mp ended with short | zero
  · rw [if_pos short]
  · simp only [zero, if_true, ite_self]

theorem stepInWords_of_block (bounded : file.size < 2 ^ 63) {block : Block}
    (here : block.bytes <+: file.toList.drop pos) : stepInWords file pos =
      some (.ok (some (block.scanned pos, pos + block.bytes.length))) := by
  obtain ⟨leading, within, trailing⟩ := File.guards_of_block here
  have onward : pos + 8 + block.guard.natAbs + 8 = pos + block.bytes.length := by
    rw [Block.length_bytes]
    omega
  have inside : decide (pos + 8 + block.guard.natAbs + 8 ≤ file.size) = true :=
    decide_eq_true (by omega)
  rw [stepInWords, Word.add?_of_lt (by omega), Option.bind_some, if_neg (by omega)]
  simp only [leading]
  rw [if_neg block.nonzero, if_neg (by rw [block.whole]; decide),
    Container.fitsInWords_of_lt (by omega), Option.bind_some, if_neg (by rw [inside]; decide),
    Word.add?_of_lt (by omega), Option.bind_some, trailing, if_neg (by simp),
    Word.add?_of_lt (by omega), onward]
  rfl

/-- The end of a region at the least word is no word any more, and the exact walk refuses it. -/
theorem stepInWords_of_least (least : file.intAt pos = -2 ^ 63) (last : pos = 2 ^ 63 - 16)
    (within : pos + 8 ≤ file.size) (bounded : file.size < 2 ^ 63) : stepInWords file pos = none ∧
      walk file pos = .error (.walkOverruns (2 ^ 63 - 8) (2 ^ 63) file.size) := by
  have capacity : (file.intAt pos).natAbs = 2 ^ 63 := by omega
  have offset : pos + 8 = 2 ^ 63 - 8 := by omega
  rw [stepInWords, walk, Word.add?_of_lt (by omega), Option.bind_some, if_neg (by omega),
    dif_pos within]
  simp only [capacity, offset]
  rw [if_neg (by omega), if_neg (by decide), if_neg (by omega), if_neg (by decide), if_pos (by omega)]
  exact ⟨rfl, rfl⟩

/-- Where the walk goes no further, so does the one in words, and for the same reason, unless the least
word stands where the end of its region is no word. -/
theorem stepInWords_of_broken (bounded : file.size < 2 ^ 63) (aligned : pos % 16 = 0)
    (unended : ¬ Ends (file.toList.drop pos))
    (broken : ∀ block : Block, ¬ block.bytes <+: file.toList.drop pos) :
    (∃ damage, stepInWords file pos = some (.error damage) ∧ walk file pos = .error damage) ∨
      stepInWords file pos = none ∧ Overreaches file pos := by
  rw [File.ends_drop_iff, not_or] at unended
  obtain ⟨enough, nonzero⟩ := unended
  have word := file.intAt_bounds pos
  have within : pos + 8 ≤ file.size := Nat.le_of_not_lt enough
  by_cases large : file.intAt pos = -2 ^ 63 ∧ pos = 2 ^ 63 - 16
  · obtain ⟨least, last⟩ := large
    exact Or.inr ⟨(stepInWords_of_least least last within bounded).1, .here least last within⟩
  refine Or.inl ?_
  rw [stepInWords, walk, Word.add?_of_lt (by omega), Option.bind_some, if_neg enough, dif_pos within]
  simp only
  rw [if_neg nonzero, if_neg nonzero]
  by_cases whole : (file.intAt pos).natAbs % granule ≠ 0
  · exact ⟨_, if_pos whole, if_pos whole⟩
  rw [if_neg whole, if_neg whole]
  have small : pos + 8 + (file.intAt pos).natAbs + 8 < 2 ^ 64 := by
    simp only [granule] at whole
    omega
  rw [Container.fitsInWords_of_lt small, Option.bind_some]
  by_cases beyond : file.size < pos + 8 + (file.intAt pos).natAbs + 8
  · exact ⟨_, if_pos (decide_eq_false (by omega)), if_pos beyond⟩
  have inside : decide (pos + 8 + (file.intAt pos).natAbs + 8 ≤ file.size) = true :=
    decide_eq_true (by omega)
  rw [if_neg (by rw [inside]; decide), if_neg beyond, Word.add?_of_lt (by omega), Option.bind_some]
  by_cases paired : file.intAt (pos + 8 + (file.intAt pos).natAbs) = file.intAt pos
  · obtain ⟨block, _, here⟩ := File.block_of_guards nonzero (not_not.mp whole) (by omega) paired
    exact absurd here (broken block)
  · exact ⟨_, if_pos paired, if_pos paired⟩

/-- In words a walk is the same one, as long as it does not come to the least word so late. -/
theorem walkInWords_eq {pos : Nat} (bounded : file.size < 2 ^ 63) (aligned : pos % 16 = 0)
    (small : pos + 8 < 2 ^ 64) :
    walkInWords file pos = some (walk file pos) ∨ Overreaches file pos := by
  by_cases ended : Ends (file.toList.drop pos)
  · rw [walkInWords, stepInWords_of_ends small ended, walk_of_ends ended]
    exact Or.inl rfl
  by_cases met : ∃ block : Block, block.bytes <+: file.toList.drop pos
  · obtain ⟨block, here⟩ := met
    obtain ⟨_, within, _⟩ := File.guards_of_block here
    have width := block.length_bytes
    have whole := block.whole
    simp only [granule] at whole
    have aligned : (pos + block.bytes.length) % 16 = 0 := by omega
    refine (walkInWords_eq bounded aligned (by omega)).imp (fun same => ?_) (.cons here)
    rw [walkInWords, stepInWords_of_block bounded here, walk_of_block here]
    simp only [same]
    rfl
  · rcases stepInWords_of_broken bounded aligned ended (not_exists.mp met) with
      ⟨damage, stopped, same⟩ | ⟨_, overreaches⟩
    · rw [walkInWords, stopped, same]
      exact Or.inl rfl
    · exact Or.inr overreaches
termination_by file.size - pos

/-- Where the walk comes to the least word so late, the one in words has no result. -/
theorem walkInWords_of_overreaches {pos : Nat} (bounded : file.size < 2 ^ 63)
    (overreaches : Overreaches file pos) : walkInWords file pos = none ∧
      walk file pos = .error (.walkOverruns (2 ^ 63 - 8) (2 ^ 63) file.size) := by
  obtain ⟨blocks, ⟨rest, held⟩, last⟩ := overreaches
  induction blocks generalizing pos with
  | nil =>
    have length := congrArg List.length held
    rw [List.length_append, List.length_append, Bytes.length_ofInt, File.length_drop,
      blockBytes_nil, List.length_nil] at length
    obtain ⟨stepped, walked⟩ := stepInWords_of_least
      (File.intAt_of_drop (by decide) (by decide) held.symm) last (by omega) bounded
    rw [walkInWords, stepped]
    exact ⟨rfl, walked⟩
  | cons block blocks ih =>
    rw [blockBytes_cons, List.append_assoc, List.append_assoc] at held
    rw [blockBytes_cons, List.length_append, ← Nat.add_assoc] at last
    obtain ⟨inWords, walked⟩ := ih last
      (by rw [File.drop_of_append held.symm, List.append_assoc])
    have here : block.bytes <+: file.toList.drop pos := ⟨_, held⟩
    rw [walkInWords, stepInWords_of_block bounded here, walk_of_block here, walked]
    simp only [inWords]
    exact ⟨rfl, rfl⟩

def ofFileInWords (file : File) : Option (Except Damage Scan) :=
  (walkInWords file firstGuard).map fun walked => walked.map fun found => ⟨found.1, found.2⟩

theorem ofFileInWords_of_ok {scan : Scan} (bounded : file.size < 2 ^ 63)
    (scanned : ofFile file = .ok scan) : ofFileInWords file = some (.ok scan) := by
  have aligned : firstGuard % 16 = 0 := by decide
  rcases walkInWords_eq bounded aligned (by decide) with same | overreaches
  · rw [ofFileInWords, same, ← scanned]
    rfl
  · obtain ⟨_, refused⟩ := walkInWords_of_overreaches bounded overreaches
    rw [ofFile, refused] at scanned
    cases scanned

theorem aligned_of_blocks (blocks : List Block) : (blockBytes blocks).length % 16 = 0 := by
  induction blocks with
  | nil => rfl
  | cons block rest ih =>
    have whole := block.whole
    simp only [granule] at whole
    rw [blockBytes_cons, List.length_append, Block.length_bytes]
    omega

theorem ofFile_ok_iff {file : File} {scan : Scan} : ofFile file = .ok scan ↔ ∃ blocks tail,
    file.toList.drop firstGuard = blockBytes blocks ++ tail ∧ Ends tail ∧
      scan = ⟨Block.scannedFrom firstGuard blocks, firstGuard + (blockBytes blocks).length⟩ := by
  unfold ofFile
  constructor
  · intro scanned
    cases walked : walk file firstGuard with
    | error damage =>
      rw [walked] at scanned
      cases scanned
    | ok found =>
      obtain ⟨blocks, tail, held, ended, rfl⟩ := blocks_of_walk walked
      rw [walked] at scanned
      exact ⟨blocks, tail, held, ended, (Except.ok.inj scanned).symm⟩
  · rintro ⟨blocks, tail, held, ended, rfl⟩
    rw [walk_of_blocks held ended]
    rfl

/-- The guard walk accepts exactly its grammar. A file is scanned where blocks stand behind its header
and then a zero word or less than a word, and what is found are these blocks in their order; every
other file is damaged. The walk comes to multiples of the granule only. In words of 64 bits nothing is
missing and the walk is the same one, unless blocks lead up to the least word sixteen bytes before
`2 ^ 63`: the end of its region is no word, where the exact walk refuses the file. -/
theorem grammar_of_scan (file : File) :
    (∀ scan, ofFile file = .ok scan ↔ ∃ blocks tail,
      file.toList.drop 0x230 = blockBytes blocks ++ tail ∧
        (tail.length < 8 ∨ tail.take 8 = Bytes.zeros 8) ∧
          scan = ⟨Block.scannedFrom 0x230 blocks, 0x230 + (blockBytes blocks).length⟩) ∧
      ((¬ ∃ blocks tail, file.toList.drop 0x230 = blockBytes blocks ++ tail ∧
          (tail.length < 8 ∨ tail.take 8 = Bytes.zeros 8)) →
        ∃ damage, ofFile file = .error damage) ∧
      (∀ blocks : List Block, (0x230 + (blockBytes blocks).length) % 16 = 0) ∧
      (file.size < 2 ^ 63 →
        (¬ Overreaches file 0x230 → ofFileInWords file = some (ofFile file)) ∧
          (Overreaches file 0x230 → ofFileInWords file = none ∧
            ofFile file = .error (.walkOverruns (2 ^ 63 - 8) (2 ^ 63) file.size))) := by
  refine ⟨fun scan => ofFile_ok_iff, fun broken => ?_, fun blocks => ?_, fun bounded => ⟨?_, ?_⟩⟩
  · cases scanned : ofFile file with
    | error damage => exact ⟨damage, rfl⟩
    | ok scan =>
      obtain ⟨blocks, tail, held, ended, _⟩ := ofFile_ok_iff.mp scanned
      exact absurd ⟨blocks, tail, held, ended⟩ broken
  · have aligned := aligned_of_blocks blocks
    omega
  · intro within
    have same := (walkInWords_eq bounded (by decide) (by decide)).resolve_right within
    rw [ofFileInWords, firstGuard, same]
    rfl
  · intro overreaches
    obtain ⟨inWords, walked⟩ := walkInWords_of_overreaches bounded overreaches
    rw [ofFileInWords, ofFile, firstGuard, inWords, walked]
    exact ⟨rfl, rfl⟩

/-- A live block and a free one, and a zero word behind them. -/
theorem grammar_of_two_blocks : ∃ file : File, file.size = 0x230 + 32 + 48 + 8 ∧
    ofFile file = .ok ⟨[⟨0x238, 16, true⟩, ⟨0x258, 32, false⟩], 0x280⟩ ∧
      ofFileInWords file = some (ofFile file) := by
  let live : Block := ⟨16, Bytes.zeros 16, by decide, by decide, by decide, rfl⟩
  let free : Block := ⟨-32, Bytes.zeros 32, by decide, by decide, by decide, rfl⟩
  let file := File.ofBytes (Bytes.zeros 0x230 ++ (blockBytes [live, free] ++ Bytes.zeros 8))
  have size : file.size = 0x230 + 32 + 48 + 8 := by
    rw [← File.length_toList, File.toList_ofBytes]
    decide +kernel
  have held : file.toList.drop 0x230 = blockBytes [live, free] ++ Bytes.zeros 8 := by
    rw [File.toList_ofBytes, List.drop_left' (Bytes.length_zeros _)]
  obtain ⟨accepts, _, _, inWords⟩ := grammar_of_scan file
  have scanned := (accepts _).mpr ⟨[live, free], Bytes.zeros 8, held, Or.inr rfl, rfl⟩
  refine ⟨file, size, scanned, (inWords (by omega)).1 ?_⟩
  rintro ⟨_, ⟨_, same⟩, late⟩
  have length := congrArg List.length same
  rw [List.length_append, List.length_append, File.length_drop] at length
  omega

/-- A file of the right length for every guard word but the last one, which is the least. Its length is
a signed word, and still the walk has no result in words. -/
theorem words_of_longest_file_fail : ∃ file : File, file.size = 2 ^ 63 - 8 ∧
    ofFile file = .error (.walkOverruns (2 ^ 63 - 8) (2 ^ 63) (2 ^ 63 - 8)) ∧
      ofFileInWords file = none := by
  obtain ⟨long, first⟩ : ∃ block : Block, block.guard = 2 ^ 63 - 8768 :=
    ⟨⟨_, List.replicate _ 0, by decide, by decide, by decide, List.length_replicate⟩, rfl⟩
  obtain ⟨short, second⟩ : ∃ block : Block, block.guard = 8160 :=
    ⟨⟨_, List.replicate _ 0, by decide, by decide, by decide, List.length_replicate⟩, rfl⟩
  have length : (blockBytes [long, short]).length = 2 ^ 63 - 16 - 0x230 := by
    simp only [blockBytes_cons, blockBytes_nil, List.length_append, Block.length_bytes, first, second]
    decide
  obtain ⟨file, stored⟩ : ∃ file, File.ofBytes (Bytes.zeros 0x230 ++
    (blockBytes [long, short] ++ Bytes.ofInt (-2 ^ 63))) = file := ⟨_, rfl⟩
  have held : file.toList.drop 0x230 = blockBytes [long, short] ++ Bytes.ofInt (-2 ^ 63) := by
    rw [← stored, File.toList_ofBytes, List.drop_left' (Bytes.length_zeros _)]
  have size : file.size = 2 ^ 63 - 8 := by
    rw [← stored, ← File.length_toList, File.toList_ofBytes, List.length_append, List.length_append,
      length, Bytes.length_zeros, Bytes.length_ofInt]
    decide
  have overreaches : Overreaches file 0x230 :=
    ⟨[long, short], ⟨[], by rw [held, List.append_nil]⟩, by omega⟩
  obtain ⟨inWords, walked⟩ := walkInWords_of_overreaches (by omega) overreaches
  refine ⟨file, size, ?_, ?_⟩
  · rw [ofFile, firstGuard, walked, size]
    rfl
  · rw [ofFileInWords, firstGuard, inWords]
    rfl

end Scan

end SlotStore
