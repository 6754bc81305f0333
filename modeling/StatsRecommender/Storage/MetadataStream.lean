import StatsRecommender.Storage.MetadataManager

/-!
# Metadata streams

Values are written byte by byte to metadata blocks, each of which points to the next one.  The writer
of the free list takes blocks that were reserved for it, and the reader registers what it reads.
-/

namespace StatsRecommender

variable {size : Nat} {last : MetadataPointer} {handles : List MetadataPointer}

/-- A byte of a value that was written: the value, and the place of the byte in it. -/
structure WrittenByte where
  value : Nat
  place : Nat
  deriving DecidableEq, Repr

/-- The bytes of a value. -/
def valueBytes (size value : Nat) : List WrittenByte :=
  (List.range size).map fun place => ⟨value, place⟩

/-- The value that bytes are read as. -/
def bytesValue : List WrittenByte → Except String Nat
  | [] => .error "no bytes"
  | first :: rest =>
      if first :: rest = valueBytes (first :: rest).length first.value then .ok first.value
      else .error "bytes of different values"

theorem bytesValue_valueBytes (positive : 0 < size) (value : Nat) :
    bytesValue (valueBytes size value) = .ok value := by
  obtain ⟨rest, rfl⟩ := Nat.exists_eq_succ_of_ne_zero (Nat.ne_of_gt positive)
  have bytes : valueBytes (rest + 1) value =
      ⟨value, 0⟩ :: ((List.range rest).map Nat.succ).map fun place => ⟨value, place⟩ := by
    rw [valueBytes, List.range_succ_eq_map, List.map_cons]
  rw [bytes, bytesValue, ← bytes, if_pos (by simp [valueBytes])]

theorem length_valueBytes (size value : Nat) : (valueBytes size value).length = size := by
  simp [valueBytes]

/-- What a metadata block holds: the pointer to the next one, and the bytes behind it. -/
structure MetadataContent where
  nextPointer : Option MetadataPointer
  bytes : List WrittenByte
  deriving DecidableEq

abbrev MetadataContents := MetadataPointer → MetadataContent

/-- `sizeof(idx_t)`: the pointer to the next block comes first. -/
def pointerSize : Nat := 8

/-! ## Writing -/

/-- The blocks that are left, and the one that is written to. -/
structure FreeListBlockWriter where
  metadataBlockSize : Nat
  freeListBlocks : List MetadataPointer
  block : Option MetadataPointer
  offset : Nat
  capacity : Nat
  contents : MetadataContents

namespace FreeListBlockWriter

def create (metadataBlockSize : Nat) (freeListBlocks : List MetadataPointer)
    (contents : MetadataContents) : FreeListBlockWriter :=
  ⟨metadataBlockSize, freeListBlocks, none, 0, 0, contents⟩

/-- The contents once a block points to the next one. -/
def link (contents : MetadataContents) (handle : MetadataPointer) :
    Option MetadataPointer → MetadataContents
  | none => contents
  | some block => Function.update contents block ⟨some handle, (contents block).bytes⟩

def nextBlock (writer : FreeListBlockWriter) : Except String FreeListBlockWriter :=
  match writer.freeListBlocks with
  | [] => .error ("Free List Block Writer ran out of blocks, this means not enough blocks were " ++
      "allocated up front")
  | handle :: rest => .ok { writer with
      freeListBlocks := rest
      block := some handle
      offset := pointerSize
      capacity := writer.metadataBlockSize
      contents := Function.update (link writer.contents handle writer.block) handle ⟨none, []⟩ }

/-- Writing to the current block, behind what was written. -/
def putByte (writer : FreeListBlockWriter) (byte : WrittenByte) :
    Except String FreeListBlockWriter :=
  match writer.block with
  | none => .error "no block"
  | some block => .ok { writer with
      offset := writer.offset + 1
      contents := Function.update writer.contents block
        ⟨(writer.contents block).nextPointer, (writer.contents block).bytes ++ [byte]⟩ }

/-- `WriteData` for one byte. -/
def writeByte (writer : FreeListBlockWriter) (byte : WrittenByte) :
    Except String FreeListBlockWriter :=
  if writer.capacity < writer.offset + 1 then do
    let next ← writer.nextBlock
    next.putByte byte
  else writer.putByte byte

def writeBytes (writer : FreeListBlockWriter) (bytes : List WrittenByte) :
    Except String FreeListBlockWriter := bytes.foldlM writeByte writer

def getMetaBlockPointer (writer : FreeListBlockWriter) :
    Except String (Option MetadataPointer × FreeListBlockWriter) :=
  if writer.capacity ≤ writer.offset then do
    let next ← writer.nextBlock
    pure (next.block, next)
  else .ok (writer.block, writer)

end FreeListBlockWriter

/-! ## Reading -/

structure MetadataReader where
  metadataBlockSize : Nat
  contents : MetadataContents
  manager : MetadataManager
  nextPointer : Option MetadataPointer
  bytes : List WrittenByte
  offset : Nat
  capacity : Nat

namespace MetadataReader

def create (metadataBlockSize : Nat) (contents : MetadataContents) (manager : MetadataManager)
    (pointer : MetadataPointer) : MetadataReader :=
  ⟨metadataBlockSize, contents, manager, some pointer, [], 0, 0⟩

def readNextBlock (reader : MetadataReader) : Except String MetadataReader :=
  match reader.nextPointer with
  | none => .error "No more data remaining in MetadataReader"
  | some pointer => .ok { reader with
      manager := reader.manager.registerBlock pointer.blockIndex
      nextPointer := (reader.contents pointer).nextPointer
      bytes := (reader.contents pointer).bytes
      offset := pointerSize
      capacity := reader.metadataBlockSize }

/-- Reading from the current block. -/
def takeByte (reader : MetadataReader) : Except String (WrittenByte × MetadataReader) :=
  match reader.bytes[reader.offset - pointerSize]? with
  | none => .error "nothing was written there"
  | some byte => .ok (byte, { reader with offset := reader.offset + 1 })

/-- `ReadData` for one byte. -/
def readByte (reader : MetadataReader) : Except String (WrittenByte × MetadataReader) :=
  if reader.capacity < reader.offset + 1 then do
    let next ← reader.readNextBlock
    next.takeByte
  else reader.takeByte

/-- Reading one thing after another. -/
def readMany {Item : Type} (read : MetadataReader → Except String (Item × MetadataReader)) :
    Nat → MetadataReader → Except String (List Item × MetadataReader)
  | 0, reader => .ok ([], reader)
  | count + 1, reader => do
      let (item, next) ← read reader
      let (rest, last) ← readMany read count next
      pure (item :: rest, last)

/-- `Read` of a value of so many bytes. -/
def readValue (size : Nat) (reader : MetadataReader) : Except String (Nat × MetadataReader) := do
  let (bytes, next) ← readMany readByte size reader
  let value ← bytesValue bytes
  pure (value, next)

end MetadataReader

/-! ## What was written -/

variable {contents : MetadataContents} {full : List (MetadataPointer × List WrittenByte)}
  {bytes : List WrittenByte}

namespace FreeListBlockWriter

/-- Full blocks, each of which points to the next one and the last one to a given one. -/
def Leads (size : Nat) (contents : MetadataContents) :
    List (MetadataPointer × List WrittenByte) → MetadataPointer → Prop
  | [], _ => True
  | block :: rest, last =>
      contents block.1 = ⟨some ((rest.head?.map Prod.fst).getD last), block.2⟩ ∧
        block.2.length + pointerSize = size ∧ Leads size contents rest last

theorem Leads.frame {other : MetadataContents} (leads : Leads size contents full last)
    (same : ∀ pointer ∈ full.map Prod.fst, other pointer = contents pointer) :
    Leads size other full last := by
  induction full with
  | nil => trivial
  | cons block rest ih =>
      obtain ⟨content, length, later⟩ := leads
      refine ⟨?_, length, ih later fun pointer member => same pointer ?_⟩
      · rw [same block.1 (List.mem_cons_self ..), content]
      · exact List.mem_cons_of_mem _ member

theorem Leads.concat {next : MetadataPointer} (leads : Leads size contents full last)
    (content : contents last = ⟨some next, bytes⟩) (length : bytes.length + pointerSize = size) :
    Leads size contents (full ++ [(last, bytes)]) next := by
  induction full with
  | nil => exact ⟨content, length, trivial⟩
  | cons block rest ih =>
      obtain ⟨here, full, later⟩ := leads
      refine ⟨?_, full, ih later⟩
      rw [here]
      cases rest <;> rfl

theorem Leads.length_flatMap (leads : Leads size contents full last) :
    (full.flatMap Prod.snd).length = full.length * (size - pointerSize) := by
  induction full with
  | nil => simp
  | cons block rest ih =>
      obtain ⟨_, length, later⟩ := leads
      rw [List.flatMap_cons, List.length_append, ih later, List.length_cons, Nat.succ_mul]
      omega

/-- The bytes that were written to the first of the blocks that were reserved. -/
def Wrote (handles : List MetadataPointer) (writer : FreeListBlockWriter)
    (stream : List WrittenByte) : Prop :=
  ∃ full last bytes, full.map Prod.fst ++ last :: writer.freeListBlocks = handles ∧
    writer.block = some last ∧ writer.capacity = writer.metadataBlockSize ∧
    writer.offset = pointerSize + bytes.length ∧ writer.offset ≤ writer.metadataBlockSize ∧
    Leads writer.metadataBlockSize writer.contents full last ∧
    writer.contents last = ⟨none, bytes⟩ ∧ stream = full.flatMap Prod.snd ++ bytes

variable {handles : List MetadataPointer} {writer : FreeListBlockWriter}
  {stream : List WrittenByte}

/-- Each byte follows those that were written, as long as the blocks have room. -/
theorem writeByte_spec (distinct : handles.Nodup) (large : pointerSize < writer.metadataBlockSize)
    (wrote : writer.Wrote handles stream) (byte : WrittenByte)
    (room : stream.length < handles.length * (writer.metadataBlockSize - pointerSize)) :
    ∃ after, writer.writeByte byte = .ok after ∧ after.Wrote handles (stream ++ [byte]) ∧
      after.metadataBlockSize = writer.metadataBlockSize := by
  obtain ⟨full, last, bytes, blocks, block, capacity, offset, inside, leads, content, rfl⟩ := wrote
  subst blocks
  have not_full : last ∉ full.map Prod.fst := fun member =>
    (List.nodup_append.mp distinct).2.2 last member last (List.mem_cons_self ..) rfl
  by_cases filled : writer.capacity < writer.offset + 1
  · have length : bytes.length + pointerSize = writer.metadataBlockSize := by omega
    cases left : writer.freeListBlocks with
    | nil =>
        rw [left, List.length_append, leads.length_flatMap, List.length_append, List.length_map,
          Nat.add_mul] at room
        simp only [List.length_cons, List.length_nil] at room
        omega
    | cons handle rest =>
        rw [left] at distinct
        have apart : ∀ pointer ∈ full.map Prod.fst, pointer ≠ handle := fun pointer member =>
          (List.nodup_append.mp distinct).2.2 pointer member handle
            (List.mem_cons_of_mem _ (List.mem_cons_self ..))
        have last_ne : last ≠ handle := by
          have nodup := (List.nodup_append.mp distinct).2.1
          rintro rfl
          exact (List.nodup_cons.mp nodup).1 (List.mem_cons_self ..)
        refine ⟨{ writer with
            freeListBlocks := rest
            block := some handle
            offset := pointerSize + 1
            capacity := writer.metadataBlockSize
            contents := Function.update (Function.update (Function.update writer.contents last
              ⟨some handle, bytes⟩) handle ⟨none, []⟩) handle ⟨none, [byte]⟩ }, ?_,
          ⟨full ++ [(last, bytes)], handle, [byte], ?_, rfl, rfl, rfl, large, ?_, ?_, ?_⟩, rfl⟩
        · rw [writeByte, if_pos filled, nextBlock, left, block]
          dsimp only [bind, Except.bind, putByte, link]
          rw [content, Function.update_self]
          rfl
        · simp
        · refine Leads.concat (leads.frame ?_) ?_ length
          · intro pointer member
            dsimp only
            rw [Function.update_of_ne (apart pointer member),
              Function.update_of_ne (apart pointer member), Function.update_of_ne]
            rintro rfl
            exact not_full member
          · dsimp only
            rw [Function.update_of_ne last_ne, Function.update_of_ne last_ne, Function.update_self]
        · exact Function.update_self ..
        · simp
  · refine ⟨{ writer with
        offset := writer.offset + 1
        contents := Function.update writer.contents last ⟨none, bytes ++ [byte]⟩ }, ?_,
      ⟨full, last, bytes ++ [byte], rfl, block, capacity, ?_, ?_, ?_, ?_, ?_⟩, rfl⟩
    · rw [writeByte, if_neg filled, putByte, block]
      dsimp only
      rw [content]
    · rw [List.length_append, List.length_singleton]
      dsimp only
      omega
    · dsimp only
      omega
    · refine leads.frame fun pointer member => Function.update_of_ne ?_ ..
      rintro rfl
      exact not_full member
    · exact Function.update_self ..
    · rw [List.append_assoc]

theorem writeBytes_spec (distinct : handles.Nodup) (large : pointerSize < writer.metadataBlockSize)
    (wrote : writer.Wrote handles stream) (bytes : List WrittenByte)
    (room : (stream ++ bytes).length ≤ handles.length * (writer.metadataBlockSize - pointerSize)) :
    ∃ after, writer.writeBytes bytes = .ok after ∧ after.Wrote handles (stream ++ bytes) ∧
      after.metadataBlockSize = writer.metadataBlockSize := by
  induction bytes generalizing writer stream with
  | nil => exact ⟨writer, rfl, by rwa [List.append_nil], rfl⟩
  | cons byte rest ih =>
      rw [List.length_append, List.length_cons] at room
      obtain ⟨next, written, wrote_next, same⟩ :=
        writeByte_spec distinct large wrote byte (by omega)
      obtain ⟨after, all, wrote_after, same'⟩ := ih (same ▸ large) wrote_next (by
        rw [same, List.length_append, List.length_append, List.length_singleton]
        omega)
      refine ⟨after, ?_, ?_, same'.trans same⟩
      · rw [writeBytes, List.foldlM_cons, written]
        exact all
      · rwa [List.append_assoc] at wrote_after

/-- The stream begins in the first block that was reserved. -/
theorem getMetaBlockPointer_spec (metadataBlockSize : Nat) (first : MetadataPointer)
    (rest : List MetadataPointer) (contents : MetadataContents)
    (large : pointerSize < metadataBlockSize) :
    ∃ writer, (create metadataBlockSize (first :: rest) contents).getMetaBlockPointer =
        .ok (some first, writer) ∧ writer.Wrote (first :: rest) [] ∧
      writer.metadataBlockSize = metadataBlockSize :=
  ⟨_, rfl, ⟨[], first, [], rfl, rfl, rfl, rfl, Nat.le_of_lt large, trivial,
    Function.update_self .., rfl⟩, rfl⟩

end FreeListBlockWriter

/-! ## What is read -/

variable {stream : List WrittenByte}

namespace MetadataReader

/-- A stream of bytes in blocks that follow each other, the last of which may not be full. -/
inductive Follows (size : Nat) (contents : MetadataContents) (handles : List MetadataPointer) :
    Option MetadataPointer → List WrittenByte → Prop
  | nothing : Follows size contents handles none []
  | block (pointer : MetadataPointer) (next : Option MetadataPointer)
      (bytes rest : List WrittenByte) (known : pointer ∈ handles)
      (content : contents pointer = ⟨next, bytes⟩) (fits : bytes.length + pointerSize ≤ size)
      (full : rest ≠ [] → bytes.length + pointerSize = size)
      (later : Follows size contents handles next rest) :
      Follows size contents handles (some pointer) (bytes ++ rest)

theorem follows_of_leads (leads : FreeListBlockWriter.Leads size contents full last)
    (content : contents last = ⟨none, bytes⟩) (fits : bytes.length + pointerSize ≤ size)
    (known : ∀ pointer ∈ full.map Prod.fst ++ [last], pointer ∈ handles) :
    Follows size contents handles (some ((full.head?.map Prod.fst).getD last))
      (full.flatMap Prod.snd ++ bytes) := by
  induction full with
  | nil =>
      have only := Follows.block last none bytes [] (known last (List.mem_singleton_self _)) content
        fits (fun some_left => absurd rfl some_left) .nothing
      rwa [List.append_nil] at only
  | cons block rest ih =>
      obtain ⟨here, length, later⟩ := leads
      rw [List.flatMap_cons, List.append_assoc]
      exact .block block.1 _ block.2 _ (known block.1 (List.mem_cons_self ..)) here
        (Nat.le_of_eq length) (fun _ => length)
        (ih later fun pointer member => known pointer (List.mem_cons_of_mem _ member))

/-- What a writer wrote can be followed from the first block that was reserved. -/
theorem follows_of_wrote {writer : FreeListBlockWriter} (wrote : writer.Wrote handles stream) :
    ∃ first, handles.head? = some first ∧
      Follows writer.metadataBlockSize writer.contents handles (some first) stream := by
  obtain ⟨full, last, bytes, blocks, _, _, offset, inside, leads, content, rfl⟩ := wrote
  refine ⟨(full.head?.map Prod.fst).getD last, ?_, follows_of_leads leads content (by omega) ?_⟩
  · rw [← blocks]
    cases full <;> rfl
  · intro pointer member
    rw [← blocks]
    rcases List.mem_append.mp member with before | here
    · exact List.mem_append_left _ before
    · rw [List.mem_singleton.mp here]
      exact List.mem_append_right _ (List.mem_cons_self ..)

/-- Whether a stream is ahead of a reader. -/
def Reads (handles : List MetadataPointer) (reader : MetadataReader)
    (stream : List WrittenByte) : Prop :=
  ∃ rest, Follows reader.metadataBlockSize reader.contents handles reader.nextPointer rest ∧
    stream = reader.bytes.drop (reader.offset - pointerSize) ++ rest ∧
    (reader.capacity = 0 ∧ reader.offset = 0 ∧ reader.bytes = [] ∨
      pointerSize ≤ reader.offset ∧ reader.bytes.length + pointerSize ≤ reader.capacity ∧
        (rest ≠ [] → reader.bytes.length + pointerSize = reader.capacity))

theorem reads_create {pointer : MetadataPointer} (manager : MetadataManager)
    (follows : Follows size contents handles (some pointer) stream) :
    (create size contents manager pointer).Reads handles stream :=
  ⟨stream, follows, rfl, Or.inl ⟨rfl, rfl, rfl⟩⟩

/-- What registering the blocks of a stream does to the manager. -/
def Registers (handles : List MetadataPointer) (before after : MetadataManager) : Prop :=
  after.modifiedBlocks = before.modifiedBlocks ∧
    ∀ blockId, after.blocks.lookup blockId = before.blocks.lookup blockId ∨
      before.blocks.lookup blockId = none ∧ after.blocks.lookup blockId = some [] ∧
        ∃ handle ∈ handles, handle.blockIndex = blockId

theorem Registers.refl (handles : List MetadataPointer) (manager : MetadataManager) :
    Registers handles manager manager := ⟨rfl, fun _ => Or.inl rfl⟩

theorem Registers.trans {before between after : MetadataManager}
    (first : Registers handles before between) (second : Registers handles between after) :
    Registers handles before after := by
  refine ⟨second.1.trans first.1, fun blockId => ?_⟩
  rcases second.2 blockId with same | ⟨absent, registered, known⟩
  · rcases first.2 blockId with same' | ⟨absent, registered, known⟩
    · exact Or.inl (same.trans same')
    · exact Or.inr ⟨absent, same.trans registered, known⟩
  · rcases first.2 blockId with same | ⟨_, present, _⟩
    · exact Or.inr ⟨same ▸ absent, registered, known⟩
    · rw [present] at absent
      cases absent

theorem registers_registerBlock {handle : MetadataPointer} (known : handle ∈ handles)
    (manager : MetadataManager) :
    Registers handles manager (manager.registerBlock handle.blockIndex) := by
  rw [MetadataManager.registerBlock]
  split
  · exact Registers.refl _ _
  · rename_i absent
    refine ⟨rfl, fun blockId => ?_⟩
    by_cases same : blockId = handle.blockIndex
    · subst same
      exact Or.inr ⟨AList.lookup_eq_none.mpr absent, AList.lookup_insert _, handle, known, rfl⟩
    · exact Or.inl (AList.lookup_insert_ne same)

variable {handles : List MetadataPointer} {reader : MetadataReader} {stream : List WrittenByte}

theorem readByte_spec {byte : WrittenByte} (large : pointerSize < reader.metadataBlockSize)
    (reads : reader.Reads handles (byte :: stream)) :
    ∃ after, reader.readByte = .ok (byte, after) ∧ after.Reads handles stream ∧
      after.metadataBlockSize = reader.metadataBlockSize ∧
      Registers handles reader.manager after.manager := by
  obtain ⟨rest, follows, split, place⟩ := reads
  by_cases exhausted : reader.capacity < reader.offset + 1
  · have nothing_left : reader.bytes.drop (reader.offset - pointerSize) = [] := by
      rcases place with ⟨_, _, none_yet⟩ | ⟨started, inside, _⟩
      · rw [none_yet, List.drop_nil]
      · exact List.drop_eq_nil_of_le (by omega)
    rw [nothing_left, List.nil_append] at split
    subst split
    cases next : reader.nextPointer with
    | none =>
        rw [next] at follows
        cases follows
    | some pointer =>
        rw [next] at follows
        generalize whole : byte :: stream = remaining at follows
        generalize some_pointer : some pointer = from_pointer at follows
        cases follows with
        | nothing => cases whole
        | block pointer' next' bytes rest known content fits full later =>
            cases some_pointer
            cases bytes with
            | nil =>
                rw [List.nil_append] at whole
                have filled := full (whole ▸ List.cons_ne_nil _ _)
                simp only [List.length_nil] at filled
                omega
            | cons first others =>
                obtain ⟨rfl, rfl⟩ := List.cons.inj whole
                refine ⟨{ reader with
                    manager := reader.manager.registerBlock pointer.blockIndex
                    nextPointer := next'
                    bytes := byte :: others
                    offset := pointerSize + 1
                    capacity := reader.metadataBlockSize }, ?_,
                  ⟨rest, later, rfl, Or.inr ⟨Nat.le_succ _, fits, full⟩⟩, rfl,
                  registers_registerBlock known _⟩
                rw [readByte, if_pos exhausted, readNextBlock, next]
                dsimp only [bind, Except.bind, takeByte]
                rw [content, Nat.sub_self]
                rfl
  · have started : pointerSize ≤ reader.offset ∧
        reader.bytes.length + pointerSize ≤ reader.capacity ∧
        (rest ≠ [] → reader.bytes.length + pointerSize = reader.capacity) := by
      rcases place with ⟨empty, _, _⟩ | started
      · omega
      · exact started
    obtain ⟨begun, fits, full⟩ := started
    have inside : reader.offset - pointerSize < reader.bytes.length := by
      by_contra outside
      rw [List.drop_eq_nil_of_le (Nat.not_lt.mp outside), List.nil_append] at split
      have filled := full (split ▸ List.cons_ne_nil _ _)
      omega
    rw [List.drop_eq_getElem_cons inside, List.cons_append] at split
    obtain ⟨here, behind⟩ := List.cons.inj split
    refine ⟨{ reader with offset := reader.offset + 1 }, ?_, ⟨rest, follows, ?_, Or.inr ⟨?_, fits,
      full⟩⟩, rfl, Registers.refl _ _⟩
    · rw [readByte, if_neg exhausted, takeByte, List.getElem?_eq_getElem inside, here]
    · rw [behind, Nat.sub_add_comm begun]
    · exact Nat.le_succ_of_le begun

/-- Reading items of which each is read from its own bytes. -/
theorem readMany_spec {Item : Type}
    {read : MetadataReader → Except String (Item × MetadataReader)}
    (encode : Item → List WrittenByte)
    (Kept : MetadataManager → MetadataManager → Prop)
    (refl : ∀ manager, Kept manager manager)
    (trans : ∀ {before between after}, Kept before between → Kept between after →
      Kept before after)
    (items : List Item)
    (each : ∀ item ∈ items, ∀ reader : MetadataReader, ∀ stream,
      pointerSize < reader.metadataBlockSize → reader.Reads handles (encode item ++ stream) →
      ∃ after, read reader = .ok (item, after) ∧ after.Reads handles stream ∧
        after.metadataBlockSize = reader.metadataBlockSize ∧ Kept reader.manager after.manager)
    (large : pointerSize < reader.metadataBlockSize)
    (reads : reader.Reads handles (items.flatMap encode ++ stream)) :
    ∃ after, readMany read items.length reader = .ok (items, after) ∧ after.Reads handles stream ∧
      after.metadataBlockSize = reader.metadataBlockSize ∧ Kept reader.manager after.manager := by
  induction items generalizing reader with
  | nil => exact ⟨reader, rfl, reads, rfl, refl _⟩
  | cons item rest ih =>
      rw [List.flatMap_cons, List.append_assoc] at reads
      obtain ⟨next, taken, reads_next, same, kept⟩ :=
        each item (List.mem_cons_self ..) reader _ large reads
      obtain ⟨after, all, reads_after, same', kept'⟩ :=
        ih (fun other member => each other (List.mem_cons_of_mem _ member)) (same ▸ large) reads_next
      refine ⟨after, ?_, reads_after, same'.trans same, trans kept kept'⟩
      rw [List.length_cons, readMany]
      dsimp only [bind, Except.bind, pure, Except.pure]
      rw [taken]
      dsimp only
      rw [all]

/-- A value is read as it was written. -/
theorem readValue_spec {value : Nat} (positive : 0 < size)
    (large : pointerSize < reader.metadataBlockSize)
    (reads : reader.Reads handles (valueBytes size value ++ stream)) :
    ∃ after, reader.readValue size = .ok (value, after) ∧ after.Reads handles stream ∧
      after.metadataBlockSize = reader.metadataBlockSize ∧
      Registers handles reader.manager after.manager := by
  have reads_each : reader.Reads handles
      ((valueBytes size value).flatMap (fun byte => [byte]) ++ stream) := by
    rwa [List.flatMap_singleton']
  obtain ⟨after, all, reads_after, same, kept⟩ := readMany_spec (fun byte => [byte])
    (Registers handles) (Registers.refl handles) Registers.trans (valueBytes size value)
    (fun byte _ reader stream large reads => readByte_spec large reads) large reads_each
  refine ⟨after, ?_, reads_after, same, kept⟩
  rw [length_valueBytes] at all
  rw [readValue]
  dsimp only [bind, Except.bind, pure, Except.pure]
  rw [all]
  dsimp only
  rw [bytesValue_valueBytes positive]

end MetadataReader

end StatsRecommender
