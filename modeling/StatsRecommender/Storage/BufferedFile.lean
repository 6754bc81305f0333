import StatsRecommender.Serializer.BinaryFormat

/-!
# Buffered files

`BufferedFileWriter` and `BufferedFileReader`.  A writer holds back what it has not handed to the
file system, and a reader takes what the file system delivers.
-/

namespace StatsRecommender

variable {readSize : Nat} {sizes : List Nat}

/-- `FILE_BUFFER_SIZE`. -/
def fileBufferSize : Nat := 4096

theorem fileBufferSize_pos : 0 < fileBufferSize := Nat.succ_pos _

/-! ## Writing -/

/-- `BufferedFileWriter`: the file, what is held back of it, and how much of it is on disk. -/
structure BufferedFileWriter where
  file : List UInt8
  data : List UInt8
  totalWritten : Nat
  synced : Nat
  room : data.length < fileBufferSize
  synced_le : synced ≤ file.length

namespace BufferedFileWriter

/-- A file that is new, or that is opened to append to it, as the write-ahead log does. -/
def openFile (file : List UInt8) : BufferedFileWriter :=
  ⟨file, [], 0, file.length, fileBufferSize_pos, le_refl _⟩

variable (writer : BufferedFileWriter)

/-- The file as it is meant to be. -/
def contents : List UInt8 := writer.file ++ writer.data

/-- `BufferedFileWriter::GetFileSize`. -/
def getFileSize : Nat := writer.file.length + writer.data.length

/-- `BufferedFileWriter::GetTotalWritten`. -/
def getTotalWritten : Nat := writer.totalWritten + writer.data.length

/-- A write to the file system. -/
def writeFile (bytes : List UInt8) : BufferedFileWriter :=
  { writer with
    file := writer.file ++ bytes, totalWritten := writer.totalWritten + bytes.length
    synced_le := writer.synced_le.trans (by simp) }

/-- The file with the buffer behind it, and an empty buffer. -/
def flushData (data : List UInt8) : BufferedFileWriter :=
  { writer.writeFile data with data := [], room := fileBufferSize_pos }

/-- `BufferedFileWriter::Flush`. -/
def flush : BufferedFileWriter := writer.flushData writer.data

/-- `BufferedFileWriter::Sync`. -/
def sync : BufferedFileWriter :=
  { writer.flush with synced := writer.flush.file.length, synced_le := le_refl _ }

/-- The loop that copies bytes into the buffer; the first argument bounds its rounds. -/
def copyData : Nat → BufferedFileWriter → List UInt8 → BufferedFileWriter
  | 0, writer, _ => writer
  | rounds + 1, writer, buffer =>
      let toWrite := min buffer.length (fileBufferSize - writer.data.length)
      let copied := writer.data ++ buffer.take toWrite
      if room : copied.length < fileBufferSize then { writer with data := copied, room }
      else copyData rounds (writer.flushData copied) (buffer.drop toWrite)

/-- `BufferedFileWriter::WriteData`. -/
def writeData (buffer : List UInt8) : BufferedFileWriter :=
  let offset := writer.data.length
  if 2 * fileBufferSize - offset ≤ buffer.length then
    if offset ≠ 0 then
      let toCopy := fileBufferSize - offset
      (writer.flushData (writer.data ++ buffer.take toCopy)).writeFile (buffer.drop toCopy)
    else writer.writeFile buffer
  else copyData (buffer.length + 1) writer buffer

/-- `BufferedFileWriter::Truncate`; an assertion excludes sizes beyond the end of the file. -/
def truncate (size : Nat) : BufferedFileWriter :=
  let persistent := writer.file.length
  if persistent ≤ size then
    { writer with
      data := writer.data.take (size - persistent)
      room := (List.length_take_le' _ _).trans_lt writer.room }
  else
    { writer with
      file := writer.file.take size, data := [], synced := min writer.synced size
      room := fileBufferSize_pos
      synced_le := by
        have := writer.synced_le
        rw [List.length_take]
        omega }

variable {writer}

theorem length_contents : writer.contents.length = writer.getFileSize := List.length_append

@[simp]
theorem contents_openFile (file : List UInt8) : (openFile file).contents = file :=
  List.append_nil file

@[simp]
theorem contents_flush : writer.flush.contents = writer.contents :=
  List.append_nil (writer.file ++ writer.data)

@[simp]
theorem contents_sync : writer.sync.contents = writer.contents := contents_flush

theorem copyData_spec (rounds : Nat) (writer : BufferedFileWriter) (buffer : List UInt8)
    (enough : buffer.length < rounds) :
    (copyData rounds writer buffer).contents = writer.contents ++ buffer ∧
      (copyData rounds writer buffer).getTotalWritten = writer.getTotalWritten + buffer.length ∧
      (copyData rounds writer buffer).synced = writer.synced := by
  induction rounds generalizing writer buffer with
  | zero => exact absurd enough (Nat.not_lt_zero _)
  | succ rounds ih =>
      have room := writer.room
      rw [copyData]
      split
      · rename_i fits
        have all : min buffer.length (fileBufferSize - writer.data.length) = buffer.length := by
          rw [List.length_append, List.length_take] at fits
          omega
        have whole : buffer.take (min buffer.length (fileBufferSize - writer.data.length)) =
            buffer := by rw [all, List.take_length]
        refine ⟨?_, ?_, rfl⟩
        · simp only [contents, whole, List.append_assoc]
        · simp only [getTotalWritten, whole, List.length_append]
          omega
      · rename_i full
        rw [List.length_append, List.length_take] at full
        obtain ⟨contents, total, synced⟩ := ih
          (writer.flushData (writer.data ++
            buffer.take (min buffer.length (fileBufferSize - writer.data.length))))
          (buffer.drop (min buffer.length (fileBufferSize - writer.data.length))) (by
            rw [List.length_drop]
            omega)
        refine ⟨contents.trans ?_, total.trans ?_, synced⟩
        · simp only [BufferedFileWriter.contents, flushData, writeFile, List.append_nil,
            List.append_assoc, List.take_append_drop]
        · simp only [getTotalWritten, flushData, writeFile, List.length_append, List.length_take,
            List.length_drop, List.length_nil]
          omega

/-- Whatever way the bytes take, they come behind the ones written so far. -/
theorem writeData_spec (writer : BufferedFileWriter) (buffer : List UInt8) :
    (writer.writeData buffer).contents = writer.contents ++ buffer ∧
      (writer.writeData buffer).getTotalWritten = writer.getTotalWritten + buffer.length ∧
      (writer.writeData buffer).synced = writer.synced := by
  rw [writeData]
  dsimp only
  split
  · rename_i large
    split
    · refine ⟨?_, ?_, rfl⟩
      · simp only [contents, flushData, writeFile, List.append_nil, List.append_assoc,
          List.take_append_drop]
      · simp only [getTotalWritten, flushData, writeFile, List.length_append, List.length_take,
          List.length_drop, List.length_nil]
        omega
    · rename_i empty
      have nothing : writer.data = [] := List.eq_nil_of_length_eq_zero (not_not.mp empty)
      refine ⟨?_, ?_, rfl⟩
      · simp only [contents, writeFile, nothing, List.append_nil]
      · simp only [getTotalWritten, writeFile, nothing, List.length_nil]
        omega
  · exact copyData_spec _ writer buffer (Nat.lt_succ_self _)

@[simp]
theorem contents_writeData (buffer : List UInt8) :
    (writer.writeData buffer).contents = writer.contents ++ buffer :=
  (writeData_spec writer buffer).1

@[simp]
theorem synced_writeData (buffer : List UInt8) : (writer.writeData buffer).synced = writer.synced :=
  (writeData_spec writer buffer).2.2

@[simp]
theorem getTotalWritten_writeData (buffer : List UInt8) :
    (writer.writeData buffer).getTotalWritten = writer.getTotalWritten + buffer.length :=
  (writeData_spec writer buffer).2.1

/-- Truncating leaves the first bytes, wherever they are. -/
@[simp]
theorem contents_truncate (size : Nat) :
    (writer.truncate size).contents = writer.contents.take size := by
  rw [truncate]
  split
  · rename_i held
    simp only [contents, List.take_append, List.take_of_length_le held]
  · rename_i cut
    simp only [contents, List.append_nil,
      List.take_append_of_le_length (Nat.le_of_not_le cut)]

theorem synced_truncate (size : Nat) : (writer.truncate size).synced = min writer.synced size := by
  have synced := writer.synced_le
  rw [truncate]
  split
  · rename_i held
    exact (min_eq_left (synced.trans held)).symm
  · rfl

end BufferedFileWriter

/-! ## Reading -/

/-- `BufferedFileReader`, with the bytes of the file behind those it has buffered. -/
structure BufferedFileReader where
  fileSize : Nat
  data : List UInt8
  offset : Nat
  totalRead : Nat
  unread : List UInt8

namespace BufferedFileReader

/-- A file that is opened to read it. -/
def openFile (file : List UInt8) : BufferedFileReader := ⟨file.length, [], 0, 0, file⟩

/-- `BufferedFileReader::Finished`. -/
def finished (reader : BufferedFileReader) : Bool :=
  reader.totalRead + reader.offset == reader.fileSize

/-- `BufferedFileReader::CurrentOffset`. -/
def currentOffset (reader : BufferedFileReader) : Nat := reader.totalRead + reader.offset

/-- The exception at the end of the file. -/
def endOfFile : Exception := .serialization "not enough data in file to deserialize result"

section Read

-- how many bytes the file system delivers of those that are left
variable (delivered : List UInt8 → Nat)

/-- `BufferedFileReader::ReadData`; the first argument bounds the rounds of its loop. -/
def readRounds : Nat → BufferedFileReader → Nat → Except Exception (List UInt8 × BufferedFileReader)
  | 0, _, _ => throw (.other "the loop does not end")
  | rounds + 1, reader, readSize => do
      let toRead := min readSize (reader.data.length - reader.offset)
      let copied := (reader.data.drop reader.offset).take toRead
      if toRead < readSize then
        let readData := delivered reader.unread
        if readData = 0 then throw endOfFile
        let refilled : BufferedFileReader :=
          { reader with
            data := reader.unread.take readData, offset := 0
            totalRead := reader.totalRead + reader.data.length
            unread := reader.unread.drop readData }
        let (rest, reader) ← readRounds rounds refilled (readSize - toRead)
        pure (copied ++ rest, reader)
      else pure (copied, { reader with offset := reader.offset + toRead })

/-- `BufferedFileReader::ReadData`. -/
def readData (reader : BufferedFileReader) (readSize : Nat) :
    Except Exception (List UInt8 × BufferedFileReader) :=
  readRounds delivered (reader.unread.length + 2) reader readSize

end Read

/-- The bytes that are still to be read. -/
def remaining (reader : BufferedFileReader) : List UInt8 :=
  reader.data.drop reader.offset ++ reader.unread

/-- The reader knows where it is in a file of some size. -/
structure Placed (size : Nat) (reader : BufferedFileReader) : Prop where
  inside : reader.offset ≤ reader.data.length
  total : reader.totalRead + reader.data.length + reader.unread.length = size
  fileSize : reader.fileSize = size

/-- The file system delivers some bytes as long as there are any. -/
def Delivers (delivered : List UInt8 → Nat) : Prop :=
  ∀ rest, delivered rest ≤ rest.length ∧ (rest ≠ [] → 0 < delivered rest)

variable {size : Nat} {reader : BufferedFileReader} {delivered : List UInt8 → Nat}

theorem placed_openFile (file : List UInt8) : (openFile file).Placed file.length :=
  ⟨le_refl _, by simp [openFile], rfl⟩

theorem Placed.currentOffset_add (placed : reader.Placed size) :
    reader.currentOffset + reader.remaining.length = size := by
  obtain ⟨inside, total, -⟩ := placed
  rw [currentOffset, remaining, List.length_append, List.length_drop]
  omega

theorem Placed.finished_iff (placed : reader.Placed size) :
    reader.finished = true ↔ reader.remaining = [] := by
  have offset := placed.currentOffset_add
  rw [finished, beq_iff_eq, ← List.length_eq_zero_iff, placed.fileSize]
  rw [currentOffset] at offset
  omega

/-- The next bytes of a file, as many as are asked for, whatever the file system delivers at once. -/
theorem readRounds_spec (delivers : Delivers delivered) (rounds : Nat) (placed : reader.Placed size)
    {readSize : Nat} (enough : reader.unread.length + 1 < rounds) :
    if reader.remaining.length < readSize then
      readRounds delivered rounds reader readSize = .error endOfFile
    else ∃ next, readRounds delivered rounds reader readSize =
        .ok (reader.remaining.take readSize, next) ∧ next.Placed size ∧
      next.remaining = reader.remaining.drop readSize := by
  induction rounds generalizing reader readSize with
  | zero => exact absurd enough (Nat.not_lt_zero _)
  | succ rounds ih =>
      obtain ⟨inside, total, fileSize⟩ := placed
      have available : (reader.data.drop reader.offset).length =
          reader.data.length - reader.offset := List.length_drop
      rw [readRounds]
      dsimp only
      by_cases more : min readSize (reader.data.length - reader.offset) < readSize
      · rw [if_pos more]
        have all : min readSize (reader.data.length - reader.offset) =
            reader.data.length - reader.offset := by omega
        obtain ⟨small, some_delivered⟩ := delivers reader.unread
        by_cases ended : delivered reader.unread = 0
        · have nothing : reader.unread = [] := by
            by_contra left
            exact absurd ended (Nat.ne_of_gt (some_delivered left))
          rw [if_pos (by
            rw [remaining, nothing, List.append_nil, available]
            omega), if_pos ended]
          rfl
        · rw [if_neg ended]
          have shorter : (reader.unread.drop (delivered reader.unread)).length + 1 < rounds := by
            rw [List.length_drop]
            omega
          have refilled := @ih ⟨reader.fileSize, reader.unread.take (delivered reader.unread), 0,
            reader.totalRead + reader.data.length,
            reader.unread.drop (delivered reader.unread)⟩ ⟨Nat.zero_le _, by
              simp only [List.length_take, List.length_drop]
              omega, fileSize⟩ (readSize - (reader.data.length - reader.offset)) shorter
          have left : remaining ⟨reader.fileSize, reader.unread.take (delivered reader.unread), 0,
              reader.totalRead + reader.data.length,
              reader.unread.drop (delivered reader.unread)⟩ = reader.unread := by
            rw [remaining, List.drop_zero, List.take_append_drop]
          have copied : (reader.data.drop reader.offset).take
              (min readSize (reader.data.length - reader.offset)) =
                reader.data.drop reader.offset := List.take_of_length_le (by omega)
          rw [left] at refilled
          rw [copied, all]
          split at refilled
          · rename_i short
            rw [if_pos (by
              rw [remaining, List.length_append]
              omega), refilled]
            rfl
          · rename_i long
            obtain ⟨next, ran, next_placed, next_remaining⟩ := refilled
            rw [if_neg (by
              rw [remaining, List.length_append]
              omega), ran]
            refine ⟨next, ?_, next_placed, ?_⟩
            · have front : (reader.data.drop reader.offset).take readSize =
                  reader.data.drop reader.offset := List.take_of_length_le (by omega)
              rw [remaining, List.take_append, front, available]
              rfl
            · have behind : (reader.data.drop reader.offset).drop readSize = [] :=
                List.drop_eq_nil_of_le (by omega)
              rw [next_remaining, remaining, List.drop_append, behind, available, List.nil_append]
      · rw [if_neg more]
        have fits : readSize ≤ reader.data.length - reader.offset := by omega
        have all : min readSize (reader.data.length - reader.offset) = readSize := by omega
        have enough_left : readSize ≤ (reader.data.drop reader.offset).length := by omega
        rw [if_neg (by
          rw [remaining, List.length_append]
          omega), all]
        refine ⟨{ reader with offset := reader.offset + readSize }, ?_, ⟨?_, total, fileSize⟩,
          ?_⟩
        · rw [remaining, List.take_append_of_le_length enough_left]
          rfl
        · exact Nat.add_le_of_le_sub' inside fits
        · rw [remaining, remaining, List.drop_append_of_le_length enough_left, List.drop_drop]

theorem readData_ok (delivers : Delivers delivered) (placed : reader.Placed size)
    (enough : readSize ≤ reader.remaining.length) :
    ∃ next, readData delivered reader readSize = .ok (reader.remaining.take readSize, next) ∧
      next.Placed size ∧ next.remaining = reader.remaining.drop readSize := by
  have spec := @readRounds_spec size reader delivered delivers _ placed readSize
    (Nat.lt_succ_self (reader.unread.length + 1))
  rw [if_neg (Nat.not_lt.mpr enough)] at spec
  obtain ⟨next, ran, next_placed, next_remaining⟩ := spec
  exact ⟨next, ran, next_placed, next_remaining⟩

theorem readData_error (delivers : Delivers delivered) (placed : reader.Placed size)
    (short : reader.remaining.length < readSize) :
    readData delivered reader readSize = .error endOfFile := by
  have spec := @readRounds_spec size reader delivered delivers _ placed readSize
    (Nat.lt_succ_self (reader.unread.length + 1))
  rw [if_pos short] at spec
  exact spec

/-- One reading after the other. -/
def readAll (delivered : List UInt8 → Nat) (reader : BufferedFileReader) :
    List Nat → Except Exception (List (List UInt8) × BufferedFileReader)
  | [] => pure ([], reader)
  | readSize :: sizes => do
      let (first, reader) ← readData delivered reader readSize
      let (rest, reader) ← readAll delivered reader sizes
      pure (first :: rest, reader)

end BufferedFileReader

/-! ## What is written is read -/

/-- A call of a writer. -/
inductive FileWrite where
  | write (bytes : List UInt8)
  | flush
  | sync
  | truncate (size : Nat)
  deriving DecidableEq, Repr

namespace FileWrite

/-- What a call does to a file that is not buffered. -/
def plain (file : List UInt8) : FileWrite → List UInt8
  | write bytes => file ++ bytes
  | flush => file
  | sync => file
  | truncate size => file.take size

def run (writer : BufferedFileWriter) : FileWrite → BufferedFileWriter
  | write bytes => writer.writeData bytes
  | flush => writer.flush
  | sync => writer.sync
  | truncate size => writer.truncate size

/-- A file is not truncated to more than it has. -/
def Allowed : List UInt8 → List FileWrite → Prop
  | _, [] => True
  | file, call :: calls =>
      (∀ size, call = truncate size → size ≤ file.length) ∧ Allowed (plain file call) calls

theorem contents_run (writer : BufferedFileWriter) (call : FileWrite) :
    (call.run writer).contents = call.plain writer.contents := by
  cases call with
  | write bytes => exact BufferedFileWriter.contents_writeData bytes
  | flush => exact BufferedFileWriter.contents_flush
  | sync => exact BufferedFileWriter.contents_sync
  | truncate size => exact BufferedFileWriter.contents_truncate size

theorem contents_runs (writer : BufferedFileWriter) (calls : List FileWrite) :
    (calls.foldl run writer).contents = calls.foldl plain writer.contents := by
  induction calls generalizing writer with
  | nil => rfl
  | cons call calls ih => rw [List.foldl_cons, ih, contents_run, List.foldl_cons]

end FileWrite

/-- The parts of a file that readings of some sizes return, as far as it goes. -/
def fileParts (file : List UInt8) : List Nat → List (List UInt8)
  | [] => []
  | size :: sizes => file.take size :: fileParts (file.drop size) sizes

namespace BufferedFileReader

variable {size : Nat} {reader : BufferedFileReader} {delivered : List UInt8 → Nat}

theorem readAll_ok (delivers : Delivers delivered) (placed : reader.Placed size)
    (enough : sizes.sum ≤ reader.remaining.length) :
    ∃ next, readAll delivered reader sizes = .ok (fileParts reader.remaining sizes, next) ∧
      next.Placed size ∧ next.remaining = reader.remaining.drop sizes.sum := by
  induction sizes generalizing reader with
  | nil => exact ⟨reader, rfl, placed, rfl⟩
  | cons first sizes ih =>
      rw [List.sum_cons] at enough ⊢
      obtain ⟨middle, read, middle_placed, middle_remaining⟩ :=
        readData_ok delivers placed (show first ≤ reader.remaining.length by omega)
      obtain ⟨next, read_rest, next_placed, next_remaining⟩ := ih middle_placed (by
        rw [middle_remaining, List.length_drop]
        omega)
      refine ⟨next, ?_, next_placed, ?_⟩
      · rw [readAll, read]
        dsimp only [bind, Except.bind]
        rw [read_rest, fileParts, middle_remaining]
        rfl
      · rw [next_remaining, middle_remaining, List.drop_drop]

theorem readAll_error (delivers : Delivers delivered) (placed : reader.Placed size)
    (short : reader.remaining.length < sizes.sum) :
    readAll delivered reader sizes = .error endOfFile := by
  induction sizes generalizing reader with
  | nil => exact absurd short (Nat.not_lt_zero _)
  | cons first sizes ih =>
      rw [List.sum_cons] at short
      by_cases fits : first ≤ reader.remaining.length
      · obtain ⟨middle, read, middle_placed, middle_remaining⟩ := readData_ok delivers placed fits
        rw [readAll, read]
        dsimp only [bind, Except.bind]
        rw [ih middle_placed (by
          rw [middle_remaining, List.length_drop]
          omega)]
      · rw [readAll, readData_error delivers placed (Nat.lt_of_not_le fits)]
        rfl

end BufferedFileReader

namespace FileWrite

/--
Whatever calls a writer gets, the flushed file is the plain one, and a reader returns its parts in
order: all readings that the file has bytes for, and an error at its end otherwise.
-/
theorem read_of_written {delivered : List UInt8 → Nat}
    (delivers : BufferedFileReader.Delivers delivered) {file : List UInt8} {calls : List FileWrite}
    (_allowed : Allowed file calls) (sizes : List Nat) :
    let writer := calls.foldl run (.openFile file)
    let written := calls.foldl plain file
    writer.getFileSize = written.length ∧ writer.flush.file = written ∧
      (if written.length < sizes.sum then
        BufferedFileReader.readAll delivered (.openFile writer.flush.file) sizes =
          .error BufferedFileReader.endOfFile
      else
        ∃ reader, BufferedFileReader.readAll delivered (.openFile writer.flush.file) sizes =
            .ok (fileParts written sizes, reader) ∧
          reader.currentOffset = sizes.sum ∧
          (reader.finished = true ↔ sizes.sum = written.length)) := by
  intro writer written
  have contents : writer.contents = written := by
    rw [contents_runs, BufferedFileWriter.contents_openFile]
  have flushed : writer.flush.file = written := contents
  refine ⟨?_, flushed, ?_⟩
  · rw [← contents, BufferedFileWriter.length_contents]
  · rw [flushed]
    have placed := BufferedFileReader.placed_openFile written
    have remaining : (BufferedFileReader.openFile written).remaining = written := rfl
    split
    · rename_i short
      exact BufferedFileReader.readAll_error delivers placed (by rwa [remaining])
    · rename_i enough
      obtain ⟨reader, read, next_placed, next_remaining⟩ :=
        BufferedFileReader.readAll_ok delivers placed (Nat.le_of_not_lt enough)
      rw [remaining] at read next_remaining
      have offset := next_placed.currentOffset_add
      rw [next_remaining, List.length_drop] at offset
      refine ⟨reader, read, by omega, ?_⟩
      rw [next_placed.finished_iff, next_remaining, List.drop_eq_nil_iff]
      omega

/-- A file system that delivers two bytes at a time. -/
theorem read_of_written_short_reads :
    let writer := [write [1, 2, 3], truncate 2, sync, write [4]].foldl run (.openFile [])
    writer.getFileSize = 3 ∧ writer.flush.file = [1, 2, 4] ∧
      ∃ reader, BufferedFileReader.readAll (fun rest => min rest.length 2)
          (.openFile writer.flush.file) [2, 1] = .ok ([[1, 2], [4]], reader) ∧
        reader.currentOffset = 3 ∧ (reader.finished = true ↔ 3 = 3) := by
  have delivers : BufferedFileReader.Delivers fun rest => min rest.length 2 := by
    intro rest
    refine ⟨min_le_left _ _, fun some_rest => ?_⟩
    exact lt_min (List.length_pos_of_ne_nil some_rest) Nat.zero_lt_two
  exact read_of_written delivers (show Allowed [] [write [1, 2, 3], truncate 2, sync, write [4]] by
    simp [Allowed, plain]) [2, 1]

end FileWrite

end StatsRecommender
