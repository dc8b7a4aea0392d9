import Nonlocal.Proofs.Record.Lists
import Nonlocal.Proofs.Record.Quoted
import Nonlocal.Proofs.Record.Reread

/-!
# A record is read back

The text of a box is read back field by field. Names, ranges and the shape of the matrix are
the same again, whatever the names consist of and whether the shape makes sense. A
probability is read back as `reread` says, which is the probability itself if its decimal is
short, and may be another number if it is not.
-/

namespace Nonlocal.Record

open Decimal

/-- What a record can keep: the ranges are words and every probability is a finite number. -/
structure Recordable (box : Box Float) : Prop where
  inputRange : box.inputRange < Word.limit
  outputRange : box.outputRange < Word.limit
  finite : ∀ row ∈ box.matrix, ∀ cell ∈ row, cell.isFinite

instance (box : Box Float) : Decidable (Recordable box) :=
  decidable_of_iff
    (box.inputRange < Word.limit ∧ box.outputRange < Word.limit
      ∧ ∀ row ∈ box.matrix, ∀ cell ∈ row, cell.isFinite)
    ⟨fun ⟨inputRange, outputRange, finite⟩ => ⟨inputRange, outputRange, finite⟩,
      fun ⟨inputRange, outputRange, finite⟩ => ⟨inputRange, outputRange, finite⟩⟩

/-- A box with every probability as it is read back. -/
def rereadBox (box : Box Float) : Box Float :=
  { box with matrix := box.matrix.map (·.map reread) }

section Values

variable {rest : List Char}

/-- A string starts with its quote. -/
theorem opens_writeString (text : List Char) : OpensElement (writeString text) :=
  ⟨'"', text.flatMap writeChar ++ ['"'], rfl, by decide, by decide⟩

/-- A list starts with its bracket. -/
theorem opens_writeList (elements : List (List Char)) : OpensElement (writeList elements) :=
  ⟨'[', [','].intercalate elements ++ [']'], rfl, by decide, by decide⟩

/-- A finite number starts with a digit or a minus sign. -/
theorem opens_number {number : Float} (finite : number.isFinite) :
    OpensElement (Layout.record.text number).toList := by
  obtain ⟨isNegative, significand, exponent, fields⟩ := fields_of_isFinite finite
  obtain ⟨canonical, -⟩ := Binary64.canonical_of_fields fields
  obtain ⟨first, later, text, starts⟩ :=
    (decimalNumeral_wellFormed isNegative (ofBinary_plain canonical)).starts
  rw [toList_record_text fields, text]
  exact ⟨first, later, rfl, shown_of_starts starts⟩

/-- A string is read back. -/
theorem readText_append (text : String) :
    Gives (readText (writeString text.toList ++ rest)) text rest := by
  obtain ⟨shorter, read⟩ := readString_writeString text.toList rest
  have written : writeString text.toList ++ rest
      = '"' :: (text.toList.flatMap writeChar ++ '"' :: rest) := by simp [writeString]
  rw [written]
  refine ⟨Nat.lt_succ_of_lt shorter, ?_⟩
  simp only [readText, next?_cons (show isBlank '"' = false by decide), if_true, read,
    String.ofList_toList]
  rfl

/-- The names of a side are read back. -/
theorem readNames_append (names : List String) :
    Gives (readList readText (writeNames names ++ rest)) names rest := by
  have gives := @readList_writeList _ _ readText (fun name : String => writeString name.toList) id
    names (fun name _ => opens_writeString name.toList) (fun name _ rest _ => readText_append name)
    rest
  rwa [List.map_id] at gives

/-- The rows of a matrix are read back. -/
theorem readRows_append {rows : List (List Float)}
    (finite : ∀ row ∈ rows, ∀ cell ∈ row, cell.isFinite) :
    Gives (readList (readList readProbability) (writeRows rows ++ rest))
      (rows.map (·.map reread)) rest := by
  refine readList_writeList (fun row _ => opens_writeList _) (fun row member rest _ => ?_) rest
  refine readList_writeList (fun cell inRow => opens_number (finite row member cell inRow))
    (fun cell inRow rest delimited => ?_) rest
  obtain ⟨isNegative, significand, exponent, fields⟩ :=
    fields_of_isFinite (finite row member cell inRow)
  exact readProbability_append fields delimited

end Values

section Entries

variable {box : Box Float} {fields : Fields} {whole rest : List Char}

/-- The fields with one more of a box. -/
def Fields.fill (box : Box Float) (fields : Fields) : Field → Fields
  | .inputs => { fields with inputs := some box.inputs }
  | .outputs => { fields with outputs := some box.outputs }
  | .inputRange => { fields with inputRange := some box.inputRange }
  | .outputRange => { fields with outputRange := some box.outputRange }
  | .probabilities => { fields with probabilities := some box.matrix }

/-- A field has been read once it is filled in, and no other one then is. -/
theorem Fields.has_fill (box : Box Float) (fields : Fields) (field other : Field) :
    (fields.fill box field).has other = (decide (other = field) || fields.has other) := by
  cases field <;> cases other <;> rfl

/-- The value of a field is read back. -/
theorem readField_append (recordable : Recordable box) (field : Field)
    (delimited : Delimited rest) :
    Gives (fields.read field (writeField box field ++ rest)) (fields.fill (rereadBox box) field)
      rest := by
  cases field with
  | inputs =>
    obtain ⟨shorter, read⟩ := @readNames_append rest box.inputs
    exact ⟨shorter, by simp only [Fields.read, writeField, read]; rfl⟩
  | outputs =>
    obtain ⟨shorter, read⟩ := @readNames_append rest box.outputs
    exact ⟨shorter, by simp only [Fields.read, writeField, read]; rfl⟩
  | inputRange =>
    obtain ⟨shorter, read⟩ := readCount_append recordable.inputRange delimited
    exact ⟨shorter, by simp only [Fields.read, writeField, read]; rfl⟩
  | outputRange =>
    obtain ⟨shorter, read⟩ := readCount_append recordable.outputRange delimited
    exact ⟨shorter, by simp only [Fields.read, writeField, read]; rfl⟩
  | probabilities =>
    obtain ⟨shorter, read⟩ := @readRows_append rest box.matrix recordable.finite
    exact ⟨shorter, by simp only [Fields.read, writeField, read]; rfl⟩

/-- The keys of the fields are different. -/
theorem ofKey?_key (field : Field) : Field.ofKey? field.key.toList = some field := by
  cases field <;> rfl

/-- An entry after its opening quote. -/
def entryTail (box : Box Float) (field : Field) (rest : List Char) : List Char :=
  field.key.toList.flatMap writeChar ++ '"' :: ':' :: (writeField box field ++ rest)

/-- An entry starts with the quote of its key. -/
theorem writeEntry_append (box : Box Float) (field : Field) (rest : List Char) :
    writeEntry box field ++ rest = '"' :: entryTail box field rest := by
  simp [writeEntry, writeString, entryTail]

/-- The entry of a field that has not been read fills it in. -/
theorem readEntry_entryTail (recordable : Recordable box) {field : Field}
    (fresh : fields.has field = false) (delimited : Delimited rest) :
    Gives (readEntry fields (entryTail box field rest)) (fields.fill (rereadBox box) field)
      rest := by
  obtain ⟨shorterKey, key⟩ :=
    readString_writeString field.key.toList (':' :: (writeField box field ++ rest))
  have colon : readColon (':' :: (writeField box field ++ rest))
      = .ok ⟨writeField box field ++ rest, Nat.lt_succ_self _⟩ := by
    simp only [readColon, next?_cons (show isBlank ':' = false by decide), if_true]
  obtain ⟨shorterValue, value⟩ := @readField_append box fields rest recordable field delimited
  unfold entryTail
  refine ⟨shorterValue.trans (Nat.lt_of_succ_lt shorterKey), ?_⟩
  rw [readEntry]
  simp only [key, ofKey?_key, fresh, Bool.false_eq_true, if_false, colon, value]
  rfl

/-- The rest of a mapping after an entry: every later entry after its comma, and the closing
brace. -/
def entriesTail (box : Box Float) (later : List Field) (rest : List Char) : List Char :=
  later.flatMap (fun field => ',' :: writeEntry box field) ++ '\x7d' :: rest

/-- The rest of a mapping with one more entry. -/
theorem entriesTail_cons (box : Box Float) (field : Field) (later : List Field)
    (rest : List Char) :
    entriesTail box (field :: later) rest
      = ',' :: '"' :: entryTail box field (entriesTail box later rest) := by
  simp [entriesTail, ← writeEntry_append]

/-- The rest of a mapping may follow an entry. -/
theorem delimited_entriesTail (box : Box Float) (later : List Field) (rest : List Char) :
    Delimited (entriesTail box later rest) := by
  cases later with
  | nil => exact delimited_brace rest
  | cons field later => exact delimited_comma _

/-- A mapping ends at its closing brace if its fields are complete. -/
theorem readEntries_end {result : Box Float} (complete : fields.box = .ok result)
    (isPart : ('\x7d' :: rest).length ≤ whole.length) :
    Gives (readEntries whole false fields ('\x7d' :: rest) isPart) result rest := by
  have brace : next? ('\x7d' :: rest) = some ('\x7d', ⟨rest, Nat.lt_succ_self _⟩) :=
    next?_cons (by decide)
  have ended : nextKey? false ('\x7d' :: rest) = .ok none := by
    simp only [nextKey?, brace]
    rfl
  refine ⟨isPart, ?_⟩
  rw [readEntries]
  simp only [ended, complete, brace]

/-- An entry that is read fills in its field. -/
theorem readEntries_step {isFirst : Bool} {text start later : List Char} {filled : Fields}
    {shorter : start.length < text.length}
    (next : nextKey? isFirst text = .ok (some ⟨start, shorter⟩))
    (gives : Gives (readEntry fields start) filled later)
    (isPart : text.length ≤ whole.length) :
    ∃ isPart', readEntries whole isFirst fields text isPart
      = readEntries whole false filled later isPart' := by
  obtain ⟨shorter', found⟩ := gives
  refine ⟨by omega, ?_⟩
  rw [readEntries]
  simp only [next, found]

/-- The entries after the first one are read back. -/
theorem readEntries_entriesTail (recordable : Recordable box) {result : Box Float}
    {later : List Field} (distinct : later.Nodup)
    (fresh : ∀ field ∈ later, fields.has field = false)
    (complete : (later.foldl (Fields.fill (rereadBox box)) fields).box = .ok result)
    (isPart : (entriesTail box later rest).length ≤ whole.length) :
    Gives (readEntries whole false fields (entriesTail box later rest) isPart) result rest := by
  induction later generalizing fields with
  | nil => exact readEntries_end complete isPart
  | cons field later ih =>
    obtain ⟨absent, distinct⟩ := List.nodup_cons.mp distinct
    obtain ⟨freshFirst, freshLater⟩ := List.forall_mem_cons.mp fresh
    have stillFresh : ∀ other ∈ later, (fields.fill (rereadBox box) field).has other = false := by
      intro other member
      have differs : other ≠ field := fun same => absent (same ▸ member)
      rw [Fields.has_fill, freshLater other member, decide_eq_false differs, Bool.or_false]
    simp only [entriesTail_cons] at isPart ⊢
    have next : nextKey? false (',' :: '"' :: entryTail box field (entriesTail box later rest))
        = .ok (some ⟨entryTail box field (entriesTail box later rest), by
            simp only [List.length_cons]; omega⟩) := by
      simp only [nextKey?, next?_cons (show isBlank ',' = false by decide),
        next?_cons (show isBlank '"' = false by decide)]
      rfl
    obtain ⟨isPart', step⟩ := readEntries_step next (readEntry_entryTail recordable freshFirst
      (delimited_entriesTail box later rest)) isPart
    rw [step]
    exact ih distinct stillFresh complete isPart'

/-- The text of a record is the entry of the first field and the rest. -/
theorem write_eq (box : Box Float) :
    write box = '\x7b' :: '"' :: entryTail box .inputs
      (entriesTail box [.outputs, .inputRange, .outputRange, .probabilities] []) := by
  have all : Field.all = [.inputs, .outputs, .inputRange, .outputRange, .probabilities] := rfl
  rw [write, all, List.map_cons, intercalate_cons, ← writeEntry_append]
  simp [entriesTail]

end Entries

/-- A record is read back, every probability as `reread` says. -/
theorem read_write {box : Box Float} (recordable : Recordable box) :
    read (write box) = .ok (rereadBox box) := by
  have brace : isBlank '\x7b' = false := by decide
  have next (later : List Char) : nextKey? true ('"' :: later)
      = .ok (some ⟨later, Nat.lt_succ_self _⟩) := by
    simp only [nextKey?, next?_cons (show isBlank '"' = false by decide)]
    rfl
  obtain ⟨isPart, step⟩ := readEntries_step (next _)
    (@readEntry_entryTail box {} _ recordable .inputs rfl (delimited_entriesTail box _ []))
    (length_le_self _)
  obtain ⟨shorter, entries⟩ := @readEntries_entriesTail box
    (Fields.fill (rereadBox box) {} .inputs) _ [] recordable (rereadBox box)
    [.outputs, .inputRange, .outputRange, .probabilities] (by decide)
    (by simp [Fields.fill, Fields.has]) rfl isPart
  rw [← step] at entries
  have whole : Gives (readBox (write box)) (rereadBox box) [] := by
    rw [write_eq]
    refine ⟨Nat.succ_pos _, ?_⟩
    simp only [readBox, next?_cons brace, entries]
    rfl
  obtain ⟨shorter, found⟩ := whole
  simp only [read, found, next?_nil]

/-- A list stays as it is if every element does. -/
theorem map_eq_self_iff {α : Type} {change : α → α} {values : List α} :
    values.map change = values ↔ ∀ value ∈ values, change value = value := by
  conv_lhs => rhs; rw [← List.map_id values]
  exact List.map_inj_left

/-- A box is as it was if every probability is. -/
theorem rereadBox_eq_iff (box : Box Float) :
    rereadBox box = box ↔ ∀ row ∈ box.matrix, ∀ cell ∈ row, reread cell = cell := by
  obtain ⟨inputs, outputs, inputRange, outputRange, matrix⟩ := box
  simp only [rereadBox, Box.mk.injEq, true_and, map_eq_self_iff]

/-- The text of a record is always read. What is read has the same names, ranges and shape, and
it is the same box exactly if every probability is read back as itself. So it is if the
probabilities are short. -/
theorem read_write_iff {box : Box Float} (recordable : Recordable box) :
    read (write box) = .ok (rereadBox box)
      ∧ (read (write box) = .ok box ↔ ∀ row ∈ box.matrix, ∀ cell ∈ row, reread cell = cell)
      ∧ ((∀ row ∈ box.matrix, ∀ cell ∈ row, isShort cell) → read (write box) = .ok box) := by
  have same : read (write box) = .ok box
      ↔ ∀ row ∈ box.matrix, ∀ cell ∈ row, reread cell = cell := by
    rw [read_write recordable, Except.ok.injEq, rereadBox_eq_iff]
  refine ⟨read_write recordable, same, fun short => same.mpr fun row member cell inRow => ?_⟩
  exact reread_of_short (short row member cell inRow)

/-- A box whose names have to be escaped, whose ranges are as large as they can be and whose
rows are of different lengths. -/
def escapedBox : Box Float where
  inputs := ["x\"", "\\y"]
  outputs := ["a\n"]
  inputRange := 18446744073709551615
  outputRange := 0
  matrix := [[0.1, -0.0, 1e22], [], [0.3333333333333333]]

/-- The escaped box is read back. -/
theorem escapedBox_read_write :
    Recordable escapedBox ∧ read (write escapedBox) = .ok escapedBox := by
  have recordable : Recordable escapedBox := by decide +kernel
  obtain ⟨-, -, same⟩ := read_write_iff recordable
  exact ⟨recordable, same (by decide +kernel)⟩

/-- A box with a probability whose digits are no number. -/
def slippingBox : Box Float where
  inputs := ["x"]
  outputs := ["a"]
  inputRange := 1
  outputRange := 2
  matrix := [[0.45952253804630605, 0.540477461953694]]

/-- The slipping box is not read back: its first probability comes back as 0.4595225380463061. -/
theorem slippingBox_read_write :
    ¬ (Recordable slippingBox → read (write slippingBox) = .ok slippingBox) := by
  intro same
  have recordable : Recordable slippingBox := by decide +kernel
  have unchanged := same recordable
  rw [read_write recordable, Except.ok.injEq, rereadBox_eq_iff] at unchanged
  have slips : reread 0.45952253804630605 ≠ 0.45952253804630605 := by decide +kernel
  exact slips (unchanged _ (List.mem_singleton_self _) _ List.mem_cons_self)

end Nonlocal.Record
