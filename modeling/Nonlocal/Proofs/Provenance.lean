import Nonlocal.Proofs.Command.Path
import Nonlocal.Provenance.Header

/-!
# The lines of a provenance

A digest is a row of 64 hexadecimal digits, whatever the message is. So the provenance of a
source is always two comments of one line each and an empty line: the first comment carries
the digest, the second one names the program. What is written behind begins on a new line.
-/

namespace Nonlocal

namespace Sha256

/-- The digits of hexadecimal numbers. -/
def hexDigits : List Char := "0123456789abcdef".toList

/-- A number below 16 is written as a hexadecimal digit. -/
theorem digitChar_mem_hexDigits : ∀ digit < 16, Nat.digitChar digit ∈ hexDigits := by decide

/-- A text in hexadecimal has two digits for each byte. -/
theorem length_hexText (bytes : List UInt8) :
    (hexText bytes).toList.length = 2 * bytes.length := by
  rw [hexText, String.toList_ofList]
  induction bytes with
  | nil => rfl
  | cons byte bytes ih =>
    rw [List.flatMap_cons, List.length_append, ih, List.length_cons]
    simp only [List.length_cons, List.length_nil]
    omega

/-- A text in hexadecimal consists of digits. -/
theorem mem_hexDigits_of_hexText (bytes : List UInt8) :
    ∀ char ∈ (hexText bytes).toList, char ∈ hexDigits := by
  intro char member
  rw [hexText, String.toList_ofList] at member
  obtain ⟨byte, -, isDigit⟩ := List.mem_flatMap.mp member
  have size := byte.toNat_lt
  rcases List.mem_pair.mp isDigit with rfl | rfl
  · exact digitChar_mem_hexDigits _ (by omega)
  · exact digitChar_mem_hexDigits _ (by omega)

/-- A digest consists of 32 bytes. -/
theorem length_bytes (state : State) : state.bytes.length = 32 := rfl

/-- A digest is written in 64 hexadecimal digits. -/
theorem digest_spec (message : List UInt8) : (digest message).toList.length = 64
    ∧ ∀ char ∈ (digest message).toList, char ∈ hexDigits :=
  ⟨by rw [digest, length_hexText, length_bytes], mem_hexDigits_of_hexText _⟩

/-- A digest is written in one line. -/
theorem newline_not_mem_digest (message : List UInt8) : '\n' ∉ (digest message).toList :=
  fun member => absurd ((digest_spec message).2 '\n' member) (by decide)

end Sha256

namespace Provenance

/-- The comment that carries the digest of the source. -/
def digestLine (provenance : Provenance) : List Char :=
  "// @qgrady-provenance model_sha256=".toList ++ provenance.sourceDigest.toList

/-- The comment that names the program. -/
def generatorLine (provenance : Provenance) : List Char :=
  "// @qgrady-provenance generator=".toList ++ provenance.generator.toList

/-- A header is written as two comments and two line feeds more. -/
theorem toList_header (provenance : Provenance) : provenance.header.toList
    = provenance.digestLine ++ '\n' :: (provenance.generatorLine ++ ['\n', '\n']) := by
  have text : provenance.header
      = ("// @qgrady-provenance model_sha256=" ++ provenance.sourceDigest ++ "\n")
        ++ ("// @qgrady-provenance generator=" ++ provenance.generator ++ "\n\n") := rfl
  have one : "\n".toList = ['\n'] := rfl
  have two : "\n\n".toList = ['\n', '\n'] := rfl
  rw [text, String.toList_append, String.toList_append, String.toList_append]
  rw [String.toList_append, String.toList_append, one, two, List.append_assoc]
  rfl

/-- The lines of a header are its two comments, if what they carry has no line feeds. An empty
line and the lines of what is written behind follow. -/
theorem split_header {provenance : Provenance} (oneLine : '\n' ∉ provenance.sourceDigest.toList)
    (oneLine' : '\n' ∉ provenance.generator.toList) (rest : List Char) :
    Text.split '\n' (provenance.header.toList ++ rest)
      = provenance.digestLine :: provenance.generatorLine :: [] :: Text.split '\n' rest := by
  have clear : '\n' ∉ provenance.digestLine := fun member =>
    (List.mem_append.mp member).elim (by decide +kernel) oneLine
  have clear' : '\n' ∉ provenance.generatorLine := fun member =>
    (List.mem_append.mp member).elim (by decide +kernel) oneLine'
  rw [toList_header, List.append_assoc, List.cons_append, List.append_assoc,
    Text.split_of_first clear]
  change _ :: Text.split '\n' (provenance.generatorLine ++ '\n' :: '\n' :: rest) = _
  rw [Text.split_of_first clear', Text.split, if_pos rfl]

/-- The provenance of a source has such a header, whatever the bytes of the source are. -/
theorem split_header_ofSource (source : List UInt8) (rest : List Char) :
    Text.split '\n' ((ofSource source).header.toList ++ rest)
      = (ofSource source).digestLine :: (ofSource source).generatorLine :: []
        :: Text.split '\n' rest := by
  have oneLine : '\n' ∉ (ofSource source).sourceDigest.toList :=
    Sha256.newline_not_mem_digest source
  have oneLine' : '\n' ∉ (ofSource source).generator.toList := by
    rw [show (ofSource source).generator = generatorName from rfl]
    decide +kernel
  exact split_header oneLine oneLine' rest

end Provenance

end Nonlocal
