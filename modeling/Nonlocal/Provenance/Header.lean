import Nonlocal.Provenance.Sha256

/-!
# Provenance of a model

A model may start with comments that say which source it was made from and by
which program.
-/

namespace Nonlocal

/-- Where a model comes from. -/
structure Provenance where
  /-- The digest of the source. -/
  sourceDigest : String
  /-- The program that made the model. -/
  generator : String
  deriving DecidableEq, Repr

namespace Provenance

/-- The name and version of this program. -/
def generatorName : String := "qgrady 0.8.0"

/-- The provenance of a model made from a source by this program. -/
def ofSource (source : List UInt8) : Provenance := ⟨Sha256.digest source, generatorName⟩

/-- Two comment lines and an empty line. -/
def header (provenance : Provenance) : String :=
  s!"// @qgrady-provenance model_sha256={provenance.sourceDigest}\n" ++
  s!"// @qgrady-provenance generator={provenance.generator}\n\n"

end Provenance

end Nonlocal
