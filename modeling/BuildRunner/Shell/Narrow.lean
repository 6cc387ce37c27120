import BuildRunner.Text.Utf8

/-!
# Narrow texts

A shell and its tools work on bytes.  Their texts are narrow: every character is below 256 and
stands for one byte.  `narrow` and `widen` lead from the texts of the machine to narrow ones and
back.
-/

namespace BuildRunner.Shell

open BuildRunner.Text (Bytes encode)

/-- The characters that stand for bytes. -/
def ofBytes (bytes : Bytes) : List Char := bytes.map fun b => Char.ofNat b.toNat

/-- The bytes that narrow characters stand for. -/
def toBytes (s : List Char) : Bytes := s.map fun c => UInt8.ofNat c.toNat

/-- The narrow form of a text. -/
def narrow (s : String) : String := String.ofList (ofBytes (encode s.toList))

/-- The text that a narrow text is the form of. -/
def widen (s : String) : String := String.ofList (Text.decodeUtf8 (toBytes s.toList))

/-- The bytes of a narrow text. -/
def bytesOf (s : String) : Bytes := toBytes s.toList

end BuildRunner.Shell
