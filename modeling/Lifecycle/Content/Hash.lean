import Lifecycle.Content.Sha256
import Lifecycle.Json.Writer

/-!
# The content hash

Two documents have the same content when they differ only in their time stamps, in the space they
are assigned to, and in the order of their keys. The content hash is the digest of the canonical
text of what counts as content.
-/

namespace Lifecycle.Content

/-- Keys that change with every copy of the same content. -/
def volatileKeys : List String := ["date", "modified", "space"]

/-- The fields of a document that count as content. -/
def substance (document : Table Json) (excluded : List String) : Table Json :=
  Table.without document (volatileKeys ++ excluded)

/-- The text that stands for the content of a document. -/
def canonicalText (document : Table Json) (excluded : List String) : List Char :=
  Json.canonical (.object (substance document excluded))

def asciiOctets (cs : List Char) : List UInt8 := cs.map fun c => UInt8.ofNat c.toNat

/-- The content hash of a document, in hexadecimal digits. -/
def hash (document : Table Json) (excluded : List String) : String :=
  String.ofList (Sha256.hexDigest (asciiOctets (canonicalText document excluded)))

end Lifecycle.Content
