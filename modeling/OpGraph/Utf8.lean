/-!
Text as bytes. Files, digests and the JSON reader work on lists of bytes; everything else works on
`String`. Encoding always succeeds and is undone by decoding.
-/

namespace OpGraph

abbrev Bytes := List UInt8

namespace Utf8

def encode (text : String) : Bytes := text.toByteArray.data.toList

/-- The text that these bytes spell, if they spell one. -/
def decode? (bytes : Bytes) : Option String := String.fromUTF8? ⟨bytes.toArray⟩

@[simp] theorem decode?_encode (text : String) : decode? (encode text) = some text := by
  simp [decode?, encode, String.fromUTF8?, text.isValidUTF8, String.fromUTF8]

@[simp] theorem encode_append (first second : String) :
    encode (first ++ second) = encode first ++ encode second := by
  simp [encode]

end Utf8
end OpGraph
